import StandaloneDrivers.Rt5572.AesAgreement
import StandaloneDrivers.Rt5572.CcmAuthenticity

/-! The counter blocks and the header blocks of a CCMP frame, as the generic mode is given them. -/
namespace Rt5572
open Foundations

/-- A header of a data frame, as long as its fields say. -/
structure DataHeader (hdr : List UInt8) : Prop where
  data : isDataFrame hdr = true
  length : hdr.length = ccmpHeaderLen (a4Exists hdr) (qosSubtype hdr)

/-- The protected frame bit set. -/
def protectedHdr (hdr : List UInt8) : List UInt8 := hdr.set 1 (hdr.getD 1 0 ||| 0x40)

/-- Bit 6 of the first byte cleared, which marks a frame without data. -/
def dataHdr (hdr : List UInt8) : List UInt8 := hdr.set 0 (hdr.getD 0 0 &&& 0xbf)

section Bits
variable {hdr : List UInt8} {i : ℕ}

theorem set_getD_ne {j : ℕ} (v : UInt8) (h : i ≠ j) :
    (hdr.set j v).getD i 0 = hdr.getD i 0 := by
  rw [List.getD_eq_getElem?_getD, List.getElem?_set_ne (Ne.symm h), List.getD_eq_getElem?_getD]

theorem set_getD_self (v : UInt8) (h : i < hdr.length) : (hdr.set i v).getD i 0 = v := by
  rw [List.getD_eq_getElem _ _ (by rwa [List.length_set]), List.getElem_set_self]

theorem field_set {j n : ℕ} (v : UInt8) (h : j < i) :
    field (hdr.set j v) i n = field hdr i n := by
  apply List.map_congr_left
  intro k _
  exact set_getD_ne v (by omega)

/-- The first header block of a frame, with what the masks leave of its first two bytes. -/
theorem constructMicHeader1_eq (h : 1 < hdr.length) (n : ℕ) :
    constructMicHeader1 n (protectedHdr hdr) =
      padBlock ([UInt8.ofNat ((n - 2) / 256), UInt8.ofNat ((n - 2) % 256),
        hdr.getD 0 0 &&& 0xcf, (hdr.getD 1 0 &&& 0xc7) ||| 0x40] ++ field hdr 4 12) := by
  have hmask (b : UInt8) : (b ||| 0x40) &&& 0xc7 = (b &&& 0xc7) ||| 0x40 := by
    apply UInt8.toBitVec_inj.mp
    rw [UInt8.toBitVec_and, UInt8.toBitVec_or, BitVec.and_or_distrib_right]
    rfl
  rw [constructMicHeader1, protectedHdr, set_getD_ne _ (by decide), set_getD_self _ h,
    field_set _ (by decide), hmask]

end Bits

section Codes
variable (key : CipherBlock) (hdr pn : List UInt8)

/-- The counter blocks of a frame. -/
def frameCounter (c : ℕ) : CipherBlock :=
  constructCtrPreload hdr (a4Exists hdr) (qosSubtype hdr) pn c

/-- The same with the number cut to a byte. -/
def byteCounter (c : ℕ) : CipherBlock := frameCounter hdr pn (c % 256)

/-- The chain over the nonce and the header of a frame with `n` bytes of payload; the first header
block is made of `first`. -/
def headerChain (first : List UInt8) (n : ℕ) : CipherBlock :=
  let a4 := a4Exists hdr
  let qc := qosSubtype hdr
  chain (aes128k128d key) (aes128k128d key (constructMicIv hdr a4 qc pn n))
    [constructMicHeader1 hdr.length (protectedHdr first), constructMicHeader2 hdr a4 qc]

/-- The code of a payload, with the first header block made of `first`. -/
def frameCode (first payload : List UInt8) : List UInt8 :=
  (chain (aes128k128d key) (headerChain key hdr pn first payload.length)
    (blocksOf payload)).toList.take 8

theorem frameCode_length (first payload : List UInt8) :
    (frameCode key hdr pn first payload).length = 8 := by
  rw [frameCode, List.length_take, Vector.length_toList]
  rfl

end Codes

section Params
variable {hdr : List UInt8} (key : CipherBlock) (pn : List UInt8)

theorem cipherBlock_eq (b : CipherBlock) : cipherBlock key.toList b = aes128k128d key b := by
  rw [cipherBlock, rtAesEncrypt_eq, Option.getD_some]

theorem ccmpParams_cipher : (ccmpParams key hdr pn).cipher = aes128k128d key :=
  funext (cipherBlock_eq key)

theorem nonceTail_length : (nonceTail hdr pn).length = 12 := by
  simp only [nonceTail, List.length_append, field_length, List.length_map, List.length_range]

variable (hdr) in
theorem ccmpParams_ok : (ccmpParams key hdr pn).checkInput = .ok () := by
  have hkey : (ccmpParams key hdr pn).key.length = 16 := Vector.length_toList
  have hnonce : (ccmpParams key hdr pn).nonce.length = 13 := by
    simp only [ccmpParams, rtmpConstructCCMPNonce, List.length_cons, nonceTail_length]
  have hmac : (ccmpParams key hdr pn).macLength = 8 := rfl
  simp only [CcmParams.checkInput, hkey, hnonce, hmac]
  rfl

variable (hdr) in
theorem rtmpConstructCCMPAAD_length (data a4 qc : Bool) :
    (rtmpConstructCCMPAAD hdr data a4 qc).length + 2 = ccmpHeaderLen a4 qc := by
  cases a4 <;> cases qc <;> simp [rtmpConstructCCMPAAD, ccmpHeaderLen]

section Nonce
variable (hdr) (flags : UInt8) (a4 qc : Bool) (n : ℕ)

theorem nonceBlock_front {i : ℕ} (hi : i < 14) : (nonceBlock flags hdr a4 qc pn n)[i] =
    (flags :: qosTid hdr a4 qc :: nonceTail hdr pn).getD i 0 := by
  rw [nonceBlock, padBlock_getElem]
  exact List.getD_append _ _ _ _ (by
    rw [List.length_append, nonceTail_length]
    exact hi)

theorem nonceBlock_14 :
    getElem (nonceBlock flags hdr a4 qc pn n) 14 fourteen_lt_sixteen = UInt8.ofNat (n / 256) := by
  rw [nonceBlock, padBlock_getElem, List.getD_append_right]
  · simp [nonceTail_length]
  · simp [nonceTail_length]

theorem nonceBlock_15 :
    getElem (nonceBlock flags hdr a4 qc pn n) 15 fifteen_lt_sixteen = UInt8.ofNat n := by
  rw [nonceBlock, padBlock_getElem, List.getD_append_right]
  · simp only [List.length_append, nonceTail_length, List.length_cons, List.length_nil]
    exact UInt8.ofNat_mod_size
  · simp [nonceTail_length]

end Nonce

/-- A data frame has a QoS field when its subtype says so. -/
theorem ccmpParams_nonce (hdata : isDataFrame hdr = true) : (ccmpParams key hdr pn).nonce =
    qosTid hdr (a4Exists hdr) (qosSubtype hdr) :: nonceTail hdr pn := by
  simp only [ccmpParams, rtmpConstructCCMPNonce, hdata, Bool.true_and]

theorem ccmpParams_counter (hdata : isDataFrame hdr = true) (c : ℕ) :
    (ccmpParams key hdr pn).counter c = byteCounter hdr pn c := by
  have hlen : (ccmpParams key hdr pn).nonce.length = 13 := by
    rw [ccmpParams_nonce key pn hdata, List.length_cons, nonceTail_length]
  apply Vector.ext
  intro i hi
  rw [CcmParams.counter, Vector.getElem_set, CcmParams.counterBlock, padBlock_getElem,
    padBlock_getElem, hlen, ccmpParams_nonce key pn hdata]
  split
  · rename_i heq
    subst heq
    have hbehind : (UInt8.ofNat (15 - 13 - 1) :: qosTid hdr (a4Exists hdr) (qosSubtype hdr) ::
        nonceTail hdr pn).getD 15 0 = 0 :=
      List.getD_eq_default _ _ (by simp [nonceTail_length])
    simp only [byteCounter, frameCounter, constructCtrPreload, nonceBlock_15, hbehind, UInt8.zero_add]
    exact UInt8.ofNat_mod_size.symm
  · rename_i hne
    rcases Nat.lt_or_ge i 14 with hlt | hge
    · simp only [byteCounter, frameCounter, constructCtrPreload]
      rw [nonceBlock_front hdr pn _ _ _ _ hlt]
      rfl
    · have heq : i = 14 := by omega
      subst heq
      have hdiv : c % 256 / 256 = 0 := by omega
      simp only [byteCounter, frameCounter, constructCtrPreload, nonceBlock_14, hdiv]
      exact List.getD_eq_default _ _ (by simp [nonceTail_length])

theorem ccmpParams_controlBlock (hhdr : DataHeader hdr) (n : ℕ) :
    (ccmpParams key hdr pn).controlBlock n =
      constructMicIv hdr (a4Exists hdr) (qosSubtype hdr) pn n := by
  have hlen : (ccmpParams key hdr pn).nonce.length = 13 := by
    rw [ccmpParams_nonce key pn hhdr.data, List.length_cons, nonceTail_length]
  have hflags : (ccmpParams key hdr pn).macFlags = 0x59 := by
    have haad : 0 < (ccmpParams key hdr pn).aad.length := by
      have h := rtmpConstructCCMPAAD_length hdr (isDataFrame hdr) (a4Exists hdr)
        (isDataFrame hdr && qosSubtype hdr)
      have hge : 24 ≤ ccmpHeaderLen (a4Exists hdr) (isDataFrame hdr && qosSubtype hdr) := by
        unfold ccmpHeaderLen
        omega
      show 0 < (rtmpConstructCCMPAAD _ _ _ _).length
      omega
    rw [CcmParams.macFlags, if_pos haad, hlen]
    show (0x40 ||| UInt8.ofNat ((8 - 2) / 2 * 8) ||| UInt8.ofNat (15 - 13 - 1) : UInt8) = 0x59
    decide
  apply Vector.ext
  intro i hi
  simp only [CcmParams.controlBlock, Vector.getElem_ofFn, hlen, hflags, constructMicIv]
  rw [ccmpParams_nonce key pn hhdr.data]
  rcases Nat.lt_or_ge i 14 with hlt | hge
  · rw [if_neg (by omega), if_neg (by omega), if_neg (by omega), if_neg (by omega),
      nonceBlock_front hdr pn _ _ _ _ hlt]
  · by_cases h15 : i = 15
    · subst h15
      rw [if_pos rfl, nonceBlock_15]
    · have h14 : i = 14 := by omega
      subst h14
      rw [if_neg h15, if_pos rfl, nonceBlock_14]

theorem ccmpParams_aadBlocks (hhdr : DataHeader hdr) :
    (ccmpParams key hdr pn).aadBlocks =
      [constructMicHeader1 hdr.length (protectedHdr (dataHdr hdr)),
        constructMicHeader2 hdr (a4Exists hdr) (qosSubtype hdr)] := by
  have haad : (ccmpParams key hdr pn).aad =
      rtmpConstructCCMPAAD hdr true (a4Exists hdr) (qosSubtype hdr) := by
    simp only [ccmpParams, hhdr.data, Bool.true_and]
  have hlen : (ccmpParams key hdr pn).aad.length = hdr.length - 2 := by
    rw [haad, hhdr.length, ← rtmpConstructCCMPAAD_length hdr true, Nat.add_sub_cancel]
  have hshort : 24 ≤ hdr.length ∧ hdr.length ≤ 32 := by
    rw [hhdr.length, ccmpHeaderLen]
    constructor
    · omega
    · split <;> split <;> omega
  have hhead : (ccmpParams key hdr pn).aadHead =
      [UInt8.ofNat ((hdr.length - 2) / 256), UInt8.ofNat ((hdr.length - 2) % 256)] := by
    rw [CcmParams.aadHead, hlen, if_pos (by omega), UInt8.ofNat_mod_size]
  have hmask (b : UInt8) : (b &&& 0xbf) &&& 0xcf = b &&& 0x8f := by
    rw [UInt8.and_assoc]
    rfl
  have hheader1 : constructMicHeader1 hdr.length (protectedHdr (dataHdr hdr)) =
      padBlock ([UInt8.ofNat ((hdr.length - 2) / 256), UInt8.ofNat ((hdr.length - 2) % 256),
        hdr.getD 0 0 &&& 0x8f, (hdr.getD 1 0 &&& 0xc7) ||| 0x40] ++ field hdr 4 12) := by
    rw [constructMicHeader1_eq (by rw [dataHdr, List.length_set]; omega), dataHdr,
      set_getD_self _ (by omega), set_getD_ne _ (by decide), field_set _ (by decide), hmask]
  have hne : (ccmpParams key hdr pn).aad ≠ [] := by
    intro hnil
    rw [hnil, List.length_nil] at hlen
    omega
  rw [CcmParams.aadBlocks, if_neg hne, hhead, hheader1, constructMicHeader2]
  have hsplit : [UInt8.ofNat ((hdr.length - 2) / 256), UInt8.ofNat ((hdr.length - 2) % 256)] ++
      (ccmpParams key hdr pn).aad =
        ([UInt8.ofNat ((hdr.length - 2) / 256), UInt8.ofNat ((hdr.length - 2) % 256),
          hdr.getD 0 0 &&& 0x8f, (hdr.getD 1 0 &&& 0xc7) ||| 0x40] ++ field hdr 4 12) ++
        (field hdr 16 6 ++ [hdr.getD 22 0 &&& 0x0f, 0x00] ++
          (if a4Exists hdr then field hdr 24 6 else []) ++
          if qosSubtype hdr then [hdr.getD (qosOffset (a4Exists hdr)) 0 &&& 0x0f, 0x00] else []) := by
    simp only [haad, rtmpConstructCCMPAAD, field_add hdr 4 12 6, if_true, List.append_assoc,
      List.cons_append, List.nil_append]
  have htotal := congrArg List.length hsplit
  simp only [List.length_append, hlen, List.length_cons, List.length_nil, field_length] at htotal
  rw [hsplit, blocksOf_append (by simp only [List.length_append, List.length_cons, List.length_nil,
    field_length]), blocksOf_single]
  · simp only [List.length_append, List.length_cons, List.length_nil, field_length]
    omega
  · simp only [List.length_append, List.length_cons, List.length_nil, field_length]
    omega

/-- The generic mode computes the code with bit 6 of the header masked. -/
theorem ccmpParams_mac (hhdr : DataHeader hdr) (payload : List UInt8) :
    (ccmpParams key hdr pn).aesCcmMac payload =
      frameCode key hdr pn (dataHdr hdr) payload := by
  rw [CcmParams.aesCcmMac, ccmpParams_cipher, ccmpParams_controlBlock key pn hhdr,
    ccmpParams_aadBlocks key pn hhdr]
  rfl

end Params

end Rt5572
