import StandaloneDrivers.Rt5572.CcmpBlocks

/-! The decryption that moves the payload over the CCMP header while it opens it. -/
namespace Rt5572
open Foundations

section SoftDecrypt
variable {hdr : List UInt8} (key : CipherBlock) (pn : List UInt8)

namespace DataHeader

theorem three_addresses (hhdr : DataHeader hdr) : 24 ≤ hdr.length := by
  rw [hhdr.length, ccmpHeaderLen]
  omega

theorem four_addresses (hhdr : DataHeader hdr) (ha4 : a4Exists hdr = true) :
    30 ≤ hdr.length := by
  rw [hhdr.length, ccmpHeaderLen, ha4, if_pos rfl]
  omega

theorem qosOffset_lt (hhdr : DataHeader hdr) (hqc : qosSubtype hdr = true) :
    qosOffset (a4Exists hdr) < hdr.length := by
  rw [hhdr.length, ccmpHeaderLen, qosOffset, hqc, if_pos rfl]
  split <;> omega

end DataHeader

/-- A frame has the fields of a header behind the frame control field. -/
def SameFields (mpdu hdr : List UInt8) : Prop :=
  ∀ i, 4 ≤ i → i < hdr.length → mpdu.getD i 0 = hdr.getD i 0

theorem sameFields_append (r : List UInt8) : SameFields (hdr ++ r) hdr :=
  fun _ _ hlt => List.getD_append _ _ _ _ hlt

theorem sameFields_protected (r : List UInt8) : SameFields (protectedHdr hdr ++ r) hdr := by
  intro i hge hlt
  rw [List.getD_append _ _ _ _ (by rwa [protectedHdr, List.length_set]), protectedHdr,
    set_getD_ne _ (by omega)]

section Fields
variable {mpdu : List UInt8} (hhdr : DataHeader hdr) (hsame : SameFields mpdu hdr)
include hsame

theorem field_congr {i n : ℕ} (h4 : 4 ≤ i) (h : i + n ≤ hdr.length) :
    field mpdu i n = field hdr i n := by
  apply List.map_congr_left
  intro k hk
  have hlt := List.mem_range.mp hk
  exact hsame (i + k) (by omega) (by omega)

include hhdr

theorem qosTid_congr : qosTid mpdu (a4Exists hdr) (qosSubtype hdr) =
    qosTid hdr (a4Exists hdr) (qosSubtype hdr) := by
  unfold qosTid
  cases hqc : qosSubtype hdr with
  | false => rfl
  | true =>
    have hge : 4 ≤ qosOffset (a4Exists hdr) := by
      unfold qosOffset
      split <;> decide
    rw [if_pos rfl, if_pos rfl, hsame _ hge (hhdr.qosOffset_lt hqc)]

theorem nonceBlock_congr (flags : UInt8) (n : ℕ) :
    nonceBlock flags mpdu (a4Exists hdr) (qosSubtype hdr) pn n =
      nonceBlock flags hdr (a4Exists hdr) (qosSubtype hdr) pn n := by
  have hlen := hhdr.three_addresses
  rw [nonceBlock, nonceBlock, qosTid_congr hhdr hsame, nonceTail, nonceTail,
    field_congr hsame (by decide) (by omega)]

theorem constructMicHeader2_congr :
    constructMicHeader2 mpdu (a4Exists hdr) (qosSubtype hdr) =
      constructMicHeader2 hdr (a4Exists hdr) (qosSubtype hdr) := by
  have hlen := hhdr.three_addresses
  have ha4 : (if a4Exists hdr then field mpdu 24 6 else []) =
      if a4Exists hdr then field hdr 24 6 else [] := by
    split
    · rename_i h
      exact field_congr hsame (by decide) (hhdr.four_addresses h)
    · rfl
  have hqc : (if qosSubtype hdr then [mpdu.getD (qosOffset (a4Exists hdr)) 0 &&& 0x0f, 0x00]
      else []) = if qosSubtype hdr then [hdr.getD (qosOffset (a4Exists hdr)) 0 &&& 0x0f, 0x00]
        else [] := by
    split
    · rename_i h
      have hge : 4 ≤ qosOffset (a4Exists hdr) := by
        unfold qosOffset
        split <;> decide
      rw [hsame _ hge (hhdr.qosOffset_lt h)]
    · rfl
  rw [constructMicHeader2, constructMicHeader2, ha4, hqc,
    field_congr hsame (by decide) (by omega), hsame 22 (by decide) (by omega)]

end Fields

theorem constructMicHeader1_append (h : 16 ≤ hdr.length) (r : List UInt8) (n : ℕ) :
    constructMicHeader1 n (hdr ++ r) = constructMicHeader1 n hdr := by
  rw [constructMicHeader1, constructMicHeader1,
    field_congr (sameFields_append r) (by decide) (by omega),
    List.getD_append _ _ _ _ (by omega), List.getD_append _ _ _ _ (by omega)]

/-- A deciphered block follows those before it, and the eight bytes behind it are free. -/
theorem openBlock_eq (hhdr : DataHeader hdr) {plain gap rest : List UInt8} {n i : ℕ} (c : ℕ)
    (hgap : gap.length = 8) (hn : n ≤ 16) (hrest : n ≤ rest.length)
    (hi : i = hdr.length + 8 + plain.length) :
    ∃ gap' : List UInt8, gap'.length = 8 ∧
      openBlock key (a4Exists hdr) (qosSubtype hdr) pn n (hdr ++ plain ++ gap ++ rest) i c =
        hdr ++ (plain ++ xorBytes (rest.take n)
          (aes128k128d key (frameCounter hdr pn c)).toList) ++ gap' ++ rest.drop n := by
  have hslice : slice (hdr ++ plain ++ gap ++ rest) i n = rest.take n := by
    have hfront : (hdr ++ plain ++ gap).length = i := by
      simp only [List.length_append]
      omega
    rw [slice, List.drop_left' hfront]
  have hctr : constructCtrPreload (hdr ++ plain ++ gap ++ rest) (a4Exists hdr) (qosSubtype hdr) pn c =
      frameCounter hdr pn c := by
    rw [List.append_assoc, List.append_assoc]
    exact nonceBlock_congr pn hhdr (sameFields_append _) _ _
  have htake : (rest.take n).length = n := List.length_take_of_le hrest
  have hbytes := take_xorBlock (aes128k128d key (frameCounter hdr pn c)) (rest.take n)
  rw [htake] at hbytes
  have hnew : (xorBytes (rest.take n)
      (aes128k128d key (frameCounter hdr pn c)).toList).length = n := by
    rw [xorBytes_length, htake, Vector.length_toList]
    omega
  have hplace : i - 8 = (hdr ++ plain).length := by
    rw [List.length_append]
    omega
  obtain ⟨gap', hgap', hcut⟩ :
      ∃ gap' : List UInt8, gap'.length = 8 ∧ (gap ++ rest).drop n = gap' ++ rest.drop n := by
    have hbehind : ((gap ++ rest).drop n).drop 8 = rest.drop n := by
      rw [List.drop_drop, Nat.add_comm, ← List.drop_drop, List.drop_left' hgap]
    refine ⟨((gap ++ rest).drop n).take 8, ?_, ?_⟩
    · simp only [List.length_take, List.length_drop, List.length_append]
      omega
    · rw [← hbehind, List.take_append_drop]
  refine ⟨gap', hgap', ?_⟩
  simp only [openBlock, hslice, hctr, hbytes, hplace]
  rw [overwrite_eq (by simp only [hnew, List.length_append]; omega), hnew,
    List.append_assoc (hdr ++ plain) gap rest, List.take_left' rfl, ← List.drop_drop,
    List.drop_left' rfl, hcut]
  simp only [List.append_assoc]

/-- The blocks that were opened, where they stand. -/
theorem openBlocks_eq (hhdr : DataHeader hdr) {gap body : List UInt8} (hgap : gap.length = 8)
    {k : ℕ} (hk : 16 * k ≤ body.length) :
    ∃ gap' : List UInt8, gap'.length = 8 ∧
      (List.range k).foldl (fun pData i => openBlock key (a4Exists hdr) (qosSubtype hdr) pn 16 pData
        (hdr.length + 8 + 16 * i) (i + 1)) (hdr ++ gap ++ body) =
        hdr ++ xorBytes (body.take (16 * k))
          (keyStream (aes128k128d key) (frameCounter hdr pn) k) ++ gap' ++ body.drop (16 * k) := by
  induction k with
  | zero =>
    refine ⟨gap, hgap, ?_⟩
    rw [List.range_zero, List.foldl_nil, Nat.mul_zero, List.take_zero, List.drop_zero]
    simp [xorBytes]
  | succ k ih =>
    obtain ⟨gap', hgap', heq⟩ := ih (by omega)
    have hlen : (body.take (16 * k)).length =
        (keyStream (aes128k128d key) (frameCounter hdr pn) k).length := by
      rw [keyStream_length, List.length_take]
      omega
    have hplain : hdr.length + 8 + 16 * k = hdr.length + 8 + (xorBytes (body.take (16 * k))
        (keyStream (aes128k128d key) (frameCounter hdr pn) k)).length := by
      rw [xorBytes_length, hlen, Nat.min_self, keyStream_length]
    have hrest : 16 ≤ (body.drop (16 * k)).length := by
      rw [List.length_drop]
      omega
    obtain ⟨gap'', hgap'', hopen⟩ :=
      openBlock_eq key pn hhdr (k + 1) hgap' (Nat.le_refl 16) hrest hplain
    refine ⟨gap'', hgap'', ?_⟩
    rw [List.range_succ, List.foldl_append, heq, List.foldl_cons, List.foldl_nil, hopen,
      keyStream_succ, Nat.mul_succ, List.take_add, xorBytes_append hlen, List.drop_drop]

/-- The payload is opened to the place right behind the header. -/
theorem openPayload_eq (hhdr : DataHeader hdr) {gap body : List UInt8} (hgap : gap.length = 8)
    {n : ℕ} (hn : n ≤ body.length) :
    ∃ gap' : List UInt8, gap'.length = 8 ∧
      openPayload key (a4Exists hdr) (qosSubtype hdr) pn n (hdr ++ gap ++ body) =
        hdr ++ streamXor (aes128k128d key) (frameCounter hdr pn) (body.take n) ++ gap' ++
          body.drop n := by
  have hstart : ccmpHeaderLen (a4Exists hdr) (qosSubtype hdr) = hdr.length := hhdr.length.symm
  have hsplit : n = 16 * (n / 16) + n % 16 := (Nat.div_add_mod n 16).symm
  obtain ⟨gap', hgap', hblocks⟩ := openBlocks_eq key pn hhdr hgap
    (show 16 * (n / 16) ≤ body.length by omega)
  have hlen : (body.take (16 * (n / 16))).length =
      (keyStream (aes128k128d key) (frameCounter hdr pn) (n / 16)).length := by
    rw [keyStream_length, List.length_take]
    omega
  have htext : (body.take n).length = n := List.length_take_of_le hn
  simp only [openPayload, hstart, hblocks]
  split
  · rename_i hpos
    have hplain : hdr.length + 8 + 16 * (n / 16) = hdr.length + 8 +
        (xorBytes (body.take (16 * (n / 16)))
          (keyStream (aes128k128d key) (frameCounter hdr pn) (n / 16))).length := by
      rw [xorBytes_length, hlen, Nat.min_self, keyStream_length]
    have hrest : n % 16 ≤ (body.drop (16 * (n / 16))).length := by
      rw [List.length_drop]
      omega
    obtain ⟨gap'', hgap'', hopen⟩ := openBlock_eq key pn hhdr (n / 16 + 1) hgap'
      (show n % 16 ≤ 16 by omega) hrest hplain
    have hcount : (n + 15) / 16 = n / 16 + 1 := by omega
    have htake : body.take n =
        body.take (16 * (n / 16)) ++ (body.drop (16 * (n / 16))).take (n % 16) := by
      rw [← List.take_add, ← hsplit]
    refine ⟨gap'', hgap'', ?_⟩
    rw [hopen, streamXor, htext, hcount, keyStream_succ, List.drop_drop, ← hsplit, htake,
      xorBytes_append hlen]
  · have hcount : (n + 15) / 16 = n / 16 := by omega
    have heq : 16 * (n / 16) = n := by omega
    refine ⟨gap', hgap', ?_⟩
    rw [streamXor, htext, hcount, heq]

theorem frameMic_eq (hhdr : DataHeader hdr) (text behind : List UInt8) :
    frameMic key (a4Exists hdr) (qosSubtype hdr) pn text.length
      (protectedHdr hdr ++ text ++ behind) =
        frameCode key hdr pn hdr text := by
  have hstart : ccmpHeaderLen (a4Exists hdr) (qosSubtype hdr) = hdr.length := hhdr.length.symm
  have hlen : (protectedHdr hdr).length = hdr.length := List.length_set
  have h24 := hhdr.three_addresses
  have htext := field_middle (protectedHdr hdr) text behind
  rw [hlen] at htext
  have hheader1 : constructMicHeader1 hdr.length (protectedHdr hdr ++ (text ++ behind)) =
      constructMicHeader1 hdr.length (protectedHdr hdr) :=
    constructMicHeader1_append (by omega) _ _
  have hiv := nonceBlock_congr pn hhdr (sameFields_protected (text ++ behind)) 0x59 text.length
  have hheader2 := constructMicHeader2_congr hhdr (sameFields_protected (text ++ behind))
  rw [List.append_assoc] at htext ⊢
  simp only [frameMic, hstart, constructMicIv, hiv, hheader1, hheader2, htext, frameCode,
    headerChain, ← chain_append, List.cons_append, List.nil_append]

section Front
variable (hhdr : DataHeader hdr) (r : List UInt8)
include hhdr

theorem a4Exists_append : a4Exists (hdr ++ r) = a4Exists hdr := by
  have h24 := hhdr.three_addresses
  rw [a4Exists, a4Exists, List.getD_append _ _ _ _ (by omega)]

theorem qosSubtype_append : qosSubtype (hdr ++ r) = qosSubtype hdr := by
  have h24 := hhdr.three_addresses
  rw [qosSubtype, qosSubtype, frameSubtype, frameSubtype, List.getD_append _ _ _ _ (by omega)]

/-- The protected frame bit is set in the header. -/
theorem set_protected :
    (hdr ++ r).set 1 ((hdr ++ r).getD 1 0 ||| 0x40) = protectedHdr hdr ++ r := by
  have h24 := hhdr.three_addresses
  rw [List.set_append_left _ _ (by omega), List.getD_append _ _ _ _ (by omega), protectedHdr]

end Front

theorem ccmpPn_append {gap : List UInt8} (hgap : gap.length = 8) (r : List UInt8) :
    ccmpPn (gap ++ r) = ccmpPn gap := by
  have hbyte : ∀ i < 8, (gap ++ r).getD i 0 = gap.getD i 0 := fun i hi =>
    List.getD_append _ _ _ _ (by omega)
  simp only [ccmpPn, List.map_cons, List.map_nil, hbyte 0 (by decide), hbyte 1 (by decide),
    hbyte 4 (by decide), hbyte 5 (by decide), hbyte 6 (by decide), hbyte 7 (by decide)]

/-- What `rtmpSoftDecryptAES` leaves behind the header of a frame that it accepts. -/
def softOpened (key : CipherKey) (hdr data : List UInt8) : Option (List UInt8) :=
  let r := rtmpSoftDecryptAES key (hdr ++ data) (hdr.length + data.length)
  if r.1 then some (slice r.2 hdr.length (data.length - 16)) else none

/-- Whatever byte count leads to the length `n`, the frame is opened with it. -/
theorem rtmpSoftDecryptAES_open (hhdr : DataHeader hdr) {keyLen : ℕ} (hkey : keyLen ≠ 0)
    {gap body : List UInt8} (hgap : gap.length = 8) {n dataByteCnt : ℕ}
    (hbody : body.length = n + 8)
    (hcount : (dataByteCnt + 2 ^ 32 - hdr.length - 8 - 8) % 2 ^ 32 = n) :
    (if (rtmpSoftDecryptAES ⟨key, keyLen⟩ (hdr ++ (gap ++ body)) dataByteCnt).1 then
      some (slice (rtmpSoftDecryptAES ⟨key, keyLen⟩ (hdr ++ (gap ++ body)) dataByteCnt).2
        hdr.length n)
      else none) =
      openText (aes128k128d key) (frameCounter hdr (ccmpPn gap))
        (frameCode key hdr (ccmpPn gap) hdr) n body := by
  have hstart : ccmpHeaderLen (a4Exists hdr) (qosSubtype hdr) = hdr.length := hhdr.length.symm
  have hpn : ccmpPn ((hdr ++ (gap ++ body)).drop hdr.length) = ccmpPn gap := by
    rw [List.drop_left' rfl, ccmpPn_append hgap]
  obtain ⟨gap', hgap', hopen⟩ := openPayload_eq key (ccmpPn gap) hhdr hgap
    (show n ≤ body.length by omega)
  generalize htext : streamXor (aes128k128d key) (frameCounter hdr (ccmpPn gap)) (body.take n) =
    text at hopen
  have hlen : text.length = n := by
    rw [← htext, streamXor_length, List.length_take_of_le (by omega)]
  have htrail : field (hdr ++ text ++ gap' ++ body.drop n) (hdr.length + 8 + n) 8 = body.drop n := by
    have h := field_middle (hdr ++ text ++ gap') (body.drop n) []
    rw [List.append_nil, List.length_append, List.length_append, hlen, hgap', List.length_drop,
      hbody, Nat.add_sub_cancel_left, Nat.add_right_comm] at h
    exact h
  have hctr : constructCtrPreload (hdr ++ text ++ gap' ++ body.drop n) (a4Exists hdr)
      (qosSubtype hdr) (ccmpPn gap) 0 = frameCounter hdr (ccmpPn gap) 0 := by
    rw [List.append_assoc, List.append_assoc]
    exact nonceBlock_congr _ hhdr (sameFields_append _) _ _
  have hmic := frameMic_eq key (ccmpPn gap) hhdr text (gap' ++ body.drop n)
  have hset := set_protected hhdr (text ++ (gap' ++ body.drop n))
  rw [List.append_assoc hdr gap body] at hopen
  simp only [rtmpSoftDecryptAES, a4Exists_append hhdr, qosSubtype_append hhdr, hstart,
    if_neg hkey, hpn, hcount, hopen, htrail, hctr]
  rw [hlen] at hmic
  simp only [List.append_assoc] at hmic hset ⊢
  have hresult : slice (protectedHdr hdr ++ (text ++ (gap' ++ body.drop n))) hdr.length n =
      text := by
    have hfront : (protectedHdr hdr).length = hdr.length := List.length_set
    rw [slice, List.drop_left' hfront, ← hlen, List.take_left]
  simp only [hset, hmic, hresult, openText, htext, beq_iff_eq]

theorem softOpened_eq (hhdr : DataHeader hdr) {keyLen : ℕ} (hkey : keyLen ≠ 0)
    {gap body : List UInt8} (hgap : gap.length = 8) {n : ℕ} (hbody : body.length = n + 8)
    (hn : n < 65536) :
    softOpened ⟨key, keyLen⟩ hdr (gap ++ body) =
      openText (aes128k128d key) (frameCounter hdr (ccmpPn gap))
        (frameCode key hdr (ccmpPn gap) hdr) n body := by
  have hlength : (gap ++ body).length = n + 16 := by
    rw [List.length_append, hgap, hbody]
    omega
  have hcount : (hdr.length + (gap ++ body).length + 2 ^ 32 - hdr.length - 8 - 8) % 2 ^ 32 = n := by
    omega
  have hopen := rtmpSoftDecryptAES_open key hhdr hkey hgap hbody hcount
  have hcut : (gap ++ body).length - 16 = n := by omega
  rw [← hopen, softOpened, hcut]

end SoftDecrypt

end Rt5572
