import StandaloneDrivers.Foundations.Memory
import StandaloneDrivers.Rt5572.Ccmp
import StandaloneDrivers.Rt5572.CryptArc4
import StandaloneDrivers.Rt5572.TkipMichael
import StandaloneDrivers.Rt5572.TkipMixing
import StandaloneDrivers.Rt5572.SoftDecrypt
import Mathlib.Tactic.IntervalCases

/-! Software decryption of WEP and TKIP frames, with the bytes of the frame that are read and
written (common/cmm_wep.c, common/cmm_tkip.c). Addresses have 64 bits, as `ULONG` does. -/
namespace Rt5572
open Foundations
open Rtl8188eu (MacAddr)

/-- A frame in memory: its header from place 0 on, and `*DataByteCnt` bytes behind it, which
`pData` points to. -/
structure RxFrame where
  mem : Memory
  headerLen : ℕ
  dataByteCnt : UInt16
  header : (if mem 1 &&& 0x03 = 0x03 then 30 else 24) ≤ headerLen

namespace RxFrame
variable (f : RxFrame)

def size : ℕ := f.headerLen + f.dataByteCnt.toNat

end RxFrame

/-- `CIPHER_KEY`, with the key of the code. -/
structure MicCipherKey extends CipherKey where
  rxMic : Vector UInt8 8
  deriving DecidableEq, Repr

/-- The result, the memory as it is left, `*DataByteCnt`, and the places that were read and
written. -/
structure SoftDecrypt where
  accepted : Bool
  mem : Memory
  dataByteCnt : UInt16
  spans : List Span

namespace RxFrame
variable (f : RxFrame)

def refuse (mem : Memory) (spans : List Span) : SoftDecrypt := ⟨false, mem, f.dataByteCnt, spans⟩

/-- `RTMPInitWepEngine`; the context stays as it was when there is no memory for the seed. -/
def rtmpInitWepEngine (iv : List UInt8) (pKey : CipherKey) (seedAllocated : Bool)
    (arc4Ctx : Arc4Ctx) : Arc4Ctx :=
  if seedAllocated then arc4Init (iv ++ pKey.key.toList.take pKey.keyLen) else arc4Ctx

/-- `ciphertext_len` of WEP -/
def wepCiphertextLen : UInt16 := f.dataByteCnt - 4

/-- `plaintext_len` of WEP -/
def wepPlaintextLen : UInt16 := f.wepCiphertextLen - 4

/-- `RTMPSoftDecryptWEP`; `arc4Ctx` is the memory that was found for the context. The plaintext
trails the ciphertext, so that no byte is overwritten before it is read. -/
def rtmpSoftDecryptWEP (arc4Ctx : Option Arc4Ctx) (seedAllocated : Bool) (pKey : CipherKey) :
    SoftDecrypt :=
  match arc4Ctx with
  | none => f.refuse f.mem []
  | some arc4Ctx =>
    let pData := f.headerLen
    if pKey.keyLen = 0 then f.refuse f.mem []
    else
      let ctx := rtmpInitWepEngine (f.mem.read pData 3) pKey seedAllocated arc4Ctx
      let spans := [⟨pData, 3⟩]
      if f.dataByteCnt ≤ 4 then f.refuse f.mem spans
      else
        let ciphertextLen := f.wepCiphertextLen.toNat
        let mem := f.mem.write pData (arc4Compute ctx (f.mem.read (pData + 4) ciphertextLen))
        let plaintextLen := f.wepPlaintextLen.toNat
        let trailfcs := mem.le32 (pData + plaintextLen)
        let crc32 := rtmpCalcFcs32 0xffffffff (mem.read pData plaintextLen) ^^^ 0xffffffff
        let spans := spans ++ [⟨pData + 4, ciphertextLen⟩, ⟨pData, ciphertextLen⟩,
          ⟨pData + plaintextLen, 4⟩, ⟨pData, plaintextLen⟩]
        if crc32.toNat ≠ trailfcs then f.refuse mem spans
        else ⟨true, mem, f.wepPlaintextLen, spans⟩

/-- `RTMPInitMICEngine` -/
def rtmpInitMICEngine (tx : TkipKeyInfo 64) (da sa : List UInt8) (userPriority : UInt8)
    (pMICKey : List UInt8) : TkipKeyInfo 64 :=
  let tx := rtmpTkipSetMICKey tx pMICKey
  let tx := rtmpTkipAppend tx da
  let tx := rtmpTkipAppend tx sa
  rtmpTkipAppend tx [userPriority, 0, 0, 0]

def fromDs : Bool := (f.mem 1 &&& 0x02) >>> 1 = 1

def toDs : Bool := f.mem 1 &&& 0x01 = 1

/-- The places of DA and SA in the header. -/
def daSa : ℕ × ℕ :=
  match f.toDs, f.fromDs with
  | false, true => (4, 16)
  | false, false => (4, 10)
  | true, false => (16, 10)
  | true, true => (16, 24)

def macAddr (i : ℕ) : MacAddr := Vector.ofFn fun j => f.mem (i + j)

/-- `ciphertext_len` of TKIP -/
def tkipCiphertextLen : UInt32 := f.dataByteCnt.toUInt32 - 8

/-- `plaintext_len` of TKIP before the code is taken off -/
def tkipPlaintextLen : UInt32 := f.tkipCiphertextLen - 4

/-- `plaintext_len - LEN_TKIP_MIC` -/
def tkipMsduLen : UInt32 := f.tkipPlaintextLen - 8

/-- The RC4 key of the frame. -/
def tkipRc4Key (pKey : CipherKey) : List UInt8 :=
  let pData := f.headerLen
  let pnl := (f.mem pData).toNat * 256 ||| (f.mem (pData + 2)).toNat
  (rtmpTkipMixKey pKey.key (f.macAddr 10) pnl (f.mem.le32 (pData + 4))).1

/-- `RTMPSoftDecryptTKIP`; `tx` is `PrivateInfo.Tx`. -/
def rtmpSoftDecryptTKIP (tx : TkipKeyInfo 64) (userPriority : UInt8) (pKey : MicCipherKey) :
    SoftDecrypt :=
  if pKey.keyLen = 0 then f.refuse f.mem []
  else
    let pData := f.headerLen
    let (da, sa) := f.daSa
    let spans := [⟨0, 2⟩, ⟨da, 6⟩, ⟨10, 6⟩, ⟨sa, 6⟩, ⟨pData, 1⟩, ⟨pData + 2, 1⟩, ⟨pData + 4, 8⟩]
    if f.dataByteCnt ≤ 8 then f.refuse f.mem spans
    else
      let ctx := arc4Init (f.tkipRc4Key pKey.toCipherKey)
      let ciphertextLen := f.tkipCiphertextLen.toNat
      let mem := f.mem.write pData (arc4Compute ctx (f.mem.read (pData + 8) ciphertextLen))
      let plaintextLen := f.tkipPlaintextLen.toNat
      let trailfcs := mem.le32 (pData + plaintextLen)
      let crc32 := rtmpCalcFcs32 0xffffffff (mem.read pData plaintextLen) ^^^ 0xffffffff
      let spans := spans ++ [⟨pData + 8, ciphertextLen⟩, ⟨pData, ciphertextLen⟩,
        ⟨pData + plaintextLen, 4⟩, ⟨pData, plaintextLen⟩]
      if crc32.toNat ≠ trailfcs then f.refuse mem spans
      else
        let plaintextLen := f.tkipMsduLen.toNat
        let trailMic := mem.read (pData + plaintextLen) 8
        let tx := rtmpInitMICEngine tx (mem.read da 6) (mem.read sa 6) userPriority
          pKey.rxMic.toList
        let mic := (rtmpTkipGetMIC (rtmpTkipAppend tx (mem.read pData plaintextLen))).mic
        let spans := spans ++ [⟨pData + plaintextLen, 8⟩, ⟨pData, plaintextLen⟩]
        if mic ≠ trailMic then f.refuse mem spans
        else ⟨true, mem, f.tkipMsduLen.toUInt16, spans⟩

end RxFrame

end Rt5572

/-! The lengths that the software decryptions compute. -/
namespace Rt5572
open Foundations

namespace RxFrame
variable (f : RxFrame)

/-- What is asked of `RTMPSoftDecryptWEP` at a byte count: a frame without room for IV and ICV is
refused, for any other the lengths are differences and nothing behind the frame is touched. -/
structure WepSafe (cnt : UInt16) : Prop where
  short : cnt < 8 → ∀ f : RxFrame, f.dataByteCnt = cnt → ∀ arc4Ctx seedAllocated pKey,
    (f.rtmpSoftDecryptWEP arc4Ctx seedAllocated pKey).accepted = false
  lengths : 8 ≤ cnt → ∀ f : RxFrame, f.dataByteCnt = cnt →
    8 + f.wepPlaintextLen.toNat = cnt.toNat
  inside : 8 ≤ cnt → ∀ f : RxFrame, f.dataByteCnt = cnt → ∀ arc4Ctx seedAllocated pKey,
    ∀ s ∈ (f.rtmpSoftDecryptWEP arc4Ctx seedAllocated pKey).spans, s.Inside f.size

/-- The same of `RTMPSoftDecryptTKIP`, with IV, ICV and the code. -/
structure TkipSafe (cnt : UInt16) : Prop where
  short : cnt < 20 → ∀ f : RxFrame, f.dataByteCnt = cnt → ∀ tx userPriority pKey,
    (f.rtmpSoftDecryptTKIP tx userPriority pKey).accepted = false
  lengths : 20 ≤ cnt → ∀ f : RxFrame, f.dataByteCnt = cnt →
    12 + f.tkipPlaintextLen.toNat = cnt.toNat ∧ 20 + f.tkipMsduLen.toNat = cnt.toNat
  inside : 20 ≤ cnt → ∀ f : RxFrame, f.dataByteCnt = cnt → ∀ tx userPriority pKey,
    ∀ s ∈ (f.rtmpSoftDecryptTKIP tx userPriority pKey).spans, s.Inside f.size

theorem wepLengths (h : 4 ≤ f.dataByteCnt) :
    f.wepCiphertextLen.toNat = f.dataByteCnt.toNat - 4 ∧
      f.wepPlaintextLen.toNat = (f.dataByteCnt.toNat + 65528) % 65536 := by
  have hge : 4 ≤ f.dataByteCnt.toNat := UInt16.le_iff_toNat_le.mp h
  have hcipher : f.wepCiphertextLen.toNat = f.dataByteCnt.toNat - 4 :=
    UInt16.toNat_sub_of_le _ _ h
  refine ⟨hcipher, ?_⟩
  rw [wepPlaintextLen, UInt16.toNat_sub, hcipher]
  simp only [UInt16.reduceToNat]
  omega

theorem tkipLengths (h : 8 ≤ f.dataByteCnt) :
    f.tkipCiphertextLen.toNat = f.dataByteCnt.toNat - 8 ∧
      f.tkipPlaintextLen.toNat = (f.dataByteCnt.toNat + (2 ^ 32 - 12)) % 2 ^ 32 ∧
      f.tkipMsduLen.toNat = (f.dataByteCnt.toNat + (2 ^ 32 - 20)) % 2 ^ 32 := by
  have hge : 8 ≤ f.dataByteCnt.toNat := UInt16.le_iff_toNat_le.mp h
  have hlt := f.dataByteCnt.toNat_lt
  have hcipher : f.tkipCiphertextLen.toNat = f.dataByteCnt.toNat - 8 := by
    rw [tkipCiphertextLen, UInt32.toNat_sub, UInt16.toNat_toUInt32]
    simp only [UInt32.reduceToNat]
    omega
  have hplain : f.tkipPlaintextLen.toNat = (f.dataByteCnt.toNat + (2 ^ 32 - 12)) % 2 ^ 32 := by
    rw [tkipPlaintextLen, UInt32.toNat_sub, hcipher]
    simp only [UInt32.reduceToNat]
    omega
  refine ⟨hcipher, hplain, ?_⟩
  rw [tkipMsduLen, UInt32.toNat_sub, hplain]
  simp only [UInt32.reduceToNat]
  omega

theorem rtmpSoftDecryptWEP_short (h : f.dataByteCnt ≤ 4) (arc4Ctx : Option Arc4Ctx)
    (seedAllocated : Bool) (pKey : CipherKey) :
    (f.rtmpSoftDecryptWEP arc4Ctx seedAllocated pKey).accepted = false := by
  cases arc4Ctx with
  | none => rfl
  | some ctx =>
    simp only [rtmpSoftDecryptWEP, h, if_true]
    split <;> rfl

theorem rtmpSoftDecryptWEP_inside (h : 8 ≤ f.dataByteCnt) (arc4Ctx : Option Arc4Ctx)
    (seedAllocated : Bool) (pKey : CipherKey) :
    ∀ s ∈ (f.rtmpSoftDecryptWEP arc4Ctx seedAllocated pKey).spans, s.Inside f.size := by
  have hge : 8 ≤ f.dataByteCnt.toNat := UInt16.le_iff_toNat_le.mp h
  have hlt := f.dataByteCnt.toNat_lt
  obtain ⟨hcipher, hplain⟩ := f.wepLengths (UInt16.le_iff_toNat_le.mpr (Nat.le_trans (by decide) hge))
  have hall : ∀ s ∈ [(⟨f.headerLen, 3⟩ : Span), ⟨f.headerLen + 4, f.wepCiphertextLen.toNat⟩,
      ⟨f.headerLen, f.wepCiphertextLen.toNat⟩, ⟨f.headerLen + f.wepPlaintextLen.toNat, 4⟩,
      ⟨f.headerLen, f.wepPlaintextLen.toNat⟩], s.Inside f.size := by
    simp only [List.forall_mem_cons, Span.Inside, size]
    refine ⟨?_, ?_, ?_, ?_, ?_, List.forall_mem_nil _⟩ <;> omega
  cases arc4Ctx with
  | none => exact List.forall_mem_nil _
  | some ctx =>
    simp only [rtmpSoftDecryptWEP]
    split
    · exact List.forall_mem_nil _
    · split
      · exact fun s hs => hall s (by simp_all [refuse])
      · split
        · exact hall
        · exact hall

theorem rtmpSoftDecryptTKIP_short (h : f.dataByteCnt ≤ 8) (tx : TkipKeyInfo 64)
    (userPriority : UInt8) (pKey : MicCipherKey) :
    (f.rtmpSoftDecryptTKIP tx userPriority pKey).accepted = false := by
  simp only [rtmpSoftDecryptTKIP, h, if_true]
  split <;> rfl

theorem both_bits {b : UInt8} (hto : b &&& 0x01 = 1) (hfrom : (b &&& 0x02) >>> 1 = 1) :
    b &&& 0x03 = 0x03 := by
  have h0 : b.toBitVec.getLsbD 0 = true := by
    have hbit := congrArg (fun x : UInt8 => x.toBitVec.getLsbD 0) hto
    simpa using hbit
  have h1 : b.toBitVec.getLsbD 1 = true := by
    have hbit := congrArg (fun x : UInt8 => x.toBitVec.getLsbD 0) hfrom
    simpa using hbit
  apply UInt8.toBitVec_inj.mp
  apply BitVec.eq_of_getLsbD_eq
  intro i hi
  interval_cases i <;> simp_all

/-- DA and SA lie in the header. -/
theorem daSa_inside : 24 ≤ f.headerLen ∧ f.daSa.1 + 6 ≤ f.headerLen ∧
    f.daSa.2 + 6 ≤ f.headerLen := by
  have hheader := f.header
  have hge : 24 ≤ f.headerLen := by
    split at hheader <;> omega
  refine ⟨hge, ?_⟩
  have h22 : 16 + 6 ≤ f.headerLen := by omega
  have h16 : 10 + 6 ≤ f.headerLen := by omega
  have h10 : 4 + 6 ≤ f.headerLen := by omega
  unfold daSa
  cases hto : f.toDs <;> cases hfrom : f.fromDs
  · exact ⟨h10, h16⟩
  · exact ⟨h10, h22⟩
  · exact ⟨h22, h16⟩
  · simp only [toDs, fromDs, decide_eq_true_eq] at hto hfrom
    rw [if_pos (both_bits hto hfrom)] at hheader
    exact ⟨h22, hheader⟩

theorem rtmpSoftDecryptTKIP_inside (h : 20 ≤ f.dataByteCnt) (tx : TkipKeyInfo 64)
    (userPriority : UInt8) (pKey : MicCipherKey) :
    ∀ s ∈ (f.rtmpSoftDecryptTKIP tx userPriority pKey).spans, s.Inside f.size := by
  have hge : 20 ≤ f.dataByteCnt.toNat := UInt16.le_iff_toNat_le.mp h
  have hlt := f.dataByteCnt.toNat_lt
  obtain ⟨hheader, hda, hsa⟩ := f.daSa_inside
  obtain ⟨hcipher, hplain, hmsdu⟩ :=
    f.tkipLengths (UInt16.le_iff_toNat_le.mpr (Nat.le_trans (by decide) hge))
  have hfront : ∀ s ∈ [(⟨0, 2⟩ : Span), ⟨f.daSa.1, 6⟩, ⟨10, 6⟩, ⟨f.daSa.2, 6⟩, ⟨f.headerLen, 1⟩,
      ⟨f.headerLen + 2, 1⟩, ⟨f.headerLen + 4, 8⟩], s.Inside f.size := by
    simp only [List.forall_mem_cons, Span.Inside, size]
    refine ⟨?_, ?_, ?_, ?_, ?_, ?_, ?_, List.forall_mem_nil _⟩ <;> omega
  have hmiddle : ∀ s ∈ [(⟨f.headerLen + 8, f.tkipCiphertextLen.toNat⟩ : Span),
      ⟨f.headerLen, f.tkipCiphertextLen.toNat⟩, ⟨f.headerLen + f.tkipPlaintextLen.toNat, 4⟩,
      ⟨f.headerLen, f.tkipPlaintextLen.toNat⟩], s.Inside f.size := by
    simp only [List.forall_mem_cons, Span.Inside, size]
    refine ⟨?_, ?_, ?_, ?_, List.forall_mem_nil _⟩ <;> omega
  have hlast : ∀ s ∈ [(⟨f.headerLen + f.tkipMsduLen.toNat, 8⟩ : Span),
      ⟨f.headerLen, f.tkipMsduLen.toNat⟩], s.Inside f.size := by
    simp only [List.forall_mem_cons, Span.Inside, size]
    refine ⟨?_, ?_, List.forall_mem_nil _⟩ <;> omega
  have hdecrypted := List.forall_mem_append.mpr ⟨hfront, hmiddle⟩
  have hall := List.forall_mem_append.mpr ⟨hdecrypted, hlast⟩
  simp only [rtmpSoftDecryptTKIP]
  split
  · exact List.forall_mem_nil _
  · split
    · exact hfront
    · split
      · exact hdecrypted
      · split
        · exact hall
        · exact hall

end RxFrame

namespace RxFrame

/-- A frame of three addresses. -/
def shortFrame (mem : Memory) (cnt : UInt16) (h : mem 1 = 0) : RxFrame where
  mem := mem
  headerLen := 24
  dataByteCnt := cnt
  header := by
    rw [h]
    decide

def anyKey : MicCipherKey := ⟨⟨Vector.replicate 16 0, 5⟩, Vector.replicate 8 0⟩

def zeroMemory : Memory := fun _ => 0

/-- The checksum of the bytes from the data on. -/
def checksum (mem : Memory) (n : ℕ) : ℕ :=
  (rtmpCalcFcs32 0xffffffff (mem.read 24 n) ^^^ 0xffffffff).toNat

/-- A frame with less than four bytes behind its IV is accepted when the memory behind it agrees. -/
theorem rtmpSoftDecryptWEP_forged {cnt : UInt16} (hlo : 4 < cnt) (hhi : cnt < 8) :
    ∃ f : RxFrame, f.dataByteCnt = cnt ∧
      (f.rtmpSoftDecryptWEP (some (arc4Init [])) true anyKey.toCipherKey).accepted = true := by
  have hlo' : 4 < cnt.toNat := UInt16.lt_iff_toNat_lt.mp hlo
  have hhi' : cnt.toNat < 8 := UInt16.lt_iff_toNat_lt.mp hhi
  generalize hn : cnt.toNat - 4 = n
  generalize hk : (cnt.toNat + 65528) % 65536 = k
  have hbase : zeroMemory.read 24 3 = [0, 0, 0] := rfl
  generalize hctx : rtmpInitWepEngine [0, 0, 0] anyKey.toCipherKey true (arc4Init []) = ctx
  generalize hopened : arc4Compute ctx (zeroMemory.read 28 n) = opened
  have hlen : opened.length = n := by
    rw [← hopened, arc4Compute_length, Memory.read_length]
  generalize hcrc : checksum (zeroMemory.write 24 opened) k = crc
  have hlt : crc < 2 ^ 32 := hcrc ▸ UInt32.toNat_lt _
  generalize hmem : zeroMemory.write (24 + k) (Memory.le32Bytes crc) = mem
  have hone : mem 1 = 0 := by
    rw [← hmem]
    exact Memory.write_outside _ (Or.inl (by omega))
  refine ⟨shortFrame mem cnt hone, rfl, ?_⟩
  obtain ⟨hcipher, hplain⟩ := (shortFrame mem cnt hone).wepLengths (UInt16.le_iff_toNat_le.mpr hlo'.le)
  have hiv : mem.read 24 3 = [0, 0, 0] := by
    rw [← hmem, Memory.read_write_disjoint _ (Or.inl (by omega)), hbase]
  have htext : mem.read 28 n = zeroMemory.read 28 n := by
    rw [← hmem, Memory.read_write_disjoint _ (Or.inl (by omega))]
  have hsame : checksum (mem.write 24 opened) k = crc := by
    rw [← hcrc, checksum, checksum, ← hmem, Memory.read_write_behind _ (le_refl _)]
  have hstored : (mem.write 24 opened).le32 (24 + k) = crc := by
    rw [← hmem, Memory.le32_write_far _ hlt (by omega)]
  have hkey : anyKey.keyLen ≠ 0 := by decide
  have hlong : ¬ cnt ≤ 4 := UInt16.not_le.mpr hlo
  have hcipher : (shortFrame mem cnt hone).wepCiphertextLen.toNat = n := hcipher.trans hn
  have hplain : (shortFrame mem cnt hone).wepPlaintextLen.toNat = k := hplain.trans hk
  simp only [rtmpSoftDecryptWEP, hkey, if_false, hcipher, hplain]
  simp only [shortFrame, hlong, if_false, hiv, htext, hctx, hopened, hstored]
  simp only [checksum] at hsame
  rw [hsame, if_neg (not_not.mpr rfl)]

/-- The code over the bytes from the data on. -/
def msduMic (mem : Memory) (n : ℕ) : List UInt8 :=
  (rtmpTkipGetMIC (rtmpTkipAppend (rtmpInitMICEngine ⟨0, 0, 0, 0, 0, 0, []⟩ (mem.read 4 6)
    (mem.read 10 6) 0 anyKey.rxMic.toList) (mem.read 24 n))).mic

theorem msduMic_length (mem : Memory) (n : ℕ) : (msduMic mem n).length = 8 := rfl

/-- The stream that a frame with no bits set in its header and its IV is opened with. -/
def zeroStream : Arc4Ctx :=
  arc4Init (rtmpTkipMixKey anyKey.key (Vector.replicate 6 0) 0 0).1

theorem tkipRc4Key_zero {mem : Memory} {cnt : UInt16} (hone : mem 1 = 0)
    (hzero : ∀ j < 32, mem j = 0) :
    (shortFrame mem cnt hone).tkipRc4Key anyKey.toCipherKey =
      (rtmpTkipMixKey anyKey.key (Vector.replicate 6 0) 0 0).1 := by
  have hta : (shortFrame mem cnt hone).macAddr 10 = Vector.replicate 6 0 := by
    apply Vector.ext
    intro i hi
    simp only [macAddr, shortFrame, Vector.getElem_ofFn, Vector.getElem_replicate]
    exact hzero _ (by omega)
  have hpnh : mem.le32 28 = 0 := by
    simp only [Memory.le32, Memory.le16, hzero _ (show 28 < 32 by decide),
      hzero _ (show 28 + 1 < 32 by decide), hzero _ (show 28 + 2 < 32 by decide),
      hzero _ (show 28 + 2 + 1 < 32 by decide)]
    rfl
  simp only [tkipRc4Key, hta]
  simp only [shortFrame, hpnh, hzero 24 (by decide), hzero (24 + 2) (by decide)]
  rfl

/-- What makes a frame accepted. -/
theorem rtmpSoftDecryptTKIP_accepts {mem : Memory} {cnt : UInt16} {n k l : ℕ} (hone : mem 1 = 0)
    (hzero : ∀ j < 32, mem j = 0) (hcnt : 8 < cnt) (hn : cnt.toNat - 8 = n)
    (hk : (cnt.toNat + (2 ^ 32 - 12)) % 2 ^ 32 = k) (hl : (cnt.toNat + (2 ^ 32 - 20)) % 2 ^ 32 = l)
    {opened : List UInt8} (hopened : arc4Compute zeroStream (mem.read 32 n) = opened)
    (hcrc : checksum (mem.write 24 opened) k = (mem.write 24 opened).le32 (24 + k))
    (hmic : msduMic (mem.write 24 opened) l = (mem.write 24 opened).read (24 + l) 8) :
    ((shortFrame mem cnt hone).rtmpSoftDecryptTKIP ⟨0, 0, 0, 0, 0, 0, []⟩ 0 anyKey).accepted =
      true := by
  obtain ⟨hcipher, hplain, hmsdu⟩ := (shortFrame mem cnt hone).tkipLengths
    (UInt16.le_iff_toNat_le.mpr (UInt16.lt_iff_toNat_lt.mp hcnt).le)
  have hcipher : (shortFrame mem cnt hone).tkipCiphertextLen.toNat = n := hcipher.trans hn
  have hplain : (shortFrame mem cnt hone).tkipPlaintextLen.toNat = k := hplain.trans hk
  have hmsdu : (shortFrame mem cnt hone).tkipMsduLen.toNat = l := hmsdu.trans hl
  have hkey : anyKey.keyLen ≠ 0 := by decide
  have hlong : ¬ cnt ≤ 8 := UInt16.not_le.mpr hcnt
  have hplaces : (shortFrame mem cnt hone).daSa = (4, 10) := by
    have hto : (shortFrame mem cnt hone).toDs = false := by
      simp only [toDs, shortFrame, hone]
      rfl
    have hfrom : (shortFrame mem cnt hone).fromDs = false := by
      simp only [fromDs, shortFrame, hone]
      rfl
    rw [daSa, hto, hfrom]
  simp only [rtmpSoftDecryptTKIP, hkey, if_false, hplaces, tkipRc4Key_zero hone hzero, hcipher,
    hplain, hmsdu]
  rw [zeroStream] at hopened
  simp only [checksum] at hcrc
  simp only [msduMic] at hmic
  simp only [shortFrame, hlong, if_false, hopened, hcrc, ne_eq, not_true_eq_false, hmic]

theorem zeroMemory_write {i : ℕ} {bytes : List UInt8} (h : 32 ≤ i) :
    ∀ j < 32, zeroMemory.write i bytes j = 0 :=
  fun j hj => zeroMemory.write_outside (Or.inl (by omega))

theorem msduMic_behind {m : Memory} {i n : ℕ} {bytes front : List UInt8} (h : 24 + n ≤ i)
    (h16 : 16 ≤ i) :
    msduMic ((m.write i bytes).write 24 front) n = msduMic (m.write 24 front) n := by
  simp only [msduMic, m.read_write_behind (show 4 + 6 ≤ i by omega),
    m.read_write_behind (show 10 + 6 ≤ i by omega), m.read_write_behind h]

/-- Without four bytes behind the IV, checksum and code are looked for far behind the frame. -/
theorem rtmpSoftDecryptTKIP_forgedIcv {cnt : UInt16} (hlo : 8 < cnt) (hhi : cnt < 12) :
    ∃ f : RxFrame, f.dataByteCnt = cnt ∧
      (f.rtmpSoftDecryptTKIP ⟨0, 0, 0, 0, 0, 0, []⟩ 0 anyKey).accepted = true := by
  have hlo' : 8 < cnt.toNat := UInt16.lt_iff_toNat_lt.mp hlo
  have hhi' : cnt.toNat < 12 := UInt16.lt_iff_toNat_lt.mp hhi
  generalize hn : cnt.toNat - 8 = n
  generalize hk : (cnt.toNat + (2 ^ 32 - 12)) % 2 ^ 32 = k
  generalize hl : (cnt.toNat + (2 ^ 32 - 20)) % 2 ^ 32 = l
  have hbehind : l + 8 = k := by omega
  have hfar : 1000 < l := by omega
  generalize hopened : arc4Compute zeroStream (zeroMemory.read 32 n) = opened
  have hlen : opened.length = n := by
    rw [← hopened, arc4Compute_length, Memory.read_length]
  generalize hmic : msduMic (zeroMemory.write 24 opened) l = mic
  have hsize : mic.length = 8 := by
    rw [← hmic, msduMic_length]
  generalize hbase : zeroMemory.write (24 + l) mic = base
  generalize hcrc : checksum (base.write 24 opened) k = crc
  have hlt : crc < 2 ^ 32 := hcrc ▸ UInt32.toNat_lt _
  generalize hmem : base.write (24 + k) (Memory.le32Bytes crc) = mem
  have hzero : ∀ j < 32, mem j = 0 := by
    intro j hj
    rw [← hmem, base.write_outside (Or.inl (by omega)), ← hbase]
    exact zeroMemory_write (by omega) j hj
  refine ⟨shortFrame mem cnt (hzero 1 (by decide)), rfl, ?_⟩
  refine rtmpSoftDecryptTKIP_accepts (hzero 1 (by decide)) hzero hlo hn hk hl
    (?_ : arc4Compute zeroStream (mem.read 32 n) = opened) ?_ ?_
  · rw [← hopened, ← hmem, base.read_write_disjoint (Or.inl (by omega)), ← hbase,
      zeroMemory.read_write_disjoint (Or.inl (by omega))]
  · have hsame : checksum (mem.write 24 opened) k = crc := by
      rw [← hcrc, checksum, checksum, ← hmem, base.read_write_behind (le_refl _)]
    rw [hsame, ← hmem, base.le32_write_far hlt (by omega)]
  · have hcode : msduMic (mem.write 24 opened) l = mic := by
      rw [← hmic, ← hmem, msduMic_behind (by omega) (by omega), ← hbase,
        msduMic_behind (by omega) (by omega)]
    have hread : ((zeroMemory.write (24 + l) mic).write 24 opened).read (24 + l) mic.length =
        mic := zeroMemory.read_write_far (by omega)
    rw [hsize] at hread
    rw [hcode, ← hmem, base.read_write_behind (by omega), ← hbase, hread]

/-- Without room for the code it is looked for far behind the frame. -/
theorem rtmpSoftDecryptTKIP_forgedMic {cnt : UInt16} (hlo : 12 ≤ cnt) (hhi : cnt < 20) :
    ∃ f : RxFrame, f.dataByteCnt = cnt ∧
      (f.rtmpSoftDecryptTKIP ⟨0, 0, 0, 0, 0, 0, []⟩ 0 anyKey).accepted = true := by
  have hlo' : 12 ≤ cnt.toNat := UInt16.le_iff_toNat_le.mp hlo
  have hhi' : cnt.toNat < 20 := UInt16.lt_iff_toNat_lt.mp hhi
  generalize hn : cnt.toNat - 8 = n
  generalize hk : (cnt.toNat + (2 ^ 32 - 12)) % 2 ^ 32 = k
  generalize hl : (cnt.toNat + (2 ^ 32 - 20)) % 2 ^ 32 = l
  have hnk : n = k + 4 := by omega
  have hfar : 1000 < l := by omega
  generalize hcrc : (rtmpCalcFcs32 0xffffffff (List.replicate k 0) ^^^ 0xffffffff).toNat = crc
  have hlt : crc < 2 ^ 32 := hcrc ▸ UInt32.toNat_lt _
  generalize hplain : List.replicate k 0 ++ Memory.le32Bytes crc = opened
  have hlen : opened.length = n := by
    rw [← hplain, List.length_append, List.length_replicate, hnk]
    rfl
  have hsealed : (arc4Compute zeroStream opened).length = n := by
    rw [arc4Compute_length, hlen]
  generalize hbase : zeroMemory.write 32 (arc4Compute zeroStream opened) = base
  generalize hmic : msduMic (base.write 24 opened) l = mic
  have hsize : mic.length = 8 := by
    rw [← hmic, msduMic_length]
  generalize hmem : base.write (24 + l) mic = mem
  have hzero : ∀ j < 32, mem j = 0 := by
    intro j hj
    rw [← hmem, base.write_outside (Or.inl (by omega)), ← hbase]
    exact zeroMemory_write (le_refl _) j hj
  have hsplit : mem.write 24 opened =
      (mem.write 24 (List.replicate k 0)).write (24 + k) (Memory.le32Bytes crc) := by
    rw [← hplain, Memory.write_append, List.length_replicate]
  refine ⟨shortFrame mem cnt (hzero 1 (by decide)), rfl, ?_⟩
  refine rtmpSoftDecryptTKIP_accepts (hzero 1 (by decide)) hzero
    (UInt16.lt_iff_toNat_lt.mpr (show 8 < cnt.toNat by omega)) hn hk hl
    (?_ : arc4Compute zeroStream (mem.read 32 n) = opened) ?_ ?_
  · have hread := zeroMemory.read_write_same 32 (arc4Compute zeroStream opened)
    rw [hsealed] at hread
    rw [← hmem, base.read_write_disjoint (Or.inl (by omega)), ← hbase, hread, arc4Compute_twice]
  · have hzeroes := mem.read_write_same 24 (List.replicate k 0)
    rw [List.length_replicate] at hzeroes
    rw [hsplit, Memory.le32_write_same _ _ hlt, checksum,
      Memory.read_write_disjoint _ (Or.inl (le_refl _)), hzeroes, hcrc]
  · have hread := @Memory.read_write_far base (24 + l) 24 mic opened (by omega)
    rw [hsize] at hread
    rw [← hmem, msduMic_behind (le_refl _) (by omega), hmic, hread]

/-- Counts from 5 to 7 pass the test and wrap. -/
theorem wepSafe_iff (cnt : UInt16) : WepSafe cnt ↔ cnt ≤ 4 ∨ 8 ≤ cnt := by
  constructor
  · intro h
    by_contra hbad
    rw [not_or, UInt16.not_le, UInt16.not_le] at hbad
    obtain ⟨f, hf, haccepted⟩ := rtmpSoftDecryptWEP_forged hbad.1 hbad.2
    have hrefused := h.short hbad.2 f hf (some (arc4Init [])) true anyKey.toCipherKey
    rw [hrefused] at haccepted
    exact absurd haccepted (by decide)
  · intro h
    constructor
    · intro hshort f hf arc4Ctx seedAllocated pKey
      have hle : cnt ≤ 4 := h.resolve_right (UInt16.not_le.mpr hshort)
      exact f.rtmpSoftDecryptWEP_short (hf ▸ hle) arc4Ctx seedAllocated pKey
    · intro hlong f hf
      have hge : 8 ≤ cnt.toNat := UInt16.le_iff_toNat_le.mp hlong
      have hlt := cnt.toNat_lt
      have hlengths := f.wepLengths (hf ▸ UInt16.le_iff_toNat_le.mpr (Nat.le_trans (by decide) hge))
      rw [hf] at hlengths
      omega
    · intro hlong f hf
      exact f.rtmpSoftDecryptWEP_inside (hf ▸ hlong)

/-- Counts from 9 to 19 pass the test and wrap. -/
theorem tkipSafe_iff (cnt : UInt16) : TkipSafe cnt ↔ cnt ≤ 8 ∨ 20 ≤ cnt := by
  constructor
  · intro h
    by_contra hbad
    rw [not_or, UInt16.not_le, UInt16.not_le] at hbad
    have hforged : ∃ f : RxFrame, f.dataByteCnt = cnt ∧
        (f.rtmpSoftDecryptTKIP ⟨0, 0, 0, 0, 0, 0, []⟩ 0 anyKey).accepted = true := by
      by_cases hicv : cnt < 12
      · exact rtmpSoftDecryptTKIP_forgedIcv hbad.1 hicv
      · exact rtmpSoftDecryptTKIP_forgedMic (UInt16.not_lt.mp hicv) hbad.2
    obtain ⟨f, hf, haccepted⟩ := hforged
    have hrefused := h.short hbad.2 f hf ⟨0, 0, 0, 0, 0, 0, []⟩ 0 anyKey
    rw [hrefused] at haccepted
    exact absurd haccepted (by decide)
  · intro h
    constructor
    · intro hshort f hf tx userPriority pKey
      have hle : cnt ≤ 8 := h.resolve_right (UInt16.not_le.mpr hshort)
      exact f.rtmpSoftDecryptTKIP_short (hf ▸ hle) tx userPriority pKey
    · intro hlong f hf
      have hge : 20 ≤ cnt.toNat := UInt16.le_iff_toNat_le.mp hlong
      have hlt := cnt.toNat_lt
      have hlengths := f.tkipLengths (hf ▸ UInt16.le_iff_toNat_le.mpr (Nat.le_trans (by decide) hge))
      rw [hf] at hlengths
      omega
    · intro hlong f hf
      exact f.rtmpSoftDecryptTKIP_inside (hf ▸ hlong)

end RxFrame

section Aes
variable (a4 qc : Bool) (dataByteCnt : ℕ)

/-- `payload_len` of `RTMPSoftDecryptAES` -/
def aesPayloadLen : ℕ := (dataByteCnt + 2 ^ 32 - ccmpHeaderLen a4 qc - 8 - 8) % 2 ^ 32

/-- What a nonce block reads of the header. -/
def nonceSpans : List Span := (if qc then [⟨qosOffset a4, 1⟩] else []) ++ [⟨10, 6⟩]

/-- What the blocks of the code read of the header. -/
def micHeaderSpans : List Span :=
  [⟨0, 2⟩, ⟨4, 12⟩, ⟨16, 6⟩, ⟨22, 1⟩] ++ (if a4 then [⟨24, 6⟩] else []) ++
    if qc then [⟨qosOffset a4, 2⟩] else []

/-- The places that `RTMPSoftDecryptAES` reads and writes. -/
def softDecryptAESSpans (key : CipherKey) : List Span :=
  let headerLen := ccmpHeaderLen a4 qc
  let payloadLen := aesPayloadLen a4 qc dataByteCnt
  let numBlocks := payloadLen / 16
  let payloadRemainder := payloadLen % 16
  let start := headerLen + 8
  if key.keyLen = 0 then [⟨0, 2⟩]
  else
    [⟨0, 2⟩, ⟨headerLen, 2⟩, ⟨headerLen + 4, 4⟩] ++
      (List.range numBlocks).flatMap (fun i => nonceSpans a4 qc ++
        [⟨start + 16 * i, 16⟩, ⟨start + 16 * i - 8, 16⟩]) ++
      (if 0 < payloadRemainder then nonceSpans a4 qc ++ [⟨start + 16 * numBlocks, payloadRemainder⟩,
        ⟨start + 16 * numBlocks - 8, payloadRemainder⟩] else []) ++
      nonceSpans a4 qc ++ [⟨start + payloadLen, 8⟩, ⟨1, 1⟩] ++ nonceSpans a4 qc ++
      micHeaderSpans a4 qc ++
      (List.range numBlocks).map (fun i => ⟨headerLen + 16 * i, 16⟩) ++
      if 0 < payloadRemainder then [⟨headerLen + 16 * numBlocks, payloadRemainder⟩] else []

/-- What is asked of `RTMPSoftDecryptAES` at a byte count, for frames with a header of one kind:
a frame without room for header, IV and code is refused, for any other the length is not more than
what is left and nothing behind the frame is touched. -/
structure AesSafe : Prop where
  short : dataByteCnt < ccmpHeaderLen a4 qc + 16 → ∀ key pData, a4Exists pData = a4 →
    qosSubtype pData = qc → (rtmpSoftDecryptAES key pData dataByteCnt).1 = false
  lengths : ccmpHeaderLen a4 qc + 16 ≤ dataByteCnt →
    ccmpHeaderLen a4 qc + 16 + aesPayloadLen a4 qc dataByteCnt ≤ dataByteCnt
  inside : ccmpHeaderLen a4 qc + 16 ≤ dataByteCnt → ∀ key,
    ∀ s ∈ softDecryptAESSpans a4 qc dataByteCnt key, s.Inside dataByteCnt

variable {a4 qc dataByteCnt}

theorem headerSpans_inside : (∀ s ∈ nonceSpans a4 qc, s.Inside (ccmpHeaderLen a4 qc)) ∧
    ∀ s ∈ micHeaderSpans a4 qc, s.Inside (ccmpHeaderLen a4 qc) := by
  cases a4 <;> cases qc <;> decide

theorem aesLength_le (h : ccmpHeaderLen a4 qc + 16 ≤ dataByteCnt) :
    ccmpHeaderLen a4 qc + 16 + aesPayloadLen a4 qc dataByteCnt ≤ dataByteCnt := by
  unfold aesPayloadLen
  omega

theorem aesSpans_inside (h : ccmpHeaderLen a4 qc + 16 ≤ dataByteCnt) (key : CipherKey) :
    ∀ s ∈ softDecryptAESSpans a4 qc dataByteCnt key, s.Inside dataByteCnt := by
  have hlen := aesLength_le h
  have hwiden {l : List Span} (hl : ∀ s ∈ l, s.Inside (ccmpHeaderLen a4 qc)) :
      ∀ s ∈ l, s.Inside dataByteCnt := by
    intro s hs
    have hin := hl s hs
    unfold Span.Inside at hin ⊢
    omega
  obtain ⟨hnonce, hmic⟩ : (∀ s ∈ nonceSpans a4 qc, s.Inside dataByteCnt) ∧
      ∀ s ∈ micHeaderSpans a4 qc, s.Inside dataByteCnt :=
    ⟨hwiden headerSpans_inside.1, hwiden headerSpans_inside.2⟩
  have hheader : 24 ≤ ccmpHeaderLen a4 qc := by
    unfold ccmpHeaderLen
    omega
  simp only [softDecryptAESSpans]
  generalize ccmpHeaderLen a4 qc = headerLen at *
  generalize aesPayloadLen a4 qc dataByteCnt = n at *
  split
  · simp only [List.forall_mem_singleton, Span.Inside]
    omega
  · simp only [List.forall_mem_append]
    refine ⟨⟨⟨⟨⟨⟨⟨⟨?_, ?_⟩, ?_⟩, hnonce⟩, ?_⟩, hnonce⟩, hmic⟩, ?_⟩, ?_⟩
    · simp only [List.forall_mem_cons, Span.Inside]
      refine ⟨?_, ?_, ?_, List.forall_mem_nil _⟩ <;> omega
    · intro s hs
      obtain ⟨i, hi, hs⟩ := List.mem_flatMap.mp hs
      have hi := List.mem_range.mp hi
      have hblock : ∀ s ∈ [(⟨headerLen + 8 + 16 * i, 16⟩ : Span),
          ⟨headerLen + 8 + 16 * i - 8, 16⟩], s.Inside dataByteCnt := by
        simp only [List.forall_mem_cons, Span.Inside]
        refine ⟨?_, ?_, List.forall_mem_nil _⟩ <;> omega
      exact (List.mem_append.mp hs).elim (hnonce s) (hblock s)
    · split
      · refine List.forall_mem_append.mpr ⟨hnonce, ?_⟩
        simp only [List.forall_mem_cons, Span.Inside]
        refine ⟨?_, ?_, List.forall_mem_nil _⟩ <;> omega
      · exact List.forall_mem_nil _
    · simp only [List.forall_mem_cons, Span.Inside]
      refine ⟨?_, ?_, List.forall_mem_nil _⟩ <;> omega
    · intro s hs
      obtain ⟨i, hi, rfl⟩ := List.mem_map.mp hs
      have hi := List.mem_range.mp hi
      simp only [Span.Inside]
      omega
    · split
      · simp only [List.forall_mem_singleton, Span.Inside]
        omega
      · exact List.forall_mem_nil _

/-- A header of each kind. -/
def anyHeader (a4 qc : Bool) : List UInt8 :=
  [if qc then 0x88 else 0x08, if a4 then 0x03 else 0x00] ++
    List.replicate (ccmpHeaderLen a4 qc - 2) 0

theorem anyHeader_spec (a4 qc : Bool) : DataHeader (anyHeader a4 qc) ∧
    a4Exists (anyHeader a4 qc) = a4 ∧ qosSubtype (anyHeader a4 qc) = qc := by
  have ha4 : a4Exists (anyHeader a4 qc) = a4 := by cases a4 <;> cases qc <;> decide
  have hqc : qosSubtype (anyHeader a4 qc) = qc := by cases a4 <;> cases qc <;> decide
  refine ⟨⟨by cases a4 <;> cases qc <;> decide, ?_⟩, ha4, hqc⟩
  rw [ha4, hqc]
  cases a4 <;> cases qc <;> rfl

/-- Whatever the byte count, a frame is accepted when what it and the memory behind it hold was
sealed. -/
theorem rtmpSoftDecryptAES_forged (a4 qc : Bool) (dataByteCnt : ℕ) :
    ∃ pData, a4Exists pData = a4 ∧ qosSubtype pData = qc ∧
      (rtmpSoftDecryptAES ⟨Vector.replicate 16 0, 16⟩ pData dataByteCnt).1 = true := by
  obtain ⟨hhdr, ha4, hqc⟩ := anyHeader_spec a4 qc
  generalize anyHeader a4 qc = hdr at hhdr ha4 hqc
  have hlen : hdr.length = ccmpHeaderLen a4 qc := by
    rw [hhdr.length, ha4, hqc]
  generalize hn : (dataByteCnt + 2 ^ 32 - hdr.length - 8 - 8) % 2 ^ 32 = n
  generalize hkey : (Vector.replicate 16 0 : CipherBlock) = key
  generalize hgap : List.replicate 8 (0 : UInt8) = gap
  have hgaplen : gap.length = 8 := by
    rw [← hgap, List.length_replicate]
  have hmac := frameCode_length key hdr (ccmpPn gap) hdr (List.replicate n 0)
  have hopen := openText_seal (aes128k128d key) (frameCounter hdr (ccmpPn gap))
    (frameCode key hdr (ccmpPn gap) hdr) (hmac.trans_le (by decide))
  generalize hbody : sealText (aes128k128d key) (frameCounter hdr (ccmpPn gap))
    (frameCode key hdr (ccmpPn gap) hdr) (List.replicate n 0) = body at hopen
  have hbodylen : body.length = n + 8 := by
    rw [← hbody, sealText, List.length_append, streamXor_length, List.length_replicate,
      xorBytes_length, hmac, Vector.length_toList]
    rfl
  rw [List.length_replicate] at hopen
  have hread := rtmpSoftDecryptAES_open key hhdr (show 16 ≠ 0 by decide) hgaplen hbodylen hn
  rw [hopen] at hread
  refine ⟨hdr ++ (gap ++ body), by rw [a4Exists_append hhdr, ha4], by
    rw [qosSubtype_append hhdr, hqc], ?_⟩
  by_contra hrefused
  rw [if_neg hrefused] at hread
  exact absurd hread (by simp)

/-- Every count below header, IV and code wraps. -/
theorem aesSafe_iff (a4 qc : Bool) (dataByteCnt : ℕ) :
    AesSafe a4 qc dataByteCnt ↔ ccmpHeaderLen a4 qc + 16 ≤ dataByteCnt := by
  constructor
  · intro h
    by_contra hbad
    have hshort : dataByteCnt < ccmpHeaderLen a4 qc + 16 := by omega
    obtain ⟨pData, ha4, hqc, haccepted⟩ := rtmpSoftDecryptAES_forged a4 qc dataByteCnt
    rw [h.short hshort _ pData ha4 hqc] at haccepted
    exact absurd haccepted (by decide)
  · intro h
    refine ⟨?_, fun _ => aesLength_le h, fun _ => aesSpans_inside h⟩
    intro hshort
    omega

end Aes

end Rt5572
