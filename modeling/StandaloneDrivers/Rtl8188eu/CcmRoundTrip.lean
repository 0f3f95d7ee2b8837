import StandaloneDrivers.Foundations.CipherModes
import StandaloneDrivers.Rtl8188eu.AesStandard
import StandaloneDrivers.Rtl8188eu.Verification
import StandaloneDrivers.Rtl8188eu.Xmit

/-! What `aes_decipher` makes of the frames that `aes_cipher` has sealed, and of every other frame.
Lists stand for the memory from the frame, or from the static buffer, on. -/
namespace Rtl8188eu
open Foundations

/-- The header of a frame as the cipher takes it. -/
def ccmHeaderOf (hdrlen : ℕ) (mpdu : List UInt8) : CcmHeader where
  mpdu := mpdu
  hdrlen := ccmHdrlen hdrlen mpdu
  qc := qcExists mpdu
  a4 := a4Exists hdrlen
  pn := pnVector mpdu (ccmHdrlen hdrlen mpdu)

/-- `aes_cipher`: the payload and the room behind it become the sealed payload. -/
def aesCipher (key : Keytype) (hdrlen : ℕ) (pframe : List UInt8) (plen : ℕ) : List UInt8 :=
  let header := ccmHeaderOf hdrlen pframe
  overwrite pframe (header.hdrlen + 8)
    (ccmSeal key header (bytesAt pframe (header.hdrlen + 8) plen))

/-- The result of `aes_decipher`, the frame, and the static buffer. -/
structure Deciphered where
  status : Status
  pframe : List UInt8
  message : List UInt8

/-- `aes_decipher`, on a frame and its length behind the IV. -/
def decipherMpdu (key : Keytype) (message : List UInt8) (hdrlen : ℕ) (pframe : List UInt8)
    (plen : ℕ) : Deciphered :=
  let n := plen - 8
  let qc := qcExists pframe
  let a4 := a4Exists hdrlen
  let pn := pnVector pframe hdrlen
  let hdrlen := ccmHdrlen hdrlen pframe
  let opened := overwrite pframe (hdrlen + 8)
    (ccmCtr key ⟨pframe, hdrlen, qc, a4, pn⟩ (bytesAt pframe (hdrlen + 8) n))
  let message := if hdrlen + plen + 8 ≤ maxMsgSize then
    overwrite message 0 (opened.take (hdrlen + plen + 8)) else message
  let header : CcmHeader := ⟨message, hdrlen, qc, a4, pnVector opened hdrlen⟩
  let payload := bytesAt message (hdrlen + 8) n
  let sealed := ccmCtr key header payload ++ ccmCtrMic key header (ccmMic key header payload)
  let message := overwrite message (hdrlen + 8) sealed
  ⟨if bytesAt opened (hdrlen + 8 + n) 8 = bytesAt message (hdrlen + 8 + n) 8 then .success
    else .fail, opened, message⟩

/-- The decryptor of received frames gives it the rest of the frame. -/
theorem aesDecipher_mpdu (key : Keytype) (message : List UInt8) (f : RecvFrame) :
    let opened := decipherMpdu key message f.attrib.hdrlen f.mem (f.len - f.attrib.payload)
    (aesDecipher key message f).status = opened.status ∧
      (aesDecipher key message f).frame.mem = opened.pframe ∧
        (aesDecipher key message f).message = opened.message := ⟨rfl, rfl, rfl⟩

namespace CcmHeader

/-- Two headers that say the same where they are read, with four addresses or three. -/
structure Same (h h' : CcmHeader) : Prop where
  hdrlen : h.hdrlen = h'.hdrlen
  qc : h.qc = h'.qc
  a4 : h.a4 = h'.a4
  pn : h.pn = h'.pn
  bytes : ∀ j < 32, h.mpdu.getD j 0 = h'.mpdu.getD j 0

section
variable {h h' : CcmHeader}

theorem Same.range (hh : Same h h') {i n : ℕ} (hn : i + n ≤ 32) :
    (List.range n).map (fun j => h.mpdu.getD (i + j) 0) =
      (List.range n).map fun j => h'.mpdu.getD (i + j) 0 := by
  apply List.map_congr_left
  intro j hj
  have := List.mem_range.mp hj
  exact hh.bytes _ (by omega)

theorem Same.qosByte (hh : Same h h') :
    h.mpdu.getD (if h'.a4 then 30 else 24) 0 = h'.mpdu.getD (if h'.a4 then 30 else 24) 0 :=
  hh.bytes _ (by split <;> decide)

theorem Same.nonceBlock (hh : Same h h') (flag : UInt8) (n : ℕ) :
    h.nonceBlock flag n = h'.nonceBlock flag n := by
  simp only [CcmHeader.nonceBlock, nonce, qosTc, hh.qc, hh.a4, hh.pn, hh.qosByte,
    hh.range (show 10 + 6 ≤ 32 by omega)]

theorem Same.constructMicHeader1 (hh : Same h h') :
    h.constructMicHeader1 = h'.constructMicHeader1 := by
  simp only [CcmHeader.constructMicHeader1, hh.hdrlen, hh.bytes 0 (by omega),
    hh.bytes 1 (by omega), hh.range (show 4 + 12 ≤ 32 by omega)]

theorem Same.constructMicHeader2 (hh : Same h h') :
    h.constructMicHeader2 = h'.constructMicHeader2 := by
  have ha4 := hh.range (show 24 + 6 ≤ 32 by omega)
  simp only [CcmHeader.constructMicHeader2, hh.qc, hh.qosByte,
    hh.range (show 16 + 6 ≤ 32 by omega), ha4, hh.a4]

theorem Same.ccmMic (hh : Same h h') (key : Block) (payload : List UInt8) :
    ccmMic key h payload = ccmMic key h' payload := by
  simp only [Rtl8188eu.ccmMic, constructMicIv, hh.nonceBlock, hh.constructMicHeader1,
    hh.constructMicHeader2]

theorem Same.ccmCtr (hh : Same h h') (key : Block) (payload : List UInt8) :
    ccmCtr key h payload = ccmCtr key h' payload := by
  simp only [Rtl8188eu.ccmCtr, constructCtrPreload, hh.nonceBlock]

theorem Same.ccmCtrMic (hh : Same h h') (key : Block) (mic : List UInt8) :
    ccmCtrMic key h mic = ccmCtrMic key h' mic := by
  simp only [Rtl8188eu.ccmCtrMic, constructCtrPreload, hh.nonceBlock]

theorem Same.withMpdu (hh : Same h h') (mpdu : List UInt8) :
    Same { h with mpdu := mpdu } { h' with mpdu := mpdu } :=
  ⟨hh.hdrlen, hh.qc, hh.a4, hh.pn, fun _ _ => rfl⟩

theorem Same.withPn (hh : Same h h') (pn : List UInt8) :
    Same { h with pn := pn } { h' with pn := pn } :=
  ⟨hh.hdrlen, hh.qc, hh.a4, rfl, hh.bytes⟩

end

end CcmHeader

/-- The code of a payload as it is sent. -/
def sealedCode (key : Keytype) (h : CcmHeader) (payload : List UInt8) : List UInt8 :=
  ccmCtrMic key h (ccmMic key h payload)

/-- The code of what stands in a buffer, with the other fields of a header. -/
def heldCode (key : Keytype) (h : CcmHeader) (message : List UInt8) (n : ℕ) : List UInt8 :=
  sealedCode key { h with mpdu := message } (bytesAt message (h.hdrlen + 8) n)

/-- The payload under the key stream for the packet number that stands at `hdrlen`. -/
def openedPayload (key : Keytype) (hdrlen : ℕ) (pframe : List UInt8) (n : ℕ) : List UInt8 :=
  ccmCtr key { ccmHeaderOf hdrlen pframe with pn := pnVector pframe hdrlen }
    (bytesAt pframe (ccmHdrlen hdrlen pframe + 8) n)

section
variable {key : Keytype} {hdrlen plen : ℕ} {pframe message : List UInt8}

theorem hdrlen_le_ccmHdrlen (hdrlen : ℕ) (mpdu : List UInt8) : hdrlen ≤ ccmHdrlen hdrlen mpdu := by
  unfold ccmHdrlen
  split <;> omega

theorem sealedCode_length (key : Keytype) (h : CcmHeader) (payload : List UInt8) :
    (sealedCode key h payload).length = 8 := ccmCtrMic_length key h payload

theorem openedPayload_length (key : Keytype) (hdrlen : ℕ) (pframe : List UInt8) (n : ℕ) :
    (openedPayload key hdrlen pframe n).length = n := by
  rw [openedPayload, ccmCtr_length, bytesAt_length]

theorem CcmHeader.Same.sealedCode {h h' : CcmHeader} (hh : h.Same h') (key : Keytype)
    (payload : List UInt8) : sealedCode key h payload = sealedCode key h' payload := by
  rw [Rtl8188eu.sealedCode, hh.ccmMic, hh.ccmCtrMic, Rtl8188eu.sealedCode]

theorem CcmHeader.Same.heldCode {h h' : CcmHeader} (hh : h.Same h') (key : Keytype)
    (message : List UInt8) (n : ℕ) : heldCode key h message n = heldCode key h' message n := by
  rw [Rtl8188eu.heldCode, (hh.withMpdu message).sealedCode, hh.hdrlen, Rtl8188eu.heldCode]

theorem decipherMpdu_pframe : (decipherMpdu key message hdrlen pframe plen).pframe =
    overwrite pframe (ccmHdrlen hdrlen pframe + 8) (openedPayload key hdrlen pframe (plen - 8)) :=
  rfl

/-- The code that is compared: that of the payload, or, for a frame that is too long for it, that of
what the buffer still holds. -/
def comparedCode (key : Keytype) (message : List UInt8) (hdrlen : ℕ) (pframe : List UInt8)
    (plen : ℕ) : List UInt8 :=
  if ccmHdrlen hdrlen pframe + plen + 8 ≤ maxMsgSize then
    sealedCode key (ccmHeaderOf hdrlen pframe) (openedPayload key hdrlen pframe (plen - 8))
  else heldCode key (ccmHeaderOf hdrlen pframe) message (plen - 8)

theorem bytesAt_zero {l : ℕ} (h : l ≤ pframe.length) : bytesAt pframe 0 l = pframe.take l := by
  apply List.ext_getElem
  · rw [bytesAt_length, List.length_take_of_le h]
  · intro j hj _
    rw [bytesAt_length] at hj
    simp only [bytesAt, List.getElem_map, List.getElem_range, Nat.zero_add, List.getElem_take]
    exact List.getD_eq_getElem _ _ (by omega)

/-- The code is read from where it is put into the buffer. -/
theorem bytesAt_sealed {h : CcmHeader} {n : ℕ} (hlong : h.hdrlen + 8 + n + 8 ≤ message.length) :
    bytesAt (overwrite message (h.hdrlen + 8)
      (ccmCtr key h (bytesAt message (h.hdrlen + 8) n) ++
        sealedCode key h (bytesAt message (h.hdrlen + 8) n))) (h.hdrlen + 8 + n) 8 =
      sealedCode key h (bytesAt message (h.hdrlen + 8) n) := by
  have hctr : (ccmCtr key h (bytesAt message (h.hdrlen + 8) n)).length = n := by
    rw [ccmCtr_length, bytesAt_length]
  have hcode := sealedCode_length key h (bytesAt message (h.hdrlen + 8) n)
  have hread := @bytesAt_overwrite_append message
    (ccmCtr key h (bytesAt message (h.hdrlen + 8) n)) (h.hdrlen + 8)
    (sealedCode key h (bytesAt message (h.hdrlen + 8) n)) (by omega)
  rwa [hctr, hcode] at hread

/-- A buffer into which the opened frame was copied gives the code of its payload. -/
theorem heldCode_copied {opened : List UInt8} {h : CcmHeader} {n l : ℕ} (h24 : 24 ≤ h.hdrlen)
    (hl : h.hdrlen + 8 + n ≤ l) (hopened : l ≤ opened.length) (hmessage : l ≤ message.length)
    (hheader : ∀ j < 32, opened.getD j 0 = h.mpdu.getD j 0) :
    heldCode key h (overwrite message 0 (opened.take l)) n =
      sealedCode key h (bytesAt opened (h.hdrlen + 8) n) := by
  have htake : (opened.take l).length = l := List.length_take_of_le hopened
  have hcopied (j : ℕ) (hj : j < l) :
      (overwrite message 0 (opened.take l)).getD j 0 = opened.getD j 0 := by
    have hinside : (overwrite message 0 (opened.take l)).getD (0 + j) 0 =
        (opened.take l).getD j 0 := overwrite_getD_inside (by omega) (by omega)
    rw [Nat.zero_add] at hinside
    rw [hinside, List.getD_eq_getElem?_getD, List.getElem?_take_of_lt hj,
      List.getD_eq_getElem?_getD]
  have hpayload : bytesAt (overwrite message 0 (opened.take l)) (h.hdrlen + 8) n =
      bytesAt opened (h.hdrlen + 8) n := bytesAt_congr fun j hj => hcopied _ (by omega)
  have hsame : CcmHeader.Same { h with mpdu := overwrite message 0 (opened.take l) } h :=
    ⟨rfl, rfl, rfl, rfl, fun j hj => (hcopied j (by omega)).trans (hheader j hj)⟩
  rw [heldCode, hpayload, hsame.sealedCode]

theorem decipherMpdu_status (h24 : 24 ≤ hdrlen) (h8 : 8 ≤ plen)
    (hframe : ccmHdrlen hdrlen pframe + plen + 8 ≤ pframe.length)
    (hmessage : ccmHdrlen hdrlen pframe + plen + 8 ≤ message.length) :
    (decipherMpdu key message hdrlen pframe plen).status = .success ↔
      bytesAt pframe (ccmHdrlen hdrlen pframe + plen) 8 =
        comparedCode key message hdrlen pframe plen := by
  have hle := hdrlen_le_ccmHdrlen hdrlen pframe
  obtain ⟨n, rfl⟩ : ∃ n, plen = n + 8 := ⟨plen - 8, by omega⟩
  set H := ccmHdrlen hdrlen pframe with hH
  let plain := openedPayload key hdrlen pframe n
  have hlength : plain.length = n := openedPayload_length key hdrlen pframe n
  let opened := overwrite pframe (H + 8) plain
  have hopened (j : ℕ) (hj : j < H + 8) : opened.getD j 0 = pframe.getD j 0 :=
    overwrite_getD_before hj
  have hpn : pnVector opened H = pnVector pframe H := pnVector_congr hopened
  have hcode : bytesAt opened (H + 8 + n) 8 = bytesAt pframe (H + 8 + n) 8 := by
    apply bytesAt_congr
    intro j _
    exact overwrite_getD_behind (by omega)
  let buffer := if H + (n + 8) + 8 ≤ maxMsgSize then
    overwrite message 0 (opened.take (H + (n + 8) + 8)) else message
  have hbuffer : buffer.length = message.length := by
    unfold buffer
    split
    · exact overwrite_length _ _ _
    · rfl
  let header : CcmHeader := ⟨buffer, H, qcExists pframe, a4Exists hdrlen, pnVector opened H⟩
  have hread : bytesAt (overwrite buffer (H + 8) (ccmCtr key header (bytesAt buffer (H + 8) n) ++
      sealedCode key header (bytesAt buffer (H + 8) n))) (H + 8 + n) 8 =
        heldCode key (ccmHeaderOf hdrlen pframe) buffer n := by
    have hsame : { ccmHeaderOf hdrlen pframe with mpdu := buffer } = header :=
      congrArg (CcmHeader.mk buffer H _ _) hpn.symm
    rw [heldCode, hsame]
    exact bytesAt_sealed (h := header) (show H + 8 + n + 8 ≤ buffer.length by omega)
  have hheld : heldCode key (ccmHeaderOf hdrlen pframe) buffer n =
      comparedCode key message hdrlen pframe (n + 8) := by
    rw [comparedCode, ← hH]
    unfold buffer
    split
    · rw [heldCode_copied (show 24 ≤ H by omega) (show H + 8 + n ≤ _ by omega)
        (by rw [overwrite_length]; omega) (by omega) fun j hj => hopened j (by omega)]
      congr 1
      have hplain := @bytesAt_overwrite pframe plain (H + 8) (by omega)
      rwa [hlength] at hplain
    · rfl
  have hstatus : (decipherMpdu key message hdrlen pframe (n + 8)).status =
      if bytesAt pframe (H + 8 + n) 8 = comparedCode key message hdrlen pframe (n + 8)
        then .success else .fail := by
    rw [← hheld, ← hread, ← hcode]
    rfl
  rw [hstatus, show H + (n + 8) = H + 8 + n by omega]
  split
  · rename_i heq
    exact ⟨fun _ => heq, fun _ => rfl⟩
  · rename_i hne
    exact ⟨fun h => (nomatch h), fun heq => absurd heq hne⟩

theorem qcExists_congr {mpdu mpdu' : List UInt8} (h : ∀ j < 2, mpdu.getD j 0 = mpdu'.getD j 0) :
    qcExists mpdu = qcExists mpdu' := by
  simp only [qcExists, getFrameType, getFrameSubType, le16, byteAt, h 0 (by decide),
    h (0 + 1) (by decide)]

/-- Frames with one header are taken alike. -/
theorem ccmHdrlen_congr {mpdu mpdu' : List UInt8} (h : ∀ j < 2, mpdu.getD j 0 = mpdu'.getD j 0) :
    ccmHdrlen hdrlen mpdu = ccmHdrlen hdrlen mpdu' := by
  rw [ccmHdrlen, qcExists_congr h, ccmHdrlen]

theorem ccmHeaderOf_same {mpdu mpdu' : List UInt8} (h24 : 24 ≤ hdrlen)
    (h : ∀ j < ccmHdrlen hdrlen mpdu' + 8, mpdu.getD j 0 = mpdu'.getD j 0) :
    CcmHeader.Same (ccmHeaderOf hdrlen mpdu) (ccmHeaderOf hdrlen mpdu') := by
  have hle := hdrlen_le_ccmHdrlen hdrlen mpdu'
  have htwo : ∀ j < 2, mpdu.getD j 0 = mpdu'.getD j 0 := fun j hj => h j (by omega)
  have hpn : pnVector mpdu (ccmHdrlen hdrlen mpdu) = pnVector mpdu' (ccmHdrlen hdrlen mpdu') := by
    rw [ccmHdrlen_congr htwo]
    exact pnVector_congr h
  exact ⟨ccmHdrlen_congr htwo, qcExists_congr htwo, rfl, hpn, fun j hj => h j (by omega)⟩

theorem ccmCtrMic_ccmCtrMic (key : Keytype) (h : CcmHeader) {code : List UInt8}
    (hcode : code.length ≤ 16) : ccmCtrMic key h (ccmCtrMic key h code) = code :=
  xorBytes_cancel (by rwa [Vector.length_toList])

/-- A code is right in clear when it is right as it is sent. -/
theorem sealedCode_clear {h : CcmHeader} {payload code : List UInt8} (hcode : code.length = 8) :
    ccmCtrMic key h code = ccmMic key h payload ↔ code = sealedCode key h payload := by
  constructor
  · intro heq
    rw [sealedCode, ← heq, ccmCtrMic_ccmCtrMic key h (by omega)]
  · rintro rfl
    exact ccmCtrMic_ccmCtrMic key h (by rw [ccmMic_length]; decide)

theorem constructCtrPreload_pn {h : CcmHeader} {pn : List UInt8} {c : ℕ}
    (heq : h.constructCtrPreload c = { h with pn := pn }.constructCtrPreload c) {i : ℕ}
    (hi : i < 6) : h.pn.getD i 0 = pn.getD i 0 := by
  have hbyte (j : ℕ) (hj : j < 16) : (h.constructCtrPreload c)[j] =
      ({ h with pn := pn }.constructCtrPreload c)[j] := by rw [heq]
  have hplace := hbyte (13 - i) (by omega)
  interval_cases i
  all_goals simpa [CcmHeader.constructCtrPreload, CcmHeader.nonceBlock, CcmHeader.nonce,
    List.range_succ] using hplace

end

section Sealing
variable (key : Keytype) (message : List UInt8) (hdrlen : ℕ) (pframe : List UInt8) (n : ℕ)

/-- A frame with `n` bytes of payload is sealed, accepted, and comes back up to its code. -/
def RoundTrips : Prop :=
  let opened := decipherMpdu key message hdrlen (aesCipher key hdrlen pframe n) (n + 8)
  opened.status = .success ∧ opened.pframe.take (ccmHdrlen hdrlen pframe + 8 + n) =
    pframe.take (ccmHdrlen hdrlen pframe + 8 + n)

/-- A frame that is accepted has, in clear, the code of its payload. -/
def Authentic : Prop :=
  let opened := decipherMpdu key message hdrlen pframe (n + 8)
  let header := ccmHeaderOf hdrlen opened.pframe
  opened.status = .success →
    ccmCtrMic key header (bytesAt opened.pframe (header.hdrlen + 8 + n) 8) =
      ccmMic key header (bytesAt opened.pframe (header.hdrlen + 8) n)

/-- The packet number that stands behind the header is the one that the cipher takes, or a single
block does not show the difference. -/
def StreamFits : Prop :=
  let header := ccmHeaderOf hdrlen pframe
  header.pn = pnVector pframe hdrlen ∨ n < 16 ∧ SameStream (aes128k128d key)
    header.constructCtrPreload { header with pn := pnVector pframe hdrlen }.constructCtrPreload n

/-- The frame fits into the static buffer. -/
def BufferFits : Prop := ccmHdrlen hdrlen pframe + n + 16 ≤ maxMsgSize

end Sealing

section
variable {key : Keytype} {message : List UInt8} {hdrlen : ℕ} {pframe : List UInt8} {n : ℕ}

/-- AES keeps two packet numbers apart on a whole block. -/
theorem streamFits_iff : StreamFits key hdrlen pframe n ↔ SameStream (aes128k128d key)
    (ccmHeaderOf hdrlen pframe).constructCtrPreload
      { ccmHeaderOf hdrlen pframe with pn := pnVector pframe hdrlen }.constructCtrPreload n := by
  constructor
  · rintro (heq | ⟨-, hsame⟩)
    · rw [← heq]
      intro c _ j _
      rfl
    · exact hsame
  · intro hsame
    rcases Nat.lt_or_ge n 16 with hlt | hge
    · exact Or.inr ⟨hlt, hsame⟩
    · refine Or.inl ?_
      have hblock : aes128k128d key ((ccmHeaderOf hdrlen pframe).constructCtrPreload 1) =
          aes128k128d key ({ ccmHeaderOf hdrlen pframe with
            pn := pnVector pframe hdrlen }.constructCtrPreload 1) := by
        apply Vector.ext
        intro i hi
        exact hsame 1 (by decide) ⟨i, hi⟩ (show 16 * (1 - 1) + i < n by omega)
      have hbytes (i : ℕ) (hi : i < 6) : (ccmHeaderOf hdrlen pframe).pn.getD i 0 =
          (pnVector pframe hdrlen).getD i 0 :=
        constructCtrPreload_pn (aes128k128d_injective key hblock) hi
      apply List.ext_getElem
      · rfl
      · intro i hi hi'
        have hbyte := hbytes i hi
        rwa [List.getD_eq_getElem _ _ hi, List.getD_eq_getElem _ _ hi'] at hbyte

section
variable (h24 : 24 ≤ hdrlen) (hframe : ccmHdrlen hdrlen pframe + n + 16 ≤ pframe.length)
include hframe

/-- The header of the sealed frame, its payload and its code. -/
theorem aesCipher_reads : (∀ j < ccmHdrlen hdrlen pframe + 8,
      (aesCipher key hdrlen pframe n).getD j 0 = pframe.getD j 0) ∧
    bytesAt (aesCipher key hdrlen pframe n) (ccmHdrlen hdrlen pframe + 8) n =
      ccmCtr key (ccmHeaderOf hdrlen pframe) (bytesAt pframe (ccmHdrlen hdrlen pframe + 8) n) ∧
    bytesAt (aesCipher key hdrlen pframe n) (ccmHdrlen hdrlen pframe + 8 + n) 8 =
      sealedCode key (ccmHeaderOf hdrlen pframe)
        (bytesAt pframe (ccmHdrlen hdrlen pframe + 8) n) := by
  obtain ⟨header, hheader⟩ : ∃ header, ccmHeaderOf hdrlen pframe = header := ⟨_, rfl⟩
  obtain ⟨i, hi⟩ : ∃ i, ccmHdrlen hdrlen pframe + 8 = i := ⟨_, rfl⟩
  rw [hheader, hi]
  have haes : aesCipher key hdrlen pframe n =
      overwrite pframe i (ccmSeal key header (bytesAt pframe i n)) := by
    rw [← hheader, ← hi]
    rfl
  have hctr : (ccmCtr key header (bytesAt pframe i n)).length = n := by
    rw [ccmCtr_length, bytesAt_length]
  have hcode := sealedCode_length key header (bytesAt pframe i n)
  have hseal : (ccmSeal key header (bytesAt pframe i n)).length = n + 8 := by
    rw [ccmSeal_length, bytesAt_length]
  have hwhole := @field_overwrite pframe
    (ccmSeal key header (bytesAt pframe i n)) i (by omega)
  rw [hseal, field_add] at hwhole
  obtain ⟨htext, hmic⟩ := List.append_inj hwhole (by rw [field_length, hctr])
  rw [haes]
  exact ⟨fun j hj => overwrite_getD_before hj, htext, hmic⟩

/-- The opened frame is the old one when its payload is. -/
theorem take_opened {plain : List UInt8} (hplain : plain.length = n) :
    (overwrite (aesCipher key hdrlen pframe n) (ccmHdrlen hdrlen pframe + 8) plain).take
        (ccmHdrlen hdrlen pframe + 8 + n) = pframe.take (ccmHdrlen hdrlen pframe + 8 + n) ↔
      plain = bytesAt pframe (ccmHdrlen hdrlen pframe + 8) n := by
  obtain ⟨hbefore, -, -⟩ := @aesCipher_reads key _ _ _ hframe
  have hlong : (aesCipher key hdrlen pframe n).length = pframe.length := overwrite_length _ _ _
  obtain ⟨i, hi⟩ : ∃ i, ccmHdrlen hdrlen pframe + 8 = i := ⟨_, rfl⟩
  rw [hi] at hbefore ⊢
  have htake : (aesCipher key hdrlen pframe n).take i = pframe.take i := by
    rw [← bytesAt_zero (by omega), ← bytesAt_zero (by omega)]
    apply bytesAt_congr
    intro j hj
    rw [Nat.zero_add]
    exact hbefore j hj
  have hpayload : pframe.take (i + n) = pframe.take i ++ bytesAt pframe i n := by
    have hsplit : bytesAt pframe 0 (i + n) = bytesAt pframe 0 i ++ bytesAt pframe (0 + i) n :=
      field_add pframe 0 i n
    rwa [Nat.zero_add, bytesAt_zero (by omega), bytesAt_zero (by omega)] at hsplit
  subst hplain
  rw [take_overwrite (by omega), hpayload, htake]
  exact List.append_right_inj _

include h24

/-- The sealed frame has the header of the frame. -/
theorem aesCipher_header : CcmHeader.Same
    (ccmHeaderOf hdrlen (aesCipher key hdrlen pframe n)) (ccmHeaderOf hdrlen pframe) :=
  ccmHeaderOf_same h24 (aesCipher_reads hframe).1

/-- What is opened of a sealed frame is its payload exactly when the key streams agree. -/
theorem openedPayload_sealed : openedPayload key hdrlen (aesCipher key hdrlen pframe n) n =
      bytesAt pframe (ccmHdrlen hdrlen pframe + 8) n ↔ StreamFits key hdrlen pframe n := by
  obtain ⟨hbefore, htext, -⟩ := @aesCipher_reads key _ _ _ hframe
  have hle := hdrlen_le_ccmHdrlen hdrlen pframe
  have hsame := @aesCipher_header key _ _ _ h24 hframe
  have hpn : pnVector (aesCipher key hdrlen pframe n) hdrlen = pnVector pframe hdrlen :=
    pnVector_congr fun j hj => hbefore j (by omega)
  have hopened : openedPayload key hdrlen (aesCipher key hdrlen pframe n) n =
      ccmCtr key { ccmHeaderOf hdrlen pframe with pn := pnVector pframe hdrlen }
        (ccmCtr key (ccmHeaderOf hdrlen pframe)
          (bytesAt pframe (ccmHdrlen hdrlen pframe + 8) n)) := by
    have hlen : ccmHdrlen hdrlen (aesCipher key hdrlen pframe n) = ccmHdrlen hdrlen pframe :=
      hsame.hdrlen
    rw [openedPayload, hlen, htext, hpn, (hsame.withPn (pnVector pframe hdrlen)).ccmCtr]
  rw [hopened, streamFits_iff]
  have hlength := bytesAt_length pframe (ccmHdrlen hdrlen pframe + 8) n
  generalize bytesAt pframe (ccmHdrlen hdrlen pframe + 8) n = payload at hlength
  subst hlength
  constructor
  · exact sameStream_of_streamXor
  · intro h
    have heq : ccmCtr key (ccmHeaderOf hdrlen pframe) payload =
      ccmCtr key { ccmHeaderOf hdrlen pframe with pn := pnVector pframe hdrlen } payload :=
        h.streamXor_eq
    rw [heq]
    exact streamXor_cancel _ _ payload

/-- The round trip succeeds exactly when the packet number is found where the header ends, and the
frame fits into the static buffer, or the buffer holds something with the same code. -/
theorem roundTrips_iff (hmessage : ccmHdrlen hdrlen pframe + n + 16 ≤ message.length) :
    RoundTrips key message hdrlen pframe n ↔ StreamFits key hdrlen pframe n ∧
      (BufferFits hdrlen pframe n ∨ heldCode key (ccmHeaderOf hdrlen pframe) message n =
        sealedCode key (ccmHeaderOf hdrlen pframe)
          (bytesAt pframe (ccmHdrlen hdrlen pframe + 8) n)) := by
  obtain ⟨-, -, hcode⟩ := @aesCipher_reads key _ _ _ hframe
  have hsame := @aesCipher_header key _ _ _ h24 hframe
  have hlen : ccmHdrlen hdrlen (aesCipher key hdrlen pframe n) = ccmHdrlen hdrlen pframe :=
    hsame.hdrlen
  have hlong : (aesCipher key hdrlen pframe n).length = pframe.length := overwrite_length _ _ _
  have hstatus := @decipherMpdu_status key _ _
    (aesCipher key hdrlen pframe n) message h24 (Nat.le_add_left 8 n)
    (by rw [hlen, hlong]; omega) (by rw [hlen]; omega)
  have hrestored := @take_opened key _ _ _ hframe _
    (openedPayload_length key hdrlen (aesCipher key hdrlen pframe n) n)
  rw [RoundTrips, hstatus, decipherMpdu_pframe, hlen, Nat.add_sub_cancel, hrestored,
    openedPayload_sealed h24 hframe, and_comm]
  apply and_congr_right
  intro hstream
  have hopened := (openedPayload_sealed h24 hframe).mpr hstream
  have hheld : heldCode key (ccmHeaderOf hdrlen (aesCipher key hdrlen pframe n)) message n =
      heldCode key (ccmHeaderOf hdrlen pframe) message n := hsame.heldCode key message n
  rw [show ccmHdrlen hdrlen pframe + (n + 8) = ccmHdrlen hdrlen pframe + 8 + n by omega, hcode,
    comparedCode, hlen, Nat.add_sub_cancel, hopened, hheld, hsame.sealedCode, BufferFits]
  constructor
  · intro h
    split at h
    · exact Or.inl (by omega)
    · exact Or.inr h.symm
  · rintro (hfits | hheldCode)
    · rw [if_pos (by omega)]
    · rw [hheldCode, ite_self]

/-- Only of a frame that is too long for the static buffer the code may go unchecked: it is accepted
with the code of what the buffer holds. -/
theorem authentic_iff (hmessage : ccmHdrlen hdrlen pframe + n + 16 ≤ message.length) :
    Authentic key message hdrlen pframe n ↔ BufferFits hdrlen pframe n ∨
      heldCode key (ccmHeaderOf hdrlen pframe) message n ≠
        bytesAt pframe (ccmHdrlen hdrlen pframe + 8 + n) 8 ∨
      heldCode key (ccmHeaderOf hdrlen pframe) message n =
        sealedCode key (ccmHeaderOf hdrlen pframe) (openedPayload key hdrlen pframe n) := by
  have hplain := openedPayload_length key hdrlen pframe n
  have hpframe : (decipherMpdu key message hdrlen pframe (n + 8)).pframe =
      overwrite pframe (ccmHdrlen hdrlen pframe + 8) (openedPayload key hdrlen pframe n) := rfl
  have hsame : CcmHeader.Same (ccmHeaderOf hdrlen
      (overwrite pframe (ccmHdrlen hdrlen pframe + 8) (openedPayload key hdrlen pframe n)))
        (ccmHeaderOf hdrlen pframe) :=
    ccmHeaderOf_same h24 fun j hj => overwrite_getD_before hj
  have hlen : (ccmHeaderOf hdrlen (overwrite pframe (ccmHdrlen hdrlen pframe + 8)
      (openedPayload key hdrlen pframe n))).hdrlen = ccmHdrlen hdrlen pframe := hsame.hdrlen
  have hpayload : bytesAt (overwrite pframe (ccmHdrlen hdrlen pframe + 8)
      (openedPayload key hdrlen pframe n)) (ccmHdrlen hdrlen pframe + 8) n =
        openedPayload key hdrlen pframe n := by
    have hwritten := @bytesAt_overwrite pframe (openedPayload key hdrlen pframe n)
      (ccmHdrlen hdrlen pframe + 8) (by omega)
    rwa [hplain] at hwritten
  have hcode : bytesAt (overwrite pframe (ccmHdrlen hdrlen pframe + 8)
      (openedPayload key hdrlen pframe n)) (ccmHdrlen hdrlen pframe + 8 + n) 8 =
        bytesAt pframe (ccmHdrlen hdrlen pframe + 8 + n) 8 := by
    apply bytesAt_congr
    intro j _
    exact overwrite_getD_behind (by omega)
  have hstatus := @decipherMpdu_status key _ _ _ message h24 (Nat.le_add_left 8 n)
    (show ccmHdrlen hdrlen pframe + (n + 8) + 8 ≤ pframe.length by omega) (by omega)
  rw [show ccmHdrlen hdrlen pframe + (n + 8) = ccmHdrlen hdrlen pframe + 8 + n by omega] at hstatus
  simp only [Authentic, hpframe, hlen, hpayload, hcode, hsame.ccmCtrMic, hsame.ccmMic, hstatus,
    comparedCode, Nat.add_sub_cancel, BufferFits]
  have hclear := @sealedCode_clear key (ccmHeaderOf hdrlen pframe)
    (openedPayload key hdrlen pframe n) _
    (bytesAt_length pframe (ccmHdrlen hdrlen pframe + 8 + n) 8)
  rw [hclear]
  constructor
  · intro h
    by_cases hfits : ccmHdrlen hdrlen pframe + n + 16 ≤ maxMsgSize
    · exact Or.inl hfits
    · rw [if_neg (by omega)] at h
      by_cases heq : heldCode key (ccmHeaderOf hdrlen pframe) message n =
          bytesAt pframe (ccmHdrlen hdrlen pframe + 8 + n) 8
      · exact Or.inr (Or.inr (heq.trans (h heq.symm)))
      · exact Or.inr (Or.inl heq)
  · rintro (hfits | hne | heq) h
    · rwa [if_pos (by omega)] at h
    · split at h
      · exact h
      · exact absurd h.symm hne
    · rwa [heq, ite_self] at h

/-- A round trip succeeds, and what is accepted is authentic, exactly when the cipher finds the
packet number and the frame fits into the static buffer, codes of the buffer that happen to be
right or to be no match apart. -/
theorem ccm_sound_iff (hmessage : ccmHdrlen hdrlen pframe + n + 16 ≤ message.length) :
    (RoundTrips key message hdrlen pframe n ↔ StreamFits key hdrlen pframe n ∧
      (BufferFits hdrlen pframe n ∨ heldCode key (ccmHeaderOf hdrlen pframe) message n =
        sealedCode key (ccmHeaderOf hdrlen pframe)
          (bytesAt pframe (ccmHdrlen hdrlen pframe + 8) n))) ∧
    (Authentic key message hdrlen pframe n ↔ BufferFits hdrlen pframe n ∨
      heldCode key (ccmHeaderOf hdrlen pframe) message n ≠
        bytesAt pframe (ccmHdrlen hdrlen pframe + 8 + n) 8 ∨
      heldCode key (ccmHeaderOf hdrlen pframe) message n =
        sealedCode key (ccmHeaderOf hdrlen pframe) (openedPayload key hdrlen pframe n)) :=
  ⟨roundTrips_iff h24 hframe hmessage, authentic_iff h24 hframe hmessage⟩

end

end

section Example

/-- A data frame of 16 bytes with three addresses and packet number 1. -/
def threeAddresses : List UInt8 :=
  [0x08, 0x41] ++ List.replicate 22 0 ++ [0x01, 0x00, 0x00, 0x20, 0x00, 0x00, 0x00, 0x00] ++
    List.replicate 24 0

theorem threeAddresses_sound : RoundTrips (Vector.replicate 16 0) (List.replicate 2048 0) 24
      threeAddresses 16 ∧
    Authentic (Vector.replicate 16 0) (List.replicate 2048 0) 24 threeAddresses 16 := by
  have hsound := @ccm_sound_iff (Vector.replicate 16 0) (List.replicate 2048 0)
    24 threeAddresses 16 (by decide) (by decide)
    (by rw [List.length_replicate]; decide)
  have hfits : BufferFits 24 threeAddresses 16 := by
    unfold BufferFits
    decide
  exact ⟨hsound.1.mpr ⟨Or.inl rfl, Or.inl hfits⟩, hsound.2.mpr (Or.inl hfits)⟩

/-- A QoS data frame of 16 bytes with four addresses and packet number 1. -/
def fourAddresses : List UInt8 :=
  [0x88, 0x43] ++ List.replicate 30 0 ++ [0x01, 0x00, 0x00, 0x20, 0x00, 0x00, 0x00, 0x00] ++
    List.replicate 26 0

/-- The sender takes the packet number from two bytes further on than the receiver. -/
theorem fourAddresses_misread : ¬ RoundTrips (Vector.replicate 16 0) (List.replicate 2048 0) 32
    fourAddresses 16 := by
  rw [roundTrips_iff (by decide) (by decide) (by rw [List.length_replicate]; decide)]
  rintro ⟨heq | ⟨hlt, -⟩, -⟩
  · revert heq
    decide
  · exact absurd hlt (by decide)

end Example

section Transmitter
variable (x : XmitFrame) (key : Keytype) (mem : Memory)

/-- A write into what is read shows in it. -/
theorem read_write_inside (i k l : ℕ) (bytes : List UInt8) :
    (mem.write (i + k) bytes).read i l = overwrite (mem.read i l) k bytes := by
  apply List.ext_getElem
  · rw [overwrite_length, Memory.read_length, Memory.read_length]
  · intro j hj hj'
    simp only [Memory.read, overwrite, List.getElem_mapIdx, List.getElem_map, List.getElem_range,
      Memory.write]
    split
    · rw [if_pos (by omega), List.getD_eq_getElem _ _ (by omega),
        List.getD_eq_getElem _ _ (by omega)]
      congr 1
      omega
    · split
      · rw [List.getD_eq_default _ _ (by omega)]
      · rfl

/-- The call of the transmitter leaves the sealed frame in its buffer. -/
theorem aesCall_frame (h24 : 24 ≤ x.attrib.hdrlen) {pframe length l : ℕ}
    (hl : ccmHdrlen x.attrib.hdrlen (mem.read pframe l) + length + 16 ≤ l) :
    (mem.write (x.aesCall key mem pframe length).payload.start
      (x.aesCall key mem pframe length).output).read pframe l =
        aesCipher key x.attrib.hdrlen (mem.read pframe l) length := by
  have hle := hdrlen_le_ccmHdrlen x.attrib.hdrlen (mem.read pframe l)
  have hge : ccmHdrlen x.attrib.hdrlen (mem.read pframe l) ≤ x.attrib.hdrlen + 2 := by
    unfold ccmHdrlen
    split <;> omega
  have hsame : CcmHeader.Same (ccmHeaderOf x.attrib.hdrlen (mem.read pframe (x.attrib.hdrlen + 32)))
      (ccmHeaderOf x.attrib.hdrlen (mem.read pframe l)) := by
    apply ccmHeaderOf_same h24
    intro j hj
    rw [mem.read_getD (by omega), mem.read_getD (by omega)]
  have hlen : ccmHdrlen x.attrib.hdrlen (mem.read pframe (x.attrib.hdrlen + 32)) =
      ccmHdrlen x.attrib.hdrlen (mem.read pframe l) := hsame.hdrlen
  have hpayload (i : ℕ) (hi : i + length ≤ l) :
      mem.read (pframe + i) length = bytesAt (mem.read pframe l) i length := by
    apply List.map_congr_left
    intro j hj
    have hlt := List.mem_range.mp hj
    rw [mem.read_getD (by omega), Nat.add_assoc]
  have hcall : x.aesCall key mem pframe length =
      ⟨pframe + ccmHdrlen x.attrib.hdrlen (mem.read pframe (x.attrib.hdrlen + 32)),
        ⟨pframe + ccmHdrlen x.attrib.hdrlen (mem.read pframe (x.attrib.hdrlen + 32)) + 8, length⟩,
        ccmSeal key (ccmHeaderOf x.attrib.hdrlen (mem.read pframe (x.attrib.hdrlen + 32)))
          (mem.read (pframe + ccmHdrlen x.attrib.hdrlen
            (mem.read pframe (x.attrib.hdrlen + 32)) + 8) length)⟩ := rfl
  rw [hcall, hlen]
  simp only [Nat.add_assoc pframe]
  rw [read_write_inside, hpayload _ (by omega), ccmSeal, hsame.ccmCtr, hsame.ccmMic,
    hsame.ccmCtrMic]
  rfl

end Transmitter

end Rtl8188eu
