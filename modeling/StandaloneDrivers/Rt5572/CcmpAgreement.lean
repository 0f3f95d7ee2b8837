import StandaloneDrivers.Rt5572.SoftDecrypt

/-! The two decryptors of CCMP frames, and the frames for which they agree. -/
namespace Rt5572
open Foundations

section Modes
variable {hdr : List UInt8} (key : CipherBlock) (pn : List UInt8)

/-- The generic mode opens the same body, with another counter and another header block. -/
theorem rtmpSoftDecryptCCMP_eq (hhdr : DataHeader hdr) {keyLen : ℕ} (hkey : keyLen ≠ 0)
    {gap body : List UInt8} (hgap : gap.length = 8) {n : ℕ} (hbody : body.length = n + 8)
    (hn : n < 65536) :
    rtmpSoftDecryptCCMP hdr ⟨key, keyLen⟩ (gap ++ body) =
      openText (aes128k128d key) (byteCounter hdr (ccmpPn gap))
        (frameCode key hdr (ccmpPn gap) (dataHdr hdr)) n body := by
  have hlen : (gap ++ body).length = n + 16 := by
    rw [List.length_append]
    omega
  have hlong : ¬ (gap ++ body).length ≤ 8 := by omega
  have hdrop : (gap ++ body).drop 8 = body := List.drop_left' hgap
  simp only [rtmpSoftDecryptCCMP, if_neg hkey, if_neg hlong, hdrop, ccmpPn_append hgap]
  have hopen := CcmParams.aesCcmDecrypt_eq (ccmpParams_ok hdr key (ccmpPn gap)) hbody
    (show n < 2 ^ 32 by omega) (show n ≤ (gap ++ body).length by omega)
  rw [hopen, ccmpParams_cipher, funext (ccmpParams_counter key (ccmpPn gap) hhdr.data),
    funext (ccmpParams_mac key (ccmpPn gap) hhdr)]

theorem rtmpSoftEncryptCCMP_eq (hhdr : DataHeader hdr) (payload : List UInt8) :
    rtmpSoftEncryptCCMP hdr pn key payload =
      some (sealText (aes128k128d key) (byteCounter hdr pn) (frameCode key hdr pn (dataHdr hdr))
        payload) := by
  have hseal := CcmParams.aesCcmEncrypt_eq (ccmpParams_ok hdr key pn) payload
    (Nat.le_refl (payload.length + 8))
  rw [rtmpSoftEncryptCCMP, hseal, ccmpParams_cipher,
    funext (ccmpParams_counter key pn hhdr.data), funext (ccmpParams_mac key pn hhdr)]
  rfl

end Modes

section Agreement
variable (key : CipherBlock) (hdr pn : List UInt8) (n : ℕ)

/-- A payload of `n` bytes that was sealed under `pn` comes back from both decryptors. -/
def ReadBack : Prop :=
  ∀ (keyIdx : UInt8) (payload : List UInt8), payload.length = n →
    ∃ sealed, rtmpSoftEncryptCCMP hdr pn key payload = some sealed ∧
      softOpened ⟨key, 16⟩ hdr (rtmpConstructCCMPHdr keyIdx pn ++ sealed) = some payload ∧
      rtmpSoftDecryptCCMP hdr ⟨key, 16⟩ (rtmpConstructCCMPHdr keyIdx pn ++ sealed) = some payload

/-- Both decryptors have one result for a frame with `n` bytes of payload under `pn`. -/
def SameResult : Prop :=
  ∀ gap body : List UInt8, gap.length = 8 → ccmpPn gap = pn → body.length = n + 8 →
    softOpened ⟨key, 16⟩ hdr (gap ++ body) = rtmpSoftDecryptCCMP hdr ⟨key, 16⟩ (gap ++ body)

/-- From block 256 on the cipher gives the payload's bytes of a block for its number and for the
number cut to a byte. -/
def CounterFits : Prop :=
  ∀ c, 256 ≤ c → ∀ j : Fin 16, 16 * (c - 1) + j < n →
    getElem (aes128k128d key (byteCounter hdr pn c)) j (val_lt_sixteen j) =
      getElem (aes128k128d key (frameCounter hdr pn c)) j (val_lt_sixteen j)

/-- The mark of a frame without data is not set, or its bit does not show in the code. -/
def MarkFits : Prop :=
  hdr.getD 0 0 &&& 0x40 = 0 ∨ ∀ payload : List UInt8, payload.length = n →
    frameCode key hdr pn hdr payload = frameCode key hdr pn (dataHdr hdr) payload

/-- The code is masked with the same block. -/
theorem byteCounter_zero : byteCounter hdr pn 0 = frameCounter hdr pn 0 :=
  congrArg (frameCounter hdr pn) (Nat.zero_mod 256)

variable {key hdr pn n}

theorem counterFits_iff : CounterFits key hdr pn n ↔
    SameStream (aes128k128d key) (byteCounter hdr pn) (frameCounter hdr pn) n := by
  constructor
  · intro h c _ j hj
    rcases Nat.lt_or_ge c 256 with hlt | hge
    · simp only [byteCounter, Nat.mod_eq_of_lt hlt]
    · exact h c hge j hj
  · intro h c hc j hj
    exact h c (by omega) j hj

/-- A clear bit is masked to the same header. -/
theorem dataHdr_eq (h0 : 0 < hdr.length) (h : hdr.getD 0 0 &&& 0x40 = 0) : dataHdr hdr = hdr := by
  have hmask : ∀ b : UInt8, b &&& 0x40 = 0 → b &&& 0xbf = b := by
    apply byte_cases
    decide +kernel
  rw [dataHdr, hmask _ h, List.getD_eq_getElem _ _ h0, List.set_getElem_self]

theorem markFits_iff (h0 : 0 < hdr.length) : MarkFits key hdr pn n ↔
    ∀ payload : List UInt8, payload.length = n →
      frameCode key hdr pn hdr payload = frameCode key hdr pn (dataHdr hdr) payload := by
  constructor
  · rintro (hclear | h)
    · intro payload _
      rw [dataHdr_eq h0 hclear]
    · exact h
  · exact Or.inr

theorem ccmpPn_constructed (keyIdx : UInt8) (hpn : pn.length = 6) :
    ccmpPn (rtmpConstructCCMPHdr keyIdx pn) = pn := by
  match pn, hpn with
  | [a, b, c, d, e, f], _ => rfl

/-- What the encryptor seals is read by its own decryptor, and by the other one where counter and
code agree. -/
theorem sealed_read_iff (hhdr : DataHeader hdr) (hpn : pn.length = 6)
    (keyIdx : UInt8) {payload : List UInt8} (hlen : payload.length + 16 < 65536) :
    (∃ sealed, rtmpSoftEncryptCCMP hdr pn key payload = some sealed ∧
      softOpened ⟨key, 16⟩ hdr (rtmpConstructCCMPHdr keyIdx pn ++ sealed) = some payload ∧
      rtmpSoftDecryptCCMP hdr ⟨key, 16⟩ (rtmpConstructCCMPHdr keyIdx pn ++ sealed) =
        some payload) ↔
      CounterFits key hdr pn payload.length ∧
        frameCode key hdr pn hdr payload = frameCode key hdr pn (dataHdr hdr) payload := by
  have hgap : (rtmpConstructCCMPHdr keyIdx pn).length = 8 := rfl
  have hpn' := ccmpPn_constructed keyIdx hpn
  have hmac : (frameCode key hdr pn (dataHdr hdr) payload).length ≤ 16 := by
    rw [frameCode_length]
    decide
  have hsealed := rtmpSoftEncryptCCMP_eq key pn hhdr payload
  generalize htext : sealText _ _ _ payload = sealed at hsealed
  have hbody : sealed.length = payload.length + 8 := by
    rw [← htext, sealText, List.length_append, streamXor_length, xorBytes_length,
      frameCode_length, Vector.length_toList]
    rfl
  have hread : softOpened ⟨key, 16⟩ hdr (rtmpConstructCCMPHdr keyIdx pn ++ sealed) =
      some payload ↔ CounterFits key hdr pn payload.length ∧
        frameCode key hdr pn hdr payload = frameCode key hdr pn (dataHdr hdr) payload := by
    rw [softOpened_eq key hhdr (by decide) hgap hbody (by omega), hpn', counterFits_iff, ← htext]
    exact openText_seal_iff (byteCounter_zero hdr pn) hmac
  have hown : rtmpSoftDecryptCCMP hdr ⟨key, 16⟩ (rtmpConstructCCMPHdr keyIdx pn ++ sealed) =
      some payload := by
    rw [rtmpSoftDecryptCCMP_eq key hhdr (by decide) hgap hbody (by omega), hpn', ← htext]
    exact openText_seal _ _ _ hmac
  constructor
  · rintro ⟨other, heq, hsoft, -⟩
    rw [hsealed] at heq
    cases heq
    exact hread.mp hsoft
  · intro h
    exact ⟨sealed, hsealed, hread.mpr h, hown⟩

/-- Both decryptors return what was sealed under a packet number, and treat every frame with as much
payload alike, exactly when the counter fits into its byte, or the cipher makes nothing of it, and
the mark of a frame without data does not show. -/
theorem decryptors_agree_iff (hhdr : DataHeader hdr) (hpn : pn.length = 6)
    (hn : n + 16 < 65536) :
    (ReadBack key hdr pn n ∧ (0 < n → SameResult key hdr pn n)) ↔
      CounterFits key hdr pn n ∧ MarkFits key hdr pn n := by
  have h24 := hhdr.three_addresses
  rw [markFits_iff (by omega)]
  constructor
  · rintro ⟨hread, -⟩
    constructor
    · have hzero : (List.replicate n (0 : UInt8)).length = n := List.length_replicate
      have h := (sealed_read_iff hhdr hpn 0 (by rw [hzero]; exact hn)).mp (hread 0 _ hzero)
      rw [hzero] at h
      exact h.1
    · rintro payload rfl
      exact ((sealed_read_iff hhdr hpn 0 hn).mp (hread 0 payload rfl)).2
  · rintro ⟨hcounter, hmark⟩
    constructor
    · rintro keyIdx payload rfl
      exact (sealed_read_iff hhdr hpn keyIdx hn).mpr ⟨hcounter, hmark payload rfl⟩
    · rintro - gap body hgap rfl hbody
      rw [softOpened_eq key hhdr (by decide) hgap hbody (by omega),
        rtmpSoftDecryptCCMP_eq key hhdr (by decide) hgap hbody (by omega)]
      refine (openText_congr (byteCounter_zero hdr (ccmpPn gap)) (by omega)
        (counterFits_iff.mp hcounter) ?_).symm
      rintro payload rfl
      exact hmark payload rfl

section Example

/-- A data frame with three addresses. -/
def plainHeader : List UInt8 := 0x08 :: List.replicate 23 0

theorem plainHeader_data : DataHeader plainHeader := ⟨by decide, by decide⟩

/-- Payloads of 4080 bytes are read by both. -/
theorem plainHeader_agree : ReadBack (Vector.replicate 16 0) plainHeader (List.replicate 6 0) 4080 ∧
    (0 < 4080 → SameResult (Vector.replicate 16 0) plainHeader (List.replicate 6 0) 4080) :=
  (decryptors_agree_iff plainHeader_data rfl (by decide)).mpr
    ⟨fun c hc j hj => by omega, Or.inl (by decide)⟩

/-- Block 256 of a payload of 4081 bytes is opened with the key stream of another block. -/
theorem longPayload_misread : ¬ ReadBack (Vector.replicate 16 0) plainHeader
    (List.replicate 6 0) 4081 := by
  intro h
  have hzero : (List.replicate 4081 (0 : UInt8)).length = 4081 := List.length_replicate
  have hread := (sealed_read_iff plainHeader_data rfl 0 (by rw [hzero]; decide)).mp
    (h 0 _ hzero)
  rw [hzero] at hread
  have hbyte := hread.1 256 (Nat.le_refl 256) 0 (by decide)
  revert hbyte
  decide +kernel

end Example

end Agreement

end Rt5572
