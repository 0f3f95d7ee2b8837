import StandaloneDrivers.Rt5572.CryptModes

/-! What CCM seals and opens, as a key stream and a code; what AES_CCM_Encrypt seals comes back, and
what AES_CCM_Decrypt takes carries the right code. -/
namespace Rt5572
open Foundations

namespace CcmParams
variable (p : CcmParams)

/-- The counter block of block number `c`; only its last byte counts. -/
def counter (c : ℕ) : CipherBlock :=
  p.counterBlock.set 15 (getElem p.counterBlock 15 fifteen_lt_sixteen + UInt8.ofNat c)
    fifteen_lt_sixteen

theorem counter_zero : p.counter 0 = p.counterBlock := by
  apply Vector.ext
  intro i hi
  rw [counter, Vector.getElem_set]
  split
  · rename_i h
    subst h
    exact UInt8.add_zero _
  · rfl

theorem counter_succ (c : ℕ) :
    (p.counter c).set 15 (getElem (p.counter c) 15 fifteen_lt_sixteen + 1) fifteen_lt_sixteen =
      p.counter (c + 1) := by
  simp only [counter, Vector.getElem_set_self, Vector.set_set, UInt8.add_assoc, UInt8.ofNat_add,
    UInt8.ofNat_one]

/-- The counter block, and the text up to the block that comes next. -/
theorem cipherRound_run (text : List UInt8) {k : ℕ} (hk : k ≤ (text.length + 15) / 16) :
    (List.range k).foldl (p.cipherRound text) (p.counterBlock, []) =
      (p.counter k, xorBytes (text.take (16 * k)) (keyStream p.cipher p.counter k)) := by
  induction k with
  | zero => rw [counter_zero]; rfl
  | succ k ih =>
    have hlen : (text.take (16 * k)).length = (keyStream p.cipher p.counter k).length := by
      rw [keyStream_length, List.length_take]
      omega
    rw [List.range_succ, List.foldl_append, ih (by omega), List.foldl_cons, List.foldl_nil,
      cipherRound, counter_succ, keyStream_succ, Nat.mul_succ, List.take_add,
      xorBytes_append hlen]
    rfl

theorem cipherText_eq (text : List UInt8) :
    p.cipherText text = streamXor p.cipher p.counter text := by
  rw [cipherText, cipherRound_run p text (Nat.le_refl _), List.take_of_length_le (by omega)]
  rfl

theorem aesCcmMac_length (payload : List UInt8) :
    (p.aesCcmMac payload).length = min p.macLength 16 := by
  rw [aesCcmMac, List.length_take, Vector.length_toList]

variable {p}

/-- What the checks leave of the parameters. -/
theorem macLength_le (h : p.checkInput = .ok ()) : p.macLength ≤ 16 := by
  unfold checkInput at h
  split at h
  · cases h
  · split at h
    · cases h
    · split at h
      · cases h
      · rename_i hmem
        rw [not_not] at hmem
        revert hmem
        generalize p.macLength = n
        intro hmem
        simp only [List.mem_cons, List.not_mem_nil, or_false] at hmem
        omega

theorem aesCcmEncrypt_eq (h : p.checkInput = .ok ()) (plainText : List UInt8) {size : ℕ}
    (hsize : plainText.length + p.macLength ≤ size) :
    p.aesCcmEncrypt plainText size =
      .ok (sealText p.cipher p.counter p.aesCcmMac plainText) := by
  have hroom : ¬ size < (plainText.length + p.macLength) % 2 ^ 32 := by
    have := Nat.mod_le (plainText.length + p.macLength) (2 ^ 32)
    omega
  simp only [aesCcmEncrypt, h, if_neg hroom, cipherText_eq, maskMac, sealText, counter_zero]
  rfl

/-- A text of `n` bytes comes back when its code is right. -/
theorem aesCcmDecrypt_eq (h : p.checkInput = .ok ()) {cipherText : List UInt8} {n size : ℕ}
    (hlen : cipherText.length = n + p.macLength) (hn : n < 2 ^ 32) (hsize : n ≤ size) :
    (p.aesCcmDecrypt cipherText size).toOption =
      openText p.cipher p.counter p.aesCcmMac n cipherText := by
  have hwrap : (cipherText.length + 2 ^ 32 - p.macLength) % 2 ^ 32 = n := by
    have hsub : cipherText.length + 2 ^ 32 - p.macLength = n + 2 ^ 32 := by omega
    rw [hsub, Nat.add_mod_right, Nat.mod_eq_of_lt hn]
  have hmac : slice cipherText n p.macLength = cipherText.drop n :=
    List.take_of_length_le (by rw [List.length_drop]; omega)
  have hroom : ¬ size < n := by omega
  simp only [aesCcmDecrypt, h, hwrap, if_neg hroom, cipherText_eq, maskMac, hmac, openText,
    counter_zero]
  by_cases heq : xorBytes (cipherText.drop n) (p.cipher p.counterBlock).toList =
      p.aesCcmMac (streamXor p.cipher p.counter (cipherText.take n))
  · rw [if_pos heq.symm]
    simp only [heq, ne_eq, not_true_eq_false, if_false]
    rfl
  · rw [if_neg (Ne.symm heq)]
    simp only [ne_eq, heq, not_false_eq_true, if_true]
    rfl

end CcmParams

namespace CcmParams
variable {p : CcmParams}

theorem checkInput_ok (hkey : p.key.length = 16) (hlow : 7 ≤ p.nonce.length)
    (hhigh : p.nonce.length ≤ 13) (hmac : p.macLength ∈ [4, 6, 8, 10, 12, 14, 16]) :
    p.checkInput = .ok () := by
  rw [checkInput, if_neg (not_not.mpr hkey), if_neg (by omega), if_neg (not_not.mpr hmac)]

theorem macLength_pos (h : p.checkInput = .ok ()) : 0 < p.macLength := by
  unfold checkInput at h
  split at h
  · cases h
  · split at h
    · cases h
    · split at h
      · cases h
      · rename_i hmem
        refine Nat.pos_of_ne_zero fun hzero => hmem ?_
        rw [hzero]
        decide

theorem sealed_length (plainText : List UInt8) (hmac : p.macLength ≤ 16) :
    (sealText p.cipher p.counter p.aesCcmMac plainText).length =
      plainText.length + p.macLength := by
  rw [sealText, List.length_append, streamXor_length, xorBytes_length, aesCcmMac_length,
    Vector.length_toList, Nat.min_eq_left hmac, Nat.min_eq_left hmac]

theorem aesCcmDecrypt_sealed (h : p.checkInput = .ok ()) {plainText : List UInt8} {room : ℕ}
    (hlen : plainText.length < 2 ^ 32) (hroom : plainText.length ≤ room) :
    p.aesCcmDecrypt (sealText p.cipher p.counter p.aesCcmMac plainText) room = .ok plainText := by
  have hmac : (p.aesCcmMac plainText).length ≤ 16 := by
    rw [aesCcmMac_length]
    exact Nat.min_le_right _ _
  have hopened : (p.aesCcmDecrypt (sealText p.cipher p.counter p.aesCcmMac plainText)
      room).toOption = some plainText := by
    rw [aesCcmDecrypt_eq h (sealed_length plainText (macLength_le h)) hlen hroom]
    exact openText_seal p.cipher p.counter p.aesCcmMac hmac
  cases hresult : p.aesCcmDecrypt (sealText p.cipher p.counter p.aesCcmMac plainText) room with
  | error e =>
    rw [hresult] at hopened
    cases hopened
  | ok text =>
    rw [hresult] at hopened
    exact congrArg Except.ok (Option.some.inj hopened)

/-- The code behind the text, deciphered, is the code of the text. -/
def CarriesMac (p : CcmParams) (cipherText plainText : List UInt8) : Prop :=
  p.macLength ≤ cipherText.length ∧
    plainText = p.cipherText (cipherText.take (cipherText.length - p.macLength)) ∧
    p.maskMac (cipherText.drop (cipherText.length - p.macLength)) = p.aesCcmMac plainText

/-- What stands in front of the comparison of the codes. -/
theorem aesCcmDecrypt_ok {cipherText plainText : List UInt8} {room : ℕ}
    (h : p.aesCcmDecrypt cipherText room = .ok plainText) :
    p.checkInput = .ok () ∧
      plainText = p.cipherText
        (cipherText.take ((cipherText.length + 2 ^ 32 - p.macLength) % 2 ^ 32)) ∧
      p.maskMac (slice cipherText ((cipherText.length + 2 ^ 32 - p.macLength) % 2 ^ 32)
        p.macLength) = p.aesCcmMac plainText := by
  unfold aesCcmDecrypt at h
  cases hcheck : p.checkInput with
  | error e =>
    rw [hcheck] at h
    cases h
  | ok u =>
    rw [hcheck] at h
    by_cases hroom : room < (cipherText.length + 2 ^ 32 - p.macLength) % 2 ^ 32
    · simp only [if_pos hroom] at h
      cases h
    · simp only [if_neg hroom] at h
      by_cases hmac : p.maskMac (slice cipherText
          ((cipherText.length + 2 ^ 32 - p.macLength) % 2 ^ 32) p.macLength) ≠
          p.aesCcmMac (p.cipherText
            (cipherText.take ((cipherText.length + 2 ^ 32 - p.macLength) % 2 ^ 32)))
      · simp only [if_pos hmac] at h
        cases h
      · simp only [if_neg hmac] at h
        have htext : p.cipherText (cipherText.take
            ((cipherText.length + 2 ^ 32 - p.macLength) % 2 ^ 32)) = plainText :=
          Except.ok.inj h
        rw [htext, not_not] at hmac
        exact ⟨rfl, htext.symm, hmac⟩

/-- A text shorter than its code has nothing where the code is looked for. -/
theorem carriesMac_of_ok {cipherText plainText : List UInt8} {room : ℕ}
    (hlen : cipherText.length < 2 ^ 32) (h : p.aesCcmDecrypt cipherText room = .ok plainText) :
    p.CarriesMac cipherText plainText := by
  obtain ⟨hcheck, htext, hmac⟩ := aesCcmDecrypt_ok h
  have hpos := macLength_pos hcheck
  have hle := macLength_le hcheck
  rcases Nat.lt_or_ge cipherText.length p.macLength with hshort | hlong
  · have hwrap : (cipherText.length + 2 ^ 32 - p.macLength) % 2 ^ 32 =
        cipherText.length + 2 ^ 32 - p.macLength := Nat.mod_eq_of_lt (by omega)
    rw [hwrap] at hmac
    have hempty : slice cipherText (cipherText.length + 2 ^ 32 - p.macLength) p.macLength = [] := by
      rw [slice, List.drop_of_length_le (by omega), List.take_nil]
    have hlength := congrArg List.length hmac
    rw [hempty, aesCcmMac_length, Nat.min_eq_left hle] at hlength
    have hzero : 0 = p.macLength := hlength
    omega
  · have hsub : (cipherText.length + 2 ^ 32 - p.macLength) % 2 ^ 32 =
        cipherText.length - p.macLength := by
      have hsplit : cipherText.length + 2 ^ 32 - p.macLength =
          cipherText.length - p.macLength + 2 ^ 32 := by omega
      rw [hsplit, Nat.add_mod_right, Nat.mod_eq_of_lt (by omega)]
    rw [hsub] at htext hmac
    refine ⟨hlong, htext, ?_⟩
    rw [← hmac, slice, List.take_of_length_le (by rw [List.length_drop]; omega)]

/-- A sealed text is opened to what it was, and an opened text carries the code that its bytes
have. -/
theorem aesCcm_roundTrip (p : CcmParams) (plainText : List UInt8) (size : ℕ)
    (hkey : p.key.length = 16) (hlow : 7 ≤ p.nonce.length) (hhigh : p.nonce.length ≤ 13)
    (hmac : p.macLength ∈ [4, 6, 8, 10, 12, 14, 16])
    (hroom : plainText.length + p.macLength ≤ size) (huint : size < 2 ^ 32) :
    (∃ cipherText, p.aesCcmEncrypt plainText size = .ok cipherText ∧
      cipherText.length = plainText.length + p.macLength ∧
      ∀ room, plainText.length ≤ room → p.aesCcmDecrypt cipherText room = .ok plainText) ∧
    ∀ (cipherText : List UInt8) (room : ℕ) (text : List UInt8), cipherText.length < 2 ^ 32 →
      p.aesCcmDecrypt cipherText room = .ok text → p.CarriesMac cipherText text := by
  have hcheck := checkInput_ok hkey hlow hhigh hmac
  refine ⟨⟨_, aesCcmEncrypt_eq hcheck plainText hroom, sealed_length _ (macLength_le hcheck),
    fun room hfits => ?_⟩, fun cipherText room text hlen h => carriesMac_of_ok hlen h⟩
  exact aesCcmDecrypt_sealed hcheck (by omega) hfits

/-- The lengths that frames are protected with. -/
def frameParams : CcmParams := ⟨List.replicate 16 0, List.replicate 13 0, [], 8⟩

/-- Nothing to protect. -/
theorem aesCcm_roundTrip_empty : ∃ cipherText, frameParams.aesCcmEncrypt [] 8 = .ok cipherText ∧
    cipherText.length = 8 ∧ frameParams.aesCcmDecrypt cipherText 0 = .ok [] := by
  obtain ⟨⟨cipherText, hsealed, hlen, hopened⟩, -⟩ := aesCcm_roundTrip frameParams [] 8 rfl
    (by decide) (by decide) (by decide) (Nat.le_refl 8) (by decide)
  exact ⟨cipherText, hsealed, hlen, hopened 0 (Nat.le_refl 0)⟩

end CcmParams

end Rt5572
