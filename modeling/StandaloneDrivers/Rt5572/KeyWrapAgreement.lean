import StandaloneDrivers.Rt5572.AesInverse
import StandaloneDrivers.Rt5572.CmacAgreement
import StandaloneDrivers.Rt5572.CryptModes

/-! AES_Key_Wrap and AES_Key_Unwrap beside the wrap with numbers of 64 bits and a register that is
compared. -/
namespace Rt5572
open Foundations
open KeyWrap (SemiBlock State semis semis_overwrite semis_bytes bytes_semis_append field_semis steps
  number wrapStep unwrapStep wrap unwrap)
open Rtl8188eu (sbox)

/-- The number of a step in one byte. -/
def byteMask (t : ℕ) : SemiBlock :=
  (Vector.replicate 8 0).set 7 (UInt8.ofNat t) seven_lt_eight

section Steps
variable {key : List UInt8} {n : ℕ} (e : ℕ × Fin n)

/-- What a state of the code is, by its halves. -/
def halves (n : ℕ) (s : KeyWrapState) : State n := (s.1, semis n s.2)

theorem set_last (a : SemiBlock) (t : ℕ) :
    a.set 7 (getElem a 7 seven_lt_eight ^^^ UInt8.ofNat t) seven_lt_eight =
      KeyWrap.xorSemi a (byteMask t) := by
  apply Vector.ext
  intro i hi
  simp only [KeyWrap.xorSemi, byteMask, Vector.getElem_zipWith, Vector.getElem_set,
    Vector.getElem_replicate]
  split
  · rename_i heq
    subst heq
    rfl
  · rw [UInt8.xor_zero]

/-- The half at an index, behind the register. -/
theorem padBlock_field (a : SemiBlock) (text : List UInt8) :
    padBlock (a.toList ++ field text (8 * e.2.val) 8) =
      KeyWrap.join a (getElem (semis n text) e.2 e.2.isLt) := by
  rw [KeyWrap.join, field_semis text e.2.isLt]
  rfl

theorem drop_overwrite {text bytes : List UInt8} {i k : ℕ} (h : i + bytes.length ≤ k) :
    (overwrite text i bytes).drop k = text.drop k := by
  apply List.ext_getElem?
  intro j
  simp only [List.getElem?_drop, overwrite, List.getElem?_mapIdx]
  cases text[k + j]? with
  | none => rfl
  | some b =>
    have hnone : bytes[k + j - i]? = none := List.getElem?_eq_none (by omega)
    simp [hnone]

/-- The passes keep what is behind the last whole half. -/
def SameTail (n : ℕ) (s s' : KeyWrapState) : Prop :=
  s'.2.length = s.2.length ∧ s'.2.drop (8 * n) = s.2.drop (8 * n)

variable {s : KeyWrapState} (hlen : 8 * n ≤ s.2.length)
include hlen

theorem keyWrapStep_halves :
    halves n (keyWrapStep key n e.1 s e.2) = wrapStep (cipherBlock key) byteMask (halves n s) e ∧
      SameTail n s (keyWrapStep key n e.1 s e.2) := by
  have hi := e.2.isLt
  simp only [keyWrapStep, wrapStep, halves, padBlock_field]
  refine ⟨?_, overwrite_length _ _ _, drop_overwrite (by rw [Vector.length_toList]; omega)⟩
  rw [semis_overwrite hlen hi]
  refine congrArg (·, _) ?_
  rw [← set_last, stepNumber, KeyWrap.high, Vector.getElem_ofFn]
  rfl

theorem keyUnwrapStep_halves :
    halves n (keyUnwrapStep key n e.1 s e.2) = unwrapStep (plainBlock key) byteMask (halves n s) e ∧
      SameTail n s (keyUnwrapStep key n e.1 s e.2) := by
  have hi := e.2.isLt
  simp only [keyUnwrapStep, unwrapStep, halves, padBlock_field, stepNumber, set_last]
  refine ⟨?_, overwrite_length _ _ _, drop_overwrite (by rw [Vector.length_toList]; omega)⟩
  rw [semis_overwrite hlen hi]
  rfl

end Steps

section Passes
variable {key : List UInt8} {n : ℕ}

/-- A run of steps is followed by its halves. -/
theorem foldl_halves {code : KeyWrapState → ℕ × Fin n → KeyWrapState}
    {step : State n → ℕ × Fin n → State n}
    (h : ∀ s e, 8 * n ≤ s.2.length →
      halves n (code s e) = step (halves n s) e ∧ SameTail n s (code s e))
    (es : List (ℕ × Fin n)) {s : KeyWrapState} (hlen : 8 * n ≤ s.2.length) :
    halves n (es.foldl code s) = es.foldl step (halves n s) ∧ SameTail n s (es.foldl code s) := by
  induction es generalizing s with
  | nil => exact ⟨rfl, rfl, rfl⟩
  | cons e es ih =>
    obtain ⟨hstep, hlength, htail⟩ := h s e hlen
    obtain ⟨hrun, hlength', htail'⟩ := ih (show 8 * n ≤ (code s e).2.length by omega)
    rw [List.foldl_cons, List.foldl_cons, ← hstep]
    exact ⟨hrun, hlength'.trans hlength, htail'.trans htail⟩

theorem range_eq_map (n : ℕ) : List.range n = (List.finRange n).map Fin.val := by
  apply List.ext_getElem
  · rw [List.length_map, List.length_range, List.length_finRange]
  · intro i _ _
    simp

theorem wrapPasses_eq (s : KeyWrapState) :
    (List.range 6).foldl (fun s j => (List.range n).foldl (keyWrapStep key n j) s) s =
      (steps n).foldl (fun s e => keyWrapStep key n e.1 s e.2) s := by
  simp only [steps, List.foldl_flatMap, List.foldl_map, range_eq_map n]

theorem unwrapPasses_eq (s : KeyWrapState) :
    (List.range 6).reverse.foldl
        (fun s j => (List.range n).reverse.foldl (keyUnwrapStep key n j) s) s =
      (steps n).reverse.foldl (fun s e => keyUnwrapStep key n e.1 s e.2) s := by
  simp only [steps, List.reverse_flatMap, List.foldl_flatMap, Function.comp_apply,
    ← List.map_reverse, List.foldl_map, range_eq_map n]

/-- A state of the code is its halves and the bytes behind them. -/
theorem eq_of_halves {s s' : KeyWrapState} {x : State n} (hx : halves n s' = x)
    (hlen : 8 * n ≤ s.2.length) (htail : SameTail n s s') :
    s' = (x.1, KeyWrap.bytes x.2 ++ s.2.drop (8 * n)) := by
  subst hx
  obtain ⟨hlength, hdrop⟩ := htail
  have hbytes := bytes_semis_append (show 8 * n ≤ s'.2.length by omega)
  rw [hdrop] at hbytes
  exact Prod.ext rfl hbytes.symm

theorem aesKeyWrap_eq (hkey : aesKeyLength key.length = true) (plainText : List UInt8) {n : ℕ}
    (hn : plainText.length / 8 = n) :
    ∃ x : State n, x = wrap (cipherBlock key) byteMask (defaultIv, semis n plainText) ∧
      aesKeyWrap plainText key true =
        .ok (x.1.toList ++ (KeyWrap.bytes x.2 ++ plainText.drop (8 * n))) := by
  subst hn
  have hlen : 8 * (plainText.length / 8) ≤ plainText.length := Nat.mul_div_le _ _
  obtain ⟨hrun, htail⟩ := @foldl_halves _ _ _ (fun _ e h => @keyWrapStep_halves key _ e _ h)
    (steps (plainText.length / 8)) (defaultIv, plainText) hlen
  refine ⟨_, rfl, ?_⟩
  rw [aesKeyWrap, hkey, if_neg (by decide), if_neg (by decide)]
  simp only [wrapPasses_eq]
  rw [eq_of_halves hrun hlen htail]
  rfl

/-- What stands in the memory of a ciphertext: its register and the rest. -/
def cipherParts (cipherText : List UInt8) : KeyWrapState :=
  (Vector.ofFn fun i => cipherText.getD i.val 0, field cipherText 8 (uintSub cipherText.length 8))

theorem keyUnwrapPasses_eq (key cipherText : List UInt8) {n : ℕ}
    (hn : uintSub cipherText.length 8 / 8 = n) :
    ∃ x : State n, x = unwrap (plainBlock key) byteMask (halves n (cipherParts cipherText)) ∧
      keyUnwrapPasses cipherText key =
        (x.1, KeyWrap.bytes x.2 ++ (cipherParts cipherText).2.drop (8 * n)) := by
  subst hn
  have hlen : 8 * (uintSub cipherText.length 8 / 8) ≤ (cipherParts cipherText).2.length := by
    rw [cipherParts, field_length]
    exact Nat.mul_div_le _ _
  obtain ⟨hrun, htail⟩ := foldl_halves (fun _ e h => @keyUnwrapStep_halves key _ e _ h)
    (steps (uintSub cipherText.length 8 / 8)).reverse hlen
  refine ⟨_, rfl, ?_⟩
  rw [keyUnwrapPasses]
  simp only [unwrapPasses_eq]
  exact eq_of_halves hrun hlen htail

/-- A ciphertext with a register is that register and the rest. -/
theorem cipherParts_append (a : SemiBlock) (rest : List UInt8)
    (hlen : (a.toList ++ rest).length < 2 ^ 32) :
    uintSub (a.toList ++ rest).length 8 = rest.length ∧
      cipherParts (a.toList ++ rest) = (a, rest) := by
  have ha : a.toList.length = 8 := Vector.length_toList
  have hall : (a.toList ++ rest).length = 8 + rest.length := by rw [List.length_append, ha]
  have hsub : uintSub (a.toList ++ rest).length 8 = rest.length := by
    rw [uintSub_le (by omega) hlen]
    omega
  refine ⟨hsub, Prod.ext ?_ ?_⟩
  · apply Vector.ext
    intro i hi
    simp only [cipherParts, Vector.getElem_ofFn]
    rw [List.getD_append _ _ _ _ (by omega), List.getD_eq_getElem _ _ (by omega),
      Vector.getElem_toList]
  · have hmiddle := field_middle a.toList rest []
    rw [List.append_nil, ha] at hmiddle
    simp only [cipherParts, hsub, hmiddle]

end Passes

/-- The bytes that are read of a ciphertext are a wrapping. -/
def IsWrapping (key cipherText : List UInt8) : Prop :=
  ∃ plainText : List UInt8, plainText.length = uintSub cipherText.length 8 ∧
    aesKeyWrap plainText key true =
      .ok ((cipherParts cipherText).1.toList ++ (cipherParts cipherText).2)

section Sound
variable {key : List UInt8} (hkey : aesKeyLength key.length = true)
include hkey

/-- The passes backwards over what the passes give. -/
theorem keyUnwrapPasses_wrap {n : ℕ} (x : State n) {tail : List UInt8} (htail : tail.length < 8)
    {y : State n} (hy : y = wrap (cipherBlock key) byteMask x)
    (hlen : (y.1.toList ++ (KeyWrap.bytes y.2 ++ tail)).length < 2 ^ 32) :
    keyUnwrapPasses (y.1.toList ++ (KeyWrap.bytes y.2 ++ tail)) key =
      (x.1, KeyWrap.bytes x.2 ++ tail) := by
  obtain ⟨hsub, hparts⟩ := cipherParts_append y.1 _ hlen
  have hbytes := KeyWrap.bytes_length y.2
  have hn : uintSub (y.1.toList ++ (KeyWrap.bytes y.2 ++ tail)).length 8 / 8 = n := by
    rw [hsub, List.length_append, hbytes]
    omega
  obtain ⟨z, hz, hrun⟩ := keyUnwrapPasses_eq key _ hn
  rw [hparts, halves, semis_bytes, hy, KeyWrap.unwrap_wrap (plainBlock_cipherBlock hkey)] at hz
  rw [hrun, hparts, hz, List.drop_left' hbytes]

theorem keyUnwrapPasses_aesKeyWrap {plainText : List UInt8}
    (hlen : plainText.length + 8 < 2 ^ 32) :
    ∃ cipherText, aesKeyWrap plainText key true = .ok cipherText ∧
      keyUnwrapPasses cipherText key = (defaultIv, plainText) := by
  obtain ⟨n, hn⟩ : ∃ n, plainText.length / 8 = n := ⟨_, rfl⟩
  obtain ⟨y, hy, hwrapped⟩ := aesKeyWrap_eq hkey plainText hn
  have htail : (plainText.drop (8 * n)).length = plainText.length - 8 * n := List.length_drop
  have hall : (y.1.toList ++ (KeyWrap.bytes y.2 ++ plainText.drop (8 * n))).length =
      plainText.length + 8 := by
    rw [List.length_append, List.length_append, KeyWrap.bytes_length, htail, Vector.length_toList]
    omega
  refine ⟨_, hwrapped, ?_⟩
  rw [keyUnwrapPasses_wrap hkey _ (by omega) hy (hall ▸ hlen), bytes_semis_append (by omega)]

theorem register_eq_iff (cipherText : List UInt8) :
    (keyUnwrapPasses cipherText key).1 = defaultIv ↔ IsWrapping key cipherText := by
  obtain ⟨x, hx, hrun⟩ := keyUnwrapPasses_eq key cipherText rfl
  have hrest : (cipherParts cipherText).2.length = uintSub cipherText.length 8 := by
    rw [cipherParts, field_length]
  have hbytes := KeyWrap.bytes_length x.2
  rw [hrun]
  constructor
  · intro hregister
    have hlength : (KeyWrap.bytes x.2 ++ (cipherParts cipherText).2.drop
        (8 * (uintSub cipherText.length 8 / 8))).length = uintSub cipherText.length 8 := by
      rw [List.length_append, hbytes, List.length_drop, hrest]
      omega
    obtain ⟨y, hy, hwrapped⟩ := aesKeyWrap_eq hkey _ (congrArg (· / 8) hlength)
    refine ⟨_, hlength, ?_⟩
    have hstart : (defaultIv, semis (uintSub cipherText.length 8 / 8) (KeyWrap.bytes x.2 ++
        (cipherParts cipherText).2.drop (8 * (uintSub cipherText.length 8 / 8)))) = x := by
      rw [semis_bytes]
      exact Prod.ext hregister.symm rfl
    rw [hstart, hx, KeyWrap.wrap_unwrap (cipherBlock_plainBlock hkey)] at hy
    rw [hwrapped, List.drop_left' hbytes, hy, halves, bytes_semis_append (by omega)]
  · rintro ⟨plainText, hlength, hwrap⟩
    obtain ⟨y, hy, hwrapped⟩ := aesKeyWrap_eq hkey plainText (congrArg (· / 8) hlength)
    rw [hwrapped] at hwrap
    have hsame := Except.ok.inj hwrap
    obtain ⟨hregister, htail⟩ := List.append_inj hsame (by
      rw [Vector.length_toList, Vector.length_toList])
    have hparts : halves (uintSub cipherText.length 8 / 8) (cipherParts cipherText) = y := by
      rw [halves, ← htail, semis_bytes]
      exact Prod.ext (Vector.toList_inj.mp hregister).symm rfl
    rw [hx, hparts, hy, KeyWrap.unwrap_wrap (plainBlock_cipherBlock hkey)]

end Sound

/-- A result is only returned for a register that is right. -/
def Checked (key cipherText : List UInt8) (allocated : Bool) : Prop :=
  ∀ plainText, aesKeyUnwrap cipherText key allocated = .ok plainText →
    (keyUnwrapPasses cipherText key).1 = defaultIv

theorem checked_iff (key cipherText : List UInt8) (allocated : Bool) :
    Checked key cipherText allocated ↔
      aesKeyLength key.length = false ∨ allocated = false ∨ IsWrapping key cipherText := by
  rw [Checked, aesKeyUnwrap]
  cases hkey : aesKeyLength key.length with
  | false => exact ⟨fun _ => Or.inl rfl, fun _ _ h => by cases h⟩
  | true =>
    cases allocated with
    | false => exact ⟨fun _ => Or.inr (Or.inl rfl), fun _ _ h => by cases h⟩
    | true =>
      rw [← register_eq_iff hkey]
      constructor
      · intro h
        exact Or.inr (Or.inr (h _ rfl))
      · rintro (h | h | h)
        · cases h
        · cases h
        · exact fun _ _ => h

section Standard
variable {key : List UInt8}

/-- After each step the register and the halves are those of the standard. -/
def TracksStandard (key plainText : List UInt8) : Prop :=
  ∀ k, halves (plainText.length / 8) (((steps (plainText.length / 8)).take k).foldl
      (fun s e => keyWrapStep key (plainText.length / 8) e.1 s e.2) (defaultIv, plainText)) =
    ((steps (plainText.length / 8)).take k).foldl
      (wrapStep (cipherBlock key) KeyWrap.standardMask)
      (KeyWrap.initial, semis (plainText.length / 8) plainText)

theorem byteMask_eq {t : ℕ} (ht : t < 256) : byteMask t = KeyWrap.standardMask t := by
  apply Vector.ext
  intro i hi
  have hhigh : ∀ k, 0 < k → t / 256 ^ k = 0 := by
    intro k hk
    apply Nat.div_eq_of_lt
    calc t < 256 ^ 1 := ht
      _ ≤ 256 ^ k := Nat.pow_le_pow_right (by decide) hk
  simp only [byteMask, KeyWrap.standardMask, Vector.getElem_set, Vector.getElem_replicate,
    Vector.getElem_ofFn, beBytes, hhigh _ (Nat.succ_pos _), pow_zero, Nat.div_one]
  interval_cases i <;> rfl

theorem byteMask_ne : getElem (byteMask (255 + 1)) 6 six_lt_eight ≠
    getElem (KeyWrap.standardMask (255 + 1)) 6 six_lt_eight := by decide

/-- Step 256 is the first whose number does not fit into a byte. -/
theorem steps_agree_iff (E : CipherBlock → CipherBlock) {n : ℕ} (s : State n) :
    (∀ k, ((steps n).take k).foldl (wrapStep E byteMask) s =
      ((steps n).take k).foldl (wrapStep E KeyWrap.standardMask) s) ↔ 6 * n < 256 := by
  constructor
  · intro h
    by_contra hlong
    have hcount : 255 < (steps n).length := by
      rw [KeyWrap.steps_length]
      omega
    have hnumber := KeyWrap.number_getElem hcount
    have hbefore := h 255
    have hafter := h (255 + 1)
    rw [List.take_succ_eq_append_getElem hcount, List.foldl_append, List.foldl_append, hbefore,
      List.foldl_cons, List.foldl_cons, List.foldl_nil, List.foldl_nil, wrapStep, wrapStep,
      hnumber] at hafter
    have hregister := congrArg Prod.fst hafter
    have hbyte := congrArg (fun a : SemiBlock => a[6]) hregister
    simp only [KeyWrap.xorSemi, Vector.getElem_zipWith, UInt8.xor_right_inj] at hbyte
    exact byteMask_ne hbyte
  · intro hshort k
    refine KeyWrap.foldl_wrapStep_congr (fun e he => byteMask_eq ?_) s
    have hle := KeyWrap.number_le (List.mem_of_mem_take he)
    omega

theorem tracks_iff (key plainText : List UInt8) :
    TracksStandard key plainText ↔ 6 * (plainText.length / 8) < 256 := by
  have hlen : 8 * (plainText.length / 8) ≤ plainText.length := Nat.mul_div_le _ _
  have hhalves : ∀ k, halves (plainText.length / 8) (((steps (plainText.length / 8)).take k).foldl
      (fun s e => keyWrapStep key (plainText.length / 8) e.1 s e.2) (defaultIv, plainText)) =
      ((steps (plainText.length / 8)).take k).foldl (wrapStep (cipherBlock key) byteMask)
        (defaultIv, semis (plainText.length / 8) plainText) := fun k =>
    (@foldl_halves _ _ _ (fun _ e h => @keyWrapStep_halves key _ e _ h) _
      (defaultIv, plainText) hlen).1
  rw [← steps_agree_iff (cipherBlock key) (defaultIv, semis (plainText.length / 8) plainText)]
  simp only [TracksStandard, hhalves]
  rfl

/-- With at most 255 steps the result is that of the standard. -/
theorem aesKeyWrap_standard (hkey : aesKeyLength key.length = true) {plainText : List UInt8}
    (hwhole : plainText.length % 8 = 0) (hshort : 6 * (plainText.length / 8) < 256) :
    aesKeyWrap plainText key true =
      .ok (KeyWrap.keyWrap (cipherBlock key) (plainText.length / 8) plainText) := by
  obtain ⟨x, hx, hwrapped⟩ := aesKeyWrap_eq hkey plainText rfl
  have htail : plainText.drop (8 * (plainText.length / 8)) = [] :=
    List.drop_of_length_le (by omega)
  rw [KeyWrap.wrap_congr fun t ht => byteMask_eq (by omega)] at hx
  rw [hwrapped, htail, List.append_nil, hx]
  rfl

/-- A key comes back from its wrapping. The register goes through the values of the standard exactly
when there are at most 255 steps, and the result is the standard's then. A result is returned only
for the right register exactly when none is returned, or what was given is a wrapping. -/
theorem aesKeyWrap_sound_iff (key : List UInt8)
    (hkey : key.length = 16 ∨ key.length = 24 ∨ key.length = 32) :
    (∀ plainText : List UInt8, 16 ≤ plainText.length → plainText.length % 8 = 0 →
      plainText.length + 8 < 2 ^ 32 →
      (∃ cipherText, aesKeyWrap plainText key true = .ok cipherText ∧
        aesKeyUnwrap cipherText key true = .ok plainText) ∧
      (TracksStandard key plainText ↔ plainText.length ≤ 336) ∧
      (plainText.length ≤ 336 → aesKeyWrap plainText key true =
        .ok (KeyWrap.keyWrap (cipherBlock key) (plainText.length / 8) plainText))) ∧
    ∀ (cipherText : List UInt8) (allocated : Bool),
      Checked key cipherText allocated ↔ allocated = false ∨ IsWrapping key cipherText := by
  have htaken : aesKeyLength key.length = true := by
    rcases hkey with h | h | h <;> rw [h] <;> rfl
  refine ⟨fun plainText _ hwhole hlen => ⟨?_, ?_, ?_⟩, fun cipherText allocated => ?_⟩
  · obtain ⟨cipherText, hwrapped, hpasses⟩ := keyUnwrapPasses_aesKeyWrap htaken hlen
    refine ⟨cipherText, hwrapped, ?_⟩
    rw [aesKeyUnwrap, htaken, if_neg (by decide), if_neg (by decide), hpasses]
  · rw [tracks_iff]
    omega
  · intro hshort
    exact aesKeyWrap_standard htaken hwhole (by omega)
  · rw [checked_iff, htaken]
    simp only [Bool.true_eq_false, false_or]

end Standard

section Example

def wrapKey : List UInt8 := List.replicate 16 0

def groupKey : List UInt8 := List.replicate 16 0x61

theorem aesKeyWrap_sound_groupKey : ∃ cipherText, aesKeyWrap groupKey wrapKey true =
    .ok cipherText ∧ aesKeyUnwrap cipherText wrapKey true = .ok groupKey :=
  ((aesKeyWrap_sound_iff wrapKey (Or.inl rfl)).1 groupKey (by decide) (by decide) (by decide)).1

/-- The passes from a register of zeroes. -/
def forgedState : State 2 :=
  wrap (cipherBlock wrapKey) byteMask (Vector.replicate 8 0, semis 2 groupKey)

/-- A wrapped key without the register that tells it from others. -/
def forgedCipher : List UInt8 := forgedState.1.toList ++ (KeyWrap.bytes forgedState.2 ++ [])

theorem forgedCipher_unchecked : ¬ Checked wrapKey forgedCipher true := by
  have hlen : forgedCipher.length = 24 := by
    rw [forgedCipher, List.append_nil, List.length_append, KeyWrap.bytes_length,
      Vector.length_toList]
  have hpasses : keyUnwrapPasses forgedCipher wrapKey =
      (Vector.replicate 8 0, KeyWrap.bytes (semis 2 groupKey) ++ []) :=
    keyUnwrapPasses_wrap rfl (Vector.replicate 8 0, semis 2 groupKey) (by decide) rfl
      (show forgedCipher.length < 2 ^ 32 by rw [hlen]; decide)
  intro h
  have hregister := h _ rfl
  rw [hpasses] at hregister
  exact absurd hregister (by decide)

end Example
end Rt5572
