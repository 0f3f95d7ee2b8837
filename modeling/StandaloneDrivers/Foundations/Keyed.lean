import Mathlib.Logic.Function.Basic
import Mathlib.Data.Nat.Notation

/-! The first entries of an array as a partial map: no key twice, and the entries hold the values of
the map. -/
namespace Foundations
variable {κ ν : Type*}

/-- The first `n` entries of an array hold a partial map. -/
structure Keyed (known : κ → Option ν) (n : ℕ) (key : ℕ → κ) (val : ℕ → ν) : Prop where
  unique : ∀ i j, i < n → j < n → key i = key j → i = j
  agrees : ∀ k v, known k = some v ↔ ∃ i < n, key i = k ∧ val i = v

namespace Keyed
variable {known : κ → Option ν} {n : ℕ} {key : ℕ → κ} {val : ℕ → ν}

theorem empty (key : ℕ → κ) (val : ℕ → ν) : Keyed (fun _ => none) 0 key val where
  unique i j hi := absurd hi (Nat.not_lt_zero i)
  agrees k v := by
    constructor
    · intro hv
      cases hv
    · rintro ⟨i, hi, -⟩
      exact absurd hi (Nat.not_lt_zero i)

theorem congr (h : Keyed known n key val) {key' : ℕ → κ} {val' : ℕ → ν}
    (hkey : ∀ i < n, key' i = key i) (hval : ∀ i < n, val' i = val i) :
    Keyed known n key' val' where
  unique i j hi hj := by
    rw [hkey i hi, hkey j hj]
    exact h.unique i j hi hj
  agrees k v := by
    rw [h.agrees]
    constructor
    · rintro ⟨i, hi, hk, hv⟩
      exact ⟨i, hi, (hkey i hi).trans hk, (hval i hi).trans hv⟩
    · rintro ⟨i, hi, hk, hv⟩
      exact ⟨i, hi, (hkey i hi).symm.trans hk, (hval i hi).symm.trans hv⟩

/-- A key that no entry has is not known. -/
theorem known_none (h : Keyed known n key val) {k : κ} (hk : ∀ i < n, key i ≠ k) :
    known k = none := by
  cases hv : known k with
  | none => rfl
  | some v =>
    obtain ⟨i, hi, hki, -⟩ := (h.agrees k v).mp hv
    exact absurd hki (hk i hi)

theorem known_some (h : Keyed known n key val) {i : ℕ} (hi : i < n) :
    known (key i) = some (val i) := (h.agrees _ _).mpr ⟨i, hi, rfl, rfl⟩

variable [DecidableEq κ]

/-- A value for a new key is appended. -/
theorem append (h : Keyed known n key val) {k : κ} (hk : ∀ i < n, key i ≠ k) (v : ν) :
    Keyed (Function.update known k (some v)) (n + 1) (Function.update key n k)
      (Function.update val n v) where
  unique i j hi hj := by
    by_cases hin : i = n
    · by_cases hjn : j = n
      · rw [hin, hjn]
        exact fun _ => rfl
      · rw [hin, Function.update_self, Function.update_of_ne hjn]
        intro heq
        exact absurd heq.symm (hk j (by omega))
    · by_cases hjn : j = n
      · rw [hjn, Function.update_self, Function.update_of_ne hin]
        intro heq
        exact absurd heq (hk i (by omega))
      · rw [Function.update_of_ne hin, Function.update_of_ne hjn]
        exact h.unique i j (by omega) (by omega)
  agrees k' v' := by
    by_cases hkk : k' = k
    · rw [hkk, Function.update_self]
      constructor
      · intro hv
        exact ⟨n, Nat.lt_succ_self n, Function.update_self _ _ _,
          (Function.update_self _ _ _).trans (Option.some.inj hv)⟩
      · rintro ⟨i, hi, hki, hvi⟩
        by_cases hin : i = n
        · rw [← hvi, hin, Function.update_self]
        · rw [Function.update_of_ne hin] at hki
          exact absurd hki (hk i (by omega))
    · rw [Function.update_of_ne hkk, h.agrees]
      constructor
      · rintro ⟨i, hi, hki, hvi⟩
        have hin : i ≠ n := by omega
        refine ⟨i, by omega, ?_, ?_⟩
        · rw [Function.update_of_ne hin, hki]
        · rw [Function.update_of_ne hin, hvi]
      · rintro ⟨i, hi, hki, hvi⟩
        by_cases hin : i = n
        · rw [hin, Function.update_self] at hki
          exact absurd hki.symm hkk
        · rw [Function.update_of_ne hin] at hki hvi
          exact ⟨i, by omega, hki, hvi⟩

/-- An entry is taken out, and the ones behind it move up. -/
theorem erase (h : Keyed known (n + 1) key val) {i : ℕ} (hi : i ≤ n) :
    Keyed (Function.update known (key i) none) n (fun j => key (if j < i then j else j + 1))
      (fun j => val (if j < i then j else j + 1)) where
  unique j j' hj hj' heq := by
    have hback := h.unique _ _ (by split <;> omega) (by split <;> omega) heq
    split at hback <;> split at hback <;> omega
  agrees k v := by
    by_cases hk : k = key i
    · rw [hk, Function.update_self]
      constructor
      · intro hv
        cases hv
      · rintro ⟨j, hj, hkj, -⟩
        have hback := h.unique _ _ (by split <;> omega) (by omega) hkj
        split at hback <;> omega
    · rw [Function.update_of_ne hk, h.agrees]
      constructor
      · rintro ⟨j, hj, hkj, hvj⟩
        have hji : j ≠ i := by
          intro hji
          exact hk (hji ▸ hkj.symm)
        by_cases hlt : j < i
        · refine ⟨j, by omega, ?_, ?_⟩
          · rw [if_pos hlt]
            exact hkj
          · rw [if_pos hlt]
            exact hvj
        · have hpred : j - 1 + 1 = j := by omega
          have hge : ¬ j - 1 < i := by omega
          refine ⟨j - 1, by omega, ?_, ?_⟩
          · rw [if_neg hge, hpred]
            exact hkj
          · rw [if_neg hge, hpred]
            exact hvj
      · rintro ⟨j, hj, hkj, hvj⟩
        exact ⟨_, by split <;> omega, hkj, hvj⟩

/-- An entry is replaced by one with the same key or with a new one. -/
theorem set (h : Keyed known n key val) {i : ℕ} (hi : i < n) {k : κ}
    (hk : ∀ j < n, j ≠ i → key j ≠ k) (v : ν) :
    Keyed (Function.update (Function.update known (key i) none) k (some v)) n
      (Function.update key i k) (Function.update val i v) where
  unique j j' hj hj' := by
    by_cases hji : j = i
    · by_cases hj'i : j' = i
      · rw [hji, hj'i]
        exact fun _ => rfl
      · rw [hji, Function.update_self, Function.update_of_ne hj'i]
        intro heq
        exact absurd heq.symm (hk j' hj' hj'i)
    · by_cases hj'i : j' = i
      · rw [hj'i, Function.update_self, Function.update_of_ne hji]
        intro heq
        exact absurd heq (hk j hj hji)
      · rw [Function.update_of_ne hji, Function.update_of_ne hj'i]
        exact h.unique j j' hj hj'
  agrees k' v' := by
    by_cases hkk : k' = k
    · rw [hkk, Function.update_self]
      constructor
      · intro hv
        exact ⟨i, hi, Function.update_self _ _ _,
          (Function.update_self _ _ _).trans (Option.some.inj hv)⟩
      · rintro ⟨j, hj, hkj, hvj⟩
        by_cases hji : j = i
        · rw [← hvj, hji, Function.update_self]
        · rw [Function.update_of_ne hji] at hkj
          exact absurd hkj (hk j hj hji)
    · rw [Function.update_of_ne hkk]
      constructor
      · intro hv
        have hki : k' ≠ key i := by
          intro hki
          rw [hki, Function.update_self] at hv
          cases hv
        rw [Function.update_of_ne hki, h.agrees] at hv
        obtain ⟨j, hj, hkj, hvj⟩ := hv
        have hji : j ≠ i := by
          intro hji
          exact hki (hji ▸ hkj.symm)
        refine ⟨j, hj, ?_, ?_⟩
        · rw [Function.update_of_ne hji, hkj]
        · rw [Function.update_of_ne hji, hvj]
      · rintro ⟨j, hj, hkj, hvj⟩
        have hji : j ≠ i := by
          intro hji
          rw [hji, Function.update_self] at hkj
          exact hkk hkj.symm
        rw [Function.update_of_ne hji] at hkj hvj
        have hki : k' ≠ key i := by
          intro hki
          exact hji (h.unique j i hj hi (hkj.trans hki))
        rw [Function.update_of_ne hki]
        exact (h.agrees k' v').mpr ⟨j, hj, hkj, hvj⟩

end Keyed
end Foundations
