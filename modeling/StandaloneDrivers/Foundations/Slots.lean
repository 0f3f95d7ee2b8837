import Mathlib.Tactic
import Mathlib.Data.Multiset.Filter
import Mathlib.Data.Multiset.Range

/-! An array of slots, each empty or holding a value, seen as the bag of its values. -/
namespace Foundations
variable {α : Type*} {n i : ℕ} {g : ℕ → Option α}

/-- The values in the slots below `n`. -/
def contents (n : ℕ) (g : ℕ → Option α) : Multiset α := (Multiset.range n).filterMap g

theorem mem_contents {a : α} : a ∈ contents n g ↔ ∃ i < n, g i = some a := by
  simp only [contents, Multiset.mem_filterMap, Multiset.mem_range]

/-- The values of all slots but one. -/
private def others (n i : ℕ) (g : ℕ → Option α) : Multiset α :=
  ((Multiset.range n).erase i).filterMap g

private theorem filterMap_congr {s : Multiset ℕ} {f : ℕ → Option α} (h : ∀ j ∈ s, f j = g j) :
    s.filterMap f = s.filterMap g := by
  induction s using Quotient.inductionOn with
  | h l => exact congrArg _ (List.filterMap_congr h)

private theorem others_update (v : Option α) :
    others n i (Function.update g i v) = others n i g := by
  apply filterMap_congr
  intro j hj
  have hne : j ≠ i := by
    rintro rfl
    exact (Multiset.nodup_range n).notMem_erase hj
  exact Function.update_of_ne hne v g

private theorem contents_some {a : α} (hi : i < n) (h : g i = some a) :
    contents n g = a ::ₘ others n i g := by
  unfold contents others
  conv_lhs => rw [← Multiset.cons_erase (Multiset.mem_range.mpr hi)]
  rw [Multiset.filterMap_cons_some g i _ h]

private theorem contents_none (hi : i < n) (h : g i = none) : contents n g = others n i g := by
  unfold contents others
  conv_lhs => rw [← Multiset.cons_erase (Multiset.mem_range.mpr hi)]
  rw [Multiset.filterMap_cons_none i _ h]

/-- Filling an empty slot adds its value. -/
theorem contents_put (hi : i < n) (h : g i = none) (a : α) :
    contents n (Function.update g i (some a)) = a ::ₘ contents n g := by
  rw [contents_some hi (Function.update_self i (some a) g), others_update, contents_none hi h]

/-- Emptying a slot takes its value away. -/
theorem contents_clear {a : α} (hi : i < n) (h : g i = some a) :
    contents n g = a ::ₘ contents n (Function.update g i none) := by
  rw [contents_some hi h, contents_none hi (Function.update_self i none g), others_update]

theorem card_contents_le : (contents n g).card ≤ n := by
  induction n with
  | zero => simp [contents]
  | succ n ih =>
    unfold contents at *
    rw [Multiset.range_succ]
    cases h : g n with
    | none => rw [Multiset.filterMap_cons_none n _ h]; omega
    | some a => rw [Multiset.filterMap_cons_some g n _ h, Multiset.card_cons]; omega

theorem contents_eq_zero : contents n g = 0 ↔ ∀ i < n, g i = none := by
  rw [Multiset.eq_zero_iff_forall_notMem]
  constructor
  · intro h i hi
    cases hg : g i with
    | none => rfl
    | some a => exact absurd (mem_contents.mpr ⟨i, hi, hg⟩) (h a)
  · intro h a ha
    obtain ⟨i, hi, hg⟩ := mem_contents.mp ha
    rw [h i hi] at hg
    cases hg

end Foundations
