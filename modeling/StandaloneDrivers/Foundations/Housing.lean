import Mathlib.Algebra.BigOperators.Group.Finset.Basic
import Mathlib.Data.Fintype.BigOperators

/-! Blocks that are in a free list or in the list of one of several owners. -/
namespace Foundations
variable {ι β : Type*} [Fintype ι] [DecidableEq ι] [DecidableEq β]

/-- Every block is at exactly one place. -/
def Housed (free : List β) (lists : ι → List β) : Prop :=
  ∀ b, free.count b + ∑ i, (lists i).count b = 1

theorem sum_count_update (lists : ι → List β) (i : ι) (l : List β) (b : β) :
    ∑ j, (Function.update lists i l j).count b + (lists i).count b =
      ∑ j, (lists j).count b + l.count b := by
  have hrest : ∑ j ∈ Finset.univ.erase i, (Function.update lists i l j).count b =
      ∑ j ∈ Finset.univ.erase i, (lists j).count b := by
    apply Finset.sum_congr rfl
    intro j hj
    rw [Function.update_of_ne (Finset.ne_of_mem_erase hj)]
  rw [← Finset.add_sum_erase _ _ (Finset.mem_univ i), Function.update_self, hrest,
    ← Finset.add_sum_erase Finset.univ (fun j => (lists j).count b) (Finset.mem_univ i)]
  omega

namespace Housed
variable {free rest : List β} {lists : ι → List β} {b : β} {i : ι}

/-- The first free block goes to an owner. -/
theorem take (h : Housed (b :: rest) lists) (i : ι) :
    Housed rest (Function.update lists i (lists i ++ [b])) := by
  intro c
  have hc := h c
  have hsum := sum_count_update lists i (lists i ++ [b]) c
  rw [List.count_append] at hsum
  rw [List.count_cons] at hc
  rw [List.count_singleton] at hsum
  omega

/-- An owner gives a block back. -/
theorem give (h : Housed free lists) (hb : b ∈ lists i) :
    Housed (free ++ [b]) (Function.update lists i ((lists i).erase b)) := by
  intro c
  have hc := h c
  have hsum := sum_count_update lists i ((lists i).erase b) c
  rw [List.count_append, List.count_singleton]
  by_cases hbc : b = c
  · subst hbc
    have hpos := List.count_pos_iff.mpr hb
    rw [List.count_erase_self] at hsum
    simp only [beq_self_eq_true, if_true]
    omega
  · rw [List.count_erase_of_ne (fun hcb => hbc hcb.symm)] at hsum
    simp only [beq_iff_eq, if_neg hbc]
    omega

/-- An owner gives all its blocks back. -/
theorem clear (h : Housed free lists) (i : ι) :
    Housed (free ++ lists i) (Function.update lists i []) := by
  intro c
  have hc := h c
  have hsum := sum_count_update lists i [] c
  rw [List.count_nil] at hsum
  rw [List.count_append]
  omega

theorem notMem_of_free (h : Housed free lists) (hb : b ∈ free) (i : ι) : b ∉ lists i := by
  intro hmem
  have hone := h b
  have hfree := List.count_pos_iff.mpr hb
  have hlist := List.count_pos_iff.mpr hmem
  have hsum := Finset.add_sum_erase Finset.univ (fun j => (lists j).count b) (Finset.mem_univ i)
  omega

end Housed
end Foundations
