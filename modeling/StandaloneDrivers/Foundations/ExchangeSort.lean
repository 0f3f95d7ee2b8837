import Mathlib.Data.List.Perm.Basic
import Mathlib.Data.List.Nodup
import Mathlib.Logic.Equiv.Basic
import Mathlib.Order.Lattice
import Mathlib.Tactic.SplitIfs

/-! Sorting by exchange: each place is compared with every later one, and the larger key comes to
the front. -/
namespace Foundations.ExchangeSort

section
variable {α β : Type*} [LinearOrder β] (key : α → β)

/-- The elements at two places are exchanged when the second has the larger key. -/
def order (f : ℕ → α) (i j : ℕ) : ℕ → α :=
  if key (f i) < key (f j) then f ∘ Equiv.swap i j else f

/-- Place `i` is compared with all later places. -/
def pass (n : ℕ) (f : ℕ → α) (i : ℕ) : ℕ → α :=
  (List.range' (i + 1) (n - 1 - i)).foldl (fun f j => order key f i j) f

def sort (n : ℕ) (f : ℕ → α) : ℕ → α := (List.range (n - 1)).foldl (pass key n) f

/-- Only the first `n` places are rearranged. -/
def Rearranged (n : ℕ) (f g : ℕ → α) : Prop :=
  ∃ σ : Equiv.Perm ℕ, (∀ i, n ≤ i → σ i = i) ∧ g = f ∘ σ

/-- The first `k` places have their final elements. -/
def Ordered (n k : ℕ) (f : ℕ → α) : Prop :=
  ∀ i < k, ∀ j, i < j → j < n → key (f j) ≤ key (f i)

theorem Rearranged.refl (n : ℕ) (f : ℕ → α) : Rearranged n f f :=
  ⟨Equiv.refl ℕ, fun _ _ => rfl, rfl⟩

theorem Rearranged.trans {n : ℕ} {f g h : ℕ → α} (hfg : Rearranged n f g)
    (hgh : Rearranged n g h) : Rearranged n f h := by
  obtain ⟨σ, hσ, rfl⟩ := hfg
  obtain ⟨τ, hτ, rfl⟩ := hgh
  refine ⟨τ.trans σ, ?_, rfl⟩
  intro i hi
  rw [Equiv.trans_apply, hτ i hi, hσ i hi]

theorem order_rearranged {n i j : ℕ} (f : ℕ → α) (hi : i < n) (hj : j < n) :
    Rearranged n f (order key f i j) := by
  unfold order
  split
  · refine ⟨Equiv.swap i j, ?_, rfl⟩
    intro k hk
    exact Equiv.swap_apply_of_ne_of_ne (by omega) (by omega)
  · exact Rearranged.refl n f

theorem foldl_rearranged {ι : Type*} {n : ℕ} {step : (ℕ → α) → ι → ℕ → α} (l : List ι)
    (f : ℕ → α) (h : ∀ a ∈ l, ∀ g, Rearranged n g (step g a)) :
    Rearranged n f (l.foldl step f) := by
  induction l generalizing f with
  | nil => exact Rearranged.refl n f
  | cons a l ih =>
    have hfirst := h a List.mem_cons_self f
    exact hfirst.trans (ih (step f a) fun b hb => h b (List.mem_cons_of_mem a hb))

theorem sort_rearranged (n : ℕ) (f : ℕ → α) : Rearranged n f (sort key n f) := by
  apply foldl_rearranged
  intro i hi g
  have hi := List.mem_range.mp hi
  apply foldl_rearranged
  intro j hj h
  have hj := List.mem_range'_1.mp hj
  exact order_rearranged key h (by omega) (by omega)

/-- The elements are the same. -/
theorem Rearranged.perm {n : ℕ} {f g : ℕ → α} (h : Rearranged n f g) :
    ((List.range n).map g).Perm ((List.range n).map f) := by
  obtain ⟨σ, hσ, rfl⟩ := h
  have hlt (i : ℕ) : σ i < n ↔ i < n := by
    constructor
    · intro hi
      by_contra hge
      rw [hσ i (by omega)] at hi
      exact hge hi
    · intro hi
      by_contra hge
      have hfix := σ.injective (hσ (σ i) (by omega))
      omega
  have hrange : ((List.range n).map σ).Perm (List.range n) := by
    rw [List.perm_ext_iff_of_nodup (List.nodup_range.map σ.injective) List.nodup_range]
    intro i
    simp only [List.mem_map, List.mem_range]
    constructor
    · rintro ⟨j, hj, rfl⟩
      exact (hlt j).mpr hj
    · intro hi
      refine ⟨σ.symm i, ?_, σ.apply_symm_apply i⟩
      rwa [← hlt, σ.apply_symm_apply]
  rw [← List.map_map]
  exact hrange.map f

/-- An exchange behind the final places keeps them final. -/
theorem Ordered.order {n k i j : ℕ} {f : ℕ → α} (h : Ordered key n k f) (hi : k ≤ i) (hij : i < j)
    (hj : j < n) : Ordered key n k (order key f i j) := by
  unfold ExchangeSort.order
  split
  · intro a ha b hab hb
    have hfix : Equiv.swap i j a = a := Equiv.swap_apply_of_ne_of_ne (by omega) (by omega)
    have hlater : a < Equiv.swap i j b ∧ Equiv.swap i j b < n := by
      rw [Equiv.swap_apply_def]
      split_ifs <;> omega
    simp only [Function.comp_apply, hfix]
    exact h a ha _ hlater.1 hlater.2
  · exact h

/-- The places before `m` do not exceed place `i`. -/
def Leads (i m : ℕ) (f : ℕ → α) : Prop := ∀ j, i < j → j < m → key (f j) ≤ key (f i)

theorem Leads.order {i m : ℕ} {f : ℕ → α} (h : Leads key i m f) :
    Leads key i (m + 1) (order key f i m) := by
  unfold ExchangeSort.order
  split
  · rename_i hlt
    intro j hij hj
    simp only [Function.comp_apply, Equiv.swap_apply_left]
    by_cases hjm : j = m
    · rw [hjm, Equiv.swap_apply_right]
      exact hlt.le
    · rw [Equiv.swap_apply_of_ne_of_ne (by omega) hjm]
      exact (h j hij (by omega)).trans hlt.le
  · rename_i hge
    intro j hij hj
    by_cases hjm : j = m
    · rw [hjm]
      exact not_lt.mp hge
    · exact h j hij (by omega)

theorem pass_ordered {n i : ℕ} {f : ℕ → α} (h : Ordered key n i f) (hi : i < n) :
    Ordered key n (i + 1) (pass key n f i) := by
  have hrun (m : ℕ) (hm : i + 1 + m ≤ n) :
      Ordered key n i ((List.range' (i + 1) m).foldl (fun f j => order key f i j) f) ∧
        Leads key i (i + 1 + m)
          ((List.range' (i + 1) m).foldl (fun f j => order key f i j) f) := by
    induction m with
    | zero =>
      refine ⟨h, ?_⟩
      intro j hij hj
      omega
    | succ m ih =>
      obtain ⟨hordered, hleads⟩ := ih (by omega)
      rw [List.range'_1_concat, List.foldl_append, List.foldl_cons, List.foldl_nil]
      exact ⟨hordered.order key (le_refl i) (by omega) (by omega), hleads.order key⟩
  obtain ⟨hordered, hleads⟩ := hrun (n - 1 - i) (by omega)
  intro a ha b hab hb
  by_cases hai : a = i
  · rw [hai] at hab ⊢
    exact hleads b hab (by omega)
  · exact hordered a (by omega) b hab hb

theorem sort_ordered (n : ℕ) (f : ℕ → α) : Ordered key n n (sort key n f) := by
  have hrun (k : ℕ) (hk : k ≤ n - 1) :
      Ordered key n k ((List.range k).foldl (pass key n) f) := by
    induction k with
    | zero =>
      intro i hi
      omega
    | succ k ih =>
      rw [List.range_succ, List.foldl_append, List.foldl_cons, List.foldl_nil]
      exact pass_ordered key (ih (by omega)) (by omega)
  intro i hi j hij hj
  exact hrun (n - 1) (le_refl _) i (by omega) j hij hj

theorem Ordered.pairwise {n : ℕ} {f : ℕ → α} (h : Ordered key n n f) :
    ((List.range n).map f).Pairwise fun a b => key b ≤ key a := by
  rw [List.pairwise_map]
  apply List.pairwise_lt_range.imp_of_mem
  intro i j _ hj hij
  have hj := List.mem_range.mp hj
  exact h i (by omega) j hij hj

end

end Foundations.ExchangeSort
