import StandaloneDrivers.Rt5572.Reordering
import StandaloneDrivers.Foundations.Run
import Mathlib.Data.List.TakeWhile

/-! The reordering list of a session is a sorted part of the window ahead of `LastIndSeq`. -/
namespace Rt5572
open Foundations
variable {π : Type} {w : ℕ}

/-- Distance of a block from the last indicated number. -/
abbrev ReorderingMpdu.dist (last : ℕ) (m : ReorderingMpdu π) : ℕ := ahead last m.sequence

/-- Strictly sorted and within the `winSize` numbers that follow `last`. -/
structure InWindow (last winSize : ℕ) (ms : List (ReorderingMpdu π)) : Prop where
  sorted : ms.Pairwise fun a b => a.dist last < b.dist last
  within : ∀ m ∈ ms, 1 ≤ m.dist last ∧ m.dist last ≤ winSize

theorem InWindow.nil (last winSize : ℕ) : InWindow last winSize ([] : List (ReorderingMpdu π)) :=
  ⟨List.Pairwise.nil, by simp⟩

theorem InWindow.sublist {last winSize : ℕ} {ms ns : List (ReorderingMpdu π)}
    (h : InWindow last winSize ms) (hs : ns.Sublist ms) : InWindow last winSize ns :=
  ⟨h.sorted.sublist hs, fun m hm => h.within m (hs.subset hm)⟩

theorem InWindow.tail {last winSize : ℕ} {m : ReorderingMpdu π} {ms : List (ReorderingMpdu π)}
    (h : InWindow last winSize (m :: ms)) : InWindow last winSize ms :=
  h.sublist (List.sublist_cons_self m ms)

/-- The window moves forward by `d` over numbers that are gone from the list. -/
theorem InWindow.shift {last last' winSize d : ℕ} {ms : List (ReorderingMpdu π)}
    (h : InWindow last winSize ms) (hl : last < 4096) (hd : last' = (last + d) % 4096)
    (hgone : ∀ m ∈ ms, d < m.dist last) : InWindow last' winSize ms := by
  have hshift : ∀ m ∈ ms, m.dist last' = m.dist last - d := fun m hm =>
    ahead_shift hl m.sequence.isLt hd (hgone m hm).le
  constructor
  · apply h.sorted.imp_of_mem
    intro a b ha hb hab
    have h1 := hgone a ha
    rw [hshift a ha, hshift b hb]
    omega
  · intro m hm
    have h1 := hgone m hm
    have h2 := (h.within m hm).2
    rw [hshift m hm]
    omega

theorem InWindow.sequence_inj {last winSize : ℕ} {ms : List (ReorderingMpdu π)}
    (h : InWindow last winSize ms) : (ms.map (·.sequence)).Nodup := by
  rw [List.Nodup, List.pairwise_map]
  apply h.sorted.imp
  intro a b hab he
  rw [ReorderingMpdu.dist, ReorderingMpdu.dist, he] at hab
  exact lt_irrefl _ hab

/-- As many distinct numbers as the window has at most. -/
theorem InWindow.length_le {last winSize : ℕ} {ms : List (ReorderingMpdu π)}
    (h : InWindow last winSize ms) : ms.length ≤ winSize := by
  have hnd : (ms.map (·.dist last)).Nodup := by
    rw [List.Nodup, List.pairwise_map]
    exact h.sorted.imp fun hab => hab.ne
  have hsub : ms.map (·.dist last) ⊆ List.range' 1 winSize := by
    intro d hd
    obtain ⟨m, hm, rfl⟩ := List.mem_map.mp hd
    have hw := h.within m hm
    rw [List.mem_range'_1]
    omega
  simpa using (hnd.subperm hsub).length_le

/-! Splitting the list at a number. -/

theorem dropWhile_le_lt {α : Type} (f : α → ℕ) (δ : ℕ) {l : List α}
    (h : l.Pairwise fun a b => f a < f b) {x : α} (hx : x ∈ l.dropWhile fun y => f y ≤ δ) :
    δ < f x := by
  induction l with
  | nil => simp at hx
  | cons a l ih =>
    rw [List.pairwise_cons] at h
    by_cases ha : f a ≤ δ
    · rw [List.dropWhile_cons_of_pos (by simpa using ha)] at hx
      exact ih h.2 hx
    · rw [List.dropWhile_cons_of_neg (by simpa using ha)] at hx
      rcases List.mem_cons.mp hx with rfl | hx
      · omega
      · have := h.1 x hx
        omega

theorem drop_length_takeWhile {α : Type} (p : α → Bool) (l : List α) :
    l.drop (l.takeWhile p).length = l.dropWhile p := by
  have htake := List.prefix_iff_eq_take.mp (List.takeWhile_prefix (l := l) p)
  have hsplit := List.take_append_drop (l.takeWhile p).length l
  rw [← htake] at hsplit
  exact List.append_cancel_left (hsplit.trans List.takeWhile_append_dropWhile.symm)

/-- The test of `ba_indicate_reordering_mpdus_le_seq`. -/
def leTest (sequence : ℕ) (m : ReorderingMpdu π) : Bool :=
  decide (m.sequence.val = sequence ∨ seqSmaller m.sequence sequence)

theorem leTest_iff {last winSize v d : ℕ} {ms : List (ReorderingMpdu π)}
    (h : InWindow last winSize ms) (hw : winSize ≤ 255)
    (hv : v = (last + d) % 4096) (hd : d ≤ 2048) {m : ReorderingMpdu π} (hm : m ∈ ms) :
    leTest v m = decide (m.dist last ≤ d) := by
  have hin := h.within m hm
  have hlt := m.sequence.isLt
  have hv4 : v < 4096 := hv ▸ Nat.mod_lt _ (by norm_num)
  rw [leTest, decide_eq_decide, seqSmaller_iff hlt hv4]
  simp only [ReorderingMpdu.dist, Circular.ahead] at *
  omega

theorem takeWhile_leTest {last winSize v d : ℕ} {ms : List (ReorderingMpdu π)}
    (h : InWindow last winSize ms) (hw : winSize ≤ 255)
    (hv : v = (last + d) % 4096) (hd : d ≤ 2048) :
    (∀ m ∈ ms.takeWhile (leTest v), m.dist last ≤ d) ∧
      ∀ m ∈ ms.dropWhile (leTest v), d < m.dist last := by
  have htest := fun m (hm : m ∈ ms) => leTest_iff h hw hv hd hm
  constructor
  · intro m hm
    have hp := List.mem_takeWhile_imp hm
    rw [htest m ((List.takeWhile_sublist _).subset hm)] at hp
    exact of_decide_eq_true hp
  · intro m hm
    have hcongr : ∀ l : List (ReorderingMpdu π), (∀ x ∈ l, x ∈ ms) →
        l.dropWhile (leTest v) = l.dropWhile fun x => decide (x.dist last ≤ d) := by
      intro l hl
      induction l with
      | nil => rfl
      | cons a l ih =>
        have ha := htest a (hl a (by simp))
        have hrec := ih fun x hx => hl x (by simp [hx])
        simp only [List.dropWhile_cons, ha, hrec]
    rw [hcongr ms fun _ hx => hx] at hm
    exact dropWhile_le_lt _ d h.sorted hm

/-- The blocks that follow `startSeq` without a gap. -/
def consecutive : ℕ → List (ReorderingMpdu π) → List (ReorderingMpdu π)
  | _, [] => []
  | startSeq, m :: ms =>
      if seqStepOne m.sequence startSeq then m :: consecutive m.sequence ms else []

/-- They are the numbers right after `last`, and the next number after them is not there. -/
theorem consecutive_spec {winSize : ℕ} (hw : winSize ≤ 255) {ms : List (ReorderingMpdu π)} :
    ∀ {last : ℕ}, last < 4096 → InWindow last winSize ms →
      let out := consecutive last ms
      out = ms.take out.length ∧ (∀ m ∈ out, m.dist last ≤ out.length) ∧
      (∀ m ∈ ms.drop out.length, out.length + 1 < m.dist last) ∧
      ∀ m, out.getLast? = some m → m.sequence.val = (last + out.length) % 4096 := by
  induction ms with
  | nil => intro last hl h; simp [consecutive]
  | cons m ms ih =>
    intro last hl h
    have hhead := (List.pairwise_cons.mp h.sorted).1
    have hm1 := (h.within m (by simp)).1
    by_cases hstep : seqStepOne m.sequence last = true
    · have hm : m.sequence.val = (last + 1) % 4096 := seqStepOne_iff.mp hstep
      have hdist : m.dist last = 1 := by
        simp only [ReorderingMpdu.dist, Circular.ahead]
        omega
      have htail : InWindow m.sequence.val winSize ms := by
        apply h.tail.shift hl hm
        intro x hx
        have := hhead x hx
        omega
      have hsub : ∀ x ∈ ms, x.dist m.sequence = x.dist last - 1 := fun x hx =>
        ahead_shift hl x.sequence.isLt hm (hdist ▸ (hhead x hx).le)
      obtain ⟨htake, hin, hleft, hlast⟩ := ih m.sequence.isLt htail
      simp only [consecutive, hstep, ↓reduceIte, List.length_cons, List.drop_succ_cons]
      refine ⟨?_, ?_, ?_, ?_⟩
      · rw [List.take_succ_cons, ← htake]
      · intro x hx
        rcases List.mem_cons.mp hx with rfl | hx
        · omega
        · have hmem : x ∈ ms := by
            rw [htake] at hx
            exact List.mem_of_mem_take hx
          have hx' := hin x hx
          rw [hsub x hmem] at hx'
          omega
      · intro x hx
        have hx' := hleft x hx
        rw [hsub x (List.mem_of_mem_drop hx)] at hx'
        omega
      · intro x hx
        cases hout : consecutive m.sequence.val ms with
        | nil =>
          rw [hout, List.getLast?_singleton, Option.some_inj] at hx
          rw [← hx, List.length_nil]
          exact hm
        | cons y ys =>
          rw [hout, List.getLast?_cons_cons, ← hout] at hx
          have := hlast x hx
          rw [← hout]
          omega
    · have hhead1 : 1 < m.dist last := by
        have hne : m.dist last ≠ 1 := by
          intro h1
          apply hstep
          rw [seqStepOne_iff]
          have := m.sequence.isLt
          simp only [ReorderingMpdu.dist, Circular.ahead] at h1
          omega
        omega
      simp only [consecutive, hstep, Bool.false_eq_true, ↓reduceIte]
      refine ⟨by simp, by simp, ?_, by simp⟩
      intro x hx
      rcases List.mem_cons.mp hx with rfl | hx
      · simpa using hhead1
      · have := hhead x hx
        simp only [List.length_nil]
        omega

/-! Sorted insertion. -/

theorem insertSortedScan_spec {last winSize : ℕ} (hw : winSize ≤ 255) (hl : last < 4096)
    {mpdu : ReorderingMpdu π} (hlo : 1 ≤ mpdu.dist last) (hhi : mpdu.dist last ≤ winSize)
    {ms : List (ReorderingMpdu π)} (h : InWindow last winSize ms) :
    match insertSortedScan mpdu ms with
    | none => mpdu.sequence ∈ ms.map (·.sequence)
    | some ms' => InWindow last winSize ms' ∧ ms'.Perm (mpdu :: ms) ∧
        mpdu.sequence ∉ ms.map (·.sequence) := by
  induction ms with
  | nil =>
    refine ⟨⟨List.pairwise_singleton _ _, ?_⟩, List.Perm.refl _, by simp⟩
    intro m hm
    rw [List.mem_singleton.mp hm]
    exact ⟨hlo, hhi⟩
  | cons m ms ih =>
    have hm := h.within m (by simp)
    have hcmp : seqSmaller m.sequence mpdu.sequence = true ↔ m.dist last < mpdu.dist last :=
      seqSmaller_iff_ahead hl m.sequence.isLt mpdu.sequence.isLt
        (hm.2.trans_lt (by omega)) (hhi.trans_lt (by omega))
    have hhead := (List.pairwise_cons.mp h.sorted).1
    by_cases hs : m.dist last < mpdu.dist last
    · have hne : mpdu.sequence ≠ m.sequence := by
        intro he
        rw [ReorderingMpdu.dist, ReorderingMpdu.dist, he] at hs
        exact lt_irrefl _ hs
      have hrec := ih h.tail
      simp only [insertSortedScan, hcmp.mpr hs, ↓reduceIte]
      cases hi : insertSortedScan mpdu ms with
      | none =>
        rw [hi] at hrec
        simp only [Option.map_none, List.map_cons, List.mem_cons]
        exact Or.inr hrec
      | some ms' =>
        rw [hi] at hrec
        obtain ⟨hwin, hperm, hnot⟩ := hrec
        simp only [Option.map_some, List.map_cons, List.mem_cons, not_or]
        refine ⟨⟨?_, ?_⟩, ?_, hne, hnot⟩
        · rw [List.pairwise_cons]
          refine ⟨fun x hx => ?_, hwin.sorted⟩
          rcases List.mem_cons.mp (hperm.subset hx) with rfl | hx
          · exact hs
          · exact hhead x hx
        · intro x hx
          rcases List.mem_cons.mp hx with rfl | hx
          · exact hm
          · exact hwin.within x hx
        · exact (hperm.cons m).trans (List.Perm.swap _ _ _)
    · have hs' : ¬ seqSmaller m.sequence mpdu.sequence = true := fun hc => hs (hcmp.mp hc)
      by_cases he : m.sequence = mpdu.sequence
      · rw [insertSortedScan, if_neg hs', if_pos he]
        simp [he]
      · have hlt : mpdu.dist last < m.dist last := by
          have hne : mpdu.dist last ≠ m.dist last := fun hd =>
            he (Fin.ext (ahead_inj hl m.sequence.isLt mpdu.sequence.isLt hd.symm))
          omega
        simp only [insertSortedScan, hs', he, Bool.false_eq_true, ↓reduceIte]
        refine ⟨⟨?_, ?_⟩, List.Perm.refl _, ?_⟩
        · rw [List.pairwise_cons]
          refine ⟨fun x hx => ?_, h.sorted⟩
          rcases List.mem_cons.mp hx with rfl | hx
          · exact hlt
          · exact hlt.trans (hhead x hx)
        · intro x hx
          rcases List.mem_cons.mp hx with rfl | hx
          · exact ⟨hlo, hhi⟩
          · exact h.within x hx
        · rintro hmem
          obtain ⟨x, hx, hxe⟩ := List.mem_map.mp hmem
          have hxd : x.dist last = mpdu.dist last := by
            rw [ReorderingMpdu.dist, ReorderingMpdu.dist, hxe]
          rcases List.mem_cons.mp hx with rfl | hx
          · omega
          · have := hhead x hx
            omega

end Rt5572
