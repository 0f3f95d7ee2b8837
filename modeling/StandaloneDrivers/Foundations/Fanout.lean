import Mathlib.Data.List.Nodup
import Mathlib.Data.List.Sublists

/-! Copies of one message for the members of a list, each made when the turn of its member comes: a
copy is parked with its member, sent through a queue that all share, or dropped. -/
namespace Foundations
variable {ι : Type*}

/-- What became of a copy. -/
inductive Fate
  | parked
  | sent
  | dropped
  deriving DecidableEq, Repr

/-- `copies` says which attempts to make a copy succeed; after one that does not, the members that
are `barred` lose their turn. -/
structure Fanout (ι : Type*) where
  eligible : ι → Bool
  parks : ι → Bool
  barred : ι → Bool
  copies : ℕ → Bool
  room : ℕ

namespace Fanout
variable (f : Fanout ι)

/-- The copies that are made, with `a` attempts and `q` messages in the queue so far. A queue that is
full ends everything. -/
def serve (bar : Bool) : List ι → ℕ → ℕ → List (ι × Fate)
  | [], _, _ => []
  | j :: l, a, q =>
    if bar && f.barred j then serve true l a q
    else if f.eligible j then
      if f.copies a then
        if f.parks j then (j, .parked) :: serve false l (a + 1) q
        else if f.room ≤ q then [(j, .dropped)]
        else (j, .sent) :: serve false l (a + 1) (q + 1)
      else serve true l (a + 1) q
    else serve false l a q

/-- Each wanted copy can be made, the queue has room for all of them that go through it but the last,
and a copy that is not wanted is not made, or its turn comes after the queue was full. -/
@[mk_iff]
structure Suffices (wanted : ι → Bool) (l : List ι) (a q : ℕ) : Prop where
  copied : ∀ n j, (l.filter f.eligible)[n]? = some j → wanted j → f.copies (a + n)
  fits : (l.filter wanted).dropLast.countP (fun j => !f.parks j) ≤ f.room - q
  others : ∀ n j, (l.filter f.eligible)[n]? = some j → ¬wanted j → f.copies (a + n) = false ∨
    f.room - q < (l.filter wanted).countP (fun j => !f.parks j) ∧
      ∀ k ∈ (l.filter f.eligible).drop n, ¬wanted k

variable {f} {wanted : ι → Bool} {l : List ι} {j : ι} {a q : ℕ}

theorem serve_sublist (bar : Bool) (a q : ℕ) : ((f.serve bar l a q).map Prod.fst).Sublist l := by
  induction l generalizing bar a q with
  | nil => exact List.Sublist.slnil
  | cons j l ih =>
    rw [serve]
    split_ifs
    · exact (ih true a q).cons j
    · exact (ih false (a + 1) q).cons_cons j
    · exact (List.nil_sublist l).cons_cons j
    · exact (ih false (a + 1) (q + 1)).cons_cons j
    · exact (ih true (a + 1) q).cons j
    · exact (ih false a q).cons j

/-- A copy is parked exactly if its member parks. -/
theorem serve_parked (bar : Bool) (a q : ℕ) :
    ∀ c ∈ f.serve bar l a q, c.2 = .parked ↔ f.parks c.1 = true := by
  induction l generalizing bar a q with
  | nil => exact fun _ h => nomatch h
  | cons j l ih =>
    rw [serve]
    split_ifs with hbar hel hcopy hparks hfull
    · exact ih true a q
    · exact List.forall_mem_cons.mpr ⟨iff_of_true rfl hparks, ih false (a + 1) q⟩
    · exact List.forall_mem_cons.mpr ⟨iff_of_false nofun hparks, fun _ h => nomatch h⟩
    · exact List.forall_mem_cons.mpr ⟨iff_of_false nofun hparks, ih false (a + 1) (q + 1)⟩
    · exact ih true (a + 1) q
    · exact ih false a q

/-- Without a barred member it does not matter how the last attempt ended. -/
theorem serve_eq_of_not_barred (h : ∀ j ∈ l, f.barred j = false) (a q : ℕ) :
    f.serve true l a q = f.serve false l a q := by
  cases l with
  | nil => rfl
  | cons j l => simp only [serve, h j List.mem_cons_self, Bool.and_false]

theorem serve_barred (a q : ℕ) : f.serve true l a q = f.serve false (l.dropWhile f.barred) a q := by
  induction l with
  | nil => rfl
  | cons j l ih =>
    cases hbarred : f.barred j with
    | true => simp only [serve, List.dropWhile, hbarred, Bool.and_self, if_true, ih]
    | false => simp only [serve, List.dropWhile, hbarred, Bool.and_false]

theorem forall_getElem?_cons {p : ℕ → ι → Prop} :
    (∀ n k, (j :: l)[n]? = some k → p n k) ↔ p 0 j ∧ ∀ n k, l[n]? = some k → p (n + 1) k := by
  constructor
  · exact fun h => ⟨h 0 j rfl, fun n k hk => h (n + 1) k hk⟩
  · rintro ⟨hfirst, hlater⟩ (_ | n) k hk
    · cases hk
      exact hfirst
    · exact hlater n k hk

theorem suffices_cons_skip (hel : f.eligible j = false) (hwanted : wanted j = false) :
    f.Suffices wanted (j :: l) a q ↔ f.Suffices wanted l a q := by
  have heligibles : (j :: l).filter f.eligible = l.filter f.eligible :=
    List.filter_cons_of_neg (Bool.eq_false_iff.mp hel)
  have hwanteds : (j :: l).filter wanted = l.filter wanted :=
    List.filter_cons_of_neg (Bool.eq_false_iff.mp hwanted)
  simp only [suffices_iff, heligibles, hwanteds]

/-- A copy that is not wanted must not be made. -/
theorem suffices_cons_other (hel : f.eligible j = true) (hwanted : wanted j = false)
    (hsub : ∀ k ∈ l, wanted k = true → f.eligible k = true) :
    f.Suffices wanted (j :: l) a q ↔ f.copies a = false ∧ f.Suffices wanted l (a + 1) q := by
  have heligibles : (j :: l).filter f.eligible = j :: l.filter f.eligible :=
    List.filter_cons_of_pos hel
  have hwanteds : (j :: l).filter wanted = l.filter wanted :=
    List.filter_cons_of_neg (Bool.eq_false_iff.mp hwanted)
  have hshift : ∀ n, f.copies (a + (n + 1)) = f.copies (a + 1 + n) :=
    fun n => congrArg f.copies (by omega)
  have hnone : ¬(f.room - q < (l.filter wanted).countP (fun k => !f.parks k) ∧
      ∀ k ∈ j :: l.filter f.eligible, ¬wanted k = true) := by
    rintro ⟨hcount, hall⟩
    obtain ⟨k, hk, -⟩ := List.countP_pos_iff.mp (Nat.zero_lt_of_lt hcount)
    obtain ⟨hk, hkw⟩ := List.mem_filter.mp hk
    exact hall k (List.mem_cons_of_mem j (List.mem_filter.mpr ⟨hk, hsub k hk hkw⟩)) hkw
  simp only [suffices_iff, heligibles, hwanteds, forall_getElem?_cons, hshift, hwanted,
    List.drop_zero, List.drop_succ_cons, hnone, Nat.add_zero]
  simp only [Bool.false_eq_true, not_false_eq_true, forall_const, false_imp_iff, true_and, or_false]
  exact ⟨fun ⟨hcopied, hfits, hfirst, hothers⟩ => ⟨hfirst, hcopied, hfits, hothers⟩,
    fun ⟨hfirst, hcopied, hfits, hothers⟩ => ⟨hcopied, hfits, hfirst, hothers⟩⟩

theorem dropLast_cons_countP (p : ι → Bool) (l : List ι) (j : ι) (m : ℕ) :
    (j :: l).dropLast.countP p ≤ m ↔ l = [] ∨ l.dropLast.countP p + (if p j then 1 else 0) ≤ m := by
  cases l with
  | nil => simp only [List.dropLast_singleton, List.countP_nil, Nat.zero_le, true_or]
  | cons k l =>
    rw [List.dropLast_cons_cons, List.countP_cons]
    simp only [List.cons_ne_nil, false_or]

/-- A wanted copy that is parked. -/
theorem suffices_cons_parked (hel : f.eligible j = true) (hwanted : wanted j = true)
    (hparks : f.parks j = true) :
    f.Suffices wanted (j :: l) a q ↔ f.copies a = true ∧ f.Suffices wanted l (a + 1) q := by
  have heligibles : (j :: l).filter f.eligible = j :: l.filter f.eligible :=
    List.filter_cons_of_pos hel
  have hwanteds : (j :: l).filter wanted = j :: l.filter wanted := List.filter_cons_of_pos hwanted
  have hshift : ∀ n, f.copies (a + (n + 1)) = f.copies (a + 1 + n) :=
    fun n => congrArg f.copies (by omega)
  have hfits : l.filter wanted = [] ∨
        (l.filter wanted).dropLast.countP (fun k => !f.parks k) ≤ f.room - q ↔
      (l.filter wanted).dropLast.countP (fun k => !f.parks k) ≤ f.room - q := by
    apply or_iff_right_of_imp
    intro hnil
    rw [hnil]
    exact Nat.zero_le _
  simp only [suffices_iff, heligibles, hwanteds, forall_getElem?_cons, hshift, hwanted,
    List.drop_succ_cons, Nat.add_zero, dropLast_cons_countP, List.countP_cons, hparks]
  simp only [Bool.not_true, Bool.false_eq_true, if_false, Nat.add_zero, hfits, not_true_eq_false,
    forall_const, false_imp_iff, true_and, and_assoc]

/-- A wanted copy that the queue takes. -/
theorem suffices_cons_sent (hel : f.eligible j = true) (hwanted : wanted j = true)
    (hparks : f.parks j = false) (hroom : q < f.room) :
    f.Suffices wanted (j :: l) a q ↔ f.copies a = true ∧ f.Suffices wanted l (a + 1) (q + 1) := by
  have heligibles : (j :: l).filter f.eligible = j :: l.filter f.eligible :=
    List.filter_cons_of_pos hel
  have hwanteds : (j :: l).filter wanted = j :: l.filter wanted := List.filter_cons_of_pos hwanted
  have hshift : ∀ n, f.copies (a + (n + 1)) = f.copies (a + 1 + n) :=
    fun n => congrArg f.copies (by omega)
  have hfits : ∀ m, m + 1 ≤ f.room - q ↔ m ≤ f.room - (q + 1) := fun m => by omega
  have hover : ∀ m, f.room - q < m + 1 ↔ f.room - (q + 1) < m := fun m => by omega
  have hlast : l.filter wanted = [] ∨
        (l.filter wanted).dropLast.countP (fun k => !f.parks k) ≤ f.room - (q + 1) ↔
      (l.filter wanted).dropLast.countP (fun k => !f.parks k) ≤ f.room - (q + 1) := by
    apply or_iff_right_of_imp
    intro hnil
    rw [hnil]
    exact Nat.zero_le _
  simp only [suffices_iff, heligibles, hwanteds, forall_getElem?_cons, hshift, hwanted,
    List.drop_succ_cons, Nat.add_zero, dropLast_cons_countP, List.countP_cons, hparks]
  simp only [Bool.not_false, if_true, hfits, hover, hlast, not_true_eq_false, forall_const,
    false_imp_iff, true_and, and_assoc]

/-- A wanted copy that finds the queue full is the last one. -/
theorem suffices_cons_full (hel : f.eligible j = true) (hwanted : wanted j = true)
    (hparks : f.parks j = false) (hfull : f.room ≤ q) :
    f.Suffices wanted (j :: l) a q ↔ f.copies a = true ∧ l.filter wanted = [] := by
  have heligibles : (j :: l).filter f.eligible = j :: l.filter f.eligible :=
    List.filter_cons_of_pos hel
  have hwanteds : (j :: l).filter wanted = j :: l.filter wanted := List.filter_cons_of_pos hwanted
  have hroom : f.room - q = 0 := Nat.sub_eq_zero_of_le hfull
  rw [suffices_iff, heligibles, hwanteds, forall_getElem?_cons, forall_getElem?_cons,
    dropLast_cons_countP, hparks, hroom]
  constructor
  · rintro ⟨⟨hcopy, -⟩, hnil | hcount, -⟩
    · exact ⟨hcopy hwanted, hnil⟩
    · exact absurd hcount (Nat.not_succ_le_zero _)
  · rintro ⟨hcopy, hnil⟩
    have hnone : ∀ k ∈ l.filter f.eligible, ¬wanted k = true := by
      intro k hk hkw
      have hmem : k ∈ l.filter wanted := List.mem_filter.mpr ⟨(List.mem_filter.mp hk).1, hkw⟩
      rw [hnil] at hmem
      exact nomatch hmem
    refine ⟨⟨fun _ => hcopy, ?_⟩, Or.inl hnil, fun h => absurd hwanted h, ?_⟩
    · intro n k hk hkw
      exact absurd hkw (hnone k (List.mem_of_getElem? hk))
    · intro n k _ _
      refine Or.inr ⟨?_, ?_⟩
      · rw [List.countP_cons, hparks]
        exact Nat.succ_pos _
      · exact fun k' hk' => hnone k' (List.mem_of_mem_drop hk')

/-- Exactly the wanted copies are made, if and only if that is possible. By induction over the
members; a member that is barred does not follow one whose copy nobody wants. -/
theorem serve_eq_filter_iff (hnodup : l.Nodup)
    (hsub : ∀ j ∈ l, wanted j = true → f.eligible j = true)
    (hbarred : l.Pairwise fun j k => f.eligible j = true → wanted j = false → f.barred k = false) :
    (f.serve false l a q).map Prod.fst = l.filter wanted ↔ f.Suffices wanted l a q := by
  induction l generalizing a q with
  | nil =>
    refine iff_of_true rfl ⟨(fun n j hj => nomatch hj), Nat.zero_le _, fun n j hj => nomatch hj⟩
  | cons j l ih =>
    obtain ⟨hfirst, hrest⟩ := List.pairwise_cons.mp hbarred
    obtain ⟨hsubj, hsubl⟩ := List.forall_mem_cons.mp hsub
    obtain ⟨hnotmem, hnodup⟩ := List.nodup_cons.mp hnodup
    have ih := fun a q => ih (a := a) (q := q) hnodup hsubl hrest
    cases hel : f.eligible j with
    | false =>
      have hwanted : wanted j = false := by
        rw [Bool.eq_false_iff]
        intro hw
        exact Bool.false_ne_true (hel.symm.trans (hsubj hw))
      rw [suffices_cons_skip hel hwanted, ← ih, List.filter_cons_of_neg (Bool.eq_false_iff.mp hwanted)]
      simp only [serve, hel, Bool.false_and, Bool.false_eq_true, if_false]
    | true =>
      cases hwanted : wanted j with
      | false =>
        have hnot : j ∉ (l.filter wanted) := by
          intro hmem
          exact Bool.false_ne_true (hwanted.symm.trans (List.mem_filter.mp hmem).2)
        have hskip := serve_eq_of_not_barred (f := f) (fun k hk => hfirst k hk hel hwanted) (a + 1) q
        rw [suffices_cons_other hel hwanted hsubl, ← ih,
          List.filter_cons_of_neg (Bool.eq_false_iff.mp hwanted)]
        cases hcopy : f.copies a with
        | false =>
          simp only [serve, hel, hcopy, hskip, Bool.false_and, Bool.false_eq_true, if_false, if_true,
            true_and]
        | true =>
          refine iff_of_false ?_ (fun h => Bool.false_ne_true h.1.symm)
          intro heq
          apply hnot
          rw [← heq, serve, hel, hcopy]
          simp only [Bool.false_and, Bool.false_eq_true, if_false, if_true]
          split_ifs <;> exact List.mem_cons_self
      | true =>
        rw [List.filter_cons_of_pos hwanted]
        cases hcopy : f.copies a with
        | false =>
          refine iff_of_false ?_ (fun h => ?_)
          · intro heq
            have hmem : j ∈ (f.serve false (j :: l) a q).map Prod.fst := by
              rw [heq]
              exact List.mem_cons_self
            simp only [serve, hel, hcopy, Bool.false_and, Bool.false_eq_true, if_false,
              if_true] at hmem
            exact hnotmem ((serve_sublist true (a + 1) q).subset hmem)
          · have hcopied := h.copied 0 j (by rw [List.filter_cons_of_pos hel]; rfl) hwanted
            exact Bool.false_ne_true (hcopy.symm.trans hcopied)
        | true =>
          cases hparks : f.parks j with
          | true =>
            rw [suffices_cons_parked hel hwanted hparks, ← ih]
            simp only [serve, hel, hcopy, hparks, Bool.false_and, Bool.false_eq_true, if_false,
              if_true, List.map_cons, List.cons.injEq, true_and]
          | false =>
            rcases Nat.lt_or_ge q f.room with hroom | hfull
            · rw [suffices_cons_sent hel hwanted hparks hroom, ← ih]
              simp only [serve, hel, hcopy, hparks, Bool.false_and, Bool.false_eq_true, if_false,
                if_true, if_neg (Nat.not_le.mpr hroom), List.map_cons, List.cons.injEq, true_and]
            · rw [suffices_cons_full hel hwanted hparks hfull]
              simp only [serve, hel, hcopy, hparks, Bool.false_and, Bool.false_eq_true, if_false,
                if_true, if_pos hfull, List.map_cons, List.map_nil, List.cons.injEq, true_and]
              exact eq_comm

end Fanout

/-- A sublist without repetition is a filter if each member is there as often as it should be. -/
theorem eq_filter_iff_count [DecidableEq ι] {s l : List ι} (h : s.Sublist l) (hl : l.Nodup)
    (wanted : ι → Bool) :
    s = l.filter wanted ↔ ∀ j ∈ l, s.count j = if wanted j then 1 else 0 := by
  have hs := h.nodup hl
  constructor
  · rintro rfl j hj
    cases hw : wanted j with
    | false =>
      rw [List.count_eq_zero_of_not_mem]
      · rfl
      · exact fun hmem => Bool.false_ne_true (hw.symm.trans (List.mem_filter.mp hmem).2)
    | true => exact List.count_eq_one_of_mem hs (List.mem_filter.mpr ⟨hj, hw⟩)
  · intro hcount
    have hmem : ∀ j, j ∈ s ↔ j ∈ l ∧ wanted j = true := by
      intro j
      constructor
      · intro hj
        refine ⟨h.subset hj, ?_⟩
        have hone := hcount j (h.subset hj)
        rw [List.count_eq_one_of_mem hs hj] at hone
        by_contra hw
        rw [if_neg hw] at hone
        exact Nat.one_ne_zero hone
      · rintro ⟨hj, hw⟩
        have hone := hcount j hj
        rw [if_pos hw] at hone
        exact List.count_pos_iff.mp (hone ▸ Nat.one_pos)
    have hfilter : s.filter wanted = s :=
      List.filter_eq_self.mpr fun j hj => ((hmem j).mp hj).2
    have hsub : s.Sublist (l.filter wanted) := hfilter ▸ h.filter wanted
    apply hsub.eq_of_length_le
    apply (List.Nodup.subperm (hl.filter wanted) ?_).length_le
    exact fun j hj => (hmem j).mpr (List.mem_filter.mp hj)

end Foundations
