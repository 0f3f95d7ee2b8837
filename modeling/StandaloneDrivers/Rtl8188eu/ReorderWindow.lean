import StandaloneDrivers.Foundations.Circular
import StandaloneDrivers.Rtl8188eu.Reorder

/-! The pending queue as a sorted part of the window that follows `indicate_seq`. -/
namespace Rtl8188eu
open Foundations

/-- Steps forward from a number to that of a frame. -/
abbrev RecvFrame.dist (b : ℕ) (f : RecvFrame) : ℕ := Circular.ahead 4096 b f.seqNum

theorem RecvFrame.seqNum_lt (f : RecvFrame) : f.seqNum < 4096 := f.attrib.seqNum.isLt

theorem RecvFrame.seqNum_eq {b : ℕ} (hb : b < 4096) (f : RecvFrame) :
    f.seqNum = (b + f.dist b) % 4096 :=
  (Circular.add_ahead hb f.seqNum_lt).symm

/-- Half the numbers are ahead of a number, the other half behind it. -/
theorem snLess_mod {b d e : ℕ} (hlo : d < e + 2048) (hhi : e ≤ d + 2048) :
    snLess ((b + d) % 4096) ((b + e) % 4096) = decide (d < e) := by
  unfold snLess
  rw [decide_eq_decide]
  push_cast
  omega

theorem RecvFrame.dist_shift {b : ℕ} (hb : b < 4096) {e : ℕ} {f : RecvFrame} (h : e ≤ f.dist b) :
    f.dist ((b + e) % 4096) = f.dist b - e := by
  have hf := f.seqNum_lt
  simp only [RecvFrame.dist, Circular.ahead] at *
  omega

/-- Sorted by the distance from `b`. -/
def Sorted (b : ℕ) (q : List RecvFrame) : Prop := q.Pairwise fun f g => f.dist b < g.dist b

/-- Sorted, without duplicates, and within the 63 numbers that follow `seq`. -/
structure InWindow (seq : ℕ) (q : List RecvFrame) : Prop where
  sorted : Sorted seq q
  within : ∀ f ∈ q, 1 ≤ f.dist seq ∧ f.dist seq ≤ 63

theorem InWindow.nil (seq : ℕ) : InWindow seq [] := ⟨List.Pairwise.nil, by simp⟩

/-- The window moves by `e` over numbers that are gone from the queue. -/
theorem InWindow.shift {b e : ℕ} (hb : b < 4096) {q : List RecvFrame} (hs : Sorted b q)
    (hq : ∀ f ∈ q, e < f.dist b ∧ f.dist b ≤ e + 63) : InWindow ((b + e) % 4096) q := by
  have hshift : ∀ f ∈ q, f.dist ((b + e) % 4096) = f.dist b - e := fun f hf =>
    RecvFrame.dist_shift hb (hq f hf).1.le
  constructor
  · apply List.Pairwise.imp_of_mem _ hs
    intro f g hf hg hfg
    have h1 := hq f hf
    rw [hshift f hf, hshift g hg]
    omega
  · intro f hf
    have h1 := hq f hf
    rw [hshift f hf]
    omega

theorem InWindow.length_le {seq : ℕ} {q : List RecvFrame} (h : InWindow seq q) : q.length ≤ 63 := by
  have hnd : (q.map (·.dist seq)).Nodup := by
    rw [List.Nodup, List.pairwise_map]
    exact h.sorted.imp fun hfg => hfg.ne
  have hsub : q.map (·.dist seq) ⊆ List.range' 1 63 := by
    intro d hd
    obtain ⟨f, hf, rfl⟩ := List.mem_map.mp hd
    have hw := h.within f hf
    rw [List.mem_range'_1]
    omega
  simpa using (hnd.subperm hsub).length_le

/-- A frame is put at its place, or refused when its number is there. -/
theorem enqueue_spec {b : ℕ} (hb : b < 4096) (f : RecvFrame) {q : List RecvFrame}
    (hs : Sorted b q) (hq : ∀ g ∈ q, g.dist b < f.dist b + 2048 ∧ f.dist b < g.dist b + 2048) :
    (∃ g ∈ q, g.dist b = f.dist b) ∧ enqueueReorderRecvframe f q = none ∨
      ∃ q', enqueueReorderRecvframe f q = some q' ∧ Sorted b q' ∧ q'.Perm (f :: q) := by
  induction q with
  | nil => exact Or.inr ⟨[f], rfl, List.pairwise_singleton _ _, List.Perm.refl _⟩
  | cons g q ih =>
    obtain ⟨hg, hs'⟩ := List.pairwise_cons.mp hs
    have hbound := hq g (by simp)
    have hless : snLess g.seqNum f.seqNum = decide (g.dist b < f.dist b) := by
      rw [g.seqNum_eq hb, f.seqNum_eq hb, snLess_mod (by omega) (by omega)]
    rcases lt_trichotomy (g.dist b) (f.dist b) with hlt | heq | hgt
    · have hstep : enqueueReorderRecvframe f (g :: q) =
          (enqueueReorderRecvframe f q).map (g :: ·) := by
        rw [enqueueReorderRecvframe, hless, decide_eq_true hlt, if_pos rfl]
      rw [hstep]
      rcases ih hs' (fun x hx => hq x (List.mem_cons_of_mem g hx)) with
        ⟨⟨x, hx, hdist⟩, hnone⟩ | ⟨q', hsome, hsorted, hperm⟩
      · exact Or.inl ⟨⟨x, List.mem_cons_of_mem g hx, hdist⟩, by rw [hnone]; rfl⟩
      · refine Or.inr ⟨g :: q', by rw [hsome]; rfl, ?_, ?_⟩
        · rw [Sorted, List.pairwise_cons]
          constructor
          · intro x hx
            rcases List.mem_cons.mp (hperm.mem_iff.mp hx) with rfl | hx
            · exact hlt
            · exact hg x hx
          · exact hsorted
        · exact (hperm.cons g).trans (List.Perm.swap f g q)
    · refine Or.inl ⟨⟨g, by simp, heq⟩, ?_⟩
      have hsame : g.seqNum = f.seqNum := by
        rw [g.seqNum_eq hb, f.seqNum_eq hb, heq]
      rw [enqueueReorderRecvframe, hless, decide_eq_false (by omega), if_neg Bool.false_ne_true,
        if_pos hsame]
    · refine Or.inr ⟨f :: g :: q, ?_, ?_, List.Perm.refl _⟩
      · have hne : g.seqNum ≠ f.seqNum := by
          intro hsame
          have hdist : g.dist b = f.dist b := by simp only [RecvFrame.dist, hsame]
          omega
        rw [enqueueReorderRecvframe, hless, decide_eq_false (by omega),
          if_neg Bool.false_ne_true, if_neg hne]
      · rw [Sorted, List.pairwise_cons]
        constructor
        · intro x hx
          rcases List.mem_cons.mp hx with rfl | hx
          · exact hgt
          · exact hgt.trans (hg x hx)
        · exact hs

section
variable (flags : DriverFlags) {seq : ℕ} {f : RecvFrame} (q : List RecvFrame)

theorem indicateLoop_ahead (h : snLess seq f.seqNum = true) :
    indicateLoop flags seq (f :: q) = (seq, f :: q, []) := by
  rw [indicateLoop, h]
  rfl

theorem indicateLoop_equal (h : snLess seq f.seqNum = false) (heq : seq = f.seqNum) :
    indicateLoop flags seq (f :: q) =
      let r := indicateLoop flags ((seq + 1) % 4096) q
      (r.1, r.2.1, .moved ((seq + 1) % 4096) :: indicateAct flags f :: r.2.2) := by
  rw [indicateLoop, h, if_pos heq]
  rfl

theorem indicateLoop_behind (h : snLess seq f.seqNum = false) (hne : seq ≠ f.seqNum) :
    indicateLoop flags seq (f :: q) =
      let r := indicateLoop flags seq q
      (r.1, r.2.1, indicateAct flags f :: r.2.2) := by
  rw [indicateLoop, h, if_neg hne]
  rfl

theorem indicateLoop_lt (h : seq < 4096) : (indicateLoop flags seq q).1 < 4096 := by
  induction q generalizing seq with
  | nil => exact h
  | cons f q ih =>
    cases hless : snLess seq f.seqNum with
    | true =>
      rw [indicateLoop_ahead flags q hless]
      exact h
    | false =>
      by_cases heq : seq = f.seqNum
      · rw [indicateLoop_equal flags q hless heq]
        exact ih (Nat.mod_lt _ (by norm_num))
      · rw [indicateLoop_behind flags q hless heq]
        exact ih h

end

/-- The frame an act takes off the queue. -/
def Act.frame : Act → Option RecvFrame
  | .moved _ => none
  | .indicated f | .split f | .forgotten f => some f

theorem indicateAct_frame (flags : DriverFlags) (f : RecvFrame) :
    (indicateAct flags f).frame = some f := by
  unfold indicateAct
  split_ifs <;> rfl

/-- The loop takes the frames up to its number off the queue, in which it goes on from one to
the next. -/
theorem indicateLoop_spec (flags : DriverFlags) {b : ℕ} (hb : b < 4096) {q : List RecvFrame}
    {e : ℕ} (hs : Sorted b q) (hq : ∀ f ∈ q, f.dist b ≤ e + 2047 ∧ e < f.dist b + 2048) :
    let r := indicateLoop flags ((b + e) % 4096) q
    ∃ k e', e ≤ e' ∧ r.1 = (b + e') % 4096 ∧ r.2.1 = q.drop k ∧
      r.2.2.filterMap Act.frame = q.take k ∧ (∀ f ∈ q.take k, f.dist b < e') ∧
      ∀ f ∈ q.drop k, e' < f.dist b := by
  induction q generalizing e with
  | nil => exact ⟨0, e, le_rfl, rfl, rfl, rfl, by simp, by simp⟩
  | cons f q ih =>
    obtain ⟨hf, hs'⟩ := List.pairwise_cons.mp hs
    have hbound := hq f (by simp)
    have hless : snLess ((b + e) % 4096) f.seqNum = decide (e < f.dist b) := by
      rw [f.seqNum_eq hb, snLess_mod (by omega) (by omega)]
    rcases lt_trichotomy (f.dist b) e with hlt | heq | hgt
    · obtain ⟨k, e', hle, hseq, hleft, hacts, htake, hdrop⟩ := ih (e := e) hs' fun g hg => by
        have h1 := hf g hg
        have h2 := hq g (List.mem_cons_of_mem f hg)
        omega
      have hne : (b + e) % 4096 ≠ f.seqNum := by
        rw [f.seqNum_eq hb]
        omega
      rw [indicateLoop_behind flags q (hless.trans (decide_eq_false (by omega))) hne]
      refine ⟨k + 1, e', hle, hseq, hleft, ?_, ?_, hdrop⟩
      · rw [List.filterMap_cons_some (indicateAct_frame flags f), hacts, List.take_succ_cons]
      · intro g hg
        rcases List.mem_cons.mp hg with rfl | hg
        · omega
        · exact htake g hg
    · have hnext : ((b + e) % 4096 + 1) % 4096 = (b + (e + 1)) % 4096 := by omega
      obtain ⟨k, e', hle, hseq, hleft, hacts, htake, hdrop⟩ := ih (e := e + 1) hs' fun g hg => by
        have h1 := hf g hg
        have h2 := hq g (List.mem_cons_of_mem f hg)
        omega
      have hsame : (b + e) % 4096 = f.seqNum := by
        rw [f.seqNum_eq hb, heq]
      rw [indicateLoop_equal flags q (hless.trans (decide_eq_false (by omega))) hsame, hnext]
      refine ⟨k + 1, e', by omega, hseq, hleft, ?_, ?_, hdrop⟩
      · rw [List.filterMap_cons_none rfl, List.filterMap_cons_some (indicateAct_frame flags f),
          hacts, List.take_succ_cons]
      · intro g hg
        rcases List.mem_cons.mp hg with rfl | hg
        · omega
        · exact htake g hg
    · rw [indicateLoop_ahead flags q (hless.trans (decide_eq_true hgt))]
      refine ⟨0, e, le_rfl, rfl, rfl, rfl, by simp, ?_⟩
      intro g hg
      rcases List.mem_cons.mp hg with rfl | hg
      · exact hgt
      · exact hgt.trans (hf g hg)

/-- The frames that are taken off the queue, and those that stay. -/
theorem indicateLoop_frames (flags : DriverFlags) (seq : ℕ) (q : List RecvFrame) :
    (indicateLoop flags seq q).2.2.filterMap Act.frame ++ (indicateLoop flags seq q).2.1 = q := by
  induction q generalizing seq with
  | nil => rfl
  | cons f q ih =>
    cases hless : snLess seq f.seqNum with
    | true =>
      rw [indicateLoop_ahead flags q hless]
      rfl
    | false =>
      by_cases heq : seq = f.seqNum
      · rw [indicateLoop_equal flags q hless heq]
        dsimp only
        rw [List.filterMap_cons_none rfl, List.filterMap_cons_some (indicateAct_frame flags f),
          List.cons_append, ih]
      · rw [indicateLoop_behind flags q hless heq]
        dsimp only
        rw [List.filterMap_cons_some (indicateAct_frame flags f), List.cons_append, ih]

theorem indicateLoop_kinds (flags : DriverFlags) (seq : ℕ) (q : List RecvFrame) :
    ∀ act ∈ (indicateLoop flags seq q).2.2, ∀ f, act.frame = some f →
      act = indicateAct flags f := by
  induction q generalizing seq with
  | nil => simp [indicateLoop]
  | cons f q ih =>
    have hhead : ∀ g, (indicateAct flags f).frame = some g →
        indicateAct flags f = indicateAct flags g := by
      intro g hg
      rw [indicateAct_frame] at hg
      rw [Option.some.inj hg]
    cases hless : snLess seq f.seqNum with
    | true =>
      rw [indicateLoop_ahead flags q hless]
      simp
    | false =>
      by_cases heq : seq = f.seqNum
      · rw [indicateLoop_equal flags q hless heq]
        intro act hact
        rcases List.mem_cons.mp hact with rfl | hact
        · rintro g ⟨⟩
        · rcases List.mem_cons.mp hact with rfl | hact
          · exact hhead
          · exact ih _ act hact
      · rw [indicateLoop_behind flags q hless heq]
        intro act hact
        rcases List.mem_cons.mp hact with rfl | hact
        · exact hhead
        · exact ih _ act hact

theorem enqueueReorderRecvframe_perm {f : RecvFrame} {q q' : List RecvFrame}
    (h : enqueueReorderRecvframe f q = some q') : q'.Perm (f :: q) := by
  induction q generalizing q' with
  | nil =>
    cases h
    exact List.Perm.refl _
  | cons g q ih =>
    unfold enqueueReorderRecvframe at h
    split at h
    · obtain ⟨r, hr, rfl⟩ := Option.map_eq_some_iff.mp h
      exact ((ih hr).cons g).trans (List.Perm.swap f g q)
    · split at h
      · cases h
      · cases h
        exact List.Perm.refl _

end Rtl8188eu
