import StandaloneDrivers.Rtl8188eu.ReorderQueue

/-! The order in which a reorder control indicates its frames. -/
namespace Rtl8188eu
open Foundations Foundations.Circular

/-- An act as far as the order of the indicated numbers is concerned. -/
def Act.mark : Act → Option Mark
  | .moved seq => some (.moved seq)
  | .indicated f | .split f => some (.passed f.seqNum)
  | .forgotten _ => none

def trackActs (t : Track) (acts : List Act) : Track :=
  (acts.filterMap Act.mark).foldl (Track.step 4096) t

theorem trackActs_append (t : Track) (acts acts' : List Act) :
    trackActs t (acts ++ acts') = trackActs (trackActs t acts) acts' := by
  simp only [trackActs, List.filterMap_append, List.foldl_append]

@[simp] theorem trackActs_nil (t : Track) : trackActs t [] = t := rfl

@[simp] theorem trackActs_moved (t : Track) (seq : ℕ) (acts : List Act) :
    trackActs t (.moved seq :: acts) = trackActs (t.step 4096 (.moved seq)) acts := rfl

theorem trackActs_cons (t : Track) (a : Act) (acts : List Act) :
    trackActs t (a :: acts) = trackActs (trackActs t [a]) acts :=
  trackActs_append t [a] acts

/-- What is done with a frame puts it at its place or passes over it. -/
theorem At.indicateAct {b : ℕ} (hb : b < 4096) {p : ℤ} {e : ℕ} {t : Track}
    (h : t.At b p e 4096) (flags : DriverFlags) {f : RecvFrame} (hlo : e < f.dist b + 2048)
    (hhi : f.dist b ≤ e + 2047) (hnew : ∀ x ∈ t.seg, x < p + f.dist b) :
    (trackActs t [Rtl8188eu.indicateAct flags f]).At b p e 4096 ∧
      ∀ x ∈ (trackActs t [Rtl8188eu.indicateAct flags f]).seg, x ∈ t.seg ∨ x = p + f.dist b := by
  have hpassed : ∀ a : Act, a.mark = some (.passed f.seqNum) →
      (trackActs t [a]).At b p e 4096 ∧
        ∀ x ∈ (trackActs t [a]).seg, x ∈ t.seg ∨ x = p + f.dist b := by
    intro a ha
    have hstep : trackActs t [a] = t.step 4096 (.passed ((b + f.dist b) % 4096)) := by
      rw [← f.seqNum_eq hb]
      simp only [trackActs, List.filterMap_cons_some ha, List.filterMap_nil, List.foldl_cons,
        List.foldl_nil]
    obtain ⟨hat, hseg⟩ := h.passed (d := f.dist b) (by omega) (by omega) hnew
    rw [hstep]
    refine ⟨hat, fun x hx => ?_⟩
    rw [hseg] at hx
    exact (List.mem_cons.mp hx).symm
  unfold Rtl8188eu.indicateAct
  split_ifs
  · exact hpassed _ rfl
  · exact hpassed _ rfl
  · exact ⟨h, fun x hx => Or.inl hx⟩

/-- The loop indicates the queue in order and moves over what it indicates. -/
theorem indicateLoop_track (flags : DriverFlags) {b : ℕ} (hb : b < 4096) {p : ℤ}
    {q : List RecvFrame} {e : ℕ} {t : Track} (hs : Sorted b q)
    (hq : ∀ f ∈ q, f.dist b < 2048 ∧ e < f.dist b + 2048)
    (h : t.At b p e 4096) (hlow : ∀ x ∈ t.seg, x < p + e)
    (hnew : ∀ x ∈ t.seg, ∀ f ∈ q, x < p + f.dist b) :
    let r := indicateLoop flags ((b + e) % 4096) q
    Track.Behind 1 r.1 (trackActs t r.2.2) := by
  induction q generalizing e t with
  | nil => exact { h with ref := ⟨p + e, h.ref, fun x hx => by have := hlow x hx; omega⟩ }
  | cons f q ih =>
    obtain ⟨hf, hs'⟩ := List.pairwise_cons.mp hs
    have hbound := hq f (by simp)
    have hless : snLess ((b + e) % 4096) f.seqNum = decide (e < f.dist b) := by
      rw [f.seqNum_eq hb, snLess_mod (by omega) (by omega)]
    rcases lt_trichotomy (f.dist b) e with hlt | heq | hgt
    · have hne : (b + e) % 4096 ≠ f.seqNum := by
        rw [f.seqNum_eq hb]
        omega
      obtain ⟨hat, hseg⟩ := At.indicateAct hb h flags (by omega) (by omega)
        fun x hx => hnew x hx f (by simp)
      rw [indicateLoop_behind flags q (hless.trans (decide_eq_false (by omega))) hne]
      simp only
      rw [trackActs_cons]
      refine ih hs' (fun g hg => hq g (List.mem_cons_of_mem f hg)) hat ?_ ?_
      · intro x hx
        rcases hseg x hx with hx | rfl
        · exact hlow x hx
        · omega
      · intro x hx g hg
        rcases hseg x hx with hx | rfl
        · exact hnew x hx g (List.mem_cons_of_mem f hg)
        · have := hf g hg
          omega
    · have hsame : (b + e) % 4096 = f.seqNum := by
        rw [f.seqNum_eq hb, heq]
      have hnext : ((b + e) % 4096 + 1) % 4096 = (b + (e + 1)) % 4096 := by omega
      obtain ⟨hmoved, hkept⟩ := h.moved (d := e + 1) (by omega) (by omega)
      obtain ⟨hat, hseg⟩ := At.indicateAct hb hmoved flags (f := f) (by omega) (by omega) fun x hx =>
        hnew x (hkept ▸ hx) f (by simp)
      rw [indicateLoop_equal flags q (hless.trans (decide_eq_false (by omega))) hsame, hnext]
      simp only
      rw [trackActs_moved, trackActs_cons]
      refine ih hs' ?_ hat ?_ ?_
      · intro g hg
        have h1 := hf g hg
        have h2 := hq g (List.mem_cons_of_mem f hg)
        omega
      · intro x hx
        rcases hseg x hx with hx | rfl
        · have := hlow x (hkept ▸ hx)
          omega
        · omega
      · intro x hx g hg
        rcases hseg x hx with hx | rfl
        · exact hnew x (hkept ▸ hx) g (List.mem_cons_of_mem f hg)
        · have := hf g hg
          omega
    · rw [indicateLoop_ahead flags q (hless.trans (decide_eq_true hgt))]
      exact { h with ref := ⟨p + e, h.ref, fun x hx => by have := hlow x hx; omega⟩ }

/-- A reorder control with everything it has done. -/
structure ReorderLog where
  ctrl : RecvReorderCtrl
  acts : List Act

namespace ReorderLog

def start : ReorderLog := ⟨.start, []⟩

def step (s : ReorderLog) (e : ReorderEvent) : ReorderLog :=
  ⟨(s.ctrl.outcome e).ctrl, s.acts ++ (s.ctrl.outcome e).acts⟩

/-- What was indicated so far lies behind `indicate_seq`, if that is set. -/
structure Placed (s : ReorderLog) : Prop where
  fits : s.ctrl.Fits
  first : s.ctrl.indicateSeq = 0xFFFF → Track.Cleared (trackActs .start s.acts)
  behind : s.ctrl.indicateSeq < 4096 → Track.Behind 1 s.ctrl.indicateSeq (trackActs .start s.acts)

/-- A frame does not lie before `indicate_seq`. -/
def NotBefore (s : ReorderLog) : ReorderEvent → Prop
  | .recv _ f => s.ctrl.indicateSeq = 0xFFFF ∨ snLess f.frame.seqNum s.ctrl.indicateSeq = false
  | .timeout _ => True

theorem placed_start : start.Placed where
  fits := RecvReorderCtrl.fits_start
  first := fun _ => Track.cleared_start
  behind := fun h => absurd h (by decide)

/-- The reference at the base of the window, before a frame moves it. -/
theorem Placed.base {s : ReorderLog} (h : s.Placed) (f : RecvFrame) :
    ∃ p, (trackActs (trackActs .start s.acts)
        (if s.ctrl.indicateSeq = 0xFFFF then [.moved f.seqNum] else [])).At
        (s.ctrl.base f) p 0 4096 ∧
      ∀ x ∈ (trackActs (trackActs .start s.acts)
        (if s.ctrl.indicateSeq = 0xFFFF then [.moved f.seqNum] else [])).seg, x < p := by
  have hb := h.fits.base_lt f
  unfold RecvReorderCtrl.base at hb ⊢
  split
  · rename_i hfirst
    have hmoved := (h.first hfirst).moved (m := 4096) 1 f.seqNum
    obtain ⟨p, hp, hle⟩ := hmoved.ref
    refine ⟨p, { hmoved.toOrdered with ref := ?_ }, fun x hx => by have := hle x hx; omega⟩
    simpa [Nat.mod_eq_of_lt f.seqNum_lt] using hp
  · rename_i hfirst
    rw [if_neg hfirst] at hb
    have hbehind := h.behind hb
    obtain ⟨p, hp, hle⟩ := hbehind.ref
    refine ⟨p, { hbehind.toOrdered with ref := ?_ }, fun x hx => by have := hle x hx; omega⟩
    simpa [Nat.mod_eq_of_lt hb] using hp

/-- The window moves and the loop indicates what it passes. -/
theorem Placed.entered {s : ReorderLog} (h : s.Placed) (flags : DriverFlags) (f : RecvFrame)
    {q : List RecvFrame}
    (hq : RecvReorderCtrl.Entered (s.ctrl.base f) (f.dist (s.ctrl.base f)) q) :
    let r := indicateLoop flags
      ((s.ctrl.base f + RecvReorderCtrl.advance (f.dist (s.ctrl.base f))) % 4096) q
    Track.Behind 1 r.1 (trackActs .start (s.acts ++ (s.ctrl.moves f ++ r.2.2))) := by
  intro r
  obtain ⟨p, hat, hseg⟩ := h.base f
  have hle := hq.advance_le
  rw [trackActs_append, trackActs_append, RecvReorderCtrl.moves, trackActs_append]
  generalize trackActs (trackActs .start s.acts)
    (if s.ctrl.indicateSeq = 0xFFFF then [.moved f.seqNum] else []) = t at hat hseg
  have hloop : ∀ u : Track, u.At (s.ctrl.base f) p
      (RecvReorderCtrl.advance (f.dist (s.ctrl.base f))) 4096 → (∀ x ∈ u.seg, x < p) →
      Track.Behind 1 r.1 (trackActs u r.2.2) := by
    intro u hu hlow
    apply indicateLoop_track flags (h.fits.base_lt f) hq.sorted _ hu
    · intro x hx
      have := hlow x hx
      omega
    · intro x hx g _
      have := hlow x hx
      omega
    · intro g hg
      have := hq.bounds g hg
      omega
  split
  · rename_i hzero
    exact hloop t (by rw [hzero]; exact hat) hseg
  · obtain ⟨hmoved, hkept⟩ := hat.moved
      (d := RecvReorderCtrl.advance (f.dist (s.ctrl.base f))) (by omega) (by omega)
    exact hloop _ hmoved (by rw [trackActs_moved, trackActs_nil, hkept]; exact hseg)

/-- A step after which the reference lies behind a number of the ring. -/
theorem placed_of_behind {s : ReorderLog} (hfits : s.ctrl.Fits)
    (hbehind : Track.Behind 1 s.ctrl.indicateSeq (trackActs .start s.acts))
    (hlt : s.ctrl.indicateSeq < 4096) : s.Placed where
  fits := hfits
  first := fun hfirst => by omega
  behind := fun _ => hbehind

theorem Placed.step {s : ReorderLog} (h : s.Placed) (e : ReorderEvent) (hok : s.NotBefore e) :
    (s.step e).Placed := by
  have hfits := h.fits.step e
  cases e with
  | recv flags f =>
    unfold ReorderLog.step RecvReorderCtrl.step at *
    rw [RecvReorderCtrl.outcome_recv h.fits.enable] at hfits ⊢
    rcases h.fits.reorderLocked_cases flags f.frame.converted with
      ⟨hold, -⟩ | hr | ⟨-, q, hentered, -, hr⟩
    · have hless := h.fits.snLess_base f.frame.converted
      rw [decide_eq_true hold] at hless
      have hbase : s.ctrl.base f.frame.converted = s.ctrl.indicateSeq ∨
          f.frame.converted.dist (s.ctrl.base f.frame.converted) = 0 := by
        by_cases hfirst : s.ctrl.indicateSeq = 0xFFFF
        · refine Or.inr ?_
          rw [RecvReorderCtrl.base, if_pos hfirst]
          simp [Circular.ahead]
        · exact Or.inl (if_neg hfirst)
      rcases hbase with hbase | hzero
      · rw [hbase, RecvFrame.converted_seqNum] at hless
        rcases hok with hfirst | hnew
        · have hlt := h.fits.base_lt f.frame.converted
          rw [hbase] at hlt
          omega
        · rw [hnew] at hless
          cases hless
      · omega
    · rw [hr] at hfits ⊢
      simpa using h
    · rw [hr] at hfits ⊢
      exact placed_of_behind hfits (h.entered flags f.frame.converted hentered)
        (indicateLoop_lt flags q (Nat.mod_lt _ (by norm_num)))
  | timeout flags =>
    unfold ReorderLog.step RecvReorderCtrl.step at *
    cases hrun : flags.running with
    | false =>
      rw [RecvReorderCtrl.outcome_timeout_stopped _ hrun] at hfits ⊢
      exact ⟨hfits, by simpa using h.first, by simpa using h.behind⟩
    | true =>
      cases hpending : s.ctrl.pending with
      | nil =>
        rw [RecvReorderCtrl.outcome_timeout_nil hrun hpending] at hfits ⊢
        exact ⟨hfits, by simpa using h.first, by simpa using h.behind⟩
      | cons f q =>
        obtain ⟨hlt, hwin, hr⟩ := h.fits.outcome_timeout hrun hpending
        rw [hr] at hfits ⊢
        refine placed_of_behind hfits ?_ (indicateLoop_lt flags _ (Nat.mod_lt _ (by norm_num)))
        have hbehind := h.behind hlt
        obtain ⟨p, hp, hle⟩ := hbehind.ref
        have hat : (trackActs .start s.acts).At s.ctrl.indicateSeq p 0 4096 :=
          { hbehind.toOrdered with ref := by simpa [Nat.mod_eq_of_lt hlt] using hp }
        have hbounds := RecvReorderCtrl.forced_bounds hwin
        have hfirst := hbounds f (by simp)
        obtain ⟨hmoved, hkept⟩ := hat.moved (d := f.dist s.ctrl.indicateSeq) (by omega) (by omega)
        rw [trackActs_append, trackActs_moved]
        apply indicateLoop_track flags hlt hwin.sorted _ hmoved
        · intro x hx
          have := hle x (hkept ▸ hx)
          omega
        · intro x hx g _
          have := hle x (hkept ▸ hx)
          omega
        · intro g hg
          have := hbounds g hg
          omega

/-- In every run in which no frame lies before `indicate_seq`, the indicated numbers increase. -/
theorem run_increasing (es : List ReorderEvent) (hg : Guarded step NotBefore start es) :
    Increasing 4096 ((run step start es).acts.filterMap Act.mark) := by
  have h : (run step start es).Placed :=
    guarded_invariant Placed (fun _ e hs hok => hs.step e hok) placed_start hg
  apply Track.Ordered.increasing
  by_cases hfirst : (run step start es).ctrl.indicateSeq = 0xFFFF
  · exact (h.first hfirst).toOrdered
  · have hlt : (run step start es).ctrl.indicateSeq < 4096 := by
      rcases h.fits.window with ⟨hseq, -⟩ | ⟨hlt, -⟩
      · exact absurd hseq hfirst
      · exact hlt
    exact (h.behind hlt).toOrdered

/-- A frame is queued and indicated when its turn comes. -/
theorem run_increasing_three : Increasing 4096 ((run step start
    [.recv ⟨false, false⟩ (RecvReorderCtrl.ipv4Frame 4095),
      .recv ⟨false, false⟩ (RecvReorderCtrl.ipv4Frame 1), .timeout ⟨false, false⟩,
      .recv ⟨false, false⟩ (RecvReorderCtrl.ipv4Frame 2)]).acts.filterMap Act.mark) :=
  run_increasing _ ⟨Or.inl rfl, Or.inr (by decide), trivial, Or.inr (by decide),
    trivial⟩

/-- A frame that is received twice is indicated twice. -/
theorem old_frame_indicated : ¬ ∀ es : List ReorderEvent,
    Increasing 4096 ((run step start es).acts.filterMap Act.mark) := by
  intro h
  exact absurd (h [.recv ⟨false, false⟩ (RecvReorderCtrl.ipv4Frame 7),
    .recv ⟨false, false⟩ (RecvReorderCtrl.ipv4Frame 7)]) (by decide)

end ReorderLog

end Rtl8188eu
