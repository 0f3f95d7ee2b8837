import StandaloneDrivers.Foundations.Run
import StandaloneDrivers.Rtl8188eu.ReorderWindow

/-! Runs of one reorder control, and the representation of its pending queue. -/
namespace Rtl8188eu
open Foundations

namespace RecvReorderCtrl

/-- Reordering is on with a window of 64, and the queue is in the window. -/
structure Fits (c : RecvReorderCtrl) : Prop where
  enable : c.enable = true
  wsizeB : c.wsizeB = 64
  window : (c.indicateSeq = 0xFFFF ∧ c.pending = []) ∨
    (c.indicateSeq < 4096 ∧ InWindow c.indicateSeq c.pending)

/-- The number from which the window is counted when a frame comes in. -/
def base (c : RecvReorderCtrl) (f : RecvFrame) : ℕ :=
  if c.indicateSeq = 0xFFFF then f.seqNum else c.indicateSeq

/-- How far a frame moves the window that begins `d` steps before it. -/
def advance (d : ℕ) : ℕ := if d = 0 then 1 else if d ≤ 63 then 0 else d - 63

/-- The moves of `indicate_seq` before the queue is looked at. -/
def moves (c : RecvReorderCtrl) (f : RecvFrame) : List Act :=
  (if c.indicateSeq = 0xFFFF then [.moved f.seqNum] else []) ++
    if advance (f.dist (c.base f)) = 0 then []
    else [.moved ((c.base f + advance (f.dist (c.base f))) % 4096)]

/-- What the queue looks like before the loop: the window begins `advance` steps after `base`. -/
structure Entered (b d : ℕ) (q : List RecvFrame) : Prop where
  sorted : Sorted b q
  below : ∀ g ∈ q, g.dist b < 2048 ∧ g.dist b ≤ advance d + 63
  advance_le : advance d ≤ 1984

/-- The bounds of the loop behind a frame that was put in the queue. -/
theorem Entered.bounds {b d : ℕ} {q : List RecvFrame} (h : Entered b d q) :
    ∀ f ∈ q, f.dist b < 2048 ∧ f.dist b ≤ advance d + 63 ∧ advance d < f.dist b + 2048 := by
  intro f hf
  have h1 := h.below f hf
  have h2 := h.advance_le
  omega

theorem fits_start : start.Fits := ⟨rfl, rfl, Or.inl ⟨rfl, rfl⟩⟩

namespace Fits
variable {c : RecvReorderCtrl} (h : c.Fits)
include h

theorem base_lt (f : RecvFrame) : c.base f < 4096 := by
  have hf := f.seqNum_lt
  unfold base
  split
  · exact hf
  · rcases h.window with ⟨hseq, -⟩ | ⟨hseq, -⟩
    · contradiction
    · exact hseq

theorem inWindow (f : RecvFrame) : InWindow (c.base f) c.pending := by
  unfold base
  split
  · rename_i hseq
    rcases h.window with ⟨-, hnil⟩ | ⟨hlt, -⟩
    · rw [hnil]
      exact InWindow.nil _
    · omega
  · rcases h.window with ⟨hseq, -⟩ | ⟨-, hwin⟩
    · contradiction
    · exact hwin

theorem snLess_base (f : RecvFrame) :
    snLess f.seqNum (c.base f) = decide (2048 ≤ f.dist (c.base f)) := by
  have hf := f.seqNum_lt
  have hb := h.base_lt f
  unfold snLess
  rw [decide_eq_decide]
  simp only [RecvFrame.dist, Circular.ahead]
  omega

/-- The test of the window turns a frame away or moves the window. -/
theorem checkIndicateSeq (f : RecvFrame) :
    (2048 ≤ f.dist (c.base f) ∧ c.checkIndicateSeq f.seqNum = (false, ⟨c, []⟩)) ∨
      (f.dist (c.base f) < 2048 ∧ c.checkIndicateSeq f.seqNum =
        (true, ⟨{ c with indicateSeq := (c.base f + advance (f.dist (c.base f))) % 4096 },
          c.moves f⟩)) := by
  have hf := f.seqNum_lt
  have hb := h.base_lt f
  have hless := h.snLess_base f
  by_cases hfirst : c.indicateSeq = 0xFFFF
  · have hbase : c.base f = f.seqNum := if_pos hfirst
    have hdist : f.dist (c.base f) = 0 := by
      rw [hbase]
      simp only [RecvFrame.dist, Circular.ahead]
      omega
    refine Or.inr ⟨by omega, ?_⟩
    rw [hdist, hbase] at hless
    simp only [RecvReorderCtrl.checkIndicateSeq, moves, hfirst, hdist, if_true, setIndicateSeq,
      hless]
    simp [advance, hbase]
  · have hbase : c.base f = c.indicateSeq := if_neg hfirst
    rw [hbase] at hless hb ⊢
    by_cases hold : 2048 ≤ f.dist c.indicateSeq
    · refine Or.inl ⟨hold, ?_⟩
      simp only [RecvReorderCtrl.checkIndicateSeq, hfirst, if_false, hless, decide_eq_true hold,
        if_true]
    · refine Or.inr ⟨by omega, ?_⟩
      have hnew : snLess f.seqNum c.indicateSeq = false := hless.trans (decide_eq_false hold)
      have hseq := f.seqNum_eq hb
      have hwend : snLess ((c.indicateSeq + 64 - 1) % 4096) f.seqNum =
          decide (63 < f.dist c.indicateSeq) := by
        calc snLess ((c.indicateSeq + 64 - 1) % 4096) f.seqNum
          _ = snLess ((c.indicateSeq + 63) % 4096)
              ((c.indicateSeq + f.dist c.indicateSeq) % 4096) := by rw [← hseq]; rfl
          _ = decide (63 < f.dist c.indicateSeq) := snLess_mod (by omega) (by omega)
      rw [← h.wsizeB] at hwend
      simp only [RecvReorderCtrl.checkIndicateSeq, moves, hbase, hfirst, if_false, hnew,
        Bool.false_eq_true, hwend, List.nil_append, setIndicateSeq]
      by_cases hzero : f.dist c.indicateSeq = 0
      · have heq : f.seqNum = c.indicateSeq := by
          rw [hseq, hzero]
          omega
        rw [if_pos heq, hzero]
        simp [advance]
      · have hne : f.seqNum ≠ c.indicateSeq := by
          intro heq
          apply hzero
          rw [RecvFrame.dist, heq, Circular.ahead]
          omega
        rw [if_neg hne]
        by_cases hin : f.dist c.indicateSeq ≤ 63
        · have hstay : advance (f.dist c.indicateSeq) = 0 := by
            simp only [advance, hzero, if_false, hin, if_true]
          rw [decide_eq_false (by omega), hstay, add_zero, Nat.mod_eq_of_lt hb]
          rfl
        · have hjump : advance (f.dist c.indicateSeq) = f.dist c.indicateSeq - 63 := by
            simp only [advance, hzero, if_false, hin]
          have hmoved : ¬ f.dist c.indicateSeq - 63 = 0 := by omega
          rw [decide_eq_true (by omega), if_pos rfl, hjump, if_neg hmoved]
          have hstart : (if f.seqNum ≥ 64 - 1 then f.seqNum + 1 - 64
              else 0xFFF - (64 - (f.seqNum + 1)) + 1) =
              (c.indicateSeq + (f.dist c.indicateSeq - 63)) % 4096 := by
            split <;> omega
          rw [← hstart, h.wsizeB]
          split <;> rfl

/-- The locked part turns a frame away, refuses it as a duplicate, or puts it in the queue and
runs the loop. -/
theorem reorderLocked_cases (flags : DriverFlags) (f : RecvFrame) :
    (2048 ≤ f.dist (c.base f) ∧ c.reorderLocked flags f = (.success, ⟨c, [.indicated f]⟩)) ∨
      c.reorderLocked flags f = (.fail, ⟨c, []⟩) ∨
      f.dist (c.base f) < 2048 ∧ ∃ q, Entered (c.base f) (f.dist (c.base f)) q ∧
        q.Perm (f :: c.pending) ∧
        let r := indicateLoop flags ((c.base f + advance (f.dist (c.base f))) % 4096) q
        c.reorderLocked flags f = (.success,
          ⟨{ c with indicateSeq := r.1, pending := r.2.1, timer := !r.2.1.isEmpty },
            c.moves f ++ r.2.2⟩) := by
  have hb := h.base_lt f
  have hwin := h.inWindow f
  rcases h.checkIndicateSeq f with ⟨hold, hcheck⟩ | ⟨hnew, hcheck⟩
  · refine Or.inl ⟨hold, ?_⟩
    simp only [reorderLocked, hcheck, List.nil_append]
  · refine Or.inr ?_
    rcases enqueue_spec hb f hwin.sorted (fun g hg => by
      have := hwin.within g hg
      omega) with ⟨⟨g, hg, hdist⟩, hnone⟩ | ⟨q, hsome, hsorted, hperm⟩
    · refine Or.inl ?_
      have hin := hwin.within g hg
      have hstay : advance (f.dist (c.base f)) = 0 := by
        simp only [advance]
        rw [if_neg (by omega), if_pos (by omega)]
      have hseq : c.indicateSeq ≠ 0xFFFF := by
        intro hfirst
        rcases h.window with ⟨-, hnil⟩ | ⟨hlt, -⟩
        · rw [hnil] at hg
          cases hg
        · omega
      have hbase : c.base f = c.indicateSeq := if_neg hseq
      have hsame : { c with indicateSeq := (c.base f + 0) % 4096 } = c := by
        rw [hbase] at hb
        simp only [hbase, add_zero, Nat.mod_eq_of_lt hb]
      have hmoves : c.moves f = [] := by
        simp only [moves, hseq, hstay, if_false, if_true, List.append_nil]
      rw [hstay, hsame, hmoves] at hcheck
      simp only [reorderLocked, hcheck, hnone]
    · refine Or.inr ⟨hnew, q, ?_, hperm, ?_⟩
      · constructor
        · exact hsorted
        · intro g hg
          simp only [advance]
          rcases List.mem_cons.mp (hperm.mem_iff.mp hg) with rfl | hg
          · split_ifs <;> omega
          · have hin := hwin.within g hg
            split_ifs <;> omega
        · simp only [advance]
          split_ifs <;> omega
      · simp only [reorderLocked, hcheck, hsome, recvIndicatepktsInOrder, indicateQueue]
        rfl

end Fits

/-- After the loop the queue is in the window again, and what was taken off it was acted on. -/
theorem Fits.indicateLoop {c : RecvReorderCtrl} (henable : c.enable = true) (hw : c.wsizeB = 64)
    (flags : DriverFlags) {b e : ℕ} (hb : b < 4096) {q : List RecvFrame} (hs : Sorted b q)
    (hq : ∀ f ∈ q, f.dist b < 2048 ∧ f.dist b ≤ e + 63 ∧ e < f.dist b + 2048) (timer : Bool) :
    let r := indicateLoop flags ((b + e) % 4096) q
    Fits { c with indicateSeq := r.1, pending := r.2.1, timer := timer } ∧
      r.2.2.filterMap Act.frame ++ r.2.1 = q := by
  intro r
  obtain ⟨k, e', hle, hseq, hleft, hacts, -, hdrop⟩ :=
    indicateLoop_spec flags hb (e := e) hs fun f hf => by
      have := hq f hf
      omega
  constructor
  · constructor
    · exact henable
    · exact hw
    · refine Or.inr ⟨?_, ?_⟩
      · rw [hseq]
        exact Nat.mod_lt _ (by norm_num)
      · rw [hseq, hleft]
        apply InWindow.shift hb (List.Pairwise.sublist (List.drop_sublist k q) hs)
        intro f hf
        have h1 := hq f (List.mem_of_mem_drop hf)
        have h2 := hdrop f hf
        omega
  · rw [hacts, hleft]
    exact List.take_append_drop k q

end RecvReorderCtrl

/-- The frame as the locked part sees it. -/
def RecvFrame.converted (f : RecvFrame) : RecvFrame :=
  if f.attrib.amsdu then f else wlanhdrToEthhdr f

theorem RecvFrame.converted_seqNum (f : RecvFrame) : f.converted.seqNum = f.seqNum := by
  unfold converted
  split
  · rfl
  · exact wlanhdrToEthhdr_seqNum f

/-- A QoS frame with normal acknowledgement that is no ARP frame. -/
structure QosFrame where
  frame : RecvFrame
  qos : frame.attrib.qos = true
  ackPolicy : frame.attrib.ackPolicy = 0
  notArp : frame.attrib.amsdu = true ∨ (wlanhdrToEthhdr frame).attrib.ethType ≠ 0x0806

/-- A frame comes in or the timer runs out, while the driver is in some state. -/
inductive ReorderEvent where
  | recv (flags : DriverFlags) (f : QosFrame)
  | timeout (flags : DriverFlags)

namespace RecvReorderCtrl

def outcome (c : RecvReorderCtrl) : ReorderEvent → Outcome
  | .recv flags f => (c.recvIndicatepktReorder flags f.frame).2
  | .timeout flags => c.rtwReorderingCtrlTimeoutHandler flags

def step (c : RecvReorderCtrl) (e : ReorderEvent) : RecvReorderCtrl := (c.outcome e).ctrl

/-- A QoS frame goes through the locked part. -/
theorem recvIndicatepktReorder_qos {c : RecvReorderCtrl} (h : c.enable = true)
    (flags : DriverFlags) (f : QosFrame) :
    c.recvIndicatepktReorder flags f.frame = c.reorderLocked flags f.frame.converted := by
  unfold recvIndicatepktReorder RecvFrame.converted
  cases hamsdu : f.frame.attrib.amsdu with
  | true =>
    simp only [Bool.not_true, Bool.false_eq_true, if_false, h, if_true]
  | false =>
    obtain ⟨ethType, hattrib⟩ := wlanhdrToEthhdr_attrib f.frame
    have hqos : (wlanhdrToEthhdr f.frame).attrib.qos = true := by
      rw [hattrib]
      exact f.qos
    have hack : (wlanhdrToEthhdr f.frame).attrib.ackPolicy = 0 := by
      rw [hattrib]
      exact f.ackPolicy
    have harp := f.notArp.resolve_left (by rw [hamsdu]; exact Bool.false_ne_true)
    simp only [Bool.not_false, if_true, hqos, hack, beq_eq_false_iff_ne.mpr harp, bne_self_eq_false,
      Bool.not_true, Bool.or_self, Bool.false_eq_true, if_false, h]

theorem outcome_recv {c : RecvReorderCtrl} (h : c.enable = true) (flags : DriverFlags)
    (f : QosFrame) : c.outcome (.recv flags f) = (c.reorderLocked flags f.frame.converted).2 :=
  congrArg Prod.snd (recvIndicatepktReorder_qos h flags f)

theorem outcome_timeout_stopped (c : RecvReorderCtrl) {flags : DriverFlags}
    (hrun : flags.running = false) : c.outcome (.timeout flags) = ⟨{ c with timer := false }, []⟩ := by
  simp only [outcome, rtwReorderingCtrlTimeoutHandler, hrun, Bool.not_false, if_true]

theorem outcome_timeout_nil {c : RecvReorderCtrl} {flags : DriverFlags}
    (hrun : flags.running = true) (hc : c.pending = []) :
    c.outcome (.timeout flags) = ⟨{ c with timer := true }, []⟩ := by
  simp only [outcome, rtwReorderingCtrlTimeoutHandler, hrun, Bool.not_true, Bool.false_eq_true,
    if_false, recvIndicatepktsInOrder, hc, if_true]

/-- The handler moves on to the first frame of the queue. -/
theorem Fits.outcome_timeout {c : RecvReorderCtrl} (h : c.Fits) {flags : DriverFlags}
    (hrun : flags.running = true) {f : RecvFrame} {q : List RecvFrame} (hc : c.pending = f :: q) :
    c.indicateSeq < 4096 ∧ InWindow c.indicateSeq (f :: q) ∧
      let r := Rtl8188eu.indicateLoop flags ((c.indicateSeq + f.dist c.indicateSeq) % 4096) (f :: q)
      c.outcome (.timeout flags) =
        ⟨{ c with indicateSeq := r.1, pending := r.2.1, timer := !r.2.1.isEmpty },
          .moved ((c.indicateSeq + f.dist c.indicateSeq) % 4096) :: r.2.2⟩ := by
  rcases h.window with ⟨-, hnil⟩ | ⟨hlt, hwin⟩
  · rw [hnil] at hc
    cases hc
  · rw [hc] at hwin
    refine ⟨hlt, hwin, ?_⟩
    rw [← f.seqNum_eq hlt]
    simp only [outcome, rtwReorderingCtrlTimeoutHandler, hrun, Bool.not_true, Bool.false_eq_true,
      if_false, recvIndicatepktsInOrder, if_true, hc, setIndicateSeq, indicateQueue]
    rfl

/-- The queue in the window, without gaps in what is known of its frames and its timer: what
a step does to a queue when nothing is lost. -/
structure StepSound (c : RecvReorderCtrl) (o : Outcome) : Prop where
  sorted : Sorted o.ctrl.indicateSeq o.ctrl.pending
  nodup : (o.ctrl.pending.map RecvFrame.seqNum).Nodup
  within : ∀ f ∈ o.ctrl.pending, 1 ≤ f.dist o.ctrl.indicateSeq ∧ f.dist o.ctrl.indicateSeq ≤ 63
  few : o.ctrl.pending.length ≤ 63
  kept : ∀ f ∈ c.pending, f ∈ o.ctrl.pending ∨ .indicated f ∈ o.acts ∨ .split f ∈ o.acts
  timer : o.ctrl.timer = true ↔ o.ctrl.pending ≠ []

/-- The driver is neither stopped nor removed, and the handler finds a frame. -/
def Undisturbed (c : RecvReorderCtrl) : ReorderEvent → Prop
  | .recv flags _ => flags.running = true
  | .timeout flags => flags.running = true ∧ c.pending ≠ []

theorem Fits.queue {c : RecvReorderCtrl} (h : c.Fits) : Sorted c.indicateSeq c.pending ∧
    (c.pending.map RecvFrame.seqNum).Nodup ∧
    (∀ f ∈ c.pending, 1 ≤ f.dist c.indicateSeq ∧ f.dist c.indicateSeq ≤ 63) ∧
    c.pending.length ≤ 63 := by
  have hwin : InWindow c.indicateSeq c.pending := by
    rcases h.window with ⟨-, hnil⟩ | ⟨-, hwin⟩
    · rw [hnil]
      exact InWindow.nil _
    · exact hwin
  refine ⟨hwin.sorted, ?_, hwin.within, hwin.length_le⟩
  rw [List.Nodup, List.pairwise_map]
  apply hwin.sorted.imp
  intro f g hfg heq
  simp only [RecvFrame.dist, heq] at hfg
  exact lt_irrefl _ hfg

/-- What is acted on while the driver runs is indicated. -/
theorem indicateLoop_indicated {flags : DriverFlags} (hrun : flags.running = true) (seq : ℕ)
    (q : List RecvFrame) {f : RecvFrame}
    (hf : f ∈ (indicateLoop flags seq q).2.2.filterMap Act.frame) :
    .indicated f ∈ (indicateLoop flags seq q).2.2 ∨ .split f ∈ (indicateLoop flags seq q).2.2 := by
  have hact : ∀ g, indicateAct flags g = .indicated g ∨ indicateAct flags g = .split g := by
    intro g
    unfold indicateAct
    split_ifs
    · exact Or.inr rfl
    · exact Or.inl rfl
  have hnone : ∀ a ∈ (indicateLoop flags seq q).2.2, ∀ g, a ≠ .forgotten g := by
    clear hf
    induction q generalizing seq with
    | nil => simp [indicateLoop]
    | cons g q ih =>
      cases hless : snLess seq g.seqNum with
      | true =>
        rw [indicateLoop_ahead flags q hless]
        simp
      | false =>
        by_cases heq : seq = g.seqNum
        · rw [indicateLoop_equal flags q hless heq]
          intro a ha x
          rcases List.mem_cons.mp ha with rfl | ha
          · rintro ⟨⟩
          · rcases List.mem_cons.mp ha with rfl | ha
            · rcases hact g with hg | hg <;> rw [hg] <;> rintro ⟨⟩
            · exact ih _ a ha x
        · rw [indicateLoop_behind flags q hless heq]
          intro a ha x
          rcases List.mem_cons.mp ha with rfl | ha
          · rcases hact g with hg | hg <;> rw [hg] <;> rintro ⟨⟩
          · exact ih _ a ha x
  obtain ⟨a, ha, hframe⟩ := List.mem_filterMap.mp hf
  cases a with
  | moved seq => cases hframe
  | indicated g =>
    cases hframe
    exact Or.inl ha
  | split g =>
    cases hframe
    exact Or.inr ha
  | forgotten g => exact absurd rfl (hnone _ ha g)

/-- The bounds of the loop that begins with the first frame of the queue. -/
theorem forced_bounds {seq : ℕ} {f : RecvFrame} {q : List RecvFrame}
    (h : InWindow seq (f :: q)) : ∀ g ∈ f :: q, g.dist seq < 2048 ∧
      g.dist seq ≤ f.dist seq + 63 ∧ f.dist seq < g.dist seq + 2048 := by
  intro g hg
  have h1 := h.within g hg
  have h2 := h.within f (by simp)
  omega

/-- Every step keeps the queue in the window. -/
theorem Fits.step {c : RecvReorderCtrl} (h : c.Fits) (e : ReorderEvent) : (c.step e).Fits := by
  cases e with
  | recv flags f =>
    unfold RecvReorderCtrl.step
    rw [outcome_recv h.enable]
    rcases h.reorderLocked_cases flags f.frame.converted with
      ⟨-, hr⟩ | hr | ⟨-, q, hentered, -, hr⟩
    · rw [hr]
      exact h
    · rw [hr]
      exact h
    · rw [hr]
      exact (Fits.indicateLoop h.enable h.wsizeB flags (h.base_lt _) hentered.sorted
        hentered.bounds _).1
  | timeout flags =>
    unfold RecvReorderCtrl.step
    cases hrun : flags.running with
    | false =>
      rw [outcome_timeout_stopped c hrun]
      exact ⟨h.enable, h.wsizeB, h.window⟩
    | true =>
      cases hpending : c.pending with
      | nil =>
        rw [outcome_timeout_nil hrun hpending]
        exact ⟨h.enable, h.wsizeB, h.window⟩
      | cons f q =>
        obtain ⟨hlt, hwin, hr⟩ := h.outcome_timeout hrun hpending
        rw [hr]
        exact (Fits.indicateLoop h.enable h.wsizeB flags hlt hwin.sorted
          (forced_bounds hwin) _).1

/-- A frame that the loop took off the queue was indicated. -/
theorem kept_of_loop {flags : DriverFlags} (hrun : flags.running = true) {c : RecvReorderCtrl}
    {seq : ℕ} {q : List RecvFrame} (hsub : ∀ f ∈ c.pending, f ∈ q)
    (hall : (indicateLoop flags seq q).2.2.filterMap Act.frame ++ (indicateLoop flags seq q).2.1 = q)
    (first : List Act) : ∀ f ∈ c.pending, f ∈ (indicateLoop flags seq q).2.1 ∨
      .indicated f ∈ first ++ (indicateLoop flags seq q).2.2 ∨
      .split f ∈ first ++ (indicateLoop flags seq q).2.2 := by
  intro f hf
  have hq := hsub f hf
  rw [← hall] at hq
  rcases List.mem_append.mp hq with hacted | hleft
  · rcases indicateLoop_indicated hrun seq q hacted with hi | hs
    · exact Or.inr (Or.inl (List.mem_append_right first hi))
    · exact Or.inr (Or.inr (List.mem_append_right first hs))
  · exact Or.inl hleft

theorem Fits.kept {c : RecvReorderCtrl} (h : c.Fits) {e : ReorderEvent}
    (hok : c.Undisturbed e) : ∀ f ∈ c.pending, f ∈ (c.outcome e).ctrl.pending ∨
      .indicated f ∈ (c.outcome e).acts ∨ .split f ∈ (c.outcome e).acts := by
  cases e with
  | recv flags f =>
    rw [outcome_recv h.enable]
    rcases h.reorderLocked_cases flags f.frame.converted with
      ⟨-, hr⟩ | hr | ⟨-, q, hentered, hperm, hr⟩
    · rw [hr]
      exact fun g hg => Or.inl hg
    · rw [hr]
      exact fun g hg => Or.inl hg
    · rw [hr]
      exact kept_of_loop hok (fun g hg => hperm.mem_iff.mpr (List.mem_cons_of_mem _ hg))
        (Fits.indicateLoop h.enable h.wsizeB flags (h.base_lt _) hentered.sorted
          hentered.bounds true).2 _
  | timeout flags =>
    obtain ⟨hrun, hne⟩ := hok
    obtain ⟨f, q, hpending⟩ := List.exists_cons_of_ne_nil hne
    obtain ⟨hlt, hwin, hr⟩ := h.outcome_timeout hrun hpending
    rw [hr]
    exact kept_of_loop hrun (fun g hg => hpending ▸ hg)
      (Fits.indicateLoop h.enable h.wsizeB flags hlt hwin.sorted (forced_bounds hwin) true).2
      [_]

theorem Fits.timer {c : RecvReorderCtrl} (h : c.Fits)
    (htimer : c.timer = true ↔ c.pending ≠ []) {e : ReorderEvent} (hok : c.Undisturbed e) :
    (c.step e).timer = true ↔ (c.step e).pending ≠ [] := by
  cases e with
  | recv flags f =>
    unfold RecvReorderCtrl.step
    rw [outcome_recv h.enable]
    rcases h.reorderLocked_cases flags f.frame.converted with
      ⟨-, hr⟩ | hr | ⟨-, q, -, -, hr⟩
    · rw [hr]
      exact htimer
    · rw [hr]
      exact htimer
    · rw [hr]
      simp
  | timeout flags =>
    obtain ⟨hrun, hne⟩ := hok
    obtain ⟨f, q, hpending⟩ := List.exists_cons_of_ne_nil hne
    obtain ⟨-, -, hr⟩ := h.outcome_timeout hrun hpending
    unfold RecvReorderCtrl.step
    rw [hr]
    simp

theorem Fits.sound {c : RecvReorderCtrl} (h : c.Fits) (htimer : c.timer = true ↔ c.pending ≠ [])
    {e : ReorderEvent} (hok : c.Undisturbed e) : StepSound c (c.outcome e) := by
  obtain ⟨hsorted, hnodup, hwithin, hfew⟩ := (h.step e).queue
  exact {
    sorted := hsorted
    nodup := hnodup
    within := hwithin
    few := hfew
    kept := h.kept hok
    timer := h.timer htimer hok }

/-- In every run while the driver is running and the handler finds a frame, every step keeps
the queue sorted and in the window, indicates what it takes off, and leaves the timer armed
exactly when a frame is left. -/
theorem reorder_sound (es : List ReorderEvent) (e : ReorderEvent)
    (hg : Guarded step Undisturbed start (es ++ [e])) :
    StepSound (run step start es) ((run step start es).outcome e) := by
  obtain ⟨hbefore, hlast⟩ := guarded_append.mp hg
  have hinv : (run step start es).Fits ∧
      ((run step start es).timer = true ↔ (run step start es).pending ≠ []) :=
    guarded_invariant (fun c => c.Fits ∧ (c.timer = true ↔ c.pending ≠ []))
      (fun c e hc hok => ⟨hc.1.step e, hc.1.timer hc.2 hok⟩)
      ⟨fits_start, by simp [start]⟩ hbefore
  exact hinv.1.sound hinv.2 hlast.1

/-- An IPv4 frame with sequence number `seq`. -/
def ipv4Frame (seq : Fin 4096) : QosFrame where
  frame := {
    id := seq
    psta := none
    attrib := { RxPktAttrib.zero with hdrlen := 26, qos := true, seqNum := seq }
    mem := List.replicate 26 0 ++ rtwRfc1042Header ++ [0x08, 0x00]
    len := 34
    fits := le_rfl }
  qos := rfl
  ackPolicy := rfl
  notArp := by
    rw [wlanhdrToEthhdr_ethType]
    exact Or.inr (by decide : 0x0800 ≠ 0x0806)

/-- A frame is queued, and indicated with the one before it. -/
theorem reorder_sound_three :
    let c := run step start [.recv ⟨false, false⟩ (ipv4Frame 0), .recv ⟨false, false⟩ (ipv4Frame 2)]
    StepSound c (c.outcome (.recv ⟨false, false⟩ (ipv4Frame 1))) :=
  reorder_sound [.recv ⟨false, false⟩ (ipv4Frame 0), .recv ⟨false, false⟩ (ipv4Frame 2)]
    (.recv ⟨false, false⟩ (ipv4Frame 1)) ⟨rfl, rfl, rfl, trivial⟩

/-- Frame 2 is queued; the driver is stopped before frame 1 comes in, and both are forgotten. -/
theorem queued_frame_forgotten : ¬ ∀ es e,
    StepSound (run step start es) ((run step start es).outcome e) := by
  intro h
  have hkept := (h [.recv ⟨false, false⟩ (ipv4Frame 0), .recv ⟨false, false⟩ (ipv4Frame 2)]
    (.recv ⟨true, false⟩ (ipv4Frame 1))).kept (ipv4Frame 2).frame.converted (by decide)
  revert hkept
  decide

end RecvReorderCtrl

end Rtl8188eu
