import Mathlib.Data.List.Induction
import Mathlib.Logic.Function.Basic
import StandaloneDrivers.Foundations.Run
import StandaloneDrivers.R92su.Frame

/-! The filter for repeated frames (rx.c), which keeps the last sequence control value of each
class of frames with the station (sta.c). -/
namespace R92su
open Foundations

/-- What a station remembers of the frames it sent. -/
structure RxSeq where
  rxSeq : ℕ
  rxSeqTid : ℕ → ℕ
  dropDup : ℕ

/-- The zeroed memory of `r92su_sta_alloc`. -/
def RxSeq.zero : RxSeq := ⟨0, fun _ => 0, 0⟩

/-- The frames that share a value: QoS data of one TID, or all others. -/
inductive FrameClass
  | tid (tid : ℕ)
  | other
  deriving DecidableEq, Repr

def Skb.frameClass (skb : Skb) : FrameClass :=
  if isDataQos skb.frameControl then .tid skb.tid else .other

namespace RxSeq
variable (s : RxSeq)

def get : FrameClass → ℕ
  | .tid tid => s.rxSeqTid tid
  | .other => s.rxSeq

def set (c : FrameClass) (seqCtrl : ℕ) : RxSeq :=
  match c with
  | .tid tid => { s with rxSeqTid := Function.update s.rxSeqTid tid seqCtrl }
  | .other => { s with rxSeq := seqCtrl }

@[simp] theorem get_set_self (c : FrameClass) (seqCtrl : ℕ) : (s.set c seqCtrl).get c = seqCtrl := by
  cases c with
  | tid tid => exact Function.update_self _ _ _
  | other => rfl

theorem get_set_of_ne {c c' : FrameClass} (h : c' ≠ c) (seqCtrl : ℕ) :
    (s.set c seqCtrl).get c' = s.get c' := by
  cases c with
  | tid tid =>
    cases c' with
    | tid tid' =>
      have hne : tid' ≠ tid := fun heq => h (congrArg FrameClass.tid heq)
      exact Function.update_of_ne hne _ _
    | other => rfl
  | other =>
    cases c' with
    | tid tid' => rfl
    | other => exact absurd rfl h

theorem get_zero (c : FrameClass) : zero.get c = 0 := by
  cases c <;> rfl

end RxSeq

/-- The stations, by their number. -/
abbrev Stations : Type := ℕ → RxSeq

namespace Stations

/-- `r92su_rx_deduplicate` -/
def rxDeduplicate (stas : Stations) (skb : Skb) : RxControl × Stations :=
  match skb.cb.sta with
  | none => (.rxContinue, stas)
  | some sta =>
    if (stas sta).get skb.frameClass = skb.seqCtrl then
      (.rxDrop, Function.update stas sta { stas sta with dropDup := (stas sta).dropDup + 1 })
    else (.rxContinue, Function.update stas sta ((stas sta).set skb.frameClass skb.seqCtrl))

def step (stas : Stations) (skb : Skb) : Stations := (stas.rxDeduplicate skb).2

/-- The stations as they are made. -/
def fresh : Stations := fun _ => RxSeq.zero

/-- The verdict on a frame after others. -/
def verdict (before : List Skb) (skb : Skb) : RxControl :=
  ((run step fresh before).rxDeduplicate skb).1

/-- Frames of one station and one class. -/
def Peer (f g : Skb) : Prop := g.cb.sta = f.cb.sta ∧ g.frameClass = f.frameClass

instance (f g : Skb) : Decidable (Peer f g) := inferInstanceAs (Decidable (_ ∧ _))

def lastPeer (before : List Skb) (f : Skb) : Option Skb :=
  before.reverse.find? fun g => Peer f g

theorem lastPeer_snoc (before : List Skb) (g f : Skb) :
    lastPeer (before ++ [g]) f = if Peer f g then some g else lastPeer before f := by
  rw [lastPeer, List.reverse_append, List.reverse_singleton, List.singleton_append,
    List.find?_cons]
  by_cases hpeer : Peer f g
  · rw [if_pos hpeer, decide_eq_true hpeer]
  · rw [if_neg hpeer, decide_eq_false hpeer, lastPeer]

theorem lastPeer_eq_none {before : List Skb} {f : Skb} :
    lastPeer before f = none ↔ ∀ g ∈ before, ¬ Peer f g := by
  rw [lastPeer, List.find?_eq_none]
  simp only [List.mem_reverse, decide_eq_true_eq]

theorem lastPeer_some {before : List Skb} {f g : Skb} (h : lastPeer before f = some g) :
    g ∈ before ∧ Peer f g := by
  constructor
  · exact List.mem_reverse.mp (List.mem_of_find?_eq_some h)
  · exact of_decide_eq_true (List.find?_some (p := fun g => decide (Peer f g)) h)

/-- A frame leaves its own value behind, whether it was dropped or not. -/
theorem step_spec (stas : Stations) {g : Skb} {sta : ℕ} (hg : g.cb.sta = some sta) :
    ∃ s, stas.step g = Function.update stas sta s ∧
      ∀ c, s.get c = if c = g.frameClass then g.seqCtrl else (stas sta).get c := by
  simp only [step, rxDeduplicate, hg]
  by_cases hseq : (stas sta).get g.frameClass = g.seqCtrl
  · rw [if_pos hseq]
    refine ⟨_, rfl, ?_⟩
    intro c
    have hget : RxSeq.get { stas sta with dropDup := (stas sta).dropDup + 1 } c =
        (stas sta).get c := by
      cases c <;> rfl
    rw [hget]
    split
    · rename_i hc
      rw [hc, hseq]
    · rfl
  · rw [if_neg hseq]
    refine ⟨_, rfl, ?_⟩
    intro c
    split
    · rename_i hc
      rw [hc, RxSeq.get_set_self]
    · rename_i hc
      exact RxSeq.get_set_of_ne _ hc _

theorem step_get (stas : Stations) (g : Skb) {f : Skb} {sta : ℕ} (hsta : f.cb.sta = some sta) :
    (stas.step g sta).get f.frameClass =
      if Peer f g then g.seqCtrl else (stas sta).get f.frameClass := by
  have hpeer : Peer f g ↔ g.cb.sta = some sta ∧ g.frameClass = f.frameClass := by
    rw [Peer, hsta]
  cases hg : g.cb.sta with
  | none =>
    have hstep : stas.step g = stas := by
      simp only [step, rxDeduplicate, hg]
    rw [hstep, if_neg]
    intro h
    have hsame := (hpeer.mp h).1
    rw [hg] at hsame
    cases hsame
  | some sta' =>
    obtain ⟨s, hstep, hget⟩ := stas.step_spec hg
    rw [hstep]
    by_cases hne : sta = sta'
    · subst hne
      rw [Function.update_self, hget]
      apply if_congr _ rfl rfl
      rw [hpeer, and_iff_right hg, eq_comm]
    · rw [Function.update_of_ne hne, if_neg]
      intro h
      have hsame := (hpeer.mp h).1
      rw [hg] at hsame
      exact hne (Option.some.inj hsame).symm

/-- What is remembered is the value of the last frame of the class, or the zero from the start. -/
theorem run_get (before : List Skb) {f : Skb} {sta : ℕ} (hsta : f.cb.sta = some sta) :
    (run step fresh before sta).get f.frameClass =
      (lastPeer before f).elim 0 Skb.seqCtrl := by
  induction before using List.reverseRecOn with
  | nil => exact RxSeq.get_zero _
  | append_singleton before g ih =>
    rw [run_append, run_cons, run_nil, step_get _ g hsta, lastPeer_snoc]
    by_cases hpeer : Peer f g
    · rw [if_pos hpeer, if_pos hpeer]
      rfl
    · rw [if_neg hpeer, if_neg hpeer, ih]

theorem verdict_eq_drop {before : List Skb} {f : Skb} : verdict before f = .rxDrop ↔
    f.cb.sta ≠ none ∧ (lastPeer before f).elim 0 Skb.seqCtrl = f.seqCtrl := by
  rw [verdict, rxDeduplicate]
  cases hsta : f.cb.sta with
  | none => simp only [reduceCtorEq, ne_eq, not_true_eq_false, false_and]
  | some sta =>
    simp only [run_get before hsta]
    split
    · rename_i hseq
      simp only [hseq, ne_eq, reduceCtorEq, not_false_eq_true, and_self]
    · rename_i hseq
      simp only [hseq, reduceCtorEq, and_false]

/-- A frame is dropped only as the repetition of an earlier one. -/
def DropJustified (before : List Skb) (f : Skb) : Prop :=
  verdict before f = .rxDrop → ∃ g ∈ before, Peer f g ∧ g.seqCtrl = f.seqCtrl

/-- A frame with the value of the one before it in its class is dropped. -/
def RepetitionDropped (before : List Skb) (f : Skb) : Prop :=
  f.cb.sta ≠ none → ∀ g, lastPeer before f = some g → g.seqCtrl = f.seqCtrl →
    verdict before f = .rxDrop

theorem repetition_dropped (before : List Skb) (f : Skb) : RepetitionDropped before f := by
  intro hsta g hlast hseq
  rw [verdict_eq_drop, hlast]
  exact ⟨hsta, hseq⟩

/-- The first frame of a class in a sequence does not have the sequence control value zero. -/
def FirstNonzero (frames : List Skb) : Prop :=
  ∀ before f after, frames = before ++ f :: after → f.cb.sta ≠ none →
    (∀ g ∈ before, ¬ Peer f g) → f.seqCtrl ≠ 0

/-- Exactly a first frame of a class with the value zero is dropped without need. -/
theorem deduplicate_iff (frames : List Skb) :
    (∀ before f after, frames = before ++ f :: after →
      DropJustified before f ∧ RepetitionDropped before f) ↔ FirstNonzero frames := by
  constructor
  · intro h before f after heq hsta hfirst hzero
    have hdrop : verdict before f = .rxDrop := by
      rw [verdict_eq_drop, lastPeer_eq_none.mpr hfirst, hzero]
      exact ⟨hsta, rfl⟩
    obtain ⟨g, hg, hpeer, -⟩ := (h before f after heq).1 hdrop
    exact hfirst g hg hpeer
  · intro h before f after heq
    constructor
    · intro hdrop
      obtain ⟨hsta, hseq⟩ := verdict_eq_drop.mp hdrop
      cases hlast : lastPeer before f with
      | none =>
        rw [hlast] at hseq
        exact absurd hseq.symm (h before f after heq hsta (lastPeer_eq_none.mp hlast))
      | some g =>
        rw [hlast] at hseq
        obtain ⟨hmem, hpeer⟩ := lastPeer_some hlast
        exact ⟨g, hmem, hpeer, hseq⟩
    · exact repetition_dropped before f

/-- A data frame of station 1 with a sequence control value. -/
def dataFrame (seqCtrl : UInt8) : Skb where
  data := [8, 0] ++ List.replicate 20 0 ++ [seqCtrl, 0]
  cb := ⟨some 1, none, 0, false⟩
  protocol := 0
  queueMapping := 0
  clear := true

/-- The very first frame of a station is dropped when its sequence control value is zero. -/
theorem zero_seqCtrl_dropped : ¬ DropJustified [] (dataFrame 0) := by
  intro h
  obtain ⟨g, hg, -⟩ := h (by decide)
  cases hg

end Stations
end R92su
