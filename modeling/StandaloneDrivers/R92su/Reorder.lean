import StandaloneDrivers.Foundations.Circular
import StandaloneDrivers.Foundations.Run
import StandaloneDrivers.R92su.Frame
import Mathlib.Logic.Function.Basic

/-! The A-MPDU reorder buffer of a traffic identifier (rx.c), with the timer that empties it. -/
namespace R92su
open Foundations

/-- The mask of a C `int` difference is its remainder. -/
def snLess (sn1 sn2 : ℕ) : Bool := 2048 < ((sn1 : ℤ) - sn2) % 4096

def snAdd (sn1 sn2 : ℕ) : ℕ := (sn1 + sn2) % 4096

def snInc (sn : ℕ) : ℕ := snAdd sn 1

def snSub (sn1 sn2 : ℕ) : ℕ := (((sn1 : ℤ) - sn2) % 4096).toNat

/-- `time_is_after_jiffies(t)` -/
def timeIsAfter (t jiffies : BitVec 64) : Bool := (jiffies - t).msb

structure RxTid where
  ssn : ℕ
  headSeq : ℕ
  len : ℕ
  size : ℕ
  reorderBuf : ℕ → Option Skb
  reorderTime : ℕ → BitVec 64
  reorderTimer : Option (BitVec 64)

/-- `r92su_sta_alloc_tid`, which is given the starting sequence control field. -/
def staAllocTid (ssn : ℕ) : RxTid where
  ssn := ssn >>> 4
  headSeq := ssn >>> 4
  len := 0
  size := 32
  reorderBuf := fun _ => none
  reorderTime := fun _ => 0
  reorderTimer := none

/-- `ieee80211_sn_sub(sn, tid->ssn) % tid->size` -/
def RxTid.slot (tid : RxTid) (sn : ℕ) : ℕ := snSub sn tid.ssn % tid.size

/-- A locked buffer with the caller's output queue. -/
structure Release where
  tid : RxTid
  queue : List Skb

def reorderReleaseFrame (r : Release) (index : ℕ) : Release :=
  match r.tid.reorderBuf index with
  | none => { r with tid := { r.tid with headSeq := snInc r.tid.headSeq } }
  | some skb =>
      { tid := { r.tid with
          len := r.tid.len - 1
          reorderBuf := Function.update r.tid.reorderBuf index none
          headSeq := snInc r.tid.headSeq }
        queue := r.queue ++ [skb] }

/-- No loop below is followed for more rounds than there are sequence numbers. -/
abbrev maxRounds : ℕ := 4096

def reorderReleaseFrames (r : Release) (newHeadSeq : ℕ) : Option Release :=
  loop (fun r => snLess r.tid.headSeq newHeadSeq)
    (fun r => reorderReleaseFrame r (r.tid.slot r.tid.headSeq)) maxRounds r

/-- The scan over the holes; `timer` is the slot at which it jumps to `set_release_timer`. -/
structure Scan where
  rel : Release
  j : ℕ
  skipped : ℕ
  timer : Option ℕ

/-- `clock j` is the value of jiffies when slot `j` is looked at. -/
def Scan.round (clock : ℕ → BitVec 64) (s : Scan) : Scan :=
  let next := (s.j + 1) % s.rel.tid.size
  match s.rel.tid.reorderBuf s.j with
  | none => { s with skipped := s.skipped + 1, j := next }
  | some _ =>
      if s.skipped ≠ 0 ∧ timeIsAfter (s.rel.tid.reorderTime s.j) (clock s.j) then
        { s with timer := some s.j }
      else
        let moved := { s.rel with
          tid := { s.rel.tid with headSeq := snAdd s.rel.tid.headSeq s.skipped } }
        { rel := reorderReleaseFrame moved s.j, j := next, skipped := 0, timer := none }

def reorderScan (clock : ℕ → BitVec 64) (r : Release) (index : ℕ) : Option Scan :=
  loop (fun s => s.j != index && s.timer.isNone) (Scan.round clock) maxRounds
    { rel := r, j := (index + 1) % r.tid.size, skipped := 1, timer := none }

def reorderDrain (r : Release) : Option Release :=
  loop (fun r => (r.tid.reorderBuf (r.tid.slot r.tid.headSeq)).isSome)
    (fun r => reorderReleaseFrame r (r.tid.slot r.tid.headSeq)) maxRounds r

/-- The search for the slot that sets the timer. The remainder of C keeps the sign, so the
exit test compares with -1 when `index` is 0. -/
def reorderFindTimer (tid : RxTid) (index : ℕ) : Option ℕ :=
  loop (fun j => (j : ℤ) != Int.tmod ((index : ℤ) - 1) tid.size && (tid.reorderBuf j).isNone)
    (fun j => (j + 1) % tid.size) maxRounds index

def Release.modTimer (r : Release) (j : ℕ) : Release :=
  { r with tid := { r.tid with reorderTimer := some (r.tid.reorderTime j + 1) } }

def reorderSetTimer (r : Release) : Option Release :=
  if r.tid.len ≠ 0 then
    (reorderFindTimer r.tid (r.tid.slot r.tid.headSeq)).map r.modTimer
  else some { r with tid := { r.tid with reorderTimer := none } }

def reorderStaRelease (clock : ℕ → BitVec 64) (r : Release) : Option Release := do
  let index := r.tid.slot r.tid.headSeq
  if r.tid.len ≠ 0 ∧ r.tid.reorderBuf index = none then
    let s ← reorderScan clock r index
    match s.timer with
    | some j => some (s.rel.modTimer j)
    | none => reorderSetTimer s.rel
  else
    reorderSetTimer (← reorderDrain r)

/-- What the locked part of `r92su_rx_reorder_ampdu` leaves: its verdict, and whether the
frame itself still goes to the output queue. -/
structure Reordered where
  control : RxControl
  rel : Release
  queueFrame : Bool

/-- The output queue when the call returns. -/
def Reordered.queue (d : Reordered) (skb : Skb) : List Skb :=
  if d.control = .rxContinue ∧ d.queueFrame then d.rel.queue ++ [skb] else d.rel.queue

/-- A frame whose number lies in the window is placed; jiffies is read for its time limit. -/
def reorderPlace (hz jiffies : BitVec 64) (clock : ℕ → BitVec 64) (skb : Skb) (r : Release) :
    Option Reordered :=
  let index := r.tid.slot skb.seq
  if (r.tid.reorderBuf index).isSome then some ⟨.rxDrop, r, true⟩
  else if skb.seq = r.tid.headSeq ∧ r.tid.len = 0 then
    some ⟨.rxContinue, { r with tid := { r.tid with headSeq := snInc skb.seq } }, true⟩
  else
    (reorderStaRelease clock { r with tid := { r.tid with
      reorderBuf := Function.update r.tid.reorderBuf index (some skb)
      reorderTime := Function.update r.tid.reorderTime index (jiffies + hz / 10)
      len := r.tid.len + 1 } }).map fun r => ⟨.rxContinue, r, false⟩

def reorderLocked (hz jiffies : BitVec 64) (clock : ℕ → BitVec 64) (skb : Skb) (r : Release) :
    Option Reordered :=
  if snLess skb.seq r.tid.headSeq then some ⟨.rxDrop, r, true⟩
  else if snLess skb.seq (r.tid.headSeq + r.tid.size) then reorderPlace hz jiffies clock skb r
  else (reorderReleaseFrames r (snInc (snSub skb.seq r.tid.size))).bind
    (reorderPlace hz jiffies clock skb)

/-- The `rx_tid` arrays of the stations, by station and traffic identifier. -/
abbrev RxTids : Type := ℕ × ℕ → Option RxTid

/-- Where a frame is reordered: the buffer `rx_info->sta->rx_tid[get_tid_h(hdr)]`. -/
def Skb.session (skb : Skb) : Option (ℕ × ℕ) :=
  if !isDataQos skb.frameControl || isQosNullfunc skb.frameControl then none
  else skb.cb.sta.map fun sta => (sta, skb.tid)

def RxTids.lookup (tids : RxTids) (skb : Skb) : Option ((ℕ × ℕ) × RxTid) :=
  skb.session.bind fun i => (tids i).map fun tid => (i, tid)

def rxReorderAmpdu (hz jiffies : BitVec 64) (clock : ℕ → BitVec 64) (skb : Skb) (tids : RxTids) :
    Option (RxControl × RxTids × List Skb) :=
  match tids.lookup skb with
  | none => some (.rxContinue, tids, [skb])
  | some (i, tid) => (reorderLocked hz jiffies clock skb ⟨tid, []⟩).map fun d =>
      (d.control, Function.update tids i (some d.rel.tid), d.queue skb)

/-- Expiry of the timer of buffer `i`; `live` is the check for a connected BSS and a station
that still owns the buffer. -/
def reorderTidTimer (live : Bool) (clock : ℕ → BitVec 64) (i : ℕ × ℕ) (tids : RxTids) :
    Option (RxTids × List Skb) :=
  match tids i with
  | none => some (tids, [])
  | some tid =>
      if !live then some (tids, [])
      else (reorderStaRelease clock ⟨tid, []⟩).map fun r =>
        (Function.update tids i (some r.tid), r.queue)

end R92su
