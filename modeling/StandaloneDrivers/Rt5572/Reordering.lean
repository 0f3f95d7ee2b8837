import StandaloneDrivers.Foundations.Circular
import Mathlib.Tactic

/-! The 12-bit sequence-number macros of mlme.h and their circular distances. -/
namespace Rt5572
open Foundations

abbrev maxSeq : ℕ := 0xFFF

/-- `RESET_RCV_SEQ`: no MPDU of the session has been indicated yet. -/
abbrev resetRcvSeq : ℕ := 0xFFFF

def seqStepOne (seq1 seq2 : ℕ) : Bool := seq1 == ((seq2 + 1) &&& maxSeq)

/-- The difference is a C `int`; the mask picks its bit 11. -/
def seqSmaller (seq1 seq2 : ℕ) : Bool :=
  (BitVec.ofInt 32 ((seq1 : ℤ) - seq2) &&& BitVec.ofNat 32 ((maxSeq + 1) >>> 1)) != 0

/-- Steps forward from one sequence number to another. -/
abbrev ahead (a b : ℕ) : ℕ := Circular.ahead 4096 a b

theorem ne_resetRcvSeq {n : ℕ} (h : n < 4096) : n ≠ resetRcvSeq := by
  unfold resetRcvSeq
  omega

theorem and_maxSeq (n : ℕ) : n &&& maxSeq = n % 4096 := Nat.and_two_pow_sub_one_eq_mod n 12

theorem seqStepOne_iff {a b : ℕ} : seqStepOne a b = true ↔ a = (b + 1) % 4096 := by
  simp [seqStepOne, and_maxSeq]

private theorem and_bit11 (x : BitVec 32) : x &&& 0x800#32 = 0 ↔ x.getLsbD 11 = false := by
  constructor
  · intro h
    have hb := congrArg (fun y => y.getLsbD 11) h
    simpa using hb
  · intro h
    have hmask : ∀ j : Fin 32, j.val ≠ 11 → (0x800#32).getLsbD j.val = false := by decide
    apply BitVec.eq_of_getLsbD_eq
    intro i hi
    by_cases h11 : i = 11
    · subst h11
      rw [BitVec.getLsbD_and, h, Bool.false_and]
      rfl
    · rw [BitVec.getLsbD_and, hmask ⟨i, hi⟩ h11, Bool.and_false]
      exact BitVec.getLsbD_zero.symm

theorem seqSmaller_iff_emod {a b : ℕ} :
    seqSmaller a b = true ↔ 2048 ≤ ((a : ℤ) - b) % 4096 := by
  have hbit : seqSmaller a b = true ↔ (BitVec.ofInt 32 ((a : ℤ) - b)).getLsbD 11 = true := by
    rw [← Bool.not_eq_false (BitVec.getLsbD _ _), ← and_bit11]
    exact bne_iff_ne
  rw [hbit]
  simp only [BitVec.getLsbD, BitVec.toNat_ofInt, Nat.testBit, Nat.shiftRight_eq_div_pow]
  simp
  omega

/-- `SEQ_SMALLER` holds when the second number lies 1 to 2048 steps ahead of the first. -/
theorem seqSmaller_iff {a b : ℕ} (ha : a < 4096) (hb : b < 4096) :
    seqSmaller a b = true ↔ 1 ≤ ahead a b ∧ ahead a b ≤ 2048 := by
  rw [seqSmaller_iff_emod]
  simp only [Circular.ahead]
  omega

/-- Seen from a common reference, the comparison of two numbers of its window is the
comparison of their distances. -/
theorem seqSmaller_iff_ahead {l a b : ℕ} (hl : l < 4096) (ha : a < 4096) (hb : b < 4096)
    (hwa : ahead l a < 2048) (hwb : ahead l b < 2048) :
    seqSmaller a b = true ↔ ahead l a < ahead l b := by
  rw [seqSmaller_iff_emod]
  simp only [Circular.ahead] at *
  omega

theorem ahead_lt (a b : ℕ) : ahead a b < 4096 := Nat.mod_lt _ (by norm_num)

theorem ahead_inj {l a b : ℕ} (hl : l < 4096) (ha : a < 4096) (hb : b < 4096)
    (h : ahead l a = ahead l b) : a = b := by
  simp only [Circular.ahead] at h
  omega

/-- Moving the reference forward by `d` shortens the distances of the numbers beyond it. -/
theorem ahead_shift {l l' s d : ℕ} (hl : l < 4096) (hs : s < 4096) (hd : l' = (l + d) % 4096)
    (h : d ≤ ahead l s) : ahead l' s = ahead l s - d := by
  subst hd
  simp only [Circular.ahead] at *
  omega

end Rt5572

/-! The reordering buffer of one recipient Block-Ack session, as ba_action.c computes it. The
block pool is shared with the other sessions, so its free list is part of the state. Lists of
blocks stand for the chains of `next` pointers; each keeps its own `qlen` beside the chain. -/
namespace Rt5572
open Foundations
variable {π : Type} {w : ℕ}

/-- A block of the pool. `id` says which of the allocated blocks it is. -/
structure ReorderingMpdu (π : Type) where
  id : ℕ
  pPacket : Option π
  sequence : Fin 4096
  bAMSDU : Bool
  opMode : ℕ
  deriving DecidableEq, Repr

structure ReorderingList (π : Type) where
  next : List (ReorderingMpdu π)
  qlen : ℕ
  deriving DecidableEq, Repr

/-- The search of `ba_reordering_mpdu_insertsorted`; `none` gives up a duplicated frame. -/
def insertSortedScan (mpdu : ReorderingMpdu π) :
    List (ReorderingMpdu π) → Option (List (ReorderingMpdu π))
  | [] => some [mpdu]
  | m :: rest =>
      if seqSmaller m.sequence mpdu.sequence then
        (insertSortedScan mpdu rest).map (m :: ·)
      else if m.sequence = mpdu.sequence then none
      else some (mpdu :: m :: rest)

def baReorderingMpduInsertsorted (list : ReorderingList π) (mpdu : ReorderingMpdu π) :
    Option (ReorderingList π) :=
  (insertSortedScan mpdu list.next).map fun next => ⟨next, list.qlen + 1⟩

def baEnqueue (list : ReorderingList π) (blk : ReorderingMpdu π) : ReorderingList π :=
  ⟨blk :: list.next, list.qlen + 1⟩

def baDequeue (list : ReorderingList π) : Option (ReorderingMpdu π) × ReorderingList π :=
  if list.qlen = 0 then (none, list)
  else match list.next with
    | [] => (none, ⟨[], list.qlen - 1⟩)
    | blk :: rest => (some blk, ⟨rest, list.qlen - 1⟩)

inductive RecBlockackStatus where
  | none | used | handleRes | accept
  deriving DecidableEq, Repr

structure BaRecEntry (π : Type) (w : ℕ) where
  wcid : ℕ
  tid : ℕ
  baWinSize : ℕ
  lastIndSeq : ℕ
  timeOutValue : ℕ
  lastIndSeqAtTimer : BitVec w
  nDropPacket : ℕ
  rcvSeq : ℕ
  recBaStatus : RecBlockackStatus
  list : ReorderingList π
  deriving DecidableEq

/-- What an observer of a session sees: assignments to `LastIndSeq` and MPDUs passed to the
upper layer. -/
inductive Event (π : Type) where
  | lastIndSeq (v : ℕ)
  | up (sequence : ℕ) (packet : Option π)
  deriving DecidableEq, Repr

structure Session (π : Type) (w : ℕ) where
  entry : BaRecEntry π w
  freelist : ReorderingList π
  trace : List (Event π)
  deriving DecidableEq

/-- The fields of `RX_BLK` that the reordering code reads. `eapToUpper` says whether
`Indicate_EAPOL_Packet` hands the frame on through `Indicate_Legacy_Packet`. -/
structure RxBlk (π : Type) where
  sequence : Fin 4096
  wcid : ℕ
  tid : Fin 8
  dataSize : ℕ
  fRxAMSDU : Bool
  fRxEAP : Bool
  eapToUpper : Bool
  opMode : ℕ
  pRxPacket : π
  deriving DecidableEq

abbrev maxRxPktLen : ℕ := 1520

/-- Such a frame is released before anything else is done. -/
def RxBlk.oversized (rx : RxBlk π) : Bool := !rx.fRxAMSDU && decide (maxRxPktLen < rx.dataSize)

/-- `RTMP_TIME_AFTER`: the signed difference of two tick counters. -/
def timeAfter (a b : BitVec w) : Bool := (b - a).msb

def reorderingPacketTimeout (osHz : ℕ) : BitVec w := BitVec.ofNat w (100 * osHz / 1000)

def maxReorderingPacketTimeout (osHz : ℕ) : ℕ := 3000 * osHz / 1000

def recBaSessionIdleTimeout : BitVec w := BitVec.ofNat w 1000

/-- A plain MPDU of station 1 and TID 0, for runs on fixed frames. -/
def mpdu (sequence : Fin 4096) : RxBlk Unit :=
  ⟨sequence, 1, 0, 100, false, false, false, 0, ()⟩

namespace Session

def setLastIndSeq (s : Session π w) (v : ℕ) : Session π w :=
  { s with entry := { s.entry with lastIndSeq := v }, trace := s.trace ++ [.lastIndSeq v] }

def setTimer (s : Session π w) (now : BitVec w) : Session π w :=
  { s with entry := { s.entry with lastIndSeqAtTimer := now } }

def setList (s : Session π w) (list : ReorderingList π) : Session π w :=
  { s with entry := { s.entry with list := list } }

/-- An MPDU leaves for the upper layer. -/
def passUp (s : Session π w) (sequence : ℕ) (packet : Option π) : Session π w :=
  { s with trace := s.trace ++ [.up sequence packet] }

def announceReorderingPacket (s : Session π w) (mpdu : ReorderingMpdu π) : Session π w :=
  s.passUp mpdu.sequence mpdu.pPacket

/-- The block is zeroed on its way out of the pool. -/
def baMpduBlkAlloc (s : Session π w) : Option (ReorderingMpdu π) × Session π w :=
  let (blk, freelist) := baDequeue s.freelist
  (blk.map fun b => ⟨b.id, none, 0, false, 0⟩, { s with freelist := freelist })

def baMpduBlkFree (s : Session π w) (blk : ReorderingMpdu π) : Session π w :=
  { s with freelist := baEnqueue s.freelist blk }

/-- Rounds of the `while` of `ba_indicate_reordering_mpdus_in_order`. Each takes one block off
the list, so its length bounds them. A block is there whenever the probe saw one. -/
def inOrderLoop : ℕ → Session π w → ℕ → ℕ → Session π w × ℕ
  | 0, s, _, last => (s, last)
  | n + 1, s, startSeq, last =>
      match s.entry.list.next with
      | [] => (s, last)
      | probe :: _ =>
          if seqStepOne probe.sequence startSeq then
            match baDequeue s.entry.list with
            | (none, list) => (s.setList list, last)
            | (some blk, list) =>
                inOrderLoop n (((s.setList list).announceReorderingPacket blk).baMpduBlkFree blk)
                  blk.sequence blk.sequence
          else (s, last)

def baIndicateReorderingMpdusInOrder (s : Session π w) (startSeq : ℕ) : Session π w × ℕ :=
  inOrderLoop s.entry.list.next.length s startSeq resetRcvSeq

def leSeqLoop : ℕ → Session π w → ℕ → Session π w
  | 0, s, _ => s
  | n + 1, s, sequence =>
      match s.entry.list.next with
      | [] => s
      | probe :: _ =>
          if probe.sequence.val = sequence ∨ seqSmaller probe.sequence sequence then
            match baDequeue s.entry.list with
            | (none, list) => s.setList list
            | (some blk, list) =>
                leSeqLoop n (((s.setList list).announceReorderingPacket blk).baMpduBlkFree blk)
                  sequence
          else s

def baIndicateReorderingMpdusLeSeq (s : Session π w) (sequence : ℕ) : Session π w :=
  leSeqLoop s.entry.list.next.length s sequence

def refreshLoop : ℕ → Session π w → Session π w
  | 0, s => s
  | n + 1, s =>
      match baDequeue s.entry.list with
      | (none, list) => s.setList list
      | (some blk, list) =>
          refreshLoop n ((((s.setList list).announceReorderingPacket blk).setLastIndSeq
            blk.sequence).baMpduBlkFree blk)

def baRefreshReorderingMpdus (s : Session π w) : Session π w :=
  (refreshLoop (s.entry.list.next.length + 1) s).setLastIndSeq resetRcvSeq

/-- The three statements that follow a forced move of the window: indicate the frames that
are now in order and let `LastIndSeq` follow them. -/
def indicateInOrder (s : Session π w) (startSeq : ℕ) : Session π w :=
  let (s, last) := s.baIndicateReorderingMpdusInOrder startSeq
  if last ≠ resetRcvSeq then s.setLastIndSeq last else s

def flushAllDue (osHz : ℕ) (s : Session π w) (now32 : BitVec w) : Bool :=
  timeAfter now32 (s.entry.lastIndSeqAtTimer +
    BitVec.ofNat w (maxReorderingPacketTimeout osHz / 6)) && decide (1 < s.entry.list.qlen)

def flushOneDue (osHz : ℕ) (s : Session π w) (now32 : BitVec w) : Bool :=
  timeAfter now32 (s.entry.lastIndSeqAtTimer + reorderingPacketTimeout osHz) &&
    decide (0 < s.entry.list.qlen)

def baFlushReorderingTimeoutMpdus (osHz : ℕ) (s : Session π w) (now32 : BitVec w) :
    Session π w :=
  if s.entry.list.qlen = 0 then s
  else if flushAllDue osHz s now32 then s.baRefreshReorderingMpdus.setTimer now32
  else if flushOneDue osHz s now32 then
    let sequence := (s.entry.lastIndSeq + 1) &&& maxSeq
    (((s.baIndicateReorderingMpdusLeSeq sequence).setTimer now32).setLastIndSeq
      sequence).indicateInOrder sequence
  else s

/-- `Indicate_Legacy_Packet` looks at the timeout of the session once more, with the clock read
again, before it passes the frame on. -/
def indicateLegacyPacket (osHz : ℕ) (s : Session π w) (rx : RxBlk π) (now32 : BitVec w) :
    Session π w :=
  let s := if flushOneDue osHz s now32 then baFlushReorderingTimeoutMpdus osHz s now32 else s
  s.passUp rx.sequence (some rx.pRxPacket)

def indicateLegacyOrAmsdu (osHz : ℕ) (s : Session π w) (rx : RxBlk π) (now32 : BitVec w) :
    Session π w :=
  if rx.fRxAMSDU then s.passUp rx.sequence (some rx.pRxPacket)
  else if rx.fRxEAP && !rx.eapToUpper then s.passUp rx.sequence (some rx.pRxPacket)
  else indicateLegacyPacket osHz s rx now32

def baEnqueueReorderingPacket (osHz : ℕ) (s : Session π w) (rx : RxBlk π) (now32 : BitVec w) :
    Session π w :=
  match s.baMpduBlkAlloc with
  | (some blk, s) =>
      if rx.fRxEAP then
        -- The allocated block is not given back on this path.
        bypass s
      else
        let blk := { blk with
          sequence := rx.sequence, opMode := rx.opMode, bAMSDU := rx.fRxAMSDU
          pPacket := some rx.pRxPacket }
        match baReorderingMpduInsertsorted s.entry.list blk with
        | some list => s.setList list
        | none => s.baMpduBlkFree blk
  | (none, s) => bypass s
where
  bypass (s : Session π w) : Session π w :=
    ((s.baIndicateReorderingMpdusLeSeq rx.sequence).setLastIndSeq
      rx.sequence).indicateLegacyOrAmsdu osHz rx now32

/-- `Indicate_AMPDU_Packet` up to the tests of the sequence number: the time-outs are served at
the first reading of the clock. -/
def openingFlush (osHz : ℕ) (s : Session π w) (rx : RxBlk π) (now32 : BitVec w) : Session π w :=
  (baFlushReorderingTimeoutMpdus osHz { s with entry := { s.entry with rcvSeq := rx.sequence } }
    now32).setTimer now32

def winStartSeq (sequence baWinSize : ℕ) : ℕ :=
  let tmpSeq : ℤ := (sequence : ℤ) - baWinSize - 1
  let tmpSeq := if tmpSeq < 0 then maxSeq + 1 + tmpSeq else tmpSeq
  (tmpSeq + 1).toNat &&& maxSeq

def dropPacket (s : Session π w) : Session π w :=
  { s with entry := { s.entry with nDropPacket := s.entry.nDropPacket + 1 } }

/-- The tests of the sequence number, in the order of the source. `now32` is the reading of the
clock at the start of the call, `now32'` the one of `Indicate_Legacy_Packet`. -/
def indicateBySequence (osHz : ℕ) (s : Session π w) (rx : RxBlk π) (now32 now32' : BitVec w) :
    Session π w :=
  let last := s.entry.lastIndSeq
  if last = resetRcvSeq then
    ((s.setLastIndSeq rx.sequence).setTimer now32).indicateLegacyOrAmsdu osHz rx now32'
  else if seqStepOne rx.sequence last then
    let s := (s.setLastIndSeq rx.sequence).indicateLegacyOrAmsdu osHz rx now32'
    (s.indicateInOrder s.entry.lastIndSeq).setTimer now32
  else if rx.sequence.val = last then s.dropPacket
  else if seqSmaller rx.sequence last then s.dropPacket
  else if seqSmaller rx.sequence ((last + s.entry.baWinSize + 1) &&& maxSeq) then
    s.baEnqueueReorderingPacket osHz rx now32'
  else
    let winStart := winStartSeq rx.sequence s.entry.baWinSize
    let s := ((s.baIndicateReorderingMpdusLeSeq winStart).setLastIndSeq winStart).setTimer now32
    let s := s.baEnqueueReorderingPacket osHz rx now32'
    s.indicateInOrder s.entry.lastIndSeq

def indicateAmpdu (osHz : ℕ) (s : Session π w) (rx : RxBlk π) (now32 now32' : BitVec w) :
    Session π w :=
  (s.openingFlush osHz rx now32).indicateBySequence osHz rx now32 now32'

/-- `Indicate_AMPDU_Packet` for a frame of an established session. -/
def indicateAmpduPacket (osHz : ℕ) (s : Session π w) (rx : RxBlk π) (now32 now32' : BitVec w) :
    Session π w :=
  if rx.oversized then s else s.indicateAmpdu osHz rx now32 now32'

/-- `CntlEnqueueForRecv` once the frame has been matched to its session. -/
def cntlEnqueueForRecv (s : Session π w) (startSeq : Fin 4096) : Session π w :=
  if seqSmaller s.entry.lastIndSeq startSeq then
    (s.baIndicateReorderingMpdusLeSeq startSeq).setLastIndSeq
      (if startSeq.val = 0 then maxSeq else startSeq.val - 1)
  else s

def baRecSessionIdleTimeout (s : Session π w) (now32 : BitVec w) : Session π w :=
  if s.entry.recBaStatus = .accept ∧
      timeAfter now32 (s.entry.lastIndSeqAtTimer + recBaSessionIdleTimeout) then
    s.baRefreshReorderingMpdus
  else s

end Session

/-- The window `BARecSessionAdd` grants: the smaller of the request and the own limit as bytes,
64 for zero. -/
def recBaWinSize (bufSize rxBaWinLimit : ℕ) : ℕ :=
  let size := min (bufSize % 256) (rxBaWinLimit % 256)
  if size = 0 then 64 else size

/-- The entry fields `BARecSessionAdd` writes. -/
def Session.openEntry (s : Session π w) (wcid tid bufSize rxBaWinLimit timeOutValue : ℕ) :
    Session π w :=
  ({ s with entry := { s.entry with
      baWinSize := recBaWinSize bufSize rxBaWinLimit
      wcid := wcid, tid := tid, timeOutValue := timeOutValue
      recBaStatus := .accept } }).setLastIndSeq resetRcvSeq

end Rt5572
