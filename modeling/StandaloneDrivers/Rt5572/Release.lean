import StandaloneDrivers.Rt5572.Window

/-! Closed forms of the loops that take blocks off the reordering list: each hands up the first
`k` blocks and gives them back to the pool, for some `k` that the loop's test determines. -/
namespace Rt5572
open Foundations
variable {π : Type} {w : ℕ}

namespace ReorderingList

/-- The counter agrees with the chain. -/
def Counted (list : ReorderingList π) : Prop := list.qlen = list.next.length

theorem Counted.enqueue {list : ReorderingList π} (h : list.Counted) (blk : ReorderingMpdu π) :
    (baEnqueue list blk).Counted := by
  simpa [Counted, baEnqueue] using h

theorem baDequeue_cons {list : ReorderingList π} (h : list.Counted) {blk : ReorderingMpdu π}
    {rest : List (ReorderingMpdu π)} (hn : list.next = blk :: rest) :
    baDequeue list = (some blk, ⟨rest, list.qlen - 1⟩) := by
  have hq : list.qlen ≠ 0 := by
    rw [Counted, hn, List.length_cons] at h
    omega
  simp [baDequeue, hn, hq]

theorem baDequeue_nil {list : ReorderingList π} (h : list.Counted) (hn : list.next = []) :
    baDequeue list = (none, list) := by
  have hq : list.qlen = 0 := by rw [h, hn, List.length_nil]
  simp [baDequeue, hq]

end ReorderingList

namespace Session
open ReorderingList

/-- The first `k` blocks of the list leave. -/
def release (s : Session π w) (k : ℕ) : Session π w where
  entry := { s.entry with
    list := ⟨s.entry.list.next.drop k, s.entry.list.qlen - (s.entry.list.next.take k).length⟩ }
  freelist :=
    { next := (s.entry.list.next.take k).reverse ++ s.freelist.next
      qlen := s.freelist.qlen + (s.entry.list.next.take k).length }
  trace := s.trace ++ (s.entry.list.next.take k).map fun m => .up m.sequence m.pPacket

theorem release_zero (s : Session π w) : s.release 0 = s := by
  simp [release]

theorem counted_release {s : Session π w} (h : s.entry.list.Counted) (k : ℕ) :
    (s.release k).entry.list.Counted := by
  simp only [Counted, release, List.length_drop, List.length_take] at *
  omega

/-- One round of a loop hands up the first block. -/
theorem release_one {s : Session π w} {blk : ReorderingMpdu π} {rest : List (ReorderingMpdu π)}
    (hn : s.entry.list.next = blk :: rest) :
    ((s.setList ⟨rest, s.entry.list.qlen - 1⟩).announceReorderingPacket blk).baMpduBlkFree blk =
      s.release 1 := by
  simp [release, hn, setList, announceReorderingPacket, passUp, baMpduBlkFree, baEnqueue]

theorem release_succ {s : Session π w} {blk : ReorderingMpdu π} {rest : List (ReorderingMpdu π)}
    (hn : s.entry.list.next = blk :: rest) (k : ℕ) :
    (s.release 1).release k = s.release (k + 1) := by
  simp only [release, hn, List.drop_succ_cons, List.drop_zero, List.take_succ_cons,
    List.take_zero, List.length_cons, List.length_nil, List.reverse_cons, List.reverse_nil,
    List.nil_append, List.append_assoc, List.cons_append, List.map_cons, List.map_nil, zero_add,
    Nat.sub_sub, Nat.add_assoc, Nat.add_comm 1]

theorem next_release_one {s : Session π w} {blk : ReorderingMpdu π}
    {rest : List (ReorderingMpdu π)} (hn : s.entry.list.next = blk :: rest) :
    (s.release 1).entry.list.next = rest := by
  simp [release, hn]

theorem leSeqLoop_eq {sequence : ℕ} {n : ℕ} {s : Session π w} (hc : s.entry.list.Counted)
    (hn : s.entry.list.next.length ≤ n) :
    leSeqLoop n s sequence =
      s.release (s.entry.list.next.takeWhile (leTest sequence)).length := by
  induction n generalizing s with
  | zero =>
    have hnil : s.entry.list.next = [] := List.length_eq_zero_iff.mp (by omega)
    rw [leSeqLoop, hnil, List.takeWhile_nil, List.length_nil, release_zero]
  | succ n ih =>
    cases hl : s.entry.list.next with
    | nil => simp only [leSeqLoop, hl, List.takeWhile_nil, List.length_nil, release_zero]
    | cons blk rest =>
      by_cases ht : leTest sequence blk = true
      · have hrec := ih (counted_release hc 1) (by
          rw [next_release_one hl]
          rw [hl, List.length_cons] at hn
          omega)
        simp only [leSeqLoop, hl, of_decide_eq_true ht, ↓reduceIte, baDequeue_cons hc hl,
          release_one hl, hrec, next_release_one hl, release_succ hl,
          List.takeWhile_cons_of_pos ht, List.length_cons]
      · simp only [leSeqLoop, hl, of_decide_eq_false (Bool.not_eq_true _ ▸ ht), ↓reduceIte,
          List.takeWhile_cons_of_neg ht, List.length_nil, release_zero]

theorem baIndicateReorderingMpdusLeSeq_eq {s : Session π w} (hc : s.entry.list.Counted)
    (sequence : ℕ) : s.baIndicateReorderingMpdusLeSeq sequence =
      s.release (s.entry.list.next.takeWhile (leTest sequence)).length :=
  leSeqLoop_eq hc le_rfl

theorem inOrderLoop_eq {n : ℕ} {s : Session π w} (hc : s.entry.list.Counted)
    (hn : s.entry.list.next.length ≤ n) (startSeq last : ℕ) :
    inOrderLoop n s startSeq last =
      (s.release (consecutive startSeq s.entry.list.next).length,
        ((consecutive startSeq s.entry.list.next).getLast?.map (·.sequence.val)).getD last) := by
  induction n generalizing s startSeq last with
  | zero =>
    have hnil : s.entry.list.next = [] := List.length_eq_zero_iff.mp (by omega)
    simp [inOrderLoop, hnil, consecutive, release_zero]
  | succ n ih =>
    cases hl : s.entry.list.next with
    | nil => simp [inOrderLoop, hl, consecutive, release_zero]
    | cons blk rest =>
      by_cases ht : seqStepOne blk.sequence startSeq = true
      · have hrec := ih (counted_release hc 1) (by
          rw [next_release_one hl]
          rw [hl, List.length_cons] at hn
          omega) blk.sequence blk.sequence
        simp only [inOrderLoop, hl, ht, ↓reduceIte, baDequeue_cons hc hl, release_one hl, hrec,
          next_release_one hl, release_succ hl, consecutive, List.length_cons]
        cases consecutive blk.sequence.val rest with
        | nil => simp
        | cons x xs => simp [List.getLast?_cons]
      · simp [inOrderLoop, hl, ht, consecutive, release_zero]

/-- In-order indication: the run of consecutive blocks leaves and `LastIndSeq` follows it. -/
theorem indicateInOrder_eq {s : Session π w} (hc : s.entry.list.Counted) (startSeq : ℕ) :
    s.indicateInOrder startSeq =
      match (consecutive startSeq s.entry.list.next).getLast? with
      | none => s
      | some m =>
          (s.release (consecutive startSeq s.entry.list.next).length).setLastIndSeq m.sequence := by
  rw [indicateInOrder, baIndicateReorderingMpdusInOrder, inOrderLoop_eq hc le_rfl]
  cases h : (consecutive startSeq s.entry.list.next).getLast? with
  | none =>
    rw [List.getLast?_eq_none_iff.mp h]
    simp [release_zero]
  | some m =>
    simp [ne_resetRcvSeq m.sequence.isLt]

theorem refreshLoop_eq {n : ℕ} {s : Session π w} (hc : s.entry.list.Counted)
    (hn : s.entry.list.next.length < n) :
    refreshLoop n s =
      { s.release s.entry.list.next.length with
        entry := { s.entry with
          list := ⟨[], 0⟩
          lastIndSeq :=
            (s.entry.list.next.getLast?.map (·.sequence.val)).getD s.entry.lastIndSeq }
        trace := s.trace ++ s.entry.list.next.flatMap fun m =>
          [.up m.sequence m.pPacket, .lastIndSeq m.sequence] } := by
  induction n generalizing s with
  | zero => omega
  | succ n ih =>
    cases hl : s.entry.list.next with
    | nil =>
      have hlist : s.entry.list = ⟨[], 0⟩ := by
        have hq : s.entry.list.qlen = 0 := by rw [hc, hl, List.length_nil]
        exact congrArg₂ ReorderingList.mk hl hq
      simp only [refreshLoop, baDequeue_nil hc hl, setList, List.length_nil, release_zero,
        List.getLast?_nil, Option.map_none, Option.getD_none, List.flatMap_nil, List.append_nil]
      rw [hlist]
    | cons blk rest =>
      set s' := (((s.setList ⟨rest, s.entry.list.qlen - 1⟩).announceReorderingPacket
        blk).setLastIndSeq blk.sequence).baMpduBlkFree blk with hs'
      have hc' : s'.entry.list.Counted := by
        simp only [Counted, hl, List.length_cons] at hc
        simp only [hs', Counted, baMpduBlkFree, setLastIndSeq, announceReorderingPacket, passUp,
          setList]
        omega
      have hrec := ih (s := s') hc' (by
        rw [hl, List.length_cons] at hn
        simp only [hs', baMpduBlkFree, setLastIndSeq, announceReorderingPacket, passUp, setList]
        omega)
      simp only [refreshLoop, baDequeue_cons hc hl]
      rw [← hs', hrec]
      simp [hs', release, hl, baMpduBlkFree, setLastIndSeq, announceReorderingPacket, passUp,
        setList, baEnqueue, List.getLast?_cons, Nat.add_assoc, Nat.add_comm 1]

theorem baRefreshReorderingMpdus_eq {s : Session π w} (hc : s.entry.list.Counted) :
    s.baRefreshReorderingMpdus =
      { s.release s.entry.list.next.length with
        entry := { s.entry with list := ⟨[], 0⟩, lastIndSeq := resetRcvSeq }
        trace := s.trace ++ (s.entry.list.next.flatMap fun m =>
          [.up m.sequence m.pPacket, .lastIndSeq m.sequence]) ++ [.lastIndSeq resetRcvSeq] } := by
  rw [baRefreshReorderingMpdus, refreshLoop_eq hc (Nat.lt_succ_self _)]
  rfl

end Session
end Rt5572
