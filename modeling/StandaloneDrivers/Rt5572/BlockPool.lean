import StandaloneDrivers.Rt5572.Release
import StandaloneDrivers.Rt5572.TableConsistency

/-! Where the blocks of the reordering pool are: on the free list or on the reordering list of a
session, and nowhere else. -/
namespace Rt5572
open Foundations ReorderingList
variable {π : Type} {w : ℕ}

def ReorderingList.ids (list : ReorderingList π) : Multiset ℕ := (list.next.map (·.id) : List ℕ)

/-- The blocks of a list and of the free list, with both counters right. -/
structure Pooled (blocks : Multiset ℕ) (list freelist : ReorderingList π) : Prop where
  counted : list.Counted
  free : freelist.Counted
  blocks : freelist.ids + list.ids = blocks

theorem insertSortedScan_perm {mpdu : ReorderingMpdu π} {ms ms' : List (ReorderingMpdu π)}
    (h : insertSortedScan mpdu ms = some ms') : ms'.Perm (mpdu :: ms) := by
  induction ms generalizing ms' with
  | nil =>
    rw [insertSortedScan, Option.some_inj] at h
    rw [h]
  | cons m ms ih =>
    rw [insertSortedScan] at h
    split_ifs at h
    · obtain ⟨rest, hrest, rfl⟩ := Option.map_eq_some_iff.mp h
      exact ((ih hrest).cons m).trans (List.Perm.swap _ _ _)
    · rw [Option.some_inj] at h
      rw [h]

theorem baDequeue_cases {list : ReorderingList π} (h : list.Counted) :
    baDequeue list = (none, list) ∨ ∃ blk rest, list.next = blk :: rest ∧
      baDequeue list = (some blk, ⟨rest, rest.length⟩) := by
  cases hn : list.next with
  | nil => exact Or.inl (baDequeue_nil h hn)
  | cons blk rest =>
    refine Or.inr ⟨blk, rest, rfl, ?_⟩
    rw [baDequeue_cons h hn, h, hn, List.length_cons, Nat.add_sub_cancel]

namespace Session
variable {b : Multiset ℕ}

abbrev Pooled (b : Multiset ℕ) (s : Session π w) : Prop :=
  Rt5572.Pooled b s.entry.list s.freelist

theorem pooled_release {s : Session π w} (h : s.Pooled b) (k : ℕ) : (s.release k).Pooled b := by
  refine ⟨counted_release h.counted k, ?_, ?_⟩
  · have := h.free
    simp only [Counted, release, List.length_append, List.length_reverse] at this ⊢
    omega
  · have hperm : ((s.entry.list.next.take k).reverse ++ s.freelist.next ++
        s.entry.list.next.drop k).Perm (s.freelist.next ++ s.entry.list.next) := by
      rw [List.append_assoc]
      refine ((List.reverse_perm _).append_right _).trans ?_
      rw [← List.append_assoc]
      refine (List.perm_append_comm.append_right _).trans ?_
      rw [List.append_assoc, List.take_append_drop]
    have hids := Multiset.coe_eq_coe.mpr (hperm.map (·.id))
    simp only [List.map_append, ← Multiset.coe_add] at hids
    rw [← h.blocks]
    simpa only [release, ids, List.map_append, ← Multiset.coe_add] using hids

theorem pooled_setLastIndSeq {s : Session π w} (h : s.Pooled b) (v : ℕ) :
    (s.setLastIndSeq v).Pooled b := h

theorem pooled_setTimer {s : Session π w} (h : s.Pooled b) (now32 : BitVec w) :
    (s.setTimer now32).Pooled b := h

theorem pooled_inOrder {s : Session π w} (h : s.Pooled b) (startSeq : ℕ) :
    (s.indicateInOrder startSeq).Pooled b := by
  rw [indicateInOrder_eq h.counted]
  split
  · exact h
  · exact pooled_release h _

theorem pooled_leSeq {s : Session π w} (h : s.Pooled b) (sequence : ℕ) :
    (s.baIndicateReorderingMpdusLeSeq sequence).Pooled b := by
  rw [baIndicateReorderingMpdusLeSeq_eq h.counted]
  exact pooled_release h _

theorem pooled_refresh {s : Session π w} (h : s.Pooled b) :
    s.baRefreshReorderingMpdus.Pooled b := by
  have hr := pooled_release h s.entry.list.next.length
  rw [baRefreshReorderingMpdus_eq h.counted]
  refine ⟨rfl, hr.free, ?_⟩
  rw [← hr.blocks]
  simp [release, ids]

theorem pooled_flush {s : Session π w} (h : s.Pooled b) (osHz : ℕ) (now32 : BitVec w) :
    (s.baFlushReorderingTimeoutMpdus osHz now32).Pooled b := by
  unfold baFlushReorderingTimeoutMpdus
  split_ifs
  · exact h
  · exact pooled_refresh h
  · exact pooled_inOrder (pooled_setLastIndSeq (pooled_setTimer (pooled_leSeq h _) _) _) _
  · exact h

theorem pooled_legacyOrAmsdu {osHz : ℕ} {s : Session π w} (h : s.Pooled b) (rx : RxBlk π)
    (now32 : BitVec w) : (s.indicateLegacyOrAmsdu osHz rx now32).Pooled b := by
  unfold indicateLegacyOrAmsdu indicateLegacyPacket
  split_ifs
  · exact h
  · exact h
  · exact pooled_flush h osHz now32
  · exact h

theorem pooled_bypass {osHz : ℕ} {s : Session π w} (h : s.Pooled b) (rx : RxBlk π)
    (now32 : BitVec w) : (baEnqueueReorderingPacket.bypass osHz rx now32 s).Pooled b :=
  pooled_legacyOrAmsdu (pooled_setLastIndSeq (pooled_leSeq h rx.sequence) _) rx now32

/-- An EAPOL frame that finds a free block takes it and never gives it back. -/
def LeaksBlock (s : Session π w) (rx : RxBlk π) : Prop :=
  rx.fRxEAP = true ∧ (baDequeue s.freelist).1 ≠ none

theorem pooled_enqueue {osHz : ℕ} {s : Session π w} (h : s.Pooled b) (rx : RxBlk π)
    (now32 : BitVec w) (hok : ¬ s.LeaksBlock rx) :
    (s.baEnqueueReorderingPacket osHz rx now32).Pooled b := by
  unfold baEnqueueReorderingPacket
  rcases baDequeue_cases h.free with hd | ⟨blk, rest, hn, hd⟩
  · have halloc : s.baMpduBlkAlloc = (none, s) := by
      rw [baMpduBlkAlloc, hd]
      rfl
    rw [halloc]
    exact pooled_bypass h rx now32
  · have halloc : s.baMpduBlkAlloc =
        (some ⟨blk.id, none, 0, false, 0⟩, { s with freelist := ⟨rest, rest.length⟩ }) := by
      rw [baMpduBlkAlloc, hd]
      rfl
    have heap : ¬ rx.fRxEAP = true := fun he =>
      hok ⟨he, by rw [hd]; exact Option.some_ne_none _⟩
    have hids : s.freelist.ids = blk.id ::ₘ (rest.map (·.id) : List ℕ) := by
      rw [ids, hn]
      rfl
    rw [halloc]
    dsimp only
    rw [if_neg heap]
    split
    · rename_i list hins
      obtain ⟨next, hnext, rfl⟩ := Option.map_eq_some_iff.mp hins
      have hperm := insertSortedScan_perm hnext
      refine ⟨?_, rfl, ?_⟩
      · have hlen := hperm.length_eq
        have hc := h.counted
        simp only [Counted, setList, List.length_cons] at hlen hc ⊢
        omega
      · have hnew : (next.map (·.id) : Multiset ℕ) = blk.id ::ₘ s.entry.list.ids :=
          Multiset.coe_eq_coe.mpr (hperm.map (·.id))
        rw [← h.blocks, hids]
        show (rest.map (·.id) : Multiset ℕ) + (next.map (·.id) : Multiset ℕ) = _
        rw [hnew, Multiset.add_cons, Multiset.cons_add]
    · refine ⟨h.counted, ?_, ?_⟩
      · simp [Counted, baMpduBlkFree, baEnqueue]
      · rw [← h.blocks, hids]
        rfl

/-- The session as `ba_enqueue_reordering_packet` finds it, if the frame gets that far. -/
def atEnqueue (s : Session π w) (rx : RxBlk π) : Option (Session π w) :=
  let last := s.entry.lastIndSeq
  if last = resetRcvSeq ∨ seqStepOne rx.sequence last = true ∨ rx.sequence.val = last ∨
      seqSmaller rx.sequence last = true then none
  else if seqSmaller rx.sequence ((last + s.entry.baWinSize + 1) &&& maxSeq) then some s
  else some (s.baIndicateReorderingMpdusLeSeq (winStartSeq rx.sequence s.entry.baWinSize))

theorem pooled_indicateBySequence {osHz : ℕ} {s : Session π w} (h : s.Pooled b) (rx : RxBlk π)
    (now32 now32' : BitVec w) (hok : ∀ t, s.atEnqueue rx = some t → ¬ t.LeaksBlock rx) :
    (s.indicateBySequence osHz rx now32 now32').Pooled b := by
  unfold indicateBySequence
  dsimp only
  split_ifs with hreset hstep hlast hold hwin
  · exact pooled_legacyOrAmsdu (pooled_setTimer (pooled_setLastIndSeq h _) _) rx now32'
  · exact pooled_setTimer
      (pooled_inOrder (pooled_legacyOrAmsdu (pooled_setLastIndSeq h _) rx now32') _) _
  · exact h
  · exact h
  · refine pooled_enqueue h rx now32' (hok s ?_)
    simp [atEnqueue, hreset, hstep, hlast, hold, hwin]
  · refine pooled_inOrder (pooled_enqueue
      (pooled_setTimer (pooled_setLastIndSeq (pooled_leSeq h _) _) _) rx now32' ?_) _
    refine hok (s.baIndicateReorderingMpdusLeSeq (winStartSeq rx.sequence s.entry.baWinSize)) ?_
    simp [atEnqueue, hreset, hstep, hlast, hold, hwin]

theorem pooled_cntlEnqueueForRecv {s : Session π w} (h : s.Pooled b) (startSeq : Fin 4096) :
    (s.cntlEnqueueForRecv startSeq).Pooled b := by
  unfold Session.cntlEnqueueForRecv
  split_ifs
  · exact pooled_leSeq h _
  · exact pooled_leSeq h _
  · exact h

theorem pooled_idle {s : Session π w} (h : s.Pooled b) (now32 : BitVec w) :
    (s.baRecSessionIdleTimeout now32).Pooled b := by
  unfold baRecSessionIdleTimeout
  split_ifs
  · exact pooled_refresh h
  · exact h

end Session

namespace Adapter

/-- Each of the `num` blocks is in one place, and the counters agree with the lists. -/
structure BlocksPlaced (num : ℕ) (a : Adapter π w) : Prop where
  placed : a.freelist.ids + ∑ i ∈ Finset.range maxLenOfBaRecTable, (a.baRecEntry i).list.ids =
    Multiset.range num
  free : a.freelist.qlen = a.freelist.next.length
  lists : ∀ i < maxLenOfBaRecTable,
    (a.baRecEntry i).list.qlen = (a.baRecEntry i).list.next.length
  total : a.freelist.qlen +
    ∑ i ∈ Finset.range maxLenOfBaRecTable, (a.baRecEntry i).list.qlen = num

/-- The counters follow from the places. -/
theorem BlocksPlaced.of_placed {num : ℕ} {a : Adapter π w}
    (hp : a.freelist.ids + ∑ i ∈ Finset.range maxLenOfBaRecTable, (a.baRecEntry i).list.ids =
      Multiset.range num) (hf : a.freelist.Counted)
    (hl : ∀ i < maxLenOfBaRecTable, (a.baRecEntry i).list.Counted) : a.BlocksPlaced num := by
  have hcard := congrArg Multiset.card hp
  have hids : ∀ list : ReorderingList π, Multiset.card list.ids = list.next.length := fun list => by
    simp [ids]
  rw [Multiset.card_add, Multiset.card_sum, Multiset.card_range, hids] at hcard
  refine ⟨hp, hf, hl, ?_⟩
  rw [hf, ← hcard]
  exact congrArg (a.freelist.next.length + ·) (Finset.sum_congr rfl fun i hi => by
    rw [hl i (Finset.mem_range.mp hi), hids])

/-- Nothing has moved. -/
theorem BlocksPlaced.congr {num : ℕ} {a b : Adapter π w} (h : a.BlocksPlaced num)
    (hf : b.freelist = a.freelist)
    (hl : ∀ i, (b.baRecEntry i).list = (a.baRecEntry i).list) : b.BlocksPlaced num := by
  refine of_placed ?_ (hf ▸ h.free) fun i hi => (hl i).symm ▸ h.lists i hi
  simp only [hf, hl]
  exact h.placed

/-- Blocks move between the free list and one list only. -/
theorem BlocksPlaced.onSession {num : ℕ} {a : Adapter π w} (h : a.BlocksPlaced num) {idx : ℕ}
    (hidx : idx < maxLenOfBaRecTable) {f : Session π w → Session π w}
    (hf : ∀ b, (Session.mk (a.baRecEntry idx) a.freelist []).Pooled b →
      (f ⟨a.baRecEntry idx, a.freelist, []⟩).Pooled b) : (a.onSession idx f).BlocksPlaced num := by
  have hpool := hf _ ⟨h.lists idx hidx, h.free, rfl⟩
  set s := f ⟨a.baRecEntry idx, a.freelist, []⟩ with hs
  have hentry : ∀ i, (a.onSession idx f).baRecEntry i =
      if i = idx then s.entry else a.baRecEntry i := fun i => by
    simp only [Adapter.onSession, setRec, Function.update_apply]
    rfl
  have hmem := Finset.mem_range.mpr hidx
  refine of_placed ?_ hpool.free fun i hi => ?_
  · have hrest : ∑ i ∈ (Finset.range maxLenOfBaRecTable).erase idx,
        ((a.onSession idx f).baRecEntry i).list.ids =
          ∑ i ∈ (Finset.range maxLenOfBaRecTable).erase idx, (a.baRecEntry i).list.ids :=
      Finset.sum_congr rfl fun i hi => by rw [hentry, if_neg (Finset.ne_of_mem_erase hi)]
    rw [← Finset.add_sum_erase _ _ hmem, hrest, hentry, if_pos rfl, ← add_assoc, ← h.placed,
      ← Finset.add_sum_erase _ (fun i => (a.baRecEntry i).list.ids) hmem, ← add_assoc]
    exact congrArg (· + _) hpool.blocks
  · rw [hentry]
    split_ifs
    · exact hpool.counted
    · exact h.lists i hi

/-- The invariant of a run: the table leads to entries that exist, and the blocks are placed. -/
structure Kept (num : ℕ) (a : Adapter π w) : Prop where
  table : a.Consistent
  blocks : a.BlocksPlaced num

theorem Kept.idx_lt {num : ℕ} {a : Adapter π w} (h : a.Kept num) {wcid tid : ℕ}
    (hw : wcid < maxLenOfMacTable) (ht : tid < numOfTid) :
    (a.macTab wcid).baRecWcidArray tid < maxLenOfBaRecTable :=
  h.table.recv.range (k := (wcid, tid)) ⟨hw, ht⟩

theorem blocks_freeOri {num : ℕ} {a : Adapter π w} (h : a.BlocksPlaced num) (idx : ℕ) :
    (a.baTableFreeOriEntry idx).BlocksPlaced num := by
  unfold baTableFreeOriEntry
  by_cases hidx : idx = 0 ∨ maxLenOfBaOriTable ≤ idx
  · rwa [if_pos hidx]
  by_cases huse : (a.baOriEntry idx).oriBaStatus ≠ .none
  · rw [if_neg hidx, if_pos huse]
    exact h.congr rfl fun _ => rfl
  · rwa [if_neg hidx, if_neg huse]

/-- Writing an entry without touching its list. -/
theorem list_update {entries : ℕ → BaRecEntry π w} {idx : ℕ} {e : BaRecEntry π w}
    (he : e.list = (entries idx).list) (i : ℕ) :
    (Function.update entries idx e i).list = (entries i).list := by
  rw [Function.update_apply]
  split_ifs with hi
  · rw [hi, he]
  · rfl

theorem blocks_freeRec {num : ℕ} {a : Adapter π w} (h : a.BlocksPlaced num) (idx : ℕ) :
    (a.baTableFreeRecEntry idx).BlocksPlaced num := by
  unfold baTableFreeRecEntry
  by_cases hidx : idx = 0 ∨ maxLenOfBaRecTable ≤ idx
  · rwa [if_pos hidx]
  by_cases huse : (a.baRecEntry idx).recBaStatus ≠ .none
  · rw [if_neg hidx, if_pos huse]
    exact h.congr rfl (list_update rfl)
  · rwa [if_neg hidx, if_neg huse]

theorem blocks_oriTearDown {num : ℕ} {a : Adapter π w} (h : a.BlocksPlaced num) (wcid tid : ℕ)
    (passive allocOk : Bool) :
    (a.baOriSessionTearDown wcid tid passive allocOk).BlocksPlaced num := by
  unfold baOriSessionTearDown
  dsimp only
  split_ifs
  · exact h
  · exact h
  · exact h
  · exact blocks_freeOri h _

theorem blocks_recTearDown {num : ℕ} {a : Adapter π w} (h : a.Kept num) (wcid : ℕ) (tid : Fin 8)
    (passive allocOk : Bool) :
    (a.baRecSessionTearDown wcid tid passive allocOk).BlocksPlaced num := by
  unfold baRecSessionTearDown
  by_cases hw : maxLenOfMacTable ≤ wcid
  · rw [if_pos hw]
    exact h.blocks
  rw [if_neg hw]
  dsimp only
  split_ifs
  · exact h.blocks
  · exact h.blocks
  · apply blocks_freeRec
    have hr := h.blocks.onSession (h.idx_lt (not_le.mp hw) tid.isLt)
      fun _ hp => Session.pooled_refresh hp
    exact hr.congr rfl (list_update rfl)
  · exact blocks_freeRec h.blocks _

theorem blocks_setUp {num : ℕ} {a : Adapter π w} (h : a.BlocksPlaced num)
    (wcid tid timeOut txSeq : ℕ) (isForced ht : Bool) :
    (a.baOriSessionSetUp wcid tid timeOut txSeq isForced ht).BlocksPlaced num := by
  have halloc : ∀ idx, (a.baTableAllocOriEntry idx).2.2.BlocksPlaced num := fun idx => by
    unfold baTableAllocOriEntry
    split_ifs
    · exact h
    · split
      · exact h.congr rfl fun _ => rfl
      · exact h
  have hentry : (if (a.macTab wcid).baOriWcidArray tid = 0 then
      a.baTableAllocOriEntry ((a.macTab wcid).baOriWcidArray tid)
      else (some ((a.macTab wcid).baOriWcidArray tid), (a.macTab wcid).baOriWcidArray tid,
        a)).2.2.BlocksPlaced num := by
    split_ifs
    · exact halloc _
    · exact h
  unfold baOriSessionSetUp
  by_cases hauto : a.cfg.autoBA = false ∧ isForced = false
  · rwa [if_pos hauto]
  by_cases hht : ht = false
  · rwa [if_neg hauto, if_pos hht]
  rw [if_neg hauto, if_neg hht]
  dsimp only
  generalize (if (a.macTab wcid).baOriWcidArray tid = 0 then
      a.baTableAllocOriEntry ((a.macTab wcid).baOriWcidArray tid)
      else (some ((a.macTab wcid).baOriWcidArray tid), (a.macTab wcid).baOriWcidArray tid,
        a)) = found at hentry ⊢
  obtain ⟨p, idx, a'⟩ := found
  cases p with
  | none => exact hentry
  | some p =>
    dsimp only
    split_ifs
    · exact hentry
    · exact hentry.congr rfl fun _ => rfl

theorem blocks_oriAdd {num : ℕ} {a : Adapter π w} (h : a.BlocksPlaced num)
    (wcid tid bufSize timeOutValue txSeq : ℕ) :
    (a.baOriSessionAdd wcid tid bufSize timeOutValue txSeq).BlocksPlaced num := by
  unfold baOriSessionAdd
  by_cases hwait : (a.macTab wcid).baOriWcidArray tid ≠ 0 ∧
      (a.baOriEntry ((a.macTab wcid).baOriWcidArray tid)).tid = tid ∧
      (a.baOriEntry ((a.macTab wcid).baOriWcidArray tid)).oriBaStatus = .waitRes
  · dsimp only
    rw [if_pos hwait]
    exact h.congr rfl fun _ => rfl
  · dsimp only
    rwa [if_neg hwait]

theorem blocks_recAdd {num : ℕ} {a : Adapter π w} (h : a.Kept num) (wcid : Fin 32) (tid : Fin 8)
    (bufSize timeOutValue : ℕ) :
    (a.baRecSessionAdd wcid tid bufSize timeOutValue).BlocksPlaced num := by
  unfold baRecSessionAdd
  dsimp only
  by_cases hidx : (a.macTab wcid).baRecWcidArray tid = 0
  · rw [if_pos hidx]
    rcases h.table.allocRec ((a.macTab wcid).baRecWcidArray tid) with he | ⟨i, h1, h2, hfree, he⟩
    · rw [he]
      exact h.blocks
    · rw [he]
      have hnew : ({ a.setRec i { a.baRecEntry i with recBaStatus := .used } with
          numAsRecipient := a.numAsRecipient + 1 } : Adapter π w).BlocksPlaced num :=
        h.blocks.congr rfl (list_update rfl)
      exact hnew.congr rfl (list_update rfl)
  · rw [if_neg hidx]
    have hr := h.blocks.onSession (h.idx_lt wcid.isLt tid.isLt) fun _ hp => Session.pooled_refresh hp
    exact hr.congr rfl (list_update rfl)

theorem blocks_setupTimer {num : ℕ} {a : Adapter π w} (h : a.BlocksPlaced num) (idx : ℕ)
    (monitorOn scanning : Bool) :
    (a.baOriSessionSetupTimeout idx monitorOn scanning).BlocksPlaced num := by
  unfold baOriSessionSetupTimeout
  dsimp only
  split_ifs
  · exact h
  · exact h
  · exact h.congr rfl fun _ => rfl
  · exact blocks_freeOri h _

theorem kept_tearDownAll {num : ℕ} {a : Adapter π w} (h : a.Kept num) (wcid : ℕ)
    (allocOk : ℕ → Bool × Bool) : (a.baSessionTearDownAll wcid allocOk).Kept num := by
  have hall : ∀ tids : List ℕ, (∀ t ∈ tids, t < 8) → ∀ a : Adapter π w, a.Kept num →
      (tids.foldl (fun a tid => (a.baOriSessionTearDown wcid tid false
        (allocOk tid).1).baRecSessionTearDown wcid tid false (allocOk tid).2) a).Kept num := by
    intro tids
    induction tids with
    | nil => exact fun _ a h => h
    | cons t tids ih =>
      intro hlt a h
      have hori : (a.baOriSessionTearDown wcid t false (allocOk t).1).Kept num :=
        ⟨h.table.oriTearDown wcid t false _, blocks_oriTearDown h.blocks wcid t false _⟩
      have ht := hlt t (by simp)
      exact ih (fun x hx => hlt x (by simp [hx])) _
        ⟨hori.table.recTearDown wcid ⟨t, ht⟩ false _, blocks_recTearDown hori wcid ⟨t, ht⟩ false _⟩
  exact hall _ (fun t ht => List.mem_range.mp ht) a h

theorem kept_maintain {num : ℕ} {a : Adapter π w} (h : a.Kept num) (now32 : BitVec w)
    (present : ℕ → Bool) : (a.baReOrderingBufferMaintain now32 present).Kept num := by
  have htids : ∀ wcid < maxLenOfMacTable, ∀ tids : List ℕ, (∀ t ∈ tids, t < 8) →
      ∀ a : Adapter π w, a.Kept num →
      (tids.foldl (fun a tid => a.onSession ((a.macTab wcid).baRecWcidArray tid) fun s =>
        s.baFlushReorderingTimeoutMpdus a.cfg.osHz now32) a).Kept num := by
    intro wcid hw tids
    induction tids with
    | nil => exact fun _ a h => h
    | cons t tids ih =>
      exact fun hlt a h => ih (fun x hx => hlt x (by simp [hx])) _
        ⟨h.table.onSession _ fun s => Session.key_flush _ s _,
          h.blocks.onSession (h.idx_lt hw (hlt t (by simp))) fun _ hp => Session.pooled_flush hp _ _⟩
  have hwcids : ∀ wcids : List ℕ, (∀ x ∈ wcids, x < maxLenOfMacTable) →
      ∀ a : Adapter π w, a.Kept num →
      (wcids.foldl (fun a wcid =>
        if present wcid then
          (List.range numOfTid).foldl (fun a tid =>
            a.onSession ((a.macTab wcid).baRecWcidArray tid) fun s =>
              s.baFlushReorderingTimeoutMpdus a.cfg.osHz now32) a
        else a) a).Kept num := by
    intro wcids
    induction wcids with
    | nil => exact fun _ a h => h
    | cons wcid wcids ih =>
      intro hlt a h
      refine ih (fun x hx => hlt x (by simp [hx])) _ ?_
      dsimp only
      split_ifs
      · exact htids wcid (hlt wcid (by simp)) _ (fun t ht => List.mem_range.mp ht) a h
      · exact h
  refine hwcids _ (fun x hx => ?_) a h
  rw [List.mem_range'_1] at hx
  omega

/-- No EAPOL frame reaches `ba_enqueue_reordering_packet` while there is a block for it. -/
def NoEapolAlloc (a : Adapter π w) : BaEvent π w → Prop
  | .indicate rx now32 _ =>
      rx.oversized = false → rx.wcid < maxLenOfMacTable →
        (a.macTab rx.wcid).baRecWcidArray rx.tid ≠ 0 →
        ∀ t ∈ ((Session.mk (a.baRecEntry ((a.macTab rx.wcid).baRecWcidArray rx.tid)) a.freelist
          []).openingFlush a.cfg.osHz rx now32).atEnqueue rx, ¬ t.LeaksBlock rx
  | _ => True

theorem blocks_indicate {num : ℕ} {a : Adapter π w} (h : a.Kept num) (rx : RxBlk π)
    (now32 now32' : BitVec w) (hok : a.NoEapolAlloc (.indicate rx now32 now32')) :
    (a.indicateAmpduPacket rx now32 now32').BlocksPlaced num := by
  unfold Adapter.indicateAmpduPacket
  dsimp only
  split_ifs with hover hw hidx
  · exact h.blocks
  · exact h.blocks
  · refine h.blocks.onSession (h.idx_lt hw rx.tid.isLt) fun b hp => ?_
    have hopen := Session.pooled_setTimer (Session.pooled_flush
      (s := { entry := { a.baRecEntry ((a.macTab rx.wcid).baRecWcidArray rx.tid) with
        rcvSeq := rx.sequence }, freelist := a.freelist, trace := [] }) hp a.cfg.osHz now32) now32
    exact Session.pooled_indicateBySequence hopen rx now32 now32'
      fun t ht => hok (Bool.not_eq_true _ ▸ hover) hw hidx t ht
  · exact h.blocks

theorem Kept.step {num : ℕ} {a : Adapter π w} (h : a.Kept num) (e : BaEvent π w)
    (hok : a.NoEapolAlloc e) : (a.step e).Kept num := by
  refine ⟨h.table.step e, ?_⟩
  cases e with
  | oriSetUp wcid tid timeOut txSeq isForced ht =>
    exact blocks_setUp h.blocks wcid tid timeOut txSeq isForced ht
  | oriAdd wcid tid bufSize timeOutValue txSeq =>
    exact blocks_oriAdd h.blocks wcid tid bufSize timeOutValue txSeq
  | recAdd wcid tid bufSize timeOutValue => exact blocks_recAdd h wcid tid bufSize timeOutValue
  | oriTearDown wcid tid passive allocOk =>
    exact blocks_oriTearDown h.blocks wcid tid passive allocOk
  | recTearDown wcid tid passive allocOk => exact blocks_recTearDown h wcid tid passive allocOk
  | tearDownAll wcid allocOk => exact (kept_tearDownAll h wcid allocOk).blocks
  | setupTimer idx monitorOn scanning => exact blocks_setupTimer h.blocks idx monitorOn scanning
  | idleTimer idx now32 =>
    exact h.blocks.onSession (f := fun s => s.baRecSessionIdleTimeout now32) idx.isLt
      fun _ hp => Session.pooled_idle hp now32
  | indicate rx now32 now32' => exact blocks_indicate h rx now32 now32' hok
  | blockAckReq wcid msgLen tid startSeq halted =>
    simp only [Adapter.step, Adapter.cntlEnqueueForRecv]
    split_ifs with hhalt hlong hlen hkey
    · exact h.blocks
    · exact h.blocks
    · exact h.blocks
    · exact h.blocks.onSession (f := fun s => s.cntlEnqueueForRecv startSeq)
        (h.idx_lt hkey.1 hkey.2) fun _ hp => Session.pooled_cntlEnqueueForRecv hp startSeq
    · exact h.blocks
  | maintain now32 present => exact (kept_maintain h now32 present).blocks

theorem baReorderingResourceInit_eq (num : ℕ) :
    (baReorderingResourceInit num : ReorderingList π) =
      ⟨((List.range num).map fun i => ⟨i, none, 0, false, 0⟩).reverse, num⟩ := by
  induction num with
  | zero => rfl
  | succ num ih =>
    unfold baReorderingResourceInit at ih ⊢
    rw [List.range_succ, List.foldl_append, ih]
    simp [baEnqueue]

theorem blocksPlaced_init (cfg : Config) (stations : ℕ → MacTableEntry) (num : ℕ) :
    (init cfg stations num : Adapter π w).BlocksPlaced num := by
  refine .of_placed ?_ ?_ fun _ _ => rfl
  · have hsum : ∑ i ∈ Finset.range maxLenOfBaRecTable,
        ((init cfg stations num : Adapter π w).baRecEntry i).list.ids = 0 :=
      Finset.sum_eq_zero fun _ _ => rfl
    rw [hsum, add_zero]
    simp only [init, baReorderingResourceInit_eq, ids]
    rw [List.map_reverse, Multiset.coe_reverse, List.map_map]
    exact congrArg _ (List.map_id _)
  · simp [init, baReorderingResourceInit_eq, Counted]

/-- Every block stays in one place in every run in which no EAPOL frame gets as far as the
allocation of a block that is there. -/
theorem run_blocksPlaced (cfg : Config) (stations : ℕ → MacTableEntry) (num : ℕ)
    (es : List (BaEvent π w)) (h : Guarded step NoEapolAlloc (init cfg stations num) es) :
    (run step (init cfg stations num) es).BlocksPlaced num :=
  (guarded_invariant (Kept num) (fun _ e hk hok => hk.step e hok)
    ⟨consistent_init cfg stations num, blocksPlaced_init cfg stations num⟩ h).blocks

instance (s : Session π w) (rx : RxBlk π) : Decidable (s.LeaksBlock rx) :=
  inferInstanceAs (Decidable (_ ∧ ¬ (baDequeue s.freelist).1 = none))

instance (a : Adapter π w) : ∀ e, Decidable (a.NoEapolAlloc e)
  | .indicate _ _ _ => inferInstanceAs (Decidable (_ → _ → _ → ∀ t ∈ _, ¬ _))
  | .oriSetUp _ _ _ _ _ _ | .oriAdd _ _ _ _ _ | .recAdd _ _ _ _ | .oriTearDown _ _ _ _
  | .recTearDown _ _ _ _ | .tearDownAll _ _ | .setupTimer _ _ _ | .idleTimer _ _
  | .blockAckReq _ _ _ _ _ | .maintain _ _ => isTrue trivial

/-- An adapter with four blocks. -/
def smallAdapter : Adapter Unit 32 :=
  init ⟨250, true, 64, 2⟩ (fun _ => ⟨0, 0, 0, 0, fun _ => 0, fun _ => 0, 3, 0, false⟩) 4

theorem run_blocksPlaced_small :
    Guarded step NoEapolAlloc smallAdapter
      [.recAdd 1 0 8 0, .indicate (mpdu 4095) 0 0, .indicate (mpdu 1) 0 0,
        .indicate { mpdu 0 with fRxEAP := true } 0 0] ∧
    (run step smallAdapter
      [.recAdd 1 0 8 0, .indicate (mpdu 4095) 0 0, .indicate (mpdu 1) 0 0,
        .indicate { mpdu 0 with fRxEAP := true } 0 0]).BlocksPlaced 4 :=
  have h : Guarded step NoEapolAlloc smallAdapter
      [.recAdd 1 0 8 0, .indicate (mpdu 4095) 0 0, .indicate (mpdu 1) 0 0,
        .indicate { mpdu 0 with fRxEAP := true } 0 0] := by
    decide
  ⟨h, run_blocksPlaced _ _ 4 _ h⟩

/-- An EAPOL frame ahead of the next number takes a block with it. -/
theorem block_lost :
    ¬ (run step smallAdapter
      [.recAdd 1 0 8 0, .indicate (mpdu 0) 0 0,
        .indicate { mpdu 2 with fRxEAP := true } 0 0]).BlocksPlaced 4 := by
  intro h
  have htotal := h.total
  revert htotal
  decide +kernel

end Adapter
end Rt5572
