import StandaloneDrivers.Rt5572.Release
import StandaloneDrivers.Foundations.Bytes

/-! Runs of one recipient session, and the representation of its reordering list. -/
namespace Rt5572
open Foundations
attribute [local instance] neZero_seqRange
variable {π : Type} {w : ℕ}

/-- What can happen to a session. `pool` stands for the other sessions, which take blocks from
the pool and give blocks back. -/
inductive SessionEvent (π : Type) (w : ℕ) where
  | indicate (rx : RxBlk π) (now32 now32' : BitVec w)
  | blockAckReq (startSeq : Fin 4096)
  | timeout (now32 : BitVec w)
  | idle (now32 : BitVec w)
  | add (bufSize rxBaWinLimit timeOutValue : ℕ)
  | pool (freelist : ReorderingList π)

namespace Session

def step (osHz : ℕ) (s : Session π w) : SessionEvent π w → Session π w
  | .indicate rx now32 now32' => s.indicateAmpduPacket osHz rx now32 now32'
  | .blockAckReq startSeq => s.cntlEnqueueForRecv startSeq
  | .timeout now32 => s.baFlushReorderingTimeoutMpdus osHz now32
  | .idle now32 => s.baRecSessionIdleTimeout now32
  | .add bufSize rxBaWinLimit timeOutValue =>
      s.baRefreshReorderingMpdus.openEntry s.entry.wcid s.entry.tid bufSize rxBaWinLimit
        timeOutValue
  | .pool freelist => { s with freelist := freelist }

end Session

/-- A list together with the last indicated number and the window size of its session. -/
structure Buffered (list : ReorderingList π) (last winSize : ℕ) : Prop where
  counted : list.Counted
  bounds : 1 ≤ winSize ∧ winSize ≤ 255
  window : (last = resetRcvSeq ∧ list.next = []) ∨ (last < 4096 ∧ InWindow last winSize list.next)

theorem Buffered.inWindow {list : ReorderingList π} {last winSize : ℕ}
    (h : Buffered list last winSize) (hl : last ≠ resetRcvSeq) :
    last < 4096 ∧ InWindow last winSize list.next :=
  h.window.resolve_left fun hr => hl hr.1

theorem recBaWinSize_pos (bufSize limit : ℕ) :
    1 ≤ recBaWinSize bufSize limit ∧ recBaWinSize bufSize limit ≤ 255 := by
  simp only [recBaWinSize]
  split <;> omega

namespace Session

abbrev Represented (s : Session π w) : Prop :=
  Buffered s.entry.list s.entry.lastIndSeq s.entry.baWinSize

/-- `LastIndSeq` may advance by `d` to `v` when the first `k` blocks leave: they are the ones
it passes. -/
structure Slide (s : Session π w) (k d v : ℕ) : Prop where
  target : v = (s.entry.lastIndSeq + d) % 4096
  bound : d ≤ 2047
  gone : ∀ m ∈ s.entry.list.next.take k, m.dist s.entry.lastIndSeq ≤ d
  left : ∀ m ∈ s.entry.list.next.drop k, d < m.dist s.entry.lastIndSeq

theorem Represented.slide {s : Session π w} (h : s.Represented)
    (hl : s.entry.lastIndSeq ≠ resetRcvSeq) {k d v : ℕ}
    (hv : v = (s.entry.lastIndSeq + d) % 4096)
    (hleft : ∀ m ∈ s.entry.list.next.drop k, d < m.dist s.entry.lastIndSeq) :
    ((s.release k).setLastIndSeq v).Represented := by
  obtain ⟨hlt, hwin⟩ := h.inWindow hl
  refine ⟨counted_release h.counted k, h.bounds, Or.inr ⟨?_, ?_⟩⟩
  · exact hv ▸ Nat.mod_lt _ (by norm_num)
  · exact (hwin.sublist (List.drop_sublist _ _)).shift hlt hv hleft

theorem Represented.leSeq {s : Session π w} (h : s.Represented)
    (hl : s.entry.lastIndSeq ≠ resetRcvSeq) {d v : ℕ}
    (hv : v = (s.entry.lastIndSeq + d) % 4096) (hd : d ≤ 2048) :
    ∃ k, s.baIndicateReorderingMpdusLeSeq v = s.release k ∧
      (∀ m ∈ s.entry.list.next.take k, m.dist s.entry.lastIndSeq ≤ d) ∧
      ∀ m ∈ s.entry.list.next.drop k, d < m.dist s.entry.lastIndSeq := by
  obtain ⟨-, hwin⟩ := h.inWindow hl
  obtain ⟨hgone, hleft⟩ := takeWhile_leTest hwin h.bounds.2 hv hd
  refine ⟨_, baIndicateReorderingMpdusLeSeq_eq h.counted v, ?_, ?_⟩
  · rwa [← List.prefix_iff_eq_take.mp (List.takeWhile_prefix _)]
  · rwa [drop_length_takeWhile]

theorem Represented.leSeq_slide {s : Session π w} (h : s.Represented)
    (hl : s.entry.lastIndSeq ≠ resetRcvSeq) {d v : ℕ}
    (hv : v = (s.entry.lastIndSeq + d) % 4096) (hd : d ≤ 2047) :
    ∃ k, s.baIndicateReorderingMpdusLeSeq v = s.release k ∧ s.Slide k d v := by
  obtain ⟨k, he, hgone, hleft⟩ := h.leSeq hl hv (by omega)
  exact ⟨k, he, hv, hd, hgone, hleft⟩

theorem Represented.nil_of_reset {s : Session π w} (h : s.Represented)
    (hl : s.entry.lastIndSeq = resetRcvSeq) : s.entry.list.next = [] := by
  rcases h.window with ⟨-, hn⟩ | ⟨hlt, -⟩
  · exact hn
  · exact absurd hl (ne_resetRcvSeq hlt)

theorem Represented.inOrder {s : Session π w} (h : s.Represented) :
    s.indicateInOrder s.entry.lastIndSeq = s ∨ s.entry.lastIndSeq ≠ resetRcvSeq ∧
      ∃ k v, s.Slide k k v ∧
        s.indicateInOrder s.entry.lastIndSeq = (s.release k).setLastIndSeq v := by
  rw [indicateInOrder_eq h.counted]
  cases hm : (consecutive s.entry.lastIndSeq s.entry.list.next).getLast? with
  | none => exact Or.inl rfl
  | some m =>
    have hl : s.entry.lastIndSeq ≠ resetRcvSeq := by
      intro hl
      rw [h.nil_of_reset hl] at hm
      simp [consecutive] at hm
    obtain ⟨hlt, hwin⟩ := h.inWindow hl
    obtain ⟨htake, hin, hleft, hlast⟩ := consecutive_spec h.bounds.2 hlt hwin
    refine Or.inr ⟨hl, _, _, ⟨hlast m hm, ?_, ?_, ?_⟩, rfl⟩
    · have hlen := congrArg List.length htake
      have hle := hwin.length_le
      have hb := h.bounds.2
      rw [List.length_take] at hlen
      omega
    · rwa [← htake]
    · exact fun x hx => (Nat.lt_succ_self _).trans (hleft x hx)

theorem Represented.indicateInOrder {s : Session π w} (h : s.Represented) :
    (s.indicateInOrder s.entry.lastIndSeq).Represented := by
  rcases h.inOrder with he | ⟨hl, k, v, hs, he⟩
  · rwa [he]
  · rw [he]
    exact h.slide hl hs.target hs.left

theorem Represented.refresh {s : Session π w} (h : s.Represented) :
    s.baRefreshReorderingMpdus.Represented := by
  rw [baRefreshReorderingMpdus_eq h.counted]
  exact ⟨rfl, h.bounds, Or.inl ⟨rfl, rfl⟩⟩

theorem Represented.flush {osHz : ℕ} {s : Session π w} (h : s.Represented) (now32 : BitVec w) :
    (s.baFlushReorderingTimeoutMpdus osHz now32).Represented := by
  unfold baFlushReorderingTimeoutMpdus
  split_ifs with hq hall hone
  · exact h
  · exact h.refresh
  · have hl : s.entry.lastIndSeq ≠ resetRcvSeq := by
      intro hl
      exact hq (by rw [h.counted, h.nil_of_reset hl, List.length_nil])
    obtain ⟨k, he, -, hleft⟩ := h.leSeq hl (and_maxSeq (s.entry.lastIndSeq + 1)) (by norm_num)
    simp only [he]
    exact Represented.indicateInOrder (s := ((s.release k).setTimer now32).setLastIndSeq _)
      (h.slide hl (and_maxSeq _) hleft)
  · exact h

theorem Represented.passUp {s : Session π w} (h : s.Represented) (sequence : ℕ)
    (packet : Option π) : (s.passUp sequence packet).Represented := h

theorem Represented.legacy {osHz : ℕ} {s : Session π w} (h : s.Represented) (rx : RxBlk π)
    (now32 : BitVec w) : (s.indicateLegacyPacket osHz rx now32).Represented := by
  unfold indicateLegacyPacket
  split_ifs
  · exact (h.flush now32).passUp _ _
  · exact h.passUp _ _

theorem Represented.legacyOrAmsdu {s : Session π w} (h : s.Represented) (osHz : ℕ)
    (rx : RxBlk π) (now32 : BitVec w) :
    (s.indicateLegacyOrAmsdu osHz rx now32).Represented := by
  unfold indicateLegacyOrAmsdu
  split_ifs
  · exact h
  · exact h
  · exact h.legacy rx now32

/-! Where the number of a frame lies. -/

theorem seqStepOne_dist {last seq : ℕ} (hl : last < 4096)
    (h : seqStepOne seq last = true) : ahead last seq = 1 := by
  rw [seqStepOne_iff] at h
  simp only [Circular.ahead]
  omega

/-- A frame that is neither the last one nor an old one lies in the half ahead. -/
theorem dist_of_new {last seq : ℕ} (hl : last < 4096) (hs : seq < 4096) (hne : seq ≠ last)
    (hold : ¬ seqSmaller seq last = true) : 1 ≤ ahead last seq ∧ ahead last seq ≤ 2047 := by
  rw [seqSmaller_iff hs hl] at hold
  simp only [Circular.ahead] at *
  omega

theorem within_window_iff {last seq winSize : ℕ} (hw : winSize ≤ 255)
    (hl : last < 4096) (hs : seq < 4096) (h : 1 ≤ ahead last seq ∧ ahead last seq ≤ 2047) :
    seqSmaller seq ((last + winSize + 1) &&& maxSeq) = true ↔ ahead last seq ≤ winSize := by
  rw [and_maxSeq, seqSmaller_iff hs (Nat.mod_lt _ (by norm_num))]
  simp only [Circular.ahead] at *
  omega

/-- The window that ends with the frame. -/
theorem winStartSeq_eq {seq winSize : ℕ} (hw : winSize ≤ 255) (hs : seq < 4096) :
    winStartSeq seq winSize = (seq + 4096 - winSize) % 4096 := by
  simp only [winStartSeq, and_maxSeq, maxSeq, Nat.cast_ofNat]
  split <;> omega

theorem winStartSeq_slide {last seq winSize : ℕ} (hw : winSize ≤ 255) (hl : last < 4096)
    (hs : seq < 4096) (h : winSize < ahead last seq) :
    winStartSeq seq winSize = (last + (ahead last seq - winSize)) % 4096 ∧
      ahead (winStartSeq seq winSize) seq = winSize := by
  rw [winStartSeq_eq hw hs]
  simp only [Circular.ahead] at *
  omega

/-! The paths of a received frame. -/

theorem entry_baMpduBlkAlloc (s : Session π w) : s.baMpduBlkAlloc.2.entry = s.entry := rfl

theorem trace_baMpduBlkAlloc (s : Session π w) : s.baMpduBlkAlloc.2.trace = s.trace := rfl

theorem Represented.bypass {s : Session π w} (h : s.Represented) (osHz : ℕ)
    (hl : s.entry.lastIndSeq ≠ resetRcvSeq) (rx : RxBlk π) (now32 : BitVec w)
    (hd : ahead s.entry.lastIndSeq rx.sequence ≤ 2047) :
    (baEnqueueReorderingPacket.bypass osHz rx now32 s).Represented := by
  have hlt := (h.inWindow hl).1
  have hv := (Circular.add_ahead hlt rx.sequence.isLt).symm
  obtain ⟨k, he, -, hleft⟩ := h.leSeq hl hv (hd.trans (by norm_num))
  rw [baEnqueueReorderingPacket.bypass, he]
  exact (h.slide hl hv hleft).legacyOrAmsdu osHz rx now32

/-- Insertion keeps the window; a duplicate changes nothing. -/
theorem Represented.insert {s : Session π w} (h : s.Represented)
    (hl : s.entry.lastIndSeq ≠ resetRcvSeq) {blk : ReorderingMpdu π}
    (hlo : 1 ≤ blk.dist s.entry.lastIndSeq)
    (hhi : blk.dist s.entry.lastIndSeq ≤ s.entry.baWinSize) {list : ReorderingList π}
    (hi : baReorderingMpduInsertsorted s.entry.list blk = some list) :
    (s.setList list).Represented := by
  obtain ⟨hlt, hwin⟩ := h.inWindow hl
  obtain ⟨next, hnext, rfl⟩ := Option.map_eq_some_iff.mp hi
  have hspec := insertSortedScan_spec h.bounds.2 hlt hlo hhi hwin
  rw [hnext] at hspec
  refine ⟨?_, h.bounds, Or.inr ⟨hlt, hspec.1⟩⟩
  have hlen := hspec.2.1.length_eq
  have hc := h.counted
  simp only [ReorderingList.Counted, setList, List.length_cons] at *
  omega

theorem Represented.enqueue {s : Session π w} (h : s.Represented) (osHz : ℕ)
    (hl : s.entry.lastIndSeq ≠ resetRcvSeq) (rx : RxBlk π) (now32 : BitVec w)
    (hlo : 1 ≤ ahead s.entry.lastIndSeq rx.sequence)
    (hhi : ahead s.entry.lastIndSeq rx.sequence ≤ s.entry.baWinSize) :
    (s.baEnqueueReorderingPacket osHz rx now32).Represented := by
  have hw := h.bounds.2
  have hbypass := Represented.bypass (s := s.baMpduBlkAlloc.2) h osHz hl rx now32
    (by rw [entry_baMpduBlkAlloc]; omega)
  rcases ha : s.baMpduBlkAlloc with ⟨blk, s'⟩
  rw [ha] at hbypass
  have hs' : s'.entry = s.entry := by rw [← entry_baMpduBlkAlloc s, ha]
  have h' : s'.Represented := by rw [Represented, hs']; exact h
  rw [baEnqueueReorderingPacket, ha]
  cases blk with
  | none => exact hbypass
  | some blk =>
    dsimp only
    split_ifs with heap
    · exact hbypass
    · split
      case h_1 list hins =>
        refine h'.insert (hs' ▸ hl) ?_ ?_ hins
        · rwa [hs']
        · rwa [hs']
      case h_2 => exact h'

/-- Everything but a retransmission of the next number that is still in the list. -/
theorem Represented.indicateBySequence {osHz : ℕ} {s : Session π w} (h : s.Represented)
    (rx : RxBlk π) (now32 now32' : BitVec w)
    (hok : seqStepOne rx.sequence s.entry.lastIndSeq = true →
      rx.sequence ∉ s.entry.list.next.map (·.sequence)) :
    (s.indicateBySequence osHz rx now32 now32').Represented := by
  unfold Session.indicateBySequence
  dsimp only
  split_ifs with hreset hstep hlast hold hwin
  · have hopen : ((s.setLastIndSeq rx.sequence).setTimer now32).Represented :=
      ⟨h.counted, h.bounds, Or.inr ⟨rx.sequence.isLt, by
        simp only [setLastIndSeq, setTimer, h.nil_of_reset hreset]
        exact InWindow.nil _ _⟩⟩
    exact hopen.legacyOrAmsdu osHz rx now32'
  · obtain ⟨hlt, hin⟩ := h.inWindow hreset
    have hslide : s.Slide 0 1 rx.sequence := by
      refine ⟨seqStepOne_iff.mp hstep, by norm_num, by simp, fun m hm => ?_⟩
      have hm1 := (hin.within m hm).1
      have hne : m.dist s.entry.lastIndSeq ≠ 1 := by
        intro h1
        apply hok hstep
        rw [List.drop_zero] at hm
        have hseq : m.sequence = rx.sequence :=
          Fin.ext (ahead_inj hlt m.sequence.isLt rx.sequence.isLt
            (h1.trans (seqStepOne_dist hlt hstep).symm))
        exact List.mem_map.mpr ⟨m, hm, hseq⟩
      omega
    have hmoved := h.slide hreset hslide.target hslide.left
    rw [release_zero] at hmoved
    exact (hmoved.legacyOrAmsdu osHz rx now32').indicateInOrder
  · exact h
  · exact h
  · obtain ⟨hlt, -⟩ := h.inWindow hreset
    have hd := dist_of_new hlt rx.sequence.isLt hlast hold
    rw [within_window_iff h.bounds.2 hlt rx.sequence.isLt hd] at hwin
    exact h.enqueue osHz hreset rx now32' hd.1 hwin
  · obtain ⟨hlt, -⟩ := h.inWindow hreset
    have hd := dist_of_new hlt rx.sequence.isLt hlast hold
    rw [within_window_iff h.bounds.2 hlt rx.sequence.isLt hd, not_le] at hwin
    obtain ⟨htarget, hend⟩ := winStartSeq_slide h.bounds.2 hlt rx.sequence.isLt hwin
    obtain ⟨k, he, -, hleft⟩ := h.leSeq hreset htarget (by omega)
    rw [he]
    have hmoved := h.slide hreset htarget hleft
    refine Represented.indicateInOrder (Represented.enqueue
      (s := ((s.release k).setLastIndSeq
        (winStartSeq rx.sequence s.entry.baWinSize)).setTimer now32) hmoved osHz ?_ rx now32' ?_ ?_)
    · have hlt' : winStartSeq rx.sequence s.entry.baWinSize < 4096 :=
        htarget ▸ Nat.mod_lt _ (by norm_num)
      exact ne_resetRcvSeq hlt'
    · exact hend.ge.trans' h.bounds.1
    · exact hend.le

theorem Represented.openingFlush {osHz : ℕ} {s : Session π w} (h : s.Represented)
    (rx : RxBlk π) (now32 : BitVec w) : (s.openingFlush osHz rx now32).Represented :=
  Represented.flush (s := { s with entry := { s.entry with rcvSeq := rx.sequence } }) h now32

theorem blockAckReq_dist {last start : ℕ} (hl : last < 4096) (hs : start < 4096)
    (h : seqSmaller last start = true) :
    start = (last + ahead last start) % 4096 ∧ 1 ≤ ahead last start ∧ ahead last start ≤ 2048 ∧
      (if start = 0 then maxSeq else start - 1) = (last + (ahead last start - 1)) % 4096 := by
  rw [seqSmaller_iff hl hs] at h
  refine ⟨(Circular.add_ahead hl hs).symm, h.1, h.2, ?_⟩
  simp only [Circular.ahead, maxSeq] at *
  split <;> omega

theorem Represented.blockAckReq {s : Session π w} (h : s.Represented) (startSeq : Fin 4096) :
    (s.cntlEnqueueForRecv startSeq).Represented := by
  unfold cntlEnqueueForRecv
  by_cases hmove : seqSmaller s.entry.lastIndSeq startSeq = true
  · rw [if_pos hmove]
    by_cases hl : s.entry.lastIndSeq = resetRcvSeq
    · have hnil := h.nil_of_reset hl
      rw [baIndicateReorderingMpdusLeSeq_eq h.counted, hnil, List.takeWhile_nil, List.length_nil,
        release_zero]
      refine ⟨h.counted, h.bounds, Or.inr ⟨?_, ?_⟩⟩
      · have := startSeq.isLt
        simp only [setLastIndSeq, maxSeq]
        split <;> omega
      · simp only [setLastIndSeq, hnil]
        exact InWindow.nil _ _
    · obtain ⟨hlt, -⟩ := h.inWindow hl
      obtain ⟨hv, hlo, hhi, htarget⟩ := blockAckReq_dist hlt startSeq.isLt hmove
      obtain ⟨k, he, -, hleft⟩ := h.leSeq hl hv hhi
      rw [he]
      exact h.slide hl htarget fun m hm => (Nat.sub_le _ _).trans_lt (hleft m hm)
  · rw [if_neg hmove]
    exact h

theorem Represented.idle {s : Session π w} (h : s.Represented) (now32 : BitVec w) :
    (s.baRecSessionIdleTimeout now32).Represented := by
  unfold baRecSessionIdleTimeout
  split_ifs
  · exact h.refresh
  · exact h

/-- `BARecSessionAdd` on a session that exists: its window is emptied before it is resized. -/
theorem Represented.add {s : Session π w} (h : s.Represented)
    (wcid tid bufSize rxBaWinLimit timeOutValue : ℕ) :
    (s.baRefreshReorderingMpdus.openEntry wcid tid bufSize rxBaWinLimit timeOutValue).Represented := by
  rw [baRefreshReorderingMpdus_eq h.counted]
  exact ⟨rfl, recBaWinSize_pos bufSize rxBaWinLimit, Or.inl ⟨rfl, rfl⟩⟩

/-- A frame is indicated in order although an MPDU with its number is still in the list. -/
def IndicatesBuffered (s : Session π w) (rx : RxBlk π) : Prop :=
  seqStepOne rx.sequence s.entry.lastIndSeq = true ∧
    rx.sequence ∈ s.entry.list.next.map (·.sequence)

/-- No frame of a step is indicated in order while its number is in the list. -/
def NextNotBuffered (osHz : ℕ) (s : Session π w) : SessionEvent π w → Prop
  | .indicate rx now32 _ =>
      rx.oversized = false → ¬ (s.openingFlush osHz rx now32).IndicatesBuffered rx
  | _ => True

instance (s : Session π w) (rx : RxBlk π) : Decidable (s.IndicatesBuffered rx) :=
  inferInstanceAs (Decidable (_ ∧ _))

instance (osHz : ℕ) (s : Session π w) : ∀ e, Decidable (s.NextNotBuffered osHz e)
  | .indicate _ _ _ => inferInstanceAs (Decidable (_ → ¬ _))
  | .blockAckReq _ | .timeout _ | .idle _ | .add _ _ _ | .pool _ => isTrue trivial

theorem Represented.step {osHz : ℕ} {s : Session π w} (h : s.Represented) (e : SessionEvent π w)
    (hok : s.NextNotBuffered osHz e) : (s.step osHz e).Represented := by
  cases e with
  | indicate rx now32 now32' =>
    simp only [Session.step, indicateAmpduPacket]
    cases ho : rx.oversized with
    | true => exact h
    | false =>
      exact (h.openingFlush rx now32).indicateBySequence rx now32 now32'
        fun hstep hmem => hok ho ⟨hstep, hmem⟩
  | blockAckReq startSeq => exact h.blockAckReq startSeq
  | timeout now32 => exact h.flush now32
  | idle now32 => exact h.idle now32
  | add bufSize rxBaWinLimit timeOutValue => exact h.add _ _ _ _ _
  | pool freelist => exact h

/-- A session that `BARecSessionAdd` has just opened, in an entry without buffered MPDUs. -/
def opened (entry : BaRecEntry π w) (freelist : ReorderingList π)
    (wcid tid bufSize rxBaWinLimit timeOutValue : ℕ) : Session π w :=
  (Session.mk { entry with list := ⟨[], 0⟩ } freelist []).openEntry wcid tid bufSize rxBaWinLimit
    timeOutValue

theorem represented_opened (entry : BaRecEntry π w) (freelist : ReorderingList π)
    (wcid tid bufSize rxBaWinLimit timeOutValue : ℕ) :
    (opened entry freelist wcid tid bufSize rxBaWinLimit timeOutValue).Represented :=
  ⟨rfl, recBaWinSize_pos bufSize rxBaWinLimit, Or.inl ⟨rfl, rfl⟩⟩

/-- What the reordering list should look like: empty before the first MPDU, then strictly sorted
numbers from the window after `LastIndSeq`, no more of them than the window holds. -/
structure ListInWindow (s : Session π w) : Prop where
  reset : s.entry.lastIndSeq = resetRcvSeq → s.entry.list.next = []
  sorted : s.entry.lastIndSeq ≠ resetRcvSeq →
    s.entry.list.next.Pairwise fun a b => seqSmaller a.sequence b.sequence = true
  nodup : (s.entry.list.next.map (·.sequence)).Nodup
  within : s.entry.lastIndSeq ≠ resetRcvSeq → ∀ m ∈ s.entry.list.next,
    1 ≤ ahead s.entry.lastIndSeq m.sequence ∧
      ahead s.entry.lastIndSeq m.sequence ≤ s.entry.baWinSize
  counted : s.entry.list.qlen = s.entry.list.next.length
  fits : s.entry.list.qlen ≤ s.entry.baWinSize

theorem Represented.listInWindow {s : Session π w} (h : s.Represented) : s.ListInWindow := by
  by_cases hl : s.entry.lastIndSeq = resetRcvSeq
  · have hnil := h.nil_of_reset hl
    exact
      { reset := fun _ => hnil
        sorted := fun hn => absurd hl hn
        nodup := by simp [hnil]
        within := fun hn => absurd hl hn
        counted := h.counted
        fits := by rw [h.counted, hnil]; exact Nat.zero_le _ }
  · obtain ⟨hlt, hwin⟩ := h.inWindow hl
    have hw := h.bounds.2
    refine
      { reset := fun hr => absurd hr hl
        sorted := fun _ => hwin.sorted.imp_of_mem fun {a b} ha hb hab => ?_
        nodup := hwin.sequence_inj
        within := fun _ => hwin.within
        counted := h.counted
        fits := h.counted ▸ hwin.length_le }
    have hbound : ∀ m ∈ s.entry.list.next, m.dist s.entry.lastIndSeq < 2048 := fun m hm => by
      have := (hwin.within m hm).2
      omega
    exact (seqSmaller_iff_ahead hlt a.sequence.isLt b.sequence.isLt (hbound a ha)
      (hbound b hb)).mpr hab

/-- The reordering list keeps its representation in every run in which no MPDU is indicated in
order while its number is still buffered. -/
theorem run_listInWindow (osHz : ℕ) (entry : BaRecEntry π w) (freelist : ReorderingList π)
    (wcid tid bufSize rxBaWinLimit timeOutValue : ℕ) (es : List (SessionEvent π w))
    (h : Guarded (step osHz) (NextNotBuffered osHz)
      (opened entry freelist wcid tid bufSize rxBaWinLimit timeOutValue) es) :
    (run (step osHz) (opened entry freelist wcid tid bufSize rxBaWinLimit timeOutValue)
      es).ListInWindow :=
  Represented.listInWindow (guarded_invariant Represented
    (fun _ e hs hok => hs.step e hok) (represented_opened _ _ _ _ _ _ _) h)

/-- A session with a window of 8 and one free block. -/
def smallSession : Session Unit 32 :=
  opened ⟨0, 0, 0, 0, 0, 0, 0, 0, .none, ⟨[], 0⟩⟩ ⟨[⟨0, none, 0, false, 0⟩], 1⟩ 1 0 8 64 0

theorem run_listInWindow_small :
    Guarded (step 250) (NextNotBuffered 250) smallSession
      [.indicate (mpdu 4095) 0 0, .indicate (mpdu 1) 0 0, .indicate (mpdu 0) 0 0] ∧
    (run (step 250) smallSession
      [.indicate (mpdu 4095) 0 0, .indicate (mpdu 1) 0 0, .indicate (mpdu 0) 0 0]).ListInWindow :=
  have h : Guarded (step 250) (NextNotBuffered 250) smallSession
      [.indicate (mpdu 4095) 0 0, .indicate (mpdu 1) 0 0, .indicate (mpdu 0) 0 0] := by
    decide
  ⟨h, run_listInWindow 250 _ _ _ _ _ _ _ _ h⟩

/-- The EAPOL frame 2 moves the window without a look at the list, so the second copy of 3 is
indicated in order and leaves the first copy behind the window. -/
theorem buffered_left_behind :
    ¬ (run (step 250) smallSession
      [.indicate (mpdu 0) 0 0, .indicate (mpdu 3) 0 0,
        .indicate { mpdu 2 with fRxEAP := true } 0 0, .indicate (mpdu 3) 0 0]).ListInWindow := by
  intro h
  have hw := h.within
  revert hw
  decide

end Session
end Rt5572
