import StandaloneDrivers.Rt5572.Representation

/-! The order in which a recipient session passes MPDUs to the upper layer. Two 12-bit numbers
are compared along the way `LastIndSeq` has made, since after several moves of the window their
difference alone does not tell which one is later. -/
namespace Rt5572
open Foundations
variable {π : Type} {w : ℕ}

def Event.mark : Event π → Circular.Mark
  | .lastIndSeq v => if v = resetRcvSeq then .reset else .moved v
  | .up sequence _ => .passed sequence

def RxBlk.legacy (rx : RxBlk π) : Bool := !rx.fRxAMSDU && (!rx.fRxEAP || rx.eapToUpper)

namespace Session

/-- The track of the session's deliveries along `LastIndSeq`. -/
def track (s : Session π w) : Circular.Track := Circular.track 4096 (s.trace.map Event.mark)

/-- Between two resets of `LastIndSeq` the numbers passed up strictly increase. -/
def DeliversInOrder (s : Session π w) : Prop :=
  Circular.Increasing 4096 (s.trace.map Event.mark)

instance (s : Session π w) : Decidable s.DeliversInOrder :=
  inferInstanceAs (Decidable (Circular.Increasing _ _))

theorem track_passUp (s : Session π w) (sequence : ℕ) (packet : Option π) :
    (s.passUp sequence packet).track = s.track.step 4096 (.passed sequence) := by
  simp [track, passUp, Circular.track_append, Event.mark]

theorem track_setLastIndSeq (s : Session π w) {v : ℕ} (hv : v < 4096) :
    (s.setLastIndSeq v).track = s.track.step 4096 (.moved v) := by
  simp [track, setLastIndSeq, Circular.track_append, Event.mark, ne_resetRcvSeq hv]

theorem track_release (s : Session π w) (k : ℕ) :
    (s.release k).track =
      (((s.entry.list.next.take k).map fun m => m.sequence.val).map
        Circular.Mark.passed).foldl (Circular.Track.step 4096) s.track := by
  simp only [track, release, List.map_append, Circular.track_append, List.map_map]
  rfl

/-- The representation of the list, and nothing passed up lies beyond `LastIndSeq`. -/
structure Delivering (s : Session π w) : Prop where
  represented : s.Represented
  cleared : s.entry.lastIndSeq = resetRcvSeq → s.track.Cleared
  behind : s.entry.lastIndSeq ≠ resetRcvSeq → s.track.Behind 0 s.entry.lastIndSeq

theorem Delivering.ordered {s : Session π w} (h : s.Delivering) : s.track.Ordered := by
  by_cases hl : s.entry.lastIndSeq = resetRcvSeq
  · exact (h.cleared hl).toOrdered
  · exact (h.behind hl).toOrdered

theorem Delivering.deliversInOrder {s : Session π w} (h : s.Delivering) : s.DeliversInOrder :=
  Circular.Track.Ordered.increasing h.ordered

/-- A slide passes up the blocks it moves over; with `gap` 1 the new `LastIndSeq` itself has not
been passed up. -/
theorem Delivering.behind_slide {s : Session π w} (h : s.Delivering)
    (hl : s.entry.lastIndSeq ≠ resetRcvSeq) {k d v gap : ℕ} (hs : s.Slide k d v)
    (hgap : gap ≤ d)
    (hgone : ∀ m ∈ s.entry.list.next.take k, m.dist s.entry.lastIndSeq + gap ≤ d) :
    ((s.release k).setLastIndSeq v).track.Behind gap v := by
  obtain ⟨hlt, hwin⟩ := h.represented.inWindow hl
  have hv : v < 4096 := hs.target ▸ Nat.mod_lt _ (by norm_num)
  have hd := hs.bound
  have hslide := (h.behind hl).slide gap
    ((s.entry.list.next.take k).map fun m => m.sequence.val) hlt hs.target (by omega)
    (by
      intro x hx
      obtain ⟨m, -, rfl⟩ := List.mem_map.mp hx
      exact m.sequence.isLt)
    (by
      rw [List.pairwise_map]
      exact hwin.sorted.sublist (List.take_sublist _ _))
    (by
      intro x hx
      obtain ⟨m, hm, rfl⟩ := List.mem_map.mp hx
      exact ⟨(hwin.within m (List.mem_of_mem_take hm)).1, hgone m hm⟩) hgap
  rw [track_setLastIndSeq _ hv, track_release]
  rwa [List.foldl_append, List.foldl_cons, List.foldl_nil] at hslide

theorem Delivering.slide {s : Session π w} (h : s.Delivering)
    (hl : s.entry.lastIndSeq ≠ resetRcvSeq) {k d v : ℕ} (hs : s.Slide k d v) :
    ((s.release k).setLastIndSeq v).Delivering where
  represented := h.represented.slide hl hs.target hs.left
  cleared := fun hr => by
    have hv : v < 4096 := hs.target ▸ Nat.mod_lt _ (by norm_num)
    exact absurd hr (ne_resetRcvSeq hv)
  behind := fun _ => h.behind_slide hl hs (Nat.zero_le d) hs.gone

theorem Delivering.indicateInOrder {s : Session π w} (h : s.Delivering) :
    (s.indicateInOrder s.entry.lastIndSeq).Delivering := by
  rcases h.represented.inOrder with he | ⟨hl, k, v, hs, he⟩
  · rwa [he]
  · rw [he]
    exact h.slide hl hs

theorem Delivering.refresh {s : Session π w} (h : s.Delivering) :
    s.baRefreshReorderingMpdus.Delivering := by
  have hclear : s.baRefreshReorderingMpdus.track.Cleared := by
    have htrack : s.baRefreshReorderingMpdus.track =
        (((s.entry.list.next.map fun m => m.sequence.val).flatMap fun x =>
          [Circular.Mark.passed x, Circular.Mark.moved x]).foldl (Circular.Track.step 4096)
            s.track).step 4096 .reset := by
      have hne : ∀ m : ReorderingMpdu π, m.sequence.val ≠ resetRcvSeq := fun m =>
        ne_resetRcvSeq m.sequence.isLt
      rw [baRefreshReorderingMpdus_eq h.represented.counted]
      simp [track, Circular.track_append, Event.mark, hne, List.map_flatMap, List.flatMap_map]
    rw [htrack]
    apply Circular.Track.Ordered.reset
    by_cases hl : s.entry.lastIndSeq = resetRcvSeq
    · rw [h.represented.nil_of_reset hl]
      exact h.ordered
    · obtain ⟨hlt, hwin⟩ := h.represented.inWindow hl
      have hb := h.represented.bounds.2
      refine (h.behind hl).each hlt ?_ ?_ ?_
      · intro x hx
        obtain ⟨m, -, rfl⟩ := List.mem_map.mp hx
        exact m.sequence.isLt
      · rw [List.pairwise_map]
        exact hwin.sorted
      · intro x hx
        obtain ⟨m, hm, rfl⟩ := List.mem_map.mp hx
        have := hwin.within m hm
        simp only [ReorderingMpdu.dist, ahead] at this
        omega
  have hreset : s.baRefreshReorderingMpdus.entry.lastIndSeq = resetRcvSeq := rfl
  exact
    { represented := h.represented.refresh
      cleared := fun _ => hclear
      behind := fun hn => absurd hreset hn }

theorem Delivering.setTimer {s : Session π w} (h : s.Delivering) (now32 : BitVec w) :
    (s.setTimer now32).Delivering := ⟨h.represented, h.cleared, h.behind⟩

theorem Delivering.flush {osHz : ℕ} {s : Session π w} (h : s.Delivering) (now32 : BitVec w) :
    (s.baFlushReorderingTimeoutMpdus osHz now32).Delivering := by
  unfold baFlushReorderingTimeoutMpdus
  split_ifs with hq hall hone
  · exact h
  · exact h.refresh.setTimer now32
  · have hl : s.entry.lastIndSeq ≠ resetRcvSeq := by
      intro hl
      exact hq (by rw [h.represented.counted, h.represented.nil_of_reset hl, List.length_nil])
    obtain ⟨k, he, hs⟩ := h.represented.leSeq_slide hl (and_maxSeq (s.entry.lastIndSeq + 1))
      (by norm_num)
    simp only [he]
    exact ((h.slide hl hs).setTimer now32).indicateInOrder
  · exact h

/-! Frames passed up without a stay in the list. -/

/-- Nothing buffered stands in the way of passing the frame up now: it is not itself buffered,
and `Indicate_Legacy_Packet` finds no time-out that would pass a later MPDU up first. -/
structure InTurn (osHz : ℕ) (s : Session π w) (rx : RxBlk π) (now32 : BitVec w) : Prop where
  notBuffered : rx.sequence ∉ s.entry.list.next.map (·.sequence)
  notOvertaken : rx.legacy = true →
    timeAfter now32 (s.entry.lastIndSeqAtTimer + reorderingPacketTimeout osHz) = true →
    ∀ m ∈ s.entry.list.next, seqSmaller rx.sequence m.sequence = false

/-- Without a due time-out the frame is the only thing passed up. -/
theorem indicateLegacyOrAmsdu_eq {osHz : ℕ} {s : Session π w} {rx : RxBlk π} {now32 : BitVec w}
    (h : rx.legacy = true → flushOneDue osHz s now32 = false) :
    s.indicateLegacyOrAmsdu osHz rx now32 = s.passUp rx.sequence (some rx.pRxPacket) := by
  unfold indicateLegacyOrAmsdu
  split_ifs with hamsdu heap
  · rfl
  · rfl
  · have hleg : rx.legacy = true := by
      simp only [Bool.and_eq_true, Bool.not_eq_true', not_and, Bool.not_eq_false] at heap
      simp only [RxBlk.legacy, Bool.and_eq_true, Bool.not_eq_true', Bool.or_eq_true]
      refine ⟨by simpa using hamsdu, ?_⟩
      by_cases he : rx.fRxEAP = true
      · exact Or.inr (heap he)
      · exact Or.inl (by simpa using he)
    simp [indicateLegacyPacket, h hleg]

theorem Delivering.passUp {s : Session π w} {last : ℕ} (hr : s.Represented) (hlt : last < 4096)
    (hl : s.entry.lastIndSeq = last) (h : s.track.Behind 1 last) (packet : Option π) :
    (s.passUp last packet).Delivering where
  represented := hr.passUp _ _
  cleared := fun hc => absurd (hl.symm.trans hc) (ne_resetRcvSeq hlt)
  behind := fun _ => by
    rw [track_passUp]
    have hpass := h.passed hlt
    rwa [← hl] at hpass ⊢

/-- `LastIndSeq` moves to a frame in turn, over the MPDUs before it, and the frame is passed
up. -/
theorem Delivering.pass {osHz : ℕ} {s : Session π w} (h : s.Delivering)
    (hl : s.entry.lastIndSeq ≠ resetRcvSeq) {k : ℕ} {rx : RxBlk π} {now32 : BitVec w}
    (hs : s.Slide k (ahead s.entry.lastIndSeq rx.sequence) rx.sequence)
    (hlo : 1 ≤ ahead s.entry.lastIndSeq rx.sequence) (hturn : s.InTurn osHz rx now32) :
    (((s.release k).setLastIndSeq rx.sequence).indicateLegacyOrAmsdu osHz rx now32).Delivering := by
  obtain ⟨hlt, hwin⟩ := h.represented.inWindow hl
  have hb := h.represented.bounds.2
  have hgone : ∀ m ∈ s.entry.list.next.take k,
      m.dist s.entry.lastIndSeq + 1 ≤ ahead s.entry.lastIndSeq rx.sequence := by
    intro m hm
    have hle := hs.gone m hm
    have hne : m.dist s.entry.lastIndSeq ≠ ahead s.entry.lastIndSeq rx.sequence := by
      intro he
      have hseq := ahead_inj hlt m.sequence.isLt rx.sequence.isLt he
      exact hturn.notBuffered (List.mem_map.mpr ⟨m, List.mem_of_mem_take hm, Fin.ext hseq⟩)
    omega
  have hmoved := h.represented.slide hl hs.target hs.left
  have hquiet : rx.legacy = true →
      flushOneDue osHz ((s.release k).setLastIndSeq rx.sequence) now32 = false := by
    intro hleg
    by_contra hdue
    rw [Bool.not_eq_false, flushOneDue, Bool.and_eq_true, decide_eq_true_iff] at hdue
    obtain ⟨m, hm⟩ : ∃ m, m ∈ s.entry.list.next.drop k := by
      apply List.exists_mem_of_length_pos
      exact hmoved.counted ▸ hdue.2
    have hover := hturn.notOvertaken hleg hdue.1 m (List.mem_of_mem_drop hm)
    have hfar := hs.left m hm
    have hnear := (hwin.within m (List.mem_of_mem_drop hm)).2
    have hbound := hs.bound
    rw [← Bool.not_eq_true, seqSmaller_iff_ahead hlt rx.sequence.isLt m.sequence.isLt
      (by omega) (hnear.trans_lt (by omega))] at hover
    exact hover hfar
  rw [indicateLegacyOrAmsdu_eq hquiet]
  exact Delivering.passUp hmoved rx.sequence.isLt rfl
    (h.behind_slide hl hs hlo hgone) _

theorem Delivering.bypass {osHz : ℕ} {s : Session π w} (h : s.Delivering)
    (hl : s.entry.lastIndSeq ≠ resetRcvSeq) {rx : RxBlk π} {now32 : BitVec w}
    (hlo : 1 ≤ ahead s.entry.lastIndSeq rx.sequence)
    (hhi : ahead s.entry.lastIndSeq rx.sequence ≤ 2047) (hturn : s.InTurn osHz rx now32) :
    (baEnqueueReorderingPacket.bypass osHz rx now32 s).Delivering := by
  have hlt := (h.represented.inWindow hl).1
  obtain ⟨k, he, hs⟩ :=
    h.represented.leSeq_slide hl (Circular.add_ahead hlt rx.sequence.isLt).symm hhi
  rw [baEnqueueReorderingPacket.bypass, he]
  exact h.pass hl hs hlo hturn

/-- The frame does not go into the list. -/
def Bypasses (s : Session π w) (rx : RxBlk π) : Prop :=
  rx.fRxEAP = true ∨ (baDequeue s.freelist).1 = none

theorem Delivering.enqueue {osHz : ℕ} {s : Session π w} (h : s.Delivering)
    (hl : s.entry.lastIndSeq ≠ resetRcvSeq) {rx : RxBlk π} {now32 : BitVec w}
    (hlo : 1 ≤ ahead s.entry.lastIndSeq rx.sequence)
    (hhi : ahead s.entry.lastIndSeq rx.sequence ≤ s.entry.baWinSize)
    (hturn : s.Bypasses rx → s.InTurn osHz rx now32) :
    (s.baEnqueueReorderingPacket osHz rx now32).Delivering := by
  have hw := h.represented.bounds.2
  have hrep := h.represented.enqueue osHz hl rx now32 hlo hhi
  have halloc : s.baMpduBlkAlloc.2.Delivering := ⟨h.represented, h.cleared, h.behind⟩
  have hbypass : s.InTurn osHz rx now32 →
      (baEnqueueReorderingPacket.bypass osHz rx now32 s.baMpduBlkAlloc.2).Delivering :=
    fun ht => halloc.bypass hl hlo (hhi.trans (hw.trans (by norm_num)))
      ⟨ht.notBuffered, ht.notOvertaken⟩
  unfold baEnqueueReorderingPacket at hrep ⊢
  rcases ha : s.baMpduBlkAlloc with ⟨blk, s'⟩
  have hs' : s.baMpduBlkAlloc.2 = s' := congrArg Prod.snd ha
  rw [hs'] at hbypass halloc
  rw [ha] at hrep
  cases blk with
  | none =>
    refine hbypass (hturn (Or.inr ?_))
    exact Option.map_eq_none_iff.mp (congrArg Prod.fst ha)
  | some blk =>
    dsimp only at hrep ⊢
    split_ifs at hrep ⊢ with heap
    · exact hbypass (hturn (Or.inl heap))
    · refine ⟨hrep, ?_, ?_⟩
      · split
        · exact halloc.cleared
        · exact halloc.cleared
      · split
        · exact halloc.behind
        · exact halloc.behind

/-! The steps. -/

/-- The frame will be passed up without a stay in the list while MPDUs may be buffered. -/
def PassedDirectly (s : Session π w) (rx : RxBlk π) : Prop :=
  seqStepOne rx.sequence s.entry.lastIndSeq = true ∨
    rx.sequence.val ≠ s.entry.lastIndSeq ∧ seqSmaller rx.sequence s.entry.lastIndSeq = false ∧
      s.Bypasses rx

theorem Delivering.indicateBySequence {osHz : ℕ} {s : Session π w} (h : s.Delivering)
    {rx : RxBlk π} {now32 now32' : BitVec w}
    (hok : s.PassedDirectly rx → s.InTurn osHz rx now32') :
    (s.indicateBySequence osHz rx now32 now32').Delivering := by
  unfold Session.indicateBySequence
  dsimp only
  split_ifs with hreset hstep hlast hold hwin
  · have hnil := h.represented.nil_of_reset hreset
    have hopen : ((s.setLastIndSeq rx.sequence).setTimer now32).Represented :=
      ⟨h.represented.counted, h.represented.bounds, Or.inr ⟨rx.sequence.isLt, by
        simp only [setLastIndSeq, Session.setTimer, hnil]
        exact InWindow.nil _ _⟩⟩
    have hquiet :
        flushOneDue osHz ((s.setLastIndSeq rx.sequence).setTimer now32) now32' = false := by
      have hq : s.entry.list.qlen = 0 := by
        rw [h.represented.counted, hnil, List.length_nil]
      simp [flushOneDue, setLastIndSeq, Session.setTimer, hq]
    rw [indicateLegacyOrAmsdu_eq fun _ => hquiet]
    refine Delivering.passUp hopen rx.sequence.isLt rfl ?_ _
    have htrack : ((s.setLastIndSeq rx.sequence).setTimer now32).track =
        s.track.step 4096 (.moved rx.sequence) := track_setLastIndSeq s rx.sequence.isLt
    rw [htrack]
    exact (h.cleared hreset).moved 1 _
  · obtain ⟨hlt, hin⟩ := h.represented.inWindow hreset
    have hturn := hok (Or.inl hstep)
    have hone := seqStepOne_dist hlt hstep
    have hslide : s.Slide 0 (ahead s.entry.lastIndSeq rx.sequence) rx.sequence := by
      refine ⟨(Circular.add_ahead hlt rx.sequence.isLt).symm, by omega, by simp, fun m hm => ?_⟩
      have hm1 := (hin.within m hm).1
      have hne : m.dist s.entry.lastIndSeq ≠ 1 := by
        intro h1
        have hseq := ahead_inj hlt m.sequence.isLt rx.sequence.isLt (h1.trans hone.symm)
        rw [List.drop_zero] at hm
        exact hturn.notBuffered (List.mem_map.mpr ⟨m, hm, Fin.ext hseq⟩)
      omega
    have hpass := h.pass hreset hslide hone.ge hturn
    rw [release_zero] at hpass
    exact hpass.indicateInOrder.setTimer now32
  · exact ⟨h.represented, h.cleared, h.behind⟩
  · exact ⟨h.represented, h.cleared, h.behind⟩
  · obtain ⟨hlt, -⟩ := h.represented.inWindow hreset
    have hd := dist_of_new hlt rx.sequence.isLt hlast hold
    rw [within_window_iff h.represented.bounds.2 hlt rx.sequence.isLt hd] at hwin
    exact h.enqueue hreset hd.1 hwin fun hb =>
      hok (Or.inr ⟨hlast, Bool.not_eq_true _ ▸ hold, hb⟩)
  · obtain ⟨hlt, hin⟩ := h.represented.inWindow hreset
    have hb := h.represented.bounds
    have hd := dist_of_new hlt rx.sequence.isLt hlast hold
    rw [within_window_iff hb.2 hlt rx.sequence.isLt hd, not_le] at hwin
    obtain ⟨htarget, hend⟩ := winStartSeq_slide hb.2 hlt rx.sequence.isLt hwin
    obtain ⟨k, he, hs⟩ := h.represented.leSeq_slide hreset htarget (by omega)
    rw [he]
    have hmoved := (h.slide hreset hs).setTimer now32
    have hlt' : winStartSeq rx.sequence s.entry.baWinSize < 4096 :=
      htarget ▸ Nat.mod_lt _ (by norm_num)
    refine (hmoved.enqueue (ne_resetRcvSeq hlt') (hend.ge.trans' hb.1) hend.le
      fun _ => ?_).indicateInOrder
    -- What is left of the list lies in the old window, the frame beyond it.
    have hbehind : ∀ m ∈ s.entry.list.next.drop k,
        m.dist s.entry.lastIndSeq < ahead s.entry.lastIndSeq rx.sequence := fun m hm =>
      (hin.within m (List.mem_of_mem_drop hm)).2.trans_lt hwin
    refine ⟨fun hmem => ?_, fun _ _ m hm => ?_⟩
    · obtain ⟨m, hm, hseq⟩ := List.mem_map.mp hmem
      have := hbehind m hm
      rw [ReorderingMpdu.dist, hseq] at this
      exact lt_irrefl _ this
    · have hlt := hbehind m hm
      rw [← Bool.not_eq_true, seqSmaller_iff_ahead (h.represented.inWindow hreset).1
        rx.sequence.isLt m.sequence.isLt (by omega) (hlt.trans (by omega))]
      exact hlt.le.not_gt

theorem Delivering.blockAckReq {s : Session π w} (h : s.Delivering) {startSeq : Fin 4096}
    (hok : seqSmaller s.entry.lastIndSeq startSeq = true →
      startSeq ∉ s.entry.list.next.map (·.sequence)) :
    (s.cntlEnqueueForRecv startSeq).Delivering := by
  have hrep := h.represented.blockAckReq startSeq
  unfold cntlEnqueueForRecv at hrep ⊢
  by_cases hmove : seqSmaller s.entry.lastIndSeq startSeq = true
  · rw [if_pos hmove] at hrep ⊢
    have hv : (if startSeq.val = 0 then maxSeq else startSeq.val - 1) < 4096 := by
      have := startSeq.isLt
      simp only [maxSeq]
      split <;> omega
    refine ⟨hrep, fun hr => absurd hr (ne_resetRcvSeq hv), fun _ => ?_⟩
    by_cases hl : s.entry.lastIndSeq = resetRcvSeq
    · rw [track_setLastIndSeq _ hv, baIndicateReorderingMpdusLeSeq_eq h.represented.counted,
        h.represented.nil_of_reset hl, List.takeWhile_nil, List.length_nil, release_zero]
      exact (h.cleared hl).moved 0 _
    · obtain ⟨hlt, hwin⟩ := h.represented.inWindow hl
      obtain ⟨hs, hlo, hhi, htarget⟩ := blockAckReq_dist hlt startSeq.isLt hmove
      obtain ⟨k, he, hgone, hleft⟩ := h.represented.leSeq hl hs hhi
      rw [he]
      have hpast : ∀ m ∈ s.entry.list.next.take k,
          m.dist s.entry.lastIndSeq ≤ ahead s.entry.lastIndSeq startSeq - 1 := by
        intro m hm
        have hle := hgone m hm
        have hne : m.dist s.entry.lastIndSeq ≠ ahead s.entry.lastIndSeq startSeq := by
          intro hd
          have hseq := ahead_inj hlt m.sequence.isLt startSeq.isLt hd
          exact hok hmove (List.mem_map.mpr ⟨m, List.mem_of_mem_take hm, Fin.ext hseq⟩)
        omega
      have hslide : s.Slide k (ahead s.entry.lastIndSeq startSeq - 1)
          (if startSeq.val = 0 then maxSeq else startSeq.val - 1) :=
        ⟨htarget, by omega, hpast, fun m hm => (Nat.sub_le _ _).trans_lt (hleft m hm)⟩
      exact h.behind_slide hl hslide (Nat.zero_le _) hpast
  · rw [if_neg hmove]
    exact h

theorem Delivering.add {s : Session π w} (h : s.Delivering)
    (wcid tid bufSize rxBaWinLimit timeOutValue : ℕ) :
    (s.baRefreshReorderingMpdus.openEntry wcid tid bufSize rxBaWinLimit timeOutValue).Delivering where
  represented := h.represented.add _ _ _ _ _
  cleared := fun _ => by
    have htrack : (s.baRefreshReorderingMpdus.openEntry wcid tid bufSize rxBaWinLimit
        timeOutValue).track = s.baRefreshReorderingMpdus.track.step 4096 .reset := by
      simp [track, openEntry, setLastIndSeq, Circular.track_append, Event.mark]
    rw [htrack]
    exact h.refresh.ordered.reset
  behind := fun hn => absurd rfl hn

/-- The branches that break the order are not taken: an MPDU passed up directly is in turn, and
a BlockAckReq that moves the window does not start at a buffered number. -/
def KeepsOrder (osHz : ℕ) (s : Session π w) : SessionEvent π w → Prop
  | .indicate rx now32 now32' =>
      rx.oversized = false → (s.openingFlush osHz rx now32).PassedDirectly rx →
        (s.openingFlush osHz rx now32).InTurn osHz rx now32'
  | .blockAckReq startSeq =>
      seqSmaller s.entry.lastIndSeq startSeq = true →
        startSeq ∉ s.entry.list.next.map (·.sequence)
  | _ => True

theorem Delivering.step {osHz : ℕ} {s : Session π w} (h : s.Delivering) (e : SessionEvent π w)
    (hok : s.KeepsOrder osHz e) : (s.step osHz e).Delivering := by
  cases e with
  | indicate rx now32 now32' =>
    simp only [Session.step, indicateAmpduPacket]
    cases ho : rx.oversized with
    | true => exact h
    | false =>
      have hopen : (s.openingFlush osHz rx now32).Delivering :=
        (Delivering.flush (s := { s with entry := { s.entry with rcvSeq := rx.sequence } })
          ⟨h.represented, h.cleared, h.behind⟩ now32).setTimer now32
      exact hopen.indicateBySequence (hok ho)
  | blockAckReq startSeq => exact h.blockAckReq hok
  | timeout now32 => exact h.flush now32
  | idle now32 =>
    simp only [Session.step, baRecSessionIdleTimeout]
    split_ifs
    · exact h.refresh
    · exact h
  | add bufSize rxBaWinLimit timeOutValue => exact h.add _ _ _ _ _
  | pool freelist => exact ⟨h.represented, h.cleared, h.behind⟩

theorem delivering_opened (entry : BaRecEntry π w) (freelist : ReorderingList π)
    (wcid tid bufSize rxBaWinLimit timeOutValue : ℕ) :
    (opened entry freelist wcid tid bufSize rxBaWinLimit timeOutValue).Delivering where
  represented := represented_opened _ _ _ _ _ _ _
  cleared := fun _ => Circular.Track.Ordered.reset (m := 4096) Circular.Track.cleared_start.toOrdered
  behind := fun hn => absurd rfl hn

/-- Every run whose frames are passed up in turn, and whose BlockAckReqs start at numbers that
are not buffered, delivers in order between two resets. -/
theorem run_deliversInOrder (osHz : ℕ) (entry : BaRecEntry π w) (freelist : ReorderingList π)
    (wcid tid bufSize rxBaWinLimit timeOutValue : ℕ) (es : List (SessionEvent π w))
    (h : Guarded (step osHz) (KeepsOrder osHz)
      (opened entry freelist wcid tid bufSize rxBaWinLimit timeOutValue) es) :
    (run (step osHz) (opened entry freelist wcid tid bufSize rxBaWinLimit timeOutValue)
      es).DeliversInOrder :=
  Delivering.deliversInOrder (guarded_invariant Delivering
    (fun _ e hs hok => hs.step e hok) (delivering_opened _ _ _ _ _ _ _) h)

instance (s : Session π w) (rx : RxBlk π) : Decidable (s.Bypasses rx) :=
  inferInstanceAs (Decidable (_ ∨ (baDequeue s.freelist).1 = none))

instance (s : Session π w) (rx : RxBlk π) : Decidable (s.PassedDirectly rx) :=
  inferInstanceAs (Decidable (_ ∨ _ ∧ _ ∧ s.Bypasses rx))

theorem inTurn_iff (osHz : ℕ) (s : Session π w) (rx : RxBlk π) (now32 : BitVec w) :
    s.InTurn osHz rx now32 ↔ rx.sequence ∉ s.entry.list.next.map (·.sequence) ∧
      (rx.legacy = true →
        timeAfter now32 (s.entry.lastIndSeqAtTimer + reorderingPacketTimeout osHz) = true →
        ∀ m ∈ s.entry.list.next, seqSmaller rx.sequence m.sequence = false) :=
  ⟨fun h => ⟨h.1, h.2⟩, fun h => ⟨h.1, h.2⟩⟩

instance (osHz : ℕ) (s : Session π w) (rx : RxBlk π) (now32 : BitVec w) :
    Decidable (s.InTurn osHz rx now32) :=
  decidable_of_iff _ (inTurn_iff osHz s rx now32).symm

instance (osHz : ℕ) (s : Session π w) : ∀ e, Decidable (s.KeepsOrder osHz e)
  | .indicate _ _ _ => inferInstanceAs (Decidable (_ → _ → _))
  | .blockAckReq _ => inferInstanceAs (Decidable (_ → _ ∉ _))
  | .timeout _ | .idle _ | .add _ _ _ | .pool _ => isTrue trivial

theorem run_deliversInOrder_small :
    Guarded (step 250) (KeepsOrder 250) smallSession
      [.indicate (mpdu 4095) 0 0, .indicate (mpdu 1) 0 0, .indicate (mpdu 0) 0 0] ∧
    (run (step 250) smallSession
      [.indicate (mpdu 4095) 0 0, .indicate (mpdu 1) 0 0,
        .indicate (mpdu 0) 0 0]).DeliversInOrder :=
  have h : Guarded (step 250) (KeepsOrder 250) smallSession
      [.indicate (mpdu 4095) 0 0, .indicate (mpdu 1) 0 0, .indicate (mpdu 0) 0 0] := by
    decide
  ⟨h, run_deliversInOrder 250 _ _ _ _ _ _ _ _ h⟩

/-- A BlockAckReq that starts at the buffered number 10 passes it up and expects it again. -/
theorem passed_up_twice :
    ¬ (run (step 250) smallSession
      [.indicate (mpdu 8) 0 0, .indicate (mpdu 10) 0 0, .blockAckReq 10,
        .indicate (mpdu 10) 0 0]).DeliversInOrder := by
  decide

end Session
end Rt5572
