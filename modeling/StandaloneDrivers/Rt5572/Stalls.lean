import StandaloneDrivers.Rt5572.Delivery
import StandaloneDrivers.Foundations.Bytes

/-! No MPDU that has become deliverable stays in the reordering list. -/
namespace Rt5572
open Foundations
attribute [local instance] neZero_seqRange
variable {π : Type} {w : ℕ}

namespace Session

/-- The place of the first buffered MPDU on the track of the session. -/
def headPlace (s : Session π w) : Option ℤ :=
  match s.entry.list.next.head?, s.track.ref with
  | some m, some (r, p) => some (p + Circular.signed 4096 r m.sequence)
  | _, _ => none

/-- The highest number passed up since the last reset. -/
def topPlace (s : Session π w) : Option ℤ := s.track.seg.max?

/-- The first buffered MPDU directly follows the highest number passed up. -/
def Stalled (s : Session π w) : Prop :=
  s.headPlace ≠ none ∧ s.headPlace = s.topPlace.map (· + 1)

instance (s : Session π w) : Decidable s.Stalled := inferInstanceAs (Decidable (_ ∧ _))

/-- The number after `LastIndSeq` has been passed up. -/
def nextPassed (s : Session π w) : Bool :=
  match s.track.ref with
  | none => false
  | some (_, p) => p + 1 ∈ s.track.seg

/-- A state between the statements of a call: nothing passed up lies more than `n` numbers beyond
`LastIndSeq`. -/
structure Loose (n : ℕ) (s : Session π w) : Prop where
  represented : s.Represented
  active : s.entry.lastIndSeq ≠ resetRcvSeq
  upto : s.track.Upto n s.entry.lastIndSeq

/-- Between the numbers passed up and those in the list at least one is missing. -/
structure Settled (s : Session π w) : Prop where
  represented : s.Represented
  cleared : s.entry.lastIndSeq = resetRcvSeq → s.track.ref = none ∧ s.track.seg = []
  gap : s.entry.lastIndSeq ≠ resetRcvSeq → ∃ n ≤ 1, s.track.Upto n s.entry.lastIndSeq ∧
    ∀ m ∈ s.entry.list.next, n + 2 ≤ m.dist s.entry.lastIndSeq

theorem Settled.not_stalled {s : Session π w} (h : s.Settled) : ¬ s.Stalled := by
  rintro ⟨hsome, heq⟩
  unfold headPlace at hsome heq
  cases hhead : s.entry.list.next.head? with
  | none => simp [hhead] at hsome
  | some m =>
    have hm : m ∈ s.entry.list.next := List.mem_of_mem_head? hhead
    have hl : s.entry.lastIndSeq ≠ resetRcvSeq := by
      intro hl
      rw [h.represented.nil_of_reset hl] at hm
      simp at hm
    obtain ⟨hlt, hwin⟩ := h.represented.inWindow hl
    obtain ⟨n, hn, ⟨p, hp, hle⟩, hdist⟩ := h.gap hl
    have hfar := hdist m hm
    have hnear := (hwin.within m hm).2
    have hb := h.represented.bounds.2
    have hplace : Circular.signed 4096 s.entry.lastIndSeq m.sequence =
        m.dist s.entry.lastIndSeq :=
      Circular.signed_ahead hlt m.sequence.isLt (by
        simp only [ReorderingMpdu.dist, ahead] at hnear
        omega)
    simp only [hhead, hp, hplace] at heq
    obtain ⟨x, hx, hnext⟩ := Option.map_eq_some_iff.mp heq.symm
    have hmem : x ∈ s.track.seg := List.max?_mem hx
    have := hle x hmem
    omega

/-- `LastIndSeq` is set for the first time. -/
theorem Settled.opening {s : Session π w} (h : s.Settled)
    (hl : s.entry.lastIndSeq = resetRcvSeq) {v : ℕ} (hv : v < 4096) :
    (s.setLastIndSeq v).Loose 0 := by
  obtain ⟨href, hseg⟩ := h.cleared hl
  constructor
  · refine ⟨h.represented.counted, h.represented.bounds, Or.inr ⟨hv, ?_⟩⟩
    simp only [setLastIndSeq, h.represented.nil_of_reset hl]
    exact InWindow.nil _ _
  · exact ne_resetRcvSeq hv
  · rw [track_setLastIndSeq s hv]
    simp only [Circular.Track.step, href]
    exact ⟨_, rfl, by simp [hseg]⟩

/-- The first `k` blocks leave, and `LastIndSeq` moves by `d`. -/
theorem Loose.slide {s : Session π w} {n k k' d v : ℕ} (h : s.Loose n)
    (hv : v = (s.entry.lastIndSeq + d) % 4096) (hn : n ≤ d + k') (hd : d + k' ≤ 2047)
    (hgone : ∀ m ∈ s.entry.list.next.take k, m.dist s.entry.lastIndSeq ≤ d + k')
    (hleft : ∀ m ∈ s.entry.list.next.drop k, d < m.dist s.entry.lastIndSeq) :
    ((s.release k).setLastIndSeq v).Loose k' := by
  obtain ⟨hlt, -⟩ := h.represented.inWindow h.active
  have hv4 : v < 4096 := hv ▸ Nat.mod_lt _ (by norm_num)
  constructor
  · exact h.represented.slide h.active hv hleft
  · exact ne_resetRcvSeq hv4
  · have hslide := h.upto.slide ((s.entry.list.next.take k).map fun m => m.sequence.val) hlt hv hn
      (by omega) (by
        intro x hx
        obtain ⟨m, hm, rfl⟩ := List.mem_map.mp hx
        exact ⟨m.sequence.isLt, hgone m hm⟩)
    rw [track_setLastIndSeq _ hv4, track_release]
    rwa [List.foldl_append, List.foldl_cons, List.foldl_nil] at hslide

theorem Loose.settled {s : Session π w} {n : ℕ} (h : s.Loose n) (hn : n ≤ 1)
    (hgap : ∀ m ∈ s.entry.list.next, n + 2 ≤ m.dist s.entry.lastIndSeq) : s.Settled where
  represented := h.represented
  cleared := fun hl => absurd hl h.active
  gap := fun _ => ⟨n, hn, h.upto, hgap⟩

theorem Settled.loose {s : Session π w} (h : s.Settled) (hl : s.entry.lastIndSeq ≠ resetRcvSeq) :
    ∃ n ≤ 1, s.Loose n ∧ ∀ m ∈ s.entry.list.next, n + 2 ≤ m.dist s.entry.lastIndSeq := by
  obtain ⟨n, hn, hupto, hgap⟩ := h.gap hl
  exact ⟨n, hn, ⟨h.represented, hl, hupto⟩, hgap⟩

/-- A look at the list after `LastIndSeq` has moved lets the deliverable MPDUs out. -/
theorem Loose.indicateInOrder {s : Session π w} (h : s.Loose 0) :
    (s.indicateInOrder s.entry.lastIndSeq).Settled ∧
      ∃ e ≤ 255, (s.indicateInOrder s.entry.lastIndSeq).entry.lastIndSeq =
        (s.entry.lastIndSeq + e) % 4096 := by
  obtain ⟨hlt, hwin⟩ := h.represented.inWindow h.active
  have hb := h.represented.bounds.2
  obtain ⟨htake, hin, hleft, hlast⟩ := consecutive_spec hb hlt hwin
  rw [indicateInOrder_eq h.represented.counted]
  have hlen : (consecutive s.entry.lastIndSeq s.entry.list.next).length ≤ 255 := by
    have hle := congrArg List.length htake
    have := hwin.length_le
    rw [List.length_take] at hle
    omega
  cases hm : (consecutive s.entry.lastIndSeq s.entry.list.next).getLast? with
  | none =>
    rw [List.getLast?_eq_none_iff] at hm
    constructor
    · apply h.settled (Nat.zero_le 1)
      intro m hmem
      have := hleft m (by simpa [hm] using hmem)
      rw [hm, List.length_nil] at this
      omega
    · exact ⟨0, by omega, by simp [Nat.mod_eq_of_lt hlt]⟩
  | some m =>
    have htarget := hlast m hm
    constructor
    · have hloose : ((s.release (consecutive s.entry.lastIndSeq
          s.entry.list.next).length).setLastIndSeq m.sequence).Loose 0 := h.slide htarget
        (by omega) (by omega)
        (by
          intro x hx
          rw [← htake] at hx
          exact hin x hx)
        (fun x hx => (Nat.lt_succ_self _).trans (hleft x hx))
      apply hloose.settled (Nat.zero_le 1)
      intro x hx
      have hx' := hleft x hx
      have hshift := ahead_shift hlt x.sequence.isLt htarget (by
        simp only [ReorderingMpdu.dist] at hx'
        omega)
      simp only [setLastIndSeq, ReorderingMpdu.dist] at hx' ⊢
      omega
    · exact ⟨_, hlen, htarget⟩

theorem Settled.refresh {s : Session π w} (h : s.Represented) :
    s.baRefreshReorderingMpdus.Settled where
  represented := h.refresh
  cleared := fun _ => by
    have htrack : s.baRefreshReorderingMpdus.track =
        (refreshLoop (s.entry.list.next.length + 1) s).track.step 4096 .reset := by
      simp [baRefreshReorderingMpdus, track, setLastIndSeq, Circular.track_append, Event.mark]
    rw [htrack]
    exact ⟨rfl, rfl⟩
  gap := fun hn => absurd rfl hn

theorem Loose.setTimer {s : Session π w} {n : ℕ} (h : s.Loose n) (now32 : BitVec w) :
    (s.setTimer now32).Loose n := ⟨h.represented, h.active, h.upto⟩

theorem Settled.setTimer {s : Session π w} (h : s.Settled) (now32 : BitVec w) :
    (s.setTimer now32).Settled := ⟨h.represented, h.cleared, h.gap⟩

/-- The timeout that gives up the next number. -/
theorem Loose.flushOne {osHz : ℕ} {s : Session π w} {n : ℕ} (h : s.Loose n) (hn : n ≤ 1)
    {now32 : BitVec w} (hall : flushAllDue osHz s now32 = false)
    (hone : flushOneDue osHz s now32 = true) :
    (s.baFlushReorderingTimeoutMpdus osHz now32).Settled ∧
      ∃ e ≤ 256, (s.baFlushReorderingTimeoutMpdus osHz now32).entry.lastIndSeq =
        (s.entry.lastIndSeq + e) % 4096 := by
  have hq : s.entry.list.qlen ≠ 0 := by
    rw [flushOneDue, Bool.and_eq_true, decide_eq_true_iff] at hone
    omega
  obtain ⟨k, he, hgone, hleft⟩ := h.represented.leSeq h.active
    (and_maxSeq (s.entry.lastIndSeq + 1)) (by norm_num)
  have hmoved : ((s.release k).setLastIndSeq ((s.entry.lastIndSeq + 1) &&& maxSeq)).Loose 0 :=
    h.slide (and_maxSeq (s.entry.lastIndSeq + 1)) (by omega) (by norm_num) hgone hleft
  obtain ⟨hsettled, e, hle, htarget⟩ := (hmoved.setTimer now32).indicateInOrder
  have hflush : s.baFlushReorderingTimeoutMpdus osHz now32 =
      (((s.release k).setTimer now32).setLastIndSeq
        ((s.entry.lastIndSeq + 1) &&& maxSeq)).indicateInOrder
          ((s.entry.lastIndSeq + 1) &&& maxSeq) := by
    simp [baFlushReorderingTimeoutMpdus, hq, hall, hone, he]
  rw [hflush]
  refine ⟨hsettled, e + 1, by omega, ?_⟩
  have hnext : ((s.entry.lastIndSeq + 1) &&& maxSeq) = (s.entry.lastIndSeq + 1) % 4096 :=
    and_maxSeq _
  refine Eq.trans htarget ?_
  simp only [Session.setTimer, setLastIndSeq, hnext]
  omega

theorem Settled.flush {osHz : ℕ} {s : Session π w} (h : s.Settled) (now32 : BitVec w) :
    (s.baFlushReorderingTimeoutMpdus osHz now32).Settled := by
  by_cases hq : s.entry.list.qlen = 0
  · rw [baFlushReorderingTimeoutMpdus, if_pos hq]
    exact h
  · cases hall : flushAllDue osHz s now32 with
    | true =>
      rw [baFlushReorderingTimeoutMpdus, if_neg hq, if_pos hall]
      exact (Settled.refresh h.represented).setTimer now32
    | false =>
      cases hone : flushOneDue osHz s now32 with
      | true =>
        have hl : s.entry.lastIndSeq ≠ resetRcvSeq := by
          intro hl
          exact hq (by rw [h.represented.counted, h.represented.nil_of_reset hl, List.length_nil])
        obtain ⟨n, hn, hloose, -⟩ := h.loose hl
        exact (hloose.flushOne hn hall hone).1
      | false =>
        simpa [baFlushReorderingTimeoutMpdus, hq, hall, hone] using h

/-! Frames passed up without a stay in the list. -/

/-- A frame at or behind `LastIndSeq` is passed up. -/
theorem Settled.passUp {s : Session π w} (h : s.Settled) (hl : s.entry.lastIndSeq ≠ resetRcvSeq)
    {sequence d : ℕ} (hs : sequence < 4096) (hd : d ≤ 2047)
    (hlast : s.entry.lastIndSeq = (sequence + d) % 4096) (packet : Option π) :
    (s.passUp sequence packet).Settled where
  represented := h.represented
  cleared := fun hr => absurd hr hl
  gap := fun _ => by
    obtain ⟨n, hn, hupto, hgap⟩ := h.gap hl
    refine ⟨n, hn, ?_, hgap⟩
    rw [track_passUp]
    apply hupto.passed
    have hback := @Circular.signed_mod 4096 sequence d 0 (by omega) (by omega)
    rw [Nat.add_zero, Nat.mod_eq_of_lt hs, ← hlast] at hback
    rw [hback]
    omega

theorem Loose.passUp {s : Session π w} (h : s.Loose 0) {sequence : ℕ}
    (hlast : s.entry.lastIndSeq = sequence) (packet : Option π) :
    (s.passUp sequence packet).Loose 0 where
  represented := h.represented
  active := h.active
  upto := by
    obtain ⟨hlt, -⟩ := h.represented.inWindow h.active
    rw [track_passUp]
    apply h.upto.passed
    have hself := @Circular.signed_add 4096 s.entry.lastIndSeq 0 hlt (by norm_num)
    rw [Nat.add_zero, Nat.mod_eq_of_lt hlt] at hself
    rw [← hlast, hself]

theorem indicateLegacyOrAmsdu_legacy {osHz : ℕ} {s : Session π w} {rx : RxBlk π}
    {now32 : BitVec w} (h : rx.legacy = true) :
    s.indicateLegacyOrAmsdu osHz rx now32 = s.indicateLegacyPacket osHz rx now32 := by
  simp only [RxBlk.legacy, Bool.and_eq_true, Bool.not_eq_true', Bool.or_eq_true] at h
  unfold indicateLegacyOrAmsdu
  rw [if_neg (by simp [h.1]), if_neg]
  rcases h.2 with heap | hupper
  · simp [heap]
  · simp [hupper]

/-- The frame to which `LastIndSeq` has moved is passed up, after a timeout or without one. -/
theorem Loose.pass {osHz : ℕ} {s : Session π w} (h : s.Loose 0) {rx : RxBlk π} {now32 : BitVec w}
    (hlast : s.entry.lastIndSeq = rx.sequence)
    (hall : rx.legacy = true → flushAllDue osHz s now32 = false) :
    (s.indicateLegacyOrAmsdu osHz rx now32).Settled ∨
      ¬ (rx.legacy = true ∧ flushOneDue osHz s now32 = true) ∧
        s.indicateLegacyOrAmsdu osHz rx now32 = s.passUp rx.sequence (some rx.pRxPacket) := by
  by_cases hdue : rx.legacy = true ∧ flushOneDue osHz s now32 = true
  · obtain ⟨hleg, hone⟩ := hdue
    obtain ⟨hsettled, e, he, htarget⟩ := h.flushOne (Nat.zero_le 1) (hall hleg) hone
    rw [indicateLegacyOrAmsdu_legacy hleg, indicateLegacyPacket]
    simp only [hone, if_true]
    left
    apply hsettled.passUp _ rx.sequence.isLt (by omega) (hlast ▸ htarget)
    rw [htarget]
    exact ne_resetRcvSeq (Nat.mod_lt _ (by norm_num))
  · right
    refine ⟨hdue, indicateLegacyOrAmsdu_eq ?_⟩
    intro hleg
    exact Bool.eq_false_iff.mpr fun hone => hdue ⟨hleg, hone⟩

theorem consecutive_nil_of_gap {last : ℕ} (hl : last < 4096) {ms : List (ReorderingMpdu π)}
    (h : ∀ m ∈ ms, 2 ≤ m.dist last) : consecutive last ms = [] := by
  cases ms with
  | nil => rfl
  | cons m ms =>
    rw [consecutive, if_neg]
    intro hstep
    have hone := seqStepOne_dist hl hstep
    have htwo := h m List.mem_cons_self
    simp only [ReorderingMpdu.dist] at htwo
    omega

theorem Settled.indicateInOrder {s : Session π w} (h : s.Settled) :
    s.indicateInOrder s.entry.lastIndSeq = s := by
  have hnil : consecutive s.entry.lastIndSeq s.entry.list.next = [] := by
    by_cases hl : s.entry.lastIndSeq = resetRcvSeq
    · rw [h.represented.nil_of_reset hl]
      rfl
    · obtain ⟨n, -, hloose, hgap⟩ := h.loose hl
      obtain ⟨hlt, -⟩ := h.represented.inWindow hl
      apply consecutive_nil_of_gap hlt
      intro m hm
      have := hgap m hm
      omega
  rw [indicateInOrder_eq h.represented.counted, hnil]
  rfl

/-- A frame is passed up, and the list is looked at afterwards. -/
theorem Loose.pass_inOrder {osHz : ℕ} {s : Session π w} (h : s.Loose 0) {rx : RxBlk π}
    {now32 : BitVec w} (hlast : s.entry.lastIndSeq = rx.sequence)
    (hall : rx.legacy = true → flushAllDue osHz s now32 = false) :
    ((s.indicateLegacyOrAmsdu osHz rx now32).indicateInOrder
      (s.indicateLegacyOrAmsdu osHz rx now32).entry.lastIndSeq).Settled := by
  rcases h.pass hlast hall with hsettled | ⟨-, he⟩
  · rw [hsettled.indicateInOrder]
    exact hsettled
  · rw [he]
    exact (h.passUp hlast _).indicateInOrder.1

/-- A frame that goes past the list takes the MPDUs before it with it. -/
theorem Loose.bypass {s : Session π w} {n : ℕ} (h : s.Loose n) (hn : n ≤ 1) (osHz : ℕ)
    (rx : RxBlk π) (now32 : BitVec w) (hlo : 1 ≤ ahead s.entry.lastIndSeq rx.sequence)
    (hhi : ahead s.entry.lastIndSeq rx.sequence ≤ 2047) :
    ∃ k, ((s.release k).setLastIndSeq rx.sequence).Loose 0 ∧
      baEnqueueReorderingPacket.bypass osHz rx now32 s =
        ((s.release k).setLastIndSeq rx.sequence).indicateLegacyOrAmsdu osHz rx now32 := by
  have hlt := (h.represented.inWindow h.active).1
  have hv : rx.sequence.val =
      (s.entry.lastIndSeq + ahead s.entry.lastIndSeq rx.sequence) % 4096 :=
    (Circular.add_ahead hlt rx.sequence.isLt).symm
  obtain ⟨k, he, hgone, hleft⟩ := h.represented.leSeq h.active hv (by omega)
  refine ⟨k, h.slide hv (by omega) (by omega) hgone hleft, ?_⟩
  rw [baEnqueueReorderingPacket.bypass, he]

/-- What `ba_enqueue_reordering_packet` does: the frame goes past the list or into it. -/
theorem baEnqueueReorderingPacket_cases (osHz : ℕ) (s : Session π w) (rx : RxBlk π)
    (now32 : BitVec w) :
    (s.Bypasses rx ∧ s.baEnqueueReorderingPacket osHz rx now32 =
      baEnqueueReorderingPacket.bypass osHz rx now32 s.baMpduBlkAlloc.2) ∨
    (¬ s.Bypasses rx ∧ (s.baEnqueueReorderingPacket osHz rx now32).trace = s.trace ∧
      ((s.baEnqueueReorderingPacket osHz rx now32).entry = s.entry ∨
        ∃ blk list, blk.sequence = rx.sequence ∧
          baReorderingMpduInsertsorted s.entry.list blk = some list ∧
          (s.baEnqueueReorderingPacket osHz rx now32).entry = { s.entry with list := list })) := by
  unfold Bypasses baEnqueueReorderingPacket
  have hfst : s.baMpduBlkAlloc.1 = (baDequeue s.freelist).1.map fun b =>
      ⟨b.id, none, 0, false, 0⟩ := rfl
  have hentry := entry_baMpduBlkAlloc s
  have htrace := trace_baMpduBlkAlloc s
  rcases ha : s.baMpduBlkAlloc with ⟨blk, s'⟩
  rw [ha] at hfst hentry htrace
  dsimp only at hfst hentry htrace ⊢
  cases blk with
  | none =>
    left
    exact ⟨Or.inr (Option.map_eq_none_iff.mp hfst.symm), rfl⟩
  | some blk =>
    by_cases heap : rx.fRxEAP = true
    · left
      exact ⟨Or.inl heap, by simp [heap]⟩
    · right
      have hsome : (baDequeue s.freelist).1 ≠ none := by
        intro hnone
        simp [hnone] at hfst
      refine ⟨by simp [heap, hsome], ?_⟩
      simp only [heap, Bool.false_eq_true, if_false, hentry]
      split
      · next list hins =>
        exact ⟨htrace, Or.inr ⟨_, list, rfl, hins, by simp [setList, hentry]⟩⟩
      · exact ⟨htrace, Or.inl hentry⟩

/-- A frame that goes into the list. -/
theorem Loose.insert {s : Session π w} {n : ℕ} (h : s.Loose n) (osHz : ℕ) (rx : RxBlk π)
    (now32 : BitVec w) (hlo : 1 ≤ ahead s.entry.lastIndSeq rx.sequence)
    (hhi : ahead s.entry.lastIndSeq rx.sequence ≤ s.entry.baWinSize) (hinto : ¬ s.Bypasses rx) :
    (s.baEnqueueReorderingPacket osHz rx now32).Loose n ∧
      (s.baEnqueueReorderingPacket osHz rx now32).entry.lastIndSeq = s.entry.lastIndSeq ∧
      ∀ m ∈ (s.baEnqueueReorderingPacket osHz rx now32).entry.list.next,
        m ∈ s.entry.list.next ∨ m.sequence = rx.sequence := by
  have hrep := h.represented.enqueue osHz h.active rx now32 hlo hhi
  rcases baEnqueueReorderingPacket_cases osHz s rx now32 with ⟨hb, -⟩ | ⟨-, htrace, hcases⟩
  · exact absurd hb hinto
  · have htrack : (s.baEnqueueReorderingPacket osHz rx now32).track = s.track := by
      rw [track, htrace]
      rfl
    rcases hcases with hsame | ⟨blk, list, hseq, hins, hentry⟩
    · refine ⟨⟨hrep, ?_, ?_⟩, by rw [hsame], ?_⟩
      · rw [hsame]
        exact h.active
      · rw [htrack, hsame]
        exact h.upto
      · intro m hm
        rw [hsame] at hm
        exact Or.inl hm
    · refine ⟨⟨hrep, ?_, ?_⟩, by rw [hentry], ?_⟩
      · rw [hentry]
        exact h.active
      · rw [htrack, hentry]
        exact h.upto
      · intro m hm
        obtain ⟨hlt, hwin⟩ := h.represented.inWindow h.active
        obtain ⟨next, hnext, rfl⟩ := Option.map_eq_some_iff.mp hins
        have hspec := insertSortedScan_spec h.represented.bounds.2 hlt
          (by rwa [ReorderingMpdu.dist, hseq]) (by rwa [ReorderingMpdu.dist, hseq]) hwin
        rw [hnext] at hspec
        rw [hentry] at hm
        rcases List.mem_cons.mp (hspec.2.1.subset hm) with rfl | hm
        · exact Or.inr hseq
        · exact Or.inl hm

/-! The steps. -/

theorem Loose.mono {s : Session π w} {n : ℕ} (h : s.Loose n) (hn : n ≤ 1) : s.Loose 1 where
  represented := h.represented
  active := h.active
  upto := by
    obtain ⟨p, hp, hle⟩ := h.upto.ref
    refine ⟨p, hp, ?_⟩
    intro x hx
    have := hle x hx
    omega

/-- Nothing beyond `LastIndSeq` has been passed up. -/
theorem Loose.of_not_nextPassed {s : Session π w} (h : s.Loose 1) (hnext : s.nextPassed = false) :
    s.Loose 0 where
  represented := h.represented
  active := h.active
  upto := by
    obtain ⟨p, hp, hle⟩ := h.upto.ref
    refine ⟨p, hp, ?_⟩
    intro x hx
    have hbound := hle x hx
    have hne : x ≠ p + 1 := by
      rintro rfl
      simp [nextPassed, hp, hx] at hnext
    omega

/-- The session's second look at the clock, in `Indicate_Legacy_Packet`, does not empty the list. -/
theorem flushAllDue_release {osHz : ℕ} {s : Session π w} {now32 : BitVec w} {k v : ℕ}
    (h : flushAllDue osHz s now32 = false) :
    flushAllDue osHz ((s.release k).setLastIndSeq v) now32 = false := by
  rw [Bool.eq_false_iff] at h ⊢
  intro hdue
  apply h
  rw [flushAllDue, Bool.and_eq_true] at hdue ⊢
  obtain ⟨htime, hlen⟩ := hdue
  have hlt : 1 < s.entry.list.qlen - (s.entry.list.next.take k).length := of_decide_eq_true hlen
  exact ⟨htime, decide_eq_true (hlt.trans_le (Nat.sub_le _ _))⟩

/-- A frame of the window goes past the list although the number after it is buffered, and no
timeout lets that MPDU out; or it goes into the list although it follows a number passed up. -/
def LeavesNext (osHz : ℕ) (s : Session π w) (rx : RxBlk π) (now32 : BitVec w) : Prop :=
  (s.Bypasses rx ∧ rx.sequence + 1 ∈ s.entry.list.next.map (·.sequence) ∧
    ¬ (rx.legacy = true ∧
      timeAfter now32 (s.entry.lastIndSeqAtTimer + reorderingPacketTimeout osHz) = true)) ∨
  (¬ s.Bypasses rx ∧ rx.sequence.val = (s.entry.lastIndSeq + 2) % 4096 ∧ s.nextPassed = true)

theorem sequence_eq_add_one {a b : Fin 4096} (h : ahead a b = 1) : b = a + 1 := by
  have hb : (a.val + ahead a b) % 4096 = b.val := Circular.add_ahead a.isLt b.isLt
  rw [h] at hb
  apply Fin.ext
  rw [Fin.val_add, ← hb]
  rfl

theorem Settled.enqueue {osHz : ℕ} {s : Session π w} (h : s.Settled)
    (hl : s.entry.lastIndSeq ≠ resetRcvSeq) {rx : RxBlk π} {now32 : BitVec w}
    (hlo : 2 ≤ ahead s.entry.lastIndSeq rx.sequence)
    (hhi : ahead s.entry.lastIndSeq rx.sequence ≤ s.entry.baWinSize)
    (hall : rx.legacy = true → flushAllDue osHz s now32 = false)
    (hok : ¬ s.LeavesNext osHz rx now32) :
    (s.baEnqueueReorderingPacket osHz rx now32).Settled := by
  obtain ⟨n, hn, hloose, hgap⟩ := h.loose hl
  obtain ⟨hlt, hwin⟩ := h.represented.inWindow hl
  have hb := h.represented.bounds.2
  by_cases hbypass : s.Bypasses rx
  · rcases baEnqueueReorderingPacket_cases osHz s rx now32 with ⟨-, he⟩ | ⟨hnot, -⟩
    · have halloc : s.baMpduBlkAlloc.2.Loose n := ⟨hloose.represented, hloose.active, hloose.upto⟩
      obtain ⟨k, hmoved, hpass⟩ := halloc.bypass hn osHz rx now32
        (by rw [entry_baMpduBlkAlloc]; omega) (by rw [entry_baMpduBlkAlloc]; omega)
      rw [he, hpass]
      have hquiet : rx.legacy = true → flushAllDue osHz
          ((s.baMpduBlkAlloc.2.release k).setLastIndSeq rx.sequence) now32 = false :=
        fun hleg => flushAllDue_release (hall hleg)
      rcases hmoved.pass rfl hquiet with hsettled | ⟨hdue, hup⟩
      · exact hsettled
      · rw [hup]
        apply (hmoved.passUp rfl _).settled (Nat.zero_le 1)
        intro m hm
        have hone := ((hmoved.represented.inWindow hmoved.active).2.within m hm).1
        have hne : m.dist rx.sequence ≠ 1 := by
          intro hnext
          apply hok
          left
          refine ⟨hbypass, ?_, ?_⟩
          · have hmem : m ∈ s.entry.list.next := List.mem_of_mem_drop hm
            exact List.mem_map.mpr ⟨m, hmem, sequence_eq_add_one hnext⟩
          · rintro ⟨hleg, htime⟩
            apply hdue
            refine ⟨hleg, ?_⟩
            rw [flushOneDue, Bool.and_eq_true]
            refine ⟨htime, decide_eq_true ?_⟩
            rw [hmoved.represented.counted]
            exact List.length_pos_of_mem hm
        change 0 + 2 ≤ m.dist rx.sequence
        change 1 ≤ m.dist rx.sequence at hone
        omega
    · exact absurd hbypass hnot
  · by_cases htwo : ahead s.entry.lastIndSeq rx.sequence = 2
    · have hseq : rx.sequence.val = (s.entry.lastIndSeq + 2) % 4096 := by
        rw [← htwo]
        exact (Circular.add_ahead hlt rx.sequence.isLt).symm
      have hnext : s.nextPassed = false := by
        rw [Bool.eq_false_iff]
        intro hpassed
        exact hok (Or.inr ⟨hbypass, hseq, hpassed⟩)
      obtain ⟨hinto, hlast, hlist⟩ := ((hloose.mono hn).of_not_nextPassed hnext).insert osHz rx
        now32 (by omega) hhi hbypass
      apply hinto.settled (Nat.zero_le 1)
      intro m hm
      rw [hlast]
      rcases hlist m hm with hold | hnew
      · have := hgap m hold
        omega
      · rw [ReorderingMpdu.dist, hnew]
        omega
    · obtain ⟨hinto, hlast, hlist⟩ := hloose.insert osHz rx now32 (by omega) hhi hbypass
      apply hinto.settled hn
      intro m hm
      rw [hlast]
      rcases hlist m hm with hold | hnew
      · exact hgap m hold
      · rw [ReorderingMpdu.dist, hnew]
        omega

/-- A frame of the window that is not next in order. -/
def InsideWindow (s : Session π w) (rx : RxBlk π) : Prop :=
  s.entry.lastIndSeq ≠ resetRcvSeq ∧ seqStepOne rx.sequence s.entry.lastIndSeq = false ∧
    rx.sequence.val ≠ s.entry.lastIndSeq ∧ seqSmaller rx.sequence s.entry.lastIndSeq = false ∧
    seqSmaller rx.sequence ((s.entry.lastIndSeq + s.entry.baWinSize + 1) &&& maxSeq) = true

/-- A frame after the window has moved for it; the list is looked at afterwards. -/
theorem Loose.enqueue_inOrder {osHz : ℕ} {s : Session π w} (h : s.Loose 0) {rx : RxBlk π}
    {now32 : BitVec w} (hlo : 1 ≤ ahead s.entry.lastIndSeq rx.sequence)
    (hhi : ahead s.entry.lastIndSeq rx.sequence ≤ s.entry.baWinSize)
    (hall : rx.legacy = true → flushAllDue osHz s now32 = false) :
    ((s.baEnqueueReorderingPacket osHz rx now32).indicateInOrder
      (s.baEnqueueReorderingPacket osHz rx now32).entry.lastIndSeq).Settled := by
  have hb := h.represented.bounds.2
  by_cases hbypass : s.Bypasses rx
  · rcases baEnqueueReorderingPacket_cases osHz s rx now32 with ⟨-, he⟩ | ⟨hnot, -⟩
    · have halloc : s.baMpduBlkAlloc.2.Loose 0 := ⟨h.represented, h.active, h.upto⟩
      obtain ⟨k, hmoved, hpass⟩ := halloc.bypass (Nat.zero_le 1) osHz rx now32
        (by rw [entry_baMpduBlkAlloc]; omega) (by rw [entry_baMpduBlkAlloc]; omega)
      rw [he, hpass]
      apply hmoved.pass_inOrder rfl
      intro hleg
      exact flushAllDue_release (hall hleg)
    · exact absurd hbypass hnot
  · exact (h.insert osHz rx now32 hlo hhi hbypass).1.indicateInOrder.1

theorem setTimer_self {s : Session π w} {now32 : BitVec w} (h : s.entry.lastIndSeqAtTimer = now32) :
    s.setTimer now32 = s := by
  rw [← h]
  rfl

theorem Settled.indicateBySequence {osHz : ℕ} {s : Session π w} (h : s.Settled) {rx : RxBlk π}
    {now32 now32' : BitVec w} (hnow : s.entry.lastIndSeqAtTimer = now32)
    (hall : rx.legacy = true → flushAllDue osHz s now32' = false)
    (hok : s.InsideWindow rx → ¬ s.LeavesNext osHz rx now32') :
    (s.indicateBySequence osHz rx now32 now32').Settled := by
  unfold Session.indicateBySequence
  dsimp only
  split_ifs with hreset hstep hlast hold hwin
  · have hnil := h.represented.nil_of_reset hreset
    have hq : s.entry.list.qlen = 0 := by rw [h.represented.counted, hnil, List.length_nil]
    have hopen := (h.opening hreset rx.sequence.isLt).setTimer now32
    rcases hopen.pass rfl (by intro _; simp [flushAllDue, setLastIndSeq, Session.setTimer, hq])
      with hsettled | ⟨-, hup⟩
    · exact hsettled
    · rw [hup]
      apply (hopen.passUp rfl _).settled (Nat.zero_le 1)
      intro m hm
      have hm' : m ∈ s.entry.list.next := hm
      simp [hnil] at hm'
  · obtain ⟨n, hn, hloose, hgap⟩ := h.loose hreset
    have hmoved : ((s.release 0).setLastIndSeq rx.sequence).Loose 0 := by
      apply hloose.slide (seqStepOne_iff.mp hstep) (by omega) (by norm_num)
      · simp
      · intro m hm
        have := hgap m (by simpa using hm)
        omega
    rw [release_zero] at hmoved
    apply Settled.setTimer
    apply hmoved.pass_inOrder rfl
    intro hleg
    have hquiet := @flushAllDue_release π w osHz s now32' 0 rx.sequence (hall hleg)
    rwa [release_zero] at hquiet
  · exact ⟨h.represented, h.cleared, h.gap⟩
  · exact ⟨h.represented, h.cleared, h.gap⟩
  · obtain ⟨hlt, -⟩ := h.represented.inWindow hreset
    have hd := dist_of_new hlt rx.sequence.isLt hlast hold
    have htwo : ahead s.entry.lastIndSeq rx.sequence ≠ 1 := by
      intro hone
      apply hstep
      rw [seqStepOne_iff, ← hone]
      exact (Circular.add_ahead hlt rx.sequence.isLt).symm
    have hin := hwin
    rw [within_window_iff h.represented.bounds.2 hlt rx.sequence.isLt hd] at hwin
    apply h.enqueue hreset (by omega) hwin hall
    exact hok ⟨hreset, Bool.eq_false_iff.mpr hstep, hlast, Bool.eq_false_iff.mpr hold, hin⟩
  · obtain ⟨n, hn, hloose, -⟩ := h.loose hreset
    obtain ⟨hlt, -⟩ := h.represented.inWindow hreset
    have hb := h.represented.bounds.2
    have hd := dist_of_new hlt rx.sequence.isLt hlast hold
    rw [within_window_iff hb hlt rx.sequence.isLt hd, not_le] at hwin
    obtain ⟨htarget, hend⟩ := winStartSeq_slide hb hlt rx.sequence.isLt hwin
    obtain ⟨k, he, hgone, hleft⟩ := h.represented.leSeq hreset htarget (by omega)
    have hmoved : ((s.release k).setLastIndSeq
        (winStartSeq rx.sequence s.entry.baWinSize)).Loose 0 :=
      hloose.slide htarget (by omega) (by omega) hgone hleft
    rw [he, setTimer_self (show ((s.release k).setLastIndSeq _).entry.lastIndSeqAtTimer = now32
      from hnow)]
    apply hmoved.enqueue_inOrder
    · exact hend.ge.trans' h.represented.bounds.1
    · exact hend.le
    · intro hleg
      exact flushAllDue_release (hall hleg)

/-- The numbers up to the start leave, and `LastIndSeq` moves in front of the start. -/
theorem Settled.leSeqBefore {s : Session π w} (h : s.Settled)
    (hl : s.entry.lastIndSeq ≠ resetRcvSeq) {startSeq : Fin 4096} {v : ℕ}
    (hs : startSeq.val = (s.entry.lastIndSeq + ahead s.entry.lastIndSeq startSeq) % 4096)
    (hlo : 1 ≤ ahead s.entry.lastIndSeq startSeq)
    (hhi : ahead s.entry.lastIndSeq startSeq ≤ 2048)
    (hv : v = (s.entry.lastIndSeq + (ahead s.entry.lastIndSeq startSeq - 1)) % 4096)
    (hok : startSeq ∈ s.entry.list.next.map (·.sequence) →
      startSeq + 1 ∉ s.entry.list.next.map (·.sequence)) :
    ((s.baIndicateReorderingMpdusLeSeq startSeq).setLastIndSeq v).Settled := by
  obtain ⟨n, hn, hloose, hgap⟩ := h.loose hl
  obtain ⟨hlt, hwin⟩ := h.represented.inWindow hl
  have hb := h.represented.bounds.2
  obtain ⟨k, he, hgone, hleft⟩ := h.represented.leSeq hl hs hhi
  rw [he]
  have hpast : ∀ m ∈ s.entry.list.next.drop k,
      ahead s.entry.lastIndSeq startSeq - 1 < m.dist s.entry.lastIndSeq := by
    intro m hm
    have := hleft m hm
    omega
  have hshift : ∀ m ∈ s.entry.list.next.drop k, m.dist v =
      m.dist s.entry.lastIndSeq - (ahead s.entry.lastIndSeq startSeq - 1) := by
    intro m hm
    exact ahead_shift hlt m.sequence.isLt hv (hpast m hm).le
  by_cases hmem : startSeq ∈ s.entry.list.next.map (·.sequence)
  · have hnear : ahead s.entry.lastIndSeq startSeq ≤ 255 := by
      obtain ⟨m, hm, hseq⟩ := List.mem_map.mp hmem
      have hwithin := (hwin.within m hm).2
      rw [ReorderingMpdu.dist, hseq] at hwithin
      omega
    have hmoved : ((s.release k).setLastIndSeq v).Loose 1 := by
      apply hloose.slide hv (by omega) (by omega) _ hpast
      intro m hm
      have := hgone m hm
      omega
    apply hmoved.settled le_rfl
    intro m hm
    have hfar := hleft m hm
    have hne : m.dist s.entry.lastIndSeq ≠ ahead s.entry.lastIndSeq startSeq + 1 := by
      intro hnext
      have hone : ahead startSeq m.sequence = 1 := by
        have hsub : ahead startSeq m.sequence = m.dist s.entry.lastIndSeq -
            ahead s.entry.lastIndSeq startSeq := ahead_shift hlt m.sequence.isLt hs hfar.le
        omega
      exact hok hmem (List.mem_map.mpr ⟨m, List.mem_of_mem_drop hm, sequence_eq_add_one hone⟩)
    change 1 + 2 ≤ m.dist v
    rw [hshift m hm]
    omega
  · by_cases hone : ahead s.entry.lastIndSeq startSeq = 1
    · have hmoved : ((s.release k).setLastIndSeq v).Loose n := by
        apply hloose.slide hv (by omega) (by omega) _ hpast
        intro m hm
        have hle := hgone m hm
        have := hgap m (List.mem_of_mem_take hm)
        omega
      apply hmoved.settled hn
      intro m hm
      have := hgap m (List.mem_of_mem_drop hm)
      change n + 2 ≤ m.dist v
      rw [hshift m hm]
      omega
    · have hmoved : ((s.release k).setLastIndSeq v).Loose 0 := by
        apply hloose.slide hv (by omega) (by omega) _ hpast
        intro m hm
        have hle := hgone m hm
        have hne : m.dist s.entry.lastIndSeq ≠ ahead s.entry.lastIndSeq startSeq := by
          intro hd
          have hseq := ahead_inj hlt m.sequence.isLt startSeq.isLt hd
          exact hmem (List.mem_map.mpr ⟨m, List.mem_of_mem_take hm, Fin.ext hseq⟩)
        omega
      apply hmoved.settled (Nat.zero_le 1)
      intro m hm
      have := hleft m hm
      change 0 + 2 ≤ m.dist v
      rw [hshift m hm]
      omega

/-- A BlockAckReq lets the number it starts at out and looks no further. -/
theorem Settled.blockAckReq {s : Session π w} (h : s.Settled) {startSeq : Fin 4096}
    (hok : seqSmaller s.entry.lastIndSeq startSeq = true →
      startSeq ∈ s.entry.list.next.map (·.sequence) →
      startSeq + 1 ∉ s.entry.list.next.map (·.sequence)) :
    (s.cntlEnqueueForRecv startSeq).Settled := by
  unfold cntlEnqueueForRecv
  by_cases hmove : seqSmaller s.entry.lastIndSeq startSeq = true
  · rw [if_pos hmove]
    by_cases hl : s.entry.lastIndSeq = resetRcvSeq
    · have hnil := h.represented.nil_of_reset hl
      rw [baIndicateReorderingMpdusLeSeq_eq h.represented.counted, hnil, List.takeWhile_nil,
        List.length_nil, release_zero]
      have hlt := startSeq.isLt
      apply (h.opening hl (by simp only [maxSeq]; split <;> omega)).settled (Nat.zero_le 1)
      intro m hm
      have hm' : m ∈ s.entry.list.next := hm
      simp [hnil] at hm'
    · obtain ⟨hlt, -⟩ := h.represented.inWindow hl
      obtain ⟨hs, hlo, hhi, hv⟩ := blockAckReq_dist hlt startSeq.isLt hmove
      exact h.leSeqBefore hl hs hlo hhi hv (hok hmove)
  · rw [if_neg hmove]
    exact h

/-- The branches that leave a deliverable MPDU behind are not taken. -/
def ReleasesNext (osHz : ℕ) (s : Session π w) : SessionEvent π w → Prop
  | .indicate rx now32 now32' =>
      rx.oversized = false →
        (rx.legacy = true → flushAllDue osHz (s.openingFlush osHz rx now32) now32' = false) ∧
          ((s.openingFlush osHz rx now32).InsideWindow rx →
            ¬ (s.openingFlush osHz rx now32).LeavesNext osHz rx now32')
  | .blockAckReq startSeq =>
      seqSmaller s.entry.lastIndSeq startSeq = true →
        startSeq ∈ s.entry.list.next.map (·.sequence) →
        startSeq + 1 ∉ s.entry.list.next.map (·.sequence)
  | _ => True

theorem Settled.step {osHz : ℕ} {s : Session π w} (h : s.Settled) (e : SessionEvent π w)
    (hok : s.ReleasesNext osHz e) : (s.step osHz e).Settled := by
  cases e with
  | indicate rx now32 now32' =>
    simp only [Session.step, indicateAmpduPacket]
    cases ho : rx.oversized with
    | true => exact h
    | false =>
      obtain ⟨hall, hnext⟩ := hok ho
      have hopen : (s.openingFlush osHz rx now32).Settled :=
        (Settled.flush (s := { s with entry := { s.entry with rcvSeq := rx.sequence } })
          ⟨h.represented, h.cleared, h.gap⟩ now32).setTimer now32
      exact hopen.indicateBySequence rfl hall hnext
  | blockAckReq startSeq => exact h.blockAckReq hok
  | timeout now32 => exact h.flush now32
  | idle now32 =>
    simp only [Session.step, baRecSessionIdleTimeout]
    split_ifs
    · exact Settled.refresh h.represented
    · exact h
  | add bufSize rxBaWinLimit timeOutValue =>
    have hrefresh := Settled.refresh h.represented
    exact
      { represented := h.represented.add _ _ _ _ _
        cleared := fun _ => by
          have htrack : (s.baRefreshReorderingMpdus.openEntry s.entry.wcid s.entry.tid bufSize
              rxBaWinLimit timeOutValue).track =
                s.baRefreshReorderingMpdus.track.step 4096 .reset := by
            simp [track, openEntry, setLastIndSeq, Circular.track_append, Event.mark]
          simp only [Session.step, htrack]
          exact ⟨rfl, rfl⟩
        gap := fun hn => absurd rfl hn }
  | pool freelist => exact ⟨h.represented, h.cleared, h.gap⟩

theorem settled_opened (entry : BaRecEntry π w) (freelist : ReorderingList π)
    (wcid tid bufSize rxBaWinLimit timeOutValue : ℕ) :
    (opened entry freelist wcid tid bufSize rxBaWinLimit timeOutValue).Settled where
  represented := represented_opened _ _ _ _ _ _ _
  cleared := fun _ => ⟨rfl, rfl⟩
  gap := fun hn => absurd rfl hn

/-- In every run that never goes past the list, or over its first number, without a look at what
follows there, no deliverable MPDU stays behind. -/
theorem run_not_stalled (osHz : ℕ) (entry : BaRecEntry π w) (freelist : ReorderingList π)
    (wcid tid bufSize rxBaWinLimit timeOutValue : ℕ) (es : List (SessionEvent π w))
    (h : Guarded (step osHz) (ReleasesNext osHz)
      (opened entry freelist wcid tid bufSize rxBaWinLimit timeOutValue) es) :
    ¬ (run (step osHz) (opened entry freelist wcid tid bufSize rxBaWinLimit timeOutValue)
      es).Stalled :=
  Settled.not_stalled (guarded_invariant Settled
    (fun _ e hs hok => hs.step e hok) (settled_opened _ _ _ _ _ _ _) h)

instance (osHz : ℕ) (s : Session π w) (rx : RxBlk π) (now32 : BitVec w) :
    Decidable (s.LeavesNext osHz rx now32) :=
  inferInstanceAs (Decidable (_ ∨ _))

instance (s : Session π w) (rx : RxBlk π) : Decidable (s.InsideWindow rx) :=
  inferInstanceAs (Decidable (_ ∧ _))

instance (osHz : ℕ) (s : Session π w) : ∀ e, Decidable (s.ReleasesNext osHz e)
  | .indicate _ _ _ => inferInstanceAs (Decidable (_ → _ ∧ _))
  | .blockAckReq _ => inferInstanceAs (Decidable (_ → _ → _ ∉ _))
  | .timeout _ | .idle _ | .add _ _ _ | .pool _ => isTrue trivial

theorem run_not_stalled_small :
    Guarded (step 250) (ReleasesNext 250) smallSession
      [.indicate (mpdu 4095) 0 0, .indicate (mpdu 1) 0 0, .indicate (mpdu 0) 0 0] ∧
    ¬ (run (step 250) smallSession
      [.indicate (mpdu 4095) 0 0, .indicate (mpdu 1) 0 0, .indicate (mpdu 0) 0 0]).Stalled :=
  have h : Guarded (step 250) (ReleasesNext 250) smallSession
      [.indicate (mpdu 4095) 0 0, .indicate (mpdu 1) 0 0, .indicate (mpdu 0) 0 0] := by
    decide
  ⟨h, run_not_stalled 250 _ _ _ _ _ _ _ _ h⟩

/-- The EAPOL frame 2 goes past the list, in which 3 waits, and nobody looks at 3. -/
theorem next_left_waiting :
    (run (step 250) smallSession
      [.indicate (mpdu 0) 0 0, .indicate (mpdu 3) 0 0,
        .indicate { mpdu 2 with fRxEAP := true } 0 0]).Stalled := by
  decide

end Session
end Rt5572
