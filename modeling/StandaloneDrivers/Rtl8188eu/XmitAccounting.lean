import StandaloneDrivers.Rtl8188eu.SleepEffects

/-! The counters and links of the queues for the hardware over every run: they are right as long as
a station is freed without frames, and put to sleep with frames that are all kept for it. -/
namespace Rtl8188eu.PsDriver
open Foundations XmitQueues

/-- A frame that `xmitframe_enqueue_for_sleeping_sta` takes. -/
def Kept (s : PsDriver) (f : TxFrame) : Prop :=
  s.env.apState = true ∧ f.triggered = false ∧ ∃ psta, s.staOf f = some psta ∧
    if isMcast f.ra then s.staDzBitmap ≠ 0
    else (s.sta psta).asleep = true ∧ s.staDzBitmap &&& bit (s.sta psta).aid ≠ 0

/-- A station that is freed has no frames; the frames of a station that is stopped, and those for
all stations, are all taken by the queues for sleeping stations. -/
def Accountable (s : PsDriver) : Call → Prop
  | .free psta => ∀ ac, (s.queues.servq psta ac).staPending = []
  | .stop psta => (∀ ac, ∀ f ∈ (s.queues.servq psta ac).staPending, (s.stopping psta).Kept f) ∧
      ∀ psta_bmc, s.bcmc = some psta_bmc →
        ∀ f ∈ (s.queues.servq psta_bmc .be).staPending, (s.stopping psta).Kept f
  | _ => True

theorem Kept.sleepier {s s' : PsDriver} {f : TxFrame} (hk : s.Kept f) (h : Sleepier s s') :
    s'.Kept f := by
  obtain ⟨hap, htriggered, psta, hsta, hkept⟩ := hk
  obtain ⟨bits, hdz⟩ := h.dz
  refine ⟨by rw [h.env, hap], htriggered, psta, ?_, ?_⟩
  · rw [staOf, h.env]
    exact hsta
  · by_cases hm : isMcast f.ra = true
    · rw [if_pos hm] at hkept ⊢
      have hall := @and_bits_or s.staDzBitmap bits (BitVec.allOnes 16)
      simp only [BitVec.and_allOnes] at hall
      rw [hdz]
      exact hall hkept
    · rw [if_neg hm] at hkept ⊢
      obtain ⟨_, _, _, hstation⟩ := h.sta psta
      rw [hstation, hdz]
      exact ⟨hkept.1, and_bits_or hkept.2⟩

theorem enqueue_kept {s : PsDriver} {f : TxFrame} (h : s.Kept f) :
    (s.xmitframeEnqueueForSleepingSta f).2 = none := by
  obtain ⟨hap, htriggered, psta, hsta, hkept⟩ := h
  simp only [xmitframeEnqueueForSleepingSta, hap, Bool.not_true, Bool.false_eq_true, if_false, hsta,
    htriggered]
  by_cases hm : isMcast f.ra = true
  · rw [if_pos hm] at hkept ⊢
    rw [if_pos hkept]
  · rw [if_neg hm] at hkept ⊢
    simp only [hkept.1, Bool.true_and, bne_iff_ne]
    rw [if_pos hkept.2]
    split <;> rfl

theorem offerFrames_kept {s : PsDriver} (psta : StaPtr) {l : List TxFrame}
    (h : ∀ f ∈ l, s.Kept f) : (offerFrames psta l s).2 = [] ∧
      (offerFrames psta l s).1.queues = l.foldl (fun q f => q.leave psta f) s.queues := by
  induction l generalizing s with
  | nil => exact ⟨rfl, rfl⟩
  | cons f l ih =>
    have hleft := enqueue_kept (h f List.mem_cons_self)
    obtain ⟨hnil, hfold⟩ := ih fun g hg =>
      (h g (List.mem_cons_of_mem _ hg)).sleepier (s.offered_sleepier psta f)
    rw [offerFrames_cons, hleft, hnil, hfold]
    constructor
    · rfl
    · rw [List.foldl_cons, offered, (s.enqueue_sleepier f).2]

/-- All frames of a queue are kept for the station. -/
theorem dequeueToSleepingQueue_kept {s : PsDriver} (ha : s.queues.Accounted) (psta : StaPtr)
    (ac : Ac) (h : ∀ f ∈ (s.queues.servq psta ac).staPending, s.Kept f) :
    (s.dequeueXmitframesToSleepingQueue psta ac).queues.Accounted ∧
      ∀ p a, ((s.dequeueXmitframesToSleepingQueue psta ac).queues.servq p a).staPending ⊆
        (s.queues.servq p a).staPending := by
  obtain ⟨hnil, hfold⟩ := offerFrames_kept psta h
  have hqueues : (s.dequeueXmitframesToSleepingQueue psta ac).queues =
      (((s.queues.servq psta ac).staPending.foldl (fun q f => q.leave psta f)
        s.queues).setPending psta ac []).unlink psta ac := by
    simp only [dequeueXmitframesToSleepingQueue, hnil, hfold]
  constructor
  · rw [hqueues]
    exact ha.drain psta ac
  · intro p a
    by_cases hpa : p = psta ∧ a = ac
    · obtain ⟨rfl, rfl⟩ := hpa
      rw [hqueues]
      show ((setServq _ p a _).servq p a).staPending ⊆ _
      rw [setServq_self]
      exact List.nil_subset _
    · rw [(s.dequeueToSleepingQueue_effect psta ac).2.1 p a hpa]
      exact List.Subset.refl _

theorem sleepAll_kept {s : PsDriver} (ha : s.queues.Accounted) (psta : StaPtr) (acs : List Ac)
    (h : ∀ ac, ∀ f ∈ (s.queues.servq psta ac).staPending, s.Kept f) :
    (sleepAll psta acs s).queues.Accounted ∧
      ∀ p a, ((sleepAll psta acs s).queues.servq p a).staPending ⊆
        (s.queues.servq p a).staPending := by
  induction acs generalizing s with
  | nil => exact ⟨ha, fun _ _ => List.Subset.refl _⟩
  | cons ac acs ih =>
    obtain ⟨hacc, hsub⟩ := dequeueToSleepingQueue_kept ha psta ac (h ac)
    have hsleepier := (s.dequeueToSleepingQueue_effect psta ac).1
    have hnext := fun a f hf => (h a f (hsub psta a hf)).sleepier hsleepier
    obtain ⟨hacc', hsub'⟩ := ih hacc hnext
    constructor
    · exact hacc'
    · intro p a
      exact List.Subset.trans (hsub' p a) (hsub p a)

/-- A station whose frames are all kept is put to sleep. -/
theorem stopStaXmit_accounted {s : PsDriver} (ha : s.queues.Accounted) {psta : StaPtr}
    (hstation : ∀ ac, ∀ f ∈ (s.queues.servq psta ac).staPending, (s.stopping psta).Kept f)
    (hbcmc : ∀ psta_bmc, s.bcmc = some psta_bmc →
      ∀ f ∈ (s.queues.servq psta_bmc .be).staPending, (s.stopping psta).Kept f) :
    (s.stopStaXmit psta).queues.Accounted := by
  obtain ⟨hacc, hsub⟩ := sleepAll_kept (s := s.stopping psta) ha psta [.vo, .vi, .be, .bk] hstation
  have hsleepier := sleepAll_sleepier psta [.vo, .vi, .be, .bk] (s.stopping psta)
  rw [stopStaXmit_eq]
  cases hb : s.bcmc with
  | none => exact hacc
  | some psta_bmc =>
    apply (dequeueToSleepingQueue_kept hacc psta_bmc .be _).1
    intro f hf
    exact (hbcmc psta_bmc hb f (hsub psta_bmc .be hf)).sleepier hsleepier

theorem Joined.accounted {env : PsEnv} {good : TxFrame → Prop} {q q' : XmitQueues}
    (h : Joined env good q q') (ha : q.Accounted) : q'.Accounted := by
  apply h.invariant ha
  intro q f psta hq _ _
  exact hq.classify psta f

/-- A property that all frames have. -/
theorem addressOnly_true : AddressOnly fun _ => True := fun _ _ _ _ _ => trivial

theorem rtwHalXmit_accounted {s : PsDriver} (ha : s.queues.Accounted) (f : TxFrame)
    (busy : Bool) : (s.rtwHalXmit f busy).queues.Accounted := by
  obtain ⟨q, hjoined, heq⟩ := @rtwHalXmit_effect (fun _ => True) s f trivial busy
  rw [heq]
  exact hjoined.accounted ha

theorem rtwXmit_accounted {s : PsDriver} (ha : s.queues.Accounted) (f : TxFrame) (busy : Bool) :
    (s.rtwXmit f busy).queues.Accounted := by
  have hqueues := (s.enqueue_sleepier f).2
  unfold rtwXmit
  split
  · next s' heq =>
    rw [heq] at hqueues
    rwa [hqueues]
  · next s' f' heq =>
    rw [heq] at hqueues
    apply rtwHalXmit_accounted
    rwa [hqueues]

theorem awake_queues (s : PsDriver) (psta : StaPtr) : (s.awake psta).queues = s.queues := by
  simp only [awake]
  split <;> rfl

theorem bcmcFrames_accounted {s : PsDriver} (ha : s.queues.Accounted) (psta : StaPtr) (hiq : Bool)
    (busy : ℕ → Bool) : (bcmcFrames psta hiq busy (s.sta psta).sleepQ s).queues.Accounted := by
  obtain ⟨q, hjoined, heq⟩ := bcmcFrames_effect addressOnly_true psta hiq busy (s := s)
    (fun _ _ => trivial) rfl
  rw [heq]
  exact hjoined.accounted ha

theorem wakeupStaToXmit_accounted {s : PsDriver} (ha : s.queues.Accounted) (psta : StaPtr)
    (busy busyBcmc : ℕ → Bool) : (s.wakeupStaToXmit psta busy busyBcmc).queues.Accounted := by
  obtain ⟨q, hjoined, heq⟩ := wakeFrames_effect addressOnly_true psta busy (s := s)
    (fun _ _ => trivial) rfl
  have hawake : ((wakeFrames psta busy (s.sta psta).sleepQ s).awake psta).queues.Accounted := by
    rw [awake_queues, heq]
    exact hjoined.accounted ha
  simp only [wakeupStaToXmit]
  split
  · exact hawake
  · split
    · split
      · exact bcmcFrames_accounted hawake _ false busyBcmc
      · exact bcmcFrames_accounted hawake _ false busyBcmc
    · exact hawake

theorem processWmmpsData_accounted {s : PsDriver} (ha : s.queues.Accounted) (src : MacAddr)
    (priority : UInt8) (busy : ℕ → Bool) :
    (s.processWmmpsData src priority busy).queues.Accounted := by
  simp only [processWmmpsData]
  split
  · exact ha
  · next psta _ =>
    split
    · obtain ⟨q, _, hjoined, heq, _⟩ := @deliverFrames_effect _ addressOnly_true psta busy []
        (s.sta psta).sleepQ s (fun _ _ => trivial) rfl
      rw [xmitDeliveryEnabledFrames, heq]
      exact hjoined.accounted ha
    · exact ha

theorem psPoll_accounted {s : PsDriver} (ha : s.queues.Accounted) (ta : MacAddr) (aid : ℕ)
    (priority : UInt8) (busy : Bool) : (s.psPoll ta aid priority busy).queues.Accounted := by
  simp only [psPoll]
  split
  · exact ha
  · next psta _ =>
    split
    · split
      · have hxmit := fun t g => rtwHalXmit_accounted (s := s.setSta psta t) ha g busy
        split
        · exact hxmit _ _
        · exact hxmit _ _
      · split
        · exact ha
        · exact ha
    · exact ha

theorem txBeaconHdl_accounted {s : PsDriver} (ha : s.queues.Accounted) (busy : ℕ → Bool) :
    (s.txBeaconHdl busy).queues.Accounted := by
  simp only [txBeaconHdl]
  split
  · exact ha
  · split
    · exact bcmcFrames_accounted ha _ true busy
    · exact ha

theorem step_accounted {s : PsDriver} {call : Call} (ha : s.queues.Accounted)
    (hok : s.Accountable call) : (s.step call).queues.Accounted := by
  cases call with
  | xmit f busy => exact rtwXmit_accounted ha f busy
  | classify f =>
    obtain ⟨q, hjoined, heq⟩ := @rtwXmitClassifier_effect (fun _ => True) s f trivial
    rw [step, heq]
    exact hjoined.accounted ha
  | dequeue order => exact ha.rtwDequeueXframe order
  | stop psta => exact stopStaXmit_accounted ha hok.1 hok.2
  | wake psta busy busyBcmc => exact wakeupStaToXmit_accounted ha psta busy busyBcmc
  | poll ta aid priority busy => exact psPoll_accounted ha ta aid priority busy
  | trigger src priority busy => exact processWmmpsData_accounted ha src priority busy
  | beacon busy => exact txBeaconHdl_accounted ha busy
  | free psta => exact ha.freeStation hok
  | set settings => exact ha

/-- After every run from empty queues in which stations are freed without frames, and put to sleep
with frames that are all kept for them, the counters and links are right, and a frame that waits is
reached. -/
theorem queues_accounted {s : PsDriver} (hs : s.queues = XmitQueues.empty) {calls : List Call}
    (hok : Guarded step Accountable s calls) :
    (run step s calls).queues.Accounted ∧
      ∀ order psta, ∀ ac ∈ order, ((run step s calls).queues.servq psta ac).staPending ≠ [] →
        ∃ f, ((run step s calls).queues.rtwDequeueXframe order).2 = some f := by
  have ha : (run step s calls).queues.Accounted := by
    apply guarded_invariant (fun s => s.queues.Accounted) _ _ hok
    · intro s call ha hcall
      exact step_accounted ha hcall
    · rw [hs]
      exact accounted_empty
  constructor
  · exact ha
  · intro order psta ac hac hpending
    exact ha.reached hac hpending

instance (s : PsDriver) (f : TxFrame) : Decidable (s.Kept f) :=
  inferInstanceAs (Decidable (s.env.apState = true ∧ f.triggered = false ∧
    ∃ psta, s.staOf f = some psta ∧
      if isMcast f.ra then s.staDzBitmap ≠ 0
      else (s.sta psta).asleep = true ∧ s.staDzBitmap &&& bit (s.sta psta).aid ≠ 0))

instance (s : PsDriver) : DecidablePred s.Accountable
  | .free psta => inferInstanceAs
      (Decidable (∀ ac, (s.queues.servq psta ac).staPending = []))
  | .stop psta => inferInstanceAs (Decidable
      ((∀ ac, ∀ f ∈ (s.queues.servq psta ac).staPending, (s.stopping psta).Kept f) ∧
        ∀ psta_bmc, s.bcmc = some psta_bmc →
          ∀ f ∈ (s.queues.servq psta_bmc .be).staPending, (s.stopping psta).Kept f))
  | .xmit _ _ | .classify _ | .dequeue _ | .wake _ _ _ | .poll _ _ _ _ | .trigger _ _ _
  | .beacon _ | .set _ => isTrue trivial

/-- An access point with a station that has legacy categories only. -/
def served : PsDriver := serving { PsStation.zero with
  aid := 1
  hasLegacyAc := true }

/-- A frame for the station. -/
def request : TxFrame := ⟨0, localAddr 1, none, false, false, false, false⟩

theorem queues_accounted_served :
    (run step served [.classify request, .stop 1, .xmit request false, .wake 1 (fun _ => true)
      (fun _ => true), .dequeue [.vo, .vi, .be, .bk]]).queues.Accounted :=
  (queues_accounted (s := served) rfl (by
    simp only [Guarded]
    decide)).1

/-- A station is freed with a frame, or put to sleep with a frame that was sent to it before. -/
theorem queues_miscounted :
    ¬ (run step served [.classify request, .free 1]).queues.Accounted ∧
    ¬ (run step served [.stop 1, .xmit request false, .wake 1 (fun _ => true) (fun _ => true),
        .stop 1]).queues.Accounted := by
  constructor
  · intro h
    have haccnt := h.accnt .be
    revert haccnt
    decide
  · intro h
    have hqcnt := h.qcnt 1 .be
    revert hqcnt
    decide

end Rtl8188eu.PsDriver
