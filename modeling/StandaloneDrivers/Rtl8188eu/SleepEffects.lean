import StandaloneDrivers.Rtl8188eu.SleepQueues

/-! What the functions that send the frames of sleeping stations leave: the queues of the hardware
only gain frames, and of the stations only the one that is served changes. -/
namespace Rtl8188eu.PsDriver
open Foundations XmitQueues

/-- Queues that are reached from others by adding frames for their stations. -/
inductive Joined (env : PsEnv) (good : TxFrame → Prop) : XmitQueues → XmitQueues → Prop
  | refl (q : XmitQueues) : Joined env good q q
  | classify {q q' : XmitQueues} {f : TxFrame} {psta : StaPtr} :
      Joined env good q q' → good f → f.psta.or (env.rtwGetStainfo f.ra) = some psta →
      Joined env good q (q'.classify psta f)

theorem Joined.trans {env : PsEnv} {good : TxFrame → Prop} {q q' q'' : XmitQueues}
    (h : Joined env good q q') (h' : Joined env good q' q'') : Joined env good q q'' := by
  induction h' with
  | refl => exact h
  | classify _ hgood hsta ih => exact ih.classify hgood hsta

/-- What holds of queues and is kept when a frame is added holds of all that are reached. -/
theorem Joined.invariant {env : PsEnv} {good : TxFrame → Prop} {q q' : XmitQueues}
    (h : Joined env good q q') {inv : XmitQueues → Prop} (hq : inv q)
    (hstep : ∀ q f psta, inv q → good f → f.psta.or (env.rtwGetStainfo f.ra) = some psta →
      inv (q.classify psta f)) : inv q' := by
  induction h with
  | refl => exact hq
  | classify _ hgood hsta ih => exact hstep _ _ _ ih hgood hsta

/-- A property of frames that depends on the addresses only. -/
def AddressOnly (good : TxFrame → Prop) : Prop :=
  ∀ f g : TxFrame, g.psta = f.psta → g.ra = f.ra → good f → good g

variable {good : TxFrame → Prop}

theorem rtwXmitClassifier_effect (s : PsDriver) {f : TxFrame} (hf : good f) :
    ∃ q, Joined s.env good s.queues q ∧ (s.rtwXmitClassifier f).1 = { s with queues := q } := by
  unfold rtwXmitClassifier
  cases hsta : s.staOf f with
  | none => exact ⟨s.queues, Joined.refl _, rfl⟩
  | some psta => exact ⟨s.queues.classify psta f, (Joined.refl _).classify hf hsta, rfl⟩

theorem rtwHalXmit_effect (s : PsDriver) {f : TxFrame} (hf : good f) (busy : Bool) :
    ∃ q, Joined s.env good s.queues q ∧ s.rtwHalXmit f busy = { s with queues := q } := by
  simp only [rtwHalXmit]
  split
  · exact s.rtwXmitClassifier_effect hf
  · exact ⟨s.queues, Joined.refl _, rfl⟩

/-- The counters after a frame has left the queue on waking up. -/
def woken (t : PsStation) (f : TxFrame) (rest : List TxFrame) : PsStation :=
  { t with
    sleepQ := rest
    sleepqLen := countDown t.sleepqLen
    sleepqAcLen := if t.triggerEnabled f.ac then countDown t.sleepqAcLen else t.sleepqAcLen }

theorem wakeFrame_effect (hgood : AddressOnly good) (s : PsDriver) (psta : StaPtr) {f : TxFrame}
    (hf : good f) (rest : List TxFrame) (busy : Bool) :
    ∃ q, Joined s.env good s.queues q ∧ s.wakeFrame psta f rest busy =
      { s.setSta psta (woken (s.sta psta) f rest) with queues := q } := by
  simp only [wakeFrame, woken]
  split
  · apply rtwHalXmit_effect (s.setSta psta _)
    exact hgood f _ rfl rfl hf
  · apply rtwHalXmit_effect (s.setSta psta _)
    exact hgood f _ rfl rfl hf

theorem setSta_queues_setSta (s : PsDriver) (psta : StaPtr) (t t' : PsStation)
    (q q' : XmitQueues) :
    { ({ s.setSta psta t with queues := q }).setSta psta t' with queues := q' } =
      { s.setSta psta t' with queues := q' } := by
  simp only [setSta, Function.update_idem]

theorem setSta_sta (s : PsDriver) (psta : StaPtr) : s.setSta psta (s.sta psta) = s := by
  simp only [setSta, Function.update_eq_self]

/-- All frames of a station that wakes up have left. -/
theorem wakeFrames_effect (hgood : AddressOnly good) (psta : StaPtr) (busy : ℕ → Bool)
    {l : List TxFrame} {s : PsDriver} (hl : ∀ f ∈ l, good f) (hq : (s.sta psta).sleepQ = l) :
    ∃ q, Joined s.env good s.queues q ∧ wakeFrames psta busy l s =
      { s.setSta psta { s.sta psta with
          sleepQ := []
          sleepqLen := countDown^[l.length] (s.sta psta).sleepqLen
          sleepqAcLen := countDown^[l.countP fun f => (s.sta psta).triggerEnabled f.ac]
            (s.sta psta).sleepqAcLen } with queues := q } := by
  induction l generalizing s with
  | nil =>
    refine ⟨s.queues, Joined.refl _, ?_⟩
    simp only [wakeFrames, List.length_nil, Function.iterate_zero, id_eq, List.countP_nil]
    rw [← hq]
    exact (s.setSta_sta psta).symm
  | cons f rest ih =>
    obtain ⟨q, hjoined, heq⟩ := wakeFrame_effect hgood s psta (hl f List.mem_cons_self) rest
      (busy rest.length)
    have hsta : ((s.wakeFrame psta f rest (busy rest.length)).sta psta) =
        woken (s.sta psta) f rest := by
      rw [heq]
      simp only [setSta, Function.update_self]
    obtain ⟨q', hjoined', heq'⟩ := @ih (s.wakeFrame psta f rest (busy rest.length))
      (fun g hg => hl g (List.mem_cons_of_mem _ hg)) (by rw [hsta]; rfl)
    have henv : (s.wakeFrame psta f rest (busy rest.length)).env = s.env := by rw [heq]; rfl
    have hqueues : (s.wakeFrame psta f rest (busy rest.length)).queues = q := by rw [heq]
    rw [henv, hqueues] at hjoined'
    refine ⟨q', hjoined.trans hjoined', ?_⟩
    rw [wakeFrames, heq', hsta, heq, setSta_queues_setSta]
    have htrigger : ∀ ac, (woken (s.sta psta) f rest).triggerEnabled ac =
        (s.sta psta).triggerEnabled ac := fun _ => rfl
    simp only [htrigger]
    simp only [woken, List.length_cons, Function.iterate_succ_apply, List.countP_cons]
    by_cases hf : (s.sta psta).triggerEnabled f.ac = true
    · simp only [hf, if_true, Function.iterate_succ_apply]
    · simp only [hf, if_false, Nat.add_zero, Bool.false_eq_true]

/-- The frames for all stations have left. -/
theorem bcmcFrames_effect (hgood : AddressOnly good) (psta : StaPtr) (hiq : Bool)
    (busy : ℕ → Bool) {l : List TxFrame} {s : PsDriver} (hl : ∀ f ∈ l, good f)
    (hq : (s.sta psta).sleepQ = l) :
    ∃ q, Joined s.env good s.queues q ∧ bcmcFrames psta hiq busy l s =
      { s.setSta psta { s.sta psta with
          sleepQ := []
          sleepqLen := countDown^[l.length] (s.sta psta).sleepqLen } with queues := q } := by
  induction l generalizing s with
  | nil =>
    refine ⟨s.queues, Joined.refl _, ?_⟩
    simp only [bcmcFrames, List.length_nil, Function.iterate_zero, id_eq]
    rw [← hq]
    exact (s.setSta_sta psta).symm
  | cons f rest ih =>
    obtain ⟨q, hjoined, heq⟩ : ∃ q, Joined s.env good s.queues q ∧
        s.bcmcFrame psta f rest hiq (busy rest.length) = { s.setSta psta { s.sta psta with
          sleepQ := rest
          sleepqLen := countDown (s.sta psta).sleepqLen } with queues := q } := by
      apply rtwHalXmit_effect (s.setSta psta _)
      exact hgood f _ rfl rfl (hl f List.mem_cons_self)
    have hsta : ((s.bcmcFrame psta f rest hiq (busy rest.length)).sta psta) =
        { s.sta psta with
          sleepQ := rest
          sleepqLen := countDown (s.sta psta).sleepqLen } := by
      rw [heq]
      simp only [setSta, Function.update_self]
    obtain ⟨q', hjoined', heq'⟩ := @ih (s.bcmcFrame psta f rest hiq (busy rest.length))
      (fun g hg => hl g (List.mem_cons_of_mem _ hg)) (by rw [hsta])
    have henv : (s.bcmcFrame psta f rest hiq (busy rest.length)).env = s.env := by rw [heq]; rfl
    have hqueues : (s.bcmcFrame psta f rest hiq (busy rest.length)).queues = q := by rw [heq]
    rw [henv, hqueues] at hjoined'
    refine ⟨q', hjoined.trans hjoined', ?_⟩
    rw [bcmcFrames, heq', hsta, heq, setSta_queues_setSta]
    simp only [List.length_cons, Function.iterate_succ_apply]

/-- A frame that is delivered leaves the queue, and the bit of the station is cleared when it was the
last that is counted. -/
theorem deliverFrame_effect (hgood : AddressOnly good) (s : PsDriver) (psta : StaPtr) {f : TxFrame}
    (hf : good f) (others : List TxFrame) (busy : Bool) :
    ∃ q, Joined s.env good s.queues q ∧ s.deliverFrame psta f others busy =
      { s.setSta psta { s.sta psta with
          sleepQ := others
          sleepqLen := countDown (s.sta psta).sleepqLen
          sleepqAcLen := countDown (s.sta psta).sleepqAcLen } with
        queues := q
        timBitmap :=
          if countDown (s.sta psta).sleepqAcLen = 0 ∧ (s.sta psta).hasLegacyAc = false
          then s.timBitmap &&& ~~~ bit (s.sta psta).aid else s.timBitmap } := by
  simp only [deliverFrame]
  obtain ⟨q, hjoined, heq⟩ := rtwHalXmit_effect (s.setSta psta { s.sta psta with
    sleepQ := others
    sleepqLen := countDown (s.sta psta).sleepqLen
    sleepqAcLen := countDown (s.sta psta).sleepqAcLen })
    (hgood f { f with
      mdata := decide (0 < countDown (s.sta psta).sleepqAcLen)
      eosp := !decide (0 < countDown (s.sta psta).sleepqAcLen)
      triggered := true } rfl rfl hf) busy
  refine ⟨q, hjoined, ?_⟩
  rw [heq]
  split
  · rfl
  · rfl

/-- The frames that are not trigger-enabled are left. -/
theorem deliverFrames_effect (hgood : AddressOnly good) (psta : StaPtr) (busy : ℕ → Bool)
    {kept l : List TxFrame} {s : PsDriver} (hl : ∀ f ∈ l, good f)
    (hq : (s.sta psta).sleepQ = kept ++ l) :
    ∃ q tim, Joined s.env good s.queues q ∧ deliverFrames psta busy kept l s =
      { s.setSta psta { s.sta psta with
          sleepQ := kept ++ l.filter fun f => !(s.sta psta).triggerEnabled f.ac
          sleepqLen := countDown^[l.countP fun f => (s.sta psta).triggerEnabled f.ac]
            (s.sta psta).sleepqLen
          sleepqAcLen := countDown^[l.countP fun f => (s.sta psta).triggerEnabled f.ac]
            (s.sta psta).sleepqAcLen } with
        queues := q
        timBitmap := tim } ∧
      (tim = s.timBitmap ∨ tim = s.timBitmap &&& ~~~ bit (s.sta psta).aid ∧
        (s.sta psta).hasLegacyAc = false ∧
        ∃ k, 0 < k ∧ k ≤ (l.countP fun f => (s.sta psta).triggerEnabled f.ac) ∧
          countDown^[k] (s.sta psta).sleepqAcLen = 0) := by
  induction l generalizing kept s with
  | nil =>
    refine ⟨s.queues, s.timBitmap, Joined.refl _, ?_, Or.inl rfl⟩
    simp only [deliverFrames, List.filter_nil, List.countP_nil, Function.iterate_zero, id_eq]
    rw [← hq]
    exact (s.setSta_sta psta).symm
  | cons f rest ih =>
    have hrest : ∀ g ∈ rest, good g := fun g hg => hl g (List.mem_cons_of_mem _ hg)
    rw [deliverFrames]
    by_cases hf : (s.sta psta).triggerEnabled f.ac = true
    · rw [if_pos hf]
      obtain ⟨q, hjoined, heq⟩ := deliverFrame_effect hgood s psta (hl f List.mem_cons_self)
        (kept ++ rest) (busy rest.length)
      have hsta : ((s.deliverFrame psta f (kept ++ rest) (busy rest.length)).sta psta) =
          { s.sta psta with
            sleepQ := kept ++ rest
            sleepqLen := countDown (s.sta psta).sleepqLen
            sleepqAcLen := countDown (s.sta psta).sleepqAcLen } := by
        rw [heq]
        simp only [setSta, Function.update_self]
      obtain ⟨q', tim, hjoined', heq', htim⟩ :=
        @ih kept (s.deliverFrame psta f (kept ++ rest) (busy rest.length)) hrest (by rw [hsta])
      have htrigger : ∀ g : TxFrame,
          ((s.deliverFrame psta f (kept ++ rest) (busy rest.length)).sta psta).triggerEnabled g.ac =
            (s.sta psta).triggerEnabled g.ac := by
        intro g
        rw [hsta]
        rfl
      simp only [htrigger] at heq' htim
      rw [heq] at hjoined'
      refine ⟨q', tim, hjoined.trans hjoined', ?_, ?_⟩
      · rw [heq', hsta, heq]
        simp only [setSta, Function.update_idem, List.filter_cons, hf, Bool.not_true,
          Bool.false_eq_true, if_false, List.countP_cons, if_true, Function.iterate_succ_apply]
      · simp only [List.countP_cons, hf, if_true]
        rw [hsta] at htim
        rw [heq] at htim
        simp only at htim
        have hone : countDown^[1] (s.sta psta).sleepqAcLen = countDown (s.sta psta).sleepqAcLen := rfl
        have hand : ∀ x y : BitVec 16, x &&& y &&& y = x &&& y := by
          intro x y
          rw [BitVec.and_assoc, BitVec.and_self]
        rcases htim with htim | ⟨htim, hlegacy, k, hk, hle, hzero⟩
        · by_cases hlast : countDown (s.sta psta).sleepqAcLen = 0 ∧
              (s.sta psta).hasLegacyAc = false
          · rw [if_pos hlast] at htim
            exact Or.inr ⟨htim, hlast.2, 1, Nat.one_pos, by omega, hlast.1⟩
          · rw [if_neg hlast] at htim
            exact Or.inl htim
        · refine Or.inr ⟨?_, hlegacy, k + 1, Nat.succ_pos k, by omega, hzero⟩
          rw [htim]
          split
          · exact hand _ _
          · rfl
    · rw [if_neg hf]
      have hqueue : (s.sta psta).sleepQ = kept ++ [f] ++ rest := by
        rw [hq, List.append_assoc, List.singleton_append]
      obtain ⟨q, tim, hjoined, heq, htim⟩ := ih hrest hqueue
      refine ⟨q, tim, hjoined, ?_, ?_⟩
      · rw [heq]
        simp only [List.filter_cons, List.countP_cons, hf, Bool.not_false, if_true, if_false,
          Nat.add_zero, List.append_assoc, List.singleton_append, Bool.false_eq_true]
      · simp only [List.countP_cons, hf, if_false, Nat.add_zero, Bool.false_eq_true]
        exact htim

/-- A frame for one station that is kept until the station wakes up or asks for it. -/
structure Held (s : PsDriver) (psta : StaPtr) (f : TxFrame) : Prop where
  apState : s.env.apState = true
  triggered : f.triggered = false
  staOf : s.staOf f = some psta
  single : isMcast f.ra = false
  asleep : (s.sta psta).asleep = true
  dz : s.staDzBitmap &&& bit (s.sta psta).aid ≠ 0

/-- The state after a frame was put into the queue of its station. -/
def held (s : PsDriver) (psta : StaPtr) (f : TxFrame) : PsDriver :=
  let s' := s.keepFrame psta f ((s.sta psta).deliveryEnabled f.ac)
  if (s.sta psta).hasLegacyAc = (s.sta psta).deliveryEnabled f.ac then s'
  else s'.setTim (s.sta psta).aid

/-- What `xmitframe_enqueue_for_sleeping_sta` can do. -/
theorem enqueue_cases (s : PsDriver) (f : TxFrame) :
    (∃ f', s.xmitframeEnqueueForSleepingSta f = (s, some f') ∧ f'.psta = f.psta ∧ f'.ra = f.ra) ∨
    (∃ psta, s.staOf f = some psta ∧ isMcast f.ra = true ∧
      s.xmitframeEnqueueForSleepingSta f =
        (((s.keepFrame psta f false).setTim 0).setDz 0, none)) ∨
    (∃ psta, s.Held psta f ∧ s.xmitframeEnqueueForSleepingSta f = (s.held psta f, none)) := by
  unfold xmitframeEnqueueForSleepingSta
  split
  · exact Or.inl ⟨f, rfl, rfl, rfl⟩
  · next hap =>
    cases hsta : s.staOf f with
    | none => exact Or.inl ⟨f, rfl, rfl, rfl⟩
    | some psta =>
      simp only
      split
      · exact Or.inl ⟨_, rfl, rfl, rfl⟩
      · next htriggered =>
        split
        · next hm =>
          split
          · exact Or.inr (Or.inl ⟨psta, rfl, hm, rfl⟩)
          · exact Or.inl ⟨f, rfl, rfl, rfl⟩
        · next hm =>
          split
          · next hkept =>
            simp only [Bool.and_eq_true, bne_iff_ne] at hkept
            have hheld : s.Held psta f := by
              constructor
              · simpa only [Bool.not_eq_true', Bool.not_eq_false] using hap
              · exact Bool.eq_false_iff.mpr htriggered
              · exact hsta
              · exact Bool.eq_false_iff.mpr hm
              · exact hkept.1
              · exact hkept.2
            refine Or.inr (Or.inr ⟨psta, hheld, ?_⟩)
            unfold held
            cases (s.sta psta).hasLegacyAc <;> cases (s.sta psta).deliveryEnabled f.ac <;> rfl
          · exact Or.inl ⟨f, rfl, rfl, rfl⟩

/-- Queues for sleeping stations grow: what is set otherwise stays, and bits are only added. -/
structure Sleepier (s s' : PsDriver) : Prop where
  env : s'.env = s.env
  sta : ∀ psta, ∃ sleepQ sleepqLen sleepqAcLen, s'.sta psta = { s.sta psta with
    sleepQ := sleepQ
    sleepqLen := sleepqLen
    sleepqAcLen := sleepqAcLen }
  dz : ∃ bits, s'.staDzBitmap = s.staDzBitmap ||| bits
  tim : ∃ bits, s'.timBitmap = s.timBitmap ||| bits

theorem or_zero_bits (x : BitVec 16) : ∃ bits, x = x ||| bits := ⟨0, (BitVec.or_zero).symm⟩

theorem Sleepier.refl (s : PsDriver) : Sleepier s s :=
  ⟨rfl, fun _ => ⟨_, _, _, rfl⟩, or_zero_bits _, or_zero_bits _⟩

theorem Sleepier.trans {s t u : PsDriver} (h : Sleepier s t) (h' : Sleepier t u) :
    Sleepier s u where
  env := h'.env.trans h.env
  sta psta := by
    obtain ⟨_, _, _, hsta⟩ := h.sta psta
    obtain ⟨q, n, m, hsta'⟩ := h'.sta psta
    refine ⟨q, n, m, ?_⟩
    rw [hsta', hsta]
  dz := by
    obtain ⟨b, hb⟩ := h.dz
    obtain ⟨b', hb'⟩ := h'.dz
    exact ⟨b ||| b', by rw [hb', hb, BitVec.or_assoc]⟩
  tim := by
    obtain ⟨b, hb⟩ := h.tim
    obtain ⟨b', hb'⟩ := h'.tim
    exact ⟨b ||| b', by rw [hb', hb, BitVec.or_assoc]⟩

theorem and_bits_or {x y z : BitVec 16} (h : x &&& z ≠ 0) : (x ||| y) &&& z ≠ 0 := by
  intro hzero
  rw [BitVec.and_or_distrib_right] at hzero
  exact h (BitVec.or_eq_zero_iff.mp hzero).1

theorem keepFrame_sta (s : PsDriver) (psta : StaPtr) (f : TxFrame) (counted : Bool)
    (p : StaPtr) : ∃ sleepQ sleepqLen sleepqAcLen, (s.keepFrame psta f counted).sta p =
      { s.sta p with
        sleepQ := sleepQ
        sleepqLen := sleepqLen
        sleepqAcLen := sleepqAcLen } := by
  by_cases hp : p = psta
  · subst hp
    simp only [keepFrame, setSta, Function.update_self]
    exact ⟨_, _, _, rfl⟩
  · simp only [keepFrame, setSta, Function.update_of_ne hp]
    exact ⟨_, _, _, rfl⟩

theorem held_sta (s : PsDriver) (psta : StaPtr) (f : TxFrame) :
    (s.held psta f).sta = (s.keepFrame psta f ((s.sta psta).deliveryEnabled f.ac)).sta := by
  unfold held
  simp only
  split <;> rfl

theorem held_tim (s : PsDriver) (psta : StaPtr) (f : TxFrame) : (s.held psta f).timBitmap =
    if (s.sta psta).hasLegacyAc = (s.sta psta).deliveryEnabled f.ac then s.timBitmap
    else s.timBitmap ||| bit (s.sta psta).aid := by
  unfold held
  simp only
  split <;> rfl

theorem held_rest (s : PsDriver) (psta : StaPtr) (f : TxFrame) :
    (s.held psta f).env = s.env ∧ (s.held psta f).queues = s.queues ∧
      (s.held psta f).staDzBitmap = s.staDzBitmap := by
  unfold held
  simp only
  split <;> exact ⟨rfl, rfl, rfl⟩

theorem enqueue_sleepier (s : PsDriver) (f : TxFrame) :
    Sleepier s (s.xmitframeEnqueueForSleepingSta f).1 ∧
      (s.xmitframeEnqueueForSleepingSta f).1.queues = s.queues := by
  obtain ⟨f', heq, -⟩ | ⟨psta, -, -, heq⟩ | ⟨psta, -, heq⟩ := s.enqueue_cases f
  · rw [heq]
    exact ⟨Sleepier.refl s, rfl⟩
  · rw [heq]
    exact ⟨⟨rfl, s.keepFrame_sta psta f false, ⟨_, rfl⟩, ⟨_, rfl⟩⟩, rfl⟩
  · rw [heq]
    obtain ⟨henv, hqueues, hdz⟩ := s.held_rest psta f
    refine ⟨⟨henv, ?_, ?_, ?_⟩, hqueues⟩
    · rw [held_sta]
      exact s.keepFrame_sta psta f _
    · rw [hdz]
      exact or_zero_bits _
    · rw [held_tim]
      split
      · exact or_zero_bits _
      · exact ⟨_, rfl⟩

theorem enqueue_left {s : PsDriver} {f g : TxFrame}
    (h : (s.xmitframeEnqueueForSleepingSta f).2 = some g) : g.psta = f.psta ∧ g.ra = f.ra := by
  obtain ⟨f', heq, hf'⟩ | ⟨_, _, _, heq⟩ | ⟨_, _, heq⟩ := s.enqueue_cases f
  · rw [heq] at h
    cases h
    exact hf'
  · rw [heq] at h
    cases h
  · rw [heq] at h
    cases h

theorem leave_pending (q : XmitQueues) (psta : StaPtr) (f : TxFrame) (p : StaPtr) (ac : Ac) :
    ((q.leave psta f).servq p ac).staPending = (q.servq p ac).staPending := by
  by_cases hpa : p = psta ∧ ac = f.ac
  · obtain ⟨rfl, rfl⟩ := hpa
    show ((setServq _ p f.ac _).servq p f.ac).staPending = _
    rw [setServq_self]
  · show ((setServq _ psta f.ac _).servq p ac).staPending = _
    rw [setServq_other _ hpa]

/-- The state after a frame was offered, and counted out. -/
def offered (s : PsDriver) (psta : StaPtr) (f : TxFrame) : PsDriver :=
  { (s.xmitframeEnqueueForSleepingSta f).1 with
    queues := (s.xmitframeEnqueueForSleepingSta f).1.queues.leave psta f }

theorem offered_sleepier (s : PsDriver) (psta : StaPtr) (f : TxFrame) :
    Sleepier s (s.offered psta f) :=
  ⟨(s.enqueue_sleepier f).1.env, (s.enqueue_sleepier f).1.sta, (s.enqueue_sleepier f).1.dz,
    (s.enqueue_sleepier f).1.tim⟩

theorem offered_pending (s : PsDriver) (psta : StaPtr) (f : TxFrame) (p : StaPtr) (ac : Ac) :
    ((s.offered psta f).queues.servq p ac).staPending = (s.queues.servq p ac).staPending := by
  rw [offered, leave_pending, (s.enqueue_sleepier f).2]

theorem offerFrames_cons (s : PsDriver) (psta : StaPtr) (f : TxFrame) (l : List TxFrame) :
    offerFrames psta (f :: l) s = ((offerFrames psta l (s.offered psta f)).1,
      (s.xmitframeEnqueueForSleepingSta f).2.toList ++
        (offerFrames psta l (s.offered psta f)).2) := rfl

/-- Frames that are offered stay in the lists until what is left of them is put back. -/
theorem offerFrames_effect (psta : StaPtr) (l : List TxFrame) (s : PsDriver) :
    Sleepier s (offerFrames psta l s).1 ∧
      (∀ p ac, ((offerFrames psta l s).1.queues.servq p ac).staPending =
        (s.queues.servq p ac).staPending) ∧
      ∀ g ∈ (offerFrames psta l s).2, ∃ f ∈ l, g.psta = f.psta ∧ g.ra = f.ra := by
  induction l generalizing s with
  | nil => exact ⟨Sleepier.refl s, fun _ _ => rfl, fun _ hg => absurd hg List.not_mem_nil⟩
  | cons f l ih =>
    obtain ⟨hsleepier, hpending, hleft⟩ := ih (s.offered psta f)
    rw [offerFrames_cons]
    refine ⟨(s.offered_sleepier psta f).trans hsleepier, ?_, ?_⟩
    · intro p ac
      rw [hpending, offered_pending]
    · intro g hg
      rcases List.mem_append.mp hg with hself | hrest
      · exact ⟨f, List.mem_cons_self, enqueue_left (Option.mem_toList.mp hself)⟩
      · obtain ⟨f', hf', haddress⟩ := hleft g hrest
        exact ⟨f', List.mem_cons_of_mem _ hf', haddress⟩

/-- What is left of a queue is a part of it, up to marks; the other queues stay. -/
theorem dequeueToSleepingQueue_effect (s : PsDriver) (psta : StaPtr) (ac : Ac) :
    Sleepier s (s.dequeueXmitframesToSleepingQueue psta ac) ∧
      (∀ p a, ¬ (p = psta ∧ a = ac) →
        ((s.dequeueXmitframesToSleepingQueue psta ac).queues.servq p a).staPending =
          (s.queues.servq p a).staPending) ∧
      ∀ g ∈ ((s.dequeueXmitframesToSleepingQueue psta ac).queues.servq psta ac).staPending,
        ∃ f ∈ (s.queues.servq psta ac).staPending, g.psta = f.psta ∧ g.ra = f.ra := by
  obtain ⟨hsleepier, hpending, hleft⟩ :=
    offerFrames_effect psta (s.queues.servq psta ac).staPending s
  refine ⟨⟨hsleepier.env, hsleepier.sta, hsleepier.dz, hsleepier.tim⟩, ?_, ?_⟩
  · intro p a hpa
    show ((setServq _ psta ac _).servq p a).staPending = _
    rw [setServq_other _ hpa, hpending]
  · intro g hg
    apply hleft g
    have hself : ((s.dequeueXmitframesToSleepingQueue psta ac).queues.servq psta ac).staPending =
        (offerFrames psta (s.queues.servq psta ac).staPending s).2 := by
      show ((setServq _ psta ac _).servq psta ac).staPending = _
      rw [setServq_self]
    rwa [← hself]

/-- The state in which `stop_sta_xmit` offers the frames. -/
def stopping (s : PsDriver) (psta : StaPtr) : PsDriver :=
  (s.setSta psta { s.sta psta with asleep := true }).setDz (s.sta psta).aid

/-- Some queues of a station, one after the other. -/
def sleepAll (psta : StaPtr) (acs : List Ac) (s : PsDriver) : PsDriver :=
  acs.foldl (fun s ac => s.dequeueXmitframesToSleepingQueue psta ac) s

theorem stopStaXmit_eq (s : PsDriver) (psta : StaPtr) : s.stopStaXmit psta =
    match s.bcmc with
    | none => sleepAll psta [.vo, .vi, .be, .bk] (s.stopping psta)
    | some psta_bmc => (sleepAll psta [.vo, .vi, .be, .bk]
        (s.stopping psta)).dequeueXmitframesToSleepingQueue psta_bmc .be := rfl

theorem sleepAll_sleepier (psta : StaPtr) (acs : List Ac) (s : PsDriver) :
    Sleepier s (sleepAll psta acs s) := by
  induction acs generalizing s with
  | nil => exact Sleepier.refl s
  | cons ac acs ih => exact (s.dequeueToSleepingQueue_effect psta ac).1.trans (ih _)

end Rtl8188eu.PsDriver
