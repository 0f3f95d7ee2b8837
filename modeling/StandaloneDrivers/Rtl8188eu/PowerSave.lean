import StandaloneDrivers.Rtl8188eu.SleepEffects

/-! The frames kept for sleeping stations over every run: their counters and the bits of the
traffic indication map. -/
namespace Rtl8188eu
open Foundations XmitQueues

/-- `sleepq_len` and `sleepq_ac_len` count the frames of the queue. -/
def PsStation.Counted (t : PsStation) : Prop :=
  t.sleepqLen = t.sleepQ.length ∧
    t.sleepqAcLen = t.sleepQ.countP fun f => t.deliveryEnabled f.ac

/-- A frame that the station asks for by its bit in the traffic indication map. -/
def PsStation.Polled (t : PsStation) (f : TxFrame) : Prop :=
  t.deliveryEnabled f.ac = false ∨ t.hasLegacyAc = false

namespace PsDriver

/-- A station with an aid of 1 to 15. -/
def Associated (s : PsDriver) (psta : StaPtr) : Prop :=
  0 < (s.sta psta).aid ∧ (s.sta psta).aid < 16

/-- The bit of a station in `tim_bitmap` is set. -/
def Indicated (s : PsDriver) (psta : StaPtr) : Prop := s.timBitmap &&& bit (s.sta psta).aid ≠ 0

/-- The counters of a station are right, and its bit is set when it has frames to ask for. -/
structure Buffered (s : PsDriver) (psta : StaPtr) : Prop where
  counted : (s.sta psta).Counted
  indicated : ∀ f ∈ (s.sta psta).sleepQ, (s.sta psta).Polled f → s.Indicated psta

/-- A frame for a group is not for an associated station. -/
def Addressed (s : PsDriver) (f : TxFrame) : Prop :=
  isMcast f.ra = true → ∀ psta, s.staOf f = some psta → (s.sta psta).aid = 0

/-- Frames wait in the queues of their stations. -/
def Stored (s : PsDriver) (q : XmitQueues) : Prop :=
  ∀ psta ac, ∀ f ∈ (q.servq psta ac).staPending, s.staOf f = some psta ∧ s.Addressed f

/-- The invariant, but for the bit of one station. -/
structure ServedBut (x : Option StaPtr) (s : PsDriver) : Prop where
  aids : ∀ p p', (s.sta p).aid = (s.sta p').aid → 0 < (s.sta p).aid → p = p'
  bcmc : ∀ psta, s.bcmc = some psta → (s.sta psta).aid = 0
  stored : s.Stored s.queues
  addressed : ∀ psta, ∀ f ∈ (s.sta psta).sleepQ, s.Addressed f
  counted : ∀ psta, s.Associated psta → (s.sta psta).Counted
  indicated : ∀ psta, s.Associated psta → x ≠ some psta →
    ∀ f ∈ (s.sta psta).sleepQ, (s.sta psta).Polled f → s.Indicated psta

/-- Only one station changes, and the bits of the others stay. -/
structure Changed (psta : StaPtr) (s s' : PsDriver) : Prop where
  env : s'.env = s.env
  aid : ∀ p, (s'.sta p).aid = (s.sta p).aid
  other : ∀ p, p ≠ psta → s'.sta p = s.sta p
  tim : ∀ aid, 0 < aid → aid ≠ (s.sta psta).aid → s.timBitmap &&& bit aid ≠ 0 →
    s'.timBitmap &&& bit aid ≠ 0

theorem Changed.refl (psta : StaPtr) (s : PsDriver) : Changed psta s s :=
  ⟨rfl, fun _ => rfl, fun _ _ => rfl, fun _ _ _ h => h⟩

theorem Changed.trans {psta : StaPtr} {s t u : PsDriver} (h : Changed psta s t)
    (h' : Changed psta t u) : Changed psta s u where
  env := h'.env.trans h.env
  aid p := (h'.aid p).trans (h.aid p)
  other p hp := (h'.other p hp).trans (h.other p hp)
  tim aid hpos hne hbit := by
    apply h'.tim aid hpos _ (h.tim aid hpos hne hbit)
    rwa [h.aid]

theorem Changed.staOf {psta : StaPtr} {s s' : PsDriver} (h : Changed psta s s') (f : TxFrame) :
    s'.staOf f = s.staOf f := by
  rw [PsDriver.staOf, PsDriver.staOf, h.env]

theorem Changed.addressed {psta : StaPtr} {s s' : PsDriver} (h : Changed psta s s')
    (f : TxFrame) : s'.Addressed f ↔ s.Addressed f := by
  simp only [Addressed, h.staOf, h.aid]

theorem Changed.stored {psta : StaPtr} {s s' : PsDriver} (h : Changed psta s s')
    {q : XmitQueues} (hq : s.Stored q) : s'.Stored q := by
  intro p ac f hf
  rw [h.staOf, h.addressed]
  exact hq p ac f hf

/-- What is to be shown when one station changes. -/
theorem ServedBut.change {x : Option StaPtr} {psta : StaPtr} {s s' : PsDriver}
    (h : ServedBut x s) (hc : Changed psta s s') (hstored : s.Stored s'.queues)
    (haddressed : ∀ f ∈ (s'.sta psta).sleepQ, s.Addressed f)
    (hcounted : s.Associated psta → (s'.sta psta).Counted)
    (hindicated : s.Associated psta → x ≠ some psta →
      ∀ f ∈ (s'.sta psta).sleepQ, (s'.sta psta).Polled f → s'.Indicated psta) :
    ServedBut x s' where
  aids p p' := by
    rw [hc.aid, hc.aid]
    exact h.aids p p'
  bcmc p hp := by
    rw [hc.aid]
    apply h.bcmc
    rwa [PsDriver.bcmc, ← hc.env]
  stored := hc.stored hstored
  addressed p f hf := by
    rw [hc.addressed]
    by_cases hp : p = psta
    · subst hp
      exact haddressed f hf
    · rw [hc.other p hp] at hf
      exact h.addressed p f hf
  counted p hp := by
    rw [Associated, hc.aid] at hp
    by_cases hpsta : p = psta
    · subst hpsta
      exact hcounted hp
    · rw [hc.other p hpsta]
      exact h.counted p hp
  indicated p hp hx f hf hpolled := by
    rw [Associated, hc.aid] at hp
    by_cases hpsta : p = psta
    · subst hpsta
      exact hindicated hp hx f hf hpolled
    · rw [hc.other p hpsta] at hf hpolled
      rw [Indicated, hc.aid]
      apply hc.tim _ hp.1
      · intro haid
        exact hpsta (h.aids p psta haid hp.1)
      · exact h.indicated p hp hx f hf hpolled

theorem Stored.joined {s : PsDriver} {q q' : XmitQueues} (hq : s.Stored q)
    (h : Joined s.env s.Addressed q q') : s.Stored q' := by
  apply h.invariant hq
  intro q f psta hq hgood hsta p ac g hg
  have hself : (q.classify psta f).servq psta f.ac =
      ⟨(q.servq psta f.ac).staPending ++ [f], (q.servq psta f.ac).qcnt + 1⟩ := setServq_self _ _ _
  by_cases hpa : p = psta ∧ ac = f.ac
  · obtain ⟨rfl, rfl⟩ := hpa
    rw [hself] at hg
    rcases List.mem_append.mp hg with hold | hnew
    · exact hq p f.ac g hold
    · rw [List.mem_singleton.mp hnew]
      exact ⟨hsta, hgood⟩
  · have hother : (q.classify psta f).servq p ac = q.servq p ac := setServq_other _ hpa
    rw [hother] at hg
    exact hq p ac g hg

theorem addressOnly_addressed (s : PsDriver) : AddressOnly s.Addressed := by
  intro f g hpsta hra hf
  simp only [Addressed, staOf, hpsta, hra] at hf ⊢
  exact hf

theorem or_bit_and {aid : ℕ} (x : BitVec 16) (h : aid < 16) : (x ||| bit aid) &&& bit aid ≠ 0 := by
  intro hzero
  have hbit : ((x ||| bit aid) &&& bit aid).getLsbD aid = true := by
    simp [bit, h]
  rw [hzero] at hbit
  simp at hbit

theorem and_not_bit {aid aid' : ℕ} (x : BitVec 16) (h : aid' ≠ aid) :
    x &&& ~~~ bit aid &&& bit aid' = x &&& bit aid' := by
  apply BitVec.eq_of_getLsbD_eq
  intro i hi
  simp [bit]
  grind

theorem Changed.of_sta {psta : StaPtr} {s s' : PsDriver} {t : PsStation} (henv : s'.env = s.env)
    (hsta : s'.sta = Function.update s.sta psta t) (haid : t.aid = (s.sta psta).aid)
    (htim : ∀ aid, 0 < aid → aid ≠ (s.sta psta).aid → s.timBitmap &&& bit aid ≠ 0 →
      s'.timBitmap &&& bit aid ≠ 0) : Changed psta s s' where
  env := henv
  aid p := by
    rw [hsta]
    by_cases hp : p = psta
    · rw [hp, Function.update_self, haid]
    · rw [Function.update_of_ne hp]
  other p hp := by rw [hsta, Function.update_of_ne hp]
  tim := htim

theorem held_changed (s : PsDriver) (psta : StaPtr) (f : TxFrame) :
    Changed psta s (s.held psta f) := by
  apply Changed.of_sta (s.held_rest psta f).1 (s.held_sta psta f) rfl
  intro aid _ _ hbit
  rw [held_tim]
  split
  · exact hbit
  · exact and_bits_or hbit

theorem Counted.keep {t : PsStation} (h : t.Counted) (f : TxFrame) : PsStation.Counted { t with
    sleepQ := t.sleepQ ++ [f]
    sleepqLen := t.sleepqLen + 1
    sleepqAcLen := if t.deliveryEnabled f.ac = true then t.sleepqAcLen + 1
      else t.sleepqAcLen } := by
  constructor
  · show t.sleepqLen + 1 = (t.sleepQ ++ [f]).length
    rw [h.1, List.length_append, List.length_singleton]
  · show (if t.deliveryEnabled f.ac = true then t.sleepqAcLen + 1 else t.sleepqAcLen) =
      (t.sleepQ ++ [f]).countP fun f => t.deliveryEnabled f.ac
    rw [h.2, List.countP_append, List.countP_singleton]
    split <;> rfl

/-- A frame is offered to the queue of its station: the bit of the station may be missing only when
no other frame sets it. -/
theorem ServedBut.enqueue {x : Option StaPtr} {s : PsDriver} (h : ServedBut x s) {f : TxFrame}
    (hf : s.Addressed f)
    (hok : ∀ psta, s.Held psta f → s.Associated psta → x ≠ some psta →
      (s.sta psta).hasLegacyAc = true ∨ (s.sta psta).deliveryEnabled f.ac = true ∨
        s.Indicated psta) :
    ServedBut x (s.xmitframeEnqueueForSleepingSta f).1 := by
  obtain ⟨f', heq, -⟩ | ⟨psta, hsta, hm, heq⟩ | ⟨psta, hheld, heq⟩ := s.enqueue_cases f
  · rw [heq]
    exact h
  · rw [heq]
    have hzero : ¬ s.Associated psta := by
      intro hassociated
      have haid := hf hm psta hsta
      have hpos := hassociated.1
      omega
    have hsta' : ((((s.keepFrame psta f false).setTim 0).setDz 0).sta psta).sleepQ =
        (s.sta psta).sleepQ ++ [f] := by
      simp only [setDz, setTim, keepFrame, setSta, Function.update_self]
    apply @ServedBut.change x psta s _ h
    · apply @Changed.of_sta psta s (((s.keepFrame psta f false).setTim 0).setDz 0)
        ((s.keepFrame psta f false).sta psta) rfl
      · simp only [setDz, setTim, keepFrame, setSta, Function.update_self]
      · simp only [keepFrame, setSta, Function.update_self]
      · intro aid _ _ hbit
        exact and_bits_or hbit
    · exact h.stored
    · intro g hg
      rw [hsta'] at hg
      rcases List.mem_append.mp hg with hold | hnew
      · exact h.addressed psta g hold
      · rwa [List.mem_singleton.mp hnew]
    · intro hassociated
      exact absurd hassociated hzero
    · intro hassociated
      exact absurd hassociated hzero
  · rw [heq]
    have hsta : (s.held psta f).sta psta = { s.sta psta with
        sleepQ := (s.sta psta).sleepQ ++ [f]
        sleepqLen := (s.sta psta).sleepqLen + 1
        sleepqAcLen := if (s.sta psta).deliveryEnabled f.ac = true
          then (s.sta psta).sleepqAcLen + 1 else (s.sta psta).sleepqAcLen } := by
      rw [held_sta]
      simp only [keepFrame, setSta, Function.update_self]
    apply h.change (s.held_changed psta f)
    · rw [(s.held_rest psta f).2.1]
      exact h.stored
    · intro g hg
      rw [hsta] at hg
      rcases List.mem_append.mp hg with hold | hnew
      · exact h.addressed psta g hold
      · rwa [List.mem_singleton.mp hnew]
    · intro hassociated
      rw [hsta]
      exact Counted.keep (h.counted psta hassociated) f
    · intro hassociated hx g hg hpolled
      rw [hsta] at hg hpolled
      rw [Indicated, held_tim, (s.held_changed psta f).aid]
      split
      · next heq =>
        rcases List.mem_append.mp hg with hold | hnew
        · exact h.indicated psta hassociated hx g hold hpolled
        · rw [List.mem_singleton.mp hnew] at hpolled
          rcases hok psta hheld hassociated hx with hlegacy | hdelivery | hindicated
          · rcases hpolled with hpolled | hpolled
            · rw [hlegacy] at heq
              exact absurd (heq.trans hpolled) (by decide)
            · exact absurd (hlegacy.symm.trans hpolled) (by decide)
          · rcases hpolled with hpolled | hpolled
            · exact absurd (hdelivery.symm.trans hpolled) (by decide)
            · rw [hdelivery] at heq
              exact absurd (heq.symm.trans hpolled) (by decide)
          · exact hindicated
      · exact or_bit_and _ hassociated.2

/-- A frame that can be offered to the queue of its station at any time: if it is kept then the bit
of the station does not depend on it. -/
def Insertable (x : Option StaPtr) (s : PsDriver) (f : TxFrame) : Prop :=
  ∀ psta, s.staOf f = some psta → s.Associated psta → x ≠ some psta →
    s.env.apState = false ∨ f.triggered = true ∨ (s.sta psta).hasLegacyAc = true ∨
      (s.sta psta).deliveryEnabled f.ac = true ∨ s.Indicated psta

theorem Sleepier.staOf {s s' : PsDriver} (h : Sleepier s s') (f : TxFrame) :
    s'.staOf f = s.staOf f := by
  rw [PsDriver.staOf, PsDriver.staOf, h.env]

theorem Sleepier.station {s s' : PsDriver} (h : Sleepier s s') (psta : StaPtr) :
    (s'.sta psta).aid = (s.sta psta).aid ∧ (s'.sta psta).asleep = (s.sta psta).asleep ∧
      (s'.sta psta).hasLegacyAc = (s.sta psta).hasLegacyAc ∧
      ∀ ac, (s'.sta psta).deliveryEnabled ac = (s.sta psta).deliveryEnabled ac := by
  obtain ⟨_, _, _, hsta⟩ := h.sta psta
  rw [hsta]
  exact ⟨rfl, rfl, rfl, fun _ => rfl⟩

theorem Sleepier.indicated {s s' : PsDriver} (h : Sleepier s s') {psta : StaPtr}
    (hbit : s.Indicated psta) : s'.Indicated psta := by
  obtain ⟨bits, htim⟩ := h.tim
  rw [Indicated, (h.station psta).1, htim]
  exact and_bits_or hbit

theorem Sleepier.addressed {s s' : PsDriver} (h : Sleepier s s') {f : TxFrame}
    (hf : s.Addressed f) : s'.Addressed f := by
  intro hm psta hsta
  rw [(h.station psta).1]
  apply hf hm
  rwa [← h.staOf]

theorem Insertable.sleepier {x : Option StaPtr} {s s' : PsDriver} {f : TxFrame}
    (hf : Insertable x s f) (h : Sleepier s s') : Insertable x s' f := by
  intro psta hsta hassociated hx
  obtain ⟨haid, -, hlegacy, hdelivery⟩ := h.station psta
  rw [h.staOf] at hsta
  rw [Associated, haid] at hassociated
  rw [h.env, hlegacy, hdelivery]
  rcases hf psta hsta hassociated hx with hap | htriggered | hleg | hdel | hbit
  · exact Or.inl hap
  · exact Or.inr (Or.inl htriggered)
  · exact Or.inr (Or.inr (Or.inl hleg))
  · exact Or.inr (Or.inr (Or.inr (Or.inl hdel)))
  · exact Or.inr (Or.inr (Or.inr (Or.inr (h.indicated hbit))))

theorem Insertable.held {x : Option StaPtr} {s : PsDriver} {f : TxFrame}
    (hf : Insertable x s f) (psta : StaPtr) (hheld : s.Held psta f) (ha : s.Associated psta)
    (hx : x ≠ some psta) : (s.sta psta).hasLegacyAc = true ∨
      (s.sta psta).deliveryEnabled f.ac = true ∨ s.Indicated psta := by
  rcases hf psta hheld.staOf ha hx with hap | htriggered | h
  · rw [hheld.apState] at hap
    cases hap
  · rw [hheld.triggered] at htriggered
    cases htriggered
  · exact h

/-- Less is asked of one station. -/
theorem ServedBut.mono {s : PsDriver} (h : ServedBut none s) (x : Option StaPtr) :
    ServedBut x s where
  aids := h.aids
  bcmc := h.bcmc
  stored := h.stored
  addressed := h.addressed
  counted := h.counted
  indicated psta ha _ := h.indicated psta ha (Option.some_ne_none psta).symm

/-- The bit of the one station is set. -/
theorem ServedBut.indicate {s : PsDriver} {psta : StaPtr} (h : ServedBut (some psta) s)
    (hbit : s.Indicated psta) : ServedBut none s where
  aids := h.aids
  bcmc := h.bcmc
  stored := h.stored
  addressed := h.addressed
  counted := h.counted
  indicated p ha _ f hf hpolled := by
    by_cases hp : p = psta
    · rw [hp]
      exact hbit
    · apply h.indicated p ha _ f hf hpolled
      intro heq
      exact hp (Option.some.inj heq).symm

/-- The same driver with other queues, in which the frames that wait are the same. -/
theorem ServedBut.setQueues {x : Option StaPtr} {s : PsDriver} (h : ServedBut x s)
    {q : XmitQueues} (hq : s.Stored q) : ServedBut x { s with queues := q } where
  aids := h.aids
  bcmc := h.bcmc
  stored := hq
  addressed := h.addressed
  counted := h.counted
  indicated := h.indicated

/-- The frames of a queue are offered. -/
theorem ServedBut.offerFrames {x : Option StaPtr} {s : PsDriver} (h : ServedBut x s)
    (psta : StaPtr) {l : List TxFrame} (hl : ∀ f ∈ l, s.Addressed f)
    (hok : ∀ f ∈ l, Insertable x s f) : ServedBut x (offerFrames psta l s).1 := by
  induction l generalizing s with
  | nil => exact h
  | cons f l ih =>
    have hserved := h.enqueue (hl f List.mem_cons_self) (hok f List.mem_cons_self).held
    have hsleepier := s.offered_sleepier psta f
    rw [offerFrames_cons]
    apply ih
    · apply hserved.setQueues
      intro p ac g hg
      rw [leave_pending] at hg
      exact hserved.stored p ac g hg
    · intro g hg
      exact hsleepier.addressed (hl g (List.mem_cons_of_mem _ hg))
    · intro g hg
      exact (hok g (List.mem_cons_of_mem _ hg)).sleepier hsleepier

/-- The frames of a station's queue are offered, and the station is unlinked. -/
theorem ServedBut.sleep {x : Option StaPtr} {s : PsDriver} (h : ServedBut x s) (psta : StaPtr)
    (ac : Ac) (hok : ∀ f ∈ (s.queues.servq psta ac).staPending, Insertable x s f) :
    ServedBut x (s.dequeueXmitframesToSleepingQueue psta ac) := by
  have hserved := h.offerFrames psta (fun f hf => (h.stored psta ac f hf).2) hok
  obtain ⟨hsleepier, hother, hleft⟩ := s.dequeueToSleepingQueue_effect psta ac
  apply hserved.setQueues
  intro p a g hg
  have hstored : s.staOf g = some p ∧ s.Addressed g := by
    by_cases hpa : p = psta ∧ a = ac
    · obtain ⟨rfl, rfl⟩ := hpa
      obtain ⟨f, hf, hpsta, hra⟩ := hleft g hg
      obtain ⟨hsta, haddressed⟩ := h.stored p a f hf
      constructor
      · rw [PsDriver.staOf, hpsta, hra]
        exact hsta
      · exact addressOnly_addressed s f g hpsta hra haddressed
    · have hold : g ∈ (s.queues.servq p a).staPending := hother p a hpa ▸ hg
      exact h.stored p a g hold
  constructor
  · rw [(offerFrames_effect psta _ s).1.staOf]
    exact hstored.1
  · exact (offerFrames_effect psta _ s).1.addressed hstored.2

/-- Some queues of a station, one after the other. -/
theorem ServedBut.sleepAll {x : Option StaPtr} {psta : StaPtr} {acs : List Ac}
    (hnodup : acs.Nodup) {s : PsDriver} (h : ServedBut x s)
    (hok : ∀ ac ∈ acs, ∀ f ∈ (s.queues.servq psta ac).staPending, Insertable x s f) :
    ServedBut x (sleepAll psta acs s) := by
  induction acs generalizing s with
  | nil => exact h
  | cons ac acs ih =>
    obtain ⟨hnot, hrest⟩ := List.nodup_cons.mp hnodup
    obtain ⟨hsleepier, hother, -⟩ := s.dequeueToSleepingQueue_effect psta ac
    apply ih hrest (h.sleep psta ac (hok ac List.mem_cons_self))
    intro a ha f hf
    rw [hother psta a fun hpa => hnot (hpa.2 ▸ ha)] at hf
    exact (hok a (List.mem_cons_of_mem _ ha) f hf).sleepier hsleepier

theorem Held.sleepier {s s' : PsDriver} {psta : StaPtr} {f : TxFrame} (hf : s.Held psta f)
    (h : Sleepier s s') : s'.Held psta f where
  apState := by
    rw [h.env]
    exact hf.apState
  triggered := hf.triggered
  staOf := by
    rw [h.staOf]
    exact hf.staOf
  single := hf.single
  asleep := by
    rw [(h.station psta).2.1]
    exact hf.asleep
  dz := by
    obtain ⟨bits, hdz⟩ := h.dz
    rw [(h.station psta).1, hdz]
    exact and_bits_or hf.dz

/-- A frame that is kept sets the bit of its station. -/
theorem Held.indicated {s : PsDriver} {psta : StaPtr} {f : TxFrame} (hf : s.Held psta f)
    (ha : s.Associated psta)
    (hlegacy : (s.sta psta).hasLegacyAc ≠ (s.sta psta).deliveryEnabled f.ac) :
    (s.xmitframeEnqueueForSleepingSta f).1.Indicated psta := by
  obtain ⟨f', heq, -⟩ | ⟨p, hsta, hm, heq⟩ | ⟨p, hheld, heq⟩ := s.enqueue_cases f
  · have hkept : (s.xmitframeEnqueueForSleepingSta f).2 = none := by
      simp only [xmitframeEnqueueForSleepingSta, hf.apState, Bool.not_true, Bool.false_eq_true,
        if_false, hf.staOf, hf.triggered, hf.single, hf.asleep, Bool.true_and, bne_iff_ne]
      rw [if_pos hf.dz]
      split <;> rfl
    rw [heq] at hkept
    cases hkept
  · rw [hf.single] at hm
    cases hm
  · have hp : p = psta := Option.some.inj (hheld.staOf.symm.trans hf.staOf)
    rw [heq, hp, Indicated, held_tim, if_neg hlegacy, (s.held_changed psta f).aid]
    exact or_bit_and _ ha.2

theorem offerFrames_indicated {s : PsDriver} {psta : StaPtr} {f : TxFrame} {l : List TxFrame}
    (hmem : f ∈ l) (hf : s.Held psta f) (ha : s.Associated psta)
    (hlegacy : (s.sta psta).hasLegacyAc ≠ (s.sta psta).deliveryEnabled f.ac) :
    (PsDriver.offerFrames psta l s).1.Indicated psta := by
  induction l generalizing s with
  | nil => cases hmem
  | cons g l ih =>
    have hsleepier := s.offered_sleepier psta g
    rw [offerFrames_cons]
    rcases List.mem_cons.mp hmem with rfl | hrest
    · apply (offerFrames_effect psta l (s.offered psta f)).1.indicated
      exact hf.indicated ha hlegacy
    · obtain ⟨haid, -, hleg, hdel⟩ := hsleepier.station psta
      apply ih hrest (hf.sleepier hsleepier)
      · rw [Associated, haid]
        exact ha
      · rw [hleg, hdel]
        exact hlegacy

theorem sleepAll_indicated {s : PsDriver} {psta : StaPtr} {f : TxFrame} {acs : List Ac} {ac : Ac}
    (hnodup : acs.Nodup) (hac : ac ∈ acs) (hmem : f ∈ (s.queues.servq psta ac).staPending)
    (hf : s.Held psta f) (ha : s.Associated psta)
    (hlegacy : (s.sta psta).hasLegacyAc ≠ (s.sta psta).deliveryEnabled f.ac) :
    (PsDriver.sleepAll psta acs s).Indicated psta := by
  induction acs generalizing s with
  | nil => cases hac
  | cons a acs ih =>
    obtain ⟨hnot, hrest⟩ := List.nodup_cons.mp hnodup
    obtain ⟨hsleepier, hother, -⟩ := s.dequeueToSleepingQueue_effect psta a
    rcases List.mem_cons.mp hac with rfl | hin
    · apply (sleepAll_sleepier psta acs _).indicated
      exact offerFrames_indicated hmem hf ha hlegacy
    · obtain ⟨haid, -, hleg, hdel⟩ := hsleepier.station psta
      apply ih hrest hin
      · rw [hother psta ac fun hpa => hnot (hpa.2 ▸ hin)]
        exact hmem
      · exact hf.sleepier hsleepier
      · rw [Associated, haid]
        exact ha
      · rw [hleg, hdel]
        exact hlegacy

/-- What `stop_sta_xmit` needs: some bit is set with the first frame that is kept, or no frame is. -/
def Stoppable (s : PsDriver) (psta : StaPtr) : Prop :=
  s.Associated psta → s.env.apState = false ∨ (s.sta psta).hasLegacyAc = true ∨
    s.Indicated psta ∨ (∀ ac, ∀ f ∈ (s.queues.servq psta ac).staPending, f.triggered = true) ∨
    ∃ ac, ∃ f ∈ (s.queues.servq psta ac).staPending, f.triggered = false ∧
      (s.sta psta).deliveryEnabled f.ac = true

theorem stopping_changed (s : PsDriver) (psta : StaPtr) : Changed psta s (s.stopping psta) := by
  apply @Changed.of_sta psta s (s.stopping psta) { s.sta psta with asleep := true } rfl rfl rfl
  intro _ _ _ hbit
  exact hbit

theorem stopping_sta (s : PsDriver) (psta : StaPtr) :
    (s.stopping psta).sta psta = { s.sta psta with asleep := true } := by
  simp only [stopping, setDz, setSta, Function.update_self]

theorem ServedBut.stopping {x : Option StaPtr} {s : PsDriver} (h : ServedBut x s)
    (psta : StaPtr) : ServedBut x (s.stopping psta) := by
  apply h.change (s.stopping_changed psta) h.stored
  · rw [stopping_sta]
    exact h.addressed psta
  · intro ha
    rw [stopping_sta]
    exact h.counted psta ha
  · intro ha hx
    rw [stopping_sta, Indicated, (s.stopping_changed psta).aid]
    exact h.indicated psta ha hx

theorem nodup_acs : [Ac.vo, Ac.vi, Ac.be, Ac.bk].Nodup := by decide

theorem mem_acs (ac : Ac) : ac ∈ [Ac.vo, Ac.vi, Ac.be, Ac.bk] := by
  cases ac <;> decide

/-- The frames of one station belong to it alone. -/
theorem insertable_of {x : Option StaPtr} {s : PsDriver} {psta : StaPtr} {f : TxFrame}
    (hsta : s.staOf f = some psta)
    (h : s.Associated psta → x ≠ some psta → s.env.apState = false ∨ f.triggered = true ∨
      (s.sta psta).hasLegacyAc = true ∨ (s.sta psta).deliveryEnabled f.ac = true ∨
        s.Indicated psta) : Insertable x s f := by
  intro p hp ha hx
  have heq : psta = p := Option.some.inj (hsta.symm.trans hp)
  subst heq
  exact h ha hx

/-- The four queues of the station that is put to sleep. -/
theorem ServedBut.sleepOwn {s : PsDriver} (h : ServedBut none s) {psta : StaPtr}
    (hok : s.Stoppable psta) :
    ServedBut none (PsDriver.sleepAll psta [.vo, .vi, .be, .bk] (s.stopping psta)) := by
  have hassociated' : (s.stopping psta).Associated psta ↔ s.Associated psta := by
    rw [Associated, (s.stopping_changed psta).aid]
    rfl
  have hindicated' : (s.stopping psta).Indicated psta ↔ s.Indicated psta := by
    rw [Indicated, (s.stopping_changed psta).aid]
    rfl
  have hstored := (h.stopping psta).stored
  have hall : (s.Associated psta → ∀ ac, ∀ f ∈ (s.queues.servq psta ac).staPending,
      s.env.apState = false ∨ f.triggered = true ∨ (s.sta psta).hasLegacyAc = true ∨
        (s.sta psta).deliveryEnabled f.ac = true ∨ s.Indicated psta) →
      ServedBut none (PsDriver.sleepAll psta [.vo, .vi, .be, .bk] (s.stopping psta)) := by
    intro hframes
    apply (h.stopping psta).sleepAll nodup_acs
    intro ac _ f hf
    apply insertable_of (hstored psta ac f hf).1
    intro ha _
    rw [hindicated', stopping_sta]
    exact hframes (hassociated'.mp ha) ac f hf
  by_cases hassociated : s.Associated psta
  · rcases hok hassociated with hap | hlegacy | hbit | htriggered | ⟨ac, f, hf, htriggered, hde⟩
    · exact hall fun _ _ _ _ => Or.inl hap
    · exact hall fun _ _ _ _ => Or.inr (Or.inr (Or.inl hlegacy))
    · exact hall fun _ _ _ _ => Or.inr (Or.inr (Or.inr (Or.inr hbit)))
    · exact hall fun _ ac f hf => Or.inr (Or.inl (htriggered ac f hf))
    · by_cases hlegacy : (s.sta psta).hasLegacyAc = true
      · exact hall fun _ _ _ _ => Or.inr (Or.inr (Or.inl hlegacy))
      · by_cases hap : s.env.apState = true
        · have hheld : (s.stopping psta).Held psta f := by
            constructor
            · exact hap
            · exact htriggered
            · exact (hstored psta ac f hf).1
            · apply Bool.eq_false_iff.mpr
              intro hm
              have haid := (h.stored psta ac f hf).2 hm psta (h.stored psta ac f hf).1
              have hpos := hassociated.1
              omega
            · rw [stopping_sta]
            · rw [stopping_sta]
              exact or_bit_and _ hassociated.2
          apply @ServedBut.indicate _ psta
          · apply ((h.mono (some psta)).stopping psta).sleepAll nodup_acs
            intro ac _ f hf
            exact insertable_of (hstored psta ac f hf).1 fun _ hx => absurd rfl hx
          · apply @sleepAll_indicated (s.stopping psta) psta f _ ac nodup_acs (mem_acs ac) hf hheld
              (hassociated'.mpr hassociated)
            rw [stopping_sta]
            show (s.sta psta).hasLegacyAc ≠ (s.sta psta).deliveryEnabled f.ac
            rw [hde]
            exact hlegacy
        · exact hall fun _ _ _ _ => Or.inl (Bool.eq_false_iff.mpr hap)
  · exact hall fun ha => absurd ha hassociated

theorem stopStaXmit_served {s : PsDriver} (h : ServedBut none s) {psta : StaPtr}
    (hok : s.Stoppable psta) : ServedBut none (s.stopStaXmit psta) := by
  have hown := h.sleepOwn hok
  rw [stopStaXmit_eq]
  cases hb : s.bcmc with
  | none => exact hown
  | some psta_bmc =>
    apply hown.sleep psta_bmc .be
    intro f hf
    apply insertable_of (hown.stored psta_bmc .be f hf).1
    intro ha
    have hbcmc : (PsDriver.sleepAll psta [.vo, .vi, .be, .bk] (s.stopping psta)).bcmc =
        some psta_bmc := by
      rw [PsDriver.bcmc, (sleepAll_sleepier psta _ _).env]
      exact hb
    have haid := hown.bcmc psta_bmc hbcmc
    have hpos := ha.1
    omega

theorem countDown_iterate {k n : ℕ} (h : k ≤ n) : countDown^[k] n = n - k := by
  induction k with
  | zero => rfl
  | succ k ih =>
    rw [Function.iterate_succ_apply', ih (by omega), countDown, if_neg (by omega)]
    omega

/-- One station is served: it keeps what is counted, and frames are added to the queues. -/
theorem ServedBut.serve {s : PsDriver} (h : ServedBut none s) (psta : StaPtr) {t : PsStation}
    {q : XmitQueues} (hq : Joined s.env s.Addressed s.queues q)
    (haid : t.aid = (s.sta psta).aid) (hsub : t.sleepQ ⊆ (s.sta psta).sleepQ)
    (hcounted : s.Associated psta → t.Counted)
    (hpolled : s.Associated psta → ∀ f ∈ t.sleepQ, t.Polled f → s.Indicated psta) :
    ServedBut none { s.setSta psta t with queues := q } := by
  have hsta : (s.setSta psta t).sta psta = t := by
    simp only [setSta, Function.update_self]
  have hchanged : Changed psta s { s.setSta psta t with queues := q } := by
    apply @Changed.of_sta psta s { s.setSta psta t with queues := q } t rfl rfl haid
    intro _ _ _ hbit
    exact hbit
  apply h.change hchanged
  · exact h.stored.joined hq
  · show ∀ f ∈ ((s.setSta psta t).sta psta).sleepQ, s.Addressed f
    rw [hsta]
    intro f hf
    exact h.addressed psta f (hsub hf)
  · show s.Associated psta → ((s.setSta psta t).sta psta).Counted
    rwa [hsta]
  · intro ha _
    rw [Indicated, hchanged.aid]
    show ∀ f ∈ ((s.setSta psta t).sta psta).sleepQ, ((s.setSta psta t).sta psta).Polled f →
      s.Indicated psta
    rw [hsta]
    exact hpolled ha

/-- The bit of a station without frames is cleared. -/
theorem ServedBut.clearTim {s : PsDriver} (h : ServedBut none s) {psta : StaPtr} {aid : ℕ}
    (haid : (s.sta psta).aid = aid) (hnil : s.Associated psta → (s.sta psta).sleepQ = []) :
    ServedBut none (s.clearTim aid) where
  aids := h.aids
  bcmc := h.bcmc
  stored := h.stored
  addressed := h.addressed
  counted := h.counted
  indicated p ha hx f hf hpolled := by
    by_cases hp : p = psta
    · subst hp
      have hempty : f ∈ (s.sta p).sleepQ := hf
      rw [hnil ha] at hempty
      cases hempty
    · have hbit := h.indicated p ha hx f hf hpolled
      have hne : (s.sta p).aid ≠ (s.sta psta).aid := fun heq => hp (h.aids p psta heq ha.1)
      show s.timBitmap &&& ~~~ bit aid &&& bit (s.sta p).aid ≠ 0
      rw [← haid, and_not_bit _ hne]
      exact hbit

theorem ServedBut.setDzBitmap {s : PsDriver} (h : ServedBut none s) (bits : BitVec 16) :
    ServedBut none { s with staDzBitmap := bits } where
  aids := h.aids
  bcmc := h.bcmc
  stored := h.stored
  addressed := h.addressed
  counted := h.counted
  indicated := h.indicated

/-- Waking up takes the frames of the station out with the counters, when they count the same. -/
theorem wakeFrames_served {s : PsDriver} (h : ServedBut none s) {psta : StaPtr}
    (hok : s.Associated psta → ((s.sta psta).sleepQ.countP fun f => (s.sta psta).triggerEnabled
      f.ac) = (s.sta psta).sleepQ.countP fun f => (s.sta psta).deliveryEnabled f.ac)
    (busy : ℕ → Bool) : ServedBut none (wakeFrames psta busy (s.sta psta).sleepQ s) ∧
      ((wakeFrames psta busy (s.sta psta).sleepQ s).sta psta).sleepQ = [] := by
  obtain ⟨q, hjoined, heq⟩ := wakeFrames_effect s.addressOnly_addressed psta busy
    (h.addressed psta) rfl
  rw [heq]
  constructor
  · apply h.serve psta hjoined
    · rfl
    · exact List.nil_subset _
    · intro ha
      obtain ⟨hlen, hacLen⟩ := h.counted psta ha
      constructor
      · show countDown^[_] (s.sta psta).sleepqLen = 0
        rw [hlen, countDown_iterate (Nat.le_refl _), Nat.sub_self]
      · show countDown^[_] (s.sta psta).sleepqAcLen = 0
        rw [hacLen, ← hok ha, countDown_iterate (Nat.le_refl _), Nat.sub_self]
    · intro _ f hf
      cases hf
  · simp only [setSta, Function.update_self]

theorem awake_served {s : PsDriver} (h : ServedBut none s) {psta : StaPtr}
    (hnil : (s.sta psta).sleepQ = []) : ServedBut none (s.awake psta) := by
  simp only [awake]
  split
  · have hasleep : ServedBut none (s.setSta psta { s.sta psta with asleep := false }) := by
      apply h.serve psta (Joined.refl _)
      · rfl
      · exact List.Subset.refl _
      · exact h.counted psta
      · intro _ f hf
        have hempty : f ∈ (s.sta psta).sleepQ := hf
        rw [hnil] at hempty
        cases hempty
    have hsta : ((s.setSta psta { s.sta psta with asleep := false }).sta psta) =
        { s.sta psta with asleep := false } := by
      simp only [setSta, Function.update_self]
    apply ServedBut.setDzBitmap
    apply @ServedBut.clearTim _ hasleep psta
    · rw [hsta]
    · intro _
      rw [hsta]
      exact hnil
  · exact h

/-- The frames for all stations are not for an associated station. -/
theorem bcmcFrames_served {s : PsDriver} (h : ServedBut none s) {psta : StaPtr}
    (hb : s.bcmc = some psta) (hiq : Bool) (busy : ℕ → Bool) :
    ServedBut none (bcmcFrames psta hiq busy (s.sta psta).sleepQ s) := by
  obtain ⟨q, hjoined, heq⟩ := bcmcFrames_effect s.addressOnly_addressed psta hiq busy
    (h.addressed psta) rfl
  have hzero : ¬ s.Associated psta := by
    intro ha
    have haid := h.bcmc psta hb
    have hpos := ha.1
    omega
  rw [heq]
  apply h.serve psta hjoined
  · rfl
  · exact List.nil_subset _
  · intro ha
    exact absurd ha hzero
  · intro ha
    exact absurd ha hzero

theorem wakeupStaToXmit_served {s : PsDriver} (h : ServedBut none s) {psta : StaPtr}
    (hok : s.Associated psta → ((s.sta psta).sleepQ.countP fun f => (s.sta psta).triggerEnabled
      f.ac) = (s.sta psta).sleepQ.countP fun f => (s.sta psta).deliveryEnabled f.ac)
    (busy busyBcmc : ℕ → Bool) : ServedBut none (s.wakeupStaToXmit psta busy busyBcmc) := by
  obtain ⟨hwoken, hnil⟩ := wakeFrames_served h hok busy
  have hawake := awake_served hwoken hnil
  simp only [wakeupStaToXmit]
  split
  · exact hawake
  · next psta_bmc hb =>
    have hbcmc := bcmcFrames_served hawake hb false busyBcmc
    split
    · split
      · apply ServedBut.setDzBitmap
        apply @ServedBut.clearTim _ hbcmc psta_bmc
        · apply hbcmc.bcmc
          obtain ⟨q, -, heq⟩ := bcmcFrames_effect (addressOnly_addressed _) psta_bmc false busyBcmc
            (hawake.addressed psta_bmc) rfl
          rw [heq]
          exact hb
        · intro _
          obtain ⟨q, -, heq⟩ := bcmcFrames_effect (addressOnly_addressed _) psta_bmc false busyBcmc
            (hawake.addressed psta_bmc) rfl
          rw [heq]
          simp only [setSta, Function.update_self]
      · exact hbcmc
    · exact hawake

theorem txBeaconHdl_served {s : PsDriver} (h : ServedBut none s) (busy : ℕ → Bool) :
    ServedBut none (s.txBeaconHdl busy) := by
  simp only [txBeaconHdl]
  split
  · exact h
  · next psta_bmc hb =>
    split
    · exact bcmcFrames_served h hb true busy
    · exact h

theorem rtwHalXmit_served {s : PsDriver} (h : ServedBut none s) {f : TxFrame}
    (hf : s.Addressed f) (busy : Bool) : ServedBut none (s.rtwHalXmit f busy) := by
  obtain ⟨q, hjoined, heq⟩ := s.rtwHalXmit_effect hf busy
  rw [heq]
  exact h.setQueues (h.stored.joined hjoined)

theorem rtwXmit_served {s : PsDriver} (h : ServedBut none s) {f : TxFrame} (hf : s.Addressed f)
    (hok : ∀ psta, s.Held psta f → s.Associated psta → (s.sta psta).hasLegacyAc = true ∨
      (s.sta psta).deliveryEnabled f.ac = true ∨ s.Indicated psta)
    (busy : Bool) : ServedBut none (s.rtwXmit f busy) := by
  have hserved := h.enqueue hf fun psta hheld ha _ => hok psta hheld ha
  have hsleepier := (s.enqueue_sleepier f).1
  unfold rtwXmit
  split
  · next s' heq =>
    rw [heq] at hserved
    exact hserved
  · next s' f' heq =>
    obtain ⟨hpsta, hra⟩ := enqueue_left (congrArg Prod.snd heq)
    rw [heq] at hserved hsleepier
    apply rtwHalXmit_served hserved
    exact hsleepier.addressed (s.addressOnly_addressed f f' hpsta hra hf)

/-- The station of a PS-Poll frame is answered. -/
def Answered (s : PsDriver) (psta : StaPtr) (aid : ℕ) (priority : UInt8) : Prop :=
  ((s.sta psta).aid = aid && !(s.sta psta).deliveryEnabled (Ac.ofPriority priority) &&
    (s.sta psta).asleep && s.staDzBitmap &&& bit (s.sta psta).aid != 0) = true

theorem ServedBut.headLength {s : PsDriver} (h : ServedBut none s) {psta : StaPtr} {f : TxFrame}
    {rest : List TxFrame} (hq : (s.sta psta).sleepQ = f :: rest) (ha : s.Associated psta) :
    countDown (s.sta psta).sleepqLen = rest.length := by
  rw [(h.counted psta ha).1, hq, List.length_cons, countDown, if_neg (Nat.succ_ne_zero _)]
  omega

/-- The first frame is taken out without `sleepq_ac_len`. -/
theorem ServedBut.headLeaves {s : PsDriver} (h : ServedBut none s) {psta : StaPtr} {f : TxFrame}
    {rest : List TxFrame} (hq : (s.sta psta).sleepQ = f :: rest)
    (hhead : s.Associated psta → (s.sta psta).deliveryEnabled f.ac = false) {q : XmitQueues}
    (hjoined : Joined s.env s.Addressed s.queues q) :
    ServedBut none { s.setSta psta { s.sta psta with
      sleepQ := rest
      sleepqLen := countDown (s.sta psta).sleepqLen } with queues := q } := by
  apply h.serve psta hjoined
  · rfl
  · rw [hq]
    exact List.subset_cons_self _ _
  · intro ha
    constructor
    · exact h.headLength hq ha
    · have hacLen := (h.counted psta ha).2
      rw [hq, List.countP_cons, hhead ha] at hacLen
      exact hacLen
  · intro ha g hg hpolled
    apply h.indicated psta ha (Option.some_ne_none psta).symm g _ hpolled
    rw [hq]
    exact List.mem_cons_of_mem _ hg

theorem psPoll_served {s : PsDriver} (h : ServedBut none s) {ta : MacAddr} {aid : ℕ}
    {priority : UInt8}
    (hok : ∀ psta, s.env.rtwGetStainfo ta = some psta → s.Associated psta →
      s.Answered psta aid priority → ∀ f ∈ (s.sta psta).sleepQ.head?,
        (s.sta psta).deliveryEnabled f.ac = false)
    (busy : Bool) : ServedBut none (s.psPoll ta aid priority busy) := by
  simp only [psPoll]
  split
  · exact h
  · next psta hpsta =>
    split
    · next hanswered =>
      split
      · next f rest hq =>
        obtain ⟨q, hjoined, heq⟩ := @rtwHalXmit_effect s.Addressed
          (s.setSta psta { s.sta psta with
            sleepQ := rest
            sleepqLen := countDown (s.sta psta).sleepqLen }) _
          (s.addressOnly_addressed f { f with
            mdata := decide (0 < countDown (s.sta psta).sleepqLen)
            triggered := true } rfl rfl
            (h.addressed psta f (hq ▸ List.mem_cons_self))) busy
        have hserved := h.headLeaves hq
          (fun ha => hok psta hpsta ha hanswered f (by rw [hq]; rfl)) hjoined
        rw [heq]
        split
        · next hzero =>
          apply @ServedBut.clearTim _ hserved psta
          · simp only [setSta, Function.update_self]
          · intro ha
            have hassociated : s.Associated psta := by
              simp only [Associated, setSta, Function.update_self] at ha
              exact ha
            simp only [setSta, Function.update_self]
            exact List.length_eq_zero_iff.mp ((h.headLength hq hassociated).symm.trans hzero)
        · exact hserved
      · next hq =>
        split
        · have hserved : ServedBut none (s.setSta psta { s.sta psta with sleepqLen := 0 }) := by
            apply h.serve psta (Joined.refl _)
            · rfl
            · exact List.Subset.refl _
            · intro ha
              constructor
              · show 0 = (s.sta psta).sleepQ.length
                rw [hq]
                rfl
              · exact (h.counted psta ha).2
            · exact fun ha => h.indicated psta ha (Option.some_ne_none psta).symm
          apply @ServedBut.clearTim _ hserved psta
          · simp only [setSta, Function.update_self]
          · intro _
            simp only [setSta, Function.update_self]
            exact hq
        · exact h
    · exact h

/-- What a trigger needs of the frames that are kept: all that leave are counted, and the bit is
cleared with the last frame only. -/
def Deliverable (t : PsStation) : Prop :=
  (∀ f ∈ t.sleepQ, t.triggerEnabled f.ac = true → t.deliveryEnabled f.ac = true) ∧
    (t.hasLegacyAc = true ∨ (∀ f ∈ t.sleepQ, t.triggerEnabled f.ac = true) ∨
      (∀ f ∈ t.sleepQ, t.triggerEnabled f.ac = false) ∨
      ∃ f ∈ t.sleepQ, t.deliveryEnabled f.ac = true ∧ t.triggerEnabled f.ac = false)

theorem countP_split (l : List TxFrame) (p r : TxFrame → Bool)
    (h : ∀ f ∈ l, p f = true → r f = true) :
    l.countP r = l.countP p + (l.filter fun f => !p f).countP r := by
  induction l with
  | nil => rfl
  | cons f l ih =>
    have hl := ih fun g hg => h g (List.mem_cons_of_mem _ hg)
    by_cases hp : p f = true
    · have hr := h f List.mem_cons_self hp
      simp only [List.countP_cons, List.filter_cons, hp, hr, if_true, Bool.not_true,
        Bool.false_eq_true, if_false]
      omega
    · simp only [List.countP_cons, List.filter_cons, hp, Bool.not_false, if_true, if_false,
        Bool.false_eq_true]
      omega

/-- The counters when all trigger-enabled frames have left, and were counted. -/
theorem Counted.deliver {t : PsStation} (h : t.Counted)
    (hok : ∀ f ∈ t.sleepQ, t.triggerEnabled f.ac = true → t.deliveryEnabled f.ac = true) :
    PsStation.Counted { t with
      sleepQ := t.sleepQ.filter fun f => !t.triggerEnabled f.ac
      sleepqLen := countDown^[t.sleepQ.countP fun f => t.triggerEnabled f.ac] t.sleepqLen
      sleepqAcLen := countDown^[t.sleepQ.countP fun f => t.triggerEnabled f.ac] t.sleepqAcLen } := by
  have hlength := countP_split t.sleepQ (fun f => t.triggerEnabled f.ac) (fun _ => true)
    fun _ _ _ => rfl
  have hsplit := countP_split t.sleepQ (fun f => t.triggerEnabled f.ac)
    (fun f => t.deliveryEnabled f.ac) hok
  rw [List.countP_true] at hlength
  constructor
  · show countDown^[t.sleepQ.countP fun f => t.triggerEnabled f.ac] t.sleepqLen =
      (t.sleepQ.filter fun f => !t.triggerEnabled f.ac).length
    rw [h.1, countDown_iterate (by omega)]
    omega
  · show countDown^[t.sleepQ.countP fun f => t.triggerEnabled f.ac] t.sleepqAcLen =
      (t.sleepQ.filter fun f => !t.triggerEnabled f.ac).countP fun f => t.deliveryEnabled f.ac
    rw [h.2, countDown_iterate (by omega)]
    omega

/-- The count reaches zero with the last frame only. -/
theorem Deliverable.filter_nil {t : PsStation} (hok : Deliverable t) (h : t.Counted)
    (hlegacy : t.hasLegacyAc = false) {k : ℕ} (hpos : 0 < k)
    (hk : k ≤ t.sleepQ.countP fun f => t.triggerEnabled f.ac)
    (hzero : countDown^[k] t.sleepqAcLen = 0) :
    (t.sleepQ.filter fun f => !t.triggerEnabled f.ac) = [] := by
  have hsplit := countP_split t.sleepQ (fun f => t.triggerEnabled f.ac)
    (fun f => t.deliveryEnabled f.ac) hok.1
  rw [h.2, countDown_iterate (by omega)] at hzero
  rcases hok.2 with hleg | hall | hnone | ⟨f, hf, hde, hte⟩
  · rw [hlegacy] at hleg
    cases hleg
  · rw [List.filter_eq_nil_iff]
    intro f hf
    rw [hall f hf]
    decide
  · have hcount : (t.sleepQ.countP fun f => t.triggerEnabled f.ac) = 0 := by
      rw [List.countP_eq_zero]
      intro f hf
      rw [hnone f hf]
      decide
    omega
  · have hcount : 0 < (t.sleepQ.filter fun f => !t.triggerEnabled f.ac).countP fun f =>
        t.deliveryEnabled f.ac := by
      rw [List.countP_pos_iff]
      refine ⟨f, ?_, hde⟩
      rw [List.mem_filter, hte]
      exact ⟨hf, rfl⟩
    omega

theorem xmitDeliveryEnabledFrames_served {s : PsDriver} (h : ServedBut none s) {psta : StaPtr}
    (hok : s.Associated psta → Deliverable (s.sta psta)) (busy : ℕ → Bool) :
    ServedBut none (s.xmitDeliveryEnabledFrames psta busy) := by
  obtain ⟨q, tim, hjoined, heq, htim⟩ := @deliverFrames_effect _ s.addressOnly_addressed psta busy
    [] (s.sta psta).sleepQ s (h.addressed psta) rfl
  have hserved : ServedBut none { s.setSta psta { s.sta psta with
      sleepQ := (s.sta psta).sleepQ.filter fun f => !(s.sta psta).triggerEnabled f.ac
      sleepqLen := countDown^[(s.sta psta).sleepQ.countP fun f =>
        (s.sta psta).triggerEnabled f.ac] (s.sta psta).sleepqLen
      sleepqAcLen := countDown^[(s.sta psta).sleepQ.countP fun f =>
        (s.sta psta).triggerEnabled f.ac] (s.sta psta).sleepqAcLen } with queues := q } := by
    apply h.serve psta hjoined
    · rfl
    · exact List.filter_subset_self _
    · intro ha
      exact Counted.deliver (h.counted psta ha) (hok ha).1
    · intro ha f hf hpolled
      exact h.indicated psta ha (Option.some_ne_none psta).symm f (List.mem_of_mem_filter hf)
        hpolled
  rw [xmitDeliveryEnabledFrames, heq]
  rcases htim with htim | ⟨htim, hlegacy, k, hpos, hk, hzero⟩
  · rw [htim]
    exact hserved
  · rw [htim]
    apply @ServedBut.clearTim _ hserved psta
    · simp only [setSta, Function.update_self]
    · intro ha
      have hassociated : s.Associated psta := by
        simp only [Associated, setSta, Function.update_self] at ha
        exact ha
      simp only [setSta, Function.update_self]
      exact (hok hassociated).filter_nil (h.counted psta hassociated) hlegacy hpos hk hzero

/-- A frame of a station asks for the frames that are kept. -/
def Triggering (s : PsDriver) (psta : StaPtr) (priority : UInt8) : Prop :=
  ((s.sta psta).qosOption && (s.sta psta).qosInfo &&& 0xf != 0 && (s.sta psta).asleep &&
    (s.sta psta).triggerEnabled (Ac.ofPriority priority) &&
    decide (0 < (s.sta psta).sleepqAcLen)) = true

theorem processWmmpsData_served {s : PsDriver} (h : ServedBut none s) {src : MacAddr}
    {priority : UInt8}
    (hok : ∀ psta, s.env.rtwGetStainfo src = some psta → s.Associated psta →
      s.Triggering psta priority → Deliverable (s.sta psta))
    (busy : ℕ → Bool) : ServedBut none (s.processWmmpsData src priority busy) := by
  simp only [processWmmpsData]
  split
  · exact h
  · next psta hpsta =>
    split
    · next htriggering =>
      apply xmitDeliveryEnabledFrames_served h
      intro ha
      exact hok psta hpsta ha htriggering
    · exact h

theorem rtwFreeStainfo_served {s : PsDriver} (h : ServedBut none s) (psta : StaPtr) :
    ServedBut none (s.rtwFreeStainfo psta) := by
  have hqueues : ServedBut none { s with queues := s.queues.freeStation psta } := by
    apply h.setQueues
    intro p ac f hf
    by_cases hp : p = psta
    · have hnil : ((s.queues.freeStation psta).servq p ac).staPending = [] := by
        rw [hp]
        simp only [XmitQueues.freeStation, Function.update_self]
      rw [hnil] at hf
      cases hf
    · have hsame : (s.queues.freeStation psta).servq p = s.queues.servq p := by
        show Function.update s.queues.servq psta _ p = _
        rw [Function.update_of_ne hp]
      rw [hsame] at hf
      exact h.stored p ac f hf
  have hzero : ServedBut none ({ s with queues := s.queues.freeStation psta }.setSta psta
      { PsStation.zero with
        aid := (s.sta psta).aid
        asleep := (s.sta psta).asleep
        qosOption := (s.sta psta).qosOption }) := by
    apply hqueues.serve psta (Joined.refl _)
    · rfl
    · exact List.nil_subset _
    · intro _
      exact ⟨rfl, rfl⟩
    · intro _ f hf
      cases hf
  apply ServedBut.setDzBitmap
  apply @ServedBut.clearTim _ hzero psta
  · simp only [setSta, Function.update_self]
  · intro _
    simp only [setSta, Function.update_self]
    rfl

/-- When a call keeps the counters and the bits right. -/
def Orderly (s : PsDriver) : Call → Prop
  | .xmit f _ => s.Addressed f ∧ ∀ psta, s.Held psta f → s.Associated psta →
      (s.sta psta).hasLegacyAc = true ∨ (s.sta psta).deliveryEnabled f.ac = true ∨
        s.Indicated psta
  | .classify f => s.Addressed f
  | .stop psta => s.Stoppable psta
  | .wake psta _ _ => s.Associated psta →
      ((s.sta psta).sleepQ.countP fun f => (s.sta psta).triggerEnabled f.ac) =
        (s.sta psta).sleepQ.countP fun f => (s.sta psta).deliveryEnabled f.ac
  | .poll ta aid priority _ => ∀ psta, s.env.rtwGetStainfo ta = some psta → s.Associated psta →
      s.Answered psta aid priority → ∀ f ∈ (s.sta psta).sleepQ.head?,
        (s.sta psta).deliveryEnabled f.ac = false
  | .trigger src priority _ => ∀ psta, s.env.rtwGetStainfo src = some psta → s.Associated psta →
      s.Triggering psta priority → Deliverable (s.sta psta)
  | .set _ => False
  | .dequeue _ | .beacon _ | .free _ => True

theorem step_served {s : PsDriver} {call : Call} (h : ServedBut none s) (hok : s.Orderly call) :
    ServedBut none (s.step call) := by
  cases call with
  | xmit f busy => exact rtwXmit_served h hok.1 hok.2 busy
  | classify f =>
    obtain ⟨q, hjoined, heq⟩ := @rtwXmitClassifier_effect s.Addressed s f hok
    rw [step, heq]
    exact h.setQueues (h.stored.joined hjoined)
  | dequeue order =>
    apply h.setQueues
    intro p a f hf
    exact h.stored p a f (rtwDequeueXframe_subset order p a hf)
  | stop psta => exact stopStaXmit_served h hok
  | wake psta busy busyBcmc => exact wakeupStaToXmit_served h hok busy busyBcmc
  | poll ta aid priority busy => exact psPoll_served h hok busy
  | trigger src priority busy => exact processWmmpsData_served h hok busy
  | beacon busy => exact txBeaconHdl_served h busy
  | free psta => exact rtwFreeStainfo_served h psta
  | set settings => exact hok.elim

/-- No frame is kept or waits, and the stations have aids of their own. -/
structure Fresh (s : PsDriver) : Prop where
  queues : s.queues = XmitQueues.empty
  empty : ∀ psta, (s.sta psta).sleepQ = [] ∧ (s.sta psta).sleepqLen = 0 ∧
    (s.sta psta).sleepqAcLen = 0
  aids : ∀ p p', (s.sta p).aid = (s.sta p').aid → 0 < (s.sta p).aid → p = p'
  bcmc : ∀ psta, s.bcmc = some psta → (s.sta psta).aid = 0

theorem Fresh.served {s : PsDriver} (h : s.Fresh) : ServedBut none s where
  aids := h.aids
  bcmc := h.bcmc
  stored p ac f hf := by
    rw [h.queues] at hf
    cases hf
  addressed p f hf := by
    rw [(h.empty p).1] at hf
    cases hf
  counted p _ := by
    obtain ⟨hq, hlen, hacLen⟩ := h.empty p
    constructor
    · rw [hlen, hq]
      rfl
    · rw [hacLen, hq]
      rfl
  indicated p _ _ f hf := by
    rw [(h.empty p).1] at hf
    cases hf

/-- The counters of every station are right, and its bit is set when it has frames to ask for, after
every run whose calls are orderly. -/
theorem frames_buffered {s : PsDriver} (hs : s.Fresh) {calls : List Call}
    (hok : Guarded step Orderly s calls) {psta : StaPtr}
    (ha : (run step s calls).Associated psta) : (run step s calls).Buffered psta := by
  have hserved : ServedBut none (run step s calls) := by
    apply guarded_invariant (ServedBut none) _ hs.served hok
    intro s call h hcall
    exact step_served h hcall
  constructor
  · exact hserved.counted psta ha
  · exact hserved.indicated psta ha (Option.some_ne_none psta).symm

instance (s : PsDriver) (psta : StaPtr) : Decidable (s.Associated psta) :=
  inferInstanceAs (Decidable (0 < (s.sta psta).aid ∧ (s.sta psta).aid < 16))

instance (s : PsDriver) (psta : StaPtr) : Decidable (s.Indicated psta) :=
  inferInstanceAs (Decidable (s.timBitmap &&& bit (s.sta psta).aid ≠ 0))

instance (s : PsDriver) (f : TxFrame) : Decidable (s.Addressed f) :=
  inferInstanceAs (Decidable
    (isMcast f.ra = true → ∀ psta, s.staOf f = some psta → (s.sta psta).aid = 0))

instance (s : PsDriver) (psta : StaPtr) (f : TxFrame) : Decidable (s.Held psta f) :=
  decidable_of_iff (s.env.apState = true ∧ f.triggered = false ∧ s.staOf f = some psta ∧
      isMcast f.ra = false ∧ (s.sta psta).asleep = true ∧
      s.staDzBitmap &&& bit (s.sta psta).aid ≠ 0)
    ⟨fun ⟨hap, htriggered, hsta, hm, hasleep, hdz⟩ => ⟨hap, htriggered, hsta, hm, hasleep, hdz⟩,
      fun h => ⟨h.apState, h.triggered, h.staOf, h.single, h.asleep, h.dz⟩⟩

instance (t : PsStation) : Decidable (Deliverable t) :=
  inferInstanceAs (Decidable
    ((∀ f ∈ t.sleepQ, t.triggerEnabled f.ac = true → t.deliveryEnabled f.ac = true) ∧
      (t.hasLegacyAc = true ∨ (∀ f ∈ t.sleepQ, t.triggerEnabled f.ac = true) ∨
        (∀ f ∈ t.sleepQ, t.triggerEnabled f.ac = false) ∨
        ∃ f ∈ t.sleepQ, t.deliveryEnabled f.ac = true ∧ t.triggerEnabled f.ac = false)))

instance (s : PsDriver) (psta : StaPtr) : Decidable (s.Stoppable psta) :=
  inferInstanceAs (Decidable (s.Associated psta → s.env.apState = false ∨
    (s.sta psta).hasLegacyAc = true ∨ s.Indicated psta ∨
    (∀ ac, ∀ f ∈ (s.queues.servq psta ac).staPending, f.triggered = true) ∨
    ∃ ac, ∃ f ∈ (s.queues.servq psta ac).staPending, f.triggered = false ∧
      (s.sta psta).deliveryEnabled f.ac = true))

instance (s : PsDriver) (psta : StaPtr) (aid : ℕ) (priority : UInt8) :
    Decidable (s.Answered psta aid priority) := inferInstanceAs (Decidable (_ = true))

instance (s : PsDriver) (psta : StaPtr) (priority : UInt8) :
    Decidable (s.Triggering psta priority) := inferInstanceAs (Decidable (_ = true))

instance (s : PsDriver) : DecidablePred s.Orderly
  | .xmit f _ => inferInstanceAs (Decidable (s.Addressed f ∧ ∀ psta, s.Held psta f →
      s.Associated psta → (s.sta psta).hasLegacyAc = true ∨
        (s.sta psta).deliveryEnabled f.ac = true ∨ s.Indicated psta))
  | .classify f => inferInstanceAs (Decidable (s.Addressed f))
  | .stop psta => inferInstanceAs (Decidable (s.Stoppable psta))
  | .wake psta _ _ => inferInstanceAs (Decidable (s.Associated psta →
      ((s.sta psta).sleepQ.countP fun f => (s.sta psta).triggerEnabled f.ac) =
        (s.sta psta).sleepQ.countP fun f => (s.sta psta).deliveryEnabled f.ac))
  | .poll ta aid priority _ => inferInstanceAs (Decidable (∀ psta,
      s.env.rtwGetStainfo ta = some psta → s.Associated psta → s.Answered psta aid priority →
        ∀ f ∈ (s.sta psta).sleepQ.head?, (s.sta psta).deliveryEnabled f.ac = false))
  | .trigger src priority _ => inferInstanceAs (Decidable (∀ psta,
      s.env.rtwGetStainfo src = some psta → s.Associated psta → s.Triggering psta priority →
        Deliverable (s.sta psta)))
  | .set _ => isFalse id
  | .dequeue _ | .beacon _ | .free _ => isTrue trivial

/-- A station whose voice frames wait for a trigger. -/
def voiceStation : PsStation := { PsStation.zero with
  aid := 1
  qosOption := true
  qosInfo := 1
  uapsd := fun ac => if ac = .vo then 3 else 0
  hasLegacyAc := true }

/-- A frame for the station. -/
def frameOf (priority : UInt8) : TxFrame :=
  ⟨priority, localAddr 1, none, false, false, false, false⟩

theorem voiceStation_fresh : (serving voiceStation).Fresh where
  queues := rfl
  empty := by decide
  aids := by decide
  bcmc := by decide

theorem frames_buffered_voice : (run step (serving voiceStation)
    [.stop 1, .xmit (frameOf 6) false, .xmit (frameOf 0) false,
      .trigger #v[2, 0, 0, 0, 0, 1] 6 (fun _ => false), .poll #v[2, 0, 0, 0, 0, 1] 1 0 false,
      .xmit (frameOf 6) false, .wake 1 (fun _ => false) (fun _ => false)]).Buffered 1 :=
  frames_buffered voiceStation_fresh (by
    simp only [Guarded]
    decide) (by decide)

/-- A frame that is counted is sent for a PS-Poll frame; frames that are not counted are sent on
waking up, when only their trigger bit is set; a frame is kept without the bit, when the station has
no legacy category but this one. -/
theorem frames_miscounted :
    ¬ (run step (serving voiceStation) [.stop 1, .xmit (frameOf 6) false,
        .poll #v[2, 0, 0, 0, 0, 1] 1 0 false]).Buffered 1 ∧
    ((run step (serving { voiceStation with uapsd := fun _ => 2 }) [.stop 1,
        .xmit (frameOf 6) false, .wake 1 (fun _ => false) (fun _ => false)]).sta 1).sleepqAcLen =
      2 ^ 32 - 1 ∧
    ¬ (run step (serving { voiceStation with hasLegacyAc := false }) [.stop 1,
        .xmit (frameOf 0) false]).Buffered 1 := by
  constructor
  · intro h
    have hacLen := h.counted.2
    revert hacLen
    decide
  · constructor
    · decide
    · intro h
      have hbit := h.indicated (frameOf 0) (by decide) (Or.inr rfl)
      revert hbit
      decide

end PsDriver
end Rtl8188eu
