import StandaloneDrivers.Rt5572.UapsdEffects

/-! What a trigger frame and a PS-Poll frame fetch: which packets are sent, which one waits, and what
is left in the queues. -/
namespace Rt5572.Uapsd
open Foundations

/-- The packets put into the software queues between two states. -/
def sentSince (s t : Station) : List Packet :=
  AcId.all.flatMap fun ac => (t.txSwQueue ac).drop (s.txSwQueue ac).length

/-- Some packet of a delivery-enabled category is queued. -/
def Station.remaining (s : Station) : Bool :=
  AcId.all.any fun ac => s.apsdDeliverEnabledPerAc ac && !(s.uapsdQueue ac).isEmpty

theorem AcId.mem_all (ac : AcId) : ac ∈ AcId.all := by
  cases ac <;> decide

theorem mem_acPriority (ac : AcId) : ac ∈ acPriority := by
  cases ac <;> decide

theorem Station.remaining_eq_false {s : Station} : s.remaining = false ↔
    ∀ ac, s.apsdDeliverEnabledPerAc ac = true → s.uapsdQueue ac = [] := by
  simp only [Station.remaining, List.any_eq_false, AcId.mem_all, forall_const, Bool.and_eq_true,
    Bool.not_eq_true', List.isEmpty_eq_false_iff, not_and, not_not]

theorem Station.remaining_congr {s t : Station}
    (henabled : t.apsdDeliverEnabledPerAc = s.apsdDeliverEnabledPerAc)
    (hqueue : t.uapsdQueue = s.uapsdQueue) : t.remaining = s.remaining := by
  rw [Station.remaining, Station.remaining, henabled, hqueue]

theorem sentSince_append {s t : Station} {new : AcId → List Packet}
    (h : t.txSwQueue = fun ac => s.txSwQueue ac ++ new ac) :
    sentSince s t = AcId.all.flatMap new := by
  simp only [sentSince, h, List.drop_left]

theorem sentSince_nil {s t : Station} (h : t.txSwQueue = s.txSwQueue) : sentSince s t = [] := by
  rw [@sentSince_append s t (fun _ => []) (by simpa using h)]
  rfl

theorem sentSince_single {s t : Station} {ac : AcId} {p : Packet}
    (h : t.txSwQueue = Function.update s.txSwQueue ac (s.txSwQueue ac ++ [p])) :
    sentSince s t = [p] := by
  have hnew : t.txSwQueue = fun ac' =>
      s.txSwQueue ac' ++ Function.update (fun _ => []) ac [p] ac' := by
    rw [h]
    funext ac'
    by_cases hac : ac' = ac
    · subst hac
      rw [Function.update_self, Function.update_self]
    · rw [Function.update_of_ne hac, Function.update_of_ne hac, List.append_nil]
  rw [sentSince_append hnew]
  cases ac <;> rfl

namespace Service

/-- The packets of a period while it is put together from those of `s`: `new` is sent. -/
structure Served (s : Station) (spMaxLen : ℕ) (v : Service) (new : AcId → List Packet) : Prop where
  sent : v.station.txSwQueue = fun ac => s.txSwQueue ac ++ new ac
  unmarked : ∀ ac, ∀ f ∈ new ac, f.eosp = false
  queue : ∀ ac, ∀ f ∈ v.station.uapsdQueue ac, f.eosp = false
  taken : ∀ q ∈ v.quedPkt, q.1.eosp = false ∧ q.1.moreData = true
  count : length new + v.quedPkt.toList.length = v.txPktNum
  limit : spMaxLen ≠ 0 → v.txPktNum ≤ spMaxLen
  empty : v.quedPkt = none → v.txPktNum = 0

theorem queue_of_take {v : Service} {ac : AcId} {p : Packet} {rest : List Packet}
    (hqueue : v.station.uapsdQueue ac = p :: rest) (ac' : AcId) :
    (v.take ac p rest).station.uapsdQueue ac' ⊆ v.station.uapsdQueue ac' := by
  have hkept : (v.take ac p rest).station.uapsdQueue =
      Function.update v.station.uapsdQueue ac rest := by
    unfold take
    split <;> rfl
  rw [hkept]
  by_cases hac : ac' = ac
  · subst hac
    rw [Function.update_self, hqueue]
    exact List.subset_cons_self p rest
  · rw [Function.update_of_ne hac]
    exact List.Subset.refl _

theorem served_take {s : Station} {spMaxLen : ℕ} {v : Service} {new : AcId → List Packet}
    {ac : AcId} {p : Packet} {rest : List Packet} (h : Served s spMaxLen v new)
    (hqueue : v.station.uapsdQueue ac = p :: rest)
    (hroom : spMaxLen ≠ 0 → v.txPktNum < spMaxLen) :
    ∃ new', Served s spMaxLen (v.take ac p rest) new' := by
  have hp : p.eosp = false := h.queue ac p (by rw [hqueue]; exact List.mem_cons_self)
  have hkept : ∀ ac', ∀ f ∈ (v.take ac p rest).station.uapsdQueue ac', f.eosp = false :=
    fun ac' f hf => h.queue ac' f (queue_of_take hqueue ac' hf)
  have htaken : ∀ q ∈ (v.take ac p rest).quedPkt, q.1.eosp = false ∧ q.1.moreData = true := by
    rintro q ⟨⟩
    exact ⟨hp, rfl⟩
  have hcount := h.count
  cases hqued : v.quedPkt with
  | none =>
    refine ⟨new, ?_, h.unmarked, hkept, htaken, ?_, hroom, nofun⟩
    · simp only [take, hqued]
      exact h.sent
    · rw [hqued, Option.toList_none, List.length_nil] at hcount
      change length new + 1 = v.txPktNum + 1
      omega
  | some q =>
    obtain ⟨last, lastAc⟩ := q
    have hlen := length_update new lastAc (new lastAc ++ [last])
    rw [List.length_append, List.length_singleton] at hlen
    refine ⟨Function.update new lastAc (new lastAc ++ [last]), ?_, ?_, hkept, htaken, ?_, hroom,
      nofun⟩
    · simp only [take, hqued]
      funext ac'
      by_cases hac : ac' = lastAc
      · subst hac
        simp only [Station.setQueue, Station.insertQueueAc, Function.update_self, h.sent,
          List.append_assoc]
      · simp only [Station.setQueue, Station.insertQueueAc, Function.update_of_ne hac, h.sent]
    · intro ac' f hf
      by_cases hac : ac' = lastAc
      · subst hac
        rw [Function.update_self] at hf
        rcases List.mem_append.mp hf with hf | hf
        · exact h.unmarked ac' f hf
        · rw [List.mem_singleton.mp hf]
          exact (h.taken _ hqued).1
      · rw [Function.update_of_ne hac] at hf
        exact h.unmarked ac' f hf
    · rw [hqued, Option.toList_some, List.length_singleton] at hcount
      change _ + 1 = v.txPktNum + 1
      omega

/-- An empty queue stays empty. -/
theorem serve_empty {spMaxLen : ℕ} {acs : List AcId} {v : Service} {ac : AcId}
    (h : v.station.uapsdQueue ac = []) : (serve spMaxLen acs v).1.station.uapsdQueue ac = [] := by
  apply serve_induction (P := fun v => v.station.uapsdQueue ac = []) _ h
  intro v ac' p rest hqueue _ _ h
  exact List.subset_nil.mp (h ▸ queue_of_take hqueue ac)

/-- The loop over a queue ends because it is empty, or because the period is full. -/
theorem serveQueue_flag {spMaxLen : ℕ} {ac : AcId} {packets : List Packet} {v : Service}
    (hqueue : v.station.uapsdQueue ac = packets) :
    (serveQueue spMaxLen ac packets v).2 = true ↔
      (serveQueue spMaxLen ac packets v).1.station.uapsdQueue ac = [] := by
  induction packets generalizing v with
  | nil => exact iff_of_true rfl hqueue
  | cons p rest ih =>
    rw [serveQueue]
    split
    · apply iff_of_false Bool.false_ne_true
      rw [hqueue]
      exact List.cons_ne_nil p rest
    · exact ih (queue_take v ac p rest)

/-- The settings of the station are kept. -/
theorem serveQueue_enabled {spMaxLen : ℕ} {ac : AcId} (packets : List Packet) (v : Service) :
    (serveQueue spMaxLen ac packets v).1.station.apsdDeliverEnabledPerAc =
      v.station.apsdDeliverEnabledPerAc := by
  induction packets generalizing v with
  | nil => rfl
  | cons p rest ih =>
    rw [serveQueue]
    split
    · rfl
    · rw [ih]
      unfold take
      split <;> rfl

theorem serve_enabled (spMaxLen : ℕ) (acs : List AcId) (v : Service) :
    (serve spMaxLen acs v).1.station.apsdDeliverEnabledPerAc =
      v.station.apsdDeliverEnabledPerAc := by
  induction acs generalizing v with
  | nil => rfl
  | cons ac acs ih =>
    have hkept := @serveQueue_enabled spMaxLen ac (v.station.uapsdQueue ac) v
    rw [serve]
    split
    · exact ih v
    · split
      · rename_i w heq
        rw [heq] at hkept
        rw [ih, hkept]
      · rename_i w heq
        rw [heq] at hkept
        exact hkept

/-- The loops end because all queues are empty, or because the period is full. -/
theorem serve_flag (spMaxLen : ℕ) (acs : List AcId) (v : Service) :
    (serve spMaxLen acs v).2 = true ↔
      ∀ ac ∈ acs, v.station.apsdDeliverEnabledPerAc ac = true →
        (serve spMaxLen acs v).1.station.uapsdQueue ac = [] := by
  induction acs generalizing v with
  | nil => exact iff_of_true rfl nofun
  | cons ac acs ih =>
    rw [serve, List.forall_mem_cons]
    split
    · rename_i henabled
      rw [ih, and_iff_right]
      intro h
      rw [h] at henabled
      cases henabled
    · rename_i henabled
      have hflag := @serveQueue_flag spMaxLen ac _ v rfl
      have hkept := @serveQueue_enabled spMaxLen ac (v.station.uapsdQueue ac) v
      have henabled' : v.station.apsdDeliverEnabledPerAc ac = true := by simpa using henabled
      split
      · rename_i w heq
        rw [heq] at hflag hkept
        rw [ih, hkept, and_iff_right]
        exact fun _ => serve_empty (hflag.mp rfl)
      · rename_i w heq
        rw [heq] at hflag
        apply iff_of_false Bool.false_ne_true
        rintro ⟨h, -⟩
        exact absurd (hflag.mpr (h henabled')) Bool.false_ne_true

end Service

namespace Station

theorem service_served {s : Station} (hmark : ∀ ac, ∀ p ∈ s.uapsdQueue ac, p.eosp = false) :
    ∃ new, Service.Served s (spLenMap s.maxSpLength) s.service.1 new := by
  apply Service.serve_induction
    (P := fun v => ∃ new, Service.Served s (spLenMap s.maxSpLength) v new)
  · rintro v ac p rest hqueue - hroom ⟨new, h⟩
    exact Service.served_take h hqueue hroom
  · refine ⟨fun _ => [], ?_, nofun, hmark, nofun, rfl, fun _ => Nat.zero_le _, fun _ => rfl⟩
    funext ac
    exact (List.append_nil _).symm

/-- The More Data bit of the last packet tells whether the delivery-enabled queues are empty. -/
theorem service_flag (s : Station) :
    s.service.2 = true ↔ s.service.1.station.remaining = false := by
  have henabled := Service.serve_enabled (spLenMap s.maxSpLength) acPriority ⟨s, none, 0⟩
  rw [service, Service.serve_flag, remaining_eq_false, henabled]
  simp only [mem_acPriority, forall_const]

/-- A period begins with what its packets leave in the queues, and with the station's settings. -/
theorem spStart_frame (v : Service) (flg : Bool) :
    (spStart v flg).flagSpStart = true ∧ (spStart v flg).uapsdQueue = v.station.uapsdQueue ∧
      (spStart v flg).apsdAllAc = v.station.apsdAllAc ∧
      (spStart v flg).apsdDeliverEnabledPerAc = v.station.apsdDeliverEnabledPerAc := by
  cases hqued : v.quedPkt with
  | none =>
    simp only [spStart, hqued]
    exact ⟨rfl, rfl, rfl, rfl⟩
  | some q =>
    simp only [spStart, hqued]
    split <;> exact ⟨rfl, rfl, rfl, rfl⟩

/-- The loop takes at most one packet, and ends with all queues empty or with a packet in one. -/
theorem psPollLoop_spec (acs : List AcId) (s : Station) (quedPkt : Option (Packet × AcId))
    (hqued : ∀ q ∈ quedPkt, q.1.moreData = true ∧ q.1.eosp = false)
    (hmark : ∀ ac, ∀ p ∈ s.uapsdQueue ac, p.eosp = false) :
    ∃ queue, (s.psPollLoop acs quedPkt).1 = { s with uapsdQueue := queue } ∧
      (∀ ac, queue ac ⊆ s.uapsdQueue ac) ∧
      (∀ q ∈ (s.psPollLoop acs quedPkt).2.1, q.1.moreData = true ∧ q.1.eosp = false) ∧
      ((s.psPollLoop acs quedPkt).2.2 = true → ∀ ac ∈ acs, queue ac = []) ∧
      ((s.psPollLoop acs quedPkt).2.2 = false → ∃ ac, queue ac ≠ []) := by
  induction acs generalizing s quedPkt with
  | nil =>
    exact ⟨s.uapsdQueue, rfl, fun _ => List.Subset.refl _, hqued, fun _ => List.forall_mem_nil _,
      (by rintro ⟨⟩)⟩
  | cons ac acs ih =>
    cases hqueue : s.uapsdQueue ac with
    | nil =>
      obtain ⟨queue, heq, hsub, hq, hempty, hfull⟩ := ih s quedPkt hqued hmark
      simp only [psPollLoop, hqueue]
      refine ⟨queue, heq, hsub, hq, fun h => ?_, hfull⟩
      exact List.forall_mem_cons.mpr ⟨List.subset_nil.mp (hqueue ▸ hsub ac), hempty h⟩
    | cons p rest =>
      have hsubset : ∀ ac', (s.setQueue ac rest).uapsdQueue ac' ⊆ s.uapsdQueue ac' := by
        intro ac'
        rw [setQueue_queue]
        by_cases hac : ac' = ac
        · subst hac
          rw [Function.update_self, hqueue]
          exact List.subset_cons_self p rest
        · rw [Function.update_of_ne hac]
          exact List.Subset.refl _
      have hrest : (s.setQueue ac rest).uapsdQueue ac = rest := Function.update_self ..
      have hp : p.eosp = false := hmark ac p (by rw [hqueue]; exact List.mem_cons_self)
      cases quedPkt with
      | some q =>
        simp only [psPollLoop, hqueue]
        exact ⟨s.uapsdQueue, rfl, fun _ => List.Subset.refl _, hqued, (by rintro ⟨⟩),
          fun _ => ⟨ac, by rw [hqueue]; exact List.cons_ne_nil p rest⟩⟩
      | none =>
        have htaken : ∀ q ∈ some ((p.setMoreData true).setUapsd true ac.qid, ac),
            q.1.moreData = true ∧ q.1.eosp = false := by
          rintro q ⟨⟩
          exact ⟨rfl, hp⟩
        simp only [psPollLoop, hqueue]
        split
        · rename_i hnil
          obtain ⟨queue, heq, hsub, hq, hempty, hfull⟩ := ih (s.setQueue ac rest) _ htaken
            fun ac' q hq => hmark ac' q (hsubset ac' hq)
          refine ⟨queue, by rw [heq]; rfl, fun ac' => List.Subset.trans (hsub ac') (hsubset ac'),
            hq, fun h => ?_, hfull⟩
          refine List.forall_mem_cons.mpr ⟨List.subset_nil.mp ?_, hempty h⟩
          rw [← List.isEmpty_iff.mp hnil, ← hrest]
          exact hsub ac
        · rename_i hnil
          refine ⟨_, rfl, hsubset, htaken, (by rintro ⟨⟩), fun _ => ⟨ac, ?_⟩⟩
          rw [Function.update_self]
          exact fun h => hnil (by rw [h]; rfl)

/-- The answer to a PS-Poll frame: at most one packet, whose More Data bit tells whether the queues
are empty. -/
theorem psPollHandle_spec {s : Station} (hclosed : s.flagSpStart = false)
    (hmark : ∀ ac, ∀ p ∈ s.uapsdQueue ac, p.eosp = false) (hall : s.apsdAllAc = true)
    (henabled : ∀ ac, s.apsdDeliverEnabledPerAc ac = true) :
    Keeps s s.psPollHandle ∧ (∀ ac, s.psPollHandle.uapsdQueue ac ⊆ s.uapsdQueue ac) ∧
      ∀ f ∈ sentSince s s.psPollHandle,
        (f.moreData = false ↔ s.psPollHandle.remaining = false) := by
  obtain ⟨queue, heq, hsub, hq, hempty, hfull⟩ := psPollLoop_spec acPriority s none (by rintro _ ⟨⟩) hmark
  simp only [psPollHandle, hall, hclosed, Bool.not_true, Bool.false_eq_true, if_false]
  generalize s.psPollLoop acPriority none = r at heq hq hempty hfull
  obtain ⟨t, quedPkt, flgQueEmpty⟩ := r
  cases heq
  cases quedPkt with
  | none =>
    have hsent : sentSince s (setIdleCount { s with uapsdQueue := queue } 0) = [] :=
      sentSince_nil rfl
    refine ⟨⟨rfl, rfl, id⟩, hsub, ?_⟩
    simp only [hsent]
    exact List.forall_mem_nil _
  | some q =>
    obtain ⟨p, ac⟩ := q
    have hsent : sentSince s ((insertQueueAc { s with uapsdQueue := queue } ac
        (if flgQueEmpty = true then p.setMoreData false else p)).setIdleCount 0) =
        [if flgQueEmpty = true then p.setMoreData false else p] := sentSince_single rfl
    refine ⟨⟨rfl, rfl, id⟩, hsub, ?_⟩
    simp only [hsent]
    rw [List.forall_mem_singleton, remaining_eq_false]
    cases flgQueEmpty with
    | true =>
      exact iff_of_true rfl fun ac _ => hempty rfl ac (mem_acPriority ac)
    | false =>
      obtain ⟨ac, hne⟩ := hfull rfl
      apply iff_of_false
      · have hmore := (hq _ rfl).1
        simpa using hmore
      · exact fun h => hne (h ac (henabled ac))

end Station

end Rt5572.Uapsd
