import StandaloneDrivers.Rt5572.UapsdService

/-! The service periods of a run, and what holds in each: its length, its last frame, and the More
Data bit of that frame. -/
namespace Rt5572.Uapsd
open Foundations

/-- The last frame of a period when it is queued for transmission: its More Data bit, the other
frames of the period not yet reported, and whether packets are left. -/
structure LastFrame where
  moreData : Bool
  outstanding : List ℕ
  remaining : Bool
  deriving DecidableEq, Repr

/-- A service period: its frames, the null frames sent for it, whether its trigger left packets
queued, how many packets were sent and which were reported since. -/
structure Period where
  maxSpLength : ℕ
  frames : List Packet
  nullFrames : ℕ
  remaining : Bool
  sent : ℕ
  reported : List ℕ
  last : List LastFrame
  deriving DecidableEq, Repr

namespace Period

/-- The frames but the last one that no completion has reported. -/
def outstanding (p : Period) : List ℕ :=
  ((p.frames.filter fun f => !f.eosp).map Packet.id).filter fun i => !p.reported.contains i

/-- What a period has to do with a step. -/
def watch (p : Period) (reported : List ℕ) (s t : Station) : Period :=
  let p := { p with reported := reported ++ p.reported }
  { p with
    sent := p.sent + (sentSince s t).length
    last := p.last ++ ((sentSince s t).filter Packet.eosp).map fun f =>
      ⟨f.moreData, p.outstanding, t.remaining⟩ }

/-- The period that a step begins. -/
def begin (s t : Station) : Period :=
  watch ⟨t.maxSpLength, sentSince s t ++ t.eospFrame.toList, t.nullFrames - s.nullFrames,
    t.remaining, 0, [], []⟩ [] s t

/-- At most `2 * MaxSPLength` packets are sent, one frame carries EOSP, it is sent when all others
are reported, and its More Data bit is clear when no packet is left: when the frames are taken and
when it is sent. -/
structure Sound (p : Period) : Prop where
  limit : 1 ≤ p.maxSpLength → p.maxSpLength ≤ 3 → p.sent ≤ 2 * p.maxSpLength
  eosp : p.frames.countP Packet.eosp + p.nullFrames = 1
  taken : ∀ f ∈ p.frames, f.eosp = true → (f.moreData = false ↔ p.remaining = false)
  last : ∀ l ∈ p.last, l.outstanding = [] ∧ (l.moreData = false ↔ l.remaining = false)

end Period

/-- The packets that a completion reports. -/
def Event.reported : Event → List ℕ
  | .spPacketCheck pPacket _ _ _ => pPacket.toList.map Packet.id
  | .qosNullTxMgmtTxDoneHandle pPacket _ _ => pPacket.toList.map Packet.id
  | _ => []

/-- A station with its service periods, the latest first, and the answers to PS-Poll frames. -/
structure Log where
  station : Station
  periods : List Period
  polled : List LastFrame

namespace Log

def begin (s : Station) : Log := ⟨s, [], []⟩

def step (x : Log) (e : Event) : Log :=
  let s := x.station
  let t := Uapsd.step s e
  { station := t
    periods :=
      if s.flagSpStart then
        match x.periods with
        | [] => []
        | p :: periods => p.watch e.reported s t :: periods
      else if t.flagSpStart then .begin s t :: x.periods
      else x.periods
    polled :=
      match e with
      | .psPollHandle =>
        x.polled ++ (sentSince s t).map fun f => ⟨f.moreData, [], t.remaining⟩
      | _ => x.polled }

/-- Every service period so far is right, and so is every answer to a PS-Poll frame. -/
def Sound (x : Log) : Prop :=
  (∀ p ∈ x.periods, p.Sound) ∧ ∀ l ∈ x.polled, l.moreData = false ↔ l.remaining = false

/-- Packets come without an EOSP mark, and not while a frame with a clear More Data bit waits; while
frames are outstanding only these are counted; everything is delivered when no frame waits and the
period has room for it. -/
def Timely (x : Log) (e : Event) : Prop :=
  match e with
  | .packetEnqueue p ac =>
    p.eosp = false ∧
      ((x.station.uapsdQueue ac).length < maxPacketsInUapsdQueue →
        x.station.apsdDeliverEnabledPerAc ac = true →
        ∀ f ∈ x.station.eospFrame, f.moreData = true)
  | .allPacketDeliver =>
    x.station.flagSpStart = true → x.station.eospFrame = none ∧
      ∀ p ∈ x.periods.head?, 1 ≤ p.maxSpLength → p.maxSpLength ≤ 3 →
        p.sent + length x.station.uapsdQueue ≤ 2 * p.maxSpLength
  | e =>
    0 < x.station.uapsdTxNum → ∀ i ∈ e.frameDone, ∃ p ∈ x.periods.head?, i ∈ p.outstanding

instance (x : Log) : ∀ e, Decidable (x.Timely e)
  | .packetEnqueue _ _ => inferInstanceAs (Decidable (_ ∧ (_ → _ → _)))
  | .allPacketDeliver => inferInstanceAs (Decidable (_ → _ ∧ _))
  | .triggerFrameHandle _ => inferInstanceAs (Decidable (_ → _))
  | .psPollHandle => inferInstanceAs (Decidable (_ → _))
  | .spPacketCheck _ _ _ _ => inferInstanceAs (Decidable (_ → _))
  | .qosNullTxMgmtTxDoneHandle _ _ _ => inferInstanceAs (Decidable (_ → _))
  | .spClose => inferInstanceAs (Decidable (_ → _))
  | .queueMaintenance _ _ => inferInstanceAs (Decidable (_ → _))
  | .spCloseInRvDone _ => inferInstanceAs (Decidable (_ → _))
  | .entryReset => inferInstanceAs (Decidable (_ → _))
  | .powerMode _ => inferInstanceAs (Decidable (_ → _))

/-- The period that is under way: its last frame waits for the outstanding ones, and fits in. -/
structure Current (s : Station) (p : Period) : Prop where
  limit : 1 ≤ p.maxSpLength → p.maxSpLength ≤ 3 →
    p.sent + s.eospFrame.toList.length ≤ 2 * p.maxSpLength
  waiting : ∀ f, s.eospFrame = some f → f.eosp = true ∧
    p.outstanding.length ≤ s.uapsdTxNum ∧ (f.moreData = false ↔ s.remaining = false)

/-- The invariant of the runs in which every event is timely. -/
structure Inv (x : Log) : Prop where
  countdown : x.station.Countdown
  unmarked : ∀ ac, ∀ p ∈ x.station.uapsdQueue ac, p.eosp = false
  allAc : x.station.apsdAllAc = true → ∀ ac, x.station.apsdDeliverEnabledPerAc ac = true
  periods : ∀ p ∈ x.periods, p.Sound
  polled : ∀ l ∈ x.polled, l.moreData = false ↔ l.remaining = false
  current : x.station.flagSpStart = true →
    ∃ p periods, x.periods = p :: periods ∧ Current x.station p

end Log

namespace Period

theorem outstanding_report (p : Period) (reported : List ℕ) :
    { p with reported := reported ++ p.reported }.outstanding =
      p.outstanding.filter fun i => !reported.contains i := by
  simp only [outstanding, List.filter_filter, List.contains_append, Bool.not_or]

theorem outstanding_report_length (p : Period) (reported : List ℕ) :
    { p with reported := reported ++ p.reported }.outstanding.length ≤ p.outstanding.length := by
  rw [outstanding_report]
  exact List.length_filter_le _ _

/-- A frame that is reported is outstanding no longer. -/
theorem outstanding_report_lt {p : Period} {reported : List ℕ} {i : ℕ} (hi : i ∈ p.outstanding)
    (hreported : i ∈ reported) :
    { p with reported := reported ++ p.reported }.outstanding.length < p.outstanding.length := by
  rw [outstanding_report]
  apply List.length_filter_lt_length_iff_exists.mpr
  exact ⟨i, hi, by simpa using hreported⟩

theorem watch_sound {p : Period} (h : p.Sound) {reported : List ℕ} {s t : Station}
    (hlimit : 1 ≤ p.maxSpLength → p.maxSpLength ≤ 3 →
      p.sent + (sentSince s t).length ≤ 2 * p.maxSpLength)
    (hlast : ∀ f ∈ sentSince s t, f.eosp = true →
      { p with reported := reported ++ p.reported }.outstanding = [] ∧
        (f.moreData = false ↔ t.remaining = false)) : (p.watch reported s t).Sound where
  limit := hlimit
  eosp := h.eosp
  taken := h.taken
  last := by
    intro l hl
    rcases List.mem_append.mp hl with hl | hl
    · exact h.last l hl
    · obtain ⟨f, hf, rfl⟩ := List.mem_map.mp hl
      obtain ⟨hsent, heosp⟩ := List.mem_filter.mp hf
      exact hlast f hsent heosp

end Period

section Begin
variable {s : Station} {v : Service} {new : AcId → List Packet}

theorem spLenMap_eq {n : ℕ} (h : 1 ≤ n) (h' : n ≤ 3) : spLenMap n = 2 * n := by
  interval_cases n <;> rfl

/-- Nothing is sent before the last packet is known. -/
theorem sent_of_empty (h : Service.Served s (spLenMap s.maxSpLength) v new)
    (hlen : length new = 0) : v.station.txSwQueue = s.txSwQueue := by
  have hnew : ∀ ac, new ac = [] := by
    intro ac
    rw [length, List.length_eq_zero_iff, List.flatMap_eq_nil_iff] at hlen
    exact hlen ac (AcId.mem_all ac)
  rw [h.sent]
  funext ac
  rw [hnew ac, List.append_nil]

/-- A period without a packet: a null frame is sent. -/
theorem begin_null (hv : Service.Assembles s v)
    (h : Service.Served s (spLenMap s.maxSpLength) v new) (hqued : v.quedPkt = none)
    (flg : Bool) :
    (Period.begin s (Station.spStart v flg)).Sound ∧
      Log.Current (Station.spStart v flg) (Period.begin s (Station.spStart v flg)) := by
  obtain ⟨queue, sent, hstation⟩ := hv.station
  have hcount := h.count
  rw [hqued, Option.toList_none, List.length_nil, h.empty hqued] at hcount
  have hsent := sent_of_empty h (by omega)
  have heq : Station.spStart v flg = { v.station.beginSp with
      eospFrame := none
      uapsdTxNum := 0
      nullFrames := v.station.beginSp.nullFrames + 1 } := by
    simp only [Station.spStart, hqued]
  rw [heq]
  generalize ht : { v.station.beginSp with
      eospFrame := none
      uapsdTxNum := 0
      nullFrames := v.station.beginSp.nullFrames + 1 } = t
  have htsent : sentSince s t = [] := sentSince_nil (by rw [← ht]; exact hsent)
  have hteosp : t.eospFrame = none := by rw [← ht]
  have hnull : t.nullFrames - s.nullFrames = 1 := by
    rw [← ht]
    change v.station.nullFrames + 1 - s.nullFrames = 1
    rw [hstation]
    exact Nat.add_sub_cancel_left s.nullFrames 1
  constructor
  · apply Period.watch_sound
    · refine ⟨fun _ _ => Nat.zero_le _, ?_, ?_, (by rintro _ ⟨⟩)⟩
      · rw [htsent, hteosp, hnull]
        rfl
      · rw [htsent, hteosp]
        exact List.forall_mem_nil _
    · rw [htsent]
      exact fun _ _ => Nat.zero_le _
    · rw [htsent]
      exact List.forall_mem_nil _
  · refine ⟨fun _ _ => ?_, fun f hf => ?_⟩
    · rw [hteosp, Period.begin, Period.watch, htsent]
      exact Nat.zero_le _
    · rw [hteosp] at hf
      cases hf

/-- The last packet of a period is marked, and its More Data bit is clear when no packet is left. -/
theorem lastPacket_spec (h : Service.Served s (spLenMap s.maxSpLength) v new) {p : Packet}
    {ac : AcId} (hqued : v.quedPkt = some (p, ac)) {flg : Bool}
    (hflg : flg = true ↔ v.station.remaining = false) {q : Packet}
    (hq : q = (if flg then p.setMoreData false else p).setEosp) :
    q.eosp = true ∧ (q.moreData = false ↔ v.station.remaining = false) := by
  have hmore : p.moreData = true := (h.taken _ hqued).2
  subst hq
  refine ⟨rfl, ?_⟩
  rw [← hflg]
  cases flg with
  | true => exact iff_of_true rfl rfl
  | false =>
    apply iff_of_false _ Bool.false_ne_true
    change p.moreData ≠ false
    rw [hmore]
    exact Bool.noConfusion

/-- A period with one packet: it is sent at once. -/
theorem begin_single (hv : Service.Assembles s v)
    (h : Service.Served s (spLenMap s.maxSpLength) v new) {p : Packet} {ac : AcId}
    (hqued : v.quedPkt = some (p, ac)) (hone : v.txPktNum ≤ 1) {flg : Bool}
    (hflg : flg = true ↔ v.station.remaining = false) :
    (Period.begin s (Station.spStart v flg)).Sound ∧
      Log.Current (Station.spStart v flg) (Period.begin s (Station.spStart v flg)) := by
  obtain ⟨queue, sent, hstation⟩ := hv.station
  have hcount := h.count
  rw [hqued, Option.toList_some, List.length_singleton] at hcount
  have hsent := sent_of_empty h (by omega)
  generalize hq : (if flg then p.setMoreData false else p).setEosp = q
  obtain ⟨hmark, hmore⟩ := lastPacket_spec h hqued hflg hq.symm
  have heq : Station.spStart v flg = { v.station.beginSp.insertQueueAc ac q with
      eospFrame := none
      uapsdTxNum := 0 } := by
    simp only [Station.spStart, hqued, if_pos hone, hq]
  rw [heq]
  generalize ht : { v.station.beginSp.insertQueueAc ac q with
      eospFrame := none
      uapsdTxNum := 0 } = t
  have htsent : sentSince s t = [q] := by
    apply @sentSince_single s t ac q
    rw [← ht, ← hsent]
    rfl
  have hteosp : t.eospFrame = none := by rw [← ht]
  have hnull : t.nullFrames - s.nullFrames = 0 := by
    rw [← ht]
    change v.station.nullFrames - s.nullFrames = 0
    rw [hstation]
    exact Nat.sub_self _
  have hmore' : q.moreData = false ↔ t.remaining = false := by
    rw [hmore, ← ht]
    rfl
  constructor
  · apply Period.watch_sound
    · refine ⟨fun _ _ => Nat.zero_le _, ?_, ?_, (by rintro _ ⟨⟩)⟩
      · simp only [htsent, hteosp, hnull, Option.toList_none, List.append_nil,
          List.countP_singleton, hmark, if_true]
      · rw [htsent, hteosp]
        rintro f hf -
        rw [List.mem_singleton.mp hf]
        exact hmore'
    · rw [htsent]
      intro hpos _
      change 1 ≤ t.maxSpLength at hpos
      change 0 + 1 ≤ 2 * t.maxSpLength
      omega
    · rw [htsent]
      rintro f hf -
      rw [List.mem_singleton.mp hf]
      refine ⟨?_, hmore'⟩
      simp only [Period.outstanding, hteosp, Option.toList_none, List.append_nil,
        List.filter_singleton, hmark, Bool.not_true, cond_false, List.map_nil, List.filter_nil]
  · refine ⟨fun hpos _ => ?_, fun f hf => ?_⟩
    · change 1 ≤ t.maxSpLength at hpos
      rw [hteosp, Period.begin, Period.watch, htsent]
      change 0 + 1 + 0 ≤ 2 * t.maxSpLength
      omega
    · rw [hteosp] at hf
      cases hf

/-- A period with several packets: the last one waits for the end of the others. -/
theorem begin_several (hv : Service.Assembles s v)
    (h : Service.Served s (spLenMap s.maxSpLength) v new) {p : Packet} {ac : AcId}
    (hqued : v.quedPkt = some (p, ac)) (hmany : ¬ v.txPktNum ≤ 1) (hfew : v.txPktNum ≤ 64)
    {flg : Bool} (hflg : flg = true ↔ v.station.remaining = false) :
    (Period.begin s (Station.spStart v flg)).Sound ∧
      Log.Current (Station.spStart v flg) (Period.begin s (Station.spStart v flg)) := by
  obtain ⟨queue, sent, hstation⟩ := hv.station
  have hcount := h.count
  rw [hqued, Option.toList_some, List.length_singleton] at hcount
  generalize hq : (if flg then p.setMoreData false else p).setEosp = q
  obtain ⟨hmark, hmore⟩ := lastPacket_spec h hqued hflg hq.symm
  have heq : Station.spStart v flg = { v.station.beginSp with
      eospFrame := some q
      uapsdTxNum := (v.txPktNum - 1) % 65536 } := by
    simp only [Station.spStart, hqued, if_neg hmany, hq]
  rw [heq]
  generalize ht : { v.station.beginSp with
      eospFrame := some q
      uapsdTxNum := (v.txPktNum - 1) % 65536 } = t
  have htsent : sentSince s t = AcId.all.flatMap new :=
    sentSince_append (by rw [← ht]; exact h.sent)
  have hteosp : t.eospFrame = some q := by rw [← ht]
  have htnum : t.uapsdTxNum = v.txPktNum - 1 := by
    rw [← ht]
    exact Nat.mod_eq_of_lt (by omega)
  have htmax : t.maxSpLength = s.maxSpLength := by
    rw [← ht]
    change v.station.maxSpLength = _
    rw [hstation]
  have hnull : t.nullFrames - s.nullFrames = 0 := by
    rw [← ht]
    change v.station.nullFrames - s.nullFrames = 0
    rw [hstation]
    exact Nat.sub_self _
  have hmore' : q.moreData = false ↔ t.remaining = false := by
    rw [hmore, ← ht]
    rfl
  have hunmarked : ∀ f ∈ AcId.all.flatMap new, f.eosp = false := by
    intro f hf
    obtain ⟨ac, -, hf⟩ := List.mem_flatMap.mp hf
    exact h.unmarked ac f hf
  have hlimit : 1 ≤ t.maxSpLength → t.maxSpLength ≤ 3 →
      0 + (sentSince s t).length + 1 ≤ 2 * t.maxSpLength := by
    intro hpos hle
    have hroom := h.limit
    rw [htmax] at hpos hle ⊢
    rw [spLenMap_eq hpos hle] at hroom
    have hroom' := hroom (by omega)
    rw [htsent]
    change 0 + length new + 1 ≤ _
    omega
  constructor
  · apply Period.watch_sound
    · refine ⟨fun _ _ => Nat.zero_le _, ?_, ?_, (by rintro _ ⟨⟩)⟩
      · have hzero : (AcId.all.flatMap new).countP Packet.eosp = 0 :=
          List.countP_eq_zero.mpr fun f hf => by simp only [hunmarked f hf, Bool.false_eq_true,
            not_false_iff]
        simp only [htsent, hteosp, hnull, Option.toList_some, List.countP_append, hzero,
          List.countP_singleton, hmark, if_true]
      · rw [htsent, hteosp]
        intro f hf heosp
        rcases List.mem_append.mp hf with hf | hf
        · rw [hunmarked f hf] at heosp
          cases heosp
        · rw [List.mem_singleton.mp hf]
          exact hmore'
    · intro hpos hle
      exact Nat.le_of_succ_le (hlimit hpos hle)
    · rw [htsent]
      intro f hf heosp
      rw [hunmarked f hf] at heosp
      cases heosp
  · refine ⟨?_, fun f hf => ?_⟩
    · rw [hteosp]
      exact hlimit
    · rw [hteosp, Option.some.injEq] at hf
      subst hf
      refine ⟨hmark, ?_, hmore'⟩
      rw [htnum]
      have hothers : ((sentSince s t ++ t.eospFrame.toList).filter fun f => !f.eosp).length ≤
          length new := by
        rw [htsent, hteosp, List.filter_append, List.length_append, Option.toList_some,
          List.filter_singleton, hmark]
        exact List.length_filter_le _ _
      have hout : (Period.begin s t).outstanding.length ≤
          ((sentSince s t ++ t.eospFrame.toList).filter fun f => !f.eosp).length := by
        refine (List.length_filter_le _ _).trans ?_
        rw [List.length_map]
        exact le_rfl
      omega

/-- A trigger frame begins a sound period. -/
theorem begin_spec (hs : s.Countdown) (hmark : ∀ ac, ∀ p ∈ s.uapsdQueue ac, p.eosp = false) :
    (Period.begin s (Station.spStart s.service.1 s.service.2)).Sound ∧
      Log.Current (Station.spStart s.service.1 s.service.2)
        (Period.begin s (Station.spStart s.service.1 s.service.2)) := by
  obtain ⟨new, h⟩ := Station.service_served hmark
  have hv := Station.assembles_service s
  have hflg := Station.service_flag s
  have hfew := (Station.Countdown.service_room hs.room).2
  cases hqued : s.service.1.quedPkt with
  | none => exact begin_null hv h hqued _
  | some q =>
    by_cases hone : s.service.1.txPktNum ≤ 1
    · exact begin_single hv h hqued hone hflg
    · exact begin_several hv h hqued hone (by omega) hflg

end Begin

namespace Log

theorem frameDone_reported {e : Event} {i : ℕ} (h : e.frameDone = some i) : i ∈ e.reported := by
  unfold Event.frameDone at h
  split at h
  · split at h
    · split_ifs at h
      cases h
      exact List.mem_singleton_self _
    · cases h
  · split_ifs at h
    cases h
    exact List.mem_singleton_self _
  · cases h

theorem Timely.counted {x : Log} {e : Event} (h : x.Timely e) {i : ℕ} (he : e.frameDone = some i)
    (hnum : 0 < x.station.uapsdTxNum) : ∃ p ∈ x.periods.head?, i ∈ p.outstanding := by
  unfold Timely at h
  split at h
  · cases he
  · cases he
  · exact h hnum i he

section Current
variable {s t : Station} {p : Period} {reported : List ℕ}

/-- Nothing is sent, and the frame that waits, if any, is the one that waited. -/
theorem current_quiet (hp : p.Sound) (hcur : Current s p) (hsent : t.txSwQueue = s.txSwQueue)
    (hwait : ∀ f, t.eospFrame = some f → s.eospFrame = some f ∧
      { p with reported := reported ++ p.reported }.outstanding.length ≤ t.uapsdTxNum ∧
        (f.moreData = false ↔ t.remaining = false)) :
    (p.watch reported s t).Sound ∧ Current t (p.watch reported s t) := by
  have hnil := sentSince_nil hsent
  constructor
  · apply Period.watch_sound hp
    · rw [hnil]
      exact hp.limit
    · rw [hnil]
      exact nofun
  · refine ⟨fun hpos hle => ?_, fun f hf => ?_⟩
    · have hlimit := hcur.limit hpos hle
      change p.sent + (sentSince s t).length + t.eospFrame.toList.length ≤ 2 * p.maxSpLength
      rw [hnil]
      cases heosp : t.eospFrame with
      | none => exact (Nat.le_add_right _ _).trans hlimit
      | some f =>
        rw [(hwait f heosp).1] at hlimit
        exact hlimit
    · obtain ⟨hsame, hout, hmore⟩ := hwait f hf
      exact ⟨(hcur.waiting f hsame).1, hout, hmore⟩

/-- A packet for a delivery-enabled category is left over; another one makes no difference. -/
theorem remaining_enqueued {q : Packet} {ac : AcId} (h : Station.Enqueued s t q ac) :
    (s.apsdDeliverEnabledPerAc ac = true → t.remaining = true) ∧
      (s.apsdDeliverEnabledPerAc ac = false → (t.remaining = false ↔ s.remaining = false)) := by
  constructor
  · intro henabled
    rw [← Bool.not_eq_false, Station.remaining_eq_false]
    intro hempty
    have hnil := hempty ac (by rw [h.enabled]; exact henabled)
    rw [h.queue, Function.update_self] at hnil
    exact List.append_ne_nil_of_right_ne_nil _ (List.cons_ne_nil q []) hnil
  · intro hdisabled
    rw [Station.remaining_eq_false, Station.remaining_eq_false, h.enabled, h.queue]
    apply forall_congr'
    intro ac'
    apply imp_congr_right
    intro henabled
    have hac : ac' ≠ ac := by
      rintro rfl
      rw [hdisabled] at henabled
      cases henabled
    rw [Function.update_of_ne hac]

/-- The last outstanding frame is reported: the frame that waited for it is sent. -/
theorem current_last (hp : p.Sound) (hcur : Current s p) (hone : s.uapsdTxNum = 1) {f : Packet}
    (hf : s.eospFrame = some f) {i : ℕ} (hi : i ∈ p.outstanding) (hreported : i ∈ reported) :
    (p.watch reported s s.countDown).Sound ∧
      Current s.countDown (p.watch reported s s.countDown) := by
  obtain ⟨hmark, hout, hmore⟩ := hcur.waiting f hf
  have heq : s.countDown = { s.insertQueueAc (.ofQueId f.queId) f with
      eospFrame := none
      uapsdTxNum := s.uapsdTxNum - 1 } := by
    rw [Station.countDown, if_pos hone, Station.sendEospFrame, hf]
    rfl
  rw [heq]
  generalize ht : { s.insertQueueAc (.ofQueId f.queId) f with
      eospFrame := none
      uapsdTxNum := s.uapsdTxNum - 1 } = t
  have hsent : sentSince s t = [f] := by
    apply @sentSince_single s t (.ofQueId f.queId) f
    rw [← ht]
    rfl
  have hteosp : t.eospFrame = none := by rw [← ht]
  have hremaining : t.remaining = s.remaining :=
    Station.remaining_congr (by rw [← ht]; rfl) (by rw [← ht]; rfl)
  have hlimit (hpos : 1 ≤ p.maxSpLength) (hle : p.maxSpLength ≤ 3) :
      p.sent + (sentSince s t).length ≤ 2 * p.maxSpLength := by
    have h := hcur.limit hpos hle
    rw [hf] at h
    rw [hsent]
    exact h
  constructor
  · apply Period.watch_sound hp hlimit
    rw [hsent]
    rintro g hg -
    rw [List.mem_singleton.mp hg, hremaining]
    refine ⟨List.length_eq_zero_iff.mp ?_, hmore⟩
    have hless := Period.outstanding_report_lt hi hreported
    omega
  · refine ⟨fun hpos hle => ?_, fun g hg => ?_⟩
    · rw [hteosp]
      exact hlimit hpos hle
    · rw [hteosp] at hg
      cases hg

/-- Everything that is queued is sent while no frame waits. -/
theorem current_deliver (hp : p.Sound) (heosp : s.eospFrame = none)
    (hmark : ∀ ac, ∀ f ∈ s.uapsdQueue ac, f.eosp = false)
    (hroom : 1 ≤ p.maxSpLength → p.maxSpLength ≤ 3 →
      p.sent + length s.uapsdQueue ≤ 2 * p.maxSpLength) :
    (p.watch reported s s.allPacketDeliver).Sound ∧
      Current s.allPacketDeliver (p.watch reported s s.allPacketDeliver) := by
  have hwait : s.eospFrame.isSome = false := by rw [heosp]; rfl
  have heq : s.allPacketDeliver = { s with
      uapsdQueue := fun _ => []
      txSwQueue := fun ac => s.txSwQueue ac ++ s.uapsdQueue ac } := by
    rw [Station.allPacketDeliver, hwait, Station.deliver_eq]
    rfl
  rw [heq]
  generalize ht : { s with
      uapsdQueue := fun _ => []
      txSwQueue := fun ac => s.txSwQueue ac ++ s.uapsdQueue ac } = t
  have hsent : sentSince s t = AcId.all.flatMap s.uapsdQueue :=
    sentSince_append (by rw [← ht])
  have hteosp : t.eospFrame = none := by rw [← ht]; exact heosp
  constructor
  · apply Period.watch_sound hp
    · rw [hsent]
      exact hroom
    · rw [hsent]
      intro f hf hmarked
      obtain ⟨ac, -, hf⟩ := List.mem_flatMap.mp hf
      rw [hmark ac f hf] at hmarked
      cases hmarked
  · refine ⟨fun hpos hle => ?_, fun g hg => ?_⟩
    · rw [hteosp]
      change p.sent + (sentSince s t).length + 0 ≤ 2 * p.maxSpLength
      rw [hsent]
      exact hroom hpos hle
    · rw [hteosp] at hg
      cases hg

end Current

/-- What a timely event does to the period under way. -/
theorem Inv.current_step {x : Log} (h : x.Inv) {e : Event} (hok : x.Timely e) {p : Period}
    {periods : List Period} (hperiods : x.periods = p :: periods) (hcur : Current x.station p)
    {t : Station} (he : Station.Effect x.station e t) (hopen : x.station.flagSpStart = true) :
    (p.watch e.reported x.station t).Sound ∧ Current t (p.watch e.reported x.station t) := by
  have hp : p.Sound := h.periods p (by rw [hperiods]; exact List.mem_cons_self)
  have hhead : x.periods.head? = some p := by rw [hperiods]; rfl
  cases he with
  | still he =>
    apply current_quiet hp hcur he.sent
    intro f hf
    rw [he.eospFrame] at hf
    obtain ⟨-, hout, hmore⟩ := hcur.waiting f hf
    rw [he.txNum, Station.remaining_congr he.enabled he.queue]
    exact ⟨hf, (Period.outstanding_report_length p _).trans hout, hmore⟩
  | aborted he =>
    apply current_quiet hp hcur he.sent
    intro f hf
    rw [he.eospFrame] at hf
    cases hf
  | enqueued q ac hevent he =>
    subst hevent
    obtain ⟨-, hguard⟩ := hok
    apply current_quiet hp hcur he.sent
    intro f hf
    rw [he.eospFrame] at hf
    obtain ⟨-, hout, hmore⟩ := hcur.waiting f hf
    rw [he.txNum]
    refine ⟨hf, (Period.outstanding_report_length p _).trans hout, ?_⟩
    obtain ⟨hfilled, hother⟩ := remaining_enqueued he
    cases henabled : x.station.apsdDeliverEnabledPerAc ac with
    | false => rw [hmore, hother henabled]
    | true =>
      rw [hfilled henabled, hguard he.room henabled f hf]
  | counted i hdone hnum =>
    obtain ⟨p', hp', hi⟩ := hok.counted hdone hnum
    rw [hhead] at hp'
    cases hp'
    have hreported := frameDone_reported hdone
    by_cases hone : x.station.uapsdTxNum = 1
    · cases heosp : x.station.eospFrame with
      | some f => exact current_last hp hcur hone heosp hi hreported
      | none =>
        have heq : x.station.countDown = x.station.setTxNum (x.station.uapsdTxNum - 1) := by
          rw [Station.countDown, if_pos hone, Station.sendEospFrame, heosp]
        rw [heq]
        refine current_quiet hp hcur ?_ fun f hf => ?_
        · rfl
        change x.station.eospFrame = some f at hf
        rw [heosp] at hf
        cases hf
    · have heq : x.station.countDown = x.station.setTxNum (x.station.uapsdTxNum - 1) := by
        rw [Station.countDown, if_neg hone]
      rw [heq]
      refine current_quiet hp hcur ?_ fun f hf => ?_
      · rfl
      obtain ⟨-, hout, hmore⟩ := hcur.waiting f hf
      refine ⟨hf, ?_, hmore⟩
      have hless := Period.outstanding_report_lt hi hreported
      change _ ≤ x.station.uapsdTxNum - 1
      omega
  | delivered hevent =>
    subst hevent
    obtain ⟨heosp, hroom⟩ := hok hopen
    exact current_deliver hp heosp h.unmarked (hroom p hhead)

end Log

namespace Station.Effect
variable {s t : Station} {e : Event}

theorem keeps (h : Effect s e t) : Keeps s t := by
  cases h with
  | still h => exact h.toKeeps
  | aborted h => exact h.toKeeps
  | enqueued p ac he h => exact h.toKeeps
  | counted i he hnum =>
    unfold countDown
    split
    · rw [sendEospFrame_eq]
      exact ⟨rfl, rfl, id⟩
    · exact ⟨rfl, rfl, id⟩
  | delivered he =>
    rw [allPacketDeliver, deliver_eq]
    split
    · rw [sendEospFrame_eq]
      exact ⟨rfl, rfl, id⟩
    · exact ⟨rfl, rfl, id⟩

/-- The packets in the queues were there, or one was handed over. -/
theorem queue (h : Effect s e t) {ac : AcId} {f : Packet} (hf : f ∈ t.uapsdQueue ac) :
    f ∈ s.uapsdQueue ac ∨ ∃ p, e = .packetEnqueue p ac ∧ f.eosp = p.eosp := by
  cases h with
  | still h =>
    rw [h.queue] at hf
    exact Or.inl hf
  | aborted h => exact Or.inl (h.queue ac hf)
  | enqueued p ac' he h =>
    rw [h.queue] at hf
    by_cases hac : ac = ac'
    · subst hac
      rw [Function.update_self] at hf
      rcases List.mem_append.mp hf with hf | hf
      · exact Or.inl hf
      · exact Or.inr ⟨p, he, by rw [List.mem_singleton.mp hf]⟩
    · rw [Function.update_of_ne hac] at hf
      exact Or.inl hf
  | counted i he hnum =>
    unfold countDown at hf
    split at hf
    · rw [sendEospFrame_eq] at hf
      exact Or.inl hf
    · exact Or.inl hf
  | delivered he =>
    rw [allPacketDeliver, deliver_eq] at hf
    cases hf

theorem polled (h : Effect s .psPollHandle t) : sentSince s t = [] := by
  cases h with
  | still h => exact sentSince_nil h.sent
  | aborted h => exact sentSince_nil h.sent
  | enqueued p ac he h => cases he
  | counted i he hnum => cases he
  | delivered he => cases he

end Station.Effect

namespace Log
variable {x : Log} {e : Event}

/-- The answers to PS-Poll frames of a step that sends no such answer. -/
theorem polled_step (h : ∀ l ∈ x.polled, l.moreData = false ↔ l.remaining = false)
    (hpoll : e = .psPollHandle → ∀ f ∈ sentSince x.station (Uapsd.step x.station e),
      (f.moreData = false ↔ (Uapsd.step x.station e).remaining = false)) :
    ∀ l ∈ (x.step e).polled, l.moreData = false ↔ l.remaining = false := by
  cases e with
  | psPollHandle =>
    intro l hl
    rcases List.mem_append.mp hl with hl | hl
    · exact h l hl
    · obtain ⟨f, hf, rfl⟩ := List.mem_map.mp hl
      exact hpoll rfl f hf
  | _ => exact h

theorem Inv.step_effect (h : x.Inv) (hok : x.Timely e)
    (he : Station.Effect x.station e (Uapsd.step x.station e)) : (x.step e).Inv := by
  have hkeeps := he.keeps
  have hunmarked : ∀ ac, ∀ f ∈ (Uapsd.step x.station e).uapsdQueue ac, f.eosp = false := by
    intro ac f hf
    rcases he.queue hf with hf | ⟨p, rfl, heosp⟩
    · exact h.unmarked ac f hf
    · rw [heosp]
      exact hok.1
  have hpolled := polled_step (e := e) h.polled <| by
    rintro rfl
    rw [he.polled]
    exact nofun
  have hallAc : (Uapsd.step x.station e).apsdAllAc = true →
      ∀ ac, (Uapsd.step x.station e).apsdDeliverEnabledPerAc ac = true := by
    rw [hkeeps.allAc, hkeeps.enabled]
    exact h.allAc
  have hcount := Station.step_countdown h.countdown e
  cases hopen : x.station.flagSpStart with
  | true =>
    obtain ⟨p, periods, hperiods, hcur⟩ := h.current hopen
    obtain ⟨hsound, hcur'⟩ := h.current_step hok hperiods hcur he hopen
    have heq : (x.step e).periods =
        p.watch e.reported x.station (Uapsd.step x.station e) :: periods := by
      simp only [Log.step, hopen, if_true, hperiods]
    refine ⟨hcount, hunmarked, hallAc, ?_, hpolled, fun _ => ⟨_, periods, heq, hcur'⟩⟩
    rw [heq]
    refine List.forall_mem_cons.mpr ⟨hsound, fun p' hp' => h.periods p' ?_⟩
    rw [hperiods]
    exact List.mem_cons_of_mem p hp'
  | false =>
    have hclosed : (Uapsd.step x.station e).flagSpStart = false := by
      rw [← Bool.not_eq_true]
      intro hstart
      rw [hkeeps.flag hstart] at hopen
      cases hopen
    have heq : (x.step e).periods = x.periods := by
      simp only [Log.step, hopen, hclosed, Bool.false_eq_true, if_false]
    refine ⟨hcount, hunmarked, hallAc, ?_, hpolled, fun hstart => ?_⟩
    · rw [heq]
      exact h.periods
    · change (Uapsd.step x.station e).flagSpStart = true at hstart
      rw [hclosed] at hstart
      cases hstart

theorem Inv.step_begin (h : x.Inv) {up : ℕ} (hclosed : x.station.flagSpStart = false)
    (hcapable : x.station.apsdCapablePerAc
      (mapUserPriorityToAccessCategory (if up ≥ 8 then 1 else up)) = true) :
    (x.step (.triggerFrameHandle up)).Inv := by
  have hcheck : x.station.triggerCheck.Countdown :=
    h.countdown.congr rfl rfl rfl rfl h.countdown.room
  have hmark : ∀ ac, ∀ p ∈ x.station.triggerCheck.uapsdQueue ac, p.eosp = false := h.unmarked
  have hcount := Station.step_countdown h.countdown (.triggerFrameHandle up)
  have heq : Uapsd.step x.station (.triggerFrameHandle up) =
      Station.spStart x.station.triggerCheck.service.1 x.station.triggerCheck.service.2 := by
    have hcapable' : x.station.triggerCheck.apsdCapablePerAc
      (mapUserPriorityToAccessCategory (if up ≥ 8 then 1 else up)) = true := hcapable
    simp only [Uapsd.step, Station.triggerFrameHandle, hclosed, hcapable', Bool.not_true,
      Bool.false_eq_true, if_false]
  obtain ⟨hsound, hcur⟩ := begin_spec hcheck hmark
  obtain ⟨new, hserved⟩ := Station.service_served hmark
  obtain ⟨queue, sent, hstation⟩ := (Station.assembles_service x.station.triggerCheck).station
  generalize x.station.triggerCheck.service = r at heq hsound hcur hserved hstation
  obtain ⟨v, flg⟩ := r
  dsimp only at hserved hstation
  obtain ⟨hopen, hqueue, hallAc, henabled⟩ := Station.spStart_frame v flg
  have hstep : x.step (.triggerFrameHandle up) = ⟨Station.spStart v flg,
      Period.begin x.station (Station.spStart v flg) :: x.periods, x.polled⟩ := by
    simp only [Log.step, heq, hclosed, hopen, Bool.false_eq_true, if_false, if_true]
  rw [hstep]
  rw [heq] at hcount
  refine ⟨hcount, ?_, ?_, List.forall_mem_cons.mpr ⟨hsound, h.periods⟩, h.polled,
    fun _ => ⟨_, x.periods, rfl, hcur⟩⟩
  · change ∀ ac, ∀ p ∈ (Station.spStart v flg).uapsdQueue ac, p.eosp = false
    rw [hqueue]
    exact hserved.queue
  · change (Station.spStart v flg).apsdAllAc = true →
      ∀ ac, (Station.spStart v flg).apsdDeliverEnabledPerAc ac = true
    rw [hallAc, henabled, hstation]
    exact h.allAc

theorem Inv.step_polled (h : x.Inv) (hclosed : x.station.flagSpStart = false)
    (hall : x.station.apsdAllAc = true) : (x.step .psPollHandle).Inv := by
  obtain ⟨hkeeps, hsub, hmore⟩ :=
    Station.psPollHandle_spec hclosed h.unmarked hall (h.allAc hall)
  have hstart : x.station.psPollHandle.flagSpStart = false := by
    rw [← Bool.not_eq_true]
    intro hstart
    rw [hkeeps.flag hstart] at hclosed
    cases hclosed
  have hperiods : (x.step .psPollHandle).periods = x.periods := by
    simp only [Log.step, Uapsd.step, hclosed, hstart, Bool.false_eq_true, if_false]
  refine ⟨Station.step_countdown h.countdown .psPollHandle,
    fun ac p hp => h.unmarked ac p (hsub ac hp), ?_, ?_,
    polled_step h.polled fun _ => hmore, fun hopen => ?_⟩
  · change x.station.psPollHandle.apsdAllAc = true →
      ∀ ac, x.station.psPollHandle.apsdDeliverEnabledPerAc ac = true
    rw [hkeeps.allAc, hkeeps.enabled]
    exact h.allAc
  · rw [hperiods]
    exact h.periods
  · change x.station.psPollHandle.flagSpStart = true at hopen
    rw [hstart] at hopen
    cases hopen

theorem Inv.step (h : x.Inv) (hok : x.Timely e) : (x.step e).Inv := by
  by_cases hbegin : ∃ up, e = .triggerFrameHandle up ∧ x.station.flagSpStart = false ∧
      x.station.apsdCapablePerAc
        (mapUserPriorityToAccessCategory (if up ≥ 8 then 1 else up)) = true
  · obtain ⟨up, rfl, hclosed, hcapable⟩ := hbegin
    exact h.step_begin hclosed hcapable
  · by_cases hpoll : e = .psPollHandle ∧ x.station.flagSpStart = false ∧
        x.station.apsdAllAc = true
    · obtain ⟨rfl, hclosed, hall⟩ := hpoll
      exact h.step_polled hclosed hall
    · have hor : ∀ {a b : Bool}, ¬(a = false ∧ b = true) → a = true ∨ b = false := by decide
      apply h.step_effect hok
      apply Station.step_effect
      · rintro up rfl
        exact hor fun hne => hbegin ⟨up, rfl, hne⟩
      · rintro rfl
        exact hor fun hne => hpoll ⟨rfl, hne⟩

theorem start_inv (pwrSave : Bool) (uapsd : AcId → Bool) (maxSpLength : ℕ) :
    (Log.begin (start pwrSave uapsd maxSpLength)).Inv where
  countdown := Station.start_countdown pwrSave uapsd maxSpLength
  unmarked := nofun
  allAc := fun h ac => List.all_eq_true.mp h ac (AcId.mem_all ac)
  periods := nofun
  polled := nofun
  current := nofun

end Log

section Example

/-- A data packet as it is handed over. -/
def dataPacket : Packet := ⟨0, false, false, 0, false, false⟩

/-- The end of the transmission of a packet that was sent in a period. -/
def sentPacket (id : ℕ) (eosp : Bool) : Event :=
  .spPacketCheck (some ⟨id, false, true, 3, !eosp, eosp⟩) (some ⟨2, 8, true⟩) ⟨0, 0, false⟩ false

/-- A period of two packets from its trigger frame to its end. -/
def wholePeriod : List Event :=
  [.packetEnqueue dataPacket .vo, .packetEnqueue dataPacket .vo, .triggerFrameHandle 6,
    sentPacket 0 false, sentPacket 1 true]

/-- The first period is closed before its first packet is reported, which then counts as one of the
second period. -/
def lateReport : List Event :=
  [.packetEnqueue dataPacket .vo, .packetEnqueue dataPacket .vo, .triggerFrameHandle 6, .spClose,
    .packetEnqueue dataPacket .vo, .packetEnqueue dataPacket .vo, .triggerFrameHandle 6,
    sentPacket 0 false]

end Example

end Rt5572.Uapsd
