import StandaloneDrivers.Rt5572.UapsdOwnership

/-! The countdown to the frame that ends a service period, and what both keep in every run: each
packet is in one place. -/
namespace Rt5572.Uapsd
open Foundations

/-- How many packets are in the queues of the categories. -/
def length (queue : AcId → List Packet) : ℕ := (AcId.all.flatMap queue).length

theorem length_eq (queue : AcId → List Packet) :
    length queue = (queue .be).length + ((queue .bk).length +
      ((queue .vi).length + (queue .vo).length)) := by
  simp [length, AcId.all]

theorem length_update (queue : AcId → List Packet) (ac : AcId) (packets : List Packet) :
    length (Function.update queue ac packets) + (queue ac).length =
      length queue + packets.length := by
  have h := (flatMap_update queue ac packets).length_eq
  rw [List.length_append, List.length_append] at h
  exact h

theorem room_setQueue {queue : AcId → List Packet} {n : ℕ} (hroom : ∀ ac, (queue ac).length ≤ n)
    {ac : AcId} {p : Packet} {rest : List Packet} (hqueue : queue ac = p :: rest) (ac' : AcId) :
    (Function.update queue ac rest ac').length ≤ n := by
  by_cases hac : ac' = ac
  · subst hac
    have h := hroom ac'
    rw [hqueue, List.length_cons] at h
    rw [Function.update_self]
    omega
  · rw [Function.update_of_ne hac]
    exact hroom ac'

namespace Station

theorem releaseEospFrame_eq (s : Station) :
    s.releaseEospFrame = { s with eospFrame := none, ledger := s.releaseEospFrame.ledger } := by
  cases h : s.eospFrame with
  | none =>
    simp only [releaseEospFrame, h]
    rw [← h]
  | some p => simp only [releaseEospFrame, h, releaseNdisPacket]

theorem sendEospFrame_eq (s : Station) :
    s.sendEospFrame = { s with eospFrame := none, txSwQueue := s.sendEospFrame.txSwQueue } := by
  cases h : s.eospFrame with
  | none =>
    simp only [sendEospFrame, h]
    rw [← h]
  | some p => simp only [sendEospFrame, h, insertQueueAc]

theorem cleanup_eq (s : Station) :
    ∃ ledger, AcId.all.foldl rtmpCleanupPsQueue s =
      { s with uapsdQueue := fun _ => [], ledger := ledger } := by
  have hqueue : (AcId.all.foldl rtmpCleanupPsQueue s).uapsdQueue = fun _ => [] := by
    funext ac
    cases ac <;> rfl
  exact ⟨_, by rw [← hqueue]; rfl⟩

theorem deliver_eq (s : Station) :
    [AcId.vo, .vi, .bk, .be].foldl deliverQueue s =
      { s with
        uapsdQueue := fun _ => []
        txSwQueue := fun ac => s.txSwQueue ac ++ s.uapsdQueue ac } := by
  have hqueue : ([AcId.vo, .vi, .bk, .be].foldl deliverQueue s).uapsdQueue = fun _ => [] := by
    funext ac
    cases ac <;> rfl
  have hsent : ([AcId.vo, .vi, .bk, .be].foldl deliverQueue s).txSwQueue =
      fun ac => s.txSwQueue ac ++ s.uapsdQueue ac := by
    funext ac
    cases ac <;> rfl
  rw [← hqueue, ← hsent]
  rfl

/-- The frame that ends a period waits while the countdown runs, which it does in a period only. -/
structure Countdown (s : Station) : Prop where
  closed : s.flagSpStart = false → s.uapsdTxNum = 0
  waiting : s.uapsdTxNum = 0 → s.eospFrame = none
  eospOk : s.flagEospOk = true → s.uapsdTxNum = 0
  room : ∀ ac, (s.uapsdQueue ac).length ≤ maxPacketsInUapsdQueue

namespace Countdown
variable {s t : Station}

theorem eospFrame (h : s.Countdown) (hclosed : s.flagSpStart = false) : s.eospFrame = none :=
  h.waiting (h.closed hclosed)

/-- No period is under way, or its last frame is on its way. -/
theorem of_zero (hnum : t.uapsdTxNum = 0) (heosp : t.eospFrame = none)
    (hroom : ∀ ac, (t.uapsdQueue ac).length ≤ maxPacketsInUapsdQueue) : t.Countdown :=
  ⟨fun _ => hnum, fun _ => heosp, fun _ => hnum, hroom⟩

theorem congr (h : s.Countdown) (hstart : t.flagSpStart = s.flagSpStart)
    (hnum : t.uapsdTxNum = s.uapsdTxNum) (heosp : t.eospFrame = s.eospFrame)
    (hok : t.flagEospOk = s.flagEospOk)
    (hroom : ∀ ac, (t.uapsdQueue ac).length ≤ maxPacketsInUapsdQueue) : t.Countdown where
  closed := by rw [hstart, hnum]; exact h.closed
  waiting := by rw [heosp, hnum]; exact h.waiting
  eospOk := by rw [hok, hnum]; exact h.eospOk
  room := hroom

theorem abort (h : s.Countdown) :
    ((s.setTxNum 0).releaseEospFrame.setEospOk false).spEnd.Countdown := by
  rw [releaseEospFrame_eq]
  exact of_zero rfl rfl h.room

theorem cleanup (h : s.Countdown) : (AcId.all.foldl rtmpCleanupPsQueue s).Countdown := by
  obtain ⟨ledger, heq⟩ := cleanup_eq s
  rw [heq]
  exact h.congr rfl rfl rfl rfl fun _ => Nat.zero_le _

theorem spClose (h : s.Countdown) : s.spClose.Countdown := by
  unfold Station.spClose
  split
  · rw [releaseEospFrame_eq]
    exact of_zero rfl rfl h.room
  · exact h

theorem allPacketDeliver (h : s.Countdown) : s.allPacketDeliver.Countdown := by
  rw [Station.allPacketDeliver, deliver_eq]
  split
  · rw [sendEospFrame_eq]
    exact of_zero rfl rfl fun _ => Nat.zero_le _
  · exact h.congr rfl rfl rfl rfl fun _ => Nat.zero_le _

theorem packetEnqueue (h : s.Countdown) (p : Packet) (ac : AcId) :
    (s.packetEnqueue p ac).Countdown := by
  unfold Station.packetEnqueue
  split
  · exact h.congr rfl rfl rfl rfl h.room
  · rename_i hroom
    refine h.congr rfl rfl rfl rfl fun ac' => ?_
    by_cases hac : ac' = ac
    · subst hac
      rw [setQueue_queue, Function.update_self, List.length_append, List.length_singleton]
      omega
    · rw [setQueue_queue, Function.update_of_ne hac]
      exact h.room ac'

theorem eospDone (h : s.Countdown) (hnum : s.uapsdTxNum = 0) (rxDone : Bool) :
    (s.eospDone rxDone).Countdown := by
  unfold Station.eospDone
  split
  · exact of_zero hnum (h.waiting hnum) h.room
  · exact of_zero hnum (h.waiting hnum) h.room

theorem txDone (h : s.Countdown) (rxDone : Bool) : (s.txDone rxDone).Countdown := by
  unfold Station.txDone
  split
  · rename_i hnum
    split
    · rename_i hone
      rw [sendEospFrame_eq]
      exact of_zero (by simp only [setTxNum, hone]) rfl h.room
    · have hopen : s.flagSpStart ≠ false := fun hclosed => absurd (h.closed hclosed) (by omega)
      have hok : s.flagEospOk ≠ true := fun hok => absurd (h.eospOk hok) (by omega)
      refine ⟨fun hclosed => absurd hclosed hopen, fun hzero => ?_, fun h => absurd h hok, h.room⟩
      simp only [setTxNum] at hzero
      omega
  · split
    · exact h.eospDone (by omega) rxDone
    · exact h

theorem qosNullTxMgmtTxDoneHandle (h : s.Countdown) (pPacket : Option Packet)
    (pDstMac : Option Header) (rxDone : Bool) :
    (s.qosNullTxMgmtTxDoneHandle pPacket pDstMac rxDone).Countdown := by
  unfold Station.qosNullTxMgmtTxDoneHandle
  split
  · split_ifs
    · exact h
    · have hzero : (s.releaseEospFrame.setTxNum 0).Countdown := by
        rw [releaseEospFrame_eq]
        exact of_zero rfl rfl h.room
      exact hzero.eospDone rfl rxDone
    · exact h
    · exact h.txDone rxDone
    · exact h
    · exact h
  · exact h

theorem spPacketCheck (h : s.Countdown) (pPacket : Option Packet) (pDstMac : Option Header)
    (data : Header) (rxDone : Bool) : (s.spPacketCheck pPacket pDstMac data rxDone).Countdown := by
  cases pPacket with
  | none => exact h
  | some p =>
    simp only [Station.spPacketCheck]
    split
    · exact h
    · split
      · exact h
      · split_ifs
        · exact h.qosNullTxMgmtTxDoneHandle _ _ rxDone
        · exact h.txDone rxDone
        · exact h

theorem setIdleCount (h : s.Countdown) (n : ℕ) : (s.setIdleCount n).Countdown :=
  h.congr rfl rfl rfl rfl h.room

theorem queueMaintenance (h : s.Countdown) (flg : Bool) (msduLifeTime : ℕ) :
    (s.queueMaintenance flg msduLifeTime).Countdown := by
  have hidle := h.setIdleCount ((s.uapsdQIdleCount + 1) % 65536)
  simp only [Station.queueMaintenance]
  split_ifs
  · exact h
  · exact h
  · exact hidle.cleanup.abort.setIdleCount 0
  · exact hidle.abort.setIdleCount 0
  · exact hidle
  · exact h.setIdleCount 0

theorem spCloseInRvDone (h : s.Countdown) (psm : Bool) : (s.spCloseInRvDone psm).Countdown := by
  unfold Station.spCloseInRvDone
  split
  · rename_i hcond
    have hnum := h.eospOk (Bool.and_eq_true_iff.mp hcond).2
    exact of_zero hnum (h.waiting hnum) h.room
  · exact h

theorem entryReset (h : s.Countdown) : s.entryReset.Countdown := h.cleanup.abort

theorem psPollLoop_eq (acs : List AcId) (s : Station) (quedPkt : Option (Packet × AcId))
    (hroom : ∀ ac, (s.uapsdQueue ac).length ≤ maxPacketsInUapsdQueue) :
    ∃ queue, (s.psPollLoop acs quedPkt).1 = { s with uapsdQueue := queue } ∧
      ∀ ac, (queue ac).length ≤ maxPacketsInUapsdQueue := by
  induction acs generalizing s quedPkt with
  | nil => exact ⟨s.uapsdQueue, rfl, hroom⟩
  | cons ac acs ih =>
    cases hqueue : s.uapsdQueue ac with
    | nil =>
      simp only [psPollLoop, hqueue]
      exact ih s quedPkt hroom
    | cons p rest =>
      have hroom' : ∀ ac', ((s.setQueue ac rest).uapsdQueue ac').length ≤
          maxPacketsInUapsdQueue := fun ac' => room_setQueue hroom hqueue ac'
      cases quedPkt with
      | some q =>
        simp only [psPollLoop, hqueue]
        exact ⟨s.uapsdQueue, rfl, hroom⟩
      | none =>
        simp only [psPollLoop, hqueue]
        split
        · obtain ⟨queue, heq, hlen⟩ := ih (s.setQueue ac rest) _ hroom'
          exact ⟨queue, by rw [heq]; rfl, hlen⟩
        · exact ⟨_, rfl, hroom'⟩

theorem psPollHandle (h : s.Countdown) : s.psPollHandle.Countdown := by
  obtain ⟨queue, heq, hroom⟩ := psPollLoop_eq acPriority s none h.room
  unfold Station.psPollHandle
  split_ifs
  · exact h
  · exact h
  · generalize s.psPollLoop acPriority none = r at heq
    obtain ⟨t, quedPkt, flgQueEmpty⟩ := r
    cases heq
    cases quedPkt with
    | none => exact h.congr rfl rfl rfl rfl hroom
    | some q => exact h.congr rfl rfl rfl rfl hroom

/-- A period takes packets that were queued. -/
theorem service_room (hroom : ∀ ac, (s.uapsdQueue ac).length ≤ maxPacketsInUapsdQueue) :
    (∀ ac, (s.service.1.station.uapsdQueue ac).length ≤ maxPacketsInUapsdQueue) ∧
      s.service.1.txPktNum + length s.service.1.station.uapsdQueue ≤ 64 := by
  apply Service.serve_induction (P := fun v =>
    (∀ ac, (v.station.uapsdQueue ac).length ≤ maxPacketsInUapsdQueue) ∧
      v.txPktNum + length v.station.uapsdQueue ≤ 64)
  · rintro v ac p rest hqueue - - ⟨hroom, hnum⟩
    have hkept : (v.take ac p rest).station.uapsdQueue =
        Function.update v.station.uapsdQueue ac rest := by
      unfold Service.take
      split <;> rfl
    rw [hkept]
    refine ⟨room_setQueue hroom hqueue, ?_⟩
    have hlen := length_update v.station.uapsdQueue ac rest
    rw [hqueue, List.length_cons] at hlen
    change v.txPktNum + 1 + _ ≤ 64
    omega
  · refine ⟨hroom, ?_⟩
    have hbe := hroom .be
    have hbk := hroom .bk
    have hvi := hroom .vi
    have hvo := hroom .vo
    simp only [maxPacketsInUapsdQueue] at hbe hbk hvi hvo
    simp only [length_eq]
    omega

theorem spStart (hs : s.Countdown) (flgQueEmpty : Bool) :
    (Station.spStart s.service.1 flgQueEmpty).Countdown := by
  obtain ⟨hroom, hnum⟩ := service_room hs.room
  generalize s.service.1 = v at hroom hnum
  cases hqued : v.quedPkt with
  | none =>
    simp only [Station.spStart, hqued]
    exact of_zero rfl rfl hroom
  | some q =>
    simp only [Station.spStart, hqued]
    split
    · exact of_zero rfl rfl hroom
    · rename_i hmany
      have hpos : (v.txPktNum - 1) % 65536 ≠ 0 := by omega
      refine ⟨(by rintro ⟨⟩), fun hzero => absurd hzero hpos, (by rintro ⟨⟩), hroom⟩

theorem triggerFrameHandle (h : s.Countdown) (up : ℕ) : (s.triggerFrameHandle up).Countdown := by
  have hcheck : s.triggerCheck.Countdown := h.congr rfl rfl rfl rfl h.room
  simp only [Station.triggerFrameHandle]
  generalize mapUserPriorityToAccessCategory _ = ac
  split_ifs
  · exact h
  · exact hcheck
  · exact hcheck.spStart _

end Countdown

theorem start_owned (pwrSave : Bool) (uapsd : AcId → Bool) (maxSpLength : ℕ) :
    (start pwrSave uapsd maxSpLength).Owned := by
  intro i
  rfl

theorem start_countdown (pwrSave : Bool) (uapsd : AcId → Bool) (maxSpLength : ℕ) :
    (start pwrSave uapsd maxSpLength).Countdown :=
  .of_zero rfl rfl fun _ => Nat.zero_le _

/-- A packet is handed over: it is queued or given back. -/
theorem owned_packetEnqueue {s : Station} (h : s.Owned) (p : Packet) (ac : AcId) :
    (step s (.packetEnqueue p ac)).Owned := by
  have hplaces : ∀ i, (step s (.packetEnqueue p ac)).places i =
      s.places i + [s.ledger.next].count i := by
    intro i
    simp only [step, packetEnqueue]
    split
    · exact places_releaseNdisPacket _ i _
    · have hqueue := places_setQueue { s with ledger := s.ledger.take } i ac
        (s.uapsdQueue ac ++ [{ p with id := s.ledger.next }])
      rw [List.map_append, List.count_append] at hqueue
      have hsame : Station.places { s with ledger := s.ledger.take } i = s.places i := rfl
      simp only [List.map_singleton] at hqueue
      omega
  have hnext : (step s (.packetEnqueue p ac)).ledger.next = s.ledger.next + 1 := by
    simp only [step, packetEnqueue]
    split <;> rfl
  intro i
  rw [hplaces, hnext, h i, List.count_singleton]
  simp only [beq_iff_eq]
  split_ifs <;> omega

/-- Every step keeps the packets, each in one place. -/
theorem step_owned {s : Station} (h : s.Owned) (hcount : s.Countdown) (e : Event) :
    (step s e).Owned := by
  cases e with
  | packetEnqueue p ac => exact owned_packetEnqueue h p ac
  | triggerFrameHandle up => exact (conserves_triggerFrameHandle hcount.eospFrame up).owned h
  | psPollHandle => exact (conserves_psPollHandle s).owned h
  | spPacketCheck pPacket pDstMac data rxDone =>
    exact (conserves_spPacketCheck s pPacket pDstMac data rxDone).owned h
  | qosNullTxMgmtTxDoneHandle pPacket pDstMac rxDone =>
    exact (conserves_qosNullTxMgmtTxDoneHandle s pPacket pDstMac rxDone).owned h
  | spClose => exact (conserves_spClose s).owned h
  | queueMaintenance flg msduLifeTime =>
    exact (conserves_queueMaintenance s flg msduLifeTime).owned h
  | allPacketDeliver => exact (conserves_allPacketDeliver s).owned h
  | spCloseInRvDone psm => exact (conserves_spCloseInRvDone s psm).owned h
  | entryReset => exact (conserves_entryReset s).owned h
  | powerMode pwrSave => exact (Conserves.congr rfl rfl rfl rfl).owned h

theorem step_countdown {s : Station} (h : s.Countdown) (e : Event) : (step s e).Countdown := by
  cases e with
  | packetEnqueue p ac =>
    have htaken : Station.Countdown { s with ledger := s.ledger.take } :=
      h.congr rfl rfl rfl rfl h.room
    exact htaken.packetEnqueue _ ac
  | triggerFrameHandle up => exact h.triggerFrameHandle up
  | psPollHandle => exact h.psPollHandle
  | spPacketCheck pPacket pDstMac data rxDone => exact h.spPacketCheck pPacket pDstMac data rxDone
  | qosNullTxMgmtTxDoneHandle pPacket pDstMac rxDone =>
    exact h.qosNullTxMgmtTxDoneHandle pPacket pDstMac rxDone
  | spClose => exact h.spClose
  | queueMaintenance flg msduLifeTime => exact h.queueMaintenance flg msduLifeTime
  | allPacketDeliver => exact h.allPacketDeliver
  | spCloseInRvDone psm => exact h.spCloseInRvDone psm
  | entryReset => exact h.entryReset
  | powerMode pwrSave => exact h.congr rfl rfl rfl rfl h.room

end Station

end Rt5572.Uapsd
