import Mathlib.Data.List.Count
import StandaloneDrivers.Rt5572.Uapsd

/-! Where the packets of a station are: every operation moves them or gives them back. -/
namespace Rt5572.Uapsd
open Foundations

/-- How often packet `i` is in the queues of the categories. -/
def queued (queue : AcId → List Packet) (i : ℕ) : ℕ :=
  ((AcId.all.flatMap queue).map Packet.id).count i

theorem flatMap_update (queue : AcId → List Packet) (ac : AcId) (packets : List Packet) :
    (AcId.all.flatMap (Function.update queue ac packets) ++ queue ac).Perm
      (AcId.all.flatMap queue ++ packets) := by
  rw [List.perm_iff_count]
  intro p
  cases ac <;> simp [AcId.all, Function.update, List.count_append] <;> omega

theorem queued_update (queue : AcId → List Packet) (ac : AcId) (packets : List Packet) (i : ℕ) :
    queued (Function.update queue ac packets) i + ((queue ac).map Packet.id).count i =
      queued queue i + (packets.map Packet.id).count i := by
  have h := ((flatMap_update queue ac packets).map Packet.id).count_eq i
  rw [List.map_append, List.map_append, List.count_append, List.count_append] at h
  exact h

namespace Station
variable (s : Station) (i : ℕ)

/-- In how many places packet `i` is: a U-APSD queue, the frame that waits for the end of a period,
a software queue, the packets given back. -/
def places : ℕ :=
  s.ledger.released.count i + queued s.uapsdQueue i +
    (s.eospFrame.toList.map Packet.id).count i + queued s.txSwQueue i

/-- Every packet handed over is in one place. -/
def Owned : Prop := ∀ i, s.places i = if i < s.ledger.next then 1 else 0

theorem setQueue_queue (ac : AcId) (packets : List Packet) :
    (s.setQueue ac packets).uapsdQueue = Function.update s.uapsdQueue ac packets := rfl

theorem places_insertQueueAc (ac : AcId) (p : Packet) :
    (s.insertQueueAc ac p).places i = s.places i + [p.id].count i := by
  have h := queued_update s.txSwQueue ac (s.txSwQueue ac ++ [p]) i
  rw [List.map_append, List.count_append, List.map_singleton] at h
  simp only [places, insertQueueAc]
  omega

theorem places_setQueue (ac : AcId) (packets : List Packet) :
    (s.setQueue ac packets).places i + ((s.uapsdQueue ac).map Packet.id).count i =
      s.places i + (packets.map Packet.id).count i := by
  have h := queued_update s.uapsdQueue ac packets i
  simp only [places, setQueue]
  omega

theorem places_releaseNdisPacket (p : Packet) :
    (s.releaseNdisPacket p).places i = s.places i + [p.id].count i := by
  simp only [places, releaseNdisPacket, Ledger.release, List.count_cons, List.count_nil]
  omega

theorem places_sendEospFrame : s.sendEospFrame.places i = s.places i := by
  cases h : s.eospFrame with
  | none => simp only [sendEospFrame, h]
  | some p =>
    have hsent := places_insertQueueAc s i (.ofQueId p.queId) p
    simp only [places, insertQueueAc, sendEospFrame, h, Option.toList_some, Option.toList_none,
      List.map_cons, List.map_nil, List.count_nil] at hsent ⊢
    omega

theorem places_releaseEospFrame : s.releaseEospFrame.places i = s.places i := by
  cases h : s.eospFrame with
  | none => simp only [releaseEospFrame, h]
  | some p =>
    have hfreed := places_releaseNdisPacket s i p
    simp only [places, releaseNdisPacket, releaseEospFrame, h, Option.toList_some,
      Option.toList_none, List.map_cons, List.map_nil, List.count_nil] at hfreed ⊢
    omega

theorem released_foldl (packets : List Packet) (l : Ledger) :
    (packets.foldl (fun l p => l.release p.id) l).released.count i =
        l.released.count i + (packets.map Packet.id).count i ∧
      (packets.foldl (fun l p => l.release p.id) l).next = l.next := by
  induction packets generalizing l with
  | nil => exact ⟨rfl, rfl⟩
  | cons p packets ih =>
    obtain ⟨hcount, hnext⟩ := ih (l.release p.id)
    rw [List.foldl_cons]
    refine ⟨?_, hnext⟩
    rw [hcount, Ledger.release, List.map_cons, List.count_cons, List.count_cons]
    omega

theorem places_rtmpCleanupPsQueue (ac : AcId) :
    (s.rtmpCleanupPsQueue ac).places i = s.places i := by
  have hqueue := queued_update s.uapsdQueue ac [] i
  have hfreed := (released_foldl i (s.uapsdQueue ac) s.ledger).1
  simp only [places, rtmpCleanupPsQueue, List.map_nil, List.count_nil] at hqueue ⊢
  omega

theorem places_deliverQueue (ac : AcId) : (s.deliverQueue ac).places i = s.places i := by
  have hqueue := queued_update s.uapsdQueue ac [] i
  have hsent := queued_update s.txSwQueue ac (s.txSwQueue ac ++ s.uapsdQueue ac) i
  rw [List.map_append, List.count_append] at hsent
  simp only [places, deliverQueue, List.map_nil, List.count_nil] at hqueue ⊢
  omega

/-- `t` has the packets of `s`, each in as many places. -/
structure Conserves (s t : Station) : Prop where
  places : ∀ i, t.places i = s.places i
  next : t.ledger.next = s.ledger.next

variable {s} {t u : Station}

namespace Conserves

theorem refl (s : Station) : Conserves s s := ⟨fun _ => rfl, rfl⟩

theorem trans (h : Conserves s t) (h' : Conserves t u) : Conserves s u :=
  ⟨fun i => (h'.places i).trans (h.places i), h'.next.trans h.next⟩

theorem owned (h : Conserves s t) (hs : s.Owned) : t.Owned := by
  intro i
  rw [h.places, h.next]
  exact hs i

/-- The flags and counters do not matter. -/
theorem congr (hledger : t.ledger = s.ledger) (hqueue : t.uapsdQueue = s.uapsdQueue)
    (heosp : t.eospFrame = s.eospFrame) (hsent : t.txSwQueue = s.txSwQueue) : Conserves s t := by
  refine ⟨fun i => ?_, by rw [hledger]⟩
  simp only [Station.places, hledger, hqueue, heosp, hsent]

theorem foldl {f : Station → AcId → Station} (hf : ∀ s ac, Conserves s (f s ac)) (acs : List AcId)
    (s : Station) : Conserves s (acs.foldl f s) := by
  induction acs generalizing s with
  | nil => exact refl s
  | cons ac acs ih => exact (hf s ac).trans (ih _)

end Conserves

theorem conserves_sendEospFrame (s : Station) : Conserves s s.sendEospFrame := by
  refine ⟨places_sendEospFrame s, ?_⟩
  unfold sendEospFrame
  split <;> rfl

theorem conserves_releaseEospFrame (s : Station) : Conserves s s.releaseEospFrame := by
  refine ⟨places_releaseEospFrame s, ?_⟩
  unfold releaseEospFrame
  split <;> rfl

theorem conserves_rtmpCleanupPsQueue (s : Station) (ac : AcId) :
    Conserves s (s.rtmpCleanupPsQueue ac) :=
  ⟨fun i => places_rtmpCleanupPsQueue s i ac, (released_foldl 0 (s.uapsdQueue ac) s.ledger).2⟩

theorem conserves_deliverQueue (s : Station) (ac : AcId) : Conserves s (s.deliverQueue ac) :=
  ⟨fun i => places_deliverQueue s i ac, rfl⟩

theorem conserves_setTxNum (s : Station) (n : ℕ) : Conserves s (s.setTxNum n) :=
  .congr rfl rfl rfl rfl

/-- The flags of an end of a period. -/
theorem conserves_end (s : Station) : Conserves s (s.setEospOk false).spEnd :=
  .congr rfl rfl rfl rfl

theorem conserves_setIdleCount (s : Station) (n : ℕ) : Conserves s (s.setIdleCount n) :=
  .congr rfl rfl rfl rfl

theorem conserves_spClose (s : Station) : Conserves s s.spClose := by
  unfold spClose
  split
  · exact ((conserves_releaseEospFrame s).trans (conserves_setTxNum _ 0)).trans (conserves_end _)
  · exact .refl s

theorem conserves_allPacketDeliver (s : Station) : Conserves s s.allPacketDeliver := by
  refine .trans ?_ (.foldl conserves_deliverQueue _ _)
  split
  · exact (conserves_sendEospFrame s).trans (conserves_setTxNum _ 0)
  · exact .refl s

theorem conserves_eospDone (s : Station) (rxDone : Bool) : Conserves s (s.eospDone rxDone) := by
  unfold eospDone
  split <;> exact .congr rfl rfl rfl rfl

theorem conserves_txDone (s : Station) (rxDone : Bool) : Conserves s (s.txDone rxDone) := by
  unfold txDone
  split
  · refine .trans ?_ (conserves_setTxNum _ _)
    split
    · exact conserves_sendEospFrame s
    · exact .refl s
  · split
    · exact conserves_eospDone s rxDone
    · exact .refl s

theorem conserves_qosNullTxMgmtTxDoneHandle (s : Station) (pPacket : Option Packet)
    (pDstMac : Option Header) (rxDone : Bool) :
    Conserves s (s.qosNullTxMgmtTxDoneHandle pPacket pDstMac rxDone) := by
  unfold qosNullTxMgmtTxDoneHandle
  split
  · split_ifs
    · exact .refl s
    · refine .trans ?_ (conserves_eospDone _ rxDone)
      exact (conserves_releaseEospFrame s).trans (conserves_setTxNum _ 0)
    · exact .refl s
    · exact conserves_txDone s rxDone
    · exact .refl s
    · exact .refl s
  · exact .refl s

theorem conserves_spPacketCheck (s : Station) (pPacket : Option Packet) (pDstMac : Option Header)
    (data : Header) (rxDone : Bool) :
    Conserves s (s.spPacketCheck pPacket pDstMac data rxDone) := by
  cases pPacket with
  | none => exact .refl s
  | some p =>
    simp only [spPacketCheck]
    split
    · exact .refl s
    · split
      · exact .refl s
      · split_ifs
        · exact conserves_qosNullTxMgmtTxDoneHandle s _ _ rxDone
        · exact conserves_txDone s rxDone
        · exact .refl s

/-- The waiting frame is given back and the period ends. -/
theorem conserves_abort (s : Station) :
    Conserves s (((s.setTxNum 0).releaseEospFrame.setEospOk false).spEnd) :=
  ((conserves_setTxNum s 0).trans (conserves_releaseEospFrame _)).trans (conserves_end _)

theorem conserves_queueMaintenance (s : Station) (flg : Bool) (msduLifeTime : ℕ) :
    Conserves s (s.queueMaintenance flg msduLifeTime) := by
  have hidle := conserves_setIdleCount s ((s.uapsdQIdleCount + 1) % 65536)
  simp only [queueMaintenance]
  split_ifs
  · exact .refl s
  · exact .refl s
  · refine hidle.trans (.trans ?_ (conserves_setIdleCount _ 0))
    exact (Conserves.foldl conserves_rtmpCleanupPsQueue _ _).trans (conserves_abort _)
  · exact hidle.trans ((conserves_abort _).trans (conserves_setIdleCount _ 0))
  · exact hidle
  · exact conserves_setIdleCount s 0

theorem conserves_spCloseInRvDone (s : Station) (psm : Bool) :
    Conserves s (s.spCloseInRvDone psm) := by
  unfold spCloseInRvDone
  split
  · exact conserves_end s
  · exact .refl s

theorem conserves_entryReset (s : Station) : Conserves s s.entryReset :=
  (Conserves.foldl conserves_rtmpCleanupPsQueue _ s).trans (conserves_abort _)

/-- A packet that a handler has taken and not yet handed on. -/
def taken (quedPkt : Option (Packet × AcId)) (i : ℕ) : ℕ :=
  (quedPkt.toList.map fun x => x.1.id).count i

theorem places_psPollLoop (acs : List AcId) (s : Station) (quedPkt : Option (Packet × AcId)) :
    (∀ i, (s.psPollLoop acs quedPkt).1.places i + taken (s.psPollLoop acs quedPkt).2.1 i =
      s.places i + taken quedPkt i) ∧
    (s.psPollLoop acs quedPkt).1.ledger.next = s.ledger.next := by
  have htaken {s : Station} {ac : AcId} {p : Packet} {rest : List Packet}
      (hqueue : s.uapsdQueue ac = p :: rest) (i : ℕ) :
      (s.setQueue ac rest).places i + [p.id].count i = s.places i := by
    have h := places_setQueue s i ac rest
    rw [hqueue, List.map_cons, List.count_cons] at h
    rw [List.count_singleton]
    omega
  induction acs generalizing s quedPkt with
  | nil => exact ⟨fun _ => rfl, rfl⟩
  | cons ac acs ih =>
    cases hqueue : s.uapsdQueue ac with
    | nil =>
      simp only [psPollLoop, hqueue]
      exact ih s quedPkt
    | cons p rest =>
      cases quedPkt with
      | some q =>
        simp [psPollLoop, hqueue]
      | none =>
        simp only [psPollLoop, hqueue]
        split
        · obtain ⟨hplaces, hnext⟩ := ih (s.setQueue ac rest)
            (some ((p.setMoreData true).setUapsd true ac.qid, ac))
          refine ⟨fun i => ?_, hnext⟩
          rw [hplaces]
          exact htaken hqueue i
        · exact ⟨fun i => htaken hqueue i, rfl⟩

theorem conserves_psPollHandle (s : Station) : Conserves s s.psPollHandle := by
  obtain ⟨hplaces, hnext⟩ := places_psPollLoop acPriority s none
  unfold psPollHandle
  split_ifs
  · exact .refl s
  · exact .refl s
  · generalize s.psPollLoop acPriority none = r at hplaces hnext
    obtain ⟨t, quedPkt, flgQueEmpty⟩ := r
    cases quedPkt with
    | none => exact ⟨hplaces, hnext⟩
    | some q =>
      obtain ⟨p, ac⟩ := q
      refine Conserves.trans (t := t.insertQueueAc ac
        (if flgQueEmpty = true then p.setMoreData false else p)) ⟨fun i => ?_, hnext⟩
        (conserves_setIdleCount _ 0)
      have hsent := places_insertQueueAc t i ac
        (if flgQueEmpty = true then p.setMoreData false else p)
      have hid : (if flgQueEmpty = true then p.setMoreData false else p).id = p.id := by
        split <;> rfl
      rw [hid] at hsent
      exact hsent.trans (hplaces i)

end Station

namespace Service
open Station

/-- Where packet `i` is while a period is put together. -/
def places (v : Service) (i : ℕ) : ℕ := v.station.places i + taken v.quedPkt i

theorem places_take {v : Service} {ac : AcId} {p : Packet} {rest : List Packet}
    (hqueue : v.station.uapsdQueue ac = p :: rest) (i : ℕ) :
    (v.take ac p rest).places i = v.places i := by
  cases hqued : v.quedPkt with
  | none =>
    have h := places_setQueue v.station i ac rest
    rw [hqueue, List.map_cons, List.count_cons] at h
    simp only [places, take, hqued, taken, Option.toList_some, Option.toList_none, List.map_cons,
      List.map_nil, List.count_cons, List.count_nil, Packet.setUapsd, Packet.setMoreData]
    omega
  | some q =>
    obtain ⟨last, lastAc⟩ := q
    have hsent := places_insertQueueAc v.station i lastAc last
    have h := places_setQueue (v.station.insertQueueAc lastAc last) i ac rest
    have hkept : (v.station.insertQueueAc lastAc last).uapsdQueue ac = p :: rest := hqueue
    rw [hkept, List.map_cons, List.count_cons] at h
    simp only [places, take, hqued, taken, Option.toList_some, List.map_cons, List.map_nil,
      List.count_cons, List.count_nil, Packet.setUapsd, Packet.setMoreData] at hsent ⊢
    omega

/-- A period is put together by moving packets from the queues. -/
structure Assembles (s : Station) (v : Service) : Prop where
  places : ∀ i, v.places i = s.places i
  station : ∃ queue sent, v.station = { s with uapsdQueue := queue, txSwQueue := sent }

theorem assembles_take {s : Station} {v : Service} {ac : AcId} {p : Packet} {rest : List Packet}
    (h : Assembles s v) (hqueue : v.station.uapsdQueue ac = p :: rest) :
    Assembles s (v.take ac p rest) := by
  refine ⟨fun i => (places_take hqueue i).trans (h.places i), ?_⟩
  obtain ⟨queue, sent, hstation⟩ := h.station
  unfold take
  split
  · exact ⟨_, _, by rw [hstation]; rfl⟩
  · exact ⟨_, _, by rw [hstation]; rfl⟩

end Service

namespace Station

theorem assembles_service (s : Station) : Service.Assembles s s.service.1 := by
  apply Service.serve_induction (P := Service.Assembles s)
  · intro v ac p rest hqueue _ _ h
    exact Service.assembles_take h hqueue
  · exact ⟨fun _ => rfl, s.uapsdQueue, s.txSwQueue, rfl⟩

/-- A period begins with no frame waiting. -/
theorem conserves_spStart {s : Station} {v : Service} (flgQueEmpty : Bool)
    (hs : s.eospFrame = none) (hv : Service.Assembles s v) :
    Conserves s (spStart v flgQueEmpty) := by
  have hplaces := hv.places
  obtain ⟨queue, sent, hstation⟩ := hv.station
  have hwait : v.station.eospFrame = none := by rw [hstation]; exact hs
  have hnext : v.station.ledger.next = s.ledger.next := by rw [hstation]
  cases hqued : v.quedPkt with
  | none =>
    simp only [Service.places, hqued] at hplaces
    refine .trans (t := v.station) ⟨hplaces, hnext⟩ ?_
    simp only [spStart, hqued]
    exact .congr rfl rfl hwait.symm rfl
  | some q =>
    obtain ⟨p, ac⟩ := q
    have hid : ((if flgQueEmpty = true then p.setMoreData false else p).setEosp).id = p.id := by
      split <;> rfl
    simp only [spStart, hqued]
    generalize (if flgQueEmpty = true then p.setMoreData false else p).setEosp = q at hid
    refine ⟨fun i => ?_, ?_⟩
    · have h := hplaces i
      have hsent := places_insertQueueAc v.station i ac q
      rw [hid] at hsent
      simp only [Service.places, hqued, taken, Option.toList_some, List.map_cons, List.map_nil] at h
      split
      · rw [← h, ← hsent]
        simp only [places, hwait, beginSp, insertQueueAc]
      · rw [← h]
        simp only [places, hwait, beginSp, Option.toList_some, Option.toList_none, List.map_cons,
          List.map_nil, hid, List.count_nil]
        omega
    · split <;> exact hnext

theorem conserves_triggerFrameHandle {s : Station}
    (hs : s.flagSpStart = false → s.eospFrame = none) (up : ℕ) :
    Conserves s (s.triggerFrameHandle up) := by
  have hcheck : Conserves s s.triggerCheck := .congr rfl rfl rfl rfl
  simp only [triggerFrameHandle]
  generalize mapUserPriorityToAccessCategory _ = ac
  split_ifs with hclosed
  · exact .refl s
  · exact hcheck
  · have hwait : s.triggerCheck.eospFrame = none := hs (Bool.eq_false_iff.mpr hclosed)
    exact hcheck.trans (conserves_spStart _ hwait (assembles_service s.triggerCheck))

end Station

end Rt5572.Uapsd
