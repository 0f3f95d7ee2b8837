import StandaloneDrivers.Rt5572.UapsdCountdown

/-! What an event can do to the frames of a service period: nothing, end it, queue a packet, count
down a transmitted frame, or deliver everything. -/
namespace Rt5572.Uapsd
open Foundations

/-- The packet that a completion counts as transmitted, unless no frame is outstanding. -/
def Event.frameDone : Event → Option ℕ
  | .spPacketCheck (some p) pDstMac data _ =>
    match if p.mgmtPkt then some data else pDstMac with
    | some h => if p.uapsdFlag && h.isEntry && !h.isQosNull then some p.id else none
    | none => none
  | .qosNullTxMgmtTxDoneHandle (some p) (some h) _ =>
    if p.uapsdFlag && h.isEntry && !h.isQosNull && h.isAction then some p.id else none
  | _ => none

namespace Station

/-- The settings of the association, and no new period. -/
structure Keeps (s t : Station) : Prop where
  enabled : t.apsdDeliverEnabledPerAc = s.apsdDeliverEnabledPerAc
  allAc : t.apsdAllAc = s.apsdAllAc
  flag : t.flagSpStart = true → s.flagSpStart = true

/-- The event that leads from `s` to `t` leaves the packets where they are. -/
structure Still (s t : Station) : Prop extends Keeps s t where
  sent : t.txSwQueue = s.txSwQueue
  eospFrame : t.eospFrame = s.eospFrame
  txNum : t.uapsdTxNum = s.uapsdTxNum
  queue : t.uapsdQueue = s.uapsdQueue

/-- Nothing is sent and no frame waits any more. -/
structure Aborted (s t : Station) : Prop extends Keeps s t where
  sent : t.txSwQueue = s.txSwQueue
  eospFrame : t.eospFrame = none
  queue : ∀ ac, t.uapsdQueue ac ⊆ s.uapsdQueue ac

/-- A packet is queued. -/
structure Enqueued (s t : Station) (p : Packet) (ac : AcId) : Prop extends Keeps s t where
  room : (s.uapsdQueue ac).length < maxPacketsInUapsdQueue
  sent : t.txSwQueue = s.txSwQueue
  eospFrame : t.eospFrame = s.eospFrame
  txNum : t.uapsdTxNum = s.uapsdTxNum
  queue : t.uapsdQueue = Function.update s.uapsdQueue ac (s.uapsdQueue ac ++ [p])

/-- A frame is counted down. -/
def countDown (s : Station) : Station :=
  (if s.uapsdTxNum = 1 then s.sendEospFrame else s).setTxNum (s.uapsdTxNum - 1)

/-- What an event can do, but for the start of a period and the answer to a PS-Poll frame. -/
inductive Effect (s : Station) (e : Event) : Station → Prop
  | still {t : Station} (h : Still s t) : Effect s e t
  | aborted {t : Station} (h : Aborted s t) : Effect s e t
  | enqueued {t : Station} (p : Packet) (ac : AcId) (he : e = .packetEnqueue p ac)
      (h : Enqueued s t { p with id := s.ledger.next } ac) : Effect s e t
  | counted (i : ℕ) (he : e.frameDone = some i) (hnum : 0 < s.uapsdTxNum) :
      Effect s e s.countDown
  | delivered (he : e = .allPacketDeliver) : Effect s e s.allPacketDeliver

namespace Still
variable {s : Station}

theorem refl (s : Station) : Still s s := ⟨⟨rfl, rfl, id⟩, rfl, rfl, rfl, rfl⟩

theorem eospDone (s : Station) (rxDone : Bool) : Still s (s.eospDone rxDone) := by
  unfold Station.eospDone
  split
  · exact ⟨⟨rfl, rfl, nofun⟩, rfl, rfl, rfl, rfl⟩
  · exact ⟨⟨rfl, rfl, id⟩, rfl, rfl, rfl, rfl⟩

end Still

/-- The waiting frame is given back and the period ends. -/
theorem aborted_abort (s : Station) :
    Aborted s (((s.setTxNum 0).releaseEospFrame.setEospOk false).spEnd) := by
  rw [releaseEospFrame_eq]
  exact ⟨⟨rfl, rfl, nofun⟩, rfl, rfl, fun _ => List.Subset.refl _⟩

theorem aborted_cleanup (s : Station) :
    Aborted s ((((AcId.all.foldl rtmpCleanupPsQueue s).setTxNum 0).releaseEospFrame.setEospOk
      false).spEnd) := by
  obtain ⟨ledger, heq⟩ := cleanup_eq s
  rw [heq, releaseEospFrame_eq]
  exact ⟨⟨rfl, rfl, nofun⟩, rfl, rfl, fun _ => List.nil_subset _⟩

/-- A transmitted frame is counted while frames are outstanding. -/
theorem txDone_effect {s : Station} {e : Event} {i : ℕ} (he : e.frameDone = some i)
    (rxDone : Bool) : Effect s e (s.txDone rxDone) := by
  unfold txDone
  split
  · rename_i hnum
    exact .counted i he hnum
  · split
    · exact .still (.eospDone s rxDone)
    · exact .still (.refl s)

theorem qosNullTxMgmtTxDoneHandle_effect {s : Station} {e : Event} {p : Packet} {h : Header}
    (he : p.uapsdFlag = true → h.isEntry = true → h.isQosNull = false → h.isAction = true →
      e.frameDone = some p.id) (rxDone : Bool) :
    Effect s e (s.qosNullTxMgmtTxDoneHandle (some p) (some h) rxDone) := by
  simp only [qosNullTxMgmtTxDoneHandle]
  split_ifs with hflag hnull hentry haction hentry
  · exact .still (.refl s)
  · have hdone := Still.eospDone (s.releaseEospFrame.setTxNum 0) rxDone
    rw [releaseEospFrame_eq] at hdone ⊢
    refine .aborted ⟨⟨hdone.enabled, hdone.allAc, hdone.flag⟩, hdone.sent, hdone.eospFrame, ?_⟩
    intro ac
    rw [hdone.queue]
    exact List.Subset.refl _
  · exact .still (.refl s)
  · simp only [Bool.and_eq_true] at hentry
    exact txDone_effect (he (by simpa using hflag) hentry.1.1 (by simpa using hnull) haction) rxDone
  · exact .still (.refl s)
  · exact .still (.refl s)

theorem spPacketCheck_effect (s : Station) (pPacket : Option Packet) (pDstMac : Option Header)
    (data : Header) (rxDone : Bool) :
    Effect s (.spPacketCheck pPacket pDstMac data rxDone)
      (s.spPacketCheck pPacket pDstMac data rxDone) := by
  cases pPacket with
  | none => exact .still (.refl s)
  | some p =>
    simp only [spPacketCheck]
    split
    · exact .still (.refl s)
    · rename_i hflag
      split
      · exact .still (.refl s)
      · rename_i h heq
        have hdone (hentry : h.isEntry = true) (hnull : h.isQosNull = false) :
            (Event.spPacketCheck (some p) pDstMac data rxDone).frameDone = some p.id := by
          have hflag' : p.uapsdFlag = true := by simpa using hflag
          simp only [Event.frameDone, heq, hflag', hentry, hnull, Bool.not_false, Bool.and_self,
            if_true]
        split_ifs with hkind hentry
        · exact qosNullTxMgmtTxDoneHandle_effect (fun _ hentry hnull _ => hdone hentry hnull) rxDone
        · simp only [Bool.or_eq_true, not_or] at hkind
          simp only [Bool.and_eq_true] at hentry
          exact txDone_effect (hdone hentry.1 (by simpa using hkind.1)) rxDone
        · exact .still (.refl s)

theorem queueMaintenance_effect (s : Station) {e : Event} (flg : Bool) (msduLifeTime : ℕ) :
    Effect s e (s.queueMaintenance flg msduLifeTime) := by
  simp only [queueMaintenance]
  split_ifs
  · exact .still (.refl s)
  · exact .still (.refl s)
  · obtain ⟨hkeeps, hsent, heosp, hqueue⟩ :=
      aborted_cleanup (s.setIdleCount ((s.uapsdQIdleCount + 1) % 65536))
    exact .aborted ⟨⟨hkeeps.enabled, hkeeps.allAc, hkeeps.flag⟩, hsent, heosp, hqueue⟩
  · obtain ⟨hkeeps, hsent, heosp, hqueue⟩ :=
      aborted_abort (s.setIdleCount ((s.uapsdQIdleCount + 1) % 65536))
    exact .aborted ⟨⟨hkeeps.enabled, hkeeps.allAc, hkeeps.flag⟩, hsent, heosp, hqueue⟩
  · exact .still ⟨⟨rfl, rfl, id⟩, rfl, rfl, rfl, rfl⟩
  · exact .still ⟨⟨rfl, rfl, id⟩, rfl, rfl, rfl, rfl⟩

theorem packetEnqueue_effect (s : Station) (p : Packet) (ac : AcId) :
    Effect s (.packetEnqueue p ac) (step s (.packetEnqueue p ac)) := by
  simp only [step, packetEnqueue]
  split
  · exact .still ⟨⟨rfl, rfl, id⟩, rfl, rfl, rfl, rfl⟩
  · rename_i hroom
    exact .enqueued p ac rfl ⟨⟨rfl, rfl, id⟩, Nat.lt_of_not_ge hroom, rfl, rfl, rfl, rfl⟩

/-- The effects of an event while a period is under way. -/
theorem step_effect {s : Station} (e : Event)
    (hstart : ∀ up, e = .triggerFrameHandle up → s.flagSpStart = true ∨
      s.apsdCapablePerAc (mapUserPriorityToAccessCategory (if up ≥ 8 then 1 else up)) = false)
    (hpoll : e = .psPollHandle → s.flagSpStart = true ∨ s.apsdAllAc = false) :
    Effect s e (step s e) := by
  cases e with
  | packetEnqueue p ac => exact packetEnqueue_effect s p ac
  | triggerFrameHandle up =>
    simp only [step, triggerFrameHandle]
    rcases hstart up rfl with hopen | hcapable
    · rw [if_pos hopen]
      exact .still (.refl s)
    · have hcheck : s.triggerCheck.apsdCapablePerAc
          (mapUserPriorityToAccessCategory (if up ≥ 8 then 1 else up)) = false := hcapable
      rw [hcheck]
      split
      · exact .still (.refl s)
      · exact .still ⟨⟨rfl, rfl, id⟩, rfl, rfl, rfl, rfl⟩
  | psPollHandle =>
    simp only [step, psPollHandle]
    rcases hpoll rfl with hopen | hall
    · rw [if_pos hopen]
      split <;> exact .still (.refl s)
    · rw [hall]
      exact .still (.refl s)
  | spPacketCheck pPacket pDstMac data rxDone =>
    exact spPacketCheck_effect s pPacket pDstMac data rxDone
  | qosNullTxMgmtTxDoneHandle pPacket pDstMac rxDone =>
    cases pPacket with
    | none => exact .still (.refl s)
    | some p =>
      cases pDstMac with
      | none => exact .still (.refl s)
      | some h =>
        apply qosNullTxMgmtTxDoneHandle_effect
        intro hflag hentry hnull haction
        simp only [Event.frameDone, hflag, hentry, hnull, haction, Bool.not_false, Bool.and_self,
          if_true]
  | spClose =>
    simp only [step, spClose]
    split
    · rw [releaseEospFrame_eq]
      exact .aborted ⟨⟨rfl, rfl, (by rintro ⟨⟩)⟩, rfl, rfl, fun _ => List.Subset.refl _⟩
    · exact .still (.refl s)
  | queueMaintenance flg msduLifeTime => exact queueMaintenance_effect s flg msduLifeTime
  | allPacketDeliver => exact .delivered rfl
  | spCloseInRvDone psm =>
    simp only [step, spCloseInRvDone]
    split
    · exact .still ⟨⟨rfl, rfl, (by rintro ⟨⟩)⟩, rfl, rfl, rfl, rfl⟩
    · exact .still (.refl s)
  | entryReset => exact .aborted (aborted_cleanup s)
  | powerMode pwrSave => exact .still ⟨⟨rfl, rfl, id⟩, rfl, rfl, rfl, rfl⟩

end Station

end Rt5572.Uapsd
