import Mathlib.Logic.Function.Basic
import StandaloneDrivers.Foundations.Ledger
import StandaloneDrivers.Foundations.Run

/-! U-APSD: the packets that are queued for a sleeping station, and the service periods in which the
station fetches them (common/uapsd.c). -/
namespace Rt5572.Uapsd
open Foundations

/-- The access categories; `QueIdList` maps each to the software queue of the same number. -/
inductive AcId
  | be
  | bk
  | vi
  | vo
  deriving DecidableEq, Repr

namespace AcId

def all : List AcId := [.be, .bk, .vi, .vo]

def qid : AcId → ℕ
  | be => 0
  | bk => 1
  | vi => 2
  | vo => 3

/-- Ids behind `QID_AC_VO` fall back to `QID_AC_BE`. -/
def ofQueId : ℕ → AcId
  | 1 => bk
  | 2 => vi
  | 3 => vo
  | _ => be

end AcId

/-- AC priority = VO > VI > BE > BK. -/
def acPriority : List AcId := [.vo, .vi, .be, .bk]

def mapUserPriorityToAccessCategory : ℕ → AcId
  | 1 => .bk
  | 2 => .bk
  | 4 => .vi
  | 5 => .vi
  | 6 => .vo
  | 7 => .vo
  | _ => .be

/-- 0: deliver all U-APSD packets. -/
def spLenMap : ℕ → ℕ
  | 1 => 2
  | 2 => 4
  | 3 => 6
  | _ => 0

def maxPacketsInUapsdQueue : ℕ := 16

/-- A packet, and what its control buffer says. -/
structure Packet where
  id : ℕ
  mgmtPkt : Bool
  uapsdFlag : Bool
  queId : ℕ
  moreData : Bool
  eosp : Bool
  deriving DecidableEq, Repr

namespace Packet

def setMoreData (p : Packet) (flg : Bool) : Packet := { p with moreData := flg }

def setUapsd (p : Packet) (flg : Bool) (queId : ℕ) : Packet :=
  { p with uapsdFlag := flg, queId := queId }

def setEosp (p : Packet) : Packet := { p with eosp := true }

end Packet

/-- The header of a transmitted frame; `isEntry`: its first address is that of the station. -/
structure Header where
  type : ℕ
  subType : ℕ
  isEntry : Bool
  deriving DecidableEq, Repr

namespace Header

def isQosNull (h : Header) : Bool := h.type == 2 && h.subType == 12

def isAction (h : Header) : Bool := h.type == 0 && h.subType == 13

end Header

/-- The table entry of a station, the software queues, and the null frames sent to it. -/
structure Station where
  pwrSave : Bool
  apsdCapablePerAc : AcId → Bool
  apsdDeliverEnabledPerAc : AcId → Bool
  apsdAllAc : Bool
  maxSpLength : ℕ
  uapsdQueue : AcId → List Packet
  uapsdQIdleCount : ℕ
  eospFrame : Option Packet
  uapsdTxNum : ℕ
  flagEospOk : Bool
  flagSpStart : Bool
  flagSpRoughUse : Bool
  txSwQueue : AcId → List Packet
  nullFrames : ℕ
  ledger : Ledger

namespace Station
variable (s : Station)

def insertQueueAc (ac : AcId) (p : Packet) : Station :=
  { s with txSwQueue := Function.update s.txSwQueue ac (s.txSwQueue ac ++ [p]) }

def setQueue (ac : AcId) (packets : List Packet) : Station :=
  { s with uapsdQueue := Function.update s.uapsdQueue ac packets }

def releaseNdisPacket (p : Packet) : Station := { s with ledger := s.ledger.release p.id }

def spEnd : Station := { s with flagSpStart := false }

def setEospOk (flg : Bool) : Station := { s with flagEospOk := flg }

def setTxNum (n : ℕ) : Station := { s with uapsdTxNum := n }

def setIdleCount (n : ℕ) : Station := { s with uapsdQIdleCount := n }

/-- The frame that ends the period goes to its software queue. -/
def sendEospFrame : Station :=
  match s.eospFrame with
  | none => s
  | some p => { s.insertQueueAc (.ofQueId p.queId) p with eospFrame := none }

def releaseEospFrame : Station :=
  match s.eospFrame with
  | none => s
  | some p => { s.releaseNdisPacket p with eospFrame := none }

def rtmpCleanupPsQueue (ac : AcId) : Station :=
  { s with
    uapsdQueue := Function.update s.uapsdQueue ac []
    ledger := (s.uapsdQueue ac).foldl (fun l p => l.release p.id) s.ledger }

def spClose : Station :=
  if s.pwrSave && s.flagSpStart then
    ((s.releaseEospFrame.setTxNum 0).setEospOk false).spEnd
  else s

def deliverQueue (ac : AcId) : Station :=
  { s with
    uapsdQueue := Function.update s.uapsdQueue ac []
    txSwQueue := Function.update s.txSwQueue ac (s.txSwQueue ac ++ s.uapsdQueue ac) }

def allPacketDeliver : Station :=
  let s := if s.eospFrame.isSome then s.sendEospFrame.setTxNum 0 else s
  [AcId.vo, .vi, .bk, .be].foldl deliverQueue s

def packetEnqueue (p : Packet) (ac : AcId) : Station :=
  if (s.uapsdQueue ac).length ≥ maxPacketsInUapsdQueue then s.releaseNdisPacket p
  else s.setQueue ac (s.uapsdQueue ac ++ [p])

/-- The end of a period, or a mark for the end of the receive handler when a frame was received. -/
def eospDone (rxDone : Bool) : Station :=
  if !rxDone then (s.setEospOk false).spEnd else s.setEospOk true

/-- A frame of the period was transmitted. -/
def txDone (rxDone : Bool) : Station :=
  if s.uapsdTxNum > 0 then
    (if s.uapsdTxNum = 1 then s.sendEospFrame else s).setTxNum (s.uapsdTxNum - 1)
  else if s.flagSpStart then s.eospDone rxDone
  else s

def qosNullTxMgmtTxDoneHandle (pPacket : Option Packet) (pDstMac : Option Header)
    (rxDone : Bool) : Station :=
  match pPacket, pDstMac with
  | some p, some h =>
    if !p.uapsdFlag then s
    else if h.isQosNull then
      if h.isEntry && s.flagSpRoughUse && s.flagSpStart then
        (s.releaseEospFrame.setTxNum 0).eospDone rxDone
      else s
    else if h.isAction then
      if h.isEntry && s.flagSpRoughUse && s.flagSpStart then s.txDone rxDone else s
    else s
  | _, _ => s

/-- `data` is the header in the packet itself, where a management frame has it. -/
def spPacketCheck (pPacket : Option Packet) (pDstMac : Option Header) (data : Header)
    (rxDone : Bool) : Station :=
  match pPacket with
  | none => s
  | some p =>
    if !p.uapsdFlag then s
    else
      match if p.mgmtPkt then some data else pDstMac with
      | none => s
      | some h =>
        if h.isQosNull || h.isAction then s.qosNullTxMgmtTxDoneHandle (some p) (some h) rxDone
        else if h.isEntry && s.flagSpRoughUse then s.txDone rxDone
        else s

def queueMaintenance (flgNotQueueMaintain : Bool) (msduLifeTime : ℕ) : Station :=
  if flgNotQueueMaintain then s
  else if !s.pwrSave then s
  else
    let flgUapsdPkt := AcId.all.any fun ac => !(s.uapsdQueue ac).isEmpty
    if flgUapsdPkt || s.eospFrame.isSome then
      let s := s.setIdleCount ((s.uapsdQIdleCount + 1) % 65536)
      if s.uapsdQIdleCount > msduLifeTime then
        let s := if flgUapsdPkt then AcId.all.foldl rtmpCleanupPsQueue s else s
        ((s.setTxNum 0).releaseEospFrame.setEospOk false).spEnd.setIdleCount 0
      else s
    else s.setIdleCount 0

def spCloseInRvDone (fAnyStationInPsm : Bool) : Station :=
  if fAnyStationInPsm && s.flagSpStart && s.flagEospOk then
    (s.setEospOk false).spEnd
  else s

/-- `UAPSD_MR_ENTRY_RESET`. -/
def entryReset : Station :=
  (((AcId.all.foldl rtmpCleanupPsQueue s).setTxNum 0).releaseEospFrame.setEospOk false).spEnd

/-- The loop over the categories: the first packet is taken, and the first category with another one
ends the loop. -/
def psPollLoop (s : Station) : List AcId → Option (Packet × AcId) →
    Station × Option (Packet × AcId) × Bool
  | [], quedPkt => (s, quedPkt, true)
  | ac :: acs, quedPkt =>
    match s.uapsdQueue ac, quedPkt with
    | [], quedPkt => psPollLoop s acs quedPkt
    | p :: rest, none =>
      let quedPkt := some ((p.setMoreData true).setUapsd true ac.qid, ac)
      if rest.isEmpty then psPollLoop (s.setQueue ac rest) acs quedPkt
      else (s.setQueue ac rest, quedPkt, false)
    | _ :: _, some quedPkt => (s, some quedPkt, false)

def psPollHandle : Station :=
  if !s.apsdAllAc then s
  else if s.flagSpStart then s
  else
    match s.psPollLoop acPriority none with
    | (s, none, _) => s.setIdleCount 0
    | (s, some (p, ac), flgQueEmpty) =>
      let p := if flgQueEmpty then p.setMoreData false else p
      (s.insertQueueAc ac p).setIdleCount 0

end Station

/-- The loops of the trigger handler: the last packet taken, with its queue, waits for the next. -/
structure Service where
  station : Station
  quedPkt : Option (Packet × AcId)
  txPktNum : ℕ

namespace Service

/-- The packet before goes to its software queue, and `p` is taken from the queue of `ac`. -/
def take (v : Service) (ac : AcId) (p : Packet) (rest : List Packet) : Service where
  station :=
    match v.quedPkt with
    | none => v.station.setQueue ac rest
    | some (last, lastAc) => (v.station.insertQueueAc lastAc last).setQueue ac rest
  quedPkt := some ((p.setMoreData true).setUapsd true ac.qid, ac)
  txPktNum := v.txPktNum + 1

/-- The packets of one category; false when the period is full before the queue is empty. -/
def serveQueue (spMaxLen : ℕ) (ac : AcId) : List Packet → Service → Service × Bool
  | [], v => (v, true)
  | p :: rest, v =>
    if spMaxLen ≠ 0 ∧ v.txPktNum ≥ spMaxLen then (v, false)
    else serveQueue spMaxLen ac rest (v.take ac p rest)

def serve (spMaxLen : ℕ) : List AcId → Service → Service × Bool
  | [], v => (v, true)
  | ac :: acs, v =>
    if !v.station.apsdDeliverEnabledPerAc ac then serve spMaxLen acs v
    else
      match serveQueue spMaxLen ac (v.station.uapsdQueue ac) v with
      | (v, true) => serve spMaxLen acs v
      | (v, false) => (v, false)

theorem queue_take (v : Service) (ac : AcId) (p : Packet) (rest : List Packet) :
    (v.take ac p rest).station.uapsdQueue ac = rest := by
  unfold take
  split <;> exact Function.update_self ..

section Induction
variable {P : Service → Prop} {spMaxLen : ℕ} (htake : ∀ v ac p rest,
  v.station.uapsdQueue ac = p :: rest → v.station.apsdDeliverEnabledPerAc ac = true →
    (spMaxLen ≠ 0 → v.txPktNum < spMaxLen) → P v → P (v.take ac p rest))
include htake

theorem serveQueue_induction {ac : AcId} {packets : List Packet} {v : Service}
    (hqueue : v.station.uapsdQueue ac = packets)
    (henabled : v.station.apsdDeliverEnabledPerAc ac = true) (h : P v) :
    P (serveQueue spMaxLen ac packets v).1 := by
  induction packets generalizing v with
  | nil => exact h
  | cons p rest ih =>
    rw [serveQueue]
    split
    · exact h
    · rename_i hroom
      rw [not_and, not_le] at hroom
      apply ih (queue_take v ac p rest)
      · unfold take
        split <;> exact henabled
      · exact htake v ac p rest hqueue henabled hroom h

/-- What holds before the loops and is kept when a packet is taken holds after them. -/
theorem serve_induction {acs : List AcId} {v : Service} (h : P v) :
    P (serve spMaxLen acs v).1 := by
  induction acs generalizing v with
  | nil => exact h
  | cons ac acs ih =>
    rw [serve]
    split
    · exact ih h
    · rename_i henabled
      have hqueue := serveQueue_induction htake rfl (by simpa using henabled) h
      split
      · rename_i w heq
        rw [heq] at hqueue
        exact ih hqueue
      · rename_i w heq
        rw [heq] at hqueue
        exact hqueue

end Induction

end Service

namespace Station
variable (s : Station)

/-- What the handler sets before the trigger is known to be for a trigger-enabled category. -/
def triggerCheck : Station :=
  { s with
    maxSpLength := if s.maxSpLength ≥ 4 then 0 else s.maxSpLength
    flagSpRoughUse := true }

/-- The packets that a period takes, and whether the delivery-enabled queues are empty then. -/
def service : Service × Bool :=
  Service.serve (spLenMap s.maxSpLength) acPriority ⟨s, none, 0⟩

/-- The flags of a new period. -/
def beginSp : Station :=
  { s with flagSpStart := true, flagEospOk := false, uapsdQIdleCount := 0 }

/-- A period begins; with more than one packet the last one waits for the end of the others. -/
def spStart (v : Service) (flgQueEmpty : Bool) : Station :=
  let s := v.station.beginSp
  match v.quedPkt with
  | none => { s with eospFrame := none, uapsdTxNum := 0, nullFrames := s.nullFrames + 1 }
  | some (p, ac) =>
    let p := (if flgQueEmpty then p.setMoreData false else p).setEosp
    if v.txPktNum ≤ 1 then { s.insertQueueAc ac p with eospFrame := none, uapsdTxNum := 0 }
    else { s with eospFrame := some p, uapsdTxNum := (v.txPktNum - 1) % 65536 }

def triggerFrameHandle (upOfFrame : ℕ) : Station :=
  if s.flagSpStart then s
  else
    let s := s.triggerCheck
    let upOfFrame := if upOfFrame ≥ 8 then 1 else upOfFrame
    if !s.apsdCapablePerAc (mapUserPriorityToAccessCategory upOfFrame) then s
    else spStart s.service.1 s.service.2

end Station

/-- What happens to the station; the packets handed over are numbered in their order. -/
inductive Event
  | packetEnqueue (p : Packet) (ac : AcId)
  | triggerFrameHandle (upOfFrame : ℕ)
  | psPollHandle
  | spPacketCheck (pPacket : Option Packet) (pDstMac : Option Header) (data : Header)
      (rxDone : Bool)
  | qosNullTxMgmtTxDoneHandle (pPacket : Option Packet) (pDstMac : Option Header) (rxDone : Bool)
  | spClose
  | queueMaintenance (flgNotQueueMaintain : Bool) (msduLifeTime : ℕ)
  | allPacketDeliver
  | spCloseInRvDone (fAnyStationInPsm : Bool)
  | entryReset
  | powerMode (pwrSave : Bool)
  deriving Repr

def step (s : Station) : Event → Station
  | .packetEnqueue p ac =>
    { s with ledger := s.ledger.take }.packetEnqueue { p with id := s.ledger.next } ac
  | .triggerFrameHandle up => s.triggerFrameHandle up
  | .psPollHandle => s.psPollHandle
  | .spPacketCheck pPacket pDstMac data rxDone => s.spPacketCheck pPacket pDstMac data rxDone
  | .qosNullTxMgmtTxDoneHandle pPacket pDstMac rxDone =>
    s.qosNullTxMgmtTxDoneHandle pPacket pDstMac rxDone
  | .spClose => s.spClose
  | .queueMaintenance flg msduLifeTime => s.queueMaintenance flg msduLifeTime
  | .allPacketDeliver => s.allPacketDeliver
  | .spCloseInRvDone psm => s.spCloseInRvDone psm
  | .entryReset => s.entryReset
  | .powerMode pwrSave => { s with pwrSave }

/-- What `UAPSD_MR_ENTRY_INIT` leaves of a cleared entry. -/
def entryInit (pwrSave : Bool) : Station where
  pwrSave
  apsdCapablePerAc := fun _ => false
  apsdDeliverEnabledPerAc := fun _ => false
  apsdAllAc := false
  maxSpLength := 0
  uapsdQueue := fun _ => []
  uapsdQIdleCount := 0
  eospFrame := none
  uapsdTxNum := 0
  flagEospOk := false
  flagSpStart := false
  flagSpRoughUse := false
  txSwQueue := fun _ => []
  nullFrames := 0
  ledger := Ledger.empty

/-- The settings of the association request. -/
def assocParse (s : Station) (uapsd : AcId → Bool) (maxSpLength : ℕ) : Station :=
  { s with
    apsdCapablePerAc := uapsd
    apsdDeliverEnabledPerAc := uapsd
    apsdAllAc := AcId.all.all uapsd
    maxSpLength := maxSpLength }

/-- A station that has just been associated. -/
def start (pwrSave : Bool) (uapsd : AcId → Bool) (maxSpLength : ℕ) : Station :=
  assocParse (entryInit pwrSave) uapsd maxSpLength

end Rt5572.Uapsd
