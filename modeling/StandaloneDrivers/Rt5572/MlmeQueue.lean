import StandaloneDrivers.Foundations.Bytes
import StandaloneDrivers.Foundations.Ring
import StandaloneDrivers.Foundations.Run

/-! The queue of messages for the MLME state machines (common/mlme.c). The test for a full queue and
the insertion take the lock one after another, so that other calls may come between them. -/
namespace Rt5572
open Foundations

/-- `MAX_LEN_OF_MLME_QUEUE` of a driver with station support. -/
abbrev maxLenOfMlmeQueue : ℕ := 40

/-- `MGMT_DMA_BUFFER_SIZE` -/
abbrev mgmtDmaBufferSize : ℕ := 1600

/-- `RESERVED_WCID` -/
def reservedWcid : UInt8 := 0xff

/-- `MLME_QUEUE_ELEM` -/
structure MlmeQueueElem where
  msg : List UInt8
  machine : ℕ
  msgType : ℕ
  msgLen : ℕ
  timeStamp : ℕ × ℕ
  rssi : UInt8 × UInt8 × UInt8
  signal : UInt8
  channel : UInt8
  wcid : UInt8
  occupied : Bool
  opMode : UInt8
  priv : ℕ
  size : msg.length = mgmtDmaBufferSize

/-- What is known of a frame that was received. -/
structure RxInfo where
  wcid : ℕ
  timeStamp : ℕ × ℕ
  rssi : UInt8 × UInt8 × UInt8
  signal : UInt8
  opMode : UInt8

/-- A message that has passed the tests of an enqueue function, and what is known of its frame. -/
structure MlmeMsg where
  machine : ℕ
  msgType : ℕ
  msgLen : ℕ
  msg : Option (List UInt8)
  priv : ℕ
  rx : Option RxInfo
  fits : msgLen ≤ mgmtDmaBufferSize

/-- The bytes that are copied. -/
def MlmeMsg.bytes (m : MlmeMsg) : List UInt8 := (m.msg.getD []).take m.msgLen

namespace MlmeQueueElem

/-- The fields that the enqueue functions write; those of a received frame stay as they are when
the message is no frame. -/
def fill (e : MlmeQueueElem) (channel : UInt8) (m : MlmeMsg) : MlmeQueueElem :=
  let e := { e with
    occupied := true
    machine := m.machine
    msgType := m.msgType
    msgLen := m.msgLen
    priv := m.priv
    msg := overwrite e.msg 0 m.bytes
    size := by rw [overwrite_length, e.size] }
  match m.rx with
  | none => { e with wcid := reservedWcid }
  | some rx => { e with
      timeStamp := rx.timeStamp
      rssi := rx.rssi
      signal := rx.signal
      wcid := UInt8.ofNat rx.wcid
      opMode := rx.opMode
      channel := channel }

/-- The element when its message has been handled. -/
def clear (e : MlmeQueueElem) : MlmeQueueElem := { e with occupied := false, msgLen := 0 }

end MlmeQueueElem

/-- `MLME_QUEUE` -/
structure MlmeQueue where
  num : ℕ
  head : Fin maxLenOfMlmeQueue
  tail : Fin maxLenOfMlmeQueue
  entry : Vector MlmeQueueElem maxLenOfMlmeQueue

namespace MlmeQueue
variable (q : MlmeQueue)

/-- `MlmeQueueInit`; the other fields are those of zeroed memory. -/
def mlmeQueueInit : MlmeQueue where
  num := 0
  head := 0
  tail := 0
  entry := Vector.replicate maxLenOfMlmeQueue {
    msg := List.replicate mgmtDmaBufferSize 0
    machine := 0
    msgType := 0
    msgLen := 0
    timeStamp := (0, 0)
    rssi := (0, 0, 0)
    signal := 0
    channel := 0
    wcid := 0
    occupied := false
    opMode := 0
    priv := 0
    size := List.length_replicate }

/-- Only half of the queue is for frames of other stations, and only they look at the element. -/
def mlmeQueueFull (sendId : ℕ) : Bool :=
  if sendId = 0 then decide (maxLenOfMlmeQueue / 2 ≤ q.num) || (q.entry.get q.tail).occupied
  else decide (q.num = maxLenOfMlmeQueue)

/-- The part of the enqueue functions under the lock. -/
def put (channel : UInt8) (m : MlmeMsg) : MlmeQueue where
  num := q.num + 1
  head := q.head
  tail := q.tail + 1
  entry := q.entry.set q.tail ((q.entry.get q.tail).fill channel m)

/-- `MlmeDequeue`; the element is `q.head`. -/
def mlmeDequeue : MlmeQueue := { q with num := q.num - 1, head := q.head + 1 }

/-- `Elem->Occupied = FALSE` and `Elem->MsgLen = 0`. -/
def clear (elem : Fin maxLenOfMlmeQueue) : MlmeQueue :=
  { q with entry := q.entry.set elem (q.entry.get elem).clear }

end MlmeQueue

/-- The queue with the state of the driver that its functions read, the calls that are between test
and insertion, the element that `MlmeHandler` works on, and what has been put in and taken out. The
message types of frames are found by functions of their own. -/
structure Mlme where
  queue : MlmeQueue
  haltInProgress : Bool
  nicNotExist : Bool
  mlmeResetInProgress : Bool
  channel : UInt8
  msgTypeSubst : List UInt8 → Option (ℕ × ℕ)
  calls : List MlmeMsg
  elem : Option (Fin maxLenOfMlmeQueue)
  accepted : List MlmeMsg
  handled : List MlmeQueueElem

/-- What happens: a call passes the tests of an enqueue function or not, a call that passed them
takes the lock, `MlmeHandler` takes an element or has handled it, and the driver changes. -/
inductive MlmeEvent where
  | mlmeEnqueue (machine msgType msgLen : ℕ) (msg : Option (List UInt8)) (priv : ℕ)
  | mlmeEnqueueForRecv (rx : RxInfo) (msgLen : ℕ) (msg : List UInt8)
  | put (call : ℕ)
  | dequeue
  | finish
  | config (haltInProgress nicNotExist mlmeResetInProgress : Bool) (channel : UInt8)
      (msgTypeSubst : List UInt8 → Option (ℕ × ℕ))

namespace Mlme
variable (d : Mlme)

/-- The tests of `MlmeEnqueue`. -/
def mlmeEnqueue (machine msgType msgLen : ℕ) (msg : Option (List UInt8)) (priv : ℕ) :
    Option MlmeMsg :=
  if d.haltInProgress || d.nicNotExist then none
  else if h : msgLen > mgmtDmaBufferSize then none
  else if d.queue.mlmeQueueFull 1 then none
  else some ⟨machine, msgType, msgLen, msg, priv, none, Nat.le_of_not_lt h⟩

/-- The tests of `MlmeEnqueueForRecv`. -/
def mlmeEnqueueForRecv (rx : RxInfo) (msgLen : ℕ) (msg : List UInt8) : Option MlmeMsg :=
  if d.haltInProgress || d.nicNotExist then none
  else if h : msgLen > mgmtDmaBufferSize then none
  else if d.queue.mlmeQueueFull 0 then none
  else (d.msgTypeSubst msg).map fun subst =>
    ⟨subst.1, subst.2, msgLen, some msg, 0, some rx, Nat.le_of_not_lt h⟩

/-- A call that passed the tests of its function takes the lock, and returns `TRUE`. -/
def put (call : ℕ) : Mlme :=
  match d.calls[call]? with
  | none => d
  | some m => { d with
      queue := d.queue.put d.channel m
      calls := d.calls.eraseIdx call
      accepted := d.accepted ++ [m] }

/-- The loop of `MlmeHandler` up to the call of a state machine. -/
def dequeue : Mlme :=
  if d.elem.isSome || d.queue.num = 0 || d.mlmeResetInProgress || d.haltInProgress ||
      d.nicNotExist then d
  else { d with
    queue := d.queue.mlmeDequeue
    elem := some d.queue.head
    handled := d.handled ++ [d.queue.entry.get d.queue.head] }

/-- The end of the loop of `MlmeHandler`. -/
def finish : Mlme :=
  match d.elem with
  | none => d
  | some elem => { d with queue := d.queue.clear elem, elem := none }

def step (d : Mlme) : MlmeEvent → Mlme
  | .mlmeEnqueue machine msgType msgLen msg priv =>
      { d with calls := d.calls ++ (d.mlmeEnqueue machine msgType msgLen msg priv).toList }
  | .mlmeEnqueueForRecv rx msgLen msg =>
      { d with calls := d.calls ++ (d.mlmeEnqueueForRecv rx msgLen msg).toList }
  | .put call => d.put call
  | .dequeue => d.dequeue
  | .finish => d.finish
  | .config haltInProgress nicNotExist mlmeResetInProgress channel msgTypeSubst =>
      { d with
        haltInProgress := haltInProgress
        nicNotExist := nicNotExist
        mlmeResetInProgress := mlmeResetInProgress
        channel := channel
        msgTypeSubst := msgTypeSubst }

/-- A driver whose queue has just been initialised. -/
def start (channel : UInt8) (msgTypeSubst : List UInt8 → Option (ℕ × ℕ)) : Mlme where
  queue := MlmeQueue.mlmeQueueInit
  haltInProgress := false
  nicNotExist := false
  mlmeResetInProgress := false
  channel := channel
  msgTypeSubst := msgTypeSubst
  calls := []
  elem := none
  accepted := []
  handled := []

end Mlme

end Rt5572
