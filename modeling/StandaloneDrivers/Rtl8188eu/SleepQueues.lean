import StandaloneDrivers.Rtl8188eu.XmitQueues

/-! Frames for stations that sleep: the queues of an access point beside those of the hardware
(rtw_xmit.c, rtw_recv.c, rtw_mlme_ext.c). A call of a function is one step; what the hardware does
with a frame, and what other parts of the driver set, comes from outside. -/
namespace Rtl8188eu
open Foundations
attribute [local instance] neZero_thirtyTwo

/-- What the functions read and write of `struct sta_info`. -/
structure PsStation where
  aid : ℕ
  asleep : Bool
  qosOption : Bool
  qosInfo : UInt8
  uapsd : Ac → UInt8
  hasLegacyAc : Bool
  sleepQ : List TxFrame
  sleepqLen : ℕ
  sleepqAcLen : ℕ

namespace PsStation

/-- A station that was just set up. -/
def zero : PsStation := ⟨0, false, false, 0, fun _ => 0, false, [], 0, 0⟩

/-- Frames of a category are kept until the station asks for them. -/
def deliveryEnabled (t : PsStation) (ac : Ac) : Bool := t.uapsd ac &&& 1 != 0

/-- Frames of a category ask for the frames that are kept. -/
def triggerEnabled (t : PsStation) (ac : Ac) : Bool := t.uapsd ac &&& 2 != 0

end PsStation

/-- An `unsigned int` is counted down. -/
def countDown (n : ℕ) : ℕ := if n = 0 then 2 ^ 32 - 1 else n - 1

/-- `BIT(aid)` in a bitmap of 16 bits -/
def bit (aid : ℕ) : BitVec 16 := 1#16 <<< aid

/-- What belongs to other parts of the driver. -/
structure PsEnv where
  rtwGetStainfo : MacAddr → Option StaPtr
  apState : Bool

structure PsDriver where
  env : PsEnv
  queues : XmitQueues
  sta : StaPtr → PsStation
  staDzBitmap : BitVec 16
  timBitmap : BitVec 16

namespace PsDriver
variable (s : PsDriver)

def setSta (psta : StaPtr) (t : PsStation) : PsDriver :=
  { s with sta := Function.update s.sta psta t }

/-- The station of the attributes, else that of the receiver address. -/
def staOf (f : TxFrame) : Option StaPtr := f.psta.or (s.env.rtwGetStainfo f.ra)

def bcmc : Option StaPtr := s.env.rtwGetStainfo bcAddr

def setTim (aid : ℕ) : PsDriver := { s with timBitmap := s.timBitmap ||| bit aid }

def clearTim (aid : ℕ) : PsDriver := { s with timBitmap := s.timBitmap &&& ~~~ bit aid }

def setDz (aid : ℕ) : PsDriver := { s with staDzBitmap := s.staDzBitmap ||| bit aid }

def clearDz (aid : ℕ) : PsDriver := { s with staDzBitmap := s.staDzBitmap &&& ~~~ bit aid }

/-- A frame is put into the queue of a station. -/
def keepFrame (psta : StaPtr) (f : TxFrame) (counted : Bool) : PsDriver :=
  let t := s.sta psta
  s.setSta psta { t with
    sleepQ := t.sleepQ ++ [f]
    sleepqLen := t.sleepqLen + 1
    sleepqAcLen := if counted then t.sleepqAcLen + 1 else t.sleepqAcLen }

/-- The frame as it is left when it is not kept, or none when it is kept. -/
def xmitframeEnqueueForSleepingSta (f : TxFrame) : PsDriver × Option TxFrame :=
  if !s.env.apState then (s, some f)
  else match s.staOf f with
  | none => (s, some f)
  | some psta =>
    if f.triggered then (s, some { f with hiq := f.hiq || isMcast f.ra })
    else if isMcast f.ra then
      if s.staDzBitmap ≠ 0 then (((s.keepFrame psta f false).setTim 0).setDz 0, none)
      else (s, some f)
    else
      let t := s.sta psta
      if t.asleep && s.staDzBitmap &&& bit t.aid != 0 then
        let wmmpsAc := t.deliveryEnabled f.ac
        let s' := s.keepFrame psta f wmmpsAc
        if (t.hasLegacyAc && !wmmpsAc) || (!t.hasLegacyAc && wmmpsAc) then (s'.setTim t.aid, none)
        else (s', none)
      else (s, some f)

/-- `rtw_xmit_classifier`, and whether the station was found. -/
def rtwXmitClassifier (f : TxFrame) : PsDriver × Bool :=
  match s.staOf f with
  | none => (s, false)
  | some psta => ({ s with queues := s.queues.classify psta f }, true)

/-- `rtw_hal_xmit`: a frame waits behind others of its category, or when the hardware is busy. -/
def rtwHalXmit (f : TxFrame) (busy : Bool) : PsDriver :=
  let waiting := f.psta.any fun psta => 0 < (s.queues.servq psta f.ac).qcnt
  if waiting || busy then (s.rtwXmitClassifier f).1 else s

/-- What `rtw_xmit` does with a frame. -/
def rtwXmit (f : TxFrame) (busy : Bool) : PsDriver :=
  match s.xmitframeEnqueueForSleepingSta f with
  | (s', none) => s'
  | (s', some f') => s'.rtwHalXmit f' busy

/-- The frames of a queue are offered to the queue for sleeping stations; those it does not take
are left, but all are counted out. -/
def offerFrames (psta : StaPtr) : List TxFrame → PsDriver → PsDriver × List TxFrame
  | [], s => (s, [])
  | f :: rest, s =>
    match s.xmitframeEnqueueForSleepingSta f with
    | (s', left) =>
      match offerFrames psta rest { s' with queues := s'.queues.leave psta f } with
      | (s'', rest') => (s'', left.toList ++ rest')

/-- `dequeue_xmitframes_to_sleeping_queue` for a queue of a station, which is unlinked then. -/
def dequeueXmitframesToSleepingQueue (psta : StaPtr) (ac : Ac) : PsDriver :=
  match offerFrames psta (s.queues.servq psta ac).staPending s with
  | (s', left) => { s' with queues := (s'.queues.setPending psta ac left).unlink psta ac }

def stopStaXmit (psta : StaPtr) : PsDriver :=
  let psta_bmc := s.bcmc
  let s := (s.setSta psta { s.sta psta with asleep := true }).setDz (s.sta psta).aid
  let s := s.dequeueXmitframesToSleepingQueue psta .vo
  let s := s.dequeueXmitframesToSleepingQueue psta .vi
  let s := s.dequeueXmitframesToSleepingQueue psta .be
  let s := s.dequeueXmitframesToSleepingQueue psta .bk
  match psta_bmc with
  | none => s
  | some psta_bmc => s.dequeueXmitframesToSleepingQueue psta_bmc .be

/-- The first frame of a queue leaves it, with its marks. -/
def wakeFrame (psta : StaPtr) (f : TxFrame) (rest : List TxFrame) (busy : Bool) : PsDriver :=
  let t := s.sta psta
  let len := countDown t.sleepqLen
  let mdata := decide (0 < len)
  if t.triggerEnabled f.ac then
    let acLen := countDown t.sleepqAcLen
    let s := s.setSta psta { t with sleepQ := rest, sleepqLen := len, sleepqAcLen := acLen }
    s.rtwHalXmit { f with
      mdata := decide (0 < acLen)
      eosp := !decide (0 < acLen)
      triggered := true } busy
  else
    let s := s.setSta psta { t with sleepQ := rest, sleepqLen := len }
    s.rtwHalXmit { f with mdata := mdata, triggered := true } busy

def wakeFrames (psta : StaPtr) (busy : ℕ → Bool) : List TxFrame → PsDriver → PsDriver
  | [], s => s
  | f :: rest, s => wakeFrames psta busy rest (s.wakeFrame psta f rest (busy rest.length))

/-- A frame for all stations leaves the queue. -/
def bcmcFrame (psta : StaPtr) (f : TxFrame) (rest : List TxFrame) (hiq busy : Bool) : PsDriver :=
  let t := s.sta psta
  let len := countDown t.sleepqLen
  let s := s.setSta psta { t with sleepQ := rest, sleepqLen := len }
  s.rtwHalXmit { f with mdata := decide (0 < len), triggered := true, hiq := f.hiq || hiq } busy

def bcmcFrames (psta : StaPtr) (hiq : Bool) (busy : ℕ → Bool) : List TxFrame → PsDriver → PsDriver
  | [], s => s
  | f :: rest, s => bcmcFrames psta hiq busy rest (s.bcmcFrame psta f rest hiq (busy rest.length))

/-- A station without frames is awake. -/
def awake (psta : StaPtr) : PsDriver :=
  let t := s.sta psta
  if t.sleepqLen = 0 then ((s.setSta psta { t with asleep := false }).clearTim t.aid).clearDz t.aid
  else s

/-- `wakeup_sta_to_xmit`: the frames of the station, and when no station is left that sleeps those
for all stations. -/
def wakeupStaToXmit (psta : StaPtr) (busy busyBcmc : ℕ → Bool) : PsDriver :=
  let s := (wakeFrames psta busy (s.sta psta).sleepQ s).awake psta
  match s.bcmc with
  | none => s
  | some psta_bmc =>
    if s.staDzBitmap &&& 0xfffe = 0 then
      let s := bcmcFrames psta_bmc false busyBcmc (s.sta psta_bmc).sleepQ s
      if (s.sta psta_bmc).sleepqLen = 0 then (s.clearTim 0).clearDz 0 else s
    else s

/-- A frame that is delivered on demand. -/
def deliverFrame (psta : StaPtr) (f : TxFrame) (others : List TxFrame) (busy : Bool) : PsDriver :=
  let t := s.sta psta
  let acLen := countDown t.sleepqAcLen
  let s := s.setSta psta { t with
    sleepQ := others
    sleepqLen := countDown t.sleepqLen
    sleepqAcLen := acLen }
  let s := s.rtwHalXmit { f with
    mdata := decide (0 < acLen)
    eosp := !decide (0 < acLen)
    triggered := true } busy
  if acLen = 0 ∧ t.hasLegacyAc = false then s.clearTim t.aid else s

/-- `xmit_delivery_enabled_frames`, by the frames that were passed over. -/
def deliverFrames (psta : StaPtr) (busy : ℕ → Bool) :
    List TxFrame → List TxFrame → PsDriver → PsDriver
  | _, [], s => s
  | kept, f :: rest, s =>
    if (s.sta psta).triggerEnabled f.ac then
      deliverFrames psta busy kept rest (s.deliverFrame psta f (kept ++ rest) (busy rest.length))
    else deliverFrames psta busy (kept ++ [f]) rest s

def xmitDeliveryEnabledFrames (psta : StaPtr) (busy : ℕ → Bool) : PsDriver :=
  deliverFrames psta busy [] (s.sta psta).sleepQ s

/-- What `process_wmmps_data` does for a frame of a station. -/
def processWmmpsData (src : MacAddr) (priority : UInt8) (busy : ℕ → Bool) : PsDriver :=
  match s.env.rtwGetStainfo src with
  | none => s
  | some psta =>
    let t := s.sta psta
    if t.qosOption && t.qosInfo &&& 0xf != 0 && t.asleep &&
        t.triggerEnabled (Ac.ofPriority priority) && decide (0 < t.sleepqAcLen) then
      s.xmitDeliveryEnabledFrames psta busy
    else s

/-- A PS-Poll frame is answered with the first frame, when the category of the poll is not
delivery-enabled. -/
def psPoll (ta : MacAddr) (aid : ℕ) (priority : UInt8) (busy : Bool) : PsDriver :=
  match s.env.rtwGetStainfo ta with
  | none => s
  | some psta =>
    let t := s.sta psta
    if t.aid = aid && !t.deliveryEnabled (Ac.ofPriority priority) && t.asleep &&
        s.staDzBitmap &&& bit t.aid != 0 then
      match t.sleepQ with
      | f :: rest =>
        let len := countDown t.sleepqLen
        let s := s.setSta psta { t with sleepQ := rest, sleepqLen := len }
        let s := s.rtwHalXmit { f with mdata := decide (0 < len), triggered := true } busy
        if len = 0 then s.clearTim t.aid else s
      | [] =>
        if s.timBitmap &&& bit t.aid != 0 then
          (s.setSta psta { t with sleepqLen := 0 }).clearTim t.aid
        else s
    else s

/-- What `tx_beacon_hdl` does after a beacon. -/
def txBeaconHdl (busy : ℕ → Bool) : PsDriver :=
  match s.bcmc with
  | none => s
  | some psta_bmc =>
    if s.timBitmap &&& bit 0 != 0 && decide (0 < (s.sta psta_bmc).sleepqLen) then
      bcmcFrames psta_bmc true busy (s.sta psta_bmc).sleepQ s
    else s

/-- What `rtw_free_stainfo` does to the queues and the bitmaps. -/
def rtwFreeStainfo (psta : StaPtr) : PsDriver :=
  let t := s.sta psta
  let s := { s with queues := s.queues.freeStation psta }
  let s := s.setSta psta { PsStation.zero with
    aid := t.aid
    asleep := t.asleep
    qosOption := t.qosOption }
  (s.clearTim t.aid).clearDz t.aid

/-- What other parts of the driver set: the table of stations, the mode, and the state of the
stations but for their queues. -/
structure Settings where
  env : PsEnv
  sta : StaPtr → PsStation
  staDzBitmap : BitVec 16
  timBitmap : BitVec 16

/-- The calls of the functions. -/
inductive Call
  | xmit (f : TxFrame) (busy : Bool)
  | classify (f : TxFrame)
  | dequeue (order : List Ac)
  | stop (psta : StaPtr)
  | wake (psta : StaPtr) (busy busyBcmc : ℕ → Bool)
  | poll (ta : MacAddr) (aid : ℕ) (priority : UInt8) (busy : Bool)
  | trigger (src : MacAddr) (priority : UInt8) (busy : ℕ → Bool)
  | beacon (busy : ℕ → Bool)
  | free (psta : StaPtr)
  | set (settings : Settings)

def step : Call → PsDriver
  | .xmit f busy => s.rtwXmit f busy
  | .classify f => (s.rtwXmitClassifier f).1
  | .dequeue order => { s with queues := (s.queues.rtwDequeueXframe order).1 }
  | .stop psta => s.stopStaXmit psta
  | .wake psta busy busyBcmc => s.wakeupStaToXmit psta busy busyBcmc
  | .poll ta aid priority busy => s.psPoll ta aid priority busy
  | .trigger src priority busy => s.processWmmpsData src priority busy
  | .beacon busy => s.txBeaconHdl busy
  | .free psta => s.rtwFreeStainfo psta
  | .set settings => { settings with queues := s.queues }

/-- An access point with one station. -/
def serving (station : PsStation) : PsDriver where
  env := ⟨fun a => if a = bcAddr then some 0 else if a = localAddr 1 then some 1 else none,
    true⟩
  queues := XmitQueues.empty
  sta := Function.update (fun _ => PsStation.zero) 1 station
  staDzBitmap := 0
  timBitmap := 0

end PsDriver
end Rtl8188eu
