import StandaloneDrivers.Foundations.Pool
import StandaloneDrivers.Foundations.Run
import StandaloneDrivers.Rtl8188eu.Decryptor
import StandaloneDrivers.Rtl8188eu.RecvDefrag
import StandaloneDrivers.Rtl8188eu.RecvValidate

/-! The receive path from `rtw_recv_entry` to the upper layer, and what else moves received frames
(rtw_recv.c, rtw_sta_mgt.c). What `mgt_dispatcher` does to stations are events of their own. -/
namespace Rtl8188eu
open Foundations
attribute [local instance] neZero_sixteen

/-- `NR_RECVFRAME` -/
def nrRecvframe : ℕ := 256

/-- What is done with a frame: it is taken from the free queue, goes to `validate_recv_mgnt_frame`
or to a cipher, is put together from the frames with these ids, goes to `recvframe_chkmic` or to
`portctrl` (the id being that of the frame received last), is handed up as it is or as an A-MSDU, or
is given back. -/
inductive RecvAct where
  | received (f : RecvFrame)
  | mgnt (sec : SecurityPriv) (stapriv : StaPriv) (f : RecvFrame)
  | opened (sec : SecurityPriv) (stapriv : StaPriv) (f : RecvFrame)
  | joined (ids : List ℕ)
  | checked (sec : SecurityPriv) (stapriv : StaPriv) (f : RecvFrame)
  | port (mlme : MlmePriv) (flags : DriverFlags) (stapriv : StaPriv) (orig : ℕ) (f : RecvFrame)
  | indicated (f : RecvFrame)
  | split (f : RecvFrame)
  | freed (id : ℕ)

/-- The driver, the static buffer of `aes_decipher`, and what has been done by the last event. -/
structure Receiver where
  mlme : MlmePriv
  sec : SecurityPriv
  stapriv : StaPriv
  flags : DriverFlags
  message : List UInt8
  pool : Pool
  ucSwdecPendingQueue : List RecvFrame
  acts : List RecvAct

namespace StaInfo

/-- All frames in queues of a station. -/
def frames (psta : StaInfo) : List RecvFrame :=
  psta.defragQ ++ psta.recvreorderCtrl.toList.flatMap RecvReorderCtrl.pending

/-- `rtw_list_delete` of a frame in one of the queues of a station. -/
def listDelete (psta : StaInfo) (id : ℕ) : StaInfo :=
  { psta with
    defragQ := psta.defragQ.filter fun f => f.id ≠ id
    recvreorderCtrl := psta.recvreorderCtrl.map fun c =>
      { c with pending := c.pending.filter fun f => f.id ≠ id } }

end StaInfo

namespace StaPriv

def frames (stapriv : StaPriv) : List RecvFrame := stapriv.stainfo.flatMap StaInfo.frames

def listDelete (stapriv : StaPriv) (id : ℕ) : StaPriv :=
  { stapriv with stainfo := stapriv.stainfo.map fun psta => psta.listDelete id }

/-- `preorder_ctrl` of a frame. -/
def preorderCtrl (stapriv : StaPriv) (slot : ℕ) (priority : Fin 16) : Option RecvReorderCtrl :=
  (stapriv.stainfo[slot]?).map fun psta => psta.recvreorderCtrl.get priority

def setPreorderCtrl (stapriv : StaPriv) (slot : ℕ) (priority : Fin 16) (c : RecvReorderCtrl) :
    StaPriv :=
  stapriv.modify slot fun psta =>
    { psta with recvreorderCtrl := psta.recvreorderCtrl.set priority c (val_lt_sixteen priority) }

/-- The station is found no more, and its queues are empty. -/
def dropStation (stapriv : StaPriv) (slot : ℕ) : StaPriv :=
  { stapriv.modify slot fun psta =>
      { psta with
        tidRxseq := Vector.replicate 16 0
        defragQ := []
        recvreorderCtrl := psta.recvreorderCtrl.map fun c =>
          { c with pending := [], timer := false } } with
    staHash := stapriv.staHash.filter (· ≠ slot) }

end StaPriv

/-- `_FAIL` of `portctrl`, which looks for a station before it has its address. -/
def portctrl (sec : SecurityPriv) (stapriv : StaPriv) (f : RecvFrame) : Bool :=
  let blocked := ((stapriv.rtwGetStainfo none).bind (stapriv.stainfo[·]?)).any
    StaInfo.ieee8021xBlocked
  if sec.dot11AuthAlgrthm = 2 && blocked then be16 f.mem (f.attrib.payload + 6) == 0x888e else true

namespace Receiver
variable (s : Receiver)

def log (act : RecvAct) : Receiver := { s with acts := s.acts ++ [act] }

/-- `rtw_free_recvframe`, which takes the frame out of the queue it is in. -/
def rtwFreeRecvframe (id : ℕ) : Receiver :=
  { s with
    stapriv := s.stapriv.listDelete id
    pool := s.pool.give id
    ucSwdecPendingQueue := s.ucSwdecPendingQueue.filter fun f => f.id ≠ id
    acts := s.acts ++ [.freed id] }

def freeAll (ids : List ℕ) : Receiver := ids.foldl rtwFreeRecvframe s

/-- What an act of the reorder control does; both ways to the upper layer give the frame back. -/
def perform (act : Act) : Receiver :=
  match act with
  | .moved _ => s
  | .indicated f => (s.log (.indicated f)).rtwFreeRecvframe f.id
  | .split f => (s.log (.split f)).rtwFreeRecvframe f.id
  | .forgotten _ => s

def performAll (acts : List Act) : Receiver := acts.foldl perform s

/-- `decryptor`; a frame that fails is given back. -/
def decryptor (f : RecvFrame) : Receiver × Option RecvFrame :=
  let f := f.readKeyIndex
  if s.sec.opens f.attrib then
    let r := swDecryptFrame s.sec s.stapriv s.message f
    let s := { s with
      sec := { s.sec with hwDecrypted := false }
      message := r.message
      acts := s.acts ++ [.opened s.sec s.stapriv f] }
    match r.status with
    | .success => (s, some r.frame)
    | .fail => (s.rtwFreeRecvframe f.id, none)
  else if f.attrib.bdecrypted && f.attrib.encrypt != .noPrivacy &&
      (s.sec.busetkipkey || f.attrib.encrypt != .tkip) then
    ({ s with sec := { s.sec with hwDecrypted := true } }, some f)
  else (s, some f)

/-- The acts of `recvframe_chk_defrag` before frames are given back. -/
def defragActs (f : RecvFrame) : List RecvAct :=
  let joined := if !f.attrib.mfrag && f.attrib.fragNum != 0 then
    match s.stapriv.pdefragQ f with
    | none => []
    | some i => [.joined ((s.stapriv.defragQ i ++ [f]).map RecvFrame.id)]
  else []
  let r := s.stapriv.queueFragment f
  joined ++ (r.2.frame.map fun g => RecvAct.checked s.sec r.1 g).toList

def chkDefrag (f : RecvFrame) : Receiver × Option RecvFrame :=
  let r := s.stapriv.recvframeChkDefrag s.sec f
  ({ s with stapriv := r.1, acts := s.acts ++ s.defragActs f }.freeAll r.2.freed, r.2.frame)

/-- A frame that could not be queued is not reported when the driver has stopped. Every frame that
gets here has a station. -/
def processRecvIndicatepkts (f : RecvFrame) : Receiver × Status :=
  if s.mlme.htOption then
    match f.psta.bind fun slot => (s.stapriv.preorderCtrl slot f.attrib.priority).map (slot, ·) with
    | none => (s.rtwFreeRecvframe f.id, .success)
    | some (slot, c) =>
        let r := c.recvIndicatepktReorder s.flags f
        let s := { s with
          stapriv := s.stapriv.setPreorderCtrl slot f.attrib.priority r.2.ctrl }.performAll r.2.acts
        (s, if s.flags.running then r.1 else .success)
  else if s.flags.running then (s.perform (.indicated (wlanhdrToEthhdr f)), .success)
  else (s, .fail)

/-- A frame that could not be handed up is given back by the frame that was received last. -/
def recvFuncPosthandle (f : RecvFrame) : Receiver :=
  let orig := f.id
  match s.decryptor f with
  | (s, none) => s
  | (s, some f) =>
      match s.chkDefrag f with
      | (s, none) => s
      | (s, some f) =>
          let s := s.log (.port s.mlme s.flags s.stapriv orig f)
          if portctrl s.sec s.stapriv f then
            match s.processRecvIndicatepkts f with
            | (s, .success) => s
            | (s, .fail) => s.rtwFreeRecvframe orig
          else s.rtwFreeRecvframe f.id

/-- The frames that were waiting for a key. -/
def drainPending : ℕ → Receiver → Receiver
  | 0, s => s
  | n + 1, s =>
      match s.ucSwdecPendingQueue with
      | [] => s
      | f :: queue => drainPending n ({ s with ucSwdecPendingQueue := queue }.recvFuncPosthandle f)

/-- Whether a frame has to wait for the key of its cipher. -/
def waitsForKey (attrib : RxPktAttrib) : Bool :=
  s.mlme.stationState && !isMcast attrib.ra && s.sec.opens attrib &&
    s.sec.dot11PrivacyAlgrthm != .wep40 && s.sec.dot11PrivacyAlgrthm != .wep104 &&
      !s.sec.busetkipkey

/-- `recv_func_prehandle` and what follows it; management frames are always given back. -/
def recvFrame (f : RecvFrame) : Receiver :=
  if f.mem.getD 0 0 &&& 3 != 0 then s.rtwFreeRecvframe f.id
  else
    let f := readHeader f
    if getFrameType f.mem = wifiMgtType then
      ((s.log (.mgnt s.sec s.stapriv f)).chkDefrag f).1.rtwFreeRecvframe f.id
    else if getFrameType f.mem = wifiDataType then
      match validateRecvDataFrame s.mlme s.sec s.stapriv f with
      | none => s.rtwFreeRecvframe f.id
      | some (stapriv, f) =>
          let s := { s with stapriv := stapriv }
          if s.waitsForKey f.attrib then
            { s with ucSwdecPendingQueue := s.ucSwdecPendingQueue ++ [f] }
          else s.recvFuncPosthandle f
    else s.rtwFreeRecvframe f.id

/-- `recv_func` -/
def recvFunc (f : RecvFrame) : Receiver :=
  let s := if s.mlme.stationState && s.sec.busetkipkey then
    drainPending s.ucSwdecPendingQueue.length s else s
  s.recvFrame f

/-- A frame is taken from the free queue, filled and received; without one it is lost. -/
def recvEntry (f : RecvFrame) : Receiver :=
  match s.pool.take with
  | none => s
  | some (id, pool) =>
      let f := { f with id := id }
      ({ s with pool := pool }.log (.received f)).recvFunc f

/-- `rtw_reordering_ctrl_timeout_handler` -/
def reorderTimeout (slot : ℕ) (priority : Fin 16) : Receiver :=
  match s.stapriv.preorderCtrl slot priority with
  | none => s
  | some c =>
      let r := c.rtwReorderingCtrlTimeoutHandler s.flags
      { s with stapriv := s.stapriv.setPreorderCtrl slot priority r.ctrl }.performAll r.acts

/-- `rtw_free_uc_swdec_pending_queue` -/
def rtwFreeUcSwdecPendingQueue : Receiver :=
  { s with ucSwdecPendingQueue := [] }.freeAll (s.ucSwdecPendingQueue.map RecvFrame.id)

/-- `rtw_free_stainfo`: the reassembly queue is initialised, whatever is in it, and the frames of
the reorder controls are given back. -/
def rtwFreeStainfo (slot : ℕ) : Receiver :=
  match s.stapriv.stainfo[slot]? with
  | none => s
  | some psta => { s with stapriv := s.stapriv.dropStation slot }.freeAll
      ((psta.recvreorderCtrl.toList.flatMap RecvReorderCtrl.pending).map RecvFrame.id)

/-- `rtw_alloc_stainfo`, which initialises all queues. -/
def rtwAllocStainfo (slot : ℕ) (hwaddr : MacAddr) : Receiver :=
  let stapriv := s.stapriv.modify slot fun _ => StaInfo.alloc hwaddr
  { s with stapriv := { stapriv with staHash := stapriv.staHash ++ [slot] } }

end Receiver

/-- A station with the fields of another one; the queues stay. -/
def StaInfo.update (psta new : StaInfo) : StaInfo :=
  { new with
    hwaddr := psta.hwaddr
    defragQ := psta.defragQ
    recvreorderCtrl := Vector.ofFn fun i =>
      { new.recvreorderCtrl.get i with pending := (psta.recvreorderCtrl.get i).pending } }

/-- What happens to the receive path: a frame comes, a timer runs out, stations come, go and
change, and the state of the driver changes. -/
inductive RecvEvent where
  | recv (f : RecvFrame)
  | timeout (slot : ℕ) (priority : Fin 16)
  | blocked (slot : ℕ) (blocked : Bool)
  | freeStainfo (slot : ℕ)
  | allocStainfo (slot : ℕ) (hwaddr : MacAddr)
  | update (slot : ℕ) (psta : StaInfo)
  | freeUcSwdec
  | config (mlme : MlmePriv) (sec : SecurityPriv) (flags : DriverFlags)

namespace Receiver

/-- The state after an event, and what was done in it. -/
def step (s : Receiver) (e : RecvEvent) : Receiver :=
  let s := { s with acts := [] }
  match e with
  | .recv f => s.recvEntry f
  | .timeout slot priority => s.reorderTimeout slot priority
  | .blocked slot blocked =>
      { s with stapriv := s.stapriv.modify slot fun psta =>
          { psta with ieee8021xBlocked := blocked } }
  | .freeStainfo slot => if slot ∈ s.stapriv.staHash then s.rtwFreeStainfo slot else s
  | .allocStainfo slot hwaddr =>
      if slot ∈ s.stapriv.staHash then s else s.rtwAllocStainfo slot hwaddr
  | .update slot new =>
      { s with stapriv := s.stapriv.modify slot fun psta => psta.update new }
  | .freeUcSwdec => s.rtwFreeUcSwdecPendingQueue
  | .config mlme sec flags => { s with mlme := mlme, sec := sec, flags := flags }

/-- Every frame is free, every queue empty, and the static buffer as long as it is declared. -/
structure Initial (s : Receiver) : Prop where
  pool : s.pool = Pool.full nrRecvframe
  frames : s.stapriv.frames = []
  pending : s.ucSwdecPendingQueue = []
  message : s.message.length = maxMsgSize

/-- A receiver with some stations, right after it was set up. -/
def start (mlme : MlmePriv) (sec : SecurityPriv) (flags : DriverFlags)
    (stations : List MacAddr) : Receiver where
  mlme := mlme
  sec := sec
  stapriv := ⟨stations.map StaInfo.alloc, List.range stations.length⟩
  flags := flags
  message := List.replicate maxMsgSize 0
  pool := Pool.full nrRecvframe
  ucSwdecPendingQueue := []
  acts := []

def bssAddr : MacAddr := #v[0, 1, 2, 3, 4, 5]

def ownAddr : MacAddr := #v[0, 10, 11, 12, 13, 14]

/-- A station that is linked, with its broadcast station and its access point. -/
def associated (htOption : Bool) (sec : SecurityPriv) : Receiver :=
  start { MlmePriv.zero with
      stationState := true
      fwLinked := true
      htOption := htOption
      bssid := ⟨#[0, 1, 2, 3, 4, 5], rfl⟩
      myid := ⟨#[0, 10, 11, 12, 13, 14], rfl⟩ }
    sec ⟨false, false⟩ [bcAddr, ⟨#[0, 1, 2, 3, 4, 5], rfl⟩]

end Receiver

/-- A frame of the access point for the station as it comes from the hardware. -/
def incoming (type flags seqCtrl : UInt8) (body : List UInt8) : RecvFrame where
  id := 0
  psta := none
  attrib := RxPktAttrib.zero
  mem := [type, flags, 0, 0, 0, 10, 11, 12, 13, 14, 0, 1, 2, 3, 4, 5, 0, 21, 22, 23, 24, 25,
    seqCtrl, 0] ++ body
  len := 24 + body.length
  fits := by
    rw [List.length_append]
    exact le_rfl

/-- An IPv4 packet behind its encapsulation header. -/
def ipv4Body : List UInt8 := [0xaa, 0xaa, 3, 0, 0, 0, 8, 0, 1, 2, 3, 4]

def eapolBody : List UInt8 := [0xaa, 0xaa, 3, 0, 0, 0, 0x88, 0x8e, 1, 2, 3, 4]

end Rtl8188eu
