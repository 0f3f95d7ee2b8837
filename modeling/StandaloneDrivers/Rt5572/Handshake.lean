import StandaloneDrivers.Rt5572.EapolFrame

/-! The 4-way and the group key handshake (common/cmm_wpa.c, ap/ap_wpa.c): both sides as actions on one
entry of the MAC table. A step that leaves a buffer or reads through NULL gives `none`. -/
namespace Rt5572
open Foundations
open BssTab (WepStatus AuthMode)

/-- `pAd->ApCfg.MBSSID[apidx]` -/
structure Mbss where
  bssid : Vector UInt8 6
  authMode : AuthMode
  pmk : List UInt8
  gmk : List UInt8
  gNonce : Vector UInt8 32
  gtk : Vector UInt8 32
  groupKeyWepStatus : WepStatus
  defaultKeyId : UInt8
  rsnIe : Fin 2 → Memory
  rsnIeLen : Fin 2 → UInt8

/-- `pAd->StaCfg`, with the address of the station. -/
structure StaCfg where
  currentAddress : Vector UInt8 6
  pmk : List UInt8
  groupCipher : WepStatus
  rsnIe : Memory
  rsnIeLen : UInt8
  ptk : Vector UInt8 64
  gtk : List UInt8
  defaultKeyId : UInt8
  portSecured : Bool

/-- What `IF_DEV_CONFIG_OPMODE_ON_AP` and `IF_DEV_CONFIG_OPMODE_ON_STA` tell apart; each side is built
without the code of the other one. -/
inductive OpMode
  | ap (mbss : Mbss)
  | sta (cfg : StaCfg)

/-- The mode and the entry of the peer; `client` says that the entry is there. -/
structure WpaAdapter where
  mode : OpMode
  client : Bool
  entry : MacEntry

/-- The flags of `RTMPSendWirelessEvent`. -/
inductive WirelessEvent
  | replayCounterDiff | micDiff | setKeyDoneWpa1 | setKeyDoneWpa2 | groupHsTimeout | pairwiseHsTimeout
  deriving DecidableEq, Repr

/-- What a step does besides changing the entry. -/
inductive Effect
  | send (p : EapolPacket) (clear : Bool)
  | installPairwise (key : PairwiseKey)
  | removePairwise
  | installShared (gtk : List UInt8) (keyIdx : UInt8)
  | modTimer (timeInterval : ℕ)
  | cancelTimer
  | counterMeasure
  | deauth (reason : UInt16)
  | event (flag : WirelessEvent)
  deriving DecidableEq, Repr

/-- What comes from outside of the code: the number that `GenRandom` leaves, and the count of the group
key that the hardware keeps. -/
structure Env where
  random : Vector UInt8 32
  txTsc : Vector UInt8 6

abbrev StepResult : Type := Option (WpaAdapter × List Effect)

/-- `PEER_MSG1_RETRY_EXEC_INTV` -/
abbrev peerMsg1RetryExecIntv : ℕ := 1000

/-- `PEER_MSG3_RETRY_EXEC_INTV` -/
abbrev peerMsg3RetryExecIntv : ℕ := 3000

/-- `PEER_MSG3_RETRY_TIMER_CTR` -/
abbrev peerMsg3RetryTimerCtr : ℕ := 10

/-- `GROUP_MSG1_RETRY_TIMER_CTR` -/
abbrev groupMsg1RetryTimerCtr : ℕ := 20

section Counter

/-- The loop of `ADD_ONE_To_64BIT_VAR` over the octets in front of a place. -/
def addOneLoop : ℕ → List UInt8 → List UInt8
  | 0, v => v
  | cnt + 1, v =>
    let v := v.set cnt (v.getD cnt 0 + 1)
    if v.getD cnt 0 = 0 then addOneLoop cnt v else v

theorem addOneLoop_length (cnt : ℕ) (v : List UInt8) : (addOneLoop cnt v).length = v.length := by
  induction cnt generalizing v with
  | zero => rfl
  | succ cnt ih =>
    rw [addOneLoop]
    split
    · exact (ih _).trans List.length_set
    · exact List.length_set

/-- `ADD_ONE_To_64BIT_VAR` -/
def addOneTo64BitVar (v : Vector UInt8 8) : Vector UInt8 8 :=
  ⟨(addOneLoop 8 v.toList).toArray, (addOneLoop_length 8 v.toList).trans v.length_toList⟩

end Counter

namespace MacEntry
variable (e : MacEntry)

/-- `ADD_ONE_To_64BIT_VAR(pEntry->R_Counter)` -/
def countUp : MacEntry := { e with rCounter := addOneTo64BitVar e.rCounter }

/-- The pairwise key of `WPAInstallPairwiseKey`, where the authenticator has set `bAE`. -/
def pairwiseKeyOf (bAE : Bool) : PairwiseKey :=
  let low := slice e.ptk.toList 48 8
  let high := slice e.ptk.toList 56 8
  if e.wepStatus = .encryption2Enabled then
    ⟨some e.wepStatus, slice e.ptk.toList 32 16, if bAE then low else high, if bAE then high else low⟩
  else if e.wepStatus = .encryption3Enabled then ⟨some e.wepStatus, slice e.ptk.toList 32 16, [], []⟩
  else ⟨none, [], [], []⟩

/-- `WPAInstallPairwiseKey`; a key without a cipher is not handed on. -/
def wpaInstallPairwiseKey (bAE : Bool) : MacEntry × List Effect :=
  let key := e.pairwiseKeyOf bAE
  ({ e with pairwiseKey := key }, if key.cipherAlg.isSome then [.installPairwise key] else [])

/-- The pairwise key that `WpaDerivePTK` moves to the entry. -/
def derivePtk (pmk : List UInt8) (aa sa : Vector UInt8 6) : Option MacEntry :=
  (wpaDerivePtk pmk e.aNonce.toList aa.toList e.sNonce.toList sa.toList (List.replicate 80 0) 64).map
    fun ptk => { e with ptk := Vector.ofFn fun i => ptk.getD i 0 }

end MacEntry

/-- The arguments of messages that carry neither a nonce nor data. -/
def MsgArgs.plain (groupKeyWepStatus : WepStatus) (msgType defaultKeyIdx : UInt8) : MsgArgs where
  groupKeyWepStatus := groupKeyWepStatus
  msgType := msgType
  defaultKeyIdx := defaultKeyIdx
  keyNonce := Vector.replicate 32 0
  txRsc := Vector.replicate 6 0
  gtk := fun _ => 0
  rsnIe := fun _ => 0
  rsnIeLen := 0

/-- A key as memory. -/
def keyMemory (key : List UInt8) : Memory := fun i => key.getD i 0

namespace Mbss
variable (mbss : Mbss)

/-- Which of the two RSN elements is sent to an entry. -/
def rsnIeOf (e : MacEntry) : Fin 2 :=
  if e.authMode = .wpa ∨ e.authMode = .wpaPsk then 0
  else if mbss.authMode = .wpa1PskWpa2Psk ∨ mbss.authMode = .wpa1Wpa2 then 1
  else 0

def msg1Args (e : MacEntry) : MsgArgs :=
  { MsgArgs.plain mbss.groupKeyWepStatus eapolPairMsg1 0 with keyNonce := e.aNonce }

def msg3Args (e : MacEntry) (env : Env) : MsgArgs where
  groupKeyWepStatus := mbss.groupKeyWepStatus
  msgType := eapolPairMsg3
  defaultKeyIdx := mbss.defaultKeyId
  keyNonce := e.aNonce
  txRsc := env.txTsc
  gtk := keyMemory mbss.gtk.toList
  rsnIe := mbss.rsnIe (mbss.rsnIeOf e)
  rsnIeLen := mbss.rsnIeLen (mbss.rsnIeOf e)

def groupMsg1Args (env : Env) : MsgArgs :=
  { MsgArgs.plain mbss.groupKeyWepStatus eapolGroupMsg1 mbss.defaultKeyId with
    keyNonce := mbss.gNonce
    txRsc := env.txTsc
    gtk := keyMemory mbss.gtk.toList }

/-- `GNonce`, `DefaultKeyId` and `GTK` are made anew. -/
def rekey (env : Env) : Option Mbss :=
  (wpaDeriveGtk mbss.gmk env.random.toList mbss.bssid.toList 32).map fun gtk =>
    { mbss with
      gNonce := env.random
      defaultKeyId := if mbss.defaultKeyId = 1 then 2 else 1
      gtk := Vector.ofFn fun i => gtk.getD i 0 }

end Mbss

/-- The arguments of message 2. -/
def StaCfg.msg2Args (cfg : StaCfg) (e : MacEntry) : MsgArgs :=
  { MsgArgs.plain cfg.groupCipher eapolPairMsg2 0 with
    keyNonce := e.sNonce
    rsnIe := cfg.rsnIe
    rsnIeLen := cfg.rsnIeLen }

/-- The group key of a message is installed while it is checked. -/
def StaCfg.installGroupKey (cfg : StaCfg) : Option (List UInt8 × UInt8) → StaCfg × List Effect
  | none => (cfg, [])
  | some (gtk, defaultIdx) =>
    ({ cfg with gtk := gtk, defaultKeyId := defaultIdx }, [.installShared gtk defaultIdx])

/-- The event that is sent of a message that is not let pass. -/
def Sanity.events : Sanity → List Effect
  | .replayDiff => [.event .replayCounterDiff]
  | .micDiff => [.event .micDiff]
  | .keyDataRefused => []
  | .accepted _ => []

namespace WpaAdapter
variable (ad : WpaAdapter) (env : Env) (p : EapolPacket)

/-- `WPAStart4WayHS`; a station has no BSSID to send from. -/
def wpaStart4WayHs (timeInterval : ℕ) : StepResult :=
  match ad.mode with
  | .sta _ => some (ad, [])
  | .ap mbss =>
    if ¬ad.client ∨ WpaState.ptkStart.code < ad.entry.wpaState.code ∨
        ad.entry.wpaState.code < WpaState.initPmk.code then some (ad, [])
    else do
      let e := { ad.entry.countUp with aNonce := env.random }
      let msg1 ← constructEapolMsg e (mbss.msg1Args e)
      some ({ ad with entry := { e with wpaState := .ptkStart } },
        [.send msg1 !e.portSecured, .modTimer timeInterval])

/-- `WpaEAPOLStartAction` of a network with a pre-shared key. -/
def wpaEapolStartAction : StepResult :=
  let e := ad.entry
  if ad.client ∧ ¬e.portSecured ∧ e.wpaState.code < WpaState.ptkStart.code ∧
      (e.authMode = .wpaPsk ∨ e.authMode = .wpa2Psk) then
    { ad with entry := { e with
        acceptAll := false
        wpaState := .initPsk
        portSecured := false
        rCounter := Vector.replicate 8 0
        reTryCounter := 0 } }.wpaStart4WayHs env peerMsg1RetryExecIntv
  else some (ad, [])

/-- `WPAStart2WayGroupHS`; a station has no group key to read. -/
def wpaStart2WayGroupHs : StepResult :=
  if ¬ad.client then some (ad, [])
  else match ad.mode with
  | .sta _ => none
  | .ap mbss => do
    let e := ad.entry.countUp
    let msg1 ← constructEapolMsg e (mbss.groupMsg1Args env)
    some ({ ad with entry := e }, [.send msg1 false])

/-- `PeerPairMsg1Action` -/
def peerPairMsg1Action : StepResult :=
  match ad.mode with
  | .ap _ => some (ad, [])
  | .sta cfg =>
    if p.msgLen < 99 then some (ad, [])
    else do
      match ← peerWpaMessageSanity ad.entry p eapolPairMsg1 with
      | .accepted _ =>
        let e := { ad.entry with
          rCounter := p.replayCounter
          aNonce := p.keyNonce
          sNonce := env.random }
        let e ← e.derivePtk cfg.pmk e.addr cfg.currentAddress
        let e := { e with wpaState := .ptkInitNegotiating }
        let msg2 ← constructEapolMsg e (cfg.msg2Args e)
        some ({ ad with entry := e }, [.send msg2 true])
      | refused => some (ad, refused.events)

/-- `PeerPairMsg2Action`; the nonce and the key are stored before the message is checked. -/
def peerPairMsg2Action : StepResult :=
  if p.msgLen < 99 ∨ ad.entry.wpaState.code < WpaState.ptkStart.code then some (ad, [])
  else
    let e := { ad.entry with sNonce := p.keyNonce }
    match ad.mode with
    | .sta _ => some ({ ad with entry := e }, [])
    | .ap mbss => do
      let e ← e.derivePtk mbss.pmk mbss.bssid e.addr
      match ← peerWpaMessageSanity e p eapolPairMsg2 with
      | .accepted _ =>
        let e := { e.countUp with wpaState := .ptkInitNegotiating }
        let msg3 ← constructEapolMsg e (mbss.msg3Args e env)
        some ({ ad with entry := { e with reTryCounter := peerMsg3RetryTimerCtr } },
          [.cancelTimer, .send msg3 !e.portSecured, .modTimer peerMsg3RetryExecIntv])
      | refused => some ({ ad with entry := e }, refused.events)

/-- `PeerPairMsg3Action`; the nonce is compared after the group key is installed. -/
def peerPairMsg3Action : StepResult :=
  match ad.mode with
  | .ap _ => some (ad, [])
  | .sta cfg =>
    if p.msgLen < 99 then some (ad, [])
    else do
      match ← peerWpaMessageSanity ad.entry p eapolPairMsg3 with
      | .accepted groupKey =>
        let (cfg, shared) := cfg.installGroupKey groupKey
        let e := { ad.entry with rCounter := p.replayCounter }
        if e.aNonce ≠ p.keyNonce then some ({ ad with mode := .sta cfg, entry := e }, shared)
        else do
          let msg4 ← constructEapolMsg e (.plain cfg.groupCipher eapolPairMsg4 0)
          let (e, installed) := { e with wpaState := .ptkInitDone }.wpaInstallPairwiseKey false
          let cfg := { cfg with ptk := e.ptk }
          if e.bWpa2 then
            some ({ ad with
                mode := .sta { cfg with portSecured := true }
                entry := { e with portSecured := true, acceptAll := true } },
              shared ++ installed ++ [.send msg4 true])
          else some ({ ad with mode := .sta cfg, entry := e }, shared ++ installed ++ [.send msg4 true])
      | refused => some (ad, refused.events)

/-- `PeerPairMsg4Action` -/
def peerPairMsg4Action : StepResult :=
  if p.msgLen < 99 ∨ ad.entry.wpaState.code < WpaState.ptkInitNegotiating.code then some (ad, [])
  else do
    match ← peerWpaMessageSanity ad.entry p eapolPairMsg4 with
    | .accepted _ =>
      let (e, installed) := ad.entry.wpaInstallPairwiseKey true
      let e := { e with acceptAll := true, wpaState := .ptkInitDone, portSecured := true }
      if e.bWpa2 then
        some ({ ad with entry := { e with rekeyEstablished := true } },
          installed ++ [.cancelTimer, .event .setKeyDoneWpa2])
      else do
        let (ad, sent) ← { ad with entry := e }.wpaStart2WayGroupHs env
        some ({ ad with entry := { ad.entry with reTryCounter := groupMsg1RetryTimerCtr } },
          installed ++ sent ++ [.modTimer peerMsg3RetryExecIntv])
    | refused => some (ad, refused.events)

/-- `PeerGroupMsg1Action` -/
def peerGroupMsg1Action : StepResult :=
  match ad.mode with
  | .ap _ => some (ad, [])
  | .sta cfg => do
    match ← peerWpaMessageSanity ad.entry p eapolGroupMsg1 with
    | .accepted groupKey =>
      let defaultKey := cfg.defaultKeyId
      let (cfg, shared) := cfg.installGroupKey groupKey
      let e := { ad.entry with rCounter := p.replayCounter }
      let msg2 ← constructEapolMsg e (.plain cfg.groupCipher eapolGroupMsg2 defaultKey)
      some ({ ad with
          mode := .sta { cfg with portSecured := true }
          entry := { e with portSecured := true, acceptAll := true } }, shared ++ [.send msg2 false])
    | refused => some (ad, refused.events)

/-- `PeerGroupMsg2Action` -/
def peerGroupMsg2Action : StepResult :=
  if p.msgLen < 99 ∨ ad.entry.wpaState ≠ .ptkInitDone then some (ad, [])
  else do
    match ← peerWpaMessageSanity ad.entry p eapolGroupMsg2 with
    | .accepted _ =>
      some ({ ad with entry := { ad.entry with rekeyEstablished := true } },
        [.cancelTimer, .event (if ad.entry.bWpa2 then .setKeyDoneWpa2 else .setKeyDoneWpa1)])
    | refused => some (ad, refused.events)

/-- A request of the station for another group key or pairwise key. -/
def keyRequest (mbss : Mbss) : StepResult :=
  let e := ad.entry
  if p.keyInfo.keyType = false then do
    let mbss ← mbss.rekey env
    let ad := { ad with mode := .ap mbss }
    let installed := [.installShared mbss.gtk.toList mbss.defaultKeyId]
    if e.wpaState = .ptkInitDone then do
      let (ad, sent) ← { ad with entry := { e with rekeyEstablished := false } }.wpaStart2WayGroupHs env
      some ({ ad with entry := { ad.entry with reTryCounter := groupMsg1RetryTimerCtr } },
        sent ++ [.modTimer peerMsg3RetryExecIntv] ++ installed)
    else some (ad, installed)
  else do
    let wpaState := if e.authMode = .wpa ∨ e.authMode = .wpa2 then WpaState.initPmk
      else if e.authMode = .wpaPsk ∨ e.authMode = .wpa2Psk then .initPsk
      else e.wpaState
    let (ad, sent) ← { ad with entry := { e with
        pairwiseKey := ⟨none, [], [], []⟩
        assoc := true
        wpaState := wpaState
        rekeyEstablished := false
        acceptAll := false
        reTryCounter := 0
        portSecured := false
        rCounter := Vector.replicate 8 0 } }.wpaStart4WayHs env peerMsg1RetryExecIntv
    some (ad, .removePairwise :: sent)

/-- What `WpaEAPOLKeyAction` looks at before it tells the messages apart. -/
def keyFrameTaken : Bool :=
  let ver := p.keyInfo.keyDescVer
  ad.client ∧ ad.entry.authMode.atLeastWpa ∧ p.eapolLen ≤ p.msgLen ∧ (p.proVer = 1 ∨ p.proVer = 2) ∧
    (p.type = 0xfe ∨ p.type = 2) ∧
    ¬(ad.entry.wepStatus = .encryption2Enabled ∧ ver ≠ keyDescTkip) ∧
    ¬(ad.entry.wepStatus = .encryption3Enabled ∧ ver ≠ keyDescAes ∧ ver ≠ keyDescExt) ∧
    ad.entry.assoc ∧ WpaState.initPsk.code ≤ ad.entry.wpaState.code

/-- A message that an authenticator has sent. -/
def ackedKeyAction : StepResult :=
  let info := p.keyInfo
  if ¬info.secure ∧ ¬info.request ∧ ¬info.error ∧ info.keyType then
    if info.keyMic then ad.peerPairMsg3Action p else ad.peerPairMsg1Action env p
  else if info.secure ∧ info.keyMic ∧ ¬info.request ∧ ¬info.error then
    if info.keyType then ad.peerPairMsg3Action p else ad.peerGroupMsg1Action p
  else some (ad, [])

/-- A message that a supplicant has sent in answer. -/
def answeredKeyAction : StepResult :=
  let info := p.keyInfo
  if info.keyType then
    if ¬info.secure ∧ p.keyDataLen ≠ 0 then ad.peerPairMsg2Action env p else ad.peerPairMsg4Action env p
  else if info.secure then ad.peerGroupMsg2Action p
  else some (ad, [])

/-- `WpaEAPOLKeyAction` -/
def wpaEapolKeyAction : StepResult :=
  let info := p.keyInfo
  if ¬ad.keyFrameTaken p then some (ad, [])
  else if info.keyAck then ad.ackedKeyAction env p
  else match ad.mode with
  | .sta _ => if ¬info.request ∧ ¬info.error ∧ info.keyMic then ad.answeredKeyAction env p else some (ad, [])
  | .ap mbss =>
    if info.keyMic ∧ info.request ∧ info.error then some (ad, [.counterMeasure])
    else if ¬info.request ∧ ¬info.error ∧ info.keyMic then ad.answeredKeyAction env p
    else if info.request ∧ ¬info.error then ad.keyRequest env p mbss
    else some (ad, [])

/-- `MlmeDeAuthAction`: the entry is deleted. -/
def mlmeDeAuthAction (reason : UInt16) : WpaAdapter × List Effect :=
  ({ ad with client := false }, [.deauth reason])

/-- `WPARetryExec`, the timer of an entry of the access point. -/
def wpaRetryExec : StepResult :=
  let e := { ad.entry with reTryCounter := ad.entry.reTryCounter + 1 }
  let next := { ad with entry := e }
  if ¬ad.client then some (ad, [])
  else if e.authMode = .wpa ∨ e.authMode = .wpaPsk ∨ e.authMode = .wpa2 ∨ e.authMode = .wpa2Psk then
    if groupMsg1RetryTimerCtr + 1 < e.reTryCounter then
      let (ad, sent) := next.mlmeDeAuthAction 16
      some (ad, .event .groupHsTimeout :: sent)
    else if groupMsg1RetryTimerCtr < e.reTryCounter then
      if ¬e.rekeyEstablished then do
        let (ad, sent) ← next.wpaStart2WayGroupHs env
        some (ad, sent ++ [.modTimer peerMsg3RetryExecIntv])
      else some (next, [])
    else if 3 < e.reTryCounter then
      let (ad, sent) := next.mlmeDeAuthAction 15
      some (ad, .event .pairwiseHsTimeout :: sent)
    else if e.reTryCounter = 3 then next.wpaStart4WayHs env peerMsg3RetryExecIntv
    else if e.wpaState = .ptkStart ∨ e.wpaState = .initPsk ∨ e.wpaState = .initPmk then
      next.wpaStart4WayHs env peerMsg1RetryExecIntv
    else some (next, [])
  else some (next, [])

end WpaAdapter

end Rt5572
