import StandaloneDrivers.Foundations.Run
import StandaloneDrivers.Rt5572.MacTable
import Mathlib.Data.Int.Notation

/-! The table of the networks that a scan has found (common/mlme.c), and the buffers for the elements
of their probe responses. -/
namespace Rt5572

namespace BssTab

/-- `MAX_LEN_OF_BSS_TABLE` -/
abbrev maxLen : ℕ := 64

/-- `MAX_VIE_LEN` -/
abbrev maxVieLen : ℕ := 1024

/-- `MAX_CUSTOM_LEN` -/
abbrev maxCustomLen : ℕ := 128

/-- `MAX_LEN_OF_SUPPORTED_RATES` -/
abbrev maxLenOfSupportedRates : ℕ := 12

abbrev bssInfra : UInt8 := 1

abbrev ieWpa : UInt8 := 221

abbrev ieRsn : UInt8 := 48

def wpaOui : List UInt8 := [0x00, 0x50, 0xf2, 0x01]

def wpsOui : List UInt8 := [0x00, 0x50, 0xf2, 0x04]

def rsnOui : List UInt8 := [0x00, 0x0f, 0xac]

/-- A preallocated buffer, `pAd->ProbeRespIE[index].pIe`. -/
abbrev Buffer : Type := Fin maxLen

/-- `CF_PARM` -/
structure CfParm where
  bValid : Bool
  cfpCount : UInt8
  cfpPeriod : UInt8
  cfpMaxDuration : UInt16
  cfpDurRemaining : UInt16
  deriving DecidableEq, Repr

/-- What is read of `HT_CAPABILITY_IE` and of `ADD_HT_INFO_IE`. -/
structure HtInfo where
  channelWidth40 : Bool
  controlChan : UInt8
  extChanBelow : Bool
  extChanAbove : Bool
  deriving DecidableEq, Repr

/-- The elements of a security kind that are kept apart, with their headers. -/
structure CustomIes where
  wpaIE : List UInt8
  rsnIE : List UInt8
  wpsIE : List UInt8
  deriving DecidableEq, Repr

/-- An element with its header, or nothing when it is too long. -/
def customIe (eid len : UInt8) (octet : List UInt8) : List UInt8 :=
  if len.toNat + 2 > maxCustomLen then [] else eid :: len :: octet.take len.toNat

def CustomIes.pick (ies : CustomIes) (eid len : UInt8) (octet : List UInt8) : CustomIes :=
  if eid = ieWpa then
    if octet.take 4 = wpsOui then { ies with wpsIE := customIe eid len octet }
    else if octet.take 4 = wpaOui then { ies with wpaIE := customIe eid len octet }
    else ies
  else if eid = ieRsn then
    if (octet.drop 2).take 3 = rsnOui then { ies with rsnIE := customIe eid len octet }
    else ies
  else ies

/-- The loop over the elements; every element has two bytes at least. -/
def CustomIes.parse : ℕ → List UInt8 → CustomIes → CustomIes
  | fuel + 1, eid :: len :: octet, ies =>
    if len.toNat ≤ octet.length then
      parse fuel (octet.drop len.toNat) (ies.pick eid len octet)
    else ies
  | _, _, ies => ies

/-- What `BssEntrySet` is called with, but for the address and the channel. -/
structure BssInfo where
  ssid : List UInt8
  bssType : UInt8
  beaconPeriod : UInt16
  cfParm : CfParm
  atimWin : UInt16
  capabilityInfo : UInt16
  supRate : List UInt8
  extRate : List UInt8
  htCapability : List UInt8
  addHtInfo : List UInt8
  htInfo : HtInfo
  newExtChanOffset : UInt8
  rssi : ℤ
  timeStamp : UInt64
  ckipFlag : UInt8
  vie : List UInt8
  deriving DecidableEq, Repr

/-- What the functions of the table read and write of `BSS_ENTRY`. -/
structure BssEntry where
  bssid : Addr
  channel : UInt8
  centralChannel : UInt8
  bssType : UInt8
  atimWin : UInt16
  beaconPeriod : UInt16
  supRate : List UInt8
  supRateLen : ℕ
  extRate : List UInt8
  htCapability : List UInt8
  addHtInfo : List UInt8
  newExtChanOffset : UInt8
  rssi : ℤ
  privacy : Bool
  hidden : Bool
  capabilityInfo : UInt16
  cfParm : CfParm
  ssid : List UInt8
  timeStamp : UInt64
  varIEs : List UInt8
  varIeFromProbeRspLen : ℕ
  pVarIeFromProbRsp : Option Buffer
  ckipFlag : UInt8
  customIes : CustomIes
  deriving DecidableEq, Repr

/-- An entry filled with zeroes. -/
def BssEntry.zero : BssEntry where
  bssid := Vector.replicate 6 0
  channel := 0
  centralChannel := 0
  bssType := 0
  atimWin := 0
  beaconPeriod := 0
  supRate := []
  supRateLen := 0
  extRate := []
  htCapability := []
  addHtInfo := []
  newExtChanOffset := 0
  rssi := 0
  privacy := false
  hidden := false
  capabilityInfo := 0
  cfParm := ⟨false, 0, 0, 0, 0⟩
  ssid := []
  timeStamp := 0
  varIEs := []
  varIeFromProbeRspLen := 0
  pVarIeFromProbRsp := none
  ckipFlag := 0
  customIes := ⟨[], [], []⟩

def isZero (bytes : List UInt8) : Bool := bytes.all fun b => b = 0

/-- The center of a channel of 40 MHz. -/
def centralChannel (channel : UInt8) (a : BssInfo) : UInt8 :=
  if a.htCapability.isEmpty || a.addHtInfo.isEmpty then channel
  else if 2 < a.htInfo.controlChan && a.htInfo.extChanBelow && a.htInfo.channelWidth40 then
    a.htInfo.controlChan - 2
  else if a.htInfo.extChanAbove && a.htInfo.channelWidth40 then a.htInfo.controlChan + 2
  else channel

/-- `BssEntrySet`; a hidden name does not replace a known one. -/
def bssEntrySet (e : BssEntry) (pBssid : Addr) (channel : UInt8) (a : BssInfo) : BssEntry :=
  let known := if a.ssid.isEmpty then (if isZero e.ssid then [] else e.ssid)
    else if isZero a.ssid then e.ssid
    else a.ssid
  { e with
    bssid := pBssid
    hidden := isZero a.ssid
    ssid := known
    bssType := a.bssType
    beaconPeriod := a.beaconPeriod
    cfParm := if a.bssType = bssInfra && a.cfParm.bValid then a.cfParm else e.cfParm
    atimWin := if a.bssType = bssInfra then e.atimWin else a.atimWin
    capabilityInfo := a.capabilityInfo
    privacy := a.capabilityInfo &&& 0x0010 != 0
    supRate := a.supRate.take maxLenOfSupportedRates
    supRateLen := a.supRate.length
    extRate := a.extRate.take maxLenOfSupportedRates
    newExtChanOffset := a.newExtChanOffset
    channel := channel
    centralChannel := centralChannel channel a
    rssi := a.rssi
    ckipFlag := a.ckipFlag
    timeStamp := a.timeStamp
    varIEs := a.vie
    htCapability := a.htCapability
    addHtInfo := if a.htCapability.isEmpty then [] else a.addHtInfo
    customIes := CustomIes.parse a.vie.length a.vie ⟨[], [], []⟩ }

end BssTab

open BssTab

/-- `BSS_TABLE`, and what is in the buffers. -/
structure BssTab where
  bssNr : ℕ
  bssOverlapNr : ℕ
  bssEntry : ℕ → BssEntry
  varIe : Buffer → List UInt8

namespace BssTab
variable (s : BssTab)

def setEntry (i : ℕ) (e : BssEntry) : BssTab :=
  { s with bssEntry := Function.update s.bssEntry i e }

/-- `RTMPZeroMemory(pOldAddr, MAX_VIE_LEN)` -/
def zeroVarIe (p : Buffer) : BssTab :=
  { s with varIe := Function.update s.varIe p (List.replicate maxVieLen 0) }

/-- `NdisMoveMemory(pOldAddr, src, len)` -/
def moveVarIe (p : Buffer) (src : Option Buffer) (len : ℕ) : BssTab :=
  match src with
  | none => s
  | some src =>
    { s with varIe := Function.update s.varIe p ((s.varIe src).take len ++ (s.varIe p).drop len) }

/-- An entry is filled with zeroes, but keeps its buffer. -/
def clearEntry (i : ℕ) (rssi : ℤ) : BssTab :=
  let pOldAddr := (s.bssEntry i).pVarIeFromProbRsp
  let s := s.setEntry i { BssEntry.zero with
    rssi := rssi
    pVarIeFromProbRsp := pOldAddr }
  match pOldAddr with
  | none => s
  | some p => s.zeroVarIe p

def bssTableInit : BssTab :=
  (List.range maxLen).foldl (fun s i => s.clearEntry i (-127))
    { s with
      bssNr := 0
      bssOverlapNr := 0 }

/-- The channels of one band. -/
def lowBand (channel : UInt8) : Bool := channel ≤ 14

def bssTableSearch (pBssid : Addr) (channel : UInt8) : Option ℕ :=
  (List.range s.bssNr).find? fun i =>
    lowBand (s.bssEntry i).channel = lowBand channel && (s.bssEntry i).bssid = pBssid

/-- Entry `j` gets what entry `j + 1` has, in its own buffer if it has one. -/
def shiftEntry (j : ℕ) : BssTab :=
  let pOldAddr := (s.bssEntry j).pVarIeFromProbRsp
  let next := s.bssEntry (j + 1)
  match pOldAddr with
  | none => s.setEntry j next
  | some p => ((s.zeroVarIe p).moveVarIe p next.pVarIeFromProbRsp next.varIeFromProbeRspLen).setEntry
      j { next with pVarIeFromProbRsp := some p }

def bssTableDeleteEntry (pBssid : Addr) (channel : UInt8) : BssTab :=
  match (List.range s.bssNr).find? fun i =>
      (s.bssEntry i).channel = channel && (s.bssEntry i).bssid = pBssid with
  | none => s
  | some i =>
    let s := (List.range' i (s.bssNr - 1 - i)).foldl shiftEntry s
    let s := s.clearEntry (s.bssNr - 1) 0
    { s with bssNr := s.bssNr - 1 }

/-- What `BssTableSetEntry` reads of the adapter: the network that is looked for, and that of an
access-point client in a driver that has it. -/
structure Desired where
  mediaStateConnected : Bool
  apMediaStateConnected : Bool
  mlmeAux : Addr × List UInt8
  apCliMlmeAux : Option (Addr × List UInt8)
  deriving DecidableEq, Repr

/-- A network is looked for, by its address or its name. -/
def Desired.wants (d : Desired) (pBssid : Addr) (ssid : List UInt8) : Bool :=
  d.mlmeAux.1 = pBssid || d.mlmeAux.2 = ssid ||
    d.apCliMlmeAux.any fun aux => aux.1 = pBssid || aux.2 = ssid

/-- `BssTableSetEntry`, with the index, or `none` for `BSS_NOT_FOUND`. -/
def bssTableSetEntry (pAd : Desired) (pBssid : Addr) (channel : UInt8) (a : BssInfo) :
    BssTab × Option ℕ :=
  match s.bssTableSearch pBssid channel with
  | some i => (s.setEntry i (bssEntrySet (s.bssEntry i) pBssid channel a), some i)
  | none =>
    if maxLen ≤ s.bssNr then
      if !pAd.mediaStateConnected || !pAd.apMediaStateConnected then
        if pAd.wants pBssid a.ssid then
          let i := s.bssOverlapNr
          ({ s.setEntry i (bssEntrySet BssEntry.zero pBssid channel a) with
            bssOverlapNr := (i + 1) % maxLen }, some i)
        else (s, none)
      else (s, none)
    else
      let i := s.bssNr
      ({ s.setEntry i (bssEntrySet (s.bssEntry i) pBssid channel a) with bssNr := i + 1 }, some i)

/-- The calls of the functions. -/
inductive Call
  | init
  | set (pAd : Desired) (pBssid : Addr) (channel : UInt8) (a : BssInfo)
  | delete (pBssid : Addr) (channel : UInt8)

def step : Call → BssTab
  | .init => s.bssTableInit
  | .set pAd pBssid channel a => (s.bssTableSetEntry pAd pBssid channel a).1
  | .delete pBssid channel => s.bssTableDeleteEntry pBssid channel

/-- A table filled with zeroes, after the buffers that could be allocated were attached
(`UserCfgInit`). -/
def start (allocated : Buffer → Bool) : BssTab where
  bssNr := 0
  bssOverlapNr := 0
  bssEntry := fun i => { BssEntry.zero with
    pVarIeFromProbRsp := if h : i < maxLen then (if allocated ⟨i, h⟩ then some ⟨i, h⟩ else none)
      else none }
  varIe := fun _ => List.replicate maxVieLen 0

end BssTab
end Rt5572
