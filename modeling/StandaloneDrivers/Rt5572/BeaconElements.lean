import StandaloneDrivers.Rt5572.ManagementElements

/-! The elements of beacons and probe responses: the cases of `PeerBeaconAndProbeRspSanity`
(common/cmm_sanity.c), and `GetTimBit` (sta/sanity.c). The frame lies in memory from 0 on. -/
namespace Rt5572.Beacon
open Foundations
open BssTab (eidStruct IeWrite CfParm wpaOui wpsOui rsnOui ieRsn maxVieLen maxLenOfSupportedRates)

abbrev ieFhParm : UInt8 := 2
abbrev ieDsParm : UInt8 := 3
abbrev ieCfParm : UInt8 := 4
abbrev ieTim : UInt8 := 5
abbrev ieIbssParm : UInt8 := 6
abbrev ieQbssLoad : UInt8 := 11
abbrev ieChannelSwitch : UInt8 := 37
abbrev ieErp : UInt8 := 42
abbrev ieAddHt : UInt8 := 61
abbrev ieSecondaryChOffset : UInt8 := 62
abbrev ieExtCapability : UInt8 := 127
abbrev ieAironetCkip : UInt8 := 133
abbrev ieApTxPower : UInt8 := 150

abbrev maxLenOfSsid : ℕ := 32

/-- `sizeof(ADD_HT_INFO_IE)` -/
abbrev addHtInfoSize : ℕ := 22

/-- What is allocated for the WPS data. -/
abbrev wscSize : ℕ := 512

def preNHtOui : List UInt8 := [0x00, 0x90, 0x4c]
def ciscoOui : List UInt8 := [0x00, 0x40, 0x96]
def wmeInfoElem : List UInt8 := [0x00, 0x50, 0xf2, 0x02, 0x00, 0x01]
def wmeParmElem : List UInt8 := [0x00, 0x50, 0xf2, 0x02, 0x01, 0x01]

/-- What the parser asks of the adapter, and whether the buffer for the WPS data was allocated. -/
structure Adapter where
  opModeSta : Bool
  infraOn : Bool
  bssid : List UInt8
  aid : UInt16
  channelList : List UInt8
  latchChannel : UInt8
  cwMaxInBits : UInt8
  pPeerWscIe : Bool

/-- `EDCA_PARM`, with the access categories by their numbers. -/
structure EdcaParm where
  bValid : Bool
  bQAck : Bool
  bQueueRequest : Bool
  bTxopRequest : Bool
  bAPSDCapable : Bool
  edcaUpdateCount : UInt8
  aifsn : ℕ → UInt8
  cwmin : ℕ → UInt8
  cwmax : ℕ → UInt8
  txop : ℕ → ℕ
  bACM : ℕ → Bool

structure QbssLoadParm where
  bValid : Bool
  staNum : ℕ
  channelUtilization : UInt8
  remainingAdmissionControl : ℕ

/-- What is left to the caller, the variable elements apart. An array is given as far as its length
says. -/
structure Fields where
  ssid : List UInt8
  channel : UInt8
  newChannel : UInt8
  cfParm : CfParm
  atimWin : ℕ
  erp : UInt8
  dtimCount : UInt8
  dtimPeriod : UInt8
  bcastFlag : Bool
  messageToMe : Bool
  supRate : List UInt8
  extRate : List UInt8
  ckipFlag : UInt8
  aironetCellPowerLimit : UInt8
  edcaParm : EdcaParm
  qbssLoad : QbssLoadParm
  ralinkIe : ℕ
  preNHtCapabilityLen : ℕ
  selReg : UInt8
  htCapability : List UInt8
  extCapInfo : UInt8
  addHtInfoLen : ℕ
  addHtInfo : List UInt8
  newExtChannelOffset : UInt8
  ctrlChannel : UInt8

/-- What the loop goes by: the necessary elements that were found, `*pHtCapabilityLen`, the elements
that were copied to `pVIE`, and the WPS data. -/
structure State where
  sanity : UInt8
  htCapabilityLen : ℕ
  lengthVIE : ℕ
  vie : Memory
  peerWscIeLen : ℤ
  peerWscIe : Memory
  fields : Fields

/-- How a case ends: with the next element, at `SanityCheck`, or by returning FALSE. -/
inductive Exit
  | next
  | sanityCheck
  | returnFalse
  deriving DecidableEq, Repr

/-- What was read of the frame and written to arrays. -/
structure Visit where
  reads : List Span
  writes : List IeWrite
  out : State
  exit : Exit

/-- The attributes of a WPS element up to the selected registrar. -/
structure SelRegWalk where
  reads : List Span
  writes : List IeWrite
  selReg : UInt8

inductive ElementKind
  | ssid
  | suppRates
  | htCap
  | addHt
  | secondaryChOffset
  | fhParm
  | dsParm
  | cfParm
  | ibssParm
  | tim
  | channelSwitch
  | vendorSpecific
  | extSuppRates
  | erp
  | aironetCkip
  | apTxPower
  | rsn
  | qbssLoad
  | extCapability
  | unknown
  deriving DecidableEq, Repr

/-- The labels of the switch. -/
def elementKind (eid : UInt8) : ElementKind :=
  if eid = ieSsid then .ssid
  else if eid = ieSuppRates then .suppRates
  else if eid = ieHtCap then .htCap
  else if eid = ieAddHt then .addHt
  else if eid = ieSecondaryChOffset then .secondaryChOffset
  else if eid = ieFhParm then .fhParm
  else if eid = ieDsParm then .dsParm
  else if eid = ieCfParm then .cfParm
  else if eid = ieIbssParm then .ibssParm
  else if eid = ieTim then .tim
  else if eid = ieChannelSwitch then .channelSwitch
  else if eid = ieVendorSpecific then .vendorSpecific
  else if eid = ieExtSuppRates then .extSuppRates
  else if eid = ieErp then .erp
  else if eid = ieAironetCkip then .aironetCkip
  else if eid = ieApTxPower then .apTxPower
  else if eid = ieRsn then .rsn
  else if eid = ieQbssLoad then .qbssLoad
  else if eid = ieExtCapability then .extCapability
  else .unknown

inductive VendorKind
  | ralink
  | preN
  | wpa
  | wmeParm
  | wmeInfo
  | wps
  | other
  deriving DecidableEq, Repr

/-- A number as a `size_t` or as the offset from a pointer. -/
def sizeT (n : ℤ) : ℕ := (n % 2 ^ 32).toNat

/-- A case that only sets fields. -/
def State.set (s : State) (reads : List Span) (fields : Fields) : Visit :=
  ⟨reads, [], { s with fields := fields }, .next⟩

section Parts
variable (m : Memory) (pos : ℕ)

def len : ℕ := (m (pos + 1)).toNat

/-- The element is copied to the end of `pVIE`, with its header. -/
def Visit.storeVie (v : Visit) : Visit :=
  { v with
    reads := v.reads ++ [⟨pos, len m pos + 2⟩]
    writes := v.writes ++ [⟨maxVieLen, ⟨v.out.lengthVIE, len m pos + 2⟩⟩]
    out :=
      { v.out with
        vie := v.out.vie.write v.out.lengthVIE (m.read pos (len m pos + 2))
        lengthVIE := v.out.lengthVIE + (len m pos + 2) } }

/-- Both HT elements are reported by a station only. -/
def Visit.storeVieIf (sta : Bool) (v : Visit) : Visit := if sta then v.storeVie m pos else v

/-- `SubType == SUBTYPE_BEACON` -/
def isBeacon : Bool := m 0 >>> 4 == 8

/-- The byte of the bitmap for `Aid`, counted from the first one that is there. -/
def timByte (aid : UInt16) : UInt8 := (aid >>> 3).toUInt8 - (m (pos + 4) &&& 0xfe)

/-- The bitmap, as its length says, covers `Aid`. -/
def timCovers (aid : UInt16) : Bool :=
  let n1 := m (pos + 4) &&& 0xfe
  let n2 := m (pos + 1) - 4 + n1
  !(decide (aid.toNat < n1.toNat * 8) || decide ((n2.toNat + 1) * 8 ≤ aid.toNat))

def timReads (aid : UInt16) : List Span :=
  [⟨pos + 1, 1⟩, ⟨pos + 2, 1⟩, ⟨pos + 3, 1⟩, ⟨pos + 4, 1⟩] ++
    if timCovers m pos aid then [⟨pos + 5 + (timByte m pos aid).toNat, 1⟩] else []

/-- `GetTimBit` -/
def getTimBit (aid : UInt16) (f : Fields) : Fields :=
  let myByte := timByte m pos aid
  let myBit := (aid % 16).toUInt8 - if myByte &&& 1 != 0 then 8 else 0
  { f with
    dtimCount := m (pos + 2)
    dtimPeriod := m (pos + 3)
    bcastFlag := m (pos + 2) == 0 && m (pos + 4) &&& 1 != 0
    messageToMe := timCovers m pos aid && (m (pos + 5 + myByte.toNat)).toNat.testBit myBit.toNat }

/-- One access category of a WMM parameter element. -/
def EdcaParm.record (e : EdcaParm) (ptr : ℕ) : EdcaParm :=
  let aci := ((m ptr &&& 0x60) >>> 5).toNat
  { e with
    bACM := Function.update e.bACM aci (m ptr &&& 0x10 == 0x10)
    aifsn := Function.update e.aifsn aci (m ptr &&& 0x0f)
    cwmin := Function.update e.cwmin aci (m (ptr + 1) &&& 0x0f)
    cwmax := Function.update e.cwmax aci (m (ptr + 1) >>> 4)
    txop := Function.update e.txop aci (m.le16 (ptr + 2)) }

/-- The first byte behind the OUI of both WMM elements. -/
def EdcaParm.announce (e : EdcaParm) : EdcaParm :=
  { e with
    bValid := true
    bQAck := false
    bQueueRequest := false
    bTxopRequest := false
    edcaUpdateCount := m (pos + 8) &&& 0x0f
    bAPSDCapable := m (pos + 8) &&& 0x80 != 0 }

def wmeParm (e : EdcaParm) : EdcaParm :=
  [0, 4, 8, 12].foldl (fun e k => e.record m (pos + 10 + k)) (e.announce m pos)

/-- `QID_AC_BE`, `QID_AC_BK`, `QID_AC_VI` and `QID_AC_VO` are 0 to 3. -/
def wmeInfo (cwMaxInBits : UInt8) (e : EdcaParm) : EdcaParm :=
  { e.announce m pos with
    bACM := fun q => if q ≤ 3 then false else e.bACM q
    aifsn := fun q => [3, 7, 2, 2].getD q (e.aifsn q)
    cwmin := fun q => [4, 4, 3, 2].getD q (e.cwmin q)
    cwmax := fun q =>
      [cwMaxInBits, cwMaxInBits, cwMaxInBits, cwMaxInBits - 1].getD q (e.cwmax q)
    txop := fun q => [0, 0, 96, 48].getD q (e.txop q) }

/-- The loop over the attributes; `left` is what `Len` says when it is positive. -/
def selRegWalk (left pData : ℕ) (selReg : UInt8) : SelRegWalk :=
  if 0 < left then
    if m.be16 pData = 0x1041 then
      let dataLen := m.be16 (pData + 2)
      { reads := [⟨pData, 5⟩, ⟨pData + 4, dataLen⟩]
        writes := [⟨1, ⟨0, dataLen⟩⟩]
        selReg := if 0 < dataLen then m (pData + 4) else selReg }
    else
      let rest := selRegWalk (left - (m.be16 (pData + 2) + 4)) (pData + (m.be16 (pData + 2) + 4))
        selReg
      { rest with reads := ⟨pData, 5⟩ :: rest.reads }
  else ⟨[], [], selReg⟩
  termination_by left

end Parts

section Cases
variable (a : Adapter) (m : Memory) (pos : ℕ) (s : State)

/-- `case IE_SSID` -/
def caseSsid : Visit :=
  if s.sanity &&& 1 ≠ 0 then s.set [] s.fields
  else if len m pos ≤ maxLenOfSsid then
    { reads := [⟨pos + 2, len m pos⟩]
      writes := [⟨maxLenOfSsid, ⟨0, len m pos⟩⟩]
      out :=
        { s with
          sanity := s.sanity ||| 1
          fields := { s.fields with ssid := m.read (pos + 2) (len m pos) } }
      exit := .next }
  else ⟨[], [], s, .sanityCheck⟩

/-- `case IE_SUPP_RATES` -/
def caseSuppRates : Visit :=
  if len m pos ≤ maxLenOfSupportedRates then
    { reads := [⟨pos + 2, len m pos⟩]
      writes := [⟨maxLenOfSupportedRates, ⟨0, len m pos⟩⟩]
      out :=
        { s with
          sanity := s.sanity ||| 2
          fields := { s.fields with supRate := m.read (pos + 2) (len m pos) } }
      exit := .next }
  else ⟨[], [], s, .sanityCheck⟩

/-- `case IE_HT_CAP` -/
def caseHtCap : Visit :=
  if htCapabilitySize ≤ len m pos then
    let preN := if a.opModeSta then 0 else s.fields.preNHtCapabilityLen
    Visit.storeVieIf m pos a.opModeSta
      { reads := [⟨pos + 2, htCapabilitySize⟩]
        writes := [⟨htCapabilitySize, ⟨0, htCapabilitySize⟩⟩]
        out :=
          { s with
            htCapabilityLen := htCapabilitySize
            fields :=
              { s.fields with
                htCapability := m.read (pos + 2) htCapabilitySize
                preNHtCapabilityLen := preN } }
        exit := .next }
  else s.set [] s.fields

/-- `case IE_ADD_HT` -/
def caseAddHt : Visit :=
  if addHtInfoSize ≤ len m pos then
    Visit.storeVieIf m pos a.opModeSta
      { reads := [⟨pos + 2, addHtInfoSize⟩]
        writes := [⟨addHtInfoSize, ⟨0, addHtInfoSize⟩⟩]
        out :=
          { s with
            fields :=
              { s.fields with
                addHtInfo := m.read (pos + 2) addHtInfoSize
                addHtInfoLen := addHtInfoSize
                ctrlChannel := m (pos + 2) } }
        exit := .next }
  else s.set [] s.fields

/-- `case IE_DS_PARM`; a station also asks `ChannelSanity`. -/
def caseDsParm : Visit :=
  if len m pos = 1 then
    let f := { s.fields with channel := m (pos + 2) }
    if a.opModeSta && !a.channelList.contains (m (pos + 2)) then
      ⟨[⟨pos + 2, 1⟩], [], { s with fields := f }, .sanityCheck⟩
    else ⟨[⟨pos + 2, 1⟩], [], { s with sanity := s.sanity ||| 4, fields := f }, .next⟩
  else ⟨[], [], s, .sanityCheck⟩

/-- `case IE_CF_PARM` -/
def caseCfParm : Visit :=
  if len m pos = 6 then
    s.set [⟨pos + 2, 1⟩, ⟨pos + 3, 1⟩, ⟨pos + 4, 2⟩, ⟨pos + 6, 2⟩]
      { s.fields with
        cfParm := ⟨true, m (pos + 2), m (pos + 3), .ofNat (m.le16 (pos + 4)),
          .ofNat (m.le16 (pos + 6))⟩ }
  else ⟨[], [], s, .returnFalse⟩

/-- `case IE_IBSS_PARM` -/
def caseIbssParm : Visit :=
  if len m pos = 2 then
    ⟨[⟨pos + 2, 2⟩], [⟨2, ⟨0, 2⟩⟩],
      { s with fields := { s.fields with atimWin := m.le16 (pos + 2) } }, .next⟩
  else ⟨[], [], s, .returnFalse⟩

/-- The beacon is one of the network that the station is in. -/
def ownBeacon : Bool := isBeacon m && a.infraOn && m.read 16 6 == a.bssid

/-- `case IE_TIM` -/
def caseTim : Visit :=
  if ownBeacon a m then s.set (timReads m pos a.aid) (getTimBit m pos a.aid s.fields)
  else s.set [] s.fields

/-- A single byte that is read of an element of one length. -/
def State.setByte (n i : ℕ) (put : UInt8 → Fields) : Visit :=
  if len m pos = n then s.set [⟨pos + 2 + i, 1⟩] (put (m (pos + 2 + i))) else s.set [] s.fields

/-- `case IE_SECONDARY_CH_OFFSET` -/
def caseSecondaryChOffset : Visit :=
  s.setByte m pos 1 0 fun b => { s.fields with newExtChannelOffset := b }

/-- `case IE_CHANNEL_SWITCH_ANNOUNCEMENT` -/
def caseChannelSwitch : Visit := s.setByte m pos 3 1 fun b => { s.fields with newChannel := b }

/-- `case IE_ERP` -/
def caseErp : Visit := s.setByte m pos 1 0 fun b => { s.fields with erp := b }

/-- `case IE_AIRONET_CKIP` -/
def caseAironetCkip : Visit :=
  if len m pos < 28 then s.set [] s.fields
  else s.set [⟨pos + 10, 1⟩] { s.fields with ckipFlag := m (pos + 10) }

/-- `case IE_AP_TX_POWER` -/
def caseApTxPower : Visit :=
  if len m pos ≠ 6 then s.set [] s.fields
  else if m.read (pos + 2) 3 = ciscoOui then
    s.set [⟨pos + 2, 3⟩, ⟨pos + 6, 1⟩] { s.fields with aironetCellPowerLimit := m (pos + 6) }
  else s.set [⟨pos + 2, 3⟩] s.fields

/-- `case IE_EXT_SUPP_RATES` -/
def caseExtSuppRates : Visit :=
  if len m pos ≤ maxLenOfSupportedRates then
    ⟨[⟨pos + 2, len m pos⟩], [⟨maxLenOfSupportedRates, ⟨0, len m pos⟩⟩],
      { s with fields := { s.fields with extRate := m.read (pos + 2) (len m pos) } }, .next⟩
  else s.set [] s.fields

/-- `case IE_RSN` -/
def caseRsn : Visit :=
  if m.read (pos + 4) 3 = rsnOui then (s.set [⟨pos + 4, 3⟩] s.fields).storeVie m pos
  else s.set [⟨pos + 4, 3⟩] s.fields

/-- `case IE_QBSS_LOAD` -/
def caseQbssLoad : Visit :=
  if len m pos = 5 then
    (s.set [⟨pos + 2, 2⟩, ⟨pos + 4, 1⟩, ⟨pos + 5, 2⟩]
      { s.fields with
        qbssLoad := ⟨true, m.le16 (pos + 2), m (pos + 4), m.le16 (pos + 5)⟩ }).storeVie m pos
  else s.set [] s.fields

/-- `case IE_EXT_CAPABILITY`; `EXT_CAP_INFO_ELEMENT` is one byte. -/
def caseExtCapability : Visit :=
  if 1 ≤ len m pos then
    ⟨[⟨pos + 2, 1⟩], [⟨1, ⟨0, 1⟩⟩],
      { s with fields := { s.fields with extCapInfo := m (pos + 2) } }, .next⟩
  else s.set [] s.fields

/-- The tests of `case IE_VENDOR_SPECIFIC`, in their order. -/
def vendorKind (htCapabilityLen : ℕ) : VendorKind :=
  if m.read (pos + 2) 3 = ralinkOui ∧ len m pos = 7 then .ralink
  else if htCapabilityLen = 0 ∧ m.read (pos + 2) 3 = preNHtOui ∧ 4 ≤ len m pos ∧ a.opModeSta then
    .preN
  else if m.read (pos + 2) 4 = wpaOui then .wpa
  else if m.read (pos + 2) 6 = wmeParmElem ∧ len m pos = 24 then .wmeParm
  else if m.read (pos + 2) 6 = wmeInfoElem ∧ len m pos = 7 then .wmeInfo
  else if m.read (pos + 2) 4 = wpsOui then .wps
  else .other

/-- What the tests up to this kind compare. -/
def vendorReads (htCapabilityLen : ℕ) (kind : VendorKind) : List Span :=
  let htReads : List Span := if htCapabilityLen = 0 then [⟨pos + 2, 3⟩] else []
  ⟨pos + 2, 3⟩ ::
    match kind with
    | .ralink => []
    | .preN => htReads
    | .wpa => htReads ++ [⟨pos + 2, 4⟩]
    | .wmeParm => htReads ++ [⟨pos + 2, 4⟩, ⟨pos + 2, 6⟩]
    | .wmeInfo => htReads ++ [⟨pos + 2, 4⟩, ⟨pos + 2, 6⟩, ⟨pos + 2, 6⟩]
    | .wps => htReads ++ [⟨pos + 2, 4⟩, ⟨pos + 2, 6⟩, ⟨pos + 2, 6⟩, ⟨pos + 2, 4⟩]
    | .other => htReads ++ [⟨pos + 2, 4⟩, ⟨pos + 2, 6⟩, ⟨pos + 2, 6⟩, ⟨pos + 2, 4⟩]

/-- The HT elements from before they had ids of their own. -/
def preNHt (v : Visit) : Visit :=
  if m (pos + 5) = 51 ∧ 30 ≤ len m pos then
    { v with
      reads := v.reads ++ [⟨pos + 6, htCapabilitySize⟩]
      writes := v.writes ++ [⟨htCapabilitySize, ⟨0, htCapabilitySize⟩⟩]
      out.fields.htCapability := m.read (pos + 6) htCapabilitySize
      out.fields.preNHtCapabilityLen := htCapabilitySize }
  else if m (pos + 5) = 52 ∧ 26 ≤ len m pos then
    { v with
      reads := v.reads ++ [⟨pos + 6, addHtInfoSize⟩]
      writes := v.writes ++ [⟨addHtInfoSize, ⟨0, addHtInfoSize⟩⟩]
      out.fields.addHtInfo := m.read (pos + 6) addHtInfoSize
      out.fields.addHtInfoLen := addHtInfoSize }
  else v

/-- The data of a WPS element is gathered, as long as there is any room. -/
def gatherWps (v : Visit) : Visit :=
  if a.pPeerWscIe ∧ v.out.peerWscIeLen < wscSize then
    let count := sizeT ((len m pos : ℤ) - 4)
    let place := sizeT v.out.peerWscIeLen
    { v with
      reads := v.reads ++ [⟨pos + 6, count⟩]
      writes := v.writes ++ [⟨wscSize, ⟨place, count⟩⟩]
      out.peerWscIe := v.out.peerWscIe.write place (m.read (pos + 6) count)
      out.peerWscIeLen := v.out.peerWscIeLen + (len m pos - 4) }
  else v

/-- The selected registrar of a beacon. -/
def findSelReg (v : Visit) : Visit :=
  if isBeacon m then
    let walk := selRegWalk m (len m pos - 4) (pos + 6) v.out.fields.selReg
    { v with
      reads := v.reads ++ walk.reads
      writes := v.writes ++ walk.writes
      out.fields.selReg := walk.selReg }
  else v

/-- `case IE_VENDOR_SPECIFIC` -/
def caseVendorSpecific : Visit :=
  let kind := vendorKind a m pos s.htCapabilityLen
  let reads := vendorReads pos s.htCapabilityLen kind
  match kind with
  | .ralink =>
      s.set (reads ++ [⟨pos + 5, 1⟩])
        { s.fields with
          ralinkIe := if m (pos + 5) ≠ 0 then (m (pos + 5)).toNat else 0xf0000000 }
  | .preN => preNHt m pos (s.set (reads ++ [⟨pos + 5, 1⟩]) s.fields)
  | .wpa => (s.set reads s.fields).storeVie m pos
  | .wmeParm =>
      s.set (reads ++ [⟨pos + 8, 1⟩, ⟨pos + 10, 16⟩])
        { s.fields with edcaParm := wmeParm m pos s.fields.edcaParm }
  | .wmeInfo =>
      s.set (reads ++ [⟨pos + 8, 1⟩])
        { s.fields with edcaParm := wmeInfo m pos a.cwMaxInBits s.fields.edcaParm }
  | .wps => findSelReg m pos (gatherWps a m pos (s.set reads s.fields))
  | .other => s.set reads s.fields

/-- The switch over the elements. -/
def element : Visit :=
  match elementKind (m pos) with
  | .ssid => caseSsid m pos s
  | .suppRates => caseSuppRates m pos s
  | .htCap => caseHtCap a m pos s
  | .addHt => caseAddHt a m pos s
  | .secondaryChOffset => caseSecondaryChOffset m pos s
  | .fhParm => s.set [] s.fields
  | .dsParm => caseDsParm a m pos s
  | .cfParm => caseCfParm m pos s
  | .ibssParm => caseIbssParm m pos s
  | .tim => caseTim a m pos s
  | .channelSwitch => caseChannelSwitch m pos s
  | .vendorSpecific => caseVendorSpecific a m pos s
  | .extSuppRates => caseExtSuppRates m pos s
  | .erp => caseErp m pos s
  | .aironetCkip => caseAironetCkip m pos s
  | .apTxPower => caseApTxPower m pos s
  | .rsn => caseRsn m pos s
  | .qbssLoad => caseQbssLoad m pos s
  | .extCapability => caseExtCapability m pos s
  | .unknown => s.set [] s.fields

end Cases

end Rt5572.Beacon
