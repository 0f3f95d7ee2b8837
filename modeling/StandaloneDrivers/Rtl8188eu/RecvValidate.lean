import StandaloneDrivers.Rtl8188eu.Station

/-! The checks of a data frame before it is decrypted, and the attributes that are read from its
header (rtw_recv.c). The test mode of the manufacturer is left out. -/
namespace Rtl8188eu
open Foundations
attribute [local instance] neZero_sixteen
attribute [local instance] neZero_seqRange

/-- A bit of the frame control field. -/
def frameBit (data : List UInt8) (n : ℕ) : Bool := (le16 data 0).testBit n

/-- What `validate_recv_frame` reads from every header. -/
def headerAttrib (data : List UInt8) (attrib : RxPktAttrib) : RxPktAttrib :=
  { attrib with
    toFrDs := 2 * (frameBit data 8).toNat + (frameBit data 9).toNat
    fragNum := Fin.ofNat 16 (le16 data 22)
    seqNum := Fin.ofNat 4096 (le16 data 22 / 16)
    mfrag := frameBit data 10
    privacy := frameBit data 14
    order := frameBit data 15 }

/-- The addresses of a data frame; receiver and transmitter are always the first two. -/
def addressAttrib (data : List UInt8) (attrib : RxPktAttrib) : RxPktAttrib :=
  { attrib with
    dst := macAt data (if attrib.toFrDs < 2 then 4 else 16)
    src := macAt data (match attrib.toFrDs with | 1 => 16 | 3 => 24 | _ => 10)
    bssid := macAt data (match attrib.toFrDs with | 0 => 16 | 1 => 10 | _ => 4)
    ra := macAt data 4
    ta := macAt data 10 }

/-- The QoS field and the length of the header. -/
def qosAttrib (data : List UInt8) (attrib : RxPktAttrib) : RxPktAttrib :=
  let hdrlen := if attrib.toFrDs = 3 then 30 else 24
  let htc := if attrib.order then 4 else 0
  if attrib.qos then
    { attrib with
      priority := Fin.ofNat 16 (le16 data 24)
      ackPolicy := le16 data 24 / 32 % 4
      amsdu := (le16 data 24).testBit 7
      hdrlen := hdrlen + 2 + htc }
  else { attrib with priority := 0, ackPolicy := 0, amsdu := false, hdrlen := hdrlen + htc }

/-- `SET_ICE_IV_LEN` -/
def setIceIvLen (attrib : RxPktAttrib) : RxPktAttrib :=
  match attrib.encrypt with
  | .wep40 | .wep104 => { attrib with ivLen := 4, icvLen := 4 }
  | .tkip => { attrib with ivLen := 8, icvLen := 4 }
  | .aes => { attrib with ivLen := 8, icvLen := 8 }
  | .other 6 => { attrib with ivLen := 18, icvLen := 16 }
  | _ => { attrib with ivLen := 0, icvLen := 0 }

/-- `_FAIL`, `RTW_RX_HANDLED`, and `_SUCCESS` with the slot of the station. -/
inductive RxRet where
  | fail
  | handled
  | found (psta : ℕ)
  deriving DecidableEq, Repr

def RxRet.ofStation : Option ℕ → RxRet
  | none => .fail
  | some psta => .found psta

def zeroAddr : MacAddr := Vector.replicate 6 0

section
variable (mlme : MlmePriv) (stapriv : StaPriv) (attrib : RxPktAttrib)

/-- A frame sent by the station itself, one for another station, or one of another network. -/
def foreign : Bool :=
  mlme.myid == attrib.src || (mlme.myid != attrib.dst && !isMcast attrib.dst) ||
    attrib.bssid == zeroAddr || mlme.bssid == zeroAddr || attrib.bssid != mlme.bssid

def sta2staDataFrame : RxRet :=
  let psta (staAddr : MacAddr) : RxRet :=
    .ofStation (if isMcast attrib.dst then stapriv.rtwGetBcmcStainfo
      else stapriv.rtwGetStainfo (some staAddr))
  if mlme.adhocState || mlme.adhocMasterState then
    if foreign mlme attrib then .fail else psta attrib.src
  else if mlme.stationState then
    if attrib.bssid != attrib.src then .fail else psta attrib.bssid
  else if mlme.apState then
    if isMcast attrib.dst then
      if !isMcast attrib.bssid then .fail else psta attrib.src
    else if attrib.bssid != attrib.dst then .fail else psta attrib.src
  else .fail

/-- A frame without data is counted and goes no further. -/
def ap2staDataFrame (nodata : Bool) : RxRet :=
  if mlme.stationState && (mlme.fwLinked || mlme.fwUnderLinking) then
    if foreign mlme attrib then .fail
    else
      match if isMcast attrib.dst then stapriv.rtwGetBcmcStainfo
        else stapriv.rtwGetStainfo (some attrib.bssid) with
      | none => .fail
      | some psta => if nodata then .handled else .found psta
  else if mlme.apState then .handled
  else .fail

def sta2apDataFrame (nodata : Bool) : RxRet :=
  if mlme.apState then
    if attrib.bssid != mlme.bssid then .fail
    else
      match stapriv.rtwGetStainfo (some attrib.src) with
      | none => .handled
      | some psta => if nodata then .handled else .found psta
  else .handled

/-- The station of a data frame. -/
def dataFrameStation (nodata : Bool) : RxRet :=
  match attrib.toFrDs with
  | 0 => sta2staDataFrame mlme stapriv attrib
  | 1 => ap2staDataFrame mlme stapriv attrib nodata
  | 2 => sta2apDataFrame mlme stapriv attrib nodata
  | _ => .fail

end

/-- The slot's last number for the priority, unless it is that of the frame. -/
def recvDecache (stapriv : StaPriv) (slot : ℕ) (attrib : RxPktAttrib) : Option StaPriv :=
  let seqCtrl := attrib.seqNum * 16 + attrib.fragNum.val
  (stapriv.stainfo[slot]?).bind fun psta =>
    if psta.tidRxseq.get attrib.priority = seqCtrl then none
    else some <| stapriv.modify slot fun psta =>
      { psta with tidRxseq := psta.tidRxseq.set attrib.priority seqCtrl }

/-- The cipher of a frame, and the lengths that go with it. -/
def cipherAttrib (sec : SecurityPriv) (dot118021XPrivacy : EncryAlgo) (attrib : RxPktAttrib) :
    RxPktAttrib :=
  if attrib.privacy then
    setIceIvLen { attrib with
      encrypt := getEncryAlgo sec dot118021XPrivacy (isMcast attrib.ra) attrib.encrypt }
  else { attrib with encrypt := .noPrivacy, ivLen := 0, icvLen := 0 }

/-- A frame that is to go on to `recv_func_posthandle`; without a result it is freed. -/
def validateRecvDataFrame (mlme : MlmePriv) (sec : SecurityPriv) (stapriv : StaPriv)
    (f : RecvFrame) : Option (StaPriv × RecvFrame) :=
  let attrib := addressAttrib f.mem f.attrib
  match dataFrameStation mlme stapriv attrib ((getFrameSubType f.mem).testBit 6) with
  | .found slot =>
      let attrib := qosAttrib f.mem attrib
      (stapriv.stainfo[slot]?).bind fun psta =>
        (recvDecache stapriv slot attrib).map fun stapriv =>
          (stapriv, { f with
            psta := some slot
            attrib := cipherAttrib sec psta.dot118021XPrivacy attrib })
  | _ => none

/-- The frame with the attributes of its header; `qos` is set for data frames only. -/
def readHeader (f : RecvFrame) : RecvFrame :=
  let attrib := headerAttrib f.mem f.attrib
  if getFrameType f.mem = wifiDataType then
    { f with attrib := { attrib with qos := (getFrameSubType f.mem).testBit 7 } }
  else { f with attrib := attrib }

end Rtl8188eu
