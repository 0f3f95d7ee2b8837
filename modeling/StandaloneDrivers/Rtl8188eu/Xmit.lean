import StandaloneDrivers.Foundations.Memory
import StandaloneDrivers.Rtl8188eu.Aes
import StandaloneDrivers.Rtl8188eu.Michael
import StandaloneDrivers.Rtl8188eu.Tkip

/-! Data frames on their way out: attributes, header, fragments, Michael code and encryption
(rtw_xmit.c, rtw_security.c). Buffer addresses are counted from `buf_addr`, which is aligned. -/
namespace Rtl8188eu
open Foundations

/-- What the data path reads and writes of `struct pkt_attrib`. -/
structure PktAttrib where
  subtype : UInt8
  bswenc : Bool
  etherType : ℕ
  seqnum : ℕ
  hdrlen : ℕ
  pktlen : ℕ
  lastTxcmdsz : ℕ
  nrFrags : ℕ
  encrypt : EncryAlgo
  iv : List UInt8
  icv : List UInt8
  priority : UInt8
  ackPolicy : UInt8
  dst : MacAddr
  src : MacAddr
  ta : MacAddr
  ra : MacAddr
  keyIdx : UInt8
  qosEn : Bool
  mdata : Bool
  eosp : UInt8
  psta : Option ℕ
  deriving DecidableEq, Repr

namespace PktAttrib

/-- `_rtw_memset(&pxmitframe->attrib, 0, sizeof(struct pkt_attrib))` -/
def zero : PktAttrib where
  subtype := 0
  bswenc := false
  etherType := 0
  seqnum := 0
  hdrlen := 0
  pktlen := 0
  lastTxcmdsz := 0
  nrFrags := 0
  encrypt := .noPrivacy
  iv := List.replicate 18 0
  icv := List.replicate 16 0
  priority := 0
  ackPolicy := 0
  dst := Vector.replicate 6 0
  src := Vector.replicate 6 0
  ta := Vector.replicate 6 0
  ra := Vector.replicate 6 0
  keyIdx := 0
  qosEn := false
  mdata := false
  eosp := 0
  psta := none

/-- `iv_len`, which `update_attrib` sets with the cipher. -/
def ivLen (attrib : PktAttrib) : ℕ :=
  match attrib.encrypt with
  | .wep40 | .wep104 => 4
  | .tkip | .aes => 8
  | _ => 0

/-- `icv_len` -/
def icvLen (attrib : PktAttrib) : ℕ :=
  match attrib.encrypt with
  | .wep40 | .wep104 | .tkip => 4
  | .aes => 8
  | _ => 0

/-- `bswenc ? icv_len : 0` -/
def reserved (attrib : PktAttrib) : ℕ := if attrib.bswenc then attrib.icvLen else 0

/-- Where the payload of a fragment begins. -/
def payload (attrib : PktAttrib) : ℕ := attrib.hdrlen + attrib.ivLen

end PktAttrib

def qosAcm (acmMask priority : UInt8) : UInt8 :=
  match priority with
  | 0 | 3 => if acmMask &&& 2 != 0 then 1 else priority
  | 4 | 5 => if acmMask &&& 4 != 0 then 0 else priority
  | 6 | 7 => if acmMask &&& 8 != 0 then 5 else priority
  | _ => priority

/-- The priority is taken from the IP header behind the Ethernet header. -/
def setQos (pkt : List UInt8) (attrib : PktAttrib) : PktAttrib :=
  { attrib with
    priority :=
      if attrib.etherType = 0x0800 then pkt.getD 15 0 >>> 5
      else if attrib.etherType = 0x888e then 7 else 0
    hdrlen := 26
    subtype := 0x88 }

/-- The addresses of receiver and transmitter. -/
def receiverTransmitter (mlme : MlmePriv) (dst src : MacAddr) : MacAddr × MacAddr :=
  if mlme.adhocState || mlme.adhocMasterState then (dst, src)
  else if mlme.stationState then (mlme.bssid, src)
  else if mlme.apState then (dst, mlme.bssid)
  else (Vector.replicate 6 0, Vector.replicate 6 0)

/-- The QoS of the station, or that of the network, decides on the QoS field. -/
def updateQos (mlme : MlmePriv) (psta : StaInfo) (pkt : List UInt8) (attrib : PktAttrib) :
    PktAttrib :=
  if mlme.apState || mlme.adhocState || mlme.adhocMasterState then
    if psta.qosOption then setQos pkt attrib else attrib
  else if mlme.qosOption then
    let attrib := setQos pkt attrib
    if mlme.acmMask != 0 then { attrib with priority := qosAcm mlme.acmMask attrib.priority }
    else attrib
  else attrib

/-- The cipher and the number of its key. -/
def updateCipher (sec : SecurityPriv) (psta : StaInfo) (bmcast : Bool) (attrib : PktAttrib) :
    PktAttrib :=
  if psta.ieee8021xBlocked then { attrib with encrypt := .noPrivacy }
  else { attrib with
    encrypt := getEncryAlgo sec psta.dot118021XPrivacy bmcast .noPrivacy
    keyIdx :=
      match sec.dot11AuthAlgrthm with
      | 0 | 1 | 3 => UInt8.ofNat sec.dot11PrivacyKeyIndex
      | 2 => if bmcast then UInt8.ofNat sec.dot118021XGrpKeyid else 0
      | _ => 0 }

/-- The attributes of an Ethernet frame; `none` is a frame that is dropped. -/
def updateAttrib (mlme : MlmePriv) (sec : SecurityPriv) (stapriv : StaPriv) (pkt : List UInt8) :
    Option PktAttrib :=
  let dst := macAt pkt 0
  let src := macAt pkt 6
  let addresses := receiverTransmitter mlme dst src
  let bmcast := isMcast addresses.1
  (if bmcast then stapriv.rtwGetBcmcStainfo else stapriv.rtwGetStainfo (some addresses.1)).bind
    fun slot => (stapriv.stainfo[slot]?).bind fun psta =>
      if !bmcast && mlme.apState && !psta.fwLinked then none
      else
        let attrib := updateQos mlme psta pkt { PktAttrib.zero with
          dst := dst
          src := src
          ra := addresses.1
          ta := addresses.2
          etherType := be16 pkt 12
          pktlen := pkt.length - 14
          psta := some slot
          hdrlen := 24
          subtype := 0x08 }
        if psta.ieee8021xBlocked && attrib.etherType != 0x888e && !mlme.mpState then none
        else
          let attrib := updateCipher sec psta bmcast attrib
          if attrib.encrypt = .tkip && !sec.busetkipkey then none
          else some { attrib with
            bswenc := attrib.encrypt != .noPrivacy && (sec.swEncrypt || !sec.hwDecrypted)
            mdata := false
            eosp := 0
            qosEn := psta.qosOption }

/-- A frame that is to be put together: the state of the driver, the attributes, the bytes behind
the Ethernet header, and the buffer. `hdrlen` is an `u16`, `frag_len` an `uint`, and `mem_sz` an
`s32`. -/
structure XmitFrame where
  mlme : MlmePriv
  sec : SecurityPriv
  stapriv : StaPriv
  attrib : PktAttrib
  pktfile : List UInt8
  fragLen : ℕ
  pktOffset : ℤ
  buf : Memory
  hdrlen_ge : 24 ≤ attrib.hdrlen
  hdrlen_lt : attrib.hdrlen < 2 ^ 16
  fragLen_lt : fragLen < 2 ^ 32
  psta_lt : ∀ slot, attrib.psta = some slot → slot < stapriv.stainfo.length
  pktfile_lt : pktfile.length < 2 ^ 31

/-- `RND4` -/
def rnd4 (x : ℕ) : ℕ := (x / 4 + if x % 4 = 0 then 0 else 1) * 4

namespace XmitFrame
variable (x : XmitFrame)

/-- `hw_hdr_offset`, an `u8`. -/
def hwHdrOffset : ℕ := ((32 + x.pktOffset * 8) % 256).toNat

def bmcst : Bool := isMcast x.attrib.ra

/-- The station of the attributes, else that of the receiver address. -/
def stainfo : Option StaInfo :=
  match x.attrib.psta with
  | some slot => x.stapriv.stainfo[slot]?
  | none => x.stapriv.station x.attrib.ra

/-- The frame control field, from the bits that are set in it. -/
def frameCtl : List UInt8 :=
  let ds : UInt8 := if x.mlme.stationState then 1 else if x.mlme.apState then 2 else 0
  if x.attrib.subtype &&& 0x08 != 0 then
    [x.attrib.subtype, ds ||| (if x.attrib.mdata then 0x20 else 0) |||
      if x.attrib.encrypt != .noPrivacy then 0x40 else 0]
  else [x.attrib.subtype, 0]

/-- Addresses 1 to 3, and whether the header has a QoS field; `none` is a state of the driver in
which no frame may be sent. -/
def addresses (psta : StaInfo) : Option (List UInt8 × Bool) :=
  if x.mlme.stationState then
    some (x.mlme.bssid.toList ++ x.attrib.src.toList ++ x.attrib.dst.toList, x.mlme.qosOption)
  else if x.mlme.apState then
    some (x.attrib.dst.toList ++ x.mlme.bssid.toList ++ x.attrib.src.toList, psta.qosOption)
  else if x.mlme.adhocState || x.mlme.adhocMasterState then
    some (x.attrib.dst.toList ++ x.attrib.src.toList ++ x.mlme.bssid.toList, psta.qosOption)
  else none

/-- The QoS field. -/
def qosControl : List UInt8 :=
  [(x.attrib.priority &&& (0xf : UInt8)) ||| ((x.attrib.eosp &&& (1 : UInt8)) <<< 4) |||
    ((x.attrib.ackPolicy &&& (3 : UInt8)) <<< 5), 0]

/-- `rtw_make_wlanhdr` at `hdr`: the buffer and the next number of the station. The number is put
behind the QoS field, which it spares where the two are not the same two bytes. -/
def rtwMakeWlanhdr (mem : Memory) (hdr : ℕ) : Option (Memory × ℕ) :=
  let mem := (mem.write hdr (List.replicate 64 0)).write hdr x.frameCtl
  if x.attrib.subtype &&& 0x08 != 0 then
    x.stainfo.bind fun psta => (x.addresses psta).map fun r =>
      let mem := mem.write (hdr + 4) r.1
      let mem := if r.2 then mem.write (hdr + x.attrib.hdrlen - 2) x.qosControl else mem
      let seqnum := (psta.txseqTid.toList.getD x.attrib.priority.toNat 0 + 1) % 4096
      let seqCtl := [(mem (hdr + 22) &&& 0x0f) ||| UInt8.ofNat (seqnum % 16 * 16),
        UInt8.ofNat (seqnum / 16)]
      (mem.write (hdr + 22) seqCtl, seqnum)
  else some (mem, x.attrib.seqnum)

/-- A byte of the packet number. -/
def tsc (pn i : ℕ) : UInt8 := UInt8.ofNat (pn / 256 ^ i)

/-- `WEP_IV`, `TKIP_IV` and `AES_IV`: the IV and the next packet number. -/
def nextIv (pn : ℕ) : List UInt8 × ℕ :=
  let keyidx : UInt8 := if x.bmcst then x.attrib.keyIdx else 0
  let keyid (keyidx : UInt8) : UInt8 := (keyidx &&& (3 : UInt8)) <<< 6
  let high := [tsc pn 2, tsc pn 3, tsc pn 4, tsc pn 5]
  match x.attrib.encrypt with
  | .wep40 | .wep104 =>
      ([tsc pn 0, tsc pn 1, tsc pn 2, keyid x.attrib.keyIdx],
        if pn = 0xffffff then 0 else pn + 1)
  | .tkip =>
      ([tsc pn 1, (tsc pn 1 ||| (0x20 : UInt8)) &&& (0x7f : UInt8), tsc pn 0,
        (0x20 : UInt8) ||| keyid keyidx] ++ high,
        if pn = 0xffffffffffff then 0 else pn + 1)
  | .aes =>
      ([tsc pn 0, tsc pn 1, 0, (0x20 : UInt8) ||| keyid keyidx] ++ high,
        if pn = 0xffffffffffff then 0 else pn + 1)
  | _ => ([], pn)

end XmitFrame

def rtwPutSnap (hProto : ℕ) : List UInt8 :=
  [0xaa, 0xaa, 0x03, 0x00, 0x00, if hProto = 0x8137 || hProto = 0x80f3 then 0xf8 else 0x00,
    UInt8.ofNat (hProto / 256), UInt8.ofNat hProto]

/-- Bytes of the buffer, from `start` on. -/
structure Extent where
  start : ℕ
  length : ℕ
  deriving DecidableEq, Repr

/-- The buffer, the packet number of the station, what is left of the packet, where the next
fragment begins, and the payloads of the fragments that have been written. -/
structure Coalesced where
  mem : Memory
  pn : ℕ
  rest : List UInt8
  memStart : ℕ
  frags : List Extent
  lastTxcmdsz : ℕ

namespace XmitFrame
variable (x : XmitFrame)

/-- What a fragment has room for: `mpdu_len`, an `s32`. -/
def mpduLen (llcSz : ℕ) : ℤ :=
  (x.fragLen : ℤ) - 4 - x.attrib.hdrlen - x.attrib.ivLen - llcSz - x.attrib.reserved

/-- How much of the packet is read for a fragment, the length being taken as an `uint`. -/
def readLen (llcSz : ℕ) : ℕ :=
  if x.bmcst then x.attrib.pktlen else (x.mpduLen llcSz % 2 ^ 32).toNat

/-- The LLC header, in the first fragment only. -/
def llc (c : Coalesced) : List UInt8 :=
  if c.frags.isEmpty then rtwPutSnap x.attrib.etherType else []

/-- The bytes of the packet that are read for a fragment. -/
def chunk (c : Coalesced) : List UInt8 := c.rest.take (x.readLen (x.llc c).length)

def left (c : Coalesced) : List UInt8 := c.rest.drop (x.readLen (x.llc c).length)

/-- The payload of a fragment. -/
def extent (c : Coalesced) : Extent where
  start := c.memStart + x.attrib.payload
  length := (x.llc c).length + (x.chunk c).length

/-- The buffer with a fragment: more fragments are announced in its header, behind which come the
IV, the payload, and the bytes that are kept free for the ICV. -/
def fragmentWritten (c : Coalesced) : Memory :=
  let mem := c.mem.write (c.memStart + 1) [c.mem (c.memStart + 1) ||| 0x04]
  let mem := mem.write (c.memStart + x.attrib.hdrlen) (x.nextIv c.pn).1
  let mem := mem.write (x.extent c).start (x.llc c ++ x.chunk c)
  mem.write ((x.extent c).start + (x.extent c).length) (x.attrib.icv.take x.attrib.reserved)

def isLast (c : Coalesced) : Bool := x.bmcst || (x.left c).isEmpty

/-- A round of the loop of `rtw_xmitframe_coalesce` that writes the last fragment. -/
def lastRound (c : Coalesced) : Coalesced where
  mem := (x.fragmentWritten c).write (c.memStart + 1)
    [x.fragmentWritten c (c.memStart + 1) &&& 0xfb]
  pn := (x.nextIv c.pn).2
  rest := x.left c
  memStart := c.memStart
  frags := c.frags ++ [x.extent c]
  lastTxcmdsz := x.attrib.payload + (x.llc c).length + x.attrib.reserved + (x.chunk c).length

/-- A round after which the header of the next fragment is copied to its place. -/
def nextRound (c : Coalesced) : Coalesced :=
  let pframe := (x.extent c).start + (x.extent c).length + x.attrib.reserved
  let memStart := rnd4 pframe + x.hwHdrOffset
  { mem := (x.fragmentWritten c).write memStart
      ((x.fragmentWritten c).read x.hwHdrOffset x.attrib.hdrlen)
    pn := (x.nextIv c.pn).2
    rest := x.left c
    memStart := memStart
    frags := c.frags ++ [x.extent c]
    lastTxcmdsz := c.lastTxcmdsz }

/-- The loop, at most `fuel` rounds. -/
def coalesceLoop : ℕ → Coalesced → Option Coalesced
  | 0, _ => none
  | fuel + 1, c => if x.isLast c then some (x.lastRound c) else coalesceLoop fuel (x.nextRound c)

/-- The fragments of a frame; every fragment but the first holds a byte of the packet or more. -/
def coalesceFragments : Option Coalesced :=
  (x.stapriv.station x.attrib.ra).bind fun psta =>
    (x.rtwMakeWlanhdr x.buf x.hwHdrOffset).bind fun r =>
      x.coalesceLoop (x.pktfile.length + 2)
        ⟨r.1, psta.dot11txpn, x.pktfile, x.hwHdrOffset, [], x.attrib.lastTxcmdsz⟩

end XmitFrame

/-- `nr_frags`, an `u8`. -/
def Coalesced.nrFrags (c : Coalesced) : ℕ := c.frags.length % 256

/-- The frame with its Michael code, the bytes that were taken into the code, and its place. -/
structure MicAdded where
  coalesced : Coalesced
  message : List Extent
  place : ℕ

namespace XmitFrame
variable (x : XmitFrame)

/-- The loop of `xmitframe_addmic` over `n` fragments: the state of the code, where it ends, and
what it has read. -/
def micLoop (c : Coalesced) : ℕ → ℕ → MicData → MicData × ℕ × List Extent
  | 0, payload, micdata => (micdata, payload, [])
  | n + 1, payload, micdata =>
      let payload := rnd4 payload + x.attrib.payload
      if n = 0 then
        let length := c.lastTxcmdsz - x.attrib.payload - x.attrib.reserved
        (rtwSecmicappend micdata (c.mem.read payload length), payload + length, [⟨payload, length⟩])
      else
        let length := x.fragLen - x.attrib.payload - x.attrib.reserved
        let r := micLoop c n (payload + length + x.attrib.icvLen)
          (rtwSecmicappend micdata (c.mem.read payload length))
        (r.1, r.2.1, ⟨payload, length⟩ :: r.2.2)

def txMickey (stainfo : StaInfo) : Keytype :=
  if x.bmcst then keyAt x.sec.dot118021XGrptxmickey x.sec.dot118021XGrpKeyid
  else stainfo.dot11tkiptxmickey

/-- The priority that is taken into the code. -/
def micPriority : UInt8 := if x.attrib.qosEn then x.attrib.priority else 0

/-- A frame is dropped when there is no key. -/
def xmitframeAddmic (c : Coalesced) : Option MicAdded :=
  match x.attrib.encrypt, x.stainfo with
  | .tkip, some stainfo =>
      let key := x.txMickey stainfo
      if key = Vector.replicate 16 0 then none
      else
        let start := micStart key.toList (c.mem.read x.hwHdrOffset 30) x.micPriority
        let r := x.micLoop c c.nrFrags x.hwHdrOffset start
        some ⟨{ c with
          mem := c.mem.write r.2.1 (rtwSecgetmic r.1).1
          lastTxcmdsz := c.lastTxcmdsz + 8 }, r.2.2, r.2.1⟩
  | _, _ => some ⟨c, [], 0⟩

end XmitFrame

/-- One fragment as a cipher takes it: where it finds the IV, the bytes that it encrypts, and what
it writes over them and behind them. -/
structure EncryptCall where
  iv : ℕ
  payload : Extent
  output : List UInt8
  deriving DecidableEq, Repr

namespace XmitFrame
variable (x : XmitFrame)

/-- The loop of the ciphers over `n` fragments. -/
def encryptLoop (lastTxcmdsz : ℕ) (cipher : Memory → ℕ → ℕ → EncryptCall) :
    ℕ → ℕ → Memory → Memory × List EncryptCall
  | 0, _, mem => (mem, [])
  | n + 1, pframe, mem =>
      let length :=
        if n = 0 then lastTxcmdsz - x.attrib.payload - x.attrib.icvLen
        else x.fragLen - x.attrib.payload - x.attrib.icvLen
      let call := cipher mem pframe length
      let r := encryptLoop lastTxcmdsz cipher n (rnd4 (pframe + x.fragLen))
        (mem.write call.payload.start call.output)
      (r.1, call :: r.2)

/-- A fragment of `length` bytes encrypted with RC4, the key being made from the IV. -/
def arcfourCall (rc4key : List UInt8 → List UInt8) (mem : Memory) (pframe length : ℕ) :
    EncryptCall :=
  let iv := pframe + x.attrib.hdrlen
  let payload := pframe + x.attrib.payload
  ⟨iv, ⟨payload, length⟩, arcfourSeal (rc4key (mem.read iv 8)) (mem.read payload length)⟩

def rtwWepEncrypt (c : Coalesced) : Memory × List EncryptCall :=
  let keylength := x.sec.dot11DefKeylen.get x.sec.dot11PrivacyKeyIndex
  let key := keyAt x.sec.dot11DefKey x.sec.dot11PrivacyKeyIndex
  x.encryptLoop c.lastTxcmdsz (x.arcfourCall fun iv => wepkey iv key keylength) c.nrFrags
    x.hwHdrOffset c.mem

/-- The key of TKIP and AES. -/
def prwskey (stainfo : StaInfo) : Keytype :=
  if x.bmcst then keyAt x.sec.dot118021XGrpKey x.sec.dot118021XGrpKeyid
  else stainfo.dot118021xUncstKey

def rtwTkipEncrypt (c : Coalesced) : Memory × List EncryptCall :=
  match x.stainfo with
  | none => (c.mem, [])
  | some stainfo =>
      x.encryptLoop c.lastTxcmdsz (x.arcfourCall (tkipRc4key (x.prwskey stainfo) x.attrib.ta))
        c.nrFrags x.hwHdrOffset c.mem

/-- `aes_cipher`, which looks for the IV behind the header as it takes it. -/
def aesCall (key : Keytype) (mem : Memory) (pframe length : ℕ) : EncryptCall :=
  let mpdu := mem.read pframe (x.attrib.hdrlen + 32)
  let hdrlen := ccmHdrlen x.attrib.hdrlen mpdu
  let header : CcmHeader :=
    ⟨mpdu, hdrlen, qcExists mpdu, a4Exists x.attrib.hdrlen, pnVector mpdu hdrlen⟩
  let payload := pframe + hdrlen + 8
  ⟨pframe + hdrlen, ⟨payload, length⟩, ccmSeal key header (mem.read payload length)⟩

def rtwAesEncrypt (c : Coalesced) : Memory × List EncryptCall :=
  match x.stainfo with
  | none => (c.mem, [])
  | some stainfo =>
      x.encryptLoop c.lastTxcmdsz (x.aesCall (x.prwskey stainfo)) c.nrFrags x.hwHdrOffset c.mem

def xmitframeSwencrypt (c : Coalesced) : Memory × List EncryptCall :=
  if x.attrib.bswenc then
    match x.attrib.encrypt with
    | .wep40 | .wep104 => x.rtwWepEncrypt c
    | .tkip => x.rtwTkipEncrypt c
    | .aes => x.rtwAesEncrypt c
    | _ => (c.mem, [])
  else (c.mem, [])

/-- The buffer that is sent; `none` is a frame that is dropped. -/
def rtwXmitframeCoalesce : Option Memory :=
  x.coalesceFragments.bind fun c => (x.xmitframeAddmic c).map fun m =>
    (x.xmitframeSwencrypt m.coalesced).1

end XmitFrame

end Rtl8188eu
