import StandaloneDrivers.Rt5572.BeaconElements
import StandaloneDrivers.Rtl8188eu.ElementRemoval

/-! `PeerBeaconAndProbeRspSanity` (common/cmm_sanity.c): the loop over the elements and what follows
it, and the frames for which nothing but the frame is read, nothing outside of the arrays is
written, and complete elements are left in `pVIE`. -/
namespace Rt5572.Beacon
open Foundations
open BssTab (eidStruct IeWrite rsnOui maxVieLen maxLenOfSupportedRates)
open Rtl8188eu (Element encodeElements)

/-- The fixed part of the frame. -/
structure Header where
  addr2 : List UInt8
  bssid : List UInt8
  timestamp : List UInt8
  beaconPeriod : ℕ
  capabilityInfo : ℕ
  bssInfra : Bool

structure Run where
  reads : List Span
  writes : List IeWrite
  ok : Bool
  header : Header
  out : State

/-- The WPS data of all elements as one, under a length of one byte. -/
def wpsElement (data : List UInt8) : List UInt8 :=
  [0xdd, .ofNat (data.length + 4), 0x00, 0x50, 0xf2, 0x04] ++ data

section Code
variable (a : Adapter) (m : Memory)

/-- The loop over the elements, which reads the length of the next one first. -/
def walk (stop pos : ℕ) (s : State) : Visit :=
  if pos + 2 + (m (pos + 1)).toNat ≤ stop then
    if maxVieLen ≤ s.lengthVIE + len m pos + 2 then ⟨[⟨pos + 1, 1⟩], [], s, .next⟩
    else
      let v := element a m pos s
      let reads := ⟨pos + 1, 1⟩ :: ⟨pos, 1⟩ :: v.reads
      if v.exit = .next then
        let rest := walk stop (eidStruct.next m pos) v.out
        ⟨reads ++ rest.reads, v.writes ++ rest.writes, rest.out, rest.exit⟩
      else ⟨reads, v.writes, v.out, v.exit⟩
  else ⟨[⟨pos + 1, 1⟩], [], s, .next⟩
  termination_by stop - pos
  decreasing_by
    have := eidStruct.lt_next m pos
    omega

/-- Above channel 14 the channel is taken from the HT element or from where the frame was heard. -/
def patchChannel (msgChannel : UInt8) (s : State) : State :=
  if 14 < a.latchChannel ∧ s.sanity &&& 4 = 0 then
    { s with
      sanity := s.sanity ||| 4
      fields.channel := if s.fields.ctrlChannel ≠ 0 then s.fields.ctrlChannel else msgChannel }
  else s

/-- The WPS data goes to the end of `pVIE`. -/
def appendWps (v : Visit) : Visit :=
  if a.pPeerWscIe ∧ 0 < v.out.peerWscIeLen ∧ v.out.peerWscIeLen < wscSize then
    let n := v.out.peerWscIeLen.toNat
    let ie := wpsElement (v.out.peerWscIe.read 0 n)
    { v with
      writes := v.writes ++
        [⟨maxVieLen, ⟨v.out.lengthVIE, 6⟩⟩, ⟨maxVieLen, ⟨v.out.lengthVIE + 6, n⟩⟩]
      out.vie := v.out.vie.write v.out.lengthVIE ie
      out.lengthVIE := v.out.lengthVIE + (n + 6) }
  else v

/-- What follows the loop. -/
def conclude (msgChannel : UInt8) (v : Visit) : Visit × Bool :=
  match v.exit with
  | .next =>
      let v := appendWps a { v with out := patchChannel a msgChannel v.out }
      (v, v.out.sanity == 7)
  | .sanityCheck => (v, v.out.sanity == 7)
  | .returnFalse => (v, false)

/-- What is set before the frame is read. -/
def resetFields (f : Fields) : Fields :=
  { f with
    atimWin := 0
    erp := 0
    dtimCount := 0
    dtimPeriod := 0
    bcastFlag := false
    messageToMe := false
    extRate := []
    ckipFlag := 0
    aironetCellPowerLimit := 0xff
    preNHtCapabilityLen := if a.opModeSta then 0 else f.preNHtCapabilityLen
    selReg := 0
    addHtInfoLen := 0
    extCapInfo := 0
    ralinkIe := 0
    newChannel := 0
    newExtChannelOffset := 0xff
    cfParm.bValid := false
    qbssLoad.bValid := false
    edcaParm.bValid := false
    ctrlChannel := 0 }

def header : Header where
  addr2 := m.read 10 6
  bssid := m.read 16 6
  timestamp := m.read 24 8
  beaconPeriod := m.le16 32
  capabilityInfo := m.le16 34
  bssInfra := m 34 &&& 1 != 0

/-- `PeerBeaconAndProbeRspSanity`; the fields, `pVIE` and the buffer for the WPS data are what was in
them. -/
def peerBeaconAndProbeRspSanity (msgLen : ℕ) (msgChannel : UInt8) (fields : Fields)
    (pVIE pPeerWscIe : Memory) : Run :=
  let r := conclude a msgChannel
    (walk a m msgLen 36 ⟨0, 0, 0, pVIE, 0, pPeerWscIe, resetFields a fields⟩)
  { reads := [⟨0, 2⟩, ⟨10, 6⟩, ⟨16, 6⟩, ⟨24, 8⟩, ⟨32, 2⟩, ⟨34, 2⟩] ++ r.1.reads
    writes := r.1.writes
    ok := r.2
    header := header m
    out := r.1.out }

end Code

/-- A concatenation of complete elements. -/
def ElementStream (bytes : List UInt8) : Prop := ∃ es : List Element, bytes = encodeElements es

/-- Only the frame is read, nothing is written outside of an array, and with TRUE complete elements
are left that fit in `pVIE`. -/
structure Run.Sound (r : Run) (msgLen : ℕ) : Prop where
  reads : ∀ s ∈ r.reads, s.Inside msgLen
  writes : ∀ w ∈ r.writes, w.span.Inside w.size
  vie : r.ok = true → r.out.lengthVIE ≤ maxVieLen ∧
    ElementStream (r.out.vie.read 0 r.out.lengthVIE)

/-- What the elements so far amount to: the necessary ones, the length of the HT capabilities, the
bytes that go to `pVIE`, and the WPS data that is gathered. -/
structure Counts where
  sanity : UInt8
  htLen : ℕ
  vieLen : ℕ
  wsc : List UInt8

namespace Counts
variable (a : Adapter) (m : Memory) (pos : ℕ) (c : Counts)

def store : Counts := { c with vieLen := c.vieLen + (len m pos + 2) }

def storeIf (sta : Bool) : Counts := if sta then c.store m pos else c

/-- The data of one more WPS element. -/
def gather : Counts :=
  if a.pPeerWscIe ∧ c.wsc.length < wscSize then
    { c with wsc := c.wsc ++ m.read (pos + 6) (len m pos - 4) }
  else c

def add : Counts :=
  match elementKind (m pos) with
  | .ssid => if c.sanity &&& 1 ≠ 0 then c else { c with sanity := c.sanity ||| 1 }
  | .suppRates => { c with sanity := c.sanity ||| 2 }
  | .dsParm => { c with sanity := c.sanity ||| 4 }
  | .htCap =>
      if htCapabilitySize ≤ len m pos then
        { c with htLen := htCapabilitySize }.storeIf m pos a.opModeSta
      else c
  | .addHt => if addHtInfoSize ≤ len m pos then c.storeIf m pos a.opModeSta else c
  | .vendorSpecific =>
      match vendorKind a m pos c.htLen with
      | .wpa => c.store m pos
      | .wps => c.gather a m pos
      | _ => c
  | .rsn => if m.read (pos + 4) 3 = rsnOui then c.store m pos else c
  | .qbssLoad => if len m pos = 5 then c.store m pos else c
  | _ => c

/-- The element is wrong in a way that ends the walk. -/
def Stops : Prop :=
  match elementKind (m pos) with
  | .ssid => c.sanity &&& 1 = 0 ∧ maxLenOfSsid < len m pos
  | .suppRates => maxLenOfSupportedRates < len m pos
  | .dsParm => len m pos ≠ 1 ∨ a.opModeSta = true ∧ m (pos + 2) ∉ a.channelList
  | .cfParm => len m pos ≠ 6
  | .ibssParm => len m pos ≠ 2
  | _ => False

/-- The attributes of a WPS element that are looked at, by their places. -/
def wscAttrs (left pData : ℕ) : List ℕ :=
  if 0 < left then
    if m.be16 pData = 0x1041 then [pData]
    else pData :: wscAttrs (left - (m.be16 (pData + 2) + 4)) (pData + (m.be16 (pData + 2) + 4))
  else []
  termination_by left

/-- There is room for the data of a WPS element, which has an OUI of its own, and no attribute that is
looked at is cut off; that of the selected registrar has one byte. -/
structure WpsFits (msgLen : ℕ) : Prop where
  room : a.pPeerWscIe = true → c.wsc.length < wscSize →
    4 ≤ len m pos ∧ c.wsc.length + (len m pos - 4) ≤ wscSize
  attrs : isBeacon m = true → ∀ q ∈ wscAttrs m (len m pos - 4) (pos + 6),
    q + 5 ≤ msgLen ∧ (m.be16 q = 0x1041 → m.be16 (q + 2) ≤ 1)

/-- Where the comparisons with OUIs end. -/
def vendorEnd (kind : VendorKind) : ℕ :=
  match kind with
  | .ralink => pos
  | .preN => pos
  | .wpa => pos + 6
  | _ => pos + 8

def ElementFits (msgLen : ℕ) : Prop :=
  match elementKind (m pos) with
  | .tim => ownBeacon a m = true → pos + 5 ≤ msgLen ∧
      (timCovers m pos a.aid = true → pos + 6 + (timByte m pos a.aid).toNat ≤ msgLen)
  | .vendorSpecific => vendorEnd pos (vendorKind a m pos c.htLen) ≤ msgLen ∧
      (vendorKind a m pos c.htLen = .wps → c.WpsFits a m pos msgLen)
  | .rsn => pos + 7 ≤ msgLen
  | _ => True

/-- The necessary elements, with the channel that is taken from elsewhere. -/
def finalSanity : UInt8 :=
  if 14 < a.latchChannel ∧ c.sanity &&& 4 = 0 then c.sanity ||| 4 else c.sanity

/-- There is room for the WPS data in `pVIE`, and its length fits in the byte for it, or else what
follows looks like elements. -/
def LastFits : Prop :=
  a.pPeerWscIe = true → 0 < c.wsc.length → c.wsc.length < wscSize →
    c.vieLen + (c.wsc.length + 6) ≤ maxVieLen ∧
      (c.finalSanity a = 7 → ElementStream (wpsElement c.wsc))

/-- The elements up to the one that ends the walk. -/
def Fits (msgLen last : ℕ) : Counts → List ℕ → Prop
  | c, [] => last + 2 ≤ msgLen ∧ c.LastFits a
  | c, p :: ps =>
      if maxVieLen ≤ c.vieLen + len m p + 2 then c.LastFits a
      else c.Stops a m p ∨
        c.ElementFits a m p msgLen ∧ Fits msgLen last (c.add a m p) ps

end Counts

/-- The fixed part lies inside, and the elements fit. -/
def FrameFits (a : Adapter) (m : Memory) (msgLen : ℕ) : Prop :=
  36 ≤ msgLen ∧ Counts.Fits a m msgLen (eidStruct.itemsEnd m msgLen 36) ⟨0, 0, 0, []⟩
    (eidStruct.items m msgLen 36)

end Rt5572.Beacon
