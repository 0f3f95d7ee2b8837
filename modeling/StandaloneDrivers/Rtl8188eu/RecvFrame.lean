import StandaloneDrivers.Foundations.Bytes
import Mathlib.Data.Int.Notation

/-! Received frames of rtw_recv.h: the attributes of a packet, the buffer from `rx_data` on, and
the header conversion that comes before a frame is indicated. -/
namespace Rtl8188eu
open Foundations
attribute [local instance] neZero_sixteen
attribute [local instance] neZero_seqRange

abbrev MacAddr : Type := Vector UInt8 6

/-- The address at offset `i` of a frame. -/
def macAt (data : List UInt8) (i : ℕ) : MacAddr := Vector.ofFn fun j => data.getD (i + j) 0

/-- `IS_MCAST` -/
def isMcast (addr : MacAddr) : Bool := getElem addr 0 zero_lt_six &&& 1 != 0

/-- `GetFrameType` -/
def getFrameType (data : List UInt8) : ℕ := le16 data 0 &&& 0x0c

/-- `GetFrameSubType` -/
def getFrameSubType (data : List UInt8) : ℕ := le16 data 0 &&& 0xfc

def wifiMgtType : ℕ := 0x00

def wifiCtrlType : ℕ := 0x04

def wifiDataType : ℕ := 0x08

/-- Encryption algorithms of rtw_security.h. -/
inductive EncryAlgo where
  | noPrivacy
  | wep40
  | tkip
  | tkipWtmic
  | aes
  | wep104
  | other (code : ℕ)
  deriving DecidableEq, Repr

/-- `struct rx_pkt_attrib` -/
structure RxPktAttrib where
  hdrlen : ℕ
  toFrDs : ℕ
  amsdu : Bool
  qos : Bool
  priority : Fin 16
  seqNum : Fin 4096
  fragNum : Fin 16
  mfrag : Bool
  order : Bool
  privacy : Bool
  bdecrypted : Bool
  encrypt : EncryAlgo
  ivLen : ℕ
  icvLen : ℕ
  ethType : ℕ
  dst : MacAddr
  src : MacAddr
  ta : MacAddr
  ra : MacAddr
  bssid : MacAddr
  ackPolicy : ℕ
  keyIndex : ℕ
  deriving DecidableEq, Repr

/-- `_rtw_memset(pattrib, 0, sizeof(struct rx_pkt_attrib))` -/
def RxPktAttrib.zero : RxPktAttrib where
  hdrlen := 0
  toFrDs := 0
  amsdu := false
  qos := false
  priority := 0
  seqNum := 0
  fragNum := 0
  mfrag := false
  order := false
  privacy := false
  bdecrypted := false
  encrypt := .noPrivacy
  ivLen := 0
  icvLen := 0
  ethType := 0
  dst := Vector.replicate 6 0
  src := Vector.replicate 6 0
  ta := Vector.replicate 6 0
  ra := Vector.replicate 6 0
  bssid := Vector.replicate 6 0
  ackPolicy := 0
  keyIndex := 0

/-- `union recv_frame`: `id` is its place in the pool, `psta` the slot of its station, `mem` the
bytes from `rx_data` to `rx_end`, of which `len` lie before `rx_tail`. -/
structure RecvFrame where
  id : ℕ
  psta : Option ℕ
  attrib : RxPktAttrib
  mem : List UInt8
  len : ℕ
  fits : len ≤ mem.length
  deriving DecidableEq, Repr

namespace RecvFrame

/-- The bytes between `rx_data` and `rx_tail`. -/
def data (f : RecvFrame) : List UInt8 := f.mem.take f.len

def seqNum (f : RecvFrame) : ℕ := f.attrib.seqNum

/-- `recvframe_pull`, which leaves a shorter frame alone. -/
def pull (f : RecvFrame) (sz : ℕ) : RecvFrame :=
  if h : sz ≤ f.len then
    { f with
      mem := f.mem.drop sz
      len := f.len - sz
      fits := by
        have := f.fits
        rw [List.length_drop]
        omega }
  else f

/-- `recvframe_pull_tail` -/
def pullTail (f : RecvFrame) (sz : ℕ) : RecvFrame :=
  { f with len := if sz ≤ f.len then f.len - sz else f.len
           fits := by
            have := f.fits
            split <;> omega }

/-- `recvframe_put` -/
def put (f : RecvFrame) (sz : ℕ) : RecvFrame :=
  if h : f.len + sz ≤ f.mem.length then { f with len := f.len + sz, fits := h } else f

/-- `memcpy` to offset `i`; what would lie behind `rx_end` is left out. -/
def write (f : RecvFrame) (i : ℕ) (bytes : List UInt8) : RecvFrame :=
  { f with mem := overwrite f.mem i bytes, fits := by rw [overwrite_length]; exact f.fits }

theorem data_length (f : RecvFrame) : f.data.length = f.len := by
  have := f.fits
  rw [data, List.length_take]
  omega

variable {f : RecvFrame} {sz : ℕ}

theorem pull_len (h : sz ≤ f.len) : (f.pull sz).len = f.len - sz := by rw [pull, dif_pos h]

theorem pull_data (h : sz ≤ f.len) : (f.pull sz).data = f.data.drop sz := by
  rw [data, pull, dif_pos h, data, List.drop_take]

theorem pullTail_len (h : sz ≤ f.len) : (f.pullTail sz).len = f.len - sz := if_pos h

@[simp] theorem pullTail_mem (f : RecvFrame) (sz : ℕ) : (f.pullTail sz).mem = f.mem := rfl

@[simp] theorem write_len (f : RecvFrame) (i : ℕ) (bytes : List UInt8) :
    (f.write i bytes).len = f.len := rfl

@[simp] theorem write_mem (f : RecvFrame) (i : ℕ) (bytes : List UInt8) :
    (f.write i bytes).mem = overwrite f.mem i bytes := rfl

theorem put_len (h : f.len + sz ≤ f.mem.length) : (f.put sz).len = f.len + sz := by
  rw [put, dif_pos h]

@[simp] theorem put_mem (f : RecvFrame) (sz : ℕ) : (f.put sz).mem = f.mem := by
  unfold put
  split <;> rfl

@[simp] theorem put_attrib (f : RecvFrame) (sz : ℕ) : (f.put sz).attrib = f.attrib := by
  unfold put
  split <;> rfl

end RecvFrame

def rtwRfc1042Header : List UInt8 := [0xaa, 0xaa, 0x03, 0x00, 0x00, 0x00]

def rtwBridgeTunnelHeader : List UInt8 := [0xaa, 0xaa, 0x03, 0x00, 0x00, 0xf8]

def snapEthTypeIpx : List UInt8 := [0x81, 0x37]

def snapEthTypeAppletalkAarp : List UInt8 := [0x80, 0xf3]

/-- `sizeof(struct ieee80211_snap_hdr)` -/
def snapSize : ℕ := 6

/-- Where the payload of a frame begins. -/
def RxPktAttrib.payload (attrib : RxPktAttrib) : ℕ := attrib.hdrlen + attrib.ivLen

/-- Whether an encapsulation header is removed. -/
def bsnaphdr (f : RecvFrame) : Bool :=
  let psnap := slice f.mem f.attrib.payload snapSize
  let psnapType := slice f.mem (f.attrib.payload + snapSize) 2
  (psnap == rtwRfc1042Header && psnapType != snapEthTypeIpx &&
    psnapType != snapEthTypeAppletalkAarp) || psnap == rtwBridgeTunnelHeader

/-- Every frame is given an Ethernet header over the last bytes of what is removed. A frame too
short to be pulled that far keeps its start. -/
def wlanhdrToEthhdr (f : RecvFrame) : RecvFrame :=
  let f := if f.attrib.encrypt != .noPrivacy then f.pullTail f.attrib.icvLen else f
  let snap := bsnaphdr f
  let rmvLen := f.attrib.payload + if snap then snapSize else 0
  let len := (((f.len : ℤ) - rmvLen) % 65536).toNat
  let ethType := be16 f.mem rmvLen
  let hdr := f.attrib.dst.toList ++ f.attrib.src.toList ++
    if snap then [] else [UInt8.ofNat (len / 256), UInt8.ofNat len]
  let f := { f with attrib := { f.attrib with ethType := ethType } }
  (f.pull (rmvLen - 14 + if snap then 2 else 0)).write 0 hdr

theorem write_attrib (f : RecvFrame) (i : ℕ) (bytes : List UInt8) :
    (f.write i bytes).attrib = f.attrib := rfl

theorem pull_attrib (f : RecvFrame) (sz : ℕ) : (f.pull sz).attrib = f.attrib := by
  unfold RecvFrame.pull
  split <;> rfl

theorem write_id (f : RecvFrame) (i : ℕ) (bytes : List UInt8) : (f.write i bytes).id = f.id := rfl

theorem pull_id (f : RecvFrame) (sz : ℕ) : (f.pull sz).id = f.id := by
  unfold RecvFrame.pull
  split <;> rfl

theorem pullTail_attrib (f : RecvFrame) (sz : ℕ) : (f.pullTail sz).attrib = f.attrib := rfl

theorem wlanhdrToEthhdr_id (f : RecvFrame) : (wlanhdrToEthhdr f).id = f.id := by
  unfold wlanhdrToEthhdr
  simp only [write_id, pull_id]
  split_ifs <;> rfl

/-- The conversion sets the EtherType and leaves the other attributes alone. -/
theorem wlanhdrToEthhdr_attrib (f : RecvFrame) : ∃ ethType,
    (wlanhdrToEthhdr f).attrib = { f.attrib with ethType := ethType } := by
  unfold wlanhdrToEthhdr
  simp only [write_attrib, pull_attrib]
  split_ifs <;> exact ⟨_, rfl⟩

/-- The EtherType is read behind the encapsulation header, if that is one. -/
theorem wlanhdrToEthhdr_ethType (f : RecvFrame) : (wlanhdrToEthhdr f).attrib.ethType =
    be16 f.mem (f.attrib.payload + if bsnaphdr f then snapSize else 0) := by
  have hsnap : bsnaphdr (f.pullTail f.attrib.icvLen) = bsnaphdr f := rfl
  unfold wlanhdrToEthhdr
  simp only [write_attrib, pull_attrib]
  cases f.attrib.encrypt != .noPrivacy with
  | true =>
    rw [if_pos rfl, hsnap]
    rfl
  | false => rfl

theorem wlanhdrToEthhdr_seqNum (f : RecvFrame) : (wlanhdrToEthhdr f).seqNum = f.seqNum := by
  obtain ⟨ethType, h⟩ := wlanhdrToEthhdr_attrib f
  simp only [RecvFrame.seqNum, h]

end Rtl8188eu

/-! The frames that `amsdu_to_msdu` cuts an A-MSDU into (rtw_recv.c). -/
namespace Rtl8188eu
open Foundations

/-- `MAX_SUBFRAME_COUNT` -/
def maxSubframeCount : ℕ := 64

/-- The loop of `amsdu_to_msdu` over what is left of the frame, with that many places for subframes.
A length that does not fit gives up all of them. -/
def amsduSubframes : ℕ → List UInt8 → Option (List (List UInt8))
  | 0, _ => some []
  | n + 1, pdata =>
      if pdata.length ≤ 14 then some []
      else
        let nSubframeLength := be16 pdata 12
        if pdata.length < 14 + nSubframeLength then none
        else
          let subSkb := slice pdata 14 nSubframeLength
          let rest := pdata.drop (14 + nSubframeLength)
          let paddingLen := (4 - (nSubframeLength + 14) % 4) % 4
          if n = 0 ∨ rest = [] then some [subSkb]
          else if rest.length < paddingLen then none
          else (amsduSubframes n (rest.drop paddingLen)).map (subSkb :: ·)

/-- The Ethernet header of a subframe. -/
def subframeEthhdr (attrib : RxPktAttrib) (subSkb : List UInt8) : List UInt8 :=
  let hdr := attrib.dst.toList ++ attrib.src.toList
  let psnap := subSkb.take snapSize
  let ethType := slice subSkb 6 2
  if 8 ≤ subSkb.length && ((psnap == rtwRfc1042Header && ethType != snapEthTypeAppletalkAarp &&
      ethType != snapEthTypeIpx) || psnap == rtwBridgeTunnelHeader) then
    hdr ++ subSkb.drop snapSize
  else hdr ++ [UInt8.ofNat (subSkb.length / 256), UInt8.ofNat subSkb.length] ++ subSkb

/-- What is indicated of an A-MSDU; of these only the first ones when memory runs out. -/
def amsduToMsdu (f : RecvFrame) : List (List UInt8) :=
  match amsduSubframes maxSubframeCount ((f.pull f.attrib.hdrlen).pull f.attrib.ivLen).data with
  | none => []
  | some subframes => subframes.map (subframeEthhdr f.attrib)

end Rtl8188eu
