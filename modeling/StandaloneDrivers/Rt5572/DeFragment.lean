import StandaloneDrivers.Foundations.Bytes
import StandaloneDrivers.Foundations.Run
import Mathlib.Data.Int.Notation

/-! Reassembly of fragments in the one buffer of the adapter (common/cmm_data.c). -/
namespace Rt5572
open Foundations

/-- `MAX_FRAME_SIZE` -/
def maxFrameSize : ℕ := 2346

/-- `RX_BUFFER_NORMSIZE` -/
def rxBufferNormsize : ℕ := 3840

/-- `SNAP_802_1H` -/
def snap8021h : List UInt8 := [0xaa, 0xaa, 3, 0, 0, 0]

/-- A received frame: the descriptor of the hardware, what lies from `pHeader` to `pData` (as long as
a `UCHAR` can say), and `DataSize` bytes of payload. -/
structure FragBlk (rxwiSize : UInt8) where
  rxWI : List UInt8
  header : List UInt8
  data : List UInt8
  rxWI_length : rxWI.length = rxwiSize.toNat
  header_length : header.length < 256
  data_length : data.length < 65536

namespace FragBlk
variable {rxwiSize : UInt8} (b : FragBlk rxwiSize)

def frag : ℕ := le16 b.header 22 % 16

def sequence : ℕ := le16 b.header 22 / 16

def moreFrag : Bool := (le16 b.header 0).testBit 10

/-- `Addr2` -/
def transmitter : List UInt8 := slice b.header 10 6

end FragBlk

/-- `FRAGMENT_FRAME`; the flags are never read. -/
structure FragmentFrame where
  fragPacket : List UInt8
  rxSize : ℕ
  sequence : ℕ
  lastFrag : ℕ

/-- `RESET_FRAGFRAME` -/
def FragmentFrame.reset (f : FragmentFrame) : FragmentFrame :=
  { f with rxSize := 0, sequence := 0, lastFrag := 0 }

/-- What is returned: `pRxWI`, `pHeader` and `pData` point into the buffer. -/
structure RxPacket where
  rxWI : List UInt8
  header : List UInt8
  data : List UInt8
  dataSize : ℕ
  deriving DecidableEq

/-- What becomes of a frame. -/
inductive FragmentAct where
  | passed
  | first
  | refused
  | ignored
  | joined
  deriving DecidableEq

namespace FragmentFrame
variable {rxwiSize : UInt8} (f : FragmentFrame) (b : FragBlk rxwiSize)

/-- Which way a frame takes through `RTMPDeFragmentDataFrame`. -/
def act : FragmentAct :=
  if b.frag = 0 then if b.moreFrag then .first else .passed
  else if b.sequence ≠ f.sequence ∨ b.frag ≠ f.lastFrag + 1 then .refused
  else if f.rxSize + b.data.length > maxFrameSize + rxwiSize.toNat then .refused
  else if b.data.take 6 = snap8021h then .ignored
  else .joined

/-- The first fragment is recorded. -/
def record : FragmentFrame where
  fragPacket := overwrite (overwrite f.fragPacket 0 b.rxWI) rxwiSize.toNat (b.header ++ b.data)
  rxSize := b.data.length + b.header.length + rxwiSize.toNat
  sequence := b.sequence
  lastFrag := b.frag

/-- Another fragment is put behind what is in the buffer. -/
def concatenate : FragmentFrame :=
  { f with
    fragPacket := overwrite f.fragPacket f.rxSize b.data
    rxSize := f.rxSize + b.data.length
    lastFrag := b.frag }

/-- The buffer as a packet, with the header room of the last fragment. -/
def packet : RxPacket :=
  let dataSize := (((f.rxSize : ℤ) - b.header.length - rxwiSize.toNat) % 65536).toNat
  { rxWI := slice f.fragPacket 0 rxwiSize.toNat
    header := slice f.fragPacket rxwiSize.toNat b.header.length
    data := slice f.fragPacket (rxwiSize.toNat + b.header.length) dataSize
    dataSize := dataSize }

/-- `RTMPDeFragmentDataFrame`, with the buffer that is allocated if the frame is complete; a frame
that is no fragment does not come here. -/
def rtmpDeFragmentDataFrame (newFragPacket : Option (List UInt8)) :
    FragmentFrame × Option RxPacket :=
  match f.act b with
  | .passed | .ignored => (f, none)
  | .first => (f.record b, none)
  | .refused => (f.reset, none)
  | .joined =>
      let f := f.concatenate b
      if b.moreFrag then (f, none)
      else
        match newFragPacket with
        | some newFragPacket => ({ f with fragPacket := newFragPacket }, some (f.packet b))
        | none => (f.reset, none)

end FragmentFrame

/-- A buffer as `RTMP_AllocateFragPacketBuffer` returns it, with whatever is in it. -/
abbrev FragPacketBuffer : Type := { packet : List UInt8 // packet.length = rxBufferNormsize }

/-- The record of the adapter, the frames that came, those that are in the buffer since the first
fragment, and what was returned. -/
structure DeFragmentation (rxwiSize : UInt8) where
  fragFrame : FragmentFrame
  received : List (FragBlk rxwiSize)
  inBuffer : List (FragBlk rxwiSize)
  returned : List RxPacket

/-- A frame comes, and a buffer can be allocated or not. -/
structure FragmentEvent (rxwiSize : UInt8) where
  rxBlk : FragBlk rxwiSize
  newFragPacket : Option FragPacketBuffer

namespace DeFragmentation
variable {rxwiSize : UInt8}

/-- The frames in the buffer after one more. -/
def buffered (s : DeFragmentation rxwiSize) (e : FragmentEvent rxwiSize) : List (FragBlk rxwiSize) :=
  match s.fragFrame.act e.rxBlk with
  | .passed | .ignored => s.inBuffer
  | .first => [e.rxBlk]
  | .refused => []
  | .joined => if e.rxBlk.moreFrag then s.inBuffer ++ [e.rxBlk] else []

def step (s : DeFragmentation rxwiSize) (e : FragmentEvent rxwiSize) : DeFragmentation rxwiSize :=
  let r := s.fragFrame.rtmpDeFragmentDataFrame e.rxBlk (e.newFragPacket.map Subtype.val)
  { fragFrame := r.1
    received := s.received ++ [e.rxBlk]
    inBuffer := s.buffered e
    returned := s.returned ++ r.2.toList }

/-- The zeroed record with its first buffer. -/
def start (buffer : FragPacketBuffer) : DeFragmentation rxwiSize where
  fragFrame := ⟨buffer.val, 0, 0, 0⟩
  received := []
  inBuffer := []
  returned := []

end DeFragmentation

end Rt5572
