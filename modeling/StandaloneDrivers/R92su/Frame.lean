import Mathlib.Data.List.Basic
import Mathlib.Data.Nat.Bitwise

/-! Received 802.11 frames: the header fields the receive path of rx.c reads from the bytes,
and the driver's own data in the control block. -/
namespace R92su

/-- `struct r92su_rx_info`, kept in `skb->cb`; stations and keys are pointers. -/
structure RxInfo where
  sta : Option ℕ
  key : Option ℕ
  iv : ℕ
  hasProtect : Bool
  deriving DecidableEq, Repr, Inhabited

/-- `memset(skb->cb, 0, sizeof(skb->cb))` -/
def RxInfo.zero : RxInfo := ⟨none, none, 0, false⟩

/-- `clear` is no field of the driver: it says that some MPDU whose bytes the frame carries
came without the Protected bit. -/
structure Skb where
  data : List UInt8
  cb : RxInfo
  protocol : ℕ
  queueMapping : ℕ
  clear : Bool
  deriving DecidableEq, Repr, Inhabited

inductive RxControl where
  | rxContinue
  | rxQueue
  | rxDrop
  deriving DecidableEq, Repr

def byteAt (data : List UInt8) (i : ℕ) : ℕ := (data.getD i 0).toNat

def le16 (data : List UInt8) (i : ℕ) : ℕ := byteAt data i + 256 * byteAt data (i + 1)

def be16 (data : List UInt8) (i : ℕ) : ℕ := 256 * byteAt data i + byteAt data (i + 1)

namespace Skb

def frameControl (skb : Skb) : ℕ := le16 skb.data 0

def seqCtrl (skb : Skb) : ℕ := le16 skb.data 22

/-- `(seq_ctrl & IEEE80211_SCTL_SEQ) >> 4` -/
def seq (skb : Skb) : ℕ := (skb.seqCtrl &&& 0xFFF0) >>> 4

/-- `seq_ctrl & IEEE80211_SCTL_FRAG` -/
def frag (skb : Skb) : ℕ := skb.seqCtrl &&& 0x000F

end Skb

def hasA4 (fc : ℕ) : Bool := fc &&& 0x0300 == 0x0300

def hasMorefrags (fc : ℕ) : Bool := fc &&& 0x0400 != 0

def hasProtected (fc : ℕ) : Bool := fc &&& 0x4000 != 0

def hasOrder (fc : ℕ) : Bool := fc &&& 0x8000 != 0

def isData (fc : ℕ) : Bool := fc &&& 0x000C == 0x0008

def isCtl (fc : ℕ) : Bool := fc &&& 0x000C == 0x0004

def isDataQos (fc : ℕ) : Bool := fc &&& 0x008C == 0x0088

def isQosNullfunc (fc : ℕ) : Bool := fc &&& 0x00FC == 0x00C8

/-- `ieee80211_hdrlen` -/
def hdrlen (fc : ℕ) : ℕ :=
  if isData fc then
    let len := if hasA4 fc then 30 else 24
    if isDataQos fc then (if hasOrder fc then len + 6 else len + 2) else len
  else if isCtl fc then
    -- CTS and ACK carry one address, every other control frame counts as two
    if fc &&& 0x00E0 == 0x00C0 then 10 else 16
  else 24

/-- `FCS_LEN` -/
def fcsLen : ℕ := 4

theorem hdrlen_ge (fc : ℕ) : 10 ≤ hdrlen fc := by
  unfold hdrlen
  split_ifs <;> decide

theorem hdrlen_le (fc : ℕ) : hdrlen fc ≤ 36 := by
  unfold hdrlen
  split_ifs <;> decide

namespace Skb

def hdrlen (skb : Skb) : ℕ := R92su.hdrlen skb.frameControl

/-- First byte at `ieee80211_get_qos_ctl(hdr)`. -/
def qosCtl (skb : Skb) : ℕ := byteAt skb.data (if hasA4 skb.frameControl then 30 else 24)

/-- `get_tid_h(hdr)` -/
def tid (skb : Skb) : ℕ := skb.qosCtl &&& 0xF

/-- What follows the header. -/
def payload (skb : Skb) : List UInt8 := skb.data.drop skb.hdrlen

/-- `skb_pull(skb, n)`, which leaves a shorter frame alone. -/
def pull (skb : Skb) (n : ℕ) : List UInt8 :=
  if n ≤ skb.data.length then skb.data.drop n else skb.data

theorem seq_lt (skb : Skb) : skb.seq < 4096 := by
  have h : skb.seqCtrl &&& 0xFFF0 ≤ 0xFFF0 := Nat.and_le_right
  unfold seq
  rw [Nat.shiftRight_eq_div_pow]
  omega

end Skb

end R92su
