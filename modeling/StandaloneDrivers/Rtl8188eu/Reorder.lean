import StandaloneDrivers.Rtl8188eu.RecvFrame

/-! The reorder control of a station and traffic identifier (rtw_recv.c): the test of the window,
the pending queue, and the frames indicated from it. -/
namespace Rtl8188eu

/-- `SN_LESS` -/
def snLess (a b : ℕ) : Bool := (((a : ℤ) - b) % 4096) ≥ 2048

/-- `struct recv_reorder_ctrl`; `timer` says whether its timer is armed. -/
structure RecvReorderCtrl where
  enable : Bool
  indicateSeq : ℕ
  wsizeB : ℕ
  pending : List RecvFrame
  timer : Bool
  deriving DecidableEq, Repr

/-- A control as `rtw_alloc_stainfo` leaves it, with reordering switched on. -/
def RecvReorderCtrl.start : RecvReorderCtrl := ⟨true, 0xFFFF, 64, [], false⟩

/-- `bDriverStopped` and `bSurpriseRemoved` -/
structure DriverFlags where
  bDriverStopped : Bool
  bSurpriseRemoved : Bool
  deriving DecidableEq, Repr

def DriverFlags.running (flags : DriverFlags) : Bool :=
  !flags.bDriverStopped && !flags.bSurpriseRemoved

/-- What a call does in its order: `indicate_seq` moves, a frame is given to
`rtw_recv_indicatepkt` or to `amsdu_to_msdu`, or a frame taken off the queue is forgotten. -/
inductive Act where
  | moved (seq : ℕ)
  | indicated (f : RecvFrame)
  | split (f : RecvFrame)
  | forgotten (f : RecvFrame)
  deriving DecidableEq, Repr

inductive Status where
  | success
  | fail
  deriving DecidableEq, Repr

/-- The control after a call, and what the call did. -/
structure Outcome where
  ctrl : RecvReorderCtrl
  acts : List Act

namespace RecvReorderCtrl

/-- `indicate_seq` takes a value. -/
def setIndicateSeq (c : RecvReorderCtrl) (seq : ℕ) : Outcome :=
  ⟨{ c with indicateSeq := seq }, [.moved seq]⟩

/-- The window end is computed before the first number is taken over. -/
def checkIndicateSeq (c : RecvReorderCtrl) (seqNum : ℕ) : Bool × Outcome :=
  let wend := (c.indicateSeq + c.wsizeB - 1) % 4096
  let first := if c.indicateSeq = 0xFFFF then c.setIndicateSeq seqNum else ⟨c, []⟩
  let c := first.ctrl
  if snLess seqNum c.indicateSeq then (false, first)
  else
    let next :=
      if seqNum = c.indicateSeq then c.setIndicateSeq ((c.indicateSeq + 1) % 4096)
      else if snLess wend seqNum then
        if seqNum ≥ c.wsizeB - 1 then c.setIndicateSeq (seqNum + 1 - c.wsizeB)
        else c.setIndicateSeq (0xFFF - (c.wsizeB - (seqNum + 1)) + 1)
      else ⟨c, []⟩
    (true, ⟨next.ctrl, first.acts ++ next.acts⟩)

end RecvReorderCtrl

/-- The queue with the frame at its place, `none` when its number is there already. -/
def enqueueReorderRecvframe (prframe : RecvFrame) : List RecvFrame → Option (List RecvFrame)
  | [] => some [prframe]
  | pnextrframe :: plist =>
      if snLess pnextrframe.seqNum prframe.seqNum then
        (enqueueReorderRecvframe prframe plist).map (pnextrframe :: ·)
      else if pnextrframe.seqNum = prframe.seqNum then none
      else some (prframe :: pnextrframe :: plist)

/-- What becomes of a frame taken off the queue. -/
def indicateAct (flags : DriverFlags) (prframe : RecvFrame) : Act :=
  if prframe.attrib.amsdu then .split prframe
  else if flags.running then .indicated prframe
  else .forgotten prframe

/-- The loop of `recv_indicatepkts_in_order`: the last number, what is left and what was done. -/
def indicateLoop (flags : DriverFlags) : ℕ → List RecvFrame → ℕ × List RecvFrame × List Act
  | seq, [] => (seq, [], [])
  | seq, prframe :: plist =>
      if !snLess seq prframe.seqNum then
        if seq = prframe.seqNum then
          let r := indicateLoop flags ((seq + 1) % 4096) plist
          (r.1, r.2.1, .moved ((seq + 1) % 4096) :: indicateAct flags prframe :: r.2.2)
        else
          let r := indicateLoop flags seq plist
          (r.1, r.2.1, indicateAct flags prframe :: r.2.2)
      else (seq, prframe :: plist, [])

namespace RecvReorderCtrl

/-- The loop, and whether a frame is left in the queue. -/
def indicateQueue (flags : DriverFlags) (c : RecvReorderCtrl) : Bool × Outcome :=
  let r := indicateLoop flags c.indicateSeq c.pending
  (!r.2.1.isEmpty, ⟨{ c with indicateSeq := r.1, pending := r.2.1 }, r.2.2⟩)

def recvIndicatepktsInOrder (flags : DriverFlags) (c : RecvReorderCtrl) (bforced : Bool) :
    Bool × Outcome :=
  if bforced then
    match c.pending with
    | [] => (true, ⟨c, []⟩)
    | prframe :: _ =>
        let first := c.setIndicateSeq prframe.seqNum
        let r := first.ctrl.indicateQueue flags
        (r.1, ⟨r.2.ctrl, first.acts ++ r.2.acts⟩)
  else c.indicateQueue flags

/-- The locked part of `recv_indicatepkt_reorder`. -/
def reorderLocked (flags : DriverFlags) (c : RecvReorderCtrl) (prframe : RecvFrame) :
    Status × Outcome :=
  match c.checkIndicateSeq prframe.seqNum with
  | (false, first) => (.success, ⟨first.ctrl, first.acts ++ [.indicated prframe]⟩)
  | (true, first) =>
      match enqueueReorderRecvframe prframe first.ctrl.pending with
      | none => (.fail, first)
      | some pending =>
          let r := { first.ctrl with pending := pending }.recvIndicatepktsInOrder flags false
          (.success, ⟨{ r.2.ctrl with timer := r.1 }, first.acts ++ r.2.acts⟩)

/-- A frame with no place in the window is indicated at once. -/
def recvIndicatepktReorder (flags : DriverFlags) (c : RecvReorderCtrl) (prframe : RecvFrame) :
    Status × Outcome :=
  if !prframe.attrib.amsdu then
    let prframe := wlanhdrToEthhdr prframe
    let pattrib := prframe.attrib
    if !pattrib.qos || pattrib.ethType == 0x0806 || pattrib.ackPolicy != 0 then
      if flags.running then (.success, ⟨c, [.indicated prframe]⟩) else (.fail, ⟨c, []⟩)
    else if !c.enable then
      (.success, ⟨{ c with indicateSeq := (prframe.seqNum + 1) % 4096 },
        [.moved prframe.seqNum, .indicated prframe, .moved ((prframe.seqNum + 1) % 4096)]⟩)
    else c.reorderLocked flags prframe
  else if !c.enable then
    (.success, ⟨{ c with indicateSeq := (prframe.seqNum + 1) % 4096 },
      [.moved prframe.seqNum, .split prframe, .moved ((prframe.seqNum + 1) % 4096)]⟩)
  else c.reorderLocked flags prframe

/-- The timer that has run out is armed again when a frame is left, or none was there. -/
def rtwReorderingCtrlTimeoutHandler (flags : DriverFlags) (c : RecvReorderCtrl) : Outcome :=
  let c := { c with timer := false }
  if !flags.running then ⟨c, []⟩
  else
    let r := c.recvIndicatepktsInOrder flags true
    ⟨{ r.2.ctrl with timer := r.1 }, r.2.acts⟩

end RecvReorderCtrl

end Rtl8188eu
