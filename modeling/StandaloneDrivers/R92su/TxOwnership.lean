import StandaloneDrivers.Foundations.Ledger
import StandaloneDrivers.R92su.Connection
import StandaloneDrivers.Foundations.Run
import StandaloneDrivers.R92su.TxFragment

/-! The USB side of the transmit path (usb.c): URBs that wait for their turn, URBs that are
submitted, and the socket buffers they carry. -/
namespace R92su
open Foundations

/-- `RTL_USB_MAX_TX_URBS_NUM` -/
def maxTxUrbs : ℕ := 8

/-- `tx_wait` and `tx_submitted` by the socket buffers of their URBs, and `tx_pending_urbs`. -/
structure TxDevice where
  state : State
  waiting : List ℕ
  submitted : List ℕ
  pending : ℕ
  skbs : Ledger
  deriving DecidableEq, Repr

/-- For each socket buffer, whether there is memory for its URB and whether the submission is
accepted. -/
structure UsbEnv where
  allocUrb : ℕ → Bool
  submit : ℕ → Bool

namespace TxDevice

def isProbing (s : TxDevice) : Bool := State.rank .probe ≤ s.state.rank

def isConnected (s : TxDevice) : Bool := State.rank .connected ≤ s.state.rank

/-- `dev_kfree_skb_any` -/
def free (s : TxDevice) (skb : ℕ) : TxDevice := { s with skbs := s.skbs.release skb }

/-- `__skb_queue_purge` -/
def purge (s : TxDevice) (queue : List ℕ) : TxDevice := queue.foldl free s

/-- A new socket buffer, which is `s.skbs.next`. -/
def alloc (s : TxDevice) : TxDevice := { s with skbs := s.skbs.take }

/-- `r92su_tx_schedule`, which takes the URB that waits longest. -/
def txSchedule (env : UsbEnv) (s : TxDevice) : TxDevice :=
  if s.pending + 1 > maxTxUrbs then s
  else
    match s.waiting with
    | [] => s
    | skb :: waiting =>
      if env.submit skb then
        { s with waiting := waiting, submitted := s.submitted ++ [skb], pending := s.pending + 1 }
      else ({ s with waiting := waiting, state := .dead } : TxDevice).free skb

def usbTx (env : UsbEnv) (s : TxDevice) (skb : ℕ) : TxDevice :=
  if !s.isProbing then s.free skb
  else if !env.allocUrb skb then s.free skb
  else txSchedule env { s with waiting := s.waiting ++ [skb] }

/-- `r92su_tx_usb_cb`; `dead` says whether the status marks the device dead. -/
def txUsbCb (env : UsbEnv) (s : TxDevice) (skb : ℕ) (dead : Bool) : TxDevice :=
  if skb ∈ s.submitted then
    let s := ({ s with
      submitted := s.submitted.erase skb, pending := s.pending - 1 } : TxDevice).free skb
    txSchedule env (if dead then { s with state := .dead } else s)
  else s

/-- Every socket buffer is in one URB, or one of `held`, or was freed, and only once. -/
def Holds (s : TxDevice) (held : List ℕ) : Prop :=
  s.skbs.Balanced (held ++ (s.waiting ++ s.submitted))

/-- Nothing is held by the driver itself. -/
def Owned (s : TxDevice) : Prop := s.Holds []

namespace Holds
variable {s : TxDevice} {held : List ℕ} {skb : ℕ} {env : UsbEnv}

theorem free (h : s.Holds (skb :: held)) : (s.free skb).Holds held := Ledger.Balanced.release h

theorem alloc (h : s.Holds held) : s.alloc.Holds (s.skbs.next :: held) := Ledger.Balanced.take h

theorem perm {held' : List ℕ} (h : s.Holds held) (hp : held.Perm held') : s.Holds held' :=
  Ledger.Balanced.perm h (hp.append_right _)

theorem purge {queue : List ℕ} (h : s.Holds (queue ++ held)) : (s.purge queue).Holds held := by
  induction queue generalizing s with
  | nil => exact h
  | cons skb queue ih => exact ih h.free

theorem txSchedule (h : s.Holds held) : (s.txSchedule env).Holds held := by
  unfold TxDevice.txSchedule
  split
  · exact h
  · split
    · exact h
    · rename_i skb waiting hwaiting
      rw [Holds, hwaiting] at h
      split
      · apply Ledger.Balanced.perm h
        apply List.Perm.append_left
        rw [← List.append_assoc]
        exact (List.perm_append_singleton skb (waiting ++ s.submitted)).symm
      · apply Ledger.Balanced.release
        exact Ledger.Balanced.perm h List.perm_middle

theorem usbTx (h : s.Holds (skb :: held)) : (s.usbTx env skb).Holds held := by
  unfold TxDevice.usbTx
  split
  · exact h.free
  · split
    · exact h.free
    · apply txSchedule
      apply Ledger.Balanced.perm h
      have hmid : (held ++ s.waiting ++ skb :: s.submitted).Perm
          (skb :: (held ++ s.waiting ++ s.submitted)) := List.perm_middle
      simp only [List.append_assoc, List.cons_append, List.nil_append] at hmid ⊢
      exact hmid.symm

/-- The frames of a queue are handed on one after the other. -/
theorem usbTx_all {queue : List ℕ} (h : s.Holds (queue ++ held)) :
    (queue.foldl (TxDevice.usbTx env) s).Holds held := by
  induction queue generalizing s with
  | nil => exact h
  | cons skb queue ih => exact ih h.usbTx

theorem txUsbCb (h : s.Holds held) (dead : Bool) : (s.txUsbCb env skb dead).Holds held := by
  unfold TxDevice.txUsbCb
  split
  · rename_i hmem
    have hfreed : (({ s with
        submitted := s.submitted.erase skb, pending := s.pending - 1 } : TxDevice).free
          skb).Holds held := by
      apply Ledger.Balanced.release
      apply Ledger.Balanced.perm h
      have herase : (held ++ (s.waiting ++ s.submitted)).Perm
          (held ++ s.waiting ++ skb :: s.submitted.erase skb) := by
        rw [← List.append_assoc]
        exact (List.perm_cons_erase hmem).append_left _
      apply herase.trans
      rw [← List.append_assoc]
      exact List.perm_middle
    apply txSchedule
    split
    · exact hfreed
    · exact hfreed
  · exact h

end Holds

end TxDevice

end R92su

/-! What becomes of a socket buffer that is given to `r92su_start_xmit`: the handlers of tx.c, the
fragments and the URBs. The content of the frames is left to `txAddIv` and `makeFragment`. -/
namespace R92su
open Foundations

/-- `wdev.iftype`, where every other type is one. -/
inductive XmitIftype where
  | station
  | adhoc
  | monitor
  | other
  deriving DecidableEq, Repr

/-- A station, as far as the transmit path reads it. -/
structure TxSta where
  qosSta : Bool
  htSta : Bool
  encSta : Bool
  staKey : Option EncAlg

/-- The connected BSS; `multiKey` and `uniKey` are the group keys at its default indices. -/
structure TxBss where
  sta : Option TxSta
  multiKey : Option EncAlg
  uniKey : Option EncAlg
  controlPort : ℕ
  addbaIssued : Bool

/-- One call of `r92su_start_xmit` and what it meets: the frame, the stations by their address,
the outcome of the kernel's conversions and checks, and of the allocations. -/
structure TxCall where
  data : List UInt8
  protocol : ℕ
  voice : Bool
  lowRate : Bool
  disableHt : Bool
  bss : Option TxBss
  staGet : List UInt8 → Option TxSta
  expandHead : Bool
  dataFrom8023 : List UInt8 → Bool → Option TxFrame
  radiotap : Bool
  cmdAlloc : Bool
  fragAlloc : ℕ → Bool

namespace TxCall
variable (c : TxCall)

/-- `r92su_tx_find_sta`, with `ht_possible`. -/
def findSta (bss : TxBss) : Option (TxSta × Bool) :=
  match c.staGet (c.data.take 6) with
  | some sta => some (sta, false)
  | none => bss.sta.map fun sta => (sta, sta.htSta)

/-- `qos` of `r92su_tx_add_80211` -/
def qos (bss : TxBss) (sta : TxSta) : Bool := sta.qosSta && bss.controlPort != c.protocol

/-- Whether `r92su_tx_add_80211` asks for a block ack session. -/
def startsBa (bss : TxBss) (sta : TxSta) (htPossible : Bool) : Bool :=
  c.qos bss sta && htPossible && !c.lowRate && !c.voice && !c.disableHt && !bss.addbaIssued

/-- `r92su_tx_select_key`; `none` drops the frame. -/
def selectKey (bss : TxBss) (frame : TxFrame) : Option (Option EncAlg) :=
  let fc := le16 frame.data 0
  -- a connected BSS has its station
  if !(bss.sta.map TxSta.encSta).getD false then some none
  else if fc &&& 0x004C != 0x0008 then some none
  else
    let da := (frame.data.drop (getDA fc)).take 6
    let key := if byteAt da 0 &&& 0x01 != 0 then bss.multiKey else (c.staGet da).bind TxSta.staKey
    match key.or ((bss.sta.bind TxSta.staKey).or bss.uniKey) with
    | some key => some (some key)
    | none => if bss.controlPort != c.protocol then none else some none

end TxCall

/-- `default: WARN(...)` of `r92su_tx_add_icv_mic`, `r92su_tx_add_iv` and `r92su_tx_fill_desc` -/
def keyDrops : Option EncAlg → Bool
  | none | some .wep40 | some .wep104 | some .tkip | some .aesccmp => false
  | some _ => true

namespace TxDevice
variable (env : UsbEnv)

/-- `r92su_h2c_start_ba`, whose command has a socket buffer of its own. -/
def startBa (s : TxDevice) (cmdAlloc : Bool) : TxDevice :=
  if cmdAlloc then s.alloc.usbTx env s.skbs.next else s

/-- The handlers in front of the fragmentation; `none` drops the frame. -/
def txPrepare (s : TxDevice) (c : TxCall) (inject : Option TxFrame) :
    TxDevice × Option (TxFrame × Option EncAlg) :=
  if !c.expandHead then (s, none)
  else
    match inject with
    | some frame => (s, some (frame, none))
    | none =>
      match c.bss with
      | none => (s, none)
      | some bss =>
        match c.findSta bss with
        | none => (s, none)
        | some (sta, htPossible) =>
          match c.dataFrom8023 c.data (c.qos bss sta) with
          | none => (s, none)
          | some frame =>
            let s := if c.startsBa bss sta htPossible then s.startBa env c.cmdAlloc else s
            (s, (c.selectKey bss frame).map fun key => (frame, key))

/-- A new socket buffer at the end of a queue. -/
def queueNew (t : TxDevice × List ℕ) : TxDevice × List ℕ := (t.1.alloc, t.2 ++ [t.1.skbs.next])

/-- `r92su_tx_fragment` with the socket buffers on `in_queue`: the frame itself, or its fragments,
for which the frame is freed at the end. -/
def txFragments (s : TxDevice) (skb : ℕ) (c : TxCall) (frame : TxFrame) :
    TxControl × TxDevice × List ℕ :=
  if frame.data.length + fcsLen < maxFragThreshold then (.txContinue, s, [skb])
  else
    let r := (txFragment c.fragAlloc frame).get (txFragment_isSome c.fragAlloc frame)
    let t := r.2.foldl (fun t _ => queueNew t) (s, [])
    match r.1 with
    | .txDrop => (.txDrop, t.1, t.2)
    | .txContinue => (.txContinue, t.1.free skb, t.2)

/-- The handlers behind the fragmentation for one frame, which is freed or put on `out_queue`. -/
def txHandle (key : Option EncAlg) (t : TxDevice × List ℕ) (skb : ℕ) : TxDevice × List ℕ :=
  if keyDrops key then (t.1.free skb, t.2) else (t.1, t.2 ++ [skb])

/-- `r92su_tx`; `inject` is the frame of a monitor interface. -/
def tx (s : TxDevice) (skb : ℕ) (c : TxCall) (inject : Option TxFrame) : TxDevice :=
  if !s.isConnected then s.free skb
  else
    match s.txPrepare env c inject with
    | (s, none) => s.free skb
    | (s, some (frame, key)) =>
      match s.txFragments skb c frame with
      | (.txDrop, s, inQueue) => (s.purge inQueue).free skb
      | (.txContinue, s, inQueue) =>
        let r := inQueue.foldl (txHandle key) (s, [])
        r.2.foldl (usbTx env) r.1

/-- `r92su_tx_monitor` -/
def txMonitor (s : TxDevice) (skb : ℕ) (c : TxCall) : TxDevice :=
  let lenRthdr := le16 c.data 2
  if c.data.length < 8 then s.free skb
  else if byteAt c.data 0 != 0 then s.free skb
  else if c.data.length < lenRthdr then s.free skb
  else if c.data.length < lenRthdr + 2 then s.free skb
  else if h : hdrlen (le16 (c.data.drop lenRthdr) 0) ≤ (c.data.drop lenRthdr).length then
    if !c.radiotap then s.free skb
    else s.tx env skb c (some ⟨c.data.drop lenRthdr, h⟩)
  else s.free skb

/-- `r92su_start_xmit`, which is given a socket buffer of its own. -/
def startXmit (s : TxDevice) (iftype : XmitIftype) (c : TxCall) : TxDevice :=
  let skb := s.skbs.next
  let s := s.alloc
  match iftype with
  | .station | .adhoc => if c.data.length ≥ 6 + 6 + 2 then s.tx env skb c none else s
  | .monitor => s.txMonitor env skb c
  | .other => s.free skb

variable {env : UsbEnv} {s : TxDevice} {held : List ℕ} {skb : ℕ} {c : TxCall}

namespace Holds

theorem startBa (h : s.Holds held) (cmdAlloc : Bool) : (s.startBa env cmdAlloc).Holds held := by
  unfold TxDevice.startBa
  split
  · exact h.alloc.usbTx
  · exact h

theorem txPrepare (h : s.Holds held) (inject : Option TxFrame) :
    (s.txPrepare env c inject).1.Holds held := by
  unfold TxDevice.txPrepare
  split
  · exact h
  · split
    · exact h
    · split
      · exact h
      · split
        · exact h
        · split
          · exact h
          · dsimp only
            split
            · exact h.startBa c.cmdAlloc
            · exact h

/-- The buffers of the fragments are new. -/
theorem queueAll {α : Type*} (frags : List α) {t : TxDevice × List ℕ}
    (h : t.1.Holds (t.2 ++ held)) :
    (frags.foldl (fun t _ => queueNew t) t).1.Holds
      ((frags.foldl (fun t _ => queueNew t) t).2 ++ held) := by
  induction frags generalizing t with
  | nil => exact h
  | cons _ frags ih =>
    apply ih
    apply h.alloc.perm
    change (t.1.skbs.next :: (t.2 ++ held)).Perm (t.2 ++ [t.1.skbs.next] ++ held)
    rw [List.append_assoc]
    exact List.perm_middle.symm

/-- The fragmentation leaves the frame and its fragments to the queue, and keeps the frame itself
when it drops it. -/
theorem txFragments (h : s.Holds (skb :: held)) (frame : TxFrame) :
    (s.txFragments skb c frame).2.1.Holds ((s.txFragments skb c frame).2.2 ++
      match (s.txFragments skb c frame).1 with
      | .txDrop => skb :: held
      | .txContinue => held) := by
  unfold TxDevice.txFragments
  split
  · exact h
  · have hall := @queueAll (skb :: held) _
      ((txFragment c.fragAlloc frame).get (txFragment_isSome c.fragAlloc frame)).2 (s, []) h
    dsimp only
    split
    · exact hall
    · exact (hall.perm List.perm_middle).free

/-- A frame that a handler drops is freed. -/
theorem txHandle_all (key : Option EncAlg) (inQueue : List ℕ) {t : TxDevice × List ℕ}
    (h : t.1.Holds (t.2 ++ (inQueue ++ held))) :
    (inQueue.foldl (txHandle key) t).1.Holds ((inQueue.foldl (txHandle key) t).2 ++ held) := by
  induction inQueue generalizing t with
  | nil => exact h
  | cons skb inQueue ih =>
    apply ih
    unfold txHandle
    split
    · exact (h.perm List.perm_middle).free
    · rw [List.append_assoc]
      exact h

theorem tx (h : s.Holds (skb :: held)) (inject : Option TxFrame) :
    (s.tx env skb c inject).Holds held := by
  unfold TxDevice.tx
  split
  · exact h.free
  · have hprep := @txPrepare env s (skb :: held) c h inject
    split
    · rename_i t heq
      rw [heq] at hprep
      exact hprep.free
    · rename_i t frame key heq
      rw [heq] at hprep
      have hfrag := @txFragments t held skb c hprep frame
      split
      · rename_i u inQueue heq'
        rw [heq'] at hfrag
        exact hfrag.purge.free
      · rename_i u inQueue heq'
        rw [heq'] at hfrag
        exact (@txHandle_all held key inQueue (u, []) hfrag).usbTx_all

theorem txMonitor (h : s.Holds (skb :: held)) : (s.txMonitor env skb c).Holds held := by
  unfold TxDevice.txMonitor
  dsimp only
  split
  · exact h.free
  · split
    · exact h.free
    · split
      · exact h.free
      · split
        · exact h.free
        · split
          · split
            · exact h.free
            · exact h.tx _
          · exact h.free

end Holds

/-- A frame that is neither freed nor handed on is lost. -/
theorem not_owned_of_holds (h : s.Holds [skb]) : ¬ s.Owned := by
  intro howned
  have hlen := h.length_eq
  have hlen' := howned.length_eq
  rw [List.length_append, List.length_range] at hlen hlen'
  rw [List.length_append, List.length_singleton] at hlen
  rw [List.nil_append] at hlen'
  omega

/-- Every socket buffer is freed once or in one URB behind the call, unless the frame of a station
or an ad-hoc interface is too short for an Ethernet header. -/
theorem startXmit_holds (env : UsbEnv) {iftype : XmitIftype} (h : s.Owned) :
    (s.startXmit env iftype c).Owned ↔
      ¬ ((iftype = .station ∨ iftype = .adhoc) ∧ c.data.length < 14) := by
  have halloc : s.alloc.Holds [s.skbs.next] := h.alloc
  have hsta : (if c.data.length ≥ 6 + 6 + 2 then s.alloc.tx env s.skbs.next c none
      else s.alloc).Owned ↔ ¬ c.data.length < 14 := by
    split
    · rename_i hlen
      exact iff_of_true (halloc.tx none) (by omega)
    · rename_i hlen
      exact iff_of_false (not_owned_of_holds halloc) (by omega)
  cases iftype with
  | station => simpa only [startXmit, true_or, true_and] using hsta
  | adhoc => simpa only [startXmit, or_true, true_and] using hsta
  | monitor => exact iff_of_true halloc.txMonitor (by rintro ⟨h | h, -⟩ <;> cases h)
  | other => exact iff_of_true halloc.free (by rintro ⟨h | h, -⟩ <;> cases h)

/-- What happens to the transmit path: calls, completions, and changes of the state. -/
inductive TxEvent where
  | xmit (env : UsbEnv) (iftype : XmitIftype) (c : TxCall)
  | complete (env : UsbEnv) (skb : ℕ) (dead : Bool)
  | state (state : State)

def step (s : TxDevice) : TxEvent → TxDevice
  | .xmit env iftype c => s.startXmit env iftype c
  | .complete env skb dead => s.txUsbCb env skb dead
  | .state state => { s with state := state }

/-- No frame of a station or an ad-hoc interface is too short. -/
def TxEvent.LongEnough : TxEvent → Prop
  | .xmit _ iftype c => ¬ ((iftype = .station ∨ iftype = .adhoc) ∧ c.data.length < 14)
  | _ => True

/-- Before the first call. -/
def start : TxDevice := ⟨.stop, [], [], 0, .empty⟩

/-- Ownership over a whole run of calls and completions. -/
theorem run_keeps_owned {es : List TxEvent} (h : ∀ e ∈ es, e.LongEnough) :
    (run step start es).Owned := by
  have hrun : ∀ s : TxDevice, s.Owned → (run step s es).Owned := by
    induction es with
    | nil => exact fun s hs => hs
    | cons e es ih =>
      intro s hs
      obtain ⟨hlong, hes⟩ := List.forall_mem_cons.mp h
      apply ih hes
      cases e with
      | xmit env iftype c => exact (startXmit_holds env hs).mpr hlong
      | complete env skb dead => exact hs.txUsbCb dead
      | state state => exact hs
  exact hrun start Ledger.balanced_empty

section Example

/-- A frame of one byte on a connected station. -/
def shortCall : TxCall where
  data := [0]
  protocol := 0
  voice := false
  lowRate := false
  disableHt := false
  bss := none
  staGet := fun _ => none
  expandHead := true
  dataFrom8023 := fun _ _ => none
  radiotap := true
  cmdAlloc := true
  fragAlloc := fun _ => true

def quietEnv : UsbEnv := ⟨fun _ => true, fun _ => true⟩

end Example

end TxDevice

end R92su
