import StandaloneDrivers.Foundations.Ledger
import StandaloneDrivers.R92su.Station

/-! Connecting and disconnecting (main.c, event.c): the BSS that is wanted, the BSS that is
connected, the result of a join on its way to the work queue, and the stations. -/
namespace R92su
open Foundations

/-- `enum r92su_state_t`, in its order. -/
inductive State where
  | dead
  | unload
  | probe
  | stop
  | init
  | opened
  | connected
  deriving DecidableEq, Repr

def State.rank : State → ℕ
  | .dead => 0
  | .unload => 1
  | .probe => 2
  | .stop => 3
  | .init => 4
  | .opened => 5
  | .connected => 6

inductive Iftype where
  | station
  | adhoc
  | monitor
  deriving DecidableEq, Repr

/-- `struct c2h_join_bss_event`, as far as it is read here. -/
structure JoinBss where
  joinResult : ℕ
  ieLength : ℕ
  bssid : MacAddr
  aid : ℕ
  deriving DecidableEq, Repr

/-- `connect_bss` with the station `bss_priv->sta`. -/
structure ConnectBss where
  bss : ℕ
  sta : ℕ
  deriving DecidableEq, Repr

/-- `struct r92su`. A BSS stands for one reference taken from cfg80211; `refs` records the
references taken and put, `bufs` the copies of join events made and freed. -/
structure Device where
  state : State
  iftype : Iftype
  wantConnectBss : Option ℕ
  connectBss : Option ConnectBss
  connectResult : Option (ℕ × JoinBss)
  connectBssWork : Bool
  disconnectWork : Bool
  stas : StaList
  refs : Ledger
  bufs : Ledger
  deriving DecidableEq, Repr

/-- The mac_id of the BSS station. -/
abbrev bssMacid : ℕ := 5

abbrev maxSta : ℕ := 32

namespace Device

def isInitializing (s : Device) : Bool := State.rank .init ≤ s.state.rank

def isOpen (s : Device) : Bool := State.rank .opened ≤ s.state.rank

def isConnected (s : Device) : Bool := State.rank .connected ≤ s.state.rank

/-- After the probe, before the first `r92su_open`. -/
def start (iftype : Iftype) : Device where
  state := .stop
  iftype := iftype
  wantConnectBss := none
  connectBss := none
  connectResult := none
  connectBssWork := false
  disconnectWork := false
  stas := .empty
  refs := .empty
  bufs := .empty

def putBss (s : Device) (bss : ℕ) : Device := { s with refs := s.refs.release bss }

/-- `cfg80211_get_bss` or `cfg80211_inform_bss`; the BSS returned is `s.refs.next`. -/
def getBss (s : Device) : Device := { s with refs := s.refs.take }

def bssFree (s : Device) (bss : Option ℕ) : Device :=
  match bss with
  | none => s
  | some bss => putBss { s with stas := s.stas.staDel bssMacid } bss

def bssFreeConnected (s : Device) : Device :=
  bssFree { s with
    state := if s.isConnected then .opened else s.state
    connectBss := none } (s.connectBss.map ConnectBss.bss)

/-- What `r92su_connect` and `r92su_join_ibss` meet on their way: whether the scan, the lookup
of the BSS, the setup of keys or information elements, the making of an IBSS, the copy of the
elements and the command to the firmware succeed. -/
structure Attempt where
  scan : Bool
  found : Bool
  setup : Bool
  informed : Bool
  fwBss : Bool
  assocIe : Bool
  h2c : Bool
  deriving DecidableEq, Repr

/-- The label `out` with an error. -/
def connectFailed (s : Device) (bss : Option ℕ) : Device :=
  match bss with
  | none => { s with wantConnectBss := none }
  | some bss => putBss { s with wantConnectBss := none } bss

def internalConnect (s : Device) (a : Attempt) (bss : ℕ) : Device :=
  if !a.assocIe then s.connectFailed bss
  else if !a.h2c then { s with wantConnectBss := some bss }.connectFailed bss
  else { s with wantConnectBss := some bss }

/-- A device that is not open is left alone: `err` is still 0 from the scan. -/
def connect (s : Device) (a : Attempt) : Device :=
  if !a.scan then s
  else if !s.isOpen then s
  else if !a.found then s.connectFailed none
  else if !a.setup then s.getBss.connectFailed s.refs.next
  else s.getBss.internalConnect a s.refs.next

/-- When `cfg80211_inform_bss` fails `err` is still 0. -/
def joinIbss (s : Device) (a : Attempt) : Device :=
  if !a.scan then s
  else if !s.isOpen then s
  else if a.found then s.getBss.internalConnect a s.refs.next
  else if !a.setup then s.connectFailed none
  else if !a.informed then s
  else if !a.fwBss then s.getBss.connectFailed s.refs.next
  else s.getBss.internalConnect a s.refs.next

/-- `c2h_join_bss_event`; `copied` says that `kmemdup` found memory. -/
def joinBssEvent (s : Device) (copied : Bool) (join : JoinBss) : Device :=
  if s.connectResult.isSome then s
  else if copied then { s with
    connectResult := some (s.bufs.next, join), bufs := s.bufs.take, connectBssWork := true }
  else { s with connectResult := none, connectBssWork := true }

/-- `kfree(join_bss)` -/
def freeJoin (s : Device) (buf : ℕ) : Device := { s with bufs := s.bufs.release buf }

/-- `alloc` says that `r92su_sta_alloc` finds memory. A failure leaves `want_connect_bss`
as it is, and the result too unless a BSS is wanted. -/
def bssConnectWork (s : Device) (alloc : Bool) : Device :=
  if !s.isOpen then s
  else match s.wantConnectBss, s.connectResult with
    | some bss, some (buf, join) =>
        let s := { s with connectResult := none }
        if 12 ≤ join.ieLength ∧ join.joinResult ≠ 0 ∧ alloc then
          freeJoin { s with
            stas := s.stas.staAlloc join.bssid bssMacid join.aid
            connectBss := some ⟨bss, s.stas.nextId⟩
            wantConnectBss := none
            state := .connected } buf
        else (freeJoin s buf).bssFree (some bss)
    | want, none => s.bssFree want
    | want, some (buf, _) => (freeJoin s buf).bssFree want

/-- The stations of `r92su_stop`, and the work items it cancels. -/
def staDelAll (s : Device) : Device :=
  { s with
    stas := (List.range maxSta).foldl StaList.staDel s.stas
    connectBssWork := false
    disconnectWork := false }

def stop (s : Device) : Device :=
  let s := if s.isConnected then s.bssFreeConnected else s
  let s := { s with state := if s.isInitializing then .stop else s.state }
  (bssFree { s with wantConnectBss := none } s.wantConnectBss).staDelAll

/-- `loaded` says that firmware and hardware come up. -/
def openDevice (s : Device) (loaded : Bool) : Device :=
  if s.state = .stop ∧ loaded then
    { s with state := if s.iftype = .monitor then .connected else .opened }
  else s

/-- `c2h_add_sta_event` -/
def addStaEvent (s : Device) (alloc : Bool) (macAddr : MacAddr) (aid : ℕ) : Device :=
  if alloc then { s with stas := s.stas.staAlloc macAddr aid aid } else s

/-- `c2h_del_sta_event` -/
def delStaEvent (s : Device) (macAddr : MacAddr) : Device :=
  if s.iftype = .station then { s with disconnectWork := true }
  else match s.stas.staGet macAddr with
    | none => s
    | some sta => { s with stas := s.stas.staDel sta.macId }

theorem bssFree_want (s : Device) (bss : Option ℕ) :
    (s.bssFree bss).wantConnectBss = s.wantConnectBss := by
  cases bss <;> rfl

theorem bssFree_connect (s : Device) (bss : Option ℕ) :
    (s.bssFree bss).connectBss = s.connectBss := by
  cases bss <;> rfl

theorem bssFree_state (s : Device) (bss : Option ℕ) : (s.bssFree bss).state = s.state := by
  cases bss <;> rfl

theorem bssFree_bufs (s : Device) (bss : Option ℕ) : (s.bssFree bss).bufs = s.bufs := by
  cases bss <;> rfl

theorem bssFree_result (s : Device) (bss : Option ℕ) :
    (s.bssFree bss).connectResult = s.connectResult := by
  cases bss <;> rfl

inductive Event where
  | connect (a : Attempt)
  | joinIbss (a : Attempt)
  | joinBss (copied : Bool) (join : JoinBss)
  | connectWork (alloc : Bool)
  | disconnect
  | disconnectWork
  | stop
  | openDevice (loaded : Bool)
  | markDead
  | addSta (alloc : Bool) (macAddr : MacAddr) (aid : ℕ)
  | delSta (macAddr : MacAddr)
  deriving DecidableEq, Repr

/-- A work item runs when it is queued. -/
def step (s : Device) : Event → Device
  | .connect a => s.connect a
  | .joinIbss a => s.joinIbss a
  | .joinBss copied join => s.joinBssEvent copied join
  | .connectWork alloc =>
      if s.connectBssWork then bssConnectWork { s with connectBssWork := false } alloc else s
  | .disconnect => s.bssFreeConnected
  | .disconnectWork =>
      if s.disconnectWork then bssFreeConnected { s with disconnectWork := false } else s
  | .stop => s.stop
  | .openDevice loaded => s.openDevice loaded
  | .markDead => { s with state := .dead }
  | .addSta alloc macAddr aid => s.addStaEvent alloc macAddr aid
  | .delSta macAddr => s.delStaEvent macAddr

end Device

end R92su
