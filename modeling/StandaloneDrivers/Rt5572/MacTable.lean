import StandaloneDrivers.Foundations.Chains
import StandaloneDrivers.Foundations.Bytes

/-! The table of stations of an adapter and its hash chains (common/cmm_data.c), in a driver that is
an access point or a station by `OpMode` and has access-point clients. -/
namespace Rt5572
open Foundations

abbrev Addr : Type := Vector UInt8 6

namespace MacTab

/-- `MAX_LEN_OF_MAC_TABLE` -/
abbrev maxLen : ℕ := 32

/-- `HASH_TABLE_SIZE` -/
abbrev hashTableSize : ℕ := 256

/-- `HW_BEACON_MAX_NUM` -/
abbrev hwBeaconMaxNum : ℕ := 16

/-- `MIN_NET_DEVICE_FOR_APCLI` -/
abbrev minNetDeviceForApcli : UInt8 := 0x20

abbrev Wcid : Type := Fin maxLen

/-- `MAC_ADDR_HASH_INDEX` -/
def macAddrHashIndex (addr : Addr) : Fin hashTableSize :=
  (addr[0] ^^^ addr[1] ^^^ addr[2] ^^^ addr[3] ^^^ addr[4] ^^^ addr[5]).toFin

inductive EntryType
  | none
  | client
  | wds
  | apcli
  | mesh
  | dls
  | tdls
  deriving DecidableEq, Repr

/-- `SST` -/
inductive Sst
  | notAuth
  | auth
  | assoc
  deriving DecidableEq, Repr

/-- What the functions of the table read and write of `MAC_TABLE_ENTRY`. -/
structure Entry where
  entryType : EntryType
  apidx : UInt8
  addr : Addr
  sst : Sst
  pNext : Option Wcid
  deriving DecidableEq, Repr

/-- An entry filled with zeroes. -/
def Entry.zero : Entry := ⟨.none, 0, Vector.replicate 6 0, .notAuth, none⟩

/-- The mode of the driver, and for a station whether it is in an infrastructure network. -/
inductive OpMode
  | ap
  | sta (bssInfra : Bool)
  deriving DecidableEq, Repr

/-- The networks of an access point; the profile and the chip bound their number. -/
structure ApCfg where
  bssidNum : ℕ
  maxMbssidNum : ℕ
  bssidNum_le : bssidNum ≤ maxMbssidNum
  maxMbssidNum_le : maxMbssidNum ≤ hwBeaconMaxNum

end MacTab

open MacTab

/-- `pAd->MacTab`, and the counters and limits of `ApCfg.MBSSID`. -/
structure MacTab where
  hash : Fin hashTableSize → Option Wcid
  content : Wcid → Entry
  size : ℕ
  staCount : UInt8 → UInt8
  maxStaNum : UInt8 → UInt8

namespace MacTab

/-- The table of an adapter filled with zeroes. -/
def init : MacTab where
  hash := fun _ => none
  content := fun _ => Entry.zero
  size := 0
  staCount := fun _ => 0
  maxStaNum := fun _ => 0

variable (s : MacTab)

def next (i : Wcid) : Option Wcid := (s.content i).pNext

def isNone (i : Wcid) : Bool := (s.content i).entryType = .none

def setEntry (i : Wcid) (e : Entry) : MacTab :=
  { s with content := Function.update s.content i e }

def setNext (i : Wcid) (next : Option Wcid) : MacTab :=
  s.setEntry i { s.content i with pNext := next }

/-- The entry of an address, `none` while the loop has not ended. -/
def macTableLookup (pAddr : Addr) : Option (Option Wcid) :=
  walk s.next (fun i => s.isNone i || (s.content i).addr = pAddr) maxLen
    (s.hash (macAddrHashIndex pAddr))

/-- `FirstWcid` -/
def firstWcid : OpMode → ℕ
  | .sta true => 2
  | _ => 1

/-- The first vacancy from `FirstWcid` on. -/
def vacancy (mode : OpMode) : Option Wcid :=
  (List.finRange maxLen).find? fun i => firstWcid mode ≤ i && s.isNone i

/-- No further client of a network is allowed. -/
def connectionTableFull (cfg : ApCfg) (apidx : UInt8) : Bool :=
  apidx.toNat < cfg.bssidNum && apidx.toNat < cfg.maxMbssidNum && apidx.toNat < hwBeaconMaxNum &&
    s.maxStaNum apidx != 0 && s.maxStaNum apidx ≤ s.staCount apidx

/-- `MBSS_MR_APIDX_SANITY_CHECK` -/
def apidxSanityCheck (cfg : ApCfg) (apidx : UInt8) : UInt8 :=
  if cfg.maxMbssidNum ≤ apidx.toNat || hwBeaconMaxNum ≤ apidx.toNat then 0 else apidx

/-- An entry becomes the last of the chain of an address. -/
def addToHash (i : Wcid) (pAddr : Addr) : Option MacTab :=
  let hashIdx := macAddrHashIndex pAddr
  match s.hash hashIdx with
  | none => some { s with hash := Function.update s.hash hashIdx (some i) }
  | some first =>
    (walk s.next (fun j => (s.next j).isNone) maxLen (some first)).map fun pCurrEntry =>
      match pCurrEntry with
      | none => s
      | some pCurrEntry => s.setNext pCurrEntry (some i)

/-- The table and the new entry; `none` when the walk to the end of the chain does not end. The
first vacancy is zeroed, also when the network turns out to be full. -/
def macTableInsertEntry (cfg : ApCfg) (mode : OpMode) (pAddr : Addr) (apidx : UInt8)
    (cleanAll : Bool) : Option (MacTab × Option Wcid) :=
  if maxLen ≤ s.size then some (s, none)
  else match s.vacancy mode with
  | none => some (s, none)
  | some i =>
    let s := s.setEntry i Entry.zero
    let s := if cleanAll then s.setEntry i Entry.zero else s
    if minNetDeviceForApcli ≤ apidx then
      let s := s.setEntry i ⟨.apcli, apidx - minNetDeviceForApcli, pAddr, .notAuth, none⟩
      ({ s with size := s.size + 1 }.addToHash i pAddr).map (·, some i)
    else if mode = .ap ∧ s.connectionTableFull cfg apidx then some (s, none)
    else
      let s := s.setEntry i ⟨.client, apidx, pAddr, .notAuth, none⟩
      let s := if mode = .ap then
          let apidx := apidxSanityCheck cfg apidx
          { s with staCount := Function.update s.staCount apidx (s.staCount apidx + 1) }
        else s
      ({ s with size := s.size + 1 }.addToHash i pAddr).map (·, some i)

/-- An entry is taken out of the chain of an address, if it is there. -/
def removeFromHash (i : Wcid) (pAddr : Addr) : Option MacTab :=
  let hashIdx := macAddrHashIndex pAddr
  (walkTo s.next i maxLen none (s.hash hashIdx)).map fun found =>
    match found with
    | none => s
    | some none => { s with hash := Function.update s.hash hashIdx (s.next i) }
    | some (some pPrevEntry) => s.setNext pPrevEntry (s.next i)

/-- The table and whether `wcid` is in range; the entry is deleted when it has the address. -/
def macTableDeleteEntry (wcid : ℕ) (pAddr : Addr) : Option (MacTab × Bool) :=
  if h : wcid < maxLen then
    let i : Wcid := ⟨wcid, h⟩
    if s.isNone i || (s.content i).addr ≠ pAddr then some (s, true)
    else
      let apidx := (s.content i).apidx
      let s := if (s.content i).entryType = .client then
          { s with staCount := Function.update s.staCount apidx (s.staCount apidx - 1) }
        else s
      (s.removeFromHash i pAddr).map fun s =>
        let s := s.setEntry i { s.content i with addr := Vector.replicate 6 0, entryType := .none }
        ({ s with size := s.size - 1 }, true)
  else some (s, false)

/-- The deletions of `MacTableReset`, and whether all were made: it returns at an associated client
of an access point when there is no memory for the frame that tells the client. -/
def deleteEntries (mode : OpMode) (allocated : Wcid → Bool) :
    List Wcid → MacTab → Option (MacTab × Bool)
  | [], s => some (s, true)
  | i :: rest, s =>
    if (s.content i).entryType = .client ∧ mode = .ap ∧ (s.content i).sst = .assoc ∧
        allocated i = false then some (s, false)
    else
      (s.macTableDeleteEntry i (s.content i).addr).bind fun (s, _) =>
        deleteEntries mode allocated rest s

/-- An access point also clears the counters of its networks and the size. -/
def macTableReset (cfg : ApCfg) (mode : OpMode) (allocated : Wcid → Bool) : Option MacTab :=
  (deleteEntries mode allocated ((List.finRange maxLen).drop 1) s).map fun (s, complete) =>
    if complete ∧ mode = .ap then
      { s with
        staCount := fun apidx => if apidx.toNat < cfg.bssidNum then 0 else s.staCount apidx
        size := 0 }
    else s

/-- The calls of the table's functions, and what the state machines and the user set. -/
inductive Call
  | insert (pAddr : Addr) (apidx : UInt8) (cleanAll : Bool)
  | delete (wcid : ℕ) (pAddr : Addr)
  | reset (allocated : Wcid → Bool)
  | setSst (i : Wcid) (sst : Sst)
  | setMaxStaNum (apidx maxStaNum : UInt8)

/-- A call in a mode of the driver; `none` when a loop does not end. -/
def step (cfg : ApCfg) (s : MacTab) (call : OpMode × Call) : Option MacTab :=
  match call.2 with
  | .insert pAddr apidx cleanAll =>
    (s.macTableInsertEntry cfg call.1 pAddr apidx cleanAll).map Prod.fst
  | .delete wcid pAddr => (s.macTableDeleteEntry wcid pAddr).map Prod.fst
  | .reset allocated => s.macTableReset cfg call.1 allocated
  | .setSst i sst => some (s.setEntry i { s.content i with sst := sst })
  | .setMaxStaNum apidx maxStaNum =>
    some { s with maxStaNum := Function.update s.maxStaNum apidx maxStaNum }

end MacTab
end Rt5572
