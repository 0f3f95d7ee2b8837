import StandaloneDrivers.Foundations.Chains
import StandaloneDrivers.Foundations.Run
import StandaloneDrivers.Rtl8188eu.Station
import Mathlib.Data.Int.Notation

/-! The table of stations (rtw_sta_mgt.c): its entries, the free ones and the hashed ones, and the
lists of an access point that refer to them (rtw_mlme_ext.c, rtw_ap.c). -/
namespace Rtl8188eu
open Foundations

/-- `NUM_STA` -/
abbrev numSta : ℕ := 32

/-- `wifi_mac_hash` -/
def wifiMacHash (mac : MacAddr) : UInt32 :=
  let x := (getElem mac 0 zero_lt_six).toUInt32
  let x := (x <<< 2) ^^^ (getElem mac 1 one_lt_six).toUInt32
  let x := (x <<< 2) ^^^ (getElem mac 2 two_lt_six).toUInt32
  let x := (x <<< 2) ^^^ (getElem mac 3 three_lt_six).toUInt32
  let x := (x <<< 2) ^^^ (getElem mac 4 four_lt_six).toUInt32
  let x := (x <<< 2) ^^^ (getElem mac 5 five_lt_six).toUInt32
  let x := x ^^^ (x >>> 8)
  x &&& (UInt32.ofNat numSta - 1)

theorem wifiMacHash_lt (mac : MacAddr) : (wifiMacHash mac).toNat < numSta := by
  unfold wifiMacHash
  rw [UInt32.toNat_and]
  exact Nat.lt_of_le_of_lt Nat.and_le_right (by decide)

/-- The chain of an address. -/
def hashIndex (mac : MacAddr) : Fin numSta := ⟨(wifiMacHash mac).toNat, wifiMacHash_lt mac⟩

/-- An entry of the table, by its place. -/
abbrev StaPtr : Type := Fin numSta

theorem lawfulBEq_staPtr : LawfulBEq StaPtr := inferInstance

/-- What the table is for: the entries handed out for an address, and those given back. -/
inductive StaEvent
  | allocated (psta : StaPtr) (hwaddr : MacAddr)
  | freed (psta : StaPtr)
  deriving DecidableEq, Repr

/-- The address each entry is held for. -/
def holder (log : List StaEvent) : StaPtr → Option MacAddr :=
  log.foldl (fun held event => match event with
    | .allocated psta hwaddr => Function.update held psta (some hwaddr)
    | .freed psta => Function.update held psta none) fun _ => none

/-- What the functions of the table read and write of `struct sta_priv` and of its entries. -/
structure StaTable where
  freeStaQueue : List StaPtr
  hwaddr : StaPtr → MacAddr
  aid : StaPtr → ℕ
  staHash : Fin numSta → List StaPtr
  asocStaCount : ℤ
  asocList : List StaPtr
  asocListCnt : ℕ
  authList : List StaPtr
  authListCnt : ℕ
  staAid : Fin numSta → Option StaPtr
  maxNumSta : ℕ
  log : List StaEvent

namespace StaTable

/-- `_rtw_init_sta_priv` -/
def init : StaTable where
  freeStaQueue := List.finRange numSta
  hwaddr := fun _ => Vector.replicate 6 0
  aid := fun _ => 0
  staHash := fun _ => []
  asocStaCount := 0
  asocList := []
  asocListCnt := 0
  authList := []
  authListCnt := 0
  staAid := fun _ => none
  maxNumSta := numSta
  log := []

/-- An entry is zeroed, given its address and chained; one whose hash is out of range is lost. -/
def rtwAllocStainfo (s : StaTable) (hwaddr : MacAddr) : StaTable × Option StaPtr :=
  match s.freeStaQueue with
  | [] => (s, none)
  | psta :: rest =>
    let s := { s with
      freeStaQueue := rest
      hwaddr := Function.update s.hwaddr psta hwaddr
      aid := Function.update s.aid psta 0 }
    if hindex : (wifiMacHash hwaddr).toNat < numSta then
      let index : Fin numSta := ⟨(wifiMacHash hwaddr).toNat, hindex⟩
      ({ s with
        staHash := Function.update s.staHash index (s.staHash index ++ [psta])
        asocStaCount := s.asocStaCount + 1
        log := s.log ++ [.allocated psta hwaddr] }, some psta)
    else (s, none)

/-- `rtw_list_delete(&psta->hash_list)`: an entry is in the chain of its address. -/
def unhash (s : StaTable) (psta : StaPtr) : StaTable :=
  let index := hashIndex (s.hwaddr psta)
  { s with
    staHash := Function.update s.staHash index ((s.staHash index).erase psta)
    asocStaCount := s.asocStaCount - 1 }

def unlinkAuth (s : StaTable) (psta : StaPtr) : StaTable :=
  if psta ∈ s.authList then
    { s with authList := s.authList.erase psta, authListCnt := s.authListCnt - 1 }
  else s

def unlinkAsoc (s : StaTable) (psta : StaPtr) : StaTable :=
  if psta ∈ s.asocList then
    { s with asocList := s.asocList.erase psta, asocListCnt := s.asocListCnt - 1 }
  else s

def linkAuth (s : StaTable) (psta : StaPtr) : StaTable :=
  if psta ∈ s.authList then s
  else { s with authList := s.authList ++ [psta], authListCnt := s.authListCnt + 1 }

def linkAsoc (s : StaTable) (psta : StaPtr) : StaTable :=
  if psta ∈ s.asocList then s
  else { s with asocList := s.asocList ++ [psta], asocListCnt := s.asocListCnt + 1 }

/-- The slot of an association id. -/
def aidSlot (aid : ℕ) : Option (Fin numSta) :=
  if h : 0 < aid ∧ aid - 1 < numSta then some ⟨aid - 1, h.2⟩ else none

/-- The association id of an entry is given back when its slot refers to the entry. -/
def releaseAid (s : StaTable) (psta : StaPtr) : StaTable :=
  match aidSlot (s.aid psta) with
  | none => s
  | some i =>
    if s.staAid i = some psta then
      { s with
        staAid := Function.update s.staAid i none
        aid := Function.update s.aid psta 0 }
    else s

def rtwFreeStainfo (s : StaTable) (psta : Option StaPtr) : StaTable :=
  match psta with
  | none => s
  | some psta =>
    let s := ((s.unhash psta).unlinkAuth psta).releaseAid psta
    { s with
      freeStaQueue := s.freeStaQueue ++ [psta]
      log := s.log ++ [.freed psta] }

/-- A null pointer finds nothing, and all multicast addresses are searched as one. -/
def rtwGetStainfo (s : StaTable) (hwaddr : Option MacAddr) : Option StaPtr :=
  hwaddr.bind fun hwaddr =>
    let addr := StaPriv.searched hwaddr
    (s.staHash (hashIndex addr)).find? fun psta => s.hwaddr psta = addr

def rtwGetBcmcStainfo (s : StaTable) : Option StaPtr := s.rtwGetStainfo (some bcAddr)

def rtwInitBcmcStainfo (s : StaTable) : StaTable := (s.rtwAllocStainfo bcAddr).1

/-- The chains are walked in turn; an entry is left before it is freed. -/
def rtwFreeAllStainfo (s : StaTable) : StaTable :=
  let pbcmc := s.rtwGetBcmcStainfo
  if s.asocStaCount = 1 then s
  else (List.finRange numSta).foldl (fun s index =>
    (s.staHash index).foldl (fun s psta =>
      if pbcmc ≠ some psta then s.rtwFreeStainfo (some psta) else s) s) s

/-- What `OnAuth` does to the table when it accepts a station. -/
def onAuth (s : StaTable) (sa : MacAddr) : StaTable :=
  match s.rtwGetStainfo (some sa) with
  | some pstat => (s.unlinkAsoc pstat).linkAuth pstat
  | none =>
    match s.rtwAllocStainfo sa with
    | (s, none) => s
    | (s, some pstat) => s.linkAuth pstat

/-- The first association id whose slot is empty, `NUM_STA + 1` when there is none. -/
def firstAid (s : StaTable) : ℕ :=
  ((List.finRange numSta).findIdx fun i => s.staAid i = none) + 1

/-- What `OnAssocReq` does to the table for a station with an entry, by the outcome of the checks of
the request. -/
def onAssocReq (s : StaTable) (sa : MacAddr) (accepted : Bool) : StaTable :=
  match s.rtwGetStainfo (some sa) with
  | none => s
  | some pstat =>
    if !accepted then { s with aid := Function.update s.aid pstat 0 }
    else if 0 < s.aid pstat then (s.unlinkAuth pstat).linkAsoc pstat
    else
      let aid := s.firstAid
      if s.maxNumSta < aid then { s with aid := Function.update s.aid pstat 0 }
      else
        let s := { s with aid := Function.update s.aid pstat aid }
        let s := match aidSlot aid with
          | none => s
          | some i => { s with staAid := Function.update s.staAid i (some pstat) }
        (s.unlinkAuth pstat).linkAsoc pstat

/-- What `start_ap_mode` does to the table. -/
def startApMode (s : StaTable) : StaTable := { s with staAid := fun _ => none }

/-- The limit that a user sets, unless it is out of range. -/
def setMaxNumSta (s : StaTable) (n : ℕ) : StaTable :=
  { s with maxNumSta := if numSta < n ∨ n = 0 then numSta else n }

/-- A call of one of the functions, `unlinkAsoc` being what the access point does to a station
before it frees it. -/
inductive Call
  | alloc (hwaddr : MacAddr)
  | free (psta : Option StaPtr)
  | freeAll
  | auth (sa : MacAddr)
  | assocReq (sa : MacAddr) (accepted : Bool)
  | unlinkAsoc (psta : StaPtr)
  | startAp
  | setMax (n : ℕ)

def step (s : StaTable) : Call → StaTable
  | .alloc hwaddr => (s.rtwAllocStainfo hwaddr).1
  | .free psta => s.rtwFreeStainfo psta
  | .freeAll => s.rtwFreeAllStainfo
  | .auth sa => s.onAuth sa
  | .assocReq sa accepted => s.onAssocReq sa accepted
  | .unlinkAsoc psta => s.unlinkAsoc psta
  | .startAp => s.startApMode
  | .setMax n => s.setMaxNumSta n

/-- The table after initialisation, with the broadcast entry. -/
def start : StaTable := init.rtwInitBcmcStainfo

end StaTable
end Rtl8188eu
