import Mathlib.Data.BitVec
import StandaloneDrivers.Foundations.Chains
import StandaloneDrivers.Rt5572.MacTable

/-! The multicast filter table of IGMP snooping (common/igmp_snoop.c): entries on hash chains, and
member blocks from a pool. -/
namespace Rt5572
open Foundations

namespace McastTab

/-- `MAX_LEN_OF_MULTICAST_FILTER_TABLE` -/
abbrev maxLen : ℕ := 64

/-- `MAX_LEN_OF_MULTICAST_FILTER_HASH_TABLE` -/
abbrev hashLen : ℕ := 128

/-- `FREE_MEMBER_POOL_SIZE` -/
abbrev poolSize : ℕ := 64

abbrev Slot : Type := Fin maxLen

abbrev Block : Type := Fin poolSize

/-- `MULTICAST_ADDR_HASH_INDEX` -/
def hashIndex (addr : Addr) : Fin hashLen :=
  Fin.ofNat hashLen
    (getElem addr 0 zero_lt_six ^^^ getElem addr 1 one_lt_six ^^^ getElem addr 2 two_lt_six ^^^
      getElem addr 3 three_lt_six ^^^ getElem addr 4 four_lt_six ^^^ getElem addr 5 five_lt_six).toNat

/-- `MulticastFilterEntryType` -/
inductive EntryType
  | static
  | dynamic
  deriving DecidableEq, Repr

/-- `MULTICAST_FILTER_TABLE_ENTRY`, but for its list of members. -/
structure Entry where
  valid : Bool
  type : EntryType
  lastTime : BitVec 32
  netDev : ℕ
  addr : Addr
  pNext : Option Slot
  deriving DecidableEq, Repr

/-- An entry filled with zeroes. -/
def Entry.zero : Entry := ⟨false, .static, 0, 0, Vector.replicate 6 0, none⟩

/-- The width of `jiffies` and `HZ`. -/
structure Clock where
  bits : ℕ
  hz : ℕ

/-- `Now - lastTime > IGMPMAC_TB_ENTRY_AGEOUT_TIME` -/
def Clock.olderThanAgeout (c : Clock) (now : BitVec c.bits) (lastTime : BitVec 32) : Bool :=
  (BitVec.ofNat c.bits (120 * c.hz)).ult (now - lastTime.setWidth c.bits)

/-- `RTMP_TIME_AFTER(Now, lastTime + IGMPMAC_TB_ENTRY_AGEOUT_TIME)` -/
def Clock.afterAgeout (c : Clock) (now : BitVec c.bits) (lastTime : BitVec 32) : Bool :=
  ((lastTime + BitVec.ofNat 32 (120 * c.hz)).setWidth c.bits - now).msb

/-- What the clock shows during a call: when the walk along a chain comes to an entry, when the
search for a vacancy does, and when the new entry is stamped. -/
structure Times (c : Clock) where
  walk : Slot → BitVec c.bits
  search : Slot → BitVec c.bits
  stamp : BitVec c.bits

end McastTab

open McastTab

/-- `MULTICAST_FILTER_TABLE`, with the address in each block of `freeMemberPool`. The lists of the
members stand beside the entries. -/
structure McastTab where
  size : UInt8
  hash : Fin hashLen → Option Slot
  content : Slot → Entry
  memberList : Slot → List Block
  memberAddr : Block → Addr
  freeEntryList : List Block

namespace McastTab

/-- `MulticastFilterTableInit` -/
def init : McastTab where
  size := 0
  hash := fun _ => none
  content := fun _ => Entry.zero
  memberList := fun _ => []
  memberAddr := fun _ => Vector.replicate 6 0
  freeEntryList := List.finRange poolSize

variable (t : McastTab)

def next (i : Slot) : Option Slot := (t.content i).pNext

/-- The entry is the one of a group on a device. -/
def isFor (pGrpId : Addr) (dev : ℕ) (i : Slot) : Bool :=
  (t.content i).netDev = dev && (t.content i).addr = pGrpId

def setEntry (i : Slot) (e : Entry) : McastTab :=
  { t with content := Function.update t.content i e }

def setNext (i : Slot) (next : Option Slot) : McastTab :=
  t.setEntry i { t.content i with pNext := next }

def refresh (i : Slot) (now : BitVec 32) : McastTab :=
  t.setEntry i { t.content i with lastTime := now }

section Members

/-- The block of a member in a group. -/
def member (i : Slot) (pMemberAddr : Addr) : Option Block :=
  (t.memberList i).find? fun b => t.memberAddr b = pMemberAddr

/-- Without a free block nothing is inserted. -/
def insertIgmpMember (i : Slot) (pMemberAddr : Addr) : McastTab :=
  match t.freeEntryList with
  | [] => t
  | b :: rest =>
    { t with
      freeEntryList := rest
      memberAddr := Function.update t.memberAddr b pMemberAddr
      memberList := Function.update t.memberList i (t.memberList i ++ [b]) }

def deleteIgmpMember (i : Slot) (pMemberAddr : Addr) : McastTab :=
  match t.member i pMemberAddr with
  | none => t
  | some b =>
    { t with
      freeEntryList := t.freeEntryList ++ [b]
      memberList := Function.update t.memberList i ((t.memberList i).erase b) }

def deleteIgmpMemberList (i : Slot) : McastTab :=
  { t with
    freeEntryList := t.freeEntryList ++ t.memberList i
    memberList := Function.update t.memberList i [] }

def igmpMemberCnt (i : Slot) : UInt8 := UInt8.ofNat (t.memberList i).length

end Members

/-- An entry is taken off its chain, its members are freed, and it is zeroed; `none` when there is
no entry before it to be changed. -/
def removeEntry (hashIdx : Fin hashLen) (pPrev : Option Slot) (i : Slot) : Option McastTab :=
  let unlinked := if t.hash hashIdx = some i then
      some { t with hash := Function.update t.hash hashIdx (t.next i) }
    else pPrev.map fun p => t.setNext p (t.next i)
  unlinked.map fun t =>
    let t := (t.deleteIgmpMemberList i).setEntry i Entry.zero
    { t with size := t.size - 1 }

variable {c : Clock} (times : Times c) (pGrpId : Addr) (dev : ℕ)

/-- The loop of `MulticastFilterTableLookup`: the table and `pEntry` when it ends, `none` while it
has not. -/
def lookupLoop (times : Times c) (pGrpId : Addr) (dev : ℕ) :
    ℕ → McastTab → Option Slot → Option Slot → Option (McastTab × Option Slot)
  | _, t, _, none => some (t, none)
  | 0, _, _, some _ => none
  | fuel + 1, t, pPrev, some i =>
    let e := t.content i
    if !e.valid then some (t, some i)
    else if t.isFor pGrpId dev i then
      some (t.refresh i ((times.walk i).setWidth 32), some i)
    else if e.type = .dynamic ∧ c.afterAgeout (times.walk i) e.lastTime then
      (t.removeEntry (hashIndex pGrpId) pPrev i).bind fun t' =>
        if t.hash (hashIndex pGrpId) = some i then
          lookupLoop times pGrpId dev fuel t' (t'.hash (hashIndex pGrpId))
            (t'.hash (hashIndex pGrpId))
        else lookupLoop times pGrpId dev fuel t' pPrev (pPrev.bind t'.next)
    else lookupLoop times pGrpId dev fuel t (some i) e.pNext

/-- `MulticastFilterTableLookup` -/
def lookup : Option (McastTab × Option Slot) :=
  let head := t.hash (hashIndex pGrpId)
  lookupLoop times pGrpId dev maxLen t head head

/-- The loop of `MulticastFilterTableDeleteEntry`: `pPrevEntry` and `pEntry` when it ends. -/
def deleteLoop : ℕ → Option Slot → Option Slot → Option (Option Slot × Option Slot)
  | _, pPrevEntry, none => some (pPrevEntry, none)
  | 0, _, some _ => none
  | fuel + 1, pPrevEntry, some i =>
    if !(t.content i).valid || t.isFor pGrpId dev i then some (pPrevEntry, some i)
    else deleteLoop fuel (some i) (t.next i)

/-- `MulticastFilterTableDeleteEntry` -/
def deleteEntry (pMemberAddr : Option Addr) : Option McastTab :=
  let hashIdx := hashIndex pGrpId
  (t.deleteLoop pGrpId dev maxLen (t.hash hashIdx) (t.hash hashIdx)).bind
    fun (pPrevEntry, pEntry) =>
    match pEntry with
    | none => some t
    | some i =>
      match pMemberAddr with
      | none => t.removeEntry hashIdx pPrevEntry i
      | some addr =>
        let t := t.deleteIgmpMember i addr
        if 0 < t.igmpMemberCnt i then some t else t.removeEntry hashIdx pPrevEntry i

/-- The rest of a chain is searched for the entry behind `pPrevEntry` with an address and device. -/
def unlinkLoop (pGrpId : Addr) (dev : ℕ) : ℕ → McastTab → Slot → Option McastTab
  | 0, _, _ => none
  | fuel + 1, t, pPrevEntry =>
    match t.next pPrevEntry with
    | none => some t
    | some pHashEntry =>
      if t.isFor pGrpId dev pHashEntry then
        let t := t.setNext pPrevEntry (t.next pHashEntry)
        some { t with size := t.size - 1 }
      else unlinkLoop pGrpId dev fuel t pHashEntry

/-- An aged entry that the search for a vacancy comes to; `none` when its chain is empty. -/
def vacate (i : Slot) : Option McastTab :=
  let e := t.content i
  let hashIdx := hashIndex e.addr
  match t.hash hashIdx with
  | none => none
  | some pHashEntry =>
    let unlinked := if t.isFor e.addr e.netDev pHashEntry then
        some { t with hash := Function.update t.hash hashIdx (t.next pHashEntry), size := t.size - 1 }
      else unlinkLoop e.addr e.netDev maxLen t pHashEntry
    unlinked.map fun t =>
      (t.setEntry i { t.content i with valid := false }).deleteIgmpMemberList i

/-- An entry that the search for a vacancy takes for aged. -/
def aged (i : Slot) : Bool :=
  (t.content i).valid && (t.content i).type = .dynamic &&
    c.olderThanAgeout (times.search i) (t.content i).lastTime

/-- A vacancy is filled with a new group. -/
def fill (pMemberAddr : Option Addr) (type : EntryType) (i : Slot) : McastTab :=
  let t := t.setEntry i ⟨true, type, times.stamp.setWidth 32, dev, pGrpId, none⟩
  let t := { t with memberList := Function.update t.memberList i [] }
  let t := match pMemberAddr with
    | some addr => t.insertIgmpMember i addr
    | none => t
  { t with size := t.size + 1 }

/-- The search for a vacancy: the table and the entry that was filled. -/
def searchLoop (times : Times c) (pGrpId : Addr) (dev : ℕ) (pMemberAddr : Option Addr)
    (type : EntryType) : List Slot → McastTab → Option (McastTab × Option Slot)
  | [], t => some (t, none)
  | i :: rest, t =>
    (if t.aged times i then t.vacate i else some t).bind fun t =>
      if !(t.content i).valid then some (t.fill times pGrpId dev pMemberAddr type i, some i)
      else searchLoop times pGrpId dev pMemberAddr type rest t

/-- An entry becomes the last of the chain of a group. -/
def addToHash (pGrpId : Addr) (i : Slot) : Option McastTab :=
  let hashIdx := hashIndex pGrpId
  match t.hash hashIdx with
  | none => some { t with hash := Function.update t.hash hashIdx (some i) }
  | some first =>
    (walk t.next (fun j => (t.next j).isNone) maxLen (some first)).map fun pCurrEntry =>
      match pCurrEntry with
      | none => t
      | some pCurrEntry => t.setNext pCurrEntry (some i)

/-- `MulticastFilterTableInsertEntry`: the table and what is returned. When no vacancy was found,
the last entry looked at is taken. -/
def insertEntry (pMemberAddr : Option Addr) (type : EntryType) : Option (McastTab × Bool) :=
  if maxLen ≤ t.size.toNat then some (t, false)
  else (t.lookup times pGrpId dev).bind fun (t, pEntry) =>
    match pEntry, pMemberAddr with
    | some _, none => some (t, false)
    | some i, some addr =>
      if (t.member i addr).isSome then some (t, false) else some (t.insertIgmpMember i addr, true)
    | none, _ =>
      (searchLoop times pGrpId dev pMemberAddr type (List.finRange maxLen) t).bind fun (t, slot) =>
        (t.addToHash pGrpId (slot.getD (Fin.last 63))).map (·, true)

/-- A member, if one is given, leaves a group. -/
def leave (i : Slot) : Option Addr → McastTab
  | some pMemberAddr => t.deleteIgmpMember i pMemberAddr
  | none => t

/-- `IgmpGroupDelMembers` -/
def igmpGroupDelMembers (pMemberAddr : Option Addr) (pDev : ℕ) : Option McastTab :=
  (List.finRange maxLen).foldlM (fun t i =>
    if (t.content i).valid then
      let t := t.leave i pMemberAddr
      if (t.content i).type = .dynamic ∧ t.igmpMemberCnt i = 0 then
        t.deleteEntry (t.content i).addr pDev pMemberAddr
      else some t
    else some t) t

inductive Call (c : Clock)
  | insert (times : Times c) (pGrpId : Addr) (pMemberAddr : Option Addr) (dev : ℕ)
      (type : EntryType)
  | delete (pGrpId : Addr) (pMemberAddr : Option Addr) (dev : ℕ)
  | lookup (times : Times c) (pGrpId : Addr) (dev : ℕ)
  | groupDelMembers (pMemberAddr : Option Addr) (dev : ℕ)

/-- A call; `none` when a loop does not end or a pointer is NULL where it is followed. -/
def step (t : McastTab) : Call c → Option McastTab
  | .insert times pGrpId pMemberAddr dev type =>
    (t.insertEntry times pGrpId dev pMemberAddr type).map Prod.fst
  | .delete pGrpId pMemberAddr dev => t.deleteEntry pGrpId dev pMemberAddr
  | .lookup times pGrpId dev => (t.lookup times pGrpId dev).map Prod.fst
  | .groupDelMembers pMemberAddr dev => t.igmpGroupDelMembers pMemberAddr dev

end McastTab
end Rt5572
