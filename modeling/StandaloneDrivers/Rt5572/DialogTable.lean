import Mathlib.Data.BitVec
import StandaloneDrivers.Foundations.Chains

/-! The tables of measurement requests and of TPC requests (common/spectrum.c): entries by dialog
token on hash chains, and an insertion that takes the place of an aged entry. -/
namespace Rt5572
open Foundations

/-- `MAX_MEASURE_REQ_TAB_SIZE` and `MAX_TPC_REQ_TAB_SIZE`, and the sizes of the hash tables -/
abbrev maxReqTabSize : ℕ := 32

/-- `MQ_REQ_AGE_OUT`, in ms -/
abbrev mqReqAgeOut : ℕ := 500

/-- `TPC_REQ_AGE_OUT`, in ms -/
abbrev tpcReqAgeOut : ℕ := 500

/-- Which table. -/
inductive ReqKind
  | measure
  | tpc
  deriving DecidableEq, Repr

def ReqKind.ageOut : ReqKind → ℕ
  | .measure => mqReqAgeOut
  | .tpc => tpcReqAgeOut

/-- The width of `unsigned long`, and `HZ`. -/
structure Jiffies where
  bits : ℕ
  bits_ge : 32 ≤ bits
  hz : ℕ

/-- `RTMP_TIME_AFTER` -/
def rtmpTimeAfter {w : ℕ} (a b : BitVec w) : Bool := (b - a).msb

namespace ReqTab

abbrev Slot : Type := Fin maxReqTabSize

/-- `MQ_DIALOGTOKEN_HASH_INDEX` and `TPC_DIALOGTOKEN_HASH_INDEX` -/
def dialogTokenHashIndex (dialogToken : UInt8) : Fin maxReqTabSize :=
  Fin.ofNat maxReqTabSize (dialogToken &&& 31).toNat

/-- `MEASURE_REQ_ENTRY` and `TPC_REQ_ENTRY`, but for the pointer. -/
structure Entry (w : ℕ) where
  lastTime : BitVec w
  valid : Bool
  dialogToken : UInt8
  deriving DecidableEq, Repr

/-- An entry filled with zeroes. -/
def Entry.zero {w : ℕ} : Entry w := ⟨0, false, 0⟩

/-- When the clock is read in an insertion: when the search comes to an entry, and when the new one
is stamped; in ticks that are never set back. -/
structure Times where
  search : Slot → ℕ
  stamp : ℕ
  search_mono : Monotone search
  search_le : ∀ i, search i ≤ stamp

end ReqTab

open ReqTab

/-- `MEASURE_REQ_TAB` and `TPC_REQ_TAB`. The pointers stand beside the entries. -/
structure ReqTab (w : ℕ) where
  size : UInt8
  hash : Fin maxReqTabSize → Option Slot
  content : Slot → Entry w
  pNext : Slot → Option Slot

namespace ReqTab
variable {w : ℕ}

/-- `MeasureReqTabInit` and `TpcReqTabInit` -/
def init : ReqTab w := ⟨0, fun _ => none, fun _ => Entry.zero, fun _ => none⟩

variable (t : ReqTab w)

def valid (i : Slot) : Bool := (t.content i).valid

def dialogToken (i : Slot) : UInt8 := (t.content i).dialogToken

/-- `MeasureReqLookUp` and `TpcReqLookUp`; `none` while the loop has not ended. -/
def reqLookUp (dialogToken : UInt8) : Option (Option Slot) :=
  walk t.pNext (fun i => t.dialogToken i = dialogToken) maxReqTabSize
    (t.hash (dialogTokenHashIndex dialogToken))

/-- An entry is taken off its chain and filled with zeroes, its pointer too; `none` when a NULL
pointer is followed or while the loop has not ended. -/
def removeEntry (i : Slot) : Option (ReqTab w) :=
  (Chained.unlink t.pNext t.hash maxReqTabSize (dialogTokenHashIndex (t.dialogToken i)) i).map
    fun (pNext, hash) => ⟨t.size - 1, hash, Function.update t.content i Entry.zero,
      Function.update pNext i none⟩

/-- The test of `MQ_REQ_AGE_OUT` or `TPC_REQ_AGE_OUT`. -/
def aged (ageOut now : ℕ) (i : Slot) : Bool :=
  t.valid i && rtmpTimeAfter (BitVec.ofNat w now) ((t.content i).lastTime + BitVec.ofNat w ageOut)

/-- The entry at which the search for a place ends. -/
def place (ageOut : ℕ) (times : Times) : Option Slot :=
  (List.finRange maxReqTabSize).find? fun i => t.aged ageOut (times.search i) i || !t.valid i

/-- A place is filled, and becomes the last of its chain. -/
def addEntry (dialogToken : UInt8) (stamp : ℕ) (i : Slot) : Option (ReqTab w) :=
  (Chained.addLast t.pNext t.hash maxReqTabSize (dialogTokenHashIndex dialogToken) i).map
    fun (pNext, hash) => ⟨t.size + 1, hash,
      Function.update t.content i ⟨BitVec.ofNat w stamp, true, dialogToken⟩, pNext⟩

/-- `MeasureReqInsert` and `TpcReqInsert`: the table, and the entry that is returned. -/
def reqInsert (ageOut : ℕ) (times : Times) (dialogToken : UInt8) :
    Option (ReqTab w × Option Slot) :=
  (t.reqLookUp dialogToken).bind fun
    | some i => some (t, some i)
    | none =>
      match t.place ageOut times with
      | none => some (t, none)
      | some i =>
        (if t.aged ageOut (times.search i) i then t.removeEntry i else some t).bind fun t =>
          (t.addEntry dialogToken times.stamp i).map (·, some i)

/-- `MeasureReqDelete` and `TpcReqDelete` -/
def reqDelete (dialogToken : UInt8) : Option (ReqTab w) :=
  if t.size = 0 then some t
  else (t.reqLookUp dialogToken).bind fun
    | none => some t
    | some i => t.removeEntry i

def measureReqLookUp (dialogToken : UInt8) : Option (Option Slot) := t.reqLookUp dialogToken

def measureReqInsert (times : Times) (dialogToken : UInt8) : Option (ReqTab w × Option Slot) :=
  t.reqInsert mqReqAgeOut times dialogToken

def measureReqDelete (dialogToken : UInt8) : Option (ReqTab w) := t.reqDelete dialogToken

def tpcReqLookUp (dialogToken : UInt8) : Option (Option Slot) := t.reqLookUp dialogToken

def tpcReqInsert (times : Times) (dialogToken : UInt8) : Option (ReqTab w × Option Slot) :=
  t.reqInsert tpcReqAgeOut times dialogToken

def tpcReqDelete (dialogToken : UInt8) : Option (ReqTab w) := t.reqDelete dialogToken

end ReqTab

inductive ReqCall
  | lookUp (dialogToken : UInt8)
  | insert (times : Times) (dialogToken : UInt8)
  | delete (dialogToken : UInt8)

/-- No clock is read before it has shown `now`. -/
def ReqCall.From (now : ℕ) : ReqCall → Prop
  | .insert times _ => ∀ i, now ≤ times.search i
  | _ => True

/-- A table, with the times at which the entries were inserted and the latest reading of the clock. -/
structure ReqWorld (c : Jiffies) where
  tab : ReqTab c.bits
  since : Slot → ℕ
  now : ℕ

namespace ReqWorld
variable {c : Jiffies}

def init (c : Jiffies) : ReqWorld c := ⟨ReqTab.init, fun _ => 0, 0⟩

/-- The functions of each table. -/
def lookUp : ReqKind → ReqTab c.bits → UInt8 → Option (Option Slot)
  | .measure => ReqTab.measureReqLookUp
  | .tpc => ReqTab.tpcReqLookUp

def insert : ReqKind → ReqTab c.bits → Times → UInt8 → Option (ReqTab c.bits × Option Slot)
  | .measure => ReqTab.measureReqInsert
  | .tpc => ReqTab.tpcReqInsert

def delete : ReqKind → ReqTab c.bits → UInt8 → Option (ReqTab c.bits)
  | .measure => ReqTab.measureReqDelete
  | .tpc => ReqTab.tpcReqDelete

/-- An entry that was found keeps the time of its insertion. -/
def stamped (s : ReqWorld c) (times : Times) (dialogToken : UInt8) : Option Slot → Slot → ℕ
  | none => s.since
  | some i =>
    if s.tab.valid i ∧ s.tab.dialogToken i = dialogToken then s.since
    else Function.update s.since i times.stamp

/-- A call; `none` when a loop does not end or a NULL pointer is followed. -/
def step (kind : ReqKind) (s : ReqWorld c) : ReqCall → Option (ReqWorld c)
  | .lookUp dialogToken => (lookUp kind s.tab dialogToken).map fun _ => s
  | .insert times dialogToken => (insert kind s.tab times dialogToken).map fun (t, pEntry) =>
    ⟨t, s.stamped times dialogToken pEntry, times.stamp⟩
  | .delete dialogToken => (delete kind s.tab dialogToken).map fun t => { s with tab := t }

/-- The worlds of all sequences of calls. -/
inductive Reached (kind : ReqKind) : ReqWorld c → Prop
  | init : Reached kind (init c)
  | step {s s' : ReqWorld c} {call : ReqCall} (h : Reached kind s) (hclock : call.From s.now)
      (hstep : s.step kind call = some s') : Reached kind s'

/-- The table is in order: the counter, the chains, the tokens, and every search along a chain. -/
structure Sound (s : ReqWorld c) : Prop where
  size : s.tab.size.toNat = (Finset.univ.filter fun i => s.tab.valid i = true).card
  chains : ∀ h, ∃ l, Linked s.tab.pNext (s.tab.hash h) l ∧ l.Nodup ∧
    ∀ i, i ∈ l ↔ s.tab.valid i = true ∧ dialogTokenHashIndex (s.tab.dialogToken i) = h
  tokens : ∀ i j, s.tab.valid i = true → s.tab.valid j = true →
    s.tab.dialogToken i = s.tab.dialogToken j → i = j
  walks : ∀ kind dialogToken, ∃ r, lookUp kind s.tab dialogToken = some r ∧
    ∀ i, r = some i ↔ s.tab.valid i = true ∧ s.tab.dialogToken i = dialogToken

/-- The age of an entry when an insertion looks at it. -/
def age (s : ReqWorld c) (times : Times) (i : Slot) : ℕ := times.search i - s.since i

/-- Ticks that take more than the age-out time. -/
def Older (c : Jiffies) (kind : ReqKind) (n : ℕ) : Prop := c.hz * kind.ageOut < 1000 * n

/-- An insertion gives up only when all entries are valid and none is too old. -/
def Meets (kind : ReqKind) (s : ReqWorld c) : ReqCall → Prop
  | .insert times dialogToken =>
    ∀ t, insert kind s.tab times dialogToken = some (t, none) →
      (∀ i, s.tab.valid i = true) ∧ ∀ i, ¬Older c kind (s.age times i)
  | _ => True

/-- An age in ticks at which an entry is taken for aged: the time of expiry lies in the half of the
clock's period that has passed. -/
def Expired (c : Jiffies) (kind : ReqKind) (n : ℕ) : Prop :=
  kind.ageOut < n ∧ (n - kind.ageOut - 1) % 2 ^ c.bits < 2 ^ (c.bits - 1)

/-- When all entries are taken by other tokens and one is too old, one is taken for aged. -/
def Timely (kind : ReqKind) (s : ReqWorld c) : ReqCall → Prop
  | .insert times dialogToken =>
    (∀ i, s.tab.valid i = true ∧ s.tab.dialogToken i ≠ dialogToken) →
      (∃ i, Older c kind (s.age times i)) → ∃ i, Expired c kind (s.age times i)
  | _ => True

end ReqWorld
end Rt5572
