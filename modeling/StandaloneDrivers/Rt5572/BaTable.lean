import StandaloneDrivers.Rt5572.MlmeQueue
import StandaloneDrivers.Rt5572.Reordering
import Mathlib.Data.Finset.Card
import StandaloneDrivers.Foundations.Bytes

/-! The Block-Ack session table of an adapter: entries for both directions, the counters, the
per-station index arrays and bitmaps, and the block pool of all sessions. The index arrays hold
table indices, 0 for no session. -/
namespace Rt5572
open Foundations
attribute [local instance] neZero_seqRange
variable {π : Type} {w : ℕ}

inductive OriBlockackStatus where
  | none | used | waitRes | done
  deriving DecidableEq, Repr

/-- The order of the enumeration, as `ORI_BA_Status >= Originator_WaitRes` uses it. -/
def OriBlockackStatus.atLeastWaitRes : OriBlockackStatus → Bool
  | .none | .used => false
  | .waitRes | .done => true

structure BaOriEntry where
  wcid : ℕ
  tid : ℕ
  baWinSize : ℕ
  token : ℕ
  sequence : ℕ
  timeOutValue : ℕ
  oriBaStatus : OriBlockackStatus
  deriving DecidableEq, Repr

/-- The Block-Ack part of an entry of the station table. -/
structure MacTableEntry where
  aid : ℕ
  rxBAbitmap : BitVec 16
  txBAbitmap : BitVec 16
  baDeclineBitmap : BitVec 16
  baRecWcidArray : ℕ → ℕ
  baOriWcidArray : ℕ → ℕ
  maxRAmpduFactor : ℕ
  mcsSet2 : ℕ
  ralinkChipset : Bool

structure Config where
  osHz : ℕ
  autoBA : Bool
  rxBaWinLimit : ℕ
  txPath : ℕ

abbrev maxLenOfMacTable : ℕ := 32
abbrev numOfTid : ℕ := 8
abbrev maxLenOfBaRecTable : ℕ := numOfTid * maxLenOfMacTable / 2
abbrev maxLenOfBaOriTable : ℕ := numOfTid * maxLenOfMacTable / 2
abbrev oriSessionMaxRetry : ℕ := 8
abbrev sizeofFrameBaReq : ℕ := 20

structure Adapter (π : Type) (w : ℕ) where
  cfg : Config
  macTab : ℕ → MacTableEntry
  numAsRecipient : ℕ
  numAsOriginator : ℕ
  numDoneOriginator : ℕ
  baOriEntry : ℕ → BaOriEntry
  baRecEntry : ℕ → BaRecEntry π w
  freelist : ReorderingList π

/-- `ba_reordering_resource_init` when its memory is there. -/
def baReorderingResourceInit (num : ℕ) : ReorderingList π :=
  (List.range num).foldl (fun list i => baEnqueue list ⟨i, none, 0, false, 0⟩) ⟨[], 0⟩

def baMaxWinSizeReasign (cfg : Config) (entryPeer : MacTableEntry) (winSize : ℕ) : ℕ :=
  let maxPeerRxSize := (2 ^ (entryPeer.maxRAmpduFactor + 3) * 10 / 16 - 1) % 256
  let maxSize := if cfg.txPath = 3 ∧ entryPeer.mcsSet2 ≠ 0 then 31 else 20
  let maxSize := if !entryPeer.ralinkChipset then min maxPeerRxSize maxSize else maxSize
  if maxSize < winSize then maxSize else winSize

def setBit (bitmap : BitVec 16) (tid : ℕ) : BitVec 16 := bitmap ||| (1#16 <<< tid)

def clearBit (bitmap : BitVec 16) (tid : ℕ) : BitVec 16 := bitmap &&& ~~~(1#16 <<< tid)

namespace Adapter

def setMac (a : Adapter π w) (wcid : ℕ) (e : MacTableEntry) : Adapter π w :=
  { a with macTab := Function.update a.macTab wcid e }

def setOri (a : Adapter π w) (idx : ℕ) (e : BaOriEntry) : Adapter π w :=
  { a with baOriEntry := Function.update a.baOriEntry idx e }

def setRec (a : Adapter π w) (idx : ℕ) (e : BaRecEntry π w) : Adapter π w :=
  { a with baRecEntry := Function.update a.baRecEntry idx e }

/-- The reordering code run on one recipient entry, with the pool of the adapter. -/
def onSession (a : Adapter π w) (idx : ℕ) (f : Session π w → Session π w) : Adapter π w :=
  let s := f ⟨a.baRecEntry idx, a.freelist, []⟩
  { a.setRec idx s.entry with freelist := s.freelist }

/-- The search of the two allocators; the loop variable stays at the last entry when no entry is
free, and `idx` keeps the value the caller gave it. -/
def firstFree (len : ℕ) (free : ℕ → Bool) : Option ℕ := (List.range' 1 (len - 1)).find? free

/-- Returns the entry, the index written through `Idx`, and the table. -/
def baTableAllocRecEntry (a : Adapter π w) (idx : ℕ) : Option ℕ × ℕ × Adapter π w :=
  if maxLenOfBaRecTable - 1 ≤ a.numAsRecipient then (none, idx, a)
  else
    match firstFree maxLenOfBaRecTable fun i =>
        decide ((a.baRecEntry i).recBaStatus = .none) with
    | some i => (some i, i, { a.setRec i { a.baRecEntry i with recBaStatus := .used } with
        numAsRecipient := a.numAsRecipient + 1 })
    | none => (some (maxLenOfBaRecTable - 1), idx, a)

def baTableAllocOriEntry (a : Adapter π w) (idx : ℕ) : Option ℕ × ℕ × Adapter π w :=
  if maxLenOfBaOriTable - 1 ≤ a.numAsOriginator then (none, idx, a)
  else
    match firstFree maxLenOfBaOriTable fun i =>
        decide ((a.baOriEntry i).oriBaStatus = .none) with
    | some i => (some i, i, { a.setOri i { a.baOriEntry i with oriBaStatus := .used } with
        numAsOriginator := a.numAsOriginator + 1 })
    | none => (some (maxLenOfBaOriTable - 1), idx, a)

def baTableFreeOriEntry (a : Adapter π w) (idx : ℕ) : Adapter π w :=
  if idx = 0 ∨ maxLenOfBaOriTable ≤ idx then a
  else
    let e := a.baOriEntry idx
    if e.oriBaStatus ≠ .none then
      let entry := a.macTab e.wcid
      { (a.setMac e.wcid { entry with
          baOriWcidArray := Function.update entry.baOriWcidArray e.tid 0
          txBAbitmap :=
            if e.oriBaStatus = .done then clearBit entry.txBAbitmap e.tid
            else entry.txBAbitmap }).setOri idx { e with oriBaStatus := .none, token := 0 } with
        numDoneOriginator :=
          if e.oriBaStatus = .done then a.numDoneOriginator - 1 else a.numDoneOriginator
        numAsOriginator := a.numAsOriginator - 1 }
    else a

def baTableFreeRecEntry (a : Adapter π w) (idx : ℕ) : Adapter π w :=
  if idx = 0 ∨ maxLenOfBaRecTable ≤ idx then a
  else
    let e := a.baRecEntry idx
    if e.recBaStatus ≠ .none then
      let entry := a.macTab e.wcid
      { (a.setMac e.wcid { entry with
          baRecWcidArray := Function.update entry.baRecWcidArray e.tid 0 }).setRec idx
            { e with recBaStatus := .none } with
        numAsRecipient := a.numAsRecipient - 1 }
    else a

/-- `fixedTxModeHt` says whether `RTMPStaFixedTxMode` finds HT for the station, `txSeq` is the
sequence number `BA_ORI_INIT_SEQ` reads. A declined TID only changes the delay of the timer. -/
def baOriSessionSetUp (a : Adapter π w) (wcid tid timeOut txSeq : ℕ)
    (isForced fixedTxModeHt : Bool) : Adapter π w :=
  if a.cfg.autoBA = false ∧ isForced = false then a
  else if fixedTxModeHt = false then a
  else
    let idx := (a.macTab wcid).baOriWcidArray tid
    let (pBAEntry, idx, a) := if idx = 0 then a.baTableAllocOriEntry idx else (some idx, idx, a)
    match pBAEntry with
    | none => a
    | some p =>
        if (a.baOriEntry p).oriBaStatus.atLeastWaitRes then a
        else
          let entry := a.macTab wcid
          (a.setMac wcid { entry with
            baOriWcidArray := Function.update entry.baOriWcidArray tid idx }).setOri p
            { oriBaStatus := .waitRes, wcid := entry.aid % 256
              baWinSize := a.cfg.rxBaWinLimit % 256, sequence := txSeq, token := 1
              tid := tid, timeOutValue := timeOut }

/-- An allocation failure for the BlockAckReq comes after the table has been written. -/
def baOriSessionAdd (a : Adapter π w) (wcid tid bufSize timeOutValue txSeq : ℕ) :
    Adapter π w :=
  let entry := a.macTab wcid
  let idx := entry.baOriWcidArray tid
  let e := a.baOriEntry idx
  if idx ≠ 0 ∧ e.tid = tid ∧ e.oriBaStatus = .waitRes then
    let maxPeerBufSize := bufSize % 256
    let maxPeerBufSize := if 0 < maxPeerBufSize then maxPeerBufSize - 1 else 0
    { (a.setMac wcid { entry with txBAbitmap := setBit entry.txBAbitmap tid }).setOri idx
        { e with
          baWinSize := baMaxWinSizeReasign a.cfg entry (min e.baWinSize maxPeerBufSize)
          timeOutValue := timeOutValue, oriBaStatus := .done, sequence := txSeq } with
      numDoneOriginator := a.numDoneOriginator + 1 }
  else a

def baRecSessionAdd (a : Adapter π w) (wcid tid bufSize timeOutValue : ℕ) : Adapter π w :=
  let idx := (a.macTab wcid).baRecWcidArray tid
  let (pBAEntry, idx, a) :=
    if idx = 0 then a.baTableAllocRecEntry idx
    else (some idx, idx, a.onSession idx Session.baRefreshReorderingMpdus)
  match pBAEntry with
  | none => a
  | some p =>
      let entry := a.macTab wcid
      (a.onSession p fun s => s.openEntry (entry.aid % 256) tid bufSize a.cfg.rxBaWinLimit
        timeOutValue).setMac wcid { entry with
          rxBAbitmap := setBit entry.rxBAbitmap tid
          baRecWcidArray := Function.update entry.baRecWcidArray tid idx
          baDeclineBitmap := clearBit entry.baDeclineBitmap tid }

/-- `allocOk` says whether the memory for the DELBA request is there. A forced DELBA without a
session changes nothing here. -/
def baOriSessionTearDown (a : Adapter π w) (wcid tid : ℕ) (passive allocOk : Bool) :
    Adapter π w :=
  if maxLenOfMacTable ≤ wcid then a
  else
    let idx := (a.macTab wcid).baOriWcidArray tid
    if idx = 0 ∨ maxLenOfBaOriTable ≤ idx then a
    else
      let e := a.baOriEntry idx
      if passive = false ∧ tid = e.tid ∧ e.oriBaStatus = .done ∧ allocOk = false then a
      else a.baTableFreeOriEntry idx

def baRecSessionTearDown (a : Adapter π w) (wcid tid : ℕ) (passive allocOk : Bool) :
    Adapter π w :=
  if maxLenOfMacTable ≤ wcid then a
  else
    let idx := (a.macTab wcid).baRecWcidArray tid
    if idx = 0 then a
    else
      let e := a.baRecEntry idx
      if tid = e.tid ∧ e.recBaStatus = .accept then
        if passive = false ∧ allocOk = false then a
        else
          let a := a.onSession idx Session.baRefreshReorderingMpdus
          let a := a.setRec idx { a.baRecEntry idx with
            lastIndSeq := resetRcvSeq, baWinSize := 0 }
          let entry := a.macTab wcid
          let a := a.setMac wcid { entry with
            rxBAbitmap := clearBit entry.rxBAbitmap e.tid
            baRecWcidArray := Function.update entry.baRecWcidArray tid 0 }
          a.baTableFreeRecEntry idx
      else a.baTableFreeRecEntry idx

/-- `allocOk` answers the allocations of the two tear-downs of each TID. -/
def baSessionTearDownAll (a : Adapter π w) (wcid : ℕ) (allocOk : ℕ → Bool × Bool) :
    Adapter π w :=
  (List.range numOfTid).foldl (fun a tid =>
    (a.baOriSessionTearDown wcid tid false (allocOk tid).1).baRecSessionTearDown wcid tid false
      (allocOk tid).2) a

/-- `monitorOn` and `scanning` are the two early exits of station mode. -/
def baOriSessionSetupTimeout (a : Adapter π w) (idx : ℕ) (monitorOn scanning : Bool) :
    Adapter π w :=
  if monitorOn then a
  else
    let e := a.baOriEntry idx
    if e.oriBaStatus = .waitRes ∧ e.token < oriSessionMaxRetry then
      if scanning then a else a.setOri idx { e with token := e.token + 1 }
    else a.baTableFreeOriEntry ((a.macTab e.wcid).baOriWcidArray e.tid)

/-- `Indicate_AMPDU_Packet` with the look-up of the session; without one the frame goes up
directly. -/
def indicateAmpduPacket (a : Adapter π w) (rx : RxBlk π) (now32 now32' : BitVec w) :
    Adapter π w :=
  if rx.oversized then a
  else if rx.wcid < maxLenOfMacTable then
    let idx := (a.macTab rx.wcid).baRecWcidArray rx.tid
    if idx = 0 then a
    else a.onSession idx fun s => s.indicateAmpdu a.cfg.osHz rx now32 now32'
  else a

/-- `halted` stands for the two adapter flags of the first test. -/
def cntlEnqueueForRecv (a : Adapter π w) (wcid msgLen tid : ℕ) (startSeq : Fin 4096)
    (halted : Bool) : Adapter π w :=
  if halted then a
  else if mgmtDmaBufferSize < msgLen then a
  else if msgLen ≠ sizeofFrameBaReq then a
  else if wcid < maxLenOfMacTable ∧ tid < numOfTid then
    a.onSession ((a.macTab wcid).baRecWcidArray tid) fun s => s.cntlEnqueueForRecv startSeq
  else a

/-- `present` says which entries of the station table are in use. -/
def baReOrderingBufferMaintain (a : Adapter π w) (now32 : BitVec w) (present : ℕ → Bool) :
    Adapter π w :=
  (List.range' 1 (maxLenOfMacTable - 1)).foldl (fun a wcid =>
    if present wcid then
      (List.range numOfTid).foldl (fun a tid =>
        a.onSession ((a.macTab wcid).baRecWcidArray tid) fun s =>
          s.baFlushReorderingTimeoutMpdus a.cfg.osHz now32) a
    else a) a

end Adapter

/-- What can happen to the table and its sessions. Stations are entries of the station table;
a timer belongs to an entry of a session table. -/
inductive BaEvent (π : Type) (w : ℕ) where
  | oriSetUp (wcid : Fin 32) (tid : Fin 8) (timeOut txSeq : ℕ) (isForced fixedTxModeHt : Bool)
  | oriAdd (wcid : Fin 32) (tid : Fin 8) (bufSize timeOutValue txSeq : ℕ)
  | recAdd (wcid : Fin 32) (tid : Fin 8) (bufSize timeOutValue : ℕ)
  | oriTearDown (wcid : ℕ) (tid : Fin 8) (passive allocOk : Bool)
  | recTearDown (wcid : ℕ) (tid : Fin 8) (passive allocOk : Bool)
  | tearDownAll (wcid : ℕ) (allocOk : ℕ → Bool × Bool)
  | setupTimer (idx : Fin 128) (monitorOn scanning : Bool)
  | idleTimer (idx : Fin 128) (now32 : BitVec w)
  | indicate (rx : RxBlk π) (now32 now32' : BitVec w)
  | blockAckReq (wcid msgLen tid : ℕ) (startSeq : Fin 4096) (halted : Bool)
  | maintain (now32 : BitVec w) (present : ℕ → Bool)

namespace Adapter

def step (a : Adapter π w) : BaEvent π w → Adapter π w
  | .oriSetUp wcid tid timeOut txSeq isForced ht =>
      a.baOriSessionSetUp wcid tid timeOut txSeq isForced ht
  | .oriAdd wcid tid bufSize timeOutValue txSeq =>
      a.baOriSessionAdd wcid tid bufSize timeOutValue txSeq
  | .recAdd wcid tid bufSize timeOutValue => a.baRecSessionAdd wcid tid bufSize timeOutValue
  | .oriTearDown wcid tid passive allocOk => a.baOriSessionTearDown wcid tid passive allocOk
  | .recTearDown wcid tid passive allocOk => a.baRecSessionTearDown wcid tid passive allocOk
  | .tearDownAll wcid allocOk => a.baSessionTearDownAll wcid allocOk
  | .setupTimer idx monitorOn scanning => a.baOriSessionSetupTimeout idx monitorOn scanning
  | .idleTimer idx now32 => a.onSession idx fun s => s.baRecSessionIdleTimeout now32
  | .indicate rx now32 now32' => a.indicateAmpduPacket rx now32 now32'
  | .blockAckReq wcid msgLen tid startSeq halted =>
      a.cntlEnqueueForRecv wcid msgLen tid startSeq halted
  | .maintain now32 present => a.baReOrderingBufferMaintain now32 present

/-- After `BATableInit` and `ba_reordering_resource_init`; the identifier of a station is its
place in the table. -/
def init (cfg : Config) (stations : ℕ → MacTableEntry) (num : ℕ) : Adapter π w where
  cfg := cfg
  macTab wcid :=
    { stations wcid with
      aid := wcid, rxBAbitmap := 0, txBAbitmap := 0, baDeclineBitmap := 0
      baRecWcidArray := fun _ => 0, baOriWcidArray := fun _ => 0 }
  numAsRecipient := 0
  numAsOriginator := 0
  numDoneOriginator := 0
  baOriEntry _ := ⟨0, 0, 0, 0, 0, 0, .none⟩
  baRecEntry _ := ⟨0, 0, 0, 0, 0, 0, 0, 0, .none, ⟨[], 0⟩⟩
  freelist := baReorderingResourceInit num

end Adapter
end Rt5572
