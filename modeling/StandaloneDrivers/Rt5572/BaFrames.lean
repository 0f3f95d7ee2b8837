import StandaloneDrivers.Rt5572.TableConsistency
import StandaloneDrivers.Foundations.Bytes

/-! The frames of the peers of Block-Ack sessions (common/ba_action.c, common/cmm_sanity.c), and the
indices at which they reach the arrays of a station. A TID of a frame has four bits, the arrays have
eight entries each: behind `BARecWcidArray` lies `BAOriWcidArray`, and behind that one
`BAOriSequence`, which nothing else uses and which the indices of `baOriWcidArray` from 8 on stand
for. -/
namespace Rt5572
open Foundations
attribute [local instance] neZero_seqRange
variable {π : Type} {w : ℕ}

/-- A frame as it lies in memory, from its header to its end. -/
inductive BaFrame
  | addBaReq (msg : List UInt8)
  | addBaRsp (msg : List UInt8)
  | delBa (msg : List UInt8)
  | blockAckReq (msg : List UInt8)
  deriving DecidableEq, Repr

/-- What the frames meet: the flags of an adapter that halts, `bBADecline`, the `MaxHTPhyMode` of
each station, a station under `STA_TGN_WIFI_ON`, and `BA_ORI_INIT_SEQ`. -/
structure BaPeers where
  halted : Bool
  bBADecline : Bool
  maxHtPhyMode : ℕ → ℕ
  staTgnWifi : Bool
  baOriInitSeq : ℕ → ℕ → ℕ

/-- `MODE_HTMIX` -/
abbrev modeHtmix : ℕ := 2

/-- `BAPolicy` of `BA_PARM`, then its TID and its `BufSize`. -/
def baPolicy (baParm : ℕ) : ℕ := baParm / 2 % 2

def baParmTid (baParm : ℕ) : ℕ := baParm / 4 % 16

def baParmBufSize (baParm : ℕ) : ℕ := baParm / 64

/-- The TID in the upper four bits of `DELBA_PARM` and of `BAR_CONTROL`. -/
def upperTid (parm : ℕ) : ℕ := parm / 4096 % 16

def BaFrame.tid : BaFrame → ℕ
  | .addBaReq msg => baParmTid (le16 msg 27)
  | .addBaRsp msg => baParmTid (le16 msg 29)
  | .delBa msg => upperTid (le16 msg 26)
  | .blockAckReq msg => upperTid (le16 msg 16)

/-- `PeerAddBAReqActionSanity`, with the size of `FRAME_ADDBA_REQ`. -/
def peerAddBaReqActionSanity (msg : List UInt8) : Prop :=
  33 ≤ msg.length ∧ baPolicy (le16 msg 27) = 1

/-- `PeerAddBARspActionSanity`, with the size of `FRAME_ADDBA_RSP`. -/
def peerAddBaRspActionSanity (msg : List UInt8) : Prop :=
  33 ≤ msg.length ∧ baPolicy (le16 msg 29) = 1

/-- `PeerDelBAActionSanity`, with the size of `FRAME_DELBA_REQ`. -/
def peerDelBaActionSanity (wcid : ℕ) (msg : List UInt8) : Prop :=
  msg.length = 30 ∧ wcid < maxLenOfMacTable

instance (msg : List UInt8) : Decidable (peerAddBaReqActionSanity msg) :=
  inferInstanceAs (Decidable (_ ∧ _))

instance (msg : List UInt8) : Decidable (peerAddBaRspActionSanity msg) :=
  inferInstanceAs (Decidable (_ ∧ _))

instance (wcid : ℕ) (msg : List UInt8) : Decidable (peerDelBaActionSanity wcid msg) :=
  inferInstanceAs (Decidable (_ ∧ _))

/-- The checks that a frame passes before the arrays are reached. -/
def BaFrame.Taken (env : BaPeers) (wcid : ℕ) : BaFrame → Prop
  | .addBaReq msg => wcid < maxLenOfMacTable ∧ peerAddBaReqActionSanity msg ∧
      env.bBADecline = false ∧ modeHtmix ≤ env.maxHtPhyMode wcid
  | .addBaRsp msg => wcid < maxLenOfMacTable ∧ peerAddBaRspActionSanity msg
  | .delBa msg => peerDelBaActionSanity wcid msg
  | .blockAckReq msg => env.halted = false ∧ msg.length = sizeofFrameBaReq ∧
      wcid < maxLenOfMacTable ∧ upperTid (le16 msg 16) < numOfTid

instance (env : BaPeers) (wcid : ℕ) (frame : BaFrame) : Decidable (frame.Taken env wcid) := by
  cases frame <;> exact inferInstanceAs (Decidable (_ ∧ _))

namespace MacTableEntry

/-- The words of memory from `BARecWcidArray` on. -/
def recWord (e : MacTableEntry) (k : ℕ) : ℕ :=
  if k < numOfTid then e.baRecWcidArray k else e.baOriWcidArray (k - numOfTid)

/-- `BARecWcidArray` with the words behind its end. -/
def joinWords (e : MacTableEntry) : MacTableEntry := { e with baRecWcidArray := e.recWord }

/-- Both arrays again, of an entry `old` whose words have been written. -/
def splitWords (old e : MacTableEntry) : MacTableEntry :=
  { e with
    baRecWcidArray := fun k => if k < numOfTid then e.baRecWcidArray k else old.baRecWcidArray k
    baOriWcidArray := fun k => e.baRecWcidArray (k + numOfTid) }

@[simp] theorem recWord_splitWords (old e : MacTableEntry) (k : ℕ) :
    (splitWords old e).recWord k = e.baRecWcidArray k := by
  rw [recWord, splitWords]
  by_cases hk : k < numOfTid
  · simp only [if_pos hk]
  · simp only [if_neg hk]
    rw [Nat.sub_add_cancel (Nat.not_lt.mp hk)]

end MacTableEntry

namespace Adapter
variable (a : Adapter π w) (env : BaPeers) (wcid : ℕ)

/-- A function of the recipient side, with the words that follow `BARecWcidArray`. -/
def onRecWords (f : Adapter π w → Adapter π w) : Adapter π w :=
  let b := f { a with macTab := fun x => (a.macTab x).joinWords }
  { b with macTab := fun x => (a.macTab x).splitWords (b.macTab x) }

def peerAddBaReqAction (msg : List UInt8) : Adapter π w :=
  if maxLenOfMacTable ≤ wcid then a
  else if peerAddBaReqActionSanity msg then
    if env.bBADecline = false ∧ modeHtmix ≤ env.maxHtPhyMode wcid then
      a.onRecWords fun a => a.baRecSessionAdd wcid (baParmTid (le16 msg 27))
        (baParmBufSize (le16 msg 27)) (le16 msg 29)
    else a
  else a

/-- `BADeclineBitmap` of a peer that declines. -/
def declined (tid : ℕ) : Adapter π w :=
  a.setMac wcid { a.macTab wcid with
    baDeclineBitmap := setBit (a.macTab wcid).baDeclineBitmap tid }

def peerAddBaRspAction (msg : List UInt8) : Adapter π w :=
  if maxLenOfMacTable ≤ wcid then a
  else if peerAddBaRspActionSanity msg then
    let statusCode := le16 msg 27
    let tid := baParmTid (le16 msg 29)
    let b :=
      if statusCode = 0 then
        a.baOriSessionAdd wcid tid (baParmBufSize (le16 msg 29)) (le16 msg 31)
          (env.baOriInitSeq wcid tid)
      else a.baOriSessionTearDown wcid tid true true
    if statusCode = 37 ∨ env.staTgnWifi = true ∧ statusCode ≠ 0 then b.declined wcid tid else b
  else a

def peerDelBaAction (msg : List UInt8) : Adapter π w :=
  if peerDelBaActionSanity wcid msg then
    let tid := upperTid (le16 msg 26)
    if le16 msg 26 / 2048 % 2 = 1 then
      a.onRecWords fun a => a.baRecSessionTearDown wcid tid true true
    else a.baOriSessionTearDown wcid tid true true
  else a

/-- The table after a frame. -/
def handle : BaFrame → Adapter π w
  | .addBaReq msg => a.peerAddBaReqAction env wcid msg
  | .addBaRsp msg => a.peerAddBaRspAction env wcid msg
  | .delBa msg => a.peerDelBaAction wcid msg
  | .blockAckReq msg =>
      a.cntlEnqueueForRecv wcid msg.length (upperTid (le16 msg 16))
        (Fin.ofNat 4096 (le16 msg 18 / 16)) env.halted

/-- The TID at which the array is written when a tear-down frees an originator session. -/
def oriFreed (tid : ℕ) : List ℕ :=
  let idx := (a.macTab wcid).baOriWcidArray tid
  if idx = 0 ∨ maxLenOfBaOriTable ≤ idx ∨ (a.baOriEntry idx).oriBaStatus = .none then []
  else [(a.baOriEntry idx).tid]

def recFreed (tid : ℕ) : List ℕ :=
  let idx := (a.macTab wcid).recWord tid
  if idx = 0 ∨ maxLenOfBaRecTable ≤ idx ∨ (a.baRecEntry idx).recBaStatus = .none then []
  else [(a.baRecEntry idx).tid]


/-- The TID of the session that the frame tears down, as its entry has it. -/
def freed : BaFrame → List ℕ
  | .addBaReq _ => []
  | .addBaRsp msg => if le16 msg 27 = 0 then [] else a.oriFreed wcid (baParmTid (le16 msg 29))
  | .delBa msg =>
      if le16 msg 26 / 2048 % 2 = 1 then a.recFreed wcid (upperTid (le16 msg 26))
      else a.oriFreed wcid (upperTid (le16 msg 26))
  | .blockAckReq _ => []

/-- The indices at which the frame reads or writes `BARecWcidArray`. -/
def recIndices (frame : BaFrame) : List ℕ :=
  if frame.Taken env wcid then
    match frame with
    | .addBaReq _ => [frame.tid]
    | .addBaRsp _ => []
    | .delBa msg => if le16 msg 26 / 2048 % 2 = 1 then frame.tid :: a.freed wcid frame else []
    | .blockAckReq _ => [frame.tid]
  else []

/-- The indices at which it reads or writes `BAOriWcidArray`. -/
def oriIndices (frame : BaFrame) : List ℕ :=
  if frame.Taken env wcid then
    match frame with
    | .addBaReq _ => []
    | .addBaRsp _ => frame.tid :: a.freed wcid frame
    | .delBa msg => if le16 msg 26 / 2048 % 2 = 1 then [] else frame.tid :: a.freed wcid frame
    | .blockAckReq _ => []
  else []

/-- The indices are in range, and a frame with a TID of 8 or more changes nothing. -/
structure InRange (frame : BaFrame) : Prop where
  indices : ∀ i ∈ a.recIndices env wcid frame ++ a.oriIndices env wcid frame, i < numOfTid
  unchanged : numOfTid ≤ frame.tid → a.handle env wcid frame = a

variable {a env wcid}

/-- A frame that is refused changes nothing. -/
theorem handle_refused {frame : BaFrame} (h : ¬frame.Taken env wcid) :
    a.handle env wcid frame = a := by
  cases frame with
  | addBaReq msg =>
    simp only [BaFrame.Taken, not_and] at h
    simp only [handle, peerAddBaReqAction]
    split
    · rfl
    · rename_i hwcid
      split
      · rename_i hsanity
        rw [if_neg (fun hht => h (Nat.not_le.mp hwcid) hsanity hht.1 hht.2)]
      · rfl
  | addBaRsp msg =>
    simp only [BaFrame.Taken, not_and] at h
    simp only [handle, peerAddBaRspAction]
    split
    · rfl
    · rename_i hwcid
      rw [if_neg (h (Nat.not_le.mp hwcid))]
  | delBa msg => exact if_neg h
  | blockAckReq msg =>
    simp only [BaFrame.Taken, not_and] at h
    simp only [handle, cntlEnqueueForRecv]
    split
    · rfl
    · rename_i hhalted
      split
      · rfl
      · split
        · rfl
        · rename_i hlen
          rw [if_neg (fun htid => h (Bool.eq_false_iff.mpr hhalted) (not_not.mp hlen) htid.1
            htid.2)]

theorem indices_taken {frame : BaFrame} (h : frame.Taken env wcid) :
    (∀ i ∈ a.recIndices env wcid frame ++ a.oriIndices env wcid frame, i < numOfTid) ↔
      frame.tid < numOfTid ∧ ∀ i ∈ a.freed wcid frame, i < numOfTid := by
  have hnil : ∀ i ∈ ([] : List ℕ), i < numOfTid := List.forall_mem_nil _
  unfold recIndices oriIndices
  rw [if_pos h, if_pos h]
  cases frame with
  | addBaReq msg => exact List.forall_mem_cons
  | addBaRsp msg => exact List.forall_mem_cons
  | blockAckReq msg => exact List.forall_mem_cons
  | delBa msg =>
    dsimp only
    split
    · rw [List.append_nil]
      exact List.forall_mem_cons
    · rw [List.nil_append]
      exact List.forall_mem_cons

/-- A frame is in range exactly where it is refused, or its TID is below 8 and so is that of the
session that it tears down. -/
theorem handle_inRange_iff (a : Adapter π w) (env : BaPeers) (wcid : ℕ) (frame : BaFrame) :
    a.InRange env wcid frame ↔ (frame.Taken env wcid →
      frame.tid < numOfTid ∧ ∀ i ∈ a.freed wcid frame, i < numOfTid) := by
  constructor
  · intro h htaken
    exact (indices_taken htaken).mp h.indices
  · intro h
    by_cases htaken : frame.Taken env wcid
    · obtain ⟨htid, hfreed⟩ := h htaken
      exact ⟨(indices_taken htaken).mpr ⟨htid, hfreed⟩,
        fun hlarge => absurd htid (Nat.not_lt.mpr hlarge)⟩
    · refine ⟨?_, fun _ => handle_refused htaken⟩
      unfold recIndices oriIndices
      rw [if_neg htaken, if_neg htaken]
      exact List.forall_mem_nil _

/-- In a table that events with TIDs below 8 have filled, only the TID of the frame decides. -/
theorem inRange_iff_of_run (cfg : Config) (stations : ℕ → MacTableEntry) (num : ℕ)
    (es : List (BaEvent π w)) (env : BaPeers) {wcid : ℕ} (hwcid : wcid < maxLenOfMacTable)
    (frame : BaFrame) :
    (run step (init cfg stations num) es).InRange env wcid frame ↔
      (frame.Taken env wcid → frame.tid < numOfTid) := by
  have hconsistent := consistent_run (π := π) (w := w) cfg stations num es
  have hori {tid : ℕ} (htid : tid < numOfTid) :
      ∀ i ∈ (run step (init cfg stations num) es).oriFreed wcid tid, i < numOfTid := by
    intro i hi
    rw [oriFreed] at hi
    split at hi
    · cases hi
    · rename_i huse
      rw [List.mem_singleton.mp hi, (hconsistent.ori_entry ⟨hwcid, htid⟩
        (fun h => huse (Or.inl h))).2.2.2]
      exact htid
  have hrec {tid : ℕ} (htid : tid < numOfTid) :
      ∀ i ∈ (run step (init cfg stations num) es).recFreed wcid tid, i < numOfTid := by
    intro i hi
    rw [recFreed] at hi
    split at hi
    · cases hi
    · rename_i huse
      rw [MacTableEntry.recWord, if_pos htid] at hi huse
      rw [List.mem_singleton.mp hi, (hconsistent.rec_entry ⟨hwcid, htid⟩
        (fun h => huse (Or.inl h))).2.2.2]
      exact htid
  rw [handle_inRange_iff]
  refine forall_congr' fun _ => and_iff_left_of_imp fun htid => ?_
  cases frame with
  | addBaReq msg => exact List.forall_mem_nil _
  | blockAckReq msg => exact List.forall_mem_nil _
  | addBaRsp msg =>
    rw [freed]
    split
    · exact List.forall_mem_nil _
    · exact hori htid
  | delBa msg =>
    rw [freed]
    split
    · exact hrec htid
    · exact hori htid

/-- An ADDBA request for TID 8. -/
def tidEight : BaFrame := .addBaReq (List.replicate 27 0 ++ [34, 0, 0, 0, 0, 0])

def htPeers : BaPeers := ⟨false, false, fun _ => modeHtmix, false, fun _ _ => 0⟩

/-- It enters a recipient session where the originator session of TID 0 belongs. -/
theorem tidEight_overwrites :
    ¬∀ (a : Adapter Unit 32) (env : BaPeers) (wcid : ℕ) (frame : BaFrame),
      wcid < maxLenOfMacTable → a.InRange env wcid frame := by
  intro hall
  have hunchanged := (hall (init ⟨100, true, 64, 1⟩ (fun _ => ⟨0, 0, 0, 0, fun _ => 0, fun _ => 0,
    3, 0, false⟩) 0) htPeers 1 tidEight (by decide)).unchanged (by decide)
  have hword := congrArg (fun b => (b.macTab 1).baOriWcidArray 0) hunchanged
  exact absurd hword (by decide)

end Adapter
end Rt5572
