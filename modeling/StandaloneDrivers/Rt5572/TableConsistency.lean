import StandaloneDrivers.Rt5572.BaTable
import StandaloneDrivers.Foundations.Registry
import StandaloneDrivers.Foundations.Run

/-! The entries, the counters, the index arrays and the bitmaps of the session table say the same
thing. Each direction is a registry of sessions whose keys are a station and a TID. -/
namespace Rt5572
open Foundations
variable {π : Type} {w : ℕ}

theorem getLsbD_setBit {b : BitVec 16} {tid t : ℕ} (ht : t < 8) :
    (setBit b tid).getLsbD t = if t = tid then true else b.getLsbD t := by
  simp only [setBit, BitVec.getLsbD_or, BitVec.getLsbD_shiftLeft, BitVec.getLsbD_one]
  split_ifs with h
  · subst h
    simp
    omega
  · have : decide (t < 16) = true := by simp; omega
    rcases Nat.lt_or_ge t tid with hlt | hge
    · simp [hlt]
    · have hne : t - tid ≠ 0 := by omega
      simp [hne]

theorem getLsbD_clearBit {b : BitVec 16} {tid t : ℕ} (ht : t < 8) :
    (clearBit b tid).getLsbD t = if t = tid then false else b.getLsbD t := by
  have h16 : t < 16 := by omega
  simp only [clearBit, BitVec.getLsbD_and, BitVec.getLsbD_not, BitVec.getLsbD_shiftLeft,
    BitVec.getLsbD_one]
  split_ifs with h
  · subst h
    simp [h16]
  · rcases Nat.lt_or_ge t tid with hlt | hge
    · simp [h16, hlt]
    · have hne : t - tid ≠ 0 := by omega
      simp [h16, hne]

/-! The reordering code leaves the status and the key of an entry alone. -/

def BaRecEntry.key (e : BaRecEntry π w) : RecBlockackStatus × ℕ × ℕ :=
  (e.recBaStatus, e.wcid, e.tid)

namespace Session

theorem key_inOrderLoop (n : ℕ) (s : Session π w) (a b : ℕ) :
    (inOrderLoop n s a b).1.entry.key = s.entry.key := by
  induction n generalizing s a b with
  | zero => rfl
  | succ n ih =>
    unfold inOrderLoop
    split
    · rfl
    · split
      · split
        · rfl
        · rw [ih]
          rfl
      · rfl

theorem key_indicateInOrder (s : Session π w) (startSeq : ℕ) :
    (s.indicateInOrder startSeq).entry.key = s.entry.key := by
  have h := key_inOrderLoop s.entry.list.next.length s startSeq resetRcvSeq
  unfold indicateInOrder baIndicateReorderingMpdusInOrder
  split
  rename_i heq
  rw [heq] at h
  split <;> exact h

theorem key_leSeqLoop (n : ℕ) (s : Session π w) (sequence : ℕ) :
    (leSeqLoop n s sequence).entry.key = s.entry.key := by
  induction n generalizing s with
  | zero => rfl
  | succ n ih =>
    unfold leSeqLoop
    split
    · rfl
    · split
      · split
        · rfl
        · rw [ih]
          rfl
      · rfl

theorem key_leSeq (s : Session π w) (sequence : ℕ) :
    (s.baIndicateReorderingMpdusLeSeq sequence).entry.key = s.entry.key := key_leSeqLoop _ _ _

theorem key_refreshLoop (n : ℕ) (s : Session π w) : (refreshLoop n s).entry.key = s.entry.key := by
  induction n generalizing s with
  | zero => rfl
  | succ n ih =>
    unfold refreshLoop
    split
    · rfl
    · rw [ih]
      rfl

theorem key_refresh (s : Session π w) : s.baRefreshReorderingMpdus.entry.key = s.entry.key :=
  key_refreshLoop _ s

theorem key_flush (osHz : ℕ) (s : Session π w) (now32 : BitVec w) :
    (s.baFlushReorderingTimeoutMpdus osHz now32).entry.key = s.entry.key := by
  unfold baFlushReorderingTimeoutMpdus
  split_ifs
  · rfl
  · exact key_refresh s
  · exact (key_indicateInOrder _ _).trans (key_leSeq s _)
  · rfl

theorem key_legacyOrAmsdu (osHz : ℕ) (s : Session π w) (rx : RxBlk π) (now32 : BitVec w) :
    (s.indicateLegacyOrAmsdu osHz rx now32).entry.key = s.entry.key := by
  unfold indicateLegacyOrAmsdu indicateLegacyPacket
  split_ifs
  · rfl
  · rfl
  · exact key_flush osHz s now32
  · rfl

theorem key_enqueue (osHz : ℕ) (s : Session π w) (rx : RxBlk π) (now32 : BitVec w) :
    (s.baEnqueueReorderingPacket osHz rx now32).entry.key = s.entry.key := by
  have hbypass : ∀ s' : Session π w,
      (baEnqueueReorderingPacket.bypass osHz rx now32 s').entry.key = s'.entry.key := fun s' =>
    (key_legacyOrAmsdu _ _ _ _).trans (key_leSeq s' _)
  have halloc : s.baMpduBlkAlloc.2.entry = s.entry := rfl
  unfold baEnqueueReorderingPacket
  split
  · rename_i heq
    rw [heq] at halloc
    split_ifs
    · rw [hbypass, halloc]
    · have hkey := congrArg BaRecEntry.key halloc
      dsimp only
      split
      · exact hkey
      · exact hkey
  · rename_i heq
    rw [heq] at halloc
    rw [hbypass, halloc]

theorem key_indicateAmpdu (osHz : ℕ) (s : Session π w) (rx : RxBlk π) (now32 now32' : BitVec w) :
    (s.indicateAmpdu osHz rx now32 now32').entry.key = s.entry.key := by
  have hopen : (s.openingFlush osHz rx now32).entry.key = s.entry.key := key_flush osHz _ _
  rw [indicateAmpdu, ← hopen]
  generalize s.openingFlush osHz rx now32 = s'
  unfold indicateBySequence
  dsimp only
  split_ifs
  · exact key_legacyOrAmsdu _ _ _ _
  · exact (key_indicateInOrder _ _).trans (key_legacyOrAmsdu _ _ _ _)
  · rfl
  · rfl
  · exact key_enqueue _ _ _ _
  · exact (key_indicateInOrder _ _).trans ((key_enqueue _ _ _ _).trans (key_leSeq s' _))

theorem key_cntlEnqueueForRecv (s : Session π w) (startSeq : Fin 4096) :
    (s.cntlEnqueueForRecv startSeq).entry.key = s.entry.key := by
  unfold cntlEnqueueForRecv
  split_ifs
  · exact key_leSeq s _
  · exact key_leSeq s _
  · rfl

theorem key_idle (s : Session π w) (now32 : BitVec w) :
    (s.baRecSessionIdleTimeout now32).entry.key = s.entry.key := by
  unfold baRecSessionIdleTimeout
  split_ifs
  · exact key_refresh s
  · rfl

end Session

/-! The two directions as registries. -/

/-- Stations of the table and TIDs below 8. -/
abbrev stationKey (k : ℕ × ℕ) : Prop := k.1 < maxLenOfMacTable ∧ k.2 < numOfTid

namespace Adapter

def oriSide (a : Adapter π w) : Marked (ℕ × ℕ) where
  owner i :=
    if (a.baOriEntry i).oriBaStatus = .none then none
    else some ((a.baOriEntry i).wcid, (a.baOriEntry i).tid)
  slot k := (a.macTab k.1).baOriWcidArray k.2
  count := a.numAsOriginator
  confirmed i := decide ((a.baOriEntry i).oriBaStatus = .done)
  flag k := (a.macTab k.1).txBAbitmap.getLsbD k.2

def recSide (a : Adapter π w) : Marked (ℕ × ℕ) where
  owner i :=
    if (a.baRecEntry i).recBaStatus = .none then none
    else some ((a.baRecEntry i).wcid, (a.baRecEntry i).tid)
  slot k := (a.macTab k.1).baRecWcidArray k.2
  count := a.numAsRecipient
  confirmed i := decide ((a.baRecEntry i).recBaStatus = .accept)
  flag k := (a.macTab k.1).rxBAbitmap.getLsbD k.2

/-! How writes to the table show in the registries. -/

section writes
variable {a b : Adapter π w} {wcid tid idx v : ℕ} {m : MacTableEntry}

theorem owner_ori (h : (a.baOriEntry idx).oriBaStatus ≠ .none) :
    a.oriSide.owner idx = some ((a.baOriEntry idx).wcid, (a.baOriEntry idx).tid) := if_neg h

theorem owner_rec (h : (a.baRecEntry idx).recBaStatus ≠ .none) :
    a.recSide.owner idx = some ((a.baRecEntry idx).wcid, (a.baRecEntry idx).tid) := if_neg h

theorem oriSide_owner {e : BaOriEntry} (h : b.baOriEntry = Function.update a.baOriEntry idx e)
    {o : Option (ℕ × ℕ)}
    (ho : (if e.oriBaStatus = .none then none else some (e.wcid, e.tid)) = o) (i : ℕ) :
    b.oriSide.owner i = Function.update a.oriSide.owner idx o i := by
  simp only [oriSide, h, Function.update_apply, ← ho]
  split_ifs <;> rfl

theorem oriSide_confirmed {e : BaOriEntry}
    (h : b.baOriEntry = Function.update a.baOriEntry idx e) {c : Bool}
    (hc : decide (e.oriBaStatus = .done) = c) (i : ℕ) :
    b.oriSide.confirmed i = Function.update a.oriSide.confirmed idx c i := by
  simp only [oriSide, h, Function.update_apply, ← hc]
  split_ifs <;> rfl

theorem recSide_owner {e : BaRecEntry π w}
    (h : b.baRecEntry = Function.update a.baRecEntry idx e) {o : Option (ℕ × ℕ)}
    (ho : (if e.recBaStatus = .none then none else some (e.wcid, e.tid)) = o) (i : ℕ) :
    b.recSide.owner i = Function.update a.recSide.owner idx o i := by
  simp only [recSide, h, Function.update_apply, ← ho]
  split_ifs <;> rfl

theorem recSide_confirmed {e : BaRecEntry π w}
    (h : b.baRecEntry = Function.update a.baRecEntry idx e) {c : Bool}
    (hc : decide (e.recBaStatus = .accept) = c) (i : ℕ) :
    b.recSide.confirmed i = Function.update a.recSide.confirmed idx c i := by
  simp only [recSide, h, Function.update_apply, ← hc]
  split_ifs <;> rfl

theorem oriSide_slot (h : b.macTab = Function.update a.macTab wcid m)
    (harr : m.baOriWcidArray = Function.update (a.macTab wcid).baOriWcidArray tid v)
    (k : ℕ × ℕ) : b.oriSide.slot k = Function.update a.oriSide.slot (wcid, tid) v k := by
  obtain ⟨x, y⟩ := k
  simp only [oriSide, h, Function.update_apply, Prod.mk.injEq]
  by_cases hx : x = wcid
  · simp [hx, harr, Function.update_apply]
  · simp [hx]

theorem recSide_slot (h : b.macTab = Function.update a.macTab wcid m)
    (harr : m.baRecWcidArray = Function.update (a.macTab wcid).baRecWcidArray tid v)
    (k : ℕ × ℕ) : b.recSide.slot k = Function.update a.recSide.slot (wcid, tid) v k := by
  obtain ⟨x, y⟩ := k
  simp only [recSide, h, Function.update_apply, Prod.mk.injEq]
  by_cases hx : x = wcid
  · simp [hx, harr, Function.update_apply]
  · simp [hx]

theorem oriSide_flag {c : Bool} (h : b.macTab = Function.update a.macTab wcid m)
    (hbits : ∀ t, t < 8 → m.txBAbitmap.getLsbD t =
      if t = tid then c else (a.macTab wcid).txBAbitmap.getLsbD t) {k : ℕ × ℕ}
    (hk : stationKey k) :
    b.oriSide.flag k = Function.update a.oriSide.flag (wcid, tid) c k := by
  obtain ⟨x, y⟩ := k
  simp only [oriSide, h, Function.update_apply, Prod.mk.injEq]
  by_cases hx : x = wcid
  · simp [hx, hbits y hk.2]
  · simp [hx]

theorem recSide_flag {c : Bool} (h : b.macTab = Function.update a.macTab wcid m)
    (hbits : ∀ t, t < 8 → m.rxBAbitmap.getLsbD t =
      if t = tid then c else (a.macTab wcid).rxBAbitmap.getLsbD t) {k : ℕ × ℕ}
    (hk : stationKey k) :
    b.recSide.flag k = Function.update a.recSide.flag (wcid, tid) c k := by
  obtain ⟨x, y⟩ := k
  simp only [recSide, h, Function.update_apply, Prod.mk.injEq]
  by_cases hx : x = wcid
  · simp [hx, hbits y hk.2]
  · simp [hx]

end writes

structure Consistent (a : Adapter π w) : Prop where
  aid : ∀ wcid, (a.macTab wcid).aid = wcid
  ori : a.oriSide.Valid maxLenOfBaOriTable stationKey
  recv : a.recSide.Valid maxLenOfBaRecTable stationKey
  done : a.numDoneOriginator =
    countSlots maxLenOfBaOriTable fun i => a.oriSide.confirmed i = true

/-- The recipient side and the identifiers are as before. -/
structure SameRec (a b : Adapter π w) : Prop where
  aid : ∀ wcid, (b.macTab wcid).aid = (a.macTab wcid).aid
  array : ∀ wcid, (b.macTab wcid).baRecWcidArray = (a.macTab wcid).baRecWcidArray
  bitmap : ∀ wcid, (b.macTab wcid).rxBAbitmap = (a.macTab wcid).rxBAbitmap
  entry : ∀ i, (b.baRecEntry i).key = (a.baRecEntry i).key
  count : b.numAsRecipient = a.numAsRecipient

/-- The originator side and the identifiers are as before. -/
structure SameOri (a b : Adapter π w) : Prop where
  aid : ∀ wcid, (b.macTab wcid).aid = (a.macTab wcid).aid
  array : ∀ wcid, (b.macTab wcid).baOriWcidArray = (a.macTab wcid).baOriWcidArray
  bitmap : ∀ wcid, (b.macTab wcid).txBAbitmap = (a.macTab wcid).txBAbitmap
  entry : b.baOriEntry = a.baOriEntry
  count : b.numAsOriginator = a.numAsOriginator
  done : b.numDoneOriginator = a.numDoneOriginator

theorem SameRec.side {a b : Adapter π w} (h : SameRec a b) : b.recSide = a.recSide := by
  have hkey : ∀ i, (b.baRecEntry i).recBaStatus = (a.baRecEntry i).recBaStatus ∧
      (b.baRecEntry i).wcid = (a.baRecEntry i).wcid ∧
      (b.baRecEntry i).tid = (a.baRecEntry i).tid := fun i => by
    have hi := h.entry i
    simpa only [BaRecEntry.key, Prod.mk.injEq] using hi
  simp only [recSide, h.array, h.bitmap, h.count, (hkey _).1, (hkey _).2.1, (hkey _).2.2]

theorem SameOri.side {a b : Adapter π w} (h : SameOri a b) : b.oriSide = a.oriSide := by
  simp only [oriSide, h.array, h.bitmap, h.entry, h.count]

theorem Consistent.of_ori {a b : Adapter π w} (h : a.Consistent) (hs : SameRec a b)
    (hori : b.oriSide.Valid maxLenOfBaOriTable stationKey)
    (hdone : b.numDoneOriginator =
      countSlots maxLenOfBaOriTable fun i => b.oriSide.confirmed i = true) : b.Consistent :=
  ⟨fun k => (hs.aid k).trans (h.aid k), hori, hs.side ▸ h.recv, hdone⟩

theorem Consistent.of_rec {a b : Adapter π w} (h : a.Consistent) (hs : SameOri a b)
    (hrec : b.recSide.Valid maxLenOfBaRecTable stationKey) : b.Consistent :=
  ⟨fun k => (hs.aid k).trans (h.aid k), hs.side ▸ h.ori, hrec, by
    rw [hs.done, hs.side]
    exact h.done⟩

/-- A write to one station that leaves its recipient part alone. -/
theorem SameRec.write {a b : Adapter π w} {wcid : ℕ} {m : MacTableEntry}
    (hmac : b.macTab = Function.update a.macTab wcid m) (haid : m.aid = (a.macTab wcid).aid)
    (harr : m.baRecWcidArray = (a.macTab wcid).baRecWcidArray)
    (hbits : m.rxBAbitmap = (a.macTab wcid).rxBAbitmap) (he : b.baRecEntry = a.baRecEntry)
    (hc : b.numAsRecipient = a.numAsRecipient) : SameRec a b := by
  refine ⟨fun k => ?_, fun k => ?_, fun k => ?_, fun i => by rw [he], hc⟩
  all_goals
    rw [hmac, Function.update_apply]
    split_ifs with hk
    · rw [hk]
      assumption
    · rfl

/-- A write to one station that leaves its originator part alone. -/
theorem SameOri.write {a b : Adapter π w} {wcid : ℕ} {m : MacTableEntry}
    (hmac : b.macTab = Function.update a.macTab wcid m) (haid : m.aid = (a.macTab wcid).aid)
    (harr : m.baOriWcidArray = (a.macTab wcid).baOriWcidArray)
    (hbits : m.txBAbitmap = (a.macTab wcid).txBAbitmap) (he : b.baOriEntry = a.baOriEntry)
    (hc : b.numAsOriginator = a.numAsOriginator)
    (hd : b.numDoneOriginator = a.numDoneOriginator) : SameOri a b := by
  refine ⟨fun k => ?_, fun k => ?_, fun k => ?_, he, hc, hd⟩
  all_goals
    rw [hmac, Function.update_apply]
    split_ifs with hk
    · rw [hk]
      assumption
    · rfl

/-- A reordering step on an entry is none of the table's business. -/
theorem Consistent.onSession {a : Adapter π w} (h : a.Consistent) (idx : ℕ)
    {f : Session π w → Session π w} (hf : ∀ s, (f s).entry.key = s.entry.key) :
    (a.onSession idx f).Consistent := by
  have hsame : SameRec a (a.onSession idx f) := by
    refine ⟨fun _ => rfl, fun _ => rfl, fun _ => rfl, fun i => ?_, rfl⟩
    simp only [Adapter.onSession, setRec, Function.update_apply]
    split_ifs with hi
    · rw [hi]
      exact hf _
    · rfl
  exact h.of_ori hsame h.ori h.done

theorem firstFree_some {len : ℕ} {free : ℕ → Bool} {i : ℕ} (h : firstFree len free = some i) :
    1 ≤ i ∧ i < len ∧ free i = true := by
  have hmem := List.mem_of_find?_eq_some h
  rw [List.mem_range'_1] at hmem
  exact ⟨hmem.1, by omega, List.find?_some h⟩

theorem firstFree_none {len : ℕ} {free : ℕ → Bool} (h : firstFree len free = none) {i : ℕ}
    (h1 : 1 ≤ i) (h2 : i < len) : free i = false := by
  have := List.find?_eq_none.mp h i (List.mem_range'_1.mpr (by omega))
  simpa using this

/-- The originator allocator gives out a free entry or none at all: the search does not run
off the table. -/
theorem Consistent.allocOri {a : Adapter π w} (h : a.Consistent) (idx : ℕ) :
    a.baTableAllocOriEntry idx = (none, idx, a) ∨ ∃ i, 1 ≤ i ∧ i < maxLenOfBaOriTable ∧
      (a.baOriEntry i).oriBaStatus = .none ∧ a.baTableAllocOriEntry idx =
        (some i, i, { a.setOri i { a.baOriEntry i with oriBaStatus := .used } with
          numAsOriginator := a.numAsOriginator + 1 }) := by
  unfold baTableAllocOriEntry
  split_ifs with hfull
  · exact Or.inl rfl
  · right
    split
    · rename_i i hi
      obtain ⟨h1, h2, hfree⟩ := firstFree_some hi
      exact ⟨i, h1, h2, of_decide_eq_true hfree, rfl⟩
    · rename_i hnone
      obtain ⟨i, h1, h2, hown⟩ := h.ori.exists_free (by
        have hc : a.oriSide.count = a.numAsOriginator := rfl
        omega)
      have hbusy := firstFree_none hnone h1 h2
      simp only [oriSide, ite_eq_left_iff, reduceCtorEq, imp_false, not_not] at hown
      rw [hown] at hbusy
      simp at hbusy

theorem Consistent.allocRec {a : Adapter π w} (h : a.Consistent) (idx : ℕ) :
    a.baTableAllocRecEntry idx = (none, idx, a) ∨ ∃ i, 1 ≤ i ∧ i < maxLenOfBaRecTable ∧
      (a.baRecEntry i).recBaStatus = .none ∧ a.baTableAllocRecEntry idx =
        (some i, i, { a.setRec i { a.baRecEntry i with recBaStatus := .used } with
          numAsRecipient := a.numAsRecipient + 1 }) := by
  unfold baTableAllocRecEntry
  split_ifs with hfull
  · exact Or.inl rfl
  · right
    split
    · rename_i i hi
      obtain ⟨h1, h2, hfree⟩ := firstFree_some hi
      exact ⟨i, h1, h2, of_decide_eq_true hfree, rfl⟩
    · rename_i hnone
      obtain ⟨i, h1, h2, hown⟩ := h.recv.exists_free (by
        have hc : a.recSide.count = a.numAsRecipient := rfl
        omega)
      have hbusy := firstFree_none hnone h1 h2
      simp only [recSide, ite_eq_left_iff, reduceCtorEq, imp_false, not_not] at hown
      rw [hown] at hbusy
      simp at hbusy

/-- A station's index other than 0 leads to an entry in use for it. -/
theorem Consistent.ori_entry {a : Adapter π w} (h : a.Consistent) {wcid tid : ℕ}
    (hkey : stationKey (wcid, tid)) (hidx : (a.macTab wcid).baOriWcidArray tid ≠ 0) :
    a.oriSide.owner ((a.macTab wcid).baOriWcidArray tid) = some (wcid, tid) ∧
      (a.baOriEntry ((a.macTab wcid).baOriWcidArray tid)).oriBaStatus ≠ .none ∧
      (a.baOriEntry ((a.macTab wcid).baOriWcidArray tid)).wcid = wcid ∧
      (a.baOriEntry ((a.macTab wcid).baOriWcidArray tid)).tid = tid := by
  have hown : a.oriSide.owner ((a.macTab wcid).baOriWcidArray tid) = some (wcid, tid) :=
    h.ori.owner_slot hkey hidx
  have huse : (a.baOriEntry ((a.macTab wcid).baOriWcidArray tid)).oriBaStatus ≠ .none := by
    intro hn
    rw [show a.oriSide.owner ((a.macTab wcid).baOriWcidArray tid) = none from if_pos hn] at hown
    exact Option.some_ne_none _ hown.symm
  have hpair := Option.some_inj.mp ((owner_ori huse).symm.trans hown)
  exact ⟨hown, huse, congrArg Prod.fst hpair, congrArg Prod.snd hpair⟩

theorem Consistent.rec_entry {a : Adapter π w} (h : a.Consistent) {wcid tid : ℕ}
    (hkey : stationKey (wcid, tid)) (hidx : (a.macTab wcid).baRecWcidArray tid ≠ 0) :
    a.recSide.owner ((a.macTab wcid).baRecWcidArray tid) = some (wcid, tid) ∧
      (a.baRecEntry ((a.macTab wcid).baRecWcidArray tid)).recBaStatus ≠ .none ∧
      (a.baRecEntry ((a.macTab wcid).baRecWcidArray tid)).wcid = wcid ∧
      (a.baRecEntry ((a.macTab wcid).baRecWcidArray tid)).tid = tid := by
  have hown : a.recSide.owner ((a.macTab wcid).baRecWcidArray tid) = some (wcid, tid) :=
    h.recv.owner_slot hkey hidx
  have huse : (a.baRecEntry ((a.macTab wcid).baRecWcidArray tid)).recBaStatus ≠ .none := by
    intro hn
    rw [show a.recSide.owner ((a.macTab wcid).baRecWcidArray tid) = none from if_pos hn] at hown
    exact Option.some_ne_none _ hown.symm
  have hpair := Option.some_inj.mp ((owner_rec huse).symm.trans hown)
  exact ⟨hown, huse, congrArg Prod.fst hpair, congrArg Prod.snd hpair⟩

/-- Freeing an entry in use gives its slot back. -/
theorem Consistent.freeOri {a : Adapter π w} (h : a.Consistent) (idx : ℕ) :
    (a.baTableFreeOriEntry idx).Consistent := by
  unfold baTableFreeOriEntry
  by_cases hidx : idx = 0 ∨ maxLenOfBaOriTable ≤ idx
  · rwa [if_pos hidx]
  by_cases huse : (a.baOriEntry idx).oriBaStatus ≠ .none
  · rw [if_neg hidx, if_pos huse]
    push Not at hidx
    have h1 : 1 ≤ idx := Nat.one_le_iff_ne_zero.mpr hidx.1
    have hown := owner_ori huse
    have hkey := h.ori.owned h1 hidx.2 hown
    have hslot := (h.ori.link h1 hidx.2 hkey).mp hown
    have hconf : a.oriSide.confirmed idx = decide ((a.baOriEntry idx).oriBaStatus = .done) := rfl
    refine h.of_ori (SameRec.write rfl rfl rfl rfl rfl rfl) ?_ ?_
    · refine (h.ori.give h1 hidx.2 hown).congr (fun i _ _ => oriSide_owner rfl (by rfl) i)
        (fun k _ => oriSide_slot rfl rfl k) rfl (fun i _ _ => oriSide_confirmed rfl (by rfl) i)
        (fun k hk => oriSide_flag rfl (fun t ht => ?_) hk)
      by_cases hd : (a.baOriEntry idx).oriBaStatus = .done
      · simp only [hd, ↓reduceIte]
        exact getLsbD_clearBit ht
      · simp only [hd, ↓reduceIte]
        split_ifs with htid
        · rw [htid]
          exact h.ori.flag_of_not_confirmed hkey
            (Or.inr (by rw [hslot, hconf]; exact decide_eq_false hd))
        · rfl
    · have hcount : countSlots maxLenOfBaOriTable (fun i =>
          Function.update a.oriSide.confirmed idx false i = true) =
            if (a.baOriEntry idx).oriBaStatus = .done then a.numDoneOriginator - 1
            else a.numDoneOriginator := by
        split_ifs with hd
        · rw [h.done]
          exact countSlots_erase h1 hidx.2 (hconf.trans (decide_eq_true hd)) (by simp)
            fun i hi => by rw [Function.update_of_ne hi]
        · rw [h.done, ← decide_eq_false hd, ← hconf, Function.update_eq_self]
      rw [← hcount]
      exact countSlots_congr fun i _ _ => Eq.congr_left (oriSide_confirmed rfl (by rfl) i).symm
  · rwa [if_neg hidx, if_neg huse]

/-- Likewise for a recipient entry whose flag has been cleared. -/
theorem Consistent.freeRec {a : Adapter π w} (h : a.Consistent) (idx : ℕ)
    (hflag : a.recSide.flag ((a.baRecEntry idx).wcid, (a.baRecEntry idx).tid) = false) :
    (a.baTableFreeRecEntry idx).Consistent := by
  unfold baTableFreeRecEntry
  by_cases hidx : idx = 0 ∨ maxLenOfBaRecTable ≤ idx
  · rwa [if_pos hidx]
  by_cases huse : (a.baRecEntry idx).recBaStatus ≠ .none
  · rw [if_neg hidx, if_pos huse]
    push Not at hidx
    have h1 : 1 ≤ idx := Nat.one_le_iff_ne_zero.mpr hidx.1
    refine h.of_rec (SameOri.write rfl rfl rfl rfl rfl rfl rfl) ?_
    refine (h.recv.give h1 hidx.2 (owner_rec huse)).congr
      (fun i _ _ => recSide_owner rfl (by rfl) i) (fun k _ => recSide_slot rfl rfl k) rfl
      (fun i _ _ => recSide_confirmed rfl (by rfl) i) (fun k hk => recSide_flag rfl (fun t _ => ?_) hk)
    split_ifs with htid
    · rw [htid]
      exact hflag
    · rfl
  · rwa [if_neg hidx, if_neg huse]

theorem Consistent.oriTearDown {a : Adapter π w} (h : a.Consistent) (wcid tid : ℕ)
    (passive allocOk : Bool) : (a.baOriSessionTearDown wcid tid passive allocOk).Consistent := by
  unfold baOriSessionTearDown
  dsimp only
  split_ifs
  · exact h
  · exact h
  · exact h
  · exact h.freeOri _

/-- An entry may be rewritten as long as its key and its stage stay. -/
theorem Consistent.rewriteOri {a b : Adapter π w} (h : a.Consistent) {idx : ℕ} {e : BaOriEntry}
    (hent : b.baOriEntry = Function.update a.baOriEntry idx e)
    (hown : (if e.oriBaStatus = .none then none else some (e.wcid, e.tid)) = a.oriSide.owner idx)
    (hconf : decide (e.oriBaStatus = .done) = a.oriSide.confirmed idx)
    (hmac : b.macTab = a.macTab) (hrec : b.baRecEntry = a.baRecEntry)
    (hcr : b.numAsRecipient = a.numAsRecipient) (hco : b.numAsOriginator = a.numAsOriginator)
    (hd : b.numDoneOriginator = a.numDoneOriginator) : b.Consistent := by
  have hside : b.oriSide = a.oriSide := by
    apply Marked.ext
    · funext i
      rw [oriSide_owner hent hown, Function.update_eq_self]
    · simp only [oriSide, hmac]
    · exact hco
    · funext i
      rw [oriSide_confirmed hent hconf, Function.update_eq_self]
    · simp only [oriSide, hmac]
  have hsame : SameRec a b :=
    ⟨fun _ => by rw [hmac], fun _ => by rw [hmac], fun _ => by rw [hmac], fun _ => by rw [hrec], hcr⟩
  exact h.of_ori hsame (hside ▸ h.ori) (by rw [hd, hside]; exact h.done)

theorem Consistent.setupTimer {a : Adapter π w} (h : a.Consistent) (idx : ℕ)
    (monitorOn scanning : Bool) :
    (a.baOriSessionSetupTimeout idx monitorOn scanning).Consistent := by
  unfold baOriSessionSetupTimeout
  dsimp only
  split_ifs with hmon hwait hscan
  · exact h
  · exact h
  · exact h.rewriteOri rfl rfl rfl rfl rfl rfl rfl rfl
  · exact h.freeOri _

theorem Consistent.setUp {a : Adapter π w} (h : a.Consistent) (wcid : Fin 32) (tid : Fin 8)
    (timeOut txSeq : ℕ) (isForced ht : Bool) :
    (a.baOriSessionSetUp wcid tid timeOut txSeq isForced ht).Consistent := by
  have hkey : stationKey (wcid.val, tid.val) := ⟨wcid.isLt, tid.isLt⟩
  have haid : (a.macTab wcid).aid % 256 = wcid := by
    rw [h.aid]
    have := wcid.isLt
    omega
  unfold baOriSessionSetUp
  by_cases hauto : a.cfg.autoBA = false ∧ isForced = false
  · rwa [if_pos hauto]
  by_cases hht : ht = false
  · rwa [if_neg hauto, if_pos hht]
  rw [if_neg hauto, if_neg hht]
  dsimp only
  by_cases hidx : (a.macTab wcid).baOriWcidArray tid = 0
  · rw [if_pos hidx]
    rcases h.allocOri ((a.macTab wcid).baOriWcidArray tid) with he | ⟨i, h1, h2, hfree, he⟩
    · rw [he]
      exact h
    · rw [he]
      have hnew : ((a.setOri i { a.baOriEntry i with oriBaStatus := .used }).baOriEntry
          i).oriBaStatus.atLeastWaitRes = false := by
        simp [setOri, OriBlockackStatus.atLeastWaitRes]
      have hslot : a.oriSide.slot (wcid.val, tid.val) = 0 := hidx
      dsimp only
      rw [if_neg (by rw [hnew]; exact Bool.false_ne_true)]
      have howner : a.oriSide.owner i = none := if_pos hfree
      have hconf : a.oriSide.confirmed i = false := h.ori.held h1 h2 howner
      refine h.of_ori (SameRec.write rfl rfl rfl rfl rfl rfl) ?_ ?_
      · refine (h.ori.take false h1 h2 howner hkey hslot).congr
          (fun j _ _ => oriSide_owner (Function.update_idem _ _ _) ?_ j)
          (fun k _ => oriSide_slot rfl rfl k) rfl
          (fun j _ _ => oriSide_confirmed (Function.update_idem _ _ _) (by rfl) j)
          (fun k hk => oriSide_flag rfl (fun t _ => ?_) hk)
        · simp only [reduceCtorEq, ↓reduceIte]
          exact congrArg (fun x => some (x, tid.val)) haid
        · split_ifs with htid
          · rw [htid]
            exact h.ori.flag_of_not_confirmed hkey (Or.inl hslot)
          · rfl
      · have hupd : Function.update a.oriSide.confirmed i false = a.oriSide.confirmed := by
          rw [← hconf, Function.update_eq_self]
        refine h.done.trans (countSlots_congr fun j _ _ => Eq.congr_left ?_)
        exact ((oriSide_confirmed (Function.update_idem _ _ _) (by rfl) j).trans
          (congrFun hupd j)).symm
  · rw [if_neg hidx]
    dsimp only
    split_ifs with hstage
    · exact h
    · refine h.rewriteOri rfl ?_ ?_ ?_ rfl rfl rfl rfl
      · refine Eq.trans ?_ (h.ori_entry hkey hidx).1.symm
        simp only [reduceCtorEq, ↓reduceIte]
        exact congrArg (fun x => some (x, tid.val)) haid
      · refine (decide_eq_false fun hd => ?_).symm
        rw [hd] at hstage
        exact hstage rfl
      · simp only [setOri, setMac, Function.update_eq_self]

theorem Consistent.oriAdd {a : Adapter π w} (h : a.Consistent) (wcid : Fin 32) (tid : Fin 8)
    (bufSize timeOutValue txSeq : ℕ) :
    (a.baOriSessionAdd wcid tid bufSize timeOutValue txSeq).Consistent := by
  have hkey : stationKey (wcid.val, tid.val) := ⟨wcid.isLt, tid.isLt⟩
  unfold baOriSessionAdd
  dsimp only
  by_cases hwait : (a.macTab wcid).baOriWcidArray tid ≠ 0 ∧
      (a.baOriEntry ((a.macTab wcid).baOriWcidArray tid)).tid = tid ∧
      (a.baOriEntry ((a.macTab wcid).baOriWcidArray tid)).oriBaStatus = .waitRes
  · rw [if_pos hwait]
    obtain ⟨hidx, -, hstatus⟩ := hwait
    obtain ⟨hown, huse, -, -⟩ := h.ori_entry hkey hidx
    have h1 := Nat.one_le_iff_ne_zero.mpr hidx
    have h2 : (a.macTab wcid).baOriWcidArray tid < maxLenOfBaOriTable := h.ori.range hkey
    have hconf : a.oriSide.confirmed ((a.macTab wcid).baOriWcidArray tid) = false :=
      decide_eq_false (by rw [hstatus]; decide)
    refine h.of_ori (SameRec.write rfl rfl rfl rfl rfl rfl) ?_ ?_
    · refine (h.ori.confirm h1 h2 hown).congr (fun j _ _ => ?_) (fun k _ => ?_) rfl
        (fun j _ _ => oriSide_confirmed rfl (by rfl) j)
        (fun k hk => oriSide_flag rfl (fun t ht => getLsbD_setBit ht) hk)
      · refine (oriSide_owner rfl ?_ j).trans (congrFun (Function.update_eq_self _ _) j)
        exact (owner_ori huse).symm
      · refine (oriSide_slot rfl ?_ k).trans
          (congrFun (Function.update_eq_self (wcid.val, tid.val) a.oriSide.slot) k)
        exact (Function.update_eq_self _ _).symm
    · have hcount : countSlots maxLenOfBaOriTable (fun i => Function.update a.oriSide.confirmed
          ((a.macTab wcid).baOriWcidArray tid) true i = true) = a.numDoneOriginator + 1 := by
        rw [h.done]
        exact countSlots_insert h1 h2 (by rw [hconf]; exact Bool.false_ne_true) (by simp)
          fun i hi => by rw [Function.update_of_ne hi]
      refine hcount.symm.trans (countSlots_congr fun i _ _ => Eq.congr_left ?_)
      exact (oriSide_confirmed rfl (by rfl) i).symm
  · rwa [if_neg hwait]

theorem Consistent.recAdd {a : Adapter π w} (h : a.Consistent) (wcid : Fin 32) (tid : Fin 8)
    (bufSize timeOutValue : ℕ) :
    (a.baRecSessionAdd wcid tid bufSize timeOutValue).Consistent := by
  have hkey : stationKey (wcid.val, tid.val) := ⟨wcid.isLt, tid.isLt⟩
  have haid : (a.macTab wcid).aid % 256 = wcid := by
    rw [h.aid]
    have := wcid.isLt
    omega
  unfold baRecSessionAdd
  dsimp only
  by_cases hidx : (a.macTab wcid).baRecWcidArray tid = 0
  · rw [if_pos hidx]
    rcases h.allocRec ((a.macTab wcid).baRecWcidArray tid) with he | ⟨i, h1, h2, hfree, he⟩
    · rw [he]
      exact h
    · rw [he]
      have hslot : a.recSide.slot (wcid.val, tid.val) = 0 := hidx
      refine h.of_rec (SameOri.write rfl rfl rfl rfl rfl rfl rfl) ?_
      refine (h.recv.take true h1 h2 (if_pos hfree) hkey hslot).congr
        (fun j _ _ => recSide_owner (Function.update_idem _ _ _) ?_ j)
        (fun k _ => recSide_slot rfl rfl k) rfl
        (fun j _ _ => recSide_confirmed (Function.update_idem _ _ _) (by rfl) j)
        (fun k hk => recSide_flag rfl (fun t ht => getLsbD_setBit ht) hk)
      exact congrArg (fun x => some (x, tid.val)) haid
  · rw [if_neg hidx]
    dsimp only
    set idx := (a.macTab wcid).baRecWcidArray tid with hset
    have hr := h.onSession idx Session.key_refresh
    set r := a.onSession idx Session.baRefreshReorderingMpdus with hrdef
    have hmac : r.macTab = a.macTab := rfl
    have hidx' : (r.macTab wcid).baRecWcidArray tid ≠ 0 := hidx
    obtain ⟨hown, huse, -, -⟩ := hr.rec_entry hkey hidx'
    have h1 := Nat.one_le_iff_ne_zero.mpr hidx'
    have h2 : (r.macTab wcid).baRecWcidArray tid < maxLenOfBaRecTable := hr.recv.range hkey
    refine hr.of_rec (SameOri.write rfl rfl rfl rfl rfl rfl rfl) ?_
    refine (hr.recv.confirm h1 h2 hown).congr (fun j _ _ => ?_) (fun k _ => ?_) rfl
      (fun j _ _ => recSide_confirmed rfl (by rfl) j)
      (fun k hk => recSide_flag rfl (fun t ht => getLsbD_setBit ht) hk)
    · refine (recSide_owner rfl ?_ j).trans (congrFun (Function.update_eq_self _ _) j)
      refine Eq.trans ?_ hown.symm
      exact congrArg (fun x => some (x, tid.val)) haid
    · refine (recSide_slot rfl ?_ k).trans
        (congrFun (Function.update_eq_self (wcid.val, tid.val) r.recSide.slot) k)
      rfl

/-- The part of `BARecSessionTearDown` after the DELBA request: the flag and the index are
cleared twice over, once by hand and once by freeing the entry. -/
theorem Consistent.closeRec {a : Adapter π w} (h : a.Consistent) {wcid tid idx : ℕ}
    (hkey : stationKey (wcid, tid)) (hidx : (a.macTab wcid).baRecWcidArray tid = idx)
    (hne : idx ≠ 0) {e : BaRecEntry π w} (hk : e.key = (a.baRecEntry idx).key) :
    (((a.setRec idx e).setMac wcid { a.macTab wcid with
        rxBAbitmap := clearBit (a.macTab wcid).rxBAbitmap tid
        baRecWcidArray := Function.update (a.macTab wcid).baRecWcidArray tid
          0 }).baTableFreeRecEntry idx).Consistent := by
  subst hidx
  obtain ⟨hown, huse, hw, ht⟩ := h.rec_entry hkey hne
  simp only [BaRecEntry.key, Prod.mk.injEq] at hk
  set idx := (a.macTab wcid).baRecWcidArray tid with hset
  have h1 := Nat.one_le_iff_ne_zero.mpr hne
  have h2 : idx < maxLenOfBaRecTable := h.recv.range hkey
  set b := (a.setRec idx e).setMac wcid { a.macTab wcid with
    rxBAbitmap := clearBit (a.macTab wcid).rxBAbitmap tid
    baRecWcidArray := Function.update (a.macTab wcid).baRecWcidArray tid 0 } with hb
  have hentry : b.baRecEntry idx = e := Function.update_self _ _ _
  have hstation : b.macTab wcid = { a.macTab wcid with
      rxBAbitmap := clearBit (a.macTab wcid).rxBAbitmap tid
      baRecWcidArray := Function.update (a.macTab wcid).baRecWcidArray tid 0 } :=
    Function.update_self _ _ _
  have hidx : ¬ (idx = 0 ∨ maxLenOfBaRecTable ≤ idx) := by omega
  rw [baTableFreeRecEntry, if_neg hidx]
  dsimp only
  rw [hentry, hk.1, if_pos huse, hk.2.1, hw, hk.2.2, ht, hstation]
  dsimp only
  rw [Function.update_idem]
  refine h.of_rec (SameOri.write (Function.update_idem _ _ _) rfl rfl rfl rfl rfl rfl) ?_
  refine (h.recv.give h1 h2 hown).congr
    (fun j _ _ => recSide_owner (Function.update_idem _ _ _) (by rfl) j)
    (fun k _ => recSide_slot (Function.update_idem _ _ _) rfl k) rfl
    (fun j _ _ => recSide_confirmed (Function.update_idem _ _ _) (by rfl) j)
    (fun k hk => recSide_flag (Function.update_idem _ _ _) (fun t ht => getLsbD_clearBit ht) hk)

theorem Consistent.recTearDown {a : Adapter π w} (h : a.Consistent) (wcid : ℕ) (tid : Fin 8)
    (passive allocOk : Bool) : (a.baRecSessionTearDown wcid tid passive allocOk).Consistent := by
  unfold baRecSessionTearDown
  by_cases hw : maxLenOfMacTable ≤ wcid
  · rwa [if_pos hw]
  rw [if_neg hw]
  have hkey : stationKey (wcid, tid.val) := ⟨not_le.mp hw, tid.isLt⟩
  dsimp only
  by_cases hidx : (a.macTab wcid).baRecWcidArray tid = 0
  · rwa [if_pos hidx]
  rw [if_neg hidx]
  obtain ⟨hown, huse, hwcid, htid⟩ := h.rec_entry hkey hidx
  by_cases hacc : tid.val = (a.baRecEntry ((a.macTab wcid).baRecWcidArray tid)).tid ∧
      (a.baRecEntry ((a.macTab wcid).baRecWcidArray tid)).recBaStatus = .accept
  · rw [if_pos hacc]
    split_ifs with halloc
    · exact h
    · rw [htid]
      exact (h.onSession _ Session.key_refresh).closeRec hkey rfl hidx rfl
  · rw [if_neg hacc]
    apply h.freeRec
    rw [hwcid, htid]
    apply h.recv.flag_of_not_confirmed hkey
    right
    exact decide_eq_false fun hs => hacc ⟨htid.symm, hs⟩

theorem Consistent.tearDownAll {a : Adapter π w} (h : a.Consistent) (wcid : ℕ)
    (allocOk : ℕ → Bool × Bool) : (a.baSessionTearDownAll wcid allocOk).Consistent := by
  have hall : ∀ tids : List ℕ, (∀ t ∈ tids, t < 8) → ∀ a : Adapter π w, a.Consistent →
      (tids.foldl (fun a tid => (a.baOriSessionTearDown wcid tid false
        (allocOk tid).1).baRecSessionTearDown wcid tid false (allocOk tid).2) a).Consistent := by
    intro tids
    induction tids with
    | nil => exact fun _ a h => h
    | cons t tids ih =>
      intro hlt a h
      refine ih (fun x hx => hlt x (by simp [hx])) _ ?_
      exact (h.oriTearDown wcid t false _).recTearDown wcid ⟨t, hlt t (by simp)⟩ false _
  exact hall _ (fun t ht => List.mem_range.mp ht) a h

theorem Consistent.maintain {a : Adapter π w} (h : a.Consistent) (now32 : BitVec w)
    (present : ℕ → Bool) : (a.baReOrderingBufferMaintain now32 present).Consistent := by
  have htids : ∀ (wcid : ℕ) (tids : List ℕ) (a : Adapter π w), a.Consistent →
      (tids.foldl (fun a tid => a.onSession ((a.macTab wcid).baRecWcidArray tid) fun s =>
        s.baFlushReorderingTimeoutMpdus a.cfg.osHz now32) a).Consistent := by
    intro wcid tids
    induction tids with
    | nil => exact fun a h => h
    | cons t tids ih => exact fun a h => ih _ (h.onSession _ fun s => Session.key_flush _ s _)
  have hwcids : ∀ (wcids : List ℕ) (a : Adapter π w), a.Consistent →
      (wcids.foldl (fun a wcid =>
        if present wcid then
          (List.range numOfTid).foldl (fun a tid =>
            a.onSession ((a.macTab wcid).baRecWcidArray tid) fun s =>
              s.baFlushReorderingTimeoutMpdus a.cfg.osHz now32) a
        else a) a).Consistent := by
    intro wcids
    induction wcids with
    | nil => exact fun a h => h
    | cons wcid wcids ih =>
      intro a h
      refine ih _ ?_
      dsimp only
      split_ifs
      · exact htids wcid _ a h
      · exact h
  exact hwcids _ a h

theorem Consistent.step {a : Adapter π w} (h : a.Consistent) (e : BaEvent π w) :
    (a.step e).Consistent := by
  cases e with
  | oriSetUp wcid tid timeOut txSeq isForced ht => exact h.setUp wcid tid timeOut txSeq isForced ht
  | oriAdd wcid tid bufSize timeOutValue txSeq => exact h.oriAdd wcid tid bufSize timeOutValue txSeq
  | recAdd wcid tid bufSize timeOutValue => exact h.recAdd wcid tid bufSize timeOutValue
  | oriTearDown wcid tid passive allocOk => exact h.oriTearDown wcid tid passive allocOk
  | recTearDown wcid tid passive allocOk => exact h.recTearDown wcid tid passive allocOk
  | tearDownAll wcid allocOk => exact h.tearDownAll wcid allocOk
  | setupTimer idx monitorOn scanning => exact h.setupTimer idx monitorOn scanning
  | idleTimer idx now32 =>
    exact h.onSession (f := fun s => s.baRecSessionIdleTimeout now32) idx
      fun s => Session.key_idle s now32
  | indicate rx now32 now32' =>
    simp only [Adapter.step, indicateAmpduPacket]
    split_ifs
    · exact h
    · exact h
    · exact h.onSession _ fun s => Session.key_indicateAmpdu _ s rx now32 now32'
    · exact h
  | blockAckReq wcid msgLen tid startSeq halted =>
    simp only [Adapter.step, Adapter.cntlEnqueueForRecv]
    split_ifs
    · exact h
    · exact h
    · exact h
    · exact h.onSession _ fun s => Session.key_cntlEnqueueForRecv s startSeq
    · exact h
  | maintain now32 present => exact h.maintain now32 present

theorem consistent_init (cfg : Config) (stations : ℕ → MacTableEntry) (num : ℕ) :
    (init cfg stations num : Adapter π w).Consistent where
  aid _ := rfl
  ori :=
    { owned := fun _ _ ho => by simp [oriSide, init] at ho
      link := fun h1 _ _ => by
        simp only [oriSide, init, ↓reduceIte, reduceCtorEq, false_iff]
        omega
      range := fun _ => (by decide : 0 < maxLenOfBaOriTable)
      counted := by simp [oriSide, init, countSlots]
      flagged := fun _ hf => by simp [oriSide, init] at hf
      held := fun _ _ _ => by simp [oriSide, init] }
  recv :=
    { owned := fun _ _ ho => by simp [recSide, init] at ho
      link := fun h1 _ _ => by
        simp only [recSide, init, ↓reduceIte, reduceCtorEq, false_iff]
        omega
      range := fun _ => (by decide : 0 < maxLenOfBaRecTable)
      counted := by simp [recSide, init, countSlots]
      flagged := fun _ hf => by simp [recSide, init] at hf
      held := fun _ _ _ => by simp [recSide, init] }
  done := by simp [oriSide, init, countSlots]

/-- The four places that store a session agree, and the allocators find free entries only. -/
structure InStep (a : Adapter π w) : Prop where
  numAsRecipient : a.numAsRecipient = ((Finset.Ico 1 maxLenOfBaRecTable).filter fun i =>
    (a.baRecEntry i).recBaStatus ≠ .none).card
  numAsOriginator : a.numAsOriginator = ((Finset.Ico 1 maxLenOfBaOriTable).filter fun i =>
    (a.baOriEntry i).oriBaStatus ≠ .none).card
  numDoneOriginator : a.numDoneOriginator = ((Finset.Ico 1 maxLenOfBaOriTable).filter fun i =>
    (a.baOriEntry i).oriBaStatus = .done).card
  oriIndex : ∀ wcid < maxLenOfMacTable, ∀ tid < numOfTid, ∀ i, 1 ≤ i → i < maxLenOfBaOriTable →
    ((a.baOriEntry i).oriBaStatus ≠ .none ∧ (a.baOriEntry i).wcid = wcid ∧
      (a.baOriEntry i).tid = tid ↔ (a.macTab wcid).baOriWcidArray tid = i)
  recIndex : ∀ wcid < maxLenOfMacTable, ∀ tid < numOfTid, ∀ i, 1 ≤ i → i < maxLenOfBaRecTable →
    ((a.baRecEntry i).recBaStatus ≠ .none ∧ (a.baRecEntry i).wcid = wcid ∧
      (a.baRecEntry i).tid = tid ↔ (a.macTab wcid).baRecWcidArray tid = i)
  allocOri : ∀ idx i idx' a', a.baTableAllocOriEntry idx = (some i, idx', a') →
    1 ≤ i ∧ i < maxLenOfBaOriTable ∧ (a.baOriEntry i).oriBaStatus = .none ∧ idx' = i
  allocRec : ∀ idx i idx' a', a.baTableAllocRecEntry idx = (some i, idx', a') →
    1 ≤ i ∧ i < maxLenOfBaRecTable ∧ (a.baRecEntry i).recBaStatus = .none ∧ idx' = i
  txBitmap : ∀ wcid < maxLenOfMacTable, ∀ tid < numOfTid,
    (a.macTab wcid).txBAbitmap.getLsbD tid = true → ∃ i, 1 ≤ i ∧ i < maxLenOfBaOriTable ∧
      (a.baOriEntry i).oriBaStatus = .done ∧ (a.baOriEntry i).wcid = wcid ∧
      (a.baOriEntry i).tid = tid
  rxBitmap : ∀ wcid < maxLenOfMacTable, ∀ tid < numOfTid,
    (a.macTab wcid).rxBAbitmap.getLsbD tid = true → ∃ i, 1 ≤ i ∧ i < maxLenOfBaRecTable ∧
      (a.baRecEntry i).recBaStatus = .accept ∧ (a.baRecEntry i).wcid = wcid ∧
      (a.baRecEntry i).tid = tid

theorem owner_ori_iff {a : Adapter π w} {i x y : ℕ} : a.oriSide.owner i = some (x, y) ↔
    (a.baOriEntry i).oriBaStatus ≠ .none ∧ (a.baOriEntry i).wcid = x ∧ (a.baOriEntry i).tid = y := by
  simp only [oriSide]
  split_ifs with h <;> simp [h]

theorem owner_rec_iff {a : Adapter π w} {i x y : ℕ} : a.recSide.owner i = some (x, y) ↔
    (a.baRecEntry i).recBaStatus ≠ .none ∧ (a.baRecEntry i).wcid = x ∧ (a.baRecEntry i).tid = y := by
  simp only [recSide]
  split_ifs with h <;> simp [h]

theorem Consistent.inStep {a : Adapter π w} (h : a.Consistent) : a.InStep where
  numAsRecipient := h.recv.counted.trans (countSlots_congr fun i _ _ => by
    simp only [recSide]
    split_ifs with hn <;> simp [hn])
  numAsOriginator := h.ori.counted.trans (countSlots_congr fun i _ _ => by
    simp only [oriSide]
    split_ifs with hn <;> simp [hn])
  numDoneOriginator := h.done.trans (countSlots_congr fun i _ _ => by simp [oriSide])
  oriIndex := fun wcid hw tid ht i h1 h2 => owner_ori_iff.symm.trans (h.ori.link h1 h2 ⟨hw, ht⟩)
  recIndex := fun wcid hw tid ht i h1 h2 => owner_rec_iff.symm.trans (h.recv.link h1 h2 ⟨hw, ht⟩)
  allocOri := by
    intro idx i idx' a' he
    rcases h.allocOri idx with hn | ⟨j, h1, h2, hfree, hj⟩
    · rw [hn] at he
      exact absurd (congrArg Prod.fst he) (Option.some_ne_none i).symm
    · rw [hj] at he
      simp only [Prod.mk.injEq, Option.some_inj] at he
      obtain ⟨rfl, rfl, -⟩ := he
      exact ⟨h1, h2, hfree, rfl⟩
  allocRec := by
    intro idx i idx' a' he
    rcases h.allocRec idx with hn | ⟨j, h1, h2, hfree, hj⟩
    · rw [hn] at he
      exact absurd (congrArg Prod.fst he) (Option.some_ne_none i).symm
    · rw [hj] at he
      simp only [Prod.mk.injEq, Option.some_inj] at he
      obtain ⟨rfl, rfl, -⟩ := he
      exact ⟨h1, h2, hfree, rfl⟩
  txBitmap := by
    intro wcid hw tid ht hbit
    obtain ⟨hne, hconf⟩ := h.ori.flagged (k := (wcid, tid)) ⟨hw, ht⟩ hbit
    obtain ⟨-, -, hwcid, htid⟩ := h.ori_entry ⟨hw, ht⟩ hne
    exact ⟨_, Nat.one_le_iff_ne_zero.mpr hne, h.ori.range (k := (wcid, tid)) ⟨hw, ht⟩,
      of_decide_eq_true hconf, hwcid, htid⟩
  rxBitmap := by
    intro wcid hw tid ht hbit
    obtain ⟨hne, hconf⟩ := h.recv.flagged (k := (wcid, tid)) ⟨hw, ht⟩ hbit
    obtain ⟨-, -, hwcid, htid⟩ := h.rec_entry ⟨hw, ht⟩ hne
    exact ⟨_, Nat.one_le_iff_ne_zero.mpr hne, h.recv.range (k := (wcid, tid)) ⟨hw, ht⟩,
      of_decide_eq_true hconf, hwcid, htid⟩

theorem consistent_run (cfg : Config) (stations : ℕ → MacTableEntry) (num : ℕ)
    (es : List (BaEvent π w)) : (run step (init cfg stations num) es).Consistent :=
  run_invariant Consistent (fun _ e h => h.step e) es (consistent_init cfg stations num)

/-- After any sequence of events on the table and its sessions, whatever the allocations
return, the entries, the counters, the index arrays and the bitmaps are in step. -/
theorem run_inStep (cfg : Config) (stations : ℕ → MacTableEntry) (num : ℕ)
    (es : List (BaEvent π w)) : (run step (init cfg stations num) es).InStep :=
  (consistent_run cfg stations num es).inStep

end Adapter
end Rt5572
