import Mathlib.Data.List.Find
import StandaloneDrivers.Foundations.Housing
import StandaloneDrivers.Foundations.Run
import StandaloneDrivers.Rt5572.McastTable

/-! The multicast filter table over every sequence of its operations: its size, its chains, its
groups and the places of the member blocks. -/
namespace Rt5572.McastTab
open Foundations

/-- An entry without its pointer. -/
def data (t : McastTab) (i : Slot) : Entry := { t.content i with pNext := none }

def live (t : McastTab) (i : Slot) : Prop := (t.data i).valid = true

instance (t : McastTab) : DecidablePred t.live := fun i =>
  inferInstanceAs (Decidable ((t.data i).valid = true))

def bucket (t : McastTab) (i : Slot) : Fin hashLen := hashIndex (t.data i).addr

/-- The chains lead through lists in which each valid entry is filed under its address. -/
structure Shape (t : McastTab) (lists : Fin hashLen → List Slot) : Prop where
  filed : Filed t.live t.bucket lists
  chained : Chained t.next t.hash lists

/-- What holds of the entries and the member blocks, whatever the chains are. -/
structure Tidy (t : McastTab) : Prop where
  size : t.size.toNat = (Finset.univ.filter t.live).card
  distinct : ∀ i j, t.live i → t.live j → (t.data i).addr = (t.data j).addr →
    (t.data i).netDev = (t.data j).netDev → i = j
  housed : Housed t.freeEntryList t.memberList
  blank : ∀ i, ¬ t.live i → t.memberList i = []
  once : ∀ i, (t.memberList i).Pairwise (t.memberAddr · ≠ t.memberAddr ·)

def Inv (t : McastTab) : Prop := (∃ lists, t.Shape lists) ∧ t.Tidy

theorem length_le {l : List Slot} (h : l.Nodup) : l.length ≤ maxLen := by
  have hcard := h.length_le_card
  rwa [Fintype.card_fin] at hcard

section Frames
variable {t t' : McastTab} {lists : Fin hashLen → List Slot}

theorem isFor_iff {pGrpId : Addr} {dev : ℕ} {i : Slot} :
    t.isFor pGrpId dev i = true ↔ (t.data i).netDev = dev ∧ (t.data i).addr = pGrpId := by
  rw [isFor, Bool.and_eq_true, decide_eq_true_eq, decide_eq_true_eq]
  rfl

theorem isFor_congr {i : Slot} (h : t'.data i = t.data i) (pGrpId : Addr) (dev : ℕ) :
    t'.isFor pGrpId dev i = t.isFor pGrpId dev i := by
  rw [Bool.eq_iff_iff, isFor_iff, isFor_iff, h]

theorem setEntry_data (t : McastTab) (i : Slot) (e : Entry) :
    (t.setEntry i e).data = Function.update t.data i { e with pNext := none } := by
  funext j
  by_cases hj : j = i
  · subst hj
    simp only [data, setEntry, Function.update_self]
  · simp only [data, setEntry, Function.update_of_ne hj]

theorem setEntry_next (t : McastTab) (i : Slot) (e : Entry) :
    (t.setEntry i e).next = Function.update t.next i e.pNext := by
  funext j
  by_cases hj : j = i
  · subst hj
    simp only [next, setEntry, Function.update_self]
  · simp only [next, setEntry, Function.update_of_ne hj]

theorem setNext_data (t : McastTab) (i : Slot) (n : Option Slot) :
    (t.setNext i n).data = t.data := by
  rw [setNext, setEntry_data]
  exact Function.update_eq_self i t.data

theorem setNext_next (t : McastTab) (i : Slot) (n : Option Slot) :
    (t.setNext i n).next = Function.update t.next i n := setEntry_next t i _

/-- The group of an address and device is one entry at most. -/
theorem Tidy.isFor_unique (h : t.Tidy) {pGrpId : Addr} {dev : ℕ} {i j : Slot} (hi : t.live i)
    (hj : t.live j) (hfi : t.isFor pGrpId dev i = true) (hfj : t.isFor pGrpId dev j = true) :
    i = j := by
  rw [isFor_iff] at hfi hfj
  exact h.distinct i j hi hj (hfi.2.trans hfj.2.symm) (hfi.1.trans hfj.1.symm)

/-- An entry of a group is on the chain of the group. -/
theorem Shape.mem_of_isFor (h : t.Shape lists) {pGrpId : Addr} {dev : ℕ} {i : Slot}
    (hi : t.live i) (hfor : t.isFor pGrpId dev i = true) : i ∈ lists (hashIndex pGrpId) := by
  rw [h.filed.mem]
  constructor
  · exact hi
  · rw [bucket, (isFor_iff.mp hfor).2]

end Frames

section Removal
variable {t t₁ t' : McastTab} {lists : Fin hashLen → List Slot} {i : Slot}

/-- An entry that was taken off its chain is no longer filed. -/
theorem Shape.erase (h : t.Shape lists) (hi : t.live i)
    (hchained : Chained t₁.next t₁.hash
      (Function.update lists (t.bucket i) ((lists (t.bucket i)).erase i)))
    (hdata : ∀ j, j ≠ i → t'.data j = t.data j) (hdead : ¬ t'.live i)
    (hnext : ∀ j, j ≠ i → t'.next j = t₁.next j) (hhash : t'.hash = t₁.hash) :
    t'.Shape (Function.update lists (t.bucket i) ((lists (t.bucket i)).erase i)) := by
  have hlive : ∀ j, t'.live j ↔ t.live j ∧ j ≠ i := by
    intro j
    by_cases hj : j = i
    · subst hj
      exact ⟨fun hl => absurd hl hdead, fun hl => absurd rfl hl.2⟩
    · rw [live, hdata j hj]
      exact ⟨fun hl => ⟨hl, hj⟩, And.left⟩
  have hfiled : Filed t'.live t'.bucket
      (Function.update lists (t.bucket i) ((lists (t.bucket i)).erase i)) := by
    apply h.filed.erase rfl hlive
    intro j hj
    rw [bucket, hdata j ((hlive j).mp hj).2, bucket]
  constructor
  · exact hfiled
  · rw [hhash]
    apply hchained.congr
    intro b j hj
    apply hnext
    exact ((hlive j).mp ((hfiled.mem b j).mp hj).1).2

theorem Tidy.drop (h : t.Tidy) (hi : t.live i) (hdata : ∀ j, j ≠ i → t'.data j = t.data j)
    (hdead : ¬ t'.live i) (hsize : t'.size = t.size - 1)
    (hfree : t'.freeEntryList = t.freeEntryList ++ t.memberList i)
    (hmembers : t'.memberList = Function.update t.memberList i [])
    (haddr : t'.memberAddr = t.memberAddr) : t'.Tidy := by
  have hlive : ∀ j, t'.live j → t.live j ∧ j ≠ i := by
    intro j hj
    have hne : j ≠ i := by
      rintro rfl
      exact hdead hj
    rw [live, hdata j hne] at hj
    exact ⟨hj, hne⟩
  have hcard : (Finset.univ.filter t.live).card = (Finset.univ.filter t'.live).card + 1 := by
    apply card_filter_insert hdead
    intro j
    by_cases hj : j = i
    · subst hj
      exact ⟨fun _ => Or.inr rfl, fun _ => hi⟩
    · rw [live, live, hdata j hj]
      exact ⟨Or.inl, fun hor => hor.resolve_right hj⟩
  constructor
  · have hpos : 1 ≤ t.size := by
      rw [UInt8.le_iff_toNat_le, h.size, hcard]
      exact Nat.succ_le_succ (Nat.zero_le _)
    rw [hsize, UInt8.toNat_sub_of_le _ _ hpos, h.size, hcard]
    rfl
  · intro j k hj hk
    obtain ⟨hj, hjne⟩ := hlive j hj
    obtain ⟨hk, hkne⟩ := hlive k hk
    rw [hdata j hjne, hdata k hkne]
    exact h.distinct j k hj hk
  · rw [hfree, hmembers]
    exact h.housed.clear i
  · intro j hj
    rw [hmembers]
    by_cases hji : j = i
    · rw [hji, Function.update_self]
    · rw [Function.update_of_ne hji]
      apply h.blank
      rwa [live, ← hdata j hji]
  · intro j
    rw [hmembers, haddr]
    by_cases hji : j = i
    · rw [hji, Function.update_self]
      exact List.Pairwise.nil
    · rw [Function.update_of_ne hji]
      exact h.once j

/-- The effect of taking an entry out of the table. -/
structure Dropped (t t' : McastTab) (i : Slot) : Prop where
  data : ∀ j, j ≠ i → t'.data j = t.data j
  dead : ¬ t'.live i
  free : t'.freeEntryList = t.freeEntryList ++ t.memberList i
  members : t'.memberList = Function.update t.memberList i []
  size : t'.size = t.size - 1
  tidy : t'.Tidy

/-- The entry before one on a chain is the head's pointer or the last of those in front. -/
def Before (front : List Slot) (pPrev : Option Slot) : Prop :=
  front = [] ∨ front.getLast? = pPrev

theorem erase_middle {front back : List Slot} (h : (front ++ i :: back).Nodup) :
    (front ++ i :: back).erase i = front ++ back := by
  have hfront : i ∉ front := by
    intro hi
    exact (List.nodup_append.mp h).2.2 i hi i List.mem_cons_self rfl
  rw [List.erase_append_right _ hfront, List.erase_cons_head]

/-- The first entry of a chain is unlinked by the head. -/
theorem Shape.unlink_head (h : t.Shape lists) {back : List Slot}
    (hlist : lists (t.bucket i) = i :: back) :
    t.hash (t.bucket i) = some i ∧
      Chained t.next (Function.update t.hash (t.bucket i) (t.next i))
        (Function.update lists (t.bucket i) ((lists (t.bucket i)).erase i)) := by
  constructor
  · have hchain := h.chained (t.bucket i)
    rw [hlist] at hchain
    exact hchain.1
  · apply h.chained.unlink_head h.filed hlist
    intro j _ _
    rfl

/-- Any other entry is unlinked by the one before it. -/
theorem Shape.unlink_next (h : t.Shape lists) {front back : List Slot} {p : Slot}
    (hlist : lists (t.bucket i) = front ++ p :: i :: back) :
    t.hash (t.bucket i) ≠ some i ∧
      Chained (Function.update t.next p (t.next i)) t.hash
        (Function.update lists (t.bucket i) ((lists (t.bucket i)).erase i)) := by
  constructor
  · intro hhead
    have hchain := h.chained (t.bucket i)
    have hnodup := h.filed.nodup (t.bucket i)
    rw [hlist] at hchain hnodup
    cases front with
    | nil =>
      have hp : p = i := Option.some.inj (hchain.1.symm.trans hhead)
      rw [hp] at hnodup
      exact (List.nodup_cons.mp hnodup).1 List.mem_cons_self
    | cons x front =>
      have hx : x = i := Option.some.inj (hchain.1.symm.trans hhead)
      rw [hx] at hnodup
      exact (List.nodup_cons.mp hnodup).1 (by simp)
  · apply h.chained.unlink_next h.filed hlist
    · intro j _ _ hjp
      exact Function.update_of_ne hjp _ _
    · exact Function.update_self _ _ _

theorem removeEntry_spec (h : t.Shape lists) (htidy : t.Tidy) (hi : t.live i)
    {front back : List Slot} {pPrev : Option Slot}
    (hlist : lists (t.bucket i) = front ++ i :: back) (hprev : Before front pPrev) :
    ∃ t', t.removeEntry (t.bucket i) pPrev i = some t' ∧ t.Dropped t' i ∧
      t'.Shape (Function.update lists (t.bucket i) (front ++ back)) := by
  have hnodup := h.filed.nodup (t.bucket i)
  rw [hlist] at hnodup
  obtain ⟨t₁, hunlinked, hdata, hsize, hfree, hmembers, haddr, hchained⟩ : ∃ t₁ : McastTab,
      (if t.hash (t.bucket i) = some i then
        some { t with hash := Function.update t.hash (t.bucket i) (t.next i) }
      else pPrev.map fun p => t.setNext p (t.next i)) = some t₁ ∧ t₁.data = t.data ∧
      t₁.size = t.size ∧ t₁.freeEntryList = t.freeEntryList ∧ t₁.memberList = t.memberList ∧
      t₁.memberAddr = t.memberAddr ∧ Chained t₁.next t₁.hash
        (Function.update lists (t.bucket i) ((lists (t.bucket i)).erase i)) := by
    cases front using List.reverseRecOn with
    | nil =>
      obtain ⟨hhead, hchained⟩ := h.unlink_head hlist
      exact ⟨_, if_pos hhead, rfl, rfl, rfl, rfl, rfl, hchained⟩
    | append_singleton front p =>
      obtain ⟨hhead, hchained⟩ := h.unlink_next (hlist.trans (List.append_assoc _ _ _))
      have hp : pPrev = some p := by
        rcases hprev with hnil | hlast
        · simp at hnil
        · rw [← hlast, List.getLast?_concat]
      refine ⟨t.setNext p (t.next i), ?_, setNext_data _ _ _, rfl, rfl, rfl, rfl, ?_⟩
      · rw [if_neg hhead, hp, Option.map_some]
      · rw [setNext_next]
        exact hchained
  let t₂ : McastTab := { (t₁.deleteIgmpMemberList i).setEntry i Entry.zero with size := t₁.size - 1 }
  have hsize₂ : t₂.size = t.size - 1 := congrArg (· - 1) hsize
  have hdata₂ : t₂.data = Function.update t.data i Entry.zero := by
    have hset := setEntry_data (t₁.deleteIgmpMemberList i) i Entry.zero
    rw [← hdata]
    exact hset
  have hothers : ∀ j, j ≠ i → t₂.data j = t.data j := by
    intro j hj
    rw [hdata₂, Function.update_of_ne hj]
  have hdead : ¬ t₂.live i := by
    rw [live, hdata₂, Function.update_self]
    simp [Entry.zero]
  have hnext : ∀ j, j ≠ i → t₂.next j = t₁.next j := by
    intro j hj
    have hset := congrFun (setEntry_next (t₁.deleteIgmpMemberList i) i Entry.zero) j
    rw [Function.update_of_ne hj] at hset
    exact hset
  have hfree₂ : t₂.freeEntryList = t.freeEntryList ++ t.memberList i := by
    rw [← hfree, ← hmembers]
    rfl
  have hmembers₂ : t₂.memberList = Function.update t.memberList i [] := by
    rw [← hmembers]
    rfl
  refine ⟨t₂, ?_, ⟨hothers, hdead, hfree₂, hmembers₂, hsize₂, ?_⟩, ?_⟩
  · simp only [removeEntry, hunlinked, Option.map_some]
    rfl
  · apply htidy.drop hi hothers hdead hsize₂ hfree₂ hmembers₂
    rw [← haddr]
    rfl
  · rw [← erase_middle hnodup, ← hlist]
    exact h.erase hi hchained hothers hdead hnext rfl

end Removal

section Lookup
variable {t t' : McastTab} {lists : Fin hashLen → List Slot} {c : Clock}

theorem Shape.congr (h : t.Shape lists) (hvalid : ∀ j, (t'.data j).valid = (t.data j).valid)
    (haddr : ∀ j, (t'.data j).addr = (t.data j).addr) (hnext : t'.next = t.next)
    (hhash : t'.hash = t.hash) : t'.Shape lists where
  filed := by
    apply h.filed.congr
    · intro j
      rw [live, hvalid, live]
    · intro j _
      rw [bucket, haddr, bucket]
  chained := by
    rw [hnext, hhash]
    exact h.chained

theorem Tidy.congr (h : t.Tidy) (hvalid : ∀ j, (t'.data j).valid = (t.data j).valid)
    (haddr : ∀ j, (t'.data j).addr = (t.data j).addr)
    (hdev : ∀ j, (t'.data j).netDev = (t.data j).netDev) (hsize : t'.size = t.size)
    (hfree : t'.freeEntryList = t.freeEntryList) (hmembers : t'.memberList = t.memberList)
    (hmember : t'.memberAddr = t.memberAddr) : t'.Tidy where
  size := by
    rw [hsize, h.size]
    congr 1
    ext j
    simp only [Finset.mem_filter, live, hvalid]
  distinct i j hi hj := by
    rw [live, hvalid] at hi hj
    rw [haddr, haddr, hdev, hdev]
    exact h.distinct i j hi hj
  housed := by
    rw [hfree, hmembers]
    exact h.housed
  blank j hj := by
    rw [hmembers]
    apply h.blank
    rwa [live, ← hvalid]
  once := by
    rw [hmembers, hmember]
    exact h.once

theorem Dropped.live_iff {i : Slot} (h : t.Dropped t' i) (j : Slot) :
    t'.live j ↔ t.live j ∧ j ≠ i := by
  by_cases hj : j = i
  · subst hj
    exact ⟨fun hl => absurd hl h.dead, fun hl => absurd rfl hl.2⟩
  · rw [live, h.data j hj]
    exact ⟨fun hl => ⟨hl, hj⟩, And.left⟩

theorem Dropped.size_le {i : Slot} (h : t.Dropped t' i) (ht : t.Tidy) :
    t'.size.toNat ≤ t.size.toNat := by
  rw [h.tidy.size, ht.size]
  apply Finset.card_le_card
  intro j hj
  rw [Finset.mem_filter] at hj ⊢
  exact ⟨hj.1, ((h.live_iff j).mp hj.2).1⟩

theorem refresh_data (t : McastTab) (i : Slot) (now : BitVec 32) (j : Slot) :
    ((t.refresh i now).data j).valid = (t.data j).valid ∧
      ((t.refresh i now).data j).addr = (t.data j).addr ∧
      ((t.refresh i now).data j).netDev = (t.data j).netDev := by
  rw [refresh, setEntry_data]
  by_cases hj : j = i
  · subst hj
    rw [Function.update_self]
    exact ⟨rfl, rfl, rfl⟩
  · rw [Function.update_of_ne hj]
    exact ⟨rfl, rfl, rfl⟩

theorem refresh_next (t : McastTab) (i : Slot) (now : BitVec 32) :
    (t.refresh i now).next = t.next := by
  rw [refresh, setEntry_next]
  exact Function.update_eq_self i t.next

/-- The entries among those ahead on a chain that a look-up removes: the aged ones in front of the
group's. -/
def sweep (t : McastTab) (times : Times c) (pGrpId : Addr) (dev : ℕ) : List Slot → List Slot
  | [] => []
  | i :: ahead =>
    if t.isFor pGrpId dev i then []
    else if (t.content i).type = .dynamic ∧
        c.afterAgeout (times.walk i) (t.content i).lastTime = true then
      i :: t.sweep times pGrpId dev ahead
    else t.sweep times pGrpId dev ahead

theorem sweep_subset (times : Times c) (pGrpId : Addr) (dev : ℕ) (ahead : List Slot) :
    t.sweep times pGrpId dev ahead ⊆ ahead := by
  induction ahead with
  | nil => exact List.Subset.refl _
  | cons i ahead ih =>
    rw [sweep]
    split
    · exact List.nil_subset _
    · split
      · exact List.cons_subset_cons i ih
      · exact List.subset_cons_of_subset i ih

theorem sweep_isFor (times : Times c) (pGrpId : Addr) (dev : ℕ) {ahead : List Slot} {j : Slot}
    (hj : j ∈ t.sweep times pGrpId dev ahead) : t.isFor pGrpId dev j = false := by
  induction ahead with
  | nil => cases hj
  | cons i ahead ih =>
    rw [sweep] at hj
    split at hj
    · cases hj
    · rename_i hfor
      split at hj
      · rcases List.mem_cons.mp hj with rfl | hj
        · rwa [Bool.not_eq_true] at hfor
        · exact ih hj
      · exact ih hj

theorem sweep_congr {times : Times c} {pGrpId : Addr} {dev : ℕ} {ahead : List Slot}
    (h : ∀ j ∈ ahead, t'.data j = t.data j) :
    t'.sweep times pGrpId dev ahead = t.sweep times pGrpId dev ahead := by
  induction ahead with
  | nil => rfl
  | cons i ahead ih =>
    have hdata := h i List.mem_cons_self
    have htype : (t'.content i).type = (t.content i).type :=
      show (t'.data i).type = (t.data i).type by rw [hdata]
    have htime : (t'.content i).lastTime = (t.content i).lastTime :=
      show (t'.data i).lastTime = (t.data i).lastTime by rw [hdata]
    rw [sweep, sweep, isFor_congr hdata, htype, htime,
      ih fun j hj => h j (List.mem_cons_of_mem _ hj)]

/-- What a look-up leaves: the entry it returns is the group's, without one the group has no entry,
and nothing but the entries that were swept is gone. -/
structure Looked (t t' : McastTab) (pGrpId : Addr) (dev : ℕ) (swept : List Slot)
    (r : Option Slot) : Prop where
  inv : t'.Inv
  found : ∀ i, r = some i → t'.live i ∧ t'.isFor pGrpId dev i = true
  missing : r = none → ∀ j, t'.live j → t'.isFor pGrpId dev j = false
  size_le : t'.size.toNat ≤ t.size.toNat
  free : t'.freeEntryList = t.freeEntryList ++ swept.flatMap t.memberList
  live_iff : ∀ j, t'.live j ↔ t.live j ∧ j ∉ swept
  isFor : ∀ j, j ∉ swept → t'.isFor pGrpId dev j = t.isFor pGrpId dev j
  kept : r = none → ∀ j, j ∉ swept → t'.data j = t.data j
  members : ∀ j, j ∉ swept → t'.memberList j = t.memberList j

theorem Looked.done (h : t.Inv) {pGrpId : Addr} {dev : ℕ}
    (hmissing : ∀ j, t.live j → t.isFor pGrpId dev j = false) : t.Looked t pGrpId dev [] none where
  inv := h
  found := nofun
  missing _ := hmissing
  size_le := Nat.le_refl _
  free := (List.append_nil _).symm
  live_iff j := by
    simp only [List.not_mem_nil, not_false_iff, and_true]
  isFor _ _ := rfl
  kept _ _ _ := rfl
  members _ _ := rfl

theorem Looked.refresh (hshape : t.Shape lists) (htidy : t.Tidy) {pGrpId : Addr} {dev : ℕ}
    {i : Slot} (hi : t.live i) (hfor : t.isFor pGrpId dev i = true) (now : BitVec 32) :
    t.Looked (t.refresh i now) pGrpId dev [] (some i) := by
  have hdata := refresh_data t i now
  have hlive : ∀ j, (t.refresh i now).live j ↔ t.live j := by
    intro j
    rw [live, (hdata j).1, live]
  have hsame : ∀ j, (t.refresh i now).isFor pGrpId dev j = t.isFor pGrpId dev j := by
    intro j
    rw [Bool.eq_iff_iff, isFor_iff, isFor_iff, (hdata j).2.2, (hdata j).2.1]
  constructor
  · constructor
    · exact ⟨lists, hshape.congr (fun j => (hdata j).1) (fun j => (hdata j).2.1)
        (refresh_next t i now) rfl⟩
    · exact htidy.congr (fun j => (hdata j).1) (fun j => (hdata j).2.1) (fun j => (hdata j).2.2)
        rfl rfl rfl rfl
  · intro j hj
    cases hj
    rw [hlive, hsame]
    exact ⟨hi, hfor⟩
  · nofun
  · exact Nat.le_refl _
  · exact (List.append_nil _).symm
  · intro j
    rw [hlive]
    simp only [List.not_mem_nil, not_false_iff, and_true]
  · intro j _
    exact hsame j
  · nofun
  · intro _ _
    rfl

/-- An entry is dropped, and the look-up goes on. -/
theorem Looked.after_drop {t'' : McastTab} {pGrpId : Addr} {dev : ℕ} {i : Slot}
    {swept : List Slot} {r : Option Slot} (htidy : t.Tidy) (hi : i ∉ swept)
    (hdropped : t.Dropped t' i) (h : t'.Looked t'' pGrpId dev swept r) :
    t.Looked t'' pGrpId dev (i :: swept) r where
  inv := h.inv
  found := h.found
  missing := h.missing
  size_le := h.size_le.trans (hdropped.size_le htidy)
  free := by
    have hrest : swept.flatMap t'.memberList = swept.flatMap t.memberList := by
      apply List.flatMap_congr
      intro j hj
      have hne : j ≠ i := fun heq => hi (heq ▸ hj)
      rw [hdropped.members, Function.update_of_ne hne]
    rw [h.free, hdropped.free, hrest, List.flatMap_cons, List.append_assoc]
  live_iff j := by
    rw [h.live_iff, hdropped.live_iff, List.mem_cons, not_or, and_assoc]
  isFor j hj := by
    rw [List.mem_cons, not_or] at hj
    rw [h.isFor j hj.2, isFor_congr (hdropped.data j hj.1)]
  kept hr j hj := by
    rw [List.mem_cons, not_or] at hj
    rw [h.kept hr j hj.2, hdropped.data j hj.1]
  members j hj := by
    rw [List.mem_cons, not_or] at hj
    rw [h.members j hj.2, hdropped.members, Function.update_of_ne hj.1]

/-- After an entry was dropped the look-up goes on with the one behind it. -/
theorem lookupLoop_resume (hshape : t.Shape lists) {times : Times c} {pGrpId : Addr} {dev : ℕ}
    {i : Slot} {front back : List Slot} {pPrev : Option Slot} {fuel : ℕ}
    (hlist : lists (hashIndex pGrpId) = front ++ i :: back) (hbucket : t.bucket i = hashIndex pGrpId)
    (hprev : Before front pPrev)
    (hchain : Linked t'.next (t'.hash (hashIndex pGrpId)) (front ++ back)) :
    ∃ pPrev', Before front pPrev' ∧
      (if t.hash (hashIndex pGrpId) = some i then
        lookupLoop times pGrpId dev fuel t' (t'.hash (hashIndex pGrpId))
          (t'.hash (hashIndex pGrpId))
      else lookupLoop times pGrpId dev fuel t' pPrev (pPrev.bind t'.next)) =
        lookupLoop times pGrpId dev fuel t' pPrev' back.head? := by
  rw [← hbucket] at hlist hchain ⊢
  cases front using List.reverseRecOn with
  | nil =>
    obtain ⟨hhead, -⟩ := hshape.unlink_head hlist
    rw [if_pos hhead]
    refine ⟨t'.hash (t.bucket i), Or.inl rfl, ?_⟩
    rw [hchain.head?_eq]
    rfl
  | append_singleton front p =>
    obtain ⟨hhead, -⟩ := hshape.unlink_next (hlist.trans (List.append_assoc _ _ _))
    have hp : pPrev = some p := by
      rcases hprev with hnil | hlast
      · simp at hnil
      · rw [← hlast, List.getLast?_concat]
    rw [if_neg hhead]
    refine ⟨pPrev, hprev, ?_⟩
    rw [List.append_assoc] at hchain
    rw [hp, Option.bind_some, hchain.next_eq]
    rfl

/-- The induction is on the part of the chain that is still ahead; none of the entries passed is
the group's. -/
theorem lookupLoop_spec (times : Times c) (pGrpId : Addr) (dev : ℕ) {rest : List Slot} :
    ∀ (t : McastTab) (lists : Fin hashLen → List Slot) (front : List Slot) (fuel : ℕ)
      (pPrev : Option Slot), t.Shape lists → t.Tidy →
      lists (hashIndex pGrpId) = front ++ rest → Before front pPrev →
      (∀ j ∈ front, t.isFor pGrpId dev j = false) → rest.length ≤ fuel →
      ∃ t' r, lookupLoop times pGrpId dev fuel t pPrev rest.head? = some (t', r) ∧
        t.Looked t' pGrpId dev (t.sweep times pGrpId dev rest) r := by
  induction rest with
  | nil =>
    intro t lists front fuel pPrev hshape htidy hlist _ hpassed _
    refine ⟨t, none, by rw [List.head?_nil, lookupLoop.eq_def], ?_⟩
    apply Looked.done ⟨⟨lists, hshape⟩, htidy⟩
    intro j hj
    rw [Bool.eq_false_iff]
    intro hfor
    have hmem := hshape.mem_of_isFor hj hfor
    rw [hlist, List.append_nil] at hmem
    rw [hpassed j hmem] at hfor
    cases hfor
  | cons i rest ih =>
    intro t lists front fuel pPrev hshape htidy hlist hprev hpassed hfuel
    obtain ⟨fuel, rfl⟩ := Nat.exists_eq_add_of_le' (Nat.le_trans (Nat.succ_pos _) hfuel)
    have hfuel' : rest.length ≤ fuel := Nat.le_of_succ_le_succ hfuel
    have hnodup := hshape.filed.nodup (hashIndex pGrpId)
    rw [hlist] at hnodup
    have hmem : i ∈ lists (hashIndex pGrpId) := by
      rw [hlist]
      exact List.mem_append_right _ List.mem_cons_self
    obtain ⟨hi, hbucket⟩ := (hshape.filed.mem _ i).mp hmem
    have hvalid : (t.content i).valid = true := hi
    have hchain := hshape.chained (hashIndex pGrpId)
    rw [hlist] at hchain
    rw [List.head?_cons, lookupLoop, sweep]
    simp only [hvalid, Bool.not_true, Bool.false_eq_true, if_false]
    by_cases hfor : t.isFor pGrpId dev i = true
    · rw [if_pos hfor, if_pos hfor]
      exact ⟨_, _, rfl, Looked.refresh hshape htidy hi hfor _⟩
    · rw [if_neg hfor, if_neg hfor]
      rw [Bool.not_eq_true] at hfor
      by_cases haged : (t.content i).type = .dynamic ∧
          c.afterAgeout (times.walk i) (t.content i).lastTime = true
      · rw [if_pos haged, if_pos haged]
        obtain ⟨t', hremove, hdropped, hshape'⟩ := removeEntry_spec hshape htidy hi
          (hbucket ▸ hlist) hprev
        rw [hbucket] at hremove hshape'
        rw [hremove, Option.bind_some]
        have hlist' : Function.update lists (hashIndex pGrpId) (front ++ rest) (hashIndex pGrpId) =
            front ++ rest := Function.update_self _ _ _
        have hchain' := hshape'.chained (hashIndex pGrpId)
        rw [hlist'] at hchain'
        have hout := List.nodup_cons.mp (List.nodup_middle.mp hnodup)
        rw [List.mem_append, not_or] at hout
        have hpassed' : ∀ j ∈ front, t'.isFor pGrpId dev j = false := by
          intro j hj
          have hne : j ≠ i := fun heq => hout.1.1 (heq ▸ hj)
          rw [isFor_congr (hdropped.data j hne)]
          exact hpassed j hj
        have hswept : t'.sweep times pGrpId dev rest = t.sweep times pGrpId dev rest := by
          apply sweep_congr
          intro j hj
          exact hdropped.data j fun heq => hout.1.2 (heq ▸ hj)
        obtain ⟨pPrev', hprev', heq⟩ := lookupLoop_resume hshape hlist hbucket hprev hchain'
        obtain ⟨t'', r, hloop, hlooked⟩ := ih t' _ front fuel pPrev' hshape' hdropped.tidy hlist'
          hprev' hpassed' hfuel'
        rw [heq]
        rw [hswept] at hlooked
        refine ⟨t'', r, hloop, hlooked.after_drop htidy ?_ hdropped⟩
        intro hin
        exact hout.1.2 (sweep_subset _ _ _ _ hin)
      · rw [if_neg haged, if_neg haged]
        have hnext : (t.content i).pNext = rest.head? := hchain.next_eq
        rw [hnext]
        apply ih t lists _ fuel _ hshape htidy (hlist.trans (List.append_cons _ _ _)) _ _ hfuel'
        · exact Or.inr List.getLast?_concat
        · intro j hj
          rcases List.mem_append.mp hj with hj | hj
          · exact hpassed j hj
          · rw [List.mem_singleton.mp hj]
            exact hfor

theorem lookup_spec (hshape : t.Shape lists) (htidy : t.Tidy) (times : Times c) (pGrpId : Addr)
    (dev : ℕ) : ∃ t' r, t.lookup times pGrpId dev = some (t', r) ∧
      t.Looked t' pGrpId dev (t.sweep times pGrpId dev (lists (hashIndex pGrpId))) r := by
  have hhead := (hshape.chained (hashIndex pGrpId)).head?_eq
  have hspec := lookupLoop_spec times pGrpId dev t lists [] maxLen (t.hash (hashIndex pGrpId))
    hshape htidy rfl (Or.inl rfl) (fun j hj => absurd hj List.not_mem_nil)
    (length_le (hshape.filed.nodup _))
  rwa [← hhead] at hspec

end Lookup

section Deletion
variable {t : McastTab} {lists : Fin hashLen → List Slot}

/-- The search stops at the group's entry, with the entry before it, or at the end. -/
theorem deleteLoop_spec (hshape : t.Shape lists) (pGrpId : Addr) (dev : ℕ) {rest : List Slot} :
    ∀ (front : List Slot) (fuel : ℕ) (pPrev : Option Slot),
      lists (hashIndex pGrpId) = front ++ rest → Before front pPrev → rest.length ≤ fuel →
      ∃ pPrev' r, t.deleteLoop pGrpId dev fuel pPrev rest.head? = some (pPrev', r) ∧
        ∀ i, r = some i → t.isFor pGrpId dev i = true ∧ ∃ front' back,
          lists (hashIndex pGrpId) = front' ++ i :: back ∧ Before front' pPrev' := by
  induction rest with
  | nil =>
    intro front fuel pPrev _ _ _
    refine ⟨pPrev, none, by rw [List.head?_nil, deleteLoop.eq_def], nofun⟩
  | cons i rest ih =>
    intro front fuel pPrev hlist hprev hfuel
    obtain ⟨fuel, rfl⟩ := Nat.exists_eq_add_of_le' (Nat.le_trans (Nat.succ_pos _) hfuel)
    have hmem : i ∈ lists (hashIndex pGrpId) := by
      rw [hlist]
      exact List.mem_append_right _ List.mem_cons_self
    have hvalid : (t.content i).valid = true := ((hshape.filed.mem _ i).mp hmem).1
    have hchain := hshape.chained (hashIndex pGrpId)
    rw [hlist] at hchain
    rw [List.head?_cons, deleteLoop, hvalid, Bool.not_true, Bool.false_or]
    by_cases hfor : t.isFor pGrpId dev i = true
    · rw [if_pos hfor]
      refine ⟨pPrev, some i, rfl, fun j hj => ?_⟩
      cases hj
      exact ⟨hfor, front, rest, hlist, hprev⟩
    · rw [if_neg hfor, hchain.next_eq]
      apply ih _ _ _ (hlist.trans (List.append_cons _ _ _)) _ (Nat.le_of_succ_le_succ hfuel)
      exact Or.inr List.getLast?_concat

theorem deleteIgmpMember_tidy (h : t.Tidy) (i : Slot) (pMemberAddr : Addr) :
    (t.deleteIgmpMember i pMemberAddr).Tidy := by
  unfold deleteIgmpMember
  cases hb : t.member i pMemberAddr with
  | none => exact h
  | some b =>
    have hmem : b ∈ t.memberList i := List.mem_of_find?_eq_some hb
    constructor
    · exact h.size
    · exact h.distinct
    · exact h.housed.give hmem
    · intro j hj
      have hnil := h.blank j hj
      by_cases hji : j = i
      · rw [← hji, hnil] at hmem
        cases hmem
      · simp only [Function.update_of_ne hji]
        exact hnil
    · intro j
      by_cases hji : j = i
      · subst hji
        simp only [Function.update_self]
        exact (h.once j).sublist List.erase_sublist
      · simp only [Function.update_of_ne hji]
        exact h.once j

theorem deleteIgmpMember_shape (h : t.Shape lists) (i : Slot) (pMemberAddr : Addr) :
    (t.deleteIgmpMember i pMemberAddr).Shape lists := by
  unfold deleteIgmpMember
  cases t.member i pMemberAddr with
  | none => exact h
  | some b => exact ⟨h.filed, h.chained⟩

theorem deleteIgmpMember_content (t : McastTab) (i : Slot) (pMemberAddr : Addr) :
    (t.deleteIgmpMember i pMemberAddr).content = t.content := by
  unfold deleteIgmpMember
  split <;> rfl

theorem deleteEntry_spec (h : t.Inv) (pGrpId : Addr) (dev : ℕ) (pMemberAddr : Option Addr) :
    ∃ t', t.deleteEntry pGrpId dev pMemberAddr = some t' ∧ t'.Inv := by
  obtain ⟨⟨lists, hshape⟩, htidy⟩ := h
  have hhead := (hshape.chained (hashIndex pGrpId)).head?_eq
  obtain ⟨pPrev, r, hloop, hfound⟩ := deleteLoop_spec hshape pGrpId dev [] maxLen
    (t.hash (hashIndex pGrpId)) rfl (Or.inl rfl) (length_le (hshape.filed.nodup _))
  rw [← hhead] at hloop
  unfold deleteEntry
  simp only [hloop, Option.bind_some]
  cases r with
  | none => exact ⟨t, rfl, ⟨lists, hshape⟩, htidy⟩
  | some i =>
    obtain ⟨hfor, front, back, hlist, hprev⟩ := hfound i rfl
    have hmem : i ∈ lists (hashIndex pGrpId) := by
      rw [hlist]
      exact List.mem_append_right _ List.mem_cons_self
    have hremove : ∀ {t₁ : McastTab}, t₁.content = t.content → t₁.Shape lists → t₁.Tidy →
        ∃ t', t₁.removeEntry (hashIndex pGrpId) pPrev i = some t' ∧ t'.Inv := by
      intro t₁ _ hshape₁ htidy₁
      obtain ⟨hi, hbucket⟩ := (hshape₁.filed.mem _ i).mp hmem
      obtain ⟨t', heq, hdropped, hshape'⟩ := removeEntry_spec hshape₁ htidy₁ hi
        (hbucket ▸ hlist) hprev
      rw [hbucket] at heq
      exact ⟨t', heq, ⟨_, hshape'⟩, hdropped.tidy⟩
    cases pMemberAddr with
    | none => exact hremove rfl hshape htidy
    | some addr =>
      have hshape₁ := deleteIgmpMember_shape hshape i addr
      have htidy₁ := deleteIgmpMember_tidy htidy i addr
      simp only
      split
      · exact ⟨_, rfl, ⟨lists, hshape₁⟩, htidy₁⟩
      · exact hremove (deleteIgmpMember_content t i addr) hshape₁ htidy₁

theorem igmpGroupDelMembers_spec (h : t.Inv) (pMemberAddr : Option Addr) (pDev : ℕ) :
    ∃ t', t.igmpGroupDelMembers pMemberAddr pDev = some t' ∧ t'.Inv := by
  apply foldlM_invariant Inv _ _ h
  intro t i h
  have hmember : (t.leave i pMemberAddr).Inv := by
    cases pMemberAddr with
    | none => exact h
    | some addr =>
      obtain ⟨⟨lists, hshape⟩, htidy⟩ := h
      exact ⟨⟨lists, deleteIgmpMember_shape hshape i addr⟩, deleteIgmpMember_tidy htidy i addr⟩
  simp only
  split
  · split
    · exact deleteEntry_spec hmember _ _ _
    · exact ⟨_, rfl, hmember⟩
  · exact ⟨t, rfl, h⟩

end Deletion
section Vacancy
variable {t : McastTab} {lists : Fin hashLen → List Slot} {c : Clock}

/-- The search ends before the group's entry, which is then passed over. -/
theorem unlinkLoop_spec {pGrpId : Addr} {dev : ℕ} {i : Slot} {mid back : List Slot}
    (hi : t.isFor pGrpId dev i = true) : ∀ {cur : Slot} {fuel : ℕ},
      Linked t.next (some cur) (cur :: (mid ++ i :: back)) →
      (∀ j ∈ mid, t.isFor pGrpId dev j = false) → mid.length < fuel →
      ∃ p, (cur :: mid).getLast? = some p ∧ unlinkLoop pGrpId dev fuel t cur =
        some { t.setNext p (t.next i) with size := t.size - 1 } := by
  induction mid with
  | nil =>
    intro cur fuel hlinked _ hfuel
    obtain ⟨fuel, rfl⟩ := Nat.exists_eq_succ_of_ne_zero (Nat.ne_zero_of_lt hfuel)
    have hnext : t.next cur = some i := hlinked.2.1
    refine ⟨cur, rfl, ?_⟩
    rw [unlinkLoop]
    simp only [hnext, hi, if_true]
    rfl
  | cons j mid ih =>
    intro cur fuel hlinked hothers hfuel
    obtain ⟨fuel, rfl⟩ := Nat.exists_eq_add_of_le' (Nat.le_trans (Nat.succ_pos _) hfuel)
    have hnext : t.next cur = some j := hlinked.2.1
    have hj := hothers j List.mem_cons_self
    have htail := hlinked.2
    rw [hnext] at htail
    obtain ⟨p, hp, heq⟩ := ih htail (fun k hk => hothers k (List.mem_cons_of_mem _ hk))
      (Nat.lt_of_succ_lt_succ hfuel)
    refine ⟨p, ?_, ?_⟩
    · rw [List.getLast?_cons_cons]
      exact hp
    · rw [unlinkLoop]
      simp only [hnext, hj, Bool.false_eq_true, if_false]
      exact heq

/-- An aged entry is found on its chain again by its address and device. -/
theorem vacate_unlinks (h : t.Shape lists) (htidy : t.Tidy) {i : Slot} (hi : t.live i) :
    ∃ t₁ : McastTab, t.vacate i = some
        ((t₁.setEntry i { t₁.content i with valid := false }).deleteIgmpMemberList i) ∧
      t₁.data = t.data ∧ t₁.size = t.size - 1 ∧ t₁.freeEntryList = t.freeEntryList ∧
      t₁.memberList = t.memberList ∧ t₁.memberAddr = t.memberAddr ∧
      Chained t₁.next t₁.hash
        (Function.update lists (t.bucket i) ((lists (t.bucket i)).erase i)) := by
  have hmem : i ∈ lists (t.bucket i) := (h.filed.mem _ i).mpr ⟨hi, rfl⟩
  obtain ⟨front, back, hlist⟩ := List.append_of_mem hmem
  have hself : t.isFor (t.content i).addr (t.content i).netDev i = true := isFor_iff.mpr ⟨rfl, rfl⟩
  have hindex : hashIndex (t.content i).addr = t.bucket i := rfl
  have hnodup := h.filed.nodup (t.bucket i)
  have hlength := length_le hnodup
  have hchain := h.chained (t.bucket i)
  rw [hlist] at hnodup hlength hchain
  have hfront : ∀ j ∈ front, t.isFor (t.content i).addr (t.content i).netDev j = false := by
    intro j hj
    rw [Bool.eq_false_iff]
    intro hfor
    have hjmem : j ∈ lists (t.bucket i) := hlist ▸ List.mem_append_left _ hj
    have heq := htidy.isFor_unique ((h.filed.mem _ j).mp hjmem).1 hi hfor hself
    exact (List.nodup_append.mp hnodup).2.2 j hj i List.mem_cons_self heq
  cases front with
  | nil =>
    obtain ⟨hhead, hchained⟩ := h.unlink_head hlist
    refine ⟨{ t with hash := Function.update t.hash (t.bucket i) (t.next i), size := t.size - 1 },
      ?_, rfl, rfl, rfl, rfl, rfl, hchained⟩
    unfold vacate
    simp only [hindex, hhead, hself, if_true, Option.map_some]
  | cons x mid =>
    have hhead : t.hash (t.bucket i) = some x := hchain.1
    rw [hhead] at hchain
    have hmid : mid.length < maxLen := by
      simp only [List.length_append, List.length_cons] at hlength
      omega
    obtain ⟨p, hp, hloop⟩ := unlinkLoop_spec hself hchain
      (fun j hj => hfront j (List.mem_cons_of_mem _ hj)) hmid
    obtain ⟨front, hsplit⟩ := List.getLast?_eq_some_iff.mp hp
    have hlist' : lists (t.bucket i) = front ++ p :: i :: back := by
      rw [hlist, hsplit, List.append_assoc]
      rfl
    obtain ⟨-, hchained⟩ := h.unlink_next hlist'
    refine ⟨{ t.setNext p (t.next i) with size := t.size - 1 }, ?_, setNext_data _ _ _, rfl, rfl,
      rfl, rfl, ?_⟩
    · unfold vacate
      simp only [hindex, hhead, hfront x List.mem_cons_self, Bool.false_eq_true, if_false, hloop,
        Option.map_some]
    · have hnext := setNext_next t p (t.next i)
      exact hnext ▸ hchained

theorem vacate_spec (h : t.Shape lists) (htidy : t.Tidy) {i : Slot} (hi : t.live i) :
    ∃ t', t.vacate i = some t' ∧ t.Dropped t' i ∧ ∃ lists', t'.Shape lists' := by
  obtain ⟨t₁, heq, hdata, hsize, hfree, hmembers, haddr, hchained⟩ := vacate_unlinks h htidy hi
  have hset := setEntry_data t₁ i { t₁.content i with valid := false }
  generalize ht' : (t₁.setEntry i { t₁.content i with valid := false }).deleteIgmpMemberList i = t'
    at heq
  have hdata' : t'.data = Function.update t.data i
      { t₁.content i with valid := false, pNext := none } := by
    rw [← ht', ← hdata]
    exact hset
  have hothers : ∀ j, j ≠ i → t'.data j = t.data j := by
    intro j hj
    rw [hdata', Function.update_of_ne hj]
  have hdead : ¬ t'.live i := by
    rw [live, hdata', Function.update_self]
    simp
  have hnext : ∀ j, j ≠ i → t'.next j = t₁.next j := by
    intro j hj
    have hset := congrFun (setEntry_next t₁ i { t₁.content i with valid := false }) j
    rw [Function.update_of_ne hj] at hset
    rw [← ht']
    exact hset
  have hfree' : t'.freeEntryList = t.freeEntryList ++ t.memberList i := by
    rw [← ht', ← hfree, ← hmembers]
    rfl
  have hmembers' : t'.memberList = Function.update t.memberList i [] := by
    rw [← ht', ← hmembers]
    rfl
  have hsize' : t'.size = t.size - 1 := by
    rw [← ht', ← hsize]
    rfl
  have haddr' : t'.memberAddr = t.memberAddr := by
    rw [← ht', ← haddr]
    rfl
  have hhash : t'.hash = t₁.hash := by
    rw [← ht']
    rfl
  refine ⟨t', heq, ⟨hothers, hdead, hfree', hmembers', hsize', ?_⟩, _,
    h.erase hi hchained hothers hdead hnext
    hhash⟩
  exact htidy.drop hi hothers hdead hsize' hfree' hmembers' haddr'

end Vacancy
end Rt5572.McastTab
