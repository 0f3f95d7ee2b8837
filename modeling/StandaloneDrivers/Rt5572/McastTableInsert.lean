import StandaloneDrivers.Rt5572.McastTableRuns

/-! Insertion into the multicast filter table, and when the member is in its group afterwards. -/
namespace Rt5572.McastTab
open Foundations

/-- A member is in the list of a group. -/
def HasMember (t : McastTab) (pGrpId : Addr) (dev : ℕ) (pMemberAddr : Addr) : Prop :=
  ∃ i, t.live i ∧ t.isFor pGrpId dev i = true ∧ (t.member i pMemberAddr).isSome = true

/-- The entries that an insertion's look-up removes. -/
def swept {c : Clock} (t : McastTab) (times : Times c) (pGrpId : Addr) (dev : ℕ) : List Slot :=
  t.sweep times pGrpId dev (trace t.next maxLen (t.hash (hashIndex pGrpId)))

/-- An entry that the search for a vacancy stops at. -/
def vacant {c : Clock} (t : McastTab) (times : Times c) (gone : List Slot) (i : Slot) : Bool :=
  !(t.content i).valid || decide (i ∈ gone) || t.aged times i

/-- A member block is free, or becomes free before one is needed: with an entry that the look-up
removes, or with the aged entry that makes place for a new group. -/
def Room {c : Clock} (t : McastTab) (times : Times c) (pGrpId : Addr) (dev : ℕ) : Prop :=
  t.freeEntryList ≠ [] ∨ (∃ i ∈ t.swept times pGrpId dev, t.memberList i ≠ []) ∨
    (∀ i, t.live i → t.isFor pGrpId dev i = false) ∧
      ∃ i, (List.finRange maxLen).find? (t.vacant times (t.swept times pGrpId dev)) = some i ∧
        t.memberList i ≠ []

/-- A group's entry decides who is a member. -/
theorem Tidy.hasMember_iff {t t₁ : McastTab} (h : t.Tidy) {pGrpId a : Addr} {dev : ℕ} {i : Slot}
    (hi : t.live i) (hfor : t.isFor pGrpId dev i = true) (hmember : t.member i a = t₁.member i a) :
    t.HasMember pGrpId dev a ↔ (t₁.member i a).isSome = true := by
  rw [← hmember]
  constructor
  · rintro ⟨j, hj, hforj, hsome⟩
    rwa [h.isFor_unique hj hi hforj hfor] at hsome
  · intro hsome
    exact ⟨i, hi, hfor, hsome⟩

section Members
variable {t : McastTab} {lists : Fin hashLen → List Slot} {i : Slot} {pMemberAddr : Addr}

theorem insertIgmpMember_content (t : McastTab) (i : Slot) (pMemberAddr : Addr) :
    (t.insertIgmpMember i pMemberAddr).content = t.content := by
  unfold insertIgmpMember
  split <;> rfl

theorem insertIgmpMember_hash (t : McastTab) (i : Slot) (pMemberAddr : Addr) :
    (t.insertIgmpMember i pMemberAddr).hash = t.hash := by
  unfold insertIgmpMember
  split <;> rfl

theorem insertIgmpMember_shape (h : t.Shape lists) (i : Slot) (pMemberAddr : Addr) :
    (t.insertIgmpMember i pMemberAddr).Shape lists := by
  unfold insertIgmpMember
  split
  · exact h
  · exact ⟨h.filed, h.chained⟩

theorem insertIgmpMember_tidy (h : t.Tidy) (hi : t.live i) (hnew : t.member i pMemberAddr = none) :
    (t.insertIgmpMember i pMemberAddr).Tidy := by
  unfold insertIgmpMember
  cases hfree : t.freeEntryList with
  | nil => exact h
  | cons b rest =>
    have hhoused := h.housed
    rw [hfree] at hhoused
    have hout : ∀ j, ∀ x ∈ t.memberList j, x ≠ b := by
      rintro j x hx rfl
      exact hhoused.notMem_of_free List.mem_cons_self j hx
    have honce : ∀ j, (t.memberList j).Pairwise fun x y =>
        Function.update t.memberAddr b pMemberAddr x ≠
          Function.update t.memberAddr b pMemberAddr y := by
      intro j
      apply (h.once j).imp_of_mem
      intro x y hx hy hne
      rwa [Function.update_of_ne (hout j x hx), Function.update_of_ne (hout j y hy)]
    constructor
    · exact h.size
    · exact h.distinct
    · exact hhoused.take i
    · intro j hj
      have hji : j ≠ i := by
        rintro rfl
        exact hj hi
      simp only [Function.update_of_ne hji]
      exact h.blank j hj
    · intro j
      by_cases hji : j = i
      · subst hji
        simp only [Function.update_self]
        rw [List.pairwise_append]
        refine ⟨honce j, List.pairwise_singleton _ _, ?_⟩
        intro x hx y hy
        rw [List.mem_singleton.mp hy, Function.update_self, Function.update_of_ne (hout j x hx)]
        have hnone := List.find?_eq_none.mp hnew x hx
        rwa [decide_eq_true_eq] at hnone
      · simp only [Function.update_of_ne hji]
        exact honce j

/-- The member is in the list afterwards exactly when there was a free block. -/
theorem insertIgmpMember_member (hnew : t.member i pMemberAddr = none) :
    ((t.insertIgmpMember i pMemberAddr).member i pMemberAddr).isSome = true ↔
      t.freeEntryList ≠ [] := by
  unfold insertIgmpMember
  cases hfree : t.freeEntryList with
  | nil =>
    simp only [hnew, Option.isSome_none, Bool.false_eq_true, ne_eq, not_true_eq_false]
  | cons b rest =>
    simp only [member, Function.update_self, List.find?_isSome]
    constructor
    · intro _
      nofun
    · intro _
      refine ⟨b, List.mem_append_right _ List.mem_cons_self, ?_⟩
      exact decide_eq_true (Function.update_self b pMemberAddr t.memberAddr)

end Members

section Filling
variable {t t₁ t' : McastTab} {lists : Fin hashLen → List Slot} {i : Slot} {c : Clock}
variable {times : Times c} {pGrpId : Addr} {dev : ℕ} {type : EntryType}

/-- Two tables that differ in their pointers only. -/
structure Same (t t' : McastTab) : Prop where
  data : t'.data = t.data
  size : t'.size = t.size
  free : t'.freeEntryList = t.freeEntryList
  members : t'.memberList = t.memberList
  addrs : t'.memberAddr = t.memberAddr

theorem Same.refl (t : McastTab) : t.Same t := ⟨rfl, rfl, rfl, rfl, rfl⟩

theorem Same.tidy (h : t.Same t') (ht : t.Tidy) : t'.Tidy := by
  apply ht.congr _ _ _ h.size h.free h.members h.addrs
  · intro j
    rw [h.data]
  · intro j
    rw [h.data]
  · intro j
    rw [h.data]

theorem Same.member (h : t.Same t') (i : Slot) (a : Addr) : t'.member i a = t.member i a := by
  rw [McastTab.member, h.members, h.addrs, McastTab.member]

/-- A new entry becomes the last of its chain. -/
theorem addToHash_spec (h : t.Shape lists) (hi : ¬ t.live i)
    (hothers : ∀ j, j ≠ i → t₁.content j = t.content j) (hnew : t₁.live i)
    (hnext : t₁.next i = none) (hhash : t₁.hash = t.hash) :
    ∃ t₂, t₁.addToHash (t₁.content i).addr i = some t₂ ∧ t₁.Same t₂ ∧
      ∃ lists', t₂.Shape lists' := by
  have hne : ∀ j, t.live j → j ≠ i := by
    rintro j hj rfl
    exact hi hj
  have hlive : ∀ j, t₁.live j ↔ t.live j ∨ j = i := by
    intro j
    by_cases hj : j = i
    · rw [hj]
      exact ⟨fun _ => Or.inr rfl, fun _ => hnew⟩
    · rw [live, data, hothers j hj]
      exact ⟨Or.inl, fun hor => hor.resolve_right hj⟩
  have hbucket : ∀ j, t.live j → t₁.bucket j = t.bucket j := by
    intro j hj
    rw [bucket, data, hothers j (hne j hj), bucket, data]
  have hnext₁ : ∀ j, t.live j → t₁.next j = t.next j := by
    intro j hj
    rw [next, hothers j (hne j hj), next]
  have hfiled' := h.filed.append hi hlive hbucket rfl
  have hindex : hashIndex (t₁.content i).addr = t₁.bucket i := rfl
  have hchain := h.chained (t₁.bucket i)
  cases hhead : t.hash (t₁.bucket i) with
  | none =>
    have heq : t₁.addToHash (t₁.content i).addr i =
        some { t₁ with hash := Function.update t.hash (t₁.bucket i) (some i) } := by
      simp only [addToHash, hindex, hhash, hhead]
    rw [hhead] at hchain
    refine ⟨_, heq, ⟨rfl, rfl, rfl, rfl, rfl⟩, _, hfiled', ?_⟩
    exact h.chained.append_nil h.filed hchain.eq_nil hnext₁ hnext
  | some first =>
    obtain ⟨front, last, hlist⟩ : ∃ front last, lists (t₁.bucket i) = front ++ [last] := by
      apply (List.eq_nil_or_concat' _).resolve_left
      intro hnil
      rw [hnil, hhead] at hchain
      cases hchain
    have hlength := length_le (h.filed.nodup (t₁.bucket i))
    have hmem : ∀ j ∈ front ++ [last], t.live j :=
      fun j hj => ((h.filed.mem _ j).mp (hlist ▸ hj)).1
    rw [hlist] at hlength
    rw [hlist, hhead] at hchain
    have hchain₁ := hchain.congr fun j hj => hnext₁ j (hmem j hj)
    have hlast := hmem last (List.mem_append_right _ List.mem_cons_self)
    have hwalk := hchain₁.walk (fun j => (t₁.next j).isNone) hlength
    rw [hchain₁.find_last] at hwalk
    have heq : t₁.addToHash (t₁.content i).addr i = some (t₁.setNext last (some i)) := by
      simp only [addToHash, hindex, hhash, hhead, hwalk, Option.map_some]
    have hdata := setNext_data t₁ last (some i)
    have hfiled₂ : Filed (t₁.setNext last (some i)).live (t₁.setNext last (some i)).bucket
        (Function.update lists (t₁.bucket i) (lists (t₁.bucket i) ++ [i])) := by
      apply hfiled'.congr
      · intro j
        rw [live, hdata, live]
      · intro j _
        rw [bucket, hdata, bucket]
    refine ⟨_, heq, ⟨hdata, rfl, rfl, rfl, rfl⟩, _, hfiled₂, ?_⟩
    have hhash' : (t₁.setNext last (some i)).hash = t.hash := hhash
    rw [setNext_next, hhash']
    apply h.chained.append_last h.filed hlist
    · intro j hj hjl
      rw [Function.update_of_ne hjl, hnext₁ j hj]
    · rw [Function.update_self]
    · rw [Function.update_of_ne (hne last hlast).symm, hnext]

/-- A vacancy that was given to a group, before a member is inserted. -/
def occupy (t : McastTab) (times : Times c) (pGrpId : Addr) (dev : ℕ) (type : EntryType)
    (i : Slot) : McastTab :=
  { t.setEntry i ⟨true, type, times.stamp.setWidth 32, dev, pGrpId, none⟩ with
    memberList := Function.update t.memberList i []
    size := t.size + 1 }

theorem fill_eq (t : McastTab) (pMemberAddr : Option Addr) (i : Slot) :
    t.fill times pGrpId dev pMemberAddr type i =
      match pMemberAddr with
      | some addr => (t.occupy times pGrpId dev type i).insertIgmpMember i addr
      | none => t.occupy times pGrpId dev type i := by
  cases pMemberAddr with
  | none => rfl
  | some addr =>
    simp only [fill, insertIgmpMember, occupy, setEntry]
    cases t.freeEntryList <;> rfl

theorem occupy_tidy (h : t.Tidy) (hi : ¬ t.live i)
    (hnone : ∀ j, t.live j → t.isFor pGrpId dev j = false) :
    (t.occupy times pGrpId dev type i).Tidy := by
  let t' := t.occupy times pGrpId dev type i
  have hself : t'.content i = ⟨true, type, times.stamp.setWidth 32, dev, pGrpId, none⟩ :=
    Function.update_self _ _ _
  have hothers : ∀ j, j ≠ i → t'.content j = t.content j :=
    fun j hj => Function.update_of_ne hj _ _
  have hmembers : t'.memberList = t.memberList := by
    have hblank := Function.update_eq_self i t.memberList
    rwa [h.blank i hi] at hblank
  have hnew : t'.live i := by
    rw [live, data, hself]
  have hlive : ∀ j, j ≠ i → (t'.live j ↔ t.live j) := by
    intro j hj
    rw [live, data, hothers j hj, live, data]
  have hcard : (Finset.univ.filter t'.live).card = (Finset.univ.filter t.live).card + 1 := by
    apply card_filter_insert hi
    intro j
    by_cases hj : j = i
    · rw [hj]
      exact ⟨fun _ => Or.inr rfl, fun _ => hnew⟩
    · rw [hlive j hj]
      exact ⟨Or.inl, fun hor => hor.resolve_right hj⟩
  have hfresh : ∀ j, j ≠ i → t'.live j →
      ¬ ((t'.data j).netDev = dev ∧ (t'.data j).addr = pGrpId) := by
    intro j hj hl
    rw [data, hothers j hj]
    have hfor := hnone j ((hlive j hj).mp hl)
    rw [Bool.eq_false_iff, ne_eq, isFor_iff] at hfor
    exact hfor
  have hdata : (t'.data i).netDev = dev ∧ (t'.data i).addr = pGrpId := by
    rw [data, hself]
    exact ⟨rfl, rfl⟩
  constructor
  · have hle : (Finset.univ.filter t.live).card ≤ maxLen := by
      have hcard := Finset.card_le_univ (Finset.univ.filter t.live)
      rwa [Fintype.card_fin] at hcard
    have hsize : t'.size = t.size + 1 := rfl
    rw [hsize, UInt8.toNat_add, h.size, hcard]
    apply Nat.mod_eq_of_lt
    exact Nat.lt_of_le_of_lt (Nat.succ_le_succ hle) (by decide)
  · intro j k hj hk haddr hdev
    by_cases hji : j = i
    · by_cases hki : k = i
      · rw [hji, hki]
      · rw [hji] at haddr hdev
        exact absurd ⟨hdev.symm.trans hdata.1, haddr.symm.trans hdata.2⟩ (hfresh k hki hk)
    · by_cases hki : k = i
      · rw [hki] at haddr hdev
        exact absurd ⟨hdev.trans hdata.1, haddr.trans hdata.2⟩ (hfresh j hji hj)
      · simp only [data] at haddr hdev
        rw [hothers j hji, hothers k hki] at haddr hdev
        exact h.distinct j k ((hlive j hji).mp hj) ((hlive k hki).mp hk) haddr hdev
  · rw [hmembers]
    exact h.housed
  · intro j hj
    have hji : j ≠ i := by
      rintro rfl
      exact hj hnew
    rw [hmembers]
    exact h.blank j fun hl => hj ((hlive j hji).mpr hl)
  · rw [hmembers]
    exact h.once

/-- A vacancy becomes the entry of a group that has none yet. -/
theorem fill_spec (times : Times c) (pMemberAddr : Option Addr) (type : EntryType)
    (hshape : t.Shape lists) (htidy : t.Tidy) (hi : ¬ t.live i)
    (hnone : ∀ j, t.live j → t.isFor pGrpId dev j = false) :
    ∃ t', (t.fill times pGrpId dev pMemberAddr type i).addToHash pGrpId i = some t' ∧ t'.Inv ∧
      ∀ a, pMemberAddr = some a → (t'.HasMember pGrpId dev a ↔ t.freeEntryList ≠ []) := by
  let t₀ := t.occupy times pGrpId dev type i
  have hself : t₀.content i = ⟨true, type, times.stamp.setWidth 32, dev, pGrpId, none⟩ :=
    Function.update_self _ _ _
  have hlive : t₀.live i := by
    rw [live, data, hself]
  have htidy₀ : t₀.Tidy := occupy_tidy htidy hi hnone
  have hempty : ∀ a, t₀.member i a = none := by
    intro a
    have hnil : t₀.memberList i = [] := Function.update_self _ _ _
    rw [member, hnil]
    rfl
  obtain ⟨t₁, hfill, hcontent, hhash, htidy₁, hmember⟩ : ∃ t₁,
      t.fill times pGrpId dev pMemberAddr type i = t₁ ∧ t₁.content = t₀.content ∧
      t₁.hash = t.hash ∧ t₁.Tidy ∧
      ∀ a, pMemberAddr = some a → ((t₁.member i a).isSome = true ↔ t.freeEntryList ≠ []) := by
    rw [fill_eq]
    cases pMemberAddr with
    | none => exact ⟨t₀, rfl, rfl, rfl, htidy₀, (by rintro _ ⟨⟩)⟩
    | some addr =>
      refine ⟨_, rfl, insertIgmpMember_content _ _ _, insertIgmpMember_hash _ _ _,
        insertIgmpMember_tidy htidy₀ hlive (hempty addr), ?_⟩
      intro a ha
      cases ha
      exact insertIgmpMember_member (hempty addr)
  rw [hfill]
  have hself₁ := (congrFun hcontent i).trans hself
  have hothers : ∀ j, j ≠ i → t₁.content j = t.content j := by
    intro j hj
    rw [hcontent]
    exact Function.update_of_ne hj _ _
  have hlive₁ : t₁.live i := by
    rw [live, data, hself₁]
  have hnext₁ : t₁.next i = none := by
    rw [next, hself₁]
  obtain ⟨t₂, hadd, hsame, lists', hshape₂⟩ := addToHash_spec hshape hi hothers hlive₁ hnext₁ hhash
  rw [hself₁] at hadd
  have htidy₂ := hsame.tidy htidy₁
  have hlive₂ : t₂.live i := by
    rw [live, hsame.data]
    exact hlive₁
  have hfor₂ : t₂.isFor pGrpId dev i = true := by
    rw [isFor_iff, hsame.data, data, hself₁]
    exact ⟨rfl, rfl⟩
  refine ⟨t₂, hadd, ⟨⟨lists', hshape₂⟩, htidy₂⟩, ?_⟩
  intro a ha
  rw [← hmember a ha]
  exact htidy₂.hasMember_iff hlive₂ hfor₂ (hsame.member i a)

end Filling

section Searching
variable {t t' : McastTab} {lists : Fin hashLen → List Slot} {c : Clock}
variable {times : Times c} {pGrpId : Addr} {dev : ℕ} {type : EntryType}

/-- The search for a vacancy makes one of the first slot that is free or aged. -/
theorem searchLoop_spec (pGrpId : Addr) (dev : ℕ) (pMemberAddr : Option Addr) (type : EntryType)
    (hshape : t.Shape lists) (htidy : t.Tidy) {slots : List Slot} {i : Slot}
    (hi : slots.find? (t.vacant times []) = some i) :
    ∃ t' : McastTab, (∃ lists', t'.Shape lists') ∧ t'.Tidy ∧ ¬ t'.live i ∧
      (∀ j, j ≠ i → t'.data j = t.data j) ∧
      t'.freeEntryList = t.freeEntryList ++ t.memberList i ∧
      searchLoop times pGrpId dev pMemberAddr type slots t =
        some (t'.fill times pGrpId dev pMemberAddr type i, some i) := by
  induction slots with
  | nil => cases hi
  | cons j slots ih =>
    rw [List.find?_cons] at hi
    cases hvacant : t.vacant times [] j with
    | false =>
      rw [hvacant] at hi
      have hstop := hvacant
      rw [vacant, Bool.or_eq_false_iff, Bool.or_eq_false_iff] at hstop
      rw [searchLoop]
      simp only [hstop.2, hstop.1.1, Bool.false_eq_true, if_false, Option.bind_some]
      exact ih hi
    | true =>
      rw [hvacant] at hi
      cases hi
      rw [searchLoop]
      cases haged : t.aged times i with
      | false =>
        have hdead : (!(t.content i).valid) = true := by
          simpa only [vacant, haged, List.not_mem_nil, decide_false, Bool.or_false] using hvacant
        have hnot : ¬ t.live i := by
          rw [Bool.not_eq_true'] at hdead
          rw [live, data, hdead]
          exact Bool.false_ne_true
        refine ⟨t, ⟨lists, hshape⟩, htidy, hnot, fun _ _ => rfl, ?_, ?_⟩
        · rw [htidy.blank i hnot, List.append_nil]
        · simp only [Bool.false_eq_true, if_false, Option.bind_some, hdead, if_true]
      | true =>
        have hlive : t.live i := by
          rw [aged, Bool.and_eq_true, Bool.and_eq_true] at haged
          exact haged.1.1
        obtain ⟨t', heq, hdropped, hshape'⟩ := vacate_spec hshape htidy hlive
        have hdead : (!(t'.content i).valid) = true := by
          rw [Bool.not_eq_true', ← Bool.not_eq_true]
          exact hdropped.dead
        refine ⟨t', hshape', hdropped.tidy, hdropped.dead, hdropped.data, hdropped.free, ?_⟩
        simp only [if_true, heq, Option.bind_some, hdead]

/-- A table that is not full has a slot to stop at. -/
theorem exists_vacant (times : Times c) (htidy : t.Tidy) (hsize : t.size.toNat < maxLen) :
    ∃ i, (List.finRange maxLen).find? (t.vacant times []) = some i := by
  rw [htidy.size] at hsize
  have hne : Finset.univ.filter t.live ≠ Finset.univ := by
    intro heq
    rw [heq, Finset.card_univ, Fintype.card_fin] at hsize
    exact Nat.lt_irrefl _ hsize
  obtain ⟨i, hi⟩ : ∃ i, ¬ t.live i := by
    by_contra hall
    push Not at hall
    exact hne (Finset.filter_true_of_mem fun i _ => hall i)
  rw [← Option.isSome_iff_exists, List.find?_isSome]
  refine ⟨i, List.mem_finRange i, ?_⟩
  have hdead : (t.content i).valid = false := Bool.eq_false_iff.mpr hi
  rw [vacant, hdead]
  rfl

/-- Once the look-up found no entry, the search looks for the same slots as before the look-up. -/
theorem Looked.vacant_eq {gone : List Slot} (h : t.Looked t' pGrpId dev gone none) (i : Slot) :
    t'.vacant times [] i = t.vacant times gone i := by
  by_cases hgone : i ∈ gone
  · have hdead : (t'.content i).valid = false := by
      rw [Bool.eq_false_iff]
      intro hvalid
      exact ((h.live_iff i).mp hvalid).2 hgone
    rw [vacant, hdead, vacant, decide_eq_true hgone, Bool.or_true]
    rfl
  · have hdata := h.kept rfl i hgone
    have hvalid : (t'.content i).valid = (t.content i).valid :=
      show (t'.data i).valid = (t.data i).valid by rw [hdata]
    have htype : (t'.content i).type = (t.content i).type :=
      show (t'.data i).type = (t.data i).type by rw [hdata]
    have htime : (t'.content i).lastTime = (t.content i).lastTime :=
      show (t'.data i).lastTime = (t.data i).lastTime by rw [hdata]
    have haged : t'.aged times i = t.aged times i := by
      rw [aged, hvalid, htype, htime, aged]
    rw [vacant, hvalid, haged, vacant, decide_eq_false hgone, decide_eq_false List.not_mem_nil]

end Searching

section Insertion
variable {t t' : McastTab} {lists : Fin hashLen → List Slot} {c : Clock}

theorem Shape.swept_eq (h : t.Shape lists) (times : Times c) (pGrpId : Addr) (dev : ℕ) :
    t.swept times pGrpId dev = t.sweep times pGrpId dev (lists (hashIndex pGrpId)) := by
  rw [swept, (h.chained _).trace_eq (length_le (h.filed.nodup _))]

theorem Looked.free_iff {pGrpId : Addr} {dev : ℕ} {gone : List Slot} {r : Option Slot}
    (h : t.Looked t' pGrpId dev gone r) :
    t'.freeEntryList ≠ [] ↔ t.freeEntryList ≠ [] ∨ ∃ i ∈ gone, t.memberList i ≠ [] := by
  rw [h.free, ne_eq, List.append_eq_nil_iff, List.flatMap_eq_nil_iff, not_and_or]
  push Not
  rfl

/-- A group without an entry gets its member when a block is free by then. -/
theorem Looked.room_iff {times : Times c} {pGrpId : Addr} {dev : ℕ}
    (h : t.Looked t' pGrpId dev (t.swept times pGrpId dev) none)
    (hswept : ∀ i ∈ t.swept times pGrpId dev, t.isFor pGrpId dev i = false) {i : Slot}
    (hi : (List.finRange maxLen).find? (t'.vacant times []) = some i) :
    t.Room times pGrpId dev ↔ t'.freeEntryList ≠ [] ∨ t'.memberList i ≠ [] := by
  have hfun : t'.vacant times [] = t.vacant times (t.swept times pGrpId dev) :=
    funext fun j => h.vacant_eq j
  rw [hfun] at hi
  have hnone : ∀ j, t.live j → t.isFor pGrpId dev j = false := by
    intro j hj
    by_cases hgone : j ∈ t.swept times pGrpId dev
    · exact hswept j hgone
    · rw [← h.isFor j hgone]
      exact h.missing rfl j ((h.live_iff j).mpr ⟨hj, hgone⟩)
  have hthird : (∃ j, (List.finRange maxLen).find? (t.vacant times (t.swept times pGrpId dev)) =
      some j ∧ t.memberList j ≠ []) ↔ t.memberList i ≠ [] := by
    constructor
    · rintro ⟨j, hj, hne⟩
      rwa [Option.some.inj (hi.symm.trans hj)]
    · intro hne
      exact ⟨i, hi, hne⟩
  rw [Room, hthird, and_iff_right hnone, ← or_assoc, h.free_iff]
  by_cases hgone : i ∈ t.swept times pGrpId dev
  · have hdead : ¬ t'.live i := fun hl => ((h.live_iff i).mp hl).2 hgone
    rw [h.inv.2.blank i hdead]
    constructor
    · rintro (hor | hne)
      · exact Or.inl hor
      · exact Or.inl (Or.inr ⟨i, hgone, hne⟩)
    · rintro (hor | hne)
      · exact Or.inl hor
      · exact absurd rfl hne
  · rw [h.members i hgone]

theorem insertEntry_spec (h : t.Inv) (times : Times c) (pGrpId : Addr) (dev : ℕ)
    (pMemberAddr : Option Addr) (type : EntryType) :
    ∃ t' b, t.insertEntry times pGrpId dev pMemberAddr type = some (t', b) ∧ t'.Inv ∧
      (b = true → ∀ a, pMemberAddr = some a →
        (t'.HasMember pGrpId dev a ↔ t.Room times pGrpId dev)) := by
  by_cases hfull : maxLen ≤ t.size.toNat
  · exact ⟨t, false, if_pos hfull, h, (by rintro ⟨⟩)⟩
  obtain ⟨⟨lists, hshape⟩, htidy⟩ := h
  obtain ⟨t₁, r, hlookup, hlooked⟩ := lookup_spec hshape htidy times pGrpId dev
  have hgone : ∀ i ∈ t.sweep times pGrpId dev (lists (hashIndex pGrpId)),
      t.isFor pGrpId dev i = false := fun i hi => sweep_isFor _ _ _ hi
  rw [← hshape.swept_eq] at hlooked hgone
  rw [insertEntry, if_neg hfull, hlookup, Option.bind_some]
  obtain ⟨⟨lists₁, hshape₁⟩, htidy₁⟩ := hlooked.inv
  cases r with
  | some i =>
    obtain ⟨hi, hfor⟩ := hlooked.found i rfl
    cases pMemberAddr with
    | none => exact ⟨t₁, false, rfl, hlooked.inv, (by rintro ⟨⟩)⟩
    | some a =>
      cases hmember : t₁.member i a with
      | some b =>
        refine ⟨t₁, false, ?_, hlooked.inv, (by rintro ⟨⟩)⟩
        simp only [hmember, Option.isSome_some, if_true]
      | none =>
        have hshape₂ := insertIgmpMember_shape hshape₁ i a
        have htidy₂ := insertIgmpMember_tidy htidy₁ hi hmember
        have hcontent := insertIgmpMember_content t₁ i a
        refine ⟨t₁.insertIgmpMember i a, true, ?_, ⟨⟨lists₁, hshape₂⟩, htidy₂⟩, ?_⟩
        · simp only [hmember, Option.isSome_none, Bool.false_eq_true, if_false]
        intro _ a' ha
        cases ha
        have hi₂ : (t₁.insertIgmpMember i a).live i := by
          rw [live, data, hcontent]
          exact hi
        have hfor₂ : (t₁.insertIgmpMember i a).isFor pGrpId dev i = true := by
          rw [isFor, hcontent]
          exact hfor
        have hold : t.live i ∧ t.isFor pGrpId dev i = true := by
          obtain ⟨hlive, hout⟩ := (hlooked.live_iff i).mp hi
          rw [← hlooked.isFor i hout]
          exact ⟨hlive, hfor⟩
        have hsome : ¬ ∀ j, t.live j → t.isFor pGrpId dev j = false := by
          intro hnone
          rw [hnone i hold.1] at hold
          exact Bool.false_ne_true hold.2
        rw [htidy₂.hasMember_iff hi₂ hfor₂ rfl, insertIgmpMember_member hmember, hlooked.free_iff,
          Room]
        simp only [hsome, false_and, or_false]
  | none =>
    have hsize := Nat.lt_of_le_of_lt hlooked.size_le (Nat.lt_of_not_le hfull)
    obtain ⟨i, hi⟩ := exists_vacant times htidy₁ hsize
    obtain ⟨t₂, ⟨lists₂, hshape₂⟩, htidy₂, hdead, hdata, hfree, hsearch⟩ :=
      searchLoop_spec pGrpId dev pMemberAddr type hshape₁ htidy₁ hi
    have hnone : ∀ j, t₂.live j → t₂.isFor pGrpId dev j = false := by
      intro j hj
      have hji : j ≠ i := by
        rintro rfl
        exact hdead hj
      rw [isFor_congr (hdata j hji)]
      rw [live, hdata j hji] at hj
      exact hlooked.missing rfl j hj
    obtain ⟨t₃, hadd, hinv, hhas⟩ := fill_spec times pMemberAddr type hshape₂ htidy₂ hdead hnone
    refine ⟨t₃, true, ?_, hinv, ?_⟩
    · simp only [hsearch, Option.bind_some, Option.getD_some, hadd, Option.map_some]
    · intro _ a ha
      rw [hhas a ha, hlooked.room_iff hgone hi, hfree, ne_eq, List.append_eq_nil_iff, not_and_or]

theorem step_inv (h : t.Inv) (call : Call c) : ∃ t', t.step call = some t' ∧ t'.Inv := by
  cases call with
  | insert times pGrpId pMemberAddr dev type =>
    obtain ⟨t', b, heq, hinv, -⟩ := insertEntry_spec h times pGrpId dev pMemberAddr type
    refine ⟨t', ?_, hinv⟩
    rw [step, heq, Option.map_some]
  | delete pGrpId pMemberAddr dev => exact deleteEntry_spec h pGrpId dev pMemberAddr
  | lookup times pGrpId dev =>
    obtain ⟨⟨lists, hshape⟩, htidy⟩ := h
    obtain ⟨t', r, heq, hlooked⟩ := lookup_spec hshape htidy times pGrpId dev
    refine ⟨t', ?_, hlooked.inv⟩
    rw [step, heq, Option.map_some]
  | groupDelMembers pMemberAddr dev => exact igmpGroupDelMembers_spec h pMemberAddr dev

theorem init_inv : init.Inv := by
  constructor
  · refine ⟨fun _ => [], ⟨?_, fun _ => List.nodup_nil⟩, fun _ => rfl⟩
    intro b i
    constructor
    · intro hi
      cases hi
    · rintro ⟨hi, -⟩
      cases hi
  · constructor
    · decide
    · intro i j hi
      cases hi
    · intro b
      have hlists : ∑ i, (init.memberList i).count b = 0 := Finset.sum_eq_zero fun _ _ => rfl
      rw [hlists, Nat.add_zero]
      exact List.count_eq_one_of_mem (List.nodup_finRange _) (List.mem_finRange b)
    · intro _ _
      rfl
    · intro _
      exact List.Pairwise.nil

end Insertion

/-- What holds of the table whatever was called. -/
structure Consistent (t : McastTab) : Prop where
  size : t.size.toNat = (Finset.univ.filter fun i => (t.content i).valid = true).card
  chains : ∀ h, ∃ l, Linked t.next (t.hash h) l ∧ l.Nodup ∧
    ∀ i, i ∈ l ↔ (t.content i).valid = true ∧ hashIndex (t.content i).addr = h
  distinct : ∀ i j, (t.content i).valid = true → (t.content j).valid = true →
    (t.content i).addr = (t.content j).addr → (t.content i).netDev = (t.content j).netDev → i = j
  once : ∀ i, ((t.memberList i).map t.memberAddr).Nodup
  housed : Housed t.freeEntryList t.memberList
  blank : ∀ i, (t.content i).valid = false → t.memberList i = []

theorem Inv.consistent {t : McastTab} (h : t.Inv) : t.Consistent := by
  obtain ⟨⟨lists, hshape⟩, htidy⟩ := h
  constructor
  · exact htidy.size
  · intro b
    exact ⟨lists b, hshape.chained b, hshape.filed.nodup b, hshape.filed.mem b⟩
  · exact htidy.distinct
  · intro i
    rw [List.Nodup, List.pairwise_map]
    exact htidy.once i
  · exact htidy.housed
  · intro i hi
    exact htidy.blank i (Bool.eq_false_iff.mp hi)

/-- After any calls the table is consistent, and an insertion that then succeeds has inserted the
member exactly when there was room. -/
theorem insertEntry_hasMember_iff {c : Clock} (calls : List (Call c)) :
    ∃ t, calls.foldlM step init = some t ∧ t.Consistent ∧
      ∀ (times : Times c) (pGrpId pMemberAddr : Addr) (dev : ℕ) (type : EntryType),
        ∃ t' b, t.insertEntry times pGrpId dev (some pMemberAddr) type = some (t', b) ∧
          t'.Consistent ∧
          (b = true → (t'.HasMember pGrpId dev pMemberAddr ↔ t.Room times pGrpId dev)) := by
  obtain ⟨t, heq, hinv⟩ := foldlM_invariant Inv (fun _ e h => step_inv h e) calls init_inv
  refine ⟨t, heq, hinv.consistent, ?_⟩
  intro times pGrpId pMemberAddr dev type
  obtain ⟨t', b, hinsert, hinv', hhas⟩ := insertEntry_spec hinv times pGrpId dev _ type
  exact ⟨t', b, hinsert, hinv'.consistent, fun hb => hhas hb pMemberAddr rfl⟩

section Exhausted

def memberNumber (n : ℕ) : Addr := localAddr (UInt8.ofNat n)

def group : Addr := #v[0x01, 0x00, 0x5e, 1, 2, 3]

def clock : Clock := ⟨32, 100⟩

def start : Times clock := ⟨fun _ => 0, fun _ => 0, 0⟩

instance (t : McastTab) (pGrpId : Addr) (dev : ℕ) (pMemberAddr : Addr) :
    Decidable (t.HasMember pGrpId dev pMemberAddr) :=
  inferInstanceAs (Decidable (∃ i, t.live i ∧ t.isFor pGrpId dev i = true ∧
    (t.member i pMemberAddr).isSome = true))

def pool : List (Call clock) :=
  (List.range poolSize).map fun n => .insert start group (some (memberNumber n)) 1 .dynamic

set_option maxRecDepth 100000 in
/-- The member after as many as there are blocks is reported as inserted and is not in the group. -/
theorem member_after_pool : ((pool.foldlM step init).bind fun t =>
    (t.insertEntry start group 1 (some (memberNumber poolSize)) .dynamic).map fun (t', b) =>
      (b, decide (t'.HasMember group 1 (memberNumber poolSize)))) = some (true, false) := by
  decide +kernel

end Exhausted

end Rt5572.McastTab
