import Mathlib.Tactic
import Mathlib.Data.List.Basic

/-! The list of stations (sta.c): keyed by mac_id when a station is put in or taken out, by
MAC address when one is looked up. -/
namespace R92su

abbrev MacAddr : Type := BitVec 48

/-- `struct r92su_sta`; `id` tells the allocations apart, as the pointer does. -/
structure Sta where
  id : ℕ
  macAddr : MacAddr
  macId : ℕ
  aid : ℕ
  deriving DecidableEq, Repr

/-- `sta_list` and `sta_num`; `nextId` numbers the allocations. -/
structure StaList where
  list : List Sta
  staNum : ℕ
  nextId : ℕ
  deriving DecidableEq, Repr

namespace StaList

def empty : StaList := ⟨[], 0, 0⟩

def staGet (s : StaList) (macAddr : MacAddr) : Option Sta :=
  s.list.find? fun sta => sta.macAddr == macAddr

def staGetByMacid (s : StaList) (macId : ℕ) : Option Sta :=
  s.list.find? fun sta => sta.macId == macId

def staDel (s : StaList) (macId : ℕ) : StaList :=
  match s.staGetByMacid macId with
  | none => s
  | some _ => { s with
      list := s.list.eraseP fun sta => sta.macId == macId, staNum := s.staNum - 1 }

/-- A new station is put at the head of the list. -/
def staAdd (s : StaList) (macAddr : MacAddr) (macId aid : ℕ) : StaList where
  list := ⟨s.nextId, macAddr, macId, aid⟩ :: s.list
  staNum := s.staNum + 1
  nextId := s.nextId + 1

/-- `r92su_sta_alloc` once memory is found; the new station is `nextId`. -/
def staAlloc (s : StaList) (macAddr : MacAddr) (macId aid : ℕ) : StaList :=
  (s.staDel macId).staAdd macAddr macId aid

/-- Counted rightly, no two stations with one mac_id, allocations numbered below `nextId`. -/
structure Counted (s : StaList) : Prop where
  staNum : s.staNum = s.list.length
  macIds : (s.list.map Sta.macId).Nodup
  ids : ∀ sta ∈ s.list, sta.id < s.nextId

/-- No two stations have one MAC address. -/
def Distinct (s : StaList) : Prop := (s.list.map Sta.macAddr).Nodup

theorem counted_empty : Counted empty := ⟨rfl, List.nodup_nil, by simp [empty]⟩

theorem staDel_list {s : StaList} (macId : ℕ) :
    (s.staDel macId).list = s.list.eraseP fun sta => sta.macId == macId := by
  unfold staDel
  cases h : s.staGetByMacid macId with
  | some _ => rfl
  | none =>
    have hnone := List.find?_eq_none.mp h
    exact (List.eraseP_of_forall_not hnone).symm

theorem staDel_nextId {s : StaList} (macId : ℕ) : (s.staDel macId).nextId = s.nextId := by
  unfold staDel
  cases s.staGetByMacid macId <;> rfl

theorem staDel_sublist {s : StaList} (macId : ℕ) : (s.staDel macId).list.Sublist s.list := by
  rw [staDel_list]
  exact List.eraseP_sublist

theorem Distinct.staDel {s : StaList} (h : s.Distinct) (macId : ℕ) : (s.staDel macId).Distinct :=
  ((staDel_sublist macId).map _).nodup h

theorem mem_eraseP {l : List Sta} (hn : (l.map Sta.macId).Nodup) {macId : ℕ} {sta : Sta} :
    (sta ∈ l.eraseP fun x => x.macId == macId) ↔ sta ∈ l ∧ sta.macId ≠ macId := by
  induction l with
  | nil => simp
  | cons a l ih =>
    rw [List.map_cons, List.nodup_cons] at hn
    obtain ⟨hnotin, hn⟩ := hn
    by_cases ha : a.macId = macId
    · rw [List.eraseP_cons_of_pos (by simpa using ha)]
      constructor
      · intro hm
        refine ⟨List.mem_cons_of_mem _ hm, ?_⟩
        rintro rfl
        exact hnotin (ha ▸ List.mem_map_of_mem hm)
      · rintro ⟨hm, hne⟩
        rcases List.mem_cons.mp hm with rfl | hm
        · exact absurd ha hne
        · exact hm
    · rw [List.eraseP_cons_of_neg (by simpa using ha), List.mem_cons, List.mem_cons]
      constructor
      · rintro (rfl | hm)
        · exact ⟨Or.inl rfl, ha⟩
        · obtain ⟨hm, hne⟩ := (ih hn).mp hm
          exact ⟨Or.inr hm, hne⟩
      · rintro ⟨rfl | hm, hne⟩
        · exact Or.inl rfl
        · exact Or.inr ((ih hn).mpr ⟨hm, hne⟩)

namespace Counted
variable {s : StaList} (h : s.Counted)
include h

theorem mem_staDel {macId : ℕ} {sta : Sta} :
    sta ∈ (s.staDel macId).list ↔ sta ∈ s.list ∧ sta.macId ≠ macId := by
  rw [staDel_list]
  exact mem_eraseP h.macIds

theorem staDel (macId : ℕ) : (s.staDel macId).Counted where
  staNum := by
    unfold StaList.staDel
    cases hg : s.staGetByMacid macId with
    | none => exact h.staNum
    | some sta =>
      have hmem := List.mem_of_find?_eq_some hg
      have hp := List.find?_some (p := fun x : Sta => x.macId == macId) hg
      simp only
      rw [List.length_eraseP_of_mem hmem hp, h.staNum]
  macIds := ((staDel_sublist macId).map _).nodup h.macIds
  ids := by
    intro sta hm
    rw [staDel_nextId]
    exact h.ids sta ((staDel_sublist macId).subset hm)

theorem staAlloc (macAddr : MacAddr) (macId aid : ℕ) : (s.staAlloc macAddr macId aid).Counted where
  staNum := by
    have hd := (h.staDel macId).staNum
    simp only [StaList.staAlloc, staAdd, List.length_cons, hd]
  macIds := by
    simp only [StaList.staAlloc, staAdd, List.map_cons, List.nodup_cons]
    refine ⟨?_, (h.staDel macId).macIds⟩
    intro hm
    obtain ⟨sta, hsta, heq⟩ := List.mem_map.mp hm
    exact (h.mem_staDel.mp hsta).2 heq
  ids := by
    intro sta hm
    rcases List.mem_cons.mp hm with rfl | hm
    · exact Nat.lt_succ_self _
    · exact Nat.lt_succ_of_lt ((h.staDel macId).ids sta hm)

/-- The addresses stay distinct when the address is new, or was under the same mac_id. -/
theorem distinct_staAlloc (hd : s.Distinct) {macAddr : MacAddr} {macId : ℕ}
    (hnew : ∀ sta ∈ s.list, sta.macAddr = macAddr → sta.macId = macId) (aid : ℕ) :
    (s.staAlloc macAddr macId aid).Distinct := by
  unfold Distinct
  simp only [StaList.staAlloc, staAdd, List.map_cons, List.nodup_cons]
  refine ⟨?_, hd.staDel macId⟩
  intro hm
  obtain ⟨sta, hsta, heq⟩ := List.mem_map.mp hm
  obtain ⟨hin, hne⟩ := h.mem_staDel.mp hsta
  exact hne (hnew sta hin heq)

end Counted

end StaList

end R92su
