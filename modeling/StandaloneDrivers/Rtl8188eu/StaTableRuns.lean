import StandaloneDrivers.Rtl8188eu.StaTable
import Mathlib.Data.Fintype.Card

/-! The table of stations over every sequence of its operations: each entry is free or hashed, the
search finds the entry held for an address, and no list of the access point refers to a free one. -/
namespace Rtl8188eu.StaTable
open Foundations
attribute [local instance] neZero_thirtyTwo

/-- What the table guarantees. -/
structure Sound (s : StaTable) : Prop where
  /-- An entry is either in the free list or in the chain of its address, and there once. -/
  placed : ∀ psta, (psta ∈ s.freeStaQueue ∧ ∀ i, psta ∉ s.staHash i) ∨
    (psta ∉ s.freeStaQueue ∧ ∀ i, psta ∈ s.staHash i ↔ i = hashIndex (s.hwaddr psta))
  once : s.freeStaQueue.Nodup ∧ ∀ i, (s.staHash i).Nodup
  counted : s.asocStaCount = (Finset.univ.filter fun psta => ∃ i, psta ∈ s.staHash i).card
  found : ∀ a psta, s.rtwGetStainfo (some a) = some psta ↔
    holder s.log psta = some (StaPriv.searched a)
  unreachable : ∀ psta ∈ s.freeStaQueue,
    psta ∉ s.asocList ∧ psta ∉ s.authList ∧ ∀ i, s.staAid i ≠ some psta

/-- An entry may be freed when it is in use, the list of associated stations does not contain it
and no association id but its own refers to it. -/
def Detached (s : StaTable) (psta : StaPtr) : Prop :=
  psta ∉ s.freeStaQueue ∧ psta ∉ s.asocList ∧
    ∀ i, s.staAid i = some psta → aidSlot (s.aid psta) = some i

/-- Entries are allocated for new addresses, and the entries that are freed are detached. -/
def Ok (s : StaTable) : Call → Prop
  | .alloc hwaddr => s.rtwGetStainfo (some hwaddr) = none
  | .free psta => ∀ e, psta = some e → s.Detached e
  | .freeAll => s.asocStaCount = 1 ∨
      ∀ e, e ∉ s.freeStaQueue → s.rtwGetBcmcStainfo ≠ some e → s.Detached e
  | _ => True

/-- What the operations preserve. -/
structure Inv (s : StaTable) : Prop where
  filed : Filed (fun psta => psta ∉ s.freeStaQueue) (fun psta => hashIndex (s.hwaddr psta)) s.staHash
  once : s.freeStaQueue.Nodup
  count : s.asocStaCount + s.freeStaQueue.length = numSta
  held : ∀ psta, holder s.log psta =
    if psta ∈ s.freeStaQueue then none else some (s.hwaddr psta)
  distinct : ∀ psta psta', psta ∉ s.freeStaQueue → psta' ∉ s.freeStaQueue →
    s.hwaddr psta = s.hwaddr psta' → StaPriv.searched (s.hwaddr psta) = s.hwaddr psta → psta = psta'
  auth : s.authList.Nodup ∧ s.authListCnt = s.authList.length
  asoc : s.asocList.Nodup ∧ s.asocListCnt = s.asocList.length
  unreachable : ∀ psta ∈ s.freeStaQueue,
    psta ∉ s.asocList ∧ psta ∉ s.authList ∧ ∀ i, s.staAid i ≠ some psta

theorem searched_searched (a : MacAddr) :
    StaPriv.searched (StaPriv.searched a) = StaPriv.searched a := by
  unfold StaPriv.searched
  by_cases ha : isMcast a = true
  · rw [if_pos ha, ite_self]
  · rw [if_neg ha, if_neg ha]

theorem Inv.found {s : StaTable} (h : s.Inv) (a : MacAddr) (psta : StaPtr) :
    s.rtwGetStainfo (some a) = some psta ↔
      psta ∉ s.freeStaQueue ∧ s.hwaddr psta = StaPriv.searched a := by
  apply h.filed.find_iff
  intro i j hi hj hik hjk
  apply h.distinct i j hi hj (hik.trans hjk.symm)
  rw [hik, searched_searched]

theorem Inv.sound {s : StaTable} (h : s.Inv) : s.Sound where
  placed := by
    intro psta
    by_cases hfree : psta ∈ s.freeStaQueue
    · left
      constructor
      · exact hfree
      · intro i hi
        exact ((h.filed.mem i psta).mp hi).1 hfree
    · right
      constructor
      · exact hfree
      · intro i
        rw [h.filed.mem, eq_comm]
        exact and_iff_right hfree
  once := ⟨h.once, h.filed.nodup⟩
  counted := by
    have hhashed : ∀ psta, (∃ i, psta ∈ s.staHash i) ↔ psta ∉ s.freeStaQueue := by
      intro psta
      constructor
      · rintro ⟨i, hi⟩
        exact ((h.filed.mem i psta).mp hi).1
      · intro hfree
        exact ⟨_, (h.filed.mem _ psta).mpr ⟨hfree, rfl⟩⟩
    have hset : (Finset.univ.filter fun psta => ∃ i, psta ∈ s.staHash i) =
        s.freeStaQueue.toFinsetᶜ := by
      ext psta
      rw [Finset.mem_filter, Finset.mem_compl, List.mem_toFinset, hhashed]
      exact and_iff_right (Finset.mem_univ psta)
    have hcard := Finset.card_add_card_compl s.freeStaQueue.toFinset
    rw [List.toFinset_card_of_nodup h.once, Fintype.card_fin] at hcard
    have hcount := h.count
    rw [hset]
    omega
  found := by
    intro a psta
    rw [h.found, h.held]
    by_cases hfree : psta ∈ s.freeStaQueue
    · rw [if_pos hfree]
      constructor
      · intro hfound
        exact absurd hfree hfound.1
      · intro hnone
        cases hnone
    · rw [if_neg hfree, Option.some.injEq]
      exact and_iff_right hfree
  unreachable := h.unreachable

theorem holder_append (log : List StaEvent) (event : StaEvent) :
    holder (log ++ [event]) = match event with
      | .allocated psta hwaddr => Function.update (holder log) psta (some hwaddr)
      | .freed psta => Function.update (holder log) psta none := by
  unfold holder
  rw [List.foldl_append]
  rfl

theorem init_inv : init.Inv where
  filed := by
    constructor
    · intro b i
      constructor
      · intro hi
        cases hi
      · intro hi
        exact absurd (List.mem_finRange i) hi.1
    · intro b
      exact List.nodup_nil
  once := List.nodup_finRange numSta
  count := by decide
  held := by
    intro psta
    exact (if_pos (List.mem_finRange psta)).symm
  distinct := by
    intro psta psta' hfree
    exact absurd (List.mem_finRange psta) hfree
  auth := ⟨List.nodup_nil, rfl⟩
  asoc := ⟨List.nodup_nil, rfl⟩
  unreachable := by
    intro psta _
    exact ⟨List.not_mem_nil, List.not_mem_nil, fun i hi => nomatch hi⟩

/-- The hash of an address is always in range, so no entry is lost. -/
theorem rtwAllocStainfo_cons {s : StaTable} {psta : StaPtr} {rest : List StaPtr}
    (hfree : s.freeStaQueue = psta :: rest) (hwaddr : MacAddr) :
    s.rtwAllocStainfo hwaddr = ({ s with
      freeStaQueue := rest
      hwaddr := Function.update s.hwaddr psta hwaddr
      aid := Function.update s.aid psta 0
      staHash := Function.update s.staHash (hashIndex hwaddr)
        (s.staHash (hashIndex hwaddr) ++ [psta])
      asocStaCount := s.asocStaCount + 1
      log := s.log ++ [.allocated psta hwaddr] }, some psta) := by
  simp only [rtwAllocStainfo, hfree, dif_pos (wifiMacHash_lt hwaddr)]
  rfl

theorem rtwAllocStainfo_nil {s : StaTable} (hfree : s.freeStaQueue = []) (hwaddr : MacAddr) :
    s.rtwAllocStainfo hwaddr = (s, none) := by
  simp only [rtwAllocStainfo, hfree]

/-- An entry is allocated for an address that the search does not find. -/
theorem Inv.alloc {s : StaTable} (h : s.Inv) {a : MacAddr}
    (hnew : s.rtwGetStainfo (some a) = none) {psta : StaPtr} {rest : List StaPtr}
    (hfree : s.freeStaQueue = psta :: rest) : (s.rtwAllocStainfo a).1.Inv := by
  have hnodup := h.once
  rw [hfree, List.nodup_cons] at hnodup
  have hpsta : psta ∈ s.freeStaQueue := hfree ▸ List.mem_cons_self
  have hlive : ∀ i, i ∉ rest ↔ i ∉ s.freeStaQueue ∨ i = psta := by
    intro i
    rw [hfree, List.mem_cons, not_or]
    by_cases hi : i = psta
    · rw [hi]
      exact ⟨fun _ => Or.inr rfl, fun _ => hnodup.1⟩
    · exact ⟨fun hrest => Or.inl ⟨hi, hrest⟩, fun hor => (hor.resolve_right hi).2⟩
  have hkeep : ∀ i, i ∉ s.freeStaQueue → Function.update s.hwaddr psta a i = s.hwaddr i := by
    intro i hi
    apply Function.update_of_ne
    rintro rfl
    exact hi hpsta
  have habsent : ∀ i, i ∉ s.freeStaQueue → s.hwaddr i ≠ StaPriv.searched a := by
    intro i hi haddr
    rw [(h.found a i).mpr ⟨hi, haddr⟩] at hnew
    cases hnew
  rw [rtwAllocStainfo_cons hfree]
  constructor
  · apply h.filed.append (not_not.mpr hpsta) hlive
    · intro i hi
      exact congrArg hashIndex (hkeep i hi)
    · exact congrArg hashIndex (Function.update_self psta a s.hwaddr)
  · exact hnodup.2
  · have hcount := h.count
    rw [hfree, List.length_cons, Int.natCast_succ, ← Int.add_assoc, Int.add_right_comm] at hcount
    exact hcount
  · intro i
    rw [holder_append]
    by_cases hi : i = psta
    · subst hi
      simp only [Function.update_self, if_neg hnodup.1]
    · have hmem : i ∈ s.freeStaQueue ↔ i ∈ rest := by
        rw [hfree, List.mem_cons]
        exact or_iff_right hi
      simp only [Function.update_of_ne hi, h.held, hmem]
  · intro i j hi hj heq hsearched
    by_cases hip : i = psta
    · by_cases hjp : j = psta
      · rw [hip, hjp]
      · have hj' := ((hlive j).mp hj).resolve_right hjp
        simp only [hip, Function.update_self, Function.update_of_ne hjp] at heq hsearched
        exact absurd (heq.symm.trans hsearched.symm) (habsent j hj')
    · have hi' := ((hlive i).mp hi).resolve_right hip
      by_cases hjp : j = psta
      · simp only [hjp, Function.update_self, Function.update_of_ne hip] at heq hsearched
        rw [heq] at hsearched
        exact absurd (heq.trans hsearched.symm) (habsent i hi')
      · simp only [Function.update_of_ne hip, Function.update_of_ne hjp] at heq hsearched
        exact h.distinct i j hi' (((hlive j).mp hj).resolve_right hjp) heq hsearched
  · exact h.auth
  · exact h.asoc
  · intro i hi
    exact h.unreachable i (hfree ▸ List.mem_cons_of_mem _ hi)

theorem start_inv : start.Inv := by
  have hfree : init.freeStaQueue = 0 :: (List.finRange numSta).tail := by decide
  exact init_inv.alloc rfl hfree

/-- The lists of the access point may change as long as they refer to entries in use. -/
theorem Inv.lists {s : StaTable} (h : s.Inv) {asoc auth : List StaPtr} {asocCnt authCnt : ℕ}
    {staAid : Fin numSta → Option StaPtr} (aid : StaPtr → ℕ) (maxNumSta : ℕ)
    (hasoc : asoc.Nodup ∧ asocCnt = asoc.length) (hauth : auth.Nodup ∧ authCnt = auth.length)
    (hunreachable : ∀ psta ∈ s.freeStaQueue,
      psta ∉ asoc ∧ psta ∉ auth ∧ ∀ i, staAid i ≠ some psta) :
    Inv { s with
      asocList := asoc
      asocListCnt := asocCnt
      authList := auth
      authListCnt := authCnt
      staAid := staAid
      aid := aid
      maxNumSta := maxNumSta } :=
  ⟨h.filed, h.once, h.count, h.held, h.distinct, hauth, hasoc, hunreachable⟩

theorem nodup_erase_length {l : List StaPtr} {n : ℕ} {psta : StaPtr} (h : l.Nodup ∧ n = l.length)
    (hmem : psta ∈ l) : (l.erase psta).Nodup ∧ n - 1 = (l.erase psta).length := by
  constructor
  · exact h.1.erase psta
  · rw [List.length_erase_of_mem hmem, h.2]

theorem nodup_append_length {l : List StaPtr} {n : ℕ} {psta : StaPtr} (h : l.Nodup ∧ n = l.length)
    (hmem : psta ∉ l) : (l ++ [psta]).Nodup ∧ n + 1 = (l ++ [psta]).length := by
  constructor
  · apply h.1.append (List.nodup_singleton psta)
    intro i hi hip
    exact hmem (List.mem_singleton.mp hip ▸ hi)
  · rw [List.length_append, h.2]
    rfl

theorem Inv.unlinkAuth {s : StaTable} (h : s.Inv) (psta : StaPtr) : (s.unlinkAuth psta).Inv := by
  unfold StaTable.unlinkAuth
  split
  next hmem =>
    apply h.lists s.aid s.maxNumSta h.asoc (nodup_erase_length h.auth hmem)
    intro e he
    obtain ⟨hasoc, hauth, haid⟩ := h.unreachable e he
    exact ⟨hasoc, fun hin => hauth (List.mem_of_mem_erase hin), haid⟩
  next => exact h

theorem Inv.unlinkAsoc {s : StaTable} (h : s.Inv) (psta : StaPtr) : (s.unlinkAsoc psta).Inv := by
  unfold StaTable.unlinkAsoc
  split
  next hmem =>
    apply h.lists s.aid s.maxNumSta (nodup_erase_length h.asoc hmem) h.auth
    intro e he
    obtain ⟨hasoc, hauth, haid⟩ := h.unreachable e he
    exact ⟨fun hin => hasoc (List.mem_of_mem_erase hin), hauth, haid⟩
  next => exact h

theorem Inv.linkAuth {s : StaTable} (h : s.Inv) {psta : StaPtr} (hin : psta ∉ s.freeStaQueue) :
    (s.linkAuth psta).Inv := by
  unfold StaTable.linkAuth
  split
  next => exact h
  next hmem =>
    apply h.lists s.aid s.maxNumSta h.asoc (nodup_append_length h.auth hmem)
    intro e he
    obtain ⟨hasoc, hauth, haid⟩ := h.unreachable e he
    have hne : e ≠ psta := fun heq => hin (heq ▸ he)
    exact ⟨hasoc, by simp [hauth, hne], haid⟩

theorem Inv.linkAsoc {s : StaTable} (h : s.Inv) {psta : StaPtr} (hin : psta ∉ s.freeStaQueue) :
    (s.linkAsoc psta).Inv := by
  unfold StaTable.linkAsoc
  split
  next => exact h
  next hmem =>
    apply h.lists s.aid s.maxNumSta (nodup_append_length h.asoc hmem) h.auth
    intro e he
    obtain ⟨hasoc, hauth, haid⟩ := h.unreachable e he
    have hne : e ≠ psta := fun heq => hin (heq ▸ he)
    exact ⟨by simp [hasoc, hne], hauth, haid⟩

theorem unlinkAuth_freeStaQueue (s : StaTable) (psta : StaPtr) :
    (s.unlinkAuth psta).freeStaQueue = s.freeStaQueue := by
  unfold StaTable.unlinkAuth
  split <;> rfl

theorem unlinkAsoc_freeStaQueue (s : StaTable) (psta : StaPtr) :
    (s.unlinkAsoc psta).freeStaQueue = s.freeStaQueue := by
  unfold StaTable.unlinkAsoc
  split <;> rfl

/-- The table after an entry was given back. -/
theorem rtwFreeStainfo_some (s : StaTable) (psta : StaPtr) : ∃ staAid aid,
    (∀ i e, staAid i = some e → s.staAid i = some e ∧
      ¬ (e = psta ∧ aidSlot (s.aid psta) = some i)) ∧ (∀ e, e ≠ psta → aid e = s.aid e) ∧
    s.rtwFreeStainfo (some psta) = { s with
      freeStaQueue := s.freeStaQueue ++ [psta]
      staHash := Function.update s.staHash (hashIndex (s.hwaddr psta))
        ((s.staHash (hashIndex (s.hwaddr psta))).erase psta)
      asocStaCount := s.asocStaCount - 1
      authList := s.authList.erase psta
      authListCnt := if psta ∈ s.authList then s.authListCnt - 1 else s.authListCnt
      staAid := staAid
      aid := aid
      log := s.log ++ [.freed psta] } := by
  have hunlink : (s.unhash psta).unlinkAuth psta = { s.unhash psta with
      authList := s.authList.erase psta
      authListCnt := if psta ∈ s.authList then s.authListCnt - 1 else s.authListCnt } := by
    unfold StaTable.unlinkAuth
    by_cases hmem : psta ∈ (s.unhash psta).authList
    · have hmem' : psta ∈ s.authList := hmem
      rw [if_pos hmem, if_pos hmem']
      rfl
    · have hmem' : psta ∉ s.authList := hmem
      rw [if_neg hmem, if_neg hmem', List.erase_of_not_mem hmem']
      rfl
  have haid : (s.unhash psta).aid = s.aid := rfl
  cases hslot : aidSlot (s.aid psta) with
  | none =>
    refine ⟨s.staAid, s.aid, fun i e hi => ⟨hi, fun hself => nomatch hself.2⟩, fun e _ => rfl, ?_⟩
    simp only [rtwFreeStainfo, hunlink, releaseAid, haid, hslot]
    rfl
  | some i =>
    by_cases hi : s.staAid i = some psta
    · refine ⟨Function.update s.staAid i none, Function.update s.aid psta 0, ?_, ?_, ?_⟩
      · intro j e hj
        by_cases hji : j = i
        · rw [hji, Function.update_self] at hj
          cases hj
        · rw [Function.update_of_ne hji] at hj
          constructor
          · exact hj
          · rintro ⟨-, heq⟩
            exact hji (Option.some.inj heq).symm
      · intro e he
        exact Function.update_of_ne he 0 s.aid
      · have hslot' : (s.unhash psta).staAid i = some psta := hi
        simp only [rtwFreeStainfo, hunlink, releaseAid, haid, hslot, if_pos hslot']
        rfl
    · refine ⟨s.staAid, s.aid, ?_, fun e _ => rfl, ?_⟩
      · intro j e hj
        constructor
        · exact hj
        · rintro ⟨rfl, heq⟩
          rw [Option.some.inj heq] at hi
          exact hi hj
      · have hslot' : ¬ (s.unhash psta).staAid i = some psta := hi
        simp only [rtwFreeStainfo, hunlink, releaseAid, haid, hslot, if_neg hslot']
        rfl

/-- A detached entry may be freed. -/
theorem Inv.free {s : StaTable} (h : s.Inv) {psta : StaPtr} (hd : s.Detached psta) :
    (s.rtwFreeStainfo (some psta)).Inv := by
  obtain ⟨hin, hasoc, haids⟩ := hd
  obtain ⟨staAid, aid, hstaAid, haid, heq⟩ := s.rtwFreeStainfo_some psta
  have hmem : psta ∈ s.staHash (hashIndex (s.hwaddr psta)) :=
    (h.filed.mem _ psta).mpr ⟨hin, rfl⟩
  have hlive : ∀ i, i ∉ s.freeStaQueue ++ [psta] ↔ i ∉ s.freeStaQueue ∧ i ≠ psta := by
    intro i
    rw [List.mem_append, not_or, List.mem_singleton]
  rw [heq]
  constructor
  · apply h.filed.erase rfl hlive
    intro i _
    rfl
  · apply h.once.append (List.nodup_singleton psta)
    intro i hi hip
    exact hin (List.mem_singleton.mp hip ▸ hi)
  · have hcount := h.count
    show s.asocStaCount - 1 + ((s.freeStaQueue ++ [psta]).length : ℤ) = numSta
    rw [List.length_append, List.length_singleton, ← hcount, Int.natCast_succ]
    omega
  · intro i
    rw [holder_append]
    by_cases hi : i = psta
    · subst hi
      simp only [Function.update_self, List.mem_append, List.mem_singleton, or_true, if_pos]
    · have hmem : i ∈ s.freeStaQueue ++ [psta] ↔ i ∈ s.freeStaQueue := by
        rw [List.mem_append, List.mem_singleton]
        exact or_iff_left hi
      simp only [Function.update_of_ne hi, h.held, hmem]
  · intro i j hi hj
    exact h.distinct i j ((hlive i).mp hi).1 ((hlive j).mp hj).1
  · show (s.authList.erase psta).Nodup ∧ _ = (s.authList.erase psta).length
    by_cases hauth : psta ∈ s.authList
    · rw [if_pos hauth]
      exact nodup_erase_length h.auth hauth
    · rw [if_neg hauth, List.erase_of_not_mem hauth]
      exact h.auth
  · exact h.asoc
  · intro e he
    rcases List.mem_append.mp he with hfree | hself
    · obtain ⟨hasoc', hauth', haid'⟩ := h.unreachable e hfree
      refine ⟨hasoc', fun hauth => hauth' (List.mem_of_mem_erase hauth), fun i hi => ?_⟩
      exact haid' i (hstaAid i e hi).1
    · obtain rfl := List.mem_singleton.mp hself
      refine ⟨hasoc, fun hauth => ?_, fun i hi => ?_⟩
      · exact (h.auth.1.mem_erase_iff.mp hauth).1 rfl
      · obtain ⟨hold, hother⟩ := hstaAid i e hi
        exact hother ⟨rfl, haids i hold⟩

theorem rtwFreeStainfo_freeStaQueue (s : StaTable) (psta : StaPtr) :
    (s.rtwFreeStainfo (some psta)).freeStaQueue = s.freeStaQueue ++ [psta] := by
  obtain ⟨staAid, aid, -, -, heq⟩ := s.rtwFreeStainfo_some psta
  rw [heq]

/-- The other entries stay detached. -/
theorem Detached.free {s : StaTable} {e psta : StaPtr} (hd : s.Detached e) (hne : e ≠ psta) :
    (s.rtwFreeStainfo (some psta)).Detached e := by
  obtain ⟨hin, hasoc, haids⟩ := hd
  obtain ⟨staAid, aid, hstaAid, haid, heq⟩ := s.rtwFreeStainfo_some psta
  rw [heq]
  refine ⟨by simp [hin, hne], hasoc, fun i hi => ?_⟩
  have hself := haids i (hstaAid i e hi).1
  rwa [← haid e hne] at hself

/-- A chain is freed, but for the broadcast entry. -/
theorem Inv.freeChain (pbcmc : Option StaPtr) {s : StaTable} (h : s.Inv) {l : List StaPtr}
    (hl : l.Nodup) (hin : ∀ e ∈ l, e ∉ s.freeStaQueue)
    (hd : ∀ e, e ∉ s.freeStaQueue → pbcmc ≠ some e → s.Detached e) :
    let s' := l.foldl (fun s psta =>
      if pbcmc ≠ some psta then s.rtwFreeStainfo (some psta) else s) s
    s'.Inv ∧ ∀ e, e ∉ s'.freeStaQueue → pbcmc ≠ some e → s'.Detached e := by
  induction l generalizing s with
  | nil => exact ⟨h, hd⟩
  | cons psta l ih =>
    obtain ⟨hpsta, htail⟩ := List.nodup_cons.mp hl
    rw [List.foldl_cons]
    by_cases hp : pbcmc ≠ some psta
    · rw [if_pos hp]
      apply ih (h.free (hd psta (hin psta List.mem_cons_self) hp)) htail
      · intro e he
        rw [rtwFreeStainfo_freeStaQueue, List.mem_append, List.mem_singleton, not_or]
        constructor
        · exact hin e (List.mem_cons_of_mem _ he)
        · rintro rfl
          exact hpsta he
      · intro e he hne
        rw [rtwFreeStainfo_freeStaQueue, List.mem_append, List.mem_singleton, not_or] at he
        exact (hd e he.1 hne).free he.2
    · rw [if_neg hp]
      exact ih h htail (fun e he => hin e (List.mem_cons_of_mem _ he)) hd

theorem Inv.freeAll {s : StaTable} (h : s.Inv) (hok : s.Ok .freeAll) :
    s.rtwFreeAllStainfo.Inv := by
  unfold rtwFreeAllStainfo
  by_cases hcount : s.asocStaCount = 1
  · simp only [if_pos hcount]
    exact h
  simp only [if_neg hcount]
  have hdetached := hok.resolve_left hcount
  generalize s.rtwGetBcmcStainfo = pbcmc at hdetached ⊢
  have hchains : ∀ (chains : List (Fin numSta)) (s : StaTable), s.Inv →
      (∀ e, e ∉ s.freeStaQueue → pbcmc ≠ some e → s.Detached e) →
      (chains.foldl (fun s index => (s.staHash index).foldl (fun s psta =>
        if pbcmc ≠ some psta then s.rtwFreeStainfo (some psta) else s) s) s).Inv := by
    intro chains
    induction chains with
    | nil =>
      intro s h _
      exact h
    | cons index chains ih =>
      intro s h hd
      have hin : ∀ e ∈ s.staHash index, e ∉ s.freeStaQueue :=
        fun e he => ((h.filed.mem index e).mp he).1
      obtain ⟨hfreed, hd'⟩ := h.freeChain pbcmc (h.filed.nodup index) hin hd
      exact ih _ hfreed hd'
  exact hchains _ s h hdetached

theorem Inv.auth_step {s : StaTable} (h : s.Inv) (sa : MacAddr) : (s.onAuth sa).Inv := by
  unfold onAuth
  cases hfound : s.rtwGetStainfo (some sa) with
  | some pstat =>
    apply (h.unlinkAsoc pstat).linkAuth
    rw [unlinkAsoc_freeStaQueue]
    exact ((h.found sa pstat).mp hfound).1
  | none =>
    cases hfree : s.freeStaQueue with
    | nil =>
      rw [rtwAllocStainfo_nil hfree]
      exact h
    | cons pstat rest =>
      have halloc := h.alloc hfound hfree
      rw [rtwAllocStainfo_cons hfree] at halloc ⊢
      apply halloc.linkAuth
      have hnodup := h.once
      rw [hfree] at hnodup
      exact (List.nodup_cons.mp hnodup).1

theorem Inv.assocReq {s : StaTable} (h : s.Inv) (sa : MacAddr) (accepted : Bool) :
    (s.onAssocReq sa accepted).Inv := by
  unfold onAssocReq
  cases hfound : s.rtwGetStainfo (some sa) with
  | none => exact h
  | some pstat =>
    have hin := ((h.found sa pstat).mp hfound).1
    have hjoin : ∀ s' : StaTable, s'.Inv → s'.freeStaQueue = s.freeStaQueue →
        ((s'.unlinkAuth pstat).linkAsoc pstat).Inv := by
      intro s' hs' hfree
      apply (hs'.unlinkAuth pstat).linkAsoc
      rwa [unlinkAuth_freeStaQueue, hfree]
    have hclear := h.lists (Function.update s.aid pstat 0) s.maxNumSta h.asoc h.auth h.unreachable
    cases accepted with
    | false => exact hclear
    | true =>
      by_cases haid : 0 < s.aid pstat
      · simp only [Bool.not_true, Bool.false_eq_true, if_false, if_pos haid]
        exact hjoin s h rfl
      · by_cases hmax : s.maxNumSta < s.firstAid
        · simp only [Bool.not_true, Bool.false_eq_true, if_false, if_neg haid, if_pos hmax]
          exact hclear
        · simp only [Bool.not_true, Bool.false_eq_true, if_false, if_neg haid, if_neg hmax]
          have hset := h.lists (Function.update s.aid pstat s.firstAid) s.maxNumSta h.asoc h.auth
            h.unreachable
          cases hslot : aidSlot s.firstAid with
          | none => exact hjoin _ hset rfl
          | some i =>
            have hslots : ∀ e ∈ s.freeStaQueue, e ∉ s.asocList ∧ e ∉ s.authList ∧
                ∀ j, Function.update s.staAid i (some pstat) j ≠ some e := by
              intro e he
              obtain ⟨hasoc, hauth, haids⟩ := h.unreachable e he
              refine ⟨hasoc, hauth, fun j hj => ?_⟩
              by_cases hji : j = i
              · rw [hji, Function.update_self] at hj
                rw [Option.some.inj hj] at hin
                exact hin he
              · rw [Function.update_of_ne hji] at hj
                exact haids j hj
            exact hjoin _ (h.lists (Function.update s.aid pstat s.firstAid) s.maxNumSta h.asoc
              h.auth hslots) rfl

theorem Inv.step {s : StaTable} (h : s.Inv) {call : Call} (hok : s.Ok call) :
    (s.step call).Inv := by
  cases call with
  | alloc hwaddr =>
    cases hfree : s.freeStaQueue with
    | nil =>
      rw [StaTable.step, rtwAllocStainfo_nil hfree]
      exact h
    | cons psta rest => exact h.alloc hok hfree
  | free psta =>
    cases psta with
    | none => exact h
    | some psta => exact h.free (hok psta rfl)
  | freeAll => exact h.freeAll hok
  | auth sa => exact h.auth_step sa
  | assocReq sa accepted => exact h.assocReq sa accepted
  | unlinkAsoc psta => exact h.unlinkAsoc psta
  | startAp =>
    apply h.lists _ _ h.asoc h.auth
    intro e he
    obtain ⟨hasoc, hauth, -⟩ := h.unreachable e he
    exact ⟨hasoc, hauth, fun i hi => nomatch hi⟩
  | setMax n => exact h.lists _ _ h.asoc h.auth h.unreachable

/-- The table is sound as long as the entries that are freed are detached. -/
theorem table_sound (calls : List Call) (hok : Guarded step Ok start calls) :
    (run step start calls).Sound :=
  (guarded_invariant Inv (fun _ _ h hok => h.step hok) start_inv hok).sound

instance (s : StaTable) (psta : StaPtr) : Decidable (s.Detached psta) :=
  inferInstanceAs (Decidable (_ ∧ _ ∧ _))

instance (s : StaTable) (call : Call) : Decidable (s.Ok call) :=
  match call with
  | .alloc hwaddr => inferInstanceAs (Decidable (s.rtwGetStainfo (some hwaddr) = none))
  | .free none => isTrue nofun
  | .free (some psta) => decidable_of_iff (s.Detached psta)
      ⟨fun h _ he => Option.some.inj he ▸ h, fun h => h psta rfl⟩
  | .freeAll => inferInstanceAs (Decidable (_ ∨ _))
  | .auth _ | .assocReq _ _ | .unlinkAsoc _ | .startAp | .setMax _ => isTrue trivial

/-- A station that authenticates, associates and leaves. -/
def visit (a : MacAddr) : List Call :=
  [.auth a, .assocReq a true, .unlinkAsoc 1, .free (some 1), .freeAll]

theorem table_sound_visit : (run step start (visit #v[2, 0, 0, 0, 0, 1])).Sound :=
  table_sound _ (by
    simp only [visit, Guarded]
    decide)

/-- An entry in use is freed although the list of associated stations contains it, when all
stations are freed at once, or although a slot refers to it, when a further request was rejected. -/
theorem freed_station_listed :
    ¬ (run step start
      [.auth #v[2, 0, 0, 0, 0, 1], .assocReq #v[2, 0, 0, 0, 0, 1] true, .freeAll]).Sound ∧
    ¬ (run step start
      [.auth #v[2, 0, 0, 0, 0, 1], .assocReq #v[2, 0, 0, 0, 0, 1] true,
        .assocReq #v[2, 0, 0, 0, 0, 1] false, .unlinkAsoc 1, .free (some 1)]).Sound := by
  constructor
  · intro h
    exact (h.unreachable 1 (by decide)).1 (by decide)
  · intro h
    exact (h.unreachable 1 (by decide)).2.2 0 (by decide)

end Rtl8188eu.StaTable
