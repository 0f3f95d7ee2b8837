import Mathlib.Data.List.Pairwise
import Mathlib.Logic.Function.Basic

/-! A hash table as lists of entries under buckets: search, update in place, link and sweep. -/
namespace Foundations
variable {ε κ β : Type*}

/-- The first entry that passes the test is replaced. -/
def updateFirst (p : ε → Bool) (f : ε → ε) : List ε → List ε
  | [] => []
  | e :: es => if p e then f e :: es else e :: updateFirst p f es

theorem mem_updateFirst {p : ε → Bool} {f : ε → ε} {e : ε} {l : List ε}
    (h : e ∈ updateFirst p f l) : e ∈ l ∨ ∃ e' ∈ l, e = f e' := by
  induction l with
  | nil => exact Or.inl h
  | cons x xs ih =>
    rw [updateFirst] at h
    split at h
    · rcases List.mem_cons.mp h with h | h
      · exact Or.inr ⟨x, List.mem_cons_self, h⟩
      · exact Or.inl (List.mem_cons_of_mem x h)
    · rcases List.mem_cons.mp h with h | h
      · exact Or.inl (h ▸ List.mem_cons_self)
      · rcases ih h with h | ⟨e', he', h⟩
        · exact Or.inl (List.mem_cons_of_mem x h)
        · exact Or.inr ⟨e', List.mem_cons_of_mem x he', h⟩

theorem pairwise_updateFirst {key : ε → κ} {f : ε → ε} (hf : ∀ e, key (f e) = key e)
    (p : ε → Bool) {l : List ε} (h : l.Pairwise (key · ≠ key ·)) :
    (updateFirst p f l).Pairwise (key · ≠ key ·) := by
  induction l with
  | nil => exact h
  | cons x xs ih =>
    obtain ⟨hx, hxs⟩ := List.pairwise_cons.mp h
    rw [updateFirst]
    split
    · apply List.pairwise_cons.mpr
      constructor
      · intro y hy
        rw [hf]
        exact hx y hy
      · exact hxs
    · apply List.pairwise_cons.mpr
      constructor
      · intro y hy
        rcases mem_updateFirst hy with hy | ⟨z, hz, rfl⟩
        · exact hx y hy
        · rw [hf]
          exact hx z hz
      · exact ih hxs

section
variable [DecidableEq κ] {key : ε → κ} {f : ε → ε}

theorem find?_updateFirst (hf : ∀ e, key (f e) = key e) (k k' : κ) (l : List ε) :
    (updateFirst (fun e => key e = k) f l).find? (fun e => key e = k') =
      if k' = k then (l.find? (fun e => key e = k)).map f else l.find? (fun e => key e = k') := by
  induction l with
  | nil => simp [updateFirst]
  | cons x xs ih =>
    by_cases hx : key x = k
    · by_cases hk : k' = k
      · simp [updateFirst, hx, hk, hf]
      · have hne : ¬ k = k' := fun h => hk h.symm
        simp [updateFirst, hx, hk, hf, hne]
    · by_cases hk : k' = k
      · subst hk
        simpa [updateFirst, hx] using ih
      · simp only [updateFirst, hx, decide_false, Bool.false_eq_true, if_false, List.find?_cons, ih,
          if_neg hk]

/-- Where no key is twice, a sweep is seen by a search as the sweep of what it found before. -/
theorem find?_filterMap {g : ε → Option ε} (hg : ∀ e e', g e = some e' → key e' = key e) (k : κ)
    {l : List ε} (h : l.Pairwise (key · ≠ key ·)) :
    (l.filterMap g).find? (fun e => key e = k) = (l.find? (fun e => key e = k)).bind g := by
  induction l with
  | nil => rfl
  | cons x xs ih =>
    obtain ⟨hx, hxs⟩ := List.pairwise_cons.mp h
    by_cases hk : key x = k
    · have hrest : xs.find? (fun e => key e = k) = none := by
        rw [List.find?_eq_none]
        intro y hy
        rw [decide_eq_true_eq, ← hk]
        exact fun heq => hx y hy heq.symm
      rw [List.find?_cons_of_pos (by simpa using hk), Option.bind_some]
      cases hgx : g x with
      | none => rw [List.filterMap_cons_none hgx, ih hxs, hrest, Option.bind_none]
      | some x' =>
        rw [List.filterMap_cons_some hgx]
        exact List.find?_cons_of_pos (by simpa using (hg x x' hgx).trans hk)
    · rw [List.find?_cons_of_neg (by simpa using hk), ← ih hxs]
      cases hgx : g x with
      | none => rw [List.filterMap_cons_none hgx]
      | some x' =>
        rw [List.filterMap_cons_some hgx]
        apply List.find?_cons_of_neg
        rw [hg x x' hgx]
        simpa using hk

end

/-- Every entry is in the bucket of its key, and no key is in a bucket twice. -/
structure Hashed (hash : κ → β) (key : ε → κ) (table : β → List ε) : Prop where
  filed : ∀ b, ∀ e ∈ table b, hash (key e) = b
  unique : ∀ b, (table b).Pairwise (key · ≠ key ·)

/-- Every entry is kept, changed or taken out. -/
def sweep (g : ε → Option ε) (table : β → List ε) : β → List ε := fun b => (table b).filterMap g

namespace Hashed
variable {hash : κ → β} {key : ε → κ} {table : β → List ε} {g : ε → Option ε}

theorem empty : Hashed hash key (fun _ => []) where
  filed _ _ he := absurd he List.not_mem_nil
  unique _ := List.Pairwise.nil

theorem sweep (h : Hashed hash key table) (hg : ∀ e e', g e = some e' → key e' = key e) :
    Hashed hash key (sweep g table) where
  filed b e he := by
    obtain ⟨e', he', hge⟩ := List.mem_filterMap.mp he
    rw [hg e' e hge]
    exact h.filed b e' he'
  unique b := by
    apply List.Pairwise.filterMap g _ (h.unique b)
    intro e e' hne x hx y hy
    rw [hg e x hx, hg e' y hy]
    exact hne

end Hashed

section
variable [DecidableEq κ] (hash : κ → β) (key : ε → κ)

def search (table : β → List ε) (k : κ) : Option ε := (table (hash k)).find? (fun e => key e = k)

variable {hash key} {table : β → List ε} {k : κ} {e : ε} {g : ε → Option ε}

theorem search_mem (h : search hash key table k = some e) : e ∈ table (hash k) :=
  List.mem_of_find?_eq_some h

theorem search_key (h : search hash key table k = some e) : key e = k := by
  simpa using List.find?_some h

theorem Hashed.search_sweep (h : Hashed hash key table)
    (hg : ∀ e e', g e = some e' → key e' = key e)
    (k : κ) : search hash key (Foundations.sweep g table) k = (search hash key table k).bind g :=
  find?_filterMap hg k (h.unique _)

/-- What is in a bucket is found under its key. -/
theorem Hashed.search_of_mem (h : Hashed hash key table) {b : β} (he : e ∈ table b) :
    search hash key table (key e) = some e := by
  rw [search, h.filed b e he]
  have hall := h.unique b
  generalize table b = l at he hall
  induction l with
  | nil => cases he
  | cons x xs ih =>
    obtain ⟨hx, hxs⟩ := List.pairwise_cons.mp hall
    rcases List.mem_cons.mp he with rfl | he
    · exact List.find?_cons_of_pos (by simp)
    · rw [List.find?_cons_of_neg (by simpa using hx e he)]
      exact ih he hxs

end

section
variable [DecidableEq κ] [DecidableEq β] (hash : κ → β) (key : ε → κ)

/-- The entry of a key is changed where it stands. -/
def modifyEntry (table : β → List ε) (k : κ) (f : ε → ε) : β → List ε :=
  Function.update table (hash k) (updateFirst (fun e => key e = k) f (table (hash k)))

/-- A new entry at the head of its bucket. -/
def linkEntry (table : β → List ε) (e : ε) : β → List ε :=
  Function.update table (hash (key e)) (e :: table (hash (key e)))

variable {hash key} {table : β → List ε} {k : κ} {e : ε} {f : ε → ε} {g : ε → Option ε}

theorem search_modifyEntry (hf : ∀ e, key (f e) = key e) (k' : κ) :
    search hash key (modifyEntry hash key table k f) k' =
      if k' = k then (search hash key table k).map f else search hash key table k' := by
  unfold search modifyEntry
  by_cases hb : hash k' = hash k
  · rw [hb, Function.update_self, find?_updateFirst hf]
  · have hk : k' ≠ k := fun hk => hb (congrArg hash hk)
    rw [Function.update_of_ne hb, if_neg hk]

theorem search_linkEntry (k' : κ) : search hash key (linkEntry hash key table e) k' =
    if k' = key e then some e else search hash key table k' := by
  unfold search linkEntry
  by_cases hk : k' = key e
  · rw [if_pos hk, hk, Function.update_self]
    exact List.find?_cons_of_pos (by simp)
  · rw [if_neg hk]
    by_cases hb : hash k' = hash (key e)
    · rw [hb, Function.update_self]
      exact List.find?_cons_of_neg (by simpa using fun h => hk h.symm)
    · rw [Function.update_of_ne hb]

namespace Hashed

theorem modifyEntry (h : Hashed hash key table) (hf : ∀ e, key (f e) = key e) (k : κ) :
    Hashed hash key (modifyEntry hash key table k f) where
  filed b e he := by
    unfold Foundations.modifyEntry at he
    by_cases hb : b = hash k
    · subst hb
      rw [Function.update_self] at he
      rcases mem_updateFirst he with he | ⟨e', he', rfl⟩
      · exact h.filed _ e he
      · rw [hf]
        exact h.filed _ e' he'
    · rw [Function.update_of_ne hb] at he
      exact h.filed b e he
  unique b := by
    unfold Foundations.modifyEntry
    by_cases hb : b = hash k
    · subst hb
      rw [Function.update_self]
      exact pairwise_updateFirst hf _ (h.unique _)
    · rw [Function.update_of_ne hb]
      exact h.unique b

theorem linkEntry (h : Hashed hash key table) (hnew : search hash key table (key e) = none) :
    Hashed hash key (linkEntry hash key table e) where
  filed b e' he := by
    unfold Foundations.linkEntry at he
    by_cases hb : b = hash (key e)
    · subst hb
      rw [Function.update_self] at he
      rcases List.mem_cons.mp he with rfl | he
      · rfl
      · exact h.filed _ e' he
    · rw [Function.update_of_ne hb] at he
      exact h.filed b e' he
  unique b := by
    unfold Foundations.linkEntry
    by_cases hb : b = hash (key e)
    · subst hb
      rw [Function.update_self]
      apply List.pairwise_cons.mpr
      constructor
      · intro e' he' heq
        have hfound := h.search_of_mem he'
        rw [← heq, hnew] at hfound
        cases hfound
      · exact h.unique _
    · rw [Function.update_of_ne hb]
      exact h.unique b

end Hashed
end
end Foundations
