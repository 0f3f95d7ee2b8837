import Mathlib.Data.Fintype.Card
import Mathlib.Data.List.Nodup
import Mathlib.Logic.Function.Basic

/-! Entries filed under the buckets of a hash table: as lists, and as nodes chained by pointers. -/
namespace Foundations
variable {ι β κ : Type*}

/-- Each list holds the live entries of its bucket, each of them once. -/
structure Filed (live : ι → Prop) (bucket : ι → β) (lists : β → List ι) : Prop where
  mem : ∀ b i, i ∈ lists b ↔ live i ∧ bucket i = b
  nodup : ∀ b, (lists b).Nodup

namespace Filed
variable {live live' : ι → Prop} {bucket bucket' : ι → β} {lists : β → List ι}

theorem congr (h : Filed live bucket lists) (hlive : ∀ i, live' i ↔ live i)
    (hbucket : ∀ i, live i → bucket' i = bucket i) : Filed live' bucket' lists where
  mem b i := by
    rw [h.mem, hlive]
    apply and_congr_right
    intro hi
    rw [hbucket i hi]
  nodup := h.nodup

/-- A new entry is filed at the end of its list. -/
theorem append [DecidableEq β] (h : Filed live bucket lists) {e : ι} {b : β} (he : ¬ live e)
    (hlive : ∀ i, live' i ↔ live i ∨ i = e) (hbucket : ∀ i, live i → bucket' i = bucket i)
    (hself : bucket' e = b) : Filed live' bucket' (Function.update lists b (lists b ++ [e])) where
  mem c i := by
    have hold : i ∈ lists c ↔ live i ∧ bucket' i = c := by
      rw [h.mem]
      apply and_congr_right
      intro hi
      rw [hbucket i hi]
    rw [hlive, or_and_right, ← hold]
    by_cases hc : c = b
    · subst hc
      rw [Function.update_self, List.mem_append, List.mem_singleton]
      apply or_congr_right
      constructor
      · rintro rfl
        exact ⟨rfl, hself⟩
      · exact And.left
    · rw [Function.update_of_ne hc]
      constructor
      · exact Or.inl
      · rintro (hi | ⟨rfl, rfl⟩)
        · exact hi
        · exact absurd hself hc
  nodup c := by
    by_cases hc : c = b
    · subst hc
      rw [Function.update_self]
      apply List.Nodup.append (h.nodup c) (List.nodup_singleton e)
      intro i hi hie
      rw [List.mem_singleton.mp hie] at hi
      exact he ((h.mem c e).mp hi).1
    · rw [Function.update_of_ne hc]
      exact h.nodup c

/-- An entry is taken out of its list. -/
theorem erase [DecidableEq ι] [DecidableEq β] (h : Filed live bucket lists) {e : ι} {b : β}
    (hb : bucket e = b) (hlive : ∀ i, live' i ↔ live i ∧ i ≠ e)
    (hbucket : ∀ i, live' i → bucket' i = bucket i) :
    Filed live' bucket' (Function.update lists b ((lists b).erase e)) where
  mem c i := by
    have hnew : live' i ∧ bucket' i = c ↔ i ∈ lists c ∧ i ≠ e := by
      rw [h.mem]
      constructor
      · rintro ⟨hi, rfl⟩
        exact ⟨⟨((hlive i).mp hi).1, (hbucket i hi).symm⟩, ((hlive i).mp hi).2⟩
      · rintro ⟨⟨hi, rfl⟩, hne⟩
        have hi' := (hlive i).mpr ⟨hi, hne⟩
        exact ⟨hi', hbucket i hi'⟩
    rw [hnew]
    by_cases hc : c = b
    · subst hc
      rw [Function.update_self, (h.nodup c).mem_erase_iff, and_comm]
    · rw [Function.update_of_ne hc]
      constructor
      · intro hi
        constructor
        · exact hi
        · rintro rfl
          exact hc (((h.mem c i).mp hi).2.symm.trans hb)
      · exact And.left
  nodup c := by
    by_cases hc : c = b
    · subst hc
      rw [Function.update_self]
      exact (h.nodup c).erase e
    · rw [Function.update_of_ne hc]
      exact h.nodup c

section
variable [DecidableEq κ] {hash : κ → β} {key : ι → κ}

/-- What the search for a key finds is a live entry of the key. -/
theorem find_some (h : Filed live (fun i => hash (key i)) lists) {k : κ} {e : ι}
    (hfind : (lists (hash k)).find? (fun i => key i = k) = some e) : live e ∧ key e = k := by
  have hkey := List.find?_some hfind
  exact ⟨((h.mem _ _).mp (List.mem_of_find?_eq_some hfind)).1, of_decide_eq_true hkey⟩

/-- The search for a key fails when no live entry has it. -/
theorem find_none (h : Filed live (fun i => hash (key i)) lists) {k : κ} :
    (lists (hash k)).find? (fun i => key i = k) = none ↔ ∀ i, live i → key i ≠ k := by
  rw [List.find?_eq_none]
  constructor
  · rintro hnone i hi rfl
    exact hnone i ((h.mem _ i).mpr ⟨hi, rfl⟩) (decide_eq_true rfl)
  · intro hnone i hi hkey
    exact hnone i ((h.mem _ i).mp hi).1 (of_decide_eq_true hkey)

/-- A key of one live entry at most is searched for exactly. -/
theorem find_iff (h : Filed live (fun i => hash (key i)) lists) {k : κ}
    (hone : ∀ i j, live i → live j → key i = k → key j = k → i = j) (e : ι) :
    (lists (hash k)).find? (fun i => key i = k) = some e ↔ live e ∧ key e = k := by
  constructor
  · exact h.find_some
  · rintro ⟨he, hkey⟩
    cases hfind : (lists (hash k)).find? (fun i => key i = k) with
    | none => exact absurd hkey (h.find_none.mp hfind e he)
    | some i =>
      obtain ⟨hi, hikey⟩ := h.find_some hfind
      rw [hone i e hi he hikey hkey]

end

end Filed

/-- From `start`, the pointers lead through the nodes of a list, one after the other, and end. -/
def Linked (next : ι → Option ι) : Option ι → List ι → Prop
  | start, [] => start = none
  | start, i :: l => start = some i ∧ Linked next (next i) l

/-- The first node from `start` on that a loop stops at, `none` while the loop has not ended. -/
def walk (next : ι → Option ι) (stop : ι → Bool) : ℕ → Option ι → Option (Option ι)
  | _, none => some none
  | 0, some _ => none
  | fuel + 1, some i => if stop i then some (some i) else walk next stop fuel (next i)

/-- The nodes that the pointers lead through. -/
def trace (next : ι → Option ι) : ℕ → Option ι → List ι
  | _, none => []
  | 0, some _ => []
  | fuel + 1, some i => i :: trace next fuel (next i)

/-- The search for a node that remembers the node before it: the node before, if there is one, or
that the node is not there. -/
def walkTo [DecidableEq ι] (next : ι → Option ι) (e : ι) :
    ℕ → Option ι → Option ι → Option (Option (Option ι))
  | _, _, none => some none
  | 0, _, some _ => none
  | fuel + 1, prev, some i =>
    if i = e then some (some prev) else walkTo next e fuel (some i) (next i)

namespace Linked
variable {next next' : ι → Option ι} {start : Option ι} {l : List ι}

theorem congr (h : Linked next start l) (hnext : ∀ i ∈ l, next' i = next i) :
    Linked next' start l := by
  induction l generalizing start with
  | nil => exact h
  | cons i l ih =>
    obtain ⟨hstart, htail⟩ := h
    constructor
    · exact hstart
    · rw [hnext i List.mem_cons_self]
      exact ih htail fun j hj => hnext j (List.mem_cons_of_mem _ hj)

theorem walk (h : Linked next start l) (stop : ι → Bool) {fuel : ℕ} (hfuel : l.length ≤ fuel) :
    walk next stop fuel start = some (l.find? stop) := by
  induction l generalizing start fuel with
  | nil =>
    rw [h.symm.symm, Foundations.walk.eq_def]
    rfl
  | cons i l ih =>
    obtain ⟨rfl, htail⟩ := h
    cases fuel with
    | zero => cases hfuel
    | succ fuel =>
      rw [Foundations.walk, List.find?_cons]
      cases stop i with
      | true => rfl
      | false => exact ih htail (Nat.le_of_succ_le_succ hfuel)

theorem trace_eq (h : Linked next start l) {fuel : ℕ} (hfuel : l.length ≤ fuel) :
    trace next fuel start = l := by
  induction l generalizing start fuel with
  | nil =>
    rw [h.symm.symm, trace.eq_def]
  | cons i l ih =>
    obtain ⟨rfl, htail⟩ := h
    cases fuel with
    | zero => cases hfuel
    | succ fuel => rw [trace, ih htail (Nat.le_of_succ_le_succ hfuel)]

/-- The node before the searched one is the last of those in front of it. -/
theorem walkTo [DecidableEq ι] {front back : List ι} {e : ι}
    (h : Linked next start (front ++ e :: back)) (he : e ∉ front) (prev : Option ι) {fuel : ℕ}
    (hfuel : (front ++ e :: back).length ≤ fuel) :
    walkTo next e fuel prev start = some (some (front.getLast?.or prev)) := by
  induction front generalizing start prev fuel with
  | nil =>
    obtain ⟨rfl, -⟩ := h
    cases fuel with
    | zero => cases hfuel
    | succ fuel =>
      rw [Foundations.walkTo, if_pos rfl]
      rfl
  | cons i front ih =>
    obtain ⟨rfl, htail⟩ := h
    have hne : i ≠ e := fun hi => he (hi ▸ List.mem_cons_self)
    cases fuel with
    | zero => cases hfuel
    | succ fuel =>
      rw [Foundations.walkTo, if_neg hne,
        ih htail (fun hmem => he (List.mem_cons_of_mem _ hmem)) _ (Nat.le_of_succ_le_succ hfuel)]
      rw [List.getLast?_cons]
      cases front.getLast? <;> rfl

theorem head?_eq (h : Linked next start l) : start = l.head? := by
  cases l with
  | nil => exact h
  | cons i l => exact h.1

/-- A node points to the one behind it. -/
theorem next_eq {front back : List ι} {i : ι} (h : Linked next start (front ++ i :: back)) :
    next i = back.head? := by
  induction front generalizing start with
  | nil => exact h.2.head?_eq
  | cons j front ih => exact ih h.2

theorem eq_nil (h : Linked next none l) : l = [] := by
  cases l with
  | nil => rfl
  | cons i l => exact nomatch h.1

/-- The node that points nowhere is the last one. -/
theorem find_last {front : List ι} {t : ι} (h : Linked next start (front ++ [t])) :
    (front ++ [t]).find? (fun i => (next i).isNone) = some t := by
  induction front generalizing start with
  | nil =>
    obtain ⟨-, hend⟩ := h
    have hnone : next t = none := hend
    rw [List.nil_append, List.find?_cons, hnone]
    rfl
  | cons i front ih =>
    obtain ⟨-, htail⟩ := h
    have hsome : (next i).isNone = false := by
      cases front with
      | nil => rw [htail.1, Option.isNone_some]
      | cons j front => rw [htail.1, Option.isNone_some]
    rw [List.cons_append, List.find?_cons, hsome]
    exact ih htail

/-- The last node is made to point to a new one. -/
theorem append {front : List ι} {t e : ι} (h : Linked next start (front ++ [t]))
    (hfront : ∀ i ∈ front, next' i = next i) (ht : next' t = some e) (he : next' e = none) :
    Linked next' start (front ++ [t] ++ [e]) := by
  induction front generalizing start with
  | nil =>
    obtain ⟨hstart, -⟩ := h
    exact ⟨hstart, ht, he⟩
  | cons i front ih =>
    obtain ⟨hstart, htail⟩ := h
    constructor
    · exact hstart
    · rw [hfront i List.mem_cons_self]
      exact ih htail fun j hj => hfront j (List.mem_cons_of_mem _ hj)

/-- The node before another is made to point past it. -/
theorem unlink {front back : List ι} {p e : ι} (h : Linked next start (front ++ p :: e :: back))
    (hothers : ∀ i ∈ front ++ back, next' i = next i) (hp : next' p = next e) :
    Linked next' start (front ++ p :: back) := by
  induction front generalizing start with
  | nil =>
    obtain ⟨hstart, -, htail⟩ := h
    constructor
    · exact hstart
    · rw [hp]
      exact htail.congr hothers
  | cons i front ih =>
    obtain ⟨hstart, htail⟩ := h
    constructor
    · exact hstart
    · rw [hothers i List.mem_cons_self]
      exact ih htail fun j hj => hothers j (List.mem_cons_of_mem _ hj)

end Linked

/-- From the head of each bucket the pointers lead through the list of the bucket. -/
def Chained (next : ι → Option ι) (head : β → Option ι) (lists : β → List ι) : Prop :=
  ∀ b, Linked next (head b) (lists b)

namespace Chained

theorem congr {next next' : ι → Option ι} {head : β → Option ι} {lists : β → List ι}
    (h : Chained next head lists) (hnext : ∀ b, ∀ i ∈ lists b, next' i = next i) :
    Chained next' head lists := fun b => (h b).congr (hnext b)

variable [DecidableEq β] {next next' : ι → Option ι} {head : β → Option ι} {lists : β → List ι}
variable {live : ι → Prop} {bucket : ι → β} {e : ι} {b : β}

/-- The first node of a bucket becomes its head. -/
theorem append_nil (h : Chained next head lists) (hfiled : Filed live bucket lists)
    (hb : lists b = []) (hothers : ∀ i, live i → next' i = next i) (he : next' e = none) :
    Chained next' (Function.update head b (some e))
      (Function.update lists b (lists b ++ [e])) := by
  intro c
  by_cases hc : c = b
  · subst hc
    rw [Function.update_self, Function.update_self, hb]
    exact ⟨rfl, he⟩
  · rw [Function.update_of_ne hc, Function.update_of_ne hc]
    exact (h c).congr fun i hi => hothers i ((hfiled.mem c i).mp hi).1

/-- A further node is pointed to by the last one. -/
theorem append_last {front : List ι} {t : ι} (h : Chained next head lists)
    (hfiled : Filed live bucket lists) (hb : lists b = front ++ [t])
    (hothers : ∀ i, live i → i ≠ t → next' i = next i) (ht : next' t = some e)
    (he : next' e = none) : Chained next' head (Function.update lists b (lists b ++ [e])) := by
  have hnodup := hfiled.nodup b
  rw [hb] at hnodup
  intro c
  by_cases hc : c = b
  · subst hc
    rw [Function.update_self, hb]
    have hchain := h c
    rw [hb] at hchain
    apply hchain.append _ ht he
    intro i hi
    have hmem : i ∈ lists c := hb ▸ List.mem_append_left _ hi
    apply hothers i ((hfiled.mem c i).mp hmem).1
    rintro rfl
    exact (List.nodup_append.mp hnodup).2.2 i hi i List.mem_cons_self rfl
  · rw [Function.update_of_ne hc]
    apply (h c).congr
    intro i hi
    obtain ⟨hlive, hbucket⟩ := (hfiled.mem c i).mp hi
    apply hothers i hlive
    rintro rfl
    have hmem : i ∈ lists b := hb ▸ List.mem_append_right _ List.mem_cons_self
    exact hc (hbucket.symm.trans ((hfiled.mem b i).mp hmem).2)

/-- The head is moved past the first node. -/
theorem unlink_head [DecidableEq ι] {back : List ι} (h : Chained next head lists)
    (hfiled : Filed live bucket lists) (hb : lists b = e :: back)
    (hothers : ∀ i, live i → i ≠ e → next' i = next i) :
    Chained next' (Function.update head b (next e))
      (Function.update lists b ((lists b).erase e)) := by
  intro c
  by_cases hc : c = b
  · subst hc
    rw [Function.update_self, Function.update_self, hb, List.erase_cons_head]
    have hchain := h c
    have hnodup := hfiled.nodup c
    rw [hb] at hchain hnodup
    apply hchain.2.congr
    intro i hi
    have hmem : i ∈ lists c := hb ▸ List.mem_cons_of_mem _ hi
    apply hothers i ((hfiled.mem c i).mp hmem).1
    rintro rfl
    exact (List.nodup_cons.mp hnodup).1 hi
  · rw [Function.update_of_ne hc, Function.update_of_ne hc]
    apply (h c).congr
    intro i hi
    obtain ⟨hlive, hbucket⟩ := (hfiled.mem c i).mp hi
    apply hothers i hlive
    rintro rfl
    have hmem : i ∈ lists b := hb ▸ List.mem_cons_self
    exact hc (hbucket.symm.trans ((hfiled.mem b i).mp hmem).2)

/-- The node before is made to point past a node. -/
theorem unlink_next [DecidableEq ι] {front back : List ι} {p : ι} (h : Chained next head lists)
    (hfiled : Filed live bucket lists) (hb : lists b = front ++ p :: e :: back)
    (hothers : ∀ i, live i → i ≠ e → i ≠ p → next' i = next i) (hp : next' p = next e) :
    Chained next' head (Function.update lists b ((lists b).erase e)) := by
  have hin : ∀ i ∈ front ++ p :: e :: back, live i ∧ bucket i = b :=
    fun i hi => (hfiled.mem b i).mp (hb ▸ hi)
  have hnodup := hfiled.nodup b
  rw [hb] at hnodup
  have hmiddle := List.nodup_middle.mp hnodup
  have htwo := List.nodup_cons.mp hmiddle
  rw [List.mem_append, List.mem_cons] at htwo
  have hself := List.nodup_cons.mp (List.nodup_middle.mp htwo.2)
  rw [List.mem_append] at hself
  intro c
  by_cases hc : c = b
  · subst hc
    have hchain := h c
    rw [hb] at hchain
    have herase : (lists c).erase e = front ++ p :: back := by
      have hfront : e ∉ front := fun hmem => hself.1 (Or.inl hmem)
      have hpe : p ≠ e := fun heq => htwo.1 (Or.inr (Or.inl heq))
      rw [hb, List.erase_append_right _ hfront, List.erase_cons_tail (by simpa using hpe),
        List.erase_cons_head]
    rw [Function.update_self, herase]
    apply hchain.unlink _ hp
    intro i hi
    rw [List.mem_append] at hi
    apply hothers i (hin i _).1
    · rintro rfl
      exact hself.1 hi
    · rintro rfl
      exact htwo.1 (hi.imp_right Or.inr)
    · rw [List.mem_append, List.mem_cons, List.mem_cons]
      exact hi.imp_right fun hback => Or.inr (Or.inr hback)
  · rw [Function.update_of_ne hc]
    apply (h c).congr
    intro i hi
    obtain ⟨hlive, hbucket⟩ := (hfiled.mem c i).mp hi
    apply hothers i hlive
    · rintro rfl
      exact hc (hbucket.symm.trans (hin i (by simp)).2)
    · rintro rfl
      exact hc (hbucket.symm.trans (hin i (by simp)).2)

/-- The pointers and heads when a node is put at the end of a bucket, `none` while the search for the
last node has not ended. -/
def addLast (next : ι → Option ι) (head : β → Option ι) (fuel : ℕ) (b : β) (e : ι) [DecidableEq ι] :
    Option ((ι → Option ι) × (β → Option ι)) :=
  match head b with
  | none => some (next, Function.update head b (some e))
  | some first => (walk next (fun i => (next i).isNone) fuel (some first)).map fun last =>
    (last.elim next fun t => Function.update next t (some e), head)

/-- The pointers and heads when a node is taken out of a bucket; `none` when the bucket is empty or
while the search for the node has not ended. -/
def unlink (next : ι → Option ι) (head : β → Option ι) (fuel : ℕ) (b : β) (e : ι) [DecidableEq ι] :
    Option ((ι → Option ι) × (β → Option ι)) :=
  match head b with
  | none => none
  | some first => (walkTo next e fuel none (some first)).map fun
    | none => (next, head)
    | some none => (next, Function.update head b (next e))
    | some (some p) => (Function.update next p (next e), head)

/-- A live node's pointer may only be the new one. -/
theorem addLast_spec [DecidableEq ι] (h : Chained next head lists) (hfiled : Filed live bucket lists)
    {fuel : ℕ} (hfuel : (lists b).length ≤ fuel) (he : ¬ live e) (hend : next e = none) :
    ∃ next' head', addLast next head fuel b e = some (next', head') ∧
      Chained next' head' (Function.update lists b (lists b ++ [e])) ∧
        ∀ i, ¬ live i → next' i = next i := by
  have hchain := h b
  cases hhead : head b with
  | none =>
    rw [hhead] at hchain
    refine ⟨next, Function.update head b (some e), ?_, ?_, fun _ _ => rfl⟩
    · simp only [addLast, hhead]
    · exact h.append_nil hfiled hchain.eq_nil (fun _ _ => rfl) hend
  | some first =>
    obtain ⟨front, t, hlist⟩ : ∃ front t, lists b = front ++ [t] := by
      apply (List.eq_nil_or_concat' _).resolve_left
      intro hnil
      rw [hnil, hhead] at hchain
      cases hchain
    have hlive : live t :=
      ((hfiled.mem b t).mp (hlist ▸ List.mem_append_right _ List.mem_cons_self)).1
    rw [hlist] at hfuel
    rw [hlist, hhead] at hchain
    have hwalk := hchain.walk (fun i => (next i).isNone) hfuel
    rw [hchain.find_last] at hwalk
    refine ⟨Function.update next t (some e), head, ?_, ?_, ?_⟩
    · simp only [addLast, hhead, hwalk, Option.map_some, Option.elim_some]
    · apply h.append_last hfiled hlist
      · exact fun i _ hi => Function.update_of_ne hi _ _
      · exact Function.update_self _ _ _
      · rw [Function.update_of_ne, hend]
        rintro rfl
        exact he hlive
    · rintro i hi
      apply Function.update_of_ne
      rintro rfl
      exact hi hlive

theorem unlink_spec [DecidableEq ι] (h : Chained next head lists) (hfiled : Filed live bucket lists)
    {fuel : ℕ} (hfuel : (lists b).length ≤ fuel) (he : e ∈ lists b) :
    ∃ next' head', unlink next head fuel b e = some (next', head') ∧
      Chained next' head' (Function.update lists b ((lists b).erase e)) ∧
        ∀ i, ¬ live i → next' i = next i := by
  obtain ⟨front, back, hlist⟩ := List.append_of_mem he
  have hchain := h b
  have hnodup := hfiled.nodup b
  rw [hlist] at hchain hnodup hfuel
  have hfront : e ∉ front := fun hin =>
    (List.nodup_append.mp hnodup).2.2 e hin e List.mem_cons_self rfl
  have hwalk := hchain.walkTo hfront none hfuel
  obtain ⟨first, hhead⟩ : ∃ first, head b = some first := by
    cases front with
    | nil => exact ⟨e, hchain.1⟩
    | cons i front => exact ⟨i, hchain.1⟩
  rw [hhead] at hwalk
  cases front using List.reverseRecOn with
  | nil =>
    refine ⟨next, Function.update head b (next e), ?_, ?_, fun _ _ => rfl⟩
    · simp only [unlink, hhead, hwalk, List.getLast?_nil, Option.none_or, Option.map_some]
    · exact h.unlink_head hfiled hlist fun _ _ _ => rfl
  | append_singleton front p =>
    have hlive : live p := by
      apply ((hfiled.mem b p).mp _).1
      rw [hlist]
      simp
    refine ⟨Function.update next p (next e), head, ?_, ?_, ?_⟩
    · simp only [unlink, hhead, hwalk, List.getLast?_concat, Option.some_or, Option.map_some]
    · apply h.unlink_next hfiled (hlist.trans (List.append_assoc _ _ _))
      · exact fun i _ _ hi => Function.update_of_ne hi _ _
      · exact Function.update_self _ _ _
    · intro i hi
      apply Function.update_of_ne
      rintro rfl
      exact hi hlive

end Chained

/-- The number of entries with a property, when one more has it. -/
theorem card_filter_insert [Fintype ι] [DecidableEq ι] {p q : ι → Prop} [DecidablePred p]
    [DecidablePred q] {e : ι} (hp : ¬ p e) (hq : ∀ i, q i ↔ p i ∨ i = e) :
    (Finset.univ.filter q).card = (Finset.univ.filter p).card + 1 := by
  have hset : Finset.univ.filter q = insert e (Finset.univ.filter p) := by
    ext i
    rw [Finset.mem_filter, Finset.mem_insert, Finset.mem_filter, hq, or_comm]
    simp only [Finset.mem_univ, true_and]
  rw [hset, Finset.card_insert_of_notMem]
  intro hmem
  exact hp (Finset.mem_filter.mp hmem).2

end Foundations
