import Mathlib.Data.List.Perm.Basic
import Mathlib.Tactic

/-! A pool of resources that are taken from a queue and given back to its end, with a counter of
the free ones. -/
namespace Foundations

/-- One queue of a family of queues, and the others. -/
theorem flatMap_set {α β : Type*} (f : α → List β) {l : List α} {i : ℕ} {a : α}
    (h : l[i]? = some a) : ∃ others, (l.flatMap f).Perm (f a ++ others) ∧
      ∀ b, ((l.set i b).flatMap f).Perm (f b ++ others) := by
  obtain ⟨hi, rfl⟩ := List.getElem?_eq_some_iff.mp h
  have hset (b : α) : ((l.set i b).flatMap f).Perm
      (f b ++ ((l.take i).flatMap f ++ (l.drop (i + 1)).flatMap f)) := by
    rw [List.set_eq_take_append_cons_drop, if_pos hi, List.flatMap_append, List.flatMap_cons]
    exact List.perm_append_comm_assoc _ _ _
  refine ⟨_, ?_, hset⟩
  have hself := hset l[i]
  rwa [List.set_getElem_self] at hself

/-- The free resources, their counter, and those given back while they were free. -/
structure Pool where
  queue : List ℕ
  count : ℕ
  doubled : List ℕ
  deriving DecidableEq, Repr

namespace Pool

def full (n : ℕ) : Pool := ⟨List.range n, n, []⟩

/-- Takes the first free resource. -/
def take (p : Pool) : Option (ℕ × Pool) :=
  match p.queue with
  | [] => none
  | r :: queue => some (r, { p with queue := queue, count := p.count - 1 })

/-- A resource given back goes to the end of the queue, from wherever it is. -/
def give (p : Pool) (r : ℕ) : Pool where
  queue := p.queue.filter (· ≠ r) ++ [r]
  count := p.count + 1
  doubled := if r ∈ p.queue then p.doubled ++ [r] else p.doubled

/-- Nothing is at two places. -/
def Apart (p : Pool) (held : List ℕ) : Prop := (p.queue ++ held).Nodup

/-- Every one of `n` resources is at one place, the counter is right, and nothing was given back
twice. -/
structure Holds (p : Pool) (n : ℕ) (held : List ℕ) : Prop where
  places : (p.queue ++ held).Perm (List.range n)
  count : p.count = p.queue.length
  doubled : p.doubled = []

theorem holds_full (n : ℕ) : Holds (full n) n [] where
  places := by rw [List.append_nil]; exact List.Perm.refl _
  count := List.length_range.symm
  doubled := rfl

variable {p : Pool} {n : ℕ} {held held' : List ℕ} {r : ℕ}

theorem give_of_notMem (h : r ∉ p.queue) :
    p.give r = ⟨p.queue ++ [r], p.count + 1, p.doubled⟩ := by
  have hfilter : p.queue.filter (· ≠ r) = p.queue := by
    rw [List.filter_eq_self]
    intro q hq
    simpa using ne_of_mem_of_not_mem hq h
  rw [give, hfilter, if_neg h]

namespace Apart

theorem perm (h : p.Apart held) (hp : held.Perm held') : p.Apart held' :=
  (hp.append_left p.queue).nodup_iff.mp h

/-- What is no longer held may be lost. -/
theorem sublist (h : p.Apart held) (hs : held'.Sublist held) : p.Apart held' :=
  List.Nodup.sublist (hs.append_left p.queue) h

theorem notMem (h : p.Apart (r :: held)) : r ∉ p.queue ∧ r ∉ held := by
  obtain ⟨-, hheld, hdisjoint⟩ := List.nodup_append.mp h
  constructor
  · intro hr
    exact hdisjoint r hr r List.mem_cons_self rfl
  · exact (List.nodup_cons.mp hheld).1

theorem take {p' : Pool} (h : p.Apart held) (ht : p.take = some (r, p')) :
    p'.Apart (r :: held) := by
  unfold Pool.take at ht
  cases hq : p.queue with
  | nil =>
    rw [hq] at ht
    cases ht
  | cons q queue =>
    rw [hq] at ht
    cases ht
    unfold Apart at h
    rw [hq] at h
    exact List.perm_middle.nodup_iff.mpr h

/-- A resource that nobody else holds is given back, were it free already. -/
theorem give (h : p.Apart held) (hr : r ∉ held) : (p.give r).Apart held := by
  unfold Apart Pool.give
  obtain ⟨hqueue, hheld, hdisjoint⟩ := List.nodup_append.mp h
  rw [List.append_assoc]
  refine List.nodup_append.mpr ⟨hqueue.filter _, List.nodup_cons.mpr ⟨hr, hheld⟩, ?_⟩
  intro q hq q' hq'
  obtain ⟨hmem, hne⟩ := List.mem_filter.mp hq
  rcases List.mem_cons.mp hq' with rfl | hheld'
  · simpa using hne
  · exact hdisjoint q hmem q' hheld'

end Apart

namespace Holds

theorem apart (h : p.Holds n held) : p.Apart held := h.places.nodup_iff.mpr List.nodup_range

theorem perm (h : p.Holds n held) (hp : held.Perm held') : p.Holds n held' :=
  ⟨(hp.append_left p.queue).symm.trans h.places, h.count, h.doubled⟩

theorem take {p' : Pool} (h : p.Holds n held) (ht : p.take = some (r, p')) :
    p'.Holds n (r :: held) := by
  unfold Pool.take at ht
  cases hq : p.queue with
  | nil =>
    rw [hq] at ht
    cases ht
  | cons q queue =>
    rw [hq] at ht
    cases ht
    have hplaces := h.places
    have hcount := h.count
    rw [hq] at hplaces hcount
    refine ⟨List.perm_middle.trans hplaces, ?_, h.doubled⟩
    rw [hcount]
    rfl

theorem give (h : p.Holds n (r :: held)) : (p.give r).Holds n held := by
  rw [give_of_notMem h.apart.notMem.1]
  constructor
  · rw [List.append_assoc]
    exact h.places
  · rw [List.length_append, h.count]
    rfl
  · exact h.doubled

end Holds

/-- An invariant of a pool and what is held, kept when a resource is taken and when one that is held
is given back. -/
structure Rules (inv : Pool → List ℕ → Prop) : Prop where
  apart : ∀ {p held}, inv p held → p.Apart held
  take : ∀ {p p' r held}, inv p held → p.take = some (r, p') → inv p' (r :: held)
  perm : ∀ {p held held'}, inv p held → held.Perm held' → inv p held'
  give : ∀ {p r held}, inv p (r :: held) → inv (p.give r) held

/-- One that is also kept when a resource is lost, or given back by somebody who does not hold it. -/
structure Lossy (inv : Pool → List ℕ → Prop) : Prop where
  lose : ∀ {p r held}, inv p (r :: held) → inv p held
  again : ∀ {p r held}, inv p held → inv (p.give r) (held.filter (· ≠ r))

theorem Lossy.loseAll {inv : Pool → List ℕ → Prop} (hl : Lossy inv) (lost : List ℕ)
    (h : inv p (lost ++ held)) : inv p held := by
  induction lost with
  | nil => exact h
  | cons r lost ih => exact ih (hl.lose h)

theorem holds_rules (n : ℕ) : Rules fun p held => Holds p n held where
  apart h := h.apart
  take h ht := h.take ht
  perm h hp := h.perm hp
  give h := h.give

theorem apart_rules : Rules Apart where
  apart h := h
  take h ht := h.take ht
  perm h hp := h.perm hp
  give h := (h.sublist (List.sublist_cons_self _ _)).give h.notMem.2

theorem apart_lossy : Lossy Apart where
  lose h := h.sublist (List.sublist_cons_self _ _)
  again h := by
    apply (h.sublist List.filter_sublist).give
    simp

end Pool

end Foundations
