import Mathlib.Data.List.Induction
import StandaloneDrivers.Foundations.Run

/-! Records of different lengths laid end to end, and loops that take them one after another. -/
namespace Foundations
variable {ρ σ τ : Type*} {c : σ → Bool} {b : σ → σ}

/-- `k` rounds of the loop lead from `s` to `t`. -/
def Rounds (c : σ → Bool) (b : σ → σ) (k : ℕ) (s t : σ) : Prop :=
  ∀ n, loop c b (k + n) s = loop c b n t

theorem Rounds.refl (s : σ) : Rounds c b 0 s s := by
  intro n
  rw [Nat.zero_add]

theorem Rounds.one {s : σ} (h : c s = true) : Rounds c b 1 s (b s) := by
  intro n
  rw [Nat.add_comm]
  exact if_pos h

theorem Rounds.trans {i j : ℕ} {s t u : σ} (h : Rounds c b i s t) (h' : Rounds c b j t u) :
    Rounds c b (i + j) s u := by
  intro n
  rw [Nat.add_assoc, h, h']

/-- A loop that leaves where the rounds lead to gives that state. -/
theorem Rounds.exit {k n : ℕ} {s t : σ} (h : Rounds c b k s t) (ht : c t = false) (hn : k ≤ n) :
    loop c b n s = some t := by
  obtain ⟨m, rfl⟩ := Nat.exists_eq_add_of_le hn
  rw [h]
  cases m <;> simp [loop, ht]

variable {next : ℕ → Option (ρ × ℕ)}

/-- From address `a` on the records `rs` follow one another, up to address `e`. -/
inductive Walk (next : ℕ → Option (ρ × ℕ)) : ℕ → List ρ → ℕ → Prop
  | nil (a : ℕ) : Walk next a [] a
  | cons {a a' e : ℕ} {r : ρ} {rs : List ρ} (head : next a = some (r, a'))
      (tail : Walk next a' rs e) : Walk next a (r :: rs) e

/-- The records from address `a` on, up to the first address that holds none. -/
structure Log (next : ℕ → Option (ρ × ℕ)) (a : ℕ) (rs : List ρ) (e : ℕ) : Prop where
  walk : Walk next a rs e
  last : next e = none

namespace Walk

theorem append {a m e : ℕ} {rs rs' : List ρ} (h : Walk next a rs m) (h' : Walk next m rs' e) :
    Walk next a (rs ++ rs') e := by
  induction h with
  | nil a => exact h'
  | cons head tail ih => exact cons head (ih h')

theorem single {a e : ℕ} {r : ρ} (h : next a = some (r, e)) : Walk next a [r] e :=
  cons h (nil e)

theorem le (hnext : ∀ a r a', next a = some (r, a') → a < a') {a e : ℕ} {rs : List ρ}
    (h : Walk next a rs e) : a + rs.length ≤ e := by
  induction h with
  | nil a => exact Nat.le_refl a
  | cons head tail ih =>
    have := hnext _ _ _ head
    simp only [List.length_cons]
    omega

/-- Another layout with the same records below `e` has the same walk to `e`. -/
theorem congr {next' : ℕ → Option (ρ × ℕ)} (hnext : ∀ a r a', next a = some (r, a') → a < a')
    {a e : ℕ} {rs : List ρ} (h : Walk next a rs e)
    (hsame : ∀ a r a', next a = some (r, a') → a' ≤ e → next' a = some (r, a')) :
    Walk next' a rs e := by
  induction h with
  | nil a => exact nil a
  | cons head tail ih =>
    have := tail.le hnext
    exact cons (hsame _ _ _ head (by omega)) (ih hsame)

/-- Where a log starts with a walk, the rest of it is a log from the walk's end on. -/
theorem rest {a m e : ℕ} {rs rs' : List ρ} (h : Walk next a rs m) (h' : Log next a rs' e) :
    ∃ tail, rs' = rs ++ tail ∧ Log next m tail e := by
  induction h generalizing rs' with
  | nil a => exact ⟨rs', rfl, h'⟩
  | cons head tail ih =>
    obtain ⟨hwalk, hlast⟩ := h'
    cases hwalk with
    | nil => rw [head] at hlast; contradiction
    | cons head' tail' =>
      obtain ⟨rfl, rfl⟩ := Prod.mk.inj (Option.some.inj (head'.symm.trans head))
      obtain ⟨tail, rfl, hlog⟩ := ih ⟨tail', hlast⟩
      exact ⟨tail, rfl, hlog⟩

theorem mem {P : ρ → Prop} (hnext : ∀ a r a', next a = some (r, a') → P r) {a e : ℕ}
    {rs : List ρ} (h : Walk next a rs e) : ∀ r ∈ rs, P r := by
  induction h with
  | nil a => intro r hr; contradiction
  | cons head tail ih =>
    intro r hr
    cases hr with
    | head => exact hnext _ _ _ head
    | tail _ hr => exact ih r hr

theorem length_le {limit : ℕ} (hnext : ∀ a r a', next a = some (r, a') → a < a')
    (hlimit : ∀ a r a', next a = some (r, a') → a < limit) {a e : ℕ} {rs : List ρ}
    (h : Walk next a rs e) : rs.length ≤ limit - a := by
  induction h with
  | nil a => exact Nat.zero_le _
  | cons head tail ih =>
    have := hnext _ _ _ head
    have := hlimit _ _ _ head
    simp only [List.length_cons]
    omega

/-- A loop that takes each record in at most `k` rounds folds over the walk. `R a t` holds of
the states at address `a` with the records so far folded into `t`. -/
theorem rounds {R : ℕ → τ → σ → Prop} {f : τ → ρ → τ} {k e : ℕ}
    (hstep : ∀ a r a' rs t s, next a = some (r, a') → Walk next a' rs e → R a t s →
      ∃ j ≤ k, ∃ s', Rounds c b j s s' ∧ R a' (f t r) s')
    {a : ℕ} {rs : List ρ} (h : Walk next a rs e) {t : τ} {s : σ} (hs : R a t s) :
    ∃ j ≤ k * rs.length, ∃ s', Rounds c b j s s' ∧ R e (rs.foldl f t) s' := by
  induction h generalizing t s with
  | nil a => exact ⟨0, Nat.zero_le _, s, Rounds.refl _, hs⟩
  | cons head tail ih =>
    obtain ⟨i, hi, s', hfirst, hs'⟩ := hstep _ _ _ _ t s head tail hs
    obtain ⟨j, hj, s'', hrest, hs''⟩ := ih hstep hs'
    refine ⟨i + j, ?_, s'', hfirst.trans hrest, hs''⟩
    rw [List.length_cons, Nat.mul_succ]
    omega

end Walk

namespace Log

theorem unique {a e e' : ℕ} {rs rs' : List ρ} (h : Log next a rs e) (h' : Log next a rs' e') :
    rs = rs' ∧ e = e' := by
  obtain ⟨tail, rfl, hwalk, -⟩ := h.walk.rest h'
  cases hwalk with
  | nil => exact ⟨(List.append_nil rs).symm, rfl⟩
  | cons head _ => rw [h.last] at head; contradiction

/-- Another layout with the same records from `a` on has the same log. -/
theorem congr {next' : ℕ → Option (ρ × ℕ)} (hnext : ∀ a r a', next a = some (r, a') → a < a')
    {a e : ℕ} {rs : List ρ} (h : Log next a rs e) (hsame : ∀ b, a ≤ b → next' b = next b) :
    Log next' a rs e := by
  obtain ⟨hwalk, hlast⟩ := h
  refine ⟨?_, (hsame e (by have := hwalk.le hnext; omega)).trans hlast⟩
  clear hlast
  induction hwalk with
  | nil a => exact Walk.nil a
  | cons head tail ih =>
    have hlt := hnext _ _ _ head
    exact Walk.cons ((hsame _ (Nat.le_refl _)).trans head) (ih fun b hb => hsame b (by omega))

/-- Addresses below a limit, each record behind the one before: there is a log. -/
theorem exists_of_bounded {limit : ℕ} (hnext : ∀ a r a', next a = some (r, a') → a < a')
    (hlimit : ∀ a r a', next a = some (r, a') → a < limit) (a : ℕ) :
    ∃ rs e, Log next a rs e := by
  induction hk : limit - a using Nat.strongRecOn generalizing a with
  | ind k ih =>
    cases h : next a with
    | none => exact ⟨[], a, Walk.nil a, h⟩
    | some r =>
      have := hnext a r.1 r.2 h
      have := hlimit a r.1 r.2 h
      obtain ⟨rs, e, hwalk, hlast⟩ := ih (limit - r.2) (by omega) r.2 rfl
      exact ⟨r.1 :: rs, e, Walk.cons h hwalk, hlast⟩

end Log

section Newest
variable (P : ρ → Bool)

/-- The last record of a log that meets `P`. -/
def newest (rs : List ρ) : Option ρ := rs.reverse.find? P

/-- A log up to and with the last record that meets `P`. -/
def upTo (rs : List ρ) : List ρ := (rs.reverse.dropWhile fun r => !P r).reverse

@[simp] theorem newest_nil : newest P [] = none := rfl

theorem newest_snoc (rs : List ρ) (r : ρ) :
    newest P (rs ++ [r]) = if P r = true then some r else newest P rs := by
  simp only [newest, List.reverse_append, List.reverse_singleton, List.singleton_append,
    List.find?_cons]
  cases P r <;> rfl

theorem newest_spec {P : ρ → Bool} {rs : List ρ} {r : ρ} (h : newest P rs = some r) :
    r ∈ rs ∧ P r = true :=
  ⟨List.mem_reverse.mp (List.mem_of_find?_eq_some h), List.find?_some h⟩

@[simp] theorem upTo_nil : upTo P [] = [] := rfl

theorem upTo_snoc (rs : List ρ) (r : ρ) :
    upTo P (rs ++ [r]) = if P r = true then rs ++ [r] else upTo P rs := by
  simp only [upTo, List.reverse_append, List.reverse_singleton, List.singleton_append,
    List.dropWhile_cons]
  cases P r <;> simp

end Newest

end Foundations
