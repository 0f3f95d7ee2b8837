import Mathlib.Data.List.Basic

/-! Runs of a deterministic step function and the invariants of guarded runs; while loops cut off after
a number of rounds. -/
namespace Foundations
variable {σ ε : Type*}

/-- The state after a schedule of events. -/
def run (step : σ → ε → σ) (s : σ) (es : List ε) : σ := es.foldl step s

/-- Every event of the schedule meets the guard in the state it happens in. -/
def Guarded (step : σ → ε → σ) (ok : σ → ε → Prop) : σ → List ε → Prop
  | _, [] => True
  | s, e :: es => ok s e ∧ Guarded step ok (step s e) es

instance Guarded.decidable {step : σ → ε → σ} {ok : σ → ε → Prop}
    [hok : ∀ s e, Decidable (ok s e)] : ∀ s es, Decidable (Guarded step ok s es)
  | _, [] => isTrue trivial
  | s, e :: es => @instDecidableAnd _ _ (hok s e) (Guarded.decidable (step s e) es)

@[simp] theorem run_nil (step : σ → ε → σ) (s : σ) : run step s [] = s := rfl

@[simp] theorem run_cons (step : σ → ε → σ) (s : σ) (e : ε) (es : List ε) :
    run step s (e :: es) = run step (step s e) es := rfl

theorem run_append (step : σ → ε → σ) (s : σ) (es fs : List ε) :
    run step s (es ++ fs) = run step (run step s es) fs := List.foldl_append

theorem guarded_append {step : σ → ε → σ} {ok : σ → ε → Prop} {s : σ} {es fs : List ε} :
    Guarded step ok s (es ++ fs) ↔ Guarded step ok s es ∧ Guarded step ok (run step s es) fs := by
  induction es generalizing s with
  | nil => simp [Guarded]
  | cons e es ih => simp [Guarded, ih, and_assoc]

theorem Guarded.mono {step : σ → ε → σ} {ok ok' : σ → ε → Prop}
    (h : ∀ s e, ok s e → ok' s e) {s : σ} {es : List ε} (hg : Guarded step ok s es) :
    Guarded step ok' s es := by
  induction es generalizing s with
  | nil => trivial
  | cons e es ih => exact ⟨h s e hg.1, ih hg.2⟩

/-- An invariant that every guarded step preserves holds after every guarded run. -/
theorem guarded_invariant {step : σ → ε → σ} {ok : σ → ε → Prop} (inv : σ → Prop)
    (hstep : ∀ s e, inv s → ok s e → inv (step s e)) {s : σ} {es : List ε}
    (hs : inv s) (hg : Guarded step ok s es) : inv (run step s es) := by
  induction es generalizing s with
  | nil => exact hs
  | cons e es ih => exact ih (hstep s e hs hg.1) hg.2

/-- The unguarded case: every step preserves the invariant. -/
theorem run_invariant {step : σ → ε → σ} (inv : σ → Prop)
    (hstep : ∀ s e, inv s → inv (step s e)) {s : σ} (es : List ε) (hs : inv s) :
    inv (run step s es) := by
  induction es generalizing s with
  | nil => exact hs
  | cons e es ih => exact ih (hstep s e hs)

/-- Steps that can each be taken back are taken back in the other order. -/
theorem foldl_reverse_cancel {step undo : σ → ε → σ} (h : ∀ s e, undo (step s e) e = s) (s : σ)
    (es : List ε) : es.reverse.foldl undo (es.foldl step s) = s := by
  induction es generalizing s with
  | nil => rfl
  | cons e es ih =>
    simp only [List.reverse_cons, List.foldl_append, List.foldl_cons, List.foldl_nil, ih, h]

/-- A step that may fail to return never does so from the invariant, hence no run does. -/
theorem foldlM_invariant {step : σ → ε → Option σ} (inv : σ → Prop)
    (hstep : ∀ s e, inv s → ∃ t, step s e = some t ∧ inv t) {s : σ} (es : List ε) (hs : inv s) :
    ∃ t, es.foldlM step s = some t ∧ inv t := by
  induction es generalizing s with
  | nil => exact ⟨s, rfl, hs⟩
  | cons e es ih =>
    obtain ⟨t, ht, hi⟩ := hstep s e hs
    obtain ⟨u, hu, hj⟩ := ih hi
    exact ⟨u, by simpa [List.foldlM_cons, ht] using hu, hj⟩

section Loops

/-- `while (c s) s = b s`, at most `fuel` rounds; `none` is a loop still running at the cut. -/
def loop (c : σ → Bool) (b : σ → σ) : ℕ → σ → Option σ
  | 0, s => if c s then none else some s
  | fuel + 1, s => if c s then loop c b fuel (b s) else some s

/-- Total correctness: an invariant indexed by the rounds still to go, which every round
lowers, gives a result that meets the invariant and the exit test. -/
theorem loop_total {c : σ → Bool} {b : σ → σ} (inv : ℕ → σ → Prop)
    (hstep : ∀ k s, inv k s → c s = true → ∃ j < k, inv j (b s)) {n k : ℕ} {s : σ}
    (hs : inv k s) (hk : k ≤ n) : ∃ j t, loop c b n s = some t ∧ inv j t ∧ c t = false := by
  induction n generalizing k s with
  | zero =>
    cases hc : c s with
    | false => exact ⟨k, s, by simp [loop, hc], hs, hc⟩
    | true =>
      obtain ⟨j, hj, -⟩ := hstep k s hs hc
      omega
  | succ n ih =>
    cases hc : c s with
    | false => exact ⟨k, s, by simp [loop, hc], hs, hc⟩
    | true =>
      obtain ⟨j, hj, hi⟩ := hstep k s hs hc
      obtain ⟨i, t, ht, hti, htc⟩ := ih hi (by omega)
      exact ⟨i, t, by simpa [loop, hc] using ht, hti, htc⟩

theorem loop_round {c : σ → Bool} {b : σ → σ} {n : ℕ} {s t : σ} (hc : c s = true)
    (h : loop c b n (b s) = some t) : loop c b (n + 1) s = some t := by
  simpa only [loop, hc, if_true] using h

theorem loop_mono {c : σ → Bool} {b : σ → σ} {n m : ℕ} {s t : σ} (h : loop c b n s = some t)
    (hle : n ≤ m) : loop c b m s = some t := by
  induction n generalizing m s with
  | zero =>
    cases hc : c s with
    | false => cases m <;> simpa [loop, hc] using h
    | true => simp [loop, hc] at h
  | succ n ih =>
    obtain ⟨m, rfl⟩ := Nat.exists_eq_add_one.mpr (Nat.zero_lt_of_lt hle)
    cases hc : c s with
    | false => simpa [loop, hc] using h
    | true =>
      simp only [loop, hc, if_true] at h ⊢
      exact ih h (Nat.le_of_succ_le_succ hle)

/-- Where a loop ends does not depend on where it is cut off. -/
theorem loop_unique {c : σ → Bool} {b : σ → σ} {n m : ℕ} {s t t' : σ}
    (h : loop c b n s = some t) (h' : loop c b m s = some t') : t = t' :=
  Option.some.inj ((loop_mono h (Nat.le_max_left n m)).symm.trans
    (loop_mono h' (Nat.le_max_right n m)))

end Loops
end Foundations
