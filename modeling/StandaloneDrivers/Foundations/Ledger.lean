import Mathlib.Tactic
import Mathlib.Data.List.Perm.Basic

/-! Resources that are taken one after the other and must be given back exactly once. -/
namespace Foundations

/-- Resources are numbered in the order in which they are taken; those given back are listed. -/
structure Ledger where
  next : ℕ
  released : List ℕ
  deriving DecidableEq, Repr

namespace Ledger

def empty : Ledger := ⟨0, []⟩

/-- Takes resource `next`. -/
def take (l : Ledger) : Ledger := { l with next := l.next + 1 }

def release (l : Ledger) (r : ℕ) : Ledger := { l with released := r :: l.released }

/-- Every resource taken so far was given back once or is held once, never both. -/
def Balanced (l : Ledger) (held : List ℕ) : Prop :=
  (l.released ++ held).Perm (List.range l.next)

instance (l : Ledger) (held : List ℕ) : Decidable (Balanced l held) :=
  inferInstanceAs (Decidable (List.Perm _ _))

theorem balanced_empty : Balanced empty [] := List.Perm.refl _

namespace Balanced
variable {l : Ledger} {held : List ℕ} {r : ℕ}

theorem take (h : Balanced l held) : Balanced l.take (l.next :: held) := by
  unfold Balanced Ledger.take
  rw [List.range_succ]
  have hmid : (l.released ++ l.next :: held).Perm (l.next :: (l.released ++ held)) :=
    List.perm_middle
  exact hmid.trans ((h.cons l.next).trans (List.perm_append_singleton _ _).symm)

theorem release (h : Balanced l (r :: held)) : Balanced (l.release r) held :=
  List.perm_middle.symm.trans h

theorem perm {held' : List ℕ} (h : Balanced l held) (hp : held.Perm held') : Balanced l held' :=
  (hp.append_left l.released).symm.trans h

theorem nodup (h : Balanced l held) : (l.released ++ held).Nodup :=
  h.nodup_iff.mpr List.nodup_range

/-- What is held has not been given back. -/
theorem notMem_released (h : Balanced l held) (hr : r ∈ held) : r ∉ l.released := by
  intro hrel
  exact (List.nodup_append.mp h.nodup).2.2 r hrel r hr rfl

end Balanced

end Ledger

end Foundations
