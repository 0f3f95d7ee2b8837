import Mathlib.Tactic

/-! Numbers that wrap around, and the order in which a receiver passes them on. Two wrapped
numbers alone do not say which is later, so a reference number is followed as it moves and
every number is placed on the integers by its signed distance from the reference. -/
namespace Foundations.Circular

/-- Steps forward from `a` to `b` modulo `m`. -/
def ahead (m a b : ℕ) : ℕ := (b + m - a) % m

/-- Distance from `a` to `b` in `[-m/2, m/2)` modulo `m`. -/
def signed (m a b : ℕ) : ℤ := ((b : ℤ) - a + m / 2) % m - m / 2

theorem signed_eq {m a b : ℕ} {d : ℤ} (hlo : -((m : ℤ) / 2) ≤ d)
    (hhi : d + (m : ℤ) / 2 < m) (hd : ((b : ℤ) - a - d) % m = 0) : signed m a b = d := by
  obtain ⟨k, hk⟩ := Int.dvd_of_emod_eq_zero hd
  have hsplit : (b : ℤ) - a + m / 2 = d + m / 2 + m * k := by linarith
  unfold signed
  rw [hsplit, Int.add_mul_emod_self_left, Int.emod_eq_of_lt (by linarith) hhi]
  ring

theorem ahead_eq_ite {m a b : ℕ} (ha : a < m) (hb : b < m) :
    ahead m a b = if a ≤ b then b - a else b + m - a := by
  unfold ahead
  split
  · rw [show b + m - a = b - a + m by omega, Nat.add_mod_right]
    exact Nat.mod_eq_of_lt (by omega)
  · exact Nat.mod_eq_of_lt (by omega)

theorem add_ahead {m a b : ℕ} (ha : a < m) (hb : b < m) : (a + ahead m a b) % m = b := by
  rw [ahead_eq_ite ha hb]
  split
  · rw [show a + (b - a) = b by omega]
    exact Nat.mod_eq_of_lt hb
  · rw [show a + (b + m - a) = b + m by omega, Nat.add_mod_right]
    exact Nat.mod_eq_of_lt hb

/-- Seen from a number on the way, the distance is shorter by the way already made. -/
theorem ahead_sub {m a b c : ℕ} (ha : a < m) (hb : b < m) (hc : c < m)
    (h : ahead m a b ≤ ahead m a c) : ahead m b c = ahead m a c - ahead m a b := by
  rw [ahead_eq_ite ha hb, ahead_eq_ite ha hc] at h
  rw [ahead_eq_ite ha hb, ahead_eq_ite ha hc, ahead_eq_ite hb hc]
  split_ifs at * <;> omega

/-- What a receiver does, as far as the order of its deliveries is concerned: its reference
number moves, is reset to "none", or a number is passed on. -/
inductive Mark where
  | moved (v : ℕ)
  | reset
  | passed (s : ℕ)
  deriving DecidableEq, Repr

/-- The reference number with its place on the integers, the places passed on since the last
reset (newest first), and those of the finished segments. -/
structure Track where
  ref : Option (ℕ × ℤ)
  seg : List ℤ
  done : List (List ℤ)
  deriving DecidableEq, Repr

def Track.start : Track := ⟨none, [], []⟩

def Track.step (m : ℕ) (t : Track) : Mark → Track
  | .reset => ⟨none, [], t.seg :: t.done⟩
  | .moved v =>
      match t.ref with
      | none => { t with ref := some (v, v) }
      | some (r, p) => { t with ref := some (v, p + signed m r v) }
  | .passed s =>
      match t.ref with
      | none => { t with ref := some (s, s), seg := (s : ℤ) :: t.seg }
      | some (r, p) => { t with seg := (p + signed m r s) :: t.seg }

def track (m : ℕ) (ms : List Mark) : Track := ms.foldl (Track.step m) Track.start

/-- Between two resets the numbers passed on strictly increase (newest first: decrease). -/
def Increasing (m : ℕ) (ms : List Mark) : Prop :=
  ∀ seg ∈ (track m ms).seg :: (track m ms).done, seg.Pairwise (· > ·)

instance (m : ℕ) (ms : List Mark) : Decidable (Increasing m ms) := by
  unfold Increasing
  infer_instance

theorem track_append (m : ℕ) (ms ns : List Mark) :
    track m (ms ++ ns) = ns.foldl (Track.step m) (track m ms) := List.foldl_append

theorem signed_ahead {m r s : ℕ} (hr : r < m) (hs : s < m) (h : ahead m r s + m / 2 < m) :
    signed m r s = ahead m r s := by
  refine signed_eq (by omega) (by omega) ?_
  rw [ahead_eq_ite hr hs]
  split
  · rw [show (s : ℤ) - r - ((s - r : ℕ) : ℤ) = 0 by omega]
    simp
  · rw [show (s : ℤ) - r - ((s + m - r : ℕ) : ℤ) = -(m : ℤ) by omega]
    simp

theorem signed_add {m r d : ℕ} (hr : r < m) (h : d + m / 2 < m) :
    signed m r ((r + d) % m) = d := by
  refine signed_eq (by omega) (by omega) ?_
  rw [Nat.mod_def]
  push_cast [Nat.mul_div_le]
  rw [show (r : ℤ) + d - m * ((r + d) / m) - r - d = m * -((r + d) / m) by ring]
  exact Int.mul_emod_right _ _

theorem signed_mod {m b e d : ℕ} (hlo : e ≤ d + m / 2)
    (hhi : d + m / 2 < e + m) : signed m ((b + e) % m) ((b + d) % m) = (d : ℤ) - e := by
  refine signed_eq (by omega) (by omega) ?_
  rw [Nat.mod_def, Nat.mod_def]
  push_cast [Nat.mul_div_le]
  rw [show (b : ℤ) + d - m * ((b + d) / m) - (b + e - m * ((b + e) / m)) - (d - e) =
    m * ((b + e) / m - (b + d) / m) by ring]
  exact Int.mul_emod_right _ _

namespace Track
variable {m : ℕ} {t : Track}

/-- All numbers passed on so far are in order. -/
structure Ordered (t : Track) : Prop where
  seg : t.seg.Pairwise (· > ·)
  done : ∀ seg ∈ t.done, seg.Pairwise (· > ·)

/-- The reference is at `r`, and what was passed on lies at least `gap` steps behind it. -/
structure Behind (gap r : ℕ) (t : Track) : Prop extends Ordered t where
  ref : ∃ p, t.ref = some (r, p) ∧ ∀ x ∈ t.seg, x + gap ≤ p

/-- There is no reference, and nothing was passed on since it was given up. -/
structure Cleared (t : Track) : Prop extends Ordered t where
  ref : t.ref = none
  empty : t.seg = []

theorem Ordered.increasing {ms : List Mark} (h : Ordered (track m ms)) : Increasing m ms := by
  intro seg hseg
  rcases List.mem_cons.mp hseg with rfl | hseg
  · exact h.seg
  · exact h.done seg hseg

theorem cleared_start : Cleared start :=
  { seg := List.Pairwise.nil, done := by simp [start], ref := rfl, empty := rfl }

theorem Ordered.reset (h : Ordered t) : Cleared (t.step m .reset) where
  seg := List.Pairwise.nil
  done := by
    intro seg hseg
    rcases List.mem_cons.mp hseg with rfl | hseg
    · exact h.seg
    · exact h.done seg hseg
  ref := rfl
  empty := rfl

theorem Cleared.moved (h : Cleared t) (gap v : ℕ) : Behind gap v (t.step m (.moved v)) := by
  simp only [step, h.ref]
  exact { seg := h.seg, done := h.done, ref := ⟨v, rfl, by simp [h.empty]⟩ }

theorem Behind.passed {r : ℕ} (h : Behind 1 r t) (hr : r < m) :
    Behind 0 r (t.step m (.passed r)) := by
  obtain ⟨p, hp, hle⟩ := h.ref
  have hzero : signed m r r = 0 := by
    simpa [Nat.mod_eq_of_lt hr] using signed_add (d := 0) hr (by omega)
  simp only [step, hp, hzero, add_zero]
  refine { seg := ?_, done := h.done, ref := ⟨p, rfl, ?_⟩ }
  · rw [List.pairwise_cons]
    refine ⟨fun x hx => ?_, h.seg⟩
    have := hle x hx
    omega
  · intro x hx
    rcases List.mem_cons.mp hx with rfl | hx
    · simp
    · have := hle x hx
      omega

theorem foldl_passed {p : ℤ} {k : ℕ} (ss : List ℕ) (hp : t.ref = some (k, p)) :
    (ss.map Mark.passed).foldl (step m) t =
      { t with seg := (ss.map fun s => p + signed m k s).reverse ++ t.seg } := by
  induction ss generalizing t with
  | nil => rfl
  | cons s ss ih =>
    rw [List.map_cons, List.foldl_cons, ih (by simp only [step, hp])]
    simp only [step, hp, List.map_cons, List.reverse_cons, List.append_assoc, List.cons_append,
      List.nil_append]

/-- Places are counted from number `b` at place `p` on, and the reference is `e` steps further. -/
structure At (b : ℕ) (p : ℤ) (e : ℕ) (m : ℕ) (t : Track) : Prop extends Ordered t where
  ref : t.ref = some ((b + e) % m, p + e)

theorem At.moved {b : ℕ} {p : ℤ} {e d : ℕ} (h : At b p e m t)
    (hlo : e ≤ d + m / 2) (hhi : d + m / 2 < e + m) :
    At b p d m (t.step m (.moved ((b + d) % m))) ∧
      (t.step m (.moved ((b + d) % m))).seg = t.seg := by
  simp only [step, h.ref, signed_mod hlo hhi]
  exact ⟨{ seg := h.seg, done := h.done, ref := by simp }, trivial⟩

theorem At.passed {b : ℕ} {p : ℤ} {e d : ℕ} (h : At b p e m t)
    (hlo : e ≤ d + m / 2) (hhi : d + m / 2 < e + m) (hnew : ∀ x ∈ t.seg, x < p + d) :
    At b p e m (t.step m (.passed ((b + d) % m))) ∧
      (t.step m (.passed ((b + d) % m))).seg = (p + d) :: t.seg := by
  have hplace : p + e + ((d : ℤ) - e) = p + d := by ring
  simp only [step, h.ref, signed_mod hlo hhi, hplace]
  exact ⟨{ seg := List.pairwise_cons.mpr ⟨hnew, h.seg⟩, done := h.done, ref := rfl }, trivial⟩

/-- Numbers ahead of the reference are passed on in order, then the reference moves over
them. -/
theorem Behind.slide {r v d : ℕ} (h : Behind 0 r t) (gap : ℕ) (ss : List ℕ) (hr : r < m)
    (hv : v = (r + d) % m) (hd : d + m / 2 < m) (hs : ∀ s ∈ ss, s < m)
    (hsort : ss.Pairwise fun a b => ahead m r a < ahead m r b)
    (hin : ∀ s ∈ ss, 1 ≤ ahead m r s ∧ ahead m r s + gap ≤ d) (hgap : gap ≤ d) :
    Behind gap v ((ss.map Mark.passed ++ [Mark.moved v]).foldl (step m) t) := by
  obtain ⟨p, hp, hle⟩ := h.ref
  have hdist : ∀ s ∈ ss, signed m r s = ahead m r s := fun s hsm =>
    signed_ahead hr (hs s hsm) (by have := hin s hsm; omega)
  have hmap : (ss.map fun s => p + signed m r s) = ss.map fun s => p + (ahead m r s : ℤ) :=
    List.map_congr_left fun s hsm => by rw [hdist s hsm]
  rw [List.foldl_append, foldl_passed ss hp, hmap]
  simp only [List.foldl_cons, List.foldl_nil, step, hp]
  refine { seg := ?_, done := h.done, ref := ⟨_, rfl, ?_⟩ }
  · rw [List.pairwise_append]
    refine ⟨?_, h.seg, ?_⟩
    · rw [List.pairwise_reverse, List.pairwise_map]
      exact hsort.imp fun hab => by omega
    · intro x hx y hy
      rw [List.mem_reverse] at hx
      obtain ⟨s, hsm, rfl⟩ := List.mem_map.mp hx
      have h1 := (hin s hsm).1
      have h2 := hle y hy
      omega
  · have hmove : signed m r v = d := hv ▸ signed_add hr hd
    intro x hx
    rw [hmove]
    rcases List.mem_append.mp hx with hx | hx
    · rw [List.mem_reverse] at hx
      obtain ⟨s, hsm, rfl⟩ := List.mem_map.mp hx
      have h2 := (hin s hsm).2
      omega
    · have := hle x hx
      omega

/-- Numbers ahead of the reference are passed on in order, each followed by the reference. -/
theorem Behind.each {r : ℕ} (h : Behind 0 r t) (hr : r < m) {ss : List ℕ}
    (hs : ∀ s ∈ ss, s < m) (hsort : ss.Pairwise fun a b => ahead m r a < ahead m r b)
    (hin : ∀ s ∈ ss, 1 ≤ ahead m r s ∧ ahead m r s + m / 2 < m) :
    Ordered ((ss.flatMap fun s => [Mark.passed s, Mark.moved s]).foldl (step m) t) := by
  induction ss generalizing r t with
  | nil => exact h.toOrdered
  | cons s ss ih =>
    have hsm := hs s (by simp)
    have hs1 := hin s (by simp)
    rw [List.pairwise_cons] at hsort
    have hslide := h.slide 0 [s] hr (add_ahead hr hsm).symm
      hs1.2 (by simpa using hsm) (List.pairwise_singleton _ _)
      (by simpa using hs1.1) (Nat.zero_le _)
    have hsub : ∀ x ∈ ss, ahead m s x = ahead m r x - ahead m r s := fun x hx =>
      ahead_sub hr hsm (hs x (by simp [hx])) (hsort.1 x hx).le
    refine ih hslide hsm (fun x hx => hs x (by simp [hx])) ?_ ?_
    · refine hsort.2.imp_of_mem fun {a b} ha hb hab => ?_
      have := hsort.1 a ha
      rw [hsub a ha, hsub b hb]
      omega
    · intro x hx
      have h1 := hsort.1 x hx
      have h2 := hin x (by simp [hx])
      rw [hsub x hx]
      omega

/-- The reference is at `r`, and what was passed on lies at most `n` steps beyond it. -/
structure Upto (n r : ℕ) (t : Track) : Prop where
  ref : ∃ p, t.ref = some (r, p) ∧ ∀ x ∈ t.seg, x ≤ p + n

theorem Upto.passed {n r s : ℕ} (h : Upto n r t) (hs : signed m r s ≤ n) :
    Upto n r (t.step m (.passed s)) := by
  obtain ⟨p, hp, hle⟩ := h.ref
  simp only [step, hp]
  refine ⟨p, rfl, ?_⟩
  intro x hx
  rcases List.mem_cons.mp hx with rfl | hx
  · omega
  · exact hle x hx

/-- Numbers ahead of the reference are passed on, and the reference moves by `d`. -/
theorem Upto.slide {n k r v d : ℕ} (h : Upto n r t) (ss : List ℕ) (hr : r < m)
    (hv : v = (r + d) % m) (hn : n ≤ d + k) (hd : d + k + m / 2 < m)
    (hs : ∀ s ∈ ss, s < m ∧ ahead m r s ≤ d + k) :
    Upto k v ((ss.map Mark.passed ++ [Mark.moved v]).foldl (step m) t) := by
  obtain ⟨p, hp, hle⟩ := h.ref
  have hmove : signed m r v = d := hv ▸ signed_add hr (by omega)
  rw [List.foldl_append, foldl_passed ss hp]
  simp only [List.foldl_cons, List.foldl_nil, step, hp]
  refine ⟨_, rfl, ?_⟩
  intro x hx
  rw [hmove]
  rcases List.mem_append.mp hx with hx | hx
  · rw [List.mem_reverse] at hx
    obtain ⟨s, hsm, rfl⟩ := List.mem_map.mp hx
    obtain ⟨hlt, hin⟩ := hs s hsm
    rw [signed_ahead hr hlt (by omega)]
    omega
  · have := hle x hx
    omega

end Track

end Foundations.Circular
