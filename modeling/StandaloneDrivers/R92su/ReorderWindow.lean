import StandaloneDrivers.Foundations.Slots
import StandaloneDrivers.R92su.Reorder

/-! The window invariant of the reorder buffer, and what its loops release. -/
namespace R92su
open Foundations

/-- Steps forward from one sequence number to another. -/
abbrev ahead (a b : ℕ) : ℕ := Circular.ahead 4096 a b

theorem ahead_lt (a b : ℕ) : ahead a b < 4096 := Nat.mod_lt _ (by norm_num)

theorem add_ahead {a b : ℕ} (ha : a < 4096) (hb : b < 4096) : (a + ahead a b) % 4096 = b :=
  Circular.add_ahead ha hb

theorem ahead_add {a d : ℕ} (ha : a < 4096) (hd : d < 4096) : ahead a ((a + d) % 4096) = d := by
  simp only [Circular.ahead]
  omega

theorem ahead_add_left {a b d : ℕ} (ha : a < 4096) (hb : b < 4096) (hd : d ≤ ahead a b) :
    ahead ((a + d) % 4096) b = ahead a b - d := by
  simp only [Circular.ahead] at *
  omega

theorem snSub_eq {a b : ℕ} (hb : b < 4096) : snSub a b = ahead b a := by
  simp only [snSub, Circular.ahead]
  omega

theorem snLess_iff {a b : ℕ} (ha : a < 4096) (hb : b < 4096) :
    snLess a b = true ↔ 1 ≤ ahead a b ∧ ahead a b ≤ 2047 := by
  simp only [snLess, Circular.ahead, decide_eq_true_eq]
  omega

namespace RxTid

def content (tid : RxTid) : Multiset Skb := contents tid.size tid.reorderBuf

/-- Every buffered frame is counted, lies in the window of 32 numbers from `headSeq` on, and
sits in the slot of its distance from `ssn`. -/
structure Fits (tid : RxTid) : Prop where
  size : tid.size = 32
  ssn : tid.ssn < 4096
  head : tid.headSeq < 4096
  len : tid.len = tid.content.card
  placed : ∀ i skb, tid.reorderBuf i = some skb →
    i = tid.slot skb.seq ∧ ahead tid.headSeq skb.seq < 32

namespace Fits
variable {tid : RxTid} (h : tid.Fits)
include h

theorem slot_eq (sn : ℕ) : tid.slot sn = ahead tid.ssn sn % 32 := by
  unfold slot
  rw [snSub_eq h.ssn, h.size]

theorem slot_lt (sn : ℕ) : tid.slot sn < 32 := by
  rw [h.slot_eq]
  exact Nat.mod_lt _ (by norm_num)

/-- Slots follow the sequence numbers around. -/
theorem slot_add {sn : ℕ} (d : ℕ) (hsn : sn < 4096) :
    tid.slot ((sn + d) % 4096) = (tid.slot sn + d) % 32 := by
  have := h.ssn
  simp only [h.slot_eq, Circular.ahead]
  omega

/-- The slot of a number is that of its distance from the head of the window. -/
theorem slot_ahead {sn : ℕ} (hsn : sn < 4096) :
    tid.slot sn = (tid.slot tid.headSeq + ahead tid.headSeq sn) % 32 := by
  rw [← h.slot_add _ h.head, add_ahead h.head hsn]

/-- The frame in the slot at distance `d` has the sequence number at distance `d`. -/
theorem ahead_of_slot {skb : Skb} {d : ℕ} (hd : d < 32)
    (hb : tid.reorderBuf ((tid.slot tid.headSeq + d) % 32) = some skb) :
    ahead tid.headSeq skb.seq = d := by
  obtain ⟨hi, hw⟩ := h.placed _ skb hb
  rw [h.slot_ahead skb.seq_lt] at hi
  omega

/-- No frame is at a distance whose slot is empty. -/
theorem ahead_ne {i d : ℕ} {skb : Skb} (hb : tid.reorderBuf i = some skb)
    (he : tid.reorderBuf ((tid.slot tid.headSeq + d) % 32) = none) :
    ahead tid.headSeq skb.seq ≠ d := by
  rintro rfl
  obtain ⟨hi, -⟩ := h.placed i skb hb
  rw [← h.slot_ahead skb.seq_lt, ← hi, hb] at he
  cases he

theorem len_le : tid.len ≤ 32 := by
  rw [h.len, ← h.size]
  exact card_contents_le

theorem exists_of_len (hl : tid.len ≠ 0) :
    ∃ d < 32, tid.reorderBuf ((tid.slot tid.headSeq + d) % 32) ≠ none := by
  rw [h.len] at hl
  obtain ⟨skb, hm⟩ := Multiset.card_pos_iff_exists_mem.mp (Nat.pos_of_ne_zero hl)
  obtain ⟨i, -, hb⟩ := mem_contents.mp hm
  obtain ⟨hi, hw⟩ := h.placed i skb hb
  refine ⟨_, hw, ?_⟩
  rw [← h.slot_ahead skb.seq_lt, ← hi, hb]
  simp

end Fits

end RxTid

theorem staAllocTid_fits (ssn : ℕ) (h : ssn < 65536) : (staAllocTid ssn).Fits where
  size := rfl
  ssn := by
    simp only [staAllocTid, Nat.shiftRight_eq_div_pow]
    omega
  head := by
    simp only [staAllocTid, Nat.shiftRight_eq_div_pow]
    omega
  len := by
    have hc : (staAllocTid ssn).content = 0 := contents_eq_zero.mpr fun _ _ => rfl
    rw [hc]
    rfl
  placed := by
    intro i skb hb
    cases hb

/-- From `r₀` to `r` the head of the window moved over `n` numbers. The frames released on
the way went to the output queue, each at the place of its number and in the order of their
places; `extra` is what entered the buffer meanwhile. -/
structure Slide (extra : Multiset Skb) (n : ℕ) (r₀ r : Release) : Prop where
  ssn : r.tid.ssn = r₀.tid.ssn
  head : r.tid.headSeq = (r₀.tid.headSeq + n) % 4096
  left : ∃ ps : List (ℕ × Skb), r.queue = r₀.queue ++ ps.map Prod.snd ∧
    r₀.tid.content + extra = ↑(ps.map Prod.snd) + r.tid.content ∧
    ps.Pairwise (fun p q => p.1 < q.1) ∧
    ∀ p ∈ ps, p.1 < n ∧ p.2.seq = (r₀.tid.headSeq + p.1) % 4096

namespace Slide

theorem refl {r : Release} (h : r.tid.headSeq < 4096) : Slide 0 0 r r where
  ssn := rfl
  head := (Nat.mod_eq_of_lt h).symm
  left := ⟨[], by simp⟩

theorem trans {e₁ e₂ : Multiset Skb} {n m : ℕ} {r₀ r₁ r₂ : Release} (h₁ : Slide e₁ n r₀ r₁)
    (h₂ : Slide e₂ m r₁ r₂) : Slide (e₁ + e₂) (n + m) r₀ r₂ where
  ssn := h₂.ssn.trans h₁.ssn
  head := by
    rw [h₂.head, h₁.head, Nat.mod_add_mod, Nat.add_assoc]
  left := by
    obtain ⟨ps, hq₁, hc₁, hp₁, ho₁⟩ := h₁.left
    obtain ⟨qs, hq₂, hc₂, hp₂, ho₂⟩ := h₂.left
    have hmap : (qs.map fun q => (n + q.1, q.2)).map Prod.snd = qs.map Prod.snd := by
      rw [List.map_map]
      rfl
    refine ⟨ps ++ qs.map fun q => (n + q.1, q.2), ?_, ?_, ?_, ?_⟩
    · rw [hq₂, hq₁, List.map_append, hmap, List.append_assoc]
    · calc r₀.tid.content + (e₁ + e₂)
          = ↑(ps.map Prod.snd) + (r₁.tid.content + e₂) := by rw [← add_assoc, hc₁, add_assoc]
        _ = ↑(ps.map Prod.snd) + ↑(qs.map Prod.snd) + r₂.tid.content := by rw [hc₂, add_assoc]
        _ = _ := by rw [List.map_append, hmap, ← Multiset.coe_add]
    · rw [List.pairwise_append]
      refine ⟨hp₁, ?_, ?_⟩
      · rw [List.pairwise_map]
        exact hp₂.imp fun hab => by omega
      · intro a ha b hb
        obtain ⟨q, -, rfl⟩ := List.mem_map.mp hb
        have := (ho₁ a ha).1
        simp only
        omega
    · intro p hp
      rcases List.mem_append.mp hp with hp | hp
      · have := ho₁ p hp
        exact ⟨by omega, this.2⟩
      · obtain ⟨q, hq, rfl⟩ := List.mem_map.mp hp
        obtain ⟨hlt, hseq⟩ := ho₂ q hq
        refine ⟨by simp only; omega, ?_⟩
        rw [hseq, h₁.head, Nat.mod_add_mod, Nat.add_assoc]

end Slide

/-- `headSeq` moves over numbers whose slots are empty. -/
theorem skip_spec {r : Release} (h : r.tid.Fits) {d : ℕ} (hd : d ≤ 32)
    (he : ∀ k < d, r.tid.reorderBuf ((r.tid.slot r.tid.headSeq + k) % 32) = none) :
    let moved := { r with tid := { r.tid with headSeq := snAdd r.tid.headSeq d } }
    moved.tid.Fits ∧ Slide 0 d r moved := by
  intro moved
  have hfar : ∀ i skb, r.tid.reorderBuf i = some skb → d ≤ ahead r.tid.headSeq skb.seq := by
    intro i skb hb
    by_contra hlt
    exact h.ahead_ne hb (he _ (by omega)) rfl
  constructor
  · constructor
    · exact h.size
    · exact h.ssn
    · exact Nat.mod_lt _ (by norm_num)
    · exact h.len
    · intro i skb hb
      obtain ⟨hi, hw⟩ := h.placed i skb hb
      refine ⟨hi, ?_⟩
      have hsub := ahead_add_left h.head skb.seq_lt (hfar i skb hb)
      change ahead ((r.tid.headSeq + d) % 4096) skb.seq < 32
      omega
  · exact ⟨rfl, rfl, [], by simp [moved, RxTid.content]⟩

/-- The frame at the head of the window leaves its slot and the head moves on. -/
theorem RxTid.Fits.clear {tid b : RxTid} (h : tid.Fits) {skb : Skb}
    (hb : tid.reorderBuf (tid.slot tid.headSeq) = some skb) (hssn : b.ssn = tid.ssn)
    (hsize : b.size = tid.size) (hhead : b.headSeq = (tid.headSeq + 1) % 4096)
    (hlen : b.len = tid.len - 1)
    (hbuf : b.reorderBuf = Function.update tid.reorderBuf (tid.slot tid.headSeq) none) :
    b.Fits ∧ tid.content = skb ::ₘ b.content := by
  have hslot := h.slot_lt tid.headSeq
  have hcontent : tid.content = skb ::ₘ b.content := by
    unfold content
    rw [hsize, hbuf]
    exact contents_clear (by rw [h.size]; exact hslot) hb
  have hslots : b.slot = tid.slot := by
    funext sn
    unfold slot
    rw [hssn, hsize]
  refine ⟨⟨hsize.trans h.size, hssn ▸ h.ssn, hhead ▸ Nat.mod_lt _ (by norm_num), ?_, ?_⟩, hcontent⟩
  · have hl := h.len
    rw [hcontent, Multiset.card_cons] at hl
    omega
  · intro i f hf
    rw [hbuf] at hf
    have hne : i ≠ tid.slot tid.headSeq := by
      rintro rfl
      rw [Function.update_self] at hf
      cases hf
    rw [Function.update_of_ne hne] at hf
    obtain ⟨hi, hw⟩ := h.placed i f hf
    have hpos : 1 ≤ ahead tid.headSeq f.seq := by
      by_contra hlt
      rw [h.slot_ahead f.seq_lt] at hi
      omega
    have hsub := ahead_add_left h.head f.seq_lt hpos
    rw [hslots, hhead]
    exact ⟨hi, by omega⟩

/-- A frame that is released at the head of the window leaves at place 0. -/
theorem releaseFrame_spec {r : Release} (h : r.tid.Fits) :
    let r' := reorderReleaseFrame r (r.tid.slot r.tid.headSeq)
    r'.tid.Fits ∧ Slide 0 1 r r' := by
  intro r'
  have hslot := h.slot_lt r.tid.headSeq
  have hzero : (r.tid.slot r.tid.headSeq + 0) % 32 = r.tid.slot r.tid.headSeq :=
    Nat.mod_eq_of_lt hslot
  cases hb : r.tid.reorderBuf (r.tid.slot r.tid.headSeq) with
  | none =>
    have hr' : r' = { r with tid := { r.tid with headSeq := snAdd r.tid.headSeq 1 } } := by
      simp only [r', reorderReleaseFrame, hb, snInc]
    rw [hr']
    apply skip_spec h (by norm_num)
    intro k hk
    rw [Nat.lt_one_iff.mp hk, hzero, hb]
  | some skb =>
    have hdist : ahead r.tid.headSeq skb.seq = 0 := by
      apply h.ahead_of_slot (by norm_num)
      rw [hzero, hb]
    have hr' : r' = { tid := { r.tid with
        len := r.tid.len - 1
        reorderBuf := Function.update r.tid.reorderBuf (r.tid.slot r.tid.headSeq) none
        headSeq := snInc r.tid.headSeq }, queue := r.queue ++ [skb] } := by
      simp only [r', reorderReleaseFrame, hb]
    obtain ⟨hfits, hcontent⟩ := h.clear (b := r'.tid) hb (by rw [hr']) (by rw [hr'])
      (by rw [hr']; rfl) (by rw [hr']) (by rw [hr'])
    refine ⟨hfits, by rw [hr'], by rw [hr']; rfl, [(0, skb)], by rw [hr']; rfl, ?_, by simp, ?_⟩
    · rw [add_zero, hcontent]
      rfl
    · have hadd := add_ahead h.head skb.seq_lt
      rw [hdist] at hadd
      simpa using hadd.symm

/-- The head of the window moves over `d` empty slots and the slot behind them is released. -/
theorem skip_release_spec {r : Release} (h : r.tid.Fits) {d : ℕ} (hd : d ≤ 32)
    (he : ∀ k < d, r.tid.reorderBuf ((r.tid.slot r.tid.headSeq + k) % 32) = none) :
    let moved := { r with tid := { r.tid with headSeq := snAdd r.tid.headSeq d } }
    let r' := reorderReleaseFrame moved ((r.tid.slot r.tid.headSeq + d) % 32)
    r'.tid.Fits ∧ Slide 0 (d + 1) r r' := by
  intro moved r'
  obtain ⟨hfm, hsm⟩ := skip_spec h hd he
  have hslot : moved.tid.slot moved.tid.headSeq = (r.tid.slot r.tid.headSeq + d) % 32 :=
    h.slot_add d h.head
  obtain ⟨hfr, hsr⟩ := releaseFrame_spec (r := moved) hfm
  rw [hslot] at hfr hsr
  exact ⟨hfr, by simpa using hsm.trans hsr⟩

/-- What a loop of the buffer leaves: the invariant, and a slide of at most `n` numbers. -/
def Slides (n : ℕ) (r₀ r : Release) : Prop := r.tid.Fits ∧ ∃ k ≤ n, Slide 0 k r₀ r

theorem releaseFrames_spec {r : Release} (h : r.tid.Fits) {sn : ℕ} (hsn : sn < 4096)
    (hd : ahead r.tid.headSeq sn ≤ 2047) :
    ∃ r', reorderReleaseFrames r sn = some r' ∧ r'.tid.Fits ∧
      Slide 0 (ahead r.tid.headSeq sn) r r' := by
  have hloop := loop_total (c := fun r => snLess r.tid.headSeq sn)
    (b := fun r => reorderReleaseFrame r (r.tid.slot r.tid.headSeq)) (n := maxRounds)
    (fun k s => s.tid.Fits ∧ k = ahead s.tid.headSeq sn ∧ k ≤ ahead r.tid.headSeq sn ∧
      Slide 0 (ahead r.tid.headSeq sn - k) r s) ?_ ⟨h, rfl, le_rfl, ?_⟩ ?_
  · obtain ⟨k, r', hr', ⟨hf, hk, hle, hs⟩, hc⟩ := hloop
    refine ⟨r', hr', hf, ?_⟩
    have hzero : k = 0 := by
      have hn := (snLess_iff hf.head hsn).not.mp (by simpa using hc)
      omega
    rwa [hzero, Nat.sub_zero] at hs
  · rintro k s ⟨hf, hk, hle, hs⟩ hc
    obtain ⟨h1, h2⟩ := (snLess_iff hf.head hsn).mp hc
    obtain ⟨hf', hs'⟩ := releaseFrame_spec hf
    have hsub := ahead_add_left (d := 1) hf.head hsn h1
    rw [← hs'.head] at hsub
    refine ⟨k - 1, by omega, hf', by omega, by omega, ?_⟩
    have ht := hs.trans hs'
    rwa [add_zero, show ahead r.tid.headSeq sn - k + 1 = ahead r.tid.headSeq sn - (k - 1) by omega]
      at ht
  · rw [Nat.sub_self]
    exact Slide.refl h.head
  · exact (ahead_lt r.tid.headSeq sn).le

theorem drain_spec {r : Release} (h : r.tid.Fits) :
    ∃ r', reorderDrain r = some r' ∧ Slides 32 r r' := by
  have hloop := loop_total (c := fun r => (r.tid.reorderBuf (r.tid.slot r.tid.headSeq)).isSome)
    (b := fun r => reorderReleaseFrame r (r.tid.slot r.tid.headSeq)) (n := maxRounds)
    (fun k s => s.tid.Fits ∧ k = s.tid.len ∧ ∃ n, n + k ≤ 32 ∧ Slide 0 n r s) ?_
    ⟨h, rfl, 0, ?_, Slide.refl h.head⟩ ?_
  · obtain ⟨k, r', hr', ⟨hf, -, n, hn, hs⟩, -⟩ := hloop
    exact ⟨r', hr', hf, n, by omega, hs⟩
  · rintro k s ⟨hf, hk, n, hn, hs⟩ hc
    obtain ⟨skb, hb⟩ := Option.isSome_iff_exists.mp hc
    obtain ⟨hf', hs'⟩ := releaseFrame_spec hf
    have hlen : (reorderReleaseFrame s (s.tid.slot s.tid.headSeq)).tid.len = s.tid.len - 1 := by
      simp only [reorderReleaseFrame, hb]
    have hpos : s.tid.len ≠ 0 := by
      rw [hf.len]
      intro hz
      have := contents_eq_zero.mp (Multiset.card_eq_zero.mp hz) _
        (by rw [hf.size]; exact hf.slot_lt s.tid.headSeq)
      rw [hb] at this
      cases this
    refine ⟨k - 1, by omega, hf', by omega, n + 1, by omega, ?_⟩
    simpa using hs.trans hs'
  · rw [Nat.zero_add]
    exact h.len_le
  · exact h.len_le.trans (by norm_num)

/-- The scan started at `r` has `k` slots to go: the head moved over `n` numbers, and the
`skipped` slots from there up to `j` are empty. -/
structure Scan.Going (r : Release) (n k : ℕ) (s : Scan) : Prop where
  count : n + s.skipped + k = 32
  index : s.j = (r.tid.slot r.tid.headSeq + n + s.skipped) % 32
  holes : ∀ d < s.skipped,
    s.rel.tid.reorderBuf ((s.rel.tid.slot s.rel.tid.headSeq + d) % 32) = none

def Scan.Sound (r : Release) (k : ℕ) (s : Scan) : Prop :=
  s.rel.tid.Fits ∧ ∃ n, n + s.skipped ≤ 32 ∧ Slide 0 n r s.rel ∧
    (s.timer = none → s.Going r n k)

theorem Scan.Sound.round {clock : ℕ → BitVec 64} {r : Release} {k : ℕ} {s : Scan}
    (h : r.tid.Fits) (hs : s.Sound r k) (ht : s.timer = none)
    (hj : s.j ≠ r.tid.slot r.tid.headSeq) : ∃ l < k, (s.round clock).Sound r l := by
  obtain ⟨hf, n, hn, hsl, hgo⟩ := hs
  obtain ⟨hk, hindex, hholes⟩ := hgo ht
  have hslot := h.slot_lt r.tid.headSeq
  have hhead : s.rel.tid.slot s.rel.tid.headSeq = (r.tid.slot r.tid.headSeq + n) % 32 := by
    rw [hf.slot_eq, hsl.ssn, ← h.slot_eq, hsl.head, h.slot_add n h.head]
  have hhere : (s.rel.tid.slot s.rel.tid.headSeq + s.skipped) % 32 = s.j := by omega
  have hpos : k ≠ 0 := by omega
  cases hb : s.rel.tid.reorderBuf s.j with
  | none =>
    have hround : s.round clock =
        ⟨s.rel, (s.j + 1) % s.rel.tid.size, s.skipped + 1, s.timer⟩ := by
      simp only [Scan.round, hb]
    rw [hround, hf.size]
    refine ⟨k - 1, by omega, hf, n, by simp only; omega, hsl, fun _ => ⟨?_, ?_, ?_⟩⟩
    · simp only
      omega
    · simp only
      omega
    · intro d hd
      simp only at hd
      rcases Nat.lt_succ_iff_lt_or_eq.mp hd with hd | rfl
      · exact hholes d hd
      · rw [hhere, hb]
  | some skb =>
    by_cases hc : s.skipped ≠ 0 ∧ timeIsAfter (s.rel.tid.reorderTime s.j) (clock s.j)
    · have hround : s.round clock = ⟨s.rel, s.j, s.skipped, some s.j⟩ := by
        simp only [Scan.round, hb, if_pos hc]
      rw [hround]
      exact ⟨0, by omega, hf, n, hn, hsl, by simp⟩
    · obtain ⟨hfr, hsr⟩ := skip_release_spec hf (by omega) hholes
      rw [hhere] at hfr hsr
      have hround : s.round clock = ⟨reorderReleaseFrame { s.rel with
          tid := { s.rel.tid with headSeq := snAdd s.rel.tid.headSeq s.skipped } } s.j,
          (s.j + 1) % s.rel.tid.size, 0, none⟩ := by
        simp only [Scan.round, hb, if_neg hc]
      rw [hround, hf.size]
      refine ⟨k - 1, by omega, hfr, n + (s.skipped + 1), by simp only; omega, ?_,
        fun _ => ⟨?_, ?_, ?_⟩⟩
      · simpa using hsl.trans hsr
      · simp only
        omega
      · simp only
        omega
      · intro d hd
        exact absurd hd (Nat.not_lt_zero d)

theorem scan_spec (clock : ℕ → BitVec 64) {r : Release} (h : r.tid.Fits)
    (he : r.tid.reorderBuf (r.tid.slot r.tid.headSeq) = none) :
    ∃ s, reorderScan clock r (r.tid.slot r.tid.headSeq) = some s ∧ Slides 32 r s.rel := by
  have hslot := h.slot_lt r.tid.headSeq
  have hstart : Scan.Sound r 31 ⟨r, (r.tid.slot r.tid.headSeq + 1) % r.tid.size, 1, none⟩ := by
    refine ⟨h, 0, by norm_num, Slide.refl h.head, fun _ => ⟨rfl, by rw [h.size]; rfl, ?_⟩⟩
    intro d hd
    have hzero : (r.tid.slot r.tid.headSeq + 0) % 32 = r.tid.slot r.tid.headSeq :=
      Nat.mod_eq_of_lt hslot
    rw [Nat.lt_one_iff.mp hd]
    simp only [hzero, he]
  have hloop := loop_total (c := fun s => s.j != r.tid.slot r.tid.headSeq && s.timer.isNone)
    (b := Scan.round clock) (n := maxRounds) (Scan.Sound r) ?_ hstart (by norm_num)
  · obtain ⟨k, s, hs, ⟨hf, n, hn, hsl, -⟩, -⟩ := hloop
    exact ⟨s, hs, hf, n, by omega, hsl⟩
  · intro k s hs hc
    simp only [Bool.and_eq_true, bne_iff_ne, Option.isNone_iff_eq_none] at hc
    exact hs.round h hc.2 hc.1

/-- The search for the slot of the timer ends before it has gone around. -/
theorem findTimer_spec {tid : RxTid} (h : tid.Fits) (hl : tid.len ≠ 0) :
    ∃ j, reorderFindTimer tid (tid.slot tid.headSeq) = some j := by
  obtain ⟨d₀, hd₀, hocc⟩ := h.exists_of_len hl
  have hslot := h.slot_lt tid.headSeq
  have hloop := loop_total (c := fun j : ℕ => (j : ℤ) !=
      Int.tmod ((tid.slot tid.headSeq : ℤ) - 1) tid.size && (tid.reorderBuf j).isNone)
    (b := fun j => (j + 1) % tid.size) (n := maxRounds)
    (fun k j => ∃ d, d + k = d₀ ∧ j = (tid.slot tid.headSeq + d) % 32) ?_ (k := d₀)
    (s := tid.slot tid.headSeq) ⟨0, Nat.zero_add _, ?_⟩ (hd₀.le.trans (by norm_num))
  · obtain ⟨-, j, hj, -, -⟩ := hloop
    exact ⟨j, hj⟩
  · rintro k j ⟨d, hd, rfl⟩ hc
    simp only [Bool.and_eq_true, Option.isNone_iff_eq_none] at hc
    have hne : d ≠ d₀ := by
      rintro rfl
      exact hocc hc.2
    exact ⟨k - 1, by omega, d + 1, by omega, by rw [h.size]; omega⟩
  · exact (Nat.mod_eq_of_lt hslot).symm

theorem timer_spec {r : Release} (h : r.tid.Fits) (t : Option (BitVec 64)) :
    Slides 0 r { r with tid := { r.tid with reorderTimer := t } } :=
  ⟨⟨h.size, h.ssn, h.head, h.len, h.placed⟩, 0, le_rfl, rfl, (Nat.mod_eq_of_lt h.head).symm, [],
    by simp [RxTid.content]⟩

theorem setTimer_spec {r : Release} (h : r.tid.Fits) :
    ∃ r', reorderSetTimer r = some r' ∧ Slides 0 r r' := by
  unfold reorderSetTimer
  split
  · rename_i hl
    obtain ⟨j, hj⟩ := findTimer_spec h hl
    exact ⟨_, by rw [hj]; rfl, timer_spec h _⟩
  · exact ⟨_, rfl, timer_spec h _⟩

theorem Slides.trans {n m : ℕ} {r₀ r₁ r₂ : Release} (h₁ : Slides n r₀ r₁) (h₂ : Slides m r₁ r₂) :
    Slides (n + m) r₀ r₂ := by
  obtain ⟨-, k, hk, hs⟩ := h₁
  obtain ⟨hf, l, hl, hs'⟩ := h₂
  exact ⟨hf, k + l, by omega, by simpa using hs.trans hs'⟩

/-- One call of the release function ends and slides over one window at most. -/
theorem staRelease_spec (clock : ℕ → BitVec 64) {r : Release} (h : r.tid.Fits) :
    ∃ r', reorderStaRelease clock r = some r' ∧ Slides 32 r r' := by
  by_cases hc : r.tid.len ≠ 0 ∧ r.tid.reorderBuf (r.tid.slot r.tid.headSeq) = none
  · obtain ⟨s, hs, hsl⟩ := scan_spec clock h hc.2
    cases ht : s.timer with
    | none =>
      obtain ⟨r', hr', hsl'⟩ := setTimer_spec hsl.1
      exact ⟨r', by simp [reorderStaRelease, hc, hs, ht, hr'], hsl.trans hsl'⟩
    | some j =>
      exact ⟨s.rel.modTimer j, by simp [reorderStaRelease, hc, hs, ht],
        hsl.trans (timer_spec hsl.1 _)⟩
  · obtain ⟨r₁, hr₁, hsl⟩ := drain_spec h
    obtain ⟨r', hr', hsl'⟩ := setTimer_spec hsl.1
    exact ⟨r', by rw [reorderStaRelease, if_neg hc, hr₁]; exact hr', hsl.trans hsl'⟩

end R92su
