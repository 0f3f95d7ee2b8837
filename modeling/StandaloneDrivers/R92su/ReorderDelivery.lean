import StandaloneDrivers.Foundations.Run
import StandaloneDrivers.R92su.ReorderWindow

/-! Every frame the reorder buffers take in is buffered or passed on once, in order. -/
namespace R92su
open Foundations

theorem insert_spec {r : Release} (h : r.tid.Fits) {skb : Skb} (time : ℕ → BitVec 64)
    (hw : ahead r.tid.headSeq skb.seq < 32) (he : r.tid.reorderBuf (r.tid.slot skb.seq) = none) :
    let r' := { r with tid := { r.tid with
      reorderBuf := Function.update r.tid.reorderBuf (r.tid.slot skb.seq) (some skb)
      reorderTime := time
      len := r.tid.len + 1 } }
    r'.tid.Fits ∧ Slide {skb} 0 r r' := by
  intro r'
  have hcontent : r'.tid.content = skb ::ₘ r.tid.content :=
    contents_put (by rw [h.size]; exact h.slot_lt skb.seq) he skb
  constructor
  · constructor
    · exact h.size
    · exact h.ssn
    · exact h.head
    · rw [hcontent, Multiset.card_cons, ← h.len]
    · intro i f hf
      have hget : r'.tid.reorderBuf =
          Function.update r.tid.reorderBuf (r.tid.slot skb.seq) (some skb) := rfl
      rw [hget] at hf
      by_cases hi : i = r.tid.slot skb.seq
      · rw [hi, Function.update_self] at hf
        cases hf
        exact ⟨hi, hw⟩
      · rw [Function.update_of_ne hi] at hf
        exact h.placed i f hf
  · constructor
    · rfl
    · exact (Nat.mod_eq_of_lt h.head).symm
    · refine ⟨[], by simp [r'], ?_, by simp, by simp⟩
      rw [hcontent, ← Multiset.singleton_add, add_comm]
      simp

/-- A frame at the head of an empty window goes straight to the output queue. -/
theorem direct_spec {r : Release} (h : r.tid.Fits) {skb : Skb} (hs : skb.seq = r.tid.headSeq)
    (hl : r.tid.len = 0) :
    let r' := { tid := { r.tid with headSeq := snInc skb.seq }, queue := r.queue ++ [skb] }
    r'.tid.Fits ∧ Slide {skb} 1 r r' := by
  intro r'
  have hempty : ∀ i < r.tid.size, r.tid.reorderBuf i = none :=
    contents_eq_zero.mp (Multiset.card_eq_zero.mp (h.len ▸ hl))
  obtain ⟨hf, hsl⟩ := skip_spec h (d := 1) (by norm_num) fun k _ =>
    hempty _ (by rw [h.size]; exact Nat.mod_lt _ (by norm_num))
  constructor
  · simpa only [r', hs, snInc] using hf
  · constructor
    · rfl
    · simp only [r', hs, snInc, snAdd]
    · refine ⟨[(0, skb)], rfl, ?_, by simp, ?_⟩
      · rw [add_comm]
        rfl
      · simp [hs, Nat.mod_eq_of_lt h.head]

theorem Slide.mem {e : Multiset Skb} {n : ℕ} {r₀ r : Release} (h : Slide e n r₀ r) {skb : Skb}
    (hm : skb ∈ r.tid.content) : skb ∈ r₀.tid.content + e := by
  obtain ⟨ps, -, hc, -⟩ := h.left
  rw [hc]
  exact Multiset.mem_add.mpr (Or.inr hm)

/-- Before a frame is placed the window moves so that its number is the last one in it. -/
theorem window_spec {r : Release} (h : r.tid.Fits) {sn : ℕ} (hsn : sn < 4096)
    (hnew : snLess sn r.tid.headSeq = false) :
    ∃ r₁, (if snLess sn (r.tid.headSeq + r.tid.size) then some r
        else reorderReleaseFrames r (snInc (snSub sn r.tid.size))) = some r₁ ∧
      r₁.tid.Fits ∧ ahead r₁.tid.headSeq sn < 32 ∧ (∃ n ≤ 2017, Slide 0 n r r₁) ∧
      (r₁.tid.reorderBuf (r₁.tid.slot sn) ≠ none → r₁ = r) := by
  have hhead := h.head
  have hd : ahead r.tid.headSeq sn ≤ 2048 := by
    have hn := (snLess_iff hsn h.head).not.mp (by rw [hnew]; decide)
    simp only [Circular.ahead] at *
    omega
  have hin : snLess sn (r.tid.headSeq + r.tid.size) = true ↔ ahead r.tid.headSeq sn < 32 := by
    rw [h.size]
    simp only [snLess, Circular.ahead, decide_eq_true_eq] at *
    omega
  by_cases hw : ahead r.tid.headSeq sn < 32
  · exact ⟨r, if_pos (hin.mpr hw), h, hw, ⟨0, by norm_num, Slide.refl h.head⟩, fun _ => rfl⟩
  · have htarget : snInc (snSub sn r.tid.size) =
        (r.tid.headSeq + (ahead r.tid.headSeq sn - 31)) % 4096 := by
      rw [h.size, snInc, snAdd, snSub_eq (by norm_num)]
      simp only [Circular.ahead] at *
      omega
    have hway : ahead r.tid.headSeq (snInc (snSub sn r.tid.size)) = ahead r.tid.headSeq sn - 31 := by
      rw [htarget, ahead_add h.head (by omega)]
    have htarget_lt : snInc (snSub sn r.tid.size) < 4096 := Nat.mod_lt _ (by norm_num)
    obtain ⟨r₁, hr₁, hf, hs⟩ := releaseFrames_spec h htarget_lt (by rw [hway]; omega)
    rw [hway] at hs
    have hlast : ahead r₁.tid.headSeq sn = 31 := by
      rw [hs.head, ahead_add_left h.head hsn (by omega)]
      omega
    refine ⟨r₁, by rw [if_neg (hin.not.mpr hw), hr₁], hf, by omega,
      ⟨_, by omega, hs⟩, fun hocc => ?_⟩
    obtain ⟨f, hb⟩ := Option.ne_none_iff_exists'.mp hocc
    have hseq : f.seq = sn := by
      have hslot := hf.slot_ahead hsn
      rw [hslot] at hb
      have hdist := hf.ahead_of_slot (by omega) hb
      rw [← add_ahead hf.head f.seq_lt, hdist, add_ahead hf.head hsn]
    have hold := hs.mem (mem_contents.mpr ⟨_, by rw [hf.size]; exact hf.slot_lt sn, hb⟩)
    rw [add_zero] at hold
    obtain ⟨i, -, hi⟩ := mem_contents.mp hold
    have := (h.placed i f hi).2
    rw [hseq] at this
    exact absurd this hw

/-- The call either refuses the frame and changes nothing, or takes it in. -/
theorem locked_spec (hz jiffies : BitVec 64) (clock : ℕ → BitVec 64) (skb : Skb) {r : Release}
    (h : r.tid.Fits) : ∃ d, reorderLocked hz jiffies clock skb r = some d ∧ d.rel.tid.Fits ∧
      (d.control = .rxDrop ∧ d.rel = r ∨
        d.control = .rxContinue ∧ ∃ n < 4096, Slide {skb} n r ⟨d.rel.tid, d.queue skb⟩) := by
  cases hnew : snLess skb.seq r.tid.headSeq with
  | true => exact ⟨⟨.rxDrop, r, true⟩, by simp [reorderLocked, hnew], h, Or.inl ⟨rfl, rfl⟩⟩
  | false =>
    obtain ⟨r₁, hr₁, hf, hw, ⟨n, hn, hs⟩, hsame⟩ := window_spec h skb.seq_lt hnew
    have hrun : reorderLocked hz jiffies clock skb r = reorderPlace hz jiffies clock skb r₁ := by
      rw [reorderLocked, hnew, if_neg Bool.false_ne_true]
      split at hr₁
      · rename_i hin
        rw [if_pos hin, Option.some.inj hr₁]
      · rename_i hout
        rw [if_neg hout, hr₁, Option.bind_some]
    by_cases hocc : r₁.tid.reorderBuf (r₁.tid.slot skb.seq) = none
    · by_cases hdir : skb.seq = r₁.tid.headSeq ∧ r₁.tid.len = 0
      · obtain ⟨hf', hs'⟩ := direct_spec hf hdir.1 hdir.2
        refine ⟨⟨.rxContinue, ⟨{ r₁.tid with headSeq := snInc skb.seq }, r₁.queue⟩, true⟩,
          ?_, hf', Or.inr ⟨rfl, n + 1, by omega, ?_⟩⟩
        · rw [hrun, reorderPlace, if_neg (by simp [hocc]), if_pos hdir]
        · simpa [Reordered.queue] using hs.trans hs'
      · obtain ⟨hfi, hsi⟩ := insert_spec hf
          (Function.update r₁.tid.reorderTime (r₁.tid.slot skb.seq) (jiffies + hz / 10)) hw hocc
        obtain ⟨r₂, hr₂, hf₂, m, hm, hs₂⟩ := staRelease_spec clock hfi
        refine ⟨⟨.rxContinue, r₂, false⟩, ?_, hf₂, Or.inr ⟨rfl, n + 0 + m, by omega, ?_⟩⟩
        · rw [hrun, reorderPlace, if_neg (by simp [hocc]), if_neg hdir, hr₂]
          rfl
        · simpa [Reordered.queue] using (hs.trans hsi).trans hs₂
    · have heq := hsame hocc
      subst heq
      refine ⟨⟨.rxDrop, r₁, true⟩, ?_, h, Or.inl ⟨rfl, rfl⟩⟩
      rw [hrun]
      simp [reorderPlace, Option.isSome_iff_ne_none.mpr hocc]

/-- What became of the frames of one buffer. The place of a frame that was passed on is its
distance along `headSeq`, counted on from the starting number without wrapping around. -/
structure History where
  accepted : Multiset Skb
  out : List (ℕ × Skb)
  place : ℕ

/-- A call that took in `took` and put `queue` out while the head moved from `head₀` to
`head₁`. -/
def History.record (h : History) (took : Multiset Skb) (queue : List Skb) (head₀ head₁ : ℕ) :
    History where
  accepted := h.accepted + took
  out := h.out ++ queue.map fun f => (h.place + ahead head₀ f.seq, f)
  place := h.place + ahead head₀ head₁

/-- A buffer with its history: every frame taken in is buffered or was passed on once, and
the frames left in the order of their places. -/
structure RxTid.Sound (tid : RxTid) (h : History) : Prop extends tid.Fits where
  once : h.accepted = ↑(h.out.map Prod.snd) + tid.content
  order : h.out.Pairwise fun p q => p.1 < q.1
  behind : ∀ p ∈ h.out, p.1 < h.place ∧ p.2.seq = p.1 % 4096
  place : tid.headSeq = h.place % 4096

theorem RxTid.Sound.slide {tid : RxTid} {h : History} (hs : tid.Sound h) {e : Multiset Skb}
    {n : ℕ} (hn : n < 4096) {r : Release} (hf : r.tid.Fits) (hsl : Slide e n ⟨tid, []⟩ r) :
    r.tid.Sound (h.record e r.queue tid.headSeq r.tid.headSeq) := by
  obtain ⟨ps, hq, hc, hp, ho⟩ := hsl.left
  have hmove : ahead tid.headSeq r.tid.headSeq = n := by
    rw [hsl.head]
    exact ahead_add hs.head hn
  have hplaces : (r.queue.map fun f => (h.place + ahead tid.headSeq f.seq, f)) =
      ps.map fun p => (h.place + p.1, p.2) := by
    rw [hq, List.nil_append, List.map_map]
    apply List.map_congr_left
    intro p hpm
    obtain ⟨hlt, hseq⟩ := ho p hpm
    simp only [Function.comp_apply, hseq, ahead_add hs.head (hlt.trans hn)]
  refine ⟨hf, ?_, ?_, ?_, ?_⟩
  · simp only [History.record, List.map_append, hplaces, List.map_map]
    calc h.accepted + e = ↑(h.out.map Prod.snd) + (tid.content + e) := by rw [hs.once, add_assoc]
      _ = ↑(h.out.map Prod.snd) + ↑(ps.map Prod.snd) + r.tid.content := by rw [hc, add_assoc]
      _ = _ := by rw [Multiset.coe_add]; rfl
  · simp only [History.record, hplaces]
    rw [List.pairwise_append, List.pairwise_map]
    refine ⟨hs.order, hp.imp fun hab => by omega, ?_⟩
    intro a ha b hb
    obtain ⟨p, -, rfl⟩ := List.mem_map.mp hb
    have := (hs.behind a ha).1
    simp only
    omega
  · simp only [History.record, hplaces, hmove]
    intro p hpm
    rcases List.mem_append.mp hpm with hpm | hpm
    · have := hs.behind p hpm
      exact ⟨by omega, this.2⟩
    · obtain ⟨q, hqm, rfl⟩ := List.mem_map.mp hpm
      obtain ⟨hlt, hseq⟩ := ho q hqm
      refine ⟨by simp only; omega, ?_⟩
      rw [hseq, hs.place, Nat.mod_add_mod]
  · simp only [History.record, hmove]
    rw [hsl.head, hs.place, Nat.mod_add_mod]

/-- The reorder buffers of all stations with what became of every frame. The output queue of
a call that refuses its frame is purged by the caller. -/
structure Reception where
  tids : RxTids
  hist : ℕ × ℕ → History
  unordered : List Skb
  direct : List Skb
  purged : List Skb

inductive ReorderEvent where
  | frame (skb : Skb) (jiffies : BitVec 64) (clock : ℕ → BitVec 64)
  | expiry (i : ℕ × ℕ) (live : Bool) (clock : ℕ → BitVec 64)

namespace Reception

/-- Buffers with the given starting sequence control fields. -/
def start (ssn : ℕ × ℕ → Option (BitVec 16)) : Reception where
  tids := fun i => (ssn i).map fun n => staAllocTid n.toNat
  hist := fun i => ⟨0, [], ((ssn i).map fun n => n.toNat >>> 4).getD 0⟩
  unordered := []
  direct := []
  purged := []

def headSeq (tids : RxTids) (i : ℕ × ℕ) : ℕ := ((tids i).map RxTid.headSeq).getD 0

def log (s : Reception) (i : ℕ × ℕ) (took : Multiset Skb) (tids : RxTids) (queue : List Skb) :
    Reception :=
  { s with
    tids := tids
    hist := Function.update s.hist i
      ((s.hist i).record took queue (headSeq s.tids i) (headSeq tids i)) }

/-- What the caller does when the call for a frame returns. -/
def settle (s : Reception) (skb : Skb) (control : RxControl) (tids : RxTids)
    (queue : List Skb) : Reception :=
  if control = .rxDrop then { s with tids := tids, purged := s.purged ++ queue }
  else match s.tids.lookup skb with
    | none => { s with
        tids := tids, unordered := s.unordered ++ [skb], direct := s.direct ++ queue }
    | some (i, _) => s.log i {skb} tids queue

def step (hz : BitVec 64) (s : Reception) : ReorderEvent → Option Reception
  | .frame skb jiffies clock =>
      (rxReorderAmpdu hz jiffies clock skb s.tids).map fun (control, tids, queue) =>
        s.settle skb control tids queue
  | .expiry i live clock =>
      (reorderTidTimer live clock i s.tids).map fun (tids, queue) => s.log i 0 tids queue

structure Sound (s : Reception) : Prop where
  buffers : ∀ i tid, s.tids i = some tid → tid.Sound (s.hist i)
  direct : s.direct = s.unordered
  purged : s.purged = []

theorem sound_start (ssn : ℕ × ℕ → Option (BitVec 16)) : (start ssn).Sound where
  buffers := by
    intro i tid ht
    obtain ⟨n, hn, rfl⟩ := Option.map_eq_some_iff.mp ht
    have hfits := staAllocTid_fits n.toNat n.isLt
    have hempty : (staAllocTid n.toNat).content = 0 := contents_eq_zero.mpr fun _ _ => rfl
    simp only [start, hn]
    constructor
    · exact hfits
    · rw [hempty]
      rfl
    · exact List.Pairwise.nil
    · simp
    · exact (Nat.mod_eq_of_lt hfits.head).symm
  direct := rfl
  purged := rfl

/-- What a call does to one buffer is a slide, and leaves the other buffers alone. -/
theorem Sound.log {s : Reception} (hs : s.Sound) {i : ℕ × ℕ} {tid : RxTid}
    (ht : s.tids i = some tid) {e : Multiset Skb} {n : ℕ} (hn : n < 4096) {r : Release}
    (hf : r.tid.Fits) (hsl : Slide e n ⟨tid, []⟩ r) :
    (s.log i e (Function.update s.tids i (some r.tid)) r.queue).Sound where
  buffers := by
    intro j b hb
    by_cases hj : j = i
    · subst hj
      simp only [Reception.log, Function.update_self] at hb
      cases hb
      simp only [Reception.log, headSeq, Function.update_self, ht, Option.map_some,
        Option.getD_some]
      exact (hs.buffers j tid ht).slide hn hf hsl
    · simp only [Reception.log, Function.update_of_ne hj] at hb ⊢
      exact hs.buffers j b hb
  direct := hs.direct
  purged := hs.purged

/-- A timer that does nothing. -/
theorem Sound.idle {s : Reception} (hs : s.Sound) (i : ℕ × ℕ) : (s.log i 0 s.tids []).Sound := by
  have hself : s.log i 0 s.tids [] = s := by
    have hrecord : (s.hist i).record 0 [] (headSeq s.tids i) (headSeq s.tids i) = s.hist i := by
      simp [History.record, Circular.ahead]
    rw [Reception.log, hrecord, Function.update_eq_self]
  rw [hself]
  exact hs

theorem lookup_some {tids : RxTids} {skb : Skb} {i : ℕ × ℕ} {tid : RxTid}
    (h : tids.lookup skb = some (i, tid)) : tids i = some tid := by
  obtain ⟨j, -, hj⟩ := Option.bind_eq_some_iff.mp h
  obtain ⟨b, hb, heq⟩ := Option.map_eq_some_iff.mp hj
  cases heq
  exact hb

/-- A call that refuses its frame has put nothing on the output queue and changed nothing. -/
def RefusesCleanly (s : Reception) (hz : BitVec 64) : Prop :=
  ∀ skb jiffies clock, ∃ control tids queue,
    rxReorderAmpdu hz jiffies clock skb s.tids = some (control, tids, queue) ∧
      (control = .rxDrop → tids = s.tids ∧ queue = [])

theorem Sound.refusesCleanly {s : Reception} (hs : s.Sound) (hz : BitVec 64) :
    s.RefusesCleanly hz := by
  intro skb jiffies clock
  cases hl : s.tids.lookup skb with
  | none => exact ⟨.rxContinue, s.tids, [skb], by simp only [rxReorderAmpdu, hl], by simp⟩
  | some p =>
    obtain ⟨i, tid⟩ := p
    have ht := lookup_some hl
    obtain ⟨d, hd, -, hcase⟩ := locked_spec hz jiffies clock skb (r := ⟨tid, []⟩)
      (hs.buffers i tid ht).toFits
    refine ⟨d.control, _, d.queue skb, by simp only [rxReorderAmpdu, hl, hd]; rfl, ?_⟩
    intro hdrop
    rcases hcase with ⟨-, hrel⟩ | ⟨hcont, -⟩
    · constructor
      · rw [hrel, ← ht, Function.update_eq_self]
      · simp only [Reordered.queue, hdrop, hrel]
        rfl
    · rw [hcont] at hdrop
      cases hdrop

theorem Sound.step (hz : BitVec 64) {s : Reception} (hs : s.Sound) (e : ReorderEvent) :
    ∃ t, Reception.step hz s e = some t ∧ t.Sound := by
  cases e with
  | frame skb jiffies clock =>
    cases hl : s.tids.lookup skb with
    | none =>
      refine ⟨s.settle skb .rxContinue s.tids [skb], ?_, ?_⟩
      · simp only [Reception.step, rxReorderAmpdu, hl]
        rfl
      · simp only [settle, hl]
        exact ⟨hs.buffers, by simp only [hs.direct]; rfl, hs.purged⟩
    | some p =>
      obtain ⟨i, tid⟩ := p
      have ht := lookup_some hl
      obtain ⟨d, hd, hf, hcase⟩ := locked_spec hz jiffies clock skb (r := ⟨tid, []⟩)
        (hs.buffers i tid ht).toFits
      refine ⟨s.settle skb d.control (Function.update s.tids i (some d.rel.tid)) (d.queue skb),
        ?_, ?_⟩
      · simp only [Reception.step, rxReorderAmpdu, hl, hd]
        rfl
      · rcases hcase with ⟨hdrop, hrel⟩ | ⟨hcont, n, hn, hsl⟩
        · have hsame : Function.update s.tids i (some d.rel.tid) = s.tids := by
            rw [hrel, ← ht, Function.update_eq_self]
          have hqueue : d.queue skb = [] := by
            simp only [Reordered.queue, hdrop, hrel]
            rfl
          rw [settle, if_pos hdrop, hsame, hqueue, List.append_nil]
          exact hs
        · rw [settle, if_neg (by rw [hcont]; decide), hl]
          exact hs.log (r := ⟨d.rel.tid, d.queue skb⟩) ht hn hf hsl
  | expiry i live clock =>
    cases ht : s.tids i with
    | none =>
      refine ⟨s.log i 0 s.tids [], ?_, ?_⟩
      · simp only [Reception.step, reorderTidTimer, ht]
        rfl
      · exact hs.idle i
    | some tid =>
      cases live with
      | false =>
        refine ⟨s.log i 0 s.tids [], ?_, ?_⟩
        · simp only [Reception.step, reorderTidTimer, ht]
          rfl
        · exact hs.idle i
      | true =>
        obtain ⟨r, hr, hf, n, hn, hsl⟩ := staRelease_spec clock (r := ⟨tid, []⟩)
          (hs.buffers i tid ht).toFits
        refine ⟨s.log i 0 (Function.update s.tids i (some r.tid)) r.queue, ?_, ?_⟩
        · simp only [Reception.step, reorderTidTimer, ht, hr]
          rfl
        · exact hs.log ht (by omega) hf hsl

/-- In every run of the reorder buffers, whatever frames and timer expiries it is made of,
every loop ends, the window invariant holds, and the frames taken in are buffered or were
passed on exactly once and in order; no refused frame has put anything out. -/
theorem run_sound (hz : BitVec 64) (ssn : ℕ × ℕ → Option (BitVec 16)) (es : List ReorderEvent) :
    ∃ s, es.foldlM (step hz) (start ssn) = some s ∧ s.Sound ∧ s.RefusesCleanly hz := by
  obtain ⟨s, hrun, hs⟩ := foldlM_invariant Sound (fun _ e h => h.step hz e) es (sound_start ssn)
  exact ⟨s, hrun, hs, hs.refusesCleanly hz⟩

end Reception

end R92su
