import StandaloneDrivers.R92su.Receive
import Mathlib.Tactic

/-! Replay protection: what the stages of the receive handler do to the counter of a key, and
which packet numbers get past them. -/
namespace R92su
open Foundations

/-- The keys with a receive counter. -/
def Key.Counts (key : Key) : Prop := key.type = .tkip ∨ key.type = .aesccmp

/-- The Michael MIC at the end of a frame whose IV has been stripped. -/
def MicMatches (key : Key) (skb : Skb) : Prop :=
  skb.hdrlen + 12 ≤ skb.data.length ∧
    michaelMic (key.material.drop 24) skb
        ((skb.data.drop skb.hdrlen).take (skb.data.length - skb.hdrlen - 12)) =
      (skb.data.drop (skb.data.length - 12)).take 8

theorem setRxSeq_some {keys : ℕ → Key} {skb : Skb} {k : ℕ} (hk : skb.cb.key = some k) :
    setRxSeq keys skb = Function.update keys k { keys k with rxSeq := skb.cb.iv } := by
  simp only [setRxSeq, hk]

theorem setRxSeq_twice {keys : ℕ → Key} {skb t : Skb} (h : t.cb = skb.cb) :
    setRxSeq (setRxSeq keys skb) t = setRxSeq keys skb := by
  cases hk : skb.cb.key with
  | none => simp only [setRxSeq, h, hk]
  | some k => simp only [setRxSeq, h, hk, Function.update_self, Function.update_idem]

theorem ivStripped_cb {ivLen : ℕ} {skb t : Skb} {control : RxControl}
    (h : ivStripped ivLen skb = (control, t)) : t.cb = skb.cb := by
  unfold ivStripped at h
  split at h <;> cases h <;> rfl

theorem trimmed_cb (removeLen : ℕ) (skb : Skb) : (trimmed removeLen skb).2.cb = skb.cb := by
  unfold trimmed
  split <;> rfl

theorem mergeQueue_cb (queue : List Skb) (skb : Skb) : (mergeQueue queue skb).cb = skb.cb := by
  induction queue with
  | nil => rfl
  | cons tmp queue ih => exact ih

/-- A frame that gets past the first stage has a number above the counter of its key. -/
theorem rxIvHandle_continue {keys : ℕ → Key} {skb t : Skb}
    (h : rxIvHandle keys skb = (.rxContinue, t)) : t.cb.key = skb.cb.key ∧
      ∀ k, skb.cb.key = some k → (keys k).Counts → (keys k).rxSeq < t.cb.iv := by
  unfold rxIvHandle at h
  cases hkey : skb.cb.key with
  | none =>
    simp only [hkey, Option.map_none, Prod.mk.injEq, true_and] at h
    subst h
    exact ⟨hkey, fun k hk => nomatch hk⟩
  | some k =>
    simp only [hkey, Option.map_some] at h
    constructor
    · split at h
      · rw [ivStripped_cb h, hkey]
      · rw [ivStripped_cb h, hkey]
      · split_ifs at h
        · cases h
        · cases h
        · exact congrArg RxInfo.key (ivStripped_cb h)
      · split_ifs at h
        · cases h
        · cases h
        · exact congrArg RxInfo.key (ivStripped_cb h)
      · cases h
    · rintro k' hk' (htype | htype)
      · cases hk'
        simp only [htype] at h
        split_ifs at h with hext hseq
        · cases h
        · cases h
        · rw [ivStripped_cb h]
          exact not_le.mp hseq
      · cases hk'
        simp only [htype] at h
        split_ifs at h with hext hseq
        · cases h
        · cases h
        · rw [ivStripped_cb h]
          exact not_le.mp hseq

/-- The second stage moves the counter of a TKIP key only, and only behind a good MIC. -/
theorem rxIcvMicHandle_keys {keys keys' : ℕ → Key} {skb t : Skb} {control : RxControl}
    (h : rxIcvMicHandle keys skb = (control, keys', t)) : t.cb = skb.cb ∧
      (keys' = keys ∨ ∃ k, skb.cb.key = some k ∧ (keys k).type = .tkip ∧
        MicMatches (keys k) skb ∧ keys' = setRxSeq keys skb) := by
  unfold rxIcvMicHandle at h
  cases hkey : skb.cb.key with
  | none =>
    simp only [hkey, Option.map_none] at h
    cases h
    exact ⟨rfl, Or.inl rfl⟩
  | some k =>
    simp only [hkey, Option.map_some] at h
    split at h
    · cases h
      exact ⟨trimmed_cb _ _, Or.inl rfl⟩
    · cases h
      exact ⟨trimmed_cb _ _, Or.inl rfl⟩
    · rename_i htype
      split_ifs at h with hlen hmic
      · cases h
        exact ⟨rfl, Or.inl rfl⟩
      · cases h
        exact ⟨rfl, Or.inl rfl⟩
      · cases h
        exact ⟨trimmed_cb _ _, Or.inr ⟨k, rfl, htype, ⟨not_lt.mp hlen, not_not.mp hmic⟩, rfl⟩⟩
    · cases h
      exact ⟨trimmed_cb _ _, Or.inl rfl⟩
    · cases h
      exact ⟨rfl, Or.inl rfl⟩

/-- A TKIP frame that gets past the second stage has a good MIC. -/
theorem rxIcvMicHandle_tkip {keys keys' : ℕ → Key} {skb t : Skb} {k : ℕ}
    (h : rxIcvMicHandle keys skb = (.rxContinue, keys', t)) (hk : skb.cb.key = some k)
    (htype : (keys k).type = .tkip) : MicMatches (keys k) skb ∧ keys' = setRxSeq keys skb := by
  unfold rxIcvMicHandle at h
  simp only [hk, Option.map_some, htype] at h
  split_ifs at h with hlen hmic
  · cases h
  · cases h
  · exact ⟨⟨not_lt.mp hlen, not_not.mp hmic⟩, (congrArg (fun r => r.2.1) h).symm⟩

theorem rxDefrag_cb (key : Option Key) (expanded : Bool) (skb : Skb) (defrag : DefragEntry) :
    (rxDefrag key expanded skb defrag).2.2.cb = skb.cb := by
  unfold rxDefrag
  split_ifs <;> first | rfl | exact mergeQueue_cb _ _

/-- The last stage stores the number of the frame. -/
theorem rxIvCheck_keys {keys keys' : ℕ → Key} {skb : Skb} {control : RxControl}
    (h : rxIvCheck keys skb = (control, keys')) :
    (∀ k, skb.cb.key = some k → (keys k).Counts → keys' = setRxSeq keys skb) ∧
      (keys' = keys ∨ ∃ k, skb.cb.key = some k ∧ (keys k).Counts ∧ keys' = setRxSeq keys skb) := by
  unfold rxIvCheck at h
  cases hkey : skb.cb.key with
  | none =>
    simp only [hkey, Option.map_none] at h
    cases h
    exact ⟨fun k hk => (nomatch hk), Or.inl rfl⟩
  | some k =>
    simp only [hkey, Option.map_some] at h
    constructor
    · rintro k' hk' (htype | htype)
      · cases hk'
        simp only [htype] at h
        exact (congrArg Prod.snd h).symm
      · cases hk'
        simp only [htype] at h
        exact (congrArg Prod.snd h).symm
    · split at h
      · exact Or.inl (congrArg Prod.snd h).symm
      · exact Or.inl (congrArg Prod.snd h).symm
      · rename_i htype
        exact Or.inr ⟨k, rfl, Or.inl htype, (congrArg Prod.snd h).symm⟩
      · rename_i htype
        exact Or.inr ⟨k, rfl, Or.inr htype, (congrArg Prod.snd h).symm⟩
      · exact Or.inl (congrArg Prod.snd h).symm

/-- The counters after the last stage, when the second may have stored the number before. -/
theorem rxIvCheck_twice {keys keys₂ keys₄ : ℕ → Key} {skb t : Skb} {control : RxControl}
    (hcb : t.cb = skb.cb)
    (hmid : keys₂ = keys ∨ ∃ k, skb.cb.key = some k ∧ (keys k).type = .tkip ∧
      MicMatches (keys k) skb ∧ keys₂ = setRxSeq keys skb)
    (h : rxIvCheck keys₂ t = (control, keys₄)) :
    (∀ k, skb.cb.key = some k → (keys k).Counts → keys₄ = setRxSeq keys skb) ∧
      (keys₄ = keys ∨ ∃ k, skb.cb.key = some k ∧ (keys k).Counts) := by
  obtain ⟨hcounts, hcases⟩ := rxIvCheck_keys h
  rw [hcb] at hcounts hcases
  rcases hmid with rfl | ⟨k, hk, htype, -, rfl⟩
  · have hsame : setRxSeq keys₂ t = setRxSeq keys₂ skb := by
      simp only [setRxSeq, hcb]
    rw [hsame] at hcounts hcases
    exact ⟨hcounts, hcases.imp_right fun ⟨k, hk, hc, _⟩ => ⟨k, hk, hc⟩⟩
  · constructor
    · intro k' hk' _
      rw [hk] at hk'
      cases hk'
      rw [hcounts k hk (Or.inl (by rw [setRxSeq_some hk, Function.update_self]; exact htype)),
        setRxSeq_twice hcb]
    · exact Or.inr ⟨k, hk, Or.inl htype⟩

namespace RxContext

/-- The stages behind the key lookup. -/
def passStages (s : RxContext) (expanded : Bool) (skb : Skb) : RxContext × Option Skb :=
  match rxIvHandle s.keys skb with
  | (.rxContinue, skb) =>
    match rxIcvMicHandle s.keys skb with
    | (.rxContinue, keys, skb) =>
      match RxContext.defragStage { s with keys := keys } expanded skb with
      | (.rxContinue, s, skb) =>
        match rxIvCheck s.keys skb with
        | (.rxContinue, keys) => ({ s with keys := keys }, some skb)
        | (_, keys) => ({ s with keys := keys }, none)
      | (_, s, _) => (s, none)
    | (_, keys, _) => ({ s with keys := keys }, none)
  | _ => (s, none)

theorem prepare_eq (bss : BssPriv) (s : RxContext) (mpdu : Mpdu) : s.prepare bss mpdu =
    match rxFindKey bss mpdu.skb with
    | (.rxContinue, skb) => s.passStages mpdu.expanded skb
    | _ => (s, none) := rfl

/-- The frame gets past the first stage and its MIC is right under key `k`. -/
def MicVerified (s : RxContext) (k : ℕ) (skb : Skb) : Prop :=
  ∃ t, rxIvHandle s.keys skb = (.rxContinue, t) ∧ MicMatches (s.keys k) t

/-- The counter of the frame's key takes the number that the first stage decodes. -/
def Advanced (s : RxContext) (skb : Skb) (keys : ℕ → Key) : Prop :=
  ∃ k t, skb.cb.key = some k ∧ rxIvHandle s.keys skb = (.rxContinue, t) ∧
    (s.keys k).rxSeq < t.cb.iv ∧
    keys = Function.update s.keys k { s.keys k with rxSeq := t.cb.iv } ∧
    ((s.keys k).type = .tkip → s.MicVerified k skb)

/-- The stages leave all counters alone or store a higher number for the key of the frame. A
frame that gets past all of them has stored its own. -/
theorem passStages_keys (s : RxContext) (expanded : Bool) (skb : Skb) :
    let r := s.passStages expanded skb
    (r.1.keys = s.keys ∨ s.Advanced skb r.1.keys) ∧
      ∀ t ∈ r.2, t.cb.key = skb.cb.key ∧ ∀ k, skb.cb.key = some k → (s.keys k).Counts →
        (s.keys k).rxSeq < t.cb.iv ∧
        r.1.keys = Function.update s.keys k { s.keys k with rxSeq := t.cb.iv } := by
  intro r
  cases hiv : rxIvHandle s.keys skb with
  | mk c₁ skb₁ =>
    by_cases hc₁ : c₁ = .rxContinue
    swap
    · have hr : r = (s, none) := by
        simp only [r, passStages, hiv]
        cases c₁ <;> first | rfl | exact absurd rfl hc₁
      rw [hr]
      exact ⟨Or.inl rfl, by simp⟩
    subst hc₁
    obtain ⟨hkey₁, habove⟩ := rxIvHandle_continue hiv
    cases hmic : rxIcvMicHandle s.keys skb₁ with
    | mk c₂ rest =>
      obtain ⟨keys₂, skb₂⟩ := rest
      obtain ⟨hcb₂, hkeys₂⟩ := rxIcvMicHandle_keys hmic
      have hstopped : keys₂ = s.keys ∨ s.Advanced skb keys₂ := by
        rcases hkeys₂ with hsame | ⟨k, hk, htype, hmatch, hset⟩
        · exact Or.inl hsame
        · have hkey := hkey₁ ▸ hk
          exact Or.inr ⟨k, skb₁, hkey, hiv, habove k hkey (Or.inl htype),
            hset.trans (setRxSeq_some hk), fun _ => ⟨skb₁, hiv, hmatch⟩⟩
      by_cases hc₂ : c₂ = .rxContinue
      swap
      · have hr : r = ({ s with keys := keys₂ }, none) := by
          simp only [r, passStages, hiv, hmic]
        rw [hr]
        exact ⟨hstopped, by simp⟩
      subst hc₂
      have hcb₃ := rxDefrag_cb (skb₂.cb.key.map keys₂) expanded skb₂
        (s.defrag (skb₂.cb.sta, skb₂.queueMapping))
      cases hdefrag : RxContext.defragStage { s with keys := keys₂ } expanded skb₂ with
      | mk c₃ rest =>
        obtain ⟨s₃, skb₃⟩ := rest
        have hskb₃ : skb₃.cb = skb₁.cb := by
          have hcb := congrArg (fun r => r.2.2.cb) hdefrag
          exact hcb.symm.trans (hcb₃.trans hcb₂)
        have hkeys₃ : s₃.keys = keys₂ := (congrArg (fun r => r.2.1.keys) hdefrag).symm
        by_cases hc₃ : c₃ = .rxContinue
        swap
        · have hr : r = (s₃, none) := by
            simp only [r, passStages, hiv, hmic, hdefrag]
          rw [hr]
          exact ⟨by rw [hkeys₃]; exact hstopped, by simp⟩
        subst hc₃
        cases hcheck : rxIvCheck s₃.keys skb₃ with
        | mk c₄ keys₄ =>
          rw [hkeys₃] at hcheck
          obtain ⟨hcounts, hcases⟩ := rxIvCheck_twice hskb₃ hkeys₂ hcheck
          have hstored : ∀ k, skb.cb.key = some k → (s.keys k).Counts →
              (s.keys k).rxSeq < skb₁.cb.iv ∧
              keys₄ = Function.update s.keys k { s.keys k with rxSeq := skb₁.cb.iv } := by
            intro k hk hc
            have hk₁ := hkey₁.trans hk
            exact ⟨habove k hk hc, (hcounts k hk₁ hc).trans (setRxSeq_some hk₁)⟩
          have hkeys₄ : keys₄ = s.keys ∨ s.Advanced skb keys₄ := by
            rcases hcases with hsame | ⟨k, hk₁, hc⟩
            · exact Or.inl hsame
            · have hk := hkey₁ ▸ hk₁
              obtain ⟨hlt, hset⟩ := hstored k hk hc
              exact Or.inr ⟨k, skb₁, hk, hiv, hlt, hset, fun htype =>
                ⟨skb₁, hiv, (rxIcvMicHandle_tkip hmic hk₁ htype).1⟩⟩
          by_cases hc₄ : c₄ = .rxContinue
          · have hr : r = ({ s₃ with keys := keys₄ }, some skb₃) := by
              simp only [r, passStages, hiv, hmic, hdefrag, hkeys₃, hcheck, hc₄]
            rw [hr]
            refine ⟨hkeys₄, ?_⟩
            intro t ht
            cases ht
            rw [hskb₃]
            exact ⟨hkey₁, hstored⟩
          · have hr : r = ({ s₃ with keys := keys₄ }, none) := by
              simp only [r, passStages, hiv, hmic, hdefrag, hkeys₃, hcheck]
            rw [hr]
            exact ⟨hkeys₄, by simp⟩

/-- A frame is looked up its key before the stages look at the counters. -/
theorem prepare_keys (bss : BssPriv) (s : RxContext) (mpdu : Mpdu) :
    let r := s.prepare bss mpdu
    (r.1.keys = s.keys ∨ s.Advanced (rxFindKey bss mpdu.skb).2 r.1.keys) ∧
      ∀ t ∈ r.2, ∀ k, t.cb.key = some k → (s.keys k).Counts → (s.keys k).rxSeq < t.cb.iv ∧
        r.1.keys = Function.update s.keys k { s.keys k with rxSeq := t.cb.iv } := by
  intro r
  cases hfind : rxFindKey bss mpdu.skb with
  | mk control skb =>
    by_cases hc : control = .rxContinue
    · subst hc
      have hr : r = s.passStages mpdu.expanded skb := by
        simp only [r, prepare_eq, hfind]
      obtain ⟨hkeys, hpass⟩ := passStages_keys s mpdu.expanded skb
      rw [hr]
      refine ⟨hkeys, fun t ht k hk => ?_⟩
      obtain ⟨hkey, hstored⟩ := hpass t ht
      exact hstored k (hkey ▸ hk)
    · have hr : r = (s, none) := by
        simp only [r, prepare_eq, hfind]
        cases control <;> first | rfl | exact absurd rfl hc
      rw [hr]
      exact ⟨Or.inl rfl, by simp⟩

end RxContext

/-- The receive path with the frames that got past all its stages, oldest first. -/
structure ReplayLog extends RxContext where
  passed : List Skb

namespace ReplayLog

def start (s : RxContext) : ReplayLog := ⟨s, []⟩

/-- An MPDU, and the stations and keys at the time it is handled. -/
def step (s : ReplayLog) (e : BssPriv × Mpdu) : ReplayLog :=
  let r := s.toRxContext.prepare e.1 e.2
  ⟨r.1, s.passed ++ r.2.toList⟩

/-- The packet numbers that got past the stages under key `k`. -/
def numbers (k : ℕ) (s : ReplayLog) : List ℕ :=
  (s.passed.filter fun skb => skb.cb.key == some k).map fun skb => skb.cb.iv

/-- The numbers passed on so far increase, between the first counter and the present one. -/
structure Ordered (k : ℕ) (key : Key) (s : ReplayLog) : Prop where
  type : (s.keys k).type = key.type
  above : key.rxSeq ≤ (s.keys k).rxSeq
  sorted : (s.numbers k).Pairwise (· < ·)
  range : ∀ n ∈ s.numbers k, key.rxSeq < n ∧ n ≤ (s.keys k).rxSeq

theorem numbers_step (k : ℕ) (s : ReplayLog) (e : BssPriv × Mpdu) : (s.step e).numbers k =
    s.numbers k ++ ((s.prepare e.1 e.2).2.toList.filter fun skb => skb.cb.key == some k).map
      fun skb => skb.cb.iv := by
  simp only [numbers, step, List.filter_append, List.map_append]

theorem Ordered.start (k : ℕ) (s : RxContext) : Ordered k (s.keys k) (ReplayLog.start s) where
  type := rfl
  above := le_rfl
  sorted := List.Pairwise.nil
  range := by simp [ReplayLog.start, numbers]

/-- What a step does to one key with a counter. -/
theorem step_key (k : ℕ) (s : ReplayLog) (e : BssPriv × Mpdu) (hc : (s.keys k).Counts) :
    ((s.step e).keys k).type = (s.keys k).type ∧
      ((s.keys k).rxSeq ≤ ((s.step e).keys k).rxSeq) ∧
      ((s.step e).numbers k = s.numbers k ∨ ∃ n, (s.keys k).rxSeq < n ∧
        ((s.step e).keys k).rxSeq = n ∧ (s.step e).numbers k = s.numbers k ++ [n]) := by
  obtain ⟨hkeys, hpass⟩ := RxContext.prepare_keys e.1 s.toRxContext e.2
  have hstep : (s.step e).keys = (s.prepare e.1 e.2).1.keys := rfl
  have hmoved : ((s.step e).keys k).type = (s.keys k).type ∧
      (s.keys k).rxSeq ≤ ((s.step e).keys k).rxSeq := by
    rw [hstep]
    rcases hkeys with hsame | ⟨j, t, -, -, hlt, hset, -⟩
    · rw [hsame]
      exact ⟨rfl, le_rfl⟩
    · rw [hset]
      by_cases hj : k = j
      · subst hj
        rw [Function.update_self]
        exact ⟨rfl, hlt.le⟩
      · rw [Function.update_of_ne hj]
        exact ⟨rfl, le_rfl⟩
  refine ⟨hmoved.1, hmoved.2, ?_⟩
  rw [numbers_step]
  cases hr : (s.prepare e.1 e.2).2 with
  | none => simp
  | some t =>
    by_cases hk : t.cb.key = some k
    · obtain ⟨hlt, hset⟩ := hpass t hr k hk hc
      refine Or.inr ⟨t.cb.iv, hlt, ?_, by simp [hk]⟩
      rw [hstep, hset, Function.update_self]
    · exact Or.inl (by simp [hk])

theorem Ordered.step {k : ℕ} {key : Key} (hc : key.Counts) {s : ReplayLog}
    (h : Ordered k key s) (e : BssPriv × Mpdu) : Ordered k key (s.step e) := by
  have hcounts : (s.keys k).Counts := by
    unfold Key.Counts
    rw [h.type]
    exact hc
  obtain ⟨htype, habove, hnumbers⟩ := step_key k s e hcounts
  have hmono : ∀ n ∈ s.numbers k, key.rxSeq < n ∧ n ≤ ((s.step e).keys k).rxSeq := by
    intro n hn
    obtain ⟨hlo, hhi⟩ := h.range n hn
    exact ⟨hlo, hhi.trans habove⟩
  rcases hnumbers with hsame | ⟨n, hlt, hset, hadd⟩
  · exact {
      type := htype.trans h.type
      above := h.above.trans habove
      sorted := by rw [hsame]; exact h.sorted
      range := by rw [hsame]; exact hmono }
  · exact {
      type := htype.trans h.type
      above := h.above.trans habove
      sorted := by
        rw [hadd, List.pairwise_append]
        refine ⟨h.sorted, List.pairwise_singleton _ _, ?_⟩
        intro x hx y hy
        rw [List.mem_singleton.mp hy]
        exact (h.range x hx).2.trans_lt hlt
      range := by
        intro x hx
        rw [hadd, List.mem_append, List.mem_singleton] at hx
        rcases hx with hx | rfl
        · exact hmono x hx
        · exact ⟨h.above.trans_lt hlt, hset.ge⟩ }

/-- In every run the numbers accepted under a key increase from its first counter on, and a
TKIP counter moves only with a frame whose Michael MIC is right. -/
theorem replay_protected (s : RxContext) (es : List (BssPriv × Mpdu)) (k : ℕ)
    (hc : (s.keys k).Counts) :
    let r := run step (ReplayLog.start s) es
    (r.numbers k).Pairwise (· < ·) ∧ (∀ n ∈ r.numbers k, (s.keys k).rxSeq < n) ∧
      ∀ e : BssPriv × Mpdu, (s.keys k).type = .tkip →
        ((r.step e).keys k).rxSeq = (r.keys k).rxSeq ∨
          r.MicVerified k (rxFindKey e.1 e.2.skb).2 := by
  intro r
  have h : Ordered k (s.keys k) r :=
    run_invariant (Ordered k (s.keys k)) (fun _ e hs => hs.step hc e) es (Ordered.start k s)
  refine ⟨h.sorted, fun n hn => (h.range n hn).1, ?_⟩
  intro e htype
  rcases (RxContext.prepare_keys e.1 r.toRxContext e.2).1 with hsame |
      ⟨j, t, -, -, -, hset, hmic⟩
  · exact Or.inl (congrArg (fun keys => (keys k).rxSeq) hsame)
  · by_cases hj : k = j
    · subst hj
      exact Or.inr (hmic (h.type.trans htype))
    · refine Or.inl ?_
      have hkeys : (r.step e).keys = Function.update r.keys j 
          { r.keys j with rxSeq := t.cb.iv } := hset
      rw [hkeys, Function.update_of_ne hj]

/-- A CCMP frame with packet number `pn` and a MIC. -/
def ccmpMpdu (pn : ℕ) : BssPriv × Mpdu :=
  (⟨0, fun _ => true, fun _ => some 0, fun _ => none, 0x888e, true⟩,
    ⟨[0x08, 0x42] ++ List.replicate 22 0 ++ [UInt8.ofNat pn, 0, 0, 0x20, 0, 0, 0, 0] ++
      List.replicate 9 0, 0, 0, true⟩)

/-- Two frames are accepted, the first of them again is not. -/
theorem replay_protected_three :
    let r := run step (ReplayLog.start ⟨fun _ => ⟨.aesccmp, 4, []⟩, fun _ => ⟨[], 0⟩⟩)
      [ccmpMpdu 5, ccmpMpdu 7, ccmpMpdu 5]
    r.numbers 0 = [5, 7] ∧ (r.numbers 0).Pairwise (· < ·) ∧ (∀ n ∈ r.numbers 0, 4 < n) := by
  have h := replay_protected ⟨fun _ => ⟨.aesccmp, 4, []⟩, fun _ => ⟨[], 0⟩⟩
    [ccmpMpdu 5, ccmpMpdu 7, ccmpMpdu 5] 0 (Or.inr rfl)
  exact ⟨by decide, h.1, h.2.1⟩

end ReplayLog

end R92su
