import StandaloneDrivers.R92su.FrameReads

/-! The frames long enough for every read, and for every header to stay whole (rx.c). -/
namespace R92su
open Foundations

/-- The key `r92su_rx_find_key` finds. -/
def foundKey (bss : BssPriv) (skb : Skb) : Option ℕ :=
  bss.groupKey ((skb.iv 3 >>> 6) &&& 3) <|> skb.cb.sta.bind bss.staKey <|> bss.staKey bss.sta

/-- Behind the header there is all that the frame's cipher puts there, as far as it is read or
stripped. -/
def KeyRoom (key : Key) (skb : Skb) : Prop :=
  match key.type with
  | .wep40 | .wep104 => skb.hdrlen + 8 ≤ skb.data.length
  | .tkip => skb.extIv = true → skb.hdrlen + 8 ≤ skb.data.length
  | .aesccmp => skb.extIv = true → skb.hdrlen + 8 ≤ skb.data.length ∧
      (key.rxSeq < skb.ccmpSeq → skb.hdrlen + 16 ≤ skb.data.length)
  | _ => True

def LongEnough (bss : BssPriv) (keys : ℕ → Key) (skb : Skb) : Prop :=
  skb.cb.hasProtect = true → skb.hdrlen + 4 ≤ skb.data.length ∧
    ∀ k, foundKey bss skb = some k → KeyRoom (keys k) skb

/-- A header of a data frame holds the addresses, and the priority where it has one. -/
theorem hdrlen_data {fc : ℕ} (h : isData fc = true) : 24 ≤ hdrlen fc ∧ getDA fc + 6 ≤ hdrlen fc ∧
    getSA fc + 6 ≤ hdrlen fc ∧
    (isDataQos fc = true → (if hasA4 fc then 30 else 24) + 1 ≤ hdrlen fc) := by
  have hda : getDA fc ≤ 16 := by
    unfold getDA
    split <;> omega
  have hsa : getSA fc ≤ if hasA4 fc then 24 else 16 := by
    unfold getSA
    split
    · exact le_rfl
    · split <;> omega
  have hlen : (if hasA4 fc then 30 else 24) + (if isDataQos fc then 2 else 0) ≤ hdrlen fc := by
    rw [hdrlen, if_pos h]
    dsimp only
    split_ifs <;> omega
  refine ⟨?_, ?_, ?_, fun hqos => ?_⟩
  · split_ifs at hlen <;> omega
  · split_ifs at hlen <;> omega
  · split_ifs at hlen hsa <;> omega
  · rw [if_pos hqos] at hlen
    omega

namespace Skb
variable {skb : Skb} {n : ℕ}

theorem frameControl_congr {skb' : Skb} (h : ∀ i < 2, skb'.data[i]? = skb.data[i]?) :
    skb'.frameControl = skb.frameControl := by
  simp only [frameControl, le16, byteAt, List.getD_eq_getElem?_getD, h 0 (by omega),
    h 1 (by omega), Nat.zero_add]

/-- The header is still in front when the IV is gone, and the length is down by it. -/
theorem stripIv_spec (hfits : skb.hdrlen ≤ skb.data.length) (hn : n + 2 ≤ skb.data.length) :
    (skb.stripIv n).data.length = skb.data.length - n ∧
      (skb.stripIv n).frameControl = skb.frameControl := by
  have htwo := hdrlen_ge skb.frameControl
  have hheader : R92su.hdrlen skb.frameControl = skb.hdrlen := rfl
  constructor
  · simp only [stripIv, List.length_take, List.length_append, List.length_drop]
    omega
  · apply frameControl_congr
    intro i hi
    simp only [stripIv]
    rw [List.getElem?_take_of_lt (by omega), List.getElem?_append_left
      (by rw [List.length_take]; omega), List.getElem?_take_of_lt (by omega)]

theorem trim_spec (hn : n + 2 ≤ skb.data.length) :
    { skb with data := skb.data.take (skb.data.length - n) }.data.length =
      skb.data.length - n ∧
    { skb with data := skb.data.take (skb.data.length - n) }.frameControl = skb.frameControl := by
  constructor
  · simp only [List.length_take]
    omega
  · apply frameControl_congr
    intro i hi
    exact List.getElem?_take_of_lt (by omega)

end Skb

section Stages
variable {s : RxContext} {skb : Skb}

theorem stagesSafe_continue {stage : Stage} {stages : List Stage} (s' : RxContext) (skb' : Skb)
    (h : stage.handle s skb = (.rxContinue, s', skb')) : StagesSafe (stage :: stages) s skb ↔
      (∀ r ∈ stage.reads s skb, r.Inside) ∧ skb'.hdrlen ≤ skb'.data.length ∧
        QueuesHeld s'.defrag ∧ StagesSafe stages s' skb' := by
  rw [StagesSafe, h]
  simp

theorem stagesSafe_drop {stage : Stage} {stages : List Stage} (s' : RxContext) (skb' : Skb)
    (h : stage.handle s skb = (.rxDrop, s', skb')) : StagesSafe (stage :: stages) s skb ↔
      (∀ r ∈ stage.reads s skb, r.Inside) ∧ QueuesHeld s'.defrag := by
  rw [StagesSafe, h]
  simp

theorem mergeReads_inside {queue : List Skb} (hq : ∀ f ∈ queue, 24 ≤ f.data.length)
    (hskb : 24 ≤ skb.data.length) : ∀ r ∈ mergeReads queue skb, r.Inside := by
  induction queue with
  | nil =>
    intro r hr
    contradiction
  | cons f queue ih =>
    have hmerged : 24 ≤ (mergeQueue queue skb).data.length := by
      cases queue with
      | nil => exact hskb
      | cons g queue =>
        have := hq g (by simp)
        rw [mergeQueue_cons_data, List.length_append]
        omega
    intro r hr
    rw [mergeReads, List.mem_append, List.mem_cons, List.mem_singleton] at hr
    obtain hr | rfl | rfl := hr
    · exact ih (fun g hg => hq g (List.mem_cons_of_mem _ hg)) r hr
    · exact le_trans (show 0 + 2 ≤ 24 by decide) hmerged
    · exact (Nat.zero_add _).le

theorem mergeQueue_holds {queue : List Skb} (hq : ∀ f ∈ queue, f.hdrlen ≤ f.data.length)
    (hskb : skb.hdrlen ≤ skb.data.length) :
    (mergeQueue queue skb).hdrlen ≤ (mergeQueue queue skb).data.length := by
  cases queue with
  | nil => exact hskb
  | cons f queue =>
    have hf : hdrlen f.frameControl ≤ f.data.length := hq f List.mem_cons_self
    have htwo := hdrlen_ge f.frameControl
    rw [Skb.hdrlen, Skb.frameControl, mergeQueue_cons_data, le16_append (by omega),
      List.length_append]
    exact le_trans hf (Nat.le_add_right _ _)

theorem rxDefrag_skb (key : Option Key) (expanded : Bool) (skb : Skb) (defrag : DefragEntry) :
    (rxDefrag key expanded skb defrag).2.2 = skb ∨
      (rxDefrag key expanded skb defrag).2.2 = mergeQueue defrag.queue skb := by
  unfold rxDefrag
  split_ifs
  all_goals first | exact Or.inl rfl | exact Or.inr rfl

theorem rxDefrag_queue {key : Option Key} {expanded : Bool} {defrag : DefragEntry} {f : Skb}
    (hf : f ∈ (rxDefrag key expanded skb defrag).2.1.queue) :
    f ∈ defrag.queue ∨ f = { skb with cb := .zero } := by
  obtain ⟨-, hq⟩ | ⟨-, -, hq⟩ | ⟨-, -, hq⟩ | ⟨-, -, ⟨-, hq⟩ | ⟨-, hq, -⟩⟩ :=
    rxDefrag_cases key expanded skb defrag rfl
  · rw [hq] at hf
    contradiction
  · rw [hq] at hf
    contradiction
  · rw [hq] at hf
    exact Or.inr (List.mem_singleton.mp hf)
  · rw [hq] at hf
    exact (List.mem_append.mp hf).imp_right List.mem_singleton.mp
  · rw [hq] at hf
    contradiction

/-- The last stage on a frame that has its header. -/
theorem defrag_safe (hq : QueuesHeld s.defrag) (hskb : skb.hdrlen ≤ skb.data.length)
    (hlen : 24 ≤ skb.data.length) (bss : BssPriv) (expanded : Bool) :
    StagesSafe ((handlerStages bss expanded).drop 3) s skb := by
  have hentry := hq (skb.cb.sta, skb.queueMapping)
  refine ⟨?_, ?_, ?_, fun _ => trivial⟩
  · intro r hr
    change r ∈ defragReads _ _ _ _ at hr
    rw [defragReads, List.mem_append, List.mem_append] at hr
    obtain (hr | hr) | hr := hr
    · obtain rfl | rfl : r = skb.readFrameControl ∨ r = skb.readSeqCtrl := by simpa using hr
      · exact le_trans (show 0 + 2 ≤ 24 by decide) hlen
      · exact hlen
    · split at hr
      · contradiction
      · unfold checkIfMatchReads at hr
        split at hr
        · contradiction
        · rename_i tmp htail
          obtain rfl | rfl : r = skb.readSeqCtrl ∨ r = tmp.readSeqCtrl := by simpa using hr
          · exact hlen
          · exact (hentry _ (List.mem_of_getLast? htail)).2
    · split at hr
      · exact mergeReads_inside (fun f hf => (hentry f hf).2) hlen r hr
      · contradiction
  · intro _
    change (rxDefrag _ _ _ _).2.2.hdrlen ≤ (rxDefrag _ _ _ _).2.2.data.length
    obtain hr | hr := rxDefrag_skb (skb.cb.key.map s.keys) expanded skb
      (s.defrag (skb.cb.sta, skb.queueMapping))
    · rw [hr]
      exact hskb
    · rw [hr]
      exact mergeQueue_holds (fun f hf => (hentry f hf).1) hskb
  · intro entry f hf
    change f ∈ (Function.update s.defrag (skb.cb.sta, skb.queueMapping) _ entry).queue at hf
    by_cases he : entry = (skb.cb.sta, skb.queueMapping)
    · subst he
      rw [Function.update_self] at hf
      obtain hf | rfl := rxDefrag_queue hf
      · exact hentry f hf
      · exact ⟨hskb, hlen⟩
    · rw [Function.update_of_ne he] at hf
      exact hq entry f hf

/-- The tags behind the data that a cipher needs. -/
def TagRoom (key : Key) (skb : Skb) : Prop :=
  match key.type with
  | .wep40 | .wep104 => skb.hdrlen + 4 ≤ skb.data.length
  | .aesccmp => skb.hdrlen + 8 ≤ skb.data.length
  | _ => True

/-- A frame from which `n` bytes are trimmed. -/
theorem trim_safe (hq : QueuesHeld s.defrag) (hdata : isData skb.frameControl = true) {n : ℕ}
    (hn : n + 2 ≤ skb.data.length) (bss : BssPriv) (expanded : Bool) {stage : Stage}
    (hreads : ∀ r ∈ stage.reads s skb, r.Inside) {keys : ℕ → Key}
    (hhandle : stage.handle s skb =
      ((trimmed n skb).1, { s with keys := keys }, (trimmed n skb).2)) :
    StagesSafe (stage :: (handlerStages bss expanded).drop 3) s skb ↔
      skb.hdrlen + n ≤ skb.data.length := by
  obtain ⟨hlen, hfc⟩ := Skb.trim_spec hn
  have hheader : { skb with data := skb.data.take (skb.data.length - n) }.hdrlen = skb.hdrlen :=
    congrArg hdrlen hfc
  have hge : 24 ≤ skb.hdrlen := (hdrlen_data hdata).1
  rw [trimmed, if_neg (by omega)] at hhandle
  rw [stagesSafe_continue _ _ hhandle, hheader, hlen]
  constructor
  · rintro ⟨-, hlong, -⟩
    omega
  · intro hroom
    refine ⟨hreads, by omega, hq, defrag_safe (s := { s with keys := keys }) hq ?_ ?_ bss expanded⟩
    · dsimp only
      rw [hheader, hlen]
      omega
    · dsimp only
      rw [hlen]
      omega

theorem michaelReads_inside (hdata : isData skb.frameControl = true)
    (hroom : skb.hdrlen + 12 ≤ skb.data.length) : ∀ r ∈ michaelReads skb, r.Inside := by
  obtain ⟨-, hda, hsa, hqos⟩ := hdrlen_data hdata
  have hhdr : hdrlen skb.frameControl = skb.hdrlen := rfl
  intro r hr
  simp only [michaelReads, List.mem_append, List.mem_cons, List.not_mem_nil, or_false] at hr
  obtain ((rfl | rfl) | hr) | rfl | rfl := hr
  · simp only [Read.Inside]
    omega
  · simp only [Read.Inside]
    omega
  · split at hr
    · rename_i hq
      have := hqos hq
      rw [List.mem_singleton.mp hr]
      simp only [Read.Inside]
      omega
    · contradiction
  · simp only [Read.Inside]
    omega
  · simp only [Read.Inside]
    omega

/-- From the third stage on. -/
theorem icvMic_safe (hq : QueuesHeld s.defrag) (hdata : isData skb.frameControl = true)
    (hlen : 22 ≤ skb.data.length) {k : ℕ}
    (hk : skb.cb.key = some k) (bss : BssPriv) (expanded : Bool) :
    StagesSafe ((handlerStages bss expanded).drop 2) s skb ↔ TagRoom (s.keys k) skb := by
  have hkey : skb.cb.key.map s.keys = some (s.keys k) := by rw [hk]; rfl
  have hfc : skb.readFrameControl.Inside := le_trans (show 0 + 2 ≤ 22 by decide) hlen
  have hone : ∀ r ∈ [skb.readFrameControl], r.Inside := by
    intro r hr
    exact List.mem_singleton.mp hr ▸ hfc
  unfold TagRoom
  generalize s.keys k = key at hkey ⊢
  obtain ⟨type, rxSeq, material⟩ := key
  have htrim : ∀ n keys, n ≤ 12 → (∀ r ∈ icvMicHandleReads s.keys skb, r.Inside) →
      rxIcvMicHandle s.keys skb = ((trimmed n skb).1, keys, (trimmed n skb).2) →
      (StagesSafe ((handlerStages bss expanded).drop 2) s skb ↔
        skb.hdrlen + n ≤ skb.data.length) := by
    intro n keys hn hreads hhandle
    apply trim_safe hq hdata (by omega) bss expanded hreads
    unfold icvMicHandleStage
    dsimp only
    rw [hhandle]
  have hdrop : (∀ r ∈ icvMicHandleReads s.keys skb, r.Inside) →
      rxIcvMicHandle s.keys skb = (.rxDrop, s.keys, skb) →
      (StagesSafe ((handlerStages bss expanded).drop 2) s skb ↔ True) := by
    intro hreads hhandle
    rw [iff_true]
    apply (stagesSafe_drop s skb ?_).mpr ⟨hreads, hq⟩
    unfold icvMicHandleStage
    dsimp only
    rw [hhandle]
  cases type with
  | wep40 | wep104 =>
    apply htrim 4 s.keys (by omega)
    · rw [icvMicHandleReads, hkey]
      exact hone
    · rw [rxIcvMicHandle, hkey]
  | aesccmp =>
    apply htrim 8 s.keys (by omega)
    · rw [icvMicHandleReads, hkey]
      exact hone
    · rw [rxIcvMicHandle, hkey]
  | tkip =>
    by_cases hroom : skb.data.length < skb.hdrlen + 12
    · apply hdrop
      · rw [icvMicHandleReads, hkey]
        dsimp only
        rw [if_pos hroom]
        exact hone
      · rw [rxIcvMicHandle, hkey]
        exact if_pos hroom
    · have hreads : ∀ r ∈ icvMicHandleReads s.keys skb, r.Inside := by
        rw [icvMicHandleReads, hkey]
        dsimp only
        rw [if_neg hroom]
        intro r hr
        obtain rfl | hr := List.mem_cons.mp hr
        · exact hfc
        · exact michaelReads_inside hdata (Nat.not_lt.mp hroom) r hr
      by_cases hmic : michaelMic (material.drop 24) skb
          ((skb.data.drop skb.hdrlen).take (skb.data.length - skb.hdrlen - 12)) ≠
            (skb.data.drop (skb.data.length - 12)).take 8
      · apply hdrop hreads
        rw [rxIcvMicHandle, hkey]
        dsimp only
        rw [if_neg hroom, if_pos hmic]
      · rw [htrim 12 (setRxSeq s.keys skb) le_rfl hreads, iff_true]
        · exact Nat.not_lt.mp hroom
        · rw [rxIcvMicHandle, hkey]
          dsimp only
          rw [if_neg hroom, if_neg hmic]
  | noEncryption | tkipWtmic =>
    apply hdrop
    · rw [icvMicHandleReads, hkey]
      exact hone
    · rw [rxIcvMicHandle, hkey]

/-- Without a key the frame goes on as it is. -/
theorem noKey_safe (hq : QueuesHeld s.defrag) (hdata : isData skb.frameControl = true)
    (hskb : skb.hdrlen ≤ skb.data.length) (hk : skb.cb.key = none) (bss : BssPriv)
    (expanded : Bool) : StagesSafe ((handlerStages bss expanded).drop 1) s skb := by
  have hge : 24 ≤ skb.hdrlen := (hdrlen_data hdata).1
  have hkey : skb.cb.key.map s.keys = none := by rw [hk]; rfl
  have hone : ∀ r ∈ [skb.readFrameControl], r.Inside := by
    intro r hr
    rw [List.mem_singleton.mp hr]
    exact le_trans (show 0 + 2 ≤ 24 by decide) (hge.trans hskb)
  apply (stagesSafe_continue s skb ?_).mpr ⟨?_, hskb, hq, ?_⟩
  · unfold ivHandleStage
    dsimp only
    rw [rxIvHandle, hkey]
  · unfold ivHandleStage
    dsimp only
    rw [ivHandleReads, hkey]
    exact hone
  · apply (stagesSafe_continue s skb ?_).mpr ⟨?_, hskb, hq, ?_⟩
    · unfold icvMicHandleStage
      dsimp only
      rw [rxIcvMicHandle, hkey]
    · unfold icvMicHandleStage
      dsimp only
      rw [icvMicHandleReads, hkey]
      exact hone
    · exact defrag_safe hq hskb (hge.trans hskb) bss expanded

/-- A frame that loses its IV, of `n` bytes. -/
theorem strip_safe (hq : QueuesHeld s.defrag) {f : Skb} (hdata : isData f.frameControl = true)
    (hfits : f.hdrlen ≤ f.data.length) (hlen : sizeofHdr ≤ f.data.length) {k n : ℕ}
    (hk : f.cb.key = some k) (hn : n ≤ 8) (bss : BssPriv) (expanded : Bool) (stage : Stage)
    (hreads : ∀ r ∈ stage.reads s skb, r.Inside)
    (hhandle : stage.handle s skb = ((ivStripped n f).1, s, (ivStripped n f).2)) :
    StagesSafe (stage :: (handlerStages bss expanded).drop 2) s skb ↔
      f.hdrlen + n ≤ f.data.length ∧ TagRoom (s.keys k) (f.stripIv n) := by
  rw [sizeofHdr] at hlen
  obtain ⟨hstrip, hfc⟩ := Skb.stripIv_spec hfits (by omega : n + 2 ≤ f.data.length)
  have hheader : (f.stripIv n).hdrlen = f.hdrlen := congrArg hdrlen hfc
  have hicv := icvMic_safe hq (hfc ▸ hdata : isData (f.stripIv n).frameControl = true)
    (by omega) (show (f.stripIv n).cb.key = some k from hk) bss expanded
  rw [ivStripped, if_neg (by omega)] at hhandle
  rw [stagesSafe_continue _ _ hhandle, hheader, hstrip, hicv]
  constructor
  · rintro ⟨-, hlong, -, htag⟩
    exact ⟨by omega, htag⟩
  · rintro ⟨hlong, htag⟩
    exact ⟨hreads, by omega, hq, htag⟩

/-- An extended IV is read whole, and stripped with a fresh number. -/
theorem extIv_safe (hq : QueuesHeld s.defrag) (hdata : isData skb.frameControl = true) {f : Skb}
    (hf : f.data = skb.data) (hfits : skb.hdrlen ≤ skb.data.length)
    (hlen : sizeofHdr ≤ skb.data.length) (hiv : skb.hdrlen + 4 ≤ skb.data.length) {k : ℕ}
    (hk : f.cb.key = some k) (bss : BssPriv) (expanded : Bool) (idx : List ℕ)
    (hseven : 7 ∈ idx) (hidx : ∀ i ∈ idx, i ≤ 7) (stale : Prop) [Decidable stale]
    (hreads : ivHandleReads s.keys skb = skb.readFrameControl :: skb.readIv 3 ::
      if !skb.extIv then [] else idx.map skb.readIv ++
        if stale then [] else ivStrippedReads 8 skb)
    (hhandle : rxIvHandle s.keys skb = if !skb.extIv then (.rxDrop, skb)
      else if stale then (.rxDrop, skb) else ivStripped 8 f) :
    StagesSafe ((handlerStages bss expanded).drop 1) s skb ↔
      (skb.extIv = true → skb.hdrlen + 8 ≤ skb.data.length ∧
        (¬ stale → TagRoom (s.keys k) (f.stripIv 8))) := by
  have hfc : skb.readFrameControl.Inside := le_trans (show 0 + 2 ≤ 30 by decide) hlen
  have hthree : (skb.readIv 3).Inside := hiv
  cases hext : skb.extIv with
  | false =>
    rw [hext] at hreads hhandle
    simp only [Bool.false_eq_true, false_imp_iff, iff_true]
    apply (stagesSafe_drop s skb ?_).mpr ⟨?_, hq⟩
    · unfold ivHandleStage
      dsimp only
      rw [hhandle]
      rfl
    · unfold ivHandleStage
      dsimp only
      rw [hreads]
      intro r hr
      obtain rfl | rfl : r = skb.readFrameControl ∨ r = skb.readIv 3 := by simpa using hr
      · exact hfc
      · exact hthree
  | true =>
    rw [hext] at hreads hhandle
    simp only [Bool.not_true, Bool.false_eq_true, if_false] at hreads hhandle
    by_cases hroom : skb.hdrlen + 8 ≤ skb.data.length
    · have hinside : ∀ r ∈ ivHandleReads s.keys skb, r.Inside := by
        rw [hreads]
        intro r hr
        rw [List.mem_cons, List.mem_cons, List.mem_append, List.mem_map] at hr
        obtain rfl | rfl | ⟨i, hi, rfl⟩ | hr := hr
        · exact hfc
        · exact hthree
        · have := hidx i hi
          simp only [Read.Inside, Skb.readIv]
          omega
        · split at hr
          · contradiction
          · unfold ivStrippedReads at hr
            split at hr
            · contradiction
            · rw [List.mem_singleton.mp hr]
              exact (Nat.zero_add _).trans_le hfits
      by_cases hstale : stale
      · rw [if_pos hstale] at hhandle
        simp only [hroom, hstale, not_true, false_imp_iff, and_true, imp_true_iff, iff_true]
        apply (stagesSafe_drop s skb ?_).mpr ⟨hinside, hq⟩
        unfold ivHandleStage
        dsimp only
        rw [hhandle]
      · rw [if_neg hstale] at hhandle
        have hsame : f.frameControl = skb.frameControl := by
          rw [Skb.frameControl, Skb.frameControl, hf]
        have hhdr : f.hdrlen = skb.hdrlen := congrArg hdrlen hsame
        have hstrip := @strip_safe s skb hq f (hsame ▸ hdata : isData f.frameControl = true)
          (by rw [hhdr, hf]; exact hfits) (by rw [hf]; exact hlen) k 8 hk le_rfl bss expanded
          ivHandleStage hinside (by
            change ((rxIvHandle s.keys skb).1, s, (rxIvHandle s.keys skb).2) = _
            rw [hhandle])
        rw [hhdr, hf] at hstrip
        simp only [hroom, true_and, hstale, not_false_eq_true, true_imp_iff]
        exact hstrip.trans (by simp only [hroom, true_and])
    · simp only [hroom, false_and, imp_false, not_true, iff_false]
      rintro ⟨hinside, -⟩
      have hread := hinside (skb.readIv 7) (by
        change skb.readIv 7 ∈ ivHandleReads s.keys skb
        rw [hreads]
        exact List.mem_cons_of_mem _ (List.mem_cons_of_mem _
          (List.mem_append_left _ (List.mem_map_of_mem hseven))))
      exact hroom hread

/-- From the second stage on, for a frame with a key. -/
theorem ivHandle_safe (hq : QueuesHeld s.defrag) (hdata : isData skb.frameControl = true)
    (hfits : skb.hdrlen ≤ skb.data.length) (hlen : sizeofHdr ≤ skb.data.length)
    (hiv : skb.hdrlen + 4 ≤ skb.data.length) {k : ℕ} (hk : skb.cb.key = some k) (bss : BssPriv)
    (expanded : Bool) :
    StagesSafe ((handlerStages bss expanded).drop 1) s skb ↔ KeyRoom (s.keys k) skb := by
  have hfc : skb.readFrameControl.Inside := le_trans (show 0 + 2 ≤ 30 by decide) hlen
  rcases hrec : s.keys k with ⟨type, rxSeq, material⟩
  have hkey : skb.cb.key.map s.keys = some ⟨type, rxSeq, material⟩ := by
    rw [hk, ← hrec]
    rfl
  have hstripped : ∀ n ≤ 8, (skb.stripIv n).data.length = skb.data.length - n ∧
      (skb.stripIv n).hdrlen = skb.hdrlen := by
    intro n hn
    rw [sizeofHdr] at hlen
    obtain ⟨hlength, hsame⟩ := Skb.stripIv_spec hfits (by omega : n + 2 ≤ skb.data.length)
    exact ⟨hlength, congrArg hdrlen hsame⟩
  unfold KeyRoom
  cases type with
  | wep40 | wep104 =>
    have hstrip := @strip_safe s skb hq skb hdata hfits hlen k 4 hk (by omega) bss expanded
      ivHandleStage (by
        unfold ivHandleStage
        dsimp only
        rw [ivHandleReads, hkey]
        intro r hr
        obtain rfl | hr := List.mem_cons.mp hr
        · exact hfc
        · change r ∈ ivStrippedReads 4 skb at hr
          unfold ivStrippedReads at hr
          split at hr
          · contradiction
          · rw [List.mem_singleton.mp hr]
            exact (Nat.zero_add _).trans_le hfits)
      (by
        unfold ivHandleStage
        dsimp only
        rw [rxIvHandle, hkey]
        rfl)
    apply hstrip.trans
    obtain ⟨hlength, hheader⟩ := hstripped 4 (by omega)
    rw [TagRoom, hrec]
    dsimp only
    rw [hlength, hheader]
    omega
  | tkip =>
    have hext := extIv_safe (f := { skb with cb := { skb.cb with iv := skb.tkipSeq } }) hq hdata rfl
      hfits hlen hiv hk bss expanded [7, 6, 5, 4, 0, 2] (by decide) (by decide)
      (rxSeq ≥ skb.tkipSeq) (by rw [ivHandleReads, hkey]; rfl) (by rw [rxIvHandle, hkey]; rfl)
    rw [hext, TagRoom, hrec]
    simp only [imp_true_iff, and_true]
  | aesccmp =>
    have hext := extIv_safe (f := { skb with cb := { skb.cb with iv := skb.ccmpSeq } }) hq hdata rfl
      hfits hlen hiv hk bss expanded [7, 6, 5, 4, 1, 0] (by decide) (by decide)
      (skb.ccmpSeq ≤ rxSeq) (by rw [ivHandleReads, hkey]; rfl) (by rw [rxIvHandle, hkey]; rfl)
    obtain ⟨hlength, hheader⟩ := hstripped 8 le_rfl
    have hlength' : ({ skb with cb := { skb.cb with iv := skb.ccmpSeq } }.stripIv 8).data.length =
        skb.data.length - 8 := hlength
    have hheader' : ({ skb with cb := { skb.cb with iv := skb.ccmpSeq } }.stripIv 8).hdrlen =
        skb.hdrlen := hheader
    rw [hext, TagRoom, hrec]
    dsimp only
    rw [hlength', hheader', not_le]
    apply imp_congr_right
    intro _
    apply and_congr_right
    intro hroom
    apply imp_congr_right
    intro _
    omega
  | noEncryption | tkipWtmic =>
    rw [iff_true]
    apply (stagesSafe_drop s skb ?_).mpr ⟨?_, hq⟩
    · unfold ivHandleStage
      dsimp only
      rw [rxIvHandle, hkey]
    · unfold ivHandleStage
      dsimp only
      rw [ivHandleReads, hkey]
      intro r hr
      exact List.mem_singleton.mp hr ▸ hfc

/-- The stages on a data frame as the check leaves it. -/
theorem handler_safe (hq : QueuesHeld s.defrag) {mpdu : Mpdu}
    (hdata : isData mpdu.skb.frameControl = true) (hfits : mpdu.skb.hdrlen ≤ mpdu.data.length)
    (hlen : sizeofHdr ≤ mpdu.data.length) (bss : BssPriv) :
    StagesSafe (handlerStages bss mpdu.expanded) s mpdu.skb ↔
      LongEnough bss s.keys mpdu.skb := by
  have hfc : mpdu.skb.readFrameControl.Inside := le_trans (show 0 + 2 ≤ 30 by decide) hlen
  unfold LongEnough
  cases hprotect : mpdu.skb.cb.hasProtect with
  | false =>
    simp only [Bool.false_eq_true, false_imp_iff, iff_true]
    apply (stagesSafe_continue s mpdu.skb ?_).mpr ⟨?_, hfits, hq, noKey_safe hq hdata hfits rfl bss _⟩
    · unfold findKeyStage rxFindKey
      simp only [hprotect, Bool.false_eq_true, if_false]
    · unfold findKeyStage findKeyReads
      simp [hprotect]
  | true =>
    have hreads : (∀ r ∈ (findKeyStage bss).reads s mpdu.skb, r.Inside) ↔
        mpdu.skb.hdrlen + 4 ≤ mpdu.data.length := by
      unfold findKeyStage findKeyReads
      simp only [hprotect, if_true, List.forall_mem_cons, hfc, true_and]
      simp [Read.Inside, Skb.readIv, Mpdu.skb, Nat.add_assoc]
    have hfind : rxFindKey bss mpdu.skb = (foundKey bss mpdu.skb).elim (.rxDrop, mpdu.skb) fun key =>
        (.rxContinue, { mpdu.skb with cb := { mpdu.skb.cb with key := some key } }) := by
      rw [rxFindKey, if_pos hprotect, foundKey]
      split
      · rename_i hnone
        rw [hnone]
        rfl
      · rename_i key hsome
        rw [hsome]
        rfl
    simp only [true_imp_iff]
    cases hfound : foundKey bss mpdu.skb with
    | none =>
      have hhandle : (findKeyStage bss).handle s mpdu.skb = (.rxDrop, s, mpdu.skb) := by
        unfold findKeyStage
        dsimp only
        rw [hfind, hfound, Option.elim_none]
      rw [handlerStages, stagesSafe_drop _ _ hhandle, hreads]
      simp [hq, Mpdu.skb]
    | some k =>
      have hhandle : (findKeyStage bss).handle s mpdu.skb =
          (.rxContinue, s, { mpdu.skb with cb := { mpdu.skb.cb with key := some k } }) := by
        unfold findKeyStage
        dsimp only
        rw [hfind, hfound, Option.elim_some]
      have hsafe := fun hiv => @ivHandle_safe s
        { mpdu.skb with cb := { mpdu.skb.cb with key := some k } } hq hdata hfits hlen hiv k rfl bss
        mpdu.expanded
      rw [handlerStages, stagesSafe_continue _ _ hhandle, hreads]
      constructor
      · rintro ⟨hiv, -, -, hrest⟩
        refine ⟨hiv, ?_⟩
        rintro _ ⟨⟩
        exact (hsafe hiv).mp hrest
      · rintro ⟨hiv, hkey⟩
        exact ⟨hiv, hfits, hq, (hsafe hiv).mpr (hkey k rfl)⟩

/-- The queues are in order behind the stages too. -/
theorem runStages_held {stages : List Stage} (hq : QueuesHeld s.defrag)
    (h : StagesSafe stages s skb) : QueuesHeld (runStages stages s skb).2.1.defrag := by
  induction stages generalizing s skb with
  | nil => exact hq
  | cons stage stages ih =>
    obtain ⟨-, -, hheld, hrest⟩ := h
    rw [runStages]
    rcases hrun : stage.handle s skb with ⟨r, s', skb'⟩
    rw [hrun] at hheld hrest
    cases r with
    | rxContinue => exact ih hheld (hrest rfl)
    | rxQueue => exact hheld
    | rxDrop => exact hheld

end Stages

/-- A frame as it arrives, with what the driver knows of its station and the keys then. -/
structure Arrival where
  rx : RxDescriptor
  data : List UInt8
  sta : ℕ
  queueMapping : ℕ
  expanded : Bool
  bss : BssPriv
  keys : ℕ → Key

namespace Arrival

/-- What reaches the handler: management frames do not. -/
def mpdu (a : Arrival) : Option Mpdu :=
  (rxHwHeaderCheck a.rx a.data).bind fun data =>
    if isMgmt (le16 data 0) then none else some ⟨data, a.sta, a.queueMapping, a.expanded⟩

/-- The reassembly entries after the frame. -/
def step (defrag : Option ℕ × ℕ → DefragEntry) (a : Arrival) : Option ℕ × ℕ → DefragEntry :=
  match a.mpdu with
  | none => defrag
  | some mpdu => (RxContext.prepare a.bss ⟨a.keys, defrag⟩ mpdu).1.defrag

/-- All stages read inside the frames, and what they pass on has its header. -/
def Safe (defrag : Option ℕ × ℕ → DefragEntry) (a : Arrival) : Prop :=
  ∀ mpdu, a.mpdu = some mpdu →
    StagesSafe (handlerStages a.bss mpdu.expanded) ⟨a.keys, defrag⟩ mpdu.skb

/-- The frame has room for what its cipher puts there. -/
def Long (a : Arrival) : Prop := ∀ mpdu, a.mpdu = some mpdu → LongEnough a.bss a.keys mpdu.skb

theorem isDataPresent_data {fc : ℕ} (h : isDataPresent fc = true) : isData fc = true := by
  rw [isDataPresent, beq_iff_eq] at h
  rw [isData, beq_iff_eq]
  have hand : fc &&& 0x004C &&& 0x000C = 0x0008 &&& 0x000C := by rw [h]
  rwa [Nat.and_assoc] at hand

theorem mpdu_data {a : Arrival} {mpdu : Mpdu} (h : a.mpdu = some mpdu) :
    isData mpdu.skb.frameControl = true ∧ mpdu.skb.hdrlen ≤ mpdu.data.length ∧
      sizeofHdr ≤ mpdu.data.length := by
  obtain ⟨data, hcheck, h⟩ := Option.bind_eq_some_iff.mp h
  split at h
  · contradiction
  · rename_i hmgmt
    cases h
    unfold rxHwHeaderCheck at hcheck
    split at hcheck
    · contradiction
    · rename_i hsize
      dsimp only at hcheck
      split at hcheck
      · contradiction
      · split at hcheck
        · contradiction
        · split at hcheck
          · contradiction
          · split at hcheck
            · contradiction
            · rename_i hkind hhdr
              cases hcheck
              have hdata : isDataPresent (le16 (a.data.take (a.data.length - fcsLen)) 0) = true := by
                simpa [hmgmt] using hkind
              refine ⟨isDataPresent_data hdata, Nat.not_lt.mp hhdr, ?_⟩
              rw [List.length_take]
              rw [fcsLen] at hsize ⊢
              omega

theorem safe_iff {defrag : Option ℕ × ℕ → DefragEntry} (hq : QueuesHeld defrag) (a : Arrival) :
    a.Safe defrag ↔ a.Long := by
  apply forall_congr'
  intro mpdu
  apply imp_congr_right
  intro hmpdu
  obtain ⟨hdata, hfits, hlen⟩ := mpdu_data hmpdu
  exact handler_safe (s := ⟨a.keys, defrag⟩) hq hdata hfits hlen a.bss

theorem step_held {defrag : Option ℕ × ℕ → DefragEntry} (hq : QueuesHeld defrag) {a : Arrival}
    (ha : a.Long) : QueuesHeld (step defrag a) := by
  unfold step
  cases hmpdu : a.mpdu with
  | none => exact hq
  | some mpdu =>
    have hheld := runStages_held hq ((safe_iff hq a).mpr ha mpdu hmpdu)
    dsimp only
    rw [prepare_eq_runStages]
    rcases hrun : runStages (handlerStages a.bss mpdu.expanded) ⟨a.keys, defrag⟩ mpdu.skb with
      ⟨_ | _ | _, s, skb⟩
    · rw [hrun] at hheld
      exact hheld
    · rw [hrun] at hheld
      exact hheld
    · rw [hrun] at hheld
      exact hheld

/-- After every run of frames that are long enough, the stages read inside the next one and pass
it on with its header exactly where it is long enough for its cipher too. -/
theorem lengths_safe_iff {as : List Arrival} (has : ∀ a ∈ as, a.Long) (a : Arrival) :
    a.Safe (run step (fun _ => ⟨[], 0⟩) as) ↔ a.Long := by
  apply safe_iff
  induction as using List.reverseRecOn with
  | nil =>
    intro entry f hf
    contradiction
  | append_singleton as b ih =>
    rw [run_append]
    exact step_held (ih fun c hc => has c (List.mem_append_left _ hc))
      (has b (List.mem_append_right _ List.mem_cons_self))

section Samples

/-- A CCMP frame with `n` bytes behind its IV, the last four the checksum. -/
def ccmpArrival (n : ℕ) : Arrival where
  rx := ⟨false, false⟩
  data := [0x08, 0x40] ++ List.replicate 22 0 ++ [1, 0, 0, 0x20, 0, 0, 0, 0] ++ List.replicate n 0
  sta := 0
  queueMapping := 0
  expanded := true
  bss :=
    { sta := 0
      encSta := fun _ => true
      staKey := fun _ => some 0
      groupKey := fun _ => none
      controlPortEthertype := 0x888E
      controlPortNoEncrypt := false }
  keys := fun _ => ⟨.aesccmp, 0, []⟩

/-- The frame as it reaches the handler. -/
def ccmpMpdu (n : ℕ) : Mpdu :=
  ⟨(ccmpArrival n).data.take ((ccmpArrival n).data.length - 4), 0, 0, true⟩

theorem ccmpArrival_mpdu {n : ℕ}
    (h : rxHwHeaderCheck ⟨false, false⟩ (ccmpArrival n).data = some (ccmpMpdu n).data)
    (hdata : isMgmt (le16 (ccmpMpdu n).data 0) = false) :
    (ccmpArrival n).mpdu = some (ccmpMpdu n) := by
  rw [mpdu, show (ccmpArrival n).rx = ⟨false, false⟩ from rfl, h, Option.bind_some, hdata]
  rfl

theorem ccmpArrival_long : (ccmpArrival 12).Long := by
  intro mpdu hmpdu
  rw [ccmpArrival_mpdu (by decide) (by decide)] at hmpdu
  cases hmpdu
  intro _
  refine ⟨by decide, ?_⟩
  rintro k ⟨⟩
  intro _
  exact ⟨by decide, fun _ => by decide⟩

theorem lengths_safe_whole :
    (ccmpArrival 12).Safe (run step (fun _ => ⟨[], 0⟩) [ccmpArrival 12]) := by
  apply (lengths_safe_iff ?_ _).mpr ccmpArrival_long
  intro a ha
  rw [List.mem_singleton.mp ha]
  exact ccmpArrival_long

/-- A frame that ends within its IV. -/
theorem short_frame_overread : ¬ ∀ (as : List Arrival) (a : Arrival),
    a.Safe (run step (fun _ => ⟨[], 0⟩) as) := by
  intro h
  have hlong := (safe_iff (fun _ f hf => absurd hf List.not_mem_nil) _).mp (h [] (ccmpArrival 2))
  have hsome := ccmpArrival_mpdu (n := 2) (by decide) (by decide)
  obtain ⟨-, hkey⟩ := hlong _ hsome (by decide)
  have hroom : (ccmpMpdu 2).skb.hdrlen + 8 ≤ (ccmpMpdu 2).skb.data.length :=
    (hkey 0 rfl (by decide)).1
  exact absurd hroom (by decide)

end Samples

end Arrival

end R92su
