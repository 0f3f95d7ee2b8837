import StandaloneDrivers.R92su.Reassembly

/-! CCMP packet numbers of fragments: the number of a queued fragment is cleared with its
control block, so that the next one never follows it. -/
namespace R92su

/-- `r92su_rx_iv_handle` followed by `r92su_rx_defrag`. -/
def ivThenDefrag (keys : ℕ → Key) (expanded : Bool) (skb : Skb) (defrag : DefragEntry) :
    RxControl × DefragEntry × Skb :=
  match rxIvHandle keys skb with
  | (.rxContinue, skb) => rxDefrag (skb.cb.key.map keys) expanded skb defrag
  | (control, skb) => (control, defrag, skb)

/-- Frames received back to back for one station and access category: the verdicts, each with
the frame that the calls leave. -/
def receive (keys : ℕ → Key) (expanded : Skb → Bool) :
    List Skb → DefragEntry → List (RxControl × Skb)
  | [], _ => []
  | skb :: rest, defrag =>
      let r := ivThenDefrag keys (expanded skb) skb defrag
      (r.1, r.2.2) :: receive keys expanded rest r.2.1

/-- Fragments 0, 1, .. of one MSDU, with packet numbers from `p` on. -/
structure CcmpMsdu (keys : ℕ → Key) (p : ℕ) (frames : List Skb) : Prop where
  split : 2 ≤ frames.length
  key : ∃ k, (keys k).type = .aesccmp ∧ (keys k).rxSeq < p ∧ ∀ f ∈ frames, f.cb.key = some k
  complete : ∀ f ∈ frames, isData f.frameControl ∧ f.hdrlen + 8 ≤ f.data.length
  seqs : ∀ f ∈ frames, ∀ g ∈ frames, f.seq = g.seq
  frags : frames.map Skb.frag = List.range frames.length
  more : (frames.map fun f => hasMorefrags f.frameControl) =
    List.replicate (frames.length - 1) true ++ [false]
  numbers : frames.map Skb.ccmpSeq = (List.range frames.length).map (p + ·)

/-- All fragments are queued but the last, which is passed on with all the payloads. -/
def ReassembledAs (keys : ℕ → Key) (expanded : Skb → Bool) (frames : List Skb)
    (defrag : DefragEntry) : Prop :=
  (receive keys expanded frames defrag).map Prod.fst =
      List.replicate (frames.length - 1) .rxQueue ++ [.rxContinue] ∧
    (receive keys expanded frames defrag).getLast?.map (fun r => r.2.payload) =
      some (frames.flatMap fun f => f.data.drop (f.hdrlen + 8))

instance (keys : ℕ → Key) (expanded : Skb → Bool) (frames : List Skb) (defrag : DefragEntry) :
    Decidable (ReassembledAs keys expanded frames defrag) := inferInstanceAs (Decidable (_ ∧ _))

/-- A data frame keeps its sequence control field when its IV is stripped. -/
theorem stripIv_frag (skb : Skb) (hdata : isData skb.frameControl)
    (hlen : skb.hdrlen + 8 ≤ skb.data.length) : (skb.stripIv 8).frag = skb.frag := by
  have hhdr : 24 ≤ skb.hdrlen := by
    simp only [Skb.hdrlen, hdrlen, hdata, if_true]
    split_ifs <;> norm_num
  have hget : ∀ i < 24, (skb.stripIv 8).data.getD i 0 = skb.data.getD i 0 := by
    intro i hi
    simp only [Skb.stripIv, List.getD_eq_getElem?_getD]
    rw [List.getElem?_take_of_lt (by omega), List.getElem?_append_left (by simp; omega),
      List.getElem?_take_of_lt (by omega)]
  unfold Skb.frag Skb.seqCtrl le16 byteAt
  rw [hget 22 (by norm_num), hget 23 (by norm_num)]

/-- Under a CCMP key a frame that is let through carries its packet number. -/
theorem rxIvHandle_ccmp {keys : ℕ → Key} {k : ℕ} (hk : (keys k).type = .aesccmp) {skb skb' : Skb}
    (hkey : skb.cb.key = some k) {control : RxControl}
    (h : rxIvHandle keys skb = (control, skb')) :
    control = .rxDrop ∨ control = .rxContinue ∧
      skb' = { skb with cb := { skb.cb with iv := skb.ccmpSeq } }.stripIv 8 := by
  have hlen : getIvLen (keys k) = 8 := by
    simp only [getIvLen, hk]
  simp only [rxIvHandle, hkey, Option.map_some, hk, hlen, ivStripped] at h
  split_ifs at h <;> cases h
  · exact Or.inl rfl
  · exact Or.inl rfl
  · exact Or.inl rfl
  · exact Or.inr ⟨rfl, by simp only [hkey]⟩

/-- A fragment that is queued has no packet number any more. -/
theorem rxDefrag_queued {key : Option Key} {expanded : Bool} {skb : Skb} {defrag : DefragEntry}
    (h : (rxDefrag key expanded skb defrag).1 = .rxQueue) :
    ∃ tail, (rxDefrag key expanded skb defrag).2.1.queue.getLast? = some tail ∧
      tail.cb.iv = 0 := by
  rcases rxDefrag_cases key expanded skb defrag rfl with
    ⟨hn, -⟩ | ⟨hn, -⟩ | ⟨-, -, hq⟩ | ⟨-, -, ⟨-, hq⟩ | ⟨hn, -⟩⟩
  · rw [h] at hn
    cases hn
  · rw [h] at hn
    cases hn
  · exact ⟨_, by rw [hq]; rfl, rfl⟩
  · exact ⟨_, by rw [hq, List.getLast?_concat], rfl⟩
  · rw [h] at hn
    cases hn

/-- A fragment whose packet number is above 1 never matches a queued one. -/
theorem rxDefrag_refused {key : Key} {expanded : Bool} {skb tail : Skb} {defrag : DefragEntry}
    (hk : key.type = .aesccmp) (hq : defrag.queue.getLast? = some tail) (htail : tail.cb.iv = 0)
    (hiv : 1 < skb.cb.iv) (hfrag : skb.frag ≠ 0) :
    (rxDefrag (some key) expanded skb defrag).1 = .rxDrop := by
  have hm : checkIfMatch skb defrag (some key) = false := by
    rw [Bool.eq_false_iff, Ne, checkIfMatch_iff]
    rintro ⟨t, ht, -, hiv'⟩
    rw [hq] at ht
    cases ht
    have := hiv' (by simp [hk])
    rw [htail] at this
    omega
  rcases rxDefrag_cases (some key) expanded skb defrag rfl with
    ⟨hdrop, -⟩ | ⟨-, hz, -⟩ | ⟨-, hz, -⟩ | ⟨hm', -⟩
  · exact hdrop
  · exact absurd hz hfrag
  · exact absurd hz hfrag
  · rw [hm] at hm'
    cases hm'

theorem ivThenDefrag_queued {keys : ℕ → Key} {k : ℕ} (hk : (keys k).type = .aesccmp)
    {expanded : Bool} {skb : Skb} (hkey : skb.cb.key = some k) {defrag : DefragEntry}
    (h : (ivThenDefrag keys expanded skb defrag).1 = .rxQueue) :
    ∃ tail, (ivThenDefrag keys expanded skb defrag).2.1.queue.getLast? = some tail ∧
      tail.cb.iv = 0 := by
  obtain ⟨control, skb', hiv⟩ : ∃ c t, rxIvHandle keys skb = (c, t) := ⟨_, _, rfl⟩
  rcases rxIvHandle_ccmp hk hkey hiv with rfl | ⟨rfl, -⟩
  · simp only [ivThenDefrag, hiv] at h
    cases h
  · simp only [ivThenDefrag, hiv] at h ⊢
    exact rxDefrag_queued h

theorem ivThenDefrag_refused {keys : ℕ → Key} {k : ℕ} (hk : (keys k).type = .aesccmp)
    (expanded : Bool) {skb : Skb} (hkey : skb.cb.key = some k) (hdata : isData skb.frameControl)
    (hlen : skb.hdrlen + 8 ≤ skb.data.length) (hfrag : skb.frag ≠ 0) (hiv : 1 < skb.ccmpSeq)
    {defrag : DefragEntry} {tail : Skb} (hq : defrag.queue.getLast? = some tail)
    (htail : tail.cb.iv = 0) : (ivThenDefrag keys expanded skb defrag).1 = .rxDrop := by
  obtain ⟨control, skb', hr⟩ : ∃ c t, rxIvHandle keys skb = (c, t) := ⟨_, _, rfl⟩
  rcases rxIvHandle_ccmp hk hkey hr with rfl | ⟨rfl, rfl⟩
  · simp only [ivThenDefrag, hr]
  · simp only [ivThenDefrag, hr]
    have hkey' : ({ skb with cb := { skb.cb with iv := skb.ccmpSeq } }.stripIv 8).cb.key.map keys =
        some (keys k) := by
      simp only [Skb.stripIv, hkey, Option.map_some]
    rw [hkey']
    have hsame := stripIv_frag { skb with cb := { skb.cb with iv := skb.ccmpSeq } } hdata
      hlen
    exact rxDefrag_refused hk hq htail hiv (by rw [hsame]; exact hfrag)

/-- No MSDU is put together under CCMP: its second fragment is dropped. -/
theorem ccmpMsdu_not_reassembled {keys : ℕ → Key} {p : ℕ} {frames : List Skb}
    (h : CcmpMsdu keys p frames) (expanded : Skb → Bool) (defrag : DefragEntry) :
    ¬ ReassembledAs keys expanded frames defrag := by
  rintro ⟨hverdicts, -⟩
  obtain ⟨k, hk, hp, hkeys⟩ := h.key
  obtain ⟨f₀, f₁, rest, rfl⟩ : ∃ f₀ f₁ rest, frames = f₀ :: f₁ :: rest := by
    have hsplit := h.split
    cases frames with
    | nil => cases hsplit
    | cons f₀ tl =>
      cases tl with
      | nil => simp at hsplit
      | cons f₁ rest => exact ⟨f₀, f₁, rest, rfl⟩
  have hfrag : f₁.frag = 1 := by
    have hf := congrArg (fun l => l[1]?) h.frags
    simpa using hf
  have hnumber : f₁.ccmpSeq = p + 1 := by
    have hn := congrArg (fun l => l[1]?) h.numbers
    simpa using hn
  obtain ⟨hdata, hlen⟩ := h.complete f₁ (by simp)
  simp only [receive, List.map_cons, List.length_cons, Nat.add_sub_cancel,
    List.replicate_succ, List.cons_append, List.cons.injEq] at hverdicts
  obtain ⟨hfirst, hsecond⟩ := hverdicts
  obtain ⟨tail, hq, htail⟩ := ivThenDefrag_queued hk (hkeys f₀ (by simp)) hfirst
  have hdrop := ivThenDefrag_refused hk (expanded f₁) (hkeys f₁ (by simp)) hdata hlen
    (by omega) (by omega) hq htail
  rw [hdrop] at hsecond
  cases rest with
  | nil => simp at hsecond
  | cons f rest => simp [List.replicate_succ] at hsecond

/-- A data frame with a CCMP header for packet number `pn` and a MIC. -/
def ccmpFrame (more : Bool) (frag pn : ℕ) (payload : List UInt8) : Skb where
  data := [0x08, if more then 0x46 else 0x42] ++ List.replicate 20 0 ++ [UInt8.ofNat frag, 0] ++
    [UInt8.ofNat pn, 0, 0, 0x20, 0, 0, 0, 0] ++ payload
  cb := ⟨some 0, some 0, 0, true⟩
  protocol := 0
  queueMapping := 0
  clear := false

theorem ccmpFrames_msdu : CcmpMsdu (fun _ => ⟨.aesccmp, 0, []⟩) 5
    [ccmpFrame true 0 5 [1], ccmpFrame false 1 6 [2]] where
  split := by decide
  key := ⟨0, rfl, by decide, by decide⟩
  complete := by decide
  seqs := by decide
  frags := by decide
  more := by decide
  numbers := by decide

theorem ccmpMsdu_not_reassembled_two : ¬ ReassembledAs (fun _ => ⟨.aesccmp, 0, []⟩) (fun _ => true)
    [ccmpFrame true 0 5 [1], ccmpFrame false 1 6 [2]] ⟨[], 0⟩ :=
  ccmpMsdu_not_reassembled ccmpFrames_msdu _ _

/-- Two fragments with packet numbers 5 and 6 are lost. -/
theorem ccmp_fragments_lost : ¬ ∀ keys p frames, CcmpMsdu keys p frames →
    ∀ defrag, ReassembledAs keys (fun _ => true) frames defrag := by
  intro h
  exact absurd (h _ 5 _ ccmpFrames_msdu ⟨[], 0⟩) (by decide)

end R92su
