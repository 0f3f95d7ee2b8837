import StandaloneDrivers.R92su.Transmit

/-! Fragmentation of long frames in tx.c. -/
namespace R92su

/-- `IEEE80211_MAX_FRAG_THRESHOLD` -/
def maxFragThreshold : ℕ := 2352

/-- `per_frag` -/
def perFrag (hdrLen : ℕ) : ℕ := maxFragThreshold - hdrLen - fcsLen

/-- The copy of the header and of `fragLen` bytes from `pos`, with the bits of `frame_control` and
`seq_ctrl` or'ed in: `IEEE80211_FCTL_MOREFRAGS` is bit 2 of byte 1, the fragment number the low
half of byte 22. -/
def makeFragment (data : List UInt8) (hdrLen pos fragLen fragNum : ℕ) (more : Bool) : List UInt8 :=
  let tmp := data.take hdrLen ++ (data.drop pos).take fragLen
  let tmp := if more then tmp.modify 1 (· ||| 0x04) else tmp
  tmp.modify 22 (· ||| UInt8.ofNat (fragNum &&& 0x000F))

/-- The `while (rem)` loop of `r92su_tx_fragment`; `alloc i` says whether the `i`-th
`dev_alloc_skb` finds memory. `none` is a loop still running. -/
def fragLoop (alloc : ℕ → Bool) (data : List UInt8) (hdrLen : ℕ) :
    ℕ → ℕ → ℕ → ℕ → List (List UInt8) → Option (TxControl × List (List UInt8))
  | 0, rem, _, _, queue => if rem = 0 then some (.txContinue, queue) else none
  | fuel + 1, rem, pos, fragNum, queue =>
    if rem = 0 then some (.txContinue, queue)
    else
      let fragLen := min (perFrag hdrLen) rem
      let rem := rem - fragLen
      if !alloc fragNum then some (.txDrop, queue)
      else fragLoop alloc data hdrLen fuel rem (pos + fragLen) (fragNum + 1)
        (queue ++ [makeFragment data hdrLen pos fragLen fragNum (rem != 0)])

/-- `r92su_tx_fragment`, with the frames it leaves on `queue`. -/
def txFragment (alloc : ℕ → Bool) (skb : TxFrame) : Option (TxControl × List (List UInt8)) :=
  let len := skb.data.length
  if len + fcsLen < maxFragThreshold then some (.txContinue, [skb.data])
  else
    let hdrLen := hdrlen (le16 skb.data 0)
    let rem : ℤ := (len : ℤ) - hdrLen - perFrag hdrLen
    if rem ≤ 0 then some (.txDrop, [])
    else fragLoop alloc skb.data hdrLen rem.toNat rem.toNat hdrLen 0 []

/-- The header without MoreFrag and fragment number. -/
def maskHeader (header : List UInt8) : List UInt8 :=
  (header.modify 1 (· &&& 0xFB)).modify 22 (· &&& 0xF0)

/-- `queue` is `data` in fragments; only a header of 24 bytes or more has a fragment number. -/
structure FragmentsSound (data : List UInt8) (hdrLen : ℕ) (queue : List (List UInt8)) : Prop where
  size : ∀ f ∈ queue, f.length ≤ maxFragThreshold - fcsLen
  header : ∀ f ∈ queue, maskHeader (f.take hdrLen) = maskHeader (data.take hdrLen)
  number : 24 ≤ hdrLen → ∀ i, (h : i < queue.length) → le16 queue[i] 22 &&& 0x000F = i % 16
  more : ∀ i, (h : i < queue.length) →
    (hasMorefrags (le16 queue[i] 0) = true ↔ i + 1 < queue.length)
  payload : (queue.map (·.drop hdrLen)).flatten = data.drop hdrLen

/-- The fragments the loop makes when it finds memory. -/
inductive Parts (data : List UInt8) (hdrLen : ℕ) : ℕ → ℕ → ℕ → List (List UInt8) → Prop where
  | done (pos fragNum : ℕ) : Parts data hdrLen 0 pos fragNum []
  | part {rem pos fragNum : ℕ} {frags : List (List UInt8)} (hrem : rem ≠ 0)
      (rest : Parts data hdrLen (rem - min (perFrag hdrLen) rem) (pos + min (perFrag hdrLen) rem)
        (fragNum + 1) frags) :
      Parts data hdrLen rem pos fragNum
        (makeFragment data hdrLen pos (min (perFrag hdrLen) rem) fragNum
          (rem - min (perFrag hdrLen) rem != 0) :: frags)

/-- How many fragments the loop makes. -/
def fragCount (hdrLen rem : ℕ) : ℕ := (rem + perFrag hdrLen - 1) / perFrag hdrLen

section Loop
variable {alloc : ℕ → Bool} {data : List UInt8} {hdrLen : ℕ}

theorem fragCount_zero : fragCount hdrLen 0 = 0 := by
  unfold fragCount
  rcases Nat.eq_zero_or_pos (perFrag hdrLen) with h | h
  · simp [h]
  · exact Nat.div_eq_of_lt (by omega)

theorem fragCount_step (hper : 0 < perFrag hdrLen) {rem : ℕ} (hrem : rem ≠ 0) :
    fragCount hdrLen rem = fragCount hdrLen (rem - min (perFrag hdrLen) rem) + 1 := by
  unfold fragCount
  rcases Nat.le_total (perFrag hdrLen) rem with h | h
  · rw [Nat.min_eq_left h, ← Nat.add_div_right _ hper]
    congr 1
    omega
  · rw [Nat.min_eq_right h, Nat.sub_self, Nat.div_eq_of_lt (by omega : 0 + _ - 1 < _)]
    exact Nat.div_eq_of_lt_le (by omega) (by omega)

/-- With memory for every fragment the loop ends with all of them queued. -/
theorem fragLoop_parts (hper : 0 < perFrag hdrLen) (fuel rem pos fragNum : ℕ)
    (queue : List (List UInt8)) (hfuel : rem ≤ fuel)
    (halloc : ∀ i < fragCount hdrLen rem, alloc (fragNum + i) = true) :
    ∃ frags, fragLoop alloc data hdrLen fuel rem pos fragNum queue =
      some (.txContinue, queue ++ frags) ∧ Parts data hdrLen rem pos fragNum frags := by
  induction fuel generalizing rem pos fragNum queue with
  | zero =>
    obtain rfl : rem = 0 := by omega
    exact ⟨[], by simp [fragLoop], .done pos fragNum⟩
  | succ fuel ih =>
    rcases Nat.eq_zero_or_pos rem with rfl | hrem
    · exact ⟨[], by simp [fragLoop], .done pos fragNum⟩
    · rw [fragCount_step hper hrem.ne'] at halloc
      have hfirst : alloc fragNum = true := halloc 0 (by omega)
      have hrest : ∀ i < fragCount hdrLen (rem - min (perFrag hdrLen) rem),
          alloc (fragNum + 1 + i) = true := by
        intro i hi
        have h := halloc (i + 1) (by omega)
        rwa [show fragNum + 1 + i = fragNum + (i + 1) by omega]
      obtain ⟨frags, hloop, hparts⟩ := ih (rem - min (perFrag hdrLen) rem)
        (pos + min (perFrag hdrLen) rem) (fragNum + 1)
        (queue ++ [makeFragment data hdrLen pos (min (perFrag hdrLen) rem) fragNum
          (rem - min (perFrag hdrLen) rem != 0)]) (by omega) hrest
      refine ⟨_, ?_, .part hrem.ne' hparts⟩
      simp [fragLoop, hrem.ne', hfirst, hloop]

/-- Without memory for one of the fragments it drops the frame. -/
theorem fragLoop_drop (hper : 0 < perFrag hdrLen) (fuel rem pos fragNum i : ℕ)
    (queue : List (List UInt8)) (hfuel : rem ≤ fuel) (hi : i < fragCount hdrLen rem)
    (halloc : alloc (fragNum + i) = false) :
    ∃ left, fragLoop alloc data hdrLen fuel rem pos fragNum queue = some (.txDrop, left) := by
  induction fuel generalizing rem pos fragNum queue i with
  | zero =>
    obtain rfl : rem = 0 := by omega
    rw [fragCount_zero] at hi
    omega
  | succ fuel ih =>
    rcases Nat.eq_zero_or_pos rem with rfl | hrem
    · rw [fragCount_zero] at hi
      omega
    · rw [fragCount_step hper hrem.ne'] at hi
      cases hfirst : alloc fragNum with
      | false => exact ⟨queue, by simp [fragLoop, hrem.ne', hfirst]⟩
      | true =>
        cases i with
        | zero => simp [hfirst] at halloc
        | succ i =>
          have hlater : alloc (fragNum + 1 + i) = false := by
            rwa [show fragNum + 1 + i = fragNum + (i + 1) by omega]
          obtain ⟨left, hloop⟩ := ih (rem - min (perFrag hdrLen) rem)
            (pos + min (perFrag hdrLen) rem) (fragNum + 1) i
            (queue ++ [makeFragment data hdrLen pos (min (perFrag hdrLen) rem) fragNum
              (rem - min (perFrag hdrLen) rem != 0)]) (by omega) (by omega) hlater
          exact ⟨left, by simp [fragLoop, hrem.ne', hfirst, hloop]⟩

end Loop

section Fragment
variable {data : List UInt8} {hdrLen pos fragLen fragNum : ℕ} {more : Bool}

theorem makeFragment_length (hhdr : hdrLen ≤ data.length) (hpos : pos + fragLen ≤ data.length) :
    (makeFragment data hdrLen pos fragLen fragNum more).length = hdrLen + fragLen := by
  unfold makeFragment
  cases more <;> simp <;> omega

theorem makeFragment_payload (hhdr : hdrLen ≤ data.length) (hwide : 24 ≤ hdrLen) :
    (makeFragment data hdrLen pos fragLen fragNum more).drop hdrLen =
      (data.drop pos).take fragLen := by
  have hlen : (data.take hdrLen).length = hdrLen := List.length_take_of_le hhdr
  unfold makeFragment
  dsimp only
  rw [List.drop_modify_of_lt _ _ _ _ (by omega)]
  cases more with
  | false => simp [hlen]
  | true =>
    simp only [if_true]
    rw [List.drop_modify_of_lt _ _ _ _ (by omega)]
    simp [hlen]

theorem makeFragment_get (hhdr : hdrLen ≤ data.length) {i : ℕ} (hi : i < hdrLen) :
    (makeFragment data hdrLen pos fragLen fragNum more)[i]? = data[i]?.map fun b =>
      (b ||| if more ∧ i = 1 then 0x04 else 0) |||
        if i = 22 then UInt8.ofNat (fragNum &&& 0x000F) else 0 := by
  have hlen : (data.take hdrLen).length = hdrLen := List.length_take_of_le hhdr
  have hcopy : (data.take hdrLen ++ (data.drop pos).take fragLen)[i]? = data[i]? := by
    rw [List.getElem?_append_left (by omega), List.getElem?_take_of_lt hi]
  unfold makeFragment
  dsimp only
  generalize data.take hdrLen ++ (data.drop pos).take fragLen = tmp at hcopy ⊢
  rw [List.getElem?_modify]
  cases more with
  | false =>
    rw [if_neg (by simp), hcopy]
    cases data[i]? with
    | none => simp
    | some b => by_cases hn : i = 22 <;> simp [hn, eq_comm]
  | true =>
    rw [if_pos rfl, List.getElem?_modify, hcopy]
    cases data[i]? with
    | none => simp
    | some b => by_cases hn : i = 22 <;> by_cases ho : i = 1 <;> simp [hn, ho, eq_comm]

end Fragment

theorem le16_and_frag (data : List UInt8) (i : ℕ) :
    le16 data i &&& 0x000F = byteAt data i % 16 := by
  rw [show (0x000F : ℕ) = 2 ^ 4 - 1 from rfl, Nat.and_two_pow_sub_one_eq_mod]
  unfold le16
  omega

theorem hasMorefrags_le16 (data : List UInt8) :
    hasMorefrags (le16 data 0) = (byteAt data 1).testBit 2 := by
  have hbyte : byteAt data 0 < 2 ^ 8 := (data.getD 0 0).toNat_lt
  unfold hasMorefrags le16
  rw [show (0x0400 : ℕ) = 2 ^ 10 from rfl, Nat.and_two_pow, Nat.add_comm,
    show (256 : ℕ) = 2 ^ 8 from rfl, Nat.testBit_two_pow_mul_add _ hbyte]
  cases (byteAt data 1).testBit 2 <;> simp

theorem fragNumber_low (fragNum : ℕ) : UInt8.ofNat (fragNum &&& 0x000F) &&& 0xF0 = 0 := by
  rw [show (0xF0 : UInt8) = UInt8.ofNat 0xF0 from rfl, ← UInt8.ofNat_and, Nat.and_assoc]
  simp

theorem maskHeader_get (header : List UInt8) (i : ℕ) :
    (maskHeader header)[i]? = header[i]?.map fun b =>
      if i = 1 then b &&& 0xFB else if i = 22 then b &&& 0xF0 else b := by
  unfold maskHeader
  rw [List.getElem?_modify, List.getElem?_modify]
  cases header[i]? with
  | none => simp
  | some b =>
    by_cases ho : i = 1
    · simp [ho]
    · by_cases hn : i = 22 <;> simp [ho, hn, eq_comm]

theorem or_and_mask {b x mask : UInt8} (h : x &&& mask = 0) : (b ||| x) &&& mask = b &&& mask := by
  have hx : x.toNat &&& mask.toNat = 0 := congrArg UInt8.toNat h
  apply UInt8.toNat_inj.mp
  rw [UInt8.toNat_and, UInt8.toNat_or, Nat.and_or_distrib_right, hx, Nat.or_zero, UInt8.toNat_and]

section Fragment
variable {data : List UInt8} {hdrLen pos fragLen fragNum : ℕ} {more : Bool}

theorem makeFragment_header (hhdr : hdrLen ≤ data.length) :
    maskHeader ((makeFragment data hdrLen pos fragLen fragNum more).take hdrLen) =
      maskHeader (data.take hdrLen) := by
  apply List.ext_getElem?
  intro i
  rw [maskHeader_get, maskHeader_get]
  by_cases hi : i < hdrLen
  · rw [List.getElem?_take_of_lt hi, List.getElem?_take_of_lt hi, makeFragment_get hhdr hi,
      Option.map_map]
    congr 1
    funext b
    dsimp only [Function.comp]
    by_cases ho : i = 1
    · rw [if_pos ho, if_pos ho, if_neg (by omega : ¬ i = 22), or_and_mask (by simp)]
      apply or_and_mask
      split <;> rfl
    · rw [if_neg ho, if_neg ho, if_neg (by omega : ¬ (more = true ∧ i = 1))]
      by_cases hn : i = 22
      · rw [if_pos hn, if_pos hn, if_pos hn, or_and_mask (fragNumber_low fragNum)]
        simp
      · simp [hn]
  · simp [hi]

theorem makeFragment_byteAt (hhdr : hdrLen ≤ data.length) {i : ℕ} (hi : i < hdrLen) :
    byteAt (makeFragment data hdrLen pos fragLen fragNum more) i =
      (byteAt data i ||| if more ∧ i = 1 then 0x04 else 0) |||
        if i = 22 then fragNum &&& 0x000F else 0 := by
  have hget : data[i]? = some (data.getD i 0) := by
    rw [List.getD_eq_getElem _ _ (by omega), List.getElem?_eq_getElem (by omega)]
  unfold byteAt
  rw [List.getD_eq_getElem?_getD, makeFragment_get hhdr hi, hget]
  simp only [Option.map_some, Option.getD_some, UInt8.toNat_or]
  congr 1
  · split <;> rfl
  · split
    · have hlow : fragNum &&& 0x000F ≤ 0x000F := Nat.and_le_right
      simp only [UInt8.toNat_ofNat']
      omega
    · rfl

end Fragment

theorem hasMorefrags_makeFragment {data : List UInt8} {hdrLen pos fragLen fragNum : ℕ} {more : Bool}
    (hhdr : hdrLen ≤ data.length) (htwo : 2 ≤ hdrLen) (hplain : hasMorefrags (le16 data 0) = false) :
    hasMorefrags (le16 (makeFragment data hdrLen pos fragLen fragNum more) 0) = more := by
  rw [hasMorefrags_le16] at hplain ⊢
  rw [makeFragment_byteAt hhdr (by omega), if_neg (by decide : ¬ 1 = 22), Nat.or_zero,
    Nat.testBit_or, hplain]
  cases more <;> decide

theorem frag_makeFragment {data : List UInt8} {hdrLen pos fragLen fragNum : ℕ} {more : Bool}
    (hhdr : hdrLen ≤ data.length) (hwide : 24 ≤ hdrLen) (hfirst : le16 data 22 &&& 0x000F = 0) :
    le16 (makeFragment data hdrLen pos fragLen fragNum more) 22 &&& 0x000F = fragNum % 16 := by
  rw [le16_and_frag] at hfirst ⊢
  rw [makeFragment_byteAt hhdr (by omega), if_neg (by omega), if_pos rfl, Nat.or_zero,
    show 16 = 2 ^ 4 from rfl, Nat.or_mod_two_pow, hfirst,
    show (0x000F : ℕ) = 2 ^ 4 - 1 from rfl, Nat.and_two_pow_sub_one_eq_mod]
  simp

namespace Parts
variable {data : List UInt8} {hdrLen rem pos fragNum : ℕ} {frags : List (List UInt8)}

theorem eq_nil_iff (h : Parts data hdrLen rem pos fragNum frags) : frags = [] ↔ rem = 0 := by
  cases h with
  | done => simp
  | part hrem => simp [hrem]

theorem size (h : Parts data hdrLen rem pos fragNum frags) (hhdr : hdrLen ≤ data.length)
    (hpos : pos + rem ≤ data.length) : ∀ f ∈ frags, f.length ≤ hdrLen + perFrag hdrLen := by
  induction h with
  | done => simp
  | part hrem rest ih =>
    intro f hf
    rcases List.mem_cons.mp hf with rfl | hf
    · rw [makeFragment_length hhdr (by omega)]
      omega
    · exact ih (by omega) f hf

theorem header (h : Parts data hdrLen rem pos fragNum frags) (hhdr : hdrLen ≤ data.length) :
    ∀ f ∈ frags, maskHeader (f.take hdrLen) = maskHeader (data.take hdrLen) := by
  induction h with
  | done => simp
  | part hrem rest ih =>
    intro f hf
    rcases List.mem_cons.mp hf with rfl | hf
    · exact makeFragment_header hhdr
    · exact ih f hf

theorem number (h : Parts data hdrLen rem pos fragNum frags) (hhdr : hdrLen ≤ data.length)
    (hwide : 24 ≤ hdrLen) (hfirst : le16 data 22 &&& 0x000F = 0) :
    ∀ i, (hi : i < frags.length) → le16 frags[i] 22 &&& 0x000F = (fragNum + i) % 16 := by
  induction h with
  | done => simp
  | part hrem rest ih =>
    intro i hi
    cases i with
    | zero => simpa using frag_makeFragment hhdr hwide hfirst
    | succ i =>
      have hrest := ih i (by simpa using hi)
      rw [List.getElem_cons_succ, hrest]
      congr 1
      omega

theorem more (h : Parts data hdrLen rem pos fragNum frags) (hhdr : hdrLen ≤ data.length)
    (htwo : 2 ≤ hdrLen) (hplain : hasMorefrags (le16 data 0) = false) :
    ∀ i, (hi : i < frags.length) →
      (hasMorefrags (le16 frags[i] 0) = true ↔ i + 1 < frags.length) := by
  induction h with
  | done => simp
  | part hrem rest ih =>
    intro i hi
    cases i with
    | zero =>
      have hlast := rest.eq_nil_iff
      rw [List.getElem_cons_zero, hasMorefrags_makeFragment hhdr htwo hplain, bne_iff_ne, ne_eq,
        ← hlast, List.length_cons, ← List.length_eq_zero_iff]
      omega
    | succ i =>
      have hrest := ih i (by simpa using hi)
      rw [List.getElem_cons_succ, hrest, List.length_cons]
      omega

theorem payload (h : Parts data hdrLen rem pos fragNum frags) (hhdr : hdrLen ≤ data.length)
    (hwide : 24 ≤ hdrLen) :
    (frags.map (·.drop hdrLen)).flatten = (data.drop pos).take rem := by
  induction h with
  | done => simp
  | @part rem pos fragNum frags hrem rest ih =>
    rw [List.map_cons, List.flatten_cons, ih, makeFragment_payload hhdr hwide, ← List.drop_drop,
      ← List.take_add]
    congr 1
    omega

theorem payload_length (h : Parts data hdrLen rem pos fragNum frags)
    (hhdr : hdrLen ≤ data.length) (hpos : pos + rem ≤ data.length) :
    (frags.map (·.drop hdrLen)).flatten.length = rem := by
  induction h with
  | done => simp
  | part hrem rest ih =>
    rw [List.map_cons, List.flatten_cons, List.length_append, ih (by omega), List.length_drop,
      makeFragment_length hhdr (by omega)]
    omega

end Parts

/-- What the loop makes are the fragments of the frame cut off after `rem` bytes of payload. -/
theorem Parts.sound {data : List UInt8} {hdrLen rem : ℕ} {frags : List (List UInt8)}
    (h : Parts data hdrLen rem hdrLen 0 frags) (hlen : hdrLen + rem ≤ data.length)
    (hwide : 24 ≤ hdrLen) (hnarrow : hdrLen ≤ 36) (hfirst : le16 data 22 &&& 0x000F = 0)
    (hplain : hasMorefrags (le16 data 0) = false) :
    FragmentsSound (data.take (hdrLen + rem)) hdrLen frags := by
  have hhdr : hdrLen ≤ data.length := by omega
  constructor
  · intro f hf
    have hsize := h.size hhdr hlen f hf
    simp only [perFrag, maxFragThreshold, fcsLen] at hsize ⊢
    omega
  · intro f hf
    rw [h.header hhdr f hf, List.take_take, Nat.min_eq_left (by omega)]
  · intro _ i hi
    simpa using h.number hhdr hwide hfirst i hi
  · exact h.more hhdr (by omega) hplain
  · rw [h.payload hhdr hwide, List.drop_take]
    congr 1
    omega

section Fragment
variable {alloc : ℕ → Bool} {skb : TxFrame}

/-- The payload `r92su_tx_fragment` counts: the last `per_frag` bytes are left out. -/
def txRem (skb : TxFrame) : ℕ := skb.data.length - (maxFragThreshold - fcsLen)

theorem perFrag_pos (fc : ℕ) : 0 < perFrag (hdrlen fc) := by
  have hnarrow := hdrlen_le fc
  simp only [perFrag, maxFragThreshold, fcsLen]
  omega

theorem txRem_lt (hlong : ¬ skb.data.length + fcsLen < maxFragThreshold) :
    hdrlen (le16 skb.data 0) + txRem skb < skb.data.length := by
  have hnarrow := hdrlen_le (le16 skb.data 0)
  simp only [txRem, maxFragThreshold, fcsLen] at hlong ⊢
  omega

theorem txFragment_long (hlong : ¬ skb.data.length + fcsLen < maxFragThreshold) :
    txFragment alloc skb = if txRem skb = 0 then some (.txDrop, []) else
      fragLoop alloc skb.data (hdrlen (le16 skb.data 0)) (txRem skb) (txRem skb)
        (hdrlen (le16 skb.data 0)) 0 [] := by
  have hnarrow := hdrlen_le (le16 skb.data 0)
  have hrem : (skb.data.length : ℤ) - hdrlen (le16 skb.data 0) - perFrag (hdrlen (le16 skb.data 0)) =
      (txRem skb : ℤ) := by
    simp only [txRem, perFrag, maxFragThreshold, fcsLen] at hlong ⊢
    omega
  unfold txFragment
  rw [if_neg hlong]
  dsimp only
  rw [hrem]
  simp only [Int.natCast_nonpos_iff, Int.toNat_natCast]

/-- A long frame for which there is memory is queued without its last `per_frag` bytes. -/
theorem txFragment_parts (hlong : ¬ skb.data.length + fcsLen < maxFragThreshold)
    (hrem : txRem skb ≠ 0)
    (halloc : ∀ i < fragCount (hdrlen (le16 skb.data 0)) (txRem skb), alloc i = true) :
    ∃ queue, txFragment alloc skb = some (.txContinue, queue) ∧
      Parts skb.data (hdrlen (le16 skb.data 0)) (txRem skb) (hdrlen (le16 skb.data 0)) 0 queue := by
  obtain ⟨queue, hloop, hparts⟩ := @fragLoop_parts alloc skb.data _ (perFrag_pos (le16 skb.data 0))
    (txRem skb) (txRem skb) (hdrlen (le16 skb.data 0)) 0 [] le_rfl (by simpa using halloc)
  exact ⟨queue, by simpa [txFragment_long hlong, hrem] using hloop, hparts⟩

/-- The loop of the fragmentation comes to its end. -/
theorem txFragment_isSome (alloc : ℕ → Bool) (skb : TxFrame) : (txFragment alloc skb).isSome := by
  by_cases hshort : skb.data.length + fcsLen < maxFragThreshold
  · rw [txFragment, if_pos hshort]
    rfl
  · by_cases hrem : txRem skb = 0
    · rw [txFragment_long hshort, if_pos hrem]
      rfl
    · by_cases hfail : ∃ i < fragCount (hdrlen (le16 skb.data 0)) (txRem skb), alloc i = false
      · obtain ⟨i, hi, halloc⟩ := hfail
        obtain ⟨left, hloop⟩ := @fragLoop_drop alloc skb.data _ (perFrag_pos (le16 skb.data 0))
          (txRem skb) (txRem skb) (hdrlen (le16 skb.data 0)) 0 i [] le_rfl hi (by simpa using halloc)
        rw [txFragment_long hshort, if_neg hrem, hloop]
        rfl
      · obtain ⟨queue, hrun, -⟩ := txFragment_parts hshort hrem (by simpa using hfail)
        rw [hrun]
        rfl

theorem Parts.not_sound {rem : ℕ} {frags : List (List UInt8)}
    (h : Parts skb.data (hdrlen (le16 skb.data 0)) rem (hdrlen (le16 skb.data 0)) 0 frags)
    (hlt : hdrlen (le16 skb.data 0) + rem < skb.data.length) :
    ¬ FragmentsSound skb.data (hdrlen (le16 skb.data 0)) frags := by
  intro hsound
  have hlen := h.payload_length skb.whole hlt.le
  rw [hsound.payload, List.length_drop] at hlen
  omega

theorem fragmentsSound_singleton {data : List UInt8} {hdrLen : ℕ}
    (hshort : data.length + fcsLen < maxFragThreshold) :
    FragmentsSound data hdrLen [data] ↔
      (24 ≤ hdrLen → le16 data 22 &&& 0x000F = 0) ∧ hasMorefrags (le16 data 0) = false := by
  constructor
  · intro h
    constructor
    · intro hwide
      simpa using h.number hwide 0 (by simp)
    · simpa using h.more 0 (by simp)
  · rintro ⟨hfirst, hplain⟩
    constructor
    · simp only [maxFragThreshold, fcsLen] at hshort ⊢
      simp only [List.mem_singleton, forall_eq]
      omega
    · simp
    · intro hwide i hi
      obtain rfl : i = 0 := by simpa using hi
      simpa using hfirst hwide
    · intro i hi
      obtain rfl : i = 0 := by simpa using hi
      simp [hplain]
    · simp

/-- Fragmentation keeps the frame exactly when there is nothing to fragment or it gives up. -/
theorem txFragment_sound_iff (alloc : ℕ → Bool) (skb : TxFrame) :
    ∃ control queue, txFragment alloc skb = some (control, queue) ∧
      ((control = .txContinue → FragmentsSound skb.data (hdrlen (le16 skb.data 0)) queue) ↔
        if skb.data.length + fcsLen < maxFragThreshold then
          (24 ≤ hdrlen (le16 skb.data 0) → le16 skb.data 22 &&& 0x000F = 0) ∧
            hasMorefrags (le16 skb.data 0) = false
        else
          skb.data.length + fcsLen = maxFragThreshold ∨
            ∃ i < fragCount (hdrlen (le16 skb.data 0)) (txRem skb), alloc i = false) := by
  by_cases hshort : skb.data.length + fcsLen < maxFragThreshold
  · refine ⟨.txContinue, [skb.data], by simp [txFragment, hshort], ?_⟩
    rw [if_pos hshort, ← fragmentsSound_singleton hshort]
    simp
  · rw [if_neg hshort]
    have hnone : txRem skb = 0 ↔ skb.data.length + fcsLen = maxFragThreshold := by
      simp only [txRem, maxFragThreshold, fcsLen] at hshort ⊢
      omega
    by_cases hrem : txRem skb = 0
    · refine ⟨.txDrop, [], by simp [txFragment_long hshort, hrem], ?_⟩
      simp [hnone.mp hrem]
    · by_cases hfail : ∃ i < fragCount (hdrlen (le16 skb.data 0)) (txRem skb), alloc i = false
      · obtain ⟨i, hi, halloc⟩ := hfail
        obtain ⟨left, hloop⟩ := @fragLoop_drop alloc skb.data _ (perFrag_pos (le16 skb.data 0))
          (txRem skb) (txRem skb) (hdrlen (le16 skb.data 0)) 0 i [] le_rfl hi (by simpa using halloc)
        refine ⟨.txDrop, left, by simpa [txFragment_long hshort, hrem] using hloop, ?_⟩
        simp only [reduceCtorEq, false_implies, true_iff]
        exact Or.inr ⟨i, hi, halloc⟩
      · obtain ⟨queue, hrun, hparts⟩ := txFragment_parts hshort hrem (by simpa using hfail)
        refine ⟨.txContinue, queue, hrun, ?_⟩
        have hlost := hparts.not_sound (txRem_lt hshort)
        simp only [forall_const, hlost, false_iff, not_or, ← hnone]
        exact ⟨hrem, hfail⟩

/-- A data frame of 2400 bytes. -/
def longFrame : TxFrame where
  data := 0x08 :: List.replicate 2399 0
  whole := by decide +kernel

theorem longFrame_not_sound : ∃ queue,
    txFragment (fun _ => true) longFrame = some (.txContinue, queue) ∧
      ¬ FragmentsSound longFrame.data (hdrlen (le16 longFrame.data 0)) queue := by
  have hlen : longFrame.data.length = 2400 := by
    rw [show longFrame.data = 0x08 :: List.replicate 2399 0 from rfl, List.length_cons,
      List.length_replicate]
  have hlong : ¬ longFrame.data.length + fcsLen < maxFragThreshold := by
    rw [hlen]
    decide
  obtain ⟨queue, hrun, hparts⟩ := @txFragment_parts (fun _ => true) longFrame hlong
    (by rw [txRem, hlen]; decide) (by simp)
  exact ⟨queue, hrun, hparts.not_sound (txRem_lt hlong)⟩

end Fragment

end R92su
