import StandaloneDrivers.R92su.Replay
import StandaloneDrivers.R92su.Transmit

/-! The IVs a sender writes and the tests of the receiver, over the life of a key: both counters
start at one number, and the receiver asks for a greater one. -/
namespace R92su
open Foundations

theorem seqByte_toNat (seq i : ℕ) : (seqByte seq i).toNat = seq / 256 ^ i % 256 := by
  simp only [seqByte, UInt8.toNat_ofNat', Nat.shiftRight_eq_div_pow]
  rw [pow_mul]
  norm_num

theorem be48_seqByte {seq : ℕ} (h : seq < 2 ^ 48) :
    be48 (seqByte seq 5).toNat (seqByte seq 4).toNat (seqByte seq 3).toNat (seqByte seq 2).toNat
      (seqByte seq 1).toNat (seqByte seq 0).toNat = seq := by
  simp only [seqByte_toNat, be48]
  omega

/-- The extended IV bit survives the key identifier. -/
theorem keyIdByte_extIv (key : KeyObject) : (keyIdByte key).toNat &&& 0x20 ≠ 0 := by
  have hbit : ((keyIdByte key).toNat &&& 0x20).testBit 5 = true := by
    simp only [keyIdByte, UInt8.toNat_ofNat', Nat.testBit_and, Nat.testBit_mod_two_pow,
      Nat.testBit_or]
    simp [show Nat.testBit 32 5 = true by decide]
  intro hzero
  rw [hzero] at hbit
  simp at hbit

/-- Byte `i` of the IV lies behind the header. -/
theorem withIv_byteAt (skb : TxFrame) {iv : List UInt8} {i : ℕ} (hi : i < iv.length) :
    byteAt (withIv skb.data iv) (hdrlen (le16 skb.data 0) + i) = (iv.getD i 0).toNat := by
  have hlen : (skb.data.take (hdrlen (le16 skb.data 0))).length = hdrlen (le16 skb.data 0) := by
    rw [List.length_take, min_eq_left skb.whole]
  simp only [byteAt, withIv, List.getD_eq_getElem?_getD, List.append_assoc]
  rw [List.getElem?_append_right (by omega), hlen, Nat.add_sub_cancel_left,
    List.getElem?_append_left hi]

/-- A received frame that carries the IV of a sent one, looked up key `k`. -/
structure Arrives (k : ℕ) (skb : TxFrame) (sent : List UInt8) (received : Skb) : Prop where
  key : received.cb.key = some k
  hdrlen : received.hdrlen = R92su.hdrlen (le16 skb.data 0)
  iv : ∀ i < 8, received.iv i = byteAt sent (R92su.hdrlen (le16 skb.data 0) + i)
  whole : received.hdrlen + 8 ≤ received.data.length

/-- The sender's key after `n` frames. -/
def senderAt (key : KeyObject) (frames : ℕ → TxFrame) : ℕ → KeyObject
  | 0 => key
  | n + 1 => (txAddIv (senderAt key frames n) (frames n)).2.1

/-- The receiver after `n` frames have gone through its stages. -/
def receiverAt (s : RxContext) (received : ℕ → Skb) (expanded : ℕ → Bool) : ℕ → RxContext
  | 0 => s
  | n + 1 => ((receiverAt s received expanded n).passStages (expanded n) (received n)).1

/-- The two ends of a key made by `keyAlloc`, and the frames that go from one to the other in
order and without loss. -/
structure Link (cipher : CipherSuite) (material : List UInt8) where
  sender : KeyObject
  senderNew : ∃ idx macAddr pairwise allocated random,
    keyAlloc cipher idx macAddr pairwise material allocated random = .ok sender
  context : RxContext
  k : ℕ
  receiverNew : ∃ idx macAddr pairwise allocated random receiver,
    keyAlloc cipher idx macAddr pairwise material allocated random = .ok receiver ∧
      context.keys k = receiver.toKey
  frames : ℕ → TxFrame
  received : ℕ → Skb
  expanded : ℕ → Bool
  arrives : ∀ n, Arrives k (frames n) (txAddIv (senderAt sender frames n) (frames n)).2.2
    (received n)

/-- Frame `n` passes the tests of the first stage, which decodes the number the sender had. -/
def Link.AgreesAt {cipher : CipherSuite} {material : List UInt8} (link : Link cipher material)
    (n : ℕ) : Prop :=
  ∃ skb, rxIvHandle (receiverAt link.context link.received link.expanded n).keys
      (link.received n) = (.rxContinue, skb) ∧
    skb.cb.iv = (senderAt link.sender link.frames n).txSeq

/-- The number a receiver reads from the IV of a sender's frame. -/
theorem arrives_seq {k : ℕ} {key : KeyObject} {skb : TxFrame} {received : Skb}
    (h : Arrives k skb (txAddIv key skb).2.2 received) (hseq : key.txSeq < 2 ^ 48) :
    (key.type = .tkip → received.extIv = true ∧ received.tkipSeq = key.txSeq) ∧
      (key.type = .aesccmp → received.extIv = true ∧ received.ccmpSeq = key.txSeq) := by
  constructor
  · intro htype
    have hiv := h.iv
    simp only [txAddIv, htype] at hiv
    have hbyte : ∀ i < 8, received.iv i = _ := fun i hi =>
      (hiv i hi).trans (withIv_byteAt skb (by simpa using hi))
    constructor
    · simpa [Skb.extIv, hbyte 3 (by norm_num)] using keyIdByte_extIv key
    · simp only [Skb.tkipSeq, hbyte 7 (by norm_num), hbyte 6 (by norm_num), hbyte 5 (by norm_num),
        hbyte 4 (by norm_num), hbyte 0 (by norm_num), hbyte 2 (by norm_num)]
      exact be48_seqByte hseq
  · intro htype
    have hiv := h.iv
    simp only [txAddIv, htype] at hiv
    have hbyte : ∀ i < 8, received.iv i = _ := fun i hi =>
      (hiv i hi).trans (withIv_byteAt skb (by simpa using hi))
    constructor
    · simpa [Skb.extIv, hbyte 3 (by norm_num)] using keyIdByte_extIv key
    · simp only [Skb.ccmpSeq, hbyte 7 (by norm_num), hbyte 6 (by norm_num), hbyte 5 (by norm_num),
        hbyte 4 (by norm_num), hbyte 0 (by norm_num), hbyte 1 (by norm_num)]
      exact be48_seqByte hseq

/-- The IV of a frame that arrives is stripped. -/
theorem Arrives.ivStripped {k : ℕ} {skb : TxFrame} {sent : List UInt8} {received : Skb}
    (h : Arrives k skb sent received) (cb : RxInfo) : R92su.ivStripped 8 { received with cb := cb } =
      (.rxContinue, { received with cb := cb }.stripIv 8) := by
  have hpos := hdrlen_ge received.frameControl
  have hlong := h.whole
  unfold R92su.ivStripped
  rw [if_neg (by simp only [Skb.hdrlen] at hlong; simp only; omega)]

/-- A frame passes exactly when the sender is ahead of the receiver's counter. -/
theorem rxIvHandle_arrives {keys : ℕ → Key} {k : ℕ} {key : KeyObject} {skb : TxFrame}
    {received : Skb} (h : Arrives k skb (txAddIv key skb).2.2 received)
    (hc : key.toKey.Counts) (htype : (keys k).type = key.type) (hseq : key.txSeq < 2 ^ 48) :
    rxIvHandle keys received =
      if (keys k).rxSeq < key.txSeq then
        (.rxContinue, { received with cb := { received.cb with iv := key.txSeq } }.stripIv 8)
      else (.rxDrop, received) := by
  obtain ⟨htkip, hccmp⟩ := arrives_seq h hseq
  rcases hc with hk | hk
  · obtain ⟨hext, hnum⟩ := htkip hk
    have hlen : getIvLen (keys k) = 8 := by simp only [getIvLen, htype, hk]
    simp only [rxIvHandle, h.key, Option.map_some, htype, hk, hext, hnum, hlen, Bool.not_true,
      Bool.false_eq_true, if_false, ge_iff_le, h.ivStripped]
    by_cases hlt : (keys k).rxSeq < key.txSeq
    · rw [if_neg (by omega), if_pos hlt]
    · rw [if_pos (by omega), if_neg hlt]
  · obtain ⟨hext, hnum⟩ := hccmp hk
    have hlen : getIvLen (keys k) = 8 := by simp only [getIvLen, htype, hk]
    simp only [rxIvHandle, h.key, Option.map_some, htype, hk, hext, hnum, hlen, Bool.not_true,
      Bool.false_eq_true, if_false, h.ivStripped]
    by_cases hlt : (keys k).rxSeq < key.txSeq
    · rw [if_neg (by omega), if_pos hlt]
    · rw [if_pos (by omega), if_neg hlt]

/-- A frame takes the sender one number further, modulo 2^48. -/
theorem senderAt_state {key : KeyObject} (hc : key.toKey.Counts) (hseq : key.txSeq < 2 ^ 48)
    (frames : ℕ → TxFrame) (n : ℕ) : (senderAt key frames n).type = key.type ∧
      (senderAt key frames n).txSeq = (key.txSeq + n) % 2 ^ 48 := by
  induction n with
  | zero => exact ⟨rfl, (Nat.mod_eq_of_lt hseq).symm⟩
  | succ n ih =>
    obtain ⟨htype, hnum⟩ := ih
    rcases hc with hk | hk
    · simp only [senderAt, txAddIv, htype.trans hk, hnum]
      exact ⟨hk.symm, by omega⟩
    · simp only [senderAt, txAddIv, htype.trans hk, hnum]
      exact ⟨hk.symm, by omega⟩

/-- While the sender's numbers do not wrap, the receiver's counter stays below the next one. -/
theorem receiverAt_state {key : KeyObject} (hc : key.toKey.Counts) {frames : ℕ → TxFrame}
    {s : RxContext} {k : ℕ} (hk : (s.keys k).type = key.type) (hfirst : (s.keys k).rxSeq = key.txSeq)
    {received : ℕ → Skb} (expanded : ℕ → Bool)
    (harrives : ∀ n, Arrives k (frames n) (txAddIv (senderAt key frames n) (frames n)).2.2
      (received n)) (n : ℕ) (hn : key.txSeq + n ≤ 2 ^ 48) (hseq : key.txSeq < 2 ^ 48) :
    ((receiverAt s received expanded n).keys k).type = key.type ∧
      key.txSeq ≤ ((receiverAt s received expanded n).keys k).rxSeq ∧
      ((receiverAt s received expanded n).keys k).rxSeq ≤ key.txSeq + (n - 1) := by
  induction n with
  | zero => exact ⟨hk, hfirst.ge, hfirst.le⟩
  | succ n ih =>
    obtain ⟨htype, hlo, hhi⟩ := ih (by omega)
    obtain ⟨hsent, hnum⟩ := senderAt_state hc hseq frames n
    rw [Nat.mod_eq_of_lt (by omega)] at hnum
    rcases (RxContext.passStages_keys (receiverAt s received expanded n) (expanded n)
      (received n)).1 with hsame | ⟨j, t, hj, hiv, hlt, hset, -⟩
    · simp only [receiverAt]
      rw [hsame]
      exact ⟨htype, hlo, by omega⟩
    · rw [(harrives n).key] at hj
      cases hj
      have hcounts : (senderAt key frames n).toKey.Counts := by
        unfold Key.Counts
        rw [hsent]
        exact hc
      rw [rxIvHandle_arrives (harrives n) hcounts (htype.trans hsent.symm) (by omega)] at hiv
      split_ifs at hiv
      · cases hiv
        simp only [receiverAt]
        rw [hset, Function.update_self]
        simp only [Skb.stripIv, hnum] at hlt ⊢
        exact ⟨htype, by omega, by omega⟩
      · cases hiv

/-- Both counters of a new key start with one number. -/
theorem keyAlloc_counters {cipher : CipherSuite} (hcipher : cipher = .tkip ∨ cipher = .ccmp)
    {idx : UInt8} {macAddr : Option MacAddr} {pairwise allocated : Bool} {material : List UInt8}
    {random : UInt32} {key : KeyObject}
    (h : keyAlloc cipher idx macAddr pairwise material allocated random = .ok key) :
    key.type = (if cipher = .tkip then .tkip else .aesccmp) ∧
      key.txSeq = (if cipher = .tkip then 1 else 0) ∧ key.rxSeq = key.txSeq := by
  unfold keyAlloc at h
  split_ifs at h
  rcases hcipher with rfl | rfl
  · cases h
    exact ⟨rfl, rfl, rfl⟩
  · cases h
    exact ⟨rfl, rfl, rfl⟩

/-- Frame `n` agrees exactly when the sender is ahead of the receiver. -/
theorem Link.agreesAt_iff {cipher : CipherSuite} {material : List UInt8}
    (link : Link cipher material) (hc : link.sender.toKey.Counts) {n : ℕ}
    (htype : ((receiverAt link.context link.received link.expanded n).keys link.k).type =
      (senderAt link.sender link.frames n).type)
    (hsent : (senderAt link.sender link.frames n).type = link.sender.type)
    (hseq : (senderAt link.sender link.frames n).txSeq < 2 ^ 48) :
    link.AgreesAt n ↔
      ((receiverAt link.context link.received link.expanded n).keys link.k).rxSeq <
        (senderAt link.sender link.frames n).txSeq := by
  have hcounts : (senderAt link.sender link.frames n).toKey.Counts := by
    unfold Key.Counts
    rw [hsent]
    exact hc
  unfold Link.AgreesAt
  rw [rxIvHandle_arrives (link.arrives n) hcounts htype hseq]
  constructor
  · rintro ⟨skb, hpass, -⟩
    split_ifs at hpass with hlt
    · exact hlt
    · cases hpass
  · intro hlt
    rw [if_pos hlt]
    exact ⟨_, rfl, rfl⟩

/-- Over the life of a key, all frames agree but the first, and under TKIP the one whose number
has wrapped to zero. -/
theorem ivs_agree_iff {cipher : CipherSuite} {material : List UInt8} (link : Link cipher material)
    (hcipher : cipher = .tkip ∨ cipher = .ccmp) {n : ℕ} (hn : n < 2 ^ 48) :
    link.AgreesAt n ↔ 1 ≤ n ∧ (cipher = .tkip → n + 1 < 2 ^ 48) := by
  obtain ⟨_, _, _, _, _, hsender⟩ := link.senderNew
  obtain ⟨_, _, _, _, _, receiver, hreceiver, hk⟩ := link.receiverNew
  obtain ⟨htype, htx, -⟩ := keyAlloc_counters hcipher hsender
  obtain ⟨hrtype, hrtx, hrx⟩ := keyAlloc_counters hcipher hreceiver
  have hc : link.sender.toKey.Counts := by
    rcases hcipher with rfl | rfl
    · exact Or.inl htype
    · exact Or.inr htype
  have hfirst : link.sender.txSeq ≤ 1 := by
    rw [htx]
    split_ifs <;> norm_num
  obtain ⟨hsent, hnum⟩ := senderAt_state hc (by omega) link.frames n
  obtain ⟨hkey, hlo, hhi⟩ := receiverAt_state hc (s := link.context) (k := link.k)
    (by rw [hk]; exact hrtype.trans htype.symm) (by rw [hk]; exact hrx.trans (hrtx.trans htx.symm))
    link.expanded link.arrives n (by omega) (by omega)
  rw [link.agreesAt_iff hc (hkey.trans hsent.symm) hsent (by omega), hnum]
  rcases hcipher with rfl | rfl
  · rw [if_pos rfl] at htx
    simp only [forall_const]
    omega
  · rw [if_neg (by decide)] at htx
    simp only [reduceCtorEq, false_implies, and_true]
    omega

/-- The first bytes of a data frame, with the Protected bit. -/
def plainFrame : TxFrame := ⟨[0x08, 0x42] ++ List.replicate 22 0, by decide⟩

/-- A new CCMP key. -/
def freshKey : KeyObject := ⟨⟨.aesccmp, 0, List.replicate 16 0⟩, 0, 16, true, 0, 0⟩

/-- What arrives of `plainFrame` under the new key. -/
def freshFrame (n : ℕ) : Skb where
  data := (txAddIv (senderAt freshKey (fun _ => plainFrame) n) plainFrame).2.2
  cb := ⟨some 0, some 0, 0, true⟩
  protocol := 0
  queueMapping := 0
  clear := false

/-- A sender that repeats one frame under the new key. -/
def ccmpLink : Link .ccmp (List.replicate 16 0) where
  sender := freshKey
  senderNew := ⟨0, none, true, true, 0, rfl⟩
  context := ⟨fun _ => freshKey.toKey, fun _ => ⟨[], 0⟩⟩
  k := 0
  receiverNew := ⟨0, none, true, true, 0, freshKey, rfl, rfl⟩
  frames := fun _ => plainFrame
  received := freshFrame
  expanded := fun _ => true
  arrives := by
    intro n
    obtain ⟨iv, hlen, hdata⟩ : ∃ iv : List UInt8, iv.length = 8 ∧
        (freshFrame n).data = withIv plainFrame.data iv := by
      have hcounts : freshKey.toKey.Counts := Or.inr rfl
      have htype := (senderAt_state hcounts (by decide) (fun _ => plainFrame) n).1
      simp only [freshFrame, txAddIv, htype]
      exact ⟨_, rfl, rfl⟩
    have hfc : (freshFrame n).frameControl = le16 plainFrame.data 0 := by
      simp only [Skb.frameControl, hdata]
      rfl
    constructor
    · rfl
    · simp only [Skb.hdrlen, hfc]
    · intro i _
      simp only [Skb.iv, Skb.hdrlen, hfc]
      rfl
    · simp only [Skb.hdrlen, hfc, hdata, withIv, List.length_append, hlen]
      decide

theorem ccmpLink_second : ccmpLink.AgreesAt 1 :=
  (ivs_agree_iff ccmpLink (Or.inr rfl) (by decide)).mpr ⟨le_rfl, by simp⟩

/-- The first frame under a new key is not accepted. -/
theorem first_frame_dropped : ¬ ∀ (cipher : CipherSuite) (material : List UInt8)
    (link : Link cipher material), cipher = .tkip ∨ cipher = .ccmp → ∀ n < 2 ^ 48,
      link.AgreesAt n := by
  intro h
  obtain ⟨skb, hpass, -⟩ := h .ccmp _ ccmpLink (Or.inr rfl) 0 (by norm_num)
  have hdrop : (rxIvHandle ccmpLink.context.keys (ccmpLink.received 0)).1 = .rxDrop := by
    decide
  rw [show receiverAt ccmpLink.context ccmpLink.received ccmpLink.expanded 0 =
    ccmpLink.context from rfl] at hpass
  rw [hpass] at hdrop
  cases hdrop

end R92su
