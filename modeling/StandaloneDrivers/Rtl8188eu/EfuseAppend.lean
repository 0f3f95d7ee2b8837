import StandaloneDrivers.Rtl8188eu.EfuseReader
import StandaloneDrivers.Rtl8188eu.EfuseWrite

/-! A packet written onto unprogrammed fuses behind the log: it lies there as it was asked for,
and everything else reads as before. -/
namespace Rtl8188eu.Efuse
open Foundations

theorem efuseOneByteWrite_blank {content : Memory} {addr : ℕ} (data : UInt8) (ha : addr < 256)
    (h : content addr = 0xFF) :
    efuseOneByteWrite content addr data = Function.update content addr data := if_pos ⟨ha, h⟩

/-- What a fuse reads after it was written. -/
def burn (old data : UInt8) : UInt8 := if old = 0xFF then data else old

theorem efuseOneByteWrite_burn (content : Memory) {addr : ℕ} (data : UInt8) (ha : addr < 256) :
    efuseOneByteWrite content addr data =
      Function.update content addr (burn (content addr) data) := by
  unfold burn
  by_cases h : content addr = 0xFF
  · rw [efuseOneByteWrite_blank data ha h, if_pos h]
  · rw [if_neg h, Function.update_eq_self]
    exact if_neg fun hc => h hc.2

section Masks

/-- The mask that enables the words below `n` that meet `P`. -/
def maskOf (P : ℕ → Bool) : ℕ → UInt8
  | 0 => 0x0F
  | w + 1 => if P w then maskOf P w &&& ~~~bit w else maskOf P w

theorem clear_enabled_fin : ∀ (m : Fin 16) (w v : Fin 4),
    (UInt8.ofNat m &&& ~~~bit w).toNat < 16 ∧
      wordEnabled (UInt8.ofNat m &&& ~~~bit w) v =
        (decide (v = w) || wordEnabled (UInt8.ofNat m) v) := by
  decide

theorem clear_enabled {m : UInt8} (hm : m.toNat < 16) {w : ℕ} (hw : w < 4) :
    (m &&& ~~~bit w).toNat < 16 ∧ ∀ v < 4,
      wordEnabled (m &&& ~~~bit w) v = (decide (v = w) || wordEnabled m v) := by
  have h := clear_enabled_fin ⟨m.toNat, hm⟩ ⟨w, hw⟩
  simp only [UInt8.ofNat_toNat] at h
  refine ⟨(h 0).1, fun v hv => ?_⟩
  have hv' := (h ⟨v, hv⟩).2
  rw [hv']
  congr 1
  exact decide_eq_decide.mpr Fin.mk.inj_iff

theorem void_enabled : ∀ v < 4, wordEnabled 0x0F v = false := by decide

theorem maskOf_spec (P : ℕ → Bool) {n : ℕ} (hn : n ≤ 4) :
    (maskOf P n).toNat < 16 ∧ ∀ v < 4, wordEnabled (maskOf P n) v = (decide (v < n) && P v) := by
  induction n with
  | zero => exact ⟨show (0x0F : UInt8).toNat < 16 by decide, void_enabled⟩
  | succ w ih =>
    obtain ⟨hlt, hbits⟩ := ih (by omega)
    obtain ⟨hlt', hclear⟩ := clear_enabled hlt (by omega : w < 4)
    unfold maskOf
    cases hP : P w with
    | true =>
      rw [if_pos rfl]
      refine ⟨hlt', fun v hv => ?_⟩
      rw [hclear v hv, hbits v hv]
      obtain rfl | hne := eq_or_ne v w
      · simp [hP]
      · have hiff : v < w + 1 ↔ v < w := by omega
        simp [hne, hiff]
    | false =>
      rw [if_neg Bool.false_ne_true]
      refine ⟨hlt, fun v hv => ?_⟩
      rw [hbits v hv]
      obtain rfl | hne := eq_or_ne v w
      · simp [hP]
      · have hiff : v < w + 1 ↔ v < w := by omega
        simp [hiff]

theorem maskOf_enabled (P : ℕ → Bool) {v : ℕ} (hv : v < 4) :
    wordEnabled (maskOf P 4) v = P v := by
  rw [(maskOf_spec P le_rfl).2 v hv, decide_eq_true hv, Bool.true_and]

theorem maskOf_void {P : ℕ → Bool} {n : ℕ} (h : ∀ v < n, P v = false) : maskOf P n = 0x0F := by
  induction n with
  | zero => rfl
  | succ w ih =>
    rw [maskOf, h w (Nat.lt_succ_self w), if_neg Bool.false_ne_true]
    exact ih fun v hv => h v (by omega)

theorem maskOf_congr {P Q : ℕ → Bool} {n : ℕ} (h : ∀ v < n, P v = Q v) :
    maskOf P n = maskOf Q n := by
  induction n with
  | zero => rfl
  | succ w ih =>
    rw [maskOf, maskOf, h w (Nat.lt_succ_self w), ih fun v hv => h v (by omega)]

end Masks

/-- A word of a packet's data that will not read back as it should. -/
def misread (content : Memory) (start : ℕ) (wordEn : UInt8) (data : Memory) (w : ℕ) : Bool :=
  wordEnabled wordEn w &&
    decide (burn (content (start + 2 * rank wordEn w)) (data (2 * w)) ≠ data (2 * w) ∨
      burn (content (start + 2 * rank wordEn w + 1)) (data (2 * w + 1)) ≠ data (2 * w + 1))

namespace DataWrite

/-- The words below `i` are written from `start` on. -/
structure Upto (content : Memory) (start : ℕ) (wordEn : UInt8) (data : Memory) (i : ℕ)
    (s : State) : Prop where
  startAddr : s.startAddr = start + 2 * rank wordEn i
  badworden : s.badworden = maskOf (misread content start wordEn data) i
  outside : ∀ a, a < start ∨ start + 2 * rank wordEn i ≤ a → s.content a = content a
  written : ∀ w < i, wordEnabled wordEn w = true → ∀ half < 2,
    s.content (start + 2 * rank wordEn w + half) =
      burn (content (start + 2 * rank wordEn w + half)) (data (2 * w + half))

theorem Upto.step {content : Memory} {start : ℕ} {wordEn : UInt8} {data : Memory} {i : ℕ}
    {s : State} (h : Upto content start wordEn data i s) (hi : i < 4)
    (hend : start + 2 * rank wordEn 4 ≤ 256) :
    Upto content start wordEn data (i + 1) (word wordEn data s i) := by
  have hrank := rank_succ wordEn i
  have hmono : rank wordEn (i + 1) ≤ rank wordEn 4 := rank_mono _ (by omega)
  unfold word
  cases he : wordEnabled wordEn i with
  | false =>
    rw [he, Bool.toNat_false] at hrank
    rw [if_neg Bool.false_ne_true]
    constructor
    · rw [h.startAddr]
      omega
    · rw [h.badworden, maskOf, misread, he, Bool.false_and, if_neg Bool.false_ne_true]
    · intro a ha
      exact h.outside a (by omega)
    · intro w hw hwe
      have hne : w ≠ i := by
        rintro rfl
        rw [he] at hwe
        contradiction
      exact h.written w (by omega) hwe
  | true =>
    rw [he, Bool.toNat_true] at hrank
    rw [if_pos rfl]
    have hstart := h.startAddr
    have hfirst : s.content s.startAddr = content (start + 2 * rank wordEn i) := by
      rw [h.outside _ (by omega), hstart]
    have hsecond : Function.update s.content s.startAddr
        (burn (content (start + 2 * rank wordEn i)) (data (2 * i))) (s.startAddr + 1) =
        content (start + 2 * rank wordEn i + 1) := by
      rw [Function.update_of_ne (by omega), h.outside _ (by omega), hstart]
    rw [efuseOneByteWrite_burn _ _ (by omega), efuseOneByteWrite_burn _ _ (by omega), hfirst,
      hsecond]
    have hread : Function.update (Function.update s.content s.startAddr
        (burn (content (start + 2 * rank wordEn i)) (data (2 * i)))) (s.startAddr + 1)
        (burn (content (start + 2 * rank wordEn i + 1)) (data (2 * i + 1))) s.startAddr =
        burn (content (start + 2 * rank wordEn i)) (data (2 * i)) := by
      rw [Function.update_of_ne (by omega), Function.update_self]
    have hread' : Function.update (Function.update s.content s.startAddr
        (burn (content (start + 2 * rank wordEn i)) (data (2 * i)))) (s.startAddr + 1)
        (burn (content (start + 2 * rank wordEn i + 1)) (data (2 * i + 1))) (s.startAddr + 1) =
        burn (content (start + 2 * rank wordEn i + 1)) (data (2 * i + 1)) :=
      Function.update_self _ _ _
    constructor
    · simp only
      omega
    · simp only [hread, hread', maskOf, misread, he, Bool.true_and, decide_eq_true_eq, h.badworden,
        ne_comm]
    · intro a ha
      dsimp only
      rw [Function.update_of_ne (by omega), Function.update_of_ne (by omega)]
      exact h.outside a (by omega)
    · intro w hw hwe half hhalf
      obtain rfl | hlt : w = i ∨ w < i := by omega
      · obtain rfl | rfl : half = 0 ∨ half = 1 := by omega
        · rw [Nat.add_zero, ← hstart]
          rw [hstart] at hread ⊢
          exact hread
        · rw [← hstart]
          rw [hstart] at hread' ⊢
          exact hread'
      · have := rank_lt hwe hlt
        dsimp only
        rw [Function.update_of_ne (by omega), Function.update_of_ne (by omega)]
        exact h.written w hlt hwe half hhalf

end DataWrite

/-- The data of a packet: the words that do not read back come out in the mask. -/
theorem halEfuseWordEnableDataWrite_spec (content : Memory) {start : ℕ} (wordEn : UInt8)
    (data : Memory) (hend : start + 2 * rank wordEn 4 ≤ 256) :
    ∃ content', halEfuseWordEnableDataWrite content start wordEn data =
        (content', maskOf (misread content start wordEn data) 4) ∧
      (∀ a, a < start ∨ start + 2 * rank wordEn 4 ≤ a → content' a = content a) ∧
      ∀ i < 8, wordEnabled wordEn (i / 2) = true →
        misread content start wordEn data (i / 2) = false →
        content' (start + 2 * rank wordEn (i / 2) + i % 2) = data i := by
  have h0 : DataWrite.Upto content start wordEn data 0 ⟨content, start, 0x0F⟩ :=
    ⟨rfl, rfl, fun _ _ => rfl, fun w hw => absurd hw (Nat.not_lt_zero w)⟩
  have h4 := (((h0.step (by omega) hend).step (by omega) hend).step (by omega) hend).step
    (by omega) hend
  refine ⟨_, Prod.ext rfl h4.badworden, h4.outside, ?_⟩
  intro i hi he hok
  have hwritten := h4.written (i / 2) (by omega) he (i % 2) (Nat.mod_lt _ (by omega))
  have hindex : 2 * (i / 2) + i % 2 = i := Nat.div_add_mod i 2
  rw [hindex] at hwritten
  refine Eq.trans hwritten ?_
  rw [misread, he, Bool.true_and, decide_eq_false_iff_not, not_or, not_not, not_not] at hok
  obtain hhalf | hhalf : i % 2 = 0 ∨ i % 2 = 1 := by omega
  · have heven : 2 * (i / 2) = i := by omega
    rw [hhalf, Nat.add_zero]
    rw [heven] at hok
    exact hok.1
  · have hodd : 2 * (i / 2) + 1 = i := by omega
    rw [hhalf]
    rw [hodd] at hok
    exact hok.2

theorem misread_congr {content content' : Memory} {start : ℕ} {wordEn : UInt8}
    {data data' : Memory} (hsame : ∀ a, start ≤ a → content' a = content a)
    (hdata : ∀ i < 8, wordEnabled wordEn (i / 2) = true → data' i = data i) {w : ℕ}
    (hw : w < 4) : misread content' start wordEn data' w = misread content start wordEn data w := by
  unfold misread
  cases he : wordEnabled wordEn w with
  | false => rfl
  | true =>
    have hlow : data' (2 * w) = data (2 * w) := by
      apply hdata _ (by omega)
      rwa [Nat.mul_div_cancel_left _ (by omega)]
    have hhigh : data' (2 * w + 1) = data (2 * w + 1) := by
      apply hdata _ (by omega)
      rwa [show (2 * w + 1) / 2 = w by omega]
    rw [hsame _ (by omega), hsame _ (by omega), hlow, hhigh]

theorem misread_blank {content : Memory} {start : ℕ} {wordEn : UInt8} (data : Memory)
    (hblank : ∀ a, start ≤ a → a < start + 2 * rank wordEn 4 → content a = 0xFF) {w : ℕ}
    (hw : w < 4) : misread content start wordEn data w = false := by
  unfold misread
  cases he : wordEnabled wordEn w with
  | false => rfl
  | true =>
    have := rank_lt he hw
    rw [hblank _ (by omega) (by omega), hblank _ (by omega) (by omega)]
    simp [burn]

theorem retryHeader_stop {content : Memory} {efuseAddr : ℕ} (pgHeader : UInt8)
    (h : content efuseAddr ≠ 0xFF) (n repeatcnt : ℕ) :
    retryHeader efuseAddr pgHeader n content repeatcnt = (content, repeatcnt) := by
  cases n with
  | zero => rfl
  | succ n => exact if_neg h

/-- A header byte other than `0xFF` is written at the first try. -/
theorem writeHeaderByte_blank {content : Memory} {efuseAddr : ℕ} {pgHeader : UInt8}
    (ha : efuseAddr < 256) (h : content efuseAddr = 0xFF) (hne : pgHeader ≠ 0xFF)
    (repeatcnt : ℕ) : writeHeaderByte content efuseAddr pgHeader repeatcnt =
      (Function.update content efuseAddr pgHeader, repeatcnt) := by
  rw [writeHeaderByte, efuseOneByteWrite_blank _ ha h]
  exact retryHeader_stop _ (by rwa [Function.update_self]) _ _

theorem retryHeader_unprogrammed {content : Memory} {efuseAddr : ℕ}
    (h : content efuseAddr = 0xFF) (n repeatcnt : ℕ) :
    (retryHeader efuseAddr 0xFF n content repeatcnt).1 efuseAddr = 0xFF := by
  induction n generalizing content repeatcnt with
  | zero => exact h
  | succ n ih =>
    rw [retryHeader, if_pos h]
    split
    · exact h
    · apply ih
      unfold efuseOneByteWrite
      split
      · exact Function.update_self _ _ _
      · exact h

theorem writeHeaderByte_unprogrammed {content : Memory} {efuseAddr : ℕ}
    (h : content efuseAddr = 0xFF) (repeatcnt : ℕ) :
    (writeHeaderByte content efuseAddr 0xFF repeatcnt).1 efuseAddr = 0xFF := by
  apply retryHeader_unprogrammed
  unfold efuseOneByteWrite
  split
  · exact Function.update_self _ _ _
  · exact h

theorem write1ByteHeader_unprogrammed {pgPacketWrite : PacketWrite} (pkt : Pgpkt)
    (s : EfuseState) {e : ℕ} {o : Outcome} (hhead : pgHeader1 pkt.offset pkt.wordEn = 0xFF)
    (h : s.content e = 0xFF)
    (hrun : halEfusePgPacketWrite1ByteHeader pgPacketWrite pkt s e = some o) : o.ret = false := by
  rw [halEfusePgPacketWrite1ByteHeader, hhead, if_pos (writeHeaderByte_unprogrammed h 0)] at hrun
  cases hrun
  rfl

theorem write1ByteHeader_blank (pgPacketWrite : PacketWrite) (pkt : Pgpkt) (s : EfuseState)
    {e : ℕ} (he : e < 256) (h : s.content e = 0xFF)
    (hhead : pgHeader1 pkt.offset pkt.wordEn ≠ 0xFF) :
    halEfusePgPacketWrite1ByteHeader pgPacketWrite pkt s e =
      some ⟨true, e,
        { s with content := Function.update s.content e (pgHeader1 pkt.offset pkt.wordEn) }⟩ := by
  rw [halEfusePgPacketWrite1ByteHeader, writeHeaderByte_blank he h hhead]
  simp only [Function.update_self, if_neg hhead, if_true]

section Headers

theorem pgHeader1_decode_fin : ∀ o w : Fin 16, UInt8.ofNat w ≠ 0x0F →
    pgHeader1 (UInt8.ofNat o) (UInt8.ofNat w) ≠ 0xFF ∧
      extHeader (pgHeader1 (UInt8.ofNat o) (UInt8.ofNat w)) = false ∧
      shortOffset (pgHeader1 (UInt8.ofNat o) (UInt8.ofNat w)) = o ∧
      pgHeader1 (UInt8.ofNat o) (UInt8.ofNat w) &&& 0x0F = UInt8.ofNat w := by
  decide

theorem pgHeader2_decode_fin : ∀ (o : Fin 64) (w : Fin 16), UInt8.ofNat w ≠ 0x0F →
    pgExtHeader (UInt8.ofNat o) (UInt8.ofNat w) ≠ 0xFF ∧
      allWordsDisabled (pgExtHeader (UInt8.ofNat o) (UInt8.ofNat w)) = false ∧
      extOffset (pgHeader2 (UInt8.ofNat o)) (pgExtHeader (UInt8.ofNat o) (UInt8.ofNat w)) = o ∧
      pgExtHeader (UInt8.ofNat o) (UInt8.ofNat w) &&& 0x0F = UInt8.ofNat w := by
  decide +kernel

theorem pgHeader2_ext (offset : UInt8) :
    pgHeader2 offset ≠ 0xFF ∧ extHeader (pgHeader2 offset) = true := by
  apply forall_byte (P := fun offset =>
    pgHeader2 offset ≠ 0xFF ∧ extHeader (pgHeader2 offset) = true)
  decide +kernel

/-- A one-byte header says what it was made of. -/
theorem pgHeader1_decode {offset wordEn : UInt8} (hoff : offset.toNat < 16)
    (hw : wordEn.toNat < 16) (hne : wordEn ≠ 0x0F) :
    pgHeader1 offset wordEn ≠ 0xFF ∧ extHeader (pgHeader1 offset wordEn) = false ∧
      shortOffset (pgHeader1 offset wordEn) = offset.toNat ∧
      pgHeader1 offset wordEn &&& 0x0F = wordEn := by
  have h := pgHeader1_decode_fin ⟨offset.toNat, hoff⟩ ⟨wordEn.toNat, hw⟩
  simp only [UInt8.ofNat_toNat] at h
  exact h hne

/-- So do the two bytes of an extended one. -/
theorem pgHeader2_decode {offset wordEn : UInt8} (hoff : offset.toNat < 64)
    (hw : wordEn.toNat < 16) (hne : wordEn ≠ 0x0F) :
    pgExtHeader offset wordEn ≠ 0xFF ∧
      allWordsDisabled (pgExtHeader offset wordEn) = false ∧
      extOffset (pgHeader2 offset) (pgExtHeader offset wordEn) = offset.toNat ∧
      pgExtHeader offset wordEn &&& 0x0F = wordEn := by
  have h := pgHeader2_decode_fin ⟨offset.toNat, hoff⟩ ⟨wordEn.toNat, hw⟩
  simp only [UInt8.ofNat_toNat] at h
  exact h hne

end Headers

def headerBytes (offset : UInt8) : ℕ := if offset.toNat < efuseMaxSectionBase then 1 else 2

/-- The bytes a packet takes. -/
def packetBytes (offset wordEn : UInt8) : ℕ :=
  headerBytes offset + 2 * efuseCalculateWordCnts wordEn

theorem headerBytes_pos (offset : UInt8) : 0 < headerBytes offset ∧ headerBytes offset ≤ 2 := by
  unfold headerBytes
  split <;> omega

theorem wordCnts_le (wordEn : UInt8) : efuseCalculateWordCnts wordEn ≤ 4 := by
  rw [← rank_four]
  exact Nat.count_le _

theorem packetBytes_le (offset wordEn : UInt8) : packetBytes offset wordEn ≤ 10 := by
  have := wordCnts_le wordEn
  have := headerBytes_pos offset
  rw [packetBytes]
  omega

/-- `content'` is `content` with a packet at `e` whose words of `bad` did not read back. -/
structure Appended (content content' : Memory) (e : ℕ) (offset wordEn : UInt8) (data : Memory)
    (bad : UInt8) (p : Packet) : Prop where
  packet : packetAt content' e = some p
  ofSection : p.offset = offset.toNat
  ofMask : p.wordEn = wordEn
  stop : p.stop = e + packetBytes offset wordEn
  outside : ∀ a, a < e ∨ e + packetBytes offset wordEn ≤ a → content' a = content a
  bytes : ∀ i < 8, wordEnabled wordEn (i / 2) = true → wordEnabled bad (i / 2) = false →
    content' (p.place i) = data i

/-- The words of a packet at `e` that will not read back. -/
def badWords (content : Memory) (e : ℕ) (offset wordEn : UInt8) (data : Memory) : UInt8 :=
  maskOf (misread content (e + headerBytes offset) wordEn data) 4

theorem badWords_blank {content : Memory} {e : ℕ} {offset wordEn : UInt8} (data : Memory)
    (hblank : ∀ a, e ≤ a → a < e + packetBytes offset wordEn → content a = 0xFF) :
    badWords content e offset wordEn data = 0x0F := by
  apply maskOf_void
  intro v hv
  apply misread_blank data _ hv
  intro a ha ha'
  rw [rank_four] at ha'
  rw [packetBytes] at hblank
  exact hblank a (by omega) (by omega)

theorem halEfuseConstructPGPkt_data (offset wordEn : UInt8) (data : Memory) {i : ℕ} (hi : i < 8)
    (he : wordEnabled wordEn (i / 2) = true) :
    (halEfuseConstructPGPkt offset wordEn data).data i = data i := if_pos ⟨hi, he⟩

/-- The header on unprogrammed fuses, and the address of its last byte. -/
theorem halEfusePgPacketWriteHeader_blank (pgPacketWrite : PacketWrite) (fuel : ℕ)
    (s : EfuseState) {e : ℕ} (pkt : Pgpkt) (he : e < 238) (hoff : pkt.offset.toNat < 64)
    (hw : pkt.wordEn.toNat < 16) (hne : pkt.wordEn ≠ 0x0F)
    (hblank : ∀ a, e ≤ a → a < e + headerBytes pkt.offset → s.content a = 0xFF) :
    ∃ content' n, halEfusePgPacketWriteHeader pgPacketWrite (fuel + 1) s e pkt =
        some ⟨true, e + n, { s with content := content' }⟩ ∧ n + 1 = headerBytes pkt.offset ∧
      (∀ a, a < e ∨ e + n < a → content' a = s.content a) ∧
      ∀ content'', (∀ a, a ≤ e + n → content'' a = content' a) →
        packetAt content'' e = some ⟨pkt.offset.toNat, pkt.wordEn, e + n + 1⟩ := by
  have hfirst : s.content e = 0xFF := hblank e le_rfl (by have := headerBytes_pos pkt.offset; omega)
  unfold headerBytes at *
  by_cases hsec : pkt.offset.toNat < efuseMaxSectionBase
  · rw [if_pos hsec] at *
    obtain ⟨hff, hshort, hoffset, hword⟩ := pgHeader1_decode hsec hw hne
    refine ⟨Function.update s.content e (pgHeader1 pkt.offset pkt.wordEn), 0, ?_, ?_, ?_, ?_⟩
    · rw [halEfusePgPacketWriteHeader, if_neg (Nat.not_le.mpr hsec),
        write1ByteHeader_blank _ _ _ (by omega) hfirst hff]
      rfl
    · rfl
    · intro a ha
      exact Function.update_of_ne (by omega) _ _
    · intro content'' hsame
      have hhead : content'' e = pgHeader1 pkt.offset pkt.wordEn := by
        rw [hsame e (by omega), Function.update_self]
      rw [packetAt, hhead, if_neg hff, hshort, if_neg Bool.false_ne_true, hoffset, hword]
  · rw [if_neg hsec] at *
    obtain ⟨hff, hext⟩ := pgHeader2_ext pkt.offset
    obtain ⟨hff', hall, hoffset, hword⟩ := pgHeader2_decode hoff hw hne
    have hsecond : Function.update s.content e (pgHeader2 pkt.offset) (e + 1) = 0xFF := by
      rw [Function.update_of_ne (by omega)]
      exact hblank _ (by omega) (by omega)
    refine ⟨Function.update (Function.update s.content e (pgHeader2 pkt.offset)) (e + 1)
      (pgExtHeader pkt.offset pkt.wordEn), 1, ?_, ?_, ?_, ?_⟩
    · rw [halEfusePgPacketWriteHeader, if_pos (Nat.not_lt.mp hsec),
        halEfusePgPacketWrite2ByteHeader, if_pos (show e < availableEfuseBytesBank from he)]
      dsimp only
      rw [writeHeaderByte_blank (by omega) hfirst hff]
      simp only [Function.update_self, if_neg hff, if_true]
      rw [writeHeaderByte_blank (by omega) hsecond hff']
      simp only [Function.update_self, if_neg hff', hall, ne_eq, not_true_eq_false, if_false,
        Bool.false_eq_true]
    · rfl
    · intro a ha
      rw [Function.update_of_ne (by omega), Function.update_of_ne (by omega)]
    · intro content'' hsame
      have hhead : content'' e = pgHeader2 pkt.offset := by
        rw [hsame e (by omega), Function.update_of_ne (by omega), Function.update_self]
      have htail : content'' (e + 1) = pgExtHeader pkt.offset pkt.wordEn := by
        rw [hsame (e + 1) le_rfl, Function.update_self]
      rw [packetAt, hhead, htail, if_neg hff, if_pos hext, hall, if_neg Bool.false_ne_true,
        hoffset, hword]

/-- Where the log that the register points into ends, the write begins. -/
theorem halEfusePgPacketWrite_start {s : EfuseState} {ps : List Packet} {e : ℕ}
    (hlog : Log (sizeNext s.content) s.efuseUsedBytes ps e) (he : e < 238) (fuel : ℕ)
    (offset wordEn : UInt8) (data : Memory) :
    halEfusePgPacketWrite (fuel + 1) s offset wordEn data =
      (do
        let header ← halEfusePgPacketWriteHeader (halEfusePgPacketWrite fuel) (fuel + 1)
          { s with efuseUsedBytes := e } e (halEfuseConstructPGPkt offset wordEn data)
        if header.ret then
          halEfusePgPacketWriteData (halEfusePgPacketWrite fuel) header.state header.addr
            (halEfuseConstructPGPkt offset wordEn data)
        else some (false, header.state)) := by
  have hcheck : halEfusePartialWriteCheck (halEfusePgPacketWrite fuel)
      { s with efuseUsedBytes := e } (halEfuseConstructPGPkt offset wordEn data) =
      some ⟨true, e, halEfuseConstructPGPkt offset wordEn data,
        { s with efuseUsedBytes := e }⟩ := by
    have hmod : e % efuseRealContentLen = e := Nat.mod_eq_of_lt (by rw [efuseRealContentLen]; omega)
    rw [halEfusePartialWriteCheck]
    dsimp only
    rw [hmod, partialWriteLoop,
      if_neg (show ¬availableEfuseBytesBank ≤ e from Nat.not_le.mpr he)]
    exact if_neg (not_not.mpr (sizeLog_last hlog (by omega)))
  have havail : decide (e < efuseMapLen88E) = true := decide_eq_true (by rw [efuseMapLen88E]; omega)
  rw [halEfusePgPacketWrite, halEfusePgCheckAvailableAddr, halEfuseGetCurrentSize_log hlog]
  simp only [Option.bind_eq_bind, Option.bind_some, havail, hcheck, if_true]

/-- Without room for another packet nothing is written. -/
theorem halEfusePgPacketWrite_full {s : EfuseState} {ps : List Packet} {e : ℕ}
    (hlog : Log (sizeNext s.content) s.efuseUsedBytes ps e) (he : 238 ≤ e) (fuel : ℕ)
    (offset wordEn : UInt8) (data : Memory) :
    halEfusePgPacketWrite (fuel + 1) s offset wordEn data =
      some (false, { s with efuseUsedBytes := e }) := by
  rw [halEfusePgPacketWrite, halEfusePgCheckAvailableAddr, halEfuseGetCurrentSize_log hlog]
  simp only [Option.bind_eq_bind, Option.bind_some]
  by_cases havail : e < efuseMapLen88E
  · have hmod : e % efuseRealContentLen = e := Nat.mod_eq_of_lt havail
    rw [if_pos (decide_eq_true havail), halEfusePartialWriteCheck]
    dsimp only
    rw [hmod, partialWriteLoop, if_pos (show availableEfuseBytesBank ≤ e from he)]
    rfl
  · rw [if_neg (by rw [decide_eq_true_eq]; exact havail)]

/-- A packet whose header finds unprogrammed fuses where the log ends: it lies there, and the
words that did not read back are written again. -/
theorem halEfusePgPacketWrite_attempt {s : EfuseState} {ps : List Packet} {e : ℕ}
    (hlog : Log (sizeNext s.content) s.efuseUsedBytes ps e) (he : e < 238) (fuel : ℕ)
    {offset wordEn : UInt8} (data : Memory) (hoff : offset.toNat < 64) (hw : wordEn.toNat < 16)
    (hne : wordEn ≠ 0x0F)
    (hblank : ∀ a, e ≤ a → a < e + headerBytes offset → s.content a = 0xFF) :
    ∃ content' p, Appended s.content content' e offset wordEn data
        (badWords s.content e offset wordEn data) p ∧
      halEfusePgPacketWrite (fuel + 1) s offset wordEn data =
        if badWords s.content e offset wordEn data = 0x0F then some (true, ⟨content', e⟩)
        else halEfusePgPacketWrite fuel ⟨content', e⟩ offset
          (badWords s.content e offset wordEn data)
          (halEfuseConstructPGPkt offset wordEn data).data := by
  obtain ⟨headed, n, hheader, hbytes, houtside, hdecode⟩ :=
    halEfusePgPacketWriteHeader_blank (halEfusePgPacketWrite fuel) fuel
      { s with efuseUsedBytes := e } (halEfuseConstructPGPkt offset wordEn data) he hoff hw hne
      hblank
  have hcnts := wordCnts_le wordEn
  have hheadle := headerBytes_pos offset
  have hrank := rank_four wordEn
  dsimp only [halEfuseConstructPGPkt] at hbytes hdecode houtside
  have hstart : e + n + 1 = e + headerBytes offset := by omega
  rw [hstart] at hdecode
  obtain ⟨content', hdata, hsame, hwritten⟩ := halEfuseWordEnableDataWrite_spec headed wordEn
    (halEfuseConstructPGPkt offset wordEn data).data
    (show e + headerBytes offset + 2 * rank wordEn 4 ≤ 256 by omega)
  have hmisread : ∀ v < 4, misread headed (e + headerBytes offset) wordEn
      (halEfuseConstructPGPkt offset wordEn data).data v =
      misread s.content (e + headerBytes offset) wordEn data v := by
    intro v hv
    apply misread_congr _ _ hv
    · intro a ha
      exact houtside a (by omega)
    · intro i hi hei
      exact halEfuseConstructPGPkt_data offset wordEn data hi hei
  rw [maskOf_congr hmisread] at hdata
  refine ⟨content', ⟨offset.toNat, wordEn, e + headerBytes offset⟩, ?_, ?_⟩
  · constructor
    · apply hdecode
      intro a ha
      exact hsame a (by omega)
    · rfl
    · rfl
    · rw [Packet.stop, packetBytes, Nat.add_assoc]
    · intro a ha
      rw [packetBytes] at ha
      rw [hsame a (by omega)]
      exact houtside a (by omega)
    · intro i hi hei hok
      have hread : misread headed (e + headerBytes offset) wordEn
          (halEfuseConstructPGPkt offset wordEn data).data (i / 2) = false := by
        rw [hmisread _ (by omega)]
        exact (maskOf_enabled _ (by omega)).symm.trans hok
      exact (hwritten i hi hei hread).trans (halEfuseConstructPGPkt_data offset wordEn data hi hei)
  · rw [halEfusePgPacketWrite_start hlog he, hheader]
    simp only [Option.bind_eq_bind, Option.bind_some, if_true]
    unfold halEfusePgPacketWriteData
    rw [show e + n + 1 = e + headerBytes offset from hstart,
      show (halEfuseConstructPGPkt offset wordEn data).wordEn = wordEn from rfl, hdata]
    rfl

end Rtl8188eu.Efuse
