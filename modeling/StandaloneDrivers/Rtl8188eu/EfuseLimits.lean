import StandaloneDrivers.Rtl8188eu.EfuseMapWrite

/-! What a packet write programs, attempt by attempt, against the available size and against the
map that it leaves when it fails. -/
namespace Rtl8188eu.Efuse
open Foundations

section Nibbles

theorem or_low {a b : UInt8} (h : a &&& 0x0F = 0) : (a ||| b) &&& 0x0F = b &&& 0x0F := by
  rw [← UInt8.toBitVec_inj] at h ⊢
  simp only [UInt8.toBitVec_and, UInt8.toBitVec_or] at h ⊢
  rw [BitVec.and_or_distrib_right, h]
  simp

theorem pgHeader1_low (offset wordEn : UInt8) :
    pgHeader1 offset wordEn &&& 0x0F = wordEn &&& 0x0F := by
  apply or_low
  rw [UInt8.and_assoc, show (0xF0 : UInt8) &&& 0x0F = 0 by decide, UInt8.and_zero]

theorem pgExtHeader_low (offset wordEn : UInt8) :
    pgExtHeader offset wordEn &&& 0x0F = wordEn &&& 0x0F := by
  apply or_low
  rw [UInt8.shiftLeft_and, UInt8.and_assoc,
    show ((0x78 : UInt8) <<< 1) &&& 0x0F = 0 by decide, UInt8.and_zero]

theorem extHeader_low {header : UInt8} (h : extHeader header = true) :
    header &&& 0x0F = 0x0F := by
  rw [extHeader, beq_iff_eq] at h
  calc header &&& 0x0F = (header &&& 0x1F) &&& 0x0F := by
        rw [UInt8.and_assoc, show (0x1F : UInt8) &&& 0x0F = 0x0F by decide]
    _ = 0x0F := by
        rw [h]
        decide

theorem wordEnabled_low (wordEn : UInt8) : ∀ v < 4,
    wordEnabled (wordEn &&& 0x0F) v = wordEnabled wordEn v := by
  apply forall_byte (P := fun wordEn => ∀ v < 4,
    wordEnabled (wordEn &&& 0x0F) v = wordEnabled wordEn v)
  decide +kernel

end Nibbles

/-- The header does not read as an unprogrammed fuse. -/
def Marks (offset wordEn : UInt8) : Prop :=
  if offset.toNat < efuseMaxSectionBase then pgHeader1 offset wordEn ≠ 0xFF
  else wordEn &&& 0x0F ≠ 0x0F

theorem marks_of_words {offset wordEn : UInt8} (h : wordEn &&& 0x0F ≠ 0x0F) :
    Marks offset wordEn := by
  rw [Marks]
  split
  · intro hff
    rw [← pgHeader1_low offset, hff] at h
    exact h (by decide)
  · exact h

/-- The header on unprogrammed fuses, for any section and any mask. -/
theorem halEfusePgPacketWriteHeader_marks (s : EfuseState) {e : ℕ} (pkt : Pgpkt) (he : e < 238)
    (hmarks : Marks pkt.offset pkt.wordEn)
    (hblank : ∀ a, e ≤ a → a < e + headerBytes pkt.offset → s.content a = 0xFF) :
    ∃ content' n, (∀ pgPacketWrite fuel,
        halEfusePgPacketWriteHeader pgPacketWrite (fuel + 1) s e pkt =
          some ⟨true, e + n, { s with content := content' }⟩) ∧ n + 1 = headerBytes pkt.offset ∧
      (∀ a, a < e ∨ e + n < a → content' a = s.content a) ∧
      (∀ a, e ≤ a → a ≤ e + n → content' a ≠ 0xFF) ∧
      (pkt.wordEn &&& 0x0F ≠ 0x0F → ∀ content'', (∀ a, a ≤ e + n → content'' a = content' a) →
        ∃ sec, packetAt content'' e = some ⟨sec, pkt.wordEn &&& 0x0F, e + n + 1⟩ ∧
          (pkt.offset.toNat < 64 → pkt.wordEn.toNat < 16 → sec = pkt.offset.toNat)) := by
  have hfirst : s.content e = 0xFF := hblank e le_rfl (by have := headerBytes_pos pkt.offset; omega)
  have hwords : pkt.wordEn &&& 0x0F ≠ 0x0F → pkt.wordEn ≠ 0x0F := by
    intro h heq
    exact h (by rw [heq]; decide)
  unfold headerBytes at *
  unfold Marks at hmarks
  by_cases hsec : pkt.offset.toNat < efuseMaxSectionBase
  · rw [if_pos hsec] at *
    refine ⟨Function.update s.content e (pgHeader1 pkt.offset pkt.wordEn), 0, ?_, rfl, ?_, ?_, ?_⟩
    · intro pgPacketWrite fuel
      rw [halEfusePgPacketWriteHeader, if_neg (Nat.not_le.mpr hsec),
        write1ByteHeader_blank _ _ _ (by omega) hfirst hmarks]
      rfl
    · intro a ha
      exact Function.update_of_ne (by omega) _ _
    · intro a ha ha'
      obtain rfl : a = e := by omega
      rwa [Function.update_self]
    · intro hmask content'' hsame
      have hhead : content'' e = pgHeader1 pkt.offset pkt.wordEn := by
        rw [hsame e (by omega), Function.update_self]
      have hshort : extHeader (pgHeader1 pkt.offset pkt.wordEn) = false := by
        rw [← Bool.not_eq_true]
        intro hext
        exact hmask ((pgHeader1_low _ _).symm.trans (extHeader_low hext))
      refine ⟨shortOffset (pgHeader1 pkt.offset pkt.wordEn), ?_, ?_⟩
      · rw [packetAt, hhead, if_neg hmarks, hshort, if_neg Bool.false_ne_true, pgHeader1_low]
      · intro _ hw
        exact (pgHeader1_decode hsec hw (hwords hmask)).2.2.1
  · rw [if_neg hsec] at *
    obtain ⟨hff, hext⟩ := pgHeader2_ext pkt.offset
    have hall : allWordsDisabled (pgExtHeader pkt.offset pkt.wordEn) = false := by
      rw [allWordsDisabled, pgExtHeader_low, beq_eq_false_iff_ne]
      exact hmarks
    have hff' : pgExtHeader pkt.offset pkt.wordEn ≠ 0xFF := by
      intro heq
      rw [heq] at hall
      exact absurd hall (by decide)
    have hsecond : Function.update s.content e (pgHeader2 pkt.offset) (e + 1) = 0xFF := by
      rw [Function.update_of_ne (by omega)]
      exact hblank _ (by omega) (by omega)
    refine ⟨Function.update (Function.update s.content e (pgHeader2 pkt.offset)) (e + 1)
      (pgExtHeader pkt.offset pkt.wordEn), 1, ?_, rfl, ?_, ?_, ?_⟩
    · intro pgPacketWrite fuel
      rw [halEfusePgPacketWriteHeader, if_pos (Nat.not_lt.mp hsec),
        halEfusePgPacketWrite2ByteHeader, if_pos (show e < availableEfuseBytesBank from he)]
      dsimp only
      rw [writeHeaderByte_blank (by omega) hfirst hff]
      simp only [Function.update_self, if_neg hff, if_true]
      rw [writeHeaderByte_blank (by omega) hsecond hff']
      simp only [Function.update_self, if_neg hff', hall, ne_eq, not_true_eq_false, if_false,
        Bool.false_eq_true]
    · intro a ha
      rw [Function.update_of_ne (by omega), Function.update_of_ne (by omega)]
    · intro a ha ha'
      obtain rfl | rfl : a = e ∨ a = e + 1 := by omega
      · rwa [Function.update_of_ne (by omega), Function.update_self]
      · rwa [Function.update_self]
    · intro hmask content'' hsame
      have hhead : content'' e = pgHeader2 pkt.offset := by
        rw [hsame e (by omega), Function.update_of_ne (by omega), Function.update_self]
      have htail : content'' (e + 1) = pgExtHeader pkt.offset pkt.wordEn := by
        rw [hsame (e + 1) le_rfl, Function.update_self]
      refine ⟨extOffset (pgHeader2 pkt.offset) (pgExtHeader pkt.offset pkt.wordEn), ?_, ?_⟩
      · rw [packetAt, hhead, htail, if_neg hff, if_pos hext, hall, if_neg Bool.false_ne_true,
          pgExtHeader_low]
      · intro hoff hw
        exact (pgHeader2_decode hoff hw (hwords hmask)).2.2.1

/-- The data of a packet: every byte of an enabled word is burned into its fuse. -/
theorem halEfuseWordEnableDataWrite_burns (content : Memory) {start : ℕ} (wordEn : UInt8)
    (data : Memory) (hend : start + 2 * rank wordEn 4 ≤ 256) :
    ∃ content', halEfuseWordEnableDataWrite content start wordEn data =
        (content', maskOf (misread content start wordEn data) 4) ∧
      (∀ a, a < start ∨ start + 2 * rank wordEn 4 ≤ a → content' a = content a) ∧
      ∀ i < 8, wordEnabled wordEn (i / 2) = true →
        content' (start + 2 * rank wordEn (i / 2) + i % 2) =
          burn (content (start + 2 * rank wordEn (i / 2) + i % 2)) (data i) := by
  have h0 : DataWrite.Upto content start wordEn data 0 ⟨content, start, 0x0F⟩ :=
    ⟨rfl, rfl, fun _ _ => rfl, fun w hw => absurd hw (Nat.not_lt_zero w)⟩
  have h4 := (((h0.step (by omega) hend).step (by omega) hend).step (by omega) hend).step
    (by omega) hend
  refine ⟨_, Prod.ext rfl h4.badworden, h4.outside, ?_⟩
  intro i hi he
  have hwritten := h4.written (i / 2) (by omega) he (i % 2) (Nat.mod_lt _ (by omega))
  rwa [Nat.div_add_mod i 2] at hwritten

/-- An attempt to write a packet: its address and its mask. -/
abbrev Attempt : Type := ℕ × UInt8

/-- Where byte `i` of the section goes. -/
def dataPlace (offset : UInt8) (x : Attempt) (i : ℕ) : ℕ :=
  x.1 + headerBytes offset + 2 * rank x.2 (i / 2) + i % 2

/-- `content'` is `content` with the packet of an attempt burned into its fuses. -/
structure Burns (content content' : Memory) (offset : UInt8) (x : Attempt) (data : Memory) :
    Prop where
  outside : ∀ a, a < x.1 ∨ x.1 + packetBytes offset x.2 ≤ a → content' a = content a
  header : ∀ a, x.1 ≤ a → a < x.1 + headerBytes offset → content' a ≠ 0xFF
  bytes : ∀ i < 8, wordEnabled x.2 (i / 2) = true →
    content' (dataPlace offset x i) = burn (content (dataPlace offset x i)) (data i)
  packet : x.2 &&& 0x0F ≠ 0x0F →
    ∃ sec, packetAt content' x.1 = some ⟨sec, x.2 &&& 0x0F, x.1 + headerBytes offset⟩ ∧
      (offset.toNat < 64 → x.2.toNat < 16 → sec = offset.toNat)

theorem rank_low (wordEn : UInt8) :
    efuseCalculateWordCnts (wordEn &&& 0x0F) = efuseCalculateWordCnts wordEn := by
  have hlow := wordEnabled_low wordEn
  rw [efuseCalculateWordCnts, efuseCalculateWordCnts, hlow 0 (by decide), hlow 1 (by decide),
    hlow 2 (by decide), hlow 3 (by decide)]

/-- Where the log ends in front of the available size, a packet is burned there, and the words
that do not read back are written again. -/
theorem halEfusePgPacketWrite_burns {s : EfuseState} {ps : List Packet} {e : ℕ}
    (hlog : Log (sizeNext s.content) s.efuseUsedBytes ps e) (he : e < 238)
    {offset wordEn : UInt8} (data : Memory) (hmarks : Marks offset wordEn)
    (hblank : ∀ a, e ≤ a → a < e + headerBytes offset → s.content a = 0xFF) :
    ∃ content', Burns s.content content' offset (e, wordEn) data ∧
      ∀ fuel, halEfusePgPacketWrite (fuel + 1) s offset wordEn data =
        if badWords s.content e offset wordEn data = 0x0F then some (true, ⟨content', e⟩)
        else halEfusePgPacketWrite fuel ⟨content', e⟩ offset
          (badWords s.content e offset wordEn data)
          (halEfuseConstructPGPkt offset wordEn data).data := by
  obtain ⟨headed, n, hheader, hbytes, houtside, hhead, hdecode⟩ :=
    halEfusePgPacketWriteHeader_marks { s with efuseUsedBytes := e }
      (halEfuseConstructPGPkt offset wordEn data) he hmarks hblank
  have hcnts := wordCnts_le wordEn
  have hheadle := headerBytes_pos offset
  have hrank := rank_four wordEn
  dsimp only [halEfuseConstructPGPkt] at hbytes hdecode houtside hhead
  have hstart : e + n + 1 = e + headerBytes offset := by omega
  rw [hstart] at hdecode
  obtain ⟨content', hdata, hsame, hburnt⟩ := halEfuseWordEnableDataWrite_burns headed wordEn
    (halEfuseConstructPGPkt offset wordEn data).data
    (show e + headerBytes offset + 2 * rank wordEn 4 ≤ 256 by omega)
  have hmisread : ∀ v < 4, misread headed (e + headerBytes offset) wordEn
      (halEfuseConstructPGPkt offset wordEn data).data v =
      misread s.content (e + headerBytes offset) wordEn data v := by
    intro v hv
    apply misread_congr _ _ hv
    · intro a ha
      exact houtside a (by omega)
    · intro i hi hei
      exact halEfuseConstructPGPkt_data offset wordEn data hi hei
  rw [maskOf_congr hmisread] at hdata
  refine ⟨content', ?_, ?_⟩
  · constructor
    · intro a ha
      rw [packetBytes] at ha
      dsimp only at ha
      rw [hsame a (by omega)]
      exact houtside a (by omega)
    · intro a ha ha'
      dsimp only at ha ha'
      rw [hsame a (by omega)]
      exact hhead a ha (by omega)
    · intro i hi hei
      have hbyte := hburnt i hi hei
      rw [houtside _ (by omega), halEfuseConstructPGPkt_data offset wordEn data hi hei] at hbyte
      exact hbyte
    · intro hmask
      exact hdecode hmask content' fun a ha => hsame a (by omega)
  · intro fuel
    rw [halEfusePgPacketWrite_start hlog he, hheader]
    simp only [Option.bind_eq_bind, Option.bind_some, if_true]
    unfold halEfusePgPacketWriteData
    rw [hstart, show (halEfuseConstructPGPkt offset wordEn data).wordEn = wordEn from rfl, hdata]
    rfl

theorem efuseOneByteWrite_unchanged {content : Memory} {addr : ℕ} (h : content addr = 0xFF) :
    efuseOneByteWrite content addr 0xFF = content := by
  rw [efuseOneByteWrite]
  split
  · rw [← h, Function.update_eq_self]
  · rfl

theorem writeHeaderByte_unchanged {content : Memory} {efuseAddr : ℕ}
    (h : content efuseAddr = 0xFF) (repeatcnt : ℕ) :
    (writeHeaderByte content efuseAddr 0xFF repeatcnt).1 = content := by
  have hretry : ∀ n repeatcnt, (retryHeader efuseAddr 0xFF n content repeatcnt).1 = content := by
    intro n
    induction n with
    | zero => intro _; rfl
    | succ n ih =>
      intro repeatcnt
      rw [retryHeader, if_pos h, efuseOneByteWrite_unchanged h]
      split
      · rfl
      · exact ih (repeatcnt + 1)
  rw [writeHeaderByte, efuseOneByteWrite_unchanged h]
  exact hretry _ _

/-- A one-byte header that reads as an unprogrammed fuse is given up. -/
theorem halEfusePgPacketWrite_unmarked {s : EfuseState} {ps : List Packet} {e : ℕ}
    (hlog : Log (sizeNext s.content) s.efuseUsedBytes ps e) (he : e < 238) (fuel : ℕ)
    {offset wordEn : UInt8} (data : Memory) (hsec : offset.toNat < efuseMaxSectionBase)
    (hhead : pgHeader1 offset wordEn = 0xFF) :
    halEfusePgPacketWrite (fuel + 1) s offset wordEn data =
      some (false, { s with efuseUsedBytes := e }) := by
  have hfirst := sizeLog_last hlog (by omega)
  rw [halEfusePgPacketWrite_start hlog he, halEfusePgPacketWriteHeader,
    if_neg (show ¬ efuseMaxSectionBase ≤ (halEfuseConstructPGPkt offset wordEn data).offset.toNat
      from Nat.not_le.mpr hsec),
    halEfusePgPacketWrite1ByteHeader]
  simp only [halEfuseConstructPGPkt, hhead, writeHeaderByte_unchanged hfirst, hfirst, if_true,
    Option.bind_eq_bind, Option.bind_some, if_false, Bool.false_eq_true]

/-- The packets that a write burns for the words of the mask from `e` on, and its result: one for
all of them, and again, where the log then ends, one for those that do not read back. -/
inductive Attempts (content : Memory) (offset : UInt8) (data : Memory) :
    UInt8 → ℕ → List Attempt → Bool → Prop
  | refused {wordEn : UInt8} {e : ℕ} (full : 238 ≤ e) :
      Attempts content offset data wordEn e [] false
  | unmarked {wordEn : UInt8} {e : ℕ} (room : e < 238)
      (short : offset.toNat < efuseMaxSectionBase) (header : pgHeader1 offset wordEn = 0xFF) :
      Attempts content offset data wordEn e [] false
  | whole {wordEn : UInt8} {e : ℕ} (room : e < 238) (marks : Marks offset wordEn)
      (header : ∀ a, e ≤ a → a < e + headerBytes offset → content a = 0xFF)
      (good : badWords content e offset wordEn data = 0x0F) :
      Attempts content offset data wordEn e [(e, wordEn)] true
  | again {wordEn : UInt8} {e e' : ℕ} {gs : List Packet} {l : List Attempt} {ret : Bool}
      (room : e < 238) (marks : Marks offset wordEn)
      (header : ∀ a, e ≤ a → a < e + headerBytes offset → content a = 0xFF)
      (bad : badWords content e offset wordEn data ≠ 0x0F)
      (next : Log (sizeNext content) (e + packetBytes offset wordEn) gs e')
      (rest : Attempts content offset data (badWords content e offset wordEn data) e' l ret) :
      Attempts content offset data wordEn e ((e, wordEn) :: l) ret

/-- For the sections with a one-byte header there are always such attempts. -/
theorem exists_attempts (content : Memory) {offset : UInt8}
    (hsec : offset.toNat < efuseMaxSectionBase) (data : Memory) (wordEn : UInt8) {e : ℕ}
    (he : e < 238 → content e = 0xFF) : ∃ l ret, Attempts content offset data wordEn e l ret := by
  have hone : headerBytes offset = 1 := if_pos hsec
  induction hk : 238 - e using Nat.strongRecOn generalizing e wordEn with
  | ind k ih =>
    rcases Nat.lt_or_ge e 238 with hroom | hfull
    · by_cases hhead : pgHeader1 offset wordEn = 0xFF
      · exact ⟨[], false, Attempts.unmarked hroom hsec hhead⟩
      have hmarks : Marks offset wordEn := by
        rw [Marks, if_pos hsec]
        exact hhead
      have hheader : ∀ a, e ≤ a → a < e + headerBytes offset → content a = 0xFF := by
        intro a ha ha'
        obtain rfl : a = e := by omega
        exact he hroom
      by_cases hgood : badWords content e offset wordEn data = 0x0F
      · exact ⟨_, true, Attempts.whole hroom hmarks hheader hgood⟩
      · obtain ⟨gs, e', hnext⟩ := exists_sizeLog content (e + packetBytes offset wordEn)
        have hle := hnext.walk.le (sizeNext_lt content)
        have hge : headerBytes offset ≤ packetBytes offset wordEn := Nat.le_add_right _ _
        obtain ⟨l, ret, hrest⟩ := ih (238 - e') (by omega)
          (badWords content e offset wordEn data) (fun h => sizeLog_last hnext (by omega)) rfl
        exact ⟨_, ret, Attempts.again hroom hmarks hheader hgood hnext hrest⟩
    · exact ⟨[], false, Attempts.refused hfull⟩

theorem exists_rank (wordEn : UInt8) {n k : ℕ} (h : k < rank wordEn n) :
    ∃ w < n, wordEnabled wordEn w = true ∧ rank wordEn w = k := by
  induction n with
  | zero =>
    rw [rank, Nat.count_zero] at h
    omega
  | succ n ih =>
    have hsucc := rank_succ wordEn n
    by_cases hlt : k < rank wordEn n
    · obtain ⟨w, hw, hfound⟩ := ih hlt
      exact ⟨w, by omega, hfound⟩
    · cases he : wordEnabled wordEn n with
      | true =>
        rw [he, Bool.toNat_true] at hsucc
        exact ⟨n, Nat.lt_succ_self n, he, by omega⟩
      | false =>
        rw [he, Bool.toNat_false] at hsucc
        omega

/-- The packet of an attempt programs no fuse at or behind the available size. -/
structure Below (content : Memory) (offset : UInt8) (data : Memory) (x : Attempt) : Prop where
  header : x.1 + headerBytes offset ≤ availableEfuseBytesBank
  bytes : ∀ i < 8, wordEnabled x.2 (i / 2) = true →
    availableEfuseBytesBank ≤ dataPlace offset x i → content (dataPlace offset x i) = 0xFF →
      data i = 0xFF

theorem burn_eq_old {old data : UInt8} : burn old data = old ↔ (old = 0xFF → data = 0xFF) := by
  unfold burn
  by_cases h : old = 0xFF
  · simp [h]
  · simp [h]

theorem dataPlace_lt {offset : UInt8} {x : Attempt} {i : ℕ} (hi : i < 8)
    (he : wordEnabled x.2 (i / 2) = true) :
    x.1 + headerBytes offset ≤ dataPlace offset x i ∧
      dataPlace offset x i < x.1 + packetBytes offset x.2 := by
  have := rank_lt he (by omega : i / 2 < 4)
  rw [rank_four] at this
  rw [dataPlace, packetBytes]
  omega

theorem Burns.below_iff {content content' : Memory} {offset : UInt8} {x : Attempt} {data : Memory}
    (h : Burns content content' offset x data)
    (hblank : ∀ a, x.1 ≤ a → a < x.1 + headerBytes offset → content a = 0xFF) :
    (∀ a, availableEfuseBytesBank ≤ a → content' a = content a) ↔
      Below content offset data x := by
  have hpos := headerBytes_pos offset
  constructor
  · intro hsame
    constructor
    · by_contra hpast
      have hlast := h.header (x.1 + headerBytes offset - 1) (by omega) (by omega)
      rw [hsame _ (by omega)] at hlast
      exact hlast (hblank _ (by omega) (by omega))
    · intro i hi he hbehind
      have hbyte := h.bytes i hi he
      rw [hsame _ hbehind] at hbyte
      exact burn_eq_old.mp hbyte.symm
  · intro hbelow a ha
    by_cases hin : x.1 + headerBytes offset ≤ a ∧ a < x.1 + packetBytes offset x.2
    · obtain ⟨k, rfl⟩ := Nat.exists_eq_add_of_le hin.1
      have hk : k / 2 < rank x.2 4 := by
        rw [rank_four]
        rw [packetBytes] at hin
        omega
      obtain ⟨w, hw, he, hrank⟩ := exists_rank x.2 hk
      have hword : (2 * w + k % 2) / 2 = w := by omega
      have hplace : dataPlace offset x (2 * w + k % 2) = x.1 + headerBytes offset + k := by
        rw [dataPlace, hword, hrank]
        omega
      have hbyte := h.bytes (2 * w + k % 2) (by omega) (by rw [hword]; exact he)
      have hkept := hbelow.bytes (2 * w + k % 2) (by omega) (by rw [hword]; exact he)
      rw [hplace] at hbyte hkept
      rw [hbyte, burn_eq_old.mpr (hkept ha)]
    · have := hbelow.header
      exact h.outside a (by omega)

theorem Burns.data_congr {content content' : Memory} {offset : UInt8} {x : Attempt}
    {data data' : Memory} (h : Burns content content' offset x data')
    (hdata : ∀ i < 8, wordEnabled x.2 (i / 2) = true → data' i = data i) :
    Burns content content' offset x data :=
  ⟨h.outside, h.header, fun i hi he => hdata i hi he ▸ h.bytes i hi he, h.packet⟩

theorem below_congr {content content' : Memory} {offset : UInt8} {x : Attempt} {data : Memory}
    (hsame : ∀ a, x.1 ≤ a → content' a = content a) :
    Below content' offset data x ↔ Below content offset data x := by
  have hplace : ∀ i, content' (dataPlace offset x i) = content (dataPlace offset x i) := by
    intro i
    apply hsame
    rw [dataPlace]
    omega
  constructor
  · intro h
    exact ⟨h.header, fun i hi he hp => hplace i ▸ h.bytes i hi he hp⟩
  · intro h
    exact ⟨h.header, fun i hi he hp => (hplace i).symm ▸ h.bytes i hi he hp⟩

theorem words_of_bad {content : Memory} {e : ℕ} {offset wordEn : UInt8} {data : Memory}
    (h : badWords content e offset wordEn data ≠ 0x0F) : wordEn &&& 0x0F ≠ 0x0F := by
  intro hvoid
  apply h
  apply maskOf_void
  intro v hv
  rw [misread, ← wordEnabled_low wordEn v hv, hvoid, void_enabled v hv, Bool.false_and]

theorem and_low {wordEn : UInt8} (h : wordEn.toNat < 16) : wordEn &&& 0x0F = wordEn := by
  have hfin : ∀ m : Fin 16, UInt8.ofNat m &&& 0x0F = UInt8.ofNat m := by decide
  have := hfin ⟨wordEn.toNat, h⟩
  simpa only [UInt8.ofNat_toNat] using this

theorem sizeNext_congr {content content' : Memory} {a : ℕ}
    (h : ∀ b, a ≤ b → content' b = content b) : sizeNext content' a = sizeNext content a := by
  rw [sizeNext, sizeNext, packetAt, packetAt, h a le_rfl, h (a + 1) (by omega)]

/-- What the map shows of a byte of the section behind the attempts, `old` in front of them. -/
def shown (content : Memory) (offset : UInt8) (data : Memory) (i : ℕ) (l : List Attempt)
    (old : UInt8) : UInt8 :=
  l.foldl (fun v x => if wordEnabled x.2 (i / 2) then
    burn (content (dataPlace offset x i)) (data i) else v) old

/-- What the attempts of a write leave. -/
structure Leaves (content : Memory) (offset : UInt8) (data : Memory) (wordEn : UInt8) (e : ℕ)
    (l : List Attempt) (ret : Bool) (s s' : EfuseState) : Prop where
  before : ∀ a < e, s'.content a = s.content a
  unwritten : l = [] → s'.content = s.content
  first : l ≠ [] → s'.content e ≠ 0xFF
  below : (∀ a, availableEfuseBytesBank ≤ a → s'.content a = s.content a) ↔
    ∀ x ∈ l, Below content offset data x
  map : ret = false → offset.toNat < 64 → wordEn.toNat < 16 →
    (∀ x ∈ l, content (x.1 + packetBytes offset x.2) = 0xFF) → ∀ ps, Laid s ps e →
    ∃ ps' e', Laid s' (ps ++ ps') e' ∧ ∀ o < 64, ∀ i < 8,
      mapByte s'.content o i (ps ++ ps') =
        if o = offset.toNat then shown content offset data i l (mapByte s.content o i ps)
        else mapByte s.content o i ps

theorem Leaves.refl (content : Memory) (offset : UInt8) (data : Memory) (wordEn : UInt8) {e : ℕ}
    (s : EfuseState) : Leaves content offset data wordEn e [] false s
      { s with efuseUsedBytes := e } := by
  constructor
  · exact fun _ _ => rfl
  · exact fun _ => rfl
  · exact fun h => absurd rfl h
  · simp
  · intro _ _ _ _ ps hlaid
    refine ⟨[], e, by rw [List.append_nil]; exact hlaid.at_end, fun o _ i _ => ?_⟩
    rw [List.append_nil]
    exact (ite_self _).symm

/-- One more attempt in front of the others. -/
theorem Leaves.cons {content : Memory} {offset : UInt8} {data : Memory} {wordEn bad : UInt8}
    {e e' : ℕ} {l : List Attempt} {ret : Bool} {s s' : EfuseState} {content' : Memory}
    (hburns : Burns s.content content' offset (e, wordEn) data)
    (hsame : ∀ a, e ≤ a → s.content a = content a)
    (hheader : ∀ a, e ≤ a → a < e + headerBytes offset → s.content a = 0xFF) (he : e < 238)
    (hwords : wordEn &&& 0x0F ≠ 0x0F) (hbad : bad.toNat < 16) {gs : List Packet}
    (hnext : Log (sizeNext content) (e + packetBytes offset wordEn) gs e')
    (h : Leaves content offset data bad e' l ret ⟨content', e⟩ s') :
    Leaves content offset data wordEn e ((e, wordEn) :: l) ret s s' := by
  have hle := hnext.walk.le (sizeNext_lt content)
  have hpos := headerBytes_pos offset
  have hge : headerBytes offset ≤ packetBytes offset wordEn := Nat.le_add_right _ _
  have hbelow := hburns.below_iff hheader
  rw [below_congr hsame] at hbelow
  constructor
  · intro a ha
    rw [h.before a (by omega)]
    exact hburns.outside a (Or.inl ha)
  · exact fun h => absurd h (List.cons_ne_nil _ _)
  · intro _
    rw [h.before e (by omega)]
    exact hburns.header e (Nat.le_refl e) (by dsimp only; omega)
  · rw [List.forall_mem_cons, ← hbelow, ← h.below]
    constructor
    · intro hkept
      have hfirst : ∀ a, availableEfuseBytesBank ≤ a → content' a = s.content a := by
        intro a ha
        by_cases hin : a < e'
        · rw [← hkept a ha, h.before a hin]
        · exact hburns.outside a (Or.inr (by dsimp only; omega))
      exact ⟨hfirst, fun a ha => (hkept a ha).trans (hfirst a ha).symm⟩
    · rintro ⟨hfirst, hrest⟩ a ha
      exact (hrest a ha).trans (hfirst a ha)
  · intro hret hoff hw hbehind ps hlaid
    rw [List.forall_mem_cons] at hbehind
    obtain ⟨hff, hbehind⟩ := hbehind
    obtain ⟨sec, hp, hsec⟩ := hburns.packet hwords
    obtain rfl : sec = offset.toNat := hsec hoff hw
    dsimp only at hp
    rw [and_low hw] at hp
    have hbytes := packetBytes_le offset wordEn
    have hstop : (⟨offset.toNat, wordEn, e + headerBytes offset⟩ : Packet).stop =
        e + packetBytes offset wordEn := by
      rw [Packet.stop, packetBytes, Nat.add_assoc]
    have hend : content' (e + packetBytes offset wordEn) = 0xFF := by
      rw [hburns.outside _ (Or.inr (Nat.le_refl _)), hsame _ (by omega)]
      exact hff
    have hnone : sizeNext content (e + packetBytes offset wordEn) = none := by
      rw [sizeNext, packetAt_none.mpr hff]
      exact ite_self _
    obtain ⟨-, rfl⟩ := hnext.unique ⟨Walk.nil _, hnone⟩
    have hlaid' := hlaid.snoc (fun a ha => hburns.outside a (Or.inl ha)) hp hoff (by omega)
      (by omega) (by rw [hstop]; exact hend)
    rw [hstop] at hlaid'
    obtain ⟨ps', e'', hlaid'', hmap⟩ := h.map hret hoff hbad hbehind _ hlaid'
    refine ⟨⟨offset.toNat, wordEn, e + headerBytes offset⟩ :: ps', e'', ?_, ?_⟩
    · rwa [List.append_assoc] at hlaid''
    · intro o ho i hi
      have hbyte := hmap o ho i hi
      rw [List.append_assoc] at hbyte
      have hfirst : mapByte content' o i (ps ++ [⟨offset.toNat, wordEn, e + headerBytes offset⟩]) =
          if o = offset.toNat ∧ wordEnabled wordEn (i / 2) = true then
            burn (content (dataPlace offset (e, wordEn) i)) (data i)
          else mapByte s.content o i ps := by
        have hholds : Packet.holds o i ⟨offset.toNat, wordEn, e + headerBytes offset⟩ = true ↔
            o = offset.toNat ∧ wordEnabled wordEn (i / 2) = true := by
          rw [Packet.holds, Bool.and_eq_true, decide_eq_true_eq, @eq_comm _ o]
        rw [mapByte_snoc]
        by_cases hheld : o = offset.toNat ∧ wordEnabled wordEn (i / 2) = true
        · rw [if_pos (hholds.mpr hheld), if_pos hheld]
          refine (hburns.bytes i hi hheld.2).trans ?_
          rw [hsame _ (by rw [dataPlace]; omega)]
        · rw [if_neg (mt hholds.mp hheld), if_neg hheld]
          exact mapByte_congr hlaid.walk (fun a ha => hburns.outside a (Or.inl ha)) ho hi
      rw [show ps ++ ⟨offset.toNat, wordEn, e + headerBytes offset⟩ :: ps' =
        ps ++ ([⟨offset.toNat, wordEn, e + headerBytes offset⟩] ++ ps') from rfl, hbyte, hfirst]
      by_cases hoffset : o = offset.toNat
      · rw [if_pos hoffset, if_pos hoffset, shown, shown, List.foldl_cons]
        simp only [hoffset, true_and]
      · rw [if_neg hoffset, if_neg hoffset, if_neg fun h => hoffset h.1]

/-- The write makes the attempts, once the fuel is enough for them. -/
theorem Attempts.run {content : Memory} {offset : UInt8} {data : Memory} {wordEn : UInt8} {e : ℕ}
    {l : List Attempt} {ret : Bool} (h : Attempts content offset data wordEn e l ret) :
    ∀ {s : EfuseState} {ps : List Packet} {data' : Memory},
      Log (sizeNext s.content) s.efuseUsedBytes ps e → (∀ a, e ≤ a → s.content a = content a) →
      (∀ i < 8, wordEnabled wordEn (i / 2) = true → data' i = data i) →
      ∃ n s', (∀ fuel, halEfusePgPacketWrite fuel s offset wordEn data' =
          if fuel < n then none else some (ret, s')) ∧
        Leaves content offset data wordEn e l ret s s' := by
  induction h with
  | refused full =>
    intro s ps data' hlog _ _
    refine ⟨1, _, ?_, Leaves.refl content offset data _ s⟩
    intro fuel
    cases fuel with
    | zero => rfl
    | succ fuel => exact halEfusePgPacketWrite_full hlog full fuel offset _ data'
  | unmarked room short header =>
    intro s ps data' hlog _ _
    refine ⟨1, _, ?_, Leaves.refl content offset data _ s⟩
    intro fuel
    cases fuel with
    | zero => rfl
    | succ fuel => exact halEfusePgPacketWrite_unmarked hlog room fuel data' short header
  | @whole wordEn e room marks header good =>
    intro s ps data' hlog hsame hdata
    have hheader : ∀ a, e ≤ a → a < e + headerBytes offset → s.content a = 0xFF := by
      intro a ha ha'
      rw [hsame a ha]
      exact header a ha ha'
    obtain ⟨content', hburns, hrun⟩ := halEfusePgPacketWrite_burns hlog room data' marks hheader
    rw [badWords_congr hsame hdata, good] at hrun
    have hkept := (hburns.data_congr hdata).below_iff hheader
    rw [below_congr hsame] at hkept
    refine ⟨1, ⟨content', e⟩, ?_, ?_, ?_, ?_, ?_, ?_⟩
    · intro fuel
      cases fuel with
      | zero => rfl
      | succ fuel => exact hrun fuel
    · exact fun a ha => hburns.outside a (Or.inl ha)
    · exact fun h => absurd h (List.cons_ne_nil _ _)
    · have := headerBytes_pos offset
      exact fun _ => hburns.header e (Nat.le_refl e) (by dsimp only; omega)
    · rw [hkept, List.forall_mem_singleton]
    · intro hret
      cases hret
  | @again wordEn e e' gs l ret room marks header bad next rest ih =>
    intro s ps data' hlog hsame hdata
    have hheader : ∀ a, e ≤ a → a < e + headerBytes offset → s.content a = 0xFF := by
      intro a ha ha'
      rw [hsame a ha]
      exact header a ha ha'
    obtain ⟨content', hburns, hrun⟩ := halEfusePgPacketWrite_burns hlog room data' marks hheader
    rw [badWords_congr hsame hdata] at hrun
    simp only [if_neg bad] at hrun
    have hwords := words_of_bad bad
    have hle := next.walk.le (sizeNext_lt content)
    have hsame' : ∀ a, e + packetBytes offset wordEn ≤ a → content' a = content a := by
      intro a ha
      rw [hburns.outside a (Or.inr ha), hsame a (by omega)]
    obtain ⟨sec, hp, -⟩ := hburns.packet hwords
    have hstop : (⟨sec, wordEn &&& 0x0F, e + headerBytes offset⟩ : Packet).stop =
        e + packetBytes offset wordEn := by
      rw [Packet.stop, packetBytes, rank_low, Nat.add_assoc]
    have hlog' : Log (sizeNext content') e (⟨sec, wordEn &&& 0x0F, e + headerBytes offset⟩ :: gs)
        e' := by
      have hrest := next.congr (sizeNext_lt content) fun b hb =>
        sizeNext_congr fun a ha => hsame' a (by omega)
      exact ⟨Walk.cons (sizeNext_eq_some.mpr ⟨hp, by omega, hstop.symm⟩) hrest.walk, hrest.last⟩
    obtain ⟨n, s', hrest, hleaves⟩ := @ih ⟨content', e⟩ _
      (halEfuseConstructPGPkt offset wordEn data').data hlog'
      (fun a ha => hsame' a (by omega))
      (fun i hi he => (halEfuseConstructPGPkt_data offset wordEn data' hi
        (badWords_enabled (by omega) he)).trans (hdata i hi (badWords_enabled (by omega) he)))
    refine ⟨n + 1, s', ?_, ?_⟩
    · intro fuel
      cases fuel with
      | zero => rfl
      | succ fuel =>
        rw [hrun fuel, hrest fuel]
        simp only [Nat.add_lt_add_iff_right]
    · exact Leaves.cons (hburns.data_congr hdata) hsame hheader room hwords
        (maskOf_spec _ le_rfl).1 next hleaves

/-- The map that the reader decodes is the same, whatever buffer it is given. -/
def SameMap (s s' : EfuseState) : Prop :=
  ∀ pbuf, ∀ j < efuseMapLen88E,
    (halEfuseReadEFuse88E s' 0 efuseMapLen88E pbuf).map (fun r => r.1 j) =
      (halEfuseReadEFuse88E s 0 efuseMapLen88E pbuf).map fun r => r.1 j

/-- What is meant of a write: it programs nothing at or behind the available size, and if it fails
the map is the same. -/
def Limits (s : EfuseState) (offset wordEn : UInt8) (data : Memory) : Prop :=
  ∀ fuel r, halEfusePgPacketWrite fuel s offset wordEn data = some r →
    (∀ a, availableEfuseBytesBank ≤ a → r.2.content a = s.content a) ∧
      (r.1 = false → SameMap s r.2)

theorem sameMap_of_content {s s' : EfuseState} (h : s'.content = s.content) : SameMap s s' := by
  intro pbuf j _
  unfold halEfuseReadEFuse88E
  rw [h]
  split_ifs <;> rfl

theorem sameMap_of_laid {s s' : EfuseState} {ps ps' : List Packet} {e e' : ℕ}
    (h : Laid s ps e) (h' : Laid s' ps' e') (h0 : s'.content 0 ≠ 0xFF) :
    SameMap s s' ↔ s.content 0 ≠ 0xFF ∧ ∀ o < 64, ∀ i < 8,
      mapByte s'.content o i ps' = mapByte s.content o i ps := by
  constructor
  · intro hsame
    have hne : s.content 0 ≠ 0xFF := by
      intro hff
      obtain ⟨map', hread', hmap'⟩ := h'.read h0 fun _ => mapByte s'.content 0 0 ps' + 1
      have hbyte := hsame (fun _ => mapByte s'.content 0 0 ps' + 1) 0 (by decide)
      rw [hread', halEfuseReadEFuse88E, if_neg (by decide), if_pos hff] at hbyte
      have heq : mapByte s'.content 0 0 ps' = mapByte s'.content 0 0 ps' + 1 :=
        (hmap' 0 (by omega)).symm.trans (Option.some.inj hbyte)
      simp at heq
    refine ⟨hne, fun o ho i hi => ?_⟩
    obtain ⟨map', hread', hmap'⟩ := h'.read h0 fun _ => 0
    obtain ⟨map, hread, hmap⟩ := h.read hne fun _ => 0
    have hbyte := hsame (fun _ => 0) (8 * o + i) (show 8 * o + i < 512 by omega)
    rw [hread', hread] at hbyte
    have hbytes : map' (8 * o + i) = map (8 * o + i) := Option.some.inj hbyte
    rw [hmap' _ (by omega), hmap _ (by omega), show (8 * o + i) / 8 = o by omega,
      show (8 * o + i) % 8 = i by omega] at hbytes
    exact hbytes
  · rintro ⟨hne, hbytes⟩ pbuf j hj
    rw [efuseMapLen88E] at hj
    obtain ⟨map', hread', hmap'⟩ := h'.read h0 pbuf
    obtain ⟨map, hread, hmap⟩ := h.read hne pbuf
    have hbyte : map' j = map j := by
      rw [hmap' j hj, hmap j hj, hbytes _ (by omega) _ (by omega)]
    rw [hread', hread]
    exact congrArg some hbyte

/-- Packets of four words up to 234, and one of a word: the log ends one byte in front of the
available size. -/
def nearlyFull : EfuseState :=
  ⟨fun a => if a = 234 then 0x0E else if a < 237 then 0x00 else 0xFF, 237⟩

end Rtl8188eu.Efuse
