import StandaloneDrivers.Rtl8188eu.EfuseLog

/-! The reader of the efuse: its table is a fold over the packets of the content. -/
namespace Rtl8188eu.Efuse
open Foundations

section Words

/-- Two bytes as the reader puts them together. -/
def wordAt (content : Memory) (a : ℕ) : UInt16 :=
  (content a).toUInt16 ||| ((content (a + 1)).toUInt16 <<< 8)

theorem getElem_ones : ∀ (i : ℕ) (hi : i < 8), (255#8)[i] = true := by decide

theorem low_or_high (x y : UInt8) : ((x.toUInt16 ||| (y.toUInt16 <<< 8)) &&& 0xFF).toUInt8 = x := by
  apply UInt8.eq_of_toBitVec_eq
  ext i hi
  simp [getElem_ones i hi]

theorem high_or_low (x y : UInt8) :
    (((x.toUInt16 ||| (y.toUInt16 <<< 8)) >>> 8) &&& 0xFF).toUInt8 = y := by
  apply UInt8.eq_of_toBitVec_eq
  ext i hi
  simp [getElem_ones i hi]
  grind

theorem byteOf_wordAt (content : Memory) (a : ℕ) {half : ℕ} (h : half < 2) :
    Reader.byteOf (wordAt content a) half = content (a + half) := by
  obtain rfl | rfl : half = 0 ∨ half = 1 := by omega
  · exact low_or_high _ _
  · exact high_or_low _ _

/-- The table with the words below `i` of a packet stored. -/
def stored (content : Memory) (p : Packet) (i : ℕ) (t : ℕ → ℕ → UInt16) : ℕ → ℕ → UInt16 :=
  fun o w => if o = p.offset ∧ w < i ∧ wordEnabled p.wordEn w = true then
    wordAt content (p.start + 2 * rank p.wordEn w) else t o w

theorem stored_zero (content : Memory) (p : Packet) (t : ℕ → ℕ → UInt16) :
    stored content p 0 t = t := by
  funext o w
  exact if_neg (by omega)

theorem stored_succ_disabled {content : Memory} {p : Packet} {i : ℕ} {t : ℕ → ℕ → UInt16}
    (h : wordEnabled p.wordEn i = false) : stored content p (i + 1) t = stored content p i t := by
  funext o w
  unfold stored
  apply if_congr _ rfl rfl
  constructor
  · rintro ⟨ho, hw, he⟩
    refine ⟨ho, lt_of_le_of_ne (by omega) ?_, he⟩
    rintro rfl
    rw [h] at he
    contradiction
  · rintro ⟨ho, hw, he⟩
    exact ⟨ho, by omega, he⟩

theorem stored_succ_enabled {content : Memory} {p : Packet} {i : ℕ} {t : ℕ → ℕ → UInt16}
    (h : wordEnabled p.wordEn i = true) : stored content p (i + 1) t =
      Reader.setWord (stored content p i t) p.offset i
        (wordAt content (p.start + 2 * rank p.wordEn i)) := by
  funext o w
  unfold stored Reader.setWord
  by_cases hw : o = p.offset ∧ w = i
  · obtain ⟨rfl, rfl⟩ := hw
    rw [if_pos ⟨rfl, Nat.lt_succ_self _, h⟩, if_pos ⟨rfl, rfl⟩]
  · rw [if_neg hw]
    apply if_congr _ rfl rfl
    constructor
    · rintro ⟨ho, hlt, he⟩
      exact ⟨ho, by omega, he⟩
    · rintro ⟨ho, hlt, he⟩
      exact ⟨ho, by omega, he⟩

/-- Behind the last enabled word nothing is stored any more. -/
theorem stored_of_rank {content : Memory} {p : Packet} {i : ℕ} {t : ℕ → ℕ → UInt16} (hi : i ≤ 4)
    (h : rank p.wordEn 4 = rank p.wordEn i) : stored content p 4 t = stored content p i t := by
  funext o w
  unfold stored
  apply if_congr _ rfl rfl
  constructor
  · rintro ⟨ho, hw, he⟩
    refine ⟨ho, lt_of_not_ge fun hge => ?_, he⟩
    have := rank_lt he hw
    have := rank_mono p.wordEn hge
    omega
  · rintro ⟨ho, hw, he⟩
    exact ⟨ho, by omega, he⟩

theorem setWord_setWord (t : ℕ → ℕ → UInt16) (i j : ℕ) (u v : UInt16) :
    Reader.setWord (Reader.setWord t i j u) i j v = Reader.setWord t i j v := by
  funext i' j'
  unfold Reader.setWord
  split <;> rfl

theorem setWord_same (t : ℕ → ℕ → UInt16) (i j : ℕ) (v : UInt16) :
    Reader.setWord t i j v i j = v := if_pos ⟨rfl, rfl⟩

theorem words_disabled {content : Memory} {offset n i : ℕ} {wren : UInt8} {s : Reader.State}
    (h : wordEnabled wren 0 = false) : Reader.words content offset (n + 1) i wren s =
      Reader.words content offset n (i + 1) (wren >>> 1) s :=
  if_neg (by rw [wordEnabled_zero, h]; exact Bool.false_ne_true)

def afterWord (content : Memory) (offset i : ℕ) (s : Reader.State) : Reader.State :=
  ⟨s.eFuseAddr + 2, content (s.eFuseAddr + 1),
    Reader.setWord s.eFuseWord offset i (wordAt content s.eFuseAddr)⟩

theorem words_enabled {content : Memory} {offset n i : ℕ} {wren : UInt8} {s : Reader.State}
    (h : wordEnabled wren 0 = true) : Reader.words content offset (n + 1) i wren s =
      if 256 ≤ s.eFuseAddr + 1 then
        ⟨s.eFuseAddr + 1, content s.eFuseAddr,
          Reader.setWord s.eFuseWord offset i (content s.eFuseAddr).toUInt16⟩
      else if 256 ≤ s.eFuseAddr + 2 then afterWord content offset i s
      else Reader.words content offset n (i + 1) (wren >>> 1) (afterWord content offset i s) := by
  have hset : Reader.setWord (Reader.setWord s.eFuseWord offset i (content s.eFuseAddr).toUInt16)
        offset i
      (Reader.setWord s.eFuseWord offset i (content s.eFuseAddr).toUInt16 offset i |||
        (content (s.eFuseAddr + 1)).toUInt16 <<< 8) =
      Reader.setWord s.eFuseWord offset i (wordAt content s.eFuseAddr) := by
    rw [setWord_setWord, setWord_same]
    rfl
  rw [Reader.words, if_pos ((wordEnabled_zero wren).mpr h)]
  dsimp only
  rw [hset]
  rfl

/-- The loop over the words of a packet that ends within the content. -/
theorem words_whole {content : Memory} {p : Packet} {t : ℕ → ℕ → UInt16}
    (hstop : p.start + 2 * rank p.wordEn 4 ≤ 256) :
    ∀ (n i : ℕ) (wren : UInt8) (s : Reader.State), i + n = 4 →
      (∀ w < n, wordEnabled wren w = wordEnabled p.wordEn (i + w)) →
      s.eFuseAddr = p.start + 2 * rank p.wordEn i → s.eFuseWord = stored content p i t →
      (Reader.words content p.offset n i wren s).eFuseAddr = p.start + 2 * rank p.wordEn 4 ∧
      (Reader.words content p.offset n i wren s).eFuseWord = stored content p 4 t := by
  intro n
  induction n with
  | zero =>
    intro i wren s hi _ haddr hword
    obtain rfl : i = 4 := by omega
    exact ⟨haddr, hword⟩
  | succ n ih =>
    intro i wren s hi hbits haddr hword
    have hbit := hbits 0 (Nat.succ_pos n)
    have hrank := rank_succ p.wordEn i
    have hmono : rank p.wordEn (i + 1) ≤ rank p.wordEn 4 := rank_mono _ (by omega)
    have hshift : ∀ w < n, wordEnabled (wren >>> 1) w = wordEnabled p.wordEn (i + 1 + w) := by
      intro w hw
      rw [wordEnabled_shift wren w (by omega), hbits (w + 1) (by omega)]
      congr 1
      omega
    rw [Nat.add_zero] at hbit
    cases he : wordEnabled p.wordEn i with
    | false =>
      rw [he, Bool.toNat_false] at hrank
      rw [words_disabled (hbit.trans he)]
      apply ih (i + 1) _ s (by omega) hshift
      · omega
      · rw [hword, stored_succ_disabled he]
    | true =>
      rw [he, Bool.toNat_true] at hrank
      have hafter : (afterWord content p.offset i s).eFuseAddr =
          p.start + 2 * rank p.wordEn (i + 1) := by
        simp only [afterWord]
        omega
      have hstored : (afterWord content p.offset i s).eFuseWord = stored content p (i + 1) t := by
        rw [stored_succ_enabled he, afterWord, hword, haddr]
      rw [words_enabled (hbit.trans he), if_neg (by omega)]
      split
      · have hlast : rank p.wordEn 4 = rank p.wordEn (i + 1) := by omega
        rw [hlast, stored_of_rank (by omega) hlast]
        exact ⟨hafter, hstored⟩
      · exact ih (i + 1) _ _ (by omega) hshift hafter hstored

/-- Where the packet runs over the end of the content, so does the loop, but not as far. -/
theorem words_truncated (content : Memory) {p : Packet}
    (hstop : 256 < p.start + 2 * rank p.wordEn 4) :
    ∀ (n i : ℕ) (wren : UInt8) (s : Reader.State), i + n = 4 →
      (∀ w < n, wordEnabled wren w = wordEnabled p.wordEn (i + w)) →
      s.eFuseAddr = p.start + 2 * rank p.wordEn i → s.eFuseAddr ≤ 256 →
      256 ≤ (Reader.words content p.offset n i wren s).eFuseAddr ∧
      (Reader.words content p.offset n i wren s).eFuseAddr < p.start + 2 * rank p.wordEn 4 := by
  intro n
  induction n with
  | zero =>
    intro i wren s hi _ haddr hle
    obtain rfl : i = 4 := by omega
    omega
  | succ n ih =>
    intro i wren s hi hbits haddr hle
    have hbit := hbits 0 (Nat.succ_pos n)
    have hrank := rank_succ p.wordEn i
    have hmono : rank p.wordEn (i + 1) ≤ rank p.wordEn 4 := rank_mono _ (by omega)
    have hshift : ∀ w < n, wordEnabled (wren >>> 1) w = wordEnabled p.wordEn (i + 1 + w) := by
      intro w hw
      rw [wordEnabled_shift wren w (by omega), hbits (w + 1) (by omega)]
      congr 1
      omega
    rw [Nat.add_zero] at hbit
    cases he : wordEnabled p.wordEn i with
    | false =>
      rw [he, Bool.toNat_false] at hrank
      rw [words_disabled (hbit.trans he)]
      exact ih (i + 1) _ s (by omega) hshift (by omega) hle
    | true =>
      rw [he, Bool.toNat_true] at hrank
      have hafter : (afterWord content p.offset i s).eFuseAddr = s.eFuseAddr + 2 := rfl
      rw [words_enabled (hbit.trans he)]
      split
      · simp only
        omega
      · split
        · omega
        · exact ih (i + 1) _ _ (by omega) hshift (by omega) (by omega)

end Words

/-- What the reader makes of one packet. -/
def store (content : Memory) (t : ℕ → ℕ → UInt16) (p : Packet) : ℕ → ℕ → UInt16 :=
  if p.offset < efuseMaxSection88E then stored content p 4 t else t

theorem words_void (content : Memory) (offset : ℕ) (s : Reader.State) :
    Reader.words content offset 4 0 0x0F s = s := by
  rw [words_disabled (by decide), words_disabled (by decide), words_disabled (by decide),
    words_disabled (by decide)]
  rfl

namespace Reader

/-- Between two packets: at address `a`, its header read. -/
def place (content : Memory) (a : ℕ) (t : ℕ → ℕ → UInt16) : State :=
  nextHeader content ⟨a, 0xFF, t⟩

theorem nextHeader_place (content : Memory) (s : State) :
    nextHeader content s = place content s.eFuseAddr s.eFuseWord := rfl

theorem place_header {content : Memory} {a : ℕ} (t : ℕ → ℕ → UInt16) (h : content a ≠ 0xFF)
    (ha : a < 256) : place content a t = ⟨a + 1, content a, t⟩ := if_pos ⟨h, ha⟩

theorem place_stop {content : Memory} {a : ℕ} (t : ℕ → ℕ → UInt16)
    (h : content a = 0xFF ∨ 256 ≤ a) : place content a t = ⟨a, content a, t⟩ := by
  apply if_neg
  rintro ⟨hne, hlt⟩
  cases h with
  | inl h => exact hne h
  | inr h => exact absurd hlt (Nat.not_lt.mpr h)

theorem sectionData_whole {content : Memory} {p : Packet} {s : State}
    (haddr : s.eFuseAddr = p.start) (hend : p.readEnd ≤ 256) :
    sectionData content p.offset p.wordEn s =
      place content p.readEnd (store content s.eFuseWord p) := by
  unfold sectionData store Packet.readEnd
  rw [nextHeader_place]
  by_cases hsec : p.offset < efuseMaxSection88E
  · rw [Packet.readEnd, if_pos hsec, Packet.stop, ← rank_four] at hend
    obtain ⟨h, h'⟩ := words_whole (t := s.eFuseWord) hend 4 0 p.wordEn s rfl
      (by intro w _; rw [Nat.zero_add]) haddr (stored_zero content p s.eFuseWord).symm
    simp only [if_pos hsec, efuseMaxWordUnit, h, h', Packet.stop, rank_four]
  · simp only [if_neg hsec, haddr]

theorem sectionData_truncated {content : Memory} {p : Packet} {s : State}
    (haddr : s.eFuseAddr = p.start) (hstart : p.start ≤ 256) (hend : 256 < p.readEnd) :
    256 ≤ (sectionData content p.offset p.wordEn s).eFuseAddr ∧
      (sectionData content p.offset p.wordEn s).eFuseAddr < p.readEnd := by
  have hsec : p.offset < efuseMaxSection88E := by
    by_contra hsec
    rw [Packet.readEnd, if_neg hsec] at hend
    omega
  rw [Packet.readEnd, if_pos hsec, Packet.stop, ← rank_four] at hend ⊢
  have htrunc := words_truncated content hend efuseMaxWordUnit 0 p.wordEn s rfl
    (by intro w _; rw [Nat.zero_add]) haddr (haddr.trans_le hstart)
  rw [sectionData, if_pos hsec, nextHeader_place, place_stop _ (Or.inr htrunc.1)]
  exact htrunc

/-- A round takes the packet whose header was read. -/
theorem round_packet {content : Memory} {a : ℕ} {p : Packet} (t : ℕ → ℕ → UInt16)
    (h : packetAt content a = some p) :
    ∃ s : State, s.eFuseAddr = p.start ∧ s.eFuseWord = t ∧
      round content ⟨a + 1, content a, t⟩ = sectionData content p.offset p.wordEn s := by
  unfold packetAt at h
  unfold round
  dsimp only
  split at h
  · contradiction
  · split at h
    · rename_i hext
      rw [if_pos hext]
      split at h
      · rename_i hall
        rw [if_pos hall]
        cases h
        refine ⟨⟨a + 2, content (a + 1), t⟩, rfl, rfl, ?_⟩
        rw [sectionData, if_pos (show 0 < efuseMaxSection88E by decide), efuseMaxWordUnit, words_void]
      · rename_i hall
        rw [if_neg hall]
        cases h
        exact ⟨_, rfl, rfl, rfl⟩
    · rename_i hext
      rw [if_neg hext]
      cases h
      exact ⟨_, rfl, rfl, rfl⟩

theorem round_whole {content : Memory} {a : ℕ} {p : Packet} (t : ℕ → ℕ → UInt16)
    (h : packetAt content a = some p) (ha : a < 255) (hend : p.readEnd ≤ 256) :
    more (place content a t) = true ∧
      round content (place content a t) = place content p.readEnd (store content t p) := by
  have hne : content a ≠ 0xFF := by
    intro hff
    rw [packetAt_none.mpr hff] at h
    contradiction
  rw [place_header t hne (by omega)]
  constructor
  · simp only [more, bne_iff_ne.mpr hne, Bool.true_and]
    exact decide_eq_true (show a + 1 < 256 by omega)
  · obtain ⟨s, haddr, hword, hround⟩ := round_packet t h
    rw [hround, sectionData_whole haddr hend, hword]

theorem round_truncated {content : Memory} {a : ℕ} {p : Packet} (t : ℕ → ℕ → UInt16)
    (h : packetAt content a = some p) (ha : a < 255) (hend : 256 < p.readEnd) :
    more (place content a t) = true ∧
      256 ≤ (round content (place content a t)).eFuseAddr ∧
      (round content (place content a t)).eFuseAddr < p.readEnd := by
  have hne : content a ≠ 0xFF := by
    intro hff
    rw [packetAt_none.mpr hff] at h
    contradiction
  have hstart := packetAt_start h
  rw [place_header t hne (by omega)]
  constructor
  · simp only [more, bne_iff_ne.mpr hne, Bool.true_and]
    exact decide_eq_true (show a + 1 < 256 by omega)
  · obtain ⟨s, haddr, -, hround⟩ := round_packet t h
    rw [hround]
    exact sectionData_truncated haddr (by omega) hend

theorem more_false {s : State} (h : s.rtemp8 = 0xFF ∨ 256 ≤ s.eFuseAddr) : more s = false := by
  rw [more, Bool.and_eq_false_iff]
  cases h with
  | inl h => exact Or.inl (bne_eq_false_iff_eq.mpr h)
  | inr h => exact Or.inr (decide_eq_false (Nat.not_lt.mpr h))

/-- The table of the packets `ps` over unprogrammed words. -/
def table (content : Memory) (ps : List Packet) : ℕ → ℕ → UInt16 :=
  ps.foldl (store content) fun _ _ => 0xFFFF

/-- Where the reader stops behind the packets `ps` it took whole, the last ending at `e`. -/
structure Stops (content : Memory) (ps : List Packet) (e : ℕ) (r : State) : Prop where
  ended : content e = 0xFF → r.eFuseAddr = e ∧ r.eFuseWord = table content ps
  unended : content e ≠ 0xFF → 256 ≤ r.eFuseAddr
  full : content e ≠ 0xFF → 255 ≤ e → r.eFuseAddr = 256 ∧ r.eFuseWord = table content ps
  truncated : ∀ p, packetAt content e = some p → e < 255 → r.eFuseAddr < p.readEnd

theorem loop_stops {content : Memory} (h0 : content 0 ≠ 0xFF) {ps : List Packet} {e : ℕ}
    (h : Log (readNext content) 0 ps e) :
    ∃ r, loop more (round content) 256 ⟨1, content 0, fun _ _ => 0xFFFF⟩ = some r ∧
      Stops content ps e r := by
  have hstart : (⟨1, content 0, fun _ _ => 0xFFFF⟩ : State) =
      place content 0 fun _ _ => 0xFFFF := (place_header _ h0 (by omega)).symm
  have hrounds := h.walk.rounds (c := more) (b := round content)
    (R := fun a t st => st = place content a t) (f := store content) (k := 1)
    (by
      intro a p a' _ t st hnext _ hst
      obtain ⟨hp, ha, hend, rfl⟩ := readNext_eq_some.mp hnext
      subst hst
      obtain ⟨hmore, hround⟩ := round_whole t hp ha hend
      exact ⟨1, le_rfl, _, Rounds.one hmore, hround⟩) (t := fun _ _ => 0xFFFF) rfl
  obtain ⟨j, hj, st, hrun, rfl⟩ := hrounds
  have hlen := h.walk.length_le (readNext_lt content) (readNext_bound content)
  have hle := readLog_end_le h.walk (Nat.zero_le _)
  rw [hstart]
  by_cases hff : content e = 0xFF
  · rw [place_stop _ (Or.inl hff)] at hrun
    refine ⟨_, hrun.exit (more_false (Or.inl hff)) (by omega), ?_, ?_, ?_, ?_⟩
    · exact fun _ => ⟨rfl, rfl⟩
    · exact fun hne => absurd hff hne
    · exact fun hne => absurd hff hne
    · intro p hp
      rw [packetAt_none.mpr hff] at hp
      contradiction
  · by_cases he : e < 255
    · obtain ⟨p, hp⟩ := Option.ne_none_iff_exists'.mp (fun hn => hff (packetAt_none.mp hn))
      have hend : 256 < p.readEnd := by
        by_contra hend
        have := readNext_eq_some.mpr ⟨hp, he, Nat.le_of_not_lt hend, rfl⟩
        rw [h.last] at this
        contradiction
      obtain ⟨hmore, hle, hlt⟩ := round_truncated (ps.foldl (store content) fun _ _ => 0xFFFF)
        hp he hend
      have hlast := hrun.trans (Rounds.one hmore)
      refine ⟨_, hlast.exit (more_false (Or.inr hle)) (by omega), ?_, ?_, ?_, ?_⟩
      · exact fun h => absurd h hff
      · exact fun _ => hle
      · omega
      · intro q hq _
        rw [hp] at hq
        cases hq
        exact hlt
    · have hpast : 256 ≤ (place content e (ps.foldl (store content) fun _ _ => 0xFFFF)).eFuseAddr ∧
          (place content e (ps.foldl (store content) fun _ _ => 0xFFFF)).eFuseAddr = 256 ∧
          (place content e (ps.foldl (store content) fun _ _ => 0xFFFF)).eFuseWord =
            table content ps := by
        obtain rfl | rfl : e = 255 ∨ e = 256 := by omega
        · rw [place_header _ hff (by omega)]
          exact ⟨le_rfl, rfl, rfl⟩
        · rw [place_stop _ (Or.inr le_rfl)]
          exact ⟨le_rfl, rfl, rfl⟩
      refine ⟨_, hrun.exit (more_false (Or.inr hpast.1)) (by omega), ?_, ?_, ?_, ?_⟩
      · exact fun h => absurd h hff
      · exact fun _ => hpast.1
      · exact fun _ _ => hpast.2
      · intro p _ hlt
        omega

end Reader

/-- The reader on a content that is not empty. -/
theorem halEfuseReadEFuse_stops {s : EfuseState} (h0 : s.content 0 ≠ 0xFF) {ps : List Packet}
    {e : ℕ} (h : Log (readNext s.content) 0 ps e) (offset sizeByte : ℕ)
    (hsize : offset + sizeByte ≤ efuseMapLen88E) (pbuf : Memory) :
    ∃ r, Reader.Stops s.content ps e r ∧ halEfuseReadEFuse88E s offset sizeByte pbuf =
      some (fun i => if i < sizeByte then Reader.efuseTbl r.eFuseWord (offset + i) else pbuf i,
        { s with efuseUsedBytes := r.eFuseAddr }) := by
  obtain ⟨r, hr, hstops⟩ := Reader.loop_stops h0 h
  refine ⟨r, hstops, ?_⟩
  rw [halEfuseReadEFuse88E, if_neg (Nat.not_lt.mpr hsize), if_neg h0]
  simp only [efuseRealContentLen88E, hr, Option.bind_eq_bind, Option.bind_some]

namespace Packet

/-- The packet holds byte `i` of the section. -/
def holds (offset i : ℕ) (p : Packet) : Bool :=
  decide (p.offset = offset) && wordEnabled p.wordEn (i / 2)

/-- Where byte `i` of its section lies. -/
def place (p : Packet) (i : ℕ) : ℕ := p.start + 2 * rank p.wordEn (i / 2) + i % 2

end Packet

/-- Byte `i` of a section: from the last packet that holds it. -/
def mapByte (content : Memory) (offset i : ℕ) (ps : List Packet) : UInt8 :=
  match newest (Packet.holds offset i) ps with
  | none => 0xFF
  | some p => content (p.place i)

theorem mapByte_snoc (content : Memory) (offset i : ℕ) (ps : List Packet) (p : Packet) :
    mapByte content offset i (ps ++ [p]) =
      if p.holds offset i = true then content (p.place i) else mapByte content offset i ps := by
  unfold mapByte
  rw [newest_snoc]
  cases p.holds offset i <;> rfl

namespace Reader

theorem byteOf_unprogrammed {half : ℕ} (h : half < 2) : byteOf 0xFFFF half = 0xFF := by
  obtain rfl | rfl : half = 0 ∨ half = 1 := by omega
  · decide
  · decide

/-- The reader's table holds each byte of the last packet that holds it. -/
theorem efuseTbl_table (content : Memory) {offset i : ℕ} (hsec : offset < 64) (hi : i < 8)
    (ps : List Packet) :
    efuseTbl (table content ps) (8 * offset + i) = mapByte content offset i ps := by
  have hdiv : (8 * offset + i) / 8 = offset := by omega
  have hmod : (8 * offset + i) % 8 = i := by omega
  have hhalf : (8 * offset + i) % 2 = i % 2 := by omega
  rw [efuseTbl, hdiv, hmod, hhalf]
  induction ps using List.reverseRecOn with
  | nil => exact byteOf_unprogrammed (Nat.mod_lt _ (by omega))
  | append_singleton ps p ih =>
    have htable : table content (ps ++ [p]) = store content (table content ps) p := by
      rw [table, List.foldl_append]
      rfl
    rw [mapByte_snoc, htable, store]
    by_cases hholds : p.holds offset i = true
    · have hholds' := hholds
      rw [Packet.holds, Bool.and_eq_true, decide_eq_true_eq] at hholds'
      obtain ⟨rfl, he⟩ := hholds'
      rw [if_pos hholds, if_pos (show p.offset < efuseMaxSection88E from hsec), stored,
        if_pos ⟨rfl, by omega, he⟩, byteOf_wordAt _ _ (Nat.mod_lt _ (by omega))]
      rfl
    · rw [if_neg hholds, ← ih]
      split
      · rw [stored, if_neg]
        rintro ⟨ho, -, he⟩
        rw [Packet.holds, he, ho, decide_eq_true rfl] at hholds
        exact hholds rfl
      · rfl

end Reader

end Rtl8188eu.Efuse
