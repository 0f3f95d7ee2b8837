import StandaloneDrivers.Foundations.WriteOnce
import StandaloneDrivers.Rt5572.Efuse

/-! One word of the EEPROM is written: the efuse as a store of blocks whose words can be written over
only where no bit has to be cleared. -/
namespace Rt5572.EFuse
open Foundations

section Store
variable (chip : Chip) {hw : Hardware chip} {c c' : Content} {b k : ℕ}

/-- What the writes preserve: the block of a byte that is not used is blank, and no two bytes of the
map name the same block. -/
structure Inv (c : Content) : Prop where
  blank : ∀ k < chip.entries, mapByte chip c k = 0 → ∀ w < 8, c (8 * k + w) = 0
  unique : ∀ j < chip.entries, ∀ k < chip.entries, ∀ b,
    names (mapByte chip c j) b = true → names (mapByte chip c k) b = true → j = k

/-- A new word sets bits of the old one only. -/
def Fits (old new : UInt16) : Prop := old ||| new = new

instance : DecidableRel Fits := fun _ _ => inferInstanceAs (Decidable (_ = _))

theorem fits_zero (v : UInt16) : Fits 0 v := UInt16.zero_or

/-- The number of bytes of the map that are not used. -/
def freeEntries (c : Content) : ℕ :=
  ((Finset.range chip.entries).filter fun k => mapByte chip c k = 0).card

def wordsOf (c : Content) (k : ℕ) : Fin 8 → UInt16 := fun w => c (8 * k + w)

variable {chip} (hw)

/-- The blocks of the EEPROM that the map names. -/
def store (c : Content) : OnceStore (Fin 64) (Fin 8) UInt16 where
  block b := (hw.find c b).map (wordsOf c)
  free := freeEntries chip c

variable {hw}

theorem find_eq_some (hw : Hardware chip) (h : Inv chip c) (hk : k < chip.entries)
    (hnames : names (mapByte chip c k) b = true) : hw.find c b = some k := by
  cases hfind : hw.find c b with
  | none => exact absurd hnames (Bool.eq_false_iff.mp (hw.missing c b hfind k hk))
  | some j =>
    obtain ⟨hj, hjnames⟩ := hw.found c b j hfind
    exact congrArg some (h.unique j hj k hk b hjnames hnames)

theorem find_eq_none (h : ∀ k < chip.entries, names (mapByte chip c k) b = false) :
    hw.find c b = none := by
  cases hfind : hw.find c b with
  | none => rfl
  | some j =>
    obtain ⟨hj, hjnames⟩ := hw.found c b j hfind
    exact absurd hjnames (Bool.eq_false_iff.mp (h j hj))

/-- A block of the EEPROM is now in a block of the efuse; the one in which it was, if that is another
one, is not named any more. -/
structure Moved (chip : Chip) (c c' : Content) (b k : ℕ) : Prop where
  lt : k < chip.entries
  named : names (mapByte chip c' k) b = true
  vacant : ∀ b', names (mapByte chip c k) b' = true → b' = b
  other : ∀ j < chip.entries, j ≠ k →
    (mapByte chip c' j = mapByte chip c j ∧ wordsOf c' j = wordsOf c j ∧
      names (mapByte chip c j) b = false) ∨
    (parityOk (mapByte chip c' j) = false ∧ mapByte chip c' j ≠ 0 ∧
      names (mapByte chip c j) b = true)

theorem not_names {a : UInt8} (h : parityOk a = false) (b : ℕ) : ¬names a b = true := by
  rw [names, h]
  exact Bool.false_ne_true

theorem Moved.names_iff (h : Moved chip c c' b k) {j b' : ℕ} (hj : j < chip.entries) (hb : b' ≠ b) :
    names (mapByte chip c' j) b' = true ↔ names (mapByte chip c j) b' = true := by
  by_cases hjk : j = k
  · subst hjk
    exact iff_of_false (fun hn => hb (names_unique hn h.named)) fun hn => hb (h.vacant b' hn)
  · obtain ⟨hbyte, -, -⟩ | ⟨hdead, -, hnames⟩ := h.other j hj hjk
    · rw [hbyte]
    · exact iff_of_false (not_names hdead b') fun hn => hb (names_unique hn hnames)

theorem Moved.names_self (h : Moved chip c c' b k) {j : ℕ} (hj : j < chip.entries)
    (hnames : names (mapByte chip c' j) b = true) : j = k := by
  by_contra hjk
  obtain ⟨hbyte, -, hnot⟩ | ⟨hdead, -, -⟩ := h.other j hj hjk
  · rw [hbyte, hnot] at hnames
    exact Bool.false_ne_true hnames
  · exact not_names hdead b hnames

theorem Moved.ne_zero (h : Moved chip c c' b k) : mapByte chip c' k ≠ 0 := by
  intro hzero
  have hnames := h.named
  rw [hzero, names_zero] at hnames
  exact Bool.false_ne_true hnames

theorem Moved.inv (h : Moved chip c c' b k) (hinv : Inv chip c) : Inv chip c' where
  blank j hj hzero w hw := by
    have hjk : j ≠ k := by
      rintro rfl
      exact h.ne_zero hzero
    obtain ⟨hbyte, hwords, -⟩ | ⟨-, hne, -⟩ := h.other j hj hjk
    · have hword := congrFun hwords ⟨w, hw⟩
      rw [wordsOf, wordsOf] at hword
      rw [hword]
      exact hinv.blank j hj (hbyte ▸ hzero) w hw
    · exact absurd hzero hne
  unique i hi j hj b' hni hnj := by
    by_cases hb : b' = b
    · subst hb
      rw [h.names_self hi hni, h.names_self hj hnj]
    · exact hinv.unique i hi j hj b' ((h.names_iff hi hb).mp hni) ((h.names_iff hj hb).mp hnj)

/-- The store after a block was moved. -/
theorem Moved.block (h : Moved chip c c' b k) (hinv : Inv chip c) (hb : b < 64) :
    (store hw c').block = Function.update (store hw c).block ⟨b, hb⟩ (some (wordsOf c' k)) := by
  funext b'
  by_cases hbb : b' = ⟨b, hb⟩
  · subst hbb
    rw [Function.update_self]
    simp only [store, find_eq_some hw (h.inv hinv) h.lt h.named, Option.map_some]
  · have hne : (b' : ℕ) ≠ b := fun heq => hbb (Fin.ext heq)
    rw [Function.update_of_ne hbb]
    cases hfind : hw.find c b' with
    | none =>
      have hnone : hw.find c' b' = none := by
        apply find_eq_none
        intro j hj
        rw [Bool.eq_false_iff, ne_eq, h.names_iff hj hne]
        exact Bool.eq_false_iff.mp (hw.missing c b' hfind j hj)
      simp only [store, hfind, hnone, Option.map_none]
    | some j =>
      obtain ⟨hj, hnames⟩ := hw.found c b' j hfind
      have hsome := find_eq_some hw (h.inv hinv) hj ((h.names_iff hj hne).mpr hnames)
      have hjk : j ≠ k := by
        rintro rfl
        exact hne (h.vacant b' hnames)
      have hwords : wordsOf c' j = wordsOf c j := by
        obtain ⟨-, hwords, -⟩ | ⟨-, -, hnamed⟩ := h.other j hj hjk
        · exact hwords
        · exact absurd (names_unique hnames hnamed) hne
      simp only [store, hfind, hsome, Option.map_some, hwords]

theorem Moved.freeEntries_eq (h : Moved chip c c' b k) :
    freeEntries chip c = freeEntries chip c' + if mapByte chip c k = 0 then 1 else 0 := by
  have hzeros : ((Finset.range chip.entries).filter fun j => mapByte chip c' j = 0) =
      ((Finset.range chip.entries).filter fun j => mapByte chip c j = 0).erase k := by
    ext j
    simp only [Finset.mem_filter, Finset.mem_erase, Finset.mem_range]
    by_cases hjk : j = k
    · subst hjk
      exact iff_of_false (fun hj => h.ne_zero hj.2) fun hj => hj.1 rfl
    · constructor
      · rintro ⟨hj, hzero⟩
        obtain ⟨hbyte, -, -⟩ | ⟨-, hne, -⟩ := h.other j hj hjk
        · exact ⟨hjk, hj, hbyte ▸ hzero⟩
        · exact absurd hzero hne
      · rintro ⟨-, hj, hzero⟩
        obtain ⟨hbyte, -, -⟩ | ⟨-, -, hnames⟩ := h.other j hj hjk
        · exact ⟨hj, hbyte.trans hzero⟩
        · rw [hzero, names_zero] at hnames
          exact absurd hnames Bool.false_ne_true
  rw [freeEntries, freeEntries, hzeros]
  split_ifs with hzero
  · have hmem : k ∈ (Finset.range chip.entries).filter fun j => mapByte chip c j = 0 :=
      Finset.mem_filter.mpr ⟨Finset.mem_range.mpr h.lt, hzero⟩
    exact (Finset.card_erase_add_one hmem).symm
  · have hmem : k ∉ (Finset.range chip.entries).filter fun j => mapByte chip c j = 0 :=
      fun hmem => hzero (Finset.mem_filter.mp hmem).2
    rw [Finset.erase_eq_of_notMem hmem, Nat.add_zero]

end Store

section Rounds
variable {chip : Chip} {c : Content} {k block offset : ℕ} {data : UInt16}

/-- The block of the efuse that a round of the loop leaves, with the byte of the map that it writes;
the other blocks and bytes are as they were. -/
structure Round (chip : Chip) (c c' : Content) (k : ℕ) (tag : UInt8) (words : Fin 8 → UInt16) :
    Prop where
  byte : mapByte chip c' k = mapByte chip c k ||| tag
  bytes : ∀ j < chip.entries, j ≠ k → mapByte chip c' j = mapByte chip c j
  block : wordsOf c' k = words
  blocks : ∀ j < chip.entries, j ≠ k → wordsOf c' j = wordsOf c j

theorem word_address (hk : k < chip.entries) {i : ℕ} (hi : i < 8) :
    (16 * k + 2 * i) % 1024 / 2 = 8 * k + i := by
  have hbound := entries_bound chip
  omega

/-- What is written into a block, and then the byte of the map. -/
theorem round_of_data {c₁ : Content} {words : Fin 8 → UInt16} (hk : k < chip.entries)
    (hblock : block < 64) (hoffset : offset / 16 = block) (hwords : wordsOf c₁ k = words)
    (hothers : ∀ i, i / 8 ≠ k → c₁ i = c i) :
    Round chip c (writeMapping chip c₁ offset k) k (tagByte block) words := by
  have hbound := entries_bound chip
  obtain ⟨hmap, hdata⟩ := writeMapping_spec (c := c₁) hk hblock hoffset (by omega)
  have hbytes : ∀ j, mapByte chip c₁ j = mapByte chip c j := by
    intro j
    have hne : (chip.mapStart + j) / 2 / 8 ≠ k := by omega
    rw [mapByte, mapByte, byteAt, byteAt, hothers _ hne]
  have hkeep : ∀ j < chip.entries, wordsOf (writeMapping chip c₁ offset k) j = wordsOf c₁ j := by
    intro j hj
    funext w
    exact hdata _ (by omega)
  constructor
  · rw [hmap k hk, if_pos rfl, hbytes]
  · intro j hj hjk
    rw [hmap j hj, if_neg hjk, hbytes]
  · rw [hkeep k hk, hwords]
  · intro j hj hjk
    rw [hkeep j hj]
    funext w
    exact hothers _ (by omega)

/-- The round that writes one word. -/
theorem firstRound (hk : k < chip.entries) (hblock : block < 64) (hoffset : offset / 16 = block)
    (heven : offset % 2 = 0) {w : Fin 8} (hw : offset % 16 = 2 * w) (c : Content) (data : UInt16) :
    Round chip c
      (writeMapping chip (eFusePhysicalWriteRegisters c (16 * k + offset % 16) data) offset k) k
      (tagByte block) (Function.update (wordsOf c k) w (wordsOf c k w ||| data)) := by
  have haddr := word_address hk w.isLt
  apply round_of_data hk hblock hoffset
  · funext i
    rw [wordsOf, eFusePhysicalWriteRegisters_eq, hw, haddr]
    by_cases hi : i = w
    · rw [hi, Function.update_self, Function.update_self]
      rfl
    · have hne : 8 * k + (i : ℕ) ≠ 8 * k + w := fun heq => hi (Fin.ext (Nat.add_left_cancel heq))
      rw [Function.update_of_ne hne, Function.update_of_ne hi]
      rfl
  · intro i hi
    rw [eFusePhysicalWriteRegisters_eq, hw, haddr]
    exact Function.update_of_ne (by omega) _ _

/-- The whole buffer is written word by word. -/
theorem writeWhole_apply (hk : k < chip.entries) (c : Content) (buffer : Fin 8 → UInt16) :
    wordsOf (writeWhole c k buffer) k = (fun i => wordsOf c k i ||| buffer i) ∧
      ∀ i, i / 8 ≠ k → writeWhole c k buffer i = c i := by
  have hfold : ∀ (l : List (Fin 8)) (c : Content), l.Nodup →
      let c' := l.foldl
        (fun c (i : Fin 8) => eFusePhysicalWriteRegisters c (16 * k + 2 * i) (buffer i)) c
      (∀ i, wordsOf c' k i = if i ∈ l then wordsOf c k i ||| buffer i else wordsOf c k i) ∧
        ∀ i, i / 8 ≠ k → c' i = c i := by
    intro l
    induction l with
    | nil => exact fun c _ => ⟨fun i => rfl, fun i _ => rfl⟩
    | cons n l ih =>
      intro c hnodup
      obtain ⟨hn, hnodup⟩ := List.nodup_cons.mp hnodup
      obtain ⟨hwords, hothers⟩ :=
        ih (eFusePhysicalWriteRegisters c (16 * k + 2 * n) (buffer n)) hnodup
      have hwrite := eFusePhysicalWriteRegisters_eq c (16 * k + 2 * n) (buffer n)
      rw [word_address hk n.isLt] at hwrite
      rw [List.foldl_cons]
      constructor
      · intro i
        rw [hwords, hwrite]
        by_cases hi : i = n
        · subst hi
          rw [if_neg hn, if_pos List.mem_cons_self, wordsOf, Function.update_self]
          rfl
        · have hne : 8 * k + (i : ℕ) ≠ 8 * k + n :=
            fun heq => hi (Fin.ext (Nat.add_left_cancel heq))
          simp only [wordsOf, Function.update_of_ne hne, List.mem_cons, hi, false_or]
      · intro i hi
        rw [hothers i hi, hwrite]
        exact Function.update_of_ne (by omega) _ _
  obtain ⟨hwords, hothers⟩ := hfold (List.finRange 8) c (List.nodup_finRange 8)
  refine ⟨funext fun i => ?_, hothers⟩
  exact (hwords i).trans (if_pos (List.mem_finRange i))

/-- The round that writes the whole buffer. -/
theorem secondRound (hk : k < chip.entries) (hblock : block < 64) (hoffset : offset / 16 = block)
    (c : Content) (buffer : Fin 8 → UInt16) :
    Round chip c (writeMapping chip (writeWhole c k buffer) offset k) k (tagByte block)
      (fun i => wordsOf c k i ||| buffer i) :=
  round_of_data hk hblock hoffset (writeWhole_apply hk c buffer).1 (writeWhole_apply hk c buffer).2

theorem verify_iff (hk : k < chip.entries) (c : Content) (buffer : Fin 8 → UInt16) :
    verify c k buffer = true ↔ wordsOf c k = buffer := by
  rw [verify, decide_eq_true_eq, funext_iff]
  apply forall_congr'
  intro i
  rw [eFusePhysicalReadRegisters, word_address hk i.isLt]
  exact eq_comm

end Rounds

section Word
variable {chip : Chip} {hw : Hardware chip} {c c' c₂ c₃ : Content} {b k k' : ℕ}
  {words words' : Fin 8 → UInt16}

/-- A round that writes the block of a byte that was not used, or of the one that names the block
already. -/
theorem Round.moved (h : Round chip c c' k (tagByte b) words) (hk : k < chip.entries) (hb : b < 64)
    (hbyte : mapByte chip c k = 0 ∨ mapByte chip c k = tagByte b)
    (hnone : ∀ j < chip.entries, j ≠ k → names (mapByte chip c j) b = false) :
    Moved chip c c' b k where
  lt := hk
  named := by
    have htag := (names_tagByte b hb).1
    rcases hbyte with hbyte | hbyte
    · rwa [h.byte, hbyte, UInt8.zero_or]
    · rwa [h.byte, hbyte, UInt8.or_self]
  vacant b' hnames := by
    rcases hbyte with hbyte | hbyte
    · rw [hbyte, names_zero] at hnames
      exact absurd hnames Bool.false_ne_true
    · rw [hbyte] at hnames
      exact names_unique hnames (names_tagByte b hb).1
  other j hj hjk := Or.inl ⟨h.bytes j hj hjk, h.blocks j hj hjk, hnone j hj hjk⟩

/-- A round that leaves a wrong word, the invalidation of its byte, and a round in a fresh block. -/
theorem Round.moved_again (h : Round chip c c₂ k (tagByte b) words) (hk : k < chip.entries)
    (hb : b < 63) (hbyte : mapByte chip c k = tagByte b)
    (hnone : ∀ j < chip.entries, j ≠ k → names (mapByte chip c j) b = false)
    (hk' : k' < chip.entries) (hfree : mapByte chip c₂ k' = 0)
    (h' : Round chip (invalidate chip c₂ k) c' k' (tagByte b) words') :
    Moved chip c c' b k' ∧ mapByte chip c k' = 0 ∧
      wordsOf (invalidate chip c₂ k) k' = wordsOf c k' := by
  have htag := (names_tagByte b (Nat.lt_succ_of_lt hb)).1
  have hbyte₂ : mapByte chip c₂ k = tagByte b := by rw [h.byte, hbyte, UInt8.or_self]
  obtain ⟨dead, hparity, hdead, hmap, hdata⟩ := invalidate_spec hk hb hbyte₂
  have hne : k' ≠ k := by
    rintro rfl
    exact tagByte_ne_zero (Nat.lt_succ_of_lt hb) (hbyte₂.symm.trans hfree)
  have hkeep : ∀ j < chip.entries, wordsOf (invalidate chip c₂ k) j = wordsOf c₂ j := by
    intro j hj
    funext w
    exact hdata _ (by omega)
  have hzero : mapByte chip c k' = 0 := by rw [← h.bytes k' hk' hne, hfree]
  refine ⟨⟨hk', ?_, ?_, ?_⟩, hzero, (hkeep k' hk').trans (h.blocks k' hk' hne)⟩
  · rw [h'.byte, hmap k' hk', if_neg hne, hfree, UInt8.zero_or]
    exact htag
  · intro b' hnames
    rw [hzero, names_zero] at hnames
    exact absurd hnames Bool.false_ne_true
  · intro j hj hjk'
    have hbytes := h'.bytes j hj hjk'
    rw [hmap j hj] at hbytes
    by_cases hjk : j = k
    · rw [if_pos hjk] at hbytes
      rw [hbytes, hjk, hbyte]
      exact Or.inr ⟨hparity, hdead, htag⟩
    · rw [if_neg hjk, h.bytes j hj hjk] at hbytes
      refine Or.inl ⟨hbytes, ?_, hnone j hj hjk⟩
      rw [h'.blocks j hj hjk', hkeep j hj, h.blocks j hj hjk]

theorem freeEntries_eq_zero (h : ∀ k < chip.entries, mapByte chip c k ≠ 0) :
    freeEntries chip c = 0 := by
  rw [freeEntries, Finset.card_eq_zero, Finset.filter_eq_empty_iff]
  intro k hk
  exact h k (Finset.mem_range.mp hk)

/-- The word at an even offset. -/
def putAt (offset : ℕ) (data : UInt16) : Put (Fin 64) (Fin 8) UInt16 where
  block := ⟨offset % 1024 / 16, by omega⟩
  word := ⟨offset % 16 / 2, by omega⟩
  value := data

theorem blank_words (h : Inv chip c) (hk : k < chip.entries) (hzero : mapByte chip c k = 0) :
    wordsOf c k = fun _ => 0 := by
  funext w
  exact h.blank k hk hzero w w.isLt

/-- The store after a word was written into a block. -/
theorem Moved.store_eq (h : Moved chip c c' b k) (hinv : Inv chip c) (hb : b < 64) {n : ℕ}
    (hfree : freeEntries chip c' = n) :
    store hw c' =
      ⟨Function.update (store hw c).block ⟨b, hb⟩ (some (wordsOf c' k)), n⟩ := by
  rw [← h.block hinv hb, ← hfree]
  rfl

section Offset
variable {offset : ℕ} {data : UInt16}

theorem buffer_eq (hk : k < chip.entries) (offset : ℕ) (data : UInt16) :
    Function.update (fun i : Fin 8 => eFusePhysicalReadRegisters c (16 * k + 2 * i))
      ⟨offset / 2 % 8, Nat.mod_lt _ (by decide)⟩ data =
      Function.update (wordsOf c k) (putAt offset data).word data := by
  have hword : (⟨offset / 2 % 8, Nat.mod_lt _ (by decide)⟩ : Fin 8) = (putAt offset data).word := by
    apply Fin.ext
    change offset / 2 % 8 = offset % 16 / 2
    omega
  have hread : (fun i : Fin 8 => eFusePhysicalReadRegisters c (16 * k + 2 * i)) = wordsOf c k := by
    funext i
    rw [eFusePhysicalReadRegisters, word_address hk i.isLt]
    rfl
  rw [hword, hread]

/-- The block has an entry. -/
theorem eFuseWriteRegisters_named (data : UInt16) (heven : offset % 2 = 0) (hlt : offset < 1024)
    (hfind : hw.find c (offset / 16) = some k) :
    eFuseWriteRegisters hw c offset data = attempts chip offset data
      (Function.update (wordsOf c k) (putAt offset data).word data) 2 false k c := by
  have hk := (hw.found c _ k hfind).1
  have hbound := entries_bound chip
  have hread : (eFuseReadRegisters hw c (offset - offset % 2)).2 = k := by
    rw [eFuseReadRegisters, heven, Nat.sub_zero, Nat.mod_eq_of_lt hlt, hfind]
  have hne : k ≠ 0x3f := by omega
  simp only [eFuseWriteRegisters, hread, if_neg hne, buffer_eq hk]

/-- The block has no entry. -/
theorem eFuseWriteRegisters_missing (data : UInt16) (heven : offset % 2 = 0) (hlt : offset < 1024)
    (hfind : hw.find c (offset / 16) = none) :
    eFuseWriteRegisters hw c offset data = match freeEntry chip c with
      | none => ⟨c, false, false⟩
      | some k => attempts chip offset data
          (Function.update (wordsOf c k) (putAt offset data).word data) 2 false k c := by
  have hread : (eFuseReadRegisters hw c (offset - offset % 2)).2 = 0x3f := by
    rw [eFuseReadRegisters, heven, Nat.sub_zero, Nat.mod_eq_of_lt hlt, hfind]
  simp only [eFuseWriteRegisters, hread, if_true]
  cases hfree : freeEntry chip c with
  | none => rfl
  | some k =>
    have hk := ((freeEntry_spec chip c).1 k hfree).1
    simp only [buffer_eq hk]

end Offset

section Cases
variable {offset : ℕ} {data : UInt16}

/-- What one round of the loop writes. -/
def roundContent (chip : Chip) (offset : ℕ) (data : UInt16) (buffer : Fin 8 → UInt16) (whole : Bool)
    (k : ℕ) (c : Content) : Content :=
  writeMapping chip (if whole then writeWhole c k buffer
    else eFusePhysicalWriteRegisters c (16 * k + offset % 16) data) offset k

theorem attempts_of_verified {buffer : Fin 8 → UInt16} {whole : Bool} {n : ℕ}
    (hk : k < chip.entries)
    (h : wordsOf (roundContent chip offset data buffer whole k c) k = buffer) :
    attempts chip offset data buffer (n + 1) whole k c =
      ⟨roundContent chip offset data buffer whole k c, true, true⟩ := by
  have hverify := (verify_iff hk _ buffer).mpr h
  rw [roundContent] at hverify
  rw [attempts]
  simp only [hverify, if_true]
  rfl

theorem attempts_of_not_verified {buffer : Fin 8 → UInt16} {whole : Bool} {n : ℕ}
    (hk : k < chip.entries)
    (h : wordsOf (roundContent chip offset data buffer whole k c) k ≠ buffer) :
    attempts chip offset data buffer (n + 1) whole k c =
      match freeEntry chip (roundContent chip offset data buffer whole k c) with
      | none => ⟨roundContent chip offset data buffer whole k c, false, false⟩
      | some new => attempts chip offset data buffer n true new
          (invalidate chip (roundContent chip offset data buffer whole k c) k) := by
  have hverify := mt (verify_iff hk _ buffer).mp h
  rw [roundContent] at hverify
  rw [attempts]
  simp only [if_neg hverify]
  rfl

/-- How the function and the store agree on a word. -/
def Agrees (hw : Hardware chip) (c : Content) (offset : ℕ) (data : UInt16) : Prop :=
  (∀ s', (store hw c).put Fits 0 (putAt offset data) = some s' →
    ∃ c', eFuseWriteRegisters hw c offset data = ⟨c', true, true⟩ ∧ Inv chip c' ∧
      store hw c' = s') ∧
  ((store hw c).put Fits 0 (putAt offset data) = none →
    (eFuseWriteRegisters hw c offset data).success = false)

theorem agrees_of_some {s' : OnceStore (Fin 64) (Fin 8) UInt16}
    (hput : (store hw c).put Fits 0 (putAt offset data) = some s')
    (hwrite : eFuseWriteRegisters hw c offset data = ⟨c', true, true⟩) (hinv : Inv chip c')
    (hstore : store hw c' = s') : Agrees hw c offset data := by
  refine ⟨fun s'' hs'' => ⟨c', hwrite, hinv, ?_⟩, fun hnone => ?_⟩
  · rw [hstore]
    exact Option.some.inj (hput.symm.trans hs'')
  · rw [hput] at hnone
    exact absurd hnone nofun

theorem agrees_of_none (hput : (store hw c).put Fits 0 (putAt offset data) = none)
    (hwrite : (eFuseWriteRegisters hw c offset data).success = false) :
    Agrees hw c offset data := by
  refine ⟨fun s' hs' => ?_, fun _ => hwrite⟩
  rw [hput] at hs'
  exact absurd hs' nofun

theorem putAt_block (data : UInt16) (hlt : offset < 1024) (hb : offset / 16 < 64) :
    (putAt offset data).block = ⟨offset / 16, hb⟩ := by
  apply Fin.ext
  change offset % 1024 / 16 = offset / 16
  rw [Nat.mod_eq_of_lt hlt]

theorem putAt_word (data : UInt16) (heven : offset % 2 = 0) :
    offset % 16 = 2 * ((putAt offset data).word : ℕ) := by
  change offset % 16 = 2 * (offset % 16 / 2)
  omega

/-- A block without an entry takes the first byte of the map that is found. -/
theorem agrees_of_missing (h : Inv chip c) (heven : offset % 2 = 0) (hlt : offset < 1024)
    (hfind : hw.find c (offset / 16) = none) : Agrees hw c offset data := by
  have hb : offset / 16 < 64 := by omega
  have hblock := putAt_block data hlt hb
  have hword := putAt_word data heven
  have hnone : (store hw c).block ⟨offset / 16, hb⟩ = none := by
    simp only [store, hfind, Option.map_none]
  have habsent : (store hw c).absent (putAt offset data) = true := by
    rw [OnceStore.absent, hblock, hnone]
    rfl
  have hmissing := eFuseWriteRegisters_missing data heven hlt hfind
  cases hfree : freeEntry chip c with
  | none =>
    have hzero := freeEntries_eq_zero ((freeEntry_spec chip c).2 hfree)
    apply agrees_of_none
    · rw [OnceStore.put_eq_none_iff, habsent]
      exact ⟨rfl, hzero⟩
    · rw [hmissing, hfree]
  | some k =>
    obtain ⟨hk, hzero⟩ := (freeEntry_spec chip c).1 k hfree
    have hround := firstRound hk hb rfl heven hword c data
    have hblank := blank_words h hk hzero
    have hmoved := hround.moved hk hb (Or.inl hzero) fun j hj _ => hw.missing c _ hfind j hj
    have hwords := hround.block
    have hfreed := hmoved.freeEntries_eq
    rw [hblank, UInt16.zero_or] at hwords
    rw [if_pos hzero] at hfreed
    refine agrees_of_some ?_ ?_ (hmoved.inv h) (hmoved.store_eq h hb rfl)
    · rw [OnceStore.put_of_needs (by rw [habsent, Bool.true_or]) hfreed, OnceStore.blockAfter,
        OnceStore.words, hblock, hnone, hwords]
      rfl
    · rw [hmissing, hfree]
      simp only
      rw [attempts_of_verified hk]
      · rfl
      · rw [hblank]
        exact hwords

/-- Nobody else names the block of an entry. -/
theorem names_other (h : Inv chip c) (hk : k < chip.entries)
    (hnames : names (mapByte chip c k) b = true) {j : ℕ} (hj : j < chip.entries) (hjk : j ≠ k) :
    names (mapByte chip c j) b = false := by
  rw [Bool.eq_false_iff]
  exact fun hother => hjk (h.unique j hj k hk b hother hnames)

/-- A word that fits is written into the block that has it. -/
theorem agrees_of_fits (h : Inv chip c) (heven : offset % 2 = 0) (hlt : offset < 1024)
    (hfind : hw.find c (offset / 16) = some k)
    (hfits : Fits (wordsOf c k (putAt offset data).word) data) : Agrees hw c offset data := by
  have hb : offset / 16 < 64 := by omega
  have hblock := putAt_block data hlt hb
  have hword := putAt_word data heven
  obtain ⟨hk, hnames⟩ := hw.found c _ k hfind
  have hbyte := eq_tagByte hnames
  have hsome : (store hw c).block ⟨offset / 16, hb⟩ = some (wordsOf c k) := by
    simp only [store, hfind, Option.map_some]
  have hneeds : ((store hw c).absent (putAt offset data) ||
      (store hw c).clashes Fits (putAt offset data)) = false := by
    have hvalue : (putAt offset data).value = data := rfl
    rw [OnceStore.absent, OnceStore.clashes, hblock, hsome, Option.any_some, hvalue,
      decide_eq_true hfits]
    rfl
  have hround := firstRound hk hb rfl heven hword c data
  have hmoved := hround.moved hk hb (Or.inr hbyte) fun j hj hjk => names_other h hk hnames hj hjk
  have hwords := hround.block
  have hfreed := hmoved.freeEntries_eq
  have hused : mapByte chip c k ≠ 0 := hbyte ▸ tagByte_ne_zero hb
  rw [hfits] at hwords
  rw [if_neg hused, Nat.add_zero] at hfreed
  refine agrees_of_some ?_ ?_ (hmoved.inv h) (hmoved.store_eq h hb hfreed.symm)
  · rw [OnceStore.put_of_fits hneeds, OnceStore.blockAfter, OnceStore.words, hblock, hsome, hwords]
    rfl
  · rw [eFuseWriteRegisters_named data heven hlt hfind, attempts_of_verified hk]
    · rfl
    · exact hwords

/-- A word that does not fit: the block is written once more as a whole, into a fresh one. -/
theorem agrees_of_clash (h : Inv chip c) (heven : offset % 2 = 0) (hlt : offset < 1024)
    (hfind : hw.find c (offset / 16) = some k)
    (hclash : ¬Fits (wordsOf c k (putAt offset data).word) data) (hlast : offset / 16 < 63) :
    Agrees hw c offset data := by
  have hb : offset / 16 < 64 := by omega
  have hblock := putAt_block data hlt hb
  have hword := putAt_word data heven
  obtain ⟨hk, hnames⟩ := hw.found c _ k hfind
  have hbyte := eq_tagByte hnames
  have hsome : (store hw c).block ⟨offset / 16, hb⟩ = some (wordsOf c k) := by
    simp only [store, hfind, Option.map_some]
  have hneeds : ((store hw c).absent (putAt offset data) ||
      (store hw c).clashes Fits (putAt offset data)) = true := by
    have hvalue : (putAt offset data).value = data := rfl
    rw [OnceStore.absent, OnceStore.clashes, hblock, hsome, Option.any_some, hvalue,
      decide_eq_false hclash]
    rfl
  have hround := firstRound hk hb rfl heven hword c data
  have hwrite := eFuseWriteRegisters_named data heven hlt hfind
  rw [attempts_of_not_verified hk] at hwrite
  · let c₂ := roundContent chip offset data
      (Function.update (wordsOf c k) (putAt offset data).word data) false k c
    have hround : Round chip c c₂ k (tagByte (offset / 16)) _ := hround
    have hbyte₂ : mapByte chip c₂ k = tagByte (offset / 16) := by
      rw [hround.byte, hbyte, UInt8.or_self]
    cases hfree : freeEntry chip c₂ with
    | none =>
      have hused := (freeEntry_spec chip c₂).2 hfree
      have hzero : freeEntries chip c = 0 := by
        apply freeEntries_eq_zero
        intro j hj
        by_cases hjk : j = k
        · rw [hjk, hbyte]
          exact tagByte_ne_zero hb
        · rw [← hround.bytes j hj hjk]
          exact hused j hj
      apply agrees_of_none
      · exact OnceStore.put_eq_none_iff.mpr ⟨hneeds, hzero⟩
      · rw [hwrite, hfree]
    | some k' =>
      obtain ⟨hk', hfree'⟩ := (freeEntry_spec chip c₂).1 k' hfree
      have hround' := secondRound hk' hb rfl (invalidate chip c₂ k)
        (Function.update (wordsOf c k) (putAt offset data).word data)
      obtain ⟨hmoved, hzero, hkept⟩ := hround.moved_again hk hlast hbyte
        (fun j hj hjk => names_other h hk hnames hj hjk) hk' hfree' hround'
      have hwords := hround'.block
      have hfreed := hmoved.freeEntries_eq
      rw [hkept, blank_words h hk' hzero] at hwords
      simp only [UInt16.zero_or] at hwords
      rw [if_pos hzero] at hfreed
      refine agrees_of_some ?_ ?_ (hmoved.inv h) (hmoved.store_eq h hb rfl)
      · rw [OnceStore.put_of_needs hneeds hfreed, OnceStore.blockAfter, OnceStore.words, hblock,
          hsome, hwords]
        rfl
      · rw [hwrite, hfree]
        simp only
        rw [attempts_of_verified hk']
        · rfl
        · exact hwords
  · intro heq
    apply hclash
    have hat := congrFun (hround.block.symm.trans heq) (putAt offset data).word
    rwa [Function.update_self, Function.update_self] at hat

/-- One word is written as the store writes it: into the block that has it, or into a fresh one; and
without a fresh one the function fails. The last block of the EEPROM cannot be moved. -/
theorem eFuseWriteRegisters_agrees (hw : Hardware chip) (data : UInt16) (h : Inv chip c)
    (heven : offset % 2 = 0) (hlt : offset < 1024)
    (hlast : offset / 16 = 63 → (store hw c).clashes Fits (putAt offset data) = false) :
    Agrees hw c offset data := by
  cases hfind : hw.find c (offset / 16) with
  | none => exact agrees_of_missing h heven hlt hfind
  | some k =>
    by_cases hfits : Fits (wordsOf c k (putAt offset data).word) data
    · exact agrees_of_fits h heven hlt hfind hfits
    · have hb : offset / 16 < 64 := by omega
      refine agrees_of_clash h heven hlt hfind hfits (Nat.lt_of_le_of_ne (by omega) fun heq => ?_)
      have hfit := hlast heq
      have hsome : (store hw c).block ⟨offset / 16, hb⟩ = some (wordsOf c k) := by
        simp only [store, hfind, Option.map_some]
      have hvalue : (putAt offset data).value = data := rfl
      rw [OnceStore.clashes, putAt_block data hlt hb, hsome, Option.any_some, hvalue,
        decide_eq_false hfits] at hfit
      exact Bool.false_ne_true hfit.symm

end Cases
end Word
end Rt5572.EFuse
