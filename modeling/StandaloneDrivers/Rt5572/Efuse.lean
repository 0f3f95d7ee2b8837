import StandaloneDrivers.Foundations.Bytes
import Mathlib.Data.Fintype.Card
import Mathlib.Logic.Function.Basic
import Mathlib.Data.List.Find

/-! The efuse (common/ee_efuse.c): blocks of 16 bytes, and a map with one byte for each of them that
names the block of the EEPROM that it stands for. A bit can be set and never be cleared. -/
namespace Rt5572.EFuse
open Foundations

/-- The words of the efuse: the one at an even address of twice the index. -/
abbrev Content : Type := ℕ → UInt16

/-- The place of the map, `EFUSE_USAGE_MAP_START` and `EFUSE_USAGE_MAP_END`, behind the blocks. -/
structure Chip where
  mapStart : ℕ
  mapEnd : ℕ
  start_le : mapStart ≤ mapEnd
  end_lt : mapEnd < 1022
  blocks_le : 16 * (mapEnd + 1 - mapStart) ≤ mapStart

def Chip.entries (chip : Chip) : ℕ := chip.mapEnd + 1 - chip.mapStart

section Words

def lowByte (w : UInt16) : UInt8 := w.toUInt8

def highByte (w : UInt16) : UInt8 := (w >>> 8).toUInt8

def byteOf (w : UInt16) (i : ℕ) : UInt8 := if i % 2 = 0 then lowByte w else highByte w

def byteAt (c : Content) (addr : ℕ) : UInt8 := byteOf (c (addr / 2)) addr

end Words

section Map

def bit (a : UInt8) (i : ℕ) : Bool := a.toNat.testBit i

/-- Bits 6 and 7 of a byte of the map are the parities of the four bits at each end of the others. -/
def parityOk (a : UInt8) : Bool :=
  bit a 6 == !(bit a 0 ^^ bit a 1 ^^ bit a 2 ^^ bit a 3) &&
    bit a 7 == !(bit a 2 ^^ bit a 3 ^^ bit a 4 ^^ bit a 5)

/-- A byte of the map has correct parity and names a block of the EEPROM. -/
def names (a : UInt8) (block : ℕ) : Bool := parityOk a && (a &&& 0x3F).toNat = block

variable (chip : Chip)

def mapByte (c : Content) (blkNum : ℕ) : UInt8 := byteAt c (chip.mapStart + blkNum)

/-- How the chip looks for the block of a logical read: `EFSROM_AOUT`, where `0x3f` is none. -/
structure Hardware where
  find : Content → ℕ → Option ℕ
  found : ∀ c block k, find c block = some k →
    k < chip.entries ∧ names (mapByte chip c k) block = true
  missing : ∀ c block, find c block = none →
    ∀ k < chip.entries, names (mapByte chip c k) block = false

end Map

section Registers
variable {chip : Chip} (hw : Hardware chip)

/-- `eFuseReadRegisters` for one word: the word and `EFSROM_AOUT`. `EFSROM_AIN` has 10 bits. -/
def eFuseReadRegisters (c : Content) (offset : ℕ) : UInt16 × ℕ :=
  match hw.find c (offset % 1024 / 16) with
  | none => (0xffff, 0x3f)
  | some k => (c (8 * k + offset % 16 / 2), k)

/-- `eFusePhysicalReadRegisters` for one word -/
def eFusePhysicalReadRegisters (c : Content) (offset : ℕ) : UInt16 := c (offset % 1024 / 2)

/-- `eFusePhysicalWriteRegisters` for one word: the block is read, and it is programmed with the word
in the place of the one it has. -/
def eFusePhysicalWriteRegisters (c : Content) (offset : ℕ) (data : UInt16) : Content :=
  let block := offset % 1024 / 16
  let buffer := Function.update (fun i : ℕ => c (8 * block + i)) (offset % 16 / 2) data
  fun i => if i / 8 = block then c i ||| buffer (i % 8) else c i

end Registers

section Write
variable (chip : Chip)

/-- `StartBlock` -/
def startBlock : ℕ := if chip.mapEnd % 2 ≠ 0 then chip.mapEnd - 1 else chip.mapEnd

/-- `EndBlock` -/
def endBlock : ℕ := if chip.mapStart % 2 ≠ 0 then chip.mapStart - 1 else chip.mapStart

/-- The search for a byte of the map that is not used, from its end on, two bytes at a time: the
block of the byte. -/
def freeEntry (c : Content) : Option ℕ :=
  (List.range ((startBlock chip - endBlock chip) / 2 + 1)).findSome? fun n =>
    let i := startBlock chip - 2 * n
    let logicalAddress := eFusePhysicalReadRegisters c i
    if highByte logicalAddress = 0 ∧ i ≠ chip.mapEnd then some (i + 1 - chip.mapStart)
    else if lowByte logicalAddress = 0 ∧ i ≠ chip.mapStart - 1 then some (i - chip.mapStart)
    else none

/-- The bit of a word, as a word. -/
def bitWord (w i : UInt16) : UInt16 := w >>> i &&& 0x01

/-- The byte of the map for an address of the EEPROM shifted by four. -/
def mapTag (tmpOffset : UInt16) : UInt16 :=
  let parity := bitWord tmpOffset 0 ^^^ bitWord tmpOffset 1 ^^^ bitWord tmpOffset 2 ^^^
    bitWord tmpOffset 3
  let tmpOffset := tmpOffset ||| (~~~parity <<< 6 &&& 0x40)
  let parity := bitWord tmpOffset 2 ^^^ bitWord tmpOffset 3 ^^^ bitWord tmpOffset 4 ^^^
    bitWord tmpOffset 5
  tmpOffset ||| (~~~parity <<< 7 &&& 0x80)

/-- Step 4 of `eFuseWriteRegisters`: the byte of the map is written. -/
def writeMapping (c : Content) (offset blkNum : ℕ) : Content :=
  let addr := chip.mapStart + blkNum
  let tmpOffset := mapTag (UInt16.ofNat offset >>> 4)
  eFusePhysicalWriteRegisters c (addr - addr % 2)
    (if addr % 2 ≠ 0 then tmpOffset <<< 8 else tmpOffset)

/-- The first of some bits that is clear is set. -/
def setFirstClear (bits : List ℕ) (w : UInt16) : UInt16 :=
  match bits.find? fun i => bitWord w (UInt16.ofNat i) = 0 with
  | some i => w ||| 0x1 <<< UInt16.ofNat i
  | none => w

/-- Step 6: the byte of the map is invalidated. The loop for a high byte does not come to bit 15. -/
def invalidate (c : Content) (blkNum : ℕ) : Content :=
  let addr := chip.mapStart + blkNum
  let word := eFusePhysicalReadRegisters c (addr - addr % 2)
  eFusePhysicalWriteRegisters c (addr - addr % 2)
    (setFirstClear (if addr % 2 ≠ 0 then [8, 9, 10, 11, 12, 13, 14] else [0, 1, 2, 3, 4, 5, 6, 7])
      word)

/-- What a write leaves: the efuse, what the function returns, and whether the words are there. -/
structure Outcome where
  content : Content
  status : Bool
  success : Bool

/-- Step 5: the block is compared with the buffer. -/
def verify (c : Content) (blkNum : ℕ) (buffer : Fin 8 → UInt16) : Bool :=
  decide (∀ i : Fin 8, buffer i = eFusePhysicalReadRegisters c (16 * blkNum + 2 * i))

/-- Step 3 after a failure: the whole buffer is written. -/
def writeWhole (c : Content) (blkNum : ℕ) (buffer : Fin 8 → UInt16) : Content :=
  (List.finRange 8).foldl
    (fun c (i : Fin 8) => eFusePhysicalWriteRegisters c (16 * blkNum + 2 * i) (buffer i)) c

/-- The loop of `eFuseWriteRegisters`, which makes two rounds at most: it returns `TRUE` after the
second one whether that succeeded or not. -/
def attempts (offset : ℕ) (data : UInt16) (buffer : Fin 8 → UInt16) :
    ℕ → Bool → ℕ → Content → Outcome
  | 0, _, _, c => ⟨c, true, false⟩
  | rounds + 1, whole, blkNum, c =>
    let c := if whole then writeWhole c blkNum buffer
      else eFusePhysicalWriteRegisters c (16 * blkNum + offset % 16) data
    let c := writeMapping chip c offset blkNum
    if verify c blkNum buffer then ⟨c, true, true⟩
    else match freeEntry chip c with
      | none => ⟨c, false, false⟩
      | some new => attempts offset data buffer rounds true new (invalidate chip c blkNum)

variable {chip} (hw : Hardware chip)

/-- `eFuseWriteRegisters`, for the word at an even offset. -/
def eFuseWriteRegisters (c : Content) (offset : ℕ) (data : UInt16) : Outcome :=
  let aout := (eFuseReadRegisters hw c (offset - offset % 2)).2
  match if aout = 0x3f then freeEntry chip c else some aout with
  | none => ⟨c, false, false⟩
  | some blkNum =>
    let buffer := Function.update
      (fun i : Fin 8 => eFusePhysicalReadRegisters c (16 * blkNum + 2 * i))
      ⟨offset / 2 % 8, Nat.mod_lt _ (by decide)⟩ data
    attempts chip offset data buffer 2 false blkNum c

end Write

/-! The map of the efuse: what a byte of it names, how the search finds one that is not used, and what
writing and invalidating a byte change. -/

section Bytes

theorem lowByte_or (x y : UInt16) : lowByte (x ||| y) = lowByte x ||| lowByte y :=
  UInt16.toUInt8_or x y

theorem highByte_or (x y : UInt16) : highByte (x ||| y) = highByte x ||| highByte y := by
  rw [highByte, UInt16.shiftRight_or, UInt16.toUInt8_or]
  rfl

theorem highByte_shiftLeft (x : UInt16) : highByte (x <<< 8) = lowByte x := by
  apply UInt8.toNat_inj.mp
  simp [highByte, lowByte, Nat.shiftLeft_eq, Nat.shiftRight_eq_div_pow]
  omega

theorem lowByte_shiftLeft (x : UInt16) : lowByte (x <<< 8) = 0 := by
  apply UInt8.toNat_inj.mp
  simp [lowByte, Nat.shiftLeft_eq]

theorem byteOf_or (x y : UInt16) (i : ℕ) : byteOf (x ||| y) i = byteOf x i ||| byteOf y i := by
  rw [byteOf, byteOf, byteOf]
  split_ifs
  · exact lowByte_or x y
  · exact highByte_or x y

theorem bit_lowByte {w : UInt16} {i : ℕ} (h : i < 8) : bit (lowByte w) i = w.toNat.testBit i := by
  rw [bit, lowByte, UInt16.toNat_toUInt8, Nat.testBit_mod_two_pow, decide_eq_true h, Bool.true_and]

theorem bit_highByte {w : UInt16} {i : ℕ} (h : i < 8) :
    bit (highByte w) i = w.toNat.testBit (i + 8) := by
  rw [bit, highByte, UInt16.toNat_toUInt8, Nat.testBit_mod_two_pow, UInt16.toNat_shiftRight,
    decide_eq_true h, Bool.true_and, Nat.testBit_shiftRight, Nat.add_comm]
  rfl

theorem bitWord_eq_zero_iff {w : UInt16} {i : ℕ} (h : i < 16) :
    bitWord w (UInt16.ofNat i) = 0 ↔ w.toNat.testBit i = false := by
  rw [bitWord, ← UInt16.toNat_inj, UInt16.toNat_and, UInt16.toNat_shiftRight]
  simp [Nat.testBit, Nat.mod_eq_of_lt h, Nat.and_one_is_mod]

/-- The first of some bits of a byte that is clear is set. -/
def setFirstClearByte (bits : List ℕ) (a : UInt8) : UInt8 :=
  match bits.find? fun i => !bit a i with
  | some i => a ||| 0x1 <<< UInt8.ofNat i
  | none => a

theorem setFirstClear_low (bits : List ℕ) (h : ∀ i ∈ bits, i < 8) (w : UInt16) :
    lowByte (setFirstClear bits w) = setFirstClearByte bits (lowByte w) ∧
      highByte (setFirstClear bits w) = highByte w := by
  have hshift : ∀ i < 8, lowByte (0x1 <<< UInt16.ofNat i) = 0x1 <<< UInt8.ofNat i ∧
      highByte (0x1 <<< UInt16.ofNat i) = 0 := by decide
  have hfind : bits.find? (fun i => decide (bitWord w (UInt16.ofNat i) = 0)) =
      bits.find? fun i => !bit (lowByte w) i := by
    apply List.find?_congr
    intro i hi
    have hlt := h i hi
    have hiff := bitWord_eq_zero_iff (w := w) (Nat.lt_trans hlt (by decide : 8 < 16))
    simp only [bit_lowByte hlt, hiff, Bool.decide_eq_false]
  rw [setFirstClear, setFirstClearByte, hfind]
  cases hresult : bits.find? fun i => !bit (lowByte w) i with
  | none => exact ⟨rfl, rfl⟩
  | some i =>
    obtain ⟨hlow, hhigh⟩ := hshift i (h i (List.mem_of_find?_eq_some hresult))
    simp only [lowByte_or, highByte_or, hlow, hhigh, UInt8.or_zero, and_self]

theorem setFirstClear_high (bits : List ℕ) (h : ∀ i ∈ bits, i < 8) (w : UInt16) :
    highByte (setFirstClear (bits.map (· + 8)) w) = setFirstClearByte bits (highByte w) ∧
      lowByte (setFirstClear (bits.map (· + 8)) w) = lowByte w := by
  have hshift : ∀ i < 8, highByte (0x1 <<< UInt16.ofNat (i + 8)) = 0x1 <<< UInt8.ofNat i ∧
      lowByte (0x1 <<< UInt16.ofNat (i + 8)) = 0 := by decide
  have hfind : (bits.map (· + 8)).find? (fun i => decide (bitWord w (UInt16.ofNat i) = 0)) =
      (bits.find? fun i => !bit (highByte w) i).map (· + 8) := by
    rw [List.find?_map]
    congr 1
    apply List.find?_congr
    intro i hi
    have hlt := h i hi
    have hiff := bitWord_eq_zero_iff (w := w) (Nat.add_lt_add_right hlt 8)
    simp only [bit_highByte hlt, Function.comp_apply, hiff, Bool.decide_eq_false]
  rw [setFirstClear, setFirstClearByte, hfind]
  cases hresult : bits.find? fun i => !bit (highByte w) i with
  | none => exact ⟨rfl, rfl⟩
  | some i =>
    obtain ⟨hhigh, hlow⟩ := hshift i (h i (List.mem_of_find?_eq_some hresult))
    simp only [Option.map_some, lowByte_or, highByte_or, hlow, hhigh, UInt8.or_zero, and_self]

end Bytes

section Names
variable {a : UInt8} {m n : ℕ}

/-- The byte that `eFuseWriteRegisters` writes for a block. -/
def tagByte (block : ℕ) : UInt8 := lowByte (mapTag (UInt16.ofNat block))

theorem names_unique (hm : names a m = true) (hn : names a n = true) : m = n := by
  rw [names, Bool.and_eq_true, decide_eq_true_eq] at hm hn
  exact hm.2.symm.trans hn.2

theorem names_zero (n : ℕ) : names 0 n = false := rfl

theorem names_tagByte : ∀ n < 64, names (tagByte n) n = true ∧
    highByte (mapTag (UInt16.ofNat n)) = 0 := by decide

theorem tagByte_ne_zero (h : n < 64) : tagByte n ≠ 0 := by
  intro hzero
  have hnames := (names_tagByte n h).1
  rw [hzero, names_zero] at hnames
  exact Bool.false_ne_true hnames

/-- A byte with correct parity is the one that is written for the block that it names. -/
theorem eq_tagByte (h : names a n = true) : a = tagByte n := by
  have hall : ∀ a : UInt8, parityOk a = true → a = tagByte (a &&& 0x3F).toNat := by
    apply byte_cases
    decide +kernel
  rw [names, Bool.and_eq_true, decide_eq_true_eq] at h
  rw [← h.2]
  exact hall a h.1

/-- Setting the first bit that is clear breaks the parity, but for the last block: all bits of its
byte are set. -/
theorem setFirstClearByte_tagByte : ∀ n < 63,
    (parityOk (setFirstClearByte [0, 1, 2, 3, 4, 5, 6, 7] (tagByte n)) = false ∧
      setFirstClearByte [0, 1, 2, 3, 4, 5, 6, 7] (tagByte n) ≠ 0) ∧
    (parityOk (setFirstClearByte [0, 1, 2, 3, 4, 5, 6] (tagByte n)) = false ∧
      setFirstClearByte [0, 1, 2, 3, 4, 5, 6] (tagByte n) ≠ 0) := by decide +kernel

end Names

section Writes
variable {chip : Chip} {c : Content} {i j k v : ℕ}

/-- Writing a word sets the bits of the word, and nothing else. -/
theorem eFusePhysicalWriteRegisters_eq (c : Content) (offset : ℕ) (data : UInt16) :
    eFusePhysicalWriteRegisters c offset data =
      Function.update c (offset % 1024 / 2) (c (offset % 1024 / 2) ||| data) := by
  funext i
  simp only [eFusePhysicalWriteRegisters]
  by_cases hblock : i / 8 = offset % 1024 / 16
  · rw [if_pos hblock]
    by_cases hi : i = offset % 1024 / 2
    · have hword : i % 8 = offset % 16 / 2 := by omega
      rw [hi, Function.update_self, ← hi, hword, Function.update_self]
    · have hword : i % 8 ≠ offset % 16 / 2 := by omega
      have hplace : 8 * (offset % 1024 / 16) + i % 8 = i := by omega
      rw [Function.update_of_ne hi, Function.update_of_ne hword, hplace, UInt16.or_self]
  · have hi : i ≠ offset % 1024 / 2 := by omega
    rw [if_neg hblock, Function.update_of_ne hi]

theorem entries_bound (chip : Chip) : 16 * chip.entries ≤ chip.mapStart ∧
    chip.mapStart + chip.entries < 1023 ∧ chip.entries ≤ 60 := by
  have hstart := chip.start_le
  have hend := chip.end_lt
  have hblocks := chip.blocks_le
  unfold Chip.entries
  omega

/-- Writing a byte of the map: the other bytes of the map and the blocks keep theirs. -/
theorem mapByte_write_map {c' : Content} {word : UInt16}
    (hwrite : c' = Function.update c ((chip.mapStart + k) / 2) word)
    (hother : byteOf word (chip.mapStart + k + 1) =
      byteOf (c ((chip.mapStart + k) / 2)) (chip.mapStart + k + 1)) :
    (∀ j < chip.entries, mapByte chip c' j =
      if j = k then byteOf word (chip.mapStart + k) else mapByte chip c j) ∧
    ∀ i < 8 * chip.entries, c' i = c i := by
  subst hwrite
  have hbound := entries_bound chip
  constructor
  · intro j _
    by_cases hjk : j = k
    · rw [if_pos hjk, hjk, mapByte, byteAt, Function.update_self]
    · rw [if_neg hjk, mapByte, mapByte, byteAt, byteAt]
      by_cases hword : (chip.mapStart + j) / 2 = (chip.mapStart + k) / 2
      · have hparity : ∀ x : UInt16,
            byteOf x (chip.mapStart + j) = byteOf x (chip.mapStart + k + 1) := by
          intro x
          have hmod : (chip.mapStart + j) % 2 = (chip.mapStart + k + 1) % 2 := by omega
          rw [byteOf, byteOf, hmod]
        rw [hword, Function.update_self, hparity, hparity, hother]
      · rw [Function.update_of_ne hword]
  · intro i hi
    have hne : i ≠ (chip.mapStart + k) / 2 := by omega
    exact Function.update_of_ne hne _ _

/-- The word of the map that holds a byte. -/
theorem map_address (hk : k < chip.entries) :
    (chip.mapStart + k - (chip.mapStart + k) % 2) % 1024 / 2 = (chip.mapStart + k) / 2 := by
  have hbound := entries_bound chip
  omega

theorem writeMapping_spec {block : ℕ} (hk : k < chip.entries) (hblock : block < 64) {offset : ℕ}
    (hoffset : offset / 16 = block) (hlt : offset < 1024) (c : Content) :
    (∀ j < chip.entries, mapByte chip (writeMapping chip c offset k) j =
      if j = k then mapByte chip c k ||| tagByte block else mapByte chip c j) ∧
    ∀ i < 8 * chip.entries, writeMapping chip c offset k i = c i := by
  have htag : UInt16.ofNat offset >>> 4 = UInt16.ofNat block := by
    apply UInt16.toNat_inj.mp
    simp [Nat.shiftRight_eq_div_pow]
    omega
  obtain ⟨-, hhigh⟩ := names_tagByte block hblock
  have hwrite : writeMapping chip c offset k =
      Function.update c ((chip.mapStart + k) / 2) (c ((chip.mapStart + k) / 2) |||
        if (chip.mapStart + k) % 2 ≠ 0 then mapTag (UInt16.ofNat block) <<< 8
        else mapTag (UInt16.ofNat block)) := by
    simp only [writeMapping, eFusePhysicalWriteRegisters_eq, map_address hk, htag]
  have hbytes : ∀ i, byteOf (if (chip.mapStart + k) % 2 ≠ 0 then mapTag (UInt16.ofNat block) <<< 8
      else mapTag (UInt16.ofNat block)) i =
        if i % 2 = (chip.mapStart + k) % 2 then tagByte block else 0 := by
    intro i
    rcases Nat.mod_two_eq_zero_or_one (chip.mapStart + k) with haddr | haddr <;>
      rcases Nat.mod_two_eq_zero_or_one i with hi | hi <;>
      simp only [byteOf, haddr, hi, ne_eq, one_ne_zero, zero_ne_one, not_true_eq_false,
        not_false_eq_true, if_true, if_false, lowByte_shiftLeft, highByte_shiftLeft, hhigh, tagByte]
  obtain ⟨hmap, hdata⟩ := mapByte_write_map hwrite (by
    rw [byteOf_or, hbytes, if_neg (by omega), UInt8.or_zero])
  refine ⟨fun j hj => ?_, hdata⟩
  rw [hmap j hj, byteOf_or, hbytes, if_pos rfl]
  rfl

theorem or_setFirstClearByte (bits : List ℕ) (a : UInt8) :
    a ||| setFirstClearByte bits a = setFirstClearByte bits a := by
  rw [setFirstClearByte]
  cases bits.find? fun i => !bit a i with
  | none => exact UInt8.or_self
  | some i => rw [← UInt8.or_assoc, UInt8.or_self]

/-- The byte of a block but the last one is left with a parity that is not correct. -/
theorem invalidate_spec {block : ℕ} (hk : k < chip.entries) (hblock : block < 63)
    (hbyte : mapByte chip c k = tagByte block) :
    ∃ dead, parityOk dead = false ∧ dead ≠ 0 ∧
      (∀ j < chip.entries, mapByte chip (invalidate chip c k) j =
        if j = k then dead else mapByte chip c j) ∧
      ∀ i < 8 * chip.entries, invalidate chip c k i = c i := by
  obtain ⟨hlow, hhigh⟩ := setFirstClearByte_tagByte block hblock
  have hword : eFusePhysicalReadRegisters c (chip.mapStart + k - (chip.mapStart + k) % 2) =
      c ((chip.mapStart + k) / 2) := by
    rw [eFusePhysicalReadRegisters, map_address hk]
  rcases Nat.mod_two_eq_zero_or_one (chip.mapStart + k) with haddr | haddr
  · obtain ⟨hset, hkept⟩ := setFirstClear_low [0, 1, 2, 3, 4, 5, 6, 7] (by decide)
      (c ((chip.mapStart + k) / 2))
    have hlowByte : lowByte (c ((chip.mapStart + k) / 2)) = tagByte block := by
      rw [← hbyte, mapByte, byteAt, byteOf, if_pos haddr]
    have hwrite : invalidate chip c k = Function.update c ((chip.mapStart + k) / 2)
        (c ((chip.mapStart + k) / 2) |||
          setFirstClear [0, 1, 2, 3, 4, 5, 6, 7] (c ((chip.mapStart + k) / 2))) := by
      have heven : ¬(chip.mapStart + k) % 2 ≠ 0 := not_not_intro haddr
      simp only [invalidate, eFusePhysicalWriteRegisters_eq, hword, map_address hk, if_neg heven]
    obtain ⟨hmap, hdata⟩ := mapByte_write_map hwrite (by
      rw [byteOf, if_neg (by omega), byteOf, if_neg (by omega), highByte_or, hkept, UInt8.or_self])
    refine ⟨_, hlow.1, hlow.2, fun j hj => ?_, hdata⟩
    rw [hmap j hj, byteOf, if_pos haddr, lowByte_or, hset, hlowByte, or_setFirstClearByte]
  · have hodd : ¬(chip.mapStart + k) % 2 = 0 := by omega
    obtain ⟨hset, hkept⟩ := setFirstClear_high [0, 1, 2, 3, 4, 5, 6] (by decide)
      (c ((chip.mapStart + k) / 2))
    have hhighByte : highByte (c ((chip.mapStart + k) / 2)) = tagByte block := by
      rw [← hbyte, mapByte, byteAt, byteOf, if_neg hodd]
    have hwrite : invalidate chip c k = Function.update c ((chip.mapStart + k) / 2)
        (c ((chip.mapStart + k) / 2) |||
          setFirstClear ([0, 1, 2, 3, 4, 5, 6].map (· + 8)) (c ((chip.mapStart + k) / 2))) := by
      rw [invalidate]
      simp only [eFusePhysicalWriteRegisters_eq, hword, map_address hk, ne_eq, hodd,
        not_false_eq_true, if_true]
      rfl
    obtain ⟨hmap, hdata⟩ := mapByte_write_map hwrite (by
      rw [byteOf, if_pos (by omega), byteOf, if_pos (by omega), lowByte_or, hkept, UInt8.or_self])
    refine ⟨_, hhigh.1, hhigh.2, fun j hj => ?_, hdata⟩
    rw [hmap j hj, byteOf, if_neg hodd, highByte_or, hset, hhighByte, or_setFirstClearByte]

theorem search_bounds (chip : Chip) : chip.mapStart - 1 ≤ endBlock chip ∧
    endBlock chip ≤ chip.mapStart ∧ startBlock chip ≤ chip.mapEnd ∧
    chip.mapEnd ≤ startBlock chip + 1 ∧ startBlock chip % 2 = 0 ∧ endBlock chip % 2 = 0 ∧
    (startBlock chip = chip.mapEnd ∨ startBlock chip + 1 = chip.mapEnd) := by
  have hstart := chip.start_le
  have hbound := entries_bound chip
  unfold startBlock endBlock
  split_ifs <;> omega

/-- The two bytes of the map that the search looks at in one round. -/
theorem search_bytes (chip : Chip) (c : Content) {i : ℕ} (heven : i % 2 = 0) (hlt : i < 1024)
    (hfirst : chip.mapStart - 1 ≤ i) (hpos : 0 < chip.mapStart) :
    highByte (eFusePhysicalReadRegisters c i) = mapByte chip c (i + 1 - chip.mapStart) ∧
      (i ≠ chip.mapStart - 1 →
        lowByte (eFusePhysicalReadRegisters c i) = mapByte chip c (i - chip.mapStart)) := by
  have hword : i % 1024 / 2 = i / 2 := by omega
  rw [eFusePhysicalReadRegisters, hword]
  constructor
  · have haddr : chip.mapStart + (i + 1 - chip.mapStart) = i + 1 := by omega
    have hhalf : (i + 1) / 2 = i / 2 := by omega
    rw [mapByte, byteAt, haddr, hhalf, byteOf, if_neg (by omega)]
  · intro hne
    have haddr : chip.mapStart + (i - chip.mapStart) = i := by omega
    rw [mapByte, byteAt, haddr, byteOf, if_pos heven]

/-- The search finds a byte of the map that is zero if there is one. -/
theorem freeEntry_spec (chip : Chip) (c : Content) :
    (∀ k, freeEntry chip c = some k → k < chip.entries ∧ mapByte chip c k = 0) ∧
      (freeEntry chip c = none → ∀ k < chip.entries, mapByte chip c k ≠ 0) := by
  have hbound := entries_bound chip
  have hstart := chip.start_le
  have hend := chip.end_lt
  have hentries : chip.entries = chip.mapEnd + 1 - chip.mapStart := rfl
  obtain ⟨h1, h2, h3, h4, h5, h6, h7⟩ := search_bounds chip
  constructor
  · intro k hk
    obtain ⟨n, hn, hround⟩ := List.exists_of_findSome?_eq_some hk
    have hn := List.mem_range.mp hn
    obtain ⟨hhigh, hlow⟩ := search_bytes chip c (i := startBlock chip - 2 * n)
      (by omega) (by omega) (by omega) (by omega)
    simp only at hround
    split_ifs at hround with hfree hfree'
    · obtain rfl := Option.some.inj hround
      exact ⟨by omega, hhigh ▸ hfree.1⟩
    · obtain rfl := Option.some.inj hround
      exact ⟨by omega, hlow hfree'.2 ▸ hfree'.1⟩
  · intro hnone k hk hzero
    have hrounds := List.findSome?_eq_none_iff.mp hnone
    let addr := chip.mapStart + k
    have hround := hrounds ((startBlock chip - (addr - addr % 2)) / 2)
      (List.mem_range.mpr (by omega))
    have hi : startBlock chip - 2 * ((startBlock chip - (addr - addr % 2)) / 2) =
      addr - addr % 2 := by omega
    simp only [hi] at hround
    obtain ⟨hhigh, hlow⟩ := search_bytes chip c (i := addr - addr % 2)
      (by omega) (by omega) (by omega) (by omega)
    split_ifs at hround with hfree hfree'
    rcases Nat.mod_two_eq_zero_or_one addr with haddr | haddr
    · apply hfree'
      have hplace : addr - addr % 2 - chip.mapStart = k := by omega
      have hne : addr - addr % 2 ≠ chip.mapStart - 1 := by omega
      rw [hlow hne, hplace]
      exact ⟨hzero, hne⟩
    · apply hfree
      have hplace : addr - addr % 2 + 1 - chip.mapStart = k := by omega
      rw [hhigh, hplace]
      exact ⟨hzero, by omega⟩

end Writes

end Rt5572.EFuse
