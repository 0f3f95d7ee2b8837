import StandaloneDrivers.Foundations.Run
import StandaloneDrivers.Rt5572.EfuseWords

/-! `eFuseWrite` (common/ee_efuse.c): bytes of the EEPROM are written word by word, and when they read
back as they should after every call of a run. -/
namespace Rt5572.EFuse
open Foundations

/-- A call of `eFuseWrite`. `length` bytes of the words from `pData` on are the data; an address of
the EEPROM has 10 bits. `behind` is what lies behind the two words of `OddWriteByteBuf`, if these
could be allocated. -/
structure Request where
  offset : ℕ
  length : ℕ
  pData : ℕ → UInt16
  allocated : Bool
  behind : ℕ → UInt16
  inRange : offset + length ≤ 1024

section Code
variable {chip : Chip} (hw : Hardware chip)

/-- The words of `OddWriteByteBuf`, and what is behind them. -/
def oddWriteByteBuf (c : Content) (x : Request) : ℕ → UInt16
  | 0 =>
    let kept : UInt16 := (eFuseReadRegisters hw c (x.offset - 1)).1 &&& (0x00ff : UInt16)
    let data : UInt16 := x.pData 0 &&& (0xff : UInt16)
    kept ||| data <<< 8
  | 1 =>
    let kept : UInt16 := (eFuseReadRegisters hw c (x.offset - 1 + 2)).1 &&& (0xff00 : UInt16)
    let data : UInt16 := x.pData 0 &&& (0xff00 : UInt16)
    kept ||| data >>> 8
  | n + 2 => x.behind n

/-- `Offset` and `length` in the loop, and `pValueX`. -/
def loopValues (c : Content) (x : Request) : ℕ × ℕ × (ℕ → UInt16) :=
  if x.offset % 2 ≠ 0 then (x.offset - 1, x.length + 2, oddWriteByteBuf hw c x)
  else (x.offset, x.length, x.pData)

/-- The words that the loop writes, with their offsets. -/
def loopWords (c : Content) (x : Request) : List (ℕ × UInt16) :=
  let (offset, length, pValueX) := loopValues hw c x
  (List.range ((length + 1) / 2)).map fun i => (offset + 2 * i, pValueX i)

/-- A round of the loop: what `eFuseWriteRegisters` returns is not looked at. -/
def writeRound (o : Outcome) (word : ℕ × UInt16) : Outcome :=
  let r := eFuseWriteRegisters hw o.content word.1 word.2
  ⟨r.content, o.status, o.success && r.success⟩

/-- `eFuseWrite` -/
def eFuseWrite (c : Content) (x : Request) : Outcome :=
  if x.allocated then (loopWords hw c x).foldl (writeRound hw) ⟨c, true, true⟩
  else ⟨c, false, false⟩

end Code

section Specification
variable {chip : Chip} (hw : Hardware chip)

/-- A byte of the EEPROM, as it is read. -/
def logicalByte (c : Content) (addr : ℕ) : UInt8 :=
  byteOf (eFuseReadRegisters hw c (addr - addr % 2)).1 addr

namespace Request
variable (x : Request)

def Covers (addr : ℕ) : Prop := x.offset ≤ addr ∧ addr < x.offset + x.length

instance : DecidablePred x.Covers := fun _ => inferInstanceAs (Decidable (_ ∧ _))

def dataByte (i : ℕ) : UInt8 := byteOf (x.pData (i / 2)) i

/-- What a byte of the EEPROM should read after the call. -/
def wanted (c : Content) (addr : ℕ) : UInt8 :=
  if x.Covers addr then x.dataByte (addr - x.offset) else logicalByte hw c addr

/-- A block to which the call writes needs a byte of the map: it has none, or a bit would have to be
cleared. -/
def needsEntry (c : Content) (block : ℕ) : Bool :=
  (List.range x.length).any fun i => (x.offset + i) / 16 = block &&
    (decide (hw.find c block = none) ||
      logicalByte hw c (x.offset + i) ||| x.dataByte i != x.dataByte i)

/-- There is a byte of the map for each block that needs one. -/
def EntriesExist (c : Content) : Prop :=
  (Finset.univ.filter fun block : Fin 64 => x.needsEntry hw c block = true).card ≤
    freeEntries chip c

/-- If there are bytes of the map for the blocks that need one, every byte of the EEPROM reads as it
should; and a word that could not be written is reported. -/
def Sound (c : Content) : Prop :=
  (x.EntriesExist hw c →
    ∀ addr < 1024, logicalByte hw (eFuseWrite hw c x).content addr = x.wanted hw c addr) ∧
  ((eFuseWrite hw c x).success = false → (eFuseWrite hw c x).status = false)

/-- Whole words from an even address on, or the two bytes that `OddWriteByteBuf` has room for. -/
def Aligned : Prop := x.offset % 2 = 0 ∧ x.length % 2 = 0 ∨ x.offset % 2 = 1 ∧ x.length = 2

/-- The words as they are put into the store. -/
def puts (c : Content) : List (Put (Fin 64) (Fin 8) UInt16) :=
  (loopWords hw c x).map fun word => putAt word.1 word.2

/-- No bit of the last block has to be cleared. -/
def LastKept (c : Content) : Prop :=
  ∀ y ∈ x.puts hw c, y.block = 63 → (store hw c).clashes Fits y = false

/-- A block that has no byte of the map is written as a whole. -/
def BlocksWhole (c : Content) : Prop :=
  ∀ addr, x.Covers addr → hw.find c (addr / 16) = none →
    ∀ addr', addr' / 16 = addr / 16 → x.Covers addr'

/-- There is a byte of the map for each block that has none and for each word that would have to
clear a bit. -/
def EntriesSuffice (c : Content) : Prop := (store hw c).cost Fits (x.puts hw c) ≤ freeEntries chip c

/-- When a call does what it should. -/
structure Served (c : Content) : Prop where
  allocated : x.allocated = true
  aligned : x.Aligned
  lastKept : x.LastKept hw c
  blocksWhole : x.BlocksWhole hw c
  entriesSuffice : x.EntriesSuffice hw c

end Request

/-- The efuse after some calls. -/
def afterCalls (c : Content) (calls : List Request) : Content :=
  run (fun c x => (eFuseWrite hw c x).content) c calls

end Specification

section Loop
variable {chip : Chip} {hw : Hardware chip} {c : Content} {l : List (ℕ × UInt16)}

theorem writeRounds_failed (l : List (ℕ × UInt16)) {o : Outcome} (h : o.success = false) :
    (l.foldl (writeRound hw) o).success = false := by
  induction l generalizing o with
  | nil => exact h
  | cons word l ih =>
    apply ih
    rw [writeRound, h]
    rfl

theorem writeRounds_status (l : List (ℕ × UInt16)) (o : Outcome) :
    (l.foldl (writeRound hw) o).status = o.status := by
  induction l generalizing o with
  | nil => rfl
  | cons word l ih => exact ih _

/-- The loop writes the words as the store does. By induction over the words. -/
theorem writeRounds_agree (hw : Hardware chip) (h : Inv chip c) (status : Bool)
    (hwords : ∀ word ∈ l, word.1 % 2 = 0 ∧ word.1 < 1024)
    (hnodup : ((l.map fun word => putAt word.1 word.2).map Put.cell).Nodup)
    (hlast : ∀ y ∈ l.map fun word => putAt word.1 word.2, y.block = 63 →
      (store hw c).clashes Fits y = false) :
    (∀ s', OnceStore.putAll Fits 0 (l.map fun word => putAt word.1 word.2) (store hw c) = some s' →
      ∃ c', l.foldl (writeRound hw) ⟨c, status, true⟩ = ⟨c', status, true⟩ ∧ Inv chip c' ∧
        store hw c' = s') ∧
    (OnceStore.putAll Fits 0 (l.map fun word => putAt word.1 word.2) (store hw c) = none →
      (l.foldl (writeRound hw) ⟨c, status, true⟩).success = false) := by
  induction l generalizing c with
  | nil =>
    refine ⟨fun s' hs' => ?_, fun hnone => by cases hnone⟩
    cases hs'
    exact ⟨c, rfl, h, rfl⟩
  | cons word l ih =>
    obtain ⟨⟨heven, hlt⟩, hwords⟩ := List.forall_mem_cons.mp hwords
    rw [List.map_cons] at hlast hnodup
    obtain ⟨hfirst, hlast⟩ := List.forall_mem_cons.mp hlast
    obtain ⟨hcell, hnodup⟩ := List.nodup_cons.mp hnodup
    have hagrees := eFuseWriteRegisters_agrees hw word.2 h heven hlt (by
      intro heq
      apply hfirst
      apply Fin.ext
      change word.1 % 1024 / 16 = 63
      rw [Nat.mod_eq_of_lt hlt, heq])
    rw [List.map_cons, OnceStore.putAll, List.foldl_cons, writeRound]
    cases hput : (store hw c).put Fits 0 (putAt word.1 word.2) with
    | none =>
      refine ⟨(fun s' hs' => by cases hs'), fun _ => ?_⟩
      apply writeRounds_failed
      rw [hagrees.2 hput]
      rfl
    | some s₁ =>
      obtain ⟨c₁, hwrite, hinv, hstore⟩ := hagrees.1 s₁ hput
      rw [hwrite, Option.bind_some, ← hstore]
      apply ih hinv hwords hnodup
      intro y hy hblock
      rw [hstore, OnceStore.clashes_put fits_zero hput]
      · exact hlast y hy hblock
      · intro heq
        exact hcell (heq ▸ List.mem_map_of_mem hy)

end Loop

section Words
variable {chip : Chip} {hw : Hardware chip} {c c' : Content} {x : Request} {start n : ℕ}
  {value : ℕ → UInt16}

/-- The words of a call: they lie in the EEPROM, they hold all the data and nothing but the data and
what is there already, and where they fill a block the data do. -/
structure Words (hw : Hardware chip) (c : Content) (x : Request) (start n : ℕ)
    (value : ℕ → UInt16) : Prop where
  words : loopWords hw c x = (List.range n).map fun i => (start + 2 * i, value i)
  even : start % 2 = 0
  inside : start + 2 * n ≤ 1024
  holds : ∀ addr, x.Covers addr → start ≤ addr ∧ addr < start + 2 * n
  used : ∀ i < n, ∃ addr, x.Covers addr ∧ addr / 2 = start / 2 + i
  bytes : ∀ addr, start ≤ addr → addr < start + 2 * n →
    byteOf (value ((addr - start) / 2)) addr = x.wanted hw c addr
  filled : ∀ block, (∀ addr, addr / 16 = block → start ≤ addr ∧ addr < start + 2 * n) →
    ∀ addr, addr / 16 = block → x.Covers addr

theorem and_all (a : UInt8) : a &&& 0xff = a := by
  apply UInt8.toNat_inj.mp
  rw [UInt8.toNat_and]
  exact (Nat.and_two_pow_sub_one_eq_mod a.toNat 8).trans (Nat.mod_eq_of_lt a.toNat_lt)

theorem highByte_and (w v : UInt16) : highByte (w &&& v) = highByte w &&& highByte v := by
  rw [highByte, UInt16.shiftRight_and, UInt16.toUInt8_and]
  rfl

theorem highByte_shiftRight (w : UInt16) : highByte (w >>> 8) = 0 := by
  apply UInt8.toNat_inj.mp
  have hlt := w.toNat_lt
  simp [highByte, Nat.shiftRight_eq_div_pow]
  omega

/-- The two words for an odd address: a byte of the data, and one that is there already. -/
theorem oddWriteByteBuf_bytes (hw : Hardware chip) (c : Content) (x : Request) :
    (lowByte (oddWriteByteBuf hw c x 0) = lowByte (eFuseReadRegisters hw c (x.offset - 1)).1 ∧
      highByte (oddWriteByteBuf hw c x 0) = lowByte (x.pData 0)) ∧
    (lowByte (oddWriteByteBuf hw c x 1) = highByte (x.pData 0) ∧
      highByte (oddWriteByteBuf hw c x 1) =
        highByte (eFuseReadRegisters hw c (x.offset - 1 + 2)).1) := by
  have hlow : ∀ w : UInt16, lowByte (w &&& 0xff) = lowByte w :=
    fun w => (UInt16.toUInt8_and w 0xff).trans (and_all _)
  have hlow' : ∀ w : UInt16, lowByte (w &&& 0xff00) = 0 :=
    fun w => (UInt16.toUInt8_and w 0xff00).trans UInt8.and_zero
  have hhigh : ∀ w : UInt16, highByte (w &&& 0xff) = 0 :=
    fun w => (highByte_and w 0xff).trans UInt8.and_zero
  have hhigh' : ∀ w : UInt16, highByte (w &&& 0xff00) = highByte w :=
    fun w => (highByte_and w 0xff00).trans (and_all _)
  have hshift : ∀ w : UInt16, lowByte (w >>> 8) = highByte w := fun _ => rfl
  simp only [oddWriteByteBuf, lowByte_or, highByte_or, hlow, hlow', hhigh, hhigh', hshift,
    lowByte_shiftLeft, highByte_shiftLeft, highByte_shiftRight, UInt8.or_zero, UInt8.zero_or,
    and_self]

/-- Whole words from an even address on. -/
theorem words_of_even (heven : x.offset % 2 = 0) (hlength : x.length % 2 = 0) :
    Words hw c x x.offset (x.length / 2) x.pData where
  words := by
    have hcount : (x.length + 1) / 2 = x.length / 2 := by omega
    simp only [loopWords, loopValues, heven, ne_eq, not_true_eq_false, if_false, hcount]
  even := heven
  inside := by
    have hrange := x.inRange
    omega
  holds addr haddr := by
    obtain ⟨hle, hlt⟩ := haddr
    omega
  used i hi := by
    refine ⟨x.offset + 2 * i, ⟨?_, ?_⟩, ?_⟩ <;> omega
  bytes addr hle hlt := by
    have hcovers : x.Covers addr := ⟨hle, by omega⟩
    have hparity : addr % 2 = (addr - x.offset) % 2 := by omega
    rw [Request.wanted, if_pos hcovers, Request.dataByte, byteOf, byteOf, hparity]
  filled block hfull addr haddr := by
    obtain ⟨hle, hlt⟩ := hfull addr haddr
    exact ⟨hle, by omega⟩

/-- Two bytes from an odd address on. -/
theorem words_of_odd (hodd : x.offset % 2 = 1) (hlength : x.length = 2) :
    Words hw c x (x.offset - 1) 2 (oddWriteByteBuf hw c x) where
  words := by
    have hne : x.offset % 2 ≠ 0 := by omega
    simp only [loopWords, loopValues, hne, ne_eq, not_false_eq_true, if_true, hlength]
  even := by omega
  inside := by
    have hrange := x.inRange
    omega
  holds addr haddr := by
    obtain ⟨hle, hlt⟩ := haddr
    omega
  used i hi := by
    refine ⟨x.offset + i, ⟨?_, ?_⟩, ?_⟩ <;> omega
  bytes addr hle hlt := by
    obtain ⟨⟨hlow₀, hhigh₀⟩, hlow₁, hhigh₁⟩ := oddWriteByteBuf_bytes hw c x
    have hplace : addr = x.offset - 1 ∨ addr = x.offset ∨ addr = x.offset + 1 ∨
      addr = x.offset + 2 := by omega
    rw [Request.wanted]
    rcases hplace with rfl | rfl | rfl | rfl
    · have hnot : ¬x.Covers (x.offset - 1) := fun h => by
        have hle := h.1
        omega
      have heven : (x.offset - 1) % 2 = 0 := by omega
      rw [if_neg hnot, Nat.sub_self, Nat.zero_div, logicalByte, byteOf, byteOf, if_pos heven,
        if_pos heven, hlow₀, heven, Nat.sub_zero]
    · have hcovers : x.Covers x.offset := ⟨Nat.le_refl _, by omega⟩
      have hindex : (x.offset - (x.offset - 1)) / 2 = 0 := by omega
      rw [if_pos hcovers, hindex, Nat.sub_self, Request.dataByte, byteOf, byteOf,
        if_neg (by omega), if_pos (by rfl), hhigh₀]
    · have hcovers : x.Covers (x.offset + 1) := ⟨Nat.le_add_right _ _, by omega⟩
      have hindex : (x.offset + 1 - (x.offset - 1)) / 2 = 1 := by omega
      rw [if_pos hcovers, hindex, Nat.add_sub_cancel_left, Request.dataByte, byteOf, byteOf,
        if_pos (by omega), if_neg (by decide), hlow₁]
    · have hnot : ¬x.Covers (x.offset + 2) := fun h => by
        have hlt := h.2
        omega
      have hindex : (x.offset + 2 - (x.offset - 1)) / 2 = 1 := by omega
      have hbase : x.offset + 2 - (x.offset + 2) % 2 = x.offset - 1 + 2 := by omega
      rw [if_neg hnot, hindex, logicalByte, byteOf, byteOf, if_neg (by omega), if_neg (by omega),
        hhigh₁, hbase]
  filled block hfull addr haddr := by
    have hfirst := hfull (16 * block) (by omega)
    have hlast := hfull (16 * block + 15) (by omega)
    omega

theorem words_of_aligned (hw : Hardware chip) (c : Content) (h : x.Aligned) :
    ∃ start n value, Words hw c x start n value := by
  obtain ⟨heven, hlength⟩ | ⟨hodd, hlength⟩ := h
  · exact ⟨_, _, _, words_of_even heven hlength⟩
  · exact ⟨_, _, _, words_of_odd hodd hlength⟩

theorem Words.puts_eq (h : Words hw c x start n value) :
    x.puts hw c = (List.range n).map fun i => putAt (start + 2 * i) (value i) := by
  rw [Request.puts, h.words, List.map_map]
  rfl

theorem Words.mem (h : Words hw c x start n value) :
    ∀ word ∈ loopWords hw c x, word.1 % 2 = 0 ∧ word.1 < 1024 := by
  rw [h.words]
  intro word hword
  obtain ⟨i, hi, rfl⟩ := List.mem_map.mp hword
  have hi := List.mem_range.mp hi
  have heven := h.even
  have hinside := h.inside
  constructor <;> simp only <;> omega

/-- The words are different cells of the store. -/
theorem Words.nodup (h : Words hw c x start n value) : ((x.puts hw c).map Put.cell).Nodup := by
  rw [h.puts_eq, List.map_map]
  apply List.Nodup.map_on _ List.nodup_range
  intro i hi j hj heq
  have hi := List.mem_range.mp hi
  have hj := List.mem_range.mp hj
  have heven := h.even
  have hinside := h.inside
  simp only [Function.comp_apply, Put.cell, putAt, Prod.mk.injEq, Fin.mk.injEq] at heq
  omega

end Words

section Reads
variable {chip : Chip} {hw : Hardware chip} {c c' : Content} {x : Request} {start n addr : ℕ}
  {value : ℕ → UInt16} {s' : OnceStore (Fin 64) (Fin 8) UInt16}

/-- A byte of the EEPROM is read from the store; a block that is not there reads as ones. -/
theorem logicalByte_eq (hw : Hardware chip) (c : Content) (addr : ℕ) : logicalByte hw c addr =
    byteOf ((((store hw c).block (putAt addr 0).block).map (· (putAt addr 0).word)).getD 0xffff)
      addr := by
  have hblock : (addr - addr % 2) % 1024 / 16 = addr % 1024 / 16 := by omega
  have hword : (addr - addr % 2) % 16 / 2 = addr % 16 / 2 := by omega
  have hfind : (store hw c).block (putAt addr 0).block =
      (hw.find c (addr % 1024 / 16)).map (wordsOf c) := rfl
  rw [logicalByte, eFuseReadRegisters, hblock, hword, hfind]
  cases hw.find c (addr % 1024 / 16) <;> rfl

theorem store_none_iff (hlt : addr < 1024) :
    (store hw c).block (putAt addr 0).block = none ↔ hw.find c (addr / 16) = none := by
  have hfind : (store hw c).block (putAt addr 0).block =
      (hw.find c (addr % 1024 / 16)).map (wordsOf c) := rfl
  rw [hfind, Nat.mod_eq_of_lt hlt, Option.map_eq_none_iff]

/-- The word of a byte that is written. -/
theorem Words.putAt_mem (h : Words hw c x start n value) (hle : start ≤ addr)
    (hlt : addr < start + 2 * n) : ∃ y ∈ x.puts hw c, y.cell = (putAt addr 0).cell ∧
      y.value = value ((addr - start) / 2) := by
  have heven := h.even
  have hinside := h.inside
  refine ⟨putAt (start + 2 * ((addr - start) / 2)) (value ((addr - start) / 2)), ?_, ?_, rfl⟩
  · rw [h.puts_eq]
    exact List.mem_map.mpr ⟨_, List.mem_range.mpr (by omega), rfl⟩
  · simp only [Put.cell, putAt, Prod.mk.injEq, Fin.mk.injEq]
    omega

theorem Words.of_mem_cells (h : Words hw c x start n value) (hlt : addr < 1024)
    (hmem : (putAt addr 0).cell ∈ (x.puts hw c).map Put.cell) :
    start ≤ addr ∧ addr < start + 2 * n := by
  have heven := h.even
  have hinside := h.inside
  rw [h.puts_eq, List.map_map] at hmem
  obtain ⟨i, hi, heq⟩ := List.mem_map.mp hmem
  have hi := List.mem_range.mp hi
  simp only [Function.comp_apply, Put.cell, putAt, Prod.mk.injEq, Fin.mk.injEq] at heq
  omega

/-- A block in which a word is written holds a byte of the data. -/
theorem Words.of_mem_blocks (h : Words hw c x start n value) (hlt : addr < 1024)
    (hmem : (putAt addr 0).block ∈ (x.puts hw c).map Put.block) :
    ∃ addr', x.Covers addr' ∧ addr' / 16 = addr / 16 := by
  have heven := h.even
  have hinside := h.inside
  rw [h.puts_eq, List.map_map] at hmem
  obtain ⟨i, hi, heq⟩ := List.mem_map.mp hmem
  have hi := List.mem_range.mp hi
  obtain ⟨addr', hcovers, haddr'⟩ := h.used i hi
  refine ⟨addr', hcovers, ?_⟩
  simp only [Function.comp_apply, putAt, Fin.mk.injEq] at heq
  omega

/-- What a byte reads after the words were written. -/
theorem Words.reads (h : Words hw c x start n value)
    (hput : OnceStore.putAll Fits 0 (x.puts hw c) (store hw c) = some s')
    (hstore : store hw c' = s') (haddr : addr < 1024) :
    (start ≤ addr ∧ addr < start + 2 * n → logicalByte hw c' addr = x.wanted hw c addr) ∧
    (¬(start ≤ addr ∧ addr < start + 2 * n) →
      (hw.find c (addr / 16) = none →
        (putAt addr 0).block ∉ (x.puts hw c).map Put.block) →
      logicalByte hw c' addr = logicalByte hw c addr) ∧
    (¬(start ≤ addr ∧ addr < start + 2 * n) → hw.find c (addr / 16) = none →
      (putAt addr 0).block ∈ (x.puts hw c).map Put.block → logicalByte hw c' addr = 0) := by
  refine ⟨fun hwritten => ?_, fun hnot hfresh => ?_, fun hnot hnone hmem => ?_⟩
  · obtain ⟨y, hy, hcell, hvalue⟩ := h.putAt_mem hwritten.1 hwritten.2
    have hread := OnceStore.putAll_written hput h.nodup hy
    have hblock : y.block = (putAt addr 0).block := congrArg Prod.fst hcell
    have hword : y.word = (putAt addr 0).word := congrArg Prod.snd hcell
    rw [hblock, hword, hvalue] at hread
    rw [logicalByte_eq, hstore, hread, Option.getD_some, h.bytes addr hwritten.1 hwritten.2]
  · have hkept := OnceStore.putAll_kept (b := (putAt addr 0).block) (w := (putAt addr 0).word)
      hput h.nodup (fun hmem => hnot (h.of_mem_cells haddr hmem))
      (fun hnone => hfresh ((store_none_iff haddr).mp hnone))
    rw [logicalByte_eq, logicalByte_eq, hstore, hkept]
  · have hwords := (OnceStore.putAll_words hput h.nodup).2 (putAt addr 0).block (putAt addr 0).word
      fun hmem => hnot (h.of_mem_cells haddr hmem)
    obtain ⟨words, hblock⟩ :=
      Option.isSome_iff_exists.mp ((OnceStore.putAll_block hput _).mpr (Or.inr hmem))
    rw [OnceStore.words, OnceStore.words, (store_none_iff haddr).mpr hnone, hblock,
      Option.getD_some, Option.getD_none] at hwords
    rw [logicalByte_eq, hstore, hblock, Option.map_some, Option.getD_some, hwords, byteOf]
    split_ifs <;> rfl

end Reads

section Calls
variable {chip : Chip} {hw : Hardware chip} {c : Content} {x : Request}

/-- A call that can be served writes its data and nothing else. -/
theorem eFuseWrite_served (h : Inv chip c) (hx : x.Served hw c) :
    ∃ c', eFuseWrite hw c x = ⟨c', true, true⟩ ∧ Inv chip c' ∧
      ∀ addr < 1024, logicalByte hw c' addr = x.wanted hw c addr := by
  obtain ⟨start, n, value, hwords⟩ := words_of_aligned hw c hx.aligned
  have hagree := writeRounds_agree hw h true hwords.mem hwords.nodup hx.lastKept
  have hsome := (OnceStore.putAll_isSome_iff fits_zero hwords.nodup).mpr hx.entriesSuffice
  obtain ⟨s', hput⟩ := Option.isSome_iff_exists.mp hsome
  obtain ⟨c', hwrite, hinv, hstore⟩ := hagree.1 s' hput
  refine ⟨c', ?_, hinv, fun addr haddr => ?_⟩
  · rw [eFuseWrite, if_pos hx.allocated, hwrite]
  · obtain ⟨hwritten, hkept, -⟩ := hwords.reads hput hstore haddr
    by_cases hin : start ≤ addr ∧ addr < start + 2 * n
    · exact hwritten hin
    · have hnot : ¬x.Covers addr := fun hcovers => hin (hwords.holds addr hcovers)
      rw [Request.wanted, if_neg hnot]
      apply hkept hin
      intro hnone hmem
      obtain ⟨addr', hcovers, hsame⟩ := hwords.of_mem_blocks haddr hmem
      exact hnot (hx.blocksWhole addr' hcovers (hsame ▸ hnone) addr hsame.symm)

theorem Request.Served.sound (h : Inv chip c) (hx : x.Served hw c) : x.Sound hw c := by
  obtain ⟨c', hwrite, -, hreads⟩ := eFuseWrite_served h hx
  rw [Request.Sound, hwrite]
  exact ⟨fun _ => hreads, fun hfailed => nomatch hfailed⟩

end Calls

/-! Runs of calls of `eFuseWrite`: which calls do what they should at the efuse that a run leaves. -/

section Needed
variable {chip : Chip} {hw : Hardware chip} {c : Content} {x : Request} {start n : ℕ}
  {value : ℕ → UInt16}

/-- A byte that would have to be cleared is one of a word that does not fit. -/
theorem fits_byte {old new : UInt16} (h : Fits old new) (addr : ℕ) :
    byteOf old addr ||| byteOf new addr = byteOf new addr := by
  rw [← byteOf_or, h]

/-- A block that needs a byte of the map is paid for by one of the words. -/
theorem Words.needs (h : Words hw c x start n value) {block : Fin 64}
    (hblock : x.needsEntry hw c block = true) :
    ∃ y ∈ x.puts hw c, y.block = block ∧
      ((store hw c).absent y || (store hw c).clashes Fits y) = true := by
  obtain ⟨i, hi, hneeds⟩ := List.any_eq_true.mp hblock
  have hi := List.mem_range.mp hi
  have hcovers : x.Covers (x.offset + i) := ⟨Nat.le_add_right _ _, Nat.add_lt_add_left hi _⟩
  have hlt : x.offset + i < 1024 := Nat.lt_of_lt_of_le hcovers.2 x.inRange
  obtain ⟨hstart, hend⟩ := h.holds _ hcovers
  obtain ⟨y, hy, hcell, hvalue⟩ := h.putAt_mem hstart hend
  have hyblock : y.block = (putAt (x.offset + i) 0).block := congrArg Prod.fst hcell
  have hyword : y.word = (putAt (x.offset + i) 0).word := congrArg Prod.snd hcell
  rw [Bool.and_eq_true, decide_eq_true_eq, Bool.or_eq_true, decide_eq_true_eq] at hneeds
  obtain ⟨hplace, hneeds⟩ := hneeds
  refine ⟨y, hy, ?_, ?_⟩
  · rw [hyblock]
    apply Fin.ext
    rw [← hplace]
    exact congrArg (· / 16) (Nat.mod_eq_of_lt hlt)
  · have hbyte : byteOf y.value (x.offset + i) = x.dataByte i := by
      rw [hvalue, h.bytes _ hstart hend, Request.wanted, if_pos hcovers, Nat.add_sub_cancel_left]
    cases hstored : (store hw c).block (putAt (x.offset + i) 0).block with
    | none =>
      rw [OnceStore.absent, hyblock, hstored]
      rfl
    | some words =>
      have hread := logicalByte_eq hw c (x.offset + i)
      rw [hstored, Option.map_some, Option.getD_some] at hread
      have hfound : hw.find c ((x.offset + i) / 16) ≠ none := by
        intro hnone
        rw [(store_none_iff hlt).mpr hnone] at hstored
        cases hstored
      have hclash := hneeds.resolve_left (by rwa [hplace] at hfound)
      rw [hread, ← hbyte, bne_iff_ne] at hclash
      have hnot : ¬Fits (words y.word) y.value := by
        intro hfits
        rw [hyword] at hfits
        exact hclash (fits_byte hfits _)
      rw [OnceStore.clashes, hyblock, hstored, Option.any_some, decide_eq_false hnot]
      exact Bool.or_true _

/-- Where there are enough bytes of the map for the words, there are enough for the blocks. -/
theorem Words.entriesExist (h : Words hw c x start n value) (hsuffice : x.EntriesSuffice hw c) :
    x.EntriesExist hw c := by
  apply Nat.le_trans _ hsuffice
  apply OnceStore.card_le_cost
  intro block hblock
  exact h.needs (Finset.mem_filter.mp hblock).2

/-- What is needed for a call to do what it should. A word that finds no byte of the map is not
reported, and the rest of a fresh block reads as zeros. -/
theorem Request.Sound.needed (h : Inv chip c) (hallocated : x.allocated = true)
    (haligned : x.Aligned) (hlast : x.LastKept hw c) (hsound : x.Sound hw c) :
    x.BlocksWhole hw c ∧ x.EntriesSuffice hw c := by
  obtain ⟨start, n, value, hwords⟩ := words_of_aligned hw c haligned
  obtain ⟨hsome, hnone⟩ := writeRounds_agree hw h true hwords.mem hwords.nodup hlast
  have hwrite : eFuseWrite hw c x = (loopWords hw c x).foldl (writeRound hw) ⟨c, true, true⟩ :=
    if_pos hallocated
  obtain ⟨hreads, hreported⟩ := hsound
  cases hput : OnceStore.putAll Fits 0 (x.puts hw c) (store hw c) with
  | none =>
    have hstatus := hreported (by rw [hwrite, hnone hput])
    rw [hwrite, writeRounds_status] at hstatus
    exact absurd hstatus.symm Bool.false_ne_true
  | some s' =>
    have hsuffice : x.EntriesSuffice hw c :=
      (OnceStore.putAll_isSome_iff fits_zero hwords.nodup).mp (by rw [hput]; rfl)
    obtain ⟨c', hresult, -, hstore⟩ := hsome s' hput
    have hreads := hreads (hwords.entriesExist hsuffice)
    rw [hwrite, hresult] at hreads
    refine ⟨fun addr hcovers hmissing => ?_, hsuffice⟩
    apply hwords.filled
    intro addr' hsame
    by_contra hout
    have hlt' : addr' < 1024 := by
      have hlt := Nat.lt_of_lt_of_le hcovers.2 x.inRange
      omega
    -- the byte is in a fresh block and not in a word that is written
    have hblock : (putAt addr' 0).block ∈ (x.puts hw c).map Put.block := by
      obtain ⟨y, hy, hcell, -⟩ := hwords.putAt_mem (hwords.holds addr hcovers).1
        (hwords.holds addr hcovers).2
      refine List.mem_map.mpr ⟨y, hy, (congrArg Prod.fst hcell).trans ?_⟩
      apply Fin.ext
      change addr % 1024 / 16 = addr' % 1024 / 16
      omega
    have hmissing' : hw.find c (addr' / 16) = none := hsame ▸ hmissing
    have hzero := (hwords.reads hput hstore hlt').2.2 hout hmissing' hblock
    have hones : logicalByte hw c addr' = 0xff := by
      rw [logicalByte_eq, (store_none_iff hlt').mpr hmissing', Option.map_none, Option.getD_none,
        byteOf]
      split_ifs <;> rfl
    have hread := hreads addr' hlt'
    rw [hzero, Request.wanted, if_neg fun hcovers' => hout (hwords.holds addr' hcovers'),
      hones] at hread
    exact absurd hread (by decide)

end Needed

section Runs
variable {chip : Chip} (hw : Hardware chip) {c : Content} {calls : List Request}

/-- Every call of the run can be served at the efuse that the calls before it leave. -/
def ServedRun (c : Content) (calls : List Request) : Prop :=
  Guarded (fun c x => (eFuseWrite hw c x).content) (fun c x => Request.Served hw x c) c calls

variable {hw}

/-- Calls that can be served keep the map and the blocks in order. -/
theorem ServedRun.inv (h : Inv chip c) (hrun : ServedRun hw c calls) :
    Inv chip (afterCalls hw c calls) := by
  apply guarded_invariant (Inv chip) _ h hrun
  intro c x hinv hx
  obtain ⟨c', hwrite, hinv', -⟩ := eFuseWrite_served hinv hx
  rwa [hwrite]

/-- At the efuse that a run of such calls leaves, a call does what it should if it can be served; and
one that gets its buffer, has whole words and keeps the last block does so only then. -/
theorem eFuseWrite_sound_of_served (h : Inv chip c) (hrun : ServedRun hw c calls) (x : Request) :
    (x.Served hw (afterCalls hw c calls) → x.Sound hw (afterCalls hw c calls)) ∧
    (x.allocated = true → x.Aligned → x.LastKept hw (afterCalls hw c calls) →
      x.Sound hw (afterCalls hw c calls) → x.Served hw (afterCalls hw c calls)) := by
  have hinv := hrun.inv h
  refine ⟨fun hx => hx.sound hinv, fun hallocated haligned hlast hsound => ?_⟩
  obtain ⟨hwhole, hsuffice⟩ := hsound.needed hinv hallocated haligned hlast
  exact ⟨hallocated, haligned, hlast, hwhole, hsuffice⟩

end Runs

section Chips

/-- The map of the RT5592. -/
def rt5592 : Chip where
  mapStart := 0x3c0
  mapEnd := 0x3fb
  start_le := by decide
  end_lt := by decide
  blocks_le := by decide

/-- A chip that looks through its map from the start on. -/
def searchUp (chip : Chip) : Hardware chip where
  find c block := (List.range chip.entries).find? fun k => names (mapByte chip c k) block
  found c block _ h := ⟨List.mem_range.mp (List.mem_of_find?_eq_some h),
    List.find?_some (p := fun k => names (mapByte chip c k) block) h⟩
  missing _ _ h k hk := Bool.eq_false_iff.mpr (List.find?_eq_none.mp h k (List.mem_range.mpr hk))

/-- The efuse of a new chip. -/
def blankEfuse : Content := fun _ => 0

theorem blankEfuse_inv (chip : Chip) : Inv chip blankEfuse where
  blank _ _ _ _ _ := rfl
  unique j _ k _ b hj _ := by
    have hzero : mapByte chip blankEfuse j = 0 := by
      rw [mapByte, byteAt, byteOf]
      split_ifs
      · rfl
      · exact (by decide : highByte 0 = 0)
    rw [hzero, names_zero] at hj
    exact absurd hj Bool.false_ne_true

/-- Sixteen bytes from the start of the EEPROM on. -/
def firstBlock : Request := ⟨0, 16, fun i => UInt16.ofNat (i + 1), true, fun _ => 0, by decide⟩

/-- The two bytes behind the first one. -/
def oddBytes : Request := ⟨1, 2, fun _ => 0x0401, true, fun _ => 0, by decide⟩

/-- After the first block was written, two bytes in it are: the second one clears a bit, and the block
is moved. -/
theorem oddBytes_sound :
    oddBytes.Sound (searchUp rt5592) (afterCalls (searchUp rt5592) blankEfuse [firstBlock]) ∧
    oddBytes.Served (searchUp rt5592) (afterCalls (searchUp rt5592) blankEfuse [firstBlock]) := by
  have hfirst : firstBlock.Served (searchUp rt5592) blankEfuse := by
    refine ⟨rfl, Or.inl ⟨rfl, rfl⟩, ?_, fun addr hcovers _ addr' hsame => ⟨Nat.zero_le _, ?_⟩, ?_⟩
    · unfold Request.LastKept
      decide +kernel
    · have hlt : addr < 16 := hcovers.2
      change addr' < 16
      omega
    · unfold Request.EntriesSuffice
      decide +kernel
  have hrun : ServedRun (searchUp rt5592) blankEfuse [firstBlock] := ⟨hfirst, trivial⟩
  have hodd := eFuseWrite_sound_of_served (blankEfuse_inv rt5592) hrun oddBytes
  have hlast : oddBytes.LastKept (searchUp rt5592)
      (afterCalls (searchUp rt5592) blankEfuse [firstBlock]) := by
    unfold Request.LastKept
    decide +kernel
  have hfound : (searchUp rt5592).find
      (afterCalls (searchUp rt5592) blankEfuse [firstBlock]) 0 ≠ none := by decide +kernel
  have hserved : oddBytes.Served (searchUp rt5592)
      (afterCalls (searchUp rt5592) blankEfuse [firstBlock]) := by
    refine ⟨rfl, Or.inr ⟨rfl, rfl⟩, hlast, fun addr hcovers hnone => ?_, ?_⟩
    · have hblock : addr / 16 = 0 := Nat.div_eq_of_lt (Nat.lt_trans hcovers.2 (by decide : 3 < 16))
      rw [hblock] at hnone
      exact absurd hnone hfound
    · unfold Request.EntriesSuffice
      decide +kernel
  have hsound := hodd.1 hserved
  exact ⟨hsound, hodd.2 rfl (Or.inr ⟨rfl, rfl⟩) hlast hsound⟩

/-- An efuse whose bytes of the map are all used. -/
def fullEfuse : Content := fun i =>
  if 480 ≤ i ∧ i < 510 then
    mapTag (UInt16.ofNat (2 * i - 960)) ||| mapTag (UInt16.ofNat (2 * i - 959)) <<< 8
  else 0

theorem fullEfuse_inv : Inv rt5592 fullEfuse := by
  have hbytes : ∀ k < 60, mapByte rt5592 fullEfuse k = tagByte k := by decide +kernel
  constructor
  · intro k hk hzero
    exact absurd ((hbytes k hk).symm.trans hzero) (tagByte_ne_zero (Nat.lt_trans hk (by decide)))
  · intro j hj k hk b hnj hnk
    have hname : ∀ i < 60, names (mapByte rt5592 fullEfuse i) b = true → i = b := by
      intro i hi hnames
      rw [hbytes i hi] at hnames
      exact names_unique (names_tagByte i (Nat.lt_trans hi (by decide))).1 hnames
    rw [hname j hj hnj, hname k hk hnk]

/-- The first word of the EEPROM. -/
def firstWord : Request := ⟨0, 2, fun _ => 1, true, fun _ => 0, by decide⟩

/-- The first word of a block that is not in the full efuse. -/
def missingWord : Request := ⟨960, 2, fun _ => 1, true, fun _ => 0, by decide⟩

/-- On a new chip the bytes behind the first word read as zeros once it is written; and a word that
finds no byte of the map is not reported. -/
theorem eFuseWrite_unsound : ¬firstWord.Sound (searchUp rt5592) blankEfuse ∧
    (Inv rt5592 fullEfuse ∧ ¬missingWord.Sound (searchUp rt5592) fullEfuse) := by
  refine ⟨fun hsound => ?_, fullEfuse_inv, fun hsound => ?_⟩
  · have hexist : firstWord.EntriesExist (searchUp rt5592) blankEfuse := by
      unfold Request.EntriesExist
      decide +kernel
    exact absurd (hsound.1 hexist 2 (by decide)) (by decide +kernel)
  · have hstatus := hsound.2 (by decide +kernel)
    exact absurd hstatus (by decide +kernel)

end Chips

end Rt5572.EFuse
