import Mathlib.Logic.Function.Basic
import StandaloneDrivers.Foundations.Memory

/-! The efuse behind the EEPROM image: reading a byte of it, and the decoding of its sections
(eeprom.c). -/
namespace R92su
open Foundations

/-- `R92SU_EFUSE_REAL_SIZE` -/
def efuseRealSize : ℕ := 512

/-- The efuse and the polls at which it answers a read of an address. -/
structure Efuse where
  content : ℕ → UInt8
  ready : ℕ → ℕ → Bool

/-- `do i++ while (!ready && i < 10)`, at most `n` more rounds. -/
def efusePoll (ready : ℕ → Bool) : ℕ → ℕ → ℕ
  | 0, i => i
  | n + 1, i => if !ready (i + 1) && decide (i + 1 < 10) then efusePoll ready n (i + 1) else i + 1

/-- `__r92su_efuse_read`, whose address has ten bits. -/
def efuseRead (e : Efuse) (address : ℕ) : UInt8 :=
  if efusePoll (e.ready (address % 1024)) 10 0 ≥ 10 then 0xff else e.content (address % 1024)

/-- What `r92su_fetch_eeprom_data` has done: `off`, the image, the addresses it read and wrote, and
whether it is at `out`. -/
structure EepromFetch where
  off : ℕ
  image : Memory
  reads : List ℕ
  writes : List ℕ
  out : Bool

namespace EepromFetch
variable (read : ℕ → UInt8)

/-- `eimage[slot] = __r92su_efuse_read(r92su, off++)` and the test behind it -/
def fetchByte (s : EepromFetch) (slot : ℕ) : EepromFetch :=
  if s.out then s
  else ⟨s.off + 1, Function.update s.image slot (read s.off), s.reads ++ [s.off],
    s.writes ++ [slot], decide (efuseRealSize ≤ s.off + 1)⟩

/-- The rounds over `i`, with `map` shifted in each. -/
def fetchWords (pos : ℕ) : List ℕ → ℕ → EepromFetch → EepromFetch
  | [], _, s => s
  | i :: is, map, s =>
    fetchWords pos is (map >>> 1)
      (if map &&& 0x01 = 0 then
        fetchByte read (fetchByte read s (pos * 8 + i)) (pos * 8 + i + 1)
      else s)

/-- One round of the outer loop. -/
def fetchSection (s : EepromFetch) : EepromFetch :=
  let desc := read s.off
  let s := { s with off := s.off + 1, reads := s.reads ++ [s.off] }
  if desc = 0xff then { s with out := true }
  else fetchWords read (desc.toNat >>> 4) [0, 2, 4, 6] (desc.toNat &&& 0xf) s

theorem fetchByte_off_le (s : EepromFetch) (slot : ℕ) : s.off ≤ (fetchByte read s slot).off := by
  unfold fetchByte
  split
  · exact Nat.le_refl _
  · exact Nat.le_succ _

theorem fetchWords_off_le (pos : ℕ) (is : List ℕ) (map : ℕ) (s : EepromFetch) :
    s.off ≤ (fetchWords read pos is map s).off := by
  induction is generalizing map s with
  | nil => exact Nat.le_refl _
  | cons i is ih =>
    apply Nat.le_trans _ (ih _ _)
    split
    · exact Nat.le_trans (fetchByte_off_le read _ _) (fetchByte_off_le read _ _)
    · exact Nat.le_refl _

theorem off_lt_fetchSection (s : EepromFetch) : s.off < (fetchSection read s).off := by
  simp only [fetchSection]
  split
  · exact Nat.lt_succ_self _
  · exact fetchWords_off_le read _ _ _ { s with off := s.off + 1, reads := s.reads ++ [s.off] }

/-- `while (off < R92SU_EFUSE_REAL_SIZE)` -/
def fetchLoop (s : EepromFetch) : EepromFetch :=
  if s.off < efuseRealSize ∧ s.out = false then fetchLoop (fetchSection read s) else s
  termination_by efuseRealSize - s.off
  decreasing_by
    have hlt := off_lt_fetchSection read s
    omega

end EepromFetch

/-- `memset(&r92su->eeprom, 0xff, sizeof(r92su->eeprom))` -/
def blankFetch : EepromFetch := ⟨0, fun _ => 0xff, [], [], false⟩

/-- `r92su_fetch_eeprom_data`, which decodes when the autoload went well. -/
def fetchEepromData (e : Efuse) (autoloadOk : Bool) : Option EepromFetch :=
  if autoloadOk then some (EepromFetch.fetchLoop (efuseRead e) blankFetch) else none

/-- The bytes of the image that the words of a section stand for: the bits of the mask that are
clear. -/
def sectionSlots (desc : UInt8) : List ℕ :=
  ((List.range 4).filter fun w => !(desc.toNat.testBit w)).flatMap fun w =>
    [desc.toNat / 16 * 8 + 2 * w, desc.toNat / 16 * 8 + 2 * w + 1]

/-- The sections of an efuse up to the first blank descriptor, each byte with its place. -/
def sectionBytes : List UInt8 → List (ℕ × UInt8)
  | [] => []
  | desc :: bytes =>
    if desc = 0xff then []
    else (sectionSlots desc).zip bytes ++ sectionBytes (bytes.drop (sectionSlots desc).length)
  termination_by bytes => bytes.length
  decreasing_by
    simp only [List.length_drop, List.length_cons]
    omega

/-- Bytes written one after the other. -/
def applyBytes (image : Memory) (bytes : List (ℕ × UInt8)) : Memory :=
  bytes.foldl (fun image b => Function.update image b.1 b.2) image

/-- The last byte of the efuse is the descriptor of a section with words. -/
def EndsInDescriptor : List UInt8 → Prop
  | [] => False
  | [desc] => desc ≠ 0xff ∧ sectionSlots desc ≠ []
  | desc :: b :: bytes =>
    desc ≠ 0xff ∧ EndsInDescriptor ((b :: bytes).drop (sectionSlots desc).length)
  termination_by bytes => bytes.length
  decreasing_by
    simp only [List.length_drop, List.length_cons]
    omega

theorem endsInDescriptor_cons (desc : UInt8) (bytes : List UInt8) :
    EndsInDescriptor (desc :: bytes) ↔ desc ≠ 0xff ∧ ((bytes = [] ∧ sectionSlots desc ≠ []) ∨
      EndsInDescriptor (bytes.drop (sectionSlots desc).length)) := by
  cases bytes with
  | nil => simp [EndsInDescriptor]
  | cons b bytes => simp [EndsInDescriptor]

/-- What the efuse reads as. -/
def efuseBytes (e : Efuse) : List UInt8 := (List.range efuseRealSize).map (efuseRead e)

/-- The decoding reads the efuse and writes the image only, and gives the image of the sections. -/
structure EepromSound (e : Efuse) (s : EepromFetch) : Prop where
  reads : ∀ a ∈ s.reads, a < efuseRealSize
  writes : ∀ slot ∈ s.writes, slot < 128
  image : s.image = applyBytes (fun _ => 0xff) (sectionBytes (efuseBytes e))

namespace EepromFetch
variable {read : ℕ → UInt8}

/-- The slots of the words that are fetched from a mask. -/
def wordSlots (pos : ℕ) : List ℕ → ℕ → List ℕ
  | [], _ => []
  | i :: is, map =>
    (if map &&& 0x01 = 0 then [pos * 8 + i, pos * 8 + i + 1] else []) ++
      wordSlots pos is (map >>> 1)

theorem fetchWords_eq (pos : ℕ) (is : List ℕ) (map : ℕ) (s : EepromFetch) :
    fetchWords read pos is map s = (wordSlots pos is map).foldl (fetchByte read) s := by
  induction is generalizing map s with
  | nil => rfl
  | cons i is ih =>
    rw [fetchWords, wordSlots, ih, List.foldl_append]
    split <;> rfl

theorem wordSlots_desc : ∀ desc < 256, wordSlots (desc >>> 4) [0, 2, 4, 6] (desc &&& 0xf) =
    ((List.range 4).filter fun w => !desc.testBit w).flatMap fun w =>
      [desc / 16 * 8 + 2 * w, desc / 16 * 8 + 2 * w + 1] := by
  decide +kernel

theorem wordSlots_lt : ∀ desc < 256, ∀ slot ∈ wordSlots (desc >>> 4) [0, 2, 4, 6] (desc &&& 0xf),
    slot < 128 := by
  decide +kernel

theorem sectionSlots_eq (desc : UInt8) :
    wordSlots (desc.toNat >>> 4) [0, 2, 4, 6] (desc.toNat &&& 0xf) = sectionSlots desc :=
  wordSlots_desc _ desc.toNat_lt

/-- A round of the outer loop fetches the bytes of its section. -/
theorem fetchSection_eq (s : EepromFetch) :
    fetchSection read s =
      if read s.off = 0xff then
        { s with off := s.off + 1, reads := s.reads ++ [s.off], out := true }
      else (sectionSlots (read s.off)).foldl (fetchByte read)
        { s with off := s.off + 1, reads := s.reads ++ [s.off] } := by
  simp only [fetchSection]
  split
  · rfl
  · rw [fetchWords_eq, sectionSlots_eq]

theorem foldl_fetchByte_out {s : EepromFetch} (h : s.out = true) (slots : List ℕ) :
    slots.foldl (fetchByte read) s = s := by
  induction slots with
  | nil => rfl
  | cons slot slots ih => rw [List.foldl_cons, fetchByte, if_pos h, ih]

/-- Only slots of the section are written. -/
theorem foldl_fetchByte_writes {s : EepromFetch} {slots : List ℕ} {slot : ℕ}
    (h : slot ∈ (slots.foldl (fetchByte read) s).writes) : slot ∈ s.writes ∨ slot ∈ slots := by
  induction slots generalizing s with
  | nil => exact Or.inl h
  | cons slot' slots ih =>
    rcases ih h with h | h
    · rw [fetchByte] at h
      split at h
      · exact Or.inl h
      · rcases List.mem_append.mp h with h | h
        · exact Or.inl h
        · exact Or.inr (by rw [List.mem_singleton.mp h]; exact List.mem_cons_self)
    · exact Or.inr (List.mem_cons_of_mem _ h)

theorem fetchLoop_writes {s : EepromFetch} (h : ∀ slot ∈ s.writes, slot < 128) :
    ∀ slot ∈ (fetchLoop read s).writes, slot < 128 := by
  fun_induction fetchLoop read s with
  | case1 s hgo ih =>
    apply ih
    rw [fetchSection_eq]
    split
    · exact h
    · intro slot hslot
      rcases foldl_fetchByte_writes hslot with hslot | hslot
      · exact h slot hslot
      · rw [← sectionSlots_eq] at hslot
        exact wordSlots_lt _ (read s.off).toNat_lt slot hslot
  | case2 s hstop => exact h

variable {bytes : List UInt8}

/-- The bytes of a section, as far as the efuse has them. -/
theorem foldl_fetchByte (hbytes : ∀ o < efuseRealSize, bytes.drop o = read o :: bytes.drop (o + 1))
    (hend : bytes.drop efuseRealSize = []) {s : EepromFetch} (hout : s.out = false)
    (hoff : s.off < efuseRealSize) (slots : List ℕ) :
    (slots.foldl (fetchByte read) s).image = applyBytes s.image (slots.zip (bytes.drop s.off)) ∧
    (∀ a ∈ (slots.foldl (fetchByte read) s).reads, a ∈ s.reads ∨ a < efuseRealSize) ∧
    (((slots.foldl (fetchByte read) s).out = false ∧
        (slots.foldl (fetchByte read) s).off = s.off + slots.length ∧
        s.off + slots.length < efuseRealSize) ∨
      ((slots.foldl (fetchByte read) s).out = true ∧ efuseRealSize ≤ s.off + slots.length)) := by
  induction slots generalizing s with
  | nil => exact ⟨rfl, fun a ha => Or.inl ha, Or.inl ⟨hout, rfl, hoff⟩⟩
  | cons slot slots ih =>
    have hreads : ∀ a ∈ s.reads ++ [s.off], a ∈ s.reads ∨ a < efuseRealSize := by
      intro a ha
      rcases List.mem_append.mp ha with ha | ha
      · exact Or.inl ha
      · exact Or.inr (by rw [List.mem_singleton.mp ha]; exact hoff)
    rw [List.foldl_cons, fetchByte, hout, if_neg Bool.false_ne_true, hbytes s.off hoff,
      List.zip_cons_cons, List.length_cons]
    by_cases hlast : efuseRealSize ≤ s.off + 1
    · rw [foldl_fetchByte_out (decide_eq_true hlast)]
      have hnil : bytes.drop (s.off + 1) = [] := by
        rw [show s.off + 1 = efuseRealSize by omega, hend]
      rw [hnil, List.zip_nil_right]
      exact ⟨rfl, hreads, Or.inr ⟨decide_eq_true hlast, by omega⟩⟩
    · obtain ⟨himage, hread, hcases⟩ := @ih ⟨s.off + 1, Function.update s.image slot (read s.off),
        s.reads ++ [s.off], s.writes ++ [slot], decide (efuseRealSize ≤ s.off + 1)⟩
        (decide_eq_false hlast) (Nat.not_le.mp hlast)
      refine ⟨himage, ?_, ?_⟩
      · intro a ha
        rcases hread a ha with ha | ha
        · exact hreads a ha
        · exact Or.inr ha
      · dsimp only at hcases
        rw [Nat.add_right_comm, Nat.add_assoc s.off] at hcases
        exact hcases

/-- Behind the last byte a word is still read. -/
theorem foldl_fetchByte_behind {s : EepromFetch} (hout : s.out = false)
    (hoff : s.off = efuseRealSize) (slot : ℕ) (slots : List ℕ) :
    ((slot :: slots).foldl (fetchByte read) s).out = true ∧
      efuseRealSize ∈ ((slot :: slots).foldl (fetchByte read) s).reads := by
  have hfetch : fetchByte read s slot = ⟨s.off + 1, Function.update s.image slot (read s.off),
      s.reads ++ [s.off], s.writes ++ [slot], true⟩ := by
    rw [fetchByte, hout, if_neg Bool.false_ne_true, hoff]
    rfl
  rw [List.foldl_cons, hfetch, foldl_fetchByte_out rfl, hoff]
  exact ⟨rfl, List.mem_append_right _ List.mem_cons_self⟩

theorem fetchLoop_out {s : EepromFetch} (h : s.out = true) : fetchLoop read s = s := by
  rw [fetchLoop, if_neg (by rw [h]; exact fun hgo => Bool.noConfusion hgo.2)]

/-- The loop from a descriptor on: it decodes the sections that are left, unless the last byte of
the efuse makes it read behind the end. -/
theorem fetchLoop_spec
    (hbytes : ∀ o < efuseRealSize, bytes.drop o = read o :: bytes.drop (o + 1))
    (hend : bytes.drop efuseRealSize = []) {s : EepromFetch} (hout : s.out = false)
    (hoff : s.off ≤ efuseRealSize) :
    (¬ EndsInDescriptor (bytes.drop s.off) →
      (∀ a ∈ (fetchLoop read s).reads, a ∈ s.reads ∨ a < efuseRealSize) ∧
        (fetchLoop read s).image = applyBytes s.image (sectionBytes (bytes.drop s.off))) ∧
    (EndsInDescriptor (bytes.drop s.off) → efuseRealSize ∈ (fetchLoop read s).reads) := by
  fun_induction fetchLoop read s with
  | case2 s hstop =>
    have hlast : s.off = efuseRealSize := by
      by_contra hne
      exact hstop ⟨by omega, hout⟩
    rw [hlast, hend, sectionBytes, EndsInDescriptor]
    exact ⟨fun _ => ⟨fun a ha => Or.inl ha, rfl⟩, False.elim⟩
  | case1 s hgo ih =>
    have hdrop := hbytes s.off hgo.1
    have hfirst : ∀ a ∈ s.reads ++ [s.off], a ∈ s.reads ∨ a < efuseRealSize := by
      intro a ha
      rcases List.mem_append.mp ha with ha | ha
      · exact Or.inl ha
      · exact Or.inr (by rw [List.mem_singleton.mp ha]; exact hgo.1)
    rw [fetchSection_eq] at ih ⊢
    by_cases hblank : read s.off = 0xff
    · rw [if_pos hblank, fetchLoop_out rfl, hdrop, sectionBytes, if_pos hblank,
        endsInDescriptor_cons]
      exact ⟨fun _ => ⟨hfirst, rfl⟩, fun hends => absurd hblank hends.1⟩
    · rw [if_neg hblank] at ih ⊢
      rw [hdrop, sectionBytes, if_neg hblank, endsInDescriptor_cons, and_iff_right hblank,
        applyBytes, List.foldl_append, List.drop_drop]
      by_cases hlast : s.off + 1 < efuseRealSize
      · have hmore : ¬ (bytes.drop (s.off + 1) = [] ∧ sectionSlots (read s.off) ≠ []) := by
          rw [hbytes _ hlast]
          exact fun hnil => List.cons_ne_nil _ _ hnil.1
        obtain ⟨himage, hreads, ⟨hout', hoff', hlt⟩ | ⟨hout', hle⟩⟩ :=
          @foldl_fetchByte read bytes hbytes hend
            { s with off := s.off + 1, reads := s.reads ++ [s.off] } hout hlast
            (sectionSlots (read s.off))
        · obtain ⟨hsound, hbad⟩ := ih hout' (by omega)
          rw [hoff'] at hsound hbad
          rw [or_iff_right hmore]
          refine ⟨fun hends => ?_, hbad⟩
          obtain ⟨hloop, hresult⟩ := hsound hends
          constructor
          · intro a ha
            rcases hloop a ha with ha | ha
            · rcases hreads a ha with ha | ha
              · exact hfirst a ha
              · exact Or.inr ha
            · exact Or.inr ha
          · rw [hresult, himage]
            rfl
        · have hnil : bytes.drop (s.off + 1 + (sectionSlots (read s.off)).length) = [] := by
            obtain ⟨k, hk⟩ := Nat.exists_eq_add_of_le hle
            rw [hk, ← List.drop_drop, hend, List.drop_nil]
          rw [fetchLoop_out hout', hnil, or_iff_right hmore, EndsInDescriptor, sectionBytes]
          refine ⟨fun _ => ⟨?_, himage⟩, False.elim⟩
          intro a ha
          rcases hreads a ha with ha | ha
          · exact hfirst a ha
          · exact Or.inr ha
      · have hfull : s.off + 1 = efuseRealSize := by omega
        have hnil : bytes.drop (s.off + 1) = [] := by rw [hfull, hend]
        cases hslots : sectionSlots (read s.off) with
        | nil =>
          rw [List.length_nil, Nat.add_zero, hnil, EndsInDescriptor, List.zip_nil_left,
            sectionBytes, List.foldl_nil, fetchLoop, if_neg (fun hgo => hlast hgo.1)]
          refine ⟨fun _ => ⟨hfirst, rfl⟩, ?_⟩
          rintro (⟨-, hne⟩ | hfalse)
          · exact absurd rfl hne
          · exact hfalse.elim
        | cons slot slots =>
          obtain ⟨hout', hread⟩ := @foldl_fetchByte_behind read
            { s with off := s.off + 1, reads := s.reads ++ [s.off] } hout hfull slot slots
          rw [fetchLoop_out hout']
          exact ⟨fun hends => absurd (Or.inl ⟨hnil, List.cons_ne_nil _ _⟩) hends, fun _ => hread⟩

end EepromFetch

/-- The decoding is sound unless the walk over the sections comes to the last byte of the efuse
with a descriptor that announces words. -/
theorem eepromSound_iff (e : Efuse) (autoloadOk : Bool) :
    (∀ s, fetchEepromData e autoloadOk = some s → EepromSound e s) ↔
      (autoloadOk → ¬ EndsInDescriptor (efuseBytes e)) := by
  have hlen : (efuseBytes e).length = efuseRealSize := by
    rw [efuseBytes, List.length_map, List.length_range]
  have hbytes : ∀ o < efuseRealSize,
      (efuseBytes e).drop o = efuseRead e o :: (efuseBytes e).drop (o + 1) := by
    intro o ho
    rw [List.drop_eq_getElem_cons (by rwa [hlen])]
    simp only [efuseBytes, List.getElem_map, List.getElem_range]
  have hspec := @EepromFetch.fetchLoop_spec (efuseRead e) (efuseBytes e) hbytes
    (List.drop_of_length_le (Nat.le_of_eq hlen)) blankFetch rfl (Nat.zero_le _)
  have hwrites := @EepromFetch.fetchLoop_writes (efuseRead e) blankFetch nofun
  cases autoloadOk with
  | false => exact iff_of_true nofun nofun
  | true =>
    simp only [fetchEepromData, if_true, Option.some.injEq, forall_eq', true_implies]
    constructor
    · intro hsound hends
      exact Nat.lt_irrefl _ (hsound.reads _ (hspec.2 hends))
    · intro hends
      obtain ⟨hreads, himage⟩ := hspec.1 hends
      exact ⟨fun a ha => (hreads a ha).resolve_left List.not_mem_nil, hwrites, himage⟩

section Example

/-- Sections without words, and a last byte that announces four. -/
def cutEfuse : Efuse where
  content := fun a => if a = 511 then 0x00 else 0x0f
  ready := fun _ _ => true

/-- From any byte the sections of this efuse end in its last byte. -/
theorem cutEfuse_ends (n : ℕ) : EndsInDescriptor (List.replicate n 0x0f ++ [0x00]) := by
  induction n with
  | zero =>
    rw [List.replicate_zero, List.nil_append, endsInDescriptor_cons]
    exact ⟨by decide, Or.inl ⟨rfl, by decide⟩⟩
  | succ n ih =>
    rw [List.replicate_succ, List.cons_append, endsInDescriptor_cons]
    exact ⟨by decide, Or.inr ih⟩

theorem cutEfuse_unsound :
    ¬ ∀ s, fetchEepromData cutEfuse true = some s → EepromSound cutEfuse s := by
  have hbytes : efuseBytes cutEfuse = List.replicate 511 0x0f ++ [0x00] := by
    decide +kernel
  rw [eepromSound_iff, hbytes]
  exact fun h => h rfl (cutEfuse_ends 511)

end Example

end R92su
