import Mathlib.Data.Nat.Count
import StandaloneDrivers.Foundations.Records
import StandaloneDrivers.Rtl8188eu.Efuse

/-! The packets an efuse content holds, and the size a walk over them finds. -/
namespace Rtl8188eu.Efuse
open Foundations

theorem forall_byte {P : UInt8 → Prop} (h : ∀ n : Fin 256, P (UInt8.ofNat n)) (b : UInt8) :
    P b := by
  have := h ⟨b.toNat, b.toNat_lt⟩
  rwa [UInt8.ofNat_toNat] at this

/-- How many enabled words lie below `w`. -/
def rank (wordEn : UInt8) (w : ℕ) : ℕ := Nat.count (fun j => wordEnabled wordEn j = true) w

theorem rank_four (wordEn : UInt8) : rank wordEn 4 = efuseCalculateWordCnts wordEn := by
  simp only [rank, Nat.count_succ, Nat.count_zero, efuseCalculateWordCnts, Bool.toNat,
    Bool.cond_eq_ite, Nat.zero_add]

theorem rank_succ (wordEn : UInt8) (w : ℕ) :
    rank wordEn (w + 1) = rank wordEn w + (wordEnabled wordEn w).toNat := by
  simp only [rank, Nat.count_succ, Bool.toNat, Bool.cond_eq_ite]

theorem rank_mono (wordEn : UInt8) {v w : ℕ} (h : v ≤ w) : rank wordEn v ≤ rank wordEn w :=
  Nat.count_monotone _ h

theorem rank_lt {wordEn : UInt8} {v w : ℕ} (h : wordEnabled wordEn v = true) (hvw : v < w) :
    rank wordEn v < rank wordEn w := Nat.count_strict_mono h hvw

theorem wordEnabled_zero (wren : UInt8) : wren &&& 0x01 = 0 ↔ wordEnabled wren 0 = true := by
  apply forall_byte (P := fun wren => wren &&& 0x01 = 0 ↔ wordEnabled wren 0 = true)
  decide +kernel

theorem wordEnabled_shift (wren : UInt8) : ∀ w < 3,
    wordEnabled (wren >>> 1) w = wordEnabled wren (w + 1) := by
  apply forall_byte (P := fun wren => ∀ w < 3,
    wordEnabled (wren >>> 1) w = wordEnabled wren (w + 1))
  decide +kernel

/-- A packet of the content: its section, its mask and where its data start. A void header has
a mask without words. -/
structure Packet where
  offset : ℕ
  wordEn : UInt8
  start : ℕ

namespace Packet

def stop (p : Packet) : ℕ := p.start + 2 * efuseCalculateWordCnts p.wordEn

/-- Where the reader goes on: it does not pass over the data of a section it does not know. -/
def readEnd (p : Packet) : ℕ := if p.offset < efuseMaxSection88E then p.stop else p.start

end Packet

theorem wordCnts_void : efuseCalculateWordCnts 0x0F = 0 := by decide

def packetAt (content : Memory) (a : ℕ) : Option Packet :=
  if content a = 0xFF then none
  else if extHeader (content a) then
    if allWordsDisabled (content (a + 1)) then some ⟨0, 0x0F, a + 2⟩
    else some ⟨extOffset (content a) (content (a + 1)), content (a + 1) &&& 0x0F, a + 2⟩
  else some ⟨shortOffset (content a), content a &&& 0x0F, a + 1⟩

theorem packetAt_none {content : Memory} {a : ℕ} : packetAt content a = none ↔ content a = 0xFF := by
  unfold packetAt
  split
  · simpa
  · split
    · split <;> simpa
    · simpa

theorem packetAt_start {content : Memory} {a : ℕ} {p : Packet} (h : packetAt content a = some p) :
    a < p.start ∧ p.start ≤ a + 2 := by
  unfold packetAt at h
  split at h
  · contradiction
  · split at h
    · split at h <;> cases h <;> simp
    · cases h
      simp

theorem Packet.start_le_readEnd (p : Packet) : p.start ≤ p.readEnd := by
  unfold readEnd stop
  split <;> omega

theorem Packet.readEnd_of_lt {p : Packet} (h : p.offset < 64) : p.readEnd = p.stop := if_pos h

theorem Packet.start_le_stop (p : Packet) : p.start ≤ p.stop := Nat.le_add_right _ _

/-- The packets the reader takes whole. -/
def readNext (content : Memory) (a : ℕ) : Option (Packet × ℕ) :=
  (packetAt content a).bind fun p =>
    if a < 255 ∧ p.readEnd ≤ efuseRealContentLen88E then some (p, p.readEnd) else none

/-- The packets the other two functions walk over. -/
def sizeNext (content : Memory) (a : ℕ) : Option (Packet × ℕ) :=
  if a < efuseRealContentLen then (packetAt content a).map fun p => (p, p.stop) else none

theorem readNext_eq_some {content : Memory} {a a' : ℕ} {p : Packet} :
    readNext content a = some (p, a') ↔
      packetAt content a = some p ∧ a < 255 ∧ p.readEnd ≤ 256 ∧ a' = p.readEnd := by
  rw [readNext, Option.bind_eq_some_iff]
  constructor
  · rintro ⟨q, hq, h⟩
    split at h
    · rename_i hle
      cases h
      exact ⟨hq, hle.1, hle.2, rfl⟩
    · contradiction
  · rintro ⟨hp, ha, hle, rfl⟩
    exact ⟨p, hp, if_pos ⟨ha, hle⟩⟩

theorem sizeNext_eq_some {content : Memory} {a a' : ℕ} {p : Packet} :
    sizeNext content a = some (p, a') ↔
      packetAt content a = some p ∧ a < 512 ∧ a' = p.stop := by
  unfold sizeNext efuseRealContentLen
  split
  · rename_i ha
    simp only [Option.map_eq_some_iff, Prod.mk.injEq]
    constructor
    · rintro ⟨q, hq, rfl, rfl⟩
      exact ⟨hq, ha, rfl⟩
    · rintro ⟨hp, -, rfl⟩
      exact ⟨p, hp, rfl, rfl⟩
  · rename_i ha
    simp [ha]

theorem readNext_lt (content : Memory) (a : ℕ) (p : Packet) (a' : ℕ)
    (h : readNext content a = some (p, a')) : a < a' := by
  obtain ⟨hp, -, -, rfl⟩ := readNext_eq_some.mp h
  exact (packetAt_start hp).1.trans_le p.start_le_readEnd

theorem sizeNext_lt (content : Memory) (a : ℕ) (p : Packet) (a' : ℕ)
    (h : sizeNext content a = some (p, a')) : a < a' := by
  obtain ⟨hp, -, rfl⟩ := sizeNext_eq_some.mp h
  exact (packetAt_start hp).1.trans_le p.start_le_stop

theorem readNext_bound (content : Memory) (a : ℕ) (p : Packet) (a' : ℕ)
    (h : readNext content a = some (p, a')) : a < 255 := (readNext_eq_some.mp h).2.1

theorem sizeNext_bound (content : Memory) (a : ℕ) (p : Packet) (a' : ℕ)
    (h : sizeNext content a = some (p, a')) : a < 512 := (sizeNext_eq_some.mp h).2.1

theorem exists_readLog (content : Memory) : ∃ ps e, Log (readNext content) 0 ps e :=
  Log.exists_of_bounded (readNext_lt content) (readNext_bound content) 0

theorem exists_sizeLog (content : Memory) (a : ℕ) : ∃ ps e, Log (sizeNext content) a ps e :=
  Log.exists_of_bounded (sizeNext_lt content) (sizeNext_bound content) a

theorem readLog_end_le {content : Memory} {a e : ℕ} {ps : List Packet}
    (h : Walk (readNext content) a ps e) (ha : a ≤ 256) : e ≤ 256 := by
  induction h with
  | nil a => exact ha
  | cons head tail ih =>
    obtain ⟨-, -, hle, rfl⟩ := readNext_eq_some.mp head
    exact ih hle

theorem sizeLog_last {content : Memory} {a e : ℕ} {ps : List Packet}
    (h : Log (sizeNext content) a ps e) (he : e < 512) : content e = 0xFF := by
  have := h.last
  rw [sizeNext, if_pos (show e < efuseRealContentLen from he), Option.map_eq_none_iff] at this
  exact packetAt_none.mp this

namespace CurrentSize

theorem round_packet {content : Memory} {a : ℕ} {p : Packet} (h : packetAt content a = some p) :
    round content ⟨true, a⟩ = ⟨true, p.stop⟩ := by
  unfold packetAt at h
  unfold round
  dsimp only
  split at h
  · contradiction
  · rename_i hdata
    rw [if_pos hdata]
    split at h
    · rename_i hext
      rw [if_pos hext]
      split at h
      · rename_i hall
        rw [if_pos hall]
        cases h
        simp only [Packet.stop, wordCnts_void, Nat.mul_zero, Nat.add_zero]
      · rename_i hall
        rw [if_neg hall]
        cases h
        simp only [Packet.stop, State.mk.injEq, true_and]
        omega
    · rename_i hext
      rw [if_neg hext]
      cases h
      simp only [Packet.stop, State.mk.injEq, true_and]
      omega

end CurrentSize

/-- The size is where the log that starts at the register's address ends. -/
theorem halEfuseGetCurrentSize_log {s : EfuseState} {ps : List Packet} {e : ℕ}
    (h : Log (sizeNext s.content) s.efuseUsedBytes ps e) :
    halEfuseGetCurrentSize s = some (e, { s with efuseUsedBytes := e }) := by
  have hrounds := h.walk.rounds (c := CurrentSize.more) (b := CurrentSize.round s.content)
    (R := fun a (_ : Unit) st => st = ⟨true, a⟩) (f := fun _ _ => ()) (k := 1)
    (by
      intro a p a' _ t st hnext _ hst
      obtain ⟨hp, ha, rfl⟩ := sizeNext_eq_some.mp hnext
      subst hst
      have hmore : CurrentSize.more ⟨true, a⟩ = true := decide_eq_true ha
      exact ⟨1, le_rfl, _, Rounds.one hmore, CurrentSize.round_packet hp⟩) (t := ()) rfl
  obtain ⟨j, hj, st, hrun, rfl⟩ := hrounds
  have hlen := h.walk.length_le (sizeNext_lt s.content) (sizeNext_bound s.content)
  have hend : ∃ r, loop CurrentSize.more (CurrentSize.round s.content) 513
      ⟨true, s.efuseUsedBytes⟩ = some r ∧ r.efuseAddr = e := by
    by_cases he : e < 512
    · have hmore : CurrentSize.more ⟨true, e⟩ = true := decide_eq_true he
      have hround : CurrentSize.round s.content ⟨true, e⟩ = ⟨false, e⟩ :=
        if_neg (not_not.mpr (sizeLog_last h he))
      have hlast := hrun.trans (Rounds.one hmore)
      rw [hround] at hlast
      exact ⟨_, hlast.exit rfl (by omega), rfl⟩
    · have hmore : CurrentSize.more ⟨true, e⟩ = false := decide_eq_false he
      exact ⟨_, hrun.exit hmore (by omega), rfl⟩
  obtain ⟨r, hr, rfl⟩ := hend
  simp only [halEfuseGetCurrentSize, efuseRealContentLen, hr, Option.bind_eq_bind,
    Option.bind_some]

end Rtl8188eu.Efuse
