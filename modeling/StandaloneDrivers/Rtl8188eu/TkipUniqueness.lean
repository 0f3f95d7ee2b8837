import StandaloneDrivers.Rtl8188eu.Tkip

/-! The key mixing of TKIP runs backwards: the RC4 key of a packet tells its transmitter and its
sequence counter, for every S-box. -/
namespace Rtl8188eu
open Foundations

theorem mk16_split (k : UInt16) : mk16 (hi8 k) (lo8 k) = k := by
  apply UInt16.toBitVec_inj.mp
  ext i hi
  simp [mk16, hi8, lo8, -UInt16.toUInt16_toUInt8]
  grind

theorem lo8_mk16 (hi lo : UInt8) : lo8 (mk16 hi lo) = lo := by
  apply UInt8.toBitVec_inj.mp
  ext i hi
  simp [mk16, lo8]

theorem hi8_mk16 (hi lo : UInt8) : hi8 (mk16 hi lo) = hi := by
  apply UInt8.toBitVec_inj.mp
  ext i hi
  simp [mk16, hi8]
  grind

theorem mk16_inj {hi lo hi' lo' : UInt8} (h : mk16 hi lo = mk16 hi' lo') : hi = hi' ∧ lo = lo' := by
  constructor
  · rw [← hi8_mk16 hi lo, h, hi8_mk16]
  · rw [← lo8_mk16 hi lo, h, lo8_mk16]

theorem iv32_split (iv32 : UInt32) :
    (hi16 iv32).toUInt32 <<< 16 ||| (lo16 iv32).toUInt32 = iv32 := by
  apply UInt32.toBitVec_inj.mp
  ext i hi
  simp [hi16, lo16, -UInt32.toUInt32_toUInt16]
  grind

/-- The words the first phase starts from. -/
def phase1Start (ta : MacAddr) (iv32 : UInt32) : P1k :=
  ⟨lo16 iv32, hi16 iv32, mk16 (getElem ta 1 one_lt_six) (getElem ta 0 zero_lt_six),
    mk16 (getElem ta 3 three_lt_six) (getElem ta 2 two_lt_six),
    mk16 (getElem ta 5 five_lt_six) (getElem ta 4 four_lt_six)⟩

theorem phase1Start_injective :
    Function.Injective fun x : MacAddr × UInt32 => phase1Start x.1 x.2 := by
  rintro ⟨ta, iv32⟩ ⟨ta', iv32'⟩ h
  simp only [phase1Start, P1k.mk.injEq] at h
  obtain ⟨hlo, hhi, h10, h32, h54⟩ := h
  have hiv : iv32 = iv32' := by rw [← iv32_split iv32, hlo, hhi, iv32_split]
  have hta : ta = ta' := by
    obtain ⟨h1, h0⟩ := mk16_inj h10
    obtain ⟨h3, h2⟩ := mk16_inj h32
    obtain ⟨h5, h4⟩ := mk16_inj h54
    apply Vector.ext
    intro i hi
    match i with
    | 0 => exact h0
    | 1 => exact h1
    | 2 => exact h2
    | 3 => exact h3
    | 4 => exact h4
    | 5 => exact h5
  rw [hiv, hta]

section
variable (s : UInt16 → UInt16) (tk : Keytype)

/-- A round of the first phase backwards: the word that was changed last comes back first. -/
def phase1Unround (p1k : P1k) (i : ℕ) : P1k :=
  let k4 := p1k.k4 - UInt16.ofNat i - s (p1k.k3 ^^^ tk16 tk (i % 2))
  let k3 := p1k.k3 - s (p1k.k2 ^^^ tk16 tk (i % 2 + 6))
  let k2 := p1k.k2 - s (p1k.k1 ^^^ tk16 tk (i % 2 + 4))
  let k1 := p1k.k1 - s (p1k.k0 ^^^ tk16 tk (i % 2 + 2))
  ⟨p1k.k0 - s (k4 ^^^ tk16 tk (i % 2)), k1, k2, k3, k4⟩

theorem phase1Unround_round (p1k : P1k) (i : ℕ) :
    phase1Unround s tk (phase1Round s tk p1k i) i = p1k := by
  simp only [phase1Unround, phase1Round, UInt16.add_sub_cancel]

theorem phase1Rounds_injective (rounds : List ℕ) :
    Function.Injective fun p1k => rounds.foldl (phase1Round s tk) p1k := by
  induction rounds with
  | nil => exact fun _ _ h => h
  | cons i rounds ih =>
    intro p p' h
    have hround : phase1Round s tk p i = phase1Round s tk p' i := ih h
    rw [← phase1Unround_round s tk p i, hround, phase1Unround_round]

theorem phase1_eq (ta : MacAddr) (iv32 : UInt32) :
    phase1 s tk ta iv32 = (List.range 8).foldl (phase1Round s tk) (phase1Start ta iv32) := rfl

theorem phase1_injective : Function.Injective fun x : MacAddr × UInt32 => phase1 s tk x.1 x.2 := by
  intro x y h
  simp only [phase1_eq] at h
  have hstart := phase1Rounds_injective s tk _ h
  exact phase1Start_injective hstart

/-- A word of the last twelve bytes of an RC4 key. -/
def ppkWord (rc4key : List UInt8) (i : ℕ) : UInt16 :=
  mk16 (rc4key.getD (5 + 2 * i) 0) (rc4key.getD (4 + 2 * i) 0)

/-- The second phase backwards: the final sweep first, then the mixing. The first four bytes of
the key are not needed. -/
def phase2Undo (rc4key : List UInt8) : P1k × UInt16 :=
  let ppk := ppkWord rc4key
  let k5 := ppk 5 - rotR1 (ppk 4)
  let k4 := ppk 4 - rotR1 (ppk 3)
  let k3 := ppk 3 - rotR1 (ppk 2)
  let k2 := ppk 2 - rotR1 (ppk 1)
  let k1 := ppk 1 - rotR1 (ppk 0 ^^^ tk16 tk 7)
  let k0 := ppk 0 - rotR1 (k5 ^^^ tk16 tk 6)
  let k5 := k5 - s (k4 ^^^ tk16 tk 5)
  let k4 := k4 - s (k3 ^^^ tk16 tk 4)
  let k3 := k3 - s (k2 ^^^ tk16 tk 3)
  let k2 := k2 - s (k1 ^^^ tk16 tk 2)
  let k1 := k1 - s (k0 ^^^ tk16 tk 1)
  (⟨k0 - s (k5 ^^^ tk16 tk 0), k1, k2, k3, k4⟩, k5 - k4)

theorem phase2Undo_phase2 (p1k : P1k) (iv16 : UInt16) :
    phase2Undo s tk (phase2 s tk p1k iv16) = (p1k, iv16) := by
  have hiv : p1k.k4 + iv16 - p1k.k4 = iv16 := by rw [UInt16.add_comm, UInt16.add_sub_cancel]
  simp [phase2Undo, phase2, ppkWord, mk16_split, hiv]

theorem phase2_injective : Function.Injective fun x : P1k × UInt16 => phase2 s tk x.1 x.2 :=
  Function.LeftInverse.injective (g := phase2Undo s tk) fun x => phase2Undo_phase2 s tk x.1 x.2

/-- Under one temporal key no two packets of different transmitters or different sequence
counters have one RC4 key. -/
theorem rc4key_injective : Function.Injective fun x : MacAddr × UInt32 × UInt16 =>
    phase2 s tk (phase1 s tk x.1 x.2.1) x.2.2 := by
  rintro ⟨ta, iv32, iv16⟩ ⟨ta', iv32', iv16'⟩ h
  have hphase2 := @phase2_injective s tk (phase1 s tk ta iv32, iv16)
    (phase1 s tk ta' iv32', iv16') h
  obtain ⟨hp1k, hiv16⟩ := Prod.mk.inj hphase2
  have hphase1 := @phase1_injective s tk (ta, iv32) (ta', iv32') hp1k
  obtain ⟨hta, hiv32⟩ := Prod.mk.inj hphase1
  rw [hta, hiv32, hiv16]

end

end Rtl8188eu
