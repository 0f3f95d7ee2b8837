import StandaloneDrivers.Rtl8188eu.EfuseAppend

/-! Writing a range of the map: each section is compared with the map as it was read, and its
changed words are written as one packet. Allocations succeed and the firmware's own map read is
off, as the driver sets it for a write. -/
namespace Rtl8188eu.Efuse
open Foundations

def rtwEfuseMapRead (s : EfuseState) (addr cnts : ℕ) (data : Memory) :
    Option (Bool × Memory × EfuseState) :=
  if efuseMapLen88E < addr + cnts then some (false, data, s)
  else do
    let r ← halEfuseReadEFuse88E s addr cnts data
    some (true, r.1, r.2)

namespace MapWrite

/-- The loop variables, and the packet of the section at hand. -/
structure Diff where
  i : ℕ
  idx : ℕ
  wordEn : UInt8
  newdata : Memory

def put (d : Diff) (j : ℕ) (low high : UInt8) : Diff :=
  { d with
    wordEn := d.wordEn &&& ~~~bit (d.i / 2)
    newdata := Function.update (Function.update d.newdata j low) (j + 1) high }

def oddStart (map data : Memory) (addr : ℕ) (d : Diff) : Diff :=
  if d.i % 2 = 1 then
    let d' := if data d.idx ≠ map (addr + d.idx) then
      put d (d.i - 1) (map (addr + d.idx - 1)) (data d.idx) else d
    { d' with i := d.i + 1, idx := d.idx + 1 }
  else d

/-- The loop over the words of a section, at most `n` of them. -/
def words (map data : Memory) (addr cnts : ℕ) : ℕ → Diff → Diff
  | 0, d => d
  | n + 1, d =>
    if pgpktDataSize ≤ d.i then d
    else if cnts = d.idx then d
    else if cnts - d.idx = 1 then
      let d' := if data d.idx ≠ map (addr + d.idx) then
        put d d.i (data d.idx) (map (addr + d.idx + 1)) else d
      { d' with idx := d.idx + 1 }
    else
      let d' := if data d.idx ≠ map (addr + d.idx) ∨
          data (d.idx + 1) ≠ map (addr + d.idx + 1) then
        put d d.i (data d.idx) (data (d.idx + 1)) else d
      if d.idx + 2 = cnts then { d' with idx := d.idx + 2 }
      else words map data addr cnts n { d' with i := d.i + 2, idx := d.idx + 2 }

def erasedPacket (newdata : Memory) : Memory :=
  fun j => if j < pgpktDataSize then 0xFF else newdata j

/-- The loop over the sections, at most `n` of them. -/
def sections (fuel : ℕ) (map data : Memory) (addr cnts : ℕ) :
    ℕ → EfuseState → UInt8 → Diff → Option (Bool × EfuseState)
  | 0, _, _, _ => none
  | n + 1, s, offset, d =>
    let d := words map data addr cnts efuseMaxWordUnit d
    let next : EfuseState → Option (Bool × EfuseState) := fun s =>
      if d.idx = cnts then some (true, s)
      else
        sections fuel map data addr cnts n s (offset + 1)
          ⟨0, d.idx, 0x0F, erasedPacket d.newdata⟩
    if d.wordEn ≠ 0x0F then do
      let w ← halEfusePgPacketWrite fuel s offset d.wordEn d.newdata
      if w.1 then next w.2 else some (false, w.2)
    else next s

end MapWrite

/-- `rtw_efuse_map_write`: whether it returns `_SUCCESS`, and the state. -/
def rtwEfuseMapWrite (fuel : ℕ) (s : EfuseState) (addr cnts : ℕ) (data : Memory) :
    Option (Bool × EfuseState) :=
  if efuseMapLen88E < addr + cnts then some (false, s)
  else do
    let map ← rtwEfuseMapRead s 0 efuseMapLen88E fun _ => 0
    if map.1 then
      MapWrite.sections fuel map.2.1 data addr cnts fuel map.2.2 (UInt8.ofNat (addr / 8))
        (MapWrite.oddStart map.2.1 data addr ⟨addr % 8, 0, 0x0F, fun _ => 0xFF⟩)
    else some (false, map.2.2)

namespace MapWrite

/-- The map with the range replaced. -/
def merged (map data : Memory) (addr cnts : ℕ) : Memory :=
  fun j => if addr ≤ j ∧ j < addr + cnts then data (j - addr) else map j

/-- Word `w` of section `k` differs. -/
def changed (new map : Memory) (k w : ℕ) : Bool :=
  decide (new (8 * k + 2 * w) ≠ map (8 * k + 2 * w) ∨
    new (8 * k + 2 * w + 1) ≠ map (8 * k + 2 * w + 1))

def changedWords (new map : Memory) (k : ℕ) : UInt8 := maskOf (changed new map k) 4

/-- The words of section `k` below `w` are compared. -/
structure Scan (new map : Memory) (k w : ℕ) (d : Diff) : Prop where
  wordEn : d.wordEn = maskOf (changed new map k) w
  newdata : ∀ v < w, changed new map k v = true → ∀ half < 2,
    d.newdata (2 * v + half) = new (8 * k + 2 * v + half)

namespace Scan
variable {new map : Memory} {k w : ℕ} {d : Diff}

theorem start (i idx : ℕ) (newdata : Memory) : Scan new map k 0 ⟨i, idx, 0x0F, newdata⟩ :=
  ⟨rfl, fun v hv => absurd hv (Nat.not_lt_zero v)⟩

theorem move (h : Scan new map k w d) (i idx : ℕ) :
    Scan new map k w { d with i := i, idx := idx } := ⟨h.wordEn, h.newdata⟩

theorem same (h : Scan new map k w d) (hw : changed new map k w = false) :
    Scan new map k (w + 1) d := by
  constructor
  · rw [maskOf, hw, if_neg Bool.false_ne_true]
    exact h.wordEn
  · intro v hv hc
    have hne : v ≠ w := by
      rintro rfl
      rw [hw] at hc
      contradiction
    exact h.newdata v (by omega) hc

theorem skip (h : Scan new map k w d) {w' : ℕ} (hw : w ≤ w')
    (hsame : ∀ v, w ≤ v → v < w' → changed new map k v = false) : Scan new map k w' d := by
  induction w', hw using Nat.le_induction with
  | base => exact h
  | succ v hv ih =>
    exact (ih fun u hu hlt => hsame u hu (by omega)).same (hsame v hv (Nat.lt_succ_self v))

theorem put (h : Scan new map k w d) (hw : changed new map k w = true) {j : ℕ} {low high : UInt8}
    (hi : d.i / 2 = w) (hj : j = 2 * w) (hlow : low = new (8 * k + 2 * w))
    (hhigh : high = new (8 * k + 2 * w + 1)) : Scan new map k (w + 1) (MapWrite.put d j low high) := by
  subst hj
  constructor
  · rw [maskOf, hw, if_pos rfl, ← h.wordEn, ← hi]
    rfl
  · intro v hv hc half hhalf
    unfold MapWrite.put
    dsimp only
    obtain rfl | hlt : v = w ∨ v < w := by omega
    · obtain rfl | rfl : half = 0 ∨ half = 1 := by omega
      · rw [Function.update_of_ne (by omega), Nat.add_zero, Function.update_self]
        exact hlow
      · rw [Function.update_self]
        exact hhigh
    · rw [Function.update_of_ne (by omega), Function.update_of_ne (by omega)]
      exact h.newdata v hlt hc half hhalf

end Scan

section Range
variable {map data : Memory} {addr cnts : ℕ}

theorem merged_in {j : ℕ} (h : addr ≤ j) (h' : j < addr + cnts) :
    merged map data addr cnts j = data (j - addr) := if_pos ⟨h, h'⟩

theorem merged_out {j : ℕ} (h : j < addr ∨ addr + cnts ≤ j) :
    merged map data addr cnts j = map j := if_neg (by omega)

theorem changed_out {k w : ℕ} (h : 8 * k + 2 * w + 1 < addr ∨ addr + cnts ≤ 8 * k + 2 * w) :
    changed (merged map data addr cnts) map k w = false := by
  rw [changed, merged_out (by omega), merged_out (by omega)]
  simp

/-- Where a section's loop ends: the section is compared, and the range is done or goes on. -/
def SectionDone (map data : Memory) (addr cnts k : ℕ) (d : Diff) : Prop :=
  Scan (merged map data addr cnts) map k 4 d ∧
    (d.idx = cnts ∧ addr + cnts ≤ 8 * (k + 1) ∨ d.idx < cnts ∧ addr + d.idx = 8 * (k + 1))

theorem words_spec {k : ℕ} (n : ℕ) {w : ℕ} {d : Diff}
    (h : Scan (merged map data addr cnts) map k w d) (hw : w ≤ 4) (hn : 4 ≤ w + n)
    (hi : d.i = 2 * w) (hpos : addr + d.idx = 8 * k + 2 * w) (hidx : d.idx ≤ cnts) :
    SectionDone map data addr cnts k (words map data addr cnts n d) := by
  induction n generalizing w d with
  | zero =>
    obtain rfl : w = 4 := by omega
    refine ⟨h, ?_⟩
    rw [words]
    omega
  | succ n ih =>
    rw [words, pgpktDataSize]
    by_cases hend : 8 ≤ d.i
    · obtain rfl : w = 4 := by omega
      rw [if_pos hend]
      exact ⟨h, by omega⟩
    · rw [if_neg hend]
      have hdiv : d.i / 2 = w := by omega
      have hat : 8 * k + 2 * w - addr = d.idx := by omega
      have hat' : 8 * k + 2 * w + 1 - addr = d.idx + 1 := by omega
      have hskip : ∀ v, addr + cnts ≤ 8 * k + 2 * v →
          changed (merged map data addr cnts) map k v = false := by
        intro v hv
        exact changed_out (Or.inr hv)
      by_cases hdone : cnts = d.idx
      · rw [if_pos hdone]
        exact ⟨h.skip hw fun v hv _ => hskip v (by omega), Or.inl ⟨hdone.symm, by omega⟩⟩
      · rw [if_neg hdone]
        have hfirst : merged map data addr cnts (8 * k + 2 * w) = data d.idx := by
          rw [merged_in (by omega) (by omega), hat]
        by_cases hlast : cnts - d.idx = 1
        · rw [if_pos hlast]
          have hsecond : merged map data addr cnts (8 * k + 2 * w + 1) = map (addr + d.idx + 1) := by
            rw [merged_out (by omega), hpos]
          have hchanged : changed (merged map data addr cnts) map k w =
              decide (data d.idx ≠ map (addr + d.idx)) := by
            rw [changed, hfirst, hsecond, hpos]
            simp
          dsimp only
          split
          · rename_i hne
            rw [decide_eq_true hne] at hchanged
            have hput := h.put hchanged hdiv hi hfirst.symm hsecond.symm
            exact ⟨(hput.move _ _).skip (by omega) fun v hv _ => hskip v (by omega),
              Or.inl ⟨by dsimp only; omega, by omega⟩⟩
          · rename_i heq
            rw [decide_eq_false heq] at hchanged
            exact ⟨((h.same hchanged).move _ _).skip (by omega) fun v hv _ => hskip v (by omega),
              Or.inl ⟨by dsimp only; omega, by omega⟩⟩
        · rw [if_neg hlast]
          have hsecond : merged map data addr cnts (8 * k + 2 * w + 1) = data (d.idx + 1) := by
            rw [merged_in (by omega) (by omega), hat']
          have hchanged : changed (merged map data addr cnts) map k w =
              decide (data d.idx ≠ map (addr + d.idx) ∨
                data (d.idx + 1) ≠ map (addr + d.idx + 1)) := by
            rw [changed, hfirst, hsecond, hpos]
          have hnext : ∀ d' : Diff, Scan (merged map data addr cnts) map k (w + 1) d' →
              SectionDone map data addr cnts k
                (if d.idx + 2 = cnts then { d' with idx := d.idx + 2 }
                else words map data addr cnts n { d' with i := d.i + 2, idx := d.idx + 2 }) := by
            intro d' hd'
            split
            · rename_i hfull
              exact ⟨(hd'.move _ _).skip (by omega) fun v hv _ => hskip v (by omega),
                Or.inl ⟨hfull, by omega⟩⟩
            · apply ih (hd'.move _ _) (by omega) (by omega)
              · dsimp only
                omega
              · dsimp only
                omega
              · dsimp only
                omega
          dsimp only
          apply hnext
          split
          · rename_i hne
            rw [decide_eq_true hne] at hchanged
            exact h.put hchanged hdiv hi hfirst.symm hsecond.symm
          · rename_i heq
            rw [decide_eq_false heq] at hchanged
            exact h.same hchanged

/-- The first section from the range's address on. -/
theorem oddStart_spec (hcnts : 1 ≤ cnts) :
    SectionDone map data addr cnts (addr / 8)
      (words map data addr cnts efuseMaxWordUnit
        (oddStart map data addr ⟨addr % 8, 0, 0x0F, fun _ => 0xFF⟩)) := by
  have hskip : ∀ v, 8 * (addr / 8) + 2 * v + 1 < addr →
      changed (merged map data addr cnts) map (addr / 8) v = false := by
    intro v hv
    exact changed_out (Or.inl hv)
  have hscan : Scan (merged map data addr cnts) map (addr / 8) (addr % 8 / 2)
      ⟨addr % 8, 0, 0x0F, fun _ => 0xFF⟩ :=
    (Scan.start _ _ _).skip (Nat.zero_le _) fun v _ hv => hskip v (by omega)
  unfold oddStart
  dsimp only
  split
  · have hlow : merged map data addr cnts (8 * (addr / 8) + 2 * (addr % 8 / 2)) =
        map (addr + 0 - 1) := by
      rw [merged_out (by omega)]
      congr 1
      omega
    have hhigh : merged map data addr cnts (8 * (addr / 8) + 2 * (addr % 8 / 2) + 1) = data 0 := by
      rw [merged_in (by omega) (by omega)]
      congr 1
      omega
    have hchanged : changed (merged map data addr cnts) map (addr / 8) (addr % 8 / 2) =
        decide (data 0 ≠ map (addr + 0)) := by
      have hat : 8 * (addr / 8) + 2 * (addr % 8 / 2) = addr + 0 - 1 := by omega
      have hat' : addr + 0 - 1 + 1 = addr + 0 := by omega
      rw [changed, hlow, hhigh, hat, hat']
      simp
    have hend : ∀ d' : Diff,
        Scan (merged map data addr cnts) map (addr / 8) (addr % 8 / 2 + 1) d' →
        SectionDone map data addr cnts (addr / 8) (words map data addr cnts efuseMaxWordUnit
          { d' with i := addr % 8 + 1, idx := 0 + 1 }) := by
      intro d' hd'
      apply words_spec efuseMaxWordUnit (hd'.move _ _) (by omega)
        (by rw [efuseMaxWordUnit]; omega)
      · dsimp only
        omega
      · dsimp only
        omega
      · exact hcnts
    apply hend
    split
    · rename_i hne
      rw [decide_eq_true hne] at hchanged
      exact hscan.put hchanged rfl (by omega) hlow.symm hhigh.symm
    · rename_i heq
      rw [decide_eq_false heq] at hchanged
      exact hscan.same hchanged
  · apply words_spec efuseMaxWordUnit hscan (by omega) (by rw [efuseMaxWordUnit]; omega)
    · dsimp only
      omega
    · dsimp only
      omega
    · exact Nat.zero_le _

/-- Section after section: a property of the state that each write and each unchanged section
hands on holds when the range is done. Otherwise a write was refused. -/
theorem sections_run (fuel : ℕ) (I : ℕ → EfuseState → Prop) (F : Prop)
    (hrange : addr + cnts ≤ efuseMapLen88E)
    (hwrite : ∀ k s (newdata : Memory), 8 * k < addr + cnts → I k s →
      changedWords (merged map data addr cnts) map k ≠ 0x0F →
      (∀ i < 8, wordEnabled (changedWords (merged map data addr cnts) map k) (i / 2) = true →
        newdata i = merged map data addr cnts (8 * k + i)) →
      (∃ s', halEfusePgPacketWrite fuel s (UInt8.ofNat k)
        (changedWords (merged map data addr cnts) map k) newdata = some (false, s') ∧ F) ∨
      ∃ s', halEfusePgPacketWrite fuel s (UInt8.ofNat k)
        (changedWords (merged map data addr cnts) map k) newdata = some (true, s') ∧ I (k + 1) s')
    (hskip : ∀ k s, 8 * k < addr + cnts → I k s →
      changedWords (merged map data addr cnts) map k = 0x0F → I (k + 1) s)
    (n : ℕ) {k : ℕ} {s : EfuseState} {d : Diff} (hn : 64 ≤ k + n) (hk : 8 * k < addr + cnts)
    (hdone : SectionDone map data addr cnts k (words map data addr cnts efuseMaxWordUnit d))
    (hs : I k s) :
    ∃ ret s', sections fuel map data addr cnts n s (UInt8.ofNat k) d = some (ret, s') ∧
      (ret = false → F) ∧ (ret = true → ∃ k', I k' s' ∧ addr + cnts ≤ 8 * k') := by
  rw [efuseMapLen88E] at hrange
  induction n generalizing k s d with
  | zero => omega
  | succ n ih =>
    obtain ⟨hscan, hend⟩ := hdone
    have hword : (words map data addr cnts efuseMaxWordUnit d).wordEn =
        changedWords (merged map data addr cnts) map k := hscan.wordEn
    have hnext : ∀ s, I (k + 1) s → ∃ ret s',
        (if (words map data addr cnts efuseMaxWordUnit d).idx = cnts then some (true, s)
        else sections fuel map data addr cnts n s (UInt8.ofNat k + 1)
          ⟨0, (words map data addr cnts efuseMaxWordUnit d).idx, 0x0F,
            erasedPacket (words map data addr cnts efuseMaxWordUnit d).newdata⟩) =
          some (ret, s') ∧
        (ret = false → F) ∧ (ret = true → ∃ k', I k' s' ∧ addr + cnts ≤ 8 * k') := by
      intro s hs
      split
      · rename_i hfull
        refine ⟨true, s, rfl, fun h => Bool.noConfusion h, fun _ => ⟨k + 1, hs, ?_⟩⟩
        omega
      · rename_i hfull
        have hoffset : UInt8.ofNat k + 1 = UInt8.ofNat (k + 1) := by
          rw [UInt8.ofNat_add]
          rfl
        rw [hoffset]
        apply ih (by omega) (by omega) _ hs
        apply words_spec efuseMaxWordUnit (Scan.start _ _ _) (Nat.zero_le _) le_rfl rfl
        · dsimp only
          omega
        · dsimp only
          omega
    rw [sections]
    dsimp only
    rw [hword]
    split
    · rename_i hchanged
      have hdata : ∀ i < 8, wordEnabled (changedWords (merged map data addr cnts) map k) (i / 2) =
          true → (words map data addr cnts efuseMaxWordUnit d).newdata i =
            merged map data addr cnts (8 * k + i) := by
        intro i hi he
        rw [changedWords, maskOf_enabled _ (by omega)] at he
        have hbyte := hscan.newdata (i / 2) (by omega) he (i % 2) (Nat.mod_lt _ (by omega))
        rwa [Nat.div_add_mod, Nat.add_assoc, Nat.div_add_mod] at hbyte
      obtain ⟨s', hrun, hF⟩ | ⟨s', hrun, hs'⟩ := hwrite k s _ hk hs hchanged hdata
      · rw [hrun]
        exact ⟨false, s', rfl, fun _ => hF, fun h => Bool.noConfusion h⟩
      · rw [hrun]
        exact hnext s' hs'
    · rename_i hsame
      exact hnext s (hskip k s hk hs (not_not.mp hsame))

end Range

theorem changed_false {new map : Memory} {k i : ℕ} (h : changed new map k (i / 2) = false) :
    new (8 * k + i) = map (8 * k + i) := by
  rw [changed, decide_eq_false_iff_not, not_or, not_not, not_not] at h
  obtain hi | hi : i = 2 * (i / 2) ∨ i = 2 * (i / 2) + 1 := by omega
  · rw [hi]
    exact h.1
  · rw [hi]
    exact h.2

theorem changedWords_void {new map : Memory} {k : ℕ} (h : changedWords new map k = 0x0F) :
    ∀ w < 4, changed new map k w = false := by
  intro w hw
  rw [← maskOf_enabled (changed new map k) hw]
  exact (congrArg (wordEnabled · w) h).trans (void_enabled w hw)

end MapWrite

end Rtl8188eu.Efuse
