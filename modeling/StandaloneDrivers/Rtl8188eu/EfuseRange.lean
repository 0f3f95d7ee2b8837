import StandaloneDrivers.Rtl8188eu.EfuseMapWrite

/-! The whole map before and after a range is written, wherever the packets of the range find
unprogrammed fuses. -/
namespace Rtl8188eu.Efuse
open Foundations

/-- The packets of a range that ends at `last`, from section `k` and address `e` on: up to the new
end, or to where the room is used up. -/
inductive Room (content new map : Memory) (last : ℕ) : ℕ → ℕ → Option ℕ → Prop
  | done {k e : ℕ} (done : last ≤ 8 * k) : Room content new map last k e (some e)
  | same {k e : ℕ} {r : Option ℕ} (more : 8 * k < last)
      (same : MapWrite.changedWords new map k = 0x0F)
      (rest : Room content new map last (k + 1) e r) : Room content new map last k e r
  | refused {k e : ℕ} (more : 8 * k < last) (changed : MapWrite.changedWords new map k ≠ 0x0F)
      (takes : Takes content (UInt8.ofNat k) (fun i => new (8 * k + i))
        (MapWrite.changedWords new map k) e none) : Room content new map last k e none
  | packet {k e e' : ℕ} {r : Option ℕ} (more : 8 * k < last)
      (changed : MapWrite.changedWords new map k ≠ 0x0F)
      (takes : Takes content (UInt8.ofNat k) (fun i => new (8 * k + i))
        (MapWrite.changedWords new map k) e (some e'))
      (rest : Room content new map last (k + 1) e' r) : Room content new map last k e r

namespace Room
variable {content new map : Memory} {last k e : ℕ} {r : Option ℕ}

theorem of_done (h : Room content new map last k e r) (hk : last ≤ 8 * k) : r = some e := by
  cases h with
  | done => rfl
  | same more => omega
  | refused more => omega
  | packet more => omega

theorem of_same (h : Room content new map last k e r) (hk : 8 * k < last)
    (hsame : MapWrite.changedWords new map k = 0x0F) : Room content new map last (k + 1) e r := by
  cases h with
  | done done => omega
  | same _ _ rest => exact rest
  | refused _ changed => exact absurd hsame changed
  | packet _ changed => exact absurd hsame changed

theorem of_changed (h : Room content new map last k e r) (hk : 8 * k < last)
    (hchanged : MapWrite.changedWords new map k ≠ 0x0F) :
    ∃ e', Takes content (UInt8.ofNat k) (fun i => new (8 * k + i))
        (MapWrite.changedWords new map k) e e' ∧
      (e' = none ∧ r = none ∨ ∃ a, e' = some a ∧ Room content new map last (k + 1) a r) := by
  cases h with
  | done done => omega
  | same _ same => exact absurd same hchanged
  | refused _ _ takes => exact ⟨none, takes, Or.inl ⟨rfl, rfl⟩⟩
  | packet _ _ takes rest => exact ⟨_, takes, Or.inr ⟨_, rfl, rest⟩⟩

end Room

/-- The sections below `k` are written: their changed words read `new`, all others as before. -/
structure Progress (content new map base : Memory) (last : ℕ) (r : Option ℕ) (k : ℕ)
    (s : EfuseState) (ps : List Packet) (e : ℕ) : Prop where
  laid : Laid s ps e
  le : e ≤ 248
  behind : ∀ a, e ≤ a → s.content a = content a
  room : Room content new map last k e r
  bytes : ∀ o < 64, ∀ i < 8, mapByte s.content o i ps =
    if o < k ∧ MapWrite.changed new map o (i / 2) = true then new (8 * o + i)
    else base (8 * o + i)
  empty : s.content 0 = 0xFF →
    content 0 = 0xFF ∧ ∀ o < k, ∀ w < 4, MapWrite.changed new map o w = false
  unwritten : (∀ o < k, ∀ w < 4, MapWrite.changed new map o w = false) →
    s.content 0 = content 0

namespace Progress
variable {content new map base : Memory} {last k e : ℕ} {r : Option ℕ} {s : EfuseState}
  {ps : List Packet}

/-- Below the first section nothing differs. -/
theorem start {data : Memory} {addr cnts : ℕ} (hlaid : Laid s ps e) (he : e ≤ 248)
    (hroom : Room s.content (MapWrite.merged map data addr cnts) map (addr + cnts) (addr / 8) e r)
    (hbytes : ∀ o < 64, ∀ i < 8, mapByte s.content o i ps = base (8 * o + i)) :
    Progress s.content (MapWrite.merged map data addr cnts) map base (addr + cnts) r (addr / 8)
      s ps e := by
  have hbelow : ∀ o < addr / 8, ∀ w < 4,
      MapWrite.changed (MapWrite.merged map data addr cnts) map o w = false := by
    intro o ho w hw
    exact MapWrite.changed_out (Or.inl (by omega))
  constructor
  · exact hlaid
  · exact he
  · exact fun _ _ => rfl
  · exact hroom
  · intro o ho i hi
    rw [hbytes o ho i hi, if_neg]
    rintro ⟨hlt, hc⟩
    rw [hbelow o hlt (i / 2) (by omega)] at hc
    contradiction
  · exact fun hff => ⟨hff, hbelow⟩
  · exact fun _ => rfl

theorem skip (h : Progress content new map base last r k s ps e) (hk : 8 * k < last)
    (hsame : MapWrite.changedWords new map k = 0x0F) :
    Progress content new map base last r (k + 1) s ps e := by
  have hvoid := MapWrite.changedWords_void hsame
  constructor
  · exact h.laid
  · exact h.le
  · exact h.behind
  · exact h.room.of_same hk hsame
  · intro o ho i hi
    rw [h.bytes o ho i hi]
    apply if_congr _ rfl rfl
    constructor
    · rintro ⟨hlt, hc⟩
      exact ⟨by omega, hc⟩
    · rintro ⟨hlt, hc⟩
      refine ⟨lt_of_le_of_ne (by omega) ?_, hc⟩
      rintro rfl
      rw [hvoid (i / 2) (by omega)] at hc
      contradiction
  · intro hff
    obtain ⟨h0, hnone⟩ := h.empty hff
    refine ⟨h0, fun o ho w hw => ?_⟩
    obtain rfl | hlt : o = k ∨ o < k := by omega
    · exact hvoid w hw
    · exact hnone o hlt w hw
  · exact fun hnone => h.unwritten fun o ho => hnone o (by omega)

theorem write (h : Progress content new map base last r k s ps e) (hk : 8 * k < last)
    (hlast : last ≤ 512) (hchanged : MapWrite.changedWords new map k ≠ 0x0F) {newdata : Memory}
    (hdata : ∀ i < 8, wordEnabled (MapWrite.changedWords new map k) (i / 2) = true →
      newdata i = new (8 * k + i)) {fuel : ℕ} (hfuel : 250 ≤ fuel) :
    (∃ s', halEfusePgPacketWrite fuel s (UInt8.ofNat k) (MapWrite.changedWords new map k) newdata =
      some (false, s') ∧ r = none) ∨
    ∃ s', halEfusePgPacketWrite fuel s (UInt8.ofNat k) (MapWrite.changedWords new map k) newdata =
      some (true, s') ∧ ∃ ps e, Progress content new map base last r (k + 1) s' ps e := by
  have hoff : (UInt8.ofNat k).toNat = k := UInt8.toNat_ofNat_of_lt' (by
    change k < 256
    omega)
  obtain ⟨e', htakes, hrest⟩ := h.room.of_changed hk hchanged
  obtain ⟨hrefused, hwritten⟩ := htakes.run (by omega) h.laid h.behind (maskOf_spec _ le_rfl).1
    hchanged hdata h.le (by omega : 250 ≤ fuel + e)
  obtain ⟨rfl, rfl⟩ | ⟨a, rfl, hroom⟩ := hrest
  · obtain ⟨s', hrun⟩ := hrefused rfl
    exact Or.inl ⟨s', hrun, rfl⟩
  · obtain ⟨s', qs, hrun, hw⟩ := hwritten a rfl
    have hend := htakes.end_le rfl
    refine Or.inr ⟨s', hrun, ps ++ qs, a, ?_, ?_, ?_, ?_, ?_, ?_, ?_⟩
    · exact hw.laid
    · exact hend.2
    · intro b hb
      rw [hw.behind b hb]
      exact h.behind b (by omega)
    · exact hroom
    · intro o ho i hi
      rw [hw.map o ho i hi, hoff, h.bytes o ho i hi, MapWrite.changedWords,
        maskOf_enabled _ (by omega)]
      by_cases hsec : o = k
      · subst hsec
        simp only [true_and, Nat.lt_irrefl, false_and, if_false, Nat.lt_succ_self]
      · have hlt : o < k + 1 ↔ o < k := by omega
        simp only [hsec, false_and, if_false, hlt]
    · intro hff
      obtain ⟨-, hzero⟩ := hw.laid.of_empty hff
      omega
    · intro hnone
      exact absurd (maskOf_void (hnone k (Nat.lt_succ_self k))) hchanged

end Progress

section Reads
variable {s : EfuseState}

/-- An empty efuse leaves the buffer and the register. -/
theorem mapRead_empty (h0 : s.content 0 = 0xFF) (pbuf : Memory) :
    rtwEfuseMapRead s 0 efuseMapLen88E pbuf = some (true, pbuf, s) := by
  rw [rtwEfuseMapRead, if_neg (by omega), halEfuseReadEFuse88E, if_neg (by omega), if_pos h0]
  rfl

theorem mapRead_loop (h0 : s.content 0 ≠ 0xFF) {r : Reader.State}
    (hr : loop Reader.more (Reader.round s.content) 256 ⟨1, s.content 0, fun _ _ => 0xFFFF⟩ =
      some r) (pbuf : Memory) :
    rtwEfuseMapRead s 0 efuseMapLen88E pbuf =
      some (true, fun j => if j < 512 then Reader.efuseTbl r.eFuseWord j else pbuf j,
        { s with efuseUsedBytes := r.eFuseAddr }) := by
  rw [rtwEfuseMapRead, if_neg (by omega), halEfuseReadEFuse88E, if_neg (by omega), if_neg h0]
  simp only [efuseRealContentLen88E, hr, Option.bind_eq_bind, Option.bind_some, Nat.zero_add,
    efuseMapLen88E]

theorem mapRead_ended {ps : List Packet} {e : ℕ} (h0 : s.content 0 ≠ 0xFF)
    (hlog : Log (readNext s.content) 0 ps e) (hended : s.content e = 0xFF) (pbuf : Memory) :
    ∃ map, rtwEfuseMapRead s 0 efuseMapLen88E pbuf =
        some (true, map, { s with efuseUsedBytes := e }) ∧
      ∀ j < 512, map j = mapByte s.content (j / 8) (j % 8) ps := by
  obtain ⟨map, hread, hbytes⟩ := halEfuseReadEFuse_ended h0 hlog hended pbuf
  refine ⟨map, ?_, hbytes⟩
  rw [rtwEfuseMapRead, if_neg (by omega), hread]
  rfl

end Reads

/-- The whole map, read into the same buffer before and after, has the range replaced. -/
def RangeWritten (s s' : EfuseState) (addr cnts : ℕ) (data pbuf : Memory) : Prop :=
  ∃ before s₁ after s₂, rtwEfuseMapRead s 0 efuseMapLen88E pbuf = some (true, before, s₁) ∧
    rtwEfuseMapRead s' 0 efuseMapLen88E pbuf = some (true, after, s₂) ∧
    ∀ j < 512, after j = MapWrite.merged before data addr cnts j

/-- The write of a range comes back, and with success only where the range is written. -/
def WritesRange (s : EfuseState) (addr cnts : ℕ) (data pbuf : Memory) : Prop :=
  ∃ enough, ∀ fuel ≥ enough, ∃ ret s', rtwEfuseMapWrite fuel s addr cnts data = some (ret, s') ∧
    (ret = true → RangeWritten s s' addr cnts data pbuf)

namespace MapWrite
variable {s s₁ : EfuseState} {addr cnts : ℕ} {data map : Memory}

theorem merged_congr {before : Memory} {j : ℕ} (h : before j = map j) :
    merged before data addr cnts j = merged map data addr cnts j := by
  unfold merged
  rw [h]

theorem start (hread : rtwEfuseMapRead s 0 efuseMapLen88E (fun _ => 0) = some (true, map, s₁))
    (hrange : addr + cnts ≤ efuseMapLen88E) (fuel : ℕ) :
    rtwEfuseMapWrite fuel s addr cnts data =
      sections fuel map data addr cnts fuel s₁ (UInt8.ofNat (addr / 8))
        (oddStart map data addr ⟨addr % 8, 0, 0x0F, fun _ => 0xFF⟩) := by
  rw [rtwEfuseMapWrite, if_neg (Nat.not_lt.mpr hrange), hread]
  rfl

/-- Packets find room, section by section, from a laid out log on. -/
theorem run_room (hcnts : 1 ≤ cnts) (hrange : addr + cnts ≤ efuseMapLen88E)
    (hread : rtwEfuseMapRead s 0 efuseMapLen88E (fun _ => 0) = some (true, map, s₁))
    {base : Memory} {r : Option ℕ} {ps : List Packet} {e : ℕ}
    (h : Progress s.content (merged map data addr cnts) map base (addr + cnts) r (addr / 8) s₁ ps e)
    {fuel : ℕ} (hfuel : 250 ≤ fuel) :
    ∃ ret s', rtwEfuseMapWrite fuel s addr cnts data = some (ret, s') ∧
      (ret = false → r = none) ∧ (ret = true → r ≠ none ∧ ∃ k ps e, addr + cnts ≤ 8 * k ∧
        Progress s.content (merged map data addr cnts) map base (addr + cnts) r k s' ps e) := by
  have hlen : efuseMapLen88E = 512 := rfl
  rw [start hread hrange]
  have hwrite : ∀ k st (newdata : Memory), 8 * k < addr + cnts →
      (∃ ps e, Progress s.content (merged map data addr cnts) map base (addr + cnts) r k st ps e) →
      changedWords (merged map data addr cnts) map k ≠ 0x0F →
      (∀ i < 8, wordEnabled (changedWords (merged map data addr cnts) map k) (i / 2) = true →
        newdata i = merged map data addr cnts (8 * k + i)) →
      (∃ s', halEfusePgPacketWrite fuel st (UInt8.ofNat k)
        (changedWords (merged map data addr cnts) map k) newdata = some (false, s') ∧ r = none) ∨
      ∃ s', halEfusePgPacketWrite fuel st (UInt8.ofNat k)
        (changedWords (merged map data addr cnts) map k) newdata = some (true, s') ∧ ∃ ps e,
          Progress s.content (merged map data addr cnts) map base (addr + cnts) r (k + 1) s' ps e := by
    intro k st newdata hk ⟨ps, e, hst⟩ hchanged hdata
    exact hst.write hk (by omega) hchanged hdata hfuel
  obtain ⟨ret, s', hrun, hfail, hok⟩ := sections_run fuel
    (fun k st => ∃ ps e, Progress s.content (merged map data addr cnts) map base
      (addr + cnts) r k st ps e) (r = none) hrange hwrite
    (fun k st hk ⟨ps, e, hst⟩ hsame => ⟨ps, e, hst.skip hk hsame⟩)
    fuel (by omega) (by omega) (oddStart_spec hcnts) ⟨ps, e, h⟩
  refine ⟨ret, s', hrun, hfail, fun hret => ?_⟩
  obtain ⟨k, ⟨ps', e', hend⟩, hlast⟩ := hok hret
  refine ⟨?_, k, ps', e', hlast, hend⟩
  rw [hend.room.of_done hlast]
  exact Option.some_ne_none e'

/-- Where the room is used up, only a range that differs nowhere is written. -/
theorem run_full (data : Memory) (hcnts : 1 ≤ cnts) (hrange : addr + cnts ≤ efuseMapLen88E)
    (hread : rtwEfuseMapRead s 0 efuseMapLen88E (fun _ => 0) = some (true, map, s₁))
    (hfull : 238 ≤ s₁.efuseUsedBytes) {fuel : ℕ} (hfuel : 250 ≤ fuel) :
    ∃ ret s', rtwEfuseMapWrite fuel s addr cnts data = some (ret, s') ∧
      (ret = true → s' = s₁ ∧ ∀ j < 512, merged map data addr cnts j = map j) := by
  have hlen : efuseMapLen88E = 512 := rfl
  obtain ⟨qs, e, hlog⟩ := exists_sizeLog s₁.content s₁.efuseUsedBytes
  have hle := hlog.walk.le (sizeNext_lt s₁.content)
  obtain ⟨n, rfl⟩ := Nat.exists_eq_succ_of_ne_zero (by omega : fuel ≠ 0)
  rw [start hread hrange]
  obtain ⟨ret, s', hrun, -, hok⟩ := sections_run (n + 1)
    (fun k st => st = s₁ ∧ ∀ j < 8 * k, merged map data addr cnts j = map j) True hrange
    (by
      rintro k st newdata hk ⟨rfl, -⟩ hchanged hdata
      exact Or.inl ⟨_, halEfusePgPacketWrite_full hlog (by omega) n _ _ _, trivial⟩)
    (by
      rintro k st hk ⟨rfl, hsame⟩ hvoid
      refine ⟨rfl, fun j hj => ?_⟩
      obtain hlt | ⟨i, hi, rfl⟩ : j < 8 * k ∨ ∃ i < 8, j = 8 * k + i :=
        (Nat.lt_or_ge j (8 * k)).imp_right fun hge => ⟨j - 8 * k, by omega, by omega⟩
      · exact hsame j hlt
      · exact changed_false (changedWords_void hvoid (i / 2) (by omega)))
    (n + 1) (by omega) (by omega) (@oddStart_spec map data addr cnts hcnts)
    ⟨rfl, fun j hj => merged_out (Or.inl (by omega))⟩
  refine ⟨ret, s', hrun, fun hret => ?_⟩
  obtain ⟨k, ⟨rfl, hsame⟩, hlast⟩ := hok hret
  refine ⟨rfl, fun j _ => ?_⟩
  obtain hlt | hge := Nat.lt_or_ge j (8 * k)
  · exact hsame j hlt
  · exact merged_out (Or.inr (by omega))

/-- What the reader makes of the finished range. -/
theorem read_after {content base : Memory} {r : Option ℕ} {k e : ℕ} {s' : EfuseState}
    {ps : List Packet}
    (h : Progress content (merged map data addr cnts) map base (addr + cnts) r k s' ps e)
    (hlast : addr + cnts ≤ 8 * k) (h0 : s'.content 0 ≠ 0xFF) (pbuf : Memory) :
    ∃ after s₂, rtwEfuseMapRead s' 0 efuseMapLen88E pbuf = some (true, after, s₂) ∧
      ∀ j < 512, after j =
        if changed (merged map data addr cnts) map (j / 8) (j % 8 / 2) = true then
          merged map data addr cnts j
        else base j := by
  obtain ⟨after, hread, hbytes⟩ := mapRead_ended h0 h.laid.readLog h.laid.ended pbuf
  refine ⟨after, _, hread, fun j hj => ?_⟩
  have hbyte := h.bytes (j / 8) (by omega) (j % 8) (Nat.mod_lt j (by omega))
  rw [Nat.div_add_mod] at hbyte
  rw [hbytes j hj, hbyte]
  apply if_congr _ rfl rfl
  rw [and_iff_right_iff_imp]
  intro hc
  by_contra hge
  rw [changed_out (Or.inr (by omega))] at hc
  contradiction

end MapWrite

/-- What an empty efuse reads as once the range is written: words no packet holds read `0xFF`,
unless there is no packet at all. -/
def fromEmpty (data : Memory) (addr cnts : ℕ) (pbuf : Memory) : Memory :=
  if ∀ i < cnts, data i = 0 then pbuf
  else fun j =>
    if MapWrite.changed (MapWrite.merged (fun _ => 0) data addr cnts) (fun _ => 0) (j / 8)
        (j % 8 / 2) = true then
      MapWrite.merged (fun _ => 0) data addr cnts j
    else 0xFF

/-- The packets of the range find room behind the log the reader reports, up to the new end, or to
where the room is used up. An empty efuse was never read, nor written. -/
structure Writable (s : EfuseState) (addr cnts : ℕ) (data : Memory) (r : Option ℕ) : Prop where
  register : s.content 0 = 0xFF → s.efuseUsedBytes = 0
  room : ∀ map s₁, rtwEfuseMapRead s 0 efuseMapLen88E (fun _ => 0) = some (true, map, s₁) →
    Room s.content (MapWrite.merged map data addr cnts) map (addr + cnts) (addr / 8)
      s₁.efuseUsedBytes r

namespace Writable
variable {s : EfuseState} {addr cnts : ℕ} {data : Memory} {r : Option ℕ}

/-- The log ends where there is room. -/
theorem holds_ended (h : Writable s addr cnts data r) (hcnts : 1 ≤ cnts)
    (hrange : addr + cnts ≤ efuseMapLen88E) (h0 : s.content 0 ≠ 0xFF) {ps : List Packet} {e : ℕ}
    (hlog : Log (readNext s.content) 0 ps e) (hended : s.content e = 0xFF) (he : e < 238)
    (pbuf : Memory) : WritesRange s addr cnts data pbuf := by
  obtain ⟨map, hread, hbytes⟩ := mapRead_ended h0 hlog hended fun _ => 0
  obtain ⟨before, hbefore, hsame⟩ := mapRead_ended h0 hlog hended pbuf
  have hbase : ∀ o < 64, ∀ i < 8, mapByte s.content o i ps = map (8 * o + i) := by
    intro o ho i hi
    have hdiv : (8 * o + i) / 8 = o := by omega
    have hmod : (8 * o + i) % 8 = i := by omega
    rw [hbytes _ (by omega), hdiv, hmod]
  have hlaid : Laid { s with efuseUsedBytes := e } ps e := ⟨hlog.walk, hended, [], Walk.nil e⟩
  have hstart := Progress.start hlaid (by omega) (h.room map _ hread) hbase
  refine ⟨250, fun fuel hfuel => ?_⟩
  obtain ⟨ret, s', hrun, -, hok⟩ := MapWrite.run_room hcnts hrange hread hstart hfuel
  refine ⟨ret, s', hrun, fun hret => ?_⟩
  obtain ⟨-, k, ps', e', hlast, hend⟩ := hok hret
  have h0' : s'.content 0 ≠ 0xFF := fun hff => h0 (hend.empty hff).1
  obtain ⟨after, s₂, hafter, hnew⟩ := MapWrite.read_after hend hlast h0' pbuf
  refine ⟨before, _, after, s₂, hbefore, hafter, fun j hj => ?_⟩
  rw [MapWrite.merged_congr ((hsame j hj).trans (hbytes j hj).symm), hnew j hj]
  split
  · rfl
  · rename_i hc
    have hbyte := MapWrite.changed_false (Bool.not_eq_true _ ▸ hc)
    rw [Nat.div_add_mod] at hbyte
    exact hbyte.symm

/-- An efuse that holds a packet. -/
theorem holds (h : Writable s addr cnts data r) (hcnts : 1 ≤ cnts)
    (hrange : addr + cnts ≤ efuseMapLen88E) (h0 : s.content 0 ≠ 0xFF) (pbuf : Memory) :
    WritesRange s addr cnts data pbuf := by
  obtain ⟨ps, e, hlog⟩ := exists_readLog s.content
  by_cases hroom : s.content e = 0xFF ∧ e < 238
  · exact h.holds_ended hcnts hrange h0 hlog hroom.1 hroom.2 pbuf
  · obtain ⟨rd, hrd, hstops⟩ := Reader.loop_stops h0 hlog
    have hfull : 238 ≤ rd.eFuseAddr := by
      by_cases hended : s.content e = 0xFF
      · have := (hstops.ended hended).1
        have : ¬ e < 238 := fun he => hroom ⟨hended, he⟩
        omega
      · have := hstops.unended hended
        omega
    refine ⟨250, fun fuel hfuel => ?_⟩
    obtain ⟨ret, s', hrun, hok⟩ := MapWrite.run_full data hcnts hrange
      (mapRead_loop h0 hrd fun _ => 0) hfull hfuel
    refine ⟨ret, s', hrun, fun hret => ?_⟩
    obtain ⟨rfl, hsame⟩ := hok hret
    refine ⟨_, _, _, _, mapRead_loop h0 hrd pbuf,
      @mapRead_loop ⟨s.content, rd.eFuseAddr⟩ h0 rd hrd pbuf, fun j hj => ?_⟩
    have hmap := hsame j hj
    rw [if_pos hj] at hmap
    rw [if_pos hj, ← hmap]
    exact MapWrite.merged_congr (by rw [if_pos hj, if_pos hj])

/-- Nothing differs from the cleared map exactly where all data are zero. -/
theorem cleared_iff {k : ℕ} (hlast : addr + cnts ≤ 8 * k) :
    (∀ o < k, ∀ w < 4, MapWrite.changed (MapWrite.merged (fun _ => 0) data addr cnts)
      (fun _ => 0) o w = false) ↔ ∀ i < cnts, data i = 0 := by
  constructor
  · intro hnone i hi
    have hbyte := MapWrite.changed_false
      (hnone ((addr + i) / 8) (by omega) ((addr + i) % 8 / 2) (by omega))
    rw [Nat.div_add_mod, MapWrite.merged_in (by omega) (by omega), Nat.add_sub_cancel_left] at hbyte
    exact hbyte
  · intro hzero o _ w _
    have hmerged : ∀ j, MapWrite.merged (fun _ => 0) data addr cnts j = 0 := by
      intro j
      unfold MapWrite.merged
      split
      · exact hzero _ (by omega)
      · rfl
    rw [MapWrite.changed, hmerged, hmerged]
    rfl

/-- An empty efuse that was never written. -/
theorem empty (h : Writable s addr cnts data r) (hcnts : 1 ≤ cnts)
    (hrange : addr + cnts ≤ efuseMapLen88E) (h0 : s.content 0 = 0xFF) (pbuf : Memory) {fuel : ℕ}
    (hfuel : 250 ≤ fuel) :
    ∃ ret s', rtwEfuseMapWrite fuel s addr cnts data = some (ret, s') ∧ (ret = false → r = none) ∧
      (ret = true → r ≠ none ∧ ∃ after s₂,
        rtwEfuseMapRead s' 0 efuseMapLen88E pbuf = some (true, after, s₂) ∧
        ∀ j < 512, after j = fromEmpty data addr cnts pbuf j) := by
  have hread := mapRead_empty h0 fun _ => 0
  have hroom := h.room _ _ hread
  rw [h.register h0] at hroom
  have hlaid : Laid s [] 0 := by
    refine ⟨Walk.nil 0, h0, [], ?_⟩
    rw [h.register h0]
    exact Walk.nil 0
  have hstart := @Progress.start _ (fun _ => 0xFF) _ _ _ _ _ _ _ hlaid (Nat.zero_le _) hroom
    fun _ _ _ _ => rfl
  obtain ⟨ret, s', hrun, hfail, hok⟩ := MapWrite.run_room hcnts hrange hread hstart hfuel
  refine ⟨ret, s', hrun, hfail, fun hret => ?_⟩
  obtain ⟨hr, k, ps, e, hlast, hend⟩ := hok hret
  refine ⟨hr, ?_⟩
  unfold fromEmpty
  by_cases h0' : s'.content 0 = 0xFF
  · refine ⟨pbuf, s', mapRead_empty h0' pbuf, fun j _ => ?_⟩
    rw [if_pos ((cleared_iff hlast).mp (hend.empty h0').2)]
  · obtain ⟨after, s₂, hafter, hnew⟩ := MapWrite.read_after hend hlast h0' pbuf
    refine ⟨after, s₂, hafter, fun j hj => ?_⟩
    rw [if_neg fun hzero => h0' ((hend.unwritten ((cleared_iff hlast).mpr hzero)).trans h0)]
    exact hnew j hj

end Writable

section Samples

theorem blankEfuse_word : MapWrite.changedWords
    (MapWrite.merged (fun _ => 0) (fun _ => 1) 0 2) (fun _ => 0) 0 = 0x0E := by decide

theorem blankEfuse_writable : Writable blankEfuse 0 2 (fun _ => 1) (some 3) := by
  constructor
  · intro _
    rfl
  · intro map s₁ hread
    rw [mapRead_empty rfl] at hread
    cases hread
    apply Room.packet (by omega)
    · rw [blankEfuse_word]
      decide
    · rw [blankEfuse_word]
      apply Takes.whole
      · exact ⟨by decide, fun _ _ _ => rfl, rfl⟩
      · exact badWords_blank _ fun _ _ _ => rfl
    · exact Room.done (by omega)

theorem fromEmpty_sample (pbuf : Memory) {j : ℕ} (hj : 2 ≤ j) :
    fromEmpty (fun _ => 1) 0 2 pbuf j = 0xFF := by
  rw [fromEmpty, if_neg (by decide), MapWrite.changed_out (Or.inr (by omega))]
  rfl

end Samples

section Endless
variable {s : EfuseState} {e : ℕ}

theorem writeHeaderByte_programmed {content : Memory} {a : ℕ} (h : content a ≠ 0xFF)
    (pgHeader : UInt8) (repeatcnt : ℕ) :
    writeHeaderByte content a pgHeader repeatcnt = (content, repeatcnt) := by
  rw [writeHeaderByte, efuseOneByteWrite, if_neg fun hc => h hc.2, retryHeader_stop _ h]

/-- A byte that is programmed, and no header, holds the loop of the two-byte header. -/
theorem write2ByteHeader_endless (pgPacketWrite : PacketWrite) (pkt : Pgpkt) {a : ℕ} (ha : a < 238)
    (hne : s.content a ≠ 0xFF) (hext : extHeader (s.content a) = false) (fuel repeatcnt : ℕ) :
    halEfusePgPacketWrite2ByteHeader pgPacketWrite pkt fuel s a repeatcnt = none := by
  have hhead : s.content a ≠ pgHeader2 pkt.offset := by
    intro heq
    rw [heq, (pgHeader2_ext pkt.offset).2] at hext
    contradiction
  induction fuel with
  | zero => rfl
  | succ fuel ih =>
    rw [halEfusePgPacketWrite2ByteHeader, if_pos (show a < availableEfuseBytesBank from ha)]
    simp only [writeHeaderByte_programmed hne, if_neg hne, if_neg hhead, hext,
      Bool.false_eq_true, if_false]
    exact ih

/-- An extended header without words where the second header byte should go, and behind it a byte
that is no header. -/
structure Trap (content : Memory) (e : ℕ) : Prop where
  room : e < 236
  first : content e = 0xFF
  second : content (e + 1) ≠ 0xFF ∧ allWordsDisabled (content (e + 1)) = true
  behind : content (e + 2) ≠ 0xFF ∧ extHeader (content (e + 2)) = false

theorem Trap.header (h : Trap s.content e) (pgPacketWrite : PacketWrite) (pkt : Pgpkt)
    (fuel : ℕ) : halEfusePgPacketWrite2ByteHeader pgPacketWrite pkt fuel s e 0 = none := by
  obtain ⟨he, hff, ⟨hsecond, hvoid⟩, hne, hno⟩ := h
  have hhead := (pgHeader2_ext pkt.offset).1
  have hat : ∀ a, e < a →
      Function.update s.content e (pgHeader2 pkt.offset) a = s.content a := by
    intro a ha
    exact Function.update_of_ne (by omega) _ _
  have hprog : Function.update s.content e (pgHeader2 pkt.offset) (e + 1) ≠ 0xFF := by
    rwa [hat _ (by omega)]
  have hne' : Function.update s.content e (pgHeader2 pkt.offset) (e + 2) ≠ 0xFF := by
    rwa [hat _ (by omega)]
  have hno' : extHeader (Function.update s.content e (pgHeader2 pkt.offset) (e + 2)) = false := by
    rwa [hat _ (by omega)]
  cases fuel with
  | zero => rfl
  | succ fuel =>
    have hrest := write2ByteHeader_endless pgPacketWrite pkt (a := e + 2)
      (s := ⟨Function.update s.content e (pgHeader2 pkt.offset), s.efuseUsedBytes⟩) (by omega)
      hne' hno' fuel 1
    rw [halEfusePgPacketWrite2ByteHeader,
      if_pos (show e < availableEfuseBytesBank by change e < 238; omega)]
    simp only [writeHeaderByte_blank (by omega) hff hhead, Function.update_self, if_neg hhead,
      if_true, writeHeaderByte_programmed hprog, if_neg hprog]
    rw [hat _ (by omega), if_pos hvoid, if_neg (by decide)]
    exact hrest

theorem Trap.packet {qs : List Packet} (h : Trap s.content e)
    (hlog : Log (sizeNext s.content) s.efuseUsedBytes qs e) {offset : UInt8}
    (hoff : 16 ≤ offset.toNat) (fuel : ℕ) (wordEn : UInt8) (data : Memory) :
    halEfusePgPacketWrite fuel s offset wordEn data = none := by
  cases fuel with
  | zero => rfl
  | succ fuel =>
    have he := h.room
    rw [halEfusePgPacketWrite_start hlog (by omega), halEfusePgPacketWriteHeader,
      if_pos (show efuseMaxSectionBase ≤
        (halEfuseConstructPGPkt offset wordEn data).offset.toNat from hoff),
      Trap.header (s := ⟨s.content, e⟩) h]
    rfl

/-- Where the log ends at such bytes, the write of a range that starts with a changed section
from the sixteenth on never comes back. -/
theorem map_write_endless {ps : List Packet} (h0 : s.content 0 ≠ 0xFF)
    (hlog : Log (readNext s.content) 0 ps e) (h : Trap s.content e) {addr cnts : ℕ} {data : Memory}
    (hcnts : 1 ≤ cnts) (hrange : addr + cnts ≤ efuseMapLen88E) (haddr : 128 ≤ addr)
    (hchanged : ∀ map s₁, rtwEfuseMapRead s 0 efuseMapLen88E (fun _ => 0) = some (true, map, s₁) →
      MapWrite.changedWords (MapWrite.merged map data addr cnts) map (addr / 8) ≠ 0x0F)
    (fuel : ℕ) : rtwEfuseMapWrite fuel s addr cnts data = none := by
  obtain ⟨map, hread, -⟩ := mapRead_ended h0 hlog h.first fun _ => 0
  have hlen : efuseMapLen88E = 512 := rfl
  have hoff : (UInt8.ofNat (addr / 8)).toNat = addr / 8 := UInt8.toNat_ofNat_of_lt' (by
    change addr / 8 < 256
    omega)
  have hlaid : Laid { s with efuseUsedBytes := e } ps e := ⟨hlog.walk, h.first, [], Walk.nil e⟩
  obtain ⟨qs, hsize⟩ := hlaid.sizeLog
  have hword : (MapWrite.words map data addr cnts efuseMaxWordUnit (MapWrite.oddStart map data addr
      ⟨addr % 8, 0, 0x0F, fun _ => 0xFF⟩)).wordEn =
        MapWrite.changedWords (MapWrite.merged map data addr cnts) map (addr / 8) :=
    (MapWrite.oddStart_spec hcnts).1.wordEn
  rw [MapWrite.start hread hrange]
  cases fuel with
  | zero => rfl
  | succ fuel =>
    rw [MapWrite.sections]
    dsimp only
    rw [hword, if_pos (hchanged map _ hread),
      Trap.packet (s := { s with efuseUsedBytes := e }) h hsize (by omega)]
    rfl

end Endless

end Rtl8188eu.Efuse
