import StandaloneDrivers.Rtl8188eu.EfuseAppend

/-! The map before and after a packet is written, on every content that such writes produce. -/
namespace Rtl8188eu.Efuse
open Foundations

theorem packetAt_congr {content content' : Memory} {a : ℕ} {p : Packet}
    (h : packetAt content a = some p) (hsame : ∀ b < p.start, content' b = content b) :
    packetAt content' a = some p := by
  have hstart := packetAt_start h
  have hhead := hsame a hstart.1
  rw [packetAt, hhead]
  unfold packetAt at h
  split at h
  · contradiction
  · rename_i hne
    rw [if_neg hne]
    split at h
    · rename_i hext
      have htail : content' (a + 1) = content (a + 1) := by
        apply hsame
        split at h <;> cases h <;> simp
      rw [if_pos hext, htail]
      exact h
    · rename_i hext
      rw [if_neg hext]
      exact h

theorem readEnd_le {content : Memory} {a e : ℕ} {ps : List Packet}
    (h : Walk (readNext content) a ps e) : ∀ p ∈ ps, p.readEnd ≤ e := by
  induction h with
  | nil a => intro p hp; contradiction
  | cons head tail ih =>
    intro p hp
    cases hp with
    | head =>
      obtain ⟨-, -, -, rfl⟩ := readNext_eq_some.mp head
      exact le_trans (Nat.le_add_right _ _) (tail.le (readNext_lt content))
    | tail _ hp => exact ih p hp

theorem Packet.place_lt {p : Packet} {o i : ℕ} (h : p.holds o i = true) (hi : i < 8) :
    p.place i < p.stop := by
  rw [Packet.holds, Bool.and_eq_true] at h
  have := rank_lt h.2 (by omega : i / 2 < 4)
  rw [rank_four] at this
  rw [Packet.place, Packet.stop]
  omega

/-- Bytes behind a walk do not matter to its part of the map. -/
theorem mapByte_congr {content content' : Memory} {e : ℕ} {ps : List Packet}
    (h : Walk (readNext content) 0 ps e) (hsame : ∀ a < e, content' a = content a) {o i : ℕ}
    (ho : o < 64) (hi : i < 8) : mapByte content' o i ps = mapByte content o i ps := by
  unfold mapByte
  cases hnew : newest (Packet.holds o i) ps with
  | none => rfl
  | some p =>
    obtain ⟨hmem, hholds⟩ := newest_spec hnew
    have hsec : p.offset = o := by
      rw [Packet.holds, Bool.and_eq_true] at hholds
      exact of_decide_eq_true hholds.1
    have hend := readEnd_le h p hmem
    rw [Packet.readEnd_of_lt (by omega)] at hend
    exact hsame _ ((Packet.place_lt hholds hi).trans_le hend)

/-- The reader on a log that ends: the map byte by byte, and the end in the register. -/
theorem halEfuseReadEFuse_ended {s : EfuseState} {ps : List Packet} {e : ℕ}
    (h0 : s.content 0 ≠ 0xFF) (hlog : Log (readNext s.content) 0 ps e)
    (hended : s.content e = 0xFF) (pbuf : Memory) :
    ∃ map, halEfuseReadEFuse88E s 0 efuseMapLen88E pbuf =
        some (map, { s with efuseUsedBytes := e }) ∧
      ∀ j < 512, map j = mapByte s.content (j / 8) (j % 8) ps := by
  obtain ⟨r, hr, hrun⟩ := halEfuseReadEFuse_stops h0 hlog 0 efuseMapLen88E (by omega) pbuf
  obtain ⟨haddr, hword⟩ := hr.ended hended
  rw [haddr] at hrun
  refine ⟨_, hrun, ?_⟩
  intro j hj
  have hbyte := Reader.efuseTbl_table s.content (by omega : j / 8 < 64)
    (Nat.mod_lt j (by omega)) ps
  rw [Nat.div_add_mod] at hbyte
  simp only [hword, Nat.zero_add, hbyte]
  exact if_pos hj

/-- The reader's log ends at `e`, and the register is at one of its packets or at its end. -/
structure Laid (s : EfuseState) (ps : List Packet) (e : ℕ) : Prop where
  walk : Walk (readNext s.content) 0 ps e
  ended : s.content e = 0xFF
  used : ∃ qs, Walk (sizeNext s.content) s.efuseUsedBytes qs e

namespace Laid
variable {s : EfuseState} {ps : List Packet} {e : ℕ}

theorem readLog (h : Laid s ps e) : Log (readNext s.content) 0 ps e := by
  refine ⟨h.walk, ?_⟩
  rw [readNext, packetAt_none.mpr h.ended]
  rfl

theorem sizeLog (h : Laid s ps e) : ∃ qs, Log (sizeNext s.content) s.efuseUsedBytes qs e := by
  obtain ⟨qs, hqs⟩ := h.used
  refine ⟨qs, hqs, ?_⟩
  rw [sizeNext, packetAt_none.mpr h.ended]
  exact ite_self _

theorem at_end (h : Laid s ps e) : Laid { s with efuseUsedBytes := e } ps e :=
  ⟨h.walk, h.ended, [], Walk.nil e⟩

theorem of_empty (h0 : s.content 0 = 0xFF) (h : Laid s ps e) : ps = [] ∧ e = 0 := by
  cases h.walk with
  | nil => exact ⟨rfl, rfl⟩
  | cons head _ =>
    obtain ⟨hp, -⟩ := readNext_eq_some.mp head
    rw [packetAt_none.mpr h0] at hp
    contradiction

/-- One more packet at the end. -/
theorem snoc (h : Laid s ps e) {content' : Memory} {p : Packet}
    (hsame : ∀ a < e, content' a = s.content a) (hp : packetAt content' e = some p)
    (hsec : p.offset < 64) (he : e < 255) (hstop : p.stop ≤ 256)
    (hff : content' p.stop = 0xFF) : Laid ⟨content', e⟩ (ps ++ [p]) p.stop := by
  have hend := Packet.readEnd_of_lt hsec
  constructor
  · apply (h.walk.congr (readNext_lt s.content) ?_).append (Walk.single ?_)
    · intro a q a' hq ha'
      obtain ⟨hat, ha, hle, rfl⟩ := readNext_eq_some.mp hq
      have hstart := q.start_le_readEnd
      exact readNext_eq_some.mpr
        ⟨packetAt_congr hat fun b hb => hsame b (by omega), ha, hle, rfl⟩
    · exact readNext_eq_some.mpr ⟨hp, he, by omega, hend.symm⟩
  · exact hff
  · exact ⟨[p], Walk.single (sizeNext_eq_some.mpr ⟨hp, show e < 512 by omega, rfl⟩)⟩

theorem read (h : Laid s ps e) (h0 : s.content 0 ≠ 0xFF) (pbuf : Memory) :
    ∃ map, halEfuseReadEFuse88E s 0 efuseMapLen88E pbuf =
        some (map, { s with efuseUsedBytes := e }) ∧
      ∀ j < 512, map j = mapByte s.content (j / 8) (j % 8) ps :=
  halEfuseReadEFuse_ended h0 h.readLog h.ended pbuf

end Laid

/-- Onto fuses that are all unprogrammed the packet is written at the first try. -/
theorem halEfusePgPacketWrite_appends {s : EfuseState} {ps : List Packet} {e : ℕ}
    (hlog : Log (sizeNext s.content) s.efuseUsedBytes ps e) (he : e < 238) (fuel : ℕ)
    {offset wordEn : UInt8} (data : Memory) (hoff : offset.toNat < 64) (hw : wordEn.toNat < 16)
    (hne : wordEn ≠ 0x0F)
    (hblank : ∀ a, e ≤ a → a < e + packetBytes offset wordEn → s.content a = 0xFF) :
    ∃ content' p, halEfusePgPacketWrite (fuel + 1) s offset wordEn data =
        some (true, ⟨content', e⟩) ∧
      Appended s.content content' e offset wordEn data 0x0F p := by
  obtain ⟨content', p, happ, hrun⟩ := halEfusePgPacketWrite_attempt hlog he fuel data hoff hw hne
    (fun a ha ha' => hblank a ha (by rw [packetBytes]; omega))
  rw [badWords_blank data hblank] at happ hrun
  exact ⟨content', p, hrun, happ⟩

/-- The map with the enabled words of one section replaced. -/
def updatedMap (offset wordEn : UInt8) (data map : Memory) : Memory := fun j =>
  if j / 8 = offset.toNat ∧ wordEnabled wordEn (j % 8 / 2) = true then data (j % 8) else map j

theorem Appended.mapByte_snoc {content content' : Memory} {e : ℕ} {offset wordEn bad : UInt8}
    {data : Memory} {p : Packet} (h : Appended content content' e offset wordEn data bad p)
    {ps : List Packet} (hwalk : Walk (readNext content) 0 ps e) {o i : ℕ} (ho : o < 64)
    (hi : i < 8) (hok : o = offset.toNat → wordEnabled bad (i / 2) = false) :
    mapByte content' o i (ps ++ [p]) =
      if o = offset.toNat ∧ wordEnabled wordEn (i / 2) = true then data i
      else mapByte content o i ps := by
  have hholds : p.holds o i = true ↔ o = offset.toNat ∧ wordEnabled wordEn (i / 2) = true := by
    rw [Packet.holds, h.ofSection, h.ofMask, Bool.and_eq_true, decide_eq_true_eq,
      @eq_comm _ o]
  rw [Efuse.mapByte_snoc]
  by_cases hheld : o = offset.toNat ∧ wordEnabled wordEn (i / 2) = true
  · rw [if_pos (hholds.mpr hheld), if_pos hheld]
    exact h.bytes i hi hheld.2 (hok hheld.1)
  · rw [if_neg (mt hholds.mp hheld), if_neg hheld]
    exact mapByte_congr hwalk (fun a ha => h.outside a (Or.inl ha)) ho hi

section VoidHeader

theorem pgHeader1_void : ∀ o : Fin 16, pgHeader1 (UInt8.ofNat o) 0x0F = 0xFF ∨
    extHeader (pgHeader1 (UInt8.ofNat o) 0x0F) = true ∨
    (shortOffset (pgHeader1 (UInt8.ofNat o) 0x0F) = o ∧
      pgHeader1 (UInt8.ofNat o) 0x0F &&& 0x0F = 0x0F) := by
  decide

theorem pgExtHeader_void (offset : UInt8) : allWordsDisabled (pgExtHeader offset 0x0F) = true := by
  apply forall_byte (P := fun offset => allWordsDisabled (pgExtHeader offset 0x0F) = true)
  decide +kernel

/-- A two-byte header without words is never written. -/
theorem write2ByteHeader_void {pgPacketWrite : PacketWrite} {pkt : Pgpkt}
    (hpkt : pkt.wordEn = 0x0F) (fuel : ℕ) (s : EfuseState) (efuseAddr repeatcnt : ℕ)
    {o : Outcome}
    (h : halEfusePgPacketWrite2ByteHeader pgPacketWrite pkt fuel s efuseAddr repeatcnt = some o) :
    o.ret = false := by
  induction fuel generalizing s efuseAddr repeatcnt with
  | zero => contradiction
  | succ fuel ih =>
    rw [halEfusePgPacketWrite2ByteHeader] at h
    dsimp only at h
    split at h
    · split at h
      · cases h
        rfl
      · split at h
        · split at h
          · cases h
            rfl
          · split at h
            · split at h
              · cases h
                rfl
              · exact ih _ _ _ h
            · rename_i hall
              split at h
              · obtain ⟨fix, -, h⟩ := Option.bind_eq_some_iff.mp h
                split at h
                · exact ih _ _ _ h
                · rename_i hfix
                  cases h
                  exact Bool.not_eq_true _ ▸ hfix
              · rename_i heq
                rw [← not_not.mp heq, hpkt, pgExtHeader_void] at hall
                contradiction
        · split at h
          · exact ih _ _ _ h
          · exact ih _ _ _ h
    · cases h
      rfl

/-- A header without words that is written counts one or two bytes and has no data. -/
theorem halEfusePgPacketWrite_void {s s' : EfuseState} {ps : List Packet} {e : ℕ}
    (hlog : Log (sizeNext s.content) s.efuseUsedBytes ps e) (he : e < 238) {fuel : ℕ}
    {offset : UInt8} {data : Memory} (hff : s.content (e + 1) = 0xFF)
    (h : halEfusePgPacketWrite (fuel + 1) s offset 0x0F data = some (true, s')) :
    ∃ content' p, s' = ⟨content', e⟩ ∧ packetAt content' e = some p ∧ p.offset < 64 ∧
      p.stop ≤ e + 2 ∧ ∀ a ≠ e, content' a = s.content a := by
  have hfirst := sizeLog_last hlog (by omega)
  rw [halEfusePgPacketWrite_start hlog he] at h
  obtain ⟨header, hheader, h⟩ := Option.bind_eq_some_iff.mp h
  rw [halEfusePgPacketWriteHeader] at hheader
  split at hheader
  · rw [write2ByteHeader_void rfl _ _ _ _ hheader, if_neg Bool.false_ne_true] at h
    cases h
  · rename_i hsec
    have hoff : offset.toNat < 16 := Nat.not_le.mp hsec
    by_cases hhead : pgHeader1 offset 0x0F = 0xFF
    · rw [write1ByteHeader_unprogrammed (halEfuseConstructPGPkt offset 0x0F data)
        ⟨s.content, e⟩ hhead hfirst hheader, if_neg Bool.false_ne_true] at h
      cases h
    · rw [write1ByteHeader_blank _ (halEfuseConstructPGPkt offset 0x0F data) ⟨s.content, e⟩
        (by omega) hfirst hhead] at hheader
      cases hheader
      obtain ⟨content', hdata, hsame, -⟩ := halEfuseWordEnableDataWrite_spec
        (Function.update s.content e (pgHeader1 offset 0x0F)) 0x0F
        (halEfuseConstructPGPkt offset 0x0F data).data
        (show e + 1 + 2 * rank 0x0F 4 ≤ 256 by rw [rank_four, wordCnts_void]; omega)
      have hvoid : maskOf (misread (Function.update s.content e (pgHeader1 offset 0x0F)) (e + 1)
          0x0F (halEfuseConstructPGPkt offset 0x0F data).data) 4 = 0x0F :=
        maskOf_void fun v hv => by rw [misread, void_enabled v hv, Bool.false_and]
      rw [hvoid] at hdata
      have hwritten : halEfusePgPacketWriteData (halEfusePgPacketWrite fuel)
          ⟨Function.update s.content e (pgHeader1 offset 0x0F), e⟩ e
          (halEfuseConstructPGPkt offset 0x0F data) = some (true, ⟨content', e⟩) := by
        unfold halEfusePgPacketWriteData
        rw [show (halEfuseConstructPGPkt offset 0x0F data).wordEn = 0x0F from rfl, hdata]
        rfl
      obtain ⟨-, rfl⟩ := Prod.mk.inj (Option.some.inj (h.symm.trans hwritten))
      have hall : ∀ a, content' a = Function.update s.content e (pgHeader1 offset 0x0F) a := by
        intro a
        apply hsame
        rw [rank_four, wordCnts_void]
        omega
      have hat : content' e = pgHeader1 offset 0x0F := by rw [hall, Function.update_self]
      have hnext : content' (e + 1) = 0xFF := by
        rw [hall, Function.update_of_ne (by omega), hff]
      have hpacket : ∃ p, packetAt content' e = some p ∧ p.offset < 64 ∧ p.stop ≤ e + 2 := by
        have hdecode := pgHeader1_void ⟨offset.toNat, hoff⟩
        simp only [UInt8.ofNat_toNat] at hdecode
        rw [packetAt, hat, hnext, if_neg hhead]
        cases hext : extHeader (pgHeader1 offset 0x0F) with
        | true =>
          rw [if_pos rfl, if_pos (by decide)]
          refine ⟨_, rfl, show 0 < 64 by omega, ?_⟩
          rw [Packet.stop, wordCnts_void]
        | false =>
          obtain hd | hd | ⟨hsection, hmask⟩ := hdecode
          · exact absurd hd hhead
          · rw [hext] at hd
            contradiction
          · rw [if_neg Bool.false_ne_true, hsection, hmask]
            refine ⟨_, rfl, by simp only; omega, ?_⟩
            rw [Packet.stop, wordCnts_void]
            simp only
            omega
      obtain ⟨p, hp, hsec', hstop⟩ := hpacket
      refine ⟨content', p, rfl, hp, hsec', hstop, ?_⟩
      intro a ha
      rw [hall, Function.update_of_ne ha]

end VoidHeader

/-- What the driver may do with an efuse that was blank when it came. -/
inductive Produced : EfuseState → Prop
  | blank {s : EfuseState} (content : ∀ a < 256, s.content a = 0xFF)
      (efuseUsedBytes : s.efuseUsedBytes = 0) : Produced s
  | write {s s' : EfuseState} {fuel : ℕ} {offset wordEn : UInt8} {data : Memory}
      (before : Produced s) (offset_lt : offset.toNat < 64) (wordEn_lt : wordEn.toNat < 16)
      (run : halEfusePgPacketWrite fuel s offset wordEn data = some (true, s')) : Produced s'
  | read {s s' : EfuseState} {offset sizeByte : ℕ} {pbuf map : Memory} (before : Produced s)
      (run : halEfuseReadEFuse88E s offset sizeByte pbuf = some (map, s')) : Produced s'
  | size {s s' : EfuseState} {n : ℕ} (before : Produced s)
      (run : halEfuseGetCurrentSize s = some (n, s')) : Produced s'

/-- A log that ends with room to spare, and nothing programmed behind it. -/
def Clear (s : EfuseState) (ps : List Packet) (e : ℕ) : Prop :=
  Laid s ps e ∧ e ≤ 248 ∧ ∀ a, e ≤ a → a < 256 → s.content a = 0xFF

theorem Clear.write {s s' : EfuseState} {ps : List Packet} {e : ℕ} (h : Clear s ps e) {fuel : ℕ}
    {offset wordEn : UInt8} {data : Memory} (hoff : offset.toNat < 64) (hw : wordEn.toNat < 16)
    (hrun : halEfusePgPacketWrite fuel s offset wordEn data = some (true, s')) :
    ∃ p, Clear s' (ps ++ [p]) p.stop ∧
      (wordEn ≠ 0x0F → Appended s.content s'.content e offset wordEn data 0x0F p) := by
  obtain ⟨hlaid, -, hblank⟩ := h
  obtain ⟨qs, hlog⟩ := hlaid.sizeLog
  cases fuel with
  | zero => cases hrun
  | succ fuel =>
    by_cases he : e < 238
    · by_cases hne : wordEn = 0x0F
      · subst hne
        obtain ⟨content', p, rfl, hp, hsec, hstop, hsame⟩ :=
          halEfusePgPacketWrite_void hlog he (hblank _ (by omega) (by omega)) hrun
        have hstart := packetAt_start hp
        have hle := p.start_le_stop
        have hff : ∀ a, p.stop ≤ a → a < 256 → content' a = 0xFF := by
          intro a ha ha'
          rw [hsame a (by omega)]
          exact hblank a (by omega) ha'
        refine ⟨p, ⟨hlaid.snoc (fun a ha => hsame a (by omega)) hp hsec (by omega) (by omega)
          (hff _ le_rfl (by omega)), by omega, hff⟩, fun hc => absurd rfl hc⟩
      · have hbytes := packetBytes_le offset wordEn
        obtain ⟨content', p, hwrite, happ⟩ := halEfusePgPacketWrite_appends hlog he fuel data hoff
          hw hne (fun a ha ha' => hblank a ha (by omega))
        rw [hwrite] at hrun
        cases hrun
        have hstop := happ.stop
        have hff : ∀ a, p.stop ≤ a → a < 256 → content' a = 0xFF := by
          intro a ha ha'
          rw [happ.outside a (by omega)]
          exact hblank a (by omega) ha'
        refine ⟨p, ⟨hlaid.snoc (fun a ha => happ.outside a (Or.inl ha)) happ.packet
          (by rw [happ.ofSection]; exact hoff) (by omega) (by omega) (hff _ le_rfl (by omega)),
          by omega, hff⟩, fun _ => happ⟩
    · rw [halEfusePgPacketWrite_full hlog (by omega)] at hrun
      cases hrun

/-- The write comes back, and with success exactly where there is room for it. -/
theorem Clear.returns {s : EfuseState} {ps : List Packet} {e : ℕ} (h : Clear s ps e) (fuel : ℕ)
    (offset wordEn : UInt8) (data : Memory) (hoff : offset.toNat < 64) (hw : wordEn.toNat < 16)
    (hne : wordEn ≠ 0x0F) :
    ∃ s', halEfusePgPacketWrite (fuel + 1) s offset wordEn data =
      some (decide (e < 238), s') := by
  obtain ⟨hlaid, -, hblank⟩ := h
  obtain ⟨qs, hlog⟩ := hlaid.sizeLog
  by_cases he : e < 238
  · have hbytes := packetBytes_le offset wordEn
    obtain ⟨content', p, hwrite, -⟩ := halEfusePgPacketWrite_appends hlog he fuel data hoff hw hne
      (fun a ha ha' => hblank a ha (by omega))
    rw [decide_eq_true he]
    exact ⟨_, hwrite⟩
  · rw [decide_eq_false he]
    exact ⟨_, halEfusePgPacketWrite_full hlog (by omega) fuel offset wordEn data⟩

theorem Produced.clear {s : EfuseState} (h : Produced s) : ∃ ps e, Clear s ps e := by
  induction h with
  | @blank s hcontent hused =>
    refine ⟨[], 0, ⟨Walk.nil 0, hcontent 0 (by omega), [], ?_⟩, by omega, ?_⟩
    · rw [hused]
      exact Walk.nil 0
    · intro a _ ha
      exact hcontent a ha
  | write before hoff hw run ih =>
    obtain ⟨ps, e, hclear⟩ := ih
    obtain ⟨p, hp, -⟩ := hclear.write hoff hw run
    exact ⟨_, _, hp⟩
  | @read s s' offset sizeByte pbuf map before run ih =>
    obtain ⟨ps, e, hlaid, he, hblank⟩ := ih
    by_cases hsize : efuseMapLen88E < offset + sizeByte
    · rw [halEfuseReadEFuse88E, if_pos hsize] at run
      cases run
      exact ⟨ps, e, hlaid, he, hblank⟩
    · by_cases h0 : s.content 0 = 0xFF
      · rw [halEfuseReadEFuse88E, if_neg hsize, if_pos h0] at run
        cases run
        exact ⟨ps, e, hlaid, he, hblank⟩
      · obtain ⟨r, hr, hrun⟩ := halEfuseReadEFuse_stops h0 hlaid.readLog offset sizeByte
          (Nat.not_lt.mp hsize) pbuf
        rw [hrun, (hr.ended hlaid.ended).1] at run
        cases run
        exact ⟨ps, e, hlaid.at_end, he, hblank⟩
  | size before run ih =>
    obtain ⟨ps, e, hlaid, he, hblank⟩ := ih
    obtain ⟨qs, hlog⟩ := hlaid.sizeLog
    rw [halEfuseGetCurrentSize_log hlog] at run
    obtain ⟨-, rfl⟩ := Prod.mk.inj (Option.some.inj run)
    exact ⟨ps, e, hlaid.at_end, he, hblank⟩

/-- The whole map read into the same buffer before and after. -/
def MapUpdated (s s' : EfuseState) (offset wordEn : UInt8) (data pbuf : Memory) : Prop :=
  ∃ before s₁ after s₂, halEfuseReadEFuse88E s 0 efuseMapLen88E pbuf = some (before, s₁) ∧
    halEfuseReadEFuse88E s' 0 efuseMapLen88E pbuf = some (after, s₂) ∧
    ∀ j < 512, after j = updatedMap offset wordEn data before j

/-- The map is updated by the packet, unless the efuse was blank: the reader then leaves the
buffer as it is, which must have been `0xFF` already where nothing is written. -/
theorem Clear.mapUpdated {s s' : EfuseState} {ps : List Packet} {e : ℕ} (h : Clear s ps e)
    {offset wordEn : UInt8} {data : Memory} {p : Packet} (h' : Clear s' (ps ++ [p]) p.stop)
    (happ : Appended s.content s'.content e offset wordEn data 0x0F p) (pbuf : Memory) :
    MapUpdated s s' offset wordEn data pbuf ↔ (s.content 0 ≠ 0xFF ∨
      ∀ j < 512, ¬ (j / 8 = offset.toNat ∧ wordEnabled wordEn (j % 8 / 2) = true) →
        pbuf j = 0xFF) := by
  have h0' : s'.content 0 ≠ 0xFF := by
    intro hff
    exact List.append_ne_nil_of_right_ne_nil _ (List.cons_ne_nil _ _) (h'.1.of_empty hff).1
  obtain ⟨after, hafter, hbytes⟩ := h'.1.read h0' pbuf
  have hnew : ∀ j < 512, after j =
      if j / 8 = offset.toNat ∧ wordEnabled wordEn (j % 8 / 2) = true then data (j % 8)
      else mapByte s.content (j / 8) (j % 8) ps := by
    intro j hj
    rw [hbytes j hj, happ.mapByte_snoc h.1.walk (by omega) (by omega)
      fun _ => void_enabled _ (by omega)]
  by_cases h0 : s.content 0 = 0xFF
  · obtain ⟨rfl, rfl⟩ := h.1.of_empty h0
    have hbefore : halEfuseReadEFuse88E s 0 efuseMapLen88E pbuf = some (pbuf, s) := by
      rw [halEfuseReadEFuse88E, if_neg (by omega), if_pos h0]
    constructor
    · rintro ⟨before, s₁, after', s₂, hb, ha, heq⟩
      rw [hbefore] at hb
      rw [hafter] at ha
      cases hb
      cases ha
      refine Or.inr fun j hj hout => ?_
      have hj' := heq j hj
      rw [hnew j hj, if_neg hout, updatedMap, if_neg hout] at hj'
      exact hj'.symm
    · intro hbuf
      refine ⟨pbuf, _, after, _, hbefore, hafter, ?_⟩
      intro j hj
      rw [hnew j hj, updatedMap]
      split
      · rfl
      · rename_i hout
        obtain hne | hbuf := hbuf
        · exact absurd h0 hne
        · exact (hbuf j hj hout).symm
  · obtain ⟨before, hbefore, hold⟩ := h.1.read h0 pbuf
    constructor
    · intro _
      exact Or.inl h0
    · intro _
      refine ⟨before, _, after, _, hbefore, hafter, ?_⟩
      intro j hj
      rw [hnew j hj, updatedMap, hold j hj]

/-- A successful write replaces the enabled words of its section in the reader's map, and no
other byte, exactly where the efuse was not empty or the buffer read `0xFF` before. -/
theorem write_updates_map {s s' : EfuseState} (h : Produced s) {fuel : ℕ}
    {offset wordEn : UInt8} {data : Memory} (hoff : offset.toNat < 64) (hw : wordEn.toNat < 16)
    (hne : wordEn ≠ 0x0F)
    (hrun : halEfusePgPacketWrite fuel s offset wordEn data = some (true, s')) (pbuf : Memory) :
    MapUpdated s s' offset wordEn data pbuf ↔ (s.content 0 ≠ 0xFF ∨
      ∀ j < 512, ¬ (j / 8 = offset.toNat ∧ wordEnabled wordEn (j % 8 / 2) = true) →
        pbuf j = 0xFF) := by
  obtain ⟨ps, e, hclear⟩ := h.clear
  obtain ⟨p, hclear', happ⟩ := hclear.write hoff hw hrun
  exact hclear.mapUpdated hclear' (happ hne) pbuf

section Samples

def blankEfuse : EfuseState := ⟨fun _ => 0xFF, 0⟩

theorem blankEfuse_produced : Produced blankEfuse := Produced.blank (fun _ _ => rfl) rfl

theorem blankEfuse_clear : Clear blankEfuse [] 0 :=
  ⟨⟨Walk.nil 0, rfl, [], Walk.nil 0⟩, by omega, fun _ _ _ => rfl⟩

theorem write_updates_map_second : ∃ s s', Produced s ∧
    halEfusePgPacketWrite 1 s 20 0x07 (fun _ => 0x34) = some (true, s') ∧
    MapUpdated s s' 20 0x07 (fun _ => 0x34) fun _ => 0 := by
  obtain ⟨s, hrun⟩ := blankEfuse_clear.returns 0 0 0x0E (fun _ => 0x12)
    (by decide) (by decide) (by decide)
  obtain ⟨p, hclear, happ⟩ := blankEfuse_clear.write (by decide) (by decide) hrun
  have hstop := (happ (by decide)).stop
  have h0 : s.content 0 ≠ 0xFF := by
    intro hff
    have hp := (happ (by decide)).packet
    rw [packetAt_none.mpr hff] at hp
    contradiction
  obtain ⟨s', hrun'⟩ := hclear.returns 0 20 0x07 (fun _ => 0x34)
    (by decide) (by decide) (by decide)
  rw [hstop, decide_eq_true (by decide)] at hrun'
  have hproduced := Produced.write blankEfuse_produced (by decide) (by decide) hrun
  exact ⟨s, s', hproduced, hrun', (write_updates_map hproduced (by decide) (by decide)
    (by decide) hrun' _).mpr (Or.inl h0)⟩

/-- The first packet of a blank efuse, the map read into a cleared buffer. -/
theorem map_not_updated : ¬ ∀ (s s' : EfuseState) (fuel : ℕ) (offset wordEn : UInt8)
    (data pbuf : Memory), Produced s → offset.toNat < 64 → wordEn.toNat < 16 → wordEn ≠ 0x0F →
      halEfusePgPacketWrite fuel s offset wordEn data = some (true, s') →
      MapUpdated s s' offset wordEn data pbuf := by
  intro h
  obtain ⟨s, hrun⟩ := blankEfuse_clear.returns 0 0 0x0E (fun _ => 0x12)
    (by decide) (by decide) (by decide)
  obtain ⟨p, hclear, happ⟩ := blankEfuse_clear.write (by decide) (by decide) hrun
  have hupdated := h _ _ _ _ _ _ (fun _ => 0) blankEfuse_produced (by decide) (by decide)
    (by decide) hrun
  obtain hne | hbuf := (blankEfuse_clear.mapUpdated hclear (happ (by decide)) _).mp hupdated
  · exact hne rfl
  · exact absurd (hbuf 2 (by omega) (by decide)) (by decide)

end Samples

end Rtl8188eu.Efuse
