import StandaloneDrivers.Rtl8188eu.EfuseReader

/-! The three walks over one content: when they end at the same address and give the same
bytes of a section. -/
namespace Rtl8188eu.Efuse
open Foundations

namespace Packet

/-- The packet of the section has more than `i` bytes of data. -/
def reaches (offset i : ℕ) (p : Packet) : Bool :=
  decide (p.offset = offset) && decide (i < efuseCalculateWordCnts p.wordEn * 2)

def programmed (content : Memory) (p : Packet) : Bool :=
  decide (∃ i < efuseCalculateWordCnts p.wordEn * 2, content (p.start + i) ≠ 0xFF)

def shows (content : Memory) (offset i : ℕ) (p : Packet) : Bool :=
  p.holds offset i && p.programmed content

end Packet

/-- Data byte `i` of the last packet of the section that has as many. -/
def slotByte (content : Memory) (offset i : ℕ) (ps : List Packet) : UInt8 :=
  match newest (Packet.reaches offset i) ps with
  | none => 0xFF
  | some p => content (p.start + i)

theorem slotByte_snoc (content : Memory) (offset i : ℕ) (ps : List Packet) (p : Packet) :
    slotByte content offset i (ps ++ [p]) =
      if p.reaches offset i = true then content (p.start + i)
      else slotByte content offset i ps := by
  unfold slotByte
  rw [newest_snoc]
  cases p.reaches offset i <;> rfl

namespace PgRead

/-- The two buffers of the function. -/
structure Buffers where
  tmpdata : Memory
  data : Memory

def take (content : Memory) (offset : ℕ) (t : Buffers) (p : Packet) : Buffers :=
  if p.offset = offset then
    let tmpdata : Memory := fun i =>
      if i < efuseCalculateWordCnts p.wordEn * 2 then content (p.start + i) else t.tmpdata i
    if p.programmed content = true then
      ⟨tmpdata, efuseWordEnableDataRead p.wordEn tmpdata t.data⟩
    else ⟨tmpdata, t.data⟩
  else t

structure Between (a : ℕ) (t : Buffers) (s : State) : Prop where
  readState : s.readState = ReadState.header
  bContinual : s.bContinual = true
  efuseAddr : s.efuseAddr = a
  tmpdata : s.tmpdata = t.tmpdata
  data : s.data = t.data

theorem more_of_lt {s : State} (h : s.bContinual = true) (ha : s.efuseAddr < 512) :
    more s = true := by
  rw [more, h, Bool.true_and]
  exact decide_eq_true ha

/-- Behind the header a packet is passed over, or read in one more round. -/
theorem rounds_matching {content : Memory} {offset a : ℕ} {p : Packet} {t : Buffers} {s : State}
    (hs : Between a t s) (ha : a < 512) (hstart : p.start ≤ 512)
    (hround : round content offset s = matching content offset p.offset p.wordEn (p.start - 1) s)
    (hpos : 0 < p.start) :
    ∃ j ≤ 2, ∃ s', Rounds more (round content offset) j s s' ∧
      Between p.stop (take content offset t p) s' := by
  have hfirst : Rounds more (round content offset) 1 s (round content offset s) :=
    Rounds.one (more_of_lt hs.bContinual (by rw [hs.efuseAddr]; exact ha))
  have hplace : p.start - 1 + 1 = p.start := by omega
  have hstop : p.start - 1 + efuseCalculateWordCnts p.wordEn * 2 + 1 = p.stop := by
    rw [Packet.stop]
    omega
  rw [hround, matching] at hfirst
  simp only [hplace, hstop] at hfirst
  by_cases hsec : p.offset = offset
  · rw [if_pos hsec] at hfirst
    by_cases hprog : p.programmed content = true
    · have hex := hprog
      rw [Packet.programmed, decide_eq_true_eq] at hex
      rw [if_pos hex] at hfirst
      refine ⟨2, le_rfl, _, hfirst.trans (Rounds.one (more_of_lt hs.bContinual ?_)), ?_⟩
      · show p.start - 1 < 512
        omega
      · rw [take, if_pos hsec, if_pos hprog]
        constructor
        · rfl
        · exact hs.bContinual
        · exact hstop
        · simp only [round, hs.tmpdata]
        · simp only [round, hs.tmpdata, hs.data]
    · have hex := hprog
      rw [Packet.programmed, decide_eq_true_eq] at hex
      rw [if_neg hex] at hfirst
      refine ⟨1, by omega, _, hfirst, ?_⟩
      rw [take, if_pos hsec, if_neg hprog]
      constructor
      · rfl
      · exact hs.bContinual
      · rfl
      · simp only [hs.tmpdata]
      · exact hs.data
  · rw [if_neg hsec] at hfirst
    refine ⟨1, by omega, _, hfirst, ?_⟩
    rw [take, if_neg hsec]
    constructor
    · rfl
    · exact hs.bContinual
    · rfl
    · exact hs.tmpdata
    · exact hs.data

theorem take_void (content : Memory) (offset a : ℕ) (t : Buffers) :
    take content offset t ⟨0, 0x0F, a⟩ = t := by
  unfold take
  have hprog : (⟨0, 0x0F, a⟩ : Packet).programmed content = false := by
    rw [Packet.programmed, decide_eq_false_iff_not]
    rintro ⟨i, hi, -⟩
    exact absurd hi (by rw [wordCnts_void]; omega)
  simp only [hprog, wordCnts_void, Nat.zero_mul, Nat.not_lt_zero, if_false, Bool.false_eq_true,
    ite_self]

theorem rounds_packet {content : Memory} {offset a : ℕ} {p : Packet} {t : Buffers} {s : State}
    (hs : Between a t s) (ha : a < 510) (h : packetAt content a = some p) :
    ∃ j ≤ 2, ∃ s', Rounds more (round content offset) j s s' ∧
      Between p.stop (take content offset t p) s' := by
  have hstart := packetAt_start h
  have hmore : more s = true := more_of_lt hs.bContinual (by rw [hs.efuseAddr]; omega)
  unfold packetAt at h
  split at h
  · contradiction
  · rename_i hdata
    split at h
    · rename_i hext
      split at h
      · rename_i hall
        cases h
        refine ⟨1, by omega, _, Rounds.one hmore, ?_⟩
        have hround : round content offset s = { s with efuseAddr := a + 2 } := by
          simp only [round, hs.readState, hs.efuseAddr, if_pos hdata, if_pos hext, if_pos hall]
        rw [hround, take_void, Packet.stop, wordCnts_void]
        exact ⟨hs.readState, hs.bContinual, rfl, hs.tmpdata, hs.data⟩
      · rename_i hall
        cases h
        apply rounds_matching hs (by omega) (by omega) _ (by omega)
        simp only [round, hs.readState, hs.efuseAddr, if_pos hext, if_neg hall]
        exact if_pos hdata
    · rename_i hext
      cases h
      apply rounds_matching hs (by omega) (by omega) _ (by omega)
      simp only [round, hs.readState, hs.efuseAddr, if_neg hext]
      exact if_pos hdata

def erased (data : Memory) : Buffers :=
  ⟨fun _ => 0xFF, fun i => if i < pgpktDataSize then 0xFF else data i⟩

theorem foldl_take (content : Memory) {offset i : ℕ} (hi : i < 8) (data : Memory)
    (ps : List Packet) :
    (ps.foldl (take content offset) (erased data)).tmpdata i = slotByte content offset i ps ∧
    (ps.foldl (take content offset) (erased data)).data i =
      slotByte content offset i (upTo (Packet.shows content offset i) ps) := by
  induction ps using List.reverseRecOn with
  | nil => exact ⟨rfl, if_pos hi⟩
  | append_singleton ps p ih =>
    obtain ⟨htmp, hdata⟩ := ih
    rw [List.foldl_append, List.foldl_cons, List.foldl_nil, upTo_snoc, Packet.shows,
      Packet.holds]
    generalize ps.foldl (take content offset) (erased data) = t at htmp hdata ⊢
    unfold take
    by_cases hsec : p.offset = offset
    · rw [if_pos hsec]
      have hslot : (if i < efuseCalculateWordCnts p.wordEn * 2 then content (p.start + i)
          else t.tmpdata i) =
          slotByte content offset i (ps ++ [p]) := by
        rw [slotByte_snoc, Packet.reaches, decide_eq_true hsec, Bool.true_and, htmp]
        simp only [decide_eq_true_eq]
      rw [decide_eq_true hsec, Bool.true_and]
      cases hprog : p.programmed content with
      | false =>
        rw [Bool.and_false]
        exact ⟨hslot, hdata⟩
      | true =>
        rw [Bool.and_true]
        refine ⟨hslot, ?_⟩
        simp only [if_true, efuseWordEnableDataRead, hslot, pgpktDataSize, hi, true_and]
        split
        · rfl
        · exact hdata
    · rw [if_neg hsec, decide_eq_false hsec, slotByte_snoc, Packet.reaches,
        decide_eq_false hsec]
      exact ⟨htmp, hdata⟩

end PgRead

theorem halEfusePgPacketRead_log {s : EfuseState} {ps : List Packet} {e : ℕ}
    (h : Log (sizeNext s.content) 0 ps e) (he : e ≤ 256) (offset : UInt8)
    (hoff : offset.toNat ≤ 64) (data : Memory) :
    ∃ packet programmed, halEfusePgPacketRead s offset data = some (packet, programmed) ∧
      ∀ i < 8, packet i = slotByte s.content offset.toNat i
        (upTo (Packet.shows s.content offset.toNat i) ps) := by
  have hstart : PgRead.Between 0 (PgRead.erased data)
      { readState := PgRead.ReadState.header
        bContinual := true
        efuseAddr := 0
        hworden := 0
        wordCnts := 0
        tmpdata := fun _ => 0xFF
        data := fun i => if i < pgpktDataSize then 0xFF else data i } := ⟨rfl, rfl, rfl, rfl, rfl⟩
  have hrounds := h.walk.rounds (c := PgRead.more) (b := PgRead.round s.content offset.toNat)
    (R := PgRead.Between) (f := PgRead.take s.content offset.toNat) (k := 2)
    (by
      intro a p a' rest t st hnext htail hst
      have hle := htail.le (sizeNext_lt s.content)
      have hlt := sizeNext_lt s.content a p a' hnext
      obtain ⟨hp, -, rfl⟩ := sizeNext_eq_some.mp hnext
      exact PgRead.rounds_packet hst (by omega) hp) hstart
  obtain ⟨j, hj, st, hrun, hst⟩ := hrounds
  have hlen := h.walk.le (sizeNext_lt s.content)
  have hmore : PgRead.more st = true :=
    PgRead.more_of_lt hst.bContinual (by rw [hst.efuseAddr]; omega)
  have hround : PgRead.round s.content offset.toNat st = { st with bContinual := false } := by
    simp only [PgRead.round, hst.readState, hst.efuseAddr]
    exact if_neg (not_not.mpr (sizeLog_last h (by omega)))
  have hlast := hrun.trans (Rounds.one hmore)
  rw [hround] at hlast
  have hloop := hlast.exit (n := 2 * efuseRealContentLen + 1) rfl
    (by rw [efuseRealContentLen]; omega)
  refine ⟨st.data, decide (∃ i < pgpktDataSize, st.data i ≠ 0xFF), ?_, ?_⟩
  · rw [halEfusePgPacketRead,
      if_neg (show ¬efuseMaxSection88E < offset.toNat from Nat.not_lt.mpr hoff), hloop]
    rfl
  · intro i hi
    rw [hst.data]
    exact (PgRead.foldl_take s.content hi data ps).2

/-- Every packet that starts in the content is for a section the reader knows. -/
def SectionsBelow (content : Memory) : Prop :=
  ∀ ps a p, Walk (sizeNext content) 0 ps a → packetAt content a = some p → a < 256 →
    p.offset < 64

theorem SectionsBelow.sizeWalk {content : Memory} (h : SectionsBelow content) {a e : ℕ}
    {ps qs : List Packet} (hstart : Walk (sizeNext content) 0 qs a)
    (hwalk : Walk (readNext content) a ps e) : Walk (sizeNext content) a ps e := by
  induction hwalk generalizing qs with
  | nil a => exact Walk.nil a
  | cons head tail ih =>
    obtain ⟨hp, ha, hend, rfl⟩ := readNext_eq_some.mp head
    have hsec := h _ _ _ hstart hp (by omega)
    have hnext := sizeNext_eq_some.mpr ⟨hp, (by omega : _ < 512), rfl⟩
    rw [Packet.readEnd_of_lt hsec] at ih
    exact Walk.cons hnext (ih (hstart.append (Walk.single hnext)))

/-- The reader against the log of the other two functions: both end at the same address within
the content, or the log ends behind it and behind where the reader stopped. -/
theorem reader_stops_log {content : Memory} (hsec : SectionsBelow content) {ps qs : List Packet}
    {a e : ℕ} {r : Reader.State} (h : Log (sizeNext content) 0 ps e)
    (hread : Log (readNext content) 0 qs a) (hr : Reader.Stops content qs a r) :
    (e ≤ 256 ∧ r.eFuseAddr = e ∧ r.eFuseWord = Reader.table content ps) ∨
      (256 < e ∧ r.eFuseAddr < e) := by
  have hwalk := hsec.sizeWalk (Walk.nil 0) hread.walk
  have ha := readLog_end_le hread.walk (Nat.zero_le _)
  obtain ⟨tail, rfl, htail⟩ := hwalk.rest h
  obtain ⟨htw, hlast⟩ := htail
  have hle := htw.le (sizeNext_lt content)
  cases htw with
  | nil =>
    have hff : content a = 0xFF := sizeLog_last h (by omega)
    rw [List.append_nil]
    exact Or.inl ⟨ha, hr.ended hff⟩
  | cons head htw =>
    obtain ⟨hp, -, rfl⟩ := sizeNext_eq_some.mp head
    rename_i p rest
    have hne : content a ≠ 0xFF := by
      intro hff
      rw [packetAt_none.mpr hff] at hp
      contradiction
    have hstop := htw.le (sizeNext_lt content)
    have hlt := sizeNext_lt content _ _ _ head
    by_cases he : 256 < e
    · refine Or.inr ⟨he, ?_⟩
      by_cases ha' : a < 255
      · have hend := hr.truncated p hp ha'
        rw [Packet.readEnd_of_lt (hsec _ _ _ hwalk hp (by omega))] at hend
        omega
      · rw [(hr.full hne (by omega)).1]
        exact he
    · have hend := Packet.readEnd_of_lt (hsec _ _ _ hwalk hp (by omega))
      have ha' : 255 ≤ a := by
        by_contra hlt
        have := readNext_eq_some.mpr ⟨hp, (by omega : a < 255), (by omega), rfl⟩
        rw [hread.last] at this
        contradiction
      have hrest : rest = [] := List.eq_nil_of_length_eq_zero (by omega)
      subst hrest
      obtain ⟨hstop', hword⟩ := hr.full hne ha'
      have hstart := packetAt_start hp
      have hcnt : efuseCalculateWordCnts p.wordEn = 0 := by
        rw [Packet.stop] at hstop
        omega
      refine Or.inl ⟨by omega, by omega, ?_⟩
      rw [hword, Reader.table, Reader.table, List.foldl_append, List.foldl_cons, List.foldl_nil,
        store]
      split
      · rw [stored_of_rank (i := 0) (by omega) (by rw [rank_four, hcnt]; rfl), stored_zero]
      · rfl

theorem SectionsBelow.of_log {content : Memory} {ps : List Packet} {e : ℕ}
    (h : Log (sizeNext content) 0 ps e) (hps : ∀ p ∈ ps, p.offset < 64) :
    SectionsBelow content := by
  intro qs a p hwalk hp ha
  obtain ⟨tail, rfl, htail, hlast⟩ := hwalk.rest h
  have hnext := sizeNext_eq_some.mpr ⟨hp, (by omega : a < 512), rfl⟩
  cases htail with
  | nil => rw [hnext] at hlast; contradiction
  | cons head _ =>
    rw [hnext] at head
    cases head
    exact hps p (List.mem_append_right _ List.mem_cons_self)

/-- The bytes that the packet read picks for a section are those of the last packets to hold
them. -/
def SectionAgrees (content : Memory) (offset : ℕ) (ps : List Packet) : Prop :=
  ∀ i < 8, mapByte content offset i ps =
    slotByte content offset i (upTo (Packet.shows content offset i) ps)

/-- A packet of the section with its enabled words from word 0 on and not all bytes `0xFF`. -/
structure Packet.Plain (content : Memory) (p : Packet) : Prop where
  gapless : ∀ w < 4, wordEnabled p.wordEn w = true → rank p.wordEn w = w
  programmed : p.programmed content = true

theorem Packet.Plain.reaches_eq_holds {content : Memory} {p : Packet} (h : p.Plain content)
    (offset : ℕ) {i : ℕ} (hi : i < 8) : p.reaches offset i = p.holds offset i := by
  rw [Packet.reaches, Packet.holds]
  congr 1
  cases he : wordEnabled p.wordEn (i / 2) with
  | true =>
    have hrank := h.gapless (i / 2) (by omega) he
    have hlt := rank_lt he (by omega : i / 2 < 4)
    rw [rank_four] at hlt
    exact decide_eq_true (by omega)
  | false =>
    apply decide_eq_false
    intro hlt
    have hle : ∀ w ≤ 4, i / 2 ≤ w → rank p.wordEn w ≤ i / 2 := by
      intro w hw hiw
      induction w, hiw using Nat.le_induction with
      | base => exact Nat.count_le _
      | succ w hiw ih =>
        have := ih (by omega)
        rw [rank_succ]
        cases hew : wordEnabled p.wordEn w with
        | false => simpa using this
        | true =>
          have hne : i / 2 ≠ w := by
            rintro rfl
            rw [he] at hew
            contradiction
          have := h.gapless w (by omega) hew
          omega
    have := hle 4 le_rfl (by omega)
    rw [rank_four] at this
    omega

/-- Packets as the writer lays them out for a run of words agree. -/
theorem SectionAgrees.of_plain {content : Memory} {offset : ℕ} {ps : List Packet}
    (h : ∀ p ∈ ps, p.offset = offset → p.Plain content) : SectionAgrees content offset ps := by
  intro i hi
  induction ps using List.reverseRecOn with
  | nil => rfl
  | append_singleton ps p ih =>
    have hinit := ih fun q hq => h q (List.mem_append_left _ hq)
    rw [mapByte_snoc, upTo_snoc]
    by_cases hsec : p.offset = offset
    · have hplain := h p (List.mem_append_right _ List.mem_cons_self) hsec
      have hshows : p.shows content offset i = p.holds offset i := by
        rw [Packet.shows, hplain.programmed, Bool.and_true]
      rw [hshows]
      split
      · rename_i hholds
        have he := hholds
        rw [Packet.holds, Bool.and_eq_true] at he
        rw [slotByte_snoc, hplain.reaches_eq_holds offset hi, if_pos hholds, Packet.place,
          hplain.gapless _ (by omega) he.2]
        congr 1
        omega
      · exact hinit
    · have hholds : p.holds offset i = false := by
        rw [Packet.holds, decide_eq_false hsec, Bool.false_and]
      rw [Packet.shows, hholds]
      exact hinit

/-- The packet read gives the section as the reader's map has it, and the size, started at any
packet up to there, is where the reader stopped. -/
def WalkersAgree (content : Memory) (offset : UInt8) : Prop :=
  ∀ (used : ℕ) (pbuf data : Memory), ∃ map s packet programmed,
    halEfuseReadEFuse88E ⟨content, used⟩ 0 efuseMapLen88E pbuf = some (map, s) ∧
    halEfusePgPacketRead s offset data = some (packet, programmed) ∧
    (∀ i < 8, packet i = map (8 * offset.toNat + i)) ∧
    ∀ ps a, Walk (sizeNext content) 0 ps a → a ≤ s.efuseUsedBytes →
      ∃ s', halEfuseGetCurrentSize ⟨content, a⟩ = some (s.efuseUsedBytes, s')

/-- Not empty, the log ended within the content, and the section's bytes in agreement. -/
def Regular (content : Memory) (offset : ℕ) : Prop :=
  content 0 ≠ 0xFF ∧ ∃ ps e, Log (sizeNext content) 0 ps e ∧ e ≤ 256 ∧
    SectionAgrees content offset ps

theorem Regular.walkersAgree {content : Memory} {offset : UInt8} (hsec : SectionsBelow content)
    (hoff : offset.toNat < 64) (h : Regular content offset.toNat) :
    WalkersAgree content offset := by
  intro used pbuf data
  obtain ⟨h0, ps, e, hlog, he, hagree⟩ := h
  obtain ⟨qs, a, hread⟩ := exists_readLog content
  obtain ⟨r, hr, hrun⟩ := halEfuseReadEFuse_stops (s := ⟨content, used⟩) h0 hread 0
    efuseMapLen88E (by omega) pbuf
  obtain ⟨-, haddr, hword⟩ | ⟨hlt, -⟩ := reader_stops_log hsec hlog hread hr
  · obtain ⟨packet, programmed, hpacket, hbytes⟩ :=
      halEfusePgPacketRead_log (s := ⟨content, r.eFuseAddr⟩) hlog he offset (by omega)
        data
    refine ⟨_, _, packet, programmed, hrun, hpacket, ?_, ?_⟩
    · intro i hi
      have hin : 8 * offset.toNat + i < efuseMapLen88E := by
        rw [efuseMapLen88E]
        omega
      rw [hbytes i hi, ← hagree i hi, if_pos hin, hword, Nat.zero_add,
        Reader.efuseTbl_table content hoff hi]
    · intro qs a hwalk _
      obtain ⟨tail, -, htail⟩ := hwalk.rest hlog
      exact ⟨_, by rw [haddr]; exact halEfuseGetCurrentSize_log (s := ⟨content, a⟩) htail⟩
  · omega

theorem WalkersAgree.regular {content : Memory} {offset : UInt8} (hsec : SectionsBelow content)
    (hoff : offset.toNat < 64) (h : WalkersAgree content offset) :
    Regular content offset.toNat := by
  obtain ⟨ps, e, hlog⟩ := exists_sizeLog content 0
  have h0 : content 0 ≠ 0xFF := by
    intro hff
    obtain ⟨map, s, packet, programmed, hmap, hpacket, hbytes, -⟩ :=
      h 0 (fun _ => 0) (fun _ => 0)
    have hempty : Log (sizeNext content) 0 [] 0 := by
      refine ⟨Walk.nil 0, ?_⟩
      rw [sizeNext, if_pos (by decide), packetAt_none.mpr hff]
      rfl
    rw [halEfuseReadEFuse88E, if_neg (by decide), if_pos hff] at hmap
    cases hmap
    obtain ⟨packet', programmed', hpacket', hbytes'⟩ :=
      halEfusePgPacketRead_log (s := ⟨content, 0⟩) hempty (by omega) offset (by omega)
        (fun _ => 0)
    rw [hpacket'] at hpacket
    cases hpacket
    have hzero : (0xFF : UInt8) = 0 := (hbytes' 0 (by omega)).symm.trans (hbytes 0 (by omega))
    exact absurd hzero (by decide)
  obtain ⟨qs, a, hread⟩ := exists_readLog content
  obtain ⟨r, hr, hrun⟩ := halEfuseReadEFuse_stops (s := ⟨content, 0⟩) h0 hread 0
    efuseMapLen88E (by omega) (fun _ => 0)
  obtain ⟨map, s, packet, programmed, hmap, hpacket, hbytes, hsize⟩ :=
    h 0 (fun _ => 0) (fun _ => 0)
  rw [hrun] at hmap
  cases hmap
  obtain ⟨s', hs'⟩ := hsize [] 0 (Walk.nil 0) (Nat.zero_le _)
  rw [halEfuseGetCurrentSize_log (s := ⟨content, 0⟩) hlog] at hs'
  obtain ⟨he, haddr, hword⟩ | ⟨-, hlt⟩ := reader_stops_log hsec hlog hread hr
  · refine ⟨h0, ps, e, hlog, he, ?_⟩
    intro i hi
    obtain ⟨packet', programmed', hpacket', hbytes'⟩ :=
      halEfusePgPacketRead_log (s := ⟨content, r.eFuseAddr⟩) hlog he offset (by omega)
        (fun _ => 0)
    rw [hpacket'] at hpacket
    cases hpacket
    have hin : 8 * offset.toNat + i < efuseMapLen88E := by
      rw [efuseMapLen88E]
      omega
    have hmap := (hbytes i hi).trans (if_pos hin)
    rw [hword, Nat.zero_add, Reader.efuseTbl_table content hoff hi] at hmap
    rw [← hmap, hbytes' i hi]
  · have hsame : e = r.eFuseAddr := (Prod.mk.inj (Option.some.inj hs')).1
    omega

/-- The three walks agree exactly on the regular contents. -/
theorem walkers_agree {content : Memory} (hsec : SectionsBelow content) {offset : UInt8}
    (hoff : offset.toNat < 64) : WalkersAgree content offset ↔ Regular content offset.toNat :=
  ⟨WalkersAgree.regular hsec hoff, Regular.walkersAgree hsec hoff⟩

section Samples

/-- One packet of section 0, with the word that `header` enables. -/
def onePacket (header : UInt8) : Memory := fun a => [header, 0x12, 0x34].getD a 0xFF

theorem onePacket_first : Log (sizeNext (onePacket 0x0E)) 0 [⟨0, 0x0E, 1⟩] 3 :=
  ⟨Walk.single rfl, rfl⟩

theorem onePacket_last : Log (sizeNext (onePacket 0x07)) 0 [⟨0, 0x07, 1⟩] 3 :=
  ⟨Walk.single rfl, rfl⟩

theorem walkers_agree_first : WalkersAgree (onePacket 0x0E) 0 := by
  have hsec : SectionsBelow (onePacket 0x0E) :=
    SectionsBelow.of_log onePacket_first (by simp)
  apply (walkers_agree hsec (by decide)).mpr
  refine ⟨by decide, _, _, onePacket_first, by omega, ?_⟩
  unfold SectionAgrees
  decide

/-- A packet with only its last word enabled: the packet read looks for it in the last slot. -/
theorem walkers_differ : ¬ ∀ content, SectionsBelow content → ∀ offset : UInt8,
    offset.toNat < 64 → WalkersAgree content offset := by
  intro h
  have hsec : SectionsBelow (onePacket 0x07) :=
    SectionsBelow.of_log onePacket_last (by simp)
  obtain ⟨-, ps, e, hlog, -, hagree⟩ := (h _ hsec 0 (by decide)).regular hsec (by decide)
  obtain ⟨rfl, rfl⟩ := hlog.unique onePacket_last
  exact absurd (hagree 6 (by omega)) (by decide)

end Samples

end Rtl8188eu.Efuse
