import StandaloneDrivers.Foundations.Memory
import Mathlib.Data.Int.Basic

/-! The scans of the bridge extension for an option of a neighbour-discovery message and for a tag of
a PPPoE packet (`rtw_br_ext.c`). A message lies in memory from its ICMPv6 header on, a packet from its
Ethernet header on. -/
namespace Rtl8188eu.BrExt
open Foundations

/-- The places that a scan has read, and the pointer that it returns. -/
abbrev Scan : Type := List Span × Option ℕ

/-- `TAG_HDR_LEN` -/
abbrev tagHdrLen : ℕ := 4

section Code
variable (m : Memory)

/-- The loop of `scan_tlv`, cut off after a number of rounds. -/
def scanTlv (tag len8b : UInt8) : ℕ → ℕ → ℤ → Option Scan
  | 0, _, len => if 0 < len then none else some ([], none)
  | fuel + 1, data, len =>
    if 0 < len then
      if m data = tag ∧ m (data + 1) = len8b ∧ (len8b.toNat * 8 : ℤ) ≤ len then
        some ([⟨data, 1⟩, ⟨data + 1, 1⟩], some (data + 2))
      else
        (scanTlv tag len8b fuel (data + (m (data + 1)).toNat * 8)
          (len - ((m (data + 1)).toNat * 8 : ℕ))).map fun r =>
            (⟨data, 1⟩ :: ⟨data + 1, 1⟩ :: r.1, r.2)
    else some ([], none)

/-- Where the options of a message begin, and which one holds the address of the sender or of the
target: router solicitation and advertisement, neighbour solicitation and advertisement, redirect. -/
def ndOption (icmp6Type : UInt8) : Option (ℕ × UInt8) :=
  if icmp6Type = 133 then some (8, 1)
  else if icmp6Type = 134 then some (16, 1)
  else if icmp6Type = 135 then some (24, 1)
  else if icmp6Type = 136 then some (24, 2)
  else if icmp6Type = 137 then some (40, 2)
  else none

/-- The call of `scan_tlv` in `update_nd_link_layer_addr`, for a message of `len` bytes. -/
def ndScan (len fuel : ℕ) : Option Scan :=
  match ndOption (m 0) with
  | some (header, tag) =>
    if header ≤ len then scanTlv m tag 1 fuel header ((len - header : ℕ) : ℤ) else some ([], none)
  | none => some ([], none)

/-- `ntohs(ph->length)` -/
def pppoeLength : ℕ := m.be16 18

/-- The loop of `__nat25_find_pppoe_tag`, which reads the length of the packet in every test. -/
def findTag (type stop cur : ℕ) : Scan :=
  if cur < stop then
    if m.be16 cur = type then ([⟨18, 2⟩, ⟨cur, tagHdrLen⟩], some cur)
    else
      let r := findTag type stop (cur + tagHdrLen + m.be16 (cur + 2))
      (⟨18, 2⟩ :: ⟨cur, tagHdrLen⟩ :: r.1, r.2)
  else ([⟨18, 2⟩], none)
  termination_by stop - cur
  decreasing_by
    have hheader : 0 < tagHdrLen := by decide
    omega

/-- `__nat25_find_pppoe_tag` -/
def nat25FindPppoeTag (type : ℕ) : Scan := findTag m type (20 + pppoeLength m) 20

end Code

section Specification
variable (m : Memory)

/-- The scan for an option ends, reads bytes of the message only, and returns a complete option. -/
def NdScanSound (len : ℕ) : Prop :=
  ∃ fuel r, ndScan m len fuel = some r ∧ (∀ s ∈ r.1, s.Inside len) ∧
    ∀ mac ∈ r.2, ∃ p, mac = p + 2 ∧ p + (m (p + 1)).toNat * 8 ≤ len

/-- From a place on, the options up to the wanted one have a type, a length, and a length that is
not zero; the last one may be cut off. -/
inductive OptionsFit (stop : ℕ) (tag : UInt8) : ℕ → Prop
  | done {p : ℕ} (h : stop ≤ p) : OptionsFit stop tag p
  | found {p : ℕ} (htag : m p = tag) (hlen : m (p + 1) = 1) (h : p + 8 ≤ stop) :
      OptionsFit stop tag p
  | next {p : ℕ} (h : p + 2 ≤ stop) (hlen : m (p + 1) ≠ 0)
      (hrest : OptionsFit stop tag (p + (m (p + 1)).toNat * 8)) : OptionsFit stop tag p

/-- The options of a message that is scanned. -/
def NdFits (len : ℕ) : Prop :=
  ∀ header tag, ndOption (m 0) = some (header, tag) → header ≤ len → OptionsFit m len tag header

/-- The search for a tag reads the `size` bytes of the packet only, and returns a complete tag. -/
def PppoeSearchSound (size type : ℕ) : Prop :=
  (∀ s ∈ (nat25FindPppoeTag m type).1, s.Inside size) ∧
    ∀ cur ∈ (nat25FindPppoeTag m type).2, cur + tagHdrLen + m.be16 (cur + 2) ≤ size

/-- From a place on, the headers of the tags in front of the wanted one lie inside, and the wanted
one is complete. -/
inductive TagsFit (size type stop : ℕ) : ℕ → Prop
  | done {p : ℕ} (h : stop ≤ p) : TagsFit size type stop p
  | found {p : ℕ} (htype : m.be16 p = type) (h : p + tagHdrLen + m.be16 (p + 2) ≤ size) :
      TagsFit size type stop p
  | next {p : ℕ} (htype : m.be16 p ≠ type) (h : p + tagHdrLen ≤ size)
      (hrest : TagsFit size type stop (p + tagHdrLen + m.be16 (p + 2))) : TagsFit size type stop p

/-- The header and the tags of a packet. -/
def PppoeFits (size type : ℕ) : Prop := 20 ≤ size ∧ TagsFit m size type (20 + pppoeLength m) 20

end Specification

section Options
variable {m : Memory} {stop p fuel : ℕ} {tag : UInt8}

/-- By induction over the options: the scan has as many rounds as there are options. -/
theorem OptionsFit.scan (h : OptionsFit m stop tag p) :
    ∃ fuel r, scanTlv m tag 1 fuel p ((stop : ℤ) - p) = some r ∧ (∀ s ∈ r.1, s.Inside stop) ∧
      ∀ mac ∈ r.2, ∃ q, mac = q + 2 ∧ q + (m (q + 1)).toNat * 8 ≤ stop := by
  have hone : ((1 : UInt8).toNat * 8 : ℤ) = 8 := rfl
  induction h with
  | done h => exact ⟨0, ([], none), if_neg (by omega), by simp, by simp⟩
  | @found p htag hlen h =>
    refine ⟨1, ([⟨p, 1⟩, ⟨p + 1, 1⟩], some (p + 2)), ?_, ?_, ?_⟩
    · rw [scanTlv, if_pos (by omega), if_pos ⟨htag, hlen, by omega⟩]
    · simp only [List.forall_mem_cons, Span.Inside]
      exact ⟨by omega, by omega, by simp⟩
    · rintro mac hmac
      cases hmac
      have hbyte : (1 : UInt8).toNat = 1 := rfl
      exact ⟨p, rfl, by rw [hlen, hbyte]; omega⟩
  | @next p h hlen hrest ih =>
    obtain ⟨fuel, r, hscan, hinside, hmac⟩ := ih
    have hheader : (⟨p, 1⟩ : Span).Inside stop ∧ (⟨p + 1, 1⟩ : Span).Inside stop := by
      simp only [Span.Inside]
      omega
    by_cases hfound : m p = tag ∧ m (p + 1) = 1 ∧ ((1 : UInt8).toNat * 8 : ℤ) ≤ (stop : ℤ) - p
    · refine ⟨1, ([⟨p, 1⟩, ⟨p + 1, 1⟩], some (p + 2)), ?_, ?_, ?_⟩
      · rw [scanTlv, if_pos (by omega), if_pos hfound]
      · simpa only [List.forall_mem_cons] using ⟨hheader.1, hheader.2, by simp⟩
      · rintro mac hmac
        cases hmac
        have hbyte : (1 : UInt8).toNat = 1 := rfl
        exact ⟨p, rfl, by rw [hfound.2.1, hbyte]; omega⟩
    · refine ⟨fuel + 1, (⟨p, 1⟩ :: ⟨p + 1, 1⟩ :: r.1, r.2), ?_, ?_, hmac⟩
      · rw [scanTlv, if_pos (by omega), if_neg hfound, Int.sub_sub, ← Int.natCast_add, hscan]
        rfl
      · simp only [List.forall_mem_cons]
        exact ⟨hheader.1, hheader.2, hinside⟩

/-- An option of length zero is scanned again, with less fuel. -/
theorem optionsFit_of_scan {r : Scan} (hscan : scanTlv m tag 1 fuel p ((stop : ℤ) - p) = some r)
    (hinside : ∀ s ∈ r.1, s.Inside stop) : OptionsFit m stop tag p := by
  have hone : ((1 : UInt8).toNat * 8 : ℤ) = 8 := rfl
  induction fuel generalizing p r with
  | zero =>
    rw [scanTlv] at hscan
    split_ifs at hscan
    exact .done (by omega)
  | succ fuel ih =>
    rw [scanTlv] at hscan
    split_ifs at hscan with hmore hfound
    · exact .found hfound.1 hfound.2.1 (by omega)
    · obtain ⟨rest, hrest, rfl⟩ := Option.map_eq_some_iff.mp hscan
      simp only [List.forall_mem_cons] at hinside
      rw [Int.sub_sub, ← Int.natCast_add] at hrest
      have hfits := ih hrest hinside.2.2
      by_cases hzero : m (p + 1) = 0
      · have hstay : p + (m (p + 1)).toNat * 8 = p := by
          rw [hzero]
          rfl
        exact hstay ▸ hfits
      · exact .next hinside.2.1 hzero hfits
    · exact .done (by omega)

theorem ndScanSound_iff (m : Memory) (len : ℕ) : NdScanSound m len ↔ NdFits m len := by
  have hleft : ∀ header ≤ len, ((len - header : ℕ) : ℤ) = (len : ℤ) - header :=
    fun header h => Int.ofNat_sub h
  cases hoption : ndOption (m 0) with
  | none =>
    apply iff_of_true
    · exact ⟨0, ([], none), by rw [ndScan, hoption], by simp, by simp⟩
    · intro header tag hsome
      rw [hoption] at hsome
      exact nomatch hsome
  | some pair =>
    obtain ⟨header, tag⟩ := pair
    by_cases hlen : header ≤ len
    · constructor
      · rintro ⟨fuel, r, hscan, hinside, -⟩ header' tag' hsome -
        rw [hoption] at hsome
        cases hsome
        simp only [ndScan, hoption, if_pos hlen, hleft header hlen] at hscan
        exact optionsFit_of_scan hscan hinside
      · intro hfits
        obtain ⟨fuel, r, hscan, hrest⟩ := (hfits header tag hoption hlen).scan
        refine ⟨fuel, r, ?_, hrest⟩
        simp only [ndScan, hoption, if_pos hlen, hleft header hlen, hscan]
    · apply iff_of_true
      · exact ⟨0, ([], none), by simp only [ndScan, hoption, if_neg hlen], by simp, by simp⟩
      · intro header' tag' hsome hlen'
        rw [hoption] at hsome
        cases hsome
        exact absurd hlen' hlen

end Options

section Tags
variable {m : Memory} {size type stop p : ℕ}

theorem findTag_done (h : stop ≤ p) : findTag m type stop p = ([⟨18, 2⟩], none) := by
  rw [findTag, if_neg (Nat.not_lt.mpr h)]

theorem findTag_found (h : p < stop) (htype : m.be16 p = type) :
    findTag m type stop p = ([⟨18, 2⟩, ⟨p, tagHdrLen⟩], some p) := by
  rw [findTag, if_pos h, if_pos htype]

theorem findTag_next (h : p < stop) (htype : m.be16 p ≠ type) :
    findTag m type stop p =
      (⟨18, 2⟩ :: ⟨p, tagHdrLen⟩ :: (findTag m type stop (p + tagHdrLen + m.be16 (p + 2))).1,
        (findTag m type stop (p + tagHdrLen + m.be16 (p + 2))).2) := by
  rw [findTag, if_pos h, if_neg htype]

/-- The length of the packet is read whatever the tags are. -/
theorem length_read : (⟨18, 2⟩ : Span) ∈ (findTag m type stop p).1 := by
  rw [findTag]
  split_ifs <;> exact List.mem_cons_self

/-- The search meets what it should from a place on if the tags fit from there on. -/
theorem findTag_iff (hroom : 20 ≤ size) :
    ((∀ s ∈ (findTag m type stop p).1, s.Inside size) ∧
      ∀ cur ∈ (findTag m type stop p).2, cur + tagHdrLen + m.be16 (cur + 2) ≤ size) ↔
        TagsFit m size type stop p := by
  have hlength : (⟨18, 2⟩ : Span).Inside size := hroom
  constructor
  · rintro ⟨hinside, hcur⟩
    fun_induction findTag m type stop p with
    | case1 p hlt htype => exact .found htype (hcur p rfl)
    | case2 p hlt htype r ih =>
      simp only [List.forall_mem_cons] at hinside
      exact .next htype hinside.2.1 (ih hinside.2.2 hcur)
    | case3 p hle => exact .done (Nat.not_lt.mp hle)
  · intro hfits
    induction hfits with
    | done h => simp [findTag_done h, hlength]
    | @found p htype h =>
      by_cases hlt : p < stop
      · have hheader : (⟨p, tagHdrLen⟩ : Span).Inside size := by
          simp only [Span.Inside]
          omega
        simp [findTag_found hlt htype, hlength, hheader, h]
      · simp [findTag_done (Nat.not_lt.mp hlt), hlength]
    | @next p htype h hrest ih =>
      by_cases hlt : p < stop
      · rw [findTag_next hlt htype]
        simp only [List.forall_mem_cons]
        exact ⟨⟨hlength, h, ih.1⟩, ih.2⟩
      · simp [findTag_done (Nat.not_lt.mp hlt), hlength]

theorem pppoeSearchSound_iff (m : Memory) (size type : ℕ) :
    PppoeSearchSound m size type ↔ PppoeFits m size type := by
  by_cases hroom : 20 ≤ size
  · rw [PppoeSearchSound, nat25FindPppoeTag, findTag_iff hroom, PppoeFits, and_iff_right hroom]
  · apply iff_of_false
    · exact fun h => hroom (h.1 _ length_read)
    · exact fun h => hroom h.1

end Tags

/-- When the two scans do what they should. -/
theorem optionScans_sound_iff (m : Memory) (len size type : ℕ) :
    (NdScanSound m len ↔ NdFits m len) ∧
      (PppoeSearchSound m size type ↔ PppoeFits m size type) :=
  ⟨ndScanSound_iff m len, pppoeSearchSound_iff m size type⟩

/-- A router solicitation of 16 bytes with an option of length zero. -/
def zeroOption : Memory := fun i => [133, 0, 0, 0, 0, 0, 0, 0, 1, 0].getD i 0

/-- A PADI packet of 22 bytes whose tags take two of them, which is less than a header. -/
def cutTag : Memory :=
  fun i => (List.replicate 12 (0xff : UInt8) ++ [0x88, 0x63, 0x11, 0x09, 0, 0, 0, 2, 1, 1]).getD i 0

/-- The scan for the option does not end, and the header of the tag is read behind the packet. -/
theorem zeroOption_unsound : ¬NdScanSound zeroOption 16 ∧ ¬PppoeSearchSound cutTag 22 0x0110 := by
  constructor
  · rw [ndScanSound_iff]
    intro hfits
    cases hfits 8 1 rfl (by decide) with
    | done h => exact absurd h (by decide)
    | found _ hlen _ => exact absurd hlen (by decide)
    | next _ hlen _ => exact hlen rfl
  · rw [pppoeSearchSound_iff]
    rintro ⟨-, hfits⟩
    cases hfits with
    | done h => exact absurd h (by decide)
    | found htype _ => exact absurd htype (by decide)
    | next _ h _ => exact absurd h (by decide)

end Rtl8188eu.BrExt
