import StandaloneDrivers.Rtl8188eu.ElementSearch
import StandaloneDrivers.Rtl8188eu.Reorder

/-! The parsers of the WPA and the RSN element (`rtw_parse_wpa_ie` and `rtw_parse_wpa2_ie` of
rtw_ieee80211.c). The element stands at the beginning of the memory, and its length is claimed by
the caller. -/
namespace Rtl8188eu
open Foundations

/-- `WPA_CIPHER_NONE`, `WPA_CIPHER_WEP40`, `WPA_CIPHER_WEP104`, `WPA_CIPHER_TKIP` and
`WPA_CIPHER_CCMP` -/
def wpaCipherNone : BitVec 32 := 1
def wpaCipherWep40 : BitVec 32 := 2
def wpaCipherWep104 : BitVec 32 := 4
def wpaCipherTkip : BitVec 32 := 8
def wpaCipherCcmp : BitVec 32 := 16

/-- The code of a suite, of those that begin with the OUI. -/
def getCipherSuite (oui : List UInt8) (s : List UInt8) : BitVec 32 :=
  if s = oui ++ [0] then wpaCipherNone
  else if s = oui ++ [1] then wpaCipherWep40
  else if s = oui ++ [2] then wpaCipherTkip
  else if s = oui ++ [4] then wpaCipherCcmp
  else if s = oui ++ [5] then wpaCipherWep104
  else 0

def rtwGetWpaCipherSuite : List UInt8 → BitVec 32 := getCipherSuite [0x00, 0x50, 0xf2]

def rtwGetWpa2CipherSuite : List UInt8 → BitVec 32 := getCipherSuite [0x00, 0x0f, 0xac]

/-- What distinguishes the two elements: the id, the type of a vendor element in front of the
version, the codes of the suites, and `SUITE_1X`. -/
structure SecFormat where
  id : UInt8
  ouiType : List UInt8
  cipherSuite : List UInt8 → BitVec 32
  suite1x : List UInt8
  suite1x_length : suite1x.length = 4

def wpaFormat : SecFormat where
  id := vendorSpecificIe
  ouiType := wpaOui
  cipherSuite := rtwGetWpaCipherSuite
  suite1x := [0x00, 0x50, 0xf2, 1]
  suite1x_length := rfl

def wpa2Format : SecFormat where
  id := wpa2IeId
  ouiType := []
  cipherSuite := rtwGetWpa2CipherSuite
  suite1x := [0x00, 0x0f, 0xac, 0x01]
  suite1x_length := rfl

/-- What the parser stores: the group cipher if it does, the pairwise ciphers, and whether it sets
`is_8021x`. -/
structure SecCiphers where
  groupCipher : Option (BitVec 32)
  pairwiseCipher : BitVec 32
  is8021x : Bool

/-- The places that the parser has read, its result, and what it has stored. -/
structure SecParse where
  reads : List Span
  ret : Status
  out : SecCiphers

namespace SecFormat
variable (f : SecFormat) (m : Memory)

/-- The place of the group suite. -/
def bodyAt : ℕ := f.ouiType.length + 4

def ouiReads : List Span := if f.ouiType = [] then [] else [⟨2, f.ouiType.length⟩]

/-- The loop over the pairwise suites. -/
def pairwiseSuites : ℕ → ℕ → BitVec 32 → List Span × BitVec 32
  | 0, _, pairwise => ([], pairwise)
  | count + 1, pos, pairwise =>
      let rest := pairwiseSuites count (pos + 4) (pairwise ||| f.cipherSuite (m.read pos 4))
      (⟨pos, 4⟩ :: rest.1, rest.2)

/-- `given`: the caller wants to know of 802.1X. -/
def parseAkm (given : Bool) (pos : ℕ) (left : ℤ) (out : SecCiphers) : SecParse :=
  if given ∧ 6 ≤ left then
    ⟨[⟨pos + 2, 4⟩], .success,
      if m.read (pos + 2) 4 = f.suite1x then { out with is8021x := true } else out⟩
  else ⟨[], .success, out⟩

def parsePairwise (given : Bool) (pos : ℕ) (left : ℤ) (out : SecCiphers) : SecParse :=
  if 2 ≤ left then
    let count := m.le16 pos
    if count = 0 ∨ left - 2 < count * 4 then ⟨[⟨pos, 2⟩], .fail, out⟩
    else
      let suites := f.pairwiseSuites m count (pos + 2) out.pairwiseCipher
      let rest := f.parseAkm m given (pos + 2 + count * 4) (left - 2 - count * 4)
        { out with pairwiseCipher := suites.2 }
      { rest with reads := ⟨pos, 2⟩ :: suites.1 ++ rest.reads }
  else if left = 1 then ⟨[], .fail, out⟩
  else f.parseAkm m given pos left out

def parseGroup (given : Bool) (pos : ℕ) (left : ℤ) (out : SecCiphers) : SecParse :=
  if 4 ≤ left then
    let rest := f.parsePairwise m given (pos + 4) (left - 4)
      { out with groupCipher := some (f.cipherSuite (m.read pos 4)) }
    { rest with reads := ⟨pos, 4⟩ :: rest.reads }
  else if 0 < left then ⟨[], .fail, out⟩
  else f.parsePairwise m given pos left out

/-- The parser, on the pairwise ciphers of the caller. -/
def parse (ieLen : ℤ) (pairwise : BitVec 32) (given : Bool) : SecParse :=
  let out : SecCiphers := ⟨none, pairwise, false⟩
  if ieLen ≤ 0 then ⟨[], .fail, out⟩
  else if m 0 ≠ f.id then ⟨[⟨0, 1⟩], .fail, out⟩
  else if m 1 ≠ UInt8.ofInt (ieLen - 2) then ⟨[⟨0, 1⟩, ⟨1, 1⟩], .fail, out⟩
  else if m.read 2 f.ouiType.length ≠ f.ouiType then
    ⟨⟨0, 1⟩ :: ⟨1, 1⟩ :: f.ouiReads, .fail, out⟩
  else
    let rest := f.parseGroup m given f.bodyAt (ieLen - f.bodyAt) out
    { rest with reads := ⟨0, 1⟩ :: ⟨1, 1⟩ :: f.ouiReads ++ rest.reads }

end SecFormat

def rtwParseWpaIe : Memory → ℤ → BitVec 32 → Bool → SecParse := wpaFormat.parse

def rtwParseWpa2Ie : Memory → ℤ → BitVec 32 → Bool → SecParse := wpa2Format.parse

namespace SecFormat
variable (f : SecFormat)

/-- The bytes are an element of the format, and `body` is what stands behind the version. -/
def HasBody (ie body : List UInt8) : Prop :=
  ∃ (length : UInt8) (version : List UInt8), version.length = 2 ∧
    ie = f.id :: length :: (f.ouiType ++ (version ++ body)) ∧ length.toNat = ie.length - 2

end SecFormat

/-- The body has the pairwise suites, and `akm` is what stands behind them. -/
def HasSuites (body : List UInt8) (suites : List (List UInt8)) (akm : List UInt8) : Prop :=
  (body.length = 0 ∨ body.length = 4) ∧ suites = [] ∧ akm = [] ∨
    ∃ (group : List UInt8) (lo hi : UInt8), group.length = 4 ∧ suites ≠ [] ∧
      suites.length = lo.toNat + 256 * hi.toNat ∧ (∀ s ∈ suites, s.length = 4) ∧
      body = group ++ lo :: hi :: (suites.flatten ++ akm)

/-- A count that is not zero, and the suite as the first one. -/
def FirstAkm (akm suite : List UInt8) : Prop :=
  ∃ (lo hi : UInt8) (rest : List UInt8), akm = lo :: hi :: (suite ++ rest) ∧
    0 < lo.toNat + 256 * hi.toNat

namespace SecFormat
variable (f : SecFormat) (m : Memory) (ieLen : ℤ)

/-- What is meant of a parser: it reads inside, accepts what is well formed, and reports the
ciphers of exactly the pairwise suites and the first AKM suite. -/
def Parses (pairwise : BitVec 32) (given : Bool) (r : SecParse) : Prop :=
  (∀ s ∈ r.reads, s.Inside ieLen.toNat) ∧
    (r.ret = .success ↔ ∃ body suites akm,
      f.HasBody (m.read 0 ieLen.toNat) body ∧ HasSuites body suites akm) ∧
    ∀ body suites akm, f.HasBody (m.read 0 ieLen.toNat) body → HasSuites body suites akm →
      r.out.pairwiseCipher = (suites.map f.cipherSuite).foldl (· ||| ·) pairwise ∧
        (r.out.is8021x = true ↔ given = true ∧ FirstAkm akm f.suite1x)

/-- The id, the length as a byte, and the type, as far as they lie inside. -/
def HeaderMatches : Prop :=
  m 0 = f.id ∧ (2 ≤ ieLen → m 1 = UInt8.ofInt (ieLen - 2)) ∧
    (f.ouiType.length + 2 ≤ ieLen → m.read 2 f.ouiType.length = f.ouiType)

/-- The elements on which the parsers do what is meant: a header that matches is complete and its
length has not wrapped, and no suite follows on a count of zero AKM suites. -/
structure Sound (given : Bool) : Prop where
  complete : f.HeaderMatches m ieLen → 0 < ieLen → f.bodyAt ≤ ieLen
  unwrapped : f.HeaderMatches m ieLen → 258 ≤ ieLen →
    ¬ ∃ suites akm, HasSuites (m.read f.bodyAt (ieLen.toNat - f.bodyAt)) suites akm
  counted : given = true → ∀ body suites akm, f.HasBody (m.read 0 ieLen.toNat) body →
    HasSuites body suites akm → ∀ rest, akm ≠ 0 :: 0 :: (f.suite1x ++ rest)

end SecFormat

namespace SecFormat
variable (f : SecFormat) (m : Memory) (given : Bool) {pos : ℕ} {left : ℤ} {out : SecCiphers}

section Reads
variable {s : Span}

theorem pairwiseSuites_reads (count pos : ℕ) (pairwise : BitVec 32)
    (h : s ∈ (f.pairwiseSuites m count pos pairwise).1) :
    s.start + s.count ≤ pos + count * 4 := by
  induction count generalizing pos pairwise with
  | zero => cases h
  | succ count ih =>
    rcases List.mem_cons.mp h with rfl | hrest
    · dsimp only
      omega
    · have := ih (pos + 4) _ hrest
      omega

theorem parseAkm_reads (h : s ∈ (f.parseAkm m given pos left out).reads) :
    (s.start + s.count : ℤ) ≤ pos + left := by
  rw [parseAkm] at h
  split at h
  · rename_i hsix
    rw [List.mem_singleton.mp h]
    dsimp only
    omega
  · cases h

theorem parsePairwise_reads (h : s ∈ (f.parsePairwise m given pos left out).reads) :
    (s.start + s.count : ℤ) ≤ pos + left := by
  simp only [parsePairwise] at h
  split_ifs at h with htwo hbotch hone
  · rw [List.mem_singleton.mp h]
    dsimp only
    omega
  · simp only [List.cons_append, List.mem_cons, List.mem_append] at h
    rcases h with rfl | hsuite | hakm
    · dsimp only
      omega
    · have := f.pairwiseSuites_reads m _ _ _ hsuite
      omega
    · have := f.parseAkm_reads m given hakm
      omega
  · cases h
  · exact f.parseAkm_reads m given h

theorem parseGroup_reads (h : s ∈ (f.parseGroup m given pos left out).reads) :
    (s.start + s.count : ℤ) ≤ pos + left := by
  simp only [parseGroup] at h
  split_ifs at h with hfour hsome
  · rcases List.mem_cons.mp h with rfl | hrest
    · dsimp only
      omega
    · have := f.parsePairwise_reads m given hrest
      omega
  · cases h
  · exact f.parsePairwise_reads m given h

end Reads

section Results

theorem parseAkm_ret : (f.parseAkm m given pos left out).ret = .success := by
  rw [parseAkm]
  split <;> rfl

theorem parsePairwise_ret : (f.parsePairwise m given pos left out).ret = .success ↔
    left ≤ 0 ∨ 2 ≤ left ∧ m.le16 pos ≠ 0 ∧ m.le16 pos * 4 ≤ left - 2 := by
  simp only [parsePairwise]
  split_ifs with htwo hbotch hone
  · simp only [false_iff]
    omega
  · simp only [parseAkm_ret, true_iff]
    omega
  · simp only [false_iff]
    omega
  · simp only [parseAkm_ret, true_iff]
    omega

theorem parseGroup_ret : (f.parseGroup m given pos left out).ret = .success ↔
    left ≤ 0 ∨ left = 4 ∨
      6 ≤ left ∧ m.le16 (pos + 4) ≠ 0 ∧ m.le16 (pos + 4) * 4 ≤ left - 6 := by
  simp only [parseGroup]
  split_ifs with hfour hsome
  · simp only [parsePairwise_ret]
    omega
  · simp only [false_iff]
    omega
  · simp only [parsePairwise_ret]
    omega

theorem pairwiseSuites_value (suites : List (List UInt8)) (pos : ℕ) (pairwise : BitVec 32)
    (hfour : ∀ s ∈ suites, s.length = 4)
    (hread : m.read pos (suites.length * 4) = suites.flatten) :
    (f.pairwiseSuites m suites.length pos pairwise).2 =
      (suites.map f.cipherSuite).foldl (· ||| ·) pairwise := by
  induction suites generalizing pos pairwise with
  | nil => rfl
  | cons s suites ih =>
    rw [List.forall_mem_cons] at hfour
    rw [List.length_cons, Nat.add_mul, Nat.add_comm, Nat.one_mul, Memory.read_add,
      List.flatten_cons] at hread
    obtain ⟨hsuite, hrest⟩ := List.append_inj hread (by rw [Memory.read_length, hfour.1])
    rw [List.map_cons, List.foldl_cons, ← ih (pos + 4) _ hfour.2 hrest, ← hsuite]
    rfl

/-- The suites as they stand in memory. -/
theorem exists_suites (count pos : ℕ) : ∃ suites : List (List UInt8), suites.length = count ∧
    (∀ s ∈ suites, s.length = 4) ∧ suites.flatten = m.read pos (count * 4) := by
  induction count generalizing pos with
  | zero => exact ⟨[], rfl, by simp, by rw [Nat.zero_mul]; rfl⟩
  | succ count ih =>
    obtain ⟨suites, hlength, hfour, hflatten⟩ := ih (pos + 4)
    refine ⟨m.read pos 4 :: suites, by rw [List.length_cons, hlength], ?_, ?_⟩
    · rw [List.forall_mem_cons]
      exact ⟨m.read_length pos 4, hfour⟩
    · rw [List.flatten_cons, hflatten, ← Memory.read_add, Nat.add_mul, Nat.add_comm, Nat.one_mul]

theorem length_flatten {suites : List (List UInt8)} (h : ∀ s ∈ suites, s.length = 4) :
    suites.flatten.length = suites.length * 4 := by
  induction suites with
  | nil => rfl
  | cons s suites ih =>
    rw [List.forall_mem_cons] at h
    rw [List.flatten_cons, List.length_append, ih h.2, h.1, List.length_cons]
    omega

theorem read_body (k : ℕ) : m.read pos (6 + k) =
    m.read pos 4 ++ m (pos + 4) :: m (pos + 5) :: m.read (pos + 6) k := by
  have hsplit : 6 + k = 4 + (k + 1 + 1) := by omega
  rw [hsplit, Memory.read_add m pos 4, Memory.read_succ m (pos + 4),
    Memory.read_succ m (pos + 4 + 1)]

/-- The places of the suites in a body in memory. -/
theorem hasSuites_read {n : ℕ} {suites : List (List UInt8)} {akm : List UInt8} :
    HasSuites (m.read pos n) suites akm ↔
      (n = 0 ∨ n = 4) ∧ suites = [] ∧ akm = [] ∨
        suites ≠ [] ∧ suites.length = m.le16 (pos + 4) ∧ (∀ s ∈ suites, s.length = 4) ∧
          n = 6 + suites.length * 4 + akm.length ∧
          m.read (pos + 6) (suites.length * 4) = suites.flatten ∧
          m.read (pos + 6 + suites.length * 4) akm.length = akm := by
  rw [HasSuites, Memory.read_length]
  refine or_congr Iff.rfl ⟨?_, ?_⟩
  · rintro ⟨group, lo, hi, hgroup, hsome, hcount, hfour, hbody⟩
    have hflatten := length_flatten hfour
    have hn := congrArg List.length hbody
    simp only [Memory.read_length, List.length_append, List.length_cons, hgroup, hflatten] at hn
    have hsplit : n = 6 + (suites.length * 4 + akm.length) := by omega
    rw [hsplit, read_body, Memory.read_add m (pos + 6)] at hbody
    obtain ⟨-, hrest⟩ := List.append_inj hbody (by rw [Memory.read_length, hgroup])
    rw [List.cons.injEq, List.cons.injEq] at hrest
    obtain ⟨hlo, hhi, hrest⟩ := hrest
    obtain ⟨hsuites, hakm⟩ := List.append_inj hrest (by rw [Memory.read_length, hflatten])
    refine ⟨hsome, ?_, hfour, by omega, hsuites, hakm⟩
    rw [hcount, Memory.le16, ← hlo, ← hhi]
  · rintro ⟨hsome, hcount, hfour, hn, hsuites, hakm⟩
    refine ⟨m.read pos 4, m (pos + 4), m (pos + 5), m.read_length pos 4, hsome, hcount, hfour, ?_⟩
    rw [hn, Nat.add_assoc 6, read_body, Memory.read_add m (pos + 6), hsuites, hakm]

theorem exists_hasSuites {n : ℕ} : (∃ suites akm, HasSuites (m.read pos n) suites akm) ↔
    n = 0 ∨ n = 4 ∨ 6 ≤ n ∧ m.le16 (pos + 4) ≠ 0 ∧ m.le16 (pos + 4) * 4 ≤ n - 6 := by
  constructor
  · rintro ⟨suites, akm, h⟩
    rcases hasSuites_read m |>.mp h with ⟨hn, -⟩ | ⟨hsome, hcount, -, hn, -⟩
    · omega
    · have := List.length_pos_iff.mpr hsome
      omega
  · intro h
    by_cases hshort : n = 0 ∨ n = 4
    · exact ⟨[], [], (hasSuites_read m).mpr (Or.inl ⟨hshort, rfl, rfl⟩)⟩
    · obtain ⟨suites, hcount, hfour, hflatten⟩ := exists_suites m (m.le16 (pos + 4)) (pos + 6)
      refine ⟨suites, m.read (pos + 6 + suites.length * 4) (n - (6 + suites.length * 4)),
        (hasSuites_read m).mpr (Or.inr ⟨?_, hcount, hfour, ?_, ?_, ?_⟩)⟩
      · exact List.length_pos_iff.mp (by omega)
      · rw [Memory.read_length]
        omega
      · rw [hcount, hflatten]
      · rw [Memory.read_length]

theorem parseAkm_pairwise :
    (f.parseAkm m given pos left out).out.pairwiseCipher = out.pairwiseCipher := by
  rw [parseAkm]
  split
  · dsimp only
    split <;> rfl
  · rfl

theorem parseAkm_is8021x (hclear : out.is8021x = false) :
    (f.parseAkm m given pos left out).out.is8021x = true ↔
      given = true ∧ 6 ≤ left ∧ m.read (pos + 2) 4 = f.suite1x := by
  rw [parseAkm]
  split
  · rename_i hroom
    by_cases hsuite : m.read (pos + 2) 4 = f.suite1x
    · simp [hsuite, hroom]
    · simp [hsuite, hclear]
  · rename_i hroom
    simp only [hclear, Bool.false_eq_true, false_iff]
    exact fun h => hroom ⟨h.1, h.2.1⟩

/-- The suite behind a count, as it stands in memory. -/
theorem firstSuite_read {akm : List UInt8} (h : m.read pos akm.length = akm) :
    (6 ≤ akm.length ∧ m.read (pos + 2) 4 = f.suite1x) ↔
      ∃ lo hi rest, akm = lo :: hi :: (f.suite1x ++ rest) := by
  constructor
  · rintro ⟨hsix, hsuite⟩
    obtain ⟨k, hk⟩ := Nat.exists_eq_add_of_le' hsix
    have hsplit : k + 6 = 4 + k + 1 + 1 := by omega
    rw [hk, hsplit, Memory.read_succ, Memory.read_succ, Memory.read_add, hsuite] at h
    exact ⟨_, _, _, h.symm⟩
  · rintro ⟨lo, hi, rest, rfl⟩
    have hlength : (lo :: hi :: (f.suite1x ++ rest)).length = 4 + rest.length + 1 + 1 := by
      rw [List.length_cons, List.length_cons, List.length_append, f.suite1x_length]
    rw [hlength, Memory.read_succ, Memory.read_succ, Memory.read_add, List.cons.injEq,
      List.cons.injEq] at h
    refine ⟨by omega, (List.append_inj h.2.2 ?_).1⟩
    rw [Memory.read_length, f.suite1x_length]

/-- What is stored of a body that has suites. -/
theorem parseGroup_out {n : ℕ} {suites : List (List UInt8)} {akm : List UInt8}
    (h : HasSuites (m.read pos n) suites akm) (hclear : out.is8021x = false) :
    (f.parseGroup m given pos n out).out.pairwiseCipher =
        (suites.map f.cipherSuite).foldl (· ||| ·) out.pairwiseCipher ∧
      ((f.parseGroup m given pos n out).out.is8021x = true ↔
        given = true ∧ ∃ lo hi rest, akm = lo :: hi :: (f.suite1x ++ rest)) := by
  rcases hasSuites_read m |>.mp h with ⟨hn, rfl, rfl⟩ | ⟨hsome, hcount, hfour, hn, hsuites, hakm⟩
  · rcases hn with rfl | rfl
    · simp [parseGroup, parsePairwise, parseAkm, hclear]
    · simp [parseGroup, parsePairwise, parseAkm, hclear]
  · have hpos := List.length_pos_iff.mpr hsome
    have hvalue := f.pairwiseSuites_value m suites (pos + 6) out.pairwiseCipher hfour hsuites
    have hbotch : ¬ (suites.length = 0 ∨ (n : ℤ) - 4 - 2 < suites.length * 4) := by omega
    have hleft : (n : ℤ) - 4 - 2 - suites.length * 4 = akm.length := by omega
    rw [parseGroup, if_pos (by omega), parsePairwise, if_pos (by omega)]
    simp only [← hcount, if_neg hbotch, hleft]
    constructor
    · rw [parseAkm_pairwise]
      exact hvalue
    · refine (f.parseAkm_is8021x m given ?_).trans ?_
      · exact hclear
      rw [← firstSuite_read f m hakm]
      exact and_congr_right fun _ => and_congr_left fun _ => Int.ofNat_le

end Results

section Header
variable {f m} {ieLen : ℤ}

theorem HasBody.length_le {ie body : List UInt8} (h : f.HasBody ie body) :
    f.bodyAt ≤ ie.length ∧ ie.length < 258 := by
  obtain ⟨length, version, hversion, rfl, hlength⟩ := h
  have hbound := length.toNat_lt
  simp only [List.length_cons, List.length_append, bodyAt, hversion] at hlength ⊢
  omega

theorem hasBody_read {n : ℕ} {body : List UInt8} (h : f.bodyAt ≤ n) :
    f.HasBody (m.read 0 n) body ↔ m 0 = f.id ∧ (m 1).toNat = n - 2 ∧
      m.read 2 f.ouiType.length = f.ouiType ∧ body = m.read f.bodyAt (n - f.bodyAt) := by
  obtain ⟨k, rfl⟩ := Nat.exists_eq_add_of_le h
  have hsplit : f.bodyAt + k = f.ouiType.length + (2 + k) + 1 + 1 := by
    rw [bodyAt]
    omega
  have hversion : 0 + 1 + 1 + f.ouiType.length + 2 = f.bodyAt := by
    rw [bodyAt]
    omega
  rw [HasBody, Memory.read_length, Nat.add_sub_cancel_left]
  rw [hsplit, Memory.read_succ, Memory.read_succ, Memory.read_add, Memory.read_add, hversion]
  constructor
  · rintro ⟨length, version, hlen, heq, hlength⟩
    rw [List.cons.injEq, List.cons.injEq] at heq
    obtain ⟨hid, hbyte, hrest⟩ := heq
    obtain ⟨htype, hrest⟩ := List.append_inj hrest (Memory.read_length m _ _)
    have hbody := (List.append_inj hrest (by rw [Memory.read_length, hlen])).2
    exact ⟨hid, by rw [hbyte, hlength], htype, hbody.symm⟩
  · rintro ⟨hid, hlength, htype, rfl⟩
    exact ⟨m 1, _, m.read_length _ 2, by rw [hid, htype], hlength⟩

end Header

section Parser
variable {f m given} {ieLen : ℤ} {pairwise : BitVec 32}

theorem ouiReads_inside {s : Span} {n : ℕ} (h : s ∈ f.ouiReads) (hn : f.ouiType.length + 2 ≤ n) :
    s.Inside n := by
  rw [ouiReads] at h
  split at h
  · cases h
  · rw [List.mem_singleton.mp h]
    simp only [Span.Inside]
    omega

theorem parse_reads (h : (f.bodyAt : ℤ) ≤ ieLen) {s : Span}
    (hs : s ∈ (f.parse m ieLen pairwise given).reads) : s.Inside ieLen.toNat := by
  have hbody : f.bodyAt = f.ouiType.length + 4 := rfl
  have hfront : ∀ t : Span, t = ⟨0, 1⟩ ∨ t = ⟨1, 1⟩ ∨ t ∈ f.ouiReads → t.Inside ieLen.toNat := by
    rintro t (rfl | rfl | ht)
    · simp only [Span.Inside]
      omega
    · simp only [Span.Inside]
      omega
    · exact ouiReads_inside ht (by omega)
  simp only [parse] at hs
  split_ifs at hs with hpos hid hlen htype
  · cases hs
  · exact hfront s (Or.inl (List.mem_singleton.mp hs))
  · rw [List.mem_cons, List.mem_singleton] at hs
    exact hfront s (hs.imp_right Or.inl)
  · rw [List.mem_cons, List.mem_cons] at hs
    exact hfront s hs
  · simp only [List.cons_append, List.mem_cons, List.mem_append] at hs
    rcases hs with hs | hs | hs | hs
    · exact hfront s (Or.inl hs)
    · exact hfront s (Or.inr (Or.inl hs))
    · exact hfront s (Or.inr (Or.inr hs))
    · have := f.parseGroup_reads m given hs
      rw [Span.Inside]
      omega

/-- With a header that matches the parser comes to the group suite. -/
theorem parse_of_header (hheader : f.HeaderMatches m ieLen) (h : f.ouiType.length + 2 ≤ ieLen) :
    (f.parse m ieLen pairwise given).ret =
        (f.parseGroup m given f.bodyAt (ieLen - f.bodyAt) ⟨none, pairwise, false⟩).ret ∧
      (f.parse m ieLen pairwise given).out =
        (f.parseGroup m given f.bodyAt (ieLen - f.bodyAt) ⟨none, pairwise, false⟩).out := by
  obtain ⟨hid, hlen, htype⟩ := hheader
  rw [parse, if_neg (by omega), if_neg (not_not.mpr hid), if_neg (not_not.mpr (hlen (by omega))),
    if_neg (not_not.mpr (htype h))]
  exact ⟨rfl, rfl⟩

theorem parse_ret_of_other (hheader : ¬ f.HeaderMatches m ieLen) :
    (f.parse m ieLen pairwise given).ret = .fail := by
  simp only [parse]
  split_ifs with hpos hid hlen htype
  · rfl
  · rfl
  · rfl
  · rfl
  · exact absurd ⟨not_not.mp hid, fun _ => not_not.mp hlen, fun _ => not_not.mp htype⟩ hheader

/-- A header that is not complete is read beyond its end, or is accepted, exactly if it matches. -/
theorem parse_short (hpos : 0 < ieLen) (h : ieLen < f.bodyAt) :
    ((∀ s ∈ (f.parse m ieLen pairwise given).reads, s.Inside ieLen.toNat) ∧
      (f.parse m ieLen pairwise given).ret = .fail) ↔ ¬ f.HeaderMatches m ieLen := by
  constructor
  · rintro ⟨hinside, hfail⟩ hheader
    rcases Int.lt_or_le ieLen (f.ouiType.length + 2) with hcut | hroom
    · have hfront : ∀ t : Span, t = ⟨1, 1⟩ ∨ (m 1 = UInt8.ofInt (ieLen - 2) ∧ t ∈ f.ouiReads) →
          t ∈ (f.parse m ieLen pairwise given).reads := by
        intro t ht
        rw [parse, if_neg (by omega), if_neg (not_not.mpr hheader.1)]
        split_ifs with hlen htype
        · rcases ht with rfl | ⟨hmatch, -⟩
          · simp
          · exact absurd hmatch hlen
        · rcases ht with rfl | ⟨-, ht⟩
          · simp
          · simp [ht]
        · rcases ht with rfl | ⟨-, ht⟩
          · simp
          · simp [ht]
      rcases Int.lt_or_le ieLen 2 with hone | htwo
      · have hread := hinside _ (hfront ⟨1, 1⟩ (Or.inl rfl))
        simp only [Span.Inside] at hread
        omega
      · have hsome : f.ouiType ≠ [] := by
          intro hnone
          rw [hnone, List.length_nil] at hcut
          omega
        have htype : ⟨2, f.ouiType.length⟩ ∈ f.ouiReads := by
          rw [ouiReads, if_neg hsome]
          exact List.mem_singleton.mpr rfl
        have hread := hinside _ (hfront _ (Or.inr ⟨hheader.2.1 htwo, htype⟩))
        simp only [Span.Inside] at hread
        omega
    · have hret : (f.parse m ieLen pairwise given).ret = .success := by
        rw [(parse_of_header hheader hroom).1, parseGroup_ret]
        omega
      rw [hret] at hfail
      cases hfail
  · intro hheader
    refine ⟨?_, parse_ret_of_other hheader⟩
    intro s hs
    simp only [parse] at hs
    split_ifs at hs with hzero hid hlen htype
    · cases hs
    · rw [List.mem_singleton.mp hs]
      simp only [Span.Inside]
      omega
    · have htwo : 2 ≤ ieLen := by
        by_contra hone
        exact hheader ⟨not_not.mp hid, fun h => absurd h hone, fun h => by omega⟩
      rw [List.mem_cons, List.mem_singleton] at hs
      rcases hs with rfl | rfl <;> simp only [Span.Inside] <;> omega
    · have hroom : f.ouiType.length + 2 ≤ ieLen := by
        by_contra hcut
        exact hheader ⟨not_not.mp hid, fun _ => not_not.mp hlen, fun h => absurd h hcut⟩
      rw [List.mem_cons, List.mem_cons] at hs
      rcases hs with rfl | rfl | hs
      · simp only [Span.Inside]
        omega
      · simp only [Span.Inside]
        omega
      · exact ouiReads_inside hs (by omega)
    · exact absurd ⟨not_not.mp hid, fun _ => not_not.mp hlen, fun _ => not_not.mp htype⟩ hheader

theorem parse_ret_iff (h : (f.bodyAt : ℤ) ≤ ieLen) :
    (f.parse m ieLen pairwise given).ret = .success ↔ f.HeaderMatches m ieLen ∧
      ∃ suites akm, HasSuites (m.read f.bodyAt (ieLen.toNat - f.bodyAt)) suites akm := by
  have hbody : f.bodyAt = f.ouiType.length + 4 := rfl
  by_cases hheader : f.HeaderMatches m ieLen
  · rw [(parse_of_header hheader (by omega)).1, parseGroup_ret, exists_hasSuites]
    simp only [hheader, true_and]
    omega
  · rw [parse_ret_of_other hheader]
    simp [hheader]

/-- The length byte says what the caller claims, unless the length has wrapped. -/
theorem lengthByte_iff (hpos : 2 ≤ ieLen) (h : ieLen < 258) :
    m 1 = UInt8.ofInt (ieLen - 2) ↔ (m 1).toNat = ieLen.toNat - 2 := by
  have hbyte : (UInt8.ofInt (ieLen - 2)).toNat = ieLen.toNat - 2 := by
    rw [UInt8.ofInt, UInt8.toNat_ofNat']
    omega
  rw [← UInt8.toNat_inj, hbyte]

theorem hasBody_iff (h : (f.bodyAt : ℤ) ≤ ieLen) {body : List UInt8} :
    f.HasBody (m.read 0 ieLen.toNat) body ↔ f.HeaderMatches m ieLen ∧ ieLen < 258 ∧
      body = m.read f.bodyAt (ieLen.toNat - f.bodyAt) := by
  have hfour : f.bodyAt = f.ouiType.length + 4 := rfl
  rw [hasBody_read (by omega), HeaderMatches]
  constructor
  · rintro ⟨hid, hlength, htype, hbody⟩
    have hbound := (m 1).toNat_lt
    exact ⟨⟨hid, fun htwo => (lengthByte_iff htwo (by omega)).mpr hlength, fun _ => htype⟩,
      by omega, hbody⟩
  · rintro ⟨⟨hid, hlength, htype⟩, hshort, hbody⟩
    exact ⟨hid, (lengthByte_iff (by omega) hshort).mp (hlength (by omega)), htype (by omega),
      hbody⟩

theorem parse_out (hroom : (f.bodyAt : ℤ) ≤ ieLen) (hheader : f.HeaderMatches m ieLen)
    {suites : List (List UInt8)} {akm : List UInt8}
    (h : HasSuites (m.read f.bodyAt (ieLen.toNat - f.bodyAt)) suites akm) :
    (f.parse m ieLen pairwise given).out.pairwiseCipher =
        (suites.map f.cipherSuite).foldl (· ||| ·) pairwise ∧
      ((f.parse m ieLen pairwise given).out.is8021x = true ↔
        given = true ∧ ∃ lo hi rest, akm = lo :: hi :: (f.suite1x ++ rest)) := by
  have hfour : f.bodyAt = f.ouiType.length + 4 := rfl
  have hleft : ieLen - f.bodyAt = ((ieLen.toNat - f.bodyAt : ℕ) : ℤ) := by omega
  rw [(parse_of_header hheader (by omega)).2, hleft]
  exact f.parseGroup_out m given h rfl

/-- The code sets `is_8021x` for the first suite, unless none is counted. -/
theorem firstAkm_iff {akm suite : List UInt8} :
    ((∃ lo hi rest, akm = lo :: hi :: (suite ++ rest)) ↔ FirstAkm akm suite) ↔
      ∀ rest, akm ≠ 0 :: 0 :: (suite ++ rest) := by
  constructor
  · rintro h rest rfl
    obtain ⟨lo, hi, rest', heq, hcount⟩ := h.mp ⟨0, 0, rest, rfl⟩
    rw [List.cons.injEq, List.cons.injEq] at heq
    rw [← heq.1, ← heq.2.1] at hcount
    exact absurd hcount (by decide)
  · intro h
    constructor
    · rintro ⟨lo, hi, rest, rfl⟩
      refine ⟨lo, hi, rest, rfl, ?_⟩
      by_contra hzero
      have hlo : lo = 0 := UInt8.toNat_inj.mp (by rw [UInt8.toNat_zero]; omega)
      have hhi : hi = 0 := UInt8.toNat_inj.mp (by rw [UInt8.toNat_zero]; omega)
      exact h rest (by rw [hlo, hhi])
    · rintro ⟨lo, hi, rest, heq, -⟩
      exact ⟨lo, hi, rest, heq⟩

/-- Where the header is not complete, all that is meant is that it is rejected. -/
theorem parse_parses_short (hcut : ieLen < f.bodyAt) :
    f.Parses m ieLen pairwise given (f.parse m ieLen pairwise given) ↔
      f.Sound m ieLen given := by
  have hnone : ∀ body, ¬ f.HasBody (m.read 0 ieLen.toNat) body := by
    intro body hbody
    have hle := hbody.length_le.1
    rw [Memory.read_length] at hle
    have : 0 < f.bodyAt := Nat.succ_pos _
    omega
  have hparses : f.Parses m ieLen pairwise given (f.parse m ieLen pairwise given) ↔
      (∀ s ∈ (f.parse m ieLen pairwise given).reads, s.Inside ieLen.toNat) ∧
        (f.parse m ieLen pairwise given).ret = .fail := by
    have hfail : ∀ r : Status, (r = .success ↔ ∃ body suites akm,
        f.HasBody (m.read 0 ieLen.toNat) body ∧ HasSuites body suites akm) ↔ r = .fail := by
      intro r
      cases r <;> simp [hnone]
    rw [Parses, hfail]
    simp [hnone]
  rw [hparses]
  rcases Int.lt_or_le 0 ieLen with hpos | hzero
  · rw [parse_short hpos hcut]
    constructor
    · intro hheader
      exact ⟨fun h => absurd h hheader, fun h => absurd h hheader,
        fun _ body _ _ h => absurd h (hnone body)⟩
    · intro hsound hheader
      have := hsound.complete hheader hpos
      omega
  · have hparse : f.parse m ieLen pairwise given = ⟨[], .fail, ⟨none, pairwise, false⟩⟩ := by
      rw [parse, if_pos hzero]
    rw [hparse]
    constructor
    · intro _
      exact ⟨fun _ h => by omega, fun _ h => by omega,
        fun _ body _ _ h => absurd h (hnone body)⟩
    · intro _
      exact ⟨by simp, rfl⟩

/-- The parser does what is meant on exactly the sound elements. -/
theorem parse_parses_iff :
    f.Parses m ieLen pairwise given (f.parse m ieLen pairwise given) ↔
      f.Sound m ieLen given := by
  rcases Int.lt_or_le ieLen f.bodyAt with hcut | hroom
  · exact parse_parses_short hcut
  constructor
  · rintro ⟨-, hret, hout⟩
    rw [parse_ret_iff hroom] at hret
    refine ⟨fun _ _ => hroom, ?_, ?_⟩
    · intro hheader hlong hsuites
      obtain ⟨body, _, _, hbody, -⟩ := hret.mp ⟨hheader, hsuites⟩
      have := ((hasBody_iff hroom).mp hbody).2.1
      omega
    · intro hgiven body suites akm hbody hsuites
      have hset := (hout body suites akm hbody hsuites).2
      obtain ⟨hheader, -, rfl⟩ := (hasBody_iff hroom).mp hbody
      rw [(parse_out hroom hheader hsuites).2, and_congr_right_iff] at hset
      exact firstAkm_iff.mp (hset hgiven)
  · intro hsound
    refine ⟨fun s hs => parse_reads hroom hs, ?_, ?_⟩
    · rw [parse_ret_iff hroom]
      constructor
      · rintro ⟨hheader, hsuites⟩
        have hshort : ieLen < 258 := by
          by_contra hlong
          exact hsound.unwrapped hheader (by omega) hsuites
        obtain ⟨suites, akm, hsuites⟩ := hsuites
        exact ⟨_, suites, akm, (hasBody_iff hroom).mpr ⟨hheader, hshort, rfl⟩, hsuites⟩
      · rintro ⟨body, suites, akm, hbody, hsuites⟩
        obtain ⟨hheader, -, rfl⟩ := (hasBody_iff hroom).mp hbody
        exact ⟨hheader, suites, akm, hsuites⟩
    · intro body suites akm hbody hsuites
      have hcounted := fun hgiven => hsound.counted hgiven body suites akm hbody hsuites
      obtain ⟨hheader, -, rfl⟩ := (hasBody_iff hroom).mp hbody
      refine ⟨(parse_out hroom hheader hsuites).1, (parse_out hroom hheader hsuites).2.trans ?_⟩
      exact and_congr_right fun hgiven => firstAkm_iff.mpr (hcounted hgiven)

end Parser

end SecFormat

/-- Both parsers do what is meant on exactly the sound elements. -/
theorem rtwParseWpaIe_rtwParseWpa2Ie_iff (m : Memory) (ieLen : ℤ) (pairwise : BitVec 32)
    (given : Bool) :
    (wpaFormat.Parses m ieLen pairwise given (rtwParseWpaIe m ieLen pairwise given) ↔
        wpaFormat.Sound m ieLen given) ∧
      (wpa2Format.Parses m ieLen pairwise given (rtwParseWpa2Ie m ieLen pairwise given) ↔
        wpa2Format.Sound m ieLen given) :=
  ⟨SecFormat.parse_parses_iff, SecFormat.parse_parses_iff⟩

/-- A vendor element with two bytes in its body. -/
def shortVendorIe : Memory := fun i => [0xdd, 2, 0x00, 0x50].getD i 0

/-- Of its four bytes the parser compares the last two and two behind them. -/
theorem rtwParseWpaIe_overread : ¬ wpaFormat.Parses shortVendorIe 4 0 false
    (rtwParseWpaIe shortVendorIe 4 0 false) := by
  rintro ⟨hinside, -⟩
  have hread : (⟨2, 4⟩ : Span) ∈ (rtwParseWpaIe shortVendorIe 4 0 false).reads := by decide
  exact absurd (hinside _ hread) (by decide)

end Rtl8188eu
