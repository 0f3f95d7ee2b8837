import StandaloneDrivers.Rt5572.CryptHash
import Mathlib.Data.List.TakeWhile

/-! Key derivation (common/cmm_wpa.c): the pairwise master key of a pass phrase, the pseudo-random
function, and what it makes of a master key and the nonces. -/
namespace Rt5572
open Foundations

/-- The size of the buffer in which `PRF` and `KDF` put their input together. -/
abbrev keyInputSize : ℕ := 1024

/-- `NdisMoveMemory` to an offset of a buffer, which must not leave it. -/
def moveMemory (buffer : List UInt8) (offset : ℕ) (bytes : List UInt8) : Option (List UInt8) :=
  if offset + bytes.length ≤ buffer.length then some (overwrite buffer offset bytes) else none

/-- The loops of `PRF` and `KDF`: a keyed hash of the input is moved behind the last one, and one
octet of the input counts them. -/
def macLoop (mac : List UInt8 → Option (List UInt8)) (macLen counterAt : ℕ) :
    ℕ → List UInt8 → ℕ → List UInt8 → Option (List UInt8)
  | 0, _, _, output => some output
  | rounds + 1, input, currentIndex, output => do
    let output ← moveMemory output currentIndex (← mac input)
    let input := input.set counterAt (input.getD counterAt 0 + 1)
    macLoop mac macLen counterAt rounds input (currentIndex + macLen) output

/-- `PRF`: what it leaves in a buffer. -/
def prf (key prfix data output : List UInt8) (len : ℕ) : Option (List UInt8) :=
  let input := prfix ++ 0 :: data ++ [0]
  if input.length ≤ keyInputSize then
    macLoop (fun input => rtHmacSha1 key input 20) 20 (input.length - 1) ((len + 19) / 20) input 0
      output
  else none

/-- `KDF`; the length is counted in bits. -/
def kdf (key label data output : List UInt8) (len : UInt16) : Option (List UInt8) :=
  let lenInBits := 8 * len.toNat
  let input := 1 :: 0 :: label ++ data ++ [UInt8.ofNat lenInBits, UInt8.ofNat (lenInBits / 256)]
  if input.length ≤ keyInputSize then
    macLoop (fun input => rtHmacSha256 key input 32) 32 0 ((lenInBits + 255) / 256) input 0 output
  else none

section PassPhrase

/-- `strlen` -/
def strlen (s : List UInt8) : ℕ := (s.takeWhile (· ≠ 0)).length

/-- The loop of `F` from its second iteration on: `digest1` and `output`. -/
def passwordLoop (password : List UInt8) : ℕ → List UInt8 × List UInt8 →
    Option (List UInt8 × List UInt8)
  | 0, s => some s
  | n + 1, (digest1, output) => do
    let digest ← rtHmacSha1 password digest1 20
    passwordLoop password n (digest, List.zipWith (· ^^^ ·) output digest)

/-- `F`: the digest that is left at an offset of the output; `ssid` and the number of the block go
through `digest`, which has 36 bytes. -/
def passwordF (password ssid : List UInt8) (iterations count : ℕ) : Option (List UInt8) := do
  let text ← moveMemory (List.replicate 36 0) 0 (ssid ++ beBytes 4 count)
  let digest1 ← rtHmacSha1 (password.take (strlen password)) (text.take (ssid.length + 4)) 20
  let s ← passwordLoop (password.take (strlen password)) (iterations - 1) (digest1, digest1)
  some s.2

/-- `RtmpPasswordHash`: what it leaves in the output, if it returns 1; there is no output of a pass
phrase or a network name that is too long. -/
def rtmpPasswordHash (password ssid output : List UInt8) : Option (Option (List UInt8)) :=
  if 63 < strlen password ∨ 32 < ssid.length then some none
  else do
    let output ← moveMemory output 0 (← passwordF password ssid 4096 1)
    let output ← moveMemory output 20 (← passwordF password ssid 4096 2)
    some (some output)

/-- `BtoH` -/
def btoH (c : UInt8) : UInt8 :=
  if 0x30 ≤ c ∧ c ≤ 0x39 then c - 0x30
  else if 0x41 ≤ c ∧ c ≤ 0x46 then c - 0x41 + 0xa
  else if 0x61 ≤ c ∧ c ≤ 0x66 then c - 0x61 + 0xa
  else 255

/-- `AtoH`: `destlen` bytes of as many pairs of digits. -/
def atoH (src : List UInt8) (destlen : ℕ) : List UInt8 :=
  (List.range destlen).map fun i => btoH (src.getD (2 * i) 0) <<< 4 + btoH (src.getD (2 * i + 1) 0)

/-- `RT_CfgSetWPAPSKKey`: the master key, when it returns TRUE; `keyMaterial` is what is on the stack
before. -/
def rtCfgSetWpaPskKey (keyString hashStr keyMaterial : List UInt8) : Option (Option (List UInt8)) :=
  if keyString.length < 8 ∨ 64 < keyString.length then some none
  else if keyString.length = 64 then some (some (atoH keyString 32))
  else do
    let hashed ← rtmpPasswordHash keyString hashStr keyMaterial
    some (some ((hashed.getD keyMaterial).take 32))

end PassPhrase

/-- `RTMPCompareMemory` of memory of one length. -/
def rtmpCompareMemory : List UInt8 → List UInt8 → ℕ
  | a :: as, b :: bs => if b < a then 1 else if a < b then 2 else rtmpCompareMemory as bs
  | _, _ => 0

/-- `Prefix` of `WpaDerivePTK` -/
def ptkPrefix : List UInt8 :=
  ['P', 'a', 'i', 'r', 'w', 'i', 's', 'e', ' ', 'k', 'e', 'y', ' ', 'e', 'x', 'p', 'a', 'n', 's', 'i', 'o',
    'n'].map Char.toUInt8

/-- `Prefix` of `WpaDeriveGTK` -/
def gtkPrefix : List UInt8 :=
  ['G', 'r', 'o', 'u', 'p', ' ', 'k', 'e', 'y', ' ', 'e', 'x', 'p', 'a', 'n', 's', 'i', 'o', 'n'].map
    Char.toUInt8

/-- `concatenation` of `WpaDerivePTK`; two nonces that are the same give way to the larger address. -/
def ptkConcatenation (aNonce aa sNonce sa : List UInt8) : List UInt8 :=
  let smaller := if rtmpCompareMemory sa aa = 1 then aa else sa
  let larger := if rtmpCompareMemory sa aa = 1 then sa else aa
  let temp := larger ++ List.replicate (32 - larger.length) 0
  let smallerNonce := if rtmpCompareMemory aNonce sNonce = 0 then temp
    else if rtmpCompareMemory aNonce sNonce = 1 then sNonce else aNonce
  let largerNonce := if rtmpCompareMemory aNonce sNonce = 0 then temp
    else if rtmpCompareMemory aNonce sNonce = 1 then aNonce else sNonce
  smaller ++ larger ++ smallerNonce ++ largerNonce

/-- `WpaDerivePTK` -/
def wpaDerivePtk (pmk aNonce aa sNonce sa output : List UInt8) (len : ℕ) : Option (List UInt8) :=
  prf (pmk.take 32) ptkPrefix (ptkConcatenation aNonce aa sNonce sa) output len

/-- `WpaDeriveGTK`: what is moved to the output. -/
def wpaDeriveGtk (gmk gNonce aa : List UInt8) (len : ℕ) : Option (List UInt8) :=
  (prf (gmk.take 32) gtkPrefix (aa ++ gNonce) (List.replicate 80 0) len).map (·.take len)

/-- `RTMPDerivePMKID` -/
def rtmpDerivePmkid (aAddr spAddr key : List UInt8) : Option (List UInt8) :=
  (rtHmacSha1 (key.take 32) (['P', 'M', 'K', ' ', 'N', 'a', 'm', 'e'].map Char.toUInt8 ++ aAddr ++ spAddr)
    20).map (·.take 16)

/-- `GenRandom`: the clock is read once for each of 32 rounds, and `result` goes into the next one. -/
def genRandom (macAddr : List UInt8) (upTime : ℕ → UInt64) : Option (List UInt8) :=
  ((List.range 32).foldlM
    (fun result i => prf (List.replicate 32 0)
      (['I', 'n', 'i', 't', ' ', 'C', 'o', 'u', 'n', 't', 'e', 'r'].map Char.toUInt8)
      (macAddr ++ hostBytes64 (upTime i) ++ result.take 32 ++ [UInt8.ofNat i, 0]) result 32)
    (List.replicate 80 0)).map (·.take 32)

/-- Two parts written one behind the other. -/
theorem overwrite_overwrite {data a b : List UInt8} {i : ℕ}
    (h : i + (a ++ b).length ≤ data.length) :
    overwrite (overwrite data i a) (i + a.length) b = overwrite data i (a ++ b) := by
  rw [List.length_append] at h
  have ha : i + a.length ≤ data.length := by omega
  have htake : (data.take i ++ a).length = i + a.length := by
    rw [List.length_append, List.length_take]
    omega
  have hb : i + a.length + b.length ≤ (overwrite data i a).length := by
    rw [overwrite_length]
    omega
  have hab : i + (a ++ b).length ≤ data.length := by
    rw [List.length_append]
    omega
  have hbehind : (overwrite data i a).drop (i + a.length + b.length) =
      data.drop (i + (a ++ b).length) := by
    rw [overwrite_eq ha, ← List.drop_drop, List.drop_left' htake, List.drop_drop, List.length_append,
      Nat.add_assoc]
  rw [overwrite_eq hb, take_overwrite ha, hbehind, overwrite_eq hab]
  simp only [List.append_assoc]

section Loop
variable {mac : List UInt8 → Option (List UInt8)} {f : List UInt8 → List UInt8} {macLen counterAt : ℕ}
  {input : List UInt8}

/-- What the rounds of the loop move, one behind the other. -/
def macOutput (f : List UInt8 → List UInt8) (counterAt rounds : ℕ) (input : List UInt8) : List UInt8 :=
  (List.range rounds).flatMap fun i =>
    f (input.set counterAt (input.getD counterAt 0 + UInt8.ofNat i))

theorem macOutput_succ (h : counterAt < input.length) (rounds : ℕ) :
    macOutput f counterAt (rounds + 1) input =
      f input ++ macOutput f counterAt rounds (input.set counterAt (input.getD counterAt 0 + 1)) := by
  have hfirst : input.set counterAt (input.getD counterAt 0 + UInt8.ofNat 0) = input := by
    rw [List.getD_eq_getElem _ _ h]
    show input.set counterAt (input[counterAt] + 0) = input
    rw [UInt8.add_zero, List.set_getElem_self]
  have hcount : ∀ i, (input.set counterAt (input.getD counterAt 0 + 1)).set counterAt
      ((input.set counterAt (input.getD counterAt 0 + 1)).getD counterAt 0 + UInt8.ofNat i) =
      input.set counterAt (input.getD counterAt 0 + UInt8.ofNat (i + 1)) := by
    intro i
    have hget : (input.set counterAt (input.getD counterAt 0 + 1)).getD counterAt 0 =
        input.getD counterAt 0 + 1 := by
      rw [List.getD_eq_getElem _ _ (by rw [List.length_set]; exact h), List.getElem_set_self]
    rw [hget, List.set_set, UInt8.ofNat_add, UInt8.add_assoc, UInt8.add_comm 1]
    rfl
  simp only [macOutput, List.range_succ_eq_map, List.flatMap_cons, List.flatMap_map, hfirst, hcount]

theorem macOutput_length (hlen : ∀ x, (f x).length = macLen) (rounds : ℕ) :
    (macOutput f counterAt rounds input).length = rounds * macLen := by
  simp only [macOutput, List.length_flatMap, hlen, List.map_const', List.length_range,
    List.sum_replicate_nat]

variable (hmac : ∀ x, x.length = input.length → mac x = some (f x)) (hlen : ∀ x, (f x).length = macLen)
  (hcounter : counterAt < input.length)
include hmac hlen hcounter

/-- The loop fills the output round by round; the induction is on them. -/
theorem macLoop_eq {rounds currentIndex : ℕ} {output : List UInt8}
    (hfits : currentIndex + rounds * macLen ≤ output.length) :
    macLoop mac macLen counterAt rounds input currentIndex output =
      some (overwrite output currentIndex (macOutput f counterAt rounds input)) := by
  induction rounds generalizing input currentIndex output with
  | zero =>
    rw [macLoop, macOutput, List.range_zero, List.flatMap_nil, overwrite_eq (by simpa using hfits)]
    simp only [List.append_nil, List.length_nil, Nat.add_zero, List.take_append_drop]
  | succ rounds ih =>
    rw [Nat.succ_mul] at hfits
    have hmove : currentIndex + (f input).length ≤ output.length := by
      rw [hlen]
      omega
    have hsize : (input.set counterAt (input.getD counterAt 0 + 1)).length = input.length :=
      List.length_set
    have hrest : macLoop mac macLen counterAt rounds (input.set counterAt (input.getD counterAt 0 + 1))
        (currentIndex + macLen) (overwrite output currentIndex (f input)) = some (overwrite
          (overwrite output currentIndex (f input)) (currentIndex + macLen)
          (macOutput f counterAt rounds (input.set counterAt (input.getD counterAt 0 + 1)))) := ih
      (fun x hx => hmac x (hx.trans hsize)) (hsize.symm ▸ hcounter) (by rw [overwrite_length]; omega)
    have hall : overwrite (overwrite output currentIndex (f input)) (currentIndex + macLen)
        (macOutput f counterAt rounds (input.set counterAt (input.getD counterAt 0 + 1))) =
        overwrite output currentIndex (macOutput f counterAt (rounds + 1) input) := by
      rw [macOutput_succ hcounter, ← hlen input]
      apply overwrite_overwrite
      rw [List.length_append, hlen, macOutput_length hlen]
      omega
    rw [macLoop]
    simp only [Option.bind_eq_bind, hmac input rfl, Option.bind_some, moveMemory, if_pos hmove]
    rw [hrest, hall]

/-- It leaves an output that is too short. -/
theorem macLoop_none {rounds currentIndex : ℕ} {output : List UInt8} (hrounds : 0 < rounds)
    (hshort : output.length < currentIndex + rounds * macLen) :
    macLoop mac macLen counterAt rounds input currentIndex output = none := by
  induction rounds generalizing input currentIndex output with
  | zero => exact absurd hrounds (Nat.lt_irrefl 0)
  | succ rounds ih =>
    rw [Nat.succ_mul] at hshort
    rw [macLoop]
    simp only [Option.bind_eq_bind, hmac input rfl, Option.bind_some, moveMemory]
    by_cases hmove : currentIndex + (f input).length ≤ output.length
    · rw [if_pos hmove, Option.bind_some]
      rw [hlen] at hmove
      have hpos : 0 < rounds := by
        rcases Nat.eq_zero_or_pos rounds with rfl | hpos
        · omega
        · exact hpos
      have hsize : (input.set counterAt (input.getD counterAt 0 + 1)).length = input.length :=
        List.length_set
      exact ih (fun x hx => hmac x (hx.trans hsize)) (hsize.symm ▸ hcounter) hpos
        (by rw [overwrite_length]; omega)
    · rw [if_neg hmove, Option.bind_none]

end Loop

theorem sha1_hmac_length (key text : List UInt8) : (sha1.hmac key text).length = 20 := by
  simp [IteratedHash.hmac, IteratedHash.hash, sha1]

theorem sha256_hmac_length (key text : List UInt8) : (sha256.hmac key text).length = 32 := by
  simp [IteratedHash.hmac, IteratedHash.hash, sha256]

section Mac
variable {key text : List UInt8} (hkey : key.length + 64 ≤ 2 ^ 32) (htext : text.length + 64 ≤ 2 ^ 32)
include hkey htext

theorem rtHmacSha1_eq : rtHmacSha1 key text 20 = some (sha1.hmac key text) := by
  have hmac := sha1Kind.hmac_eq sha1_computes 20 hkey htext
  rwa [List.take_of_length_le (sha1_hmac_length key text).le] at hmac

theorem rtHmacSha256_eq : rtHmacSha256 key text 32 = some (sha256.hmac key text) := by
  have hmac := sha256Kind.hmac_eq sha256_computes 32 hkey htext
  rwa [List.take_of_length_le (sha256_hmac_length key text).le] at hmac

end Mac

/-- How much `PRF` moves for `len` octets. -/
def prfMoved (len : ℕ) : ℕ := (len + 19) / 20 * 20

section Expansion
variable {key prfix data output : List UInt8} {len : ℕ} (hkey : key.length + 64 ≤ 2 ^ 32)
  (hinput : prfix.length + data.length + 2 ≤ keyInputSize)

/-- The octet that counts is the last one. -/
theorem prf_counter : (prfix ++ 0 :: data ++ [0]).length = (prfix ++ 0 :: data).length + 1 := by
  exact List.length_append

include hinput in
theorem prf_loop : prf key prfix data output len =
    macLoop (fun input => rtHmacSha1 key input 20) 20 (prfix ++ 0 :: data).length ((len + 19) / 20)
      (prfix ++ 0 :: data ++ [0]) 0 output := by
  have hlength : (prfix ++ 0 :: data ++ [0]).length ≤ keyInputSize := by
    simp only [List.length_append, List.length_cons, List.length_nil]
    omega
  rw [prf, if_pos hlength, prf_counter, Nat.add_sub_cancel]

include hkey hinput

theorem prf_mac (x : List UInt8) (hx : x.length = (prfix ++ 0 :: data ++ [0]).length) :
    rtHmacSha1 key x 20 = some (sha1.hmac key x) := by
  apply rtHmacSha1_eq hkey
  simp only [List.length_append, List.length_cons, List.length_nil] at hx
  simp only [keyInputSize] at hinput
  omega

/-- Pseudo-random bytes are left in the output from its start on. -/
theorem prf_expands (hfits : prfMoved len ≤ output.length) :
    prf key prfix data output len =
      some (overwrite output 0 (sha1.expansion key (prfix ++ 0 :: data) ((len + 19) / 20))) := by
  have hcounter : (prfix ++ 0 :: data).length < (prfix ++ 0 :: data ++ [0]).length := by
    rw [prf_counter]
    exact Nat.lt_succ_self _
  have hloop : macLoop (fun input => rtHmacSha1 key input 20) 20 (prfix ++ 0 :: data).length
      ((len + 19) / 20) (prfix ++ 0 :: data ++ [0]) 0 output = some (overwrite output 0
        (macOutput (sha1.hmac key) (prfix ++ 0 :: data).length ((len + 19) / 20)
          (prfix ++ 0 :: data ++ [0]))) :=
    macLoop_eq (prf_mac hkey hinput) (sha1_hmac_length key) hcounter (by rw [Nat.zero_add]; exact hfits)
  have hinputs : macOutput (sha1.hmac key) (prfix ++ 0 :: data).length ((len + 19) / 20)
      (prfix ++ 0 :: data ++ [0]) = sha1.expansion key (prfix ++ 0 :: data) ((len + 19) / 20) := by
    simp only [macOutput, IteratedHash.expansion]
    congr 1
    funext i
    rw [List.set_append_right _ _ (Nat.le_refl _), Nat.sub_self, List.set_cons_zero,
      List.getD_append_right _ _ _ _ (Nat.le_refl _), Nat.sub_self, List.getD_cons_zero,
      UInt8.zero_add]
  rw [prf_loop hinput, hloop, hinputs]

/-- Whole digests are moved: an output of `len` octets is left when `len` is not a number of them. -/
theorem prf_stays : (prf key prfix data output len).isSome ↔ prfMoved len ≤ output.length := by
  constructor
  · intro hsome
    by_contra hshort
    have hpos : 0 < (len + 19) / 20 := by
      rcases Nat.eq_zero_or_pos ((len + 19) / 20) with hzero | hpos
      · rw [prfMoved, hzero] at hshort
        omega
      · exact hpos
    have hcounter : (prfix ++ 0 :: data).length < (prfix ++ 0 :: data ++ [0]).length := by
      rw [prf_counter]
      exact Nat.lt_succ_self _
    have hnone : macLoop (fun input => rtHmacSha1 key input 20) 20 (prfix ++ 0 :: data).length
        ((len + 19) / 20) (prfix ++ 0 :: data ++ [0]) 0 output = none :=
      macLoop_none (prf_mac hkey hinput) (sha1_hmac_length key) hcounter hpos
        (by rw [Nat.zero_add]; exact Nat.lt_of_not_le hshort)
    rw [prf_loop hinput, hnone] at hsome
    exact absurd hsome (by decide)
  · intro hfits
    rw [prf_expands hkey hinput hfits]
    rfl

end Expansion

theorem expansion_length (key text : List UInt8) (n : ℕ) :
    (sha1.expansion key text n).length = n * 20 := by
  simp only [IteratedHash.expansion, List.length_flatMap, sha1_hmac_length, List.map_const',
    List.length_range, List.sum_replicate_nat]

section PassPhrase
variable {password ssid : List UInt8}

theorem passwordBlock_succ (salt : List UInt8) (c : ℕ) :
    sha1.passwordBlock password salt (c + 1) =
      List.zipWith (· ^^^ ·) (sha1.passwordBlock password salt c)
        (sha1.iterated password salt (c + 1)) := by
  rw [IteratedHash.passwordBlock, List.range_succ, List.foldl_append, ← IteratedHash.passwordBlock]
  rfl

theorem iterated_length (salt : List UInt8) (n : ℕ) : (sha1.iterated password salt n).length = 20 := by
  cases n with
  | zero => exact sha1_hmac_length _ _
  | succ n => exact sha1_hmac_length _ _

theorem passwordBlock_length (salt : List UInt8) (c : ℕ) :
    (sha1.passwordBlock password salt c).length = 20 := by
  induction c with
  | zero => exact iterated_length salt 0
  | succ c ih => rw [passwordBlock_succ, List.length_zipWith, ih, iterated_length, Nat.min_self]

/-- The loop goes on with the sum it has got to. -/
theorem passwordLoop_eq (hpassword : password.length + 64 ≤ 2 ^ 32) (salt : List UInt8) (n c : ℕ) :
    passwordLoop password n (sha1.iterated password salt c, sha1.passwordBlock password salt c) =
      some (sha1.iterated password salt (c + n), sha1.passwordBlock password salt (c + n)) := by
  induction n generalizing c with
  | zero => rfl
  | succ n ih =>
    have hbound : (sha1.iterated password salt c).length + 64 ≤ 2 ^ 32 := by
      rw [iterated_length]
      decide
    have hstep := ih (c + 1)
    rw [passwordBlock_succ, Nat.add_right_comm, Nat.add_assoc] at hstep
    rw [passwordLoop]
    simp only [Option.bind_eq_bind, rtHmacSha1_eq hpassword hbound, Option.bind_some]
    exact hstep

/-- A C string. -/
theorem strlen_eq (h : 0 ∉ password) : strlen password = password.length := by
  have hall : password.takeWhile (· ≠ 0) = password := by
    rw [List.takeWhile_eq_self_iff]
    intro b hb
    simp only [ne_eq, decide_eq_true_eq]
    exact fun hzero => h (hzero ▸ hb)
  rw [strlen, hall]

theorem passwordF_eq (hpassword : strlen password ≤ 63) (hssid : ssid.length ≤ 32) (c count : ℕ) :
    passwordF password ssid (c + 1) count =
      some (sha1.passwordBlock (password.take (strlen password)) (ssid ++ beBytes 4 count) c) := by
  have hlen : (ssid ++ beBytes 4 count).length = ssid.length + 4 := by
    rw [List.length_append, beBytes_length]
  have hfits : 0 + (ssid ++ beBytes 4 count).length ≤ (List.replicate 36 (0 : UInt8)).length := by
    rw [hlen, List.length_replicate]
    omega
  have htext : (overwrite (List.replicate 36 0) 0 (ssid ++ beBytes 4 count)).take (ssid.length + 4) =
      ssid ++ beBytes 4 count := by
    rw [← hlen, ← Nat.zero_add (ssid ++ beBytes 4 count).length, take_overwrite hfits]
    rfl
  have hkey : (password.take (strlen password)).length + 64 ≤ 2 ^ 32 := by
    rw [List.length_take]
    omega
  have hmac : rtHmacSha1 (password.take (strlen password)) (ssid ++ beBytes 4 count) 20 =
      some (sha1.hmac (password.take (strlen password)) (ssid ++ beBytes 4 count)) :=
    rtHmacSha1_eq hkey (by rw [hlen]; omega)
  have hloop := passwordLoop_eq hkey (ssid ++ beBytes 4 count) c 0
  rw [Nat.zero_add] at hloop
  rw [passwordF]
  simp only [Option.bind_eq_bind, moveMemory, if_pos hfits, Option.bind_some, htext, hmac,
    Nat.add_sub_cancel]
  have hfirst : sha1.passwordBlock (password.take (strlen password)) (ssid ++ beBytes 4 count) 0 =
      sha1.hmac (password.take (strlen password)) (ssid ++ beBytes 4 count) := rfl
  rw [hfirst] at hloop
  exact congrArg (Option.bind · fun s => some s.2) hloop

/-- Two blocks of the key that is derived of the pass phrase, salted with the network's name. -/
def passwordKey (password ssid : List UInt8) : List UInt8 :=
  sha1.passwordBlock password (ssid ++ beBytes 4 1) 4095 ++
    sha1.passwordBlock password (ssid ++ beBytes 4 2) 4095

/-- Both digests fit behind one another. -/
theorem moveMemory_pair {output a b : List UInt8} (ha : a.length = 20) (hb : b.length = 20)
    (houtput : output.length = 40) :
    (moveMemory output 0 a).bind (moveMemory · 20 b) = some (a ++ b) := by
  have hall : 0 + (a ++ b).length = output.length := by
    rw [List.length_append, ha, hb, houtput]
  have hfits : 0 + a.length ≤ output.length := by omega
  have hwhole : overwrite output 0 (a ++ b) = a ++ b := by
    rw [overwrite_eq hall.le, hall, List.drop_length, List.take_zero, List.append_nil, List.nil_append]
  have hboth := overwrite_overwrite hall.le
  rw [ha, Nat.zero_add, hwhole] at hboth
  rw [moveMemory, if_pos hfits, Option.bind_some, moveMemory, hboth, overwrite_length,
    if_pos (by omega)]

/-- The two calls of `F`. -/
theorem rtmpPasswordHash_of {output a b : List UInt8} (hpassword : strlen password ≤ 63)
    (hssid : ssid.length ≤ 32) (hfirst : passwordF password ssid 4096 1 = some a)
    (hsecond : passwordF password ssid 4096 2 = some b) (ha : a.length = 20) (hb : b.length = 20)
    (houtput : output.length = 40) :
    rtmpPasswordHash password ssid output = some (some (a ++ b)) := by
  obtain ⟨half, hhalf, hall⟩ := Option.bind_eq_some_iff.mp (moveMemory_pair ha hb houtput)
  rw [rtmpPasswordHash, if_neg (by omega), hfirst, hsecond]
  simp only [Option.bind_eq_bind, Option.bind_some, hhalf, hall]

theorem rtmpPasswordHash_eq {output : List UInt8} (houtput : output.length = 40)
    (hpassword : strlen password ≤ 63) (hssid : ssid.length ≤ 32) :
    rtmpPasswordHash password ssid output =
      some (some (passwordKey (password.take (strlen password)) ssid)) :=
  rtmpPasswordHash_of hpassword hssid (passwordF_eq hpassword hssid 4095 1)
    (passwordF_eq hpassword hssid 4095 2) (passwordBlock_length _ _) (passwordBlock_length _ _) houtput

/-- A digit of a key that is given in hexadecimal. -/
def hexDigit (upper : Bool) (n : UInt8) : UInt8 :=
  if n < 10 then 0x30 + n else (if upper then 0x41 else 0x61) + (n - 10)

/-- The digits of a key. -/
def hexString (upper : Bool) (key : List UInt8) : List UInt8 :=
  key.flatMap fun (b : UInt8) => [hexDigit upper (b >>> 4), hexDigit upper (b &&& 0xf)]

theorem btoH_hexDigit (upper : Bool) (b : UInt8) :
    btoH (hexDigit upper (b >>> 4)) <<< 4 + btoH (hexDigit upper (b &&& 0xf)) = b := by
  have hall : ∀ upper : Bool, ∀ n < 256, btoH (hexDigit upper (UInt8.ofNat n >>> 4)) <<< 4 +
      btoH (hexDigit upper (UInt8.ofNat n &&& 0xf)) = UInt8.ofNat n := by
    decide +kernel
  exact byte_cases (p := fun b => btoH (hexDigit upper (b >>> 4)) <<< 4 +
    btoH (hexDigit upper (b &&& 0xf)) = b) (hall upper) b

theorem atoH_hexString (upper : Bool) (key : List UInt8) :
    atoH (hexString upper key) key.length = key := by
  induction key with
  | nil => rfl
  | cons b key ih =>
    have hhead := btoH_hexDigit upper b
    rw [atoH, List.length_cons, List.range_succ_eq_map, List.map_cons, List.map_map]
    exact congrArg₂ List.cons hhead ih

theorem rtCfgSetWpaPskKey_of {keyString keyMaterial key : List UInt8}
    (hhash : 8 ≤ keyString.length → keyString.length < 64 →
      rtmpPasswordHash keyString ssid keyMaterial = some (some key)) :
    rtCfgSetWpaPskKey keyString ssid keyMaterial = some (
      if keyString.length < 8 ∨ 64 < keyString.length then none
      else if keyString.length = 64 then some (atoH keyString 32) else some (key.take 32)) := by
  rw [rtCfgSetWpaPskKey]
  split
  · rfl
  · split
    · rfl
    · rw [hhash (by omega) (by omega)]
      rfl

/-- A pass phrase of 8 to 63 characters is hashed with the network's name; 64 digits are the key. -/
theorem rtCfgSetWpaPskKey_eq {keyString keyMaterial : List UInt8} (hstring : 0 ∉ keyString)
    (hssid : ssid.length ≤ 32) (hmaterial : keyMaterial.length = 40) :
    rtCfgSetWpaPskKey keyString ssid keyMaterial = some (
      if keyString.length < 8 ∨ 64 < keyString.length then none
      else if keyString.length = 64 then some (atoH keyString 32)
      else some ((passwordKey keyString ssid).take 32)) := by
  apply rtCfgSetWpaPskKey_of
  intro _ hlt
  have hlen := strlen_eq hstring
  have hhash : rtmpPasswordHash keyString ssid keyMaterial =
      some (some (passwordKey (keyString.take (strlen keyString)) ssid)) :=
    rtmpPasswordHash_eq hmaterial (by omega) hssid
  rwa [hlen, List.take_length] at hhash

end PassPhrase

/-- `KDF` counts in one of the two octets of its counter, so the key is that of its comment for up to
255 rounds. -/
theorem kdf_expands {key label data output : List UInt8} {len : UInt16} (hkey : key.length + 64 ≤ 2 ^ 32)
    (hinput : label.length + data.length + 4 ≤ keyInputSize)
    (hfits : (8 * len.toNat + 255) / 256 * 32 ≤ output.length) :
    kdf key label data output len = some (overwrite output 0
      ((List.range ((8 * len.toNat + 255) / 256)).flatMap fun i =>
        sha256.hmac key (UInt8.ofNat (i + 1) :: 0 :: label ++ data ++
          [UInt8.ofNat (8 * len.toNat), UInt8.ofNat (8 * len.toNat / 256)]))) := by
  have hlength : (1 :: 0 :: label ++ data ++ [UInt8.ofNat (8 * len.toNat),
      UInt8.ofNat (8 * len.toNat / 256)]).length = label.length + data.length + 4 := by
    simp only [List.length_append, List.length_cons, List.length_nil]
    omega
  have hmac : ∀ x : List UInt8, x.length = (1 :: 0 :: label ++ data ++ [UInt8.ofNat (8 * len.toNat),
      UInt8.ofNat (8 * len.toNat / 256)]).length → rtHmacSha256 key x 32 = some (sha256.hmac key x) := by
    intro x hx
    apply rtHmacSha256_eq hkey
    simp only [keyInputSize] at hinput
    omega
  have hloop : macLoop (fun input => rtHmacSha256 key input 32) 32 0 ((8 * len.toNat + 255) / 256)
      (1 :: 0 :: label ++ data ++ [UInt8.ofNat (8 * len.toNat), UInt8.ofNat (8 * len.toNat / 256)]) 0
        output = some (overwrite output 0 (macOutput (sha256.hmac key) 0 ((8 * len.toNat + 255) / 256)
          (1 :: 0 :: label ++ data ++
            [UInt8.ofNat (8 * len.toNat), UInt8.ofNat (8 * len.toNat / 256)]))) :=
    macLoop_eq hmac (sha256_hmac_length key) (by rw [hlength]; omega) (by rw [Nat.zero_add]; exact hfits)
  have hinputs : macOutput (sha256.hmac key) 0 ((8 * len.toNat + 255) / 256) (1 :: 0 :: label ++ data ++
      [UInt8.ofNat (8 * len.toNat), UInt8.ofNat (8 * len.toNat / 256)]) =
      (List.range ((8 * len.toNat + 255) / 256)).flatMap fun i =>
        sha256.hmac key (UInt8.ofNat (i + 1) :: 0 :: label ++ data ++
          [UInt8.ofNat (8 * len.toNat), UInt8.ofNat (8 * len.toNat / 256)]) := by
    rw [macOutput]
    congr 1
    funext i
    rw [UInt8.ofNat_add, UInt8.add_comm]
    rfl
  rw [kdf]
  simp only [if_pos (hlength.trans_le hinput)]
  rw [hloop, hinputs]

section Pairs

/-- Memory of one length is compared as the numbers it holds. -/
theorem rtmpCompareMemory_eq {a b : List UInt8} (h : a.length = b.length) :
    rtmpCompareMemory a b = if beNat b < beNat a then 1 else if beNat a < beNat b then 2 else 0 := by
  induction a generalizing b with
  | nil =>
    obtain rfl := List.length_eq_zero_iff.mp h.symm
    rfl
  | cons x a ih =>
    cases b with
    | nil => exact absurd h (Nat.succ_ne_zero _)
    | cons y b =>
      have hrest : a.length = b.length := Nat.succ_injective h
      have ha := beNat_lt a
      have hb := beNat_lt b
      rw [hrest] at ha
      rw [rtmpCompareMemory, beNat, beNat, hrest, ih hrest]
      rcases lt_trichotomy x.toNat y.toNat with hxy | hxy | hxy
      · have hle := Nat.mul_le_mul_right (256 ^ b.length) (Nat.succ_le_of_lt hxy)
        rw [Nat.succ_mul] at hle
        rw [if_neg (show ¬ y < x from Nat.not_lt.mpr hxy.le), if_pos (show x < y from hxy),
          if_neg (by omega), if_pos (by omega)]
      · rw [if_neg (show ¬ y < x from hxy.not_gt), if_neg (show ¬ x < y from hxy.not_lt), hxy]
        simp only [Nat.add_lt_add_iff_left]
      · have hle := Nat.mul_le_mul_right (256 ^ b.length) (Nat.succ_le_of_lt hxy)
        rw [Nat.succ_mul] at hle
        rw [if_pos (show y < x from hxy), if_pos (by omega)]

theorem rtmpCompareMemory_zero {a b : List UInt8} (h : a.length = b.length) :
    rtmpCompareMemory a b = 0 ↔ a = b := by
  rw [rtmpCompareMemory_eq h]
  constructor
  · intro hzero
    apply beNat_injOn h
    split at hzero
    · exact absurd hzero (by decide)
    · split at hzero
      · exact absurd hzero (by decide)
      · omega
  · rintro rfl
    rw [if_neg (Nat.lt_irrefl _), if_neg (Nat.lt_irrefl _)]

theorem rtmpCompareMemory_one {a b : List UInt8} (h : a.length = b.length) :
    rtmpCompareMemory a b = 1 ↔ beNat b < beNat a := by
  rw [rtmpCompareMemory_eq h]
  split
  · exact ⟨fun _ => ‹_›, fun _ => rfl⟩
  · refine ⟨fun hone => ?_, fun hlt => absurd hlt ‹_›⟩
    split at hone
    · exact absurd hone (by decide)
    · exact absurd hone (by decide)

/-- The smaller number first. -/
def inOrder (a b : List UInt8) : List UInt8 := if beNat a < beNat b then a ++ b else b ++ a

theorem inOrder_comm {a b : List UInt8} (h : a.length = b.length) : inOrder a b = inOrder b a := by
  rcases lt_trichotomy (beNat a) (beNat b) with hab | hab | hab
  · rw [inOrder, inOrder, if_pos hab, if_neg hab.asymm]
  · rw [beNat_injOn h hab]
  · rw [inOrder, inOrder, if_pos hab, if_neg hab.asymm]

variable {aNonce aa sNonce sa : List UInt8}

/-- What the pairwise key is derived of: the addresses and the nonces in their order. -/
theorem ptkConcatenation_eq (haddr : sa.length = aa.length) (hnonce : aNonce.length = sNonce.length)
    (hne : aNonce ≠ sNonce) :
    ptkConcatenation aNonce aa sNonce sa = inOrder aa sa ++ inOrder aNonce sNonce := by
  have hzero : rtmpCompareMemory aNonce sNonce ≠ 0 := mt (rtmpCompareMemory_zero hnonce).mp hne
  have haddrs : (if rtmpCompareMemory sa aa = 1 then aa else sa) ++
      (if rtmpCompareMemory sa aa = 1 then sa else aa) = inOrder aa sa := by
    simp only [rtmpCompareMemory_one haddr, inOrder]
    split
    · rfl
    · rfl
  have hnonces : (if rtmpCompareMemory aNonce sNonce = 1 then sNonce else aNonce) ++
      (if rtmpCompareMemory aNonce sNonce = 1 then aNonce else sNonce) = inOrder aNonce sNonce := by
    rw [inOrder_comm hnonce]
    simp only [rtmpCompareMemory_one hnonce, inOrder]
    split
    · rfl
    · rfl
  rw [← haddrs, ← hnonces, ptkConcatenation, if_neg hzero, if_neg hzero]
  simp only [List.append_assoc]

theorem ptkConcatenation_length (haa : aa.length = 6) (hsa : sa.length = 6) (han : aNonce.length = 32)
    (hsn : sNonce.length = 32) : (ptkConcatenation aNonce aa sNonce sa).length = 76 := by
  simp only [ptkConcatenation, List.length_append, apply_ite List.length, haa, hsa, han, hsn,
    List.length_replicate, ite_self]

end Pairs

section Pairwise
variable {pmk aNonce aa sNonce sa output : List UInt8} {len : ℕ} (haa : aa.length = 6) (hsa : sa.length = 6)
  (han : aNonce.length = 32) (hsn : sNonce.length = 32) (hfits : prfMoved len ≤ output.length)
include haa hsa han hsn hfits

variable (pmk) in
/-- The key is expanded, whatever the nonces are. -/
theorem wpaDerivePtk_expands : wpaDerivePtk pmk aNonce aa sNonce sa output len =
    some (overwrite output 0 (sha1.expansion (pmk.take 32)
      (ptkPrefix ++ 0 :: ptkConcatenation aNonce aa sNonce sa) ((len + 19) / 20))) := by
  apply prf_expands
  · rw [List.length_take]
    omega
  · rw [ptkConcatenation_length haa hsa han hsn]
    decide
  · exact hfits

/-- Each side may take either place: the key is that of the standard, the addresses and the nonces in
their order. -/
theorem wpaDerivePtk_sides (hne : aNonce ≠ sNonce) :
    wpaDerivePtk pmk aNonce aa sNonce sa output len =
        some (overwrite output 0 (sha1.expansion (pmk.take 32)
          (ptkPrefix ++ 0 :: (inOrder aa sa ++ inOrder aNonce sNonce)) ((len + 19) / 20))) ∧
      wpaDerivePtk pmk sNonce sa aNonce aa output len =
        wpaDerivePtk pmk aNonce aa sNonce sa output len := by
  have hlen : aNonce.length = sNonce.length := han.trans hsn.symm
  have haddr : sa.length = aa.length := hsa.trans haa.symm
  have hone := wpaDerivePtk_expands pmk haa hsa han hsn hfits
  have hother := wpaDerivePtk_expands pmk hsa haa hsn han hfits
  rw [ptkConcatenation_eq haddr hlen hne] at hone
  rw [ptkConcatenation_eq haddr.symm hlen.symm hne.symm, inOrder_comm haddr, inOrder_comm hlen.symm]
    at hother
  exact ⟨hone, hother.trans hone.symm⟩

end Pairwise

theorem wpaDerivePtk_of_sides :
    wpaDerivePtk (List.replicate 32 1) (List.replicate 32 4) (List.replicate 6 5) (List.replicate 32 2)
        (List.replicate 6 3) (List.replicate 80 0) 64 =
      wpaDerivePtk (List.replicate 32 1) (List.replicate 32 2) (List.replicate 6 3) (List.replicate 32 4)
        (List.replicate 6 5) (List.replicate 80 0) 64 :=
  (@wpaDerivePtk_sides (List.replicate 32 1) (List.replicate 32 2) (List.replicate 6 3)
    (List.replicate 32 4) (List.replicate 6 5) (List.replicate 80 0) 64 rfl rfl rfl rfl (by decide)
    (by decide)).2

section Group

/-- The group key takes the first octets of what is expanded. -/
theorem wpaDeriveGtk_eq {gmk gNonce aa : List UInt8} {len : ℕ} (haa : aa.length = 6)
    (hgn : gNonce.length = 32) (hlen : len ≤ 80) :
    wpaDeriveGtk gmk gNonce aa len =
      some ((sha1.expansion (gmk.take 32) (gtkPrefix ++ 0 :: (aa ++ gNonce)) ((len + 19) / 20)).take
        len) := by
  have hkey : (gmk.take 32).length + 64 ≤ 2 ^ 32 := by
    rw [List.length_take]
    omega
  have hinput : gtkPrefix.length + (aa ++ gNonce).length + 2 ≤ keyInputSize := by
    rw [List.length_append, haa, hgn]
    decide
  have hfits : prfMoved len ≤ (List.replicate 80 (0 : UInt8)).length := by
    rw [List.length_replicate, prfMoved]
    omega
  have hmoved := expansion_length (gmk.take 32) (gtkPrefix ++ 0 :: (aa ++ gNonce)) ((len + 19) / 20)
  have hroom : 0 + (sha1.expansion (gmk.take 32) (gtkPrefix ++ 0 :: (aa ++ gNonce))
      ((len + 19) / 20)).length ≤ (List.replicate 80 (0 : UInt8)).length := by
    rw [hmoved, Nat.zero_add]
    exact hfits
  rw [wpaDeriveGtk, prf_expands hkey hinput hfits, Option.map_some, overwrite_eq hroom, List.take_zero,
    List.nil_append, List.take_append_of_le_length (by rw [hmoved]; omega)]

/-- A round of `GenRandom` keeps the size of its result. -/
theorem genRandom_round {macAddr result : List UInt8} (hmac : macAddr.length = 6)
    (hresult : result.length = 80) (time : UInt64) (i : ℕ) :
    ∃ next, prf (List.replicate 32 0)
        (['I', 'n', 'i', 't', ' ', 'C', 'o', 'u', 'n', 't', 'e', 'r'].map Char.toUInt8)
        (macAddr ++ hostBytes64 time ++ result.take 32 ++ [UInt8.ofNat i, 0]) result 32 = some next ∧
      next.length = 80 := by
  have hdata : (macAddr ++ hostBytes64 time ++ result.take 32 ++ [UInt8.ofNat i, 0]).length = 48 := by
    simp only [List.length_append, hmac, List.length_take, hresult, List.length_cons, List.length_nil,
      hostBytes64, List.length_map, List.length_range]
    decide
  have hexpands := @prf_expands (List.replicate 32 0)
    (['I', 'n', 'i', 't', ' ', 'C', 'o', 'u', 'n', 't', 'e', 'r'].map Char.toUInt8)
    (macAddr ++ hostBytes64 time ++ result.take 32 ++ [UInt8.ofNat i, 0]) result 32
    (by rw [List.length_replicate]; decide) (by rw [hdata]; decide)
    (by rw [hresult]; decide)
  exact ⟨_, hexpands, (overwrite_length ..).trans hresult⟩

theorem genRandom_length {macAddr : List UInt8} (hmac : macAddr.length = 6) (upTime : ℕ → UInt64) :
    ∃ random, genRandom macAddr upTime = some random ∧ random.length = 32 := by
  have hrounds : ∀ (rounds : List ℕ) (result : List UInt8), result.length = 80 →
      ∃ last, rounds.foldlM (fun result i => prf (List.replicate 32 0)
        (['I', 'n', 'i', 't', ' ', 'C', 'o', 'u', 'n', 't', 'e', 'r'].map Char.toUInt8)
        (macAddr ++ hostBytes64 (upTime i) ++ result.take 32 ++ [UInt8.ofNat i, 0]) result 32) result =
          some last ∧ last.length = 80 := by
    intro rounds
    induction rounds with
    | nil => exact fun result hresult => ⟨result, rfl, hresult⟩
    | cons i rounds ih =>
      intro result hresult
      obtain ⟨next, hround, hnext⟩ := genRandom_round hmac hresult (upTime i) i
      obtain ⟨last, hrest, hlast⟩ := ih next hnext
      refine ⟨last, ?_, hlast⟩
      rw [List.foldlM_cons, hround]
      exact hrest
  obtain ⟨last, hall, hlast⟩ := hrounds (List.range 32) (List.replicate 80 0) List.length_replicate
  refine ⟨last.take 32, ?_, ?_⟩
  · rw [genRandom, hall]
    rfl
  · rw [List.length_take, hlast]
    rfl

end Group

/-- `PRF` moves whole digests, so it stays in the output exactly when there is room for them, and leaves
the pseudo-random bytes of the standard in it. -/
theorem prf_leaves (key prfix data output : List UInt8) (len : ℕ) (hkey : key.length + 64 ≤ 2 ^ 32)
    (hinput : prfix.length + data.length + 2 ≤ keyInputSize) :
    ((prf key prfix data output len).isSome ↔ prfMoved len ≤ output.length) ∧
      (prfMoved len ≤ output.length → prf key prfix data output len =
        some (overwrite output 0 (sha1.expansion key (prfix ++ 0 :: data) ((len + 19) / 20)))) :=
  ⟨prf_stays hkey hinput, prf_expands hkey hinput⟩

/-- A pairwise key of 64 octets does not go into as many. -/
theorem prf_leaves_a_key :
    ((prf [] ptkPrefix [] (List.replicate 64 0) 64).isSome ↔ prfMoved 64 ≤ 64) ∧ ¬prfMoved 64 ≤ 64 :=
  ⟨List.length_replicate (a := (0 : UInt8)) (n := 64) ▸
    (prf_leaves [] ptkPrefix [] (List.replicate 64 0) 64 (by decide) (by decide)).1, by decide⟩

/-- The master key that is configured: of a pass phrase of 8 to 63 characters it is the one of the
standard, and 64 digits in upper or lower case give their own bytes. -/
theorem master_key_of_configuration (keyString ssid keyMaterial : List UInt8) (hstring : 0 ∉ keyString)
    (hssid : ssid.length ≤ 32) (hmaterial : keyMaterial.length = 40) :
    rtCfgSetWpaPskKey keyString ssid keyMaterial = some (
        if keyString.length < 8 ∨ 64 < keyString.length then none
        else if keyString.length = 64 then some (atoH keyString 32)
        else some ((passwordKey keyString ssid).take 32)) ∧
      ∀ upper key, key.length = 32 → keyString = hexString upper key → atoH keyString 32 = key := by
  refine ⟨rtCfgSetWpaPskKey_eq hstring hssid hmaterial, ?_⟩
  rintro upper key hkey rfl
  have hdigits := atoH_hexString upper key
  rwa [hkey] at hdigits

theorem master_key_of_password :
    rtCfgSetWpaPskKey [0x70, 0x61, 0x73, 0x73, 0x77, 0x6f, 0x72, 0x64] [0x49, 0x45, 0x45, 0x45]
      (List.replicate 40 0) =
      some (some ((passwordKey [0x70, 0x61, 0x73, 0x73, 0x77, 0x6f, 0x72, 0x64]
        [0x49, 0x45, 0x45, 0x45]).take 32)) :=
  (master_key_of_configuration [0x70, 0x61, 0x73, 0x73, 0x77, 0x6f, 0x72, 0x64] [0x49, 0x45, 0x45, 0x45]
    (List.replicate 40 0) (by decide) (by decide) List.length_replicate).1

end Rt5572
