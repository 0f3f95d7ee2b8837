import StandaloneDrivers.Foundations.Bytes
import Mathlib.Data.UInt

/-! Iterated hash functions over blocks of 64 bytes: MD5, SHA-1 and SHA-256, the keyed hash over one of
them, and the keys that are derived with it. -/
namespace Foundations

/-- What a block does to a chaining value, and how the length of a message and a digest are written. -/
structure IteratedHash (σ : Type*) where
  initial : σ
  compress : σ → List UInt8 → σ
  lengthBytes : ℕ → List UInt8
  lengthBytes_length : ∀ n, (lengthBytes n).length = 8
  digest : σ → List UInt8

namespace IteratedHash
variable {σ : Type*} (H : IteratedHash σ)

/-- The chaining value after the whole blocks of a text. -/
def chain (s : σ) (text : List UInt8) : σ :=
  if 64 ≤ text.length then chain (H.compress s (text.take 64)) (text.drop 64) else s
  termination_by text.length
  decreasing_by
    rw [List.length_drop]
    omega

/-- What is left behind the whole blocks. -/
def remainder (text : List UInt8) : List UInt8 := text.drop (64 * (text.length / 64))

/-- A one bit and zeroes fill the last block up to the length in bits. -/
def pad (message : List UInt8) : List UInt8 :=
  message ++ 0x80 :: List.replicate ((119 - message.length % 64) % 64) 0 ++
    H.lengthBytes (8 * message.length)

def hash (message : List UInt8) : List UInt8 := H.digest (H.chain H.initial (H.pad message))

theorem remainder_length (text : List UInt8) : (remainder text).length = text.length % 64 := by
  rw [remainder, List.length_drop]
  omega

theorem remainder_lt (text : List UInt8) : (remainder text).length < 64 := by
  rw [remainder_length]
  omega

@[simp] theorem remainder_nil : remainder [] = [] := rfl

theorem chain_short (s : σ) {text : List UInt8} (h : text.length < 64) : H.chain s text = s := by
  rw [chain, if_neg (by omega)]

@[simp] theorem chain_nil (s : σ) : H.chain s [] = s :=
  H.chain_short s (Nat.zero_lt_succ 63)

theorem chain_block (s : σ) {block : List UInt8} (h : block.length = 64) (text : List UInt8) :
    H.chain s (block ++ text) = H.chain (H.compress s block) text := by
  conv_lhs => rw [chain]
  rw [if_pos (by rw [List.length_append]; omega), List.take_left' h, List.drop_left' h]

/-- Whole blocks are chained before what comes behind them; the induction is on their number. -/
theorem chain_append {n : ℕ} (s : σ) {front : List UInt8} (h : front.length = 64 * n)
    (text : List UInt8) : H.chain s (front ++ text) = H.chain (H.chain s front) text := by
  induction n generalizing s front with
  | zero =>
    obtain rfl : front = [] := List.length_eq_zero_iff.mp h
    simp only [List.nil_append, chain_nil]
  | succ n ih =>
    have hblock : (front.take 64).length = 64 := by
      rw [List.length_take]
      omega
    have hrest : (front.drop 64).length = 64 * n := by
      rw [List.length_drop]
      omega
    calc H.chain s (front ++ text)
        = H.chain s (front.take 64 ++ (front.drop 64 ++ text)) := by
          rw [← List.append_assoc, List.take_append_drop]
      _ = H.chain (H.chain (H.compress s (front.take 64)) (front.drop 64)) text := by
          rw [H.chain_block s hblock, ih _ hrest]
      _ = H.chain (H.chain s front) text := by
          rw [← H.chain_block s hblock, List.take_append_drop]

/-- A text is its whole blocks and the remainder. -/
theorem chain_whole (s : σ) (text more : List UInt8) :
    H.chain s (text ++ more) = H.chain (H.chain s text) (remainder text ++ more) := by
  have hwhole : (text.take (64 * (text.length / 64))).length = 64 * (text.length / 64) := by
    rw [List.length_take]
    omega
  have hchain : H.chain s text = H.chain s (text.take (64 * (text.length / 64))) := by
    conv_lhs => rw [← List.take_append_drop (64 * (text.length / 64)) text]
    rw [H.chain_append s hwhole]
    exact H.chain_short _ (remainder_lt text)
  calc H.chain s (text ++ more)
      = H.chain s (text.take (64 * (text.length / 64)) ++ (remainder text ++ more)) := by
        rw [← List.append_assoc, remainder, List.take_append_drop]
    _ = H.chain (H.chain s text) (remainder text ++ more) := by
        rw [H.chain_append s hwhole, hchain]

theorem remainder_append (text more : List UInt8) :
    remainder (text ++ more) = remainder (remainder text ++ more) := by
  rw [remainder, remainder, List.length_append, List.length_append, remainder_length]
  have hsplit : 64 * ((text.length + more.length) / 64) =
      64 * (text.length / 64) + 64 * ((text.length % 64 + more.length) / 64) := by
    omega
  rw [hsplit, ← List.drop_drop]
  congr 1
  rw [List.drop_append_of_le_length (by omega)]
  rfl

/-- What does not fill the block is kept. -/
theorem remainder_short {text more : List UInt8} (h : text.length % 64 + more.length < 64) :
    remainder (text ++ more) = remainder text ++ more := by
  have hdiv : (remainder text ++ more).length / 64 = 0 := by
    rw [List.length_append, remainder_length]
    omega
  rw [remainder_append, remainder, hdiv]
  rfl

theorem chain_kept (s : σ) {text more : List UInt8} (h : text.length % 64 + more.length < 64) :
    H.chain s (text ++ more) = H.chain s text := by
  rw [H.chain_whole, H.chain_short]
  rw [List.length_append, remainder_length]
  exact h

section Filled
variable {text more : List UInt8} (h : text.length % 64 + more.length = 64)
include h

theorem filled_length : (remainder text ++ more).length = 64 := by
  rw [List.length_append, remainder_length]
  exact h

/-- What fills the block is chained with what was kept. -/
theorem chain_filled (s : σ) :
    H.chain s (text ++ more) = H.compress (H.chain s text) (remainder text ++ more) := by
  have hblock := H.chain_block (H.chain s text) (filled_length h) []
  simp only [List.append_nil, chain_nil] at hblock
  exact (H.chain_whole s text more).trans hblock

theorem remainder_filled : remainder (text ++ more) = [] := by
  rw [remainder_append, remainder, filled_length h]
  exact List.drop_eq_nil_of_le (by rw [filled_length h])

end Filled

/-- The last block of a message that leaves room for the length. -/
theorem hash_of_room {message : List UInt8} (h : message.length % 64 ≤ 55) :
    H.hash message = H.digest (H.compress (H.chain H.initial message) (remainder message ++
      0x80 :: List.replicate (55 - message.length % 64) 0 ++ H.lengthBytes (8 * message.length))) := by
  have hzeroes : (119 - message.length % 64) % 64 = 55 - message.length % 64 := by omega
  have hfill : message.length % 64 + (0x80 :: List.replicate (55 - message.length % 64) (0 : UInt8) ++
      H.lengthBytes (8 * message.length)).length = 64 := by
    rw [List.length_append, List.length_cons, List.length_replicate, H.lengthBytes_length]
    omega
  rw [hash, pad, hzeroes, List.append_assoc, H.chain_filled hfill, List.append_assoc]

/-- One that does not fills two blocks. -/
theorem hash_of_full {message : List UInt8} (h : 55 < message.length % 64) :
    H.hash message = H.digest (H.compress (H.compress (H.chain H.initial message)
      (remainder message ++ 0x80 :: List.replicate (63 - message.length % 64) 0))
      (List.replicate 56 0 ++ H.lengthBytes (8 * message.length))) := by
  have hzeroes : (119 - message.length % 64) % 64 = 63 - message.length % 64 + 56 := by omega
  have hfill : message.length % 64 +
      (0x80 :: List.replicate (63 - message.length % 64) (0 : UInt8)).length = 64 := by
    rw [List.length_cons, List.length_replicate]
    omega
  have hlast : (List.replicate 56 (0 : UInt8) ++ H.lengthBytes (8 * message.length)).length = 64 := by
    rw [List.length_append, List.length_replicate, H.lengthBytes_length]
  have hpad : H.pad message = (message ++
      0x80 :: List.replicate (63 - message.length % 64) 0) ++
      (List.replicate 56 0 ++ H.lengthBytes (8 * message.length)) := by
    rw [pad, hzeroes, List.replicate_add]
    simp only [List.append_assoc, List.cons_append]
  have hblock := H.chain_block (H.chain H.initial (message ++
    0x80 :: List.replicate (63 - message.length % 64) 0)) hlast []
  simp only [List.append_nil, chain_nil] at hblock
  rw [hash, hpad, H.chain_whole, remainder_filled hfill, List.nil_append, hblock,
    H.chain_filled hfill]

section Keyed

/-- A key of one block; a longer one is hashed. -/
def hmacKey (key : List UInt8) : List UInt8 :=
  let k := if key.length ≤ 64 then key else H.hash key
  k ++ List.replicate (64 - k.length) 0

/-- The keyed hash. -/
def hmac (key text : List UInt8) : List UInt8 :=
  H.hash ((H.hmacKey key).map (· ^^^ 0x5c) ++ H.hash ((H.hmacKey key).map (· ^^^ 0x36) ++ text))

/-- The keys that are hashed over and over, the first over a salt and the number of the block. -/
def iterated (password salt : List UInt8) : ℕ → List UInt8
  | 0 => H.hmac password salt
  | n + 1 => H.hmac password (iterated password salt n)

/-- A block of a key that is derived of a password: the sum of `c + 1` of them. -/
def passwordBlock (password salt : List UInt8) (c : ℕ) : List UInt8 :=
  (List.range c).foldl (fun t n => List.zipWith (· ^^^ ·) t (H.iterated password salt (n + 1)))
    (H.iterated password salt 0)

/-- `n` blocks of pseudo-random bytes, each of which has its number behind the text. -/
def expansion (key text : List UInt8) (n : ℕ) : List UInt8 :=
  (List.range n).flatMap fun i => H.hmac key (text ++ [UInt8.ofNat i])

end Keyed

section Words
variable (block : List UInt8) (i : ℕ)

/-- A word of a block, the most significant byte first. -/
def beWord : UInt32 :=
  (block.getD (4 * i) 0).toUInt32 <<< 24 ||| (block.getD (4 * i + 1) 0).toUInt32 <<< 16 |||
    (block.getD (4 * i + 2) 0).toUInt32 <<< 8 ||| (block.getD (4 * i + 3) 0).toUInt32

/-- The other way round. -/
def leWord : UInt32 :=
  (block.getD (4 * i) 0).toUInt32 ||| (block.getD (4 * i + 1) 0).toUInt32 <<< 8 |||
    (block.getD (4 * i + 2) 0).toUInt32 <<< 16 ||| (block.getD (4 * i + 3) 0).toUInt32 <<< 24

def rotateLeft (w : UInt32) (n : ℕ) : UInt32 := ⟨w.toBitVec.rotateLeft n⟩

def rotateRight (w : UInt32) (n : ℕ) : UInt32 := ⟨w.toBitVec.rotateRight n⟩

def choose (x y z : UInt32) : UInt32 := (x &&& y) ^^^ (~~~x &&& z)

def majority (x y z : UInt32) : UInt32 := (x &&& y) ^^^ (x &&& z) ^^^ (y &&& z)

end Words

end IteratedHash

open IteratedHash

namespace Sha1

structure State where
  a : UInt32
  b : UInt32
  c : UInt32
  d : UInt32
  e : UInt32
  deriving DecidableEq, Repr

def f (t : ℕ) (x y z : UInt32) : UInt32 :=
  if t < 20 then choose x y z
  else if t < 40 then x ^^^ y ^^^ z
  else if t < 60 then majority x y z
  else x ^^^ y ^^^ z

def k (t : ℕ) : UInt32 :=
  if t < 20 then 0x5a827999 else if t < 40 then 0x6ed9eba1 else if t < 60 then 0x8f1bbcdc else 0xca62c1d6

/-- The message schedule. -/
def schedule (m : ℕ → UInt32) (t : ℕ) : UInt32 :=
  if t < 16 then m t
  else rotateLeft (schedule m (t - 3) ^^^ schedule m (t - 8) ^^^ schedule m (t - 14) ^^^
    schedule m (t - 16)) 1

def round (w : ℕ → UInt32) (s : State) (t : ℕ) : State :=
  ⟨rotateLeft s.a 5 + f t s.b s.c s.d + s.e + k t + w t, s.a, rotateLeft s.b 30, s.c, s.d⟩

def add (s t : State) : State := ⟨s.a + t.a, s.b + t.b, s.c + t.c, s.d + t.d, s.e + t.e⟩

def compress (s : State) (block : List UInt8) : State :=
  add s ((List.range 80).foldl (round (schedule (beWord block))) s)

end Sha1

def sha1 : IteratedHash Sha1.State where
  initial := ⟨0x67452301, 0xefcdab89, 0x98badcfe, 0x10325476, 0xc3d2e1f0⟩
  compress := Sha1.compress
  lengthBytes := beBytes 8
  lengthBytes_length := beBytes_length 8
  digest s := [s.a, s.b, s.c, s.d, s.e].flatMap fun w => beBytes 4 w.toNat

namespace Sha256

structure State where
  a : UInt32
  b : UInt32
  c : UInt32
  d : UInt32
  e : UInt32
  f : UInt32
  g : UInt32
  h : UInt32
  deriving DecidableEq, Repr

def k : List UInt32 := [
  0x428a2f98, 0x71374491, 0xb5c0fbcf, 0xe9b5dba5, 0x3956c25b, 0x59f111f1, 0x923f82a4, 0xab1c5ed5,
  0xd807aa98, 0x12835b01, 0x243185be, 0x550c7dc3, 0x72be5d74, 0x80deb1fe, 0x9bdc06a7, 0xc19bf174,
  0xe49b69c1, 0xefbe4786, 0x0fc19dc6, 0x240ca1cc, 0x2de92c6f, 0x4a7484aa, 0x5cb0a9dc, 0x76f988da,
  0x983e5152, 0xa831c66d, 0xb00327c8, 0xbf597fc7, 0xc6e00bf3, 0xd5a79147, 0x06ca6351, 0x14292967,
  0x27b70a85, 0x2e1b2138, 0x4d2c6dfc, 0x53380d13, 0x650a7354, 0x766a0abb, 0x81c2c92e, 0x92722c85,
  0xa2bfe8a1, 0xa81a664b, 0xc24b8b70, 0xc76c51a3, 0xd192e819, 0xd6990624, 0xf40e3585, 0x106aa070,
  0x19a4c116, 0x1e376c08, 0x2748774c, 0x34b0bcb5, 0x391c0cb3, 0x4ed8aa4a, 0x5b9cca4f, 0x682e6ff3,
  0x748f82ee, 0x78a5636f, 0x84c87814, 0x8cc70208, 0x90befffa, 0xa4506ceb, 0xbef9a3f7, 0xc67178f2]

def bigSigma0 (x : UInt32) : UInt32 := rotateRight x 2 ^^^ rotateRight x 13 ^^^ rotateRight x 22

def bigSigma1 (x : UInt32) : UInt32 := rotateRight x 6 ^^^ rotateRight x 11 ^^^ rotateRight x 25

def sigma0 (x : UInt32) : UInt32 := rotateRight x 7 ^^^ rotateRight x 18 ^^^ x >>> 3

def sigma1 (x : UInt32) : UInt32 := rotateRight x 17 ^^^ rotateRight x 19 ^^^ x >>> 10

/-- The message schedule. -/
def schedule (m : ℕ → UInt32) (t : ℕ) : UInt32 :=
  if t < 16 then m t
  else sigma1 (schedule m (t - 2)) + schedule m (t - 7) + sigma0 (schedule m (t - 15)) +
    schedule m (t - 16)

def round (w : ℕ → UInt32) (s : State) (t : ℕ) : State :=
  let t1 := s.h + bigSigma1 s.e + choose s.e s.f s.g + k.getD t 0 + w t
  let t2 := bigSigma0 s.a + majority s.a s.b s.c
  ⟨t1 + t2, s.a, s.b, s.c, s.d + t1, s.e, s.f, s.g⟩

def add (s t : State) : State :=
  ⟨s.a + t.a, s.b + t.b, s.c + t.c, s.d + t.d, s.e + t.e, s.f + t.f, s.g + t.g, s.h + t.h⟩

def compress (s : State) (block : List UInt8) : State :=
  add s ((List.range 64).foldl (round (schedule (beWord block))) s)

end Sha256

def sha256 : IteratedHash Sha256.State where
  initial := ⟨0x6a09e667, 0xbb67ae85, 0x3c6ef372, 0xa54ff53a, 0x510e527f, 0x9b05688c, 0x1f83d9ab,
    0x5be0cd19⟩
  compress := Sha256.compress
  lengthBytes := beBytes 8
  lengthBytes_length := beBytes_length 8
  digest s := [s.a, s.b, s.c, s.d, s.e, s.f, s.g, s.h].flatMap fun w => beBytes 4 w.toNat

namespace Md5

structure State where
  a : UInt32
  b : UInt32
  c : UInt32
  d : UInt32
  deriving DecidableEq, Repr

/-- The sines of the numbers of the steps. -/
def sine : List UInt32 := [
  0xd76aa478, 0xe8c7b756, 0x242070db, 0xc1bdceee, 0xf57c0faf, 0x4787c62a, 0xa8304613, 0xfd469501,
  0x698098d8, 0x8b44f7af, 0xffff5bb1, 0x895cd7be, 0x6b901122, 0xfd987193, 0xa679438e, 0x49b40821,
  0xf61e2562, 0xc040b340, 0x265e5a51, 0xe9b6c7aa, 0xd62f105d, 0x02441453, 0xd8a1e681, 0xe7d3fbc8,
  0x21e1cde6, 0xc33707d6, 0xf4d50d87, 0x455a14ed, 0xa9e3e905, 0xfcefa3f8, 0x676f02d9, 0x8d2a4c8a,
  0xfffa3942, 0x8771f681, 0x6d9d6122, 0xfde5380c, 0xa4beea44, 0x4bdecfa9, 0xf6bb4b60, 0xbebfbc70,
  0x289b7ec6, 0xeaa127fa, 0xd4ef3085, 0x04881d05, 0xd9d4d039, 0xe6db99e5, 0x1fa27cf8, 0xc4ac5665,
  0xf4292244, 0x432aff97, 0xab9423a7, 0xfc93a039, 0x655b59c3, 0x8f0ccc92, 0xffeff47d, 0x85845dd1,
  0x6fa87e4f, 0xfe2ce6e0, 0xa3014314, 0x4e0811a1, 0xf7537e82, 0xbd3af235, 0x2ad7d2bb, 0xeb86d391]

def f (i : ℕ) (x y z : UInt32) : UInt32 :=
  if i < 16 then (x &&& y) ||| (~~~x &&& z)
  else if i < 32 then (x &&& z) ||| (y &&& ~~~z)
  else if i < 48 then x ^^^ y ^^^ z
  else y ^^^ (x ||| ~~~z)

/-- The word a step takes. -/
def word (i : ℕ) : ℕ :=
  if i < 16 then i
  else if i < 32 then (5 * i + 1) % 16
  else if i < 48 then (3 * i + 5) % 16
  else 7 * i % 16

def shift (i : ℕ) : ℕ :=
  [[7, 12, 17, 22], [5, 9, 14, 20], [4, 11, 16, 23], [6, 10, 15, 21]].getD (i / 16) [] |>.getD (i % 4) 0

def step (x : ℕ → UInt32) (s : State) (i : ℕ) : State :=
  ⟨s.d, s.b + rotateLeft (s.a + f i s.b s.c s.d + x (word i) + sine.getD i 0) (shift i), s.b, s.c⟩

def add (s t : State) : State := ⟨s.a + t.a, s.b + t.b, s.c + t.c, s.d + t.d⟩

def compress (s : State) (block : List UInt8) : State :=
  add s ((List.range 64).foldl (step (leWord block)) s)

end Md5

def md5 : IteratedHash Md5.State where
  initial := ⟨0x67452301, 0xefcdab89, 0x98badcfe, 0x10325476⟩
  compress := Md5.compress
  lengthBytes n := (beBytes 8 n).reverse
  lengthBytes_length _ := rfl
  digest s := [s.a, s.b, s.c, s.d].flatMap fun w => (beBytes 4 w.toNat).reverse

end Foundations
