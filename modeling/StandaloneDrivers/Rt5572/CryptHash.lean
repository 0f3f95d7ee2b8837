import StandaloneDrivers.Foundations.IteratedHash
import Mathlib.Data.UInt
import Mathlib.Tactic.IntervalCases

/-! MD5 (common/crypt_md5.c), SHA-1 and SHA-256 (common/crypt_sha2.c), and the keyed hashes over them
(common/crypt_hmac.c), on a little-endian host. -/
namespace Rt5572
open Foundations

section Macros
variable (x y z n : UInt32)

/-- `ROTL32` -/
def rotl32 : UInt32 := x <<< n ||| x >>> (32 - n)

/-- `ROTR32` -/
def rotr32 : UInt32 := x >>> n ||| x <<< (32 - n)

/-- `Ch` -/
def ch : UInt32 := (x &&& y) ^^^ (~~~x &&& z)

/-- `Maj` -/
def maj : UInt32 := (x &&& y) ^^^ (x &&& z) ^^^ (y &&& z)

/-- `Parity` -/
def parity : UInt32 := x ^^^ y ^^^ z

/-- `cpu2be32`, which is `SWAP32` -/
def cpu2be32 : UInt32 :=
  (x &&& 0xff) <<< 24 ||| (x &&& 0xff00) <<< 8 ||| (x &&& 0xff0000) >>> 8 ||| (x &&& 0xff000000) >>> 24

/-- `cpu2be64`, which is `SWAP64` -/
def cpu2be64 (x : UInt64) : UInt64 :=
  (x &&& 0xff) <<< 56 ||| (x &&& 0xff00) <<< 40 ||| (x &&& 0xff0000) <<< 24 |||
    (x &&& 0xff000000) <<< 8 ||| (x &&& 0xff00000000) >>> 8 ||| (x &&& 0xff0000000000) >>> 24 |||
    (x &&& 0xff000000000000) >>> 40 ||| (x &&& 0xff00000000000000) >>> 56

/-- A word of the array a block is copied to. -/
def hostWord (block : List UInt8) (i : ℕ) : UInt32 := IteratedHash.leWord block i

/-- The bytes of a word, as they are copied. -/
def hostBytes : List UInt8 := (List.range 4).map fun j => (x >>> UInt32.ofNat (8 * j)).toUInt8

def hostBytes64 (x : UInt64) : List UInt8 :=
  (List.range 8).map fun j => (x >>> UInt64.ofNat (8 * j)).toUInt8

end Macros

section Sha1

/-- A round of a loop of `RT_SHA1_Hash`. -/
def sha1Round (f : UInt32 → UInt32 → UInt32 → UInt32) (k : UInt32) (w : List UInt32)
    (s : Sha1.State) (t : ℕ) : Sha1.State :=
  ⟨rotl32 s.a 5 + f s.b s.c s.d + s.e + k + w.getD t 0, s.a, rotl32 s.b 30, s.c, s.d⟩

/-- `W`, which is filled from the front on. -/
def sha1Schedule (block : List UInt8) : List UInt32 :=
  (List.range' 16 64).foldl
    (fun w i => w ++ [rotl32 (w.getD (i - 3) 0 ^^^ w.getD (i - 8) 0 ^^^ w.getD (i - 14) 0 ^^^
      w.getD (i - 16) 0) 1])
    ((List.range 16).map fun i => cpu2be32 (hostWord block i))

/-- `RT_SHA1_Hash`: the hash value of a block. -/
def sha1Rounds (hashValue : Sha1.State) (block : List UInt8) : Sha1.State :=
  let w := sha1Schedule block
  let s := (List.range' 0 20).foldl (sha1Round ch 0x5a827999 w) hashValue
  let s := (List.range' 20 20).foldl (sha1Round parity 0x6ed9eba1 w) s
  let s := (List.range' 40 20).foldl (sha1Round maj 0x8f1bbcdc w) s
  let s := (List.range' 60 20).foldl (sha1Round parity 0xca62c1d6 w) s
  ⟨hashValue.a + s.a, hashValue.b + s.b, hashValue.c + s.c, hashValue.d + s.d, hashValue.e + s.e⟩

end Sha1

section Sha256

/-- `SHA256_K` -/
def sha256K : List UInt32 := [
  0x428a2f98, 0x71374491, 0xb5c0fbcf, 0xe9b5dba5, 0x3956c25b, 0x59f111f1, 0x923f82a4, 0xab1c5ed5,
  0xd807aa98, 0x12835b01, 0x243185be, 0x550c7dc3, 0x72be5d74, 0x80deb1fe, 0x9bdc06a7, 0xc19bf174,
  0xe49b69c1, 0xefbe4786, 0x0fc19dc6, 0x240ca1cc, 0x2de92c6f, 0x4a7484aa, 0x5cb0a9dc, 0x76f988da,
  0x983e5152, 0xa831c66d, 0xb00327c8, 0xbf597fc7, 0xc6e00bf3, 0xd5a79147, 0x06ca6351, 0x14292967,
  0x27b70a85, 0x2e1b2138, 0x4d2c6dfc, 0x53380d13, 0x650a7354, 0x766a0abb, 0x81c2c92e, 0x92722c85,
  0xa2bfe8a1, 0xa81a664b, 0xc24b8b70, 0xc76c51a3, 0xd192e819, 0xd6990624, 0xf40e3585, 0x106aa070,
  0x19a4c116, 0x1e376c08, 0x2748774c, 0x34b0bcb5, 0x391c0cb3, 0x4ed8aa4a, 0x5b9cca4f, 0x682e6ff3,
  0x748f82ee, 0x78a5636f, 0x84c87814, 0x8cc70208, 0x90befffa, 0xa4506ceb, 0xbef9a3f7, 0xc67178f2]

/-- `Zsigma_256_0` -/
def zsigma0 (x : UInt32) : UInt32 := rotr32 x 2 ^^^ rotr32 x 13 ^^^ rotr32 x 22

/-- `Zsigma_256_1` -/
def zsigma1 (x : UInt32) : UInt32 := rotr32 x 6 ^^^ rotr32 x 11 ^^^ rotr32 x 25

/-- `Sigma_256_0` -/
def sigma0 (x : UInt32) : UInt32 := rotr32 x 7 ^^^ rotr32 x 18 ^^^ x >>> 3

/-- `Sigma_256_1` -/
def sigma1 (x : UInt32) : UInt32 := rotr32 x 17 ^^^ rotr32 x 19 ^^^ x >>> 10

/-- `W` is filled from the front on, as far as it comes behind the block. -/
def sha256Fill (w : List UInt32) (t : ℕ) : List UInt32 :=
  if 15 < t then
    w ++ [sigma1 (w.getD (t - 2) 0) + w.getD (t - 7) 0 + sigma0 (w.getD (t - 15) 0) +
      w.getD (t - 16) 0]
  else w

/-- A round of `RT_SHA256_Hash`. -/
def sha256Round (r : List UInt32 × Sha256.State) (t : ℕ) : List UInt32 × Sha256.State :=
  let w := sha256Fill r.1 t
  let s := r.2
  let t1 := s.h + zsigma1 s.e + ch s.e s.f s.g + sha256K.getD t 0 + w.getD t 0
  let t2 := zsigma0 s.a + maj s.a s.b s.c
  (w, ⟨t1 + t2, s.a, s.b, s.c, s.d + t1, s.e, s.f, s.g⟩)

/-- `RT_SHA256_Hash`: the hash value of a block. -/
def sha256Rounds (hashValue : Sha256.State) (block : List UInt8) : Sha256.State :=
  let w := (List.range 16).map fun i => cpu2be32 (hostWord block i)
  let s := ((List.range 64).foldl sha256Round (w, hashValue)).2
  ⟨hashValue.a + s.a, hashValue.b + s.b, hashValue.c + s.c, hashValue.d + s.d, hashValue.e + s.e,
    hashValue.f + s.f, hashValue.g + s.g, hashValue.h + s.h⟩

end Sha256

section Md5

/-- `ROUND1` to `ROUND4` over `F`, `G`, `H` and `I`: the new value of the first variable. -/
def md5Round (f : UInt32 → UInt32 → UInt32 → UInt32) (a b c d x s ac : UInt32) : UInt32 :=
  rotl32 (a + (f b c d + x + ac)) s + b

def md5F (x y z : UInt32) : UInt32 := (x &&& y) ||| (~~~x &&& z)

def md5G (x y z : UInt32) : UInt32 := (x &&& z) ||| (y &&& ~~~z)

def md5H (x y z : UInt32) : UInt32 := x ^^^ y ^^^ z

def md5I (x y z : UInt32) : UInt32 := y ^^^ (x ||| ~~~z)

/-- The last arguments of four rounds in a row, with the words by their places. -/
structure Md5Args where
  k : ℕ
  s : UInt32
  ac : UInt32
  deriving DecidableEq

/-- Four rounds in a row, in which the variables take turns. -/
def md5Turn (f : UInt32 → UInt32 → UInt32 → UInt32) (x : ℕ → UInt32) (p q r t : Md5Args)
    (s : Md5.State) : Md5.State :=
  let a := md5Round f s.a s.b s.c s.d (x p.k) p.s p.ac
  let d := md5Round f s.d a s.b s.c (x q.k) q.s q.ac
  let c := md5Round f s.c d a s.b (x r.k) r.s r.ac
  let b := md5Round f s.b c d a (x t.k) t.s t.ac
  ⟨a, b, c, d⟩

/-- The rounds of `RT_MD5_Hash`. -/
def md5Turns (x : ℕ → UInt32) (s : Md5.State) : Md5.State :=
  let s := md5Turn md5F x ⟨0, 7, 0xd76aa478⟩ ⟨1, 12, 0xe8c7b756⟩ ⟨2, 17, 0x242070db⟩
    ⟨3, 22, 0xc1bdceee⟩ s
  let s := md5Turn md5F x ⟨4, 7, 0xf57c0faf⟩ ⟨5, 12, 0x4787c62a⟩ ⟨6, 17, 0xa8304613⟩
    ⟨7, 22, 0xfd469501⟩ s
  let s := md5Turn md5F x ⟨8, 7, 0x698098d8⟩ ⟨9, 12, 0x8b44f7af⟩ ⟨10, 17, 0xffff5bb1⟩
    ⟨11, 22, 0x895cd7be⟩ s
  let s := md5Turn md5F x ⟨12, 7, 0x6b901122⟩ ⟨13, 12, 0xfd987193⟩ ⟨14, 17, 0xa679438e⟩
    ⟨15, 22, 0x49b40821⟩ s
  let s := md5Turn md5G x ⟨1, 5, 0xf61e2562⟩ ⟨6, 9, 0xc040b340⟩ ⟨11, 14, 0x265e5a51⟩
    ⟨0, 20, 0xe9b6c7aa⟩ s
  let s := md5Turn md5G x ⟨5, 5, 0xd62f105d⟩ ⟨10, 9, 0x02441453⟩ ⟨15, 14, 0xd8a1e681⟩
    ⟨4, 20, 0xe7d3fbc8⟩ s
  let s := md5Turn md5G x ⟨9, 5, 0x21e1cde6⟩ ⟨14, 9, 0xc33707d6⟩ ⟨3, 14, 0xf4d50d87⟩
    ⟨8, 20, 0x455a14ed⟩ s
  let s := md5Turn md5G x ⟨13, 5, 0xa9e3e905⟩ ⟨2, 9, 0xfcefa3f8⟩ ⟨7, 14, 0x676f02d9⟩
    ⟨12, 20, 0x8d2a4c8a⟩ s
  let s := md5Turn md5H x ⟨5, 4, 0xfffa3942⟩ ⟨8, 11, 0x8771f681⟩ ⟨11, 16, 0x6d9d6122⟩
    ⟨14, 23, 0xfde5380c⟩ s
  let s := md5Turn md5H x ⟨1, 4, 0xa4beea44⟩ ⟨4, 11, 0x4bdecfa9⟩ ⟨7, 16, 0xf6bb4b60⟩
    ⟨10, 23, 0xbebfbc70⟩ s
  let s := md5Turn md5H x ⟨13, 4, 0x289b7ec6⟩ ⟨0, 11, 0xeaa127fa⟩ ⟨3, 16, 0xd4ef3085⟩
    ⟨6, 23, 0x04881d05⟩ s
  let s := md5Turn md5H x ⟨9, 4, 0xd9d4d039⟩ ⟨12, 11, 0xe6db99e5⟩ ⟨15, 16, 0x1fa27cf8⟩
    ⟨2, 23, 0xc4ac5665⟩ s
  let s := md5Turn md5I x ⟨0, 6, 0xf4292244⟩ ⟨7, 10, 0x432aff97⟩ ⟨14, 15, 0xab9423a7⟩
    ⟨5, 21, 0xfc93a039⟩ s
  let s := md5Turn md5I x ⟨12, 6, 0x655b59c3⟩ ⟨3, 10, 0x8f0ccc92⟩ ⟨10, 15, 0xffeff47d⟩
    ⟨1, 21, 0x85845dd1⟩ s
  let s := md5Turn md5I x ⟨8, 6, 0x6fa87e4f⟩ ⟨15, 10, 0xfe2ce6e0⟩ ⟨6, 15, 0xa3014314⟩
    ⟨13, 21, 0x4e0811a1⟩ s
  md5Turn md5I x ⟨4, 6, 0xf7537e82⟩ ⟨11, 10, 0xbd3af235⟩ ⟨2, 15, 0x2ad7d2bb⟩
    ⟨9, 21, 0xeb86d391⟩ s

/-- `RT_MD5_Hash`: the hash value of a block. -/
def md5Rounds (hashValue : Md5.State) (block : List UInt8) : Md5.State :=
  let s := md5Turns (hostWord block) hashValue
  ⟨hashValue.a + s.a, hashValue.b + s.b, hashValue.c + s.c, hashValue.d + s.d⟩

end Md5

/-- What the functions of the three algorithms differ in. -/
structure HashKind (σ : Type) where
  defaultHashValue : σ
  rounds : σ → List UInt8 → σ
  lengthBytes : UInt64 → List UInt8
  digestBytes : σ → List UInt8

/-- `SHA1_CTX_STRUC`, `SHA256_CTX_STRUC` or `MD5_CTX_STRUC`, between calls. -/
structure HashCtx (σ : Type) where
  hashValue : σ
  messageLen : UInt64
  block : List UInt8
  block_length : block.length = 64
  blockLen : UInt32
  blockLen_lt : blockLen < 64

namespace HashCtx
variable {σ : Type} (ctx : HashCtx σ)

theorem blockLen_toNat_lt : ctx.blockLen.toNat < 64 := ctx.blockLen_lt

/-- `NdisMoveMemory` to `Block` from `BlockLen` on, which must not leave it. -/
def moveToBlock (bytes : List UInt8) : Option (HashCtx σ) :=
  if ctx.blockLen.toNat + bytes.length ≤ 64 then
    some { ctx with
      block := overwrite ctx.block ctx.blockLen.toNat bytes
      block_length := (overwrite_length ..).trans ctx.block_length }
  else none

end HashCtx

namespace HashKind
variable {σ : Type} (K : HashKind σ)

/-- `RT_SHA1_Init`, `RT_SHA256_Init`, `RT_MD5_Init` -/
def init : HashCtx σ where
  hashValue := K.defaultHashValue
  messageLen := 0
  block := List.replicate 64 0
  block_length := List.length_replicate
  blockLen := 0
  blockLen_lt := by decide

/-- `RT_SHA1_Hash`, `RT_SHA256_Hash`, `RT_MD5_Hash` -/
def hash (ctx : HashCtx σ) : HashCtx σ where
  hashValue := K.rounds ctx.hashValue ctx.block
  messageLen := ctx.messageLen
  block := List.replicate 64 0
  block_length := List.length_replicate
  blockLen := 0
  blockLen_lt := by decide

/-- The loop of `RT_SHA1_Append`, `RT_SHA256_Append`, `RT_MD5_Append` over what is left of the message;
the lengths are added in 32 bits. -/
def appendLoop (ctx : HashCtx σ) (message : List UInt8) : Option (HashCtx σ) :=
  if message = [] then some ctx
  else
    let len := ctx.blockLen + UInt32.ofNat message.length
    if h : len < 64 then
      (ctx.moveToBlock message).map fun ctx => { ctx with blockLen := len, blockLen_lt := h }
    else
      let room := 64 - ctx.blockLen.toNat
      (ctx.moveToBlock (message.take room)).bind fun full =>
        appendLoop (K.hash full) (message.drop room)
  termination_by message.length
  decreasing_by
    have := ctx.blockLen_toNat_lt
    have := List.length_pos_iff.mpr ‹message ≠ []›
    rw [List.length_drop]
    omega

/-- `RT_SHA1_Append`, `RT_SHA256_Append`, `RT_MD5_Append` -/
def append (ctx : HashCtx σ) (message : List UInt8) : Option (HashCtx σ) :=
  (K.appendLoop ctx message).map fun ctx =>
    { ctx with messageLen := ctx.messageLen + UInt64.ofNat message.length }

/-- `RT_SHA1_End`, `RT_SHA256_End`, `RT_MD5_End` -/
def digestOf (ctx : HashCtx σ) : List UInt8 :=
  let ctx := { ctx with
    block := ctx.block.set ctx.blockLen.toNat 0x80
    block_length := List.length_set.trans ctx.block_length }
  let ctx := if 55 < ctx.blockLen then K.hash ctx else ctx
  let ctx := { ctx with
    block := overwrite ctx.block 56 (K.lengthBytes (ctx.messageLen * 8))
    block_length := (overwrite_length ..).trans ctx.block_length }
  K.digestBytes (K.hash ctx).hashValue

/-- `RT_SHA1`, `RT_SHA256`, `RT_MD5` -/
def digest (message : List UInt8) : Option (List UInt8) :=
  (K.append K.init message).map K.digestOf

/-- `K0` of a keyed hash: the key, or the digest of one that is longer than a block. -/
def hmacK0 (key : List UInt8) : Option (List UInt8) :=
  if key.length ≤ 64 then some (overwrite (List.replicate 64 0) 0 key)
  else (K.digest key).map fun digest => overwrite (List.replicate 64 0) 0 digest

/-- `RT_HMAC_SHA1`, `RT_HMAC_SHA256`, `RT_HMAC_MD5`: what is moved to `MAC`. -/
def hmac (key message : List UInt8) (macLen : ℕ) : Option (List UInt8) := do
  let k0 ← K.hmacK0 key
  let k0 := k0.map (· ^^^ 0x36)
  let ctx ← K.append K.init k0
  let ctx ← K.append ctx message
  let digest := K.digestOf ctx
  let k0 := k0.map (· ^^^ (0x36 ^^^ 0x5c))
  let ctx ← K.append K.init k0
  let ctx ← K.append ctx digest
  let digest := K.digestOf ctx
  some (if digest.length < macLen then digest else digest.take macLen)

end HashKind

def sha1Kind : HashKind Sha1.State where
  defaultHashValue := ⟨0x67452301, 0xefcdab89, 0x98badcfe, 0x10325476, 0xc3d2e1f0⟩
  rounds := sha1Rounds
  lengthBytes bits := hostBytes64 (cpu2be64 bits)
  digestBytes s := [s.a, s.b, s.c, s.d, s.e].flatMap fun w => hostBytes (cpu2be32 w)

def sha256Kind : HashKind Sha256.State where
  defaultHashValue := ⟨0x6a09e667, 0xbb67ae85, 0x3c6ef372, 0xa54ff53a, 0x510e527f, 0x9b05688c,
    0x1f83d9ab, 0x5be0cd19⟩
  rounds := sha256Rounds
  lengthBytes bits := hostBytes64 (cpu2be64 bits)
  digestBytes s := [s.a, s.b, s.c, s.d, s.e, s.f, s.g, s.h].flatMap fun w => hostBytes (cpu2be32 w)

def md5Kind : HashKind Md5.State where
  defaultHashValue := ⟨0x67452301, 0xefcdab89, 0x98badcfe, 0x10325476⟩
  rounds := md5Rounds
  lengthBytes := hostBytes64
  digestBytes s := [s.a, s.b, s.c, s.d].flatMap hostBytes

def rtSha1 : List UInt8 → Option (List UInt8) := sha1Kind.digest

def rtSha256 : List UInt8 → Option (List UInt8) := sha256Kind.digest

def rtMd5 : List UInt8 → Option (List UInt8) := md5Kind.digest

def rtHmacSha1 : List UInt8 → List UInt8 → ℕ → Option (List UInt8) := sha1Kind.hmac

def rtHmacSha256 : List UInt8 → List UInt8 → ℕ → Option (List UInt8) := sha256Kind.hmac

def rtHmacMd5 : List UInt8 → List UInt8 → ℕ → Option (List UInt8) := md5Kind.hmac

/-- What a context has chained and keeps of a message. -/
structure HashCtx.Keeps {σ : Type} (H : IteratedHash σ) (message : List UInt8) (ctx : HashCtx σ) :
    Prop where
  chained : ctx.hashValue = H.chain H.initial message
  blockLen : ctx.blockLen.toNat = message.length % 64
  block : ctx.block =
    IteratedHash.remainder message ++ List.replicate (64 - message.length % 64) 0

/-- The functions of a kind compute a hash function block by block. -/
structure HashKind.Computes {σ : Type} (K : HashKind σ) (H : IteratedHash σ) : Prop where
  initial : K.defaultHashValue = H.initial
  rounds : ∀ s block, block.length = 64 → K.rounds s block = H.compress s block
  lengthBytes : ∀ n, K.lengthBytes (UInt64.ofNat n) = H.lengthBytes n
  digestBytes : ∀ s, K.digestBytes s = H.digest s
  digest_length : ∀ s, (H.digest s).length ≤ 64

section Streaming
variable {σ : Type} {K : HashKind σ} {H : IteratedHash σ} {ctx : HashCtx σ} {message : List UInt8}
open IteratedHash (remainder remainder_length)

/-- What is moved behind the remainder. -/
theorem HashCtx.Keeps.overwritten (hkeeps : ctx.Keeps H message) {bytes : List UInt8}
    (hfits : message.length % 64 + bytes.length ≤ 64) :
    overwrite ctx.block ctx.blockLen.toNat bytes = remainder message ++ bytes ++
      List.replicate (64 - (message.length % 64 + bytes.length)) 0 := by
  have hlen := remainder_length message
  have hroom : message.length % 64 + bytes.length ≤ ctx.block.length := by
    rw [ctx.block_length]
    exact hfits
  have hbehind : ctx.block.drop (message.length % 64 + bytes.length) =
      List.replicate (64 - (message.length % 64 + bytes.length)) 0 := by
    rw [hkeeps.block, ← List.drop_drop, List.drop_left' hlen, List.drop_replicate]
    congr 1
    omega
  rw [hkeeps.blockLen, overwrite_eq hroom, hbehind, hkeeps.block, List.take_left' hlen]

theorem HashCtx.Keeps.moveToBlock (hkeeps : ctx.Keeps H message) {bytes : List UInt8}
    (hfits : message.length % 64 + bytes.length ≤ 64) :
    ∃ full, ctx.moveToBlock bytes = some full ∧ full.hashValue = ctx.hashValue ∧
      full.blockLen = ctx.blockLen ∧ full.messageLen = ctx.messageLen ∧
      full.block = remainder message ++ bytes ++
        List.replicate (64 - (message.length % 64 + bytes.length)) 0 := by
  have hle : ctx.blockLen.toNat + bytes.length ≤ 64 := by
    rw [hkeeps.blockLen]
    exact hfits
  refine ⟨_, if_pos hle, rfl, rfl, rfl, ?_⟩
  exact hkeeps.overwritten hfits

/-- The loop leaves what it has got to with the message; the induction is on what is left of it. -/
theorem HashKind.appendLoop_keeps (hcomputes : K.Computes H) :
    ∀ {more message : List UInt8} {ctx : HashCtx σ}, ctx.Keeps H message →
      more.length + 64 ≤ 2 ^ 32 → ∃ ctx', K.appendLoop ctx more = some ctx' ∧
        ctx'.Keeps H (message ++ more) ∧ ctx'.messageLen = ctx.messageLen := by
  intro more
  induction hn : more.length using Nat.strong_induction_on generalizing more with
  | _ n ih =>
    intro message ctx hkeeps hbound
    rw [HashKind.appendLoop]
    by_cases hnil : more = []
    · rw [if_pos hnil, hnil, List.append_nil]
      exact ⟨ctx, rfl, hkeeps, rfl⟩
    · have hpos := List.length_pos_iff.mpr hnil
      have hlt := ctx.blockLen_toNat_lt
      have hlen : (ctx.blockLen + UInt32.ofNat more.length).toNat =
          message.length % 64 + more.length := by
        rw [UInt32.toNat_add, UInt32.toNat_ofNat', hkeeps.blockLen]
        omega
      rw [if_neg hnil]
      simp only
      by_cases hshort : ctx.blockLen + UInt32.ofNat more.length < 64
      · -- what is left does not fill the block
        have hfits : message.length % 64 + more.length < 64 := hlen ▸ hshort
        obtain ⟨full, hmove, hvalue, -, hmessageLen, hblock⟩ := hkeeps.moveToBlock hfits.le
        rw [dif_pos hshort, hmove]
        refine ⟨_, rfl, ⟨?_, ?_, ?_⟩, hmessageLen⟩
        · exact hvalue.trans (hkeeps.chained.trans (H.chain_kept _ hfits).symm)
        · rw [hlen, List.length_append]
          omega
        · simp only
          rw [hblock, IteratedHash.remainder_short hfits, List.length_append]
          congr 2
          omega
      · -- the block is filled, hashed and begun anew
        have hroom : ctx.blockLen.toNat = message.length % 64 := hkeeps.blockLen
        have hfull : message.length % 64 + (more.take (64 - ctx.blockLen.toNat)).length = 64 := by
          have hge : ¬ message.length % 64 + more.length < 64 := hlen ▸ hshort
          rw [List.length_take]
          omega
        obtain ⟨full, hmove, hvalue, -, hmessageLen, hblock⟩ := hkeeps.moveToBlock hfull.le
        have hfilled : full.block = remainder message ++ more.take (64 - ctx.blockLen.toNat) := by
          rw [hblock, hfull, Nat.sub_self, List.replicate_zero, List.append_nil]
        have hnext : (K.hash full).Keeps H (message ++ more.take (64 - ctx.blockLen.toNat)) := by
          refine ⟨?_, ?_, ?_⟩
          · simp only [HashKind.hash, hvalue, hfilled]
            rw [hcomputes.rounds _ _ (IteratedHash.filled_length hfull), hkeeps.chained,
              H.chain_filled hfull]
          · rw [List.length_append, HashKind.hash]
            simp only [UInt32.toNat_zero]
            omega
          · rw [IteratedHash.remainder_filled hfull, List.length_append]
            simp only [HashKind.hash, List.nil_append]
            congr 1
            omega
        have hless : (more.drop (64 - ctx.blockLen.toNat)).length < n := by
          rw [List.length_drop, hn]
          omega
        obtain ⟨ctx', hloop, hkeeps', hsame⟩ := ih _ hless rfl hnext (by omega)
        rw [dif_neg hshort, hmove]
        refine ⟨ctx', hloop, ?_, hsame.trans hmessageLen⟩
        rwa [List.append_assoc, List.take_append_drop] at hkeeps'

/-- A context that got here by appending. -/
structure HashCtx.Absorbed {σ : Type} (H : IteratedHash σ) (message : List UInt8) (ctx : HashCtx σ) :
    Prop where
  keeps : ctx.Keeps H message
  messageLen : ctx.messageLen = UInt64.ofNat message.length

theorem HashKind.init_absorbed (hcomputes : K.Computes H) : K.init.Absorbed H [] where
  keeps := ⟨hcomputes.initial.trans (H.chain_nil _).symm, rfl, rfl⟩
  messageLen := rfl

theorem HashKind.append_absorbed (hcomputes : K.Computes H) (habsorbed : ctx.Absorbed H message)
    {more : List UInt8} (hbound : more.length + 64 ≤ 2 ^ 32) :
    ∃ ctx', K.append ctx more = some ctx' ∧ ctx'.Absorbed H (message ++ more) := by
  obtain ⟨ctx', hloop, hkeeps, hmessageLen⟩ := K.appendLoop_keeps hcomputes habsorbed.keeps hbound
  refine ⟨_, congrArg (Option.map _) hloop, ⟨hkeeps.chained, hkeeps.blockLen, hkeeps.block⟩, ?_⟩
  simp only [hmessageLen, habsorbed.messageLen, List.length_append, UInt64.ofNat_add]

/-- Pieces appended one after the other; the induction is on them. -/
theorem HashKind.appends_absorbed (hcomputes : K.Computes H) {chunks : List (List UInt8)}
    (hbound : ∀ chunk ∈ chunks, chunk.length + 64 ≤ 2 ^ 32) (habsorbed : ctx.Absorbed H message) :
    ∃ ctx', chunks.foldlM K.append ctx = some ctx' ∧ ctx'.Absorbed H (message ++ chunks.flatten) := by
  induction chunks generalizing message ctx with
  | nil => exact ⟨ctx, rfl, by rwa [List.flatten_nil, List.append_nil]⟩
  | cons chunk chunks ih =>
    obtain ⟨next, happend, hnext⟩ := K.append_absorbed hcomputes habsorbed
      (hbound chunk List.mem_cons_self)
    obtain ⟨ctx', hrest, hctx'⟩ := ih (fun c hc => hbound c (List.mem_cons_of_mem _ hc)) hnext
    refine ⟨ctx', ?_, ?_⟩
    · rw [List.foldlM_cons, happend]
      exact hrest
    · rwa [List.flatten_cons, ← List.append_assoc]

/-- The one bit behind the remainder. -/
theorem HashCtx.Keeps.set (hkeeps : ctx.Keeps H message) :
    ctx.block.set ctx.blockLen.toNat 0x80 =
      remainder message ++ 0x80 :: List.replicate (63 - message.length % 64) 0 := by
  have hlen := remainder_length message
  have hzeroes : List.replicate (64 - message.length % 64) (0 : UInt8) =
      0 :: List.replicate (63 - message.length % 64) 0 := by
    rw [← List.replicate_succ]
    congr 1
    omega
  rw [hkeeps.block, hkeeps.blockLen, List.set_append_right _ _ hlen.le, hlen, Nat.sub_self, hzeroes,
    List.set_cons_zero]

/-- The length takes the last eight bytes of a block. -/
theorem overwrite_length_field {front bytes : List UInt8} {n : ℕ} (hn : front.length + n = 56)
    (hbytes : bytes.length = 8) :
    overwrite (front ++ List.replicate (n + 8) 0) 56 bytes = front ++ List.replicate n 0 ++ bytes := by
  have hfront : (front ++ List.replicate n (0 : UInt8)).length = 56 := by
    rw [List.length_append, List.length_replicate, hn]
  have hall : front ++ List.replicate (n + 8) (0 : UInt8) =
      (front ++ List.replicate n 0) ++ List.replicate 8 0 := by
    rw [List.replicate_add, List.append_assoc]
  have hfits : 56 + bytes.length ≤
      ((front ++ List.replicate n (0 : UInt8)) ++ List.replicate 8 0).length := by
    rw [List.length_append, hfront, hbytes, List.length_replicate]
  rw [hall, overwrite_eq hfits, List.take_left' hfront, List.drop_eq_nil_of_le (by
    rw [List.length_append, hfront, hbytes, List.length_replicate]), List.append_nil]

theorem HashKind.digestOf_absorbed (hcomputes : K.Computes H) (habsorbed : ctx.Absorbed H message) :
    K.digestOf ctx = H.hash message := by
  have hlen := remainder_length message
  have hbits : K.lengthBytes (ctx.messageLen * 8) = H.lengthBytes (8 * message.length) := by
    rw [← hcomputes.lengthBytes, habsorbed.messageLen, Nat.mul_comm, UInt64.ofNat_mul]
    rfl
  have hlength := H.lengthBytes_length (8 * message.length)
  have hset := habsorbed.keeps.set
  have hroom : 55 < ctx.blockLen ↔ 55 < message.length % 64 := by
    rw [← habsorbed.keeps.blockLen]
    exact UInt32.lt_iff_toNat_lt
  by_cases hfull : 55 < message.length % 64
  · -- the length goes into a block of its own
    have hzeroes := overwrite_length_field (show ([] : List UInt8).length + 56 = 56 from rfl) hlength
    rw [List.nil_append, List.nil_append] at hzeroes
    have hblock : (remainder message ++ 0x80 ::
        List.replicate (63 - message.length % 64) (0 : UInt8)).length = 64 := by
      rw [List.length_append, hlen, List.length_cons, List.length_replicate]
      omega
    rw [H.hash_of_full hfull, HashKind.digestOf]
    simp only [if_pos (hroom.mpr hfull), HashKind.hash, hbits, hset]
    rw [hzeroes, hcomputes.rounds _ _ hblock, hcomputes.rounds _ _ (by
      rw [List.length_append, List.length_replicate, hlength]), habsorbed.keeps.chained,
      hcomputes.digestBytes]
  · have hfront : (remainder message ++ [(0x80 : UInt8)]).length + (55 - message.length % 64) = 56 := by
      rw [List.length_append, hlen, List.length_singleton]
      omega
    have hfield := overwrite_length_field hfront hlength
    have hsplit : 63 - message.length % 64 = 55 - message.length % 64 + 8 := by omega
    rw [H.hash_of_room (by omega), HashKind.digestOf]
    simp only [if_neg (mt hroom.mp hfull), HashKind.hash, hbits, hset, hsplit]
    rw [List.append_cons, hfield, hcomputes.rounds _ _ (by
      rw [List.length_append, List.length_append, hlength, List.length_replicate, hfront]),
      habsorbed.keeps.chained, hcomputes.digestBytes]
    simp only [List.append_assoc, List.cons_append, List.nil_append]

end Streaming

section Conversions

/-- A byte of a word by its number. -/
theorem byte_shift32 (x : UInt32) {k : ℕ} (hk : k < 32) :
    (x >>> UInt32.ofNat k).toUInt8 = UInt8.ofNat (x.toNat / 2 ^ k) := by
  apply UInt8.toNat_inj.mp
  simp only [UInt32.toNat_toUInt8, UInt32.toNat_shiftRight, UInt32.toNat_ofNat', UInt8.toNat_ofNat']
  rw [Nat.mod_mod_of_dvd _ (by decide), Nat.mod_eq_of_lt hk, Nat.shiftRight_eq_div_pow]

theorem byte_shift64 (x : UInt64) {k : ℕ} (hk : k < 64) :
    (x >>> UInt64.ofNat k).toUInt8 = UInt8.ofNat (x.toNat / 2 ^ k) := by
  apply UInt8.toNat_inj.mp
  simp only [UInt64.toNat_toUInt8, UInt64.toNat_shiftRight, UInt64.toNat_ofNat', UInt8.toNat_ofNat']
  rw [Nat.mod_mod_of_dvd _ (by decide), Nat.mod_eq_of_lt hk, Nat.shiftRight_eq_div_pow]

theorem cpu2be32_byte (x : UInt32) {j : ℕ} (hj : j < 4) :
    (cpu2be32 x >>> UInt32.ofNat (8 * j)).toUInt8 = (x >>> UInt32.ofNat (8 * (3 - j))).toUInt8 := by
  apply UInt8.toBitVec_inj.mp
  ext i hi
  interval_cases j <;> interval_cases i <;> simp [cpu2be32]

theorem cpu2be64_byte (x : UInt64) {j : ℕ} (hj : j < 8) :
    (cpu2be64 x >>> UInt64.ofNat (8 * j)).toUInt8 = (x >>> UInt64.ofNat (8 * (7 - j))).toUInt8 := by
  apply UInt8.toBitVec_inj.mp
  ext i hi
  interval_cases j <;> interval_cases i <;> simp [cpu2be64]

theorem cpu2be32_hostWord (block : List UInt8) (i : ℕ) :
    cpu2be32 (hostWord block i) = IteratedHash.beWord block i := by
  simp only [hostWord, IteratedHash.leWord, IteratedHash.beWord]
  generalize block.getD (4 * i) 0 = a, block.getD (4 * i + 1) 0 = b, block.getD (4 * i + 2) 0 = c,
    block.getD (4 * i + 3) 0 = d
  apply UInt32.toBitVec_inj.mp
  ext j hj
  interval_cases j <;> simp [cpu2be32]

theorem hostBytes_eq (x : UInt32) : hostBytes x = (beBytes 4 x.toNat).reverse := by
  simp only [hostBytes, List.range, List.range.loop, List.map_cons, List.map_nil,
    byte_shift32 x (show 8 * 0 < 32 by decide), byte_shift32 x (show 8 * 1 < 32 by decide),
    byte_shift32 x (show 8 * 2 < 32 by decide), byte_shift32 x (show 8 * 3 < 32 by decide)]
  rfl

theorem hostBytes_cpu2be32 (x : UInt32) : hostBytes (cpu2be32 x) = beBytes 4 x.toNat := by
  have hbytes : hostBytes (cpu2be32 x) = (hostBytes x).reverse := by
    simp only [hostBytes, List.range, List.range.loop, List.map_cons, List.map_nil,
      cpu2be32_byte x (show 0 < 4 by decide), cpu2be32_byte x (show 1 < 4 by decide),
      cpu2be32_byte x (show 2 < 4 by decide), cpu2be32_byte x (show 3 < 4 by decide)]
    rfl
  rw [hbytes, hostBytes_eq, List.reverse_reverse]

end Conversions

section Lengths

theorem hostBytes64_eq (n : ℕ) : hostBytes64 (UInt64.ofNat n) = (beBytes 8 n).reverse := by
  have hbyte : ∀ k, (k : ℕ) ≤ 56 → (UInt64.ofNat n >>> UInt64.ofNat k).toUInt8 = UInt8.ofNat (n / 2 ^ k) := by
    intro k hk
    have hmod : n % 2 ^ 64 / 2 ^ k % 2 ^ 8 = n / 2 ^ k % 2 ^ 8 := by
      have hsplit : (2 : ℕ) ^ 64 = 2 ^ k * 2 ^ (64 - k) := by
        rw [← Nat.pow_add]
        congr 1
        omega
      rw [hsplit, Nat.mod_mul_right_div_self]
      exact Nat.mod_mod_of_dvd _ (Nat.pow_dvd_pow 2 (by omega))
    apply UInt8.toNat_inj.mp
    rw [byte_shift64 _ (by omega), UInt8.toNat_ofNat', UInt8.toNat_ofNat', UInt64.toNat_ofNat']
    exact hmod
  simp only [hostBytes64, List.range, List.range.loop, List.map_cons, List.map_nil,
    hbyte (8 * 0) (by decide), hbyte (8 * 1) (by decide), hbyte (8 * 2) (by decide),
    hbyte (8 * 3) (by decide), hbyte (8 * 4) (by decide), hbyte (8 * 5) (by decide),
    hbyte (8 * 6) (by decide), hbyte (8 * 7) (by decide)]
  rfl

theorem hostBytes64_cpu2be64 (n : ℕ) : hostBytes64 (cpu2be64 (UInt64.ofNat n)) = beBytes 8 n := by
  have hbytes : hostBytes64 (cpu2be64 (UInt64.ofNat n)) = (hostBytes64 (UInt64.ofNat n)).reverse := by
    apply List.ext_getElem
    · rfl
    · intro j hj _
      have hj8 : j < 8 := by simpa [hostBytes64] using hj
      simp only [hostBytes64, List.getElem_reverse, List.getElem_map, List.getElem_range,
        List.length_map, List.length_range]
      rw [cpu2be64_byte _ hj8]
  rw [hbytes, hostBytes64_eq, List.reverse_reverse]

end Lengths

section Rotations

theorem shift_amount {n : ℕ} (hn : n < 32) : ((UInt32.ofNat n).toBitVec % 32).toNat = n := by
  show n % 2 ^ 32 % 32 = n
  omega

theorem shift_complement {n : ℕ} (hn : n ≤ 32) : 32 - UInt32.ofNat n = UInt32.ofNat (32 - n) := by
  apply UInt32.toBitVec_inj.mp
  show (32 : BitVec 32) - BitVec.ofNat 32 n = BitVec.ofNat 32 (32 - n)
  bv_omega

variable (x : UInt32) {n : ℕ} (h0 : 0 < n) (hn : n < 32)
include h0 hn

theorem rotl32_eq : rotl32 x (UInt32.ofNat n) = IteratedHash.rotateLeft x n := by
  have hcomplement := shift_amount (show 32 - n < 32 by omega)
  apply UInt32.toBitVec_inj.mp
  simp only [rotl32, shift_complement hn.le, UInt32.toBitVec_or, UInt32.toBitVec_shiftLeft,
    UInt32.toBitVec_shiftRight, IteratedHash.rotateLeft, BitVec.rotateLeft_def, BitVec.shiftLeft_eq',
    BitVec.ushiftRight_eq', shift_amount hn, hcomplement, Nat.mod_eq_of_lt hn]

theorem rotr32_eq : rotr32 x (UInt32.ofNat n) = IteratedHash.rotateRight x n := by
  have hcomplement := shift_amount (show 32 - n < 32 by omega)
  apply UInt32.toBitVec_inj.mp
  simp only [rotr32, shift_complement hn.le, UInt32.toBitVec_or, UInt32.toBitVec_shiftLeft,
    UInt32.toBitVec_shiftRight, IteratedHash.rotateRight, BitVec.rotateRight_def, BitVec.shiftLeft_eq',
    BitVec.ushiftRight_eq', shift_amount hn, hcomplement, Nat.mod_eq_of_lt hn]

end Rotations

section Sha1Agreement
variable (block : List UInt8)

theorem sha1Schedule_step {m : ℕ → UInt32} {t : ℕ} (ht : ¬t < 16) :
    Sha1.schedule m t = rotl32 (Sha1.schedule m (t - 3) ^^^ Sha1.schedule m (t - 8) ^^^
      Sha1.schedule m (t - 14) ^^^ Sha1.schedule m (t - 16)) 1 := by
  rw [Sha1.schedule, if_neg ht]
  exact (rotl32_eq _ (show 0 < 1 by decide) (by decide)).symm

/-- A word of a list that is filled from the front on. -/
theorem getD_map_range {f : ℕ → UInt32} {n i : ℕ} (h : i < n) : ((List.range n).map f).getD i 0 = f i := by
  rw [List.getD_eq_getElem _ _ (by rw [List.length_map, List.length_range]; exact h),
    List.getElem_map, List.getElem_range]

/-- The words that have been filled are the schedule; the induction is on how many more there are. -/
theorem sha1_filled (n : ℕ) :
    (List.range' 16 n).foldl
      (fun w i => w ++ [rotl32 (w.getD (i - 3) 0 ^^^ w.getD (i - 8) 0 ^^^ w.getD (i - 14) 0 ^^^
        w.getD (i - 16) 0) 1])
      ((List.range 16).map fun i => cpu2be32 (hostWord block i)) =
    (List.range (16 + n)).map (Sha1.schedule (IteratedHash.beWord block)) := by
  induction n with
  | zero =>
    apply List.map_congr_left
    intro i hi
    rw [Sha1.schedule, if_pos (List.mem_range.mp hi), cpu2be32_hostWord]
  | succ n ih =>
    rw [List.range'_concat, List.foldl_append, ih]
    simp only [List.foldl_cons, List.foldl_nil, Nat.one_mul]
    rw [getD_map_range (by omega), getD_map_range (by omega), getD_map_range (by omega),
      getD_map_range (by omega), ← sha1Schedule_step (by omega), ← Nat.add_assoc, List.range_succ,
      List.map_append]
    rfl

theorem sha1Round_eq {f : UInt32 → UInt32 → UInt32 → UInt32} {k : UInt32} {t : ℕ} (ht : t < 80)
    (hf : f = Sha1.f t) (hk : k = Sha1.k t) (s : Sha1.State) :
    sha1Round f k (sha1Schedule block) s t =
      Sha1.round (Sha1.schedule (IteratedHash.beWord block)) s t := by
  rw [sha1Round, Sha1.round, sha1Schedule, sha1_filled, getD_map_range (by omega), hf, hk]
  have h5 : rotl32 s.a 5 = IteratedHash.rotateLeft s.a 5 :=
    rotl32_eq _ (show 0 < 5 by decide) (by decide)
  have h30 : rotl32 s.b 30 = IteratedHash.rotateLeft s.b 30 :=
    rotl32_eq _ (show 0 < 30 by decide) (by decide)
  rw [h5, h30]

/-- Twenty rounds with one function and one constant. -/
theorem sha1_twenty {f : UInt32 → UInt32 → UInt32 → UInt32} {k : UInt32} {n : ℕ} (hn : n ≤ 60)
    (hf : ∀ t, n ≤ t → t < n + 20 → f = Sha1.f t) (hk : ∀ t, n ≤ t → t < n + 20 → k = Sha1.k t)
    (s : Sha1.State) :
    (List.range' n 20).foldl (sha1Round f k (sha1Schedule block)) s =
      (List.range' n 20).foldl (Sha1.round (Sha1.schedule (IteratedHash.beWord block))) s := by
  apply List.foldl_ext
  intro s t ht
  obtain ⟨hle, hlt⟩ := List.mem_range'_1.mp ht
  exact sha1Round_eq block (by omega) (hf t hle hlt) (hk t hle hlt) s

theorem sha1Rounds_eq (s : Sha1.State) : sha1Rounds s block = Sha1.compress s block := by
  have hrange : List.range 80 =
      List.range' 0 20 ++ List.range' 20 20 ++ List.range' 40 20 ++ List.range' 60 20 := by
    decide
  have h0 := sha1_twenty block (f := ch) (k := 0x5a827999) (n := 0) (by decide)
    (fun t _ ht => by funext x y z; rw [Sha1.f, if_pos ht]; rfl)
    (fun t _ ht => by rw [Sha1.k, if_pos ht])
  have h20 := sha1_twenty block (f := parity) (k := 0x6ed9eba1) (n := 20) (by decide)
    (fun t hle ht => by funext x y z; rw [Sha1.f, if_neg (by omega), if_pos ht]; rfl)
    (fun t hle ht => by rw [Sha1.k, if_neg (by omega), if_pos ht])
  have h40 := sha1_twenty block (f := maj) (k := 0x8f1bbcdc) (n := 40) (by decide)
    (fun t hle ht => by
      funext x y z
      rw [Sha1.f, if_neg (by omega), if_neg (by omega), if_pos ht]
      rfl)
    (fun t hle ht => by rw [Sha1.k, if_neg (by omega), if_neg (by omega), if_pos ht])
  have h60 := sha1_twenty block (f := parity) (k := 0xca62c1d6) (n := 60) (by decide)
    (fun t hle ht => by
      funext x y z
      rw [Sha1.f, if_neg (by omega), if_neg (by omega), if_neg (by omega)]
      rfl)
    (fun t hle ht => by rw [Sha1.k, if_neg (by omega), if_neg (by omega), if_neg (by omega)])
  simp only [sha1Rounds, h0, h20, h40, h60]
  rw [Sha1.compress, hrange, List.foldl_append, List.foldl_append, List.foldl_append]
  rfl

end Sha1Agreement

section Sha256Agreement
variable (block : List UInt8)

theorem zsigma0_eq (x : UInt32) : zsigma0 x = Sha256.bigSigma0 x := by
  have h2 : rotr32 x 2 = IteratedHash.rotateRight x 2 := rotr32_eq x (show 0 < 2 by decide) (by decide)
  have h13 : rotr32 x 13 = IteratedHash.rotateRight x 13 :=
    rotr32_eq x (show 0 < 13 by decide) (by decide)
  have h22 : rotr32 x 22 = IteratedHash.rotateRight x 22 :=
    rotr32_eq x (show 0 < 22 by decide) (by decide)
  simp only [zsigma0, Sha256.bigSigma0, h2, h13, h22]

theorem zsigma1_eq (x : UInt32) : zsigma1 x = Sha256.bigSigma1 x := by
  have h6 : rotr32 x 6 = IteratedHash.rotateRight x 6 := rotr32_eq x (show 0 < 6 by decide) (by decide)
  have h11 : rotr32 x 11 = IteratedHash.rotateRight x 11 :=
    rotr32_eq x (show 0 < 11 by decide) (by decide)
  have h25 : rotr32 x 25 = IteratedHash.rotateRight x 25 :=
    rotr32_eq x (show 0 < 25 by decide) (by decide)
  simp only [zsigma1, Sha256.bigSigma1, h6, h11, h25]

theorem sigma0_eq (x : UInt32) : sigma0 x = Sha256.sigma0 x := by
  have h7 : rotr32 x 7 = IteratedHash.rotateRight x 7 := rotr32_eq x (show 0 < 7 by decide) (by decide)
  have h18 : rotr32 x 18 = IteratedHash.rotateRight x 18 :=
    rotr32_eq x (show 0 < 18 by decide) (by decide)
  simp only [sigma0, Sha256.sigma0, h7, h18]

theorem sigma1_eq (x : UInt32) : sigma1 x = Sha256.sigma1 x := by
  have h17 : rotr32 x 17 = IteratedHash.rotateRight x 17 :=
    rotr32_eq x (show 0 < 17 by decide) (by decide)
  have h19 : rotr32 x 19 = IteratedHash.rotateRight x 19 :=
    rotr32_eq x (show 0 < 19 by decide) (by decide)
  simp only [sigma1, Sha256.sigma1, h17, h19]

theorem sha256Schedule_step {m : ℕ → UInt32} {t : ℕ} (ht : 15 < t) :
    Sha256.schedule m t = sigma1 (Sha256.schedule m (t - 2)) + Sha256.schedule m (t - 7) +
      sigma0 (Sha256.schedule m (t - 15)) + Sha256.schedule m (t - 16) := by
  rw [Sha256.schedule, if_neg (by omega), sigma0_eq, sigma1_eq]

/-- A round fills `W` as far as it needs it. -/
theorem sha256Fill_eq (n : ℕ) :
    sha256Fill ((List.range (max 16 n)).map (Sha256.schedule (IteratedHash.beWord block))) n =
      (List.range (max 16 (n + 1))).map (Sha256.schedule (IteratedHash.beWord block)) := by
  by_cases hn : 15 < n
  · rw [sha256Fill, if_pos hn, getD_map_range (by omega), getD_map_range (by omega),
      getD_map_range (by omega), getD_map_range (by omega), ← sha256Schedule_step hn,
      Nat.max_eq_right (by omega), Nat.max_eq_right (by omega), List.range_succ, List.map_append]
    rfl
  · rw [sha256Fill, if_neg hn, Nat.max_eq_left (by omega), Nat.max_eq_left (by omega)]

theorem sha256_rounds (s : Sha256.State) (n : ℕ) :
    (List.range n).foldl sha256Round ((List.range 16).map fun i => cpu2be32 (hostWord block i), s) =
      ((List.range (max 16 n)).map (Sha256.schedule (IteratedHash.beWord block)),
        (List.range n).foldl (Sha256.round (Sha256.schedule (IteratedHash.beWord block))) s) := by
  induction n with
  | zero =>
    have hwords : ((List.range 16).map fun i => cpu2be32 (hostWord block i)) =
        (List.range 16).map (Sha256.schedule (IteratedHash.beWord block)) := by
      apply List.map_congr_left
      intro i hi
      rw [Sha256.schedule, if_pos (List.mem_range.mp hi), cpu2be32_hostWord]
    rw [hwords]
    rfl
  | succ n ih =>
    have hlast := List.range_succ (n := n)
    rw [hlast, List.foldl_append, List.foldl_append, ih]
    simp only [List.foldl_cons, List.foldl_nil, sha256Round, sha256Fill_eq, zsigma0_eq, zsigma1_eq]
    rw [getD_map_range (by omega)]
    rfl

theorem sha256Rounds_eq (s : Sha256.State) : sha256Rounds s block = Sha256.compress s block := by
  rw [sha256Rounds, sha256_rounds]
  rfl

end Sha256Agreement

section Md5Agreement
variable (x : ℕ → UInt32) {f : UInt32 → UInt32 → UInt32 → UInt32}

/-- The arguments of a step. -/
def md5Args (i : ℕ) : Md5Args := ⟨Md5.word i, UInt32.ofNat (Md5.shift i), Md5.sine.getD i 0⟩

/-- A statement of `RT_MD5_Hash` is a step of the loop. -/
theorem md5Round_eq {i : ℕ} (hf : f = Md5.f i) (hi : i < 64) (a b c d : UInt32) :
    md5Round f a b c d (x (md5Args i).k) (md5Args i).s (md5Args i).ac =
      b + IteratedHash.rotateLeft (a + Md5.f i b c d + x (Md5.word i) + Md5.sine.getD i 0)
        (Md5.shift i) := by
  have hshift : ∀ i < 64, 0 < Md5.shift i ∧ Md5.shift i < 32 := by decide
  simp only [md5Round, md5Args, rotl32_eq _ (hshift i hi).1 (hshift i hi).2, hf]
  rw [UInt32.add_comm]
  simp only [UInt32.add_assoc]

/-- After four of them the variables are back in their places. -/
theorem md5Turn_eq (i : ℕ) {p q r t : Md5Args} (hp : p = md5Args i) (hq : q = md5Args (i + 1))
    (hr : r = md5Args (i + 2)) (ht : t = md5Args (i + 3)) (hf : ∀ j < 4, f = Md5.f (i + j))
    (hi : i + 3 < 64) (s : Md5.State) :
    md5Turn f x p q r t s = (List.range' i 4).foldl (Md5.step x) s := by
  have h0 := md5Round_eq x (hf 0 (by decide)) (by omega)
  have h1 := md5Round_eq x (hf 1 (by decide)) (by omega)
  have h2 := md5Round_eq x (hf 2 (by decide)) (by omega)
  have h3 := md5Round_eq x (hf 3 (by decide)) (by omega)
  rw [Nat.add_zero] at h0
  simp only [md5Turn, hp, hq, hr, ht, h0, h1, h2, h3, List.range', List.foldl_cons, List.foldl_nil,
    Md5.step]

theorem md5F_eq {i : ℕ} (hi : i ≤ 12) (j : ℕ) (hj : j < 4) : md5F = Md5.f (i + j) := by
  funext x y z
  rw [Md5.f, if_pos (by omega)]
  rfl

theorem md5G_eq {i : ℕ} (hle : 16 ≤ i) (hi : i ≤ 28) (j : ℕ) (hj : j < 4) : md5G = Md5.f (i + j) := by
  funext x y z
  rw [Md5.f, if_neg (by omega), if_pos (by omega)]
  rfl

theorem md5H_eq {i : ℕ} (hle : 32 ≤ i) (hi : i ≤ 44) (j : ℕ) (hj : j < 4) : md5H = Md5.f (i + j) := by
  funext x y z
  rw [Md5.f, if_neg (by omega), if_neg (by omega), if_pos (by omega)]
  rfl

theorem md5I_eq {i : ℕ} (hle : 48 ≤ i) (j : ℕ) (hj : j < 4) : md5I = Md5.f (i + j) := by
  funext x y z
  rw [Md5.f, if_neg (by omega), if_neg (by omega), if_neg (by omega)]
  rfl

theorem md5Turns_eq (s : Md5.State) : md5Turns x s = (List.range 64).foldl (Md5.step x) s := by
  have hrange : List.range 64 = List.range' 0 4 ++ List.range' 4 4 ++ List.range' 8 4 ++
      List.range' 12 4 ++ List.range' 16 4 ++ List.range' 20 4 ++ List.range' 24 4 ++
      List.range' 28 4 ++ List.range' 32 4 ++ List.range' 36 4 ++ List.range' 40 4 ++
      List.range' 44 4 ++ List.range' 48 4 ++ List.range' 52 4 ++ List.range' 56 4 ++
      List.range' 60 4 := by
    decide
  rw [hrange]
  simp only [List.foldl_append, md5Turns]
  rw [md5Turn_eq x 60 ?_ ?_ ?_ ?_ (md5I_eq (by decide)) (by decide),
    md5Turn_eq x 56 ?_ ?_ ?_ ?_ (md5I_eq (by decide)) (by decide),
    md5Turn_eq x 52 ?_ ?_ ?_ ?_ (md5I_eq (by decide)) (by decide),
    md5Turn_eq x 48 ?_ ?_ ?_ ?_ (md5I_eq (by decide)) (by decide),
    md5Turn_eq x 44 ?_ ?_ ?_ ?_ (md5H_eq (by decide) (by decide)) (by decide),
    md5Turn_eq x 40 ?_ ?_ ?_ ?_ (md5H_eq (by decide) (by decide)) (by decide),
    md5Turn_eq x 36 ?_ ?_ ?_ ?_ (md5H_eq (by decide) (by decide)) (by decide),
    md5Turn_eq x 32 ?_ ?_ ?_ ?_ (md5H_eq (by decide) (by decide)) (by decide),
    md5Turn_eq x 28 ?_ ?_ ?_ ?_ (md5G_eq (by decide) (by decide)) (by decide),
    md5Turn_eq x 24 ?_ ?_ ?_ ?_ (md5G_eq (by decide) (by decide)) (by decide),
    md5Turn_eq x 20 ?_ ?_ ?_ ?_ (md5G_eq (by decide) (by decide)) (by decide),
    md5Turn_eq x 16 ?_ ?_ ?_ ?_ (md5G_eq (by decide) (by decide)) (by decide),
    md5Turn_eq x 12 ?_ ?_ ?_ ?_ (md5F_eq (by decide)) (by decide),
    md5Turn_eq x 8 ?_ ?_ ?_ ?_ (md5F_eq (by decide)) (by decide),
    md5Turn_eq x 4 ?_ ?_ ?_ ?_ (md5F_eq (by decide)) (by decide),
    md5Turn_eq x 0 ?_ ?_ ?_ ?_ (md5F_eq (by decide)) (by decide)]
  -- the arguments the source writes out are those of the steps
  all_goals rfl

end Md5Agreement

theorem sha1_computes : sha1Kind.Computes sha1 where
  initial := rfl
  rounds s block _ := sha1Rounds_eq block s
  lengthBytes := hostBytes64_cpu2be64
  digestBytes _ := by simp only [sha1Kind, sha1, hostBytes_cpu2be32]
  digest_length _ := by simp [sha1]

theorem sha256_computes : sha256Kind.Computes sha256 where
  initial := rfl
  rounds s block _ := sha256Rounds_eq block s
  lengthBytes := hostBytes64_cpu2be64
  digestBytes _ := by simp only [sha256Kind, sha256, hostBytes_cpu2be32]
  digest_length _ := by simp [sha256]

theorem md5_computes : md5Kind.Computes md5 where
  initial := rfl
  rounds s block _ := congrArg (Md5.add s) (md5Turns_eq (hostWord block) s)
  lengthBytes := hostBytes64_eq
  digestBytes _ := by simp [md5Kind, md5, hostBytes_eq]
  digest_length _ := by simp [md5]

section Digests
variable {σ : Type} {K : HashKind σ} {H : IteratedHash σ}

/-- However a message is cut into pieces, its digest is that of the whole. -/
theorem HashKind.digestOf_appends (hcomputes : K.Computes H) {chunks : List (List UInt8)}
    (hbound : ∀ chunk ∈ chunks, chunk.length + 64 ≤ 2 ^ 32) :
    (chunks.foldlM K.append K.init).map K.digestOf = some (H.hash chunks.flatten) := by
  obtain ⟨ctx, happends, habsorbed⟩ := K.appends_absorbed hcomputes hbound (K.init_absorbed hcomputes)
  rw [happends]
  exact congrArg some (K.digestOf_absorbed hcomputes habsorbed)

theorem HashKind.digest_eq (hcomputes : K.Computes H) {message : List UInt8}
    (hbound : message.length + 64 ≤ 2 ^ 32) : K.digest message = some (H.hash message) := by
  obtain ⟨ctx, happend, habsorbed⟩ := K.append_absorbed hcomputes (K.init_absorbed hcomputes) hbound
  rw [HashKind.digest, happend]
  exact congrArg some (K.digestOf_absorbed hcomputes habsorbed)

/-- Two pieces, as the keyed hashes append them. -/
theorem HashKind.digestOf_pair (hcomputes : K.Computes H) {a b : List UInt8}
    (ha : a.length + 64 ≤ 2 ^ 32) (hb : b.length + 64 ≤ 2 ^ 32) :
    ∃ ctx ctx', K.append K.init a = some ctx ∧ K.append ctx b = some ctx' ∧
      K.digestOf ctx' = H.hash (a ++ b) := by
  obtain ⟨ctx, happend, habsorbed⟩ := K.append_absorbed hcomputes (K.init_absorbed hcomputes) ha
  obtain ⟨ctx', happend', habsorbed'⟩ := K.append_absorbed hcomputes habsorbed hb
  exact ⟨ctx, ctx', happend, happend', K.digestOf_absorbed hcomputes habsorbed'⟩

theorem overwrite_zeroes {bytes : List UInt8} (h : bytes.length ≤ 64) :
    overwrite (List.replicate 64 0) 0 bytes = bytes ++ List.replicate (64 - bytes.length) 0 := by
  rw [overwrite_eq (by rw [List.length_replicate]; omega), List.take_zero, List.nil_append, Nat.zero_add,
    List.drop_replicate]

theorem HashKind.hmacK0_eq (hcomputes : K.Computes H) {key : List UInt8}
    (hkey : key.length + 64 ≤ 2 ^ 32) : K.hmacK0 key = some (H.hmacKey key) := by
  by_cases hle : key.length ≤ 64
  · rw [hmacK0, if_pos hle, overwrite_zeroes hle, IteratedHash.hmacKey]
    simp only [if_pos hle]
  · have hlength : (H.hash key).length ≤ 64 := hcomputes.digest_length _
    rw [hmacK0, if_neg hle, K.digest_eq hcomputes hkey, IteratedHash.hmacKey]
    simp only [if_neg hle, Option.map_some, overwrite_zeroes hlength]

theorem IteratedHash.hmacKey_length (hcomputes : K.Computes H) (key : List UInt8) :
    (H.hmacKey key).length = 64 := by
  have hle : (if key.length ≤ 64 then key else H.hash key).length ≤ 64 := by
    split
    · assumption
    · exact hcomputes.digest_length _
  rw [IteratedHash.hmacKey, List.length_append, List.length_replicate]
  omega

/-- The keyed hash of keys of any length, cut to the length that is asked for. -/
theorem HashKind.hmac_eq (hcomputes : K.Computes H) {key message : List UInt8} (macLen : ℕ)
    (hkey : key.length + 64 ≤ 2 ^ 32) (hmessage : message.length + 64 ≤ 2 ^ 32) :
    K.hmac key message macLen = some ((H.hmac key message).take macLen) := by
  have hk0 := K.hmacK0_eq hcomputes hkey
  have hlength : ∀ b : UInt8, ((H.hmacKey key).map (· ^^^ b)).length + 64 ≤ 2 ^ 32 := by
    intro b
    rw [List.length_map, IteratedHash.hmacKey_length hcomputes]
    decide
  obtain ⟨inner, inner', hinner, hinner', hdigest⟩ :=
    K.digestOf_pair hcomputes (hlength 0x36) hmessage
  have hhash := hcomputes.digest_length
  have hbound : (K.digestOf inner').length + 64 ≤ 2 ^ 32 := by
    have := hhash (H.chain H.initial (H.pad ((H.hmacKey key).map (· ^^^ 0x36) ++ message)))
    rw [hdigest, IteratedHash.hash]
    omega
  have hpads : ((H.hmacKey key).map (· ^^^ 0x36)).map (· ^^^ (0x36 ^^^ 0x5c)) =
      (H.hmacKey key).map (· ^^^ 0x5c) := by
    rw [List.map_map]
    apply List.map_congr_left
    intro b _
    rw [Function.comp_apply, UInt8.xor_assoc]
    rfl
  obtain ⟨outer, outer', houter, houter', houterDigest⟩ :=
    K.digestOf_pair hcomputes (hlength 0x5c) hbound
  have hmac : K.digestOf outer' = H.hmac key message := by
    rw [houterDigest, hdigest]
    rfl
  rw [HashKind.hmac, hk0]
  simp only [Option.bind_eq_bind, Option.bind_some, hinner, hinner', hpads, houter, houter', hmac]
  split
  · rename_i hlt
    rw [List.take_of_length_le hlt.le]
  · rfl

end Digests

/-- However the pieces of a message are cut that the three functions append, they leave the standard
digests of the whole message, and no copy leaves the block. -/
theorem digests_of_appends (chunks : List (List UInt8))
    (hbound : ∀ chunk ∈ chunks, chunk.length + 64 ≤ 2 ^ 32) :
    (chunks.foldlM md5Kind.append md5Kind.init).map md5Kind.digestOf = some (md5.hash chunks.flatten) ∧
      (chunks.foldlM sha1Kind.append sha1Kind.init).map sha1Kind.digestOf =
        some (sha1.hash chunks.flatten) ∧
      (chunks.foldlM sha256Kind.append sha256Kind.init).map sha256Kind.digestOf =
        some (sha256.hash chunks.flatten) :=
  ⟨HashKind.digestOf_appends md5_computes hbound, HashKind.digestOf_appends sha1_computes hbound,
    HashKind.digestOf_appends sha256_computes hbound⟩

theorem digests_of_two_pieces :
    let chunks : List (List UInt8) := [[0x61], [0x62, 0x63]]
    (∀ chunk ∈ chunks, chunk.length + 64 ≤ 2 ^ 32) ∧
      (chunks.foldlM md5Kind.append md5Kind.init).map md5Kind.digestOf =
        some (md5.hash chunks.flatten) :=
  ⟨by decide, (digests_of_appends [[0x61], [0x62, 0x63]] (by decide)).1⟩

/-- The keyed hashes, of keys and messages of any length and cut to any length. -/
theorem hmacs_of_keys (key message : List UInt8) (macLen : ℕ) (hkey : key.length + 64 ≤ 2 ^ 32)
    (hmessage : message.length + 64 ≤ 2 ^ 32) :
    rtHmacMd5 key message macLen = some ((md5.hmac key message).take macLen) ∧
      rtHmacSha1 key message macLen = some ((sha1.hmac key message).take macLen) ∧
      rtHmacSha256 key message macLen = some ((sha256.hmac key message).take macLen) :=
  ⟨md5Kind.hmac_eq md5_computes macLen hkey hmessage, sha1Kind.hmac_eq sha1_computes macLen hkey hmessage,
    sha256Kind.hmac_eq sha256_computes macLen hkey hmessage⟩

theorem hmacs_of_a_key :
    [(0x4b : UInt8)].length + 64 ≤ 2 ^ 32 ∧ [(0x54 : UInt8)].length + 64 ≤ 2 ^ 32 ∧
      rtHmacMd5 [0x4b] [0x54] 16 = some ((md5.hmac [0x4b] [0x54]).take 16) :=
  ⟨by decide, by decide, (hmacs_of_keys [0x4b] [0x54] 16 (by decide) (by decide)).1⟩

section Tests

example : md5.hash [0x61, 0x62, 0x63] = [0x90, 0x01, 0x50, 0x98, 0x3c, 0xd2, 0x4f, 0xb0, 0xd6, 0x96,
    0x3f, 0x7d, 0x28, 0xe1, 0x7f, 0x72] := by
  rw [md5.hash_of_room (by decide), md5.chain_short _ (by decide)]
  decide +kernel

example : sha1.hash [0x61, 0x62, 0x63] = [0xa9, 0x99, 0x3e, 0x36, 0x47, 0x06, 0x81, 0x6a, 0xba, 0x3e,
    0x25, 0x71, 0x78, 0x50, 0xc2, 0x6c, 0x9c, 0xd0, 0xd8, 0x9d] := by
  rw [sha1.hash_of_room (by decide), sha1.chain_short _ (by decide), sha1]
  simp only [← sha1Rounds_eq]
  decide +kernel

example : sha256.hash [0x61, 0x62, 0x63] = [0xba, 0x78, 0x16, 0xbf, 0x8f, 0x01, 0xcf, 0xea, 0x41, 0x41,
    0x40, 0xde, 0x5d, 0xae, 0x22, 0x23, 0xb0, 0x03, 0x61, 0xa3, 0x96, 0x17, 0x7a, 0x9c, 0xb4, 0x10,
    0xff, 0x61, 0xf2, 0x00, 0x15, 0xad] := by
  rw [sha256.hash_of_room (by decide), sha256.chain_short _ (by decide), sha256]
  simp only [← sha256Rounds_eq]
  decide +kernel

end Tests

end Rt5572
