import StandaloneDrivers.Foundations.Bytes

/-! Chaining and key streams of a block cipher, over blocks of 16 bytes. -/
namespace Foundations

abbrev CipherBlock : Type := Vector UInt8 16

def xorBytes (a b : List UInt8) : List UInt8 := List.zipWith (· ^^^ ·) a b

def xorBlock (a b : CipherBlock) : CipherBlock := a.zipWith (· ^^^ ·) b

/-- The first 16 bytes, filled up with zeroes. -/
def padBlock (bytes : List UInt8) : CipherBlock := Vector.ofFn fun i => bytes.getD i 0

/-- The blocks of a message, the last one filled up with zeroes. -/
def blocksOf (m : List UInt8) : List CipherBlock :=
  (List.range ((m.length + 15) / 16)).map fun i => padBlock (m.drop (16 * i))

variable (E : CipherBlock → CipherBlock) (ctr : ℕ → CipherBlock)

/-- Each block is added to the one enciphered last. -/
def chain (x : CipherBlock) (bs : List CipherBlock) : CipherBlock :=
  bs.foldl (fun x b => E (xorBlock x b)) x

theorem chain_append (x : CipherBlock) (bs cs : List CipherBlock) :
    chain E x (bs ++ cs) = chain E (chain E x bs) cs := List.foldl_append

/-- `n` blocks of key stream, from counter value 1 on. -/
def keyStream (n : ℕ) : List UInt8 :=
  (List.range n).flatMap fun i => (E (ctr (i + 1))).toList

/-- A text under the key stream. -/
def streamXor (text : List UInt8) : List UInt8 :=
  xorBytes text (keyStream E ctr ((text.length + 15) / 16))

theorem padBlock_getElem (bytes : List UInt8) {i : ℕ} (hi : i < 16) :
    (padBlock bytes)[i] = bytes.getD i 0 := Vector.getElem_ofFn hi

/-- What lies behind the first 16 bytes does not count. -/
theorem padBlock_append {l : List UInt8} (hl : l.length = 16) (r : List UInt8) :
    padBlock (l ++ r) = padBlock l := by
  apply Vector.ext
  intro i hi
  rw [padBlock_getElem, padBlock_getElem, List.getD_append _ _ _ _ (by omega)]

theorem blocksOf_append {l : List UInt8} (hl : l.length = 16) (r : List UInt8) :
    blocksOf (l ++ r) = padBlock l :: blocksOf r := by
  have hlen : ((l ++ r).length + 15) / 16 = (r.length + 15) / 16 + 1 := by
    rw [List.length_append]
    omega
  rw [blocksOf, hlen, List.range_succ_eq_map, List.map_cons, List.map_map]
  refine congrArg₂ List.cons ?_ ?_
  · exact padBlock_append hl r
  · apply List.map_congr_left
    intro i _
    have hdrop : (l ++ r).drop (16 * (i + 1)) = r.drop (16 * i) := by
      rw [Nat.mul_succ, Nat.add_comm, ← List.drop_drop, List.drop_left' hl]
    exact congrArg padBlock hdrop

theorem blocksOf_single {m : List UInt8} (h0 : 0 < m.length) (h16 : m.length ≤ 16) :
    blocksOf m = [padBlock m] := by
  have hone : (m.length + 15) / 16 = 1 := by omega
  rw [blocksOf, hone]
  rfl

@[simp] theorem xorBytes_length (a b : List UInt8) :
    (xorBytes a b).length = min a.length b.length := List.length_zipWith

@[simp] theorem keyStream_length (n : ℕ) : (keyStream E ctr n).length = 16 * n := by
  simp only [keyStream, List.length_flatMap, Vector.length_toList, List.map_const',
    List.length_range, List.sum_replicate_nat]
  omega

@[simp] theorem streamXor_length (text : List UInt8) :
    (streamXor E ctr text).length = text.length := by
  simp only [streamXor, xorBytes_length, keyStream_length]
  omega

theorem keyStream_succ (n : ℕ) :
    keyStream E ctr (n + 1) = keyStream E ctr n ++ (E (ctr (n + 1))).toList := by
  simp only [keyStream, List.range_succ, List.flatMap_append, List.flatMap_cons,
    List.flatMap_nil, List.append_nil]

theorem keyStream_getElem (n : ℕ) {i : ℕ} (h : i < (keyStream E ctr n).length) :
    (keyStream E ctr n)[i] = (E (ctr (i / 16 + 1)))[i % 16] := by
  induction n with
  | zero => simp [keyStream] at h
  | succ n ih =>
    have hlen := keyStream_length E ctr n
    simp only [keyStream_succ]
    by_cases hlt : i < 16 * n
    · rw [List.getElem_append_left (by omega)]
      exact ih (by omega)
    · rw [keyStream_length] at h
      have hdiv : i / 16 = n := by omega
      have hmod : i - (keyStream E ctr n).length = i % 16 := by omega
      rw [List.getElem_append_right (by omega)]
      simp only [Vector.getElem_toList, hmod, hdiv]

section Xor
variable {a b k : List UInt8}

theorem xorBytes_append {c d : List UInt8} (h : a.length = b.length) :
    xorBytes (a ++ c) (b ++ d) = xorBytes a b ++ xorBytes c d := List.zipWith_append h

/-- What is added twice is gone. -/
theorem xorBytes_cancel (h : a.length ≤ k.length) : xorBytes (xorBytes a k) k = a := by
  apply List.ext_getElem
  · simp only [xorBytes_length]
    omega
  · intro i _ _
    simp only [xorBytes, List.getElem_zipWith, UInt8.xor_assoc, UInt8.xor_self, UInt8.xor_zero]

/-- A block of at most 16 bytes, of which those of the text are kept. -/
theorem take_xorBlock (x : CipherBlock) (m : List UInt8) :
    (xorBlock x (padBlock m)).toList.take m.length = xorBytes m x.toList := by
  apply List.ext_getElem
  · simp only [List.length_take, xorBytes_length, Vector.length_toList]
  · intro i hi _
    rw [List.length_take] at hi
    simp only [List.getElem_take, xorBytes, List.getElem_zipWith, Vector.getElem_toList, xorBlock,
      Vector.getElem_zipWith, padBlock_getElem]
    rw [List.getD_eq_getElem _ _ (by omega), UInt8.xor_comm]

end Xor

theorem streamXor_cancel (text : List UInt8) : streamXor E ctr (streamXor E ctr text) = text := by
  rw [streamXor, streamXor_length]
  exact xorBytes_cancel (by rw [keyStream_length]; omega)

/-- Two counters give the same key stream on the first `n` bytes. -/
def SameStream (ctr ctr' : ℕ → CipherBlock) (n : ℕ) : Prop :=
  ∀ c, 0 < c → ∀ j : Fin 16, 16 * (c - 1) + j < n → (E (ctr c))[j] = (E (ctr' c))[j]

variable {E ctr}

theorem SameStream.streamXor_eq {ctr' : ℕ → CipherBlock} {text : List UInt8}
    (h : SameStream E ctr ctr' text.length) : streamXor E ctr text = streamXor E ctr' text := by
  apply List.ext_getElem
  · rw [streamXor_length, streamXor_length]
  · intro i hi _
    rw [streamXor_length] at hi
    have hbyte := h (i / 16 + 1) (Nat.succ_pos _) ⟨i % 16, Nat.mod_lt i (by decide)⟩
      (by simp only [Nat.add_sub_cancel]; omega)
    simp only [streamXor, xorBytes, List.getElem_zipWith, keyStream_getElem]
    exact congrArg _ hbyte

/-- A text is read back under another counter only where the key streams agree. -/
theorem sameStream_of_streamXor {ctr' : ℕ → CipherBlock} {text : List UInt8}
    (h : streamXor E ctr' (streamXor E ctr text) = text) :
    SameStream E ctr ctr' text.length := by
  have heq : streamXor E ctr text = streamXor E ctr' text := by
    have happly := congrArg (streamXor E ctr') h
    rwa [streamXor_cancel] at happly
  intro c hc j hj
  have hlt : 16 * (c - 1) + j < (streamXor E ctr text).length := by rwa [streamXor_length]
  have hdiv : (16 * (c - 1) + j.val) / 16 + 1 = c := by omega
  have hmod : (16 * (c - 1) + j.val) % 16 = j := by omega
  have hlt' : 16 * (c - 1) + j < (streamXor E ctr' text).length := by rwa [← heq]
  have hbyte : (streamXor E ctr text)[16 * (c - 1) + j.val] =
      (streamXor E ctr' text)[16 * (c - 1) + j.val] := by
    simp only [heq]
  simp only [streamXor, xorBytes, List.getElem_zipWith, keyStream_getElem, UInt8.xor_right_inj,
    hdiv, hmod] at hbyte
  exact hbyte

theorem streamXor_eq_iff {ctr' : ℕ → CipherBlock} {text : List UInt8} :
    streamXor E ctr text = streamXor E ctr' text ↔ SameStream E ctr ctr' text.length := by
  refine ⟨fun h => sameStream_of_streamXor ?_, SameStream.streamXor_eq⟩
  rw [h, streamXor_cancel]

section Sealed
variable (E ctr) {ctr' : ℕ → CipherBlock} (mac mac' : List UInt8 → List UInt8)

/-- A text under the key stream, and its code under the block of counter value 0. -/
def sealText (text : List UInt8) : List UInt8 :=
  streamXor E ctr text ++ xorBytes (mac text) (E (ctr 0)).toList

/-- The text of `n` bytes, when the code behind it is right. -/
def openText (n : ℕ) (body : List UInt8) : Option (List UInt8) :=
  let text := streamXor E ctr (body.take n)
  if mac text = xorBytes (body.drop n) (E (ctr 0)).toList then some text else none

theorem openText_seal {text : List UInt8} (hmac : (mac text).length ≤ 16) :
    openText E ctr mac text.length (sealText E ctr mac text) = some text := by
  have hlen : (streamXor E ctr text).length = text.length := streamXor_length E ctr text
  simp only [openText, sealText, List.take_left' hlen, List.drop_left' hlen, streamXor_cancel]
  rw [xorBytes_cancel (by simpa using hmac), if_pos rfl]

variable {E ctr mac mac'}

/-- Another receiver reads a sealed text exactly where its key stream and its code agree. -/
theorem openText_seal_iff (h0 : ctr 0 = ctr' 0) {text : List UInt8}
    (hmac : (mac text).length ≤ 16) :
    openText E ctr' mac' text.length (sealText E ctr mac text) = some text ↔
      SameStream E ctr ctr' text.length ∧ mac' text = mac text := by
  have hlen : (streamXor E ctr text).length = text.length := streamXor_length E ctr text
  simp only [openText, sealText, List.take_left' hlen, List.drop_left' hlen, ← h0]
  rw [xorBytes_cancel (by simpa using hmac)]
  constructor
  · intro h
    split at h
    · rename_i heq
      have htext := Option.some.inj h
      rw [htext] at heq
      exact ⟨sameStream_of_streamXor htext, heq⟩
    · cases h
  · rintro ⟨hsame, heq⟩
    have htext : streamXor E ctr' (streamXor E ctr text) = text := by
      rw [hsame.streamXor_eq, streamXor_cancel]
    rw [htext, if_pos heq]

theorem openText_congr (h0 : ctr 0 = ctr' 0) {n : ℕ} {body : List UInt8} (hn : n ≤ body.length)
    (hsame : SameStream E ctr ctr' n)
    (hmac : ∀ text : List UInt8, text.length = n → mac' text = mac text) :
    openText E ctr mac n body = openText E ctr' mac' n body := by
  have hlen : (body.take n).length = n := List.length_take_of_le hn
  have htext : streamXor E ctr (body.take n) = streamXor E ctr' (body.take n) :=
    SameStream.streamXor_eq (by rwa [hlen])
  simp only [openText, ← h0, ← htext]
  rw [hmac _ (by rw [streamXor_length, hlen])]

end Sealed

end Foundations

/-! Counter mode with a CBC-MAC over a block cipher. `L` bytes hold the length of the text, and the
number of a block of key stream. -/
namespace Foundations.Ccm

def flags (L macLength : ℕ) (aad : List UInt8) : UInt8 :=
  UInt8.ofNat ((if aad = [] then 0 else 64) + 8 * ((macLength - 2) / 2) + (L - 1))

def firstBlock (L macLength : ℕ) (nonce aad text : List UInt8) : CipherBlock :=
  padBlock (flags L macLength aad :: nonce ++ beBytes L text.length)

/-- The length in front of the associated data, in 2, 6 or 10 bytes. -/
def aadLength (n : ℕ) : List UInt8 :=
  if n < 0xff00 then beBytes 2 n
  else if n < 2 ^ 32 then 0xff :: 0xfe :: beBytes 4 n
  else 0xff :: 0xff :: beBytes 8 n

def aadBlocks (aad : List UInt8) : List CipherBlock :=
  if aad = [] then [] else blocksOf (aadLength aad.length ++ aad)

variable (E : CipherBlock → CipherBlock)

def mac (L macLength : ℕ) (nonce aad text : List UInt8) : List UInt8 :=
  (chain E (E (firstBlock L macLength nonce aad text)) (aadBlocks aad ++ blocksOf text)).toList.take
    macLength

/-- The block that is enciphered for number `i` of the key stream; number 0 masks the code. -/
def counterBlock (L : ℕ) (nonce : List UInt8) (i : ℕ) : CipherBlock :=
  padBlock (UInt8.ofNat (L - 1) :: nonce ++ beBytes L i)

def encrypt (L macLength : ℕ) (nonce aad text : List UInt8) : List UInt8 :=
  sealText E (counterBlock L nonce) (mac E L macLength nonce aad) text

section
variable {L : ℕ} {nonce : List UInt8}

theorem counterBlock_toList (hnonce : nonce.length + L = 15) (i : ℕ) :
    (counterBlock L nonce i).toList = UInt8.ofNat (L - 1) :: nonce ++ beBytes L i := by
  have hlen : (UInt8.ofNat (L - 1) :: nonce ++ beBytes L i).length = 16 := by
    simp only [List.cons_append, List.length_cons, List.length_append, beBytes_length]
    omega
  apply List.ext_getElem
  · rw [Vector.length_toList, hlen]
  · intro j hj hj'
    rw [Vector.length_toList] at hj
    rw [Vector.getElem_toList, ← List.getD_eq_getElem _ 0 hj']
    exact padBlock_getElem _ hj

/-- Different numbers of `L` bytes are enciphered in different blocks. -/
theorem counterBlock_injOn (hnonce : nonce.length + L = 15) {i j : ℕ} (hi : i < 256 ^ L)
    (hj : j < 256 ^ L) (h : counterBlock L nonce i = counterBlock L nonce j) : i = j := by
  have hbytes : UInt8.ofNat (L - 1) :: nonce ++ beBytes L i =
      UInt8.ofNat (L - 1) :: nonce ++ beBytes L j := by
    rw [← counterBlock_toList hnonce, ← counterBlock_toList hnonce, h]
  exact beBytes_injOn hi hj (List.append_cancel_left hbytes)

end
end Foundations.Ccm

/-! Blocks that are chained before they are enciphered, and the padding of a text. -/
namespace Foundations.Cbc

/-- The bytes of blocks. -/
def bytes (bs : List CipherBlock) : List UInt8 := bs.flatMap Vector.toList

/-- Each block is added to the ciphertext in front of it. -/
def encrypt (E : CipherBlock → CipherBlock) : CipherBlock → List CipherBlock → List CipherBlock
  | _, [] => []
  | iv, b :: bs => E (xorBlock b iv) :: encrypt E (E (xorBlock b iv)) bs

def decrypt (D : CipherBlock → CipherBlock) : CipherBlock → List CipherBlock → List CipherBlock
  | _, [] => []
  | iv, c :: cs => xorBlock (D c) iv :: decrypt D c cs

/-- As many bytes as are missing, each with their number; a whole block where none is missing. -/
def pad (text : List UInt8) : List UInt8 :=
  text ++ List.replicate (16 - text.length % 16) (UInt8.ofNat (16 - text.length % 16))

@[simp] theorem bytes_nil : bytes [] = [] := rfl

@[simp] theorem bytes_cons (b : CipherBlock) (bs : List CipherBlock) :
    bytes (b :: bs) = b.toList ++ bytes bs := rfl

@[simp] theorem bytes_length (bs : List CipherBlock) : (bytes bs).length = 16 * bs.length := by
  induction bs with
  | nil => rfl
  | cons b bs ih =>
    rw [bytes_cons, List.length_append, Vector.length_toList, ih, List.length_cons]
    omega

theorem padBlock_toList (b : CipherBlock) : padBlock b.toList = b := by
  apply Vector.ext
  intro i hi
  rw [padBlock_getElem _ hi, List.getD_eq_getElem _ _ (by rwa [Vector.length_toList]),
    Vector.getElem_toList]

theorem toList_padBlock {l : List UInt8} (hl : l.length = 16) : (padBlock l).toList = l := by
  apply List.ext_getElem
  · rw [Vector.length_toList, hl]
  · intro i _ hi
    rw [Vector.getElem_toList, padBlock_getElem _ (by omega), List.getD_eq_getElem _ _ hi]

theorem blocksOf_bytes (bs : List CipherBlock) : blocksOf (bytes bs) = bs := by
  induction bs with
  | nil => rfl
  | cons b bs ih =>
    rw [bytes_cons, blocksOf_append Vector.length_toList, padBlock_toList, ih]

/-- Whole blocks give back their bytes. -/
theorem bytes_blocksOf {n : ℕ} {m : List UInt8} (h : m.length = 16 * n) :
    bytes (blocksOf m) = m := by
  induction n generalizing m with
  | zero =>
    rw [List.eq_nil_of_length_eq_zero h]
    rfl
  | succ n ih =>
    have hlen : (m.take 16).length = 16 := by
      rw [List.length_take]
      omega
    have hsplit : m.take 16 ++ m.drop 16 = m := List.take_append_drop 16 m
    have hblocks := blocksOf_append hlen (m.drop 16)
    rw [hsplit] at hblocks
    rw [hblocks, bytes_cons, toList_padBlock hlen, ih (by rw [List.length_drop]; omega), hsplit]

@[simp] theorem encrypt_length (E : CipherBlock → CipherBlock) (iv : CipherBlock)
    (bs : List CipherBlock) : (encrypt E iv bs).length = bs.length := by
  induction bs generalizing iv with
  | nil => rfl
  | cons b bs ih => rw [encrypt, List.length_cons, ih, List.length_cons]

@[simp] theorem decrypt_length (D : CipherBlock → CipherBlock) (iv : CipherBlock)
    (cs : List CipherBlock) : (decrypt D iv cs).length = cs.length := by
  induction cs generalizing iv with
  | nil => rfl
  | cons c cs ih => rw [decrypt, List.length_cons, ih, List.length_cons]

/-- A block is opened with the ciphertext in front of it. -/
theorem decrypt_append (D : CipherBlock → CipherBlock) (iv : CipherBlock) (cs : List CipherBlock)
    (c : CipherBlock) :
    decrypt D iv (cs ++ [c]) = decrypt D iv cs ++ [xorBlock (D c) (cs.getLastD iv)] := by
  induction cs generalizing iv with
  | nil => rfl
  | cons d cs ih =>
    rw [List.cons_append, decrypt, ih, decrypt, List.getLastD_cons, List.cons_append]

theorem decrypt_encrypt {E D : CipherBlock → CipherBlock} (h : ∀ b, D (E b) = b)
    (iv : CipherBlock) (bs : List CipherBlock) : decrypt D iv (encrypt E iv bs) = bs := by
  induction bs generalizing iv with
  | nil => rfl
  | cons b bs ih =>
    have hback : xorBlock (xorBlock b iv) iv = b := by
      apply Vector.ext
      intro i hi
      simp only [xorBlock, Vector.getElem_zipWith, UInt8.xor_assoc, UInt8.xor_self,
        UInt8.xor_zero]
    rw [encrypt, decrypt, h, ih, hback]

theorem pad_length (text : List UInt8) :
    (pad text).length = 16 * (text.length / 16 + 1) := by
  rw [pad, List.length_append, List.length_replicate]
  omega

/-- The last byte counts the padding. -/
theorem pad_last (text : List UInt8) :
    (pad text).getD ((pad text).length - 1) 0 = UInt8.ofNat (16 - text.length % 16) := by
  have hlen := pad_length text
  rw [hlen, pad, List.getD_append_right _ _ _ _ (by omega), List.getD_eq_getElem _ _ (by
    rw [List.length_replicate]
    omega), List.getElem_replicate]

end Foundations.Cbc
