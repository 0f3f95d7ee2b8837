import StandaloneDrivers.Foundations.CipherModes
import StandaloneDrivers.Rt5572.AesInverse
import StandaloneDrivers.Rt5572.CryptModes

/-! What AES_CBC_Encrypt enciphers comes back, and which lengths AES_CBC_Decrypt returns. -/
namespace Rt5572
open Foundations

/-- The last byte of the text that the ciphertext opens to. -/
def lastByte (key iv cipherText : List UInt8) : UInt8 :=
  getElem (xorBlock (plainBlock key (padBlock (cipherText.drop (cipherText.length - 16))))
    (cbcPrevious iv (cipherText.take (cipherText.length - 16)))) 15 fifteen_lt_sixteen

section Encrypt
variable {key iv plainText : List UInt8}

theorem cbcPrevious_append (cipherText : List UInt8) (b : CipherBlock) :
    cbcPrevious iv (cipherText ++ b.toList) = b := by
  have hlen : (cipherText ++ b.toList).length = cipherText.length + 16 := by
    rw [List.length_append, Vector.length_toList]
  rw [cbcPrevious, if_neg (by omega), hlen, Nat.add_sub_cancel, List.drop_left,
    Cbc.padBlock_toList]

/-- The ciphertext with the padded block. -/
def cbcFinish (key iv plainText : List UInt8) (s : ℕ × List UInt8) : List UInt8 :=
  let block := padBlock (plainText.drop s.1 ++
    List.replicate (16 - plainText.length % 16) (UInt8.ofNat (16 - plainText.length % 16)))
  s.2 ++ (cipherBlock key (xorBlock block (cbcPrevious iv s.2))).toList

/-- The rounds, and the padded block behind them, chain the blocks of the padded text. -/
theorem cbcEncryptLoop_eq (start : ℕ) (cipherText : List UInt8)
    (hstart : start % 16 = 0) (hle : start ≤ plainText.length) :
    cbcFinish key iv plainText (cbcEncryptLoop key iv plainText start cipherText) =
      cipherText ++ Cbc.bytes (Cbc.encrypt (cipherBlock key) (cbcPrevious iv cipherText)
        (blocksOf ((Cbc.pad plainText).drop start))) := by
  fun_induction cbcEncryptLoop key iv plainText start cipherText with
  | case1 start cipherText hlong block ih =>
    have hfirst : (slice plainText start 16).length = 16 := by
      rw [slice, List.length_take, List.length_drop]
      omega
    have hsplit : (Cbc.pad plainText).drop start =
        slice plainText start 16 ++ (Cbc.pad plainText).drop (start + 16) := by
      have hblock : ((Cbc.pad plainText).drop start).take 16 = slice plainText start 16 := by
        rw [Cbc.pad, List.drop_append_of_le_length hle, slice, List.take_append_of_le_length
          (by rw [List.length_drop]; omega)]
      rw [← hblock, ← List.drop_drop, List.take_append_drop]
    rw [ih (by omega) (by omega), hsplit, blocksOf_append hfirst, Cbc.encrypt, Cbc.bytes_cons,
      cbcPrevious_append, List.append_assoc]
  | case2 start cipherText hshort =>
    have hrest : (Cbc.pad plainText).drop start = plainText.drop start ++
        List.replicate (16 - plainText.length % 16)
          (UInt8.ofNat (16 - plainText.length % 16)) := by
      rw [Cbc.pad, List.drop_append_of_le_length hle]
    have hlen : ((Cbc.pad plainText).drop start).length = 16 := by
      rw [List.length_drop, Cbc.pad_length]
      omega
    rw [blocksOf_single (by omega) (by omega), cbcFinish, ← hrest]
    simp only [Cbc.encrypt, Cbc.bytes_cons, Cbc.bytes_nil, List.append_nil]

theorem aesCbcEncrypt_eq (hkey : aesKeyLength key.length = true) (hiv : iv.length = 16)
    {size : ℕ} (hsize : (Cbc.pad plainText).length ≤ size) :
    aesCbcEncrypt plainText key iv size = some (Cbc.bytes (Cbc.encrypt (cipherBlock key)
      (padBlock iv) (blocksOf (Cbc.pad plainText)))) := by
  have hlen := Cbc.pad_length plainText
  have hroom : ¬ size < (plainText.length + (16 - plainText.length % 16)) % 2 ^ 32 := by
    have hmod := Nat.mod_le (plainText.length + (16 - plainText.length % 16)) (2 ^ 32)
    omega
  have hloop := @cbcEncryptLoop_eq key iv plainText 0 [] rfl (Nat.zero_le _)
  rw [List.drop_zero, List.nil_append] at hloop
  simp only [aesCbcEncrypt, if_neg hroom, hkey, Bool.true_eq_false, if_false, hiv, ne_eq,
    not_true_eq_false]
  exact congrArg some hloop

end Encrypt

section Decrypt
variable {cipherText key iv : List UInt8}

/-- The first blocks of the ciphertext. -/
def firstBlocks (cipherText : List UInt8) (k : ℕ) : List CipherBlock :=
  (List.range k).map fun i => padBlock (slice cipherText (16 * i) 16)

theorem firstBlocks_succ (cipherText : List UInt8) (k : ℕ) :
    firstBlocks cipherText (k + 1) =
      firstBlocks cipherText k ++ [padBlock (slice cipherText (16 * k) 16)] := by
  rw [firstBlocks, List.range_succ, List.map_append]
  rfl

theorem firstBlocks_all (cipherText : List UInt8) (hlen : cipherText.length % 16 = 0) :
    firstBlocks cipherText (cipherText.length / 16) = blocksOf cipherText := by
  have hcount : (cipherText.length + 15) / 16 = cipherText.length / 16 := by omega
  rw [blocksOf, hcount]
  apply List.map_congr_left
  intro i _
  apply Vector.ext
  intro j hj
  rw [padBlock_getElem _ hj, padBlock_getElem _ hj]
  simp only [slice, List.getD_eq_getElem?_getD, List.getElem?_take, if_pos hj]

theorem xorBytes_toList (a : CipherBlock) {previous : List UInt8} (h : previous.length = 16) :
    xorBytes a.toList previous = (xorBlock a (padBlock previous)).toList := by
  apply List.ext_getElem
  · simp only [xorBytes_length, Vector.length_toList, h, Nat.min_self]
  · intro i _ hi
    rw [Vector.length_toList] at hi
    simp only [xorBytes, List.getElem_zipWith, Vector.getElem_toList, xorBlock,
      Vector.getElem_zipWith, padBlock_getElem _ hi]
    rw [List.getD_eq_getElem _ _ (by omega)]

theorem decryptInto_some {block b : CipherBlock} {size : ℕ}
    (h : rtAesDecrypt block key size = some b) (m : Memory) (start : ℕ) :
    decryptInto block key m start size = (m.write start b.toList, 16) := by
  rw [decryptInto, h]

/-- What is read where two blocks were written one over the other. -/
theorem read_overwritten (m : Memory) (start : ℕ) (a b : CipherBlock) :
    ((m.write start a.toList).write start b.toList).read 0 (start + 16) =
      m.read 0 start ++ b.toList := by
  have ha : a.toList.length = 16 := Vector.length_toList
  have hb : b.toList.length = 16 := Vector.length_toList
  have hsame := (m.write start a.toList).read_write_same start b.toList
  rw [hb] at hsame
  rw [Memory.read_add, Nat.zero_add, hsame, Memory.read_write_disjoint _ (by omega),
    Memory.read_write_disjoint _ (by omega)]

section
variable (hkey : aesKeyLength key.length = true) (hiv : iv.length = 16) {room : ℕ}
  (hroom : cipherText.length ≤ room) (huint : room < 2 ^ 32) (plainText : Memory)
include hkey hiv hroom huint

/-- Each round opens a block with the ciphertext in front of it. -/
theorem cbcDecryptRound_run {k : ℕ} (hk : 16 * k ≤ cipherText.length) :
    ∃ m, (List.range k).foldl (cbcDecryptRound cipherText key iv room) (plainText, 0) =
        (m, 16 * k) ∧
      m.read 0 (16 * k) = Cbc.bytes (Cbc.decrypt (plainBlock key) (padBlock iv)
        (firstBlocks cipherText k)) := by
  induction k with
  | zero => exact ⟨plainText, rfl, rfl⟩
  | succ k ih =>
    obtain ⟨m, hrun, hread⟩ := ih (by omega)
    have hsize : uintSub room (16 * k) = room - 16 * k := uintSub_le (by omega) huint
    have hprevious : ∃ previous : List UInt8, previous.length = 16 ∧
        (if 16 * k = 0 then iv else slice cipherText (16 * k - 16) 16) = previous ∧
        (firstBlocks cipherText k).getLastD (padBlock iv) = padBlock previous := by
      cases k with
      | zero => exact ⟨iv, hiv, rfl, rfl⟩
      | succ k =>
        have hback : 16 * (k + 1) - 16 = 16 * k := by omega
        refine ⟨slice cipherText (16 * k) 16, ?_, ?_, ?_⟩
        · rw [slice, List.length_take, List.length_drop]
          omega
        · rw [if_neg (by omega), hback]
        · rw [firstBlocks_succ, List.getLastD_concat]
    obtain ⟨previous, hlength, hchosen, hlast⟩ := hprevious
    have hopened := rtAesDecrypt_plainBlock hkey (show 16 ≤ room - 16 * k by omega)
      (padBlock (slice cipherText (16 * k) 16))
    rw [firstBlocks_succ, Cbc.decrypt_append, hlast]
    generalize plainBlock key (padBlock (slice cipherText (16 * k) 16)) = block at hopened ⊢
    have hreadBlock := m.read_write_same (16 * k) block.toList
    rw [Vector.length_toList] at hreadBlock
    rw [List.range_succ, List.foldl_append, hrun, List.foldl_cons, List.foldl_nil]
    refine ⟨(m.write (16 * k) block.toList).write (16 * k)
      (xorBlock block (padBlock previous)).toList, ?_, ?_⟩
    · have hstep : cbcDecryptRound cipherText key iv room (m, 16 * k) k =
          ((m.write (16 * k) block.toList).write (16 * k)
            (xorBytes ((m.write (16 * k) block.toList).read (16 * k) 16) previous),
          16 * k + 16) := by
        rw [cbcDecryptRound, hsize, decryptInto_some hopened, hchosen]
      rw [hstep, hreadBlock, xorBytes_toList _ hlength, Nat.mul_succ]
    · rw [Nat.mul_succ, read_overwritten, hread, Cbc.bytes, Cbc.bytes, List.flatMap_append,
        List.flatMap_cons, List.flatMap_nil, List.append_nil]

theorem cbcDecrypt_read (hlen : cipherText.length % 16 = 0) :
    ∃ m, (List.range (cipherText.length / 16)).foldl (cbcDecryptRound cipherText key iv room)
        (plainText, 0) = (m, cipherText.length) ∧
      m.read 0 cipherText.length =
        Cbc.bytes (Cbc.decrypt (plainBlock key) (padBlock iv) (blocksOf cipherText)) := by
  obtain ⟨m, hrun, hread⟩ := cbcDecryptRound_run hkey hiv hroom huint plainText
    (show 16 * (cipherText.length / 16) ≤ cipherText.length by omega)
  have hwhole : 16 * (cipherText.length / 16) = cipherText.length := by omega
  rw [hwhole] at hrun hread
  rw [firstBlocks_all _ hlen] at hread
  exact ⟨m, hrun, hread⟩

end

/-- The block in front of the last one, or the vector. -/
theorem cbcPrevious_take {n : ℕ} (hn : 16 * n ≤ cipherText.length) :
    cbcPrevious iv (cipherText.take (16 * n)) =
      (firstBlocks cipherText n).getLastD (padBlock iv) := by
  cases n with
  | zero => rfl
  | succ n =>
    have hlen : (cipherText.take (16 * (n + 1))).length = 16 * (n + 1) := List.length_take_of_le hn
    have hback : 16 * (n + 1) - 16 = 16 * n := by omega
    have hrest : 16 * (n + 1) - 16 * n = 16 := by omega
    rw [cbcPrevious, hlen, if_neg (by omega), hback, List.drop_take, hrest, firstBlocks_succ,
      List.getLastD_concat]
    rfl

theorem decrypt_lastByte (hpos : 0 < cipherText.length) (hlen : cipherText.length % 16 = 0) :
    (Cbc.bytes (Cbc.decrypt (plainBlock key) (padBlock iv) (blocksOf cipherText))).getD
      (cipherText.length - 1) 0 = lastByte key iv cipherText := by
  obtain ⟨n, hn⟩ : ∃ n, cipherText.length = 16 * (n + 1) :=
    ⟨cipherText.length / 16 - 1, by omega⟩
  have hcount : cipherText.length / 16 = n + 1 := by omega
  have hlast : cipherText.length - 16 = 16 * n := by omega
  have hslice : slice cipherText (16 * n) 16 = cipherText.drop (16 * n) :=
    List.take_of_length_le (by rw [List.length_drop]; omega)
  have hfront : (Cbc.bytes (Cbc.decrypt (plainBlock key) (padBlock iv)
      (firstBlocks cipherText n))).length = 16 * n := by
    rw [Cbc.bytes_length, Cbc.decrypt_length, firstBlocks, List.length_map, List.length_range]
  have hindex : cipherText.length - 1 - 16 * n = 15 := by omega
  rw [← firstBlocks_all _ hlen, hcount, firstBlocks_succ, Cbc.decrypt_append, Cbc.bytes,
    List.flatMap_append, List.flatMap_cons, List.flatMap_nil, List.append_nil]
  rw [← Cbc.bytes, List.getD_append_right _ _ _ _ (by omega), hfront, hindex,
    List.getD_eq_getElem _ _ (by rw [Vector.length_toList]; decide), Vector.getElem_toList,
    lastByte, hlast, cbcPrevious_take (by omega), hslice]

section
variable (hkey : aesKeyLength key.length = true) (hiv : iv.length = 16) {room : ℕ}
  (hroom : cipherText.length ≤ room) (huint : room < 2 ^ 32) (plainText : Memory)
  (hpos : 0 < cipherText.length) (hlen : cipherText.length % 16 = 0)
include hkey hiv hroom huint hpos hlen

/-- The text that the ciphertext opens to, and its length without as many bytes as the last one
says. -/
theorem aesCbcDecrypt_eq :
    (aesCbcDecrypt cipherText key iv plainText room).1.read 0 cipherText.length =
        Cbc.bytes (Cbc.decrypt (plainBlock key) (padBlock iv) (blocksOf cipherText)) ∧
      (aesCbcDecrypt cipherText key iv plainText room).2 =
        uintSub cipherText.length (lastByte key iv cipherText).toNat := by
  obtain ⟨m, hrun, hread⟩ := cbcDecrypt_read hkey hiv hroom huint plainText hlen
  have hlast : m (cipherText.length - 1) = lastByte key iv cipherText := by
    rw [← decrypt_lastByte hpos hlen, ← hread, Memory.read_getD _ (by omega), Nat.zero_add]
  have hresult : aesCbcDecrypt cipherText key iv plainText room =
      (m, uintSub cipherText.length (lastByte key iv cipherText).toNat) := by
    rw [aesCbcDecrypt, if_neg (not_not.mpr hlen), hkey, if_neg (by decide),
      if_neg (not_not.mpr hiv), hrun]
    dsimp only
    rw [uintSub_le hpos (by omega), hlast]
  rw [hresult]
  exact ⟨hread, rfl⟩

theorem length_sound_iff : (aesCbcDecrypt cipherText key iv plainText room).2 ≤ cipherText.length ↔
    (lastByte key iv cipherText).toNat ≤ cipherText.length := by
  have hbyte := (lastByte key iv cipherText).toNat_lt
  rw [(aesCbcDecrypt_eq hkey hiv hroom huint plainText hpos hlen).2]
  rcases Nat.lt_or_ge cipherText.length (lastByte key iv cipherText).toNat with hlt | hge
  · rw [uintSub_gt hlt]
    omega
  · rw [uintSub_le hge (by omega)]
    omega

end
end Decrypt

section RoundTrip
variable {key iv : List UInt8}

theorem padded_comes_back (hkey : aesKeyLength key.length = true) (hiv : iv.length = 16)
    (text : List UInt8) {size room : ℕ} (hsize : (Cbc.pad text).length ≤ size)
    (hroom : (Cbc.pad text).length ≤ room) (huint : room < 2 ^ 32) (plainText : Memory) :
    ∃ cipherText, aesCbcEncrypt text key iv size = some cipherText ∧
      (aesCbcDecrypt cipherText key iv plainText room).2 = text.length ∧
      (aesCbcDecrypt cipherText key iv plainText room).1.read 0 text.length = text := by
  have hpad := Cbc.pad_length text
  have hblocks : (blocksOf (Cbc.pad text)).length = text.length / 16 + 1 := by
    rw [blocksOf, List.length_map, List.length_range, hpad]
    omega
  refine ⟨_, aesCbcEncrypt_eq hkey hiv hsize, ?_⟩
  have hclen : (Cbc.bytes (Cbc.encrypt (cipherBlock key) (padBlock iv)
      (blocksOf (Cbc.pad text)))).length = (Cbc.pad text).length := by
    rw [Cbc.bytes_length, Cbc.encrypt_length, hblocks, hpad]
  have hopened : Cbc.bytes (Cbc.decrypt (plainBlock key) (padBlock iv) (blocksOf (Cbc.bytes
      (Cbc.encrypt (cipherBlock key) (padBlock iv) (blocksOf (Cbc.pad text)))))) =
      Cbc.pad text := by
    rw [Cbc.blocksOf_bytes, Cbc.decrypt_encrypt (plainBlock_cipherBlock hkey),
      Cbc.bytes_blocksOf hpad]
  generalize Cbc.bytes (Cbc.encrypt (cipherBlock key) (padBlock iv) (blocksOf (Cbc.pad text))) =
    cipherText at hclen hopened ⊢
  obtain ⟨hread, hlength⟩ := aesCbcDecrypt_eq hkey hiv (by omega) huint plainText
    (show 0 < cipherText.length by omega) (by omega)
  have hlast := @decrypt_lastByte cipherText key iv (by omega) (by omega)
  rw [hopened] at hread hlast
  rw [hclen, Cbc.pad_last] at hlast
  refine ⟨?_, ?_⟩
  · rw [hlength, ← hlast, hclen, UInt8.toNat_ofNat', Nat.mod_eq_of_lt (by omega),
      uintSub_le (by omega) (by omega)]
    omega
  · have htake := congrArg (List.take text.length) hread
    rw [Cbc.pad, List.take_left] at htake
    have hsub := @Memory.read_take_drop (aesCbcDecrypt cipherText key iv plainText room).1 0 0 _ _
      (show 0 + text.length ≤ cipherText.length by omega)
    rw [List.drop_zero, Nat.zero_add, htake] at hsub
    exact hsub.symm

/-- A text comes back with its length, and the length of any ciphertext's text is sound exactly when
the last byte counts no more than there is. -/
theorem aesCbc_sound_iff (key iv : List UInt8) (plainText : Memory) (room : ℕ)
    (hkey : key.length = 16 ∨ key.length = 24 ∨ key.length = 32) (hiv : iv.length = 16)
    (huint : room < 2 ^ 32) :
    (∀ (text : List UInt8) (size : ℕ), text.length + (16 - text.length % 16) ≤ size →
      text.length + (16 - text.length % 16) ≤ room →
      ∃ cipherText, aesCbcEncrypt text key iv size = some cipherText ∧
        (aesCbcDecrypt cipherText key iv plainText room).2 = text.length ∧
        (aesCbcDecrypt cipherText key iv plainText room).1.read 0 text.length = text) ∧
    ∀ cipherText : List UInt8, 0 < cipherText.length → cipherText.length % 16 = 0 →
      cipherText.length ≤ room →
      ((aesCbcDecrypt cipherText key iv plainText room).2 ≤ cipherText.length ↔
        (lastByte key iv cipherText).toNat ≤ cipherText.length) := by
  have htaken : aesKeyLength key.length = true := by
    rcases hkey with h | h | h <;> rw [h] <;> rfl
  refine ⟨fun text size hsize hroom => ?_, fun cipherText hpos hlen hroom =>
    length_sound_iff htaken hiv hroom huint plainText hpos hlen⟩
  have hpad : (Cbc.pad text).length = text.length + (16 - text.length % 16) := by
    rw [Cbc.pad, List.length_append, List.length_replicate]
  exact padded_comes_back htaken hiv text (by omega) (by omega) huint plainText

end RoundTrip

section Example

/-- A vector of zeroes. -/
def zeroIv : List UInt8 := List.replicate 16 0

def zeroCbcKey : List UInt8 := List.replicate 16 0

def noMemory : Memory := fun _ => 0

theorem aesCbc_sound_byte : ∃ cipherText, aesCbcEncrypt [0x61] zeroCbcKey zeroIv 16 =
      some cipherText ∧ (aesCbcDecrypt cipherText zeroCbcKey zeroIv noMemory 16).2 = 1 ∧
    (aesCbcDecrypt cipherText zeroCbcKey zeroIv noMemory 16).1.read 0 1 = [0x61] :=
  (aesCbc_sound_iff zeroCbcKey zeroIv noMemory 16 (Or.inl rfl) rfl (by decide)).1 [0x61] 16
    (by decide) (by decide)

/-- The ciphertext of 16 bytes of ones. -/
def onesCipher : List UInt8 := (cipherBlock zeroCbcKey (Vector.replicate 16 0xff)).toList

theorem onesCipher_unsound :
    ¬ (aesCbcDecrypt onesCipher zeroCbcKey zeroIv noMemory 16).2 ≤ onesCipher.length := by
  have hlen : onesCipher.length = 16 := Vector.length_toList
  have hlast : lastByte zeroCbcKey zeroIv onesCipher = 0xff := by
    rw [lastByte, hlen, Nat.sub_self, List.drop_zero, List.take_zero, onesCipher,
      Cbc.padBlock_toList, plainBlock_cipherBlock rfl]
    simp [xorBlock, cbcPrevious, padBlock, zeroIv]
  rw [length_sound_iff rfl rfl (by rw [hlen]) (by decide) noMemory (by rw [hlen]; decide)
    (by rw [hlen]), hlast, hlen]
  decide

end Example
end Rt5572
