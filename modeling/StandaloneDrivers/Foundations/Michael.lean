import StandaloneDrivers.Foundations.Bytes

/-! The Michael message integrity code, over the little-endian words of the padded message. -/
namespace Foundations.Michael

def leWord (a b c d : UInt8) : BitVec 32 :=
  d.toBitVec ++ c.toBitVec ++ b.toBitVec ++ a.toBitVec

def leWords : List UInt8 → List (BitVec 32)
  | a :: b :: c :: d :: rest => leWord a b c d :: leWords rest
  | _ => []

/-- The bytes of each half of a word exchanged. -/
def xswap (w : BitVec 32) : BitVec 32 :=
  w.extractLsb' 16 8 ++ w.extractLsb' 24 8 ++ w.extractLsb' 0 8 ++ w.extractLsb' 8 8

/-- The state after one more word. -/
def block (state : BitVec 32 × BitVec 32) (word : BitVec 32) : BitVec 32 × BitVec 32 :=
  let l := state.1 ^^^ word
  let r := state.2 ^^^ l.rotateLeft 17
  let l := l + r
  let r := r ^^^ xswap l
  let l := l + r
  let r := r ^^^ l.rotateLeft 3
  let l := l + r
  let r := r ^^^ l.rotateRight 2
  (l + r, r)

/-- The byte `0x5a` and four to seven zeroes fill the last word. -/
def pad (message : List UInt8) : List UInt8 :=
  message ++ 0x5a :: List.replicate (7 - message.length % 4) 0

def start (key : Vector UInt8 8) : BitVec 32 × BitVec 32 :=
  (leWord key[0] key[1] key[2] key[3], leWord key[4] key[5] key[6] key[7])

def mic (key : Vector UInt8 8) (message : List UInt8) : List UInt8 :=
  let state := (leWords (pad message)).foldl block (start key)
  leBytes state.1 ++ leBytes state.2

example : mic (Vector.replicate 8 0) [] = [0x82, 0x92, 0x5c, 0x1c, 0xa1, 0xd1, 0x30, 0xb8] := by
  decide

theorem pad_length (message : List UInt8) : (pad message).length % 4 = 0 := by
  simp only [pad, List.length_append, List.length_cons, List.length_replicate]
  omega

end Foundations.Michael
