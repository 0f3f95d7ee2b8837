import StandaloneDrivers.R92su.Station
import StandaloneDrivers.R92su.Decryption

/-! Key objects as sta.c makes them, and the IV that tx.c writes behind the header of a frame. -/
namespace R92su

/-- The cipher suites `r92su_key_alloc` tells apart. -/
inductive CipherSuite where
  | wep40
  | wep104
  | tkip
  | ccmp
  | other (suite : ℕ)
  deriving DecidableEq, Repr

/-- `struct r92su_key`. `txSeq` is `wep.seq` with 24 bits, `tkip.tx_seq` or `ccmp.tx_seq` with
48 bits. -/
structure KeyObject extends Key where
  macAddr : MacAddr
  keyLen : ℕ
  pairwise : Bool
  index : ℕ
  txSeq : ℕ
  deriving DecidableEq, Repr

inductive Errno where
  | enomem
  | einval
  deriving DecidableEq, Repr

/-- `allocated` says whether `kzalloc` finds memory, `random` is what `get_random_wep_seq`
yields. -/
def keyAlloc (cipher : CipherSuite) (idx : UInt8) (macAddr : Option MacAddr) (pairwise : Bool)
    (key : List UInt8) (allocated : Bool) (random : UInt32) : Except Errno KeyObject :=
  let newKey (type : EncAlg) (keyLen txSeq rxSeq : ℕ) : KeyObject :=
    { type, rxSeq, material := key.take keyLen, macAddr := macAddr.getD 0, keyLen, pairwise,
      index := idx.toNat, txSeq }
  if !allocated then .error .enomem
  else match cipher with
    | .wep40 => .ok (newKey .wep40 5 (random.toNat % 2 ^ 24) 0)
    | .wep104 => .ok (newKey .wep104 13 (random.toNat % 2 ^ 24) 0)
    | .tkip => .ok (newKey .tkip 32 1 1)
    | .ccmp => .ok (newKey .aesccmp 16 0 0)
    | .other _ => .error .einval

/-- The counter after the filter for weak WEP IVs. -/
def wepFiltered (key : KeyObject) : ℕ :=
  let b := (key.txSeq >>> 16) &&& 0xff
  if key.txSeq &&& 0xff00 == 0xff00 && 3 ≤ b && b < 3 + key.keyLen then
    (key.txSeq + 0x0100) % 2 ^ 24
  else key.txSeq

/-- A frame of the transmit path: the bytes hold a whole header. -/
structure TxFrame where
  data : List UInt8
  whole : hdrlen (le16 data 0) ≤ data.length

inductive TxControl where
  | txContinue
  | txDrop
  deriving DecidableEq, Repr

/-- Byte `i` of a counter. -/
def seqByte (seq i : ℕ) : UInt8 := UInt8.ofNat (seq >>> (8 * i))

/-- Key identifier and extended IV bit. -/
def keyIdByte (key : KeyObject) : UInt8 := UInt8.ofNat (key.index <<< 6 ||| 0x20)

/-- The header is moved down in front of the IV. -/
def withIv (data iv : List UInt8) : List UInt8 :=
  data.take (hdrlen (le16 data 0)) ++ iv ++ data.drop (hdrlen (le16 data 0))

/-- `r92su_tx_add_iv` for a frame with a key. -/
def txAddIv (key : KeyObject) (skb : TxFrame) : TxControl × KeyObject × List UInt8 :=
  let seq := key.txSeq
  match key.type with
  | .wep40 | .wep104 =>
      let seq := wepFiltered key
      (.txContinue, { key with txSeq := (seq + 1) % 2 ^ 24 },
        withIv skb.data [seqByte seq 2, seqByte seq 1, seqByte seq 0, UInt8.ofNat key.index])
  | .tkip =>
      (.txContinue, { key with txSeq := (seq + 1) % 2 ^ 48 },
        withIv skb.data [seqByte seq 1, (seqByte seq 1 ||| 0x20) &&& 0x7f, seqByte seq 0,
          keyIdByte key, seqByte seq 2, seqByte seq 3, seqByte seq 4, seqByte seq 5])
  | .aesccmp =>
      (.txContinue, { key with txSeq := (seq + 1) % 2 ^ 48 },
        withIv skb.data [seqByte seq 0, seqByte seq 1, 0, keyIdByte key, seqByte seq 2,
          seqByte seq 3, seqByte seq 4, seqByte seq 5])
  | _ => (.txDrop, key, skb.data)

end R92su
