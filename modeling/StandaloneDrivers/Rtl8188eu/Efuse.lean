import StandaloneDrivers.Foundations.Run
import StandaloneDrivers.Foundations.Memory

/-! The efuse: a log of packets, each a header and the words its mask enables, and the three
functions that parse it. Reads of the efuse succeed; the driver's pseudo test is off. -/
namespace Rtl8188eu.Efuse
open Foundations

def efuseRealContentLen : ℕ := 512
def efuseRealContentLen88E : ℕ := 256
def efuseMapLen88E : ℕ := 512
def efuseMaxSection88E : ℕ := 64
def efuseMaxWordUnit : ℕ := 4
def pgpktDataSize : ℕ := 8

def availableEfuseAddr (addr : ℕ) : Bool := decide (addr < efuseRealContentLen)

/-- The fuses, as they read back, and the driver's `HW_VAR_EFUSE_BYTES`. -/
structure EfuseState where
  content : Memory
  efuseUsedBytes : ℕ

def bit (w : ℕ) : UInt8 := UInt8.ofNat (2 ^ w)

/-- A word is enabled where its bit is clear. -/
def wordEnabled (wordEn : UInt8) (w : ℕ) : Bool := wordEn &&& bit w == 0

def extHeader (header : UInt8) : Bool := header &&& 0x1F == 0x0F

def allWordsDisabled (wde : UInt8) : Bool := wde &&& 0x0F == 0x0F

def extOffset (header ext : UInt8) : ℕ :=
  (((header &&& 0xE0) >>> 5) ||| ((ext &&& 0xF0) >>> 1)).toNat

def shortOffset (header : UInt8) : ℕ := ((header >>> 4) &&& 0x0F).toNat

def efuseCalculateWordCnts (wordEn : UInt8) : ℕ :=
  (wordEnabled wordEn 0).toNat + (wordEnabled wordEn 1).toNat +
    (wordEnabled wordEn 2).toNat + (wordEnabled wordEn 3).toNat

/-- The enabled words of one section, both buffers eight bytes long. -/
def efuseWordEnableDataRead (wordEn : UInt8) (sourdata targetdata : Memory) : Memory :=
  fun i => if i < pgpktDataSize ∧ wordEnabled wordEn (i / 2) then sourdata i else targetdata i

namespace Reader

structure State where
  eFuseAddr : ℕ
  rtemp8 : UInt8
  eFuseWord : ℕ → ℕ → UInt16

def setWord (eFuseWord : ℕ → ℕ → UInt16) (i j : ℕ) (v : UInt16) : ℕ → ℕ → UInt16 :=
  fun i' j' => if i' = i ∧ j' = j then v else eFuseWord i' j'

/-- The loop over the words, from word `i` on with `n` words to go. -/
def words (content : Memory) (offset : ℕ) : ℕ → ℕ → UInt8 → State → State
  | 0, _, _, s => s
  | n + 1, i, wren, s =>
    if wren &&& 0x01 = 0 then
      let low := content s.eFuseAddr
      let s : State :=
        ⟨s.eFuseAddr + 1, low, setWord s.eFuseWord offset i low.toUInt16⟩
      if efuseRealContentLen88E ≤ s.eFuseAddr then s
      else
        let high := content s.eFuseAddr
        let s : State :=
          ⟨s.eFuseAddr + 1, high,
            setWord s.eFuseWord offset i (s.eFuseWord offset i ||| (high.toUInt16 <<< 8))⟩
        if efuseRealContentLen88E ≤ s.eFuseAddr then s
        else words content offset n (i + 1) (wren >>> 1) s
    else words content offset n (i + 1) (wren >>> 1) s

def nextHeader (content : Memory) (s : State) : State :=
  let rtemp8 := content s.eFuseAddr
  if rtemp8 ≠ 0xFF ∧ s.eFuseAddr < efuseRealContentLen88E then
    { s with rtemp8 := rtemp8, eFuseAddr := s.eFuseAddr + 1 }
  else { s with rtemp8 := rtemp8 }

def sectionData (content : Memory) (offset : ℕ) (wren : UInt8) (s : State) : State :=
  nextHeader content
    (if offset < efuseMaxSection88E then words content offset efuseMaxWordUnit 0 wren s else s)

def more (s : State) : Bool := s.rtemp8 != 0xFF && decide (s.eFuseAddr < efuseRealContentLen88E)

def round (content : Memory) (s : State) : State :=
  if extHeader s.rtemp8 then
    let ext := content s.eFuseAddr
    if allWordsDisabled ext then
      nextHeader content { s with rtemp8 := ext, eFuseAddr := s.eFuseAddr + 1 }
    else
      sectionData content (extOffset s.rtemp8 ext) (ext &&& 0x0F)
        { s with rtemp8 := ext, eFuseAddr := s.eFuseAddr + 1 }
  else sectionData content (shortOffset s.rtemp8) (s.rtemp8 &&& 0x0F) s

def byteOf (word : UInt16) (half : ℕ) : UInt8 :=
  if half = 0 then (word &&& 0xFF).toUInt8 else ((word >>> 8) &&& 0xFF).toUInt8

def efuseTbl (eFuseWord : ℕ → ℕ → UInt16) : Memory :=
  fun i => byteOf (eFuseWord (i / 8) (i % 8 / 2)) (i % 2)

end Reader

/-- `Hal_EfuseReadEFuse88E`: the buffer and the state after it. An empty efuse leaves both. -/
def halEfuseReadEFuse88E (s : EfuseState) (offset sizeByte : ℕ) (pbuf : Memory) :
    Option (Memory × EfuseState) :=
  if efuseMapLen88E < offset + sizeByte then some (pbuf, s)
  else if s.content 0 = 0xFF then some (pbuf, s)
  else do
    let r ← loop Reader.more (Reader.round s.content) efuseRealContentLen88E
      ⟨1, s.content 0, fun _ _ => 0xFFFF⟩
    some (fun i => if i < sizeByte then Reader.efuseTbl r.eFuseWord (offset + i) else pbuf i,
      { s with efuseUsedBytes := r.eFuseAddr })

namespace CurrentSize

structure State where
  bContinual : Bool
  efuseAddr : ℕ

def more (s : State) : Bool := s.bContinual && availableEfuseAddr s.efuseAddr

def round (content : Memory) (s : State) : State :=
  let data := content s.efuseAddr
  if data ≠ 0xFF then
    if extHeader data then
      let ext := content (s.efuseAddr + 1)
      if allWordsDisabled ext then { s with efuseAddr := s.efuseAddr + 1 + 1 }
      else
        { s with efuseAddr := s.efuseAddr + 1 + efuseCalculateWordCnts (ext &&& 0x0F) * 2 + 1 }
    else { s with efuseAddr := s.efuseAddr + efuseCalculateWordCnts (data &&& 0x0F) * 2 + 1 }
  else { s with bContinual := false }

end CurrentSize

def halEfuseGetCurrentSize (s : EfuseState) : Option (ℕ × EfuseState) := do
  let r ← loop CurrentSize.more (CurrentSize.round s.content) (efuseRealContentLen + 1)
    ⟨true, s.efuseUsedBytes⟩
  some (r.efuseAddr, { s with efuseUsedBytes := r.efuseAddr })

namespace PgRead

inductive ReadState
  | header
  | data

structure State where
  readState : ReadState
  bContinual : Bool
  efuseAddr : ℕ
  hworden : UInt8
  wordCnts : ℕ
  tmpdata : Memory
  data : Memory

def more (s : State) : Bool := s.bContinual && availableEfuseAddr s.efuseAddr

/-- Behind the header whose last byte is at `efuseAddr`. -/
def matching (content : Memory) (offset hoffset : ℕ) (hworden : UInt8) (efuseAddr : ℕ)
    (s : State) : State :=
  let wordCnts := efuseCalculateWordCnts hworden
  let s := { s with hworden := hworden, wordCnts := wordCnts, efuseAddr := efuseAddr }
  if hoffset = offset then
    let s := { s with
      tmpdata := fun i => if i < wordCnts * 2 then content (efuseAddr + 1 + i) else s.tmpdata i }
    if ∃ i < wordCnts * 2, content (efuseAddr + 1 + i) ≠ 0xFF then
      { s with readState := ReadState.data }
    else { s with efuseAddr := efuseAddr + wordCnts * 2 + 1, readState := ReadState.header }
  else { s with efuseAddr := efuseAddr + wordCnts * 2 + 1, readState := ReadState.header }

def round (content : Memory) (offset : ℕ) (s : State) : State :=
  match s.readState with
  | ReadState.header =>
    let data := content s.efuseAddr
    if data ≠ 0xFF then
      if extHeader data then
        let ext := content (s.efuseAddr + 1)
        if allWordsDisabled ext then { s with efuseAddr := s.efuseAddr + 1 + 1 }
        else
          matching content offset (extOffset data ext) (ext &&& 0x0F) (s.efuseAddr + 1) s
      else matching content offset (shortOffset data) (data &&& 0x0F) s.efuseAddr s
    else { s with bContinual := false }
  | ReadState.data =>
    { s with
      data := efuseWordEnableDataRead s.hworden s.tmpdata s.data
      efuseAddr := s.efuseAddr + s.wordCnts * 2 + 1
      readState := ReadState.header }

end PgRead

/-- `hal_EfusePgPacketRead_8188e`: the caller's eight bytes, and whether one is programmed. -/
def halEfusePgPacketRead (s : EfuseState) (offset : UInt8) (data : Memory) :
    Option (Memory × Bool) :=
  if efuseMaxSection88E < offset.toNat then some (data, false)
  else do
    let r ← loop PgRead.more (PgRead.round s.content offset.toNat) (2 * efuseRealContentLen + 1)
      { readState := PgRead.ReadState.header
        bContinual := true
        efuseAddr := 0
        hworden := 0
        wordCnts := 0
        tmpdata := fun _ => 0xFF
        data := fun i => if i < pgpktDataSize then 0xFF else data i }
    some (r.data, decide (∃ i < pgpktDataSize, r.data i ≠ 0xFF))

end Rtl8188eu.Efuse
