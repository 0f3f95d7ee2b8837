import Mathlib.Logic.Function.Basic
import StandaloneDrivers.Rtl8188eu.Efuse

/-! Writing a packet: the partial-write check, the header in one or two bytes, and the data, each
read back. A fuse is programmed only while it reads `0xFF`. -/
namespace Rtl8188eu.Efuse
open Foundations

def efuseOobProtectBytes88E : ℕ := 18
def efuseMaxSectionBase : ℕ := 16
def efuseRepeatThreshold : ℕ := 3

/-- `TYPE_AVAILABLE_EFUSE_BYTES_BANK`. -/
def availableEfuseBytesBank : ℕ := efuseRealContentLen88E - efuseOobProtectBytes88E

def efuseOneByteWrite (content : Memory) (addr : ℕ) (data : UInt8) : Memory :=
  if addr < efuseRealContentLen88E ∧ content addr = 0xFF then Function.update content addr data
  else content

structure Pgpkt where
  offset : UInt8
  wordEn : UInt8
  data : Memory
  wordCnts : ℕ

namespace DataWrite

structure State where
  content : Memory
  startAddr : ℕ
  badworden : UInt8

def word (wordEn : UInt8) (data : Memory) (s : State) (w : ℕ) : State :=
  if wordEnabled wordEn w then
    let content := efuseOneByteWrite
      (efuseOneByteWrite s.content s.startAddr (data (2 * w))) (s.startAddr + 1) (data (2 * w + 1))
    ⟨content, s.startAddr + 2,
      if data (2 * w) ≠ content s.startAddr ∨ data (2 * w + 1) ≠ content (s.startAddr + 1) then
        s.badworden &&& ~~~bit w
      else s.badworden⟩
  else s

end DataWrite

/-- `Hal_EfuseWordEnableDataWrite`: the content, and a mask that enables the words that did not
read back. -/
def halEfuseWordEnableDataWrite (content : Memory) (efuseAddr : ℕ) (wordEn : UInt8)
    (data : Memory) : Memory × UInt8 :=
  let r := [0, 1, 2, 3].foldl (DataWrite.word wordEn data) ⟨content, efuseAddr, 0x0F⟩
  (r.content, r.badworden)

/-- `Efuse_PgPacketWrite`, as the functions below call it again. -/
abbrev PacketWrite : Type :=
  EfuseState → UInt8 → UInt8 → Memory → Option (Bool × EfuseState)

/-- A return value, the address handed back and the state. -/
structure Outcome where
  ret : Bool
  addr : ℕ
  state : EfuseState

def halEfuseFixHeaderProcess (pgPacketWrite : PacketWrite) (s : EfuseState) (fixPkt : Pgpkt)
    (addr : ℕ) : Option Outcome := do
  let originaldata ← halEfusePgPacketRead s fixPkt.offset fun _ => 0xFF
  if originaldata.2 then
    let w := halEfuseWordEnableDataWrite s.content (addr + 1) fixPkt.wordEn originaldata.1
    let s := { s with content := w.1 }
    if w.2 ≠ 0x0F then
      let success ← pgPacketWrite s fixPkt.offset w.2 originaldata.1
      if success.1 then
        let size ← halEfuseGetCurrentSize success.2
        some ⟨true, size.1, size.2⟩
      else some ⟨false, addr, success.2⟩
    else some ⟨true, addr + fixPkt.wordCnts * 2 + 1, s⟩
  else some ⟨true, addr + fixPkt.wordCnts * 2 + 1, s⟩

/-- The header written again while it reads `0xFF`, and the number of repeats. Where it still
does, the threshold is passed. -/
def retryHeader (efuseAddr : ℕ) (pgHeader : UInt8) : ℕ → Memory → ℕ → Memory × ℕ
  | 0, content, repeatcnt => (content, repeatcnt)
  | n + 1, content, repeatcnt =>
    if content efuseAddr = 0xFF then
      if efuseRepeatThreshold < repeatcnt then (content, repeatcnt + 1)
      else
        retryHeader efuseAddr pgHeader n (efuseOneByteWrite content efuseAddr pgHeader)
          (repeatcnt + 1)
    else (content, repeatcnt)

def writeHeaderByte (content : Memory) (efuseAddr : ℕ) (pgHeader : UInt8) (repeatcnt : ℕ) :
    Memory × ℕ :=
  retryHeader efuseAddr pgHeader (efuseRepeatThreshold + 2)
    (efuseOneByteWrite content efuseAddr pgHeader) repeatcnt

def pgHeader1 (offset wordEn : UInt8) : UInt8 := ((offset <<< 4) &&& 0xF0) ||| wordEn

def pgHeader2 (offset : UInt8) : UInt8 := ((offset &&& 0x07) <<< 5) ||| 0x0F

def pgExtHeader (offset wordEn : UInt8) : UInt8 := ((offset &&& 0x78) <<< 1) ||| wordEn

/-- A packet known by its header. -/
def headerPkt (offset : ℕ) (wordEn : UInt8) : Pgpkt :=
  ⟨UInt8.ofNat offset, wordEn, fun _ => 0xFF, efuseCalculateWordCnts wordEn⟩

/-- The loop over addresses of `hal_EfusePgPacketWrite2ByteHeader`. -/
def halEfusePgPacketWrite2ByteHeader (pgPacketWrite : PacketWrite) (targetPkt : Pgpkt) :
    ℕ → EfuseState → ℕ → ℕ → Option Outcome
  | 0, _, _, _ => none
  | fuel + 1, s, efuseAddr, repeatcnt =>
    if efuseAddr < availableEfuseBytesBank then
      let pgHeader := pgHeader2 targetPkt.offset
      let w := writeHeaderByte s.content efuseAddr pgHeader repeatcnt
      let s := { s with content := w.1 }
      let tmpHeader := w.1 efuseAddr
      if tmpHeader = 0xFF then some ⟨false, efuseAddr, s⟩
      else if tmpHeader = pgHeader then
        let pgExt := pgExtHeader targetPkt.offset targetPkt.wordEn
        let w := writeHeaderByte s.content (efuseAddr + 1) pgExt w.2
        let s := { s with content := w.1 }
        let tmpExt := w.1 (efuseAddr + 1)
        if tmpExt = 0xFF then some ⟨false, efuseAddr, s⟩
        else if allWordsDisabled tmpExt then
          if efuseRepeatThreshold < w.2 then some ⟨false, efuseAddr, s⟩
          else
            halEfusePgPacketWrite2ByteHeader pgPacketWrite targetPkt fuel s (efuseAddr + 2)
              (w.2 + 1)
        else if pgExt ≠ tmpExt then do
          let fix ← halEfuseFixHeaderProcess pgPacketWrite s
            (headerPkt (extOffset pgHeader tmpExt) (tmpExt &&& 0x0F)) (efuseAddr + 1)
          if fix.ret then
            halEfusePgPacketWrite2ByteHeader pgPacketWrite targetPkt fuel fix.state fix.addr w.2
          else some fix
        else some ⟨true, efuseAddr + 1, s⟩
      else if extHeader tmpHeader then
        halEfusePgPacketWrite2ByteHeader pgPacketWrite targetPkt fuel s (efuseAddr + 2) w.2
      else
        -- neither a header nor a wrong one: the loop goes on where it is
        halEfusePgPacketWrite2ByteHeader pgPacketWrite targetPkt fuel s efuseAddr w.2
    else some ⟨false, efuseAddr, s⟩

def halEfusePgPacketWrite1ByteHeader (pgPacketWrite : PacketWrite) (targetPkt : Pgpkt)
    (s : EfuseState) (efuseAddr : ℕ) : Option Outcome :=
  let pgHeader := pgHeader1 targetPkt.offset targetPkt.wordEn
  let w := writeHeaderByte s.content efuseAddr pgHeader 0
  let s := { s with content := w.1 }
  let tmpHeader := w.1 efuseAddr
  if tmpHeader = 0xFF then some ⟨false, efuseAddr, s⟩
  else if pgHeader = tmpHeader then some ⟨true, efuseAddr, s⟩
  else do
    let fix ← halEfuseFixHeaderProcess pgPacketWrite s
      (headerPkt (shortOffset tmpHeader) (tmpHeader &&& 0x0F)) efuseAddr
    some { fix with ret := false }

def halEfusePgPacketWriteHeader (pgPacketWrite : PacketWrite) (fuel : ℕ) (s : EfuseState)
    (efuseAddr : ℕ) (targetPkt : Pgpkt) : Option Outcome :=
  if efuseMaxSectionBase ≤ targetPkt.offset.toNat then
    halEfusePgPacketWrite2ByteHeader pgPacketWrite targetPkt fuel s efuseAddr 0
  else halEfusePgPacketWrite1ByteHeader pgPacketWrite targetPkt s efuseAddr

def halEfusePgPacketWriteData (pgPacketWrite : PacketWrite) (s : EfuseState) (efuseAddr : ℕ)
    (targetPkt : Pgpkt) : Option (Bool × EfuseState) :=
  let w := halEfuseWordEnableDataWrite s.content (efuseAddr + 1) targetPkt.wordEn targetPkt.data
  let s := { s with content := w.1 }
  if w.2 = 0x0F then some (true, s)
  else pgPacketWrite s targetPkt.offset w.2 targetPkt.data

/-- The words both packets enable. -/
def wordEnMatched (targetPkt curPkt : Pgpkt) : UInt8 :=
  [0, 1, 2, 3].foldl (fun m w =>
    if wordEnabled targetPkt.wordEn w && wordEnabled curPkt.wordEn w then m &&& ~~~bit w else m) 0x0F

def halEfuseCheckIfDatafollowed (content : Memory) (wordCnts startAddr : ℕ) : Bool :=
  decide (∃ i < wordCnts * 2, content (startAddr + i) ≠ 0xFF)

/-- What the check hands back: the address and the packet with what is left to write. -/
structure Partial where
  ret : Bool
  startAddr : ℕ
  targetPkt : Pgpkt
  state : EfuseState

/-- The words of `matched` are written. -/
def disableWords (matched wordEn : UInt8) : UInt8 :=
  [0, 1, 2, 3].foldl (fun m w => if wordEnabled matched w then m ||| bit w else m) wordEn

/-- The loop of `hal_EfusePartialWriteCheck`: a packet of the same section whose data are missing
is completed. -/
def partialWriteLoop (pgPacketWrite : PacketWrite) :
    ℕ → EfuseState → ℕ → Pgpkt → Option Partial
  | 0, _, _, _ => none
  | fuel + 1, s, startAddr, targetPkt =>
    if availableEfuseBytesBank ≤ startAddr then some ⟨false, startAddr, targetPkt, s⟩
    else
      let data := s.content startAddr
      if data ≠ 0xFF then
        let ext := s.content (startAddr + 1)
        if extHeader data && allWordsDisabled ext then some ⟨false, startAddr, targetPkt, s⟩
        else
          let curPkt := if extHeader data then headerPkt (extOffset data ext) (ext &&& 0x0F)
            else headerPkt (shortOffset data) (data &&& 0x0F)
          let startAddr := if extHeader data then startAddr + 1 else startAddr
          let matched := wordEnMatched targetPkt curPkt
          if curPkt.offset = targetPkt.offset ∧
              halEfuseCheckIfDatafollowed s.content curPkt.wordCnts (startAddr + 1) = false ∧
              matched ≠ 0x0F then do
            let w := halEfuseWordEnableDataWrite s.content (startAddr + 1) matched targetPkt.data
            let s := { s with content := w.1 }
            let success ← if w.2 ≠ 0x0F then
              pgPacketWrite s targetPkt.offset w.2 targetPkt.data else some (true, s)
            if success.1 then
              let wordEn := disableWords matched targetPkt.wordEn
              partialWriteLoop pgPacketWrite fuel success.2 (startAddr + curPkt.wordCnts * 2 + 1)
                { targetPkt with wordEn := wordEn, wordCnts := efuseCalculateWordCnts wordEn }
            else some ⟨false, startAddr, targetPkt, success.2⟩
          else
            partialWriteLoop pgPacketWrite fuel s (startAddr + curPkt.wordCnts * 2 + 1) targetPkt
      else some ⟨true, startAddr, targetPkt, s⟩

def halEfusePartialWriteCheck (pgPacketWrite : PacketWrite) (s : EfuseState)
    (targetPkt : Pgpkt) : Option Partial :=
  partialWriteLoop pgPacketWrite (availableEfuseBytesBank + 1) s
    (s.efuseUsedBytes % efuseRealContentLen) targetPkt

def halEfusePgCheckAvailableAddr (s : EfuseState) : Option (Bool × EfuseState) := do
  let size ← halEfuseGetCurrentSize s
  some (decide (size.1 < efuseMapLen88E), size.2)

def halEfuseConstructPGPkt (offset wordEn : UInt8) (data : Memory) : Pgpkt :=
  ⟨offset, wordEn, efuseWordEnableDataRead wordEn data fun _ => 0xFF,
    efuseCalculateWordCnts wordEn⟩

/-- `hal_EfusePgPacketWrite_8188e`. The fuel bounds the writes inside one another and the rounds
of the two-byte header's loop. -/
def halEfusePgPacketWrite : ℕ → PacketWrite
  | 0, _, _, _, _ => none
  | fuel + 1, s, offset, wordEn, data => do
    let available ← halEfusePgCheckAvailableAddr s
    if available.1 then
      let check ← halEfusePartialWriteCheck (halEfusePgPacketWrite fuel) available.2
        (halEfuseConstructPGPkt offset wordEn data)
      if check.ret then
        let header ← halEfusePgPacketWriteHeader (halEfusePgPacketWrite fuel) (fuel + 1)
          check.state check.startAddr check.targetPkt
        if header.ret then
          halEfusePgPacketWriteData (halEfusePgPacketWrite fuel) header.state header.addr
            check.targetPkt
        else some (false, header.state)
      else some (false, check.state)
    else some (false, available.2)

end Rtl8188eu.Efuse
