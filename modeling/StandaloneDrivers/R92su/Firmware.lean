import StandaloneDrivers.Foundations.Memory

/-! The firmware image: the checks on its header, and the upload of its regions in blocks
(fw.c). -/
namespace R92su
open Foundations

/-- `RT_8192S_FIRMWARE_HDR_SIZE` -/
def firmwareHdrSize : ℕ := 80

/-- `RTL8192_MAX_FIRMWARE_CODE_SIZE` -/
def maxFirmwareCodeSize : ℕ := 64 * 1024

/-- `RTL8192_MAX_RAW_FIRMWARE_CODE_SIZE` -/
def maxRawFirmwareCodeSize : ℕ := 200000

/-- `sizeof(struct fw_priv)` -/
def sizeofFwPriv : ℕ := 48

/-- `struct firmware`; bytes of `data` behind `size` belong to others. -/
structure Firmware where
  data : Memory
  size : ℕ

namespace Firmware
variable (fw : Firmware)

def signature : ℕ := fw.data.le16 0

def dmemSize : ℕ := fw.data.le32 4

def imgImemSize : ℕ := fw.data.le32 8

def imgSramSize : ℕ := fw.data.le32 12

end Firmware

inductive FirmwareError where
  | tooBig
  | signature
  | imemSize
  | sramSize
  | dmemSize
  deriving DecidableEq, Repr

/-- `fw_imem` and `fw_sram` with their lengths. -/
structure FirmwareRegions where
  imem : Span
  sram : Span
  deriving DecidableEq, Repr

def parseFirmware (fw : Firmware) : Except FirmwareError FirmwareRegions :=
  if fw.size > maxRawFirmwareCodeSize then .error .tooBig
  else if fw.signature ≠ 0x8192 ∧ fw.signature ≠ 0x8712 then .error .signature
  else if fw.imgImemSize = 0 ∨ fw.imgImemSize ≥ maxFirmwareCodeSize then .error .imemSize
  else if fw.imgSramSize = 0 ∨ fw.imgSramSize ≥ maxFirmwareCodeSize then .error .sramSize
  else if fw.dmemSize ≠ sizeofFwPriv then .error .dmemSize
  else .ok ⟨⟨firmwareHdrSize, fw.imgImemSize⟩, ⟨firmwareHdrSize + fw.imgImemSize, fw.imgSramSize⟩⟩

/-- One transfer of the upload: `PKT_SIZE` and `LINIP` of its descriptor, and what follows it. -/
structure FirmwareBlock where
  pktSize : ℕ
  linip : Bool
  data : List UInt8
  deriving DecidableEq, Repr

/-- `block_size` -/
def firmwareBlockSize : ℕ := 2048

/-- The rounds of `r92su_upload_firmware_part` from `done` bytes on: the blocks that were sent,
and whether the upload came to its end. `send` tells whether a round gets its buffer and the
submission accepts it. -/
def uploadFirmwarePart (data : Memory) (region : Span) (send : ℕ → Bool) (done : ℕ) :
    List FirmwareBlock × Bool :=
  let currentBlock := min firmwareBlockSize (region.count - done)
  let block : FirmwareBlock :=
    ⟨currentBlock, region.count == done + currentBlock, data.read (region.start + done) currentBlock⟩
  if send done then
    if done + currentBlock < region.count then
      let rest := uploadFirmwarePart data region send (done + currentBlock)
      (block :: rest.1, rest.2)
    else ([block], true)
  else ([], false)
  termination_by region.count - done
  decreasing_by
    simp only [firmwareBlockSize] at *
    omega

/-- What an upload sends of `bytes`: blocks of at most 2048 bytes, marked at the last one, and all
of `bytes` when it comes to its end. -/
structure Uploads (bytes : List UInt8) (r : List FirmwareBlock × Bool) : Prop where
  sizes : ∀ block ∈ r.1, block.data.length ≤ firmwareBlockSize ∧
    block.pktSize = block.data.length
  sent : ∃ left, r.1.flatMap FirmwareBlock.data ++ left = bytes
  whole : r.2 = true → r.1.flatMap FirmwareBlock.data = bytes ∧
    ∃ init last, r.1 = init ++ [last] ∧ last.linip = true ∧ ∀ block ∈ init, block.linip = false
  unmarked : r.2 = false → ∀ block ∈ r.1, block.linip = false

/-- A block in front that is not the last. -/
theorem Uploads.cons {bytes : List UInt8} {r : List FirmwareBlock × Bool} (h : Uploads bytes r)
    {block : FirmwareBlock} (hlen : block.data.length ≤ firmwareBlockSize)
    (hsize : block.pktSize = block.data.length) (hlinip : block.linip = false) :
    Uploads (block.data ++ bytes) (block :: r.1, r.2) where
  sizes := List.forall_mem_cons.mpr ⟨⟨hlen, hsize⟩, h.sizes⟩
  sent := by
    obtain ⟨left, hleft⟩ := h.sent
    exact ⟨left, by rw [List.flatMap_cons, List.append_assoc, hleft]⟩
  whole := by
    intro hend
    obtain ⟨hbytes, init, last, hr, hlast, hinit⟩ := h.whole hend
    constructor
    · rw [List.flatMap_cons, hbytes]
    · exact ⟨block :: init, last, by rw [hr, List.cons_append], hlast,
        List.forall_mem_cons.mpr ⟨hlinip, hinit⟩⟩
  unmarked := fun hend => List.forall_mem_cons.mpr ⟨hlinip, h.unmarked hend⟩

theorem uploadFirmwarePart_uploads (data : Memory) (region : Span) (send : ℕ → Bool) (done : ℕ)
    (h : done ≤ region.count) :
    Uploads (data.read (region.start + done) (region.count - done))
      (uploadFirmwarePart data region send done) := by
  fun_induction uploadFirmwarePart data region send done with
  | case1 done currentBlock block hsend hmore rest ih =>
    have hlen : block.data.length = currentBlock := Memory.read_length data _ _
    have hmark : block.linip = false := beq_eq_false_iff_ne.mpr (by omega)
    have hsplit : region.count - done = currentBlock + (region.count - (done + currentBlock)) := by
      omega
    rw [hsplit, Memory.read_add, Nat.add_assoc region.start]
    exact (ih (by omega)).cons (by rw [hlen]; exact Nat.min_le_left _ _) hlen.symm hmark
  | case2 done currentBlock block hsend hlast =>
    have hcurrent : currentBlock = region.count - done := by
      have hle : currentBlock ≤ region.count - done := Nat.min_le_right _ _
      omega
    have hdata : block.data = data.read (region.start + done) (region.count - done) := by
      rw [← hcurrent]
    have hmark : block.linip = true := beq_iff_eq.mpr (by omega)
    have hlen : block.data.length = currentBlock := Memory.read_length data _ _
    constructor
    · rw [List.forall_mem_singleton, hlen]
      exact ⟨Nat.min_le_left _ _, rfl⟩
    · exact ⟨[], by rw [List.append_nil, List.flatMap_singleton, hdata]⟩
    · intro _
      exact ⟨by rw [List.flatMap_singleton, hdata], [], block, rfl, hmark, by simp⟩
    · exact nofun
  | case3 done currentBlock =>
    constructor
    · exact fun block hblock => absurd hblock List.not_mem_nil
    · exact ⟨_, rfl⟩
    · exact nofun
    · exact fun _ block hblock => absurd hblock List.not_mem_nil

/-- The uploads of both regions of an image, for any outcome of the submissions. -/
def RegionsUploaded (fw : Firmware) (regions : FirmwareRegions) : Prop :=
  ∀ send region, region = regions.imem ∨ region = regions.sram →
    Uploads (fw.data.read region.start region.count) (uploadFirmwarePart fw.data region send 0)

/-- The header and both regions lie in the image, and the uploads send the regions. -/
structure ImageSafe (fw : Firmware) (regions : FirmwareRegions) : Prop where
  header : (⟨0, firmwareHdrSize⟩ : Span).Inside fw.size
  imem : regions.imem.Inside fw.size
  sram : regions.sram.Inside fw.size
  uploaded : RegionsUploaded fw regions

theorem parseFirmware_ok {fw : Firmware} {regions : FirmwareRegions}
    (h : parseFirmware fw = .ok regions) :
    regions = ⟨⟨firmwareHdrSize, fw.imgImemSize⟩,
      ⟨firmwareHdrSize + fw.imgImemSize, fw.imgSramSize⟩⟩ := by
  unfold parseFirmware at h
  split_ifs at h
  exact (Except.ok.inj h).symm

/-- The checks of the parser bound the regions one by one; an image that is accepted is safe when
it is as long as the header and both regions together. -/
theorem imageSafe_iff (fw : Firmware) (regions : FirmwareRegions)
    (h : parseFirmware fw = .ok regions) :
    ImageSafe fw regions ↔ firmwareHdrSize + fw.imgImemSize + fw.imgSramSize ≤ fw.size := by
  have hregions := parseFirmware_ok h
  subst hregions
  constructor
  · exact fun hsafe => hsafe.sram
  · intro hsize
    constructor
    · exact Nat.le_trans (by rw [Nat.zero_add, Nat.add_assoc]; exact Nat.le_add_right _ _) hsize
    · exact Nat.le_trans (Nat.le_add_right _ _) hsize
    · exact hsize
    · intro send region _
      exact uploadFirmwarePart_uploads fw.data region send 0 (Nat.zero_le _)

section Example

/-- The header of an image with a region of 4096 bytes and one of 8192, and nothing behind it. -/
def cutFirmware : Firmware where
  data :=
    let header := Memory.write (fun _ => 0) 0 [0x12, 0x87]
    let header := header.write 4 (Memory.le32Bytes sizeofFwPriv)
    (header.write 8 (Memory.le32Bytes 4096)).write 12 (Memory.le32Bytes 8192)
  size := firmwareHdrSize

def cutRegions : FirmwareRegions := ⟨⟨80, 4096⟩, ⟨4176, 8192⟩⟩

theorem cutFirmware_ok : parseFirmware cutFirmware = .ok cutRegions := by
  decide

/-- The image is accepted, and its second region lies behind its end. -/
theorem cutFirmware_unsafe :
    parseFirmware cutFirmware = .ok cutRegions ∧ ¬ ImageSafe cutFirmware cutRegions :=
  ⟨cutFirmware_ok, fun h => absurd h.sram (by decide)⟩

theorem cutFirmware_safe_iff : ImageSafe cutFirmware cutRegions ↔
    firmwareHdrSize + cutFirmware.imgImemSize + cutFirmware.imgSramSize ≤ cutFirmware.size :=
  imageSafe_iff cutFirmware cutRegions cutFirmware_ok

end Example

end R92su
