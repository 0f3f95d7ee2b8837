import StandaloneDrivers.Foundations.Crc32
import StandaloneDrivers.Rtl8188eu.Decryptor
import StandaloneDrivers.Rtl8188eu.Xmit

/-! What `rtw_tkip_decrypt` makes of the frames of `rtw_tkip_encrypt` and of others: the payload
and its CRC-32, unless a frame is too short to have one. -/
namespace Rtl8188eu
open Foundations

section Crc

theorem crc32Table_toBitVec (i : UInt8) :
    (crc32Table i).toBitVec = Crc32.shift^[8] (Crc32.ofByte i) := by
  apply byte_cases (p := fun i => (crc32Table i).toBitVec = Crc32.shift^[8] (Crc32.ofByte i))
  decide +kernel

theorem crc32Byte_toBitVec (crc : UInt32) (p : UInt8) {reg : BitVec 32}
    (h : crc.toBitVec = reg.reverse) :
    (crc32Byte crc p).toBitVec = ((Crc32.byteBits p).foldl Crc32.step reg).reverse := by
  have hindex : (crc ^^^ p.toUInt32).toUInt8 = Crc32.lowByte (reg.reverse ^^^ Crc32.ofByte p) := by
    rw [← h]
    rfl
  rw [crc32Byte, hindex, UInt32.toBitVec_xor, crc32Table_toBitVec, Crc32.reverse_byte, ← h]
  rfl

theorem crc32Bytes_toBitVec (buf : List UInt8) (crc : UInt32) {reg : BitVec 32}
    (h : crc.toBitVec = reg.reverse) : (buf.foldl crc32Byte crc).toBitVec =
      ((buf.flatMap Crc32.byteBits).foldl Crc32.step reg).reverse := by
  induction buf generalizing crc reg with
  | nil => exact h
  | cons p buf ih =>
    rw [List.foldl_cons, ih _ (crc32Byte_toBitVec crc p h), List.flatMap_cons, List.foldl_append]

/-- The table gives the CRC that is defined bit by bit. -/
theorem getcrc32_eq (buf : List UInt8) : getcrc32 buf = Crc32.crc32 buf := by
  have hstart : (0xffffffff : UInt32).toBitVec = (BitVec.allOnes 32).reverse := by decide +kernel
  have hnot (a : BitVec 32) : ~~~a.reverse = (~~~a).reverse := by
    ext i hi
    simp [BitVec.getElem_reverse, BitVec.getMsbD_not, hi]
  rw [getcrc32, leBytes_eq_map, UInt32.toBitVec_not, crc32Bytes_toBitVec buf _ hstart, hnot]
  rfl

end Crc

/-- What RC4 adds to `n` bytes. -/
def arcfourStream (rc4key : List UInt8) (n : ℕ) : List UInt8 :=
  (arcfourEncrypt (arcfourInit rc4key) (List.replicate n 0)).1

theorem arcfourEncrypt_twice (ctx : Arc4Context) (src : List UInt8) :
    (arcfourEncrypt ctx (arcfourEncrypt ctx src).1).1 = src := by
  induction src generalizing ctx with
  | nil => rfl
  | cons b src ih =>
    simp only [arcfourEncrypt, ih, UInt8.xor_assoc, UInt8.xor_self, UInt8.xor_zero]

/-- What was sealed is opened with the same key. -/
theorem arcfourSeal_open (rc4key payload : List UInt8) :
    (arcfourEncrypt (arcfourInit rc4key) (arcfourSeal rc4key payload)).1 =
      payload ++ getcrc32 payload := arcfourEncrypt_twice _ _

/-- Bytes that are zero once they are decrypted are those of the stream. -/
theorem arcfourEncrypt_zero_iff (rc4key src : List UInt8) :
    (arcfourEncrypt (arcfourInit rc4key) src).1 = List.replicate src.length 0 ↔
      src = arcfourStream rc4key src.length := by
  constructor
  · intro h
    rw [arcfourStream, ← h, arcfourEncrypt_twice]
  · intro h
    have htwice := arcfourEncrypt_twice (arcfourInit rc4key) (List.replicate src.length 0)
    rw [arcfourStream] at h
    rwa [← h] at htwice

namespace RecvFrame
variable (f : RecvFrame)

/-- The bytes behind the IV. -/
def behindIv : List UInt8 := slice f.mem f.attrib.payload (f.len - f.attrib.payload)

variable {f}

theorem behindIv_length : f.behindIv.length = f.len - f.attrib.payload := by
  have := f.fits
  simp only [behindIv, slice, List.length_take, List.length_drop]
  omega

theorem arcfourOpen_behindIv (rc4key : List UInt8) (h : f.attrib.payload ≤ f.len) :
    (f.arcfourOpen rc4key).behindIv = (arcfourEncrypt (arcfourInit rc4key) f.behindIv).1 := by
  have hfits := f.fits
  generalize hopened : (arcfourEncrypt (arcfourInit rc4key) f.behindIv).1 = opened
  have hlen : opened.length = f.len - f.attrib.payload := by
    rw [← hopened, arcfourEncrypt_length, behindIv_length]
  have hsame : slice (overwrite f.mem f.attrib.payload opened) f.attrib.payload opened.length =
      opened := slice_overwrite_same (by omega)
  rw [hlen, ← hopened] at hsame
  rw [← hopened]
  exact hsame

/-- With room for an ICV the comparison is that of the last four bytes. -/
theorem crcOk_long (h : f.attrib.payload + 4 ≤ f.len) :
    f.crcOk = true ↔ ∃ payload, f.behindIv = payload ++ getcrc32 payload := by
  have hfits := f.fits
  have hsplit : f.behindIv = slice f.mem f.attrib.payload (f.len - f.attrib.payload - 4) ++
      slice f.mem (f.len - 4) 4 := by
    rw [behindIv, show f.len - f.attrib.payload = f.len - f.attrib.payload - 4 + 4 by omega,
      slice_add, show f.attrib.payload + (f.len - f.attrib.payload - 4) = f.len - 4 by omega,
      Nat.add_sub_cancel]
  have hlen : (slice f.mem f.attrib.payload (f.len - f.attrib.payload - 4)).length =
      f.len - f.attrib.payload - 4 := by
    simp only [slice, List.length_take, List.length_drop]
    omega
  rw [crcOk, beq_iff_eq]
  constructor
  · intro hcrc
    exact ⟨_, by rw [hsplit, hcrc]⟩
  · rintro ⟨payload, hbody⟩
    have hcount := congrArg List.length hbody
    rw [List.length_append, getcrc32_length, behindIv_length] at hcount
    rw [hsplit] at hbody
    obtain ⟨hpayload, hicv⟩ := List.append_inj hbody (by omega)
    rw [hpayload, hicv]

/-- A frame too short for an ICV that ends with zero bytes of its IV and then with bytes of the
stream. -/
structure MissingIcv (f : RecvFrame) (rc4key : List UInt8) : Prop where
  inside : f.attrib.payload ≤ f.len
  short : f.len < f.attrib.payload + 4
  bytes : slice f.mem (f.len - 4) (f.attrib.payload + 4 - f.len) =
    List.replicate (f.attrib.payload + 4 - f.len) 0
  stream : f.behindIv = arcfourStream rc4key (f.len - f.attrib.payload)

theorem crcOk_short {rc4key : List UInt8} (h4 : 4 ≤ f.attrib.payload)
    (h : f.attrib.payload ≤ f.len) (hshort : f.len < f.attrib.payload + 4) :
    (f.arcfourOpen rc4key).crcOk = true ↔ f.MissingIcv rc4key := by
  have hfits := f.fits
  have hbody := arcfourOpen_behindIv rc4key h
  have hbefore : slice (f.arcfourOpen rc4key).mem (f.len - 4) (f.attrib.payload + 4 - f.len) =
      slice f.mem (f.len - 4) (f.attrib.payload + 4 - f.len) := by
    apply slice_overwrite_before
    · omega
    · rw [arcfourEncrypt_length]
      have := behindIv_length (f := f)
      simp only [behindIv] at this
      omega
  have hend : slice (f.arcfourOpen rc4key).mem (f.len - 4) 4 =
      slice f.mem (f.len - 4) (f.attrib.payload + 4 - f.len) ++
        (f.arcfourOpen rc4key).behindIv := by
    have hadd := slice_add (f.arcfourOpen rc4key).mem (f.len - 4) (f.attrib.payload + 4 - f.len)
      (f.len - f.attrib.payload)
    rw [hbefore, show f.attrib.payload + 4 - f.len + (f.len - f.attrib.payload) = 4 by omega,
      show f.len - 4 + (f.attrib.payload + 4 - f.len) = f.attrib.payload by omega] at hadd
    exact hadd
  have hzero := arcfourEncrypt_zero_iff rc4key f.behindIv
  have hcrc : getcrc32 [] =
      List.replicate (f.attrib.payload + 4 - f.len) 0 ++ List.replicate f.behindIv.length 0 := by
    rw [← List.replicate_add, behindIv_length,
      show f.attrib.payload + 4 - f.len + (f.len - f.attrib.payload) = 4 by omega]
    rfl
  have hempty : slice (f.arcfourOpen rc4key).mem f.attrib.payload
      (f.len - f.attrib.payload - 4) = [] := by
    rw [show f.len - f.attrib.payload - 4 = 0 by omega]
    rfl
  have hlen : (slice f.mem (f.len - 4) (f.attrib.payload + 4 - f.len)).length =
      (List.replicate (f.attrib.payload + 4 - f.len) (0 : UInt8)).length := by
    simp only [slice, List.length_take, List.length_drop, List.length_replicate]
    omega
  have hcrcOk : (f.arcfourOpen rc4key).crcOk = true ↔
      getcrc32 [] = slice (f.arcfourOpen rc4key).mem (f.len - 4) 4 := by
    rw [crcOk, beq_iff_eq, ← hempty]
    rfl
  rw [hcrcOk, hend, hbody, hcrc]
  rw [behindIv_length] at hzero
  constructor
  · intro heq
    obtain ⟨hiv, hstream⟩ := List.append_inj heq.symm hlen
    rw [behindIv_length] at hstream
    exact ⟨h, hshort, hiv, hzero.mp hstream⟩
  · intro hmissing
    rw [hmissing.bytes, behindIv_length, hzero.mpr hmissing.stream]

end RecvFrame

section Frames
variable (sec : SecurityPriv) (stapriv : StaPriv)

/-- `rtw_tkip_decrypt` of a frame of any length: over a negative one the cipher runs past every
buffer, and the call does not return. -/
def rtwTkipDecryptRun (f : RecvFrame) : Option (Status × RecvFrame) :=
  if (rxUncstKey sec stapriv f.attrib).isSome ∧ f.len < f.attrib.payload then none
  else some (rtwTkipDecrypt sec stapriv f)

/-- A success says that the decrypted bytes end with the CRC-32 of the ones before. -/
def IcvChecked (f : RecvFrame) : Prop :=
  ∀ g, rtwTkipDecryptRun sec stapriv f = some (.success, g) →
    ∃ payload, g.behindIv = payload ++ Crc32.crc32 payload

variable {sec stapriv} {f : RecvFrame}

theorem rtwTkipDecryptRun_success {g : RecvFrame} :
    rtwTkipDecryptRun sec stapriv f = some (.success, g) ↔
      ∃ prwskey, rxUncstKey sec stapriv f.attrib = some prwskey ∧ f.attrib.payload ≤ f.len ∧
        g = f.arcfourOpen (tkipRc4key prwskey f.attrib.ta f.iv) ∧ g.crcOk = true := by
  unfold rtwTkipDecryptRun rtwTkipDecrypt
  cases hkey : rxUncstKey sec stapriv f.attrib with
  | none => simp
  | some prwskey =>
    generalize f.arcfourOpen (tkipRc4key prwskey f.attrib.ta f.iv) = opened
    by_cases hlen : f.len < f.attrib.payload
    · simp [hlen, Nat.not_le.mpr hlen]
    · have hle : f.attrib.payload ≤ f.len := Nat.not_lt.mp hlen
      simp only [hlen, and_false, if_false, Option.some.injEq, Prod.mk.injEq, exists_eq_left',
        hle, true_and]
      constructor
      · rintro ⟨hstatus, rfl⟩
        refine ⟨rfl, ?_⟩
        by_contra hcrc
        rw [if_neg hcrc] at hstatus
        cases hstatus
      · rintro ⟨rfl, hcrc⟩
        exact ⟨if_pos hcrc, rfl⟩

/-- A single fragment is encrypted where it stands. -/
theorem rtwTkipEncrypt_one {x : XmitFrame} {c : Coalesced} {stainfo : StaInfo} {len : ℕ}
    (hsta : x.stainfo = some stainfo) (hone : c.nrFrags = 1)
    (hsize : c.lastTxcmdsz = x.attrib.payload + len + x.attrib.icvLen) :
    (x.rtwTkipEncrypt c).1 = c.mem.write (x.hwHdrOffset + x.attrib.payload)
      (arcfourSeal (tkipRc4key (x.prwskey stainfo) x.attrib.ta
        (c.mem.read (x.hwHdrOffset + x.attrib.hdrlen) 8))
        (c.mem.read (x.hwHdrOffset + x.attrib.payload) len)) := by
  have hlen : c.lastTxcmdsz - x.attrib.payload - x.attrib.icvLen = len := by omega
  simp only [XmitFrame.rtwTkipEncrypt, hsta, hone, XmitFrame.encryptLoop, hlen, if_true,
    XmitFrame.arcfourCall]

/-- A part of a frame that was read from a memory. -/
theorem slice_of_data {m : Memory} {s l i n : ℕ} (hdata : f.data = m.read s l) (h : i + n ≤ l) :
    slice f.mem i n = m.read (s + i) n := by
  have hlen : f.len = l := by rw [← f.data_length, hdata, Memory.read_length]
  rw [← Memory.read_take_drop m h, ← hdata, RecvFrame.data, slice, hlen, List.take_drop,
    List.take_drop, List.take_take, Nat.min_eq_left h]

/-- The frame that a receiver with the same key has got of a single fragment with `len` bytes. -/
structure TkipDelivered (sec : SecurityPriv) (stapriv : StaPriv) (x : XmitFrame) (c : Coalesced)
    (stainfo : StaInfo) (len : ℕ) (f : RecvFrame) : Prop where
  encrypt : x.attrib.encrypt = .tkip
  station : x.stainfo = some stainfo
  one : c.nrFrags = 1
  size : c.lastTxcmdsz = x.attrib.payload + len + x.attrib.icvLen
  data : f.data = (x.rtwTkipEncrypt c).1.read x.hwHdrOffset c.lastTxcmdsz
  hdrlen : f.attrib.hdrlen = x.attrib.hdrlen
  ivLen : f.attrib.ivLen = 8
  ta : f.attrib.ta = x.attrib.ta
  key : rxUncstKey sec stapriv f.attrib = some (x.prwskey stainfo)

/-- Whatever was encrypted into the frame is restored, with a success. -/
def TkipRestored (sec : SecurityPriv) (stapriv : StaPriv) (f : RecvFrame) : Prop :=
  ∀ x c stainfo len, TkipDelivered sec stapriv x c stainfo len f →
    ∃ g, rtwTkipDecryptRun sec stapriv f = some (.success, g) ∧
      slice g.mem f.attrib.payload len = c.mem.read (x.hwHdrOffset + x.attrib.payload) len

theorem tkipRestored (f : RecvFrame) : TkipRestored sec stapriv f := by
  rintro x c stainfo len ⟨hencrypt, hsta, hone, hsize, hdata, hhdrlen, hivLen, hta, hkey⟩
  have hpayload : f.attrib.payload = x.attrib.payload := by
    rw [RxPktAttrib.payload, PktAttrib.payload, hhdrlen, hivLen, PktAttrib.ivLen, hencrypt]
  have hfour : x.attrib.icvLen = 4 := by rw [PktAttrib.icvLen, hencrypt]
  have height : x.attrib.payload = x.attrib.hdrlen + 8 := by
    rw [PktAttrib.payload, PktAttrib.ivLen, hencrypt]
  have hlen : f.len = c.lastTxcmdsz := by
    rw [← f.data_length, hdata, Memory.read_length]
  have hmem := rtwTkipEncrypt_one hsta hone hsize
  rw [hmem] at hdata
  have hiv : f.iv = c.mem.read (x.hwHdrOffset + x.attrib.hdrlen) 8 := by
    rw [RecvFrame.iv, slice_of_data hdata (by omega), hhdrlen, Memory.read_write_disjoint]
    omega
  have hbody : f.behindIv = arcfourSeal (tkipRc4key (x.prwskey stainfo) x.attrib.ta f.iv)
      (c.mem.read (x.hwHdrOffset + x.attrib.payload) len) := by
    have hcount : f.len - f.attrib.payload =
        (arcfourSeal (tkipRc4key (x.prwskey stainfo) x.attrib.ta f.iv)
          (c.mem.read (x.hwHdrOffset + x.attrib.payload) len)).length := by
      rw [arcfourSeal_length, Memory.read_length]
      omega
    rw [RecvFrame.behindIv, slice_of_data hdata (by omega), hcount, hpayload, hiv,
      Memory.read_write_same]
  have hopened : (f.arcfourOpen (tkipRc4key (x.prwskey stainfo) f.attrib.ta f.iv)).behindIv =
      c.mem.read (x.hwHdrOffset + x.attrib.payload) len ++
        getcrc32 (c.mem.read (x.hwHdrOffset + x.attrib.payload) len) := by
    rw [RecvFrame.arcfourOpen_behindIv _ (by omega), hbody, hta, arcfourSeal_open]
  generalize hg : f.arcfourOpen (tkipRc4key (x.prwskey stainfo) f.attrib.ta f.iv) = g at hopened
  have hglen : g.len = f.len := by rw [← hg]; rfl
  have hgattrib : g.attrib = f.attrib := by rw [← hg]; rfl
  refine ⟨g, rtwTkipDecryptRun_success.mpr ⟨_, hkey, by omega, hg.symm, ?_⟩, ?_⟩
  · apply (RecvFrame.crcOk_long _).mpr ⟨_, hopened⟩
    rw [hglen, hgattrib]
    omega
  · have htake := congrArg (List.take len) hopened
    rw [List.take_left' (Memory.read_length _ _ _), RecvFrame.behindIv, slice, List.take_take,
      hglen, hgattrib, Nat.min_eq_left (by omega)] at htake
    exact htake

/-- A success means a CRC exactly for the frames that do not lack their ICV in this way. -/
theorem icvChecked_iff (hivLen : f.attrib.ivLen = 8) :
    IcvChecked sec stapriv f ↔ ∀ prwskey, rxUncstKey sec stapriv f.attrib = some prwskey →
      ¬ f.MissingIcv (tkipRc4key prwskey f.attrib.ta f.iv) := by
  have hfour : 4 ≤ f.attrib.payload := by
    rw [RxPktAttrib.payload, hivLen]
    omega
  constructor
  · intro hchecked prwskey hkey hmissing
    have hcrc := (RecvFrame.crcOk_short hfour hmissing.inside hmissing.short).mpr hmissing
    obtain ⟨payload, hbody⟩ := hchecked _
      (rtwTkipDecryptRun_success.mpr ⟨prwskey, hkey, hmissing.inside, rfl, hcrc⟩)
    have hcount := congrArg List.length hbody
    have hlen : (f.arcfourOpen (tkipRc4key prwskey f.attrib.ta f.iv)).behindIv.length =
        f.len - f.attrib.payload := RecvFrame.behindIv_length
    have hshort := hmissing.short
    rw [hlen, List.length_append, ← getcrc32_eq, getcrc32_length] at hcount
    omega
  · intro hnot g hrun
    obtain ⟨prwskey, hkey, hinside, rfl, hcrc⟩ := rtwTkipDecryptRun_success.mp hrun
    have hlong : f.attrib.payload + 4 ≤ f.len := by
      by_contra hshort
      exact hnot prwskey hkey
        ((RecvFrame.crcOk_short hfour hinside (by omega)).mp hcrc)
    obtain ⟨payload, hbody⟩ := (RecvFrame.crcOk_long (f := f.arcfourOpen _) hlong).mp hcrc
    exact ⟨payload, by rw [hbody, getcrc32_eq]⟩

/-- The payload is restored and a success means a CRC exactly for the frames that do not lack
their ICV and end like one that has it. -/
theorem rtwTkipDecrypt_sound_iff (sec : SecurityPriv) (stapriv : StaPriv) (f : RecvFrame)
    (hivLen : f.attrib.ivLen = 8) :
    (TkipRestored sec stapriv f ∧ IcvChecked sec stapriv f) ↔
      ∀ prwskey, rxUncstKey sec stapriv f.attrib = some prwskey →
        ¬ f.MissingIcv (tkipRc4key prwskey f.attrib.ta f.iv) := by
  rw [icvChecked_iff hivLen]
  exact and_iff_right (tkipRestored f)

/-- A frame of a header and an IV whose higher bytes are zero, with nothing behind it. -/
def bareFrame : RecvFrame where
  id := 0
  psta := none
  attrib := { RxPktAttrib.zero with hdrlen := 24, ivLen := 8, encrypt := .tkip }
  mem := List.replicate 24 0 ++ [0, 0x20, 1, 0x20, 0, 0, 0, 0]
  len := 32
  fits := by decide

def oneStation : StaPriv := ⟨[StaInfo.alloc (Vector.replicate 6 0)], [0]⟩

theorem bareFrame_success :
    rtwTkipDecryptRun SecurityPriv.zero oneStation bareFrame = some (.success, bareFrame) := by
  decide

/-- The frame passes as verified, and holds no CRC. -/
theorem bareFrame_unchecked : bareFrame.attrib.ivLen = 8 ∧
    ¬ (TkipRestored SecurityPriv.zero oneStation bareFrame ∧
      IcvChecked SecurityPriv.zero oneStation bareFrame) := by
  refine ⟨rfl, fun h => ?_⟩
  obtain ⟨payload, hbody⟩ := h.2 bareFrame bareFrame_success
  have hcount := congrArg List.length hbody
  rw [List.length_append, ← getcrc32_eq, getcrc32_length] at hcount
  have hempty : bareFrame.behindIv.length = 0 := rfl
  omega

/-- With four more bytes it has room for an ICV. -/
def icvFrame : RecvFrame :=
  { bareFrame with
    mem := bareFrame.mem ++ [0, 0, 0, 0]
    len := 36
    fits := by decide }

theorem icvFrame_checked : TkipRestored SecurityPriv.zero oneStation icvFrame ∧
    IcvChecked SecurityPriv.zero oneStation icvFrame :=
  (rtwTkipDecrypt_sound_iff SecurityPriv.zero oneStation icvFrame rfl).mpr fun _ _ hmissing =>
    absurd hmissing.short (by decide)

end Frames

end Rtl8188eu
