import StandaloneDrivers.Rtl8188eu.Aes
import StandaloneDrivers.Rtl8188eu.Tkip

/-! Software decryption of received frames (rtw_security.c, rtw_recv.c). A frame is taken to be as
long as its header and its IV. -/
namespace Rtl8188eu
open Foundations

/-- `MAX_MSG_SIZE` -/
def maxMsgSize : ℕ := 2048

/-- `n` bytes from offset `i` on. -/
def bytesAt (data : List UInt8) (i n : ℕ) : List UInt8 :=
  (List.range n).map fun j => data.getD (i + j) 0

/-- The result of a decryption, the frame, and the static buffer of `aes_decipher`. -/
structure Decrypted where
  status : Status
  frame : RecvFrame
  message : List UInt8

namespace RecvFrame

/-- The payload and the ICV decrypted with RC4. -/
def arcfourOpen (f : RecvFrame) (rc4key : List UInt8) : RecvFrame :=
  f.write f.attrib.payload (arcfourEncrypt (arcfourInit rc4key)
    (slice f.mem f.attrib.payload (f.len - f.attrib.payload))).1

/-- The comparison of the last four bytes with the CRC of the payload. -/
def crcOk (f : RecvFrame) : Bool :=
  getcrc32 (slice f.mem f.attrib.payload (f.len - f.attrib.payload - 4)) ==
    slice f.mem (f.len - 4) 4

def iv (f : RecvFrame) : List UInt8 := slice f.mem f.attrib.hdrlen 8

/-- `key_index` is read from the IV of a protected frame. -/
def readKeyIndex (f : RecvFrame) : RecvFrame :=
  if f.attrib.encrypt ≠ .noPrivacy then
    { f with attrib := { f.attrib with keyIndex := (f.mem.getD (f.attrib.hdrlen + 3) 0 >>> 6).toNat } }
  else f

end RecvFrame

/-- The key of the software ciphers; without the station or the group key there is none. -/
def rxUncstKey (sec : SecurityPriv) (stapriv : StaPriv) (attrib : RxPktAttrib) : Option Keytype :=
  (stapriv.station attrib.ta).bind fun stainfo =>
    if isMcast attrib.ra then
      if sec.binstallGrpkey then some (keyAt sec.dot118021XGrpKey attrib.keyIndex) else none
    else some stainfo.dot118021xUncstKey

/-- What does not match is only reported. -/
def rtwWepDecrypt (sec : SecurityPriv) (f : RecvFrame) : RecvFrame :=
  f.arcfourOpen (wepkey f.iv (keyAt sec.dot11DefKey f.attrib.keyIndex)
    (sec.dot11DefKeylen[f.attrib.keyIndex]?.getD 0))

def rtwTkipDecrypt (sec : SecurityPriv) (stapriv : StaPriv) (f : RecvFrame) :
    Status × RecvFrame :=
  match rxUncstKey sec stapriv f.attrib with
  | none => (.fail, f)
  | some prwskey =>
      let f := f.arcfourOpen (tkipRc4key prwskey f.attrib.ta f.iv)
      (if f.crcOk then .success else .fail, f)

/-- `aes_decipher`: the payload is decrypted in its place, then copied to a static buffer, unless it
is too long for it; there the code is computed, and payload and code are encrypted again. -/
def aesDecipher (key : Keytype) (message : List UInt8) (f : RecvFrame) : Decrypted :=
  let plen := f.len - f.attrib.payload
  let n := plen - 8
  let qc := qcExists f.mem
  let a4 := a4Exists f.attrib.hdrlen
  let hdrlen := ccmHdrlen f.attrib.hdrlen f.mem
  let opened := f.write (hdrlen + 8) (ccmCtr key
    ⟨f.mem, hdrlen, qc, a4, pnVector f.mem f.attrib.hdrlen⟩ (bytesAt f.mem (hdrlen + 8) n))
  let message := if hdrlen + plen + 8 ≤ maxMsgSize then
    overwrite message 0 (opened.mem.take (hdrlen + plen + 8)) else message
  let header : CcmHeader := ⟨message, hdrlen, qc, a4, pnVector opened.mem hdrlen⟩
  let payload := bytesAt message (hdrlen + 8) n
  let sealed := ccmCtr key header payload ++ ccmCtrMic key header (ccmMic key header payload)
  let message := overwrite message (hdrlen + 8) sealed
  ⟨if bytesAt opened.mem (hdrlen + 8 + n) 8 = bytesAt message (hdrlen + 8 + n) 8 then .success
    else .fail, opened, message⟩

/-- The group key has to be the one that was installed last. -/
def rtwAesDecrypt (sec : SecurityPriv) (stapriv : StaPriv) (message : List UInt8)
    (f : RecvFrame) : Decrypted :=
  match rxUncstKey sec stapriv f.attrib with
  | none => ⟨.fail, f, message⟩
  | some prwskey =>
      if isMcast f.attrib.ra && sec.dot118021XGrpKeyid.val != f.attrib.keyIndex then
        ⟨.fail, f, message⟩
      else aesDecipher prwskey message f

/-- The frame given to the cipher of its attributes. -/
def swDecryptFrame (sec : SecurityPriv) (stapriv : StaPriv) (message : List UInt8)
    (f : RecvFrame) : Decrypted :=
  match f.attrib.encrypt with
  | .wep40 | .wep104 => ⟨.success, rtwWepDecrypt sec f, message⟩
  | .tkip =>
      let r := rtwTkipDecrypt sec stapriv f
      ⟨r.1, r.2, message⟩
  | .aes => rtwAesDecrypt sec stapriv message f
  | _ => ⟨.success, f, message⟩

/-- Whether a frame is decrypted by software. -/
def SecurityPriv.opens (sec : SecurityPriv) (attrib : RxPktAttrib) : Bool :=
  attrib.encrypt != .noPrivacy && (!attrib.bdecrypted || sec.swDecrypt)

/-- Only payload and code change in a decryption. -/
structure Kept (f g : RecvFrame) : Prop where
  id : g.id = f.id
  psta : g.psta = f.psta
  attrib : g.attrib = f.attrib
  len : g.len = f.len
  mem_length : g.mem.length = f.mem.length

theorem Kept.refl (f : RecvFrame) : Kept f f := ⟨rfl, rfl, rfl, rfl, rfl⟩

theorem kept_write (f : RecvFrame) (i : ℕ) (bytes : List UInt8) : Kept f (f.write i bytes) :=
  ⟨rfl, rfl, rfl, rfl, overwrite_length _ _ _⟩

theorem swDecryptFrame_kept (sec : SecurityPriv) (stapriv : StaPriv) (message : List UInt8)
    (f : RecvFrame) : Kept f (swDecryptFrame sec stapriv message f).frame := by
  unfold swDecryptFrame
  split
  · exact kept_write f _ _
  · exact kept_write f _ _
  · simp only [rtwTkipDecrypt]
    split
    · exact Kept.refl f
    · exact kept_write f _ _
  · unfold rtwAesDecrypt
    split
    · exact Kept.refl f
    · split
      · exact Kept.refl f
      · exact kept_write f _ _
  · exact Kept.refl f

end Rtl8188eu
