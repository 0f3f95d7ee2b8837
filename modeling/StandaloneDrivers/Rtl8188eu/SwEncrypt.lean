import StandaloneDrivers.Rtl8188eu.XmitLayout

/-! Which bytes of the buffer software encryption reads and writes. -/
namespace Rtl8188eu
open Foundations

namespace XmitFrame
variable (x : XmitFrame)

/-- The payloads that are encrypted: the Michael code belongs to that of the last fragment. -/
def payloads (c : Coalesced) : List Extent :=
  if x.attrib.encrypt = .tkip then
    c.frags.dropLast ++ (c.frags.getLast?.map fun g => ⟨g.start, g.length + 8⟩).toList
  else c.frags

/-- The cipher of the frame. -/
def cipher (stainfo : StaInfo) : Memory → ℕ → ℕ → EncryptCall :=
  match x.attrib.encrypt with
  | .tkip => x.arcfourCall (tkipRc4key (x.prwskey stainfo) x.attrib.ta)
  | .aes => x.aesCall (x.prwskey stainfo)
  | _ => x.arcfourCall fun iv => wepkey iv (keyAt x.sec.dot11DefKey x.sec.dot11PrivacyKeyIndex)
      (x.sec.dot11DefKeylen.get x.sec.dot11PrivacyKeyIndex)

/-- Every fragment is encrypted as it stands in the buffer, over its payload and with its IV; the
result takes the place of the payload and of the bytes kept free behind it, and nothing else of
the buffer is written. -/
structure Encrypts (stainfo : StaInfo) (c : Coalesced) (r : Memory × List EncryptCall) : Prop where
  calls : r.2 = (x.payloads c).map fun g =>
    x.cipher stainfo c.mem (g.start - x.attrib.payload) g.length
  extents : r.2.map EncryptCall.payload = x.payloads c
  ivs : r.2.map EncryptCall.iv = (x.payloads c).map fun g => g.start - x.attrib.ivLen
  stored : ∀ call ∈ r.2, call.output.length = call.payload.length + x.attrib.icvLen ∧
    r.1.read call.payload.start call.output.length = call.output
  untouched : ∀ i, (∀ g ∈ x.payloads c,
    i < g.start ∨ g.start + g.length + x.attrib.icvLen ≤ i) → r.1 i = c.mem i

/-- The ciphers for which there is a routine. -/
def Supported : Prop :=
  x.attrib.encrypt = .wep40 ∨ x.attrib.encrypt = .wep104 ∨ x.attrib.encrypt = .tkip ∨
    x.attrib.encrypt = .aes

/-- Where a cipher looks for the IV. -/
def ivOffset (mem : Memory) (pframe : ℕ) : ℕ :=
  if x.attrib.encrypt = .aes then
    ccmHdrlen x.attrib.hdrlen (mem.read pframe (x.attrib.hdrlen + 32))
  else x.attrib.hdrlen

variable {x} {c : Coalesced} {stainfo : StaInfo}

theorem swencrypt_eq (hb : x.attrib.bswenc = true) (hs : x.Supported)
    (hsta : x.stainfo = some stainfo) : x.xmitframeSwencrypt c =
      x.encryptLoop c.lastTxcmdsz (x.cipher stainfo) c.nrFrags x.hwHdrOffset c.mem := by
  unfold xmitframeSwencrypt cipher rtwWepEncrypt rtwTkipEncrypt rtwAesEncrypt
  rw [if_pos hb, hsta]
  rcases hs with h | h | h | h <;> simp only [h]

theorem cipher_spec (stainfo : StaInfo) (hs : x.Supported) (mem : Memory) (pframe length : ℕ) :
    let call := x.cipher stainfo mem pframe length
    call.iv = pframe + x.ivOffset mem pframe ∧
      call.payload = ⟨pframe + x.ivOffset mem pframe + x.attrib.ivLen, length⟩ ∧
      call.output.length = length + x.attrib.icvLen := by
  unfold cipher ivOffset PktAttrib.ivLen PktAttrib.icvLen
  rcases hs with h | h | h | h <;>
    simp [h, arcfourCall, aesCall, arcfourSeal_length, ccmSeal_length, PktAttrib.payload,
      PktAttrib.ivLen, Nat.add_assoc]

/-- The type of a frame is in its first byte. -/
theorem qcExists_cons (b : UInt8) (mpdu : List UInt8) : qcExists (b :: mpdu) = qcExists [b] := by
  have hand (mask : ℕ) (hmask : mask < 256) : le16 (b :: mpdu) 0 &&& mask = le16 [b] 0 &&& mask := by
    have hmod : (le16 (b :: mpdu) 0 &&& mask) % 2 ^ 8 = (le16 [b] 0 &&& mask) % 2 ^ 8 := by
      rw [Nat.and_mod_two_pow, Nat.and_mod_two_pow]
      congr 1
      simp only [le16, byteAt, List.getD_cons_zero]
      omega
    have h1 : le16 (b :: mpdu) 0 &&& mask < 2 ^ 8 := by
      have := Nat.and_le_right (n := le16 (b :: mpdu) 0) (m := mask)
      omega
    have h2 : le16 [b] 0 &&& mask < 2 ^ 8 := by
      have := Nat.and_le_right (n := le16 [b] 0) (m := mask)
      omega
    rwa [Nat.mod_eq_of_lt h1, Nat.mod_eq_of_lt h2] at hmod
  simp only [qcExists, getFrameType, getFrameSubType, hand 0x0c (by norm_num),
    hand 0xfc (by norm_num)]

/-- The header of a single fragment begins with the subtype. -/
theorem single_subtype (hs : x.SingleFragment) (h : x.coalesceFragments = some c) :
    c.mem x.hwHdrOffset = x.attrib.subtype := by
  obtain ⟨mem, seqnum, hheader, hkept⟩ := single_header hs h
  have hge := x.hdrlen_ge
  rw [← rtwMakeWlanhdr_subtype hheader]
  exact hkept 0 (by omega) (by omega)

/-- What the Michael code changes: eight bytes more, and only with TKIP. -/
theorem xmitframeAddmic_coalesced (hsta : x.stainfo = some stainfo) {m : MicAdded}
    (h : x.xmitframeAddmic c = some m) : m.coalesced.frags = c.frags ∧
      m.coalesced.lastTxcmdsz = c.lastTxcmdsz + (if x.attrib.encrypt = .tkip then 8 else 0) ∧
      (x.attrib.encrypt ≠ .tkip → m.coalesced = c) := by
  unfold xmitframeAddmic at h
  by_cases htkip : x.attrib.encrypt = .tkip
  · simp only [htkip, hsta] at h
    split at h
    · cases h
    · cases h
      exact ⟨rfl, by rw [if_pos htkip], fun hne => absurd htkip hne⟩
  · have hm : m = ⟨c, [], 0⟩ := by
      split at h
      · contradiction
      · exact (Option.some.inj h).symm
    rw [hm]
    exact ⟨rfl, by rw [if_neg htkip]; rfl, fun _ => rfl⟩

theorem encryptLoop_one (hnr : c.nrFrags = 1) :
    x.encryptLoop c.lastTxcmdsz (x.cipher stainfo) c.nrFrags x.hwHdrOffset c.mem =
      let call := x.cipher stainfo c.mem x.hwHdrOffset
        (c.lastTxcmdsz - x.attrib.payload - x.attrib.icvLen)
      (c.mem.write call.payload.start call.output, [call]) := by
  rw [hnr]
  rfl

theorem encryptLoop_length (lastTxcmdsz : ℕ) (cipher : Memory → ℕ → ℕ → EncryptCall)
    (n pframe : ℕ) (mem : Memory) :
    (x.encryptLoop lastTxcmdsz cipher n pframe mem).2.length = n := by
  induction n generalizing pframe mem with
  | zero => rfl
  | succ n ih =>
    unfold encryptLoop
    exact congrArg (· + 1) (ih _ _)

/-- A single fragment is encrypted as it should be if the cipher finds its IV. -/
theorem encrypts_single (hb : x.attrib.bswenc = true) (hs : x.Supported)
    (hsta : x.stainfo = some stainfo) {len : ℕ}
    (hpayloads : x.payloads c = [⟨x.hwHdrOffset + x.attrib.payload, len⟩])
    (hnr : c.nrFrags = 1) (hlast : c.lastTxcmdsz = x.attrib.payload + x.attrib.icvLen + len) :
    x.Encrypts stainfo c (x.xmitframeSwencrypt c) ↔
      x.ivOffset c.mem x.hwHdrOffset = x.attrib.hdrlen := by
  obtain ⟨hiv, hpayload, houtput⟩ := cipher_spec stainfo hs c.mem x.hwHdrOffset len
  have hlen : c.lastTxcmdsz - x.attrib.payload - x.attrib.icvLen = len := by omega
  have hstart : x.hwHdrOffset + x.attrib.payload - x.attrib.payload = x.hwHdrOffset :=
    Nat.add_sub_cancel _ _
  rw [swencrypt_eq hb hs hsta, encryptLoop_one hnr, hlen]
  generalize hcall : x.cipher stainfo c.mem x.hwHdrOffset len = call at hiv hpayload houtput
  constructor
  · intro h
    have hext := h.extents
    rw [hpayloads] at hext
    have hfirst : call.payload = ⟨x.hwHdrOffset + x.attrib.payload, len⟩ := by
      simpa using hext
    rw [hpayload] at hfirst
    have := congrArg Extent.start hfirst
    simp only [PktAttrib.payload] at this
    omega
  · intro hoff
    rw [hoff, Nat.add_assoc] at hpayload
    rw [hoff] at hiv
    constructor
    · simp only [hpayloads, List.map_cons, List.map_nil, hstart, hcall]
    · rw [hpayloads, List.map_singleton, hpayload]
      rfl
    · simp only [hpayloads, List.map_cons, List.map_nil, hiv, PktAttrib.payload]
      congr 1
      omega
    · intro call' hmem
      obtain rfl : call' = call := by simpa using hmem
      constructor
      · rw [houtput, hpayload]
      · exact Memory.read_write_same _ _ _
    · intro i hi
      apply Memory.write_outside
      have hout := hi ⟨x.hwHdrOffset + x.attrib.payload, len⟩
        (by rw [hpayloads]; exact List.mem_singleton_self _)
      simp only [PktAttrib.payload] at hout
      rw [houtput, hpayload]
      show i < x.hwHdrOffset + (x.attrib.hdrlen + x.attrib.ivLen) ∨
        x.hwHdrOffset + (x.attrib.hdrlen + x.attrib.ivLen) + (len + x.attrib.icvLen) ≤ i
      omega

/-- Of a packet in several fragments the first one is encrypted together with the four bytes behind
it. -/
theorem not_encrypts_several (hb : x.attrib.bswenc = true) (hs : x.Supported)
    (hsta : x.stainfo = some stainfo) {first : Extent} {rest : List Extent} (hrest : rest ≠ [])
    (hfrags : c.frags = first :: rest)
    (hlen : first.length + 4 = x.fragLen - x.attrib.payload - x.attrib.icvLen) :
    ¬ x.Encrypts stainfo c (x.xmitframeSwencrypt c) := by
  intro h
  obtain ⟨tail, htail, hpayloads⟩ : ∃ tail, tail.length = rest.length ∧
      x.payloads c = first :: tail := by
    obtain ⟨second, others, rfl⟩ := List.exists_cons_of_ne_nil hrest
    unfold payloads
    rw [hfrags]
    split
    · refine ⟨(second :: others).dropLast ++ _, ?_, rfl⟩
      simp [List.getLast?_cons]
    · exact ⟨_, rfl, rfl⟩
  have hext := h.extents
  rw [swencrypt_eq hb hs hsta, hpayloads] at hext
  have hcount := congrArg List.length hext
  rw [List.length_map, encryptLoop_length, List.length_cons, htail] at hcount
  obtain ⟨n, hn⟩ : ∃ n, rest.length = n + 1 :=
    Nat.exists_eq_succ_of_ne_zero (by simpa using hrest)
  rw [hcount, hn] at hext
  unfold encryptLoop at hext
  obtain ⟨-, hpayload, -⟩ := cipher_spec stainfo hs c.mem x.hwHdrOffset
    (x.fragLen - x.attrib.payload - x.attrib.icvLen)
  have hhead := (List.cons.inj hext).1
  rw [if_neg (by omega), hpayload] at hhead
  have := congrArg Extent.length hhead
  dsimp only at this
  omega

/-- Software encryption covers the fragments of a packet exactly when there is only one, and the
cipher finds the end of its header. -/
theorem swencrypt_covers_iff (x : XmitFrame) (hb : x.attrib.bswenc = true) (hs : x.Supported)
    {c : Coalesced} {m : MicAdded} (hc : x.coalesceFragments = some c)
    (hm : x.xmitframeAddmic c = some m) : ∃ stainfo, x.stainfo = some stainfo ∧
      (x.Encrypts stainfo m.coalesced (x.xmitframeSwencrypt m.coalesced) ↔
        x.SingleFragment ∧ (x.attrib.encrypt = .aes → qcExists [x.attrib.subtype] = true →
          x.attrib.hdrlen = 26)) := by
  obtain ⟨stainfo, hsta⟩ := stainfo_some hc
  refine ⟨stainfo, hsta, ?_⟩
  obtain ⟨hfrags, hlast, hsame⟩ := xmitframeAddmic_coalesced hsta hm
  have hreserved : x.attrib.reserved = x.attrib.icvLen := if_pos hb
  by_cases hsingle : x.SingleFragment
  · obtain ⟨hone, hsz⟩ := coalesce_single hsingle hc
    have hnr : m.coalesced.nrFrags = 1 := by rw [Coalesced.nrFrags, hfrags, hone]; rfl
    have hpayloads : x.payloads m.coalesced = [⟨x.hwHdrOffset + x.attrib.payload,
        x.firstExtent.length + if x.attrib.encrypt = .tkip then 8 else 0⟩] := by
      unfold payloads
      rw [hfrags, hone]
      split
      · rfl
      · rfl
    rw [encrypts_single hb hs hsta hpayloads hnr (by omega)]
    have hoff : x.ivOffset m.coalesced.mem x.hwHdrOffset = x.attrib.hdrlen ↔
        (x.attrib.encrypt = .aes → qcExists [x.attrib.subtype] = true → x.attrib.hdrlen = 26) := by
      unfold ivOffset
      by_cases haes : x.attrib.encrypt = .aes
      · have hmem : m.coalesced = c := hsame (by rw [haes]; decide)
        have hread : m.coalesced.mem.read x.hwHdrOffset (x.attrib.hdrlen + 32) =
            x.attrib.subtype :: m.coalesced.mem.read (x.hwHdrOffset + 1) (x.attrib.hdrlen + 31) := by
          rw [hmem, Memory.read_succ, single_subtype hsingle hc]
        rw [if_pos haes, hread, ccmHdrlen, qcExists_cons]
        simp only [haes, true_imp_iff, Bool.and_eq_true, bne_iff_ne, ne_eq]
        split
        · rename_i hq
          simp [hq]
        · rename_i hq
          simpa using hq
      · simp [haes]
    rw [hoff]
    exact ⟨fun h => ⟨hsingle, h⟩, fun h => h.2⟩
  · obtain ⟨rest, hne, hall, hlen⟩ := coalesce_several hsingle hc
    rw [hreserved] at hlen
    constructor
    · intro h
      exact absurd h (not_encrypts_several hb hs hsta hne (hfrags.trans hall) hlen)
    · intro h
      exact absurd h.1 hsingle

/-- A packet of four bytes that a station sends to its access point, protected with WEP. -/
def wepFrame : XmitFrame where
  mlme := { MlmePriv.zero with stationState := true, fwLinked := true }
  sec := { SecurityPriv.zero with
    dot11PrivacyAlgrthm := .wep40
    dot11DefKeylen := Vector.replicate 4 5 }
  stapriv := ⟨[StaInfo.alloc (Vector.replicate 6 0)], [0]⟩
  attrib := { PktAttrib.zero with
    subtype := 0x08
    bswenc := true
    etherType := 0x0800
    hdrlen := 24
    pktlen := 4
    encrypt := .wep40
    psta := some 0 }
  pktfile := [1, 2, 3, 4]
  fragLen := 2346
  pktOffset := 1
  buf := fun _ => 0
  hdrlen_ge := by decide
  hdrlen_lt := by decide
  fragLen_lt := by decide
  psta_lt := by
    rintro slot ⟨⟩
    decide
  pktfile_lt := by decide

theorem wepFrame_covered : ∃ c, wepFrame.coalesceFragments = some c ∧
    wepFrame.Encrypts (StaInfo.alloc (Vector.replicate 6 0)) c (wepFrame.xmitframeSwencrypt c) := by
  have hsome : wepFrame.coalesceFragments.isSome = true := by decide
  obtain ⟨c, hc⟩ := Option.isSome_iff_exists.mp hsome
  obtain ⟨stainfo, hsta, hiff⟩ :=
    swencrypt_covers_iff wepFrame rfl (Or.inl rfl) (m := ⟨c, [], 0⟩) hc rfl
  obtain rfl : StaInfo.alloc (Vector.replicate 6 0) = stainfo := Option.some.inj hsta
  exact ⟨c, hc, hiff.mpr ⟨by decide, nofun⟩⟩

theorem wepFrames_fragLen : 256 < 2 ^ 32 := by decide

/-- A packet of 300 bytes that is sent in two fragments. -/
def wepFrames : XmitFrame :=
  { wepFrame with
    attrib := { wepFrame.attrib with pktlen := 300 }
    pktfile := List.replicate 300 0
    fragLen := 256
    fragLen_lt := wepFrames_fragLen
    pktfile_lt := by
      rw [List.length_replicate]
      decide }

theorem wepFrames_not_covered : 256 ≤ wepFrames.fragLen ∧ wepFrames.attrib.bswenc = true ∧
    ∃ c, wepFrames.coalesceFragments = some c ∧ wepFrames.xmitframeAddmic c = some ⟨c, [], 0⟩ ∧
      wepFrames.stainfo = some (StaInfo.alloc (Vector.replicate 6 0)) ∧
      ¬ wepFrames.Encrypts (StaInfo.alloc (Vector.replicate 6 0)) c
        (wepFrames.xmitframeSwencrypt c) := by
  have hsome : wepFrames.coalesceFragments.isSome = true := by decide +kernel
  obtain ⟨c, hc⟩ := Option.isSome_iff_exists.mp hsome
  have hseveral : ¬ wepFrames.SingleFragment := by decide +kernel
  obtain ⟨rest, hne, hall, hlen⟩ := coalesce_several hseveral hc
  exact ⟨by decide, rfl, c, hc, rfl, rfl,
    not_encrypts_several rfl (Or.inl rfl) rfl hne hall hlen⟩

end XmitFrame

end Rtl8188eu
