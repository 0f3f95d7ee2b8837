import StandaloneDrivers.Rtl8188eu.RecvValidate
import StandaloneDrivers.Rtl8188eu.XmitLayout

/-! The Michael code of the transmitter, and that of the receiver of the same frame. -/
namespace Rtl8188eu
open Foundations

/-- Type, header and priority of a frame with a QoS field, or of one without. -/
def PktAttrib.QosFields (attrib : PktAttrib) : Prop :=
  attrib.subtype = 0x88 ∧ attrib.hdrlen = 26 ∧ attrib.priority < 8 ∨
    attrib.subtype = 0x08 ∧ attrib.hdrlen = 24 ∧ attrib.priority = 0

theorem qosAcm_lt {acmMask priority : UInt8} (h : priority < 8) : qosAcm acmMask priority < 8 := by
  unfold qosAcm
  split
  any_goals split
  all_goals first | decide | exact h

theorem setQos_fields (pkt : List UInt8) (attrib : PktAttrib) : (setQos pkt attrib).QosFields := by
  refine Or.inl ⟨rfl, rfl, ?_⟩
  simp only [setQos]
  split
  · have hlt := (pkt.getD 15 0).toNat_lt
    rw [UInt8.lt_iff_toNat_lt, UInt8.toNat_shiftRight]
    show (pkt.getD 15 0).toNat >>> 5 < 8
    rw [Nat.shiftRight_eq_div_pow]
    omega
  · split <;> decide

theorem updateQos_fields {mlme : MlmePriv} {psta : StaInfo} {pkt : List UInt8}
    {attrib : PktAttrib} (h : attrib.QosFields) : (updateQos mlme psta pkt attrib).QosFields := by
  have hset := setQos_fields pkt attrib
  unfold updateQos
  split
  · split
    · exact hset
    · exact h
  · split
    · dsimp only
      split
      · rcases hset with ⟨hsubtype, hhdrlen, hpriority⟩ | ⟨hsubtype, -⟩
        · exact Or.inl ⟨hsubtype, hhdrlen, qosAcm_lt hpriority⟩
        · cases hsubtype
      · exact hset
    · exact h

theorem updateQos_psta (mlme : MlmePriv) (psta : StaInfo) (pkt : List UInt8)
    (attrib : PktAttrib) : (updateQos mlme psta pkt attrib).psta = attrib.psta := by
  unfold updateQos
  split_ifs <;> rfl

theorem updateCipher_psta (sec : SecurityPriv) (psta : StaInfo) (bmcast : Bool)
    (attrib : PktAttrib) : (updateCipher sec psta bmcast attrib).psta = attrib.psta := by
  unfold updateCipher
  split <;> rfl

theorem updateCipher_fields {sec : SecurityPriv} {psta : StaInfo} {bmcast : Bool}
    {attrib : PktAttrib} (h : attrib.QosFields) :
    (updateCipher sec psta bmcast attrib).QosFields := by
  unfold updateCipher
  split
  · exact h
  · exact h

/-- The attributes of a frame have the QoS flag of its station, and fields that go together. -/
theorem updateAttrib_qos {mlme : MlmePriv} {sec : SecurityPriv} {stapriv : StaPriv}
    {pkt : List UInt8} {attrib : PktAttrib} (h : updateAttrib mlme sec stapriv pkt = some attrib) :
    attrib.QosFields ∧ ∃ slot psta, attrib.psta = some slot ∧ stapriv.stainfo[slot]? = some psta ∧
      attrib.qosEn = psta.qosOption := by
  obtain ⟨slot, -, h⟩ := Option.bind_eq_some_iff.mp h
  obtain ⟨psta, hpsta, h⟩ := Option.bind_eq_some_iff.mp h
  dsimp only at h
  split at h
  · cases h
  · split at h
    · cases h
    · split at h
      · cases h
      · cases h
        constructor
        · apply updateCipher_fields
          apply updateQos_fields
          exact Or.inr ⟨rfl, rfl, rfl⟩
        · refine ⟨slot, psta, ?_, hpsta, rfl⟩
          dsimp only
          rw [updateCipher_psta, updateQos_psta]

/-- The priority that a receiver reads from a header. -/
def receivedPriority (data : List UInt8) : Fin 16 :=
  (qosAttrib data { headerAttrib data .zero with
    qos := (getFrameSubType data).testBit 7 }).priority

theorem qosAttrib_priority (data : List UInt8) (attrib : RxPktAttrib) :
    (qosAttrib data attrib).priority =
      if attrib.qos then Fin.ofNat 16 (le16 data 24) else 0 := by
  unfold qosAttrib
  cases attrib.qos <;> rfl

/-- The QoS bit of a header is in its first byte. -/
theorem getFrameSubType_testBit (data : List UInt8) :
    (getFrameSubType data).testBit 7 = decide (128 ≤ byteAt data 0) := by
  have hbyte : byteAt data 0 < 256 := UInt8.toNat_lt _
  have hmask : (getFrameSubType data).testBit 7 = (le16 data 0).testBit 7 := by
    rw [getFrameSubType, Nat.testBit_and]
    exact Bool.and_true _
  rw [hmask, Nat.testBit_eq_decide_div_mod_eq, decide_eq_decide, le16]
  omega

theorem receivedPriority_eq (data : List UInt8) : (receivedPriority data).val =
    if 128 ≤ byteAt data 0 then byteAt data 24 % 16 else 0 := by
  rw [receivedPriority, qosAttrib_priority, getFrameSubType_testBit]
  simp only [decide_eq_true_eq]
  split
  · show le16 data 24 % 16 = _
    rw [le16]
    omega
  · rfl

namespace XmitFrame
variable {x : XmitFrame} {c : Coalesced} {m : MicAdded} {stainfo : StaInfo}

/-- Whether the header of a frame has a QoS field with its priority. -/
def headerQos (x : XmitFrame) (psta : StaInfo) : Bool :=
  if x.mlme.stationState then x.mlme.qosOption else psta.qosOption

/-- The priority in a header. -/
theorem rtwMakeWlanhdr_priority {hdr seqnum : ℕ} {mem : Memory}
    (hsubtype : x.attrib.subtype = 0x88) (hhdrlen : x.attrib.hdrlen = 26)
    (hsta : x.stainfo = some stainfo) (h : x.rtwMakeWlanhdr x.buf hdr = some (mem, seqnum)) :
    mem (hdr + 24) = if x.headerQos stainfo then x.qosControl.getD 0 0 else 0 := by
  have hbit : (x.attrib.subtype &&& 0x08 != 0) = true := by rw [hsubtype]; rfl
  obtain ⟨b, hctl⟩ := x.frameCtl_cons
  unfold rtwMakeWlanhdr at h
  dsimp only at h
  rw [if_pos hbit, hsta, Option.bind_some] at h
  obtain ⟨r, hr, h⟩ := Option.map_eq_some_iff.mp h
  have hqos : r.2 = x.headerQos stainfo ∧ r.1.length = 18 := by
    unfold addresses at hr
    unfold headerQos
    split at hr
    · cases hr
      simp [*]
    · split at hr
      · cases hr
        simp [*]
      · split at hr
        · cases hr
          simp [*]
        · cases hr
  have hzero : (((x.buf.write hdr (List.replicate 64 0)).write hdr x.frameCtl).write (hdr + 4)
      r.1) (hdr + 24) = 0 := by
    rw [Memory.write_outside _ (by omega), Memory.write_outside _ (by simp [hctl])]
    simp [Memory.write]
  obtain ⟨rfl, -⟩ := Prod.mk.inj h
  rw [Memory.write_outside _ (by simp), hhdrlen, ← hqos.1]
  split
  · simp [Memory.write, qosControl]
  · exact hzero

/-- The low bits of the QoS field. -/
theorem qosControl_priority (x : XmitFrame) (h : x.attrib.priority < 8) :
    (x.qosControl.getD 0 0).toNat % 16 = x.attrib.priority.toNat := by
  have hlt := UInt8.lt_iff_toNat_lt.mp h
  have hlow : x.attrib.priority.toNat &&& 15 = x.attrib.priority.toNat := by
    rw [Nat.and_two_pow_sub_one_eq_mod _ 4]
    exact Nat.mod_eq_of_lt (hlt.trans (by decide))
  have hhigh (b n : UInt8) (hn : n.toNat = 4 ∨ n.toNat = 5) : (b <<< n).toNat % 16 = 0 := by
    rw [UInt8.toNat_shiftLeft, Nat.shiftLeft_eq]
    rcases hn with hn | hn
    · rw [hn]
      norm_num
    · rw [hn]
      norm_num
      omega
  show ((x.attrib.priority &&& (0xf : UInt8)) ||| ((x.attrib.eosp &&& (1 : UInt8)) <<< 4) |||
    ((x.attrib.ackPolicy &&& (3 : UInt8)) <<< 5)).toNat % 2 ^ 4 = _
  rw [UInt8.toNat_or, UInt8.toNat_or, Nat.or_mod_two_pow, Nat.or_mod_two_pow]
  simp only [Nat.reducePow]
  rw [hhigh _ 4 (Or.inl rfl), hhigh _ 5 (Or.inr rfl), Nat.or_zero, Nat.or_zero, UInt8.toNat_and]
  show (x.attrib.priority.toNat &&& 15) % 16 = _
  rw [hlow]
  exact Nat.mod_eq_of_lt (hlt.trans (by decide))

/-- A receiver reads the priority that the frame has, if the header has a QoS field. -/
theorem single_priority (hfields : x.attrib.QosFields) (hs : x.SingleFragment)
    (hsta : x.stainfo = some stainfo) (h : x.coalesceFragments = some c) :
    (receivedPriority (c.mem.read x.hwHdrOffset x.attrib.payload)).val =
      if x.headerQos stainfo then x.attrib.priority.toNat else 0 := by
  obtain ⟨mem, seqnum, hheader, hkept⟩ := single_header hs h
  have hge := x.hdrlen_ge
  have hbyte (i : ℕ) (hi : i < x.attrib.hdrlen) (hone : i ≠ 1) :
      byteAt (c.mem.read x.hwHdrOffset x.attrib.payload) i = (mem (x.hwHdrOffset + i)).toNat := by
    have hlt : i < x.attrib.payload := Nat.lt_add_right _ hi
    rw [byteAt, Memory.read_getD _ hlt, hkept i hi hone]
  rw [receivedPriority_eq, hbyte 0 (by omega) (by omega), Nat.add_zero,
    rtwMakeWlanhdr_subtype hheader]
  rcases hfields with ⟨hsubtype, hhdrlen, hpriority⟩ | ⟨hsubtype, -, hpriority⟩
  · rw [hsubtype, hbyte 24 (by omega) (by omega),
      rtwMakeWlanhdr_priority hsubtype hhdrlen hsta hheader, if_pos (by decide)]
    split
    · exact x.qosControl_priority hpriority
    · rfl
  · rw [hsubtype, hpriority, if_neg (by decide)]
    exact (ite_self 0).symm

/-- The first bytes of the frame, as a receiver has them. -/
def received (x : XmitFrame) (c : Coalesced) : List UInt8 :=
  c.mem.read x.hwHdrOffset x.attrib.payload

/-- What the receiver computes from the header and the payloads put together. -/
def receivedCode (x : XmitFrame) (stainfo : StaInfo) (c : Coalesced) : List UInt8 :=
  rtwSeccalctkipmic (x.txMickey stainfo).toList (x.received c)
    (c.frags.flatMap fun g => c.mem.read g.start g.length)
    (UInt8.ofNat (receivedPriority (x.received c)))

/-- The code is taken over the payloads of all fragments and the priority of the header, it is put
behind the last payload, and it is the one that the receiver computes. -/
structure MicAgrees (x : XmitFrame) (stainfo : StaInfo) (c : Coalesced) (m : MicAdded) : Prop where
  message : m.message = c.frags
  place : ∀ g, c.frags.getLast? = some g → m.place = g.start + g.length
  priority : x.micPriority.toNat = receivedPriority (x.received c)
  code : m.coalesced.mem.read m.place 8 = x.receivedCode stainfo c

theorem rnd4_hwHdrOffset (x : XmitFrame) : rnd4 x.hwHdrOffset = x.hwHdrOffset := by
  have hmod : x.hwHdrOffset % 4 = 0 := by
    unfold hwHdrOffset
    omega
  rw [rnd4, if_pos hmod]
  omega

theorem macAt_read (mem : Memory) (i : ℕ) {k n : ℕ} (h : k + 6 ≤ n) :
    macAt (mem.read i n) k = Vector.ofFn fun j => mem (i + (k + j)) := by
  unfold macAt
  congr 1
  funext j
  exact mem.read_getD (by omega)

/-- The addresses lie in the first bytes of a header. -/
theorem micAddresses_read (mem : Memory) (i : ℕ) {n : ℕ} (h : 30 ≤ n) :
    micAddresses (mem.read i n) = micAddresses (mem.read i 30) := by
  have hfc : (mem.read i n).getD 1 0 = (mem.read i 30).getD 1 0 := by
    rw [mem.read_getD (by omega), mem.read_getD (by omega)]
  have haddr {k : ℕ} (hk : k + 6 ≤ 30) : macAt (mem.read i n) k = macAt (mem.read i 30) k := by
    rw [macAt_read _ _ (by omega), macAt_read _ _ hk]
  unfold micAddresses
  rw [hfc]
  simp only [apply_ite (macAt (mem.read i n)), apply_ite (macAt (mem.read i 30)),
    haddr (k := 4) (by norm_num), haddr (k := 10) (by norm_num), haddr (k := 16) (by norm_num),
    haddr (k := 24) (by norm_num)]

theorem rtwSecgetmic_length (d : MicData) : (rtwSecgetmic d).1.length = 8 := by
  simp [rtwSecgetmic, secmicputuint32]

/-- The frame with its code, if it is not dropped. -/
theorem xmitframeAddmic_tkip (htkip : x.attrib.encrypt = .tkip) (hsta : x.stainfo = some stainfo)
    (h : x.xmitframeAddmic c = some m) :
    let r := x.micLoop c c.nrFrags x.hwHdrOffset
      (micStart (x.txMickey stainfo).toList (c.mem.read x.hwHdrOffset 30) x.micPriority)
    m.message = r.2.2 ∧ m.place = r.2.1 ∧
      m.coalesced.mem.read m.place 8 = (rtwSecgetmic r.1).1 := by
  unfold xmitframeAddmic at h
  simp only [htkip, hsta] at h
  split at h
  · cases h
  · cases h
    have hread (r : MicData × ℕ × List Extent) :
        (c.mem.write r.2.1 (rtwSecgetmic r.1).1).read r.2.1 8 = (rtwSecgetmic r.1).1 := by
      have := Memory.read_write_same c.mem r.2.1 (rtwSecgetmic r.1).1
      rwa [rtwSecgetmic_length] at this
    exact ⟨rfl, rfl, hread _⟩

theorem micLoop_message_length (c : Coalesced) (n payload : ℕ) (d : MicData) :
    (x.micLoop c n payload d).2.2.length = n := by
  induction n generalizing payload d with
  | zero => rfl
  | succ n ih =>
    unfold micLoop
    dsimp only
    split
    · rename_i hn
      rw [hn]
      rfl
    · exact congrArg (· + 1) (ih _ _)

/-- Of a packet in several fragments the code is not taken over the payloads. -/
theorem micLoop_several (hs : ¬ x.SingleFragment) (hc : x.coalesceFragments = some c)
    (d : MicData) : (x.micLoop c c.nrFrags x.hwHdrOffset d).2.2 ≠ c.frags := by
  intro h
  obtain ⟨rest, hrest, hfrags, hlen⟩ := coalesce_several hs hc
  have hcount := congrArg List.length h
  rw [micLoop_message_length, hfrags, List.length_cons] at hcount
  have hpos := List.length_pos_iff.mpr hrest
  obtain ⟨n, hn⟩ : ∃ n, rest.length = n + 1 := Nat.exists_eq_add_of_lt hpos |>.imp (by omega)
  rw [hcount, hn, hfrags] at h
  unfold micLoop at h
  dsimp only at h
  rw [if_neg (by omega)] at h
  have := congrArg Extent.length (List.cons.inj h).1
  dsimp only at this
  omega

/-- The priority that goes into the code is that of the header. -/
theorem micPriority_iff (hfields : x.attrib.QosFields) (hqosEn : x.attrib.qosEn = stainfo.qosOption)
    (hs : x.SingleFragment) (hsta : x.stainfo = some stainfo) (hc : x.coalesceFragments = some c) :
    x.micPriority.toNat = receivedPriority (x.received c) ↔
      x.attrib.priority = 0 ∨
        (x.mlme.stationState = true → x.mlme.qosOption = stainfo.qosOption) := by
  have hzero : x.attrib.priority = 0 ↔ x.attrib.priority.toNat = 0 := UInt8.toNat_inj.symm
  rw [received, single_priority hfields hs hsta hc, micPriority, hqosEn, headerQos, hzero]
  cases x.mlme.stationState <;> cases x.mlme.qosOption <;> cases stainfo.qosOption <;>
    simp [eq_comm]

/-- A single fragment is read and its code put behind it. -/
theorem micLoop_single (hs : x.SingleFragment) (hc : x.coalesceFragments = some c) (d : MicData) :
    x.micLoop c c.nrFrags x.hwHdrOffset d =
      (rtwSecmicappend d (c.mem.read x.firstExtent.start x.firstExtent.length),
        x.firstExtent.start + x.firstExtent.length, [x.firstExtent]) := by
  obtain ⟨hfrags, hlast⟩ := coalesce_single hs hc
  have hnr : c.nrFrags = 1 := by rw [Coalesced.nrFrags, hfrags]; rfl
  have hlen : c.lastTxcmdsz - x.attrib.payload - x.attrib.reserved = x.firstExtent.length := by
    omega
  rw [hnr]
  unfold micLoop
  rw [if_pos rfl, rnd4_hwHdrOffset, hlen]
  rfl

/-- Transmitter and receiver compute the same Michael code exactly when the packet fits in one
fragment, and the header has a QoS field just when the attributes say so. -/
theorem mic_agrees_iff (x : XmitFrame) {pkt : List UInt8}
    (hattrib : updateAttrib x.mlme x.sec x.stapriv pkt = some x.attrib)
    (htkip : x.attrib.encrypt = .tkip) (hc : x.coalesceFragments = some c)
    (hm : x.xmitframeAddmic c = some m) : ∃ stainfo, x.stainfo = some stainfo ∧
      (x.MicAgrees stainfo c m ↔ x.SingleFragment ∧ (x.attrib.priority = 0 ∨
        (x.mlme.stationState = true → x.mlme.qosOption = stainfo.qosOption))) := by
  obtain ⟨hfields, slot, psta, hslot, hpsta, hqosEn⟩ := updateAttrib_qos hattrib
  have hsta : x.stainfo = some psta := by
    unfold stainfo
    rw [hslot]
    exact hpsta
  refine ⟨psta, hsta, ?_⟩
  obtain ⟨hmessage, hplace, hcode⟩ := xmitframeAddmic_tkip htkip hsta hm
  by_cases hs : x.SingleFragment
  · have hpriority := micPriority_iff hfields hqosEn hs hsta hc
    obtain ⟨hfrags, -⟩ := coalesce_single hs hc
    have hpayload : 30 ≤ x.attrib.payload := by
      have hge := x.hdrlen_ge
      have hiv : x.attrib.ivLen = 8 := by rw [PktAttrib.ivLen, htkip]
      rw [PktAttrib.payload, hiv]
      omega
    rw [micLoop_single hs hc] at hmessage hplace hcode
    constructor
    · intro h
      exact ⟨hs, hpriority.mp h.priority⟩
    · intro h
      have hpri := hpriority.mpr h.2
      constructor
      · rw [hmessage, hfrags]
      · intro g hg
        rw [hfrags] at hg
        cases hg
        exact hplace
      · exact hpri
      · rw [hcode, receivedCode, hfrags, ← hpri, UInt8.ofNat_toNat, List.flatMap_singleton,
          rtwSeccalctkipmic, micStart, micStart, received, micAddresses_read _ _ hpayload]
  · constructor
    · intro h
      exact absurd (hmessage.symm.trans h.message) (micLoop_several hs hc _)
    · intro h
      exact absurd h.1 hs

/-- The access point of a network protected with TKIP. -/
def tkipStation : StaInfo :=
  { StaInfo.alloc (Vector.replicate 6 0) with
    dot118021XPrivacy := .tkip
    dot11tkiptxmickey := Vector.replicate 16 1 }

/-- A packet of `n` zeroes that a station sends to its access point. -/
def tkipFrame (n : Fin 1024) : XmitFrame where
  mlme := { MlmePriv.zero with stationState := true, fwLinked := true }
  sec := { SecurityPriv.zero with dot11AuthAlgrthm := 2, busetkipkey := true }
  stapriv := ⟨[tkipStation], [0]⟩
  attrib := { PktAttrib.zero with
    subtype := 0x08
    bswenc := true
    hdrlen := 24
    pktlen := n
    encrypt := .tkip
    psta := some 0 }
  pktfile := List.replicate n 0
  fragLen := 256
  pktOffset := 1
  buf := fun _ => 0
  hdrlen_ge := le_refl 24
  hdrlen_lt := by
    show 24 < 2 ^ 16
    decide
  fragLen_lt := by decide
  psta_lt := by
    rintro slot ⟨⟩
    decide
  pktfile_lt := by
    rw [List.length_replicate]
    omega

theorem tkipFrame_agrees : ∃ c m, (tkipFrame 4).coalesceFragments = some c ∧
    (tkipFrame 4).xmitframeAddmic c = some m ∧ (tkipFrame 4).MicAgrees tkipStation c m := by
  have hsome : ((tkipFrame 4).coalesceFragments.any fun c =>
      ((tkipFrame 4).xmitframeAddmic c).isSome) = true := by decide
  obtain ⟨c, hc, hm⟩ := (Option.any_eq_true _ _).mp hsome
  obtain ⟨m, hm⟩ := Option.isSome_iff_exists.mp hm
  have hattrib : updateAttrib (tkipFrame 4).mlme (tkipFrame 4).sec (tkipFrame 4).stapriv
      (List.replicate 18 0) = some (tkipFrame 4).attrib := by decide
  obtain ⟨stainfo, hsta, hiff⟩ := mic_agrees_iff (tkipFrame 4) hattrib rfl hc hm
  obtain rfl : tkipStation = stainfo := Option.some.inj hsta
  exact ⟨c, m, hc, hm, hiff.mpr ⟨by decide, Or.inl rfl⟩⟩

/-- The code behind the second of two fragments is another one than the receiver computes. -/
theorem tkipFrames_disagree : updateAttrib (tkipFrame 220).mlme (tkipFrame 220).sec
    (tkipFrame 220).stapriv (List.replicate 234 0) = some (tkipFrame 220).attrib ∧
    ∃ c m, (tkipFrame 220).coalesceFragments = some c ∧
      (tkipFrame 220).xmitframeAddmic c = some m ∧
      (tkipFrame 220).stainfo = some tkipStation ∧
      m.coalesced.mem.read m.place 8 ≠ (tkipFrame 220).receivedCode tkipStation c := by
  have hsome : ((tkipFrame 220).coalesceFragments.any fun c =>
      ((tkipFrame 220).xmitframeAddmic c).any fun m =>
        m.coalesced.mem.read m.place 8 != (tkipFrame 220).receivedCode tkipStation c) = true := by
    decide +kernel
  obtain ⟨c, hc, hm⟩ := (Option.any_eq_true _ _).mp hsome
  obtain ⟨m, hm, hcode⟩ := (Option.any_eq_true _ _).mp hm
  exact ⟨by decide +kernel, c, m, hc, hm, rfl, bne_iff_ne.mp hcode⟩

end XmitFrame

end Rtl8188eu
