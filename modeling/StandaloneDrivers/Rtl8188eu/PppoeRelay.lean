import StandaloneDrivers.Foundations.OnesComplement
import StandaloneDrivers.Rtl8188eu.OptionScans

/-! The relay-session-id tag of PPPoE discovery packets (`rtw_br_ext.c`): `nat25_db_handle` with
`addPPPoETag` puts the client's address into it, and takes it out of the reply. A packet lies in memory
from its Ethernet header on. -/
namespace Rtl8188eu.BrExt
open Foundations

/-- `ntohs(PTT_RELAY_SID)` -/
abbrev pttRelaySid : ℕ := 0x0110

/-- `MAGIC_CODE` -/
abbrev magicCode : ℕ := 0x8186

abbrev magicCodeLen : ℕ := 2

abbrev rtlRelayTagLen : ℕ := 6

/-- `sizeof(tag_buf)` -/
abbrev tagBufSize : ℕ := 40

/-- The bytes of `htons`. -/
def htonsBytes (n : ℕ) : List UInt8 := [UInt8.ofNat (n / 256), UInt8.ofNat n]

/-- `struct sk_buff`: the bytes from `data` on, `len`, and the room behind them. -/
structure PppoeSkb where
  m : Memory
  len : ℕ
  tailroom : ℕ

namespace PppoeSkb
variable (skb : PppoeSkb)

def code : UInt8 := skb.m 15

def sid : ℕ := skb.m.be16 16

/-- `ph->length`, modulo 2^16 -/
def setLength (n : ℕ) : PppoeSkb := { skb with m := skb.m.write 18 (htonsBytes n) }

/-- `skb_pull_and_merge`, with `none` for a negative result -/
def skbPullAndMerge (src len : ℕ) : Option PppoeSkb :=
  if skb.len < src + len ∨ skb.len < len then none
  else some ⟨skb.m.write src (skb.m.read (src + len) (skb.len - (src + len))), skb.len - len,
    skb.tailroom + len⟩

/-- `__nat25_add_pppoe_tag`: what is returned, with the packet; `none` when bytes behind `tag_buf` are
copied. -/
def nat25AddPppoeTag (bigEndian : Bool) (tagBuf : Memory) : Option (ℤ × PppoeSkb) :=
  let dataLen := tagBuf.host16 bigEndian 2 + tagHdrLen
  if skb.tailroom < dataLen then some (-1, skb)
  else if tagBufSize < dataLen then none
  else
    let moved := skb.m.write (20 + dataLen) (skb.m.read 20 (pppoeLength skb.m))
    let m := moved.write 18 (htonsBytes (pppoeLength moved + dataLen))
    some (dataLen, ⟨m.write 20 (tagBuf.read 0 dataLen), skb.len + dataLen, skb.tailroom - dataLen⟩)

/-- The relay tag is made in `tag_buf`, which holds anything before, and added. -/
def addRelayTag (bigEndian : Bool) (stack : Memory) (old : List UInt8) : Option (ℤ × PppoeSkb) :=
  let tag := htonsBytes pttRelaySid ++ htonsBytes (magicCodeLen + rtlRelayTagLen + old.length) ++
    htonsBytes magicCode ++ skb.m.read 6 6 ++ old
  (skb.nat25AddPppoeTag bigEndian (stack.write 0 tag)).map fun r => (if r.1 < 0 then -1 else 0, r.2)

/-- `NAT25_INSERT` of a discovery packet -/
def nat25Insert (bigEndian : Bool) (stack : Memory) : Option (ℤ × PppoeSkb) :=
  if skb.code = 0x09 ∨ skb.code = 0x19 then
    match (nat25FindPppoeTag skb.m pttRelaySid).2 with
    | none => skb.addRelayTag bigEndian stack []
    | some pOldTag =>
      let oldTagLen := skb.m.be16 (pOldTag + 2)
      if tagBufSize < oldTagLen + tagHdrLen + magicCodeLen + rtlRelayTagLen then some (-1, skb)
      else
        match skb.skbPullAndMerge pOldTag (tagHdrLen + oldTagLen) with
        | none => some (-1, skb)
        | some merged =>
          (merged.setLength (65536 + pppoeLength merged.m - tagHdrLen - oldTagLen)).addRelayTag
            bigEndian stack (skb.m.read (pOldTag + tagHdrLen) oldTagLen)
  else some (-1, skb)

/-- `NAT25_LOOKUP` of a discovery packet -/
def nat25Lookup : ℤ × PppoeSkb :=
  if skb.code = 0x07 ∨ skb.code = 0x65 then
    match (nat25FindPppoeTag skb.m pttRelaySid).2 with
    | none => (-1, skb)
    | some ptr =>
      let tagLen := skb.m.be16 (ptr + 2)
      if skb.m.be16 ptr ≠ pttRelaySid ∨ tagLen < magicCodeLen + rtlRelayTagLen then (-1, skb)
      else if skb.m.be16 (ptr + tagHdrLen) ≠ magicCode then (-1, skb)
      else
        let skb := { skb with m := skb.m.write 0 (skb.m.read (ptr + tagHdrLen + magicCodeLen) 6) }
        let offset := if magicCodeLen + rtlRelayTagLen < tagLen then tagHdrLen else 0
        let gone := tagHdrLen + magicCodeLen + rtlRelayTagLen - offset
        match skb.skbPullAndMerge (ptr + offset) gone with
        | none => (-1, skb)
        | some merged =>
          let skb := merged.setLength (65536 + pppoeLength merged.m - gone)
          (0, if 0 < offset then
              { skb with
                m := skb.m.write (ptr + 2) (htonsBytes (tagLen - magicCodeLen - rtlRelayTagLen)) }
            else skb)
  else (-1, skb)

end PppoeSkb

/-- A tag of a discovery packet. -/
structure PppoeTag where
  type : ℕ
  data : List UInt8
  type_lt : type < 65536
  data_lt : data.length < 65536

namespace PppoeTag

def bytes (t : PppoeTag) : List UInt8 := htonsBytes t.type ++ (htonsBytes t.data.length ++ t.data)

def encode (tags : List PppoeTag) : List UInt8 := tags.flatMap bytes

end PppoeTag

open PppoeTag

/-- The data of a relay tag that leaves room for another address. -/
abbrev OldRelay : Type := {data : List UInt8 // data.length ≤ 28}

/-- The bytes that the length counts are these tags, and lie in the packet. -/
structure PppoeSkb.Holds (skb : PppoeSkb) (tags : List PppoeTag) : Prop where
  length : pppoeLength skb.m = (encode tags).length
  bytes : skb.m.read 20 (encode tags).length = encode tags
  room : 20 + (encode tags).length ≤ skb.len

/-- The relay tag of a client, if it has one. -/
def oldTags : Option OldRelay → List PppoeTag
  | none => []
  | some data => [⟨pttRelaySid, data.val, by decide, Nat.lt_of_le_of_lt data.property (by decide)⟩]

/-- What is inserted in front of the client's data. -/
def relayData (mac : List UInt8) (old : Option OldRelay) : List UInt8 :=
  htonsBytes magicCode ++ (mac ++ (old.elim [] Subtype.val))

theorem oldData_le (old : Option OldRelay) : (old.elim [] Subtype.val).length ≤ 28 := by
  cases old with
  | none => exact Nat.zero_le 28
  | some data => exact data.property

/-- The tag that is made in `tag_buf`. -/
def madeTag (mac : List UInt8) (hmac : mac.length = 6) (old : Option OldRelay) : PppoeTag where
  type := pttRelaySid
  data := relayData mac old
  type_lt := by decide
  data_lt := by
    have hle := oldData_le old
    simp only [relayData, htonsBytes, List.length_append, List.length_cons, List.length_nil, hmac]
    omega

theorem madeTag_length (mac : List UInt8) (hmac : mac.length = 6) (old : Option OldRelay) :
    (madeTag mac hmac old).data.length = 8 + (old.elim [] Subtype.val).length := by
  simp only [madeTag, relayData, htonsBytes, List.length_append, List.length_cons, List.length_nil,
    hmac]
  omega

/-- A PADI or PADR packet of a client with one relay tag at most, and room for the new one. -/
structure ClientPacket where
  skb : PppoeSkb
  front : List PppoeTag
  old : Option OldRelay
  back : List PppoeTag
  code : skb.code = 0x09 ∨ skb.code = 0x19
  sid : skb.sid = 0
  others : ∀ t ∈ front ++ back, t.type ≠ pttRelaySid
  holds : skb.Holds (front ++ oldTags old ++ back)
  room : 12 + (old.elim [] Subtype.val).length ≤ skb.tailroom + (encode (oldTags old)).length

namespace ClientPacket
variable (f : ClientPacket)

def mac : List UInt8 := f.skb.m.read 6 6

/-- The tag for the client. -/
def newTag : PppoeTag := madeTag f.mac (f.skb.m.read_length 6 6) f.old

/-- The new tag stands in front of the other ones. -/
def InsertOk (bigEndian : Bool) : Prop :=
  ∀ stack, ∃ skb, f.skb.nat25Insert bigEndian stack = some (0, skb) ∧
    skb.Holds (f.newTag :: (f.front ++ f.back)) ∧ skb.m.read 0 18 = f.skb.m.read 0 18

end ClientPacket

/-- A PADO or PADS packet that answers the client. -/
structure PppoeReply (f : ClientPacket) where
  skb : PppoeSkb
  front : List PppoeTag
  back : List PppoeTag
  code : skb.code = 0x07 ∨ skb.code = 0x65
  others : ∀ t ∈ front ++ back, t.type ≠ pttRelaySid
  holds : skb.Holds (front ++ f.newTag :: back)

namespace ClientPacket
variable (f : ClientPacket)

/-- The reply goes to the client, with the client's own relay tag. -/
def LookupOk : Prop :=
  ∀ r : PppoeReply f, ∃ skb, r.skb.nat25Lookup = (0, skb) ∧
    skb.Holds (r.front ++ oldTags f.old ++ r.back) ∧ skb.m.read 0 6 = f.mac ∧
      skb.m.read 6 12 = r.skb.m.read 6 12

def RoundTrips (bigEndian : Bool) : Prop := f.InsertOk bigEndian ∧ f.LookupOk

/-- The host is big-endian, the client's relay tag is not empty, and the length of the tags does not
overflow. -/
structure Fits (bigEndian : Bool) : Prop where
  order : bigEndian = true
  old : ∀ data ∈ f.old, data.val ≠ []
  length : (encode (f.newTag :: (f.front ++ f.back))).length < 65536

end ClientPacket

section Tags
variable {m : Memory} {p : ℕ}

/-- Parts that are read make up what is read. -/
theorem read_append {a b : List UInt8} (ha : m.read p a.length = a)
    (hb : m.read (p + a.length) b.length = b) : m.read p (a ++ b).length = a ++ b := by
  rw [List.length_append, Memory.read_add, ha, hb]

theorem be16_of_read {n : ℕ} (h : m.read p 2 = htonsBytes n) : m.be16 p = n % 65536 := by
  simp only [Memory.read_succ, htonsBytes, List.cons.injEq] at h
  rw [Memory.be16, h.1, h.2.1, UInt8.toNat_ofNat', UInt8.toNat_ofNat']
  omega

/-- The length field stands in front of the tags. -/
theorem pppoeLength_write {i : ℕ} (hi : 20 ≤ i) (bytes : List UInt8) :
    pppoeLength (m.write i bytes) = pppoeLength m :=
  Memory.be16_congr (m.write_outside (Or.inl (by omega))) (m.write_outside (Or.inl (by omega)))

theorem bytes_length (t : PppoeTag) : t.bytes.length = 4 + t.data.length := by
  simp only [bytes, htonsBytes, List.length_append, List.length_cons, List.length_nil]
  omega

theorem encode_append (a b : List PppoeTag) : encode (a ++ b) = encode a ++ encode b :=
  List.flatMap_append

theorem encode_cons (t : PppoeTag) (tags : List PppoeTag) :
    encode (t :: tags) = t.bytes ++ encode tags := rfl

/-- A tag is read from its bytes. -/
theorem read_tag {t : PppoeTag} (h : m.read p t.bytes.length = t.bytes) :
    m.be16 p = t.type ∧ m.be16 (p + 2) = t.data.length ∧
      m.read (p + tagHdrLen) t.data.length = t.data := by
  obtain ⟨htype, hrest⟩ := m.read_eq_append h
  obtain ⟨hlen, hdata⟩ := m.read_eq_append hrest
  have htype := be16_of_read htype
  have hlen := be16_of_read hlen
  rw [Nat.mod_eq_of_lt t.type_lt] at htype
  rw [Nat.mod_eq_of_lt t.data_lt] at hlen
  exact ⟨htype, hlen, hdata⟩

/-- The search goes past tags of another type. -/
theorem findTag_skip {type stop : ℕ} {tags : List PppoeTag} (htags : ∀ t ∈ tags, t.type ≠ type)
    (h : m.read p (encode tags).length = encode tags) (hstop : p + (encode tags).length ≤ stop) :
    (findTag m type stop p).2 = (findTag m type stop (p + (encode tags).length)).2 := by
  induction tags generalizing p with
  | nil => rfl
  | cons t tags ih =>
    rw [encode_cons] at h hstop
    obtain ⟨htag, hrest⟩ := m.read_eq_append h
    obtain ⟨htype, hlen, -⟩ := read_tag htag
    have hother : ¬m.be16 p = type := by
      rw [htype]
      exact htags t List.mem_cons_self
    have hnext : p + tagHdrLen + m.be16 (p + 2) = p + t.bytes.length := by
      rw [hlen, bytes_length, Nat.add_assoc]
    rw [List.length_append] at hstop
    have hinside : p < stop := by
      rw [bytes_length] at hstop
      omega
    rw [findTag, if_pos hinside, if_neg hother, encode_cons, List.length_append, ← Nat.add_assoc,
      ← ih (fun t ht => htags t (List.mem_cons_of_mem _ ht)) hrest (by omega)]
    exact congrArg (fun q => (findTag m type stop q).2) hnext

end Tags

namespace PppoeSkb
variable {skb : PppoeSkb} {front back : List PppoeTag}

theorem find_none (h : skb.Holds front) (hfront : ∀ t ∈ front, t.type ≠ pttRelaySid) :
    (nat25FindPppoeTag skb.m pttRelaySid).2 = none := by
  rw [nat25FindPppoeTag, h.length, findTag_skip hfront h.bytes (Nat.le_refl _), findTag,
    if_neg (Nat.lt_irrefl _)]

/-- The relay tag is found behind the others. -/
theorem find_some {t : PppoeTag} (h : skb.Holds (front ++ t :: back))
    (hfront : ∀ t ∈ front, t.type ≠ pttRelaySid) (ht : t.type = pttRelaySid) :
    (nat25FindPppoeTag skb.m pttRelaySid).2 = some (20 + (encode front).length) := by
  have hbytes := h.bytes
  rw [encode_append] at hbytes
  obtain ⟨hread, hrest⟩ := Memory.read_eq_append _ hbytes
  rw [encode_cons] at hrest
  obtain ⟨htag, -⟩ := Memory.read_eq_append _ hrest
  have hlength := h.length
  rw [encode_append, List.length_append, encode_cons, List.length_append, bytes_length] at hlength
  rw [nat25FindPppoeTag, hlength, findTag_skip hfront hread (by omega), findTag,
    if_pos (by omega), if_pos ((read_tag htag).1.trans ht)]

/-- Bytes in the middle of the tags are taken out. -/
theorem skbPullAndMerge_spec {a b c : List UInt8}
    (h : skb.m.read 20 (a ++ (b ++ c)).length = a ++ (b ++ c))
    (hroom : 20 + (a ++ (b ++ c)).length ≤ skb.len) :
    ∃ merged, skb.skbPullAndMerge (20 + a.length) b.length = some merged ∧
      merged.m.read 20 (a ++ c).length = a ++ c ∧ 20 + (a ++ c).length ≤ merged.len ∧
        merged.tailroom = skb.tailroom + b.length ∧
          ∀ j < 20 + a.length, merged.m j = skb.m j := by
  obtain ⟨ha, hrest⟩ := Memory.read_eq_append _ h
  obtain ⟨-, hc⟩ := Memory.read_eq_append _ hrest
  simp only [List.length_append] at hroom
  have hfits : ¬(skb.len < 20 + a.length + b.length ∨ skb.len < b.length) := by omega
  refine ⟨_, by rw [skbPullAndMerge, if_neg hfits], ?_, ?_, rfl, fun j hj => ?_⟩
  · obtain ⟨r, hr⟩ := Nat.exists_eq_add_of_le
      (show c.length ≤ skb.len - (20 + a.length + b.length) by omega)
    rw [List.length_append, Memory.read_add, Memory.read_write_disjoint _ (Or.inl (Nat.le_refl _)),
      ha]
    congr 1
    rw [hr, Memory.read_add, hc, Memory.write_append]
    rw [Memory.read_write_disjoint _ (Or.inl (Nat.le_refl _)), Memory.read_write_same]
  · simp only [List.length_append]
    omega
  · exact Memory.write_outside _ (Or.inl hj)

theorem setLength_before (n : ℕ) {j : ℕ} (hj : j < 18 ∨ 20 ≤ j) : (skb.setLength n).m j = skb.m j :=
  Memory.write_outside _ hj

theorem setLength_read (n : ℕ) {i k : ℕ} (h : i + k ≤ 18 ∨ 20 ≤ i) :
    (skb.setLength n).m.read i k = skb.m.read i k :=
  Memory.read_write_disjoint _ (h.imp_right id)

/-- The length is entered modulo 2^16. -/
theorem setLength_length (n : ℕ) : pppoeLength (skb.setLength n).m = n % 65536 :=
  be16_of_read (skb.m.read_write_same 18 (htonsBytes n))

end PppoeSkb

section Insert
variable {skb : PppoeSkb} {tags : List PppoeTag}

/-- What `tag_buf` holds. -/
theorem tagBuf_spec (mac : List UInt8) (hmac : mac.length = 6) (old : Option OldRelay)
    (stack : Memory) (bigEndian : Bool) :
    let tagBuf := stack.write 0 (htonsBytes pttRelaySid ++
      htonsBytes (magicCodeLen + rtlRelayTagLen + (old.elim [] Subtype.val).length) ++
        htonsBytes magicCode ++ mac ++ old.elim [] Subtype.val)
    tagBuf.host16 bigEndian 2 = order16 bigEndian (madeTag mac hmac old).data.length ∧
      tagBuf.read 0 (madeTag mac hmac old).bytes.length = (madeTag mac hmac old).bytes := by
  have hbytes : htonsBytes pttRelaySid ++
      htonsBytes (magicCodeLen + rtlRelayTagLen + (old.elim [] Subtype.val).length) ++
        htonsBytes magicCode ++ mac ++ old.elim [] Subtype.val = (madeTag mac hmac old).bytes := by
    have height : magicCodeLen + rtlRelayTagLen = 8 := rfl
    rw [PppoeTag.bytes, madeTag_length, height]
    simp only [madeTag, relayData, List.append_assoc]
  rw [hbytes]
  have hread := stack.read_write_same 0 (madeTag mac hmac old).bytes
  exact ⟨congrArg (order16 bigEndian) (read_tag hread).2.1, hread⟩

/-- The tags lie in the packet, and the length counts them modulo 2^16. -/
structure Carries (skb : PppoeSkb) (tags : List PppoeTag) : Prop where
  length : pppoeLength skb.m = (encode tags).length % 65536
  bytes : skb.m.read 20 (encode tags).length = encode tags
  room : 20 + (encode tags).length ≤ skb.len

theorem Carries.holds (h : Carries skb tags) (hlt : (encode tags).length < 65536) :
    skb.Holds tags := ⟨h.length.trans (Nat.mod_eq_of_lt hlt), h.bytes, h.room⟩

/-- A host that reads the length as it stands adds the tag. -/
theorem addRelayTag_bigEndian (h : skb.Holds tags) (old : Option OldRelay) (stack : Memory)
    (hroom : 12 + (old.elim [] Subtype.val).length ≤ skb.tailroom) :
    ∃ skb', skb.addRelayTag true stack (old.elim [] Subtype.val) = some (0, skb') ∧
      Carries skb' (madeTag (skb.m.read 6 6) (skb.m.read_length 6 6) old :: tags) ∧
        skb'.m.read 0 18 = skb.m.read 0 18 := by
  obtain ⟨hlen, hbuf⟩ := tagBuf_spec (skb.m.read 6 6) (skb.m.read_length 6 6) old stack true
  have hdata := madeTag_length (skb.m.read 6 6) (skb.m.read_length 6 6) old
  have hold := oldData_le old
  generalize madeTag (skb.m.read 6 6) (skb.m.read_length 6 6) old = t at hlen hbuf hdata ⊢
  have hsize : t.bytes.length = 12 + (old.elim [] Subtype.val).length := by
    rw [bytes_length, hdata]
    omega
  have hcount : order16 true t.data.length + tagHdrLen = t.bytes.length := by
    rw [bytes_length, Nat.add_comm]
    rfl
  have hsmall : ¬skb.tailroom < t.bytes.length := by omega
  have hbuffer : ¬tagBufSize < t.bytes.length := by
    simp only [tagBufSize]
    omega
  have hnonneg : ¬((t.bytes.length : ℤ) < 0) := by omega
  have hmoved : pppoeLength (skb.m.write (20 + t.bytes.length) (skb.m.read 20 (pppoeLength skb.m))) =
      (encode tags).length := by
    rw [pppoeLength_write (Nat.le_add_right 20 _), h.length]
  rw [PppoeSkb.addRelayTag, PppoeSkb.nat25AddPppoeTag]
  simp only [hlen, hcount, if_neg hsmall, if_neg hbuffer, hbuf, Option.map_some, hmoved,
    if_neg hnonneg]
  refine ⟨_, rfl, ⟨?_, ?_, ?_⟩, ?_⟩
  · have hlength := be16_of_read (Memory.read_write_same
      (skb.m.write (20 + t.bytes.length) (skb.m.read 20 (pppoeLength skb.m))) 18
      (htonsBytes ((encode tags).length + t.bytes.length)))
    rw [encode_cons, List.length_append, Nat.add_comm t.bytes.length, ← hlength]
    exact pppoeLength_write (Nat.le_refl 20) _
  · rw [encode_cons, List.length_append, Memory.read_add, Memory.read_write_same,
      Memory.read_write_disjoint _ (Or.inr (Nat.le_refl _)),
      Memory.read_write_disjoint _ (Or.inr (Nat.le_add_right 20 _))]
    congr 1
    rw [h.length, h.bytes, Memory.read_write_same]
  · have hroom' := h.room
    rw [encode_cons, List.length_append]
    simp only
    omega
  · rw [Memory.read_write_disjoint _ (Or.inl (by decide)),
      Memory.read_write_disjoint _ (Or.inl (by decide)),
      Memory.read_write_disjoint _ (Or.inl (by omega))]

/-- On another host, the length with its bytes exchanged is larger than `tag_buf`. -/
theorem addRelayTag_littleEndian (old : Option OldRelay) (stack : Memory) (skb' : PppoeSkb) :
    skb.addRelayTag false stack (old.elim [] Subtype.val) ≠ some (0, skb') := by
  obtain ⟨hlen, -⟩ := tagBuf_spec (skb.m.read 6 6) (skb.m.read_length 6 6) old stack false
  have hdata := madeTag_length (skb.m.read 6 6) (skb.m.read_length 6 6) old
  have hold := oldData_le old
  generalize madeTag (skb.m.read 6 6) (skb.m.read_length 6 6) old = t at hlen hdata
  have hbuffer : tagBufSize < order16 false t.data.length + tagHdrLen := by
    simp only [order16, tagBufSize, Bool.false_eq_true, if_false]
    omega
  rw [PppoeSkb.addRelayTag, PppoeSkb.nat25AddPppoeTag]
  simp only [hlen, if_pos hbuffer]
  split
  · simp
  · simp

end Insert

namespace ClientPacket
variable {f : ClientPacket}

theorem others_front (f : ClientPacket) : ∀ t ∈ f.front, t.type ≠ pttRelaySid :=
  fun t ht => f.others t (List.mem_append_left _ ht)

/-- The client's tag, if there is one, is taken out before the new one is added. -/
theorem nat25Insert_eq (f : ClientPacket) (bigEndian : Bool) (stack : Memory) :
    ∃ skb : PppoeSkb, f.skb.nat25Insert bigEndian stack =
        skb.addRelayTag bigEndian stack (f.old.elim [] Subtype.val) ∧
      skb.Holds (f.front ++ f.back) ∧ 12 + (f.old.elim [] Subtype.val).length ≤ skb.tailroom ∧
        skb.m.read 0 18 = f.skb.m.read 0 18 := by
  have hholds := f.holds
  have hroom := f.room
  rw [PppoeSkb.nat25Insert, if_pos f.code]
  cases hold : f.old with
  | none =>
    simp only [hold, oldTags, List.append_nil] at hholds hroom
    rw [PppoeSkb.find_none hholds f.others]
    exact ⟨f.skb, rfl, hholds, hroom, rfl⟩
  | some data =>
    simp only [hold, oldTags, List.append_assoc, List.singleton_append] at hholds hroom
    generalize ht : (⟨pttRelaySid, data.val, _, _⟩ : PppoeTag) = t at hholds hroom
    have htype : t.type = pttRelaySid := by rw [← ht]
    have hdata : t.data = data.val := by rw [← ht]
    have hbytes := hholds.bytes
    have hinside := hholds.room
    have hlength := hholds.length
    rw [encode_append, encode_cons] at hbytes hinside hlength
    obtain ⟨-, hrest⟩ := Memory.read_eq_append _ hbytes
    obtain ⟨htag, -⟩ := Memory.read_eq_append _ hrest
    obtain ⟨-, hlen, hread⟩ := read_tag htag
    obtain ⟨merged, hmerge, hkept, hfits, htail, hsame⟩ :=
      PppoeSkb.skbPullAndMerge_spec hbytes hinside
    have hsmall : ¬tagBufSize < t.data.length + tagHdrLen + magicCodeLen + rtlRelayTagLen := by
      have := data.property
      rw [hdata]
      simp only [tagBufSize, tagHdrLen, magicCodeLen, rtlRelayTagLen]
      omega
    have hcount : tagHdrLen + t.data.length = t.bytes.length := (bytes_length t).symm
    rw [PppoeSkb.find_some hholds f.others_front htype]
    simp only [Option.elim_some, ← hdata, hlen, if_neg hsmall, hcount, hmerge, hread]
    have hcounted : pppoeLength merged.m = (encode f.front).length + (tagHdrLen + t.data.length +
        (encode f.back).length) := by
      have hsamelen : pppoeLength merged.m = pppoeLength f.skb.m :=
        Memory.be16_congr (hsame 18 (by omega)) (hsame 19 (by omega))
      rw [hsamelen, hlength, List.length_append, List.length_append, bytes_length]
    have hsmallLength : pppoeLength merged.m < 65536 := merged.m.be16_lt 18
    refine ⟨_, rfl, ⟨?_, ?_, ?_⟩, ?_, ?_⟩
    · rw [PppoeSkb.setLength_length, encode_append, List.length_append]
      omega
    · rw [PppoeSkb.setLength_read _ (Or.inr (Nat.le_refl 20)), encode_append]
      exact hkept
    · rw [encode_append]
      exact hfits
    · change _ ≤ merged.tailroom
      rw [htail]
      have hnil : (encode []).length = 0 := rfl
      simp only [Option.elim_some, encode_cons, List.length_append, hnil] at hroom
      rw [hdata]
      omega
    · rw [PppoeSkb.setLength_read _ (Or.inl (Nat.le_refl 18))]
      exact Memory.read_congr fun j _ hj => hsame j (by omega)

theorem insertOk_iff (f : ClientPacket) (bigEndian : Bool) : f.InsertOk bigEndian ↔
    bigEndian = true ∧ (encode (f.newTag :: (f.front ++ f.back))).length < 65536 := by
  constructor
  · intro h
    obtain ⟨skb', hinsert, hholds, -⟩ := h fun _ => 0
    obtain ⟨skb, heq, -, -, -⟩ := f.nat25Insert_eq bigEndian fun _ => 0
    constructor
    · by_contra hlittle
      rw [heq, Bool.eq_false_iff.mpr hlittle] at hinsert
      exact addRelayTag_littleEndian f.old _ skb' hinsert
    · rw [← hholds.length]
      exact skb'.m.be16_lt 18
  · rintro ⟨rfl, hlength⟩ stack
    obtain ⟨skb, heq, hholds, hroom, hheader⟩ := f.nat25Insert_eq true stack
    obtain ⟨skb', hadd, hcarries, hsame⟩ := addRelayTag_bigEndian hholds f.old stack hroom
    have hmac : skb.m.read 6 6 = f.mac := by
      have hpart := fun m : Memory => (m.read_take_drop (s := 0) (i := 6) (n := 6) (l := 18)
        (by decide)).symm
      rw [mac, hpart, hpart, hheader]
    have hnew : madeTag (skb.m.read 6 6) (skb.m.read_length 6 6) f.old = f.newTag := by
      simp only [newTag, hmac]
    rw [hnew] at hcarries
    exact ⟨skb', heq.trans hadd, hcarries.holds hlength, hsame.trans hheader⟩

end ClientPacket

namespace PppoeReply
variable {f : ClientPacket} (r : PppoeReply f)

/-- The place of the client's tag. -/
def ptr : ℕ := 20 + (encode r.front).length

/-- The reply with the client as its destination. -/
def addressed : PppoeSkb := { r.skb with m := r.skb.m.write 0 f.mac }

theorem mac_length (f : ClientPacket) : f.mac.length = 6 := f.skb.m.read_length 6 6

theorem newTag_bytes (f : ClientPacket) : f.newTag.bytes = htonsBytes pttRelaySid ++
    (htonsBytes f.newTag.data.length ++ (htonsBytes magicCode ++ (f.mac ++ f.old.elim [] Subtype.val))) :=
  rfl

theorem newTag_length (f : ClientPacket) :
    f.newTag.data.length = 8 + (f.old.elim [] Subtype.val).length :=
  madeTag_length f.mac (mac_length f) f.old

/-- The tags stay where they are when the destination is entered. -/
theorem addressed_holds : r.addressed.Holds (r.front ++ f.newTag :: r.back) := by
  have hsmall : ∀ i, 6 ≤ i → r.addressed.m i = r.skb.m i :=
    fun i hi => Memory.write_outside _ (Or.inr (by rw [mac_length]; omega))
  refine ⟨?_, ?_, r.holds.room⟩
  · rw [← r.holds.length]
    exact Memory.be16_congr (hsmall 18 (by decide)) (hsmall 19 (by decide))
  · rw [← r.holds.bytes, Memory.read_length]
    exact Memory.read_congr fun j hj _ => hsmall j (by omega)

/-- The search finds the client's tag, and what it looks at is as it was made. -/
theorem nat25Lookup_eq : r.skb.nat25Lookup =
    let offset := if 8 < f.newTag.data.length then 4 else 0
    match r.addressed.skbPullAndMerge (r.ptr + offset) (12 - offset) with
    | none => (-1, r.addressed)
    | some merged =>
      let skb := merged.setLength (65536 + pppoeLength merged.m - (12 - offset))
      (0, if 0 < offset then
          { skb with m := skb.m.write (r.ptr + 2) (htonsBytes (f.newTag.data.length - 2 - 6)) }
        else skb) := by
  have hbytes := r.holds.bytes
  rw [encode_append, encode_cons] at hbytes
  obtain ⟨-, hrest⟩ := Memory.read_eq_append _ hbytes
  obtain ⟨htag, -⟩ := Memory.read_eq_append _ hrest
  obtain ⟨htype, hlen, hdata⟩ := read_tag htag
  obtain ⟨hmagic, hbehind⟩ := Memory.read_eq_append _ hdata
  obtain ⟨hmac, -⟩ := Memory.read_eq_append _ hbehind
  have hplace : r.skb.m.be16 r.ptr = pttRelaySid := htype
  have htagLen : r.skb.m.be16 (r.ptr + 2) = f.newTag.data.length := hlen
  have hcode : r.skb.m.be16 (r.ptr + tagHdrLen) = magicCode := be16_of_read hmagic
  have hclient : r.skb.m.read (r.ptr + tagHdrLen + magicCodeLen) 6 = f.mac := by
    rw [mac_length] at hmac
    exact hmac
  have hlong : ¬f.newTag.data.length < magicCodeLen + rtlRelayTagLen := by
    rw [newTag_length]
    exact Nat.not_lt.mpr (Nat.le_add_right 8 _)
  rw [PppoeSkb.nat25Lookup, if_pos r.code, PppoeSkb.find_some r.holds
    (fun t ht => r.others t (List.mem_append_left _ ht)) rfl]
  change (if r.skb.m.be16 r.ptr ≠ pttRelaySid ∨
    r.skb.m.be16 (r.ptr + 2) < magicCodeLen + rtlRelayTagLen then _ else
      if r.skb.m.be16 (r.ptr + tagHdrLen) ≠ magicCode then _ else _) = _
  rw [if_neg (fun h => h.elim (fun hne => hne hplace) (by rw [htagLen]; exact hlong)),
    if_neg (fun hne => hne hcode)]
  simp only [ptr] at htagLen hclient ⊢
  simp only [htagLen, hclient]
  rfl

/-- The client's address is the destination, and nothing else in front of the length has changed. -/
def Addressed (skb : PppoeSkb) : Prop :=
  skb.m.read 0 6 = f.mac ∧ skb.m.read 6 12 = r.skb.m.read 6 12

theorem addressed_of_same {skb : PppoeSkb} (h : ∀ j < 18, skb.m j = r.addressed.m j) :
    r.Addressed skb := by
  constructor
  · rw [Memory.read_congr fun j _ hj => h j (by omega)]
    have hread := r.skb.m.read_write_same 0 f.mac
    rwa [mac_length] at hread
  · rw [Memory.read_congr fun j _ hj => h j (by omega)]
    exact Memory.read_write_disjoint _ (Or.inr (by rw [mac_length]))

/-- A tag with nothing but the client's address is taken out. -/
theorem lookup_whole (hold : f.old.elim [] Subtype.val = []) :
    ∃ skb, r.skb.nat25Lookup = (0, skb) ∧ skb.Holds (r.front ++ r.back) ∧ r.Addressed skb := by
  have hholds := r.addressed_holds
  have hbytes := hholds.bytes
  have hroom := hholds.room
  have hlength := hholds.length
  have height : f.newTag.data.length = 8 := by rw [newTag_length, hold, List.length_nil]
  have hsize : f.newTag.bytes.length = 12 := by rw [bytes_length, height]
  rw [encode_append, encode_cons] at hbytes hroom hlength
  obtain ⟨merged, hmerge, hkept, hfits, -, hsame⟩ := PppoeSkb.skbPullAndMerge_spec hbytes hroom
  rw [hsize] at hmerge
  have hcounted : pppoeLength merged.m = (encode r.front).length + (12 + (encode r.back).length) := by
    have hsamelen : pppoeLength merged.m = pppoeLength r.addressed.m :=
      Memory.be16_congr (hsame 18 (by omega)) (hsame 19 (by omega))
    rw [hsamelen, hlength, List.length_append, List.length_append, hsize]
  have hlt : pppoeLength merged.m < 65536 := merged.m.be16_lt 18
  have hresult : r.skb.nat25Lookup = (0, merged.setLength (65536 + pppoeLength merged.m - 12)) := by
    have hgone : r.addressed.skbPullAndMerge (r.ptr + 0) (12 - 0) = some merged := hmerge
    rw [nat25Lookup_eq, height]
    simp only [Nat.lt_irrefl, if_false, hgone]
  refine ⟨_, hresult, ⟨?_, ?_, ?_⟩, r.addressed_of_same fun j hj => ?_⟩
  · rw [PppoeSkb.setLength_length, encode_append, List.length_append]
    omega
  · rw [PppoeSkb.setLength_read _ (Or.inr (Nat.le_refl 20)), encode_append]
    exact hkept
  · rw [encode_append]
    exact hfits
  · rw [PppoeSkb.setLength_before _ (Or.inl hj)]
    exact hsame j (by omega)

/-- The client's own tag is left of a longer one. -/
theorem lookup_part {data : OldRelay} (hold : f.old = some data) (hne : data.val ≠ []) :
    ∃ skb, r.skb.nat25Lookup = (0, skb) ∧
      skb.Holds (r.front ++ oldTags (some data) ++ r.back) ∧ r.Addressed skb := by
  have hholds := r.addressed_holds
  have hbytes := hholds.bytes
  have hroom := hholds.room
  have hlength := hholds.length
  have hpos := List.length_pos_iff.mpr hne
  have hsize : f.newTag.data.length = 8 + data.val.length := by
    rw [newTag_length, hold]
    rfl
  have hsplit : encode (r.front ++ f.newTag :: r.back) =
      (encode r.front ++ (htonsBytes pttRelaySid ++ htonsBytes f.newTag.data.length)) ++
        ((htonsBytes magicCode ++ f.mac) ++ (data.val ++ encode r.back)) := by
    rw [encode_append, encode_cons, newTag_bytes, hold]
    simp only [List.append_assoc, Option.elim_some]
  rw [hsplit] at hbytes hroom hlength
  obtain ⟨merged, hmerge, hkept, hfits, -, hsame⟩ := PppoeSkb.skbPullAndMerge_spec hbytes hroom
  have hfront : (encode r.front ++ (htonsBytes pttRelaySid ++
      htonsBytes f.newTag.data.length)).length = (encode r.front).length + 4 := by
    rw [List.length_append]
    rfl
  have hgone : (htonsBytes magicCode ++ f.mac).length = 8 := by
    rw [List.length_append, mac_length]
    rfl
  rw [hfront, hgone] at hmerge
  rw [hfront] at hsame
  rw [List.length_append, hfront] at hfits
  rw [List.length_append, hfront, List.length_append, hgone] at hlength
  rw [List.append_assoc, List.append_assoc] at hkept
  have hcounted : pppoeLength merged.m = (encode r.front).length + 4 +
      (8 + (data.val ++ encode r.back).length) := by
    have hsamelen : pppoeLength merged.m = pppoeLength r.addressed.m :=
      Memory.be16_congr (hsame 18 (by omega)) (hsame 19 (by omega))
    rw [hsamelen, hlength]
  have hlt : pppoeLength merged.m < 65536 := merged.m.be16_lt 18
  let skb := merged.setLength (65536 + pppoeLength merged.m - 8)
  have hresult : r.skb.nat25Lookup =
      (0, { skb with m := skb.m.write (r.ptr + 2) (htonsBytes data.val.length) }) := by
    have hlong : 8 < f.newTag.data.length := by omega
    have hshort : f.newTag.data.length - 2 - 6 = data.val.length := by omega
    have hmiddle : r.addressed.skbPullAndMerge (r.ptr + 4) (12 - 4) = some merged := hmerge
    rw [nat25Lookup_eq]
    simp only [if_pos hlong, hmiddle, hshort, skb]
    rfl
  have htags : encode (r.front ++ oldTags (some data) ++ r.back) = encode r.front ++
      (htonsBytes pttRelaySid ++ (htonsBytes data.val.length ++ (data.val ++ encode r.back))) := by
    rw [encode_append, encode_append]
    simp only [oldTags, encode_cons, PppoeTag.bytes, List.append_assoc]
    rfl
  have hsizes : (encode (r.front ++ oldTags (some data) ++ r.back)).length =
      (encode r.front).length + 4 + (data.val ++ encode r.back).length := by
    rw [htags, List.length_append, List.length_append, List.length_append]
    simp only [htonsBytes, List.length_cons, List.length_nil]
    omega
  have hpart : ∀ i n, i + n ≤ r.ptr + 2 ∨ r.ptr + 4 ≤ i → 20 ≤ i →
      (skb.m.write (r.ptr + 2) (htonsBytes data.val.length)).read i n = merged.m.read i n := by
    intro i n h hi
    rw [Memory.read_write_disjoint _ h, PppoeSkb.setLength_read _ (Or.inr hi)]
  refine ⟨_, hresult, ⟨?_, ?_, ?_⟩, r.addressed_of_same fun j hj => ?_⟩
  · have hplace : 20 ≤ r.ptr + 2 := by
      rw [ptr]
      omega
    rw [hsizes, pppoeLength_write hplace, PppoeSkb.setLength_length]
    omega
  · obtain ⟨hread, hrest⟩ := Memory.read_eq_append _ hkept
    obtain ⟨htype, hrest⟩ := Memory.read_eq_append _ hrest
    obtain ⟨-, hdata⟩ := Memory.read_eq_append _ hrest
    rw [htags]
    apply read_append
    · exact (hpart _ _ (Or.inl (by rw [ptr]; omega)) (Nat.le_refl 20)).trans hread
    · apply read_append
      · exact (hpart r.ptr 2 (Or.inl (Nat.le_refl _)) (Nat.le_add_right 20 _)).trans htype
      · apply read_append
        · exact Memory.read_write_same _ _ _
        · have hbehind : 20 ≤ r.ptr + 4 := by
            rw [ptr]
            omega
          exact (hpart (r.ptr + 4) _ (Or.inr (Nat.le_refl _)) hbehind).trans hdata
  · rw [hsizes]
    exact hfits
  · have hplace : j < r.ptr + 2 := by
      rw [ptr]
      omega
    apply (skb.m.write_outside (Or.inl hplace)).trans
    rw [PppoeSkb.setLength_before _ (Or.inl hj)]
    exact hsame j (by omega)

end PppoeReply
namespace ClientPacket

/-- A PADO packet with the client's tag only. -/
def replyMemory (f : ClientPacket) : Memory :=
  ((Memory.write (fun _ => 0) 15 [0x07]).write 18 (htonsBytes (encode [f.newTag]).length)).write 20
    (encode [f.newTag])

theorem replyMemory_code (f : ClientPacket) : f.replyMemory 15 = 0x07 := by
  rw [replyMemory, Memory.write_outside _ (Or.inl (by decide)),
    Memory.write_outside _ (Or.inl (by decide))]
  rfl

theorem replyMemory_length (f : ClientPacket) :
    pppoeLength f.replyMemory = (encode [f.newTag]).length := by
  have hle := oldData_le f.old
  have hsize : (encode [f.newTag]).length = 12 + (f.old.elim [] Subtype.val).length := by
    rw [encode_cons, List.length_append, bytes_length, PppoeReply.newTag_length]
    have hnil : (encode []).length = 0 := rfl
    omega
  rw [replyMemory, pppoeLength_write (Nat.le_refl 20)]
  have hlength := be16_of_read ((Memory.write (fun _ => 0) 15 [0x07]).read_write_same 18
    (htonsBytes (encode [f.newTag]).length))
  rw [Nat.mod_eq_of_lt (by omega)] at hlength
  exact hlength

def shortReply (f : ClientPacket) : PppoeReply f where
  skb := ⟨f.replyMemory, 20 + (encode [f.newTag]).length, 0⟩
  front := []
  back := []
  code := Or.inl f.replyMemory_code
  others := by simp
  holds := ⟨f.replyMemory_length, Memory.read_write_same _ _ _, Nat.le_refl _⟩

/-- An empty relay tag does not come back. -/
theorem lookupOk_iff (f : ClientPacket) : f.LookupOk ↔ ∀ data ∈ f.old, data.val ≠ [] := by
  constructor
  · rintro h data hold hempty
    have hsome : f.old = some data := hold
    obtain ⟨skb, hlookup, hholds, -⟩ := h f.shortReply
    obtain ⟨skb', hlookup', hholds', -⟩ := f.shortReply.lookup_whole (by
      rw [hsome]
      exact hempty)
    obtain ⟨-, rfl⟩ := Prod.mk.inj (hlookup.symm.trans hlookup')
    have hlength := hholds.length.symm.trans hholds'.length
    rw [hsome, encode_append, encode_append, encode_append] at hlength
    simp only [oldTags, encode_cons, List.length_append, bytes_length] at hlength
    omega
  · intro hne r
    cases hold : f.old with
    | none =>
      obtain ⟨skb, hlookup, hholds, haddr⟩ := r.lookup_whole (by rw [hold]; rfl)
      refine ⟨skb, hlookup, ?_, haddr⟩
      rw [oldTags, List.append_nil]
      exact hholds
    | some data =>
      obtain ⟨skb, hlookup, hholds, haddr⟩ := r.lookup_part hold (hne data hold)
      exact ⟨skb, hlookup, hholds, haddr⟩

/-- The relay tag makes its round trip on a big-endian host, unless the client's own is empty. -/
theorem relayTag_roundTrips_iff (f : ClientPacket) (bigEndian : Bool) :
    f.RoundTrips bigEndian ↔ f.Fits bigEndian := by
  rw [RoundTrips, insertOk_iff, lookupOk_iff]
  constructor
  · rintro ⟨⟨horder, hlength⟩, hold⟩
    exact ⟨horder, hold, hlength⟩
  · rintro ⟨horder, hold, hlength⟩
    exact ⟨⟨horder, hlength⟩, hold⟩

/-- A PADI packet without tags, and much room behind it. -/
def padi : ClientPacket where
  skb :=
    { m := fun i => [0xff, 0xff, 0xff, 0xff, 0xff, 0xff, 0x00, 0x1b, 0x21, 0x0a, 0x0b, 0x0c, 0x88,
        0x63, 0x11, 0x09].getD i 0
      len := 20
      tailroom := 4096 }
  front := []
  old := none
  back := []
  code := Or.inl rfl
  sid := rfl
  others := by simp
  holds := ⟨rfl, rfl, Nat.le_refl 20⟩
  room := by decide

/-- A little-endian host copies 2052 bytes of the 40. -/
theorem padi_lost : ¬padi.RoundTrips false := by
  rw [RoundTrips, insertOk_iff]
  exact fun h => Bool.false_ne_true h.1.1

end ClientPacket
end Rtl8188eu.BrExt
