import StandaloneDrivers.Foundations.Bytes
import StandaloneDrivers.Foundations.Memory

/-! Host-to-card commands: the buffer of a command, its padding and its headers (cmd.c). -/
namespace R92su
open Foundations

/-- `H2CC2H_HDR_LEN` -/
def h2cHdrLen : ℕ := 8

/-- `TX_DESC_SIZE` -/
def txDescSize : ℕ := 32

/-- A socket buffer of `size` bytes: what is reserved in front, and the bytes behind. -/
structure CmdSkb where
  size : ℕ
  headroom : ℕ
  data : List UInt8
  deriving DecidableEq, Repr

/-- `skb_put`, which fails behind the end of the buffer. -/
def CmdSkb.put (skb : CmdSkb) (bytes : List UInt8) : Option CmdSkb :=
  if skb.headroom + skb.data.length + bytes.length ≤ skb.size then
    some { skb with data := skb.data ++ bytes }
  else none

/-- `skb_push`, which fails in front of the buffer. -/
def CmdSkb.push (skb : CmdSkb) (bytes : List UInt8) : Option CmdSkb :=
  if bytes.length ≤ skb.headroom then
    some { skb with headroom := skb.headroom - bytes.length, data := bytes ++ skb.data }
  else none

/-- `r92su_h2c_alloc` gets a buffer of the size it asks for, a `u32`. -/
def h2cAlloc (len : ℕ) : CmdSkb :=
  ⟨alignUp (len + txDescSize + h2cHdrLen) h2cHdrLen % 2 ^ 32, txDescSize + h2cHdrLen, []⟩

/-- `cpu_to_le16` -/
def le16Bytes (n : ℕ) : List UInt8 := [UInt8.ofNat n, UInt8.ofNat (n / 256)]

/-- `struct h2cc2h` with the padded length, the command and the sequence number. -/
def h2cHeader (seq len cmd : ℕ) (last : Bool) : List UInt8 :=
  le16Bytes (alignUp len h2cHdrLen) ++
    [UInt8.ofNat cmd, UInt8.ofNat (seq % 128 ||| if last then 0x80 else 0), 0, 0, 0, 0]

def h2cFillHeader (skb : CmdSkb) (seq len cmd : ℕ) (last : Bool) : Option CmdSkb :=
  skb.push (h2cHeader seq len cmd last)

/-- The first two words of the descriptor: size, offset, segments and owner, and the queue. -/
def txHeader (len : ℕ) (first last : Bool) : List UInt8 :=
  Memory.le32Bytes (len % 65536 + txDescSize * 2 ^ 16 + (if last then 2 ^ 26 else 0) +
    (if first then 2 ^ 27 else 0) + 2 ^ 31) ++
  Memory.le32Bytes (0x13 * 2 ^ 8) ++ List.replicate 24 0

def txFillHeader (skb : CmdSkb) (len : ℕ) (first last : Bool) : Option CmdSkb :=
  skb.push (txHeader len first last)

/-- The buffer that `r92su_h2c_submit` hands to `r92su_usb_tx`. -/
def h2cSubmit (skb : CmdSkb) (seq cmd : ℕ) : Option CmdSkb :=
  match h2cFillHeader skb seq skb.data.length cmd true with
  | none => none
  | some skb => txFillHeader skb skb.data.length true true

/-- `memset(skb_put(skb, rest), 0, rest)` -/
def h2cPad (skb : CmdSkb) : Option CmdSkb :=
  skb.put (List.replicate (h2cHdrLen - skb.data.length % h2cHdrLen) 0)

def h2cCopy (seq cmd : ℕ) (data : List UInt8) : Option CmdSkb :=
  match (h2cAlloc data.length).put data with
  | none => none
  | some skb =>
    match h2cPad skb with
    | none => none
    | some skb => h2cSubmit skb seq cmd

/-- `sizeof(struct h2cc2h_bss)` in bytes, of which the last twelve are the fixed elements. -/
def bssLen : ℕ := 128

/-- What `r92su_h2c_connect` is called with; `ie` may be `NULL`. -/
structure ConnectArgs where
  bss : Memory
  join : Bool
  ie : Option Memory
  ieLen : UInt32

namespace ConnectArgs
variable (c : ConnectArgs)

/-- The elements that are copied. -/
def elements : List UInt8 :=
  match c.ie with
  | none => []
  | some ie => if c.ieLen > 0 then ie.read 0 c.ieLen.toNat else []

/-- `*bss = *orig_bss` with the new `ie_length` -/
def bssBytes : List UInt8 := (c.bss.write 112 (Memory.le32Bytes (12 + c.ieLen.toNat))).read 0 bssLen

/-- The command itself, with its `length`. -/
def payload : List UInt8 :=
  overwrite (c.bssBytes ++ c.elements) 0 (Memory.le32Bytes (c.bssBytes ++ c.elements).length)

end ConnectArgs

def h2cConnect (seq : ℕ) (c : ConnectArgs) : Option CmdSkb :=
  match (h2cAlloc (bssLen + c.ieLen.toNat)).put c.bssBytes with
  | none => none
  | some skb =>
    match skb.put c.elements with
    | none => none
    | some skb =>
      let skb := { skb with data := overwrite skb.data 0 (Memory.le32Bytes skb.data.length) }
      match h2cPad skb with
      | none => none
      | some skb => h2cSubmit skb seq (if c.join then 14 else 16)

/-- A host-to-card command: a payload that is copied, or a connection. -/
inductive H2cCall where
  | copy (cmd : ℕ) (data : List UInt8) (h : data.length < 2 ^ 31)
  | connect (args : ConnectArgs)

namespace H2cCall

def payload : H2cCall → List UInt8
  | .copy _ data _ => data
  | .connect args => args.payload

def run (seq : ℕ) : H2cCall → Option CmdSkb
  | .copy cmd data _ => h2cCopy seq cmd data
  | .connect args => h2cConnect seq args

/-- The size that is asked for. -/
def requested : H2cCall → ℕ
  | .copy _ data _ => (h2cAlloc data.length).size
  | .connect args => (h2cAlloc (bssLen + args.ieLen.toNat)).size

end H2cCall

/-- The buffer behind the headers: the payload and zeros, a multiple of eight, and as long as the
header says. -/
structure CommandSound (payload : List UInt8) (skb : CmdSkb) : Prop where
  padded : ∃ n, skb.data.drop (txDescSize + h2cHdrLen) = payload ++ List.replicate n 0
  multiple : h2cHdrLen ∣ (skb.data.drop (txDescSize + h2cHdrLen)).length
  length : Foundations.le16 skb.data txDescSize =
    (skb.data.drop (txDescSize + h2cHdrLen)).length

/-- Nothing is appended or pushed behind the bounds of the buffer, and the command is sound. -/
def H2cCall.Sound (seq : ℕ) (call : H2cCall) : Prop :=
  ∃ skb, call.run seq = some skb ∧ CommandSound call.payload skb

/-- The payload has a remainder to be filled up, and its padded length is a `u16`. -/
def H2cCall.Fits : H2cCall → Prop
  | .copy _ data _ => data.length % 8 ≠ 0 ∧ data.length < 65528
  | .connect args =>
    match args.ie with
    | some _ => args.ieLen.toNat % 8 ≠ 0 ∧ args.ieLen.toNat < 65400
    -- without elements the buffer is too large by what was announced
    | none => 0 < args.ieLen.toNat ∧ args.ieLen.toNat < 2 ^ 32 - 175

variable {seq cmd : ℕ}

theorem h2cHeader_length (len : ℕ) (last : Bool) : (h2cHeader seq len cmd last).length = 8 := rfl

theorem txHeader_length (len : ℕ) (first last : Bool) : (txHeader len first last).length = 32 := rfl

/-- What is left of a command when its payload is in the buffer. -/
def h2cFinish (skb : CmdSkb) (seq cmd : ℕ) : Option CmdSkb :=
  match h2cPad skb with
  | none => none
  | some skb => h2cSubmit skb seq cmd

def padding (n : ℕ) : ℕ := h2cHdrLen - n % h2cHdrLen

/-- The headers always find their place. -/
theorem h2cSubmit_eq {skb : CmdSkb} (h : skb.headroom = txDescSize + h2cHdrLen) :
    ∃ header, header.length = txDescSize ∧ h2cSubmit skb seq cmd =
      some ⟨skb.size, 0, header ++ (h2cHeader seq skb.data.length cmd true ++ skb.data)⟩ := by
  refine ⟨txHeader (h2cHeader seq skb.data.length cmd true ++ skb.data).length true true, rfl, ?_⟩
  have hfirst : h2cFillHeader skb seq skb.data.length cmd true =
      some ⟨skb.size, txDescSize, h2cHeader seq skb.data.length cmd true ++ skb.data⟩ := by
    rw [h2cFillHeader, CmdSkb.push, h2cHeader_length, h]
    rfl
  rw [h2cSubmit, hfirst]
  simp only [txFillHeader, CmdSkb.push, txHeader_length]
  rfl

theorem padding_dvd (n : ℕ) : h2cHdrLen ∣ n + padding n := by
  unfold padding h2cHdrLen
  omega

/-- The length field holds the low half of the padded length. -/
theorem le16_h2cHeader {header data : List UInt8} (h : header.length = txDescSize)
    (hdvd : h2cHdrLen ∣ data.length) :
    Foundations.le16 (header ++ (h2cHeader seq data.length cmd true ++ data)) txDescSize =
      data.length % 65536 := by
  have hbyte : ∀ k, Foundations.byteAt (header ++ (h2cHeader seq data.length cmd true ++ data))
      (txDescSize + k) =
        Foundations.byteAt (h2cHeader seq data.length cmd true ++ data) k := by
    intro k
    rw [Foundations.byteAt, Foundations.byteAt, ← h,
      List.getD_append_right _ _ _ _ (Nat.le_add_right _ _), Nat.add_sub_cancel_left]
  have halign : alignUp data.length h2cHdrLen = data.length := alignUp_of_dvd (by decide) hdvd
  have hzero := hbyte 0
  rw [Nat.add_zero] at hzero
  rw [Foundations.le16, hzero, hbyte 1, h2cHeader, halign]
  simp only [le16Bytes, Foundations.byteAt, List.cons_append, List.getD_cons_zero,
    List.getD_cons_succ, UInt8.toNat_ofNat']
  omega

/-- A padded command is sound when its length is a `u16`. -/
theorem h2cSubmit_sound {skb : CmdSkb} {payload : List UInt8} {n : ℕ}
    (h : skb.headroom = txDescSize + h2cHdrLen)
    (hdata : skb.data = payload ++ List.replicate n 0) (hdvd : h2cHdrLen ∣ skb.data.length) :
    (∃ sent, h2cSubmit skb seq cmd = some sent ∧ CommandSound payload sent) ↔
      skb.data.length < 65536 := by
  obtain ⟨header, hheader, hsubmit⟩ := @h2cSubmit_eq seq cmd skb h
  have hdrop : (header ++ (h2cHeader seq skb.data.length cmd true ++ skb.data)).drop
      (txDescSize + h2cHdrLen) = skb.data := by
    rw [← List.append_assoc header]
    exact List.drop_left' (by rw [List.length_append, hheader, h2cHeader_length]; rfl)
  rw [hsubmit]
  simp only [Option.some.injEq]
  constructor
  · rintro ⟨sent, rfl, hsound⟩
    have hlength := hsound.length
    rw [hdrop, le16_h2cHeader hheader hdvd] at hlength
    omega
  · intro hlt
    refine ⟨_, rfl, ?_, ?_, ?_⟩
    · exact ⟨n, hdrop.trans hdata⟩
    · rw [hdrop]
      exact hdvd
    · rw [hdrop, le16_h2cHeader hheader hdvd]
      exact Nat.mod_eq_of_lt hlt

/-- A command is sound when the padding fits and the padded length is a `u16`. -/
theorem h2cFinish_sound {skb : CmdSkb} (h : skb.headroom = txDescSize + h2cHdrLen) :
    (∃ sent, h2cFinish skb seq cmd = some sent ∧ CommandSound skb.data sent) ↔
      txDescSize + h2cHdrLen + skb.data.length + padding skb.data.length ≤ skb.size ∧
        skb.data.length + padding skb.data.length < 65536 := by
  by_cases hfit : txDescSize + h2cHdrLen + skb.data.length + padding skb.data.length ≤ skb.size
  · have hpad : h2cPad skb = some { skb with
        data := skb.data ++ List.replicate (padding skb.data.length) 0 } := by
      rw [h2cPad, CmdSkb.put, if_pos (by rwa [h, List.length_replicate])]
      rfl
    have hlen : (skb.data ++ List.replicate (padding skb.data.length) (0 : UInt8)).length =
        skb.data.length + padding skb.data.length := by
      rw [List.length_append, List.length_replicate]
    have hdvd : h2cHdrLen ∣ (skb.data ++ List.replicate (padding skb.data.length) 0).length := by
      rw [hlen]
      exact padding_dvd _
    rw [h2cFinish, hpad, and_iff_right hfit, ← hlen]
    exact @h2cSubmit_sound seq cmd { skb with
      data := skb.data ++ List.replicate (padding skb.data.length) 0 } skb.data _ h rfl hdvd
  · have hnone : h2cPad skb = none := by
      rw [h2cPad, CmdSkb.put, if_neg (by rwa [h, List.length_replicate])]
    simp only [h2cFinish, hnone, hfit, false_and, reduceCtorEq, exists_false]

theorem h2cCopy_sound {data : List UInt8} (h : data.length < 2 ^ 31) :
    (∃ skb, h2cCopy seq cmd data = some skb ∧ CommandSound data skb) ↔
      data.length % 8 ≠ 0 ∧ data.length < 65528 := by
  have hsize : (h2cAlloc data.length).size = (data.length + 47) / 8 * 8 := by
    simp only [h2cAlloc, alignUp, txDescSize, h2cHdrLen]
    omega
  have hput : (h2cAlloc data.length).put data =
      some ⟨(data.length + 47) / 8 * 8, txDescSize + h2cHdrLen, data⟩ := by
    rw [CmdSkb.put, hsize, if_pos]
    · rw [← hsize]
      rfl
    · simp only [h2cAlloc, txDescSize, h2cHdrLen, List.length_nil]
      omega
  have hcopy : h2cCopy seq cmd data =
      h2cFinish ⟨(data.length + 47) / 8 * 8, txDescSize + h2cHdrLen, data⟩ seq cmd := by
    rw [h2cCopy, hput]
    rfl
  rw [hcopy]
  apply (h2cFinish_sound rfl).trans
  simp only [padding, txDescSize, h2cHdrLen]
  omega

namespace ConnectArgs
variable {c : ConnectArgs}

theorem bssBytes_length : c.bssBytes.length = bssLen := Memory.read_length _ _ _

theorem payload_length : c.payload.length = bssLen + c.elements.length := by
  rw [payload, overwrite_length, List.length_append, bssBytes_length]

/-- The bytes of a connection come into the buffer when both parts fit. -/
theorem connect_eq : h2cConnect seq c =
    if txDescSize + h2cHdrLen + c.payload.length ≤ (h2cAlloc (bssLen + c.ieLen.toNat)).size then
      h2cFinish ⟨(h2cAlloc (bssLen + c.ieLen.toNat)).size, txDescSize + h2cHdrLen, c.payload⟩ seq
        (if c.join then 14 else 16)
    else none := by
  generalize hskb : h2cAlloc (bssLen + c.ieLen.toNat) = skb
  have hhead : skb.headroom = txDescSize + h2cHdrLen := by
    rw [← hskb]
    rfl
  have hnil : skb.data = [] := by
    rw [← hskb]
    rfl
  rw [h2cConnect, hskb, payload_length]
  by_cases hbss : txDescSize + h2cHdrLen + bssLen ≤ skb.size
  · have hput : skb.put c.bssBytes = some ⟨skb.size, txDescSize + h2cHdrLen, c.bssBytes⟩ := by
      rw [CmdSkb.put, hhead, hnil, List.length_nil, Nat.add_zero, bssBytes_length, if_pos hbss]
      rfl
    rw [hput]
    by_cases hfit : txDescSize + h2cHdrLen + (bssLen + c.elements.length) ≤ skb.size
    · have helems : CmdSkb.put ⟨skb.size, txDescSize + h2cHdrLen, c.bssBytes⟩ c.elements =
          some ⟨skb.size, txDescSize + h2cHdrLen, c.bssBytes ++ c.elements⟩ := by
        rw [CmdSkb.put, bssBytes_length, Nat.add_assoc, if_pos hfit]
      simp only [helems]
      rw [if_pos hfit, h2cFinish, payload]
    · have helems : CmdSkb.put ⟨skb.size, txDescSize + h2cHdrLen, c.bssBytes⟩ c.elements =
          none := by
        rw [CmdSkb.put, bssBytes_length, Nat.add_assoc, if_neg hfit]
      simp only [helems]
      rw [if_neg hfit]
  · have hput : skb.put c.bssBytes = none := by
      rw [CmdSkb.put, hhead, hnil, List.length_nil, Nat.add_zero, bssBytes_length, if_neg hbss]
    have hfit : ¬ txDescSize + h2cHdrLen + (bssLen + c.elements.length) ≤ skb.size := by
      omega
    rw [hput, if_neg hfit]

theorem connect_sound :
    (∃ skb, h2cConnect seq c = some skb ∧ CommandSound c.payload skb) ↔
      txDescSize + h2cHdrLen + c.payload.length + padding c.payload.length ≤
        (h2cAlloc (bssLen + c.ieLen.toNat)).size ∧
      c.payload.length + padding c.payload.length < 65536 := by
  rw [connect_eq]
  by_cases hfit : txDescSize + h2cHdrLen + c.payload.length ≤
      (h2cAlloc (bssLen + c.ieLen.toNat)).size
  · rw [if_pos hfit]
    exact h2cFinish_sound rfl
  · rw [if_neg hfit]
    constructor
    · rintro ⟨skb, hskb, -⟩
      cases hskb
    · rintro ⟨hle, -⟩
      omega

end ConnectArgs

/-- A command is sound when its payload leaves a remainder, as the padding of a multiple of eight
is not in the buffer, and when its length is a `u16`. -/
theorem h2cCall_sound_iff (seq : ℕ) (call : H2cCall) : call.Sound seq ↔ call.Fits := by
  cases call with
  | copy cmd data h => exact h2cCopy_sound h
  | connect c =>
    apply ConnectArgs.connect_sound.trans
    have hlt : c.ieLen.toNat < 2 ^ 32 := c.ieLen.toNat_lt
    have hsize : (h2cAlloc (bssLen + c.ieLen.toNat)).size =
        (c.ieLen.toNat + 175) / 8 * 8 % 2 ^ 32 := by
      simp only [h2cAlloc, alignUp, txDescSize, h2cHdrLen, bssLen]
      congr 3
      omega
    rw [ConnectArgs.payload_length, hsize]
    cases hie : c.ie with
    | none =>
      have hlen : c.elements.length = 0 := by
        rw [ConnectArgs.elements, hie]
        rfl
      simp only [H2cCall.Fits, hie, hlen, padding, txDescSize, h2cHdrLen, bssLen]
      omega
    | some ie =>
      have hlen : c.elements.length = c.ieLen.toNat := by
        simp only [ConnectArgs.elements, hie]
        split
        · exact Memory.read_length _ _ _
        · rename_i hpos
          simp only [gt_iff_lt, UInt32.lt_iff_toNat_lt, UInt32.toNat_zero, Nat.not_lt,
            Nat.le_zero] at hpos
          rw [hpos, List.length_nil]
      simp only [H2cCall.Fits, hie, hlen, padding, txDescSize, h2cHdrLen, bssLen]
      omega

section Example

/-- A connection with eight bytes of elements. -/
def eightElements : ConnectArgs := ⟨fun _ => 0, true, some fun _ => 0, 8⟩

/-- Its padding takes eight bytes that the buffer does not have. -/
theorem eightElements_unsound : ¬ (H2cCall.connect eightElements).Sound 1 := by
  rw [h2cCall_sound_iff]
  exact fun h => absurd h.1 (by decide)

end Example

end R92su
