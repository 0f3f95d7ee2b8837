import StandaloneDrivers.R92su.Decryption
import StandaloneDrivers.Foundations.Run

/-! Reassembly of fragmented MSDUs: one queue for each station and access category (rx.c). -/
namespace R92su

/-- `struct r92su_defrag_entry`; `size` is an `unsigned int`. -/
structure DefragEntry where
  queue : List Skb
  size : ℕ
  deriving DecidableEq, Repr

namespace DefragEntry

/-- `defrag->size += skb->len - hdrlen` -/
def addSize (defrag : DefragEntry) (skb : Skb) : ℕ :=
  (defrag.size + (2 ^ 32 + skb.data.length - skb.hdrlen)) % 2 ^ 32

def drop (_defrag : DefragEntry) : DefragEntry := ⟨[], 0⟩

/-- The control block of a queued frame is cleared. -/
def add (defrag : DefragEntry) (skb : Skb) : DefragEntry where
  queue := defrag.queue ++ [{ skb with cb := .zero }]
  size := defrag.addSize skb

end DefragEntry

/-- The sequence number and the fragment number are compared with `&&`: only a frame that
differs in both is turned away here. -/
def checkIfMatch (skb : Skb) (defrag : DefragEntry) (key : Option Key) : Bool :=
  match defrag.queue.getLast? with
  | none => false
  | some tmp =>
      if tmp.seq ≠ skb.seq ∧ skb.frag ≠ 1 + tmp.frag then false
      else if key.map Key.type = some .aesccmp ∧ (tmp.cb.iv + 1) % 2 ^ 64 ≠ skb.cb.iv then false
      else true

/-- The queue is emptied from its tail: each frame takes the place of the header of what has
been put together so far. -/
def mergeQueue (queue : List Skb) (skb : Skb) : Skb :=
  queue.foldr (fun tmp skb => { skb with
    data := tmp.data ++ skb.pull skb.hdrlen
    clear := tmp.clear || skb.clear }) skb

/-- `defrag` is the entry of the frame's station and queue, `key` is what `rx_info->key`
points to, and `expanded` says that `pskb_expand_head` returned 0. -/
def rxDefrag (key : Option Key) (expanded : Bool) (skb : Skb) (defrag : DefragEntry) :
    RxControl × DefragEntry × Skb :=
  if hasMorefrags skb.frameControl then
    if skb.frag = 0 then (.rxQueue, defrag.drop.add skb, skb)
    else if checkIfMatch skb defrag key then (.rxQueue, defrag.add skb, skb)
    else (.rxDrop, defrag.drop, skb)
  else if skb.frag = 0 then (.rxContinue, defrag.drop, skb)
  else if !checkIfMatch skb defrag key then (.rxDrop, defrag.drop, skb)
  else if !expanded then (.rxDrop, defrag.drop, skb)
  else (.rxContinue, ⟨[], defrag.addSize skb⟩, mergeQueue defrag.queue skb)

end R92su

/-! The receive handler of rx.c: the stages every MPDU of a batch passes through, the queue of
802.3 frames between its two loops, the port check and the delivery. -/
namespace R92su
open Foundations

/-- The connected BSS and its stations, as far as the receive handler reads them. -/
structure BssPriv where
  sta : ℕ
  encSta : ℕ → Bool
  staKey : ℕ → Option ℕ
  groupKey : ℕ → Option ℕ
  controlPortEthertype : ℕ
  controlPortNoEncrypt : Bool

/-- The conversions of cfg80211, on the bytes of a frame. `to8023` fails with `none`. The
A-MSDU conversion yields the frames it appends to the list, none when it turns the frame away
at once, and `none` when it fails later and purges the list. -/
structure Conversion where
  to8023 : List UInt8 → Option (List UInt8)
  amsduTo8023s : List UInt8 → Option (List (List UInt8))

/-- `eth_type_trans` -/
def ethTypeTrans (data : List UInt8) : ℕ :=
  if be16 data 12 ≥ 1536 then be16 data 12
  else if le16 data 14 = 0xFFFF then 0x0001 else 0x0004

def rxFindKey (bss : BssPriv) (skb : Skb) : RxControl × Skb :=
  if skb.cb.hasProtect then
    match bss.groupKey ((skb.iv 3 >>> 6) &&& 3) <|> skb.cb.sta.bind bss.staKey <|>
        bss.staKey bss.sta with
    | none => (.rxDrop, skb)
    | some key => (.rxContinue, { skb with cb := { skb.cb with key := some key } })
  else (.rxContinue, skb)

def rxPortCheck (bss : BssPriv) (skb : Skb) : RxControl :=
  if bss.encSta bss.sta && !skb.cb.hasProtect then
    if bss.controlPortNoEncrypt && skb.protocol != bss.controlPortEthertype then .rxDrop
    else .rxContinue
  else .rxContinue

def isAmsdu (skb : Skb) : Bool := isDataQos skb.frameControl && skb.qosCtl &&& 0x80 != 0

/-- After an A-MSDU every frame of the queue is given the data of this MPDU, those that were
waiting there too. -/
def rxDataTo8023 (conv : Conversion) (skb : Skb) (queue : List Skb) : RxControl × List Skb :=
  if isAmsdu skb then
    let queue := match conv.amsduTo8023s skb.data with
      | none => []
      | some subframes => queue ++ subframes.map fun data => Skb.mk data .zero 0 0 skb.clear
    if queue.isEmpty then (.rxDrop, queue)
    else (.rxContinue, queue.map fun f => { f with cb := skb.cb })
  else match conv.to8023 skb.data with
    | none => (.rxDrop, queue)
    | some data => (.rxContinue, queue ++ [{ skb with data := data }])

/-- A received MPDU with its station and access category; `expanded` says whether memory is
found should it complete a reassembly. -/
structure Mpdu where
  data : List UInt8
  sta : ℕ
  queueMapping : ℕ
  expanded : Bool

/-- The frame as `r92su_rx_hw_header_check` and `r92su_rx_find_sta` leave it. -/
def Mpdu.skb (mpdu : Mpdu) : Skb where
  data := mpdu.data
  cb := ⟨some mpdu.sta, none, 0, hasProtected (le16 mpdu.data 0)⟩
  protocol := 0
  queueMapping := mpdu.queueMapping
  clear := !hasProtected (le16 mpdu.data 0)

/-- The keys, and the reassembly entries of each station and access category. -/
structure RxContext where
  keys : ℕ → Key
  defrag : Option ℕ × ℕ → DefragEntry

namespace RxContext

def defragStage (s : RxContext) (expanded : Bool) (skb : Skb) : RxControl × RxContext × Skb :=
  let entry := (skb.cb.sta, skb.queueMapping)
  let r := rxDefrag (skb.cb.key.map s.keys) expanded skb (s.defrag entry)
  (r.1, { s with defrag := Function.update s.defrag entry r.2.1 }, r.2.2)

/-- The stages before the conversion; `none` when one of them drops or keeps the frame. -/
def prepare (bss : BssPriv) (s : RxContext) (mpdu : Mpdu) : RxContext × Option Skb :=
  match rxFindKey bss mpdu.skb with
  | (.rxContinue, skb) =>
    match rxIvHandle s.keys skb with
    | (.rxContinue, skb) =>
      match rxIcvMicHandle s.keys skb with
      | (.rxContinue, keys, skb) =>
        match RxContext.defragStage { s with keys := keys } mpdu.expanded skb with
        | (.rxContinue, s, skb) =>
          match rxIvCheck s.keys skb with
          | (.rxContinue, keys) => ({ s with keys := keys }, some skb)
          | (_, keys) => ({ s with keys := keys }, none)
        | (_, s, _) => (s, none)
      | (_, keys, _) => ({ s with keys := keys }, none)
    | _ => (s, none)
  | _ => (s, none)

end RxContext

/-- What the handler works on: the queue between its two loops, the frames handed to the
network stack and those the port check dropped. -/
structure RxPath extends RxContext where
  frames : List Skb
  delivered : List Skb
  portDropped : List Skb

namespace RxPath

/-- One round of the first loop of `r92su_rx_handler`. -/
def prep (conv : Conversion) (bss : BssPriv) (s : RxPath) (mpdu : Mpdu) : RxPath :=
  let r := s.toRxContext.prepare bss mpdu
  { s with
    toRxContext := r.1
    frames := match r.2 with
      | none => s.frames
      | some skb => (rxDataTo8023 conv skb s.frames).2 }

/-- `eth_type_trans` also takes the Ethernet header off; here `data` keeps it. -/
def rxDeliver (skb : Skb) : Skb := { skb with protocol := ethTypeTrans skb.data }

/-- One round of its second loop. -/
def main (bss : BssPriv) (s : RxPath) (skb : Skb) : RxPath :=
  match rxPortCheck bss skb with
  | .rxContinue => { s with delivered := s.delivered ++ [rxDeliver skb] }
  | _ => { s with portDropped := s.portDropped ++ [skb] }

/-- The first loop, from an empty queue of frames. -/
def prepAll (conv : Conversion) (bss : BssPriv) (s : RxPath) (batch : List Mpdu) : RxPath :=
  run (prep conv bss) { s with frames := [] } batch

def rxHandler (conv : Conversion) (bss : BssPriv) (s : RxPath) (batch : List Mpdu) : RxPath :=
  let s := s.prepAll conv bss batch
  run (main bss) s s.frames

end RxPath

end R92su
