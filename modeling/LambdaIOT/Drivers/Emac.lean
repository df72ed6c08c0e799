import LambdaIOT.Lib.Ring
import LambdaIOT.Lwip.Pbuf

/-!
# The Ethernet driver (`lpc_emac.c`)

The driver and the MAC share two rings of descriptors. On the transmit side the
driver produces (`EMAC_SendPBuf` fills the descriptor at `TxProduceIndex` and moves
the index) and the MAC consumes; on the receive side the MAC produces and the driver
consumes (`EMAC_ReceivePBuf`). A descriptor stands here together with the buffer it
points to, which is the descriptor's own.

`ETH_PAD_SIZE` is 2 in the build: lwIP keeps two bytes in front of the Ethernet header.
-/

namespace Emac

open CMem Lwip Pbuf

/-! ## Constants -/

def numTxFrag : Nat := 5

def numRxFrag : Nat := 5

def ethMaxFlen : Nat := 1536

def ethPadSize : Nat := 2

def tctrlLast : Nat := 0x40000000

def rinfoSize : Nat := 0x000007FF

def rinfoFailFilt : Nat := 0x00100000

def rinfoCrcErr : Nat := 0x00800000

def rinfoSymErr : Nat := 0x01000000

def rinfoLenErr : Nat := 0x02000000

def rinfoAlignErr : Nat := 0x08000000

def rinfoOverrun : Nat := 0x10000000

def rinfoErrMask : Nat :=
  rinfoFailFilt ||| rinfoCrcErr ||| rinfoSymErr ||| rinfoLenErr ||| rinfoAlignErr |||
    rinfoOverrun

/-! ## How full a ring is -/

/-- `EMAC_BUFF_STATUS`. -/
inductive BuffSts where
  | empty
  | partialFull
  | full
  deriving DecidableEq, Repr

/-- `EMAC_GetBufferSts` on the index registers of one ring; `maxFragNum` is
`DescriptorNumber + 1`. -/
def getBufferSts (consumeIdx produceIdx maxFragNum : Nat) : BuffSts :=
  if consumeIdx = produceIdx then .empty
  else if consumeIdx = 0 ∧ produceIdx = maxFragNum - 1 then .full
  else if consumeIdx = produceIdx + 1 then .full
  else .partialFull

/-- The status of a ring. -/
def ringSts {α : Type} (r : SlotRing α) : BuffSts := getBufferSts r.consume r.produce r.size

@[simp] theorem ringSts_eq_empty {α : Type} (r : SlotRing α) :
    ringSts r = .empty ↔ r.consume = r.produce := by
  rw [ringSts, getBufferSts]
  constructor
  · intro h
    by_contra hne
    rw [if_neg hne] at h
    split at h
    · cases h
    · split at h <;> cases h
  · intro h
    rw [if_pos h]

/-- The driver's test for a full ring is that there is no room for one more. -/
theorem ringSts_eq_full {α : Type} {r : SlotRing α} (hsize : 1 < r.size) :
    ringSts r = .full ↔ r.Full := by
  have hc : r.consume < r.size := r.consume_lt
  have hp : r.produce < r.size := r.produce_lt
  change getBufferSts r.consume r.produce r.size = .full ↔ SlotRing.next r.size r.produce = r.consume
  rw [getBufferSts, SlotRing.next]
  constructor
  · intro h
    split at h
    · cases h
    · split at h
      · split <;> omega
      · split at h
        · split <;> omega
        · cases h
  · intro h
    split at h
    · rw [if_neg (by omega), if_pos (by omega)]
    · rw [if_neg (by omega), if_neg (by omega), if_pos h.symm]

/-! ## Sending -/

/-- A transmit descriptor: its control word and its buffer. -/
structure TxDesc where
  ctrl : Nat
  packet : Bytes
  size : packet.length = ethMaxFlen
  deriving DecidableEq, Repr

/-- A frame as lwIP hands it over: a chain with correct totals, at most `netif->mtu` (1500) bytes
behind an Ethernet header of 14. -/
structure TxFrame where
  chain : List Pbuf
  nonempty : chain ≠ []
  totalled : Totalled chain
  fits : (data chain).length ≤ 1514

/-- The variables of the copy loop: the halfword being put together, how many of its
bytes are there, and what was written through `pCopyTo`. -/
structure CopyState where
  wordBuf : UInt8 × UInt8
  count : Nat
  written : Bytes

/-- One byte of a block: `pFrom[count++] = block[i++]`, and the halfword when it is full. -/
def copyByte (s : CopyState) (b : UInt8) : CopyState :=
  if s.count = 0 then { s with wordBuf := (b, s.wordBuf.2), count := 1 }
  else { wordBuf := (s.wordBuf.1, b), count := 0, written := s.written ++ [s.wordBuf.1, b] }

/-- The inner loop over one pbuf of the chain. -/
def copyBlock (s : CopyState) (q : Pbuf) : CopyState := q.payload.foldl copyByte s

/-- Both loops and the last halfword of an odd frame; `wordBuf` starts as the stack has it. -/
def copyChain (p : List Pbuf) (wordBuf : UInt8 × UInt8) : Bytes :=
  let s := p.foldl copyBlock ⟨wordBuf, 0, []⟩
  if s.count > 0 then s.written ++ [s.wordBuf.1, s.wordBuf.2] else s.written

/-- What `EMAC_SendPBuf` does to the descriptor at `TxProduceIndex`. -/
def fillDesc (p : List Pbuf) (wordBuf : UInt8 × UInt8) (d : TxDesc) : TxDesc where
  ctrl := chainTotLen p ||| tctrlLast
  packet := store d.packet 0 (copyChain p wordBuf)
  size := by rw [length_store, d.size]

/-- `EMAC_SendPBuf` up to the last use of the descriptor. -/
def sendFill (f : TxFrame) (wordBuf : UInt8 × UInt8) (r : SlotRing TxDesc) : SlotRing TxDesc :=
  r.fill (fillDesc f.chain wordBuf r.spare)

/-- `EMAC_SendPBuf`: no status is looked at before the index moves. -/
def sendPBuf (f : TxFrame) (wordBuf : UInt8 × UInt8) (r : SlotRing TxDesc) : SlotRing TxDesc :=
  (sendFill f wordBuf r).publish

/-- `tx_descr_init`; the buffers hold whatever the RAM holds. -/
def txDescrInit (ram : Fin numTxFrag → Fin ethMaxFlen → UInt8) : SlotRing TxDesc :=
  SlotRing.start (List.ofFn fun i => ⟨0, List.ofFn (ram i), List.length_ofFn⟩) (by
    rw [List.length_ofFn]
    decide)

/-! ## Receiving -/

/-- A receive descriptor as the MAC leaves it: the status word and the buffer. -/
structure RxDesc where
  info : Nat
  packet : Bytes
  size : packet.length = ethMaxFlen
  deriving DecidableEq, Repr

/-- `pbuf_alloc(PBUF_RAW, _, PBUF_RAM)`: no pbuf, or one with the bytes asked for, which
hold whatever the heap holds. -/
structure PbufAlloc where
  run : Nat → Option Bytes
  size : ∀ n m, run n = some m → m.length = n

/-- `EMAC_GetRxFrameSize`. -/
def getRxFrameSize (r : SlotRing RxDesc) : Nat := (r.front.info &&& rinfoSize) + 1

/-- `n & 0xFFFE` on an `int`. -/
def evenPart (n : Int) : Nat := (n % 65536).toNat / 2 * 2

/-- The copy loop: halfwords from the buffer while both the frame and the pbuf have bytes
left (a `PBUF_RAM` pbuf has no next block). -/
def copyWords : Bytes → Int → Int → Bytes
  | b₀ :: b₁ :: source, rxLen, left =>
    if rxLen > 0 ∧ left > 0 then b₀ :: b₁ :: copyWords source (rxLen - 2) (left - 2) else []
  | _, _, _ => []

/-- The memory from the descriptor's buffer on; `beyond` is what lies behind the buffer,
which the size field of the status word can reach. -/
def source (d : RxDesc) (beyond : Fin 512 → UInt8) : Bytes := d.packet ++ List.ofFn beyond

/-- `EMAC_ReceivePBuf`. -/
def receivePBuf (alloc : PbufAlloc) (beyond : Fin 512 → UInt8) (r : SlotRing RxDesc) :
    Option Pbuf × SlotRing RxDesc :=
  if ringSts r ≠ .empty then
    if getRxFrameSize r > 0 then
      let rxLen : Int := (getRxFrameSize r : Int) - 3
      if r.front.info &&& rinfoErrMask = 0 then
        let len := evenPart (rxLen + 1) + ethPadSize
        match alloc.run (u16 len) with
        | some m =>
          let copied := copyWords (source r.front beyond) rxLen (m.length - ethPadSize)
          (some ⟨store m ethPadSize copied, m.length⟩, r.release)
        | none => (none, r.release)
      else (none, r)
    else (none, r)
  else (none, r)

/-- `rx_descr_init`. -/
def rxDescrInit (ram : Fin numRxFrag → Fin ethMaxFlen → UInt8) : SlotRing RxDesc :=
  SlotRing.start (List.ofFn fun i => ⟨0, List.ofFn (ram i), List.length_ofFn⟩) (by
    rw [List.length_ofFn]
    decide)

end Emac
