import LambdaIOT.Properties.Rings

/-!
# Frames through the driver

`EMAC_SendPBuf` copies a chain into the transmit buffer halfword by halfword, across the ends of
the chain's blocks. It gives the MAC the length of the frame where the MAC expects the length less
one, and `EMAC_ReceivePBuf`, which gets the length from a function that has put the one back, takes
off three bytes for a CRC of four. So a frame that is sent and received is longer by two.
-/

namespace Emac

open CMem Lwip Pbuf

/-! ## The transmit buffer -/

/-- The buffer behind `EMAC_SendPBuf`: the bytes of the chain, the odd byte of the last halfword,
and what was there before. -/
theorem packet_fillDesc {p : List Pbuf} (hmax : (data p).length ≤ ethMaxFlen) (w : UInt8 × UInt8)
    (d : TxDesc) : ∃ pad, pad.length = (data p).length % 2 ∧ copyChain p w = data p ++ pad ∧
      (fillDesc p w d).packet = data p ++ (pad ++ d.packet.drop (((data p).length + 1) / 2 * 2)) := by
  obtain ⟨pad, hcopy, hpad⟩ := copyChain_eq p w
  have hmax' : (data p).length ≤ 1536 := hmax
  have hsize : d.packet.length = 1536 := d.size
  refine ⟨pad, hpad, hcopy, ?_⟩
  have heven : 0 + (data p ++ pad).length = ((data p).length + 1) / 2 * 2 := by
    rw [List.length_append]
    omega
  change store d.packet 0 (copyChain p w) = _
  rw [hcopy, store_eq (by omega), heven, List.take_zero, List.nil_append, List.append_assoc]

/-- The copy loop over any chain, with empty blocks and odd ones. `tot_len` is the sum of the
lengths. -/
theorem transmit_copy {p : List Pbuf} (htot : chainTotLen p = (data p).length)
    (hmax : chainTotLen p ≤ ethMaxFlen) (w : UInt8 × UInt8) (d : TxDesc) :
    (fillDesc p w d).packet.take (chainTotLen p) = data p ∧
      (copyChain p w).length ≤ (chainTotLen p + 1) / 2 * 2 ∧
      (fillDesc p w d).packet.drop ((chainTotLen p + 1) / 2 * 2) =
        d.packet.drop ((chainTotLen p + 1) / 2 * 2) := by
  rw [htot] at hmax ⊢
  obtain ⟨pad, hpad, hcopy, hpacket⟩ := packet_fillDesc hmax w d
  refine ⟨?_, ?_, ?_⟩
  · rw [hpacket, List.take_left]
  · rw [hcopy, List.length_append]
    omega
  · rw [hpacket, ← List.append_assoc]
    apply List.drop_left'
    rw [List.length_append]
    omega

/-- Blocks of three bytes, of none and of two. -/
theorem transmit_copy_odd_blocks :
    (fillDesc [⟨[1, 2, 3], 5⟩, ⟨[], 2⟩, ⟨[4, 5], 2⟩] (0, 0)
        ⟨0, List.replicate ethMaxFlen 9, List.length_replicate⟩).packet.take 5 = [1, 2, 3, 4, 5] ∧
      (copyChain [⟨[1, 2, 3], 5⟩, ⟨[], 2⟩, ⟨[4, 5], 2⟩] (0, 0)).length ≤ 6 ∧
      (fillDesc [⟨[1, 2, 3], 5⟩, ⟨[], 2⟩, ⟨[4, 5], 2⟩] (0, 0)
        ⟨0, List.replicate ethMaxFlen 9, List.length_replicate⟩).packet.drop 6 =
        (List.replicate ethMaxFlen 9).drop 6 :=
  transmit_copy (p := [⟨[1, 2, 3], 5⟩, ⟨[], 2⟩, ⟨[4, 5], 2⟩]) rfl (by decide) (0, 0)
    ⟨0, List.replicate ethMaxFlen 9, List.length_replicate⟩

/-! ## Sent and received -/

def tctrlSize : Nat := 0x000007FF

/-- What the MAC sends for a descriptor: one byte more than its size field says, and the CRC. -/
def macSent (d : TxDesc) (crc : Fin 4 → UInt8) : Bytes :=
  d.packet.take ((d.ctrl &&& tctrlSize) + 1) ++ List.ofFn crc

/-- What the MAC leaves in a descriptor for the bytes it received without an error: the size field
is their number less one, the CRC included. -/
structure ReceivedBy (x : RxDesc) (wire : Bytes) : Prop where
  size : (x.info &&& rinfoSize) + 1 = wire.length
  errorFree : ErrorFree x
  bytes : x.packet.take wire.length = wire

/-- The call returns the frame, in a pbuf of the frame's length rounded up. -/
def ReturnsFrame (p : List Pbuf) (result : Option Pbuf) : Prop :=
  ∃ q, result = some q ∧ q.len = ethPadSize + ((data p).length + 1) / 2 * 2 ∧
    (q.payload.drop ethPadSize).take (data p).length = data p

/-- The size field of a filled descriptor is the length itself. -/
theorem ctrl_fillDesc {p : List Pbuf} (hmax : chainTotLen p < 2048) (w : UInt8 × UInt8) (d : TxDesc) :
    (fillDesc p w d).ctrl &&& tctrlSize = chainTotLen p := by
  change (chainTotLen p ||| tctrlLast) &&& tctrlSize = chainTotLen p
  have hflag : tctrlLast &&& tctrlSize = 0 := by decide
  have hmask : chainTotLen p &&& tctrlSize = chainTotLen p := by
    rw [show tctrlSize = 2 ^ 11 - 1 from rfl, Nat.and_two_pow_sub_one_eq_mod, Nat.mod_eq_of_lt hmax]
  rw [Nat.and_or_distrib_right, hflag, hmask, Nat.or_zero]

/-- A pbuf that comes back has the length that was asked for. -/
theorem len_receivePBuf {alloc : PbufAlloc} {beyond : Fin 512 → UInt8} {r : SlotRing RxDesc} {q : Pbuf}
    (hne : ringSts r ≠ .empty) (hok : ErrorFree r.front)
    (h : (receivePBuf alloc beyond r).1 = some q) : q.len = askedLength r.front := by
  have hpos : getRxFrameSize r > 0 := Nat.succ_pos _
  have hmask : r.front.info &&& rinfoErrMask = 0 := hok
  rw [receivePBuf, if_pos hne, if_pos hpos] at h
  simp only [if_pos hmask] at h
  cases hrun : alloc.run (u16 (evenPart ((getRxFrameSize r : Int) - 3 + 1) + ethPadSize)) with
  | none =>
    rw [hrun] at h
    cases h
  | some m =>
    rw [hrun] at h
    cases h
    rw [len, length_store]
    exact alloc.size _ _ hrun

section

variable {p : List Pbuf} (htot : chainTotLen p = (data p).length) (hlow : 60 ≤ (data p).length)
  (hhigh : (data p).length ≤ 1514) (w : UInt8 × UInt8) (d : TxDesc) (crc : Fin 4 → UInt8)

include htot hlow hhigh

/-- The bytes on the wire: the frame, a byte of the buffer behind it, the CRC. -/
theorem macSent_fillDesc : ∃ b, macSent (fillDesc p w d) crc = data p ++ (b :: List.ofFn crc) := by
  have hmax : (data p).length ≤ ethMaxFlen := Nat.le_trans hhigh (by decide)
  obtain ⟨pad, hpad, -, hpacket⟩ := packet_fillDesc hmax w d
  have hsize : d.packet.length = 1536 := d.size
  have hbehind : 0 < (pad ++ d.packet.drop (((data p).length + 1) / 2 * 2)).length := by
    rw [List.length_append, List.length_drop]
    omega
  rw [macSent, ctrl_fillDesc (by omega), hpacket, htot]
  obtain ⟨b, t, ht⟩ := List.exists_cons_of_length_pos hbehind
  rw [ht, List.take_append, List.take_of_length_le (by omega), Nat.add_sub_cancel_left,
    List.append_assoc]
  exact ⟨b, rfl⟩

/-- A frame comes back, if there is memory for it, in a pbuf that is two bytes too long. -/
theorem loopback_two_more (alloc : PbufAlloc) (beyond : Fin 512 → UInt8) (r : SlotRing RxDesc)
    (hne : ringSts r ≠ .empty) (hreceived : ReceivedBy r.front (macSent (fillDesc p w d) crc)) :
    ¬ReturnsFrame p (receivePBuf alloc beyond r).1 ∧
      ∀ q, (receivePBuf alloc beyond r).1 = some q →
        q.len = ethPadSize + (((data p).length + 1) / 2 * 2 + 2) ∧
        (q.payload.drop ethPadSize).take (data p).length = data p := by
  obtain ⟨b, hwire⟩ := macSent_fillDesc htot hlow hhigh w d crc
  obtain ⟨hsize, hok, hbytes⟩ := hreceived
  rw [hwire] at hsize hbytes
  simp only [List.length_append, List.length_cons, List.length_ofFn] at hsize
  have hinfo : r.front.info &&& rinfoSize = (data p).length + 4 := by omega
  have hasked : askedLength r.front = ethPadSize + (((data p).length + 1) / 2 * 2 + 2) := by
    rw [askedLength_eq (by omega), hinfo]
    omega
  have hlen : ∀ q, (receivePBuf alloc beyond r).1 = some q →
      q.len = ethPadSize + (((data p).length + 1) / 2 * 2 + 2) :=
    fun q hq => (len_receivePBuf hne hok hq).trans hasked
  refine ⟨?_, ?_⟩
  · rintro ⟨q, hq, hshort, -⟩
    have hlong := hlen q hq
    omega
  · intro q hq
    refine ⟨hlen q hq, ?_⟩
    obtain ⟨-, hcorrect⟩ := receivePBuf_errorFree alloc beyond hne hok
    have hrun : alloc.run (askedLength r.front) ≠ none := by
      intro hnone
      have hnothing := hcorrect.dropped (.inr hnone)
      rw [hq] at hnothing
      cases hnothing
    obtain ⟨q', hq', hholds⟩ := hcorrect.returned hok hrun
    obtain rfl : q = q' := Option.some.inj (hq.symm.trans hq')
    have hfront : r.front.packet.take (data p).length = data p := by
      have htake := congrArg (List.take (data p).length) hbytes
      rw [List.take_take, List.take_left, Nat.min_eq_left (by rw [List.length_append]; omega)] at htake
      exact htake
    have hframe : frameLength r.front = (data p).length + 2 := by
      rw [frameLength, hinfo]
      omega
    obtain ⟨more, hmore⟩ := hholds
    rw [← hmore, hframe, List.take_append_of_le_length, List.take_take,
      Nat.min_eq_left (by omega), hfront]
    have hpacket : r.front.packet.length = 1536 := r.front.size
    change _ ≤ (r.front.packet.take ((data p).length + 2)).length
    rw [List.length_take]
    omega

end

/-- A frame of 60 bytes in one block. -/
def shortFrame : List Pbuf := [⟨List.replicate 60 1, 60⟩]

theorem length_zeroPacket : (List.replicate ethMaxFlen (0 : UInt8)).length = ethMaxFlen :=
  List.length_replicate

/-- What the MAC sends for it, from a buffer of zeros. -/
def shortSent : Bytes :=
  macSent (fillDesc shortFrame (0, 0) ⟨0, List.replicate ethMaxFlen 0, length_zeroPacket⟩) fun _ => 7

/-- A receive descriptor with bytes put at the front of its buffer. -/
def placed (d : RxDesc) (info : Nat) (bs : Bytes) : RxDesc :=
  ⟨info, store d.packet 0 bs, (length_store ..).trans d.size⟩

theorem packet_placed {d : RxDesc} {info : Nat} {bs : Bytes} (h : bs.length ≤ ethMaxFlen) :
    (placed d info bs).packet.take bs.length = bs := by
  change (store d.packet 0 bs).take bs.length = bs
  rw [store_eq (by rw [d.size]; omega), List.take_zero, List.nil_append, List.take_left]

/-- The receive ring with those bytes at its head. -/
def shortReceived : SlotRing RxDesc :=
  ((rxDescrInit fun _ _ => 0).fill (placed damagedFrame 64 shortSent)).publish

theorem shortReceived_received : ringSts shortReceived ≠ .empty ∧
    ReceivedBy shortReceived.front shortSent := by
  have hlen : shortSent.length = 65 := by
    obtain ⟨b, hwire⟩ := macSent_fillDesc (p := shortFrame) rfl (by decide) (by decide) (0, 0)
      ⟨0, List.replicate ethMaxFlen 0, length_zeroPacket⟩ fun _ => 7
    have hdata : (data shortFrame).length = 60 := by decide
    have hall := congrArg List.length hwire
    rw [List.length_append, List.length_cons, List.length_ofFn, hdata] at hall
    exact hall
  have hfront : shortReceived.front = placed damagedFrame 64 shortSent := rfl
  refine ⟨by decide, ⟨?_, by decide, ?_⟩⟩
  · rw [hlen]
    rfl
  · rw [hfront]
    exact packet_placed (by rw [hlen]; decide)

/-- It comes back as 62 bytes behind the padding. -/
theorem loopback_two_more_short :
    ¬ReturnsFrame shortFrame (receivePBuf zeroHeap (fun _ => 0) shortReceived).1 ∧
      ∀ q, (receivePBuf zeroHeap (fun _ => 0) shortReceived).1 = some q →
        q.len = ethPadSize + ((60 + 1) / 2 * 2 + 2) ∧
        (q.payload.drop ethPadSize).take 60 = data shortFrame :=
  loopback_two_more (p := shortFrame) rfl (by decide) (by decide) (0, 0)
    ⟨0, List.replicate ethMaxFlen 0, length_zeroPacket⟩ (fun _ => 7) zeroHeap (fun _ => 0)
    shortReceived shortReceived_received.1 shortReceived_received.2

/-- There is memory for those bytes, and the frame is not returned as it was. -/
theorem loopback_short_longer : ReceivedBy shortReceived.front shortSent ∧
    (∃ q, (receivePBuf zeroHeap (fun _ => 0) shortReceived).1 = some q ∧ q.len = 64) ∧
    ¬ReturnsFrame shortFrame (receivePBuf zeroHeap (fun _ => 0) shortReceived).1 := by
  obtain ⟨hne, hreceived⟩ := shortReceived_received
  have hlen : ∀ q, (receivePBuf zeroHeap (fun _ => 0) shortReceived).1 = some q → q.len = 64 :=
    fun q hq => (len_receivePBuf hne hreceived.errorFree hq).trans (by decide)
  obtain ⟨-, hcorrect⟩ := receivePBuf_errorFree zeroHeap (fun _ => 0) hne hreceived.errorFree
  obtain ⟨q, hq, -⟩ := hcorrect.returned hreceived.errorFree (Option.some_ne_none _)
  refine ⟨hreceived, ⟨q, hq, hlen q hq⟩, ?_⟩
  rintro ⟨q', hq', hshort, -⟩
  rw [hlen q' hq'] at hshort
  exact absurd hshort (by decide)

end Emac
