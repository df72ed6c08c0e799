import Mathlib.Data.List.Forall2
import Mathlib.Data.List.Induction
import LambdaIOT.Drivers.Emac

/-!
# What the Ethernet rings keep

Each ring is run against the MAC, which works on its own: any order of driver steps and
hardware steps is a run. The lists of what was sent, transmitted, placed and returned
are carried along to say what became of each frame; no step looks at them.

On the transmit side the queue view of the ring (`SlotRing.toList`) gives the invariant:
what was transmitted, followed by what lies in the ring, is what was sent. A call that
publishes into a full ring breaks it, since the MAC then reads the ring as empty. On the
receive side every call consumes the frame at the head of the queue, unless its status
word has an error bit: `EMAC_ReceivePBuf` then returns without releasing it.
-/

namespace Emac

open CMem Lwip Pbuf

/-! ## The copy loops of `EMAC_SendPBuf` -/

/-- The copy loops have read `bs`: the halfwords written and the odd byte in hand. -/
structure Copied (s : CopyState) (bs : Bytes) : Prop where
  parity : s.count = bs.length % 2
  bytes : s.written ++ (if s.count = 0 then [] else [s.wordBuf.1]) = bs

theorem Copied.step {s : CopyState} {bs : Bytes} (h : Copied s bs) (b : UInt8) :
    Copied (copyByte s b) (bs ++ [b]) := by
  have hparity := h.parity
  have hbytes := h.bytes
  rw [copyByte]
  by_cases hcount : s.count = 0
  · rw [if_pos hcount, List.append_nil] at hbytes
    rw [if_pos hcount]
    constructor
    · rw [List.length_append, List.length_singleton]
      change 1 = (bs.length + 1) % 2
      omega
    · change s.written ++ [b] = bs ++ [b]
      rw [hbytes]
  · rw [if_neg hcount] at hbytes
    rw [if_neg hcount]
    constructor
    · rw [List.length_append, List.length_singleton]
      change 0 = (bs.length + 1) % 2
      omega
    · change s.written ++ [s.wordBuf.1, b] ++ [] = bs ++ [b]
      rw [← hbytes, List.append_nil, List.append_assoc]
      rfl

/-- The invariant over a run of bytes, by induction on them. -/
theorem Copied.run {s : CopyState} {bs : Bytes} (h : Copied s bs) (more : Bytes) :
    Copied (more.foldl copyByte s) (bs ++ more) := by
  induction more generalizing s bs with
  | nil => simpa using h
  | cons b more ih =>
    have hrest := ih (h.step b)
    rwa [List.append_assoc] at hrest

/-- The blocks of a chain are read as one run of bytes. -/
theorem foldl_copyBlock (p : List Pbuf) (s : CopyState) :
    p.foldl copyBlock s = (data p).foldl copyByte s := by
  induction p generalizing s with
  | nil => rfl
  | cons q p ih => rw [List.foldl_cons, ih, data_cons, List.foldl_append, copyBlock]

/-- What is written is the chain's bytes, and one byte more when their number is odd. -/
theorem copyChain_eq (p : List Pbuf) (wordBuf : UInt8 × UInt8) :
    ∃ pad, copyChain p wordBuf = data p ++ pad ∧ pad.length = (data p).length % 2 := by
  have hstart : Copied ⟨wordBuf, 0, []⟩ [] := ⟨rfl, rfl⟩
  have hend := hstart.run (data p)
  rw [List.nil_append] at hend
  have hparity := hend.parity
  have hbytes := hend.bytes
  rw [copyChain, foldl_copyBlock]
  generalize (data p).foldl copyByte ⟨wordBuf, 0, []⟩ = s at hparity hbytes
  by_cases hcount : s.count = 0
  · rw [if_pos hcount, List.append_nil] at hbytes
    refine ⟨[], ?_, ?_⟩
    · simp [hcount, hbytes]
    · rw [← hparity, hcount]
      rfl
  · rw [if_neg hcount] at hbytes
    refine ⟨[s.wordBuf.2], ?_, ?_⟩
    · rw [← hbytes]
      simp [Nat.pos_of_ne_zero hcount]
    · rw [List.length_singleton]
      omega

/-! ## The transmit ring -/

/-- The transmit side: the ring, the call between filling its descriptor and moving the
index, the frames whose calls are over, and what the MAC has taken. -/
structure TxState where
  ring : SlotRing TxDesc
  call : Option TxFrame
  sent : List TxFrame
  transmitted : List TxDesc

/-- The two halves of a call, and the MAC finishing one descriptor. -/
inductive TxAct where
  | fill (f : TxFrame) (wordBuf : UInt8 × UInt8)
  | publish
  | complete

/-- One step. A call runs inside a critical section, so that no second one starts in it;
the MAC rests while the indices agree. -/
def txStep (s : TxState) : TxAct → TxState
  | .fill f wordBuf =>
    match s.call with
    | none => { s with ring := sendFill f wordBuf s.ring, call := some f }
    | some _ => s
  | .publish =>
    match s.call with
    | some f => { s with ring := s.ring.publish, call := none, sent := s.sent ++ [f] }
    | none => s
  | .complete =>
    if s.ring.consume ≠ s.ring.produce then
      { s with ring := s.ring.release, transmitted := s.transmitted ++ [s.ring.front] }
    else s

def txRun (s : TxState) (as : List TxAct) : TxState := as.foldl txStep s

/-- After `tx_descr_init`. -/
def txStart (ram : Fin numTxFrag → Fin ethMaxFlen → UInt8) : TxState :=
  ⟨txDescrInit ram, none, [], []⟩

/-- Both halves of a call in a row are `EMAC_SendPBuf`. -/
theorem txRun_call {s : TxState} (hidle : s.call = none) (f : TxFrame) (w : UInt8 × UInt8) :
    (txRun s [.fill f w, .publish]).ring = sendPBuf f w s.ring := by
  obtain ⟨ring, call, sent, transmitted⟩ := s
  cases hidle
  rfl

/-- The descriptor carries the frame, unmodified. -/
structure Carries (d : TxDesc) (f : TxFrame) : Prop where
  ctrl : d.ctrl = (data f.chain).length ||| tctrlLast
  bytes : d.packet.take (data f.chain).length = data f.chain

/-- What was transmitted and what waits in the ring, in this order, are the frames sent:
each once, unmodified. -/
def TxDelivered (s : TxState) : Prop :=
  List.Forall₂ Carries (s.transmitted ++ s.ring.toList) s.sent

/-- The invariant of the runs in which no call publishes into a full ring. -/
structure TxInv (s : TxState) : Prop where
  size : s.ring.size = numTxFrag
  delivered : TxDelivered s
  filled : ∀ f, s.call = some f → Carries s.ring.spare f

/-- The property for a whole run: in every state nothing sent is lost or damaged, and no
index update makes the producer meet the consumer; once the MAC has worked through the
ring, exactly the frames sent have been transmitted. -/
structure TxSafe (start : TxState) (as : List TxAct) : Prop where
  delivered : ∀ pre, pre <+: as → TxDelivered (txRun start pre)
  drained : ∀ pre n, pre <+: as → numTxFrag ≤ n →
    List.Forall₂ Carries (txRun (txRun start pre) (.replicate n .complete)).transmitted
      (txRun start pre).sent
  behind : ∀ pre, pre ++ [.publish] <+: as → (txRun start pre).call ≠ none →
    (txRun start (pre ++ [.publish])).ring.produce ≠ (txRun start (pre ++ [.publish])).ring.consume

/-- Every call that is about to move the index finds the ring not full. -/
def PublishesWithRoom (start : TxState) (as : List TxAct) : Prop :=
  ∀ pre, pre ++ [.publish] <+: as → (txRun start pre).call ≠ none →
    ringSts (txRun start pre).ring ≠ .full

/-- The descriptor a call has filled carries its frame. -/
theorem carries_fillDesc (f : TxFrame) (w : UInt8 × UInt8) (d : TxDesc) :
    Carries (fillDesc f.chain w d) f := by
  obtain ⟨pad, hcopy, hpad⟩ := copyChain_eq f.chain w
  have hfits := f.fits
  have hsize : d.packet.length = 1536 := d.size
  constructor
  · change chainTotLen f.chain ||| tctrlLast = _
    rw [f.totalled.chainTotLen]
  · change (store d.packet 0 (copyChain f.chain w)).take _ = _
    have hlen : 0 + (copyChain f.chain w).length ≤ d.packet.length := by
      rw [hcopy, List.length_append]
      omega
    rw [store_eq hlen, hcopy, List.take_zero, List.nil_append, List.append_assoc,
      List.take_left' rfl]

theorem txInv_start (ram : Fin numTxFrag → Fin ethMaxFlen → UInt8) : TxInv (txStart ram) := by
  constructor
  · exact List.length_ofFn
  · change List.Forall₂ Carries ([] ++ (SlotRing.start _ _).toList) []
    rw [SlotRing.toList_start]
    exact List.Forall₂.nil
  · intro f h
    cases h

/-- What one step preserves, as long as it does not publish into a full ring. -/
theorem txInv_step {s : TxState} {a : TxAct} (h : TxInv s)
    (hroom : a = .publish → s.call ≠ none → ¬ s.ring.Full) : TxInv (txStep s a) := by
  cases a with
  | fill f w =>
    rw [txStep]
    split
    case h_1 hidle =>
      constructor
      · rw [← h.size]
        exact SlotRing.size_fill _ _
      · change List.Forall₂ Carries (s.transmitted ++ (s.ring.fill _).toList) s.sent
        rw [SlotRing.toList_fill]
        exact h.delivered
      · intro g hg
        cases hg
        change Carries (s.ring.fill _).spare f
        rw [SlotRing.spare_fill]
        exact carries_fillDesc f w s.ring.spare
    case h_2 => exact h
  | publish =>
    rw [txStep]
    split
    case h_1 f hcall =>
      have hfree : ¬ s.ring.Full := hroom rfl (by rw [hcall]; exact Option.some_ne_none f)
      constructor
      · exact h.size
      · change List.Forall₂ Carries (s.transmitted ++ s.ring.publish.toList) (s.sent ++ [f])
        rw [SlotRing.toList_publish hfree, ← List.append_assoc]
        exact List.rel_append h.delivered (.cons (h.filled f hcall) .nil)
      · intro g hg
        cases hg
    case h_2 => exact h
  | complete =>
    rw [txStep]
    split
    case isTrue hne =>
      constructor
      · exact h.size
      · change List.Forall₂ Carries (s.transmitted ++ [s.ring.front] ++ s.ring.release.toList) s.sent
        rw [List.append_assoc, List.singleton_append, ← SlotRing.toList_release hne]
        exact h.delivered
      · exact h.filled
    case isFalse => exact h

theorem txRun_append (s : TxState) (as bs : List TxAct) :
    txRun s (as ++ bs) = txRun (txRun s as) bs :=
  List.foldl_append

/-- The run lemma: with room at every index update the invariant holds in every state. -/
theorem txInv_run {s : TxState} {as : List TxAct} (h : TxInv s) (hroom : PublishesWithRoom s as) :
    TxInv (txRun s as) := by
  induction as using List.reverseRecOn with
  | nil => exact h
  | append_singleton as a ih =>
    have hbefore : TxInv (txRun s as) :=
      ih fun pre hpre => hroom pre (hpre.trans (List.prefix_append ..))
    rw [txRun_append]
    refine txInv_step hbefore ?_
    rintro rfl hcall hfull
    refine hroom as List.prefix_rfl hcall ?_
    exact (ringSts_eq_full (by rw [hbefore.size]; decide)).mpr hfull

/-- A call that publishes into a full ring loses what the ring holds. -/
theorem publish_full_loses {s : TxState} {f : TxFrame} (h : TxDelivered s) (hcall : s.call = some f)
    (hfull : s.ring.Full) : ¬ TxDelivered (txStep s .publish) := by
  intro hafter
  rw [txStep, hcall] at hafter
  change List.Forall₂ Carries (s.transmitted ++ s.ring.publish.toList) (s.sent ++ [f]) at hafter
  rw [SlotRing.toList_publish_full hfull, List.append_nil] at hafter
  have hlen := h.length_eq
  have hlen' := hafter.length_eq
  rw [List.length_append] at hlen hlen'
  rw [List.length_singleton] at hlen'
  omega

/-- The number of slots stays, whatever happens. -/
theorem size_txRun (s : TxState) (as : List TxAct) : (txRun s as).ring.size = s.ring.size := by
  induction as generalizing s with
  | nil => rfl
  | cons a as ih =>
    have hstep : (txStep s a).ring.size = s.ring.size := by
      cases a with
      | fill f w =>
        rw [txStep]
        split
        · exact SlotRing.size_fill _ _
        · rfl
      | publish =>
        rw [txStep]
        split <;> rfl
      | complete =>
        rw [txStep]
        split <;> rfl
    exact (ih (txStep s a)).trans hstep

/-- The MAC left alone works through the ring, by induction on what the ring holds. -/
theorem txRun_complete {s : TxState} {n : Nat} (hn : s.ring.toList.length ≤ n) :
    (txRun s (.replicate n .complete)).transmitted = s.transmitted ++ s.ring.toList ∧
      (txRun s (.replicate n .complete)).sent = s.sent := by
  induction n generalizing s with
  | zero =>
    have hnil : s.ring.toList = [] := List.eq_nil_of_length_eq_zero (by omega)
    constructor
    · rw [hnil, List.append_nil]
      rfl
    · rfl
  | succ n ih =>
    rw [List.replicate_succ]
    change (txRun (txStep s .complete) _).transmitted = _ ∧ (txRun (txStep s .complete) _).sent = _
    by_cases hne : s.ring.consume ≠ s.ring.produce
    · have htake := SlotRing.toList_release hne
      have hstep : txStep s .complete
          = { s with ring := s.ring.release, transmitted := s.transmitted ++ [s.ring.front] } := by
        rw [txStep, if_pos hne]
      have hrest : s.ring.release.toList.length ≤ n := by
        rw [htake, List.length_cons] at hn
        omega
      obtain ⟨htransmitted, hsent⟩ := ih (s := txStep s .complete) (by rw [hstep]; exact hrest)
      constructor
      · rw [htransmitted, hstep, htake, List.append_assoc]
        rfl
      · rw [hsent, hstep]
    · have hidle : txStep s .complete = s := by rw [txStep, if_neg hne]
      have hnil : s.ring.toList = [] := SlotRing.toList_of_empty (not_not.mp hne)
      rw [hidle]
      refine ih ?_
      rw [hnil]
      exact Nat.zero_le n

/-- The transmit ring is safe in exactly the runs in which every call that moves the index
finds room: `EMAC_SendPBuf` itself never looks. -/
theorem transmit_ring_safe_iff (ram : Fin numTxFrag → Fin ethMaxFlen → UInt8)
    (as : List TxAct) :
    TxSafe (txStart ram) as ↔ PublishesWithRoom (txStart ram) as := by
  have hsize : ∀ pre, (txRun (txStart ram) pre).ring.size = numTxFrag := by
    intro pre
    rw [size_txRun]
    exact List.length_ofFn
  constructor
  · intro hsafe pre hpre hcall hsts
    obtain ⟨f, hf⟩ := Option.ne_none_iff_exists'.mp hcall
    have hfull : (txRun (txStart ram) pre).ring.Full :=
      (ringSts_eq_full (by rw [hsize]; decide)).mp hsts
    have hbefore := hsafe.delivered pre ((List.prefix_append ..).trans hpre)
    have hafter := hsafe.delivered (pre ++ [.publish]) hpre
    rw [txRun_append] at hafter
    exact publish_full_loses hbefore hf hfull hafter
  · intro hroom
    have hinv : ∀ pre, pre <+: as → TxInv (txRun (txStart ram) pre) := by
      intro pre hpre
      exact txInv_run (txInv_start ram) fun pre' hpre' => hroom pre' (hpre'.trans hpre)
    constructor
    · intro pre hpre
      exact (hinv pre hpre).delivered
    · intro pre n hpre hn
      have hlen := SlotRing.length_toList_lt (txRun (txStart ram) pre).ring
      rw [hsize] at hlen
      rw [(txRun_complete (by omega)).1]
      exact (hinv pre hpre).delivered
    · intro pre hpre hcall
      have hsts := hroom pre hpre hcall
      rw [Ne, ringSts_eq_full (by rw [hsize]; decide)] at hsts
      obtain ⟨f, hf⟩ := Option.ne_none_iff_exists'.mp hcall
      have hafter : (txRun (txStart ram) (pre ++ [.publish])).ring
          = (txRun (txStart ram) pre).ring.publish := by
        rw [txRun_append]
        change (txStep (txRun (txStart ram) pre) .publish).ring = _
        rw [txStep, hf]
      rw [hafter]
      exact hsts

/-- A small frame of one pbuf. -/
def arpReply : TxFrame :=
  ⟨[⟨[0, 1, 2, 3], 4⟩], by decide, by decide, by decide⟩

/-- Five calls in a row while the MAC is busy: the fifth makes the indices equal, and all
five frames are gone. -/
theorem transmit_burst_lost :
    ¬ TxSafe (txStart fun _ _ => 0)
      (List.replicate 5 [.fill arpReply (0, 0), .publish]).flatten := by
  intro h
  have hlen := (h.delivered _ List.prefix_rfl).length_eq
  have hlost : (txRun (txStart fun _ _ => 0)
      (List.replicate 5 [.fill arpReply (0, 0), .publish]).flatten).transmitted.length = 0 := rfl
  have hempty : (txRun (txStart fun _ _ => 0)
      (List.replicate 5 [.fill arpReply (0, 0), .publish]).flatten).ring.toList.length = 0 := rfl
  have hsent : (txRun (txStart fun _ _ => 0)
      (List.replicate 5 [.fill arpReply (0, 0), .publish]).flatten).sent.length = 5 := rfl
  rw [List.length_append, hlost, hempty, hsent] at hlen
  cases hlen

/-! ## The receive ring -/

/-- One call made while the ring was not empty: the frame at the head, what the
environment supplied, and what came back. -/
structure RxCall where
  frame : RxDesc
  alloc : PbufAlloc
  result : Option Pbuf

/-- The receive side: the ring, the frames the MAC has placed, and the calls. -/
structure RxState where
  ring : SlotRing RxDesc
  arrived : List RxDesc
  calls : List RxCall

/-- The MAC placing a frame, and a call of `EMAC_ReceivePBuf`. -/
inductive RxAct where
  | place (d : RxDesc)
  | receive (alloc : PbufAlloc) (beyond : Fin 512 → UInt8)

/-- One step. The MAC has no descriptor for a frame that finds the ring full. -/
def rxStep (s : RxState) : RxAct → RxState
  | .place d =>
    if s.ring.Full then s
    else { s with ring := (s.ring.fill d).publish, arrived := s.arrived ++ [d] }
  | .receive alloc beyond =>
    { s with
      ring := (receivePBuf alloc beyond s.ring).2
      calls := if ringSts s.ring = .empty then s.calls
        else s.calls ++ [⟨s.ring.front, alloc, (receivePBuf alloc beyond s.ring).1⟩] }

def rxRun (s : RxState) (as : List RxAct) : RxState := as.foldl rxStep s

/-- After `rx_descr_init`. -/
def rxStart (ram : Fin numRxFrag → Fin ethMaxFlen → UInt8) : RxState :=
  ⟨rxDescrInit ram, [], []⟩

/-- No bit of `EMAC_RINFO_ERR_MASK` is set in the status word. -/
def ErrorFree (d : RxDesc) : Prop := d.info &&& rinfoErrMask = 0

instance (d : RxDesc) : Decidable (ErrorFree d) := inferInstanceAs (Decidable (_ = _))

/-- The number of bytes the driver takes from a frame: its size without the CRC, as far as
the driver takes that off. -/
def frameLength (d : RxDesc) : Nat := (d.info &&& rinfoSize) - 2

/-- The number of bytes the driver asks `pbuf_alloc` for. -/
def askedLength (d : RxDesc) : Nat :=
  u16 (evenPart (((d.info &&& rinfoSize) + 1 : Nat) - 3 + 1) + ethPadSize)

/-- The pbuf holds the frame behind the padding. -/
def Holds (p : Pbuf) (d : RxDesc) : Prop :=
  d.packet.take (frameLength d) <+: p.payload.drop ethPadSize

/-- What a call has to do with the frame it finds: return it when it has no error and its
allocation succeeds, return nothing otherwise. -/
structure RxCall.Correct (c : RxCall) : Prop where
  returned : ErrorFree c.frame → c.alloc.run (askedLength c.frame) ≠ none →
    ∃ p, c.result = some p ∧ Holds p c.frame
  dropped : ¬ ErrorFree c.frame ∨ c.alloc.run (askedLength c.frame) = none → c.result = none

/-- The calls have handled the frames in the order of their arrival, each by one call; the
others wait in the ring. -/
structure RxDelivered (s : RxState) : Prop where
  order : s.calls.map (·.frame) ++ s.ring.toList = s.arrived
  correct : ∀ c ∈ s.calls, c.Correct

/-- The property for a whole run: the frames are handled as they should in every state, and
every call made while the ring is not empty moves `RxConsumeIndex` on by one. -/
structure RxLive (start : RxState) (as : List RxAct) : Prop where
  delivered : ∀ pre, pre <+: as → RxDelivered (rxRun start pre)
  advances : ∀ pre alloc beyond, pre ++ [.receive alloc beyond] <+: as →
    ringSts (rxRun start pre).ring ≠ .empty →
    (rxRun start (pre ++ [.receive alloc beyond])).ring.consume
      = ((rxRun start pre).ring.consume + 1) % numRxFrag

/-- No call finds a frame with an error bit at the head of the ring. -/
def CallsErrorFree (start : RxState) (as : List RxAct) : Prop :=
  ∀ pre alloc beyond, pre ++ [.receive alloc beyond] <+: as →
    ringSts (rxRun start pre).ring ≠ .empty → ErrorFree (rxRun start pre).ring.front

/-- The copy loop takes the halfwords that cover the frame. -/
theorem copyWords_eq {k : Nat} {src : Bytes} {rxLen left : Int} (hsrc : 2 * k ≤ src.length)
    (hlen : rxLen = 2 * k ∨ rxLen = 2 * k - 1) (hleft : left = 2 * k) :
    copyWords src rxLen left = src.take (2 * k) := by
  induction k generalizing src rxLen left with
  | zero =>
    match src with
    | [] => rfl
    | [_] => rfl
    | _ :: _ :: _ =>
      rw [copyWords, if_neg (by omega)]
      rfl
  | succ k ih =>
    match src with
    | [] => simp at hsrc
    | [_] =>
      rw [List.length_singleton] at hsrc
      omega
    | b₀ :: b₁ :: src =>
      rw [List.length_cons, List.length_cons] at hsrc
      have hdouble : 2 * (k + 1) = 2 * k + 1 + 1 := by omega
      have hpos : rxLen > 0 ∧ left > 0 := by omega
      have hrest : copyWords src (rxLen - 2) (left - 2) = src.take (2 * k) :=
        ih (by omega) (by omega) (by omega)
      rw [copyWords, if_pos hpos, hrest, hdouble, List.take_succ_cons, List.take_succ_cons]

theorem askedLength_eq {d : RxDesc} (h : 2 ≤ d.info &&& rinfoSize) :
    askedLength d = 2 * (((d.info &&& rinfoSize) - 1) / 2) + ethPadSize := by
  have hle : d.info &&& rinfoSize ≤ 2047 := Nat.and_le_right
  simp only [askedLength, evenPart, u16, ethPadSize]
  omega

/-- The pbuf that comes back holds the frame. -/
theorem holds_copied {d : RxDesc} {beyond : Fin 512 → UInt8} {m : Bytes} {rxLen : Int}
    (hm : m.length = askedLength d) (hrx : rxLen = ((d.info &&& rinfoSize) + 1 : Nat) - 3) :
    Holds ⟨store m ethPadSize (copyWords (source d beyond) rxLen (m.length - ethPadSize)), m.length⟩
      d := by
  have hle : d.info &&& rinfoSize ≤ 2047 := Nat.and_le_right
  have hpad : ethPadSize = 2 := rfl
  change d.packet.take (frameLength d) <+: _
  rw [frameLength]
  rcases Nat.lt_or_ge (d.info &&& rinfoSize) 2 with hshort | hlong
  · -- Nothing is left of a frame this short.
    have hzero : (d.info &&& rinfoSize) - 2 = 0 := by omega
    rw [hzero, List.take_zero]
    exact List.nil_prefix
  · have hsize := askedLength_eq hlong
    rw [hsize] at hm
    have hsource : (source d beyond).length = 2048 := by
      rw [source, List.length_append, d.size, List.length_ofFn]
      rfl
    have hcopy : copyWords (source d beyond) rxLen (m.length - ethPadSize)
        = (source d beyond).take (2 * (((d.info &&& rinfoSize) - 1) / 2)) :=
      copyWords_eq (by omega) (by omega) (by omega)
    have hcopied : ((source d beyond).take (2 * (((d.info &&& rinfoSize) - 1) / 2))).length
        = 2 * (((d.info &&& rinfoSize) - 1) / 2) := by
      rw [List.length_take]
      omega
    have hread : load (store m ethPadSize
          ((source d beyond).take (2 * (((d.info &&& rinfoSize) - 1) / 2)))) ethPadSize
          ((source d beyond).take (2 * (((d.info &&& rinfoSize) - 1) / 2))).length
        = (source d beyond).take (2 * (((d.info &&& rinfoSize) - 1) / 2)) :=
      load_store_self (by omega)
    change _ <+: (store m ethPadSize _).drop ethPadSize
    rw [hcopy]
    rw [load, hcopied] at hread
    refine List.IsPrefix.trans ?_ (List.take_prefix (2 * (((d.info &&& rinfoSize) - 1) / 2)) _)
    rw [hread, source]
    have hmore : (d.info &&& rinfoSize) - 2 ≤ 2 * (((d.info &&& rinfoSize) - 1) / 2) := by omega
    refine (List.take_prefix_take_left hmore).trans ?_
    rw [List.take_append]
    exact List.prefix_append ..

/-- One call that finds a frame without an error: it is released, and handled as it should. -/
theorem receivePBuf_errorFree {r : SlotRing RxDesc} (alloc : PbufAlloc) (beyond : Fin 512 → UInt8)
    (hne : ringSts r ≠ .empty) (hok : ErrorFree r.front) :
    (receivePBuf alloc beyond r).2 = r.release ∧
      RxCall.Correct ⟨r.front, alloc, (receivePBuf alloc beyond r).1⟩ := by
  have hpos : getRxFrameSize r > 0 := Nat.succ_pos _
  have hmask : r.front.info &&& rinfoErrMask = 0 := hok
  rw [receivePBuf, if_pos hne, if_pos hpos]
  simp only [if_pos hmask]
  cases hrun : alloc.run (askedLength r.front) with
  | none =>
    have halloc : alloc.run (u16 (evenPart ((getRxFrameSize r : Int) - 3 + 1) + ethPadSize)) = none :=
      hrun
    rw [halloc]
    refine ⟨rfl, ?_, ?_⟩
    · intro _ hsome
      exact absurd hrun hsome
    · intro _
      rfl
  | some m =>
    have halloc : alloc.run (u16 (evenPart ((getRxFrameSize r : Int) - 3 + 1) + ethPadSize))
        = some m := hrun
    rw [halloc]
    refine ⟨rfl, ?_, ?_⟩
    · intro _ _
      exact ⟨_, rfl, holds_copied (alloc.size _ _ hrun) rfl⟩
    · rintro (herr | hnone)
      · exact absurd hok herr
      · cases hrun.symm.trans hnone

/-- One call that finds a frame with an error: nothing happens, the frame stays. -/
theorem receivePBuf_error {r : SlotRing RxDesc} {alloc : PbufAlloc} {beyond : Fin 512 → UInt8}
    (herr : ¬ ErrorFree r.front) : receivePBuf alloc beyond r = (none, r) := by
  have hmask : ¬ r.front.info &&& rinfoErrMask = 0 := herr
  have hpos : getRxFrameSize r > 0 := Nat.succ_pos _
  rw [receivePBuf, if_pos hpos]
  simp only [if_neg hmask, ite_self]

/-- The invariant of the runs in which no call finds an error. -/
structure RxInv (s : RxState) : Prop where
  size : s.ring.size = numRxFrag
  delivered : RxDelivered s

theorem rxInv_start (ram : Fin numRxFrag → Fin ethMaxFlen → UInt8) : RxInv (rxStart ram) := by
  constructor
  · exact List.length_ofFn
  · constructor
    · change [] ++ (SlotRing.start _ _).toList = []
      rw [SlotRing.toList_start]
      rfl
    · intro c hc
      cases hc

/-- What one step preserves, as long as no call finds an error. -/
theorem rxInv_step {s : RxState} {a : RxAct} (h : RxInv s)
    (hok : ∀ alloc beyond, a = .receive alloc beyond → ringSts s.ring ≠ .empty →
      ErrorFree s.ring.front) : RxInv (rxStep s a) := by
  cases a with
  | place d =>
    rw [rxStep]
    split
    case isTrue => exact h
    case isFalse hroom =>
      have hfree : ¬ (s.ring.fill d).Full := by
        rw [SlotRing.full_fill]
        exact hroom
      constructor
      · change (s.ring.fill d).size = numRxFrag
        rw [SlotRing.size_fill, h.size]
      · constructor
        · change s.calls.map (·.frame) ++ (s.ring.fill d).publish.toList = s.arrived ++ [d]
          rw [SlotRing.toList_publish hfree, SlotRing.toList_fill, SlotRing.spare_fill, ← List.append_assoc,
            h.delivered.order]
        · exact h.delivered.correct
  | receive alloc beyond =>
    by_cases hempty : ringSts s.ring = .empty
    · have hsame : rxStep s (.receive alloc beyond) = s := by
        simp only [rxStep, receivePBuf, if_neg (not_not.mpr hempty), if_pos hempty]
      rw [hsame]
      exact h
    · obtain ⟨hrelease, hcorrect⟩ := receivePBuf_errorFree alloc beyond
        hempty (hok alloc beyond rfl hempty)
      have hstep : rxStep s (.receive alloc beyond)
          = { s with
              ring := s.ring.release
              calls := s.calls ++
                [⟨s.ring.front, alloc, (receivePBuf alloc beyond s.ring).1⟩] } := by
        simp only [rxStep, if_neg hempty, hrelease]
      rw [hstep]
      constructor
      · exact h.size
      · constructor
        · have hne : s.ring.consume ≠ s.ring.produce := by
            rw [Ne, ← ringSts_eq_empty]
            exact hempty
          rw [List.map_append, List.append_assoc]
          change s.calls.map (·.frame) ++ (s.ring.front :: s.ring.release.toList) = s.arrived
          rw [← SlotRing.toList_release hne]
          exact h.delivered.order
        · intro c hc
          rcases List.mem_append.mp hc with hold | hnew
          · exact h.delivered.correct c hold
          · rw [List.mem_singleton.mp hnew]
            exact hcorrect

theorem rxRun_append (s : RxState) (as bs : List RxAct) :
    rxRun s (as ++ bs) = rxRun (rxRun s as) bs :=
  List.foldl_append

/-- The run lemma: if no call finds an error the invariant holds in every state. -/
theorem rxInv_run {s : RxState} {as : List RxAct} (h : RxInv s) (hok : CallsErrorFree s as) :
    RxInv (rxRun s as) := by
  induction as using List.reverseRecOn with
  | nil => exact h
  | append_singleton as a ih =>
    have hbefore : RxInv (rxRun s as) :=
      ih fun pre alloc beyond hpre => hok pre alloc beyond (hpre.trans (List.prefix_append ..))
    rw [rxRun_append]
    refine rxInv_step hbefore ?_
    rintro alloc beyond rfl hne
    exact hok as alloc beyond List.prefix_rfl hne

/-- `EMAC_UpdateRxConsumeIndex` moves the index on by one, modulo the number of slots. -/
theorem consume_release {r : SlotRing RxDesc} (hsize : r.size = numRxFrag) :
    r.release.consume = (r.consume + 1) % numRxFrag := by
  have hlt : r.consume < r.size := r.consume_lt
  change SlotRing.next r.size r.consume = _
  rw [hsize] at hlt ⊢
  rw [SlotRing.next]
  split
  · rename_i hlast
    rw [hlast, Nat.mod_self]
  · rw [Nat.mod_eq_of_lt (by omega)]

/-- The receive ring makes progress in exactly the runs in which no call finds a frame with
an error bit at the head: such a frame is never released. -/
theorem receive_ring_live_iff (ram : Fin numRxFrag → Fin ethMaxFlen → UInt8)
    (as : List RxAct) :
    RxLive (rxStart ram) as ↔ CallsErrorFree (rxStart ram) as := by
  constructor
  · intro hlive pre alloc beyond hpre hne
    by_contra herr
    have hadvance := hlive.advances pre alloc beyond hpre hne
    have hstay : (rxRun (rxStart ram) (pre ++ [.receive alloc beyond])).ring
        = (rxRun (rxStart ram) pre).ring := by
      rw [rxRun_append]
      change (receivePBuf alloc beyond (rxRun (rxStart ram) pre).ring).2 = _
      rw [receivePBuf_error herr]
    rw [hstay] at hadvance
    simp only [numRxFrag] at hadvance
    omega
  · intro hok
    have hinv : ∀ pre, pre <+: as → RxInv (rxRun (rxStart ram) pre) := by
      intro pre hpre
      exact rxInv_run (rxInv_start ram) fun pre' alloc beyond hpre' =>
        hok pre' alloc beyond (hpre'.trans hpre)
    constructor
    · intro pre hpre
      exact (hinv pre hpre).delivered
    · intro pre alloc beyond hpre hne
      have hbefore := hinv pre ((List.prefix_append ..).trans hpre)
      have hrelease := (receivePBuf_errorFree alloc beyond hne
        (hok pre alloc beyond hpre hne)).1
      rw [rxRun_append]
      change (receivePBuf alloc beyond (rxRun (rxStart ram) pre).ring).2.consume = _
      rw [hrelease, consume_release hbefore.size]

/-- A frame whose CRC failed. -/
def damagedFrame : RxDesc :=
  ⟨rinfoCrcErr ||| 63, List.replicate ethMaxFlen 0, List.length_replicate⟩

/-- An allocator that succeeds. -/
def zeroHeap : PbufAlloc where
  run n := some (List.replicate n 0)
  size := by
    intro n m h
    cases h
    exact List.length_replicate

/-- One damaged frame stops the ring: the call after it finds the same frame again. -/
theorem receive_error_stuck :
    ¬ RxLive (rxStart fun _ _ => 0) [.place damagedFrame, .receive zeroHeap fun _ => 0] := by
  intro h
  have hstuck := h.advances [.place damagedFrame] zeroHeap (fun _ => 0) List.prefix_rfl (by decide)
  revert hstuck
  decide

end Emac
