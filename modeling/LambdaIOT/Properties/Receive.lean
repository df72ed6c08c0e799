import LambdaIOT.Httpd.Frames

/-!
# The receive path keeps the stream

A delivered byte is in one of three places: consumed, in `http_request_buffer`, or in
the pbuf queue behind `_bufOffset`. `RxInv` says that the three in this order are the
stream that was delivered, that the queue is well linked with `_bufOffset` inside its
first pbuf, and that acknowledged and queued bytes add up to the delivered ones.

There is one lemma for each operation on the buffer (`receivePbuf`, `dequeue`,
`shiftOut`), and the run lemma puts them together for any order of the three.
-/

namespace Httpd

open CMem Lwip

/-! ## What the log says about the stream -/

/-- Everything the peer sent. -/
def deliveredBytes (log : List Act) : Bytes :=
  log.flatMap fun
    | .delivered bs => bs
    | _ => []

/-- Everything that left the front of the buffer. -/
def consumedBytes (log : List Act) : Bytes :=
  log.flatMap fun
    | .consumed bs => bs
    | _ => []

/-- Everything acknowledged with `altcp_recved`. -/
def recvedTotal (log : List Act) : Nat :=
  (log.map fun
    | .recved n => n
    | _ => 0).sum

@[simp] theorem deliveredBytes_append (l m : List Act) :
    deliveredBytes (l ++ m) = deliveredBytes l ++ deliveredBytes m := List.flatMap_append ..

@[simp] theorem consumedBytes_append (l m : List Act) :
    consumedBytes (l ++ m) = consumedBytes l ++ consumedBytes m := List.flatMap_append ..

@[simp] theorem recvedTotal_append (l m : List Act) :
    recvedTotal (l ++ m) = recvedTotal l + recvedTotal m := by
  simp [recvedTotal]

@[simp] theorem recvedTotal_acks (acks : List Nat) :
    recvedTotal (acks.map Act.recved) = acks.sum := by
  simp [recvedTotal, Function.comp_def]

@[simp] theorem deliveredBytes_acks (acks : List Nat) :
    deliveredBytes (acks.map Act.recved) = [] := by
  induction acks with
  | nil => rfl
  | cons a acks ih => exact ih

@[simp] theorem consumedBytes_acks (acks : List Nat) :
    consumedBytes (acks.map Act.recved) = [] := by
  induction acks with
  | nil => rfl
  | cons a acks ih => exact ih

/-! ## What the operations log -/

theorem releaseQueue_log (c : RequestContext) :
    ∃ acks : List Nat, c.releaseQueue.log = c.log ++ acks.map Act.recved := by
  unfold RequestContext.releaseQueue
  split
  · exact ⟨[], (List.append_nil _).symm⟩
  · rename_i p rest _
    split
    · exact ⟨[p.totLen], rfl⟩
    · split
      · split
        · rename_i chain off acks _
          exact ⟨acks, rfl⟩
        · exact ⟨[], (List.append_nil _).symm⟩
      · exact ⟨[], (List.append_nil _).symm⟩

theorem dequeue_log (c : RequestContext) :
    ∃ acks : List Nat, c.dequeue.log = c.log ++ acks.map Act.recved := by
  unfold RequestContext.dequeue
  split
  · exact ⟨[], (List.append_nil _).symm⟩
  · dsimp only
    split
    · exact releaseQueue_log _
    · exact ⟨[], (List.append_nil _).symm⟩

theorem receivePbuf_log (c : RequestContext) (p : List Pbuf) :
    ∃ acks : List Nat,
      (c.receivePbuf p).log = c.log ++ .delivered (Pbuf.data p) :: acks.map Act.recved := by
  unfold RequestContext.receivePbuf
  dsimp only
  split
  · exact ⟨[], rfl⟩
  · split
    · exact ⟨[], rfl⟩
    · exact ⟨[Pbuf.chainTotLen p], List.append_assoc ..⟩

theorem receivePbuf_delivered (c : RequestContext) (p : List Pbuf) :
    deliveredBytes (c.receivePbuf p).log = deliveredBytes c.log ++ Pbuf.data p := by
  obtain ⟨acks, hlog⟩ := receivePbuf_log c p
  have hnew : deliveredBytes (.delivered (Pbuf.data p) :: acks.map Act.recved) = Pbuf.data p := by
    show Pbuf.data p ++ deliveredBytes (acks.map Act.recved) = _
    rw [deliveredBytes_acks, List.append_nil]
  rw [hlog, deliveredBytes_append, hnew]

theorem dequeue_delivered (c : RequestContext) :
    deliveredBytes c.dequeue.log = deliveredBytes c.log := by
  obtain ⟨acks, hlog⟩ := dequeue_log c
  rw [hlog, deliveredBytes_append, deliveredBytes_acks, List.append_nil]

/-! ## The invariant -/

namespace RequestContext

/-- The bytes present in `http_request_buffer`. -/
def buffered (c : RequestContext) : Bytes := c.httpRequestBuffer.take c.requestLength.toNat

/-- The bytes of the queue that are not copied yet. -/
def queued (c : RequestContext) : Bytes := (Pbuf.data c.reqBufList).drop c.bufOffset.toNat

/-- The bytes that arrived and are not consumed yet. -/
def waiting (c : RequestContext) : Bytes := c.buffered ++ c.queued

end RequestContext

/-- Shape of the buffer and the queue. -/
structure RxShape (c : RequestContext) : Prop where
  maxLevel : c.maxLevel = maxReqBufSize
  buffer : c.httpRequestBuffer.length = maxReqBufSize + 4
  nonneg : 0 ≤ c.requestLength
  atMost : c.requestLength ≤ maxReqBufSize
  chained : Pbuf.Chained c.reqBufList
  empty : c.reqBufList = [] → c.bufOffset = 0
  inFirst : ∀ p rest, c.reqBufList = p :: rest → 0 ≤ c.bufOffset ∧ c.bufOffset < p.len

/-- The delivered stream is what was consumed, then the buffer, then the queue; and every
delivered byte is acknowledged or still queued. -/
structure RxInv (c : RequestContext) : Prop extends RxShape c where
  stream : consumedBytes c.log ++ c.buffered ++ c.queued = deliveredBytes c.log
  window : recvedTotal c.log + Pbuf.chainTotLen c.reqBufList = (deliveredBytes c.log).length

/-- A step of the receive path: it keeps the invariant and touches neither part of the
request, so in particular it writes inside the buffer. -/
structure RxStep (c c' : RequestContext) : Prop where
  inv : RxInv c'
  request : c'.toRequest = c.toRequest
  response : c'.toResponse = c.toResponse
  pcb : c'.pcb = c.pcb

theorem RxStep.refl {c : RequestContext} (hi : RxInv c) : RxStep c c := ⟨hi, rfl, rfl, rfl⟩

/-- A connection that has received nothing. -/
structure RxEmpty (c : RequestContext) : Prop where
  live : c.pcb.isSome
  log : c.log = []
  maxLevel : c.maxLevel = maxReqBufSize
  buffer : c.httpRequestBuffer.length = maxReqBufSize + 4
  length : c.requestLength = 0
  queue : c.reqBufList = []
  offset : c.bufOffset = 0

theorem rxInv_of_empty {c : RequestContext} (h : RxEmpty c) : RxInv c where
  maxLevel := h.maxLevel
  buffer := h.buffer
  nonneg := by rw [h.length]
  atMost := by rw [h.length]; decide
  chained := by rw [h.queue]; exact trivial
  empty := fun _ => h.offset
  inFirst := fun p rest hq => by rw [h.queue] at hq; cases hq
  stream := by
    rw [RequestContext.buffered, RequestContext.queued, h.log, h.length, h.queue, Pbuf.data_nil,
      List.drop_nil]
    rfl
  window := by
    rw [h.log, h.queue]
    rfl

/-! ## Copying into the buffer -/

/-- Bytes that fit are appended to the buffered ones; the rest of the context stays. -/
theorem appendBuffer_eq {c : RequestContext} (bs : Bytes) (count : Int)
    (hbuf : c.httpRequestBuffer.length = maxReqBufSize + 4) (hlen : 0 ≤ c.requestLength)
    (hcount : (bs.length : Int) = count) (hfit : c.requestLength + count ≤ maxReqBufSize) :
    ∃ buf : Bytes, buf.length = maxReqBufSize + 4 ∧
      buf.take (c.requestLength + count).toNat = c.buffered ++ bs ∧
      c.appendBuffer bs count =
        { c with httpRequestBuffer := buf, requestLength := c.requestLength + count } := by
  have hb : maxReqBufSize = 128 := rfl
  have hfits : (0 ≤ c.requestLength ∧ (bs.length : Int) = count ∧
      c.requestLength + count + 2 ≤ (maxReqBufSize + 4 : Nat)) := ⟨hlen, hcount, by omega⟩
  refine ⟨store c.httpRequestBuffer c.requestLength.toNat (bs ++ [0, 0]), ?_, ?_, ?_⟩
  · rw [length_store, hbuf]
  · have hin : c.requestLength.toNat + (bs ++ [0, 0]).length ≤ c.httpRequestBuffer.length := by
      rw [List.length_append, hbuf]
      simp only [List.length_cons, List.length_nil]
      omega
    have hn : (c.requestLength + count).toNat = (c.buffered ++ bs).length := by
      rw [List.length_append, RequestContext.buffered, List.length_take, hbuf]
      omega
    rw [store_eq hin, hn]
    show List.take (c.buffered ++ bs).length
      (c.buffered ++ (bs ++ [0, 0]) ++ _) = c.buffered ++ bs
    rw [← List.append_assoc c.buffered, List.append_assoc (c.buffered ++ bs), List.take_left']
    rfl
  · simp only [RequestContext.appendBuffer, decide_eq_true hfits, if_true, Bool.not_true,
      Bool.or_false]

/-! ## Draining the queue -/

/-- Freeing the drained pbufs leaves a well-linked queue with the offset in its first
pbuf, the same bytes behind the offset, and acknowledges what it frees. -/
theorem freeDrained_spec {rest : List Pbuf} {p : Pbuf} (off : Int)
    (hch : Pbuf.Chained (p :: rest)) (h0 : 0 ≤ off)
    (hlt : off < (Pbuf.data (p :: rest)).length) (hsize : (Pbuf.data (p :: rest)).length < 65536) :
    ∃ q chain off' acks,
      RequestContext.freeDrained rest p off = some (q :: chain, off', acks) ∧
      Pbuf.Chained (q :: chain) ∧ 0 ≤ off' ∧ off' < q.len ∧
      (Pbuf.data (q :: chain)).drop off'.toNat = (Pbuf.data (p :: rest)).drop off.toNat ∧
      acks.sum + Pbuf.chainTotLen (q :: chain) = Pbuf.chainTotLen (p :: rest) := by
  induction rest generalizing p off with
  | nil =>
    have hp : off < p.len := by
      rw [Pbuf.data_cons, Pbuf.data_nil, List.append_nil] at hlt
      exact hlt
    refine ⟨p, [], off, [], ?_, hch, h0, hp, rfl, ?_⟩
    · rw [RequestContext.freeDrained, if_pos hp]
    · rw [List.sum_nil, Nat.zero_add]
  | cons next rest ih =>
    obtain ⟨hpos, htot, hrest⟩ := hch
    by_cases hp : off < p.len
    · refine ⟨p, next :: rest, off, [], ?_, ⟨hpos, htot, hrest⟩, h0, hp, rfl, ?_⟩
      · rw [RequestContext.freeDrained, if_pos hp]
      · rw [List.sum_nil, Nat.zero_add]
    · have hlen : (Pbuf.data (p :: next :: rest)).length
          = p.len + (Pbuf.data (next :: rest)).length := by
        rw [Pbuf.data_cons, List.length_append]
        rfl
      have hnext : Pbuf.chainTotLen (next :: rest) = (Pbuf.data (next :: rest)).length :=
        Pbuf.chainTotLen_eq hrest
      -- the total written into the next pbuf is the one it already has
      have hsame : u16 (p.totLen - p.len) = next.totLen := by
        have hchain : Pbuf.chainTotLen (next :: rest) = next.totLen := rfl
        rw [htot, u16, Nat.mod_eq_of_lt] <;> omega
      obtain ⟨q, chain, off', acks, heq, hch', h0', hlt', hdata, hsum⟩ :=
        ih (off - p.len) hrest (by omega) (by omega) (by omega)
      refine ⟨q, chain, off', p.len :: acks, ?_, hch', h0', hlt', ?_, ?_⟩
      · rw [RequestContext.freeDrained, if_neg hp, hsame]
        show Option.map _ (RequestContext.freeDrained rest next (off - p.len)) = _
        rw [heq]
        rfl
      · have hskip : p.payload.length ≤ off.toNat := by
          simp only [Pbuf.len] at hp
          omega
        rw [hdata, Pbuf.data_cons p, List.drop_append, List.drop_of_length_le hskip,
          List.nil_append]
        congr 1
        simp only [Pbuf.len]
        omega
      · have hchain : Pbuf.chainTotLen (p :: next :: rest) = p.totLen := rfl
        rw [List.sum_cons, hchain, htot, ← hsum]
        omega

/-- The part of the dequeue block behind the copy: the bytes behind `_bufOffset` stay,
and what is no longer queued is acknowledged. -/
theorem releaseQueue_spec {c : RequestContext} (hch : Pbuf.Chained c.reqBufList)
    (hpos : 0 < c.bufOffset) (hle : c.bufOffset ≤ (Pbuf.data c.reqBufList).length)
    (hsize : (Pbuf.data c.reqBufList).length < 65536) :
    ∃ (chain : List Pbuf) (off : Int) (acks : List Nat),
      c.releaseQueue =
        { c with reqBufList := chain, bufOffset := off, log := c.log ++ acks.map Act.recved } ∧
      Pbuf.Chained chain ∧ (chain = [] → off = 0) ∧
      (∀ p rest, chain = p :: rest → 0 ≤ off ∧ off < p.len) ∧
      (Pbuf.data chain).drop off.toNat = c.queued ∧
      acks.sum + Pbuf.chainTotLen chain = Pbuf.chainTotLen c.reqBufList := by
  have htot := Pbuf.chainTotLen_eq hch
  rw [RequestContext.releaseQueue]
  cases hq : c.reqBufList with
  | nil =>
    rw [hq, Pbuf.data_nil, List.length_nil] at hle
    omega
  | cons p rest =>
    rw [hq] at hch hle hsize htot
    have hhead : Pbuf.chainTotLen (p :: rest) = p.totLen := rfl
    by_cases hall : c.bufOffset = p.totLen
    · refine ⟨[], 0, [p.totLen], ?_, trivial, fun _ => rfl, (fun _ _ h => nomatch h), ?_, ?_⟩
      · simp only [if_pos hall]
        rfl
      · rw [RequestContext.queued, hq, Pbuf.data_nil, List.drop_nil, List.drop_of_length_le]
        omega
      · rw [hhead]
        rfl
    · obtain ⟨q, chain, off, acks, heq, hch', h0, hlt, hdata, hsum⟩ :=
        freeDrained_spec c.bufOffset hch (Int.le_of_lt hpos) (by omega) hsize
      refine ⟨q :: chain, off, acks, ?_, hch', (fun h => nomatch h), ?_, ?_, hsum⟩
      · simp only [if_neg hall, if_pos (Int.ne_of_gt hpos), heq]
      · intro p' rest' h
        cases h
        exact ⟨h0, hlt⟩
      · rw [hdata, RequestContext.queued, hq]

/-! ## The three operations -/

/-- The dequeue block moves bytes from the queue to the buffer. -/
theorem RxShape.dequeue {c : RequestContext} (hi : RxShape c)
    (hsize : (Pbuf.data c.reqBufList).length < 65536) :
    RxShape c.dequeue ∧ c.dequeue.waiting = c.waiting ∧
      (c.dequeue.toRequest = c.toRequest ∧ c.dequeue.toResponse = c.toResponse ∧
        c.dequeue.pcb = c.pcb) ∧
      ∃ acks : List Nat, c.dequeue.log = c.log ++ acks.map Act.recved ∧
        acks.sum + Pbuf.chainTotLen c.dequeue.reqBufList = Pbuf.chainTotLen c.reqBufList := by
  rw [RequestContext.dequeue]
  split
  · exact ⟨hi, rfl, ⟨rfl, rfl, rfl⟩, [], (List.append_nil _).symm, Nat.zero_add _⟩
  · rename_i hne
    have hmax : c.maxLevel = maxReqBufSize := hi.maxLevel
    have htot := Pbuf.chainTotLen_eq hi.chained
    have hoff : 0 ≤ c.bufOffset := by
      obtain ⟨p, rest, hq⟩ := List.exists_cons_of_ne_nil hne
      exact (hi.inFirst p rest hq).1
    dsimp only
    split
    · rename_i hspace
      generalize hn : min (c.maxLevel - c.requestLength)
        ((Pbuf.chainTotLen c.reqBufList : Int) - c.bufOffset) = nSpace at hspace ⊢
      have hbs : Pbuf.pbufCopyPartial c.reqBufList nSpace.toNat c.bufOffset.toNat
          = c.queued.take nSpace.toNat := Pbuf.pbufCopyPartial_eq
      have hcount : ((c.queued.take nSpace.toNat).length : Int) = nSpace := by
        rw [List.length_take, RequestContext.queued, List.length_drop]
        omega
      obtain ⟨buf, hbuf, htake, happ⟩ := appendBuffer_eq _ _ hi.buffer hi.nonneg hcount
        (by omega)
      rw [hbs, happ]
      obtain ⟨chain, off, acks, hrel, hch, hempty, hfirst, hdata, hsum⟩ :=
        releaseQueue_spec (c := { c with
          httpRequestBuffer := buf, requestLength := c.requestLength + nSpace,
          bufOffset := c.bufOffset + nSpace }) hi.chained
          (show 0 < c.bufOffset + nSpace by omega)
          (show c.bufOffset + nSpace ≤ (Pbuf.data c.reqBufList).length by omega) hsize
      have hmoved : (Pbuf.data chain).drop off.toNat = c.queued.drop nSpace.toNat := by
        rw [hdata]
        show (Pbuf.data c.reqBufList).drop (c.bufOffset + nSpace).toNat
          = ((Pbuf.data c.reqBufList).drop c.bufOffset.toNat).drop nSpace.toNat
        rw [List.drop_drop]
        congr 1
        omega
      have h0 := hi.nonneg
      rw [hrel]
      refine ⟨⟨hi.maxLevel, hbuf, ?_, ?_, hch, hempty, hfirst⟩, ?_, ⟨rfl, rfl, rfl⟩, acks, rfl,
        hsum⟩
      · show 0 ≤ c.requestLength + nSpace
        omega
      · show c.requestLength + nSpace ≤ maxReqBufSize
        omega
      · show buf.take (c.requestLength + nSpace).toNat ++ (Pbuf.data chain).drop off.toNat
          = c.buffered ++ c.queued
        rw [htake, hmoved, List.append_assoc, List.take_append_drop]
    · exact ⟨hi, rfl, ⟨rfl, rfl, rfl⟩, [], (List.append_nil _).symm, Nat.zero_add _⟩

/-- The dequeue block keeps the invariant. -/
theorem rxStep_dequeue {c : RequestContext} (hi : RxInv c)
    (hsize : (Pbuf.data c.reqBufList).length < 65536) : RxStep c c.dequeue := by
  obtain ⟨hshape, hwaiting, ⟨hreq, hresp, hpcb⟩, acks, hlog, hsum⟩ := hi.toRxShape.dequeue hsize
  refine ⟨⟨hshape, ?_, ?_⟩, hreq, hresp, hpcb⟩
  · have hstream := hi.stream
    rw [List.append_assoc] at hstream ⊢
    rw [hlog, consumedBytes_append, deliveredBytes_append, consumedBytes_acks, deliveredBytes_acks,
      List.append_nil, List.append_nil, ← hstream]
    exact congrArg (consumedBytes c.log ++ ·) hwaiting
  · rw [hlog, recvedTotal_append, recvedTotal_acks, deliveredBytes_append, deliveredBytes_acks,
      List.append_nil, ← hi.window, ← hsum]
    omega

/-- A delivered segment comes behind the bytes that are waiting. -/
theorem RxShape.receivePbuf {c : RequestContext} {p : Segment} (hi : RxShape c)
    (hsize : (Pbuf.data c.reqBufList).length + p.data.length < 65536) :
    RxShape (c.receivePbuf p.chain) ∧ (c.receivePbuf p.chain).waiting = c.waiting ++ p.data ∧
      ((c.receivePbuf p.chain).toRequest = c.toRequest ∧
        (c.receivePbuf p.chain).toResponse = c.toResponse ∧
        (c.receivePbuf p.chain).pcb = c.pcb) ∧
      ∃ acks : List Nat,
        (c.receivePbuf p.chain).log = c.log ++ .delivered p.data :: acks.map Act.recved ∧
        acks.sum + Pbuf.chainTotLen (c.receivePbuf p.chain).reqBufList =
          Pbuf.chainTotLen c.reqBufList + p.data.length := by
  have htot : Pbuf.chainTotLen p.chain = p.data.length := Pbuf.chainTotLen_eq p.chained
  obtain ⟨first, others, hcons⟩ := List.exists_cons_of_ne_nil p.nonempty
  have hfirst : 0 < first.len := by
    have := p.chained
    rw [hcons] at this
    exact this.1
  rw [RequestContext.receivePbuf]
  dsimp only
  split
  · rename_i hne
    obtain ⟨q, rest, hq⟩ := List.exists_cons_of_ne_nil hne
    have hin := hi.inFirst q rest hq
    have hdrop : c.bufOffset.toNat ≤ (Pbuf.data c.reqBufList).length := by
      rw [hq, Pbuf.data_cons, List.length_append]
      simp only [Pbuf.len] at hin
      omega
    have hchained := Pbuf.chained_pbufCat hi.chained p.chained hsize
    refine ⟨⟨hi.maxLevel, hi.buffer, hi.nonneg, hi.atMost, hchained, fun h => ?_,
      fun r rest' h => ?_⟩, ?_, ⟨rfl, rfl, rfl⟩, [], rfl, ?_⟩
    · have h' : Pbuf.pbufCat c.reqBufList p.chain = [] := h
      rw [Pbuf.pbufCat, List.append_eq_nil_iff] at h'
      exact absurd h'.2 p.nonempty
    · have h' : Pbuf.pbufCat c.reqBufList p.chain = r :: rest' := h
      rw [hq, Pbuf.pbufCat, List.map_cons, List.cons_append, List.cons.injEq] at h'
      rw [← h'.1]
      exact hin
    · show c.buffered ++ (Pbuf.data (Pbuf.pbufCat c.reqBufList p.chain)).drop c.bufOffset.toNat =
        c.buffered ++ c.queued ++ p.data
      rw [Pbuf.data_pbufCat, List.drop_append_of_le_length hdrop, List.append_assoc]
      rfl
    · show 0 + Pbuf.chainTotLen (Pbuf.pbufCat c.reqBufList p.chain) = _
      rw [Nat.zero_add, Pbuf.chainTotLen_eq hchained, Pbuf.data_pbufCat, List.length_append,
        Pbuf.chainTotLen_eq hi.chained]
      rfl
  · rename_i hnil
    have hqueue : c.reqBufList = [] := by simpa using hnil
    have hoff : c.bufOffset = 0 := hi.empty hqueue
    have hold : c.queued = [] := by
      rw [RequestContext.queued, hqueue, Pbuf.data_nil, List.drop_nil]
    split
    · refine ⟨⟨hi.maxLevel, hi.buffer, hi.nonneg, hi.atMost, p.chained,
        fun h => absurd h p.nonempty, fun r rest h => ?_⟩, ?_, ⟨rfl, rfl, rfl⟩, [], rfl, ?_⟩
      · have h' : p.chain = r :: rest := h
        rw [hcons, List.cons.injEq] at h'
        rw [← h'.1]
        exact ⟨Int.le_of_eq hoff.symm, by rw [hoff]; exact_mod_cast hfirst⟩
      · show c.buffered ++ (Pbuf.data p.chain).drop c.bufOffset.toNat =
          c.buffered ++ c.queued ++ p.data
        rw [hoff, hold, List.append_nil]
        rfl
      · show 0 + Pbuf.chainTotLen p.chain = _
        rw [hqueue, htot]
        rfl
    · rename_i hfits
      have hmax : c.maxLevel = maxReqBufSize := hi.maxLevel
      have hnonneg := hi.nonneg
      have hcopy : Pbuf.pbufCopyPartial p.chain (Pbuf.chainTotLen p.chain) 0 = p.data := by
        rw [Pbuf.pbufCopyPartial_eq, htot, load_zero]
        exact List.take_length
      obtain ⟨buf, hbuf, htake, happ⟩ :=
        appendBuffer_eq (c := { c with log := c.log ++ [Act.delivered p.data] }) p.data
          (Pbuf.chainTotLen p.chain) hi.buffer hi.nonneg (by rw [htot])
          (show c.requestLength + _ ≤ _ by omega)
      have happ' : ({ c with log := c.log ++ [Act.delivered (Pbuf.data p.chain)] }
            : RequestContext).appendBuffer p.data (Pbuf.chainTotLen p.chain)
          = { c with
              log := c.log ++ [Act.delivered p.data], httpRequestBuffer := buf,
              requestLength := c.requestLength + Pbuf.chainTotLen p.chain } := happ
      have htake' : buf.take (c.requestLength + Pbuf.chainTotLen p.chain).toNat
          = c.buffered ++ p.data := htake
      rw [hcopy, happ']
      refine ⟨⟨hi.maxLevel, hbuf, show 0 ≤ c.requestLength + _ by omega,
        show c.requestLength + _ ≤ _ by omega, hi.chained, hi.empty, hi.inFirst⟩, ?_,
        ⟨rfl, rfl, rfl⟩, [Pbuf.chainTotLen p.chain], List.append_assoc .., ?_⟩
      · show buf.take (c.requestLength + Pbuf.chainTotLen p.chain).toNat ++ c.queued =
          c.buffered ++ c.queued ++ p.data
        rw [htake', hold, List.append_nil, List.append_nil]
      · show Pbuf.chainTotLen p.chain + 0 + Pbuf.chainTotLen c.reqBufList = _
        omega

/-- A delivered segment keeps the invariant. -/
theorem rxStep_receivePbuf {c : RequestContext} {p : Segment} (hi : RxInv c)
    (hsize : (Pbuf.data c.reqBufList).length + p.data.length < 65536) :
    RxStep c (c.receivePbuf p.chain) := by
  obtain ⟨hshape, hwaiting, ⟨hreq, hresp, hpcb⟩, acks, hlog, hsum⟩ :=
    hi.toRxShape.receivePbuf hsize
  have hconsumed : consumedBytes (.delivered p.data :: acks.map Act.recved) = [] :=
    consumedBytes_acks acks
  have hdelivered : deliveredBytes (.delivered p.data :: acks.map Act.recved) = p.data := by
    show p.data ++ deliveredBytes (acks.map Act.recved) = _
    rw [deliveredBytes_acks, List.append_nil]
  have hrecved : recvedTotal (.delivered p.data :: acks.map Act.recved) = acks.sum :=
    (Nat.zero_add _).trans (recvedTotal_acks acks)
  refine ⟨⟨hshape, ?_, ?_⟩, hreq, hresp, hpcb⟩
  · have hstream := hi.stream
    rw [List.append_assoc] at hstream ⊢
    rw [hlog, consumedBytes_append, deliveredBytes_append, hconsumed, hdelivered, List.append_nil,
      ← hstream, List.append_assoc (consumedBytes c.log)]
    exact congrArg (consumedBytes c.log ++ ·) hwaiting
  · rw [hlog, recvedTotal_append, deliveredBytes_append, hdelivered, hrecved, List.length_append,
      ← hi.window]
    omega

/-- Bytes are taken from the front of the buffer. -/
theorem RxShape.shiftOut {c : RequestContext} {n : Int} (hi : RxShape c) (h0 : 0 ≤ n)
    (hn : n ≤ c.requestLength) (taken : Bytes) :
    RxShape (c.shiftOut n taken) ∧ (c.shiftOut n taken).buffered = c.buffered.drop n.toNat := by
  have hmax : maxReqBufSize = 128 := rfl
  have hbuf := hi.buffer
  have hle := hi.atMost
  constructor
  · exact {
      maxLevel := hi.maxLevel
      buffer := by
        rw [RequestContext.shiftOut]
        dsimp only
        split
        · rw [length_store]
          exact hbuf
        · exact hbuf
      nonneg := show 0 ≤ c.requestLength - n by omega
      atMost := show c.requestLength - n ≤ _ by omega
      chained := hi.chained
      empty := hi.empty
      inFirst := hi.inFirst }
  · rw [RequestContext.buffered, RequestContext.buffered, RequestContext.shiftOut]
    dsimp only
    split
    · rename_i hpos
      have hlen : (load c.httpRequestBuffer n.toNat (c.requestLength - n).toNat).length
          = (c.requestLength - n).toNat := length_load (by omega)
      have hin : 0 + (load c.httpRequestBuffer n.toNat (c.requestLength - n).toNat).length
          ≤ c.httpRequestBuffer.length := by omega
      rw [store_eq hin, List.take_zero, List.nil_append, List.take_left' hlen, load,
        List.drop_take]
      congr 1
      omega
    · rename_i hpos
      have hz : (c.requestLength - n).toNat = 0 := by omega
      rw [hz, List.take_zero, List.drop_of_length_le]
      rw [List.length_take]
      omega

/-- `d` is `c` with `k` bytes taken from the front of the buffer. -/
structure RxTaken (c : RequestContext) (k : Nat) (d : RequestContext) : Prop where
  shape : RxShape d
  buffered : d.buffered = c.buffered.drop k
  queue : d.reqBufList = c.reqBufList
  offset : d.bufOffset = c.bufOffset
  logged : ∃ moved, d.log = c.log ++ moved ∧ (∀ a ∈ moved, a.isRx) ∧
    consumedBytes moved = c.buffered.take k ∧ deliveredBytes moved = [] ∧ recvedTotal moved = 0

namespace RxTaken

variable {c d : RequestContext} {k : Nat}

theorem refl (hi : RxShape c) : RxTaken c 0 c :=
  ⟨hi, rfl, rfl, rfl, [], (List.append_nil _).symm, (fun _ h => nomatch h), rfl, rfl, rfl⟩

theorem queued (h : RxTaken c k d) : d.queued = c.queued := by
  rw [RequestContext.queued, RequestContext.queued, h.queue, h.offset]

theorem waiting (h : RxTaken c k d) (hk : k ≤ c.buffered.length) :
    d.waiting = c.waiting.drop k := by
  rw [RequestContext.waiting, RequestContext.waiting, h.buffered, h.queued,
    List.drop_append_of_le_length hk]

/-- What was taken is accounted for. -/
theorem inv (h : RxTaken c k d) (hi : RxInv c) : RxInv d := by
  obtain ⟨moved, hlog, -, hconsumed, hdelivered, hrecved⟩ := h.logged
  refine ⟨h.shape, ?_, ?_⟩
  · rw [hlog, h.buffered, h.queued, consumedBytes_append, deliveredBytes_append, ← hi.stream,
      hconsumed, hdelivered, List.append_nil, List.append_assoc (consumedBytes c.log),
      List.take_append_drop]
  · rw [hlog, h.queue, recvedTotal_append, deliveredBytes_append, hrecved, hdelivered,
      List.append_nil, Nat.add_zero]
    exact hi.window

end RxTaken

/-- A shift does not see the bytes it drops. -/
theorem rxTaken_shiftOut {c : RequestContext} {buf : Bytes} {k : Nat} (hi : RxShape c)
    (hk : (k : Int) ≤ c.requestLength) (hlength : buf.length = c.httpRequestBuffer.length)
    (hrest : buf.drop k = c.httpRequestBuffer.drop k) :
    RxTaken c k (RequestContext.shiftOut { c with httpRequestBuffer := buf } k
      (c.httpRequestBuffer.take k)) := by
  have hcut : RxShape { c with httpRequestBuffer := buf } :=
    ⟨hi.maxLevel, hlength.trans hi.buffer, hi.nonneg, hi.atMost, hi.chained, hi.empty, hi.inFirst⟩
  obtain ⟨hshape, hbuf⟩ := hcut.shiftOut (Int.natCast_nonneg k) hk (c.httpRequestBuffer.take k)
  have htaken : c.httpRequestBuffer.take k = c.buffered.take k := by
    rw [RequestContext.buffered, List.take_take, Nat.min_eq_left (by omega)]
  refine ⟨hshape, ?_, rfl, rfl, [.consumed (c.httpRequestBuffer.take k)], rfl, ?_, ?_, rfl, rfl⟩
  · rw [hbuf, Int.toNat_natCast]
    show (buf.take c.requestLength.toNat).drop k =
      (c.httpRequestBuffer.take c.requestLength.toNat).drop k
    rw [List.drop_take, List.drop_take, hrest]
  · intro a ha
    rw [List.mem_singleton.mp ha]
    rfl
  · rw [← htaken]
    exact List.append_nil _

/-- Removing `n` of the bytes present keeps the invariant. -/
theorem rxStep_shiftOut {c : RequestContext} {n : Int} (hi : RxInv c) (h0 : 0 ≤ n)
    (hn : n ≤ c.requestLength) :
    RxStep c (c.shiftOut n (c.httpRequestBuffer.take n.toNat)) := by
  obtain ⟨k, rfl⟩ := Int.eq_ofNat_of_zero_le h0
  rw [Int.toNat_natCast]
  exact ⟨(rxTaken_shiftOut hi.toRxShape hn rfl rfl).inv hi, rfl, rfl, rfl⟩

/-! ## Any order of the three -/

/-- What happens on the receive path: a segment arrives, the dequeue block runs, the
parser or a handler takes bytes from the front of the buffer. -/
inductive RxEvent where
  | deliver (p : Segment)
  | dequeue
  | consume (n : Int)

/-- What may happen next: the window keeps the queue below `2^16` bytes, and nobody takes
more than there is. -/
def RxEvent.Legal (c : RequestContext) : RxEvent → Prop
  | .deliver p => (Pbuf.data c.reqBufList).length + p.data.length < 65536
  | .dequeue => True
  | .consume n => 0 ≤ n ∧ n ≤ c.requestLength

def rxStep (c : RequestContext) : RxEvent → RequestContext
  | .deliver p => c.receivePbuf p.chain
  | .dequeue => c.dequeue
  | .consume n => c.shiftOut n (c.httpRequestBuffer.take n.toNat)

/-- A run in which every event may happen. -/
def RxRun : RequestContext → List RxEvent → Prop
  | _, [] => True
  | c, e :: es => e.Legal c ∧ RxRun (rxStep c e) es

/-- The queue never holds `2^16` bytes: the window bounds what is delivered, and the other
two operations only shorten it. -/
structure RxState (c : RequestContext) : Prop extends RxInv c where
  small : (Pbuf.data c.reqBufList).length < 65536

/-- The dequeue block does not lengthen the queue. -/
theorem queue_dequeue_le {c : RequestContext} (hi : RxInv c)
    (hsize : (Pbuf.data c.reqBufList).length < 65536) :
    (Pbuf.data c.dequeue.reqBufList).length ≤ (Pbuf.data c.reqBufList).length := by
  have hstep := rxStep_dequeue hi hsize
  have hlog : deliveredBytes c.dequeue.log = deliveredBytes c.log ∧
      recvedTotal c.log ≤ recvedTotal c.dequeue.log := by
    refine ⟨dequeue_delivered c, ?_⟩
    obtain ⟨acks, hlog⟩ := dequeue_log c
    rw [hlog, recvedTotal_append]
    exact Nat.le_add_right ..
  have h1 := hi.window
  have h2 := hstep.inv.window
  rw [Pbuf.chainTotLen_eq hi.chained] at h1
  rw [Pbuf.chainTotLen_eq hstep.inv.chained, hlog.1] at h2
  omega

theorem rxState_step {c : RequestContext} {e : RxEvent} (h : RxState c) (hl : e.Legal c) :
    RxState (rxStep c e) ∧ (rxStep c e).fault = c.fault := by
  cases e with
  | deliver p =>
    have hs := rxStep_receivePbuf h.toRxInv hl
    refine ⟨⟨hs.inv, ?_⟩, congrArg Response.fault hs.response⟩
    have hl' : (Pbuf.data c.reqBufList).length + p.data.length < 65536 := hl
    have hpd : (Pbuf.data p.chain).length = p.data.length := rfl
    show (Pbuf.data (c.receivePbuf p.chain).reqBufList).length < 65536
    rw [RequestContext.receivePbuf]
    dsimp only
    split
    · show (Pbuf.data (Pbuf.pbufCat c.reqBufList p.chain)).length < 65536
      rw [Pbuf.data_pbufCat, List.length_append, hpd]
      exact hl'
    · split
      · show (Pbuf.data p.chain).length < 65536
        omega
      · exact h.small
  | dequeue =>
    have hs := rxStep_dequeue h.toRxInv h.small
    refine ⟨⟨hs.inv, ?_⟩, congrArg Response.fault hs.response⟩
    exact lt_of_le_of_lt (queue_dequeue_le h.toRxInv h.small) h.small
  | consume n =>
    have hs := rxStep_shiftOut h.toRxInv hl.1 hl.2
    exact ⟨⟨hs.inv, h.small⟩, congrArg Response.fault hs.response⟩

theorem rxState_run {c : RequestContext} {es : List RxEvent} (h : RxState c) (hr : RxRun c es) :
    RxState (es.foldl rxStep c) ∧ (es.foldl rxStep c).fault = c.fault := by
  induction es generalizing c with
  | nil => exact ⟨h, rfl⟩
  | cons e es ih =>
    obtain ⟨hinv, hfault⟩ := rxState_step h hr.1
    obtain ⟨hinv', hfault'⟩ := ih hinv hr.2
    exact ⟨hinv', hfault'.trans hfault⟩

/-! ## The log of a run -/

/-- The bytes that an event delivers. -/
def RxEvent.data : RxEvent → Bytes
  | .deliver p => p.data
  | _ => []

/-- How many bytes an event takes from the buffer. -/
def RxEvent.counts : RxEvent → List Nat
  | .consume n => [n.toNat]
  | _ => []

/-- How many bytes were taken each time. -/
def consumedCounts (log : List Act) : List Nat :=
  log.flatMap fun
    | .consumed bs => [bs.length]
    | _ => []

@[simp] theorem consumedCounts_append (l m : List Act) :
    consumedCounts (l ++ m) = consumedCounts l ++ consumedCounts m := List.flatMap_append ..

@[simp] theorem consumedCounts_acks (acks : List Nat) :
    consumedCounts (acks.map Act.recved) = [] := by
  induction acks with
  | nil => rfl
  | cons a acks ih => exact ih

/-- The log from `c` to `c'` tells the events `es`: their segments in order, and how many bytes
each of them took. -/
structure RxTold (es : List RxEvent) (c c' : RequestContext) : Prop where
  delivered : deliveredBytes c'.log = deliveredBytes c.log ++ es.flatMap RxEvent.data
  consumed : consumedCounts c'.log = consumedCounts c.log ++ es.flatMap RxEvent.counts

theorem rxTold_step {c : RequestContext} {e : RxEvent} (h : RxState c) (hl : e.Legal c) :
    RxTold [e] c (rxStep c e) := by
  cases e with
  | deliver p =>
    obtain ⟨acks, hlog⟩ := receivePbuf_log c p.chain
    refine ⟨?_, ?_⟩
    · show deliveredBytes (c.receivePbuf p.chain).log = _ ++ (p.data ++ [])
      rw [receivePbuf_delivered, List.append_nil]
      rfl
    · show consumedCounts (c.receivePbuf p.chain).log = _ ++ []
      rw [hlog, consumedCounts_append]
      exact congrArg _ (consumedCounts_acks acks)
  | dequeue =>
    obtain ⟨acks, hlog⟩ := dequeue_log c
    refine ⟨?_, ?_⟩
    · show deliveredBytes c.dequeue.log = _ ++ []
      rw [dequeue_delivered, List.append_nil]
    · show consumedCounts c.dequeue.log = _ ++ []
      rw [hlog, consumedCounts_append, consumedCounts_acks]
  | consume n =>
    have hbuf := h.buffer
    have hmax : maxReqBufSize = 128 := rfl
    have hle := h.atMost
    have hn : n ≤ c.requestLength := hl.2
    have hcount : (c.httpRequestBuffer.take n.toNat).length = n.toNat := by
      rw [List.length_take]
      omega
    refine ⟨?_, ?_⟩
    · show deliveredBytes (c.log ++ [.consumed (c.httpRequestBuffer.take n.toNat)]) = _ ++ []
      rw [deliveredBytes_append]
      rfl
    · show consumedCounts (c.log ++ [.consumed (c.httpRequestBuffer.take n.toNat)]) = _ ++ [n.toNat]
      have hone : consumedCounts [.consumed (c.httpRequestBuffer.take n.toNat)] =
          [(c.httpRequestBuffer.take n.toNat).length] := rfl
      rw [consumedCounts_append, hone, hcount]

theorem rxTold_run {c : RequestContext} {es : List RxEvent} (h : RxState c) (hr : RxRun c es) :
    RxTold es c (es.foldl rxStep c) := by
  induction es generalizing c with
  | nil => exact ⟨(List.append_nil _).symm, (List.append_nil _).symm⟩
  | cons e es ih =>
    have hone := rxTold_step h hr.1
    have hrest := ih (rxState_step h hr.1).1 hr.2
    constructor
    · rw [List.foldl_cons, hrest.delivered, hone.delivered, List.append_assoc]
      simp
    · rw [List.foldl_cons, hrest.consumed, hone.consumed, List.append_assoc]
      simp

/-- **Receive-path integrity.** On a connection that starts empty, after any deliveries,
dequeue blocks and consumption in any order: consumed, buffered and queued bytes are the
delivered stream, the queue is well linked with the offset in its first pbuf, and what
was acknowledged and what is queued add up to what was delivered. The delivered stream is that
of the segments, and as many bytes were consumed each time as were asked for. Nothing is written
outside the buffer. -/
theorem receive_stream_integrity {c : RequestContext} {es : List RxEvent} (h : RxEmpty c)
    (hr : RxRun c es) :
    RxInv (es.foldl rxStep c) ∧
      deliveredBytes (es.foldl rxStep c).log = es.flatMap RxEvent.data ∧
      consumedCounts (es.foldl rxStep c).log = es.flatMap RxEvent.counts ∧
      (es.foldl rxStep c).fault = c.fault := by
  have h0 : RxState c := ⟨rxInv_of_empty h, by rw [h.queue]; decide⟩
  obtain ⟨hinv, hfault⟩ := rxState_run h0 hr
  obtain ⟨hdelivered, hconsumed⟩ := rxTold_run h0 hr
  rw [h.log] at hdelivered hconsumed
  exact ⟨hinv.toRxInv, hdelivered, hconsumed, hfault⟩

/-- A live connection that has received nothing. -/
def emptyConnection : RequestContext :=
  { setupContext with pcb := some 0, maxLevel := maxReqBufSize }

/-- Two pbufs of 100 and 60 bytes: more than the buffer takes at once. -/
def twoPbufs : Segment where
  chain := Pbuf.ofPayloads [List.replicate 100 65, List.replicate 60 66]
  nonempty := List.cons_ne_nil _ _
  chained := Pbuf.chained_ofPayloads (by decide)

/-- The chain is queued, drained across the pbuf boundary, and drained again after the
parser took 100 bytes. -/
theorem receive_stream_integrity_twoPbufs :
    let es := [RxEvent.deliver twoPbufs, .dequeue, .consume 100, .dequeue]
    RxInv (es.foldl rxStep emptyConnection) ∧
      deliveredBytes (es.foldl rxStep emptyConnection).log = twoPbufs.data ∧
      consumedCounts (es.foldl rxStep emptyConnection).log = [100] ∧
      (es.foldl rxStep emptyConnection).fault = emptyConnection.fault :=
  receive_stream_integrity ⟨rfl, rfl, rfl, rfl, rfl, rfl, rfl⟩
    ⟨show _ < _ by decide +kernel, trivial, show _ ∧ _ by decide +kernel, trivial, trivial⟩

end Httpd
