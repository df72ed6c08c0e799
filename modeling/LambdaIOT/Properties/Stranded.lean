import LambdaIOT.Httpd.Logged
import LambdaIOT.Properties.Receive

/-!
# Data that is left waiting

`HttpRequestProc` works off what has been received as far as it can. It may leave data in
the pbuf queue when the buffer in front of it is full, or when the handler was offered
content and took none. `NoStrandedInput` says that it leaves none besides: data that
nothing in the connection is waiting for.

The loop ends in one of a few ways, and `contentStart` says with what a round comes to
its content part. From there on the end of the last round is a case analysis, and a run
of the loop is an induction on its fuel.
-/

namespace Httpd

open CMem Lwip Relation

/-! ## The queue of a reachable context -/

/-- The queue is well linked, below `2^16` bytes, and `_bufOffset` lies in its first pbuf. -/
structure QueueInv (c : RequestContext) : Prop where
  level : c.pcb.isSome → c.maxLevel = maxReqBufSize
  chained : Pbuf.Chained c.reqBufList
  small : (Pbuf.data c.reqBufList).length < 65536
  empty : c.reqBufList = [] → c.bufOffset = 0
  inFirst : ∀ p rest, c.reqBufList = p :: rest → 0 ≤ c.bufOffset ∧ c.bufOffset < p.len

/-- A step that leaves the queue alone. -/
theorem queueInv_same {c d : RequestContext} (hi : QueueInv c)
    (hqueue : d.reqBufList = c.reqBufList) (hoff : d.bufOffset = c.bufOffset)
    (hlevel : d.pcb.isSome → d.maxLevel = maxReqBufSize) : QueueInv d where
  level := hlevel
  chained := by rw [hqueue]; exact hi.chained
  small := by rw [hqueue]; exact hi.small
  empty := fun h => by rw [hoff]; exact hi.empty (hqueue.symm.trans h)
  inFirst := fun p rest h => by rw [hoff]; exact hi.inFirst p rest (hqueue.symm.trans h)

/-- An empty queue. -/
theorem queueInv_empty {c : RequestContext} (hqueue : c.reqBufList = []) (hoff : c.bufOffset = 0)
    (hlevel : c.maxLevel = maxReqBufSize) : QueueInv c where
  level := fun _ => hlevel
  chained := by rw [hqueue]; exact trivial
  small := by rw [hqueue]; decide
  empty := fun _ => hoff
  inFirst := fun p rest h => by rw [hqueue] at h; cases h

/-- The offset is inside the queue. -/
theorem QueueInv.offset_lt {c : RequestContext} (hi : QueueInv c) (hne : c.reqBufList ≠ []) :
    0 ≤ c.bufOffset ∧ c.bufOffset < Pbuf.chainTotLen c.reqBufList := by
  obtain ⟨p, rest, hq⟩ := List.exists_cons_of_ne_nil hne
  have hin := hi.inFirst p rest hq
  have hch := hi.chained
  rw [hq] at hch ⊢
  have htot : Pbuf.chainTotLen (p :: rest) = p.len + Pbuf.chainTotLen rest := hch.2.1
  rw [htot]
  constructor
  · exact hin.1
  · omega

/-- The dequeue block keeps the queue well linked, and goes on until the queue is empty or
the buffer full. -/
theorem queueInv_dequeue {c : RequestContext} (hi : QueueInv c) :
    QueueInv c.dequeue ∧ (c.dequeue.reqBufList = [] ∨ c.maxLevel ≤ c.dequeue.requestLength) := by
  rw [RequestContext.dequeue]
  split
  · rename_i hnil
    exact ⟨hi, .inl hnil⟩
  · rename_i hne
    obtain ⟨h0, hlt⟩ := hi.offset_lt hne
    have htot := Pbuf.chainTotLen_eq hi.chained
    dsimp only
    split
    · rename_i hspace
      generalize hn : min (c.maxLevel - c.requestLength)
        ((Pbuf.chainTotLen c.reqBufList : Int) - c.bufOffset) = nSpace at hspace ⊢
      generalize Pbuf.pbufCopyPartial c.reqBufList nSpace.toNat c.bufOffset.toNat = bs
      generalize hd : ({ c.appendBuffer bs nSpace with
        bufOffset := (c.appendBuffer bs nSpace).bufOffset + nSpace } : RequestContext) = d
      have hqueue : d.reqBufList = c.reqBufList := by rw [← hd]; rfl
      have hoff : d.bufOffset = c.bufOffset + nSpace := by rw [← hd]; rfl
      have hlen : d.requestLength = c.requestLength + nSpace := by rw [← hd]; rfl
      have hlevel : d.pcb.isSome → d.maxLevel = maxReqBufSize := by
        rw [← hd]
        exact hi.level
      obtain ⟨chain, off, acks, hrel, hch, hempty, hfirst, -, hsum⟩ :=
        releaseQueue_spec (c := d) (by rw [hqueue]; exact hi.chained) (by omega)
          (by rw [hqueue, hoff]; omega) (by rw [hqueue]; exact hi.small)
      have hsmall : (Pbuf.data chain).length < 65536 := by
        have hsmall' := hi.small
        rw [Pbuf.chainTotLen_eq hch, hqueue, htot] at hsum
        omega
      have hinv : QueueInv d.releaseQueue := by
        rw [hrel]
        exact ⟨hlevel, hch, hsmall, hempty, hfirst⟩
      refine ⟨hinv, ?_⟩
      by_cases hall : nSpace = (Pbuf.chainTotLen c.reqBufList : Int) - c.bufOffset
      · refine .inl ?_
        obtain ⟨p, rest, hq⟩ := List.exists_cons_of_ne_nil hne
        have hend : d.bufOffset = p.totLen := by
          rw [hq] at hall
          have hhead : Pbuf.chainTotLen (p :: rest) = p.totLen := rfl
          rw [hhead] at hall
          omega
        rw [RequestContext.releaseQueue, hqueue, hq]
        dsimp only
        rw [if_pos hend]
      · refine .inr ?_
        rw [releaseQueue_requestLength, hlen]
        omega
    · exact ⟨hi, .inr (by omega)⟩

/-- A segment is queued behind the others, starts a queue, or is copied at once. -/
theorem queueInv_receivePbuf {c : RequestContext} {p : Segment} (hi : QueueInv c)
    (hfit : (Pbuf.data c.reqBufList).length + p.data.length < 65536) :
    QueueInv (c.receivePbuf p.chain) := by
  obtain ⟨first, others, hcons⟩ := List.exists_cons_of_ne_nil p.nonempty
  have hfirst : 0 < first.len := by
    have hch := p.chained
    rw [hcons] at hch
    exact hch.1
  have hdata : (Pbuf.data p.chain).length = p.data.length := rfl
  rw [RequestContext.receivePbuf]
  dsimp only
  split
  · rename_i hne
    obtain ⟨q, rest, hq⟩ := List.exists_cons_of_ne_nil hne
    have hin := hi.inFirst q rest hq
    exact {
      level := hi.level
      chained := Pbuf.chained_pbufCat hi.chained p.chained hfit
      small := by
        show (Pbuf.data (Pbuf.pbufCat c.reqBufList p.chain)).length < 65536
        rw [Pbuf.data_pbufCat, List.length_append, hdata]
        exact hfit
      empty := fun h => by
        have h' : Pbuf.pbufCat c.reqBufList p.chain = [] := h
        rw [Pbuf.pbufCat, List.append_eq_nil_iff] at h'
        exact absurd h'.2 p.nonempty
      inFirst := fun r rest' h => by
        have h' : Pbuf.pbufCat c.reqBufList p.chain = r :: rest' := h
        rw [hq, Pbuf.pbufCat, List.map_cons, List.cons_append, List.cons.injEq] at h'
        rw [← h'.1]
        exact hin }
  · rename_i hnil
    have hoff : c.bufOffset = 0 := hi.empty (by simpa using hnil)
    split
    · exact {
        level := hi.level
        chained := p.chained
        small := by
          show (Pbuf.data p.chain).length < 65536
          omega
        empty := fun h => absurd h p.nonempty
        inFirst := fun r rest h => by
          have h' : p.chain = r :: rest := h
          rw [hcons, List.cons.injEq] at h'
          rw [← h'.1]
          exact ⟨Int.le_of_eq hoff.symm, by rw [hoff]; exact_mod_cast hfirst⟩ }
    · exact queueInv_same hi rfl rfl hi.level

theorem queueInv_freed {s s' : Sys} (h : FreedFrame s s') : QueueInv s'.c := by
  obtain ⟨_, _, _, _, _, _, rfl, _⟩ := h
  exact queueInv_empty rfl rfl rfl

theorem queueInv_response {s s' : Sys} (hi : QueueInv s.c) (h : RespFrame s s') :
    QueueInv s'.c := by
  obtain ⟨_, _, _, _, _, _, _, _, _, rfl, _⟩ := h
  exact queueInv_same hi rfl rfl hi.level

/-- Every action keeps the queue well linked. -/
theorem queueInv_step {s s' : Sys} (hi : QueueInv s.c) (h : Micro s s') : QueueInv s'.c := by
  cases h with
  | environment w net hpcbs => exact hi
  | receive p hlive hfit => exact queueInv_receivePbuf hi hfit
  | peerClosed => exact queueInv_same hi rfl rfl hi.level
  | touch t => exact queueInv_same hi rfl rfl hi.level
  | acknowledged len => exact queueInv_same hi rfl rfl hi.level
  | dequeue hst => exact (queueInv_dequeue hi).1
  | startRequest hst hlen => exact queueInv_same hi rfl rfl hi.level
  | parseHeader hst hlen =>
    obtain ⟨_, _, _, _, _, _, heq, _⟩ := ParseFrame.parseHeader s s.c.requestLength
    rw [heq]
    exact queueInv_same hi rfl rfl hi.level
  | tooLarge hst => exact queueInv_same hi rfl rfl hi.level
  | headersEnd hst hok =>
    obtain ⟨_, _, heq, -⟩ := headersEnd_eq s
    obtain ⟨_, _, _, hcall, -⟩ := CallFrame.cgiHeadersReceived _
    rw [heq, hcall]
    exact queueInv_same hi rfl rfl hi.level
  | refuse hst hbad hsending => exact queueInv_same hi rfl rfl hi.level
  | chunkLength hst hok =>
    unfold chunkLength
    split
    · exact hi
    · exact queueInv_same hi rfl rfl hi.level
  | content size hst hok =>
    obtain ⟨_, _, _, _, _, _, heq, _⟩ := offerContent_frame s size
    rw [heq]
    exact queueInv_same hi rfl rfl hi.level
  | complete hst hok => exact queueInv_response hi (.callFrame (.completeRequest s))
  | sendRemaining hst hres hleft => exact queueInv_response hi (.sendRemaining s)
  | startResponse hst hres hfirst => exact queueInv_response hi (.startResponse s)
  | headerAcked hst hres hsent => exact queueInv_response hi (.headerAcked s)
  | sendBody caller hst hres hsent hstage => exact queueInv_response hi (.sendBody s caller)
  | requestEnd hst =>
    unfold requestEnd
    split
    · exact queueInv_freed (closeHttpContext_frame s)
    · split
      · obtain ⟨_, _, heq, -⟩ :=
          resetHttpContext_spec (s.note (.reset s.c.toRequest s.c.toResponse))
        rw [heq]
        exact queueInv_same hi rfl rfl fun _ => rfl
      · exact queueInv_freed (closeHttpContext_frame s)
  | peerGone hst hpeer => exact queueInv_same hi rfl rfl hi.level
  | close => exact queueInv_freed (closeHttpContext_frame s)
  | free hgone => exact queueInv_freed (freeHttpContext_frame s)
  | outOfFuel => exact queueInv_same hi rfl rfl hi.level

theorem SlotReach.queueInv {c : RequestContext} (h : SlotReach c) : QueueInv c := by
  refine h.always (P := QueueInv) ?_ ?_ fun s s' _ hi hstep => queueInv_step hi hstep
  · exact ⟨(fun h => nomatch h), trivial, (by decide), (fun _ => rfl), (fun _ _ h => nomatch h)⟩
  · intro s pcb ipRemote
    obtain ⟨_, _, _, heq⟩ := acceptContext_spec s pcb ipRemote
    rw [heq]
    exact queueInv_empty rfl rfl rfl

/-! ## Offers -/

/-- Content was offered, and the handler took none of it. -/
def Act.inVain : Act → Bool
  | .content _ _ _ size n => decide (1 ≤ size) && decide (n = 0)
  | _ => false

/-- `t` is a later state than `s`, and no entry that was logged in between is `p`. -/
def LogsNo (p : Act → Bool) (s t : Sys) : Prop :=
  ∃ log, t.c.log = s.c.log ++ log ∧ ∀ a ∈ log, p a = false

namespace LogsNo

variable {p q : Act → Bool} {s t u : Sys}

theorem refl (s : Sys) : LogsNo p s s := ⟨[], (List.append_nil _).symm, fun _ h => nomatch h⟩

theorem trans (h : LogsNo p s t) (h' : LogsNo p t u) : LogsNo p s u := by
  obtain ⟨l, hl, hq⟩ := h
  obtain ⟨l', hl', hq'⟩ := h'
  refine ⟨l ++ l', by rw [hl', hl, List.append_assoc], fun a ha => ?_⟩
  rcases List.mem_append.mp ha with h | h
  · exact hq a h
  · exact hq' a h

/-- A step that logs nothing. -/
theorem quiet (h : t.c.log = s.c.log) : LogsNo p s t :=
  ⟨[], by rw [h, List.append_nil], fun _ h => nomatch h⟩

theorem note (s : Sys) {a : Act} (ha : p a = false) : LogsNo p s (s.note a) :=
  ⟨[a], rfl, fun b hb => by rwa [List.mem_singleton.mp hb]⟩

theorem mono (h : LogsNo p s t) (hpq : ∀ a, p a = false → q a = false) : LogsNo q s t := by
  obtain ⟨l, hl, hp⟩ := h
  exact ⟨l, hl, fun a ha => hpq a (hp a ha)⟩

theorem logExtends (h : LogsNo p s t) : LogExtends s.c t.c := by
  obtain ⟨log, hlog, -⟩ := h
  exact ⟨log, hlog⟩

end LogsNo

/-- `t` is a later state than `s`, and nothing was offered in vain in between. -/
def TakenBy (s t : Sys) : Prop := LogsNo Act.inVain s t

/-- Nothing was offered in vain since `s`. -/
def NoneInVain (s t : Sys) : Prop := ∀ a ∈ t.c.log.drop s.c.log.length, a.inVain = false

theorem noneInVain_iff {s t : Sys} {log : List Act} (h : t.c.log = s.c.log ++ log) :
    NoneInVain s t ↔ ∀ a ∈ log, a.inVain = false := by
  rw [NoneInVain, h, List.drop_left]

theorem noneInVain_trans {s t u : Sys} (h : LogExtends s.c t.c) (h' : LogExtends t.c u.c) :
    NoneInVain s u ↔ NoneInVain s t ∧ NoneInVain t u := by
  obtain ⟨l, hl⟩ := h
  obtain ⟨l', hl'⟩ := h'
  have hall : u.c.log = s.c.log ++ (l ++ l') := by rw [hl', hl, List.append_assoc]
  rw [noneInVain_iff hl, noneInVain_iff hl', noneInVain_iff hall]
  constructor
  · intro ha
    exact ⟨fun a h => ha a (List.mem_append_left _ h), fun a h => ha a (List.mem_append_right _ h)⟩
  · intro ha a h
    rcases List.mem_append.mp h with h | h
    · exact ha.1 a h
    · exact ha.2 a h

/-- Entries that offer content or decide about a request. -/
def Act.notable : Act → Bool
  | .content .. | .headersEnd .. => true
  | _ => false

/-- `t` is a later state than `s`, and what was logged in between is routine. -/
def Routine (s t : Sys) : Prop := LogsNo Act.notable s t

namespace Routine

theorem rx {s s' : Sys} (h : RxFrame s.c s'.c) : Routine s s' := by
  obtain ⟨_, _, _, _, _, log, heq, _, hl⟩ := h
  refine ⟨log, by rw [heq], fun a ha => ?_⟩
  have hrx := hl a ha
  cases a <;> first | rfl | cases hrx

theorem parse {s s' : Sys} (h : ParseFrame s s') : Routine s s' := by
  obtain ⟨_, _, _, _, _, log, heq, _, hl⟩ := h
  refine ⟨log, by rw [heq], fun a ha => ?_⟩
  have hparse := hl a ha
  cases a <;> first | rfl | cases hparse

theorem call {s s' : Sys} (h : CallFrame s s') : Routine s s' := by
  obtain ⟨_, _, log, heq, hl⟩ := h
  refine ⟨log, by rw [heq], fun a ha => ?_⟩
  obtain ⟨_, _, _, rfl⟩ := hl a ha
  rfl

theorem resp {s s' : Sys} (h : RespFrame s s') : Routine s s' := by
  obtain ⟨_, _, _, _, _, _, _, log, _, heq, _, hl⟩ := h
  refine ⟨log, by rw [heq], fun a ha => ?_⟩
  have hresp := hl a ha
  cases a <;> first | rfl | cases hresp

theorem freed {s s' : Sys} (h : FreedFrame s s') : Routine s s' := by
  obtain ⟨_, _, _, _, log, _, heq, hl⟩ := h
  refine ⟨log ++ [.freed], ?_, fun a ha => ?_⟩
  · rw [heq]
    exact List.append_assoc ..
  · rcases List.mem_append.mp ha with h | h
    · have hcall := hl a h
      cases a <;> first | rfl | cases hcall
    · rw [List.mem_singleton.mp h]
      rfl

theorem chunkLength (s : Sys) (size : Int) : Routine s (chunkLength s size) := by
  unfold Httpd.chunkLength
  split
  · exact LogsNo.refl s
  · refine (LogsNo.note s (a := .chunkLine s.c.toRequest) rfl).trans ?_
    exact ⟨[_], rfl, fun a ha => by rw [List.mem_singleton.mp ha]; rfl⟩

theorem headerPart (s : Sys) : Routine s (headerPart s).1 := by
  have hstart : Routine s
      (if 0 < s.c.requestLength ∧ s.c.state = .idle then startRequest s else s) := by
    split
    · exact LogsNo.quiet rfl
    · exact LogsNo.refl s
  unfold Httpd.headerPart
  dsimp only
  generalize (if 0 < s.c.requestLength ∧ s.c.state = .idle then startRequest s else s) = t
    at hstart ⊢
  split
  · exact hstart.trans (parse (.parseHeader t s.c.requestLength))
  · exact hstart

end Routine

namespace TakenBy

/-- What is routine takes nothing in vain. -/
theorem routine {s t : Sys} (h : Routine s t) : TakenBy s t :=
  LogsNo.mono h fun a ha => by cases a <;> first | rfl | cases ha

theorem headersEnd (s : Sys) : TakenBy s (headersEnd s) := by
  obtain ⟨_, _, heq, -⟩ := headersEnd_eq s
  rw [heq]
  refine LogsNo.trans ?_ (routine (.call (.cgiHeadersReceived _)))
  exact ⟨[_], rfl, fun a ha => by rw [List.mem_singleton.mp ha]; rfl⟩

theorem none {s t : Sys} (h : TakenBy s t) : NoneInVain s t := by
  obtain ⟨log, hlog, hl⟩ := h
  exact (noneInVain_iff hlog).mpr hl

/-- What comes before does not matter. -/
theorem before {s t u : Sys} (h : TakenBy s t) (h' : LogExtends t.c u.c) :
    NoneInVain s u ↔ NoneInVain t u := by
  rw [noneInVain_trans h.logExtends h']
  exact and_iff_right h.none

end TakenBy

theorem NoneInVain.refl (s : Sys) : NoneInVain s s := TakenBy.none (.refl s)

/-- The handler takes content, there is some, and it does not answer with a negative
count. -/
def Offers (s : Sys) (size : Int) : Prop :=
  (s.c.state = .chunkReceiving ∨ s.c.state = .bodyReceiving) ∧ 1 ≤ size ∧
    ∃ f, s.c.handler.bind Cgi.onContentReceived = some f ∧
      0 ≤ (f s.c.toRequest s.call s.c.httpRequestBuffer size).2

/-- A handler that is offered nothing takes nothing, and one that answers with a negative
count does nothing. -/
theorem onContentReceived_idle {cgi : Cgi} {f : Request → Call → Bytes → Int → Call × Int}
    (hf : cgi.onContentReceived = some f) (h : Request) (c : Call) (buffer : Bytes) (size : Int)
    (hidle : size ≤ 0 ∨ (f h c buffer size).2 < 0) :
    (f h c buffer size).1 = c ∧ (f h c buffer size).2 ≤ 0 := by
  cases cgi with
  | ssdp => cases hf
  | auth =>
    cases hf
    have hsize : (authOnPostData c buffer size).2 = size := by
      unfold authOnPostData
      dsimp only
      split
      · split <;> rfl
      · rfl
    have hle : size ≤ 0 := by
      rcases hidle with h | h
      · exact h
      · have h' : (authOnPostData c buffer size).2 < 0 := h
        omega
    show (authOnPostData c buffer size).1 = c ∧ (authOnPostData c buffer size).2 ≤ 0
    unfold authOnPostData
    dsimp only
    rw [if_neg (by omega)]
    exact ⟨rfl, hle⟩
  | form =>
    cases hf
    unfold webOnFormReceived at hidle ⊢
    dsimp only at hidle ⊢
    split
    · rename_i hpos
      rw [if_pos hpos] at hidle
      split
      · rename_i hkill
        rw [if_pos hkill] at hidle
        rcases hidle with h | h
        · omega
        · exact absurd h (lt_irrefl (0 : Int))
      · rename_i hkill
        rw [if_neg hkill] at hidle
        split
        · rename_i hmore
          rw [if_pos hmore] at hidle
          rcases hidle with h | h
          · omega
          · dsimp only at h
            omega
        · exact ⟨rfl, by dsimp only; omega⟩
    · rename_i hnot
      rw [if_neg hnot] at hidle
      refine ⟨rfl, ?_⟩
      dsimp only at hidle ⊢
      omega
  | files => cases hf
  | upload =>
    cases hf
    show (uploadOnContentReceived h c size).1 = c ∧ (uploadOnContentReceived h c size).2 ≤ 0
    have hidle' : size ≤ 0 ∨ (uploadOnContentReceived h c size).2 < 0 := hidle
    unfold uploadOnContentReceived at hidle' ⊢
    dsimp only at hidle' ⊢
    split
    · rename_i hpos
      rw [if_pos hpos] at hidle'
      have hnot : ¬ size ≤ 0 := by omega
      exfalso
      rcases hidle' with h | h
      · exact hnot h
      · split at h
        · exact absurd h (lt_irrefl (0 : Int))
        · split at h
          · rename_i hate
            dsimp only at h
            omega
          · exact absurd h (lt_irrefl (0 : Int))
    · exact ⟨rfl, le_refl _⟩
  | webApp => cases hf

/-! ## A round of the loop -/

/-- The call could go on: the request is not complete, no error, and data is queued behind
a buffer with room. -/
structure Waiting (s : Sys) : Prop where
  receiving : s.c.state.receiving
  fine : 0 ≤ s.c.result
  queued : s.c.reqBufList ≠ []
  room : s.c.requestLength < s.c.maxLevel

/-- The state in which a round behind the dequeue block comes to its content part, with the
local `size`; `none` if it ends before. -/
def contentStart (s : Sys) : Option (Sys × Int) :=
  if s.c.requestLength = 0 then none
  else
    let parsed := headerPart s
    let s := parsed.1
    if s.c.result < 0 then none
    else if s.c.state = .headerReceiving ∧ (maxReqBufSize : Int) ≤ s.c.requestLength then none
    else if s.c.state = .idle ∨ s.c.state = .headerReceiving then none
    else
      let s := if parsed.2.1 then headersEnd s else s
      if s.c.result < 0 then none
      else if s.c.state = .chunkLenReceiving ∧ 2 < parsed.2.2 then
        some (chunkLength s parsed.2.2, parsed.2.2)
      else some (s, parsed.2.2)

/-- A round comes to its content part with nothing to offer, although data is queued behind
a buffer with room. -/
def StrandedRound (s : Sys) : Prop :=
  s.c.state.receiving ∧ ∃ t size, contentStart { s with c := s.c.dequeue } = some (t, size) ∧
    Waiting t ∧ ¬Offers t size

/-- How the last round ends: it leaves data waiting, with nothing offered in vain, exactly
under the condition `bad`. -/
structure LastRound (s : Sys) (bad : Prop) (r : Sys × Next) : Prop where
  later : LogExtends s.c r.1.c
  last : r.2 ≠ .again
  waiting : Waiting r.1 ∧ NoneInVain s r.1 ↔ bad
  vain : NoneInVain s r.1 ∨ r.1.c.state.receiving
  ret : r.2 = .ret → r.1.c.result ≤ -500 ∧ r.1.c.state.receiving

/-- A last round that leaves nothing waiting. -/
theorem LastRound.done {s : Sys} {bad : Prop} {r : Sys × Next} (hnot : ¬Waiting r.1)
    (hbad : ¬bad) (hlog : TakenBy s r.1) (hlast : r.2 ≠ .again) (hret : r.2 ≠ .ret) :
    LastRound s bad r where
  later := hlog.logExtends
  last := hlast
  waiting := ⟨fun h => absurd h.1 hnot, fun h => absurd h hbad⟩
  vain := .inl hlog.none
  ret := fun h => absurd h hret

theorem LastRound.of_iff {s : Sys} {bad bad' : Prop} {r : Sys × Next} (h : LastRound s bad r)
    (hiff : bad ↔ bad') : LastRound s bad' r where
  later := h.later
  last := h.last
  waiting := h.waiting.trans hiff
  vain := h.vain
  ret := h.ret

/-- What happened before the round does not matter. -/
theorem LastRound.before {s t : Sys} {bad : Prop} {r : Sys × Next} (h : LastRound t bad r)
    (hquiet : TakenBy s t) : LastRound s bad r where
  later := hquiet.logExtends.trans h.later
  last := h.last
  waiting := by
    rw [hquiet.before h.later]
    exact h.waiting
  vain := by
    rw [hquiet.before h.later]
    exact h.vain
  ret := h.ret

/-- The end of a round that took content: another round, or nothing is left waiting. -/
theorem roundEnd_taken {s : Sys} {consumed : Int} (hpos : 0 < consumed) :
    TakenBy s (roundEnd s consumed).1 ∧ (roundEnd s consumed).2 ≠ .ret ∧
      ((roundEnd s consumed).2 ≠ .again → ¬Waiting (roundEnd s consumed).1) := by
  unfold roundEnd
  split
  · rename_i hdone
    have hcall := CallFrame.completeRequest s
    refine ⟨.routine (.call hcall), Next.noConfusion, fun _ hw => ?_⟩
    have hrec := hw.receiving
    have hst : (completeRequest s).c.state = .bodyDone :=
      (congrArg Request.state hcall.request).trans hdone
    have hrec' : (completeRequest s).c.state.receiving = true := hrec
    rw [hst] at hrec'
    cases hrec'
  · split
    · rename_i hstop
      refine ⟨.refl s, Next.noConfusion, fun _ hw => ?_⟩
      rcases hstop with h | h
      · exact hw.queued h
      · omega
    · exact ⟨.refl s, Next.noConfusion, fun h => absurd rfl h⟩

theorem takeContent_taken (s : Sys) (consumed : Int) : TakenBy s (takeContent s consumed) :=
  ⟨[_], takeContent_log s consumed, fun a ha => by rw [List.mem_singleton.mp ha]; rfl⟩

/-- Without a callback nothing is offered. -/
theorem cgiContentReceived_none {s : Sys} (h : s.c.handler.bind Cgi.onContentReceived = none)
    (buffer : Bytes) (size : Int) : cgiContentReceived s buffer size = (s, 0) := by
  unfold cgiContentReceived
  split
  · rfl
  · rename_i cgi hcgi
    rw [hcgi] at h
    have hnone : cgi.onContentReceived = none := h
    rw [hnone]

/-- What a callback is offered is logged, and it changes what callbacks may change. -/
theorem cgiContentReceived_some {s : Sys} {f : Request → Call → Bytes → Int → Call × Int}
    (h : s.c.handler.bind Cgi.onContentReceived = some f) (buffer : Bytes) (size : Int) :
    ∃ cgi, cgi.onContentReceived = some f ∧ cgiContentReceived s buffer size =
      (⟨(f s.c.toRequest s.call buffer size).1.w, { s.c with
          toResponse := (f s.c.toRequest s.call buffer size).1.r
          log := s.c.log ++ [.callback cgi .onContentReceived,
            .content s.c.toRequest s.c.toResponse s.c.requestLength size
              (f s.c.toRequest s.call buffer size).2] }, s.net⟩,
        (f s.c.toRequest s.call buffer size).2) := by
  obtain ⟨cgi, hcgi, hf⟩ := Option.bind_eq_some_iff.mp h
  refine ⟨cgi, hf, ?_⟩
  have hlog : s.c.log ++ [Act.callback cgi .onContentReceived,
        .content s.c.toRequest s.c.toResponse s.c.requestLength size
          (f s.c.toRequest s.call buffer size).2]
      = s.c.log ++ [.callback cgi .onContentReceived] ++
        [.content s.c.toRequest s.c.toResponse s.c.requestLength size
          (f s.c.toRequest s.call buffer size).2] := by
    rw [List.append_assoc]
    rfl
  unfold cgiContentReceived
  rw [hcgi, hlog]
  dsimp only
  rw [hf]
  rfl

/-- The content part of a round: it goes on, or it ends with data waiting exactly if there
was some before and nothing to offer. -/
theorem contentPart_end (s : Sys) (size : Int) (hres : 0 ≤ s.c.result) :
    ((contentPart s size).2 = .again ∧ TakenBy s (contentPart s size).1) ∨
      LastRound s (Waiting s ∧ ¬Offers s size) (contentPart s size) := by
  unfold contentPart
  split
  · rename_i hst
    have hrec : s.c.state.receiving = true := by
      rcases hst with h | h
      · rw [h]
        rfl
      · rw [h]
        rfl
    cases hf : s.c.handler.bind Cgi.onContentReceived with
    | none =>
      refine .inr ?_
      rw [cgiContentReceived_none hf]
      dsimp only
      rw [if_neg (by omega), if_pos (le_refl 0)]
      have hno : ¬Offers s size := by
        rintro ⟨-, -, f, hf', -⟩
        rw [hf] at hf'
        cases hf'
      exact {
        later := .refl _
        last := Next.noConfusion
        waiting := ⟨fun h => ⟨h.1, hno⟩, fun h => ⟨h.1, .refl s⟩⟩
        vain := .inl (.refl s)
        ret := fun h => nomatch h }
    | some f =>
      obtain ⟨cgi, hcgi, heq⟩ := cgiContentReceived_some hf s.c.httpRequestBuffer size
      rw [heq]
      have hresult := onContentReceived_result hcgi s.c.toRequest s.call s.c.httpRequestBuffer size
      have hidle := onContentReceived_idle hcgi s.c.toRequest s.call s.c.httpRequestBuffer
        size
      have hoffers : Offers s size ↔
          1 ≤ size ∧ 0 ≤ (f s.c.toRequest s.call s.c.httpRequestBuffer size).2 := by
        constructor
        · rintro ⟨-, hsize, g, hg, hn⟩
          rw [hf] at hg
          cases hg
          exact ⟨hsize, hn⟩
        · intro h
          exact ⟨hst, h.1, f, hf, h.2⟩
      generalize f s.c.toRequest s.call s.c.httpRequestBuffer size = k at hresult hidle hoffers ⊢
      generalize ht : (⟨k.1.w, { s.c with
        toResponse := k.1.r
        log := s.c.log ++ [.callback cgi .onContentReceived,
          .content s.c.toRequest s.c.toResponse s.c.requestLength size k.2] }, s.net⟩ : Sys) = t
      have hlog : t.c.log = s.c.log ++ [.callback cgi .onContentReceived,
          .content s.c.toRequest s.c.toResponse s.c.requestLength size k.2] := by rw [← ht]
      have htrec : t.c.state.receiving = true := by rw [← ht]; exact hrec
      have htres : t.c.result = k.1.r.result := by rw [← ht]
      have hnone : NoneInVain s t ↔ ¬(1 ≤ size ∧ k.2 = 0) := by
        rw [noneInVain_iff hlog]
        simp [Act.inVain]
      have hcallres : s.call.r.result = s.c.result := rfl
      dsimp only
      split
      · -- the callback failed, so it was offered something
        rename_i hfatal
        refine .inr ?_
        have hoffer : Offers s size := by
          rw [hoffers]
          by_contra hno
          have hsame := (hidle (by omega)).1
          rw [htres, hsame, hcallres] at hfatal
          omega
        exact {
          later := ⟨_, hlog⟩
          last := Next.noConfusion
          waiting := by
            refine ⟨fun h => ?_, fun h => absurd hoffer h.2⟩
            have hfine : 0 ≤ t.c.result := h.1.fine
            omega
          vain := .inr htrec
          ret := fun _ => ⟨hfatal, htrec⟩ }
      · rename_i hgood
        split
        · rename_i hzero
          refine .inr ?_
          have hsame : t.c.result = s.c.result := by
            rcases hresult with h | h
            · rw [htres, h, hcallres]
            · rw [htres, h] at hgood
              exact absurd (le_refl _) hgood
          have hwait : Waiting t ↔ Waiting s := by
            rw [← ht] at hsame ⊢
            constructor
            · intro h
              exact ⟨h.receiving, by rw [← hsame]; exact h.fine, h.queued, h.room⟩
            · intro h
              exact ⟨h.receiving, by rw [hsame]; exact h.fine, h.queued, h.room⟩
          exact {
            later := ⟨_, hlog⟩
            last := Next.noConfusion
            waiting := by
              rw [hwait, hnone, hoffers]
              constructor
              · intro h
                exact ⟨h.1, fun ho => h.2 ⟨ho.1, by omega⟩⟩
              · intro h
                exact ⟨h.1, fun ho => h.2 ⟨ho.1, by omega⟩⟩
            vain := .inr htrec
            ret := fun h => nomatch h }
        · rename_i hpos
          have hsize : 1 ≤ size := by
            by_contra hno
            have := (hidle (by omega)).2
            omega
          have htaken : TakenBy s t := by
            refine ⟨_, hlog, ?_⟩
            exact (noneInVain_iff hlog).mp (hnone.mpr (by omega))
          obtain ⟨hround, hret, hend⟩ := roundEnd_taken (s := takeContent t k.2) (by omega : 0 < k.2)
          have hall := (htaken.trans (takeContent_taken t k.2)).trans hround
          by_cases hagain : (roundEnd (takeContent t k.2) k.2).2 = .again
          · exact .inl ⟨hagain, hall⟩
          · refine .inr (.done (hend hagain) ?_ hall hagain hret)
            exact fun hb => hb.2 (hoffers.mpr ⟨hsize, by omega⟩)
  · rename_i hst
    refine .inr ?_
    have hno : ¬Offers s size := fun h => hst h.1
    unfold roundEnd
    split
    · rename_i hdone
      have hcall := CallFrame.completeRequest s
      have hstate : (completeRequest s).c.state = .bodyDone :=
        (congrArg Request.state hcall.request).trans hdone
      refine .done (fun hw => ?_) (fun hb => ?_) (.routine (.call hcall)) Next.noConfusion Next.noConfusion
      · have hrec : (completeRequest s).c.state.receiving = true := hw.receiving
        rw [hstate] at hrec
        cases hrec
      · have hrec := hb.1.receiving
        rw [hdone] at hrec
        cases hrec
    · rw [if_pos (.inr (le_refl 0))]
      exact {
        later := .refl _
        last := Next.noConfusion
        waiting := ⟨fun h => ⟨h.1, hno⟩, fun h => ⟨h.1, .refl s⟩⟩
        vain := .inl (.refl s)
        ret := fun h => nomatch h }

/-- A round that comes to its content part. -/
theorem contentStart_some {s t : Sys} {size : Int} (h : contentStart s = some (t, size)) :
    processBuffer s = contentPart t size ∧ TakenBy s t ∧ 0 ≤ t.c.result := by
  have hhead := TakenBy.routine (.headerPart s)
  unfold contentStart at h
  unfold processBuffer
  split at h
  · cases h
  · rename_i hlen
    rw [if_neg hlen]
    dsimp only at h ⊢
    split at h
    · cases h
    · rename_i hgood
      rw [if_neg hgood]
      split at h
      · cases h
      · rename_i hsmall
        rw [if_neg hsmall]
        split at h
        · cases h
        · rename_i hmore
          rw [if_neg hmore]
          unfold afterHeader
          dsimp only
          have hnow : TakenBy s (if (headerPart s).2.1 then headersEnd (headerPart s).1
              else (headerPart s).1) := by
            split
            · exact hhead.trans (TakenBy.headersEnd _)
            · exact hhead
          generalize (if (headerPart s).2.1 then headersEnd (headerPart s).1
            else (headerPart s).1) = u at h hnow ⊢
          split at h
          · cases h
          · rename_i hfine
            rw [if_neg hfine]
            split at h
            · rename_i hchunk
              cases h
              rw [if_pos hchunk]
              refine ⟨rfl, hnow.trans (TakenBy.routine (.chunkLength ..)), ?_⟩
              rw [chunkLength_result]
              omega
            · rename_i hchunk
              cases h
              rw [if_neg hchunk]
              exact ⟨rfl, hnow, by omega⟩

/-- A round that ends before its content part goes on, or leaves nothing waiting. -/
theorem contentStart_none {s : Sys} (h : contentStart s = none)
    (hdrained : s.c.requestLength = 0 → s.c.reqBufList = []) :
    TakenBy s (processBuffer s).1 ∧ (processBuffer s).2 ≠ .ret ∧
      ((processBuffer s).2 ≠ .again → ¬Waiting (processBuffer s).1) := by
  have hhead := TakenBy.routine (.headerPart s)
  unfold contentStart at h
  unfold processBuffer
  split
  · rename_i hlen
    exact ⟨.refl s, Next.noConfusion, fun _ hw => hw.queued (hdrained hlen)⟩
  · rename_i hlen
    rw [if_neg hlen] at h
    dsimp only at h ⊢
    split
    · rename_i hbad
      refine ⟨hhead, Next.noConfusion, fun _ hw => ?_⟩
      have hfine : 0 ≤ (headerPart s).1.c.result := hw.fine
      omega
    · rename_i hgood
      rw [if_neg hgood] at h
      split
      · -- the header section does not fit the buffer
        refine ⟨hhead.trans (TakenBy.routine (.quiet rfl)), Next.noConfusion, fun _ hw => ?_⟩
        exact absurd hw.fine (show ¬(0 : Int) ≤ -500 by decide)
      · rename_i hsmall
        rw [if_neg hsmall] at h
        split
        · refine ⟨hhead, ?_, ?_⟩
          · show (if _ then Next.stop else Next.again) ≠ .ret
            split <;> exact Next.noConfusion
          · by_cases hq : (headerPart s).1.c.reqBufList = []
            · exact fun _ hw => hw.queued hq
            · exact fun h => absurd (if_neg hq) h
        · rename_i hmore
          rw [if_neg hmore] at h
          unfold afterHeader
          dsimp only
          have hnow : TakenBy s (if (headerPart s).2.1 then headersEnd (headerPart s).1
              else (headerPart s).1) := by
            split
            · exact hhead.trans (TakenBy.headersEnd _)
            · exact hhead
          generalize (if (headerPart s).2.1 then headersEnd (headerPart s).1
            else (headerPart s).1) = u at h hnow ⊢
          split
          · refine ⟨hnow.trans (TakenBy.routine (.quiet rfl)), Next.noConfusion, fun _ hw => ?_⟩
            exact absurd hw.receiving (show ¬HttpState.receiving .sendingHeader = true by decide)
          · rename_i hfine
            rw [if_neg hfine] at h
            split at h
            · cases h
            · cases h

/-- One round: it goes on, or it ends with data waiting exactly if it is stranded. -/
theorem iteration_end {s : Sys} (hreach : SlotReach s.c) (hrec : s.c.state.receiving) :
    ((iteration s).2 = .again ∧ TakenBy s (iteration s).1) ∨
      LastRound s (StrandedRound s) (iteration s) := by
  obtain ⟨hqueue, hfull⟩ := queueInv_dequeue hreach.queueInv
  have hreach' : SlotReach s.c.dequeue := hreach.micro (.dequeue s hrec)
  have hquiet : TakenBy s { s with c := s.c.dequeue } := .routine (.rx (.dequeue s.c))
  -- a queue that is not empty belongs to a connection, whose buffer has 128 bytes
  have hdrained : s.c.dequeue.requestLength = 0 → s.c.dequeue.reqBufList = [] := by
    intro hlen
    rcases hfull with h | h
    · exact h
    · by_contra hne
      have hlive : s.c.dequeue.pcb ≠ none := fun hnone => hne (hreach'.shape.free hnone).queue
      have hsame : s.c.dequeue.pcb = s.c.pcb := by
        obtain ⟨_, _, _, _, _, _, heq, _⟩ := RxFrame.dequeue s.c
        rw [heq]
      have hlevel := hreach.queueInv.level (by
        rw [← hsame]
        exact Option.isSome_iff_ne_none.mpr hlive)
      have hmax : maxReqBufSize = 128 := rfl
      omega
  unfold iteration
  cases hstart : contentStart { s with c := s.c.dequeue } with
  | none =>
    obtain ⟨htaken, hret, hend⟩ := contentStart_none hstart hdrained
    by_cases hagain : (processBuffer { s with c := s.c.dequeue }).2 = .again
    · exact .inl ⟨hagain, hquiet.trans htaken⟩
    · refine .inr (.done (hend hagain) ?_ (hquiet.trans htaken) hagain hret)
      rintro ⟨-, t, size, hsome, -⟩
      rw [hstart] at hsome
      cases hsome
  | some start =>
    obtain ⟨t, size⟩ := start
    obtain ⟨heq, htaken, hfine⟩ := contentStart_some hstart
    rw [heq]
    rcases contentPart_end t size hfine with ⟨hagain, hlog⟩ | hlast
    · exact .inl ⟨hagain, (hquiet.trans htaken).trans hlog⟩
    · refine .inr ((hlast.before (hquiet.trans htaken)).of_iff ?_)
      constructor
      · intro h
        exact ⟨hrec, t, size, hstart, h⟩
      · rintro ⟨-, t', size', hsome, h⟩
        rw [hstart] at hsome
        cases hsome
        exact h

/-! ## The loop -/

/-- The state in which the last round of the loop starts. -/
def lastRound : Nat → Sys → Sys
  | 0, s => s
  | fuel + 1, s =>
    if s.c.state.receiving then
      match iteration s with
      | (t, .again) => lastRound fuel t
      | _ => s
    else s

/-- The loop leaves data waiting exactly if its last round is stranded. -/
theorem receiveLoop_last (fuel : Nat) {s : Sys} (hreach : SlotReach s.c)
    (hok : (receiveLoop fuel s).1.c.fault = false) :
    LastRound s (StrandedRound (lastRound fuel s)) (receiveLoop fuel s) := by
  induction fuel generalizing s with
  | zero => cases hok
  | succ fuel ih =>
    rw [receiveLoop] at hok ⊢
    rw [lastRound]
    split
    · rename_i hrec
      rw [if_pos hrec] at hok
      have hround := iteration_end hreach hrec
      have hnext : SlotReach (iteration s).1.c := hreach.micros (iteration_micros hrec)
      generalize iteration s = r at hok hround hnext ⊢
      obtain ⟨t, next⟩ := r
      cases next with
      | again =>
        rcases hround with ⟨-, htaken⟩ | hlast
        · exact (ih hnext hok).before htaken
        · -- a last round does not go on
          exact absurd rfl hlast.last
      | stop =>
        rcases hround with ⟨hagain, -⟩ | hlast
        · cases hagain
        · exact hlast
      | ret =>
        rcases hround with ⟨hagain, -⟩ | hlast
        · cases hagain
        · exact hlast
    · rename_i hrec
      rw [if_neg hrec] at hok
      exact .done (fun hw => hrec hw.receiving) (fun h => hrec h.1) (.refl s) Next.noConfusion
        Next.noConfusion

/-! ## What a round leaves alone -/

/-- Behind the dequeue block a round leaves the queue, the network and the connection as they
are. -/
structure RoundKept (s t : Sys) : Prop where
  peer : t.c.peerClosing = s.c.peerClosing
  pcb : t.c.pcb = s.c.pcb
  queue : t.c.reqBufList = s.c.reqBufList
  offset : t.c.bufOffset = s.c.bufOffset
  net : t.net = s.net

theorem parseHeader_peerClosing (s : Sys) (size : Int) :
    (parseHeader s size).1.c.peerClosing = s.c.peerClosing := by
  have hscan : (parseScan s size).s.c.peerClosing = s.c.peerClosing := by
    refine lineLoop_induct (P := fun t => t.c.peerClosing = s.c.peerClosing) ?_ ?_ ?_ _ _ _ rfl
    · intro t tail n _ ht
      obtain ⟨_, _, _, _, heq, hreq, _⟩ := LineFrame.requestLine t tail n
      rw [heq]
      exact (congrArg Request.peerClosing hreq).trans ht
    · intro t tail n _ ht
      obtain ⟨_, _, _, _, heq, hreq, _⟩ := LineFrame.headerLine t tail n
      rw [heq]
      exact (congrArg Request.peerClosing hreq).trans ht
    · intro t ht
      unfold endOfHeaders
      dsimp only
      split
      · exact ht
      · exact ht
  show (LineScan.shift _ _).peerClosing = _
  exact (congrArg Request.peerClosing (shift_request ..)).trans hscan

namespace RoundKept

theorem refl (s : Sys) : RoundKept s s := ⟨rfl, rfl, rfl, rfl, rfl⟩

theorem trans {s t u : Sys} (h : RoundKept s t) (h' : RoundKept t u) : RoundKept s u where
  peer := h'.peer.trans h.peer
  pcb := h'.pcb.trans h.pcb
  queue := h'.queue.trans h.queue
  offset := h'.offset.trans h.offset
  net := h'.net.trans h.net

theorem call {s t : Sys} (h : CallFrame s t) : RoundKept s t := by
  obtain ⟨_, _, _, heq, _⟩ := h
  rw [heq]
  exact ⟨rfl, rfl, rfl, rfl, rfl⟩

theorem parse (s : Sys) (size : Int) : RoundKept s (parseHeader s size).1 := by
  have hpeer := parseHeader_peerClosing s size
  obtain ⟨_, _, _, _, _, _, heq, _⟩ := ParseFrame.parseHeader s size
  rw [heq] at hpeer ⊢
  exact ⟨hpeer, rfl, rfl, rfl, rfl⟩

theorem take (s : Sys) (consumed : Int) : RoundKept s (takeContent s consumed) := by
  unfold takeContent
  dsimp only
  split
  · unfold contentDone
    split
    · dsimp only
      split <;> exact ⟨rfl, rfl, rfl, rfl, rfl⟩
    · exact ⟨rfl, rfl, rfl, rfl, rfl⟩
  · exact ⟨rfl, rfl, rfl, rfl, rfl⟩

theorem roundEnd (s : Sys) (consumed : Int) : RoundKept s (roundEnd s consumed).1 := by
  unfold Httpd.roundEnd
  split
  · exact call (.completeRequest s)
  · split <;> exact refl s

theorem content (s : Sys) (size : Int) : RoundKept s (contentPart s size).1 := by
  unfold contentPart
  split
  · have hcall : RoundKept s (cgiContentReceived s s.c.httpRequestBuffer size).1 := by
      obtain ⟨_, _, _, heq⟩ := cgiContentReceived_frame s s.c.httpRequestBuffer size
      rw [heq]
      exact ⟨rfl, rfl, rfl, rfl, rfl⟩
    dsimp only
    split
    · exact hcall
    · split
      · exact hcall
      · exact (hcall.trans (take ..)).trans (roundEnd ..)
  · exact roundEnd s 0

theorem headersEnd (s : Sys) : RoundKept s (headersEnd s) := by
  obtain ⟨_, _, heq, -⟩ := headersEnd_eq s
  obtain ⟨_, _, _, hcall, -⟩ := CallFrame.cgiHeadersReceived _
  rw [heq, hcall]
  exact ⟨rfl, rfl, rfl, rfl, rfl⟩

theorem chunkLength (s : Sys) (size : Int) : RoundKept s (chunkLength s size) := by
  unfold Httpd.chunkLength
  split <;> exact ⟨rfl, rfl, rfl, rfl, rfl⟩

theorem headerPart (s : Sys) : RoundKept s (headerPart s).1 := by
  have hstart : RoundKept s (if 0 < s.c.requestLength ∧ s.c.state = .idle then startRequest s
      else s) := by
    split <;> exact ⟨rfl, rfl, rfl, rfl, rfl⟩
  unfold Httpd.headerPart
  dsimp only
  generalize (if 0 < s.c.requestLength ∧ s.c.state = .idle then startRequest s else s) = t
    at hstart ⊢
  split
  · exact hstart.trans (parse ..)
  · exact hstart

theorem afterHeader (s : Sys) (justNow : Bool) (size : Int) :
    RoundKept s (afterHeader s justNow size).1 := by
  have hnow : RoundKept s (if justNow then Httpd.headersEnd s else s) := by
    split
    · exact headersEnd s
    · exact refl s
  unfold Httpd.afterHeader
  dsimp only
  generalize (if justNow then Httpd.headersEnd s else s) = t at hnow ⊢
  split
  · exact hnow.trans ⟨rfl, rfl, rfl, rfl, rfl⟩
  · split
    · exact hnow.trans ((chunkLength ..).trans (content ..))
    · exact hnow.trans (content ..)

theorem processBuffer (s : Sys) : RoundKept s (processBuffer s).1 := by
  have hhead := headerPart s
  unfold Httpd.processBuffer
  dsimp only
  split
  · exact refl s
  · generalize Httpd.headerPart s = parsed at hhead ⊢
    split
    · exact hhead
    · split
      · exact hhead.trans ⟨rfl, rfl, rfl, rfl, rfl⟩
      · split
        · exact hhead
        · exact hhead.trans (afterHeader ..)

end RoundKept

/-- Working off data does not look at the other side of the connection. -/
theorem receiveLoop_peerClosing (fuel : Nat) (s : Sys) :
    (receiveLoop fuel s).1.c.peerClosing = s.c.peerClosing := by
  induction fuel generalizing s with
  | zero => rfl
  | succ fuel ih =>
    have hround : (iteration s).1.c.peerClosing = s.c.peerClosing :=
      (RoundKept.processBuffer { s with c := s.c.dequeue }).peer.trans
        (congrArg Request.peerClosing (RxFrame.dequeue s.c).request)
    rw [receiveLoop]
    split
    · split
      · rename_i t heq
        rw [heq] at hround
        exact (ih t).trans hround
      · exact hround
    · rfl

/-! ## The call -/

theorem RespFrame.httpResponseProc (s : Sys) (caller : Caller) :
    RespFrame s (httpResponseProc s caller) := by
  have hask : RespFrame s s.afterSndbuf := sendFrame (.afterSndbuf s)
  unfold Httpd.httpResponseProc
  split
  · exact refl s
  · split
    · exact sendRemaining s
    · split
      · exact hask.trans (sendRemaining _)
      · dsimp only
        have hfirst : RespFrame s (if 0 < s.c.bytesLeft then s.afterSndbuf else s) := by
          split
          · exact hask
          · exact refl s
        generalize (if 0 < s.c.bytesLeft then s.afterSndbuf else s) = t at hfirst ⊢
        have hstep : RespFrame s (responseHeaderStep t caller) := by
          unfold responseHeaderStep
          split
          · exact hfirst.trans (startResponse t)
          · split
            · exact hfirst.trans (headerAcked t)
            · exact hfirst
        split
        · exact hstep
        · split
          · exact hstep.trans (sendBody _ caller)
          · exact hstep

/-- After a call that leaves the connection receiving, queued data is waiting for room in the
buffer, or for a handler that was offered content in the call and took none. -/
def NoStrandedInput (s : Sys) (caller : Caller) : Prop :=
  (httpRequestProc s caller).c.state.receiving → 0 ≤ (httpRequestProc s caller).c.result →
    (httpRequestProc s caller).c.reqBufList ≠ [] →
    (httpRequestProc s caller).c.maxLevel ≤ (httpRequestProc s caller).c.requestLength ∨
      ∃ a ∈ (httpRequestProc s caller).c.log.drop s.c.log.length, a.inVain

theorem noStrandedInput_iff (s : Sys) (caller : Caller) :
    NoStrandedInput s caller ↔
      ¬(Waiting (httpRequestProc s caller) ∧ NoneInVain s (httpRequestProc s caller)) := by
  constructor
  · rintro h ⟨hw, hnone⟩
    rcases h hw.receiving hw.fine hw.queued with hfull | ⟨a, ha, hvain⟩
    · have hroom := hw.room
      omega
    · rw [hnone a ha] at hvain
      cases hvain
  · intro h hrec hfine hqueue
    by_cases hroom : (httpRequestProc s caller).c.requestLength
        < (httpRequestProc s caller).c.maxLevel
    · refine .inr ?_
      by_contra hno
      refine h ⟨⟨hrec, hfine, hqueue, hroom⟩, fun a ha => ?_⟩
      by_contra hvain
      exact hno ⟨a, ha, by simpa using hvain⟩
    · exact .inl (by omega)

/-- The call ends a response, and the connection is kept for requests that are queued
already. -/
structure ResetWaiting (s : Sys) (caller : Caller) : Prop where
  responding : s.c.state.receiving = false
  ended : (httpResponseProc s caller).c.state = .requestEnd
  peer : s.c.peerClosing = false
  kept : s.c.keepalive = true
  queued : s.c.reqBufList ≠ []
  room : s.c.requestLength < maxReqBufSize

/-- What the end of the call makes of data that the loop left waiting. -/
theorem requestFinish_receiving {s : Sys} (caller : Caller) (hrec : s.c.state.receiving) :
    Waiting (requestFinish s caller) ↔ Waiting s ∧ s.c.peerClosing = false := by
  unfold requestFinish
  rw [if_pos hrec]
  split
  · rename_i hpeer
    constructor
    · intro hw
      exact absurd hw.fine (show ¬(0 : Int) ≤ -500 by decide)
    · intro hw
      rw [hpeer] at hw
      exact absurd hw.2 Bool.noConfusion
  · rename_i hpeer
    exact ⟨fun hw => ⟨hw, by simpa using hpeer⟩, fun hw => hw.1⟩

/-- A response that ends leaves data waiting if the connection is kept. -/
theorem requestFinish_responding {s : Sys} (caller : Caller) (hrec : s.c.state.receiving = false) :
    Waiting (requestFinish s caller) ↔ ResetWaiting s caller := by
  have hresp := RespFrame.httpResponseProc s caller
  unfold requestFinish
  rw [if_neg (by rw [hrec]; decide)]
  dsimp only
  have hcond : (httpResponseProc s caller).c.state = .requestEnd → s.c.peerClosing = false →
      s.c.keepalive = true → s.c.reqBufList ≠ [] → s.c.requestLength < maxReqBufSize →
      ResetWaiting s caller := fun h1 h2 h3 h4 h5 => ⟨hrec, h1, h2, h3, h4, h5⟩
  have hback : ResetWaiting s caller → (httpResponseProc s caller).c.state = .requestEnd ∧
      s.c.peerClosing = false ∧ s.c.keepalive = true ∧ s.c.reqBufList ≠ [] ∧
      s.c.requestLength < maxReqBufSize := fun h => ⟨h.ended, h.peer, h.kept, h.queued, h.room⟩
  generalize httpResponseProc s caller = t at hresp hcond hback ⊢
  have hfreed : ¬Waiting (closeHttpContext t) := by
    intro hw
    obtain ⟨_, _, _, _, _, _, heq, _⟩ := closeHttpContext_frame t
    rw [heq] at hw
    exact hw.queued rfl
  obtain ⟨_, st, _, _, _, _, _, _, _, rfl, hst, _⟩ := hresp
  split
  · rename_i hend
    unfold requestEnd
    split
    · rename_i hpeer
      refine ⟨fun hw => absurd hw hfreed, fun h => ?_⟩
      have hopen := (hback h).2.1
      have hclosing : s.c.peerClosing = true := hpeer
      rw [hopen] at hclosing
      cases hclosing
    · rename_i hpeer
      split
      · rename_i hkeep
        obtain ⟨_, _, heq, _, _, hr⟩ := resetHttpContext_spec (Sys.note _ (.reset _ _))
        rw [heq]
        constructor
        · intro hw
          exact hcond hend (by simpa using hpeer) hkeep hw.queued hw.room
        · intro h
          obtain ⟨-, -, -, hqueue, hroom⟩ := hback h
          exact ⟨rfl, le_refl (0 : Int), hqueue, hroom⟩
      · rename_i hkeep
        exact ⟨fun hw => absurd hw hfreed, fun h => absurd (hback h).2.2.1 hkeep⟩
  · rename_i hend
    constructor
    · intro hw
      have hrec' : st.receiving = true := hw.receiving
      have hresp' := hst (by rw [HttpState.responding, hrec]; rfl)
      rw [HttpState.responding, hrec'] at hresp'
      cases hresp'
    · intro h
      exact absurd (hback h).1 hend

/-- The end of a request, and with it of the connection if it is not kept. -/
theorem Routine.requestEnd (s : Sys) : Routine s (requestEnd s) := by
  unfold Httpd.requestEnd
  split
  · exact freed (closeHttpContext_frame _)
  · split
    · obtain ⟨_, _, heq, -⟩ := resetHttpContext_spec (Sys.note s (.reset _ _))
      rw [heq]
      exact LogsNo.note _ rfl
    · exact freed (closeHttpContext_frame _)

/-- The end of the call. -/
theorem Routine.requestFinish (s : Sys) (caller : Caller) : Routine s (requestFinish s caller) := by
  unfold Httpd.requestFinish
  split
  · split
    · exact LogsNo.quiet rfl
    · exact LogsNo.refl s
  · have hresp := resp (RespFrame.httpResponseProc s caller)
    dsimp only
    split
    · exact hresp.trans (requestEnd _)
    · exact hresp

theorem micros_marked {s s' : Sys} (h : Micros s s') (hbad : s.c.fault = true) :
    s'.c.fault = true := by
  induction h with
  | refl => exact hbad
  | tail _ hlast ih => exact (micro_kept hlast).marked ih

/-- Data is left waiting by the last round, or by the reset behind a response. -/
theorem waiting_iff {s : Sys} {caller : Caller} (hreach : SlotReach s.c)
    (hok : (httpRequestProc s caller).c.fault = false) :
    Waiting (httpRequestProc s caller) ∧ NoneInVain s (httpRequestProc s caller) ↔
      (StrandedRound (lastRound (receiveFuel s.c) s) ∧ s.c.peerClosing = false) ∨
        ResetWaiting (receiveLoop (receiveFuel s.c) s).1 caller := by
  have hpeer := receiveLoop_peerClosing (receiveFuel s.c) s
  have hloop := receiveLoop_last (receiveFuel s.c) hreach
  unfold httpRequestProc at hok ⊢
  generalize StrandedRound (lastRound (receiveFuel s.c) s) = bad at hloop ⊢
  generalize receiveLoop (receiveFuel s.c) s = r at hpeer hloop hok ⊢
  obtain ⟨t, next⟩ := r
  have hfinish : next ≠ .ret → (requestFinish t caller).c.fault = false →
      (Waiting (requestFinish t caller) ∧ NoneInVain s (requestFinish t caller) ↔
        bad ∧ s.c.peerClosing = false ∨ ResetWaiting t caller) := by
    intro _ hfine
    have hlast := hloop (by
      by_contra hbad
      rw [micros_marked (requestFinish_micros t caller) (by simpa using hbad)] at hfine
      cases hfine)
    have hquiet := TakenBy.routine (.requestFinish t caller)
    rw [noneInVain_trans hlast.later hquiet.logExtends, and_iff_left hquiet.none]
    cases hrec : t.c.state.receiving with
    | true =>
      have hno : ¬ResetWaiting t caller := by
        intro h
        rw [h.responding] at hrec
        cases hrec
      rw [requestFinish_receiving caller hrec, ← hlast.waiting, ← hpeer, or_iff_left hno]
      exact ⟨fun h => ⟨⟨h.1.1, h.2⟩, h.1.2⟩, fun h => ⟨⟨h.1.1, h.2⟩, h.1.2⟩⟩
    | false =>
      have hnone : NoneInVain s t := by
        rcases hlast.vain with h | h
        · exact h
        · rw [hrec] at h
          cases h
      have hno : ¬(bad ∧ s.c.peerClosing = false) := by
        intro h
        have hw := (hlast.waiting.mpr h.1).1.receiving
        rw [hrec] at hw
        cases hw
      rw [requestFinish_responding caller hrec, or_iff_right hno]
      exact and_iff_left hnone
  cases next with
  | again => exact hfinish Next.noConfusion hok
  | stop => exact hfinish Next.noConfusion hok
  | ret =>
    have hlast := hloop hok
    obtain ⟨hfatal, hrec⟩ := hlast.ret rfl
    have hnot : ¬Waiting t := by
      intro hw
      have hfine := hw.fine
      have hfatal' : t.c.result ≤ -500 := hfatal
      omega
    refine ⟨fun h => absurd h.1 hnot, fun h => ?_⟩
    rcases h with h | h
    · exact absurd (hlast.waiting.mpr h.1).1 hnot
    · have hresp : t.c.state.receiving = false := h.responding
      have hrec' : t.c.state.receiving = true := hrec
      rw [hresp] at hrec'
      cases hrec'

end Httpd
