import LambdaIOT.Httpd.Kept

/-!
# Invariants of contexts

`Shape` holds of every context at any time. `SlotReach.induct` is the rule the properties
use: an invariant that a fresh connection has, and that every action keeps as long as the
log meets a condition and nothing has left its object, holds of every reachable context
that has met the condition so far.
-/

namespace Httpd

open CMem Lwip Relation

/-! ## The log grows -/

/-- `c'` is a later state of the connection `c`. -/
def LogExtends (c c' : RequestContext) : Prop := ∃ log, c'.log = c.log ++ log

theorem LogExtends.refl (c : RequestContext) : LogExtends c c := ⟨[], (List.append_nil _).symm⟩

theorem LogExtends.trans {c d e : RequestContext} (h : LogExtends c d) (h' : LogExtends d e) :
    LogExtends c e := by
  obtain ⟨l, hl⟩ := h
  obtain ⟨l', hl'⟩ := h'
  exact ⟨l ++ l', by rw [hl', hl, List.append_assoc]⟩

theorem RespFrame.logExtends {s s' : Sys} (h : RespFrame s s') : LogExtends s.c s'.c := by
  obtain ⟨_, _, _, _, _, _, _, log, _, rfl, _⟩ := h
  exact ⟨log, rfl⟩

theorem FreedFrame.logExtends {s s' : Sys} (h : FreedFrame s s') : LogExtends s.c s'.c := by
  obtain ⟨_, _, _, _, log, _, rfl, _⟩ := h
  refine ⟨log ++ [.freed], ?_⟩
  show s.c.log ++ log ++ [.freed] = _
  rw [List.append_assoc]

theorem RxFrame.logExtends {c c' : RequestContext} (h : RxFrame c c') : LogExtends c c' := by
  obtain ⟨_, _, _, _, _, log, rfl, _⟩ := h
  exact ⟨log, rfl⟩

theorem CallFrame.logExtends {s s' : Sys} (h : CallFrame s s') : LogExtends s.c s'.c := by
  obtain ⟨_, _, log, rfl, _⟩ := h
  exact ⟨log, rfl⟩

theorem note_logExtends (s : Sys) (a : Act) : LogExtends s.c (s.note a).c := ⟨[a], rfl⟩

theorem takeContent_log (s : Sys) (consumed : Int) :
    (takeContent s consumed).c.log =
      s.c.log ++ [.consumed (s.c.httpRequestBuffer.take consumed.toNat)] := by
  unfold takeContent
  dsimp only
  split
  · unfold contentDone
    split
    · dsimp only
      split <;> rfl
    · rfl
  · rfl

theorem offerContent_logExtends (s : Sys) (size : Int) :
    LogExtends s.c (offerContent s size).c := by
  have hcall : LogExtends s.c (cgiContentReceived s s.c.httpRequestBuffer size).1.c := by
    rcases cgiContentReceived_cases s s.c.httpRequestBuffer size with heq | ⟨_, _, _, _, heq⟩
    · rw [heq]
      exact .refl _
    · rw [heq]
      exact (note_logExtends ..).trans (note_logExtends ..)
  unfold offerContent
  dsimp only
  split
  · exact hcall
  · exact hcall.trans ⟨_, takeContent_log ..⟩

theorem micro_logExtends {s s' : Sys} (h : Micro s s') : LogExtends s.c s'.c := by
  cases h with
  | environment w net hpcbs => exact .refl _
  | receive p hlive hfit => exact (RxFrame.receivePbuf ..).logExtends
  | peerClosed => exact .refl s.c
  | touch t => exact .refl s.c
  | acknowledged len => exact .refl s.c
  | dequeue hst => exact (RxFrame.dequeue _).logExtends
  | startRequest hst hlen => exact .refl s.c
  | parseHeader hst hlen =>
    obtain ⟨_, _, _, _, _, log, heq, _⟩ := ParseFrame.parseHeader s s.c.requestLength
    rw [heq]
    exact ⟨log, rfl⟩
  | tooLarge hst => exact .refl s.c
  | headersEnd hst hok =>
    obtain ⟨_, _, heq, -⟩ :=
      frameContent_spec (s.setResponse (authorize s.w s.c.toRequest s.c.toResponse))
    unfold headersEnd
    dsimp only
    rw [heq]
    refine LogExtends.trans ?_ (CallFrame.cgiHeadersReceived _).logExtends
    exact ⟨_, rfl⟩
  | refuse hst hbad hsending => exact .refl s.c
  | chunkLength hst hok =>
    unfold chunkLength
    split
    · exact .refl s.c
    · exact ⟨[.chunkLine s.c.toRequest, _], (List.append_assoc s.c.log [_] [_])⟩
  | content size hst hok => exact offerContent_logExtends s size
  | complete hst hok => exact (CallFrame.completeRequest s).logExtends
  | sendRemaining hst hres hleft => exact (RespFrame.sendRemaining s).logExtends
  | startResponse hst hres hfirst => exact (RespFrame.startResponse s).logExtends
  | headerAcked hst hres hsent => exact (RespFrame.headerAcked s).logExtends
  | sendBody caller hst hres hsent hstage => exact (RespFrame.sendBody s caller).logExtends
  | requestEnd hst =>
    unfold requestEnd
    split
    · exact (closeHttpContext_frame s).logExtends
    · split
      · obtain ⟨_, _, heq, -⟩ :=
          resetHttpContext_spec (s.note (.reset s.c.toRequest s.c.toResponse))
        rw [heq]
        exact ⟨_, rfl⟩
      · exact (closeHttpContext_frame s).logExtends
  | peerGone hst hpeer => exact .refl s.c
  | close => exact (closeHttpContext_frame s).logExtends
  | free hgone => exact (freeHttpContext_frame s).logExtends
  | outOfFuel => exact .refl s.c

/-! ## The shape of a context -/

/-- A context without a connection: idle, with empty buffers. -/
structure FreeCtx (c : RequestContext) : Prop where
  state : c.state = .idle
  length : c.requestLength = 0
  queue : c.reqBufList = []
  offset : c.bufOffset = 0
  left : c.bytesLeft = 0

/-- What holds of every context: the sizes of its buffers, and that it is empty when it has
no connection. -/
structure Shape (c : RequestContext) : Prop where
  mem : c.mem.length = memSize
  buffer : c.httpRequestBuffer.length = maxReqBufSize + 4
  free : c.pcb = none → FreeCtx c

theorem shape_setup : Shape setupContext where
  mem := List.length_replicate ..
  buffer := List.length_replicate ..
  free := fun _ => ⟨rfl, rfl, rfl, rfl, rfl⟩

theorem shape_rx {c c' : RequestContext} (h : RxFrame c c') (hs : Shape c)
    (hfree : c.pcb = none → FreeCtx c') : Shape c' := by
  obtain ⟨_, _, _, _, _, _, rfl, hbuf, _⟩ := h
  exact ⟨hs.mem, hbuf.trans hs.buffer, hfree⟩

/-- A step that leaves the buffer and the connection alone, and does not happen without a
connection. -/
theorem shape_same {c c' : RequestContext} (hs : Shape c) (hmem : c'.mem.length = memSize)
    (hbuf : c'.httpRequestBuffer = c.httpRequestBuffer) (hpcb : c'.pcb = c.pcb)
    (hbusy : c.pcb ≠ none) : Shape c' where
  mem := hmem
  buffer := by rw [hbuf]; exact hs.buffer
  free := fun h => absurd (hpcb.symm.trans h) hbusy

theorem shape_freed {s s' : Sys} (h : FreedFrame s s') (hmem : s'.c.mem.length = memSize) :
    Shape s'.c := by
  obtain ⟨_, _, _, _, _, _, rfl, _⟩ := h
  exact ⟨hmem, List.length_replicate .., fun _ => ⟨rfl, rfl, rfl, rfl, rfl⟩⟩

theorem shape_response {s s' : Sys} (h : RespFrame s s') (hs : Shape s.c)
    (hmem : s'.c.mem.length = memSize) (hbusy : s.c.pcb ≠ none) : Shape s'.c := by
  obtain ⟨_, _, _, _, _, _, _, _, _, rfl, _⟩ := h
  exact shape_same hs hmem rfl rfl hbusy

theorem shape_reset {s : Sys} (hs : Shape s.c) (hbusy : s.c.pcb ≠ none) :
    Shape (resetHttpContext s).c := by
  obtain ⟨_, _, heq, -⟩ := resetHttpContext_spec s
  rw [heq]
  exact shape_same hs (List.length_replicate ..) rfl rfl hbusy

/-- Every action keeps the shape. -/
theorem shape_step {s s' : Sys} (hs : Shape s.c) (h : Micro s s') : Shape s'.c := by
  have hmem := (micro_kept h).size hs.mem
  -- only an idle context can be without a connection
  have hbusy : s.c.state ≠ .idle → s.c.pcb ≠ none := fun hne hnone => hne (hs.free hnone).state
  cases h with
  | environment w net hpcbs => exact hs
  | receive p hlive hfit =>
    exact shape_rx (.receivePbuf ..) hs fun h => by rw [h] at hlive; cases hlive
  | peerClosed => exact ⟨hs.mem, hs.buffer, fun h => ⟨(hs.free h).state, (hs.free h).length,
      (hs.free h).queue, (hs.free h).offset, (hs.free h).left⟩⟩
  | touch t => exact ⟨hs.mem, hs.buffer, fun h => ⟨(hs.free h).state, (hs.free h).length,
      (hs.free h).queue, (hs.free h).offset, (hs.free h).left⟩⟩
  | acknowledged len => exact ⟨hs.mem, hs.buffer, fun h => ⟨(hs.free h).state, (hs.free h).length,
      (hs.free h).queue, (hs.free h).offset, (hs.free h).left⟩⟩
  | dequeue hst =>
    refine shape_rx (.dequeue _) hs fun h => ?_
    have hdeq : s.c.dequeue = s.c := by
      unfold RequestContext.dequeue
      rw [if_pos (hs.free h).queue]
    rw [hdeq]
    exact hs.free h
  | startRequest hst hlen =>
    refine shape_same hs hmem rfl rfl fun h => ?_
    rw [(hs.free h).length] at hlen
    exact absurd hlen (by decide)
  | parseHeader hst hlen =>
    have hne := hbusy (by rw [hst]; decide)
    obtain ⟨_, _, _, _, _, _, heq, hbuf, _⟩ := ParseFrame.parseHeader s s.c.requestLength
    rw [heq] at hmem ⊢
    exact ⟨hmem, hbuf.trans hs.buffer, fun h => absurd h hne⟩
  | tooLarge hst => exact shape_same hs hmem rfl rfl (hbusy (by rw [hst]; decide))
  | headersEnd hst hok =>
    have hne := hbusy (by rw [hst]; decide)
    obtain ⟨_, _, heq, -⟩ := headersEnd_eq s
    rw [heq] at hmem ⊢
    obtain ⟨_, _, _, hcall, -⟩ := CallFrame.cgiHeadersReceived _
    rw [hcall] at hmem ⊢
    exact shape_same hs hmem rfl rfl hne
  | refuse hst hbad hsending => exact shape_same hs hmem rfl rfl (hbusy hst.1)
  | chunkLength hst hok =>
    have hne := hbusy (by rw [hst]; decide)
    unfold chunkLength at hmem ⊢
    split
    · exact hs
    · refine ⟨hs.mem, ?_, fun h => absurd h hne⟩
      show List.length (if _ then _ else _) = _
      split
      · rw [length_store, length_store]
        exact hs.buffer
      · rw [length_store]
        exact hs.buffer
  | content size hst hok =>
    have hne := hbusy (by rcases hst with h | h <;> simp [h])
    obtain ⟨_, _, _, _, _, _, heq, hbuf⟩ := offerContent_frame s size
    rw [heq] at hmem ⊢
    exact ⟨hmem, hbuf.trans hs.buffer, fun h => absurd h hne⟩
  | complete hst hok =>
    have hne := hbusy (by rw [hst]; decide)
    exact shape_response (.callFrame (.completeRequest s)) hs hmem hne
  | sendRemaining hst hres hleft =>
    exact shape_response (.sendRemaining s) hs hmem (hbusy (fun h => by rw [h] at hst; cases hst))
  | startResponse hst hres hfirst =>
    exact shape_response (.startResponse s) hs hmem (hbusy (fun h => by rw [h] at hst; cases hst))
  | headerAcked hst hres hsent =>
    exact shape_response (.headerAcked s) hs hmem (hbusy (by rw [hst]; decide))
  | sendBody caller hst hres hsent hstage =>
    exact shape_response (.sendBody s caller) hs hmem (hbusy (by rw [hst]; decide))
  | requestEnd hst =>
    have hne := hbusy (by rw [hst]; decide)
    unfold requestEnd at hmem ⊢
    split
    · rename_i h
      rw [if_pos h] at hmem
      exact shape_freed (closeHttpContext_frame s) hmem
    · rename_i h
      rw [if_neg h] at hmem
      split
      · exact shape_reset (s := s.note _) ⟨hs.mem, hs.buffer, fun h => absurd h hne⟩ hne
      · rename_i hk
        rw [if_neg hk] at hmem
        exact shape_freed (closeHttpContext_frame s) hmem
  | peerGone hst hpeer => exact ⟨hs.mem, hs.buffer, fun h => ⟨(hs.free h).state, (hs.free h).length,
      (hs.free h).queue, (hs.free h).offset, (hs.free h).left⟩⟩
  | close => exact shape_freed (closeHttpContext_frame s) hmem
  | free hgone => exact shape_freed (freeHttpContext_frame s) hmem
  | outOfFuel => exact ⟨hs.mem, hs.buffer, fun h => ⟨(hs.free h).state, (hs.free h).length,
      (hs.free h).queue, (hs.free h).offset, (hs.free h).left⟩⟩

/-- A context that accepts a connection starts like new, but for its receive buffer. -/
theorem acceptContext_spec (s : Sys) (pcb ipRemote : Nat) :
    ∃ w f fault, acceptContext s pcb ipRemote =
      ⟨w, { s.c with
        toRequest := { resetRequest { s.c.toRequest with peerClosing := false } with
          ipRemote := ipRemote }
        toResponse := resetResponse { s.c.toResponse with
          fileHandle := f, fault := s.c.fault || fault } s.now
        reqBufList := []
        bufOffset := 0
        log := []
        maxLevel := maxReqBufSize
        pcb := some pcb }, s.net⟩ := by
  obtain ⟨w, r, heq, f, fault, hr⟩ := resetHttpContext_spec { s with c := { s.c with
    reqBufList := [], bufOffset := 0, peerClosing := false, log := [] } }
  refine ⟨w, f, fault, ?_⟩
  unfold acceptContext
  dsimp only
  rw [heq, hr]
  rfl

theorem SlotReach.shape {c : RequestContext} (h : SlotReach c) : Shape c := by
  induction h with
  | setup => exact shape_setup
  | @accept s pcb ipRemote _ _ _ ih =>
    obtain ⟨_, _, _, heq⟩ := acceptContext_spec s pcb ipRemote
    rw [heq]
    exact ⟨List.length_replicate .., ih.buffer, fun h => nomatch h⟩
  | micro _ hstep ih => exact shape_step ih hstep

/-! ## The rule -/

/-- An invariant that a fresh connection has, and that every action keeps under a condition
on what it logs, holds of every context that is reached within defined behaviour and has
met the condition since its connection was accepted. -/
theorem SlotReach.induct {P : RequestContext → Prop} {Cond : Act → Prop}
    (hsetup : P setupContext)
    (haccept : ∀ s pcb ipRemote, Shape s.c → FreeCtx s.c → P (acceptContext s pcb ipRemote).c)
    (hstep : ∀ s s', Shape s.c → P s.c → Micro s s' → s'.c.fault = false →
      (∀ a ∈ s'.c.log, Cond a) → P s'.c)
    {c : RequestContext} (h : SlotReach c) (hok : c.fault = false)
    (hcond : ∀ a ∈ c.log, Cond a) : P c := by
  induction h with
  | setup => exact hsetup
  | accept pcb ipRemote h hfree _ _ => exact haccept _ pcb ipRemote h.shape (h.shape.free hfree)
  | @micro s s' h hm ih =>
    have hok' : s.c.fault = false := by
      by_contra hbad
      rw [(micro_kept hm).marked (by simpa using hbad)] at hok
      cases hok
    obtain ⟨log, hlog⟩ := micro_logExtends hm
    refine hstep s s' h.shape (ih hok' fun a ha => hcond a ?_) hm hok hcond
    rw [hlog]
    exact List.mem_append_left _ ha

/-- The rule for an invariant that every action keeps. -/
theorem SlotReach.always {P : RequestContext → Prop} (hsetup : P setupContext)
    (haccept : ∀ s pcb ipRemote, P (acceptContext s pcb ipRemote).c)
    (hstep : ∀ s s', Shape s.c → P s.c → Micro s s' → P s'.c) {c : RequestContext}
    (h : SlotReach c) : P c := by
  induction h with
  | setup => exact hsetup
  | accept pcb ipRemote _ _ _ _ => exact haccept _ pcb ipRemote
  | micro h hm ih => exact hstep _ _ h.shape ih hm

/-- The rule for the contexts of the server. -/
theorem Server.Reachable.induct {P : RequestContext → Prop} {Cond : Act → Prop}
    (hsetup : P setupContext)
    (haccept : ∀ s pcb ipRemote, Shape s.c → FreeCtx s.c → P (acceptContext s pcb ipRemote).c)
    (hstep : ∀ s s', Shape s.c → P s.c → Micro s s' → s'.c.fault = false →
      (∀ a ∈ s'.c.log, Cond a) → P s'.c)
    {sv : Server} (h : sv.Reachable) {c : RequestContext} (hc : c ∈ sv.slots)
    (hok : c.fault = false) (hcond : ∀ a ∈ c.log, Cond a) : P c :=
  SlotReach.induct hsetup haccept hstep (h.slot hc) hok hcond

end Httpd
