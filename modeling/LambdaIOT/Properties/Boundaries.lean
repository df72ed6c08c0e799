import LambdaIOT.Properties.Authorization
import LambdaIOT.Properties.Occupancy
import LambdaIOT.Properties.Segmentation

/-!
# Where a boundary may fall

The receive loop looks at what has arrived through windows of `MAX_REQ_BUF_SIZE` bytes.
`headerEnd` follows the windows of a header section on the bytes that are waiting before the call:
it says which fields the section sets, what is left of its last window, and what is still queued
behind that window. A call strands data if something is queued there and nothing is left to offer,
or if it ends a response and keeps the connection while data is queued. `Aligned` excludes both,
from the buffer, the queue and the state before the call.
-/

namespace Httpd

open CMem Lwip Relation

/-! ## The framing of the content -/

/-- The end of a header section changes the state and the response, and sets how the content is
delimited. -/
theorem headersEnd_frame (s : Sys) :
    ∃ w st t r log, headersEnd s = ⟨w, { s.c with
        toRequest := { s.c.toRequest with state := st, tLastSent := t }
        toResponse := r
        log := s.c.log ++ log }, s.net⟩ ∧
      (st = .chunkLenReceiving ∧ s.c.chunked = true ∨
        st = .bodyReceiving ∧ s.c.chunked = false ∧ 0 < s.c.contentLength ∨
        st = .bodyDone ∧ s.c.chunked = false ∧ s.c.contentLength ≤ 0) := by
  obtain ⟨st, t, heq, hst⟩ := headersEnd_eq s
  obtain ⟨w, r, log, hcall, -⟩ := CallFrame.cgiHeadersReceived _
  rw [heq, hcall]
  refine ⟨w, st, t, r, .headersEnd { s.c.toRequest with state := st, tLastSent := t }
    (authorize s.w s.c.toRequest s.c.toResponse)
    (loggedIn s.w (authorize s.w s.c.toRequest s.c.toResponse).session s.c.ipRemote) :: log,
    ?_, hst⟩
  dsimp only
  rw [List.append_assoc]
  rfl

theorem takeContent_state (s : Sys) (consumed : Int) :
    (takeContent s consumed).c.chunked = s.c.chunked ∧
      ((takeContent s consumed).c.state = s.c.state ∨ (takeContent s consumed).c.state = .bodyDone ∨
        s.c.chunked = true ∧ (takeContent s consumed).c.state = .chunkLenReceiving) := by
  unfold takeContent
  dsimp only
  split
  · unfold contentDone
    split
    · rename_i hchunk
      dsimp only
      split
      · exact ⟨rfl, .inr (.inl rfl)⟩
      · exact ⟨rfl, .inr (.inr ⟨hchunk, rfl⟩)⟩
    · exact ⟨rfl, .inr (.inl rfl)⟩
  · exact ⟨rfl, .inl rfl⟩

/-- Until the header section has ended no content is taken, behind its end nothing is pending, and
a body is not chunked. -/
structure FramingInv (c : RequestContext) : Prop where
  received : c.state.before = true → c.contentReceived = 0
  empty : c.state = .headerDone → c.bytesLeft = 0
  plain : c.state = .bodyReceiving → c.chunked = false

/-- The states behind the header section. -/
theorem framingInv_behind {c : RequestContext} (h : c.state.before = false)
    (hplain : c.state = .bodyReceiving → c.chunked = false) : FramingInv c where
  received := fun hst => by rw [h] at hst; cases hst
  empty := fun hst => by rw [hst] at h; cases h
  plain := hplain

/-- A context that waits for a request. -/
theorem framingInv_idle {c : RequestContext} (h : c.state = .idle) (hnone : c.contentReceived = 0) :
    FramingInv c where
  received := fun _ => hnone
  empty := fun hst => by rw [h] at hst; cases hst
  plain := fun hst => by rw [h] at hst; cases hst

theorem framingInv_rx {c d : RequestContext} (hi : FramingInv c) (h : RxFrame c d) :
    FramingInv d := by
  obtain ⟨_, _, _, _, _, _, rfl, -⟩ := h
  exact ⟨hi.received, hi.empty, hi.plain⟩

theorem framingInv_freed {s t : Sys} (h : FreedFrame s t) : FramingInv t.c := by
  obtain ⟨_, _, _, _, _, _, rfl, -⟩ := h
  exact framingInv_idle rfl rfl

theorem framingInv_response {s t : Sys} (hst : s.c.state.receiving = false) (h : RespFrame s t) :
    FramingInv t.c := by
  obtain ⟨_, st, _, _, _, _, _, _, _, rfl, hstate, -⟩ := h
  have hresp := hstate (by rw [HttpState.responding, hst]; rfl)
  refine framingInv_behind ?_ ?_
  · show st.before = false
    cases st <;> first | rfl | cases hresp
  · intro hbody
    have hbody' : st = .bodyReceiving := hbody
    rw [hbody'] at hresp
    cases hresp

theorem framingInv_content {s : Sys} (hi : FramingInv s.c) (size : Int)
    (hst : s.c.state.before = false) : FramingInv (offerContent s size).c := by
  obtain ⟨w, r, log, heq⟩ := cgiContentReceived_frame s s.c.httpRequestBuffer size
  unfold offerContent
  dsimp only
  rw [heq]
  split
  · exact framingInv_behind hst hi.plain
  · obtain ⟨hchunk, hstate⟩ := takeContent_state
      ⟨w, { s.c with toResponse := r, log := s.c.log ++ log }, s.net⟩
      (cgiContentReceived s s.c.httpRequestBuffer size).2
    generalize takeContent _ _ = t at hchunk hstate ⊢
    have hchunk' : t.c.chunked = s.c.chunked := hchunk
    rcases hstate with h | h | ⟨-, h⟩
    · have h' : t.c.state = s.c.state := h
      exact framingInv_behind (by rw [h']; exact hst)
        fun hbody => hchunk'.trans (hi.plain (h'.symm.trans hbody))
    · exact framingInv_behind (by rw [h]; rfl) fun hbody => by rw [h] at hbody; cases hbody
    · exact framingInv_behind (by rw [h]; rfl) fun hbody => by rw [h] at hbody; cases hbody

/-- Every action keeps it. -/
theorem framingInv_step {s t : Sys} (hi : FramingInv s.c) (h : Micro s t) : FramingInv t.c := by
  cases h with
  | environment w net hpcbs => exact hi
  | receive p hlive hfit => exact framingInv_rx hi (.receivePbuf s.c p.chain)
  | peerClosed => exact ⟨hi.received, hi.empty, hi.plain⟩
  | touch t => exact ⟨hi.received, hi.empty, hi.plain⟩
  | acknowledged len => exact ⟨hi.received, hi.empty, hi.plain⟩
  | dequeue hst => exact framingInv_rx hi (.dequeue s.c)
  | startRequest hst hlen =>
    exact ⟨fun _ => hi.received (by rw [hst]; rfl), HttpState.noConfusion, HttpState.noConfusion⟩
  | parseHeader hst hlen =>
    have hscan := scanInv_parseScan s.c.requestLength (hi.received (by rw [hst]; rfl)) hst
    have hreq := shift_request (parseScan s s.c.requestLength) s.c.httpRequestBuffer
    have hresp := shift_response (parseScan s s.c.requestLength) s.c.httpRequestBuffer
    have hstate := parseHeader_state s s.c.requestLength (by omega)
    exact {
      received := fun _ => (congrArg Request.contentReceived hreq).trans hscan.received
      empty := fun h => (congrArg Response.bytesLeft hresp).trans
        (hscan.empty ((congrArg Request.state hreq).symm.trans h))
      plain := fun h => by
        rw [hstate, hst] at h
        split at h
        · cases h
        · cases h }
  | tooLarge hst => exact ⟨hi.received, hi.empty, hi.plain⟩
  | headersEnd hst hok =>
    obtain ⟨_, st, _, _, _, heq, hframe⟩ := headersEnd_frame s
    rw [heq]
    rcases hframe with ⟨rfl, -⟩ | ⟨rfl, hplain, -⟩ | ⟨rfl, -⟩
    · exact framingInv_behind rfl HttpState.noConfusion
    · exact framingInv_behind rfl fun _ => hplain
    · exact framingInv_behind rfl HttpState.noConfusion
  | refuse hst hbad hsending => exact framingInv_behind rfl HttpState.noConfusion
  | chunkLength hst hok =>
    rcases chunkLength_state s s.c.requestLength with h | h
    · rw [h]
      exact hi
    · exact framingInv_behind (by rw [h]; rfl) fun hbody => by rw [h] at hbody; cases hbody
  | content size hst hok =>
    refine framingInv_content hi size ?_
    rcases hst with h | ⟨h, -⟩
    · rw [h]
      rfl
    · rw [h]
      rfl
  | complete hst hok =>
    have hstate : (completeRequest s).c.state = .bodyDone :=
      (congrArg Request.state (CallFrame.completeRequest s).request).trans hst
    exact framingInv_behind (by rw [hstate]; rfl) fun hbody => by rw [hstate] at hbody; cases hbody
  | sendRemaining hst hres hleft => exact framingInv_response hst (.sendRemaining s)
  | startResponse hst hres hfirst => exact framingInv_response hst (.startResponse s)
  | headerAcked hst hres hsent => exact framingInv_response (by rw [hst]; rfl) (.headerAcked s)
  | sendBody caller hst hres hsent hstage =>
    exact framingInv_response (by rw [hst]; rfl) (.sendBody s caller)
  | requestEnd hst =>
    unfold requestEnd
    split
    · exact framingInv_freed (closeHttpContext_frame s)
    · split
      · obtain ⟨_, _, heq, -⟩ :=
          resetHttpContext_spec (s.note (.reset s.c.toRequest s.c.toResponse))
        rw [heq]
        exact framingInv_idle rfl rfl
      · exact framingInv_freed (closeHttpContext_frame s)
  | peerGone hst hpeer => exact ⟨hi.received, hi.empty, hi.plain⟩
  | close => exact framingInv_freed (closeHttpContext_frame s)
  | free hgone => exact framingInv_freed (freeHttpContext_frame s)
  | outOfFuel => exact ⟨hi.received, hi.empty, hi.plain⟩

theorem SlotReach.framing {c : RequestContext} (h : SlotReach c) : FramingInv c := by
  refine h.always (P := FramingInv) (framingInv_idle rfl rfl) ?_
    fun s s' _ hi hm => framingInv_step hi hm
  intro s pcb ipRemote
  obtain ⟨_, _, _, heq⟩ := acceptContext_spec s pcb ipRemote
  rw [heq]
  exact framingInv_idle rfl rfl

/-! ## The windows of a header section -/

theorem headerStep_pos {σ τ : HeaderScan} {p : Bytes} {n : Nat}
    (h : headerStep σ p = some (τ, n)) : 0 < n := by
  unfold headerStep at h
  split at h
  · cases h
  · split at h
    · obtain ⟨-, rfl⟩ := Prod.mk.inj (Option.some.inj h)
      omega
    · split at h
      · obtain ⟨-, rfl⟩ := Prod.mk.inj (Option.some.inj h)
        decide
      · cases h

/-- The lines of the first window of `p`: what they say, and what is left of the window. -/
def readWindow (σ : HeaderScan) (p : Bytes) : HeaderScan × Bytes :=
  headerScanner.run (maxReqBufSize + 1) σ (p.take maxReqBufSize)

theorem readWindow_eq {σ τ : HeaderScan} {p rest : Bytes}
    (hsteps : headerScanner.Steps (σ, p.take maxReqBufSize) (τ, rest))
    (hstuck : headerScanner.Stuck (τ, rest)) : readWindow σ p = (τ, rest) :=
  Scanner.run_eq headerStep_pos (Nat.lt_succ_of_le (List.length_take_le ..)) hsteps hstuck

/-- How the windows end a header section that is waiting as `p`: what its lines say, what is left
of the last window, and what is still queued behind it. -/
def headerEnd : Nat → HeaderScan → Bytes → Option (HeaderScan × Bytes × Bytes)
  | 0, _, _ => none
  | fuel + 1, σ, p =>
    let window := readWindow σ p
    let queue := p.drop maxReqBufSize
    match window.1.verdict with
    | .complete => some (window.1, window.2, queue)
    | .refused => none
    | .pending => if queue = [] then none else headerEnd fuel window.1 (window.2 ++ queue)

/-- What the lines before the call have said. -/
def scanOf (c : RequestContext) : HeaderScan where
  data := HeaderData.ofParts c.toRequest c.toResponse []
  verdict := .pending
  exact := true

theorem holds_scanOf (c : RequestContext) : Holds c [] (scanOf c).data (scanOf c).exact :=
  ⟨rfl, fun _ => ⟨rfl, rfl, rfl⟩⟩

/-! ## What a call may find -/

/-- `altcp_write` accepts what it is given in this call. -/
def NoneRefused (net : Net) : Prop := ∀ ok ∈ net.write, ok = true

/-- The client has a session of its own address. -/
def hasSession (w : World) (ipRemote : Nat) (f : HeaderFields) : Bool :=
  loggedIn w (getSession w.sessions f.token) ipRemote

/-- Nobody takes the request, its handler asks for a session that there is not, or it does not
serve the method. -/
def TurnedAway (w : World) (ipRemote : Nat) (f : HeaderFields) : Prop :=
  match f.handler with
  | none => True
  | some cgi => cgi.closed = true ∧ hasSession w ipRemote f = false ∨
      methodEnabled { setupContext.toRequest with requestMethod := f.requestMethod }
        cgi.optionsAllowed = false

/-- Content reaches the handler in the round that ends the header section: `rest` holds a byte of
it, or for the login and the upload a chunk-size line. -/
def AtHand (f : HeaderFields) (rest : Bytes) : Prop :=
  (f.handler.bind Cgi.onContentReceived).isSome = true ∧
    if f.chunked = true then f.handler ≠ some .form ∧ 2 < rest.length ∧
      (chunkLineEnd rest (rest.length - 1) 0).isSome = true
    else rest ≠ []

/-- The header section ends with `rest` in the buffer and `queue` behind it, and that strands
nothing: the request has no content, is turned away, or content is at hand; and if the connection
is kept, its response does not end in the same call with data queued. -/
structure HeaderAligned (w : World) (ipRemote : Nat) (net : Net) (f : HeaderFields)
    (rest queue : Bytes) : Prop where
  offered : f.chunked = false ∧ f.contentLength ≤ 0 ∨ TurnedAway w ipRemote f ∨ AtHand f rest
  kept : f.keepalive = true → NoneRefused net ∧
    (∃ cgi, f.handler = some cgi ∧
      (cgi.optionsAllowed.authRequired = false ∨ hasSession w ipRemote f = true)) ∧
    (f.handler ≠ some .auth ∨
      f.chunked = false ∧ ((rest.length + queue.length : Nat) : Int) ≤ f.contentLength)

/-- The buffer holds no more than it can. -/
def InBounds (c : RequestContext) : Prop := 0 ≤ c.requestLength ∧ c.requestLength ≤ maxReqBufSize

/-- The body that is being received still needs every byte that is waiting. -/
structure BodyNeedsAll (c : RequestContext) : Prop where
  bounds : InBounds c
  plain : c.chunked = false
  rest : (c.waiting.length : Int) ≤ c.contentLength - c.contentReceived

/-- If the connection is kept, the response to the content that is being received does not end
in the same call with data queued. -/
def ContentFits (s : Sys) : Prop :=
  s.c.keepalive = true →
    s.c.state = .bodyReceiving ∧ BodyNeedsAll s.c ∨ NoneRefused s.net ∧ s.c.handler ≠ some .auth

/-- Nothing will be taken: the chunk has no taker, or the window holds no chunk-size line. -/
def NothingTaken (c : RequestContext) : Prop :=
  c.state = .chunkReceiving ∧ c.handler.bind Cgi.onContentReceived = none ∨
    c.state = .chunkLenReceiving ∧ InBounds c ∧
      chunkLineEnd (c.waiting.take maxReqBufSize) (maxReqBufSize - 1) 0 = none

/-- The buffer, the queue and the state before the call leave no data stranded. -/
def Aligned (s : Sys) : Prop :=
  s.c.peerClosing = true ∨ s.c.reqBufList = [] ∨
    match s.c.state with
    | .idle | .headerReceiving => InBounds s.c ∧ ∀ τ rest queue,
        headerEnd (s.c.waiting.length + 1) (scanOf s.c) s.c.waiting = some (τ, rest, queue) →
          queue ≠ [] → HeaderAligned s.w s.c.ipRemote s.net τ.data.toHeaderFields rest queue
    | .bodyReceiving => ContentFits s
    | .chunkLenReceiving | .chunkReceiving => NothingTaken s.c ∨
      (s.c.handler = some .auth ∨ s.c.handler = some .upload) ∧ ContentFits s
    | .headerDone | .chunkLenDone | .chunkDone => False
    | .bodyDone | .sendingHeader | .sendingBody | .requestEnd =>
      s.c.keepalive = false ∨ (maxReqBufSize : Int) ≤ s.c.requestLength

end Httpd
