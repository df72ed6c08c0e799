import LambdaIOT.Httpd.Reach

/-!
# What the actions leave

Three groups of actions have one frame each: those of the response, those that end a
connection, and the reset between two requests. The rest of `Micro` is covered by the
frames of its operations.
-/

namespace Httpd

open CMem Lwip Relation

/-- The request is received: `_state >= HTTP_STATE_BODY_DONE`. -/
def HttpState.responding (st : HttpState) : Bool := !st.receiving

def Act.isResponse : Act → Bool
  | .callback .. => true
  | .headers .. => true
  | .load .. => true
  | .write .. => true
  | .refused _ => true
  | _ => false

def Act.isCallback : Act → Bool
  | .callback .. => true
  | _ => false

theorem isResponse_of_isCallback {a : Act} (h : a.isCallback) : a.isResponse := by
  cases a <;> first | rfl | cases h

/-! ## The receive path -/

/-- What the verdict on a header section takes from the context. -/
theorem authorize_kept (w : World) (h : Request) (r : Response) :
    (authorize w h r).token = r.token ∧ (authorize w h r).session = getSession w.sessions r.token ∧
      (authorize w h r).tLastReceived = r.tLastReceived ∧ (authorize w h r).mem = r.mem := by
  unfold authorize
  dsimp only
  split <;> exact ⟨rfl, rfl, rfl, rfl⟩

/-- What `CGI_HeadersReceived` is called on, at the end of the header section. -/
theorem headersEnd_eq (s : Sys) :
    ∃ st t, headersEnd s = cgiHeadersReceived ⟨s.w, { s.c with
        toRequest := { s.c.toRequest with state := st, tLastSent := t }
        toResponse := authorize s.w s.c.toRequest s.c.toResponse
        log := s.c.log ++ [.headersEnd { s.c.toRequest with state := st, tLastSent := t }
          (authorize s.w s.c.toRequest s.c.toResponse)
          (loggedIn s.w (authorize s.w s.c.toRequest s.c.toResponse).session s.c.ipRemote)] },
        s.net⟩ ∧
      (st = .chunkLenReceiving ∧ s.c.chunked = true ∨
        st = .bodyReceiving ∧ s.c.chunked = false ∧ 0 < s.c.contentLength ∨
        st = .bodyDone ∧ s.c.chunked = false ∧ s.c.contentLength ≤ 0) := by
  obtain ⟨st, t, heq, hst⟩ :=
    frameContent_spec (s.setResponse (authorize s.w s.c.toRequest s.c.toResponse))
  refine ⟨st, t, ?_, hst⟩
  unfold headersEnd
  dsimp only
  rw [heq]
  rfl

/-- Taking content moves bytes out of the buffer and may end the content. -/
theorem takeContent_frame (s : Sys) (consumed : Int) :
    ∃ h len buf, takeContent s consumed = ⟨s.w, { s.c with
        toRequest := h
        requestLength := len
        httpRequestBuffer := buf
        log := s.c.log ++ [.consumed (s.c.httpRequestBuffer.take consumed.toNat)] }, s.net⟩ ∧
      buf.length = s.c.httpRequestBuffer.length := by
  have hbuf : ((s.c.shiftOut consumed
      (s.c.httpRequestBuffer.take consumed.toNat)).httpRequestBuffer).length
        = s.c.httpRequestBuffer.length := by
    rw [RequestContext.shiftOut]
    dsimp only
    split
    · exact length_store ..
    · rfl
  unfold takeContent
  dsimp only
  split
  · unfold contentDone
    split
    · dsimp only
      split
      · exact ⟨_, _, _, rfl, hbuf⟩
      · exact ⟨_, _, _, rfl, hbuf⟩
    · exact ⟨_, _, _, rfl, hbuf⟩
  · exact ⟨_, _, _, rfl, hbuf⟩

theorem cgiContentReceived_frame (s : Sys) (buffer : Bytes) (size : Int) :
    ∃ w r log, (cgiContentReceived s buffer size).1 =
      ⟨w, { s.c with toResponse := r, log := s.c.log ++ log }, s.net⟩ := by
  rcases cgiContentReceived_cases s buffer size with heq | ⟨cgi, f, _, _, heq⟩
  · rw [heq]
    exact ⟨s.w, s.c.toResponse, [], by rw [List.append_nil]⟩
  · rw [heq]
    generalize f s.c.toRequest s.call buffer size = k
    refine ⟨k.1.w, k.1.r, [.callback cgi .onContentReceived] ++
      [.content s.c.toRequest s.c.toResponse s.c.requestLength size k.2], ?_⟩
    rw [← List.append_assoc]
    rfl

/-- Offering content changes the request, its response and the buffer. -/
theorem offerContent_frame (s : Sys) (size : Int) :
    ∃ w h r len buf log, offerContent s size = ⟨w, { s.c with
        toRequest := h
        toResponse := r
        requestLength := len
        httpRequestBuffer := buf
        log := s.c.log ++ log }, s.net⟩ ∧ buf.length = s.c.httpRequestBuffer.length := by
  obtain ⟨w, r, log, heq⟩ := cgiContentReceived_frame s s.c.httpRequestBuffer size
  unfold offerContent
  dsimp only
  rw [heq]
  split
  · exact ⟨w, s.c.toRequest, r, s.c.requestLength, s.c.httpRequestBuffer, log, rfl, rfl⟩
  · obtain ⟨h, len, buf, htake, hbuf⟩ := takeContent_frame
      ⟨w, { s.c with toResponse := r, log := s.c.log ++ log }, s.net⟩
      (cgiContentReceived s s.c.httpRequestBuffer size).2
    rw [htake]
    exact ⟨w, h, r, len, buf, log ++ [_], by rw [← List.append_assoc], hbuf⟩

/-! ## The response -/

/-- `s'` is `s` after an action of the response: the request keeps its content and its
buffers. -/
def RespFrame (s s' : Sys) : Prop :=
  ∃ w st sending block total t r log net,
    s' = ⟨w, { s.c with
      toRequest := { s.c.toRequest with
        state := st, sending := sending, sendMaxBlock := block, total2Send := total, tLastSent := t }
      toResponse := r
      log := s.c.log ++ log }, net⟩ ∧ (s.c.state.responding → st.responding) ∧
    ∀ a ∈ log, a.isResponse

namespace RespFrame

theorem trans {s t u : Sys} (h : RespFrame s t) (h' : RespFrame t u) : RespFrame s u := by
  obtain ⟨_, _, _, _, _, _, _, log, _, rfl, hst, hl⟩ := h
  obtain ⟨w, st, sending, block, total, t, r, log', net, rfl, hst', hl'⟩ := h'
  refine ⟨w, st, sending, block, total, t, r, log ++ log', net, by rw [← List.append_assoc],
    fun hs => hst' (hst hs), fun a ha => ?_⟩
  rcases List.mem_append.mp ha with h | h
  · exact hl a h
  · exact hl' a h

/-- The fields an action of the response writes, with nothing logged. -/
theorem quiet (s : Sys) (w : World) (st : HttpState) (sending : Bool) (block total : Int) (t : Nat)
    (r : Response) (net : Net) (hst : s.c.state.responding → st.responding) :
    RespFrame s ⟨w, { s.c with
      toRequest := { s.c.toRequest with
        state := st, sending := sending, sendMaxBlock := block, total2Send := total, tLastSent := t }
      toResponse := r }, net⟩ :=
  ⟨w, st, sending, block, total, t, r, [], net, by rw [List.append_nil], hst, fun _ h => nomatch h⟩

theorem refl (s : Sys) : RespFrame s s := quiet s s.w s.c.state s.c.sending s.c.sendMaxBlock
  s.c.total2Send s.c.tLastSent s.c.toResponse s.net id

theorem setState (s : Sys) (st : HttpState) (hst : st.responding) : RespFrame s (s.setState st) :=
  quiet s s.w st s.c.sending s.c.sendMaxBlock s.c.total2Send s.c.tLastSent s.c.toResponse s.net
    fun _ => hst

theorem setSending (s : Sys) (b : Bool) :
    RespFrame s (s.setRequest { s.c.toRequest with sending := b }) :=
  quiet s s.w s.c.state b s.c.sendMaxBlock s.c.total2Send s.c.tLastSent s.c.toResponse s.net id

theorem note (s : Sys) {a : Act} (ha : a.isResponse) : RespFrame s (s.note a) :=
  ⟨s.w, s.c.state, s.c.sending, s.c.sendMaxBlock, s.c.total2Send, s.c.tLastSent, s.c.toResponse,
    [a], s.net, rfl, id, fun b hb => by rwa [List.mem_singleton.mp hb]⟩

theorem callFrame {s s' : Sys} (h : CallFrame s s') : RespFrame s s' := by
  obtain ⟨w, r, log, rfl, hl⟩ := h
  refine ⟨w, s.c.state, s.c.sending, s.c.sendMaxBlock, s.c.total2Send, s.c.tLastSent, r, log, s.net,
    rfl, id, fun a ha => ?_⟩
  obtain ⟨cgi, cb, -, rfl⟩ := hl a ha
  rfl

theorem sendFrame {s s' : Sys} (h : SendFrame s s') : RespFrame s s' := by
  obtain ⟨total, t, left, mem, log, net, rfl, -, -, hl⟩ := h
  refine ⟨s.w, s.c.state, s.c.sending, s.c.sendMaxBlock, total, t, _, log, net, rfl, id,
    fun a ha => ?_⟩
  have hw := hl a ha
  cases a with
  | write bs ok => rfl
  | _ => cases hw

theorem sendFailed (s : Sys) : RespFrame s (sendFailed s) :=
  (setState s .requestEnd rfl).trans (callFrame (.setResult ..))

theorem sendRemaining (s : Sys) : RespFrame s (sendRemaining s) := by
  unfold Httpd.sendRemaining
  dsimp only
  split
  · exact sendFrame (.sendBuffered s)
  · exact (sendFrame (.sendBuffered s)).trans (sendFailed _)

theorem startResponse (s : Sys) : RespFrame s (startResponse s) := by
  obtain ⟨t, ht, heq⟩ := cgiSetResponseHeaders_spec (beginResponse s) (codeInfoOf s.c.result)
  have hbegin : RespFrame s (beginResponse s) := quiet s s.w s.c.state s.c.sending
    (maxSendBufSize : Nat) s.c.total2Send s.now _ s.net id
  have hsend : ∀ a : Act, a.isResponse → RespFrame s (sendBuffered (t.note a)).1 := fun a ha =>
    ((hbegin.trans (callFrame ht)).trans (note t ha)).trans (sendFrame (.sendBuffered _))
  unfold Httpd.startResponse
  dsimp only
  rw [heq]
  replace hsend := hsend (.headers (beginResponse s).c.toRequest
    { (beginResponse s).c.toResponse with peak := 0 } t.c.toResponse) rfl
  generalize sendBuffered _ = sent at hsend ⊢
  split
  · have hsent := hsend.trans (setSending sent.1 true)
    split
    · exact hsent.trans (setState _ _ rfl)
    · exact hsent.trans (setState _ _ rfl)
  · exact hsend.trans (sendFailed _)

theorem headerAcked (s : Sys) : RespFrame s (headerAcked s) := by
  unfold Httpd.headerAcked
  split
  · exact (note s rfl).trans (setState _ _ rfl)
  · exact setState s _ rfl

theorem sendBody (s : Sys) (caller : Caller) : RespFrame s (sendBody s caller) := by
  obtain ⟨t, d, ht, -, heq⟩ := cgiLoadContentToSend_spec s caller
  have h : ∀ a : Act, a.isResponse → RespFrame s (t.note a) := fun a ha =>
    (callFrame ht).trans (note t ha)
  unfold Httpd.sendBody
  dsimp only
  rw [heq]
  replace h := h (.load s.w s.c.toRequest { s.c.toResponse with peak := 0 } t.c.toResponse d) rfl
  generalize t.note _ = u at h ⊢
  split
  · have hsend := h.trans (sendFrame (.sendBuffered u))
    split
    · exact hsend.trans (setSending _ true)
    · exact hsend.trans (sendFailed _)
  · split
    · exact h.trans (setState _ _ rfl)
    · exact h

end RespFrame

/-! ## The end of a connection -/

/-- `s'` is `s` after its context was freed. -/
def FreedFrame (s s' : Sys) : Prop :=
  ∃ w h r pcb log net,
    s' = ⟨w, freeContext { s.c with
      toRequest := h, toResponse := r, pcb := pcb, log := s.c.log ++ log }, net⟩ ∧
    ∀ a ∈ log, a.isCallback

theorem freeHttpContext_frame (s : Sys) : FreedFrame s (freeHttpContext s) := by
  obtain ⟨w, r, log, heq, hl⟩ := CallFrame.invoke s .onFinished Cgi.onFinished
  have hl' : ∀ a ∈ log, a.isCallback := by
    intro a ha
    obtain ⟨_, _, _, rfl⟩ := hl a ha
    rfl
  unfold freeHttpContext
  dsimp only [cgiFinish]
  rw [heq]
  unfold closeFileHandle
  split
  · exact ⟨_, _, _, _, log, _, rfl, hl'⟩
  · exact ⟨_, _, _, _, log, _, rfl, hl'⟩

theorem closeHttpContext_frame (s : Sys) : FreedFrame s (closeHttpContext s) := by
  have hdetach : ∃ h pcb net, detachPcb s =
      ⟨s.w, { s.c with toRequest := h, pcb := pcb }, net⟩ := by
    unfold detachPcb
    split
    · exact ⟨_, _, _, rfl⟩
    · dsimp only
      split
      · exact ⟨_, _, _, rfl⟩
      · exact ⟨_, _, _, rfl⟩
  obtain ⟨h, pcb, net, heq⟩ := hdetach
  unfold closeHttpContext
  rw [heq]
  obtain ⟨w, h', r, pcb', log, net', heq', hl⟩ := freeHttpContext_frame
    ⟨s.w, { s.c with toRequest := h, pcb := pcb }, net⟩
  exact ⟨w, h', r, pcb', log, net', heq', hl⟩

/-! ## The reset between two requests -/

/-- What `ResetHttpContext` makes of a context. -/
theorem resetHttpContext_spec (s : Sys) :
    ∃ w r, resetHttpContext s =
        ⟨w, { s.c with
          toRequest := resetRequest s.c.toRequest
          toResponse := resetResponse r s.now
          maxLevel := maxReqBufSize }, s.net⟩ ∧
      (∃ f fault, r = { s.c.toResponse with fileHandle := f, fault := s.c.fault || fault }) := by
  unfold resetHttpContext closeFileHandle
  dsimp only
  split
  · exact ⟨_, _, rfl, 0, false, by rw [Bool.or_false]; rfl⟩
  · exact ⟨_, _, rfl, s.c.fileHandle, true, by rw [Bool.or_true]; rfl⟩

end Httpd
