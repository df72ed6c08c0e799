import LambdaIOT.Httpd.Reading

/-!
# The send buffer between two events

`SendInv` is what holds while a response is under way. `sendLoop_spec` says what
`sendBuffered` does to the pending bytes, and `loadContent_cases` splits
`CGI_LoadContentToSend` into the calls that read and those that do not.
-/

namespace Httpd

open CMem Lwip

/-! ## Sending -/

/-- Sending takes bytes from the front, and never more than there are. -/
theorem sendLoop_bytesLeft (fuel : Nat) {s : Sys} (h : 0 ≤ s.c.bytesLeft) :
    0 ≤ (sendLoop fuel s).1.c.bytesLeft ∧ (sendLoop fuel s).1.c.bytesLeft ≤ s.c.bytesLeft := by
  induction fuel generalizing s with
  | zero => exact ⟨h, le_refl _⟩
  | succ fuel ih =>
    rw [sendLoop]
    split
    · dsimp only
      split
      · exact ⟨h, le_refl _⟩
      · split
        · have hleft : (afterWrite (s.afterSndbuf.altcpWrite
              (load s.afterSndbuf.c.mem 0 (min s.afterSndbuf.c.bytesLeft.toNat s.sndbuf)))
              (min s.afterSndbuf.c.bytesLeft.toNat s.sndbuf)).c.bytesLeft =
              s.c.bytesLeft - (min s.c.bytesLeft.toNat s.sndbuf : Nat) := rfl
          have hrest := ih (s := afterWrite (s.afterSndbuf.altcpWrite
              (load s.afterSndbuf.c.mem 0 (min s.afterSndbuf.c.bytesLeft.toNat s.sndbuf)))
              (min s.afterSndbuf.c.bytesLeft.toNat s.sndbuf)) (by rw [hleft]; omega)
          rw [hleft] at hrest
          exact ⟨hrest.1, hrest.2.trans (by omega)⟩
        · exact ⟨h, le_refl _⟩
    · exact ⟨h, le_refl _⟩

theorem sendBuffered_bytesLeft {s : Sys} (h : 0 ≤ s.c.bytesLeft) :
    0 ≤ (sendBuffered s).1.c.bytesLeft ∧ (sendBuffered s).1.c.bytesLeft ≤ s.c.bytesLeft :=
  sendLoop_bytesLeft _ h

/-! ## Loading -/

/-- `handler->ReadContent`, if there is one. -/
def readerOf (h : Request) : Option (Request → Call → Int → Content) :=
  h.handler.bind Cgi.readContent

/-- What the reader is asked for and returns. -/
def readOf (f : Request → Call → Int → Content) (w : World) (h : Request) (r : Response) : Content :=
  f h ⟨w, r⟩ (freeSize h r)

/-- The response after a call that reads. -/
def afterRead (f : Request → Call → Int → Content) (w : World) (h : Request) (r : Response) :
    Response :=
  let k := readOf f w h r
  let first := r.dwOperStage = 0 ∧ r.dwOperIndex = 0
  if r.options.chunkEnabled then storeChunk k.call.r r.bytesLeft first k
  else storePlain k.call.r r.bytesLeft k

/-- `CGI_LoadContentToSend` reads, or leaves the send buffer alone and loads nothing. -/
theorem loadContent_cases (s : Sys) (caller : Caller) :
    (ReadFrame s.c.toResponse (loadContent s caller).1.c.toResponse ∧
        (loadContent s caller).2 ≤ 0 ∧
        (readerOf s.c.toRequest = none ∨ stageEnd ≤ s.c.dwOperStage)) ∨
      ∃ f, readerOf s.c.toRequest = some f ∧ s.c.dwOperStage < stageEnd ∧
        (loadContent s caller).1.c.toResponse = afterRead f s.w s.c.toRequest s.c.toResponse ∧
        (loadContent s caller).2 = hasData (readOf f s.w s.c.toRequest s.c.toResponse).size := by
  unfold loadContent
  split
  · rename_i hdone
    refine .inl ⟨?_, show (-1 : Int) ≤ 0 by decide, .inr hdone.2.1⟩
    show ReadFrame s.c.toResponse (cgiAllSent s).c.toResponse
    unfold cgiAllSent
    split
    · exact .crash _
    · unfold Sys.invoke
      split
      · exact .refl _
      · rename_i cgi _
        split
        · exact .refl _
        · rename_i g hg
          show ReadFrame s.c.toResponse (g s.call).r
          cases cgi <;> first | cases hg; exact .webCloseFile _ | cases hg
  · cases hcgi : s.c.handler with
    | none =>
      have hnone : readerOf s.c.toRequest = none := by rw [readerOf, hcgi]; rfl
      exact .inl ⟨.refl _, show (-1 : Int) ≤ 0 by decide, .inl hnone⟩
    | some cgi =>
      dsimp only
      cases hf : cgi.readContent with
      | none =>
        have hnone : readerOf s.c.toRequest = none := by rw [readerOf, hcgi]; exact hf
        exact .inl ⟨.refl _, show (-1 : Int) ≤ 0 by decide, .inl hnone⟩
      | some f =>
        dsimp only
        split
        · rename_i hend
          exact .inl ⟨.refl _, le_refl _, .inr hend⟩
        · rename_i hmore
          exact .inr ⟨f, by rw [readerOf, hcgi]; exact hf, by omega, rfl, rfl⟩

theorem hasData_pos {n : Int} : 0 < hasData n ↔ 0 < n := by
  unfold hasData
  by_cases hneg : n < 0
  · rw [if_pos hneg]
    omega
  · rw [if_neg hneg]
    by_cases hzero : n = 0
    · rw [if_pos hzero]
      omega
    · rw [if_neg hzero]
      omega

theorem hasData_neg {n : Int} : hasData n < 0 ↔ n < 0 := by
  unfold hasData
  by_cases hneg : n < 0
  · rw [if_pos hneg]
    omega
  · rw [if_neg hneg]
    by_cases hzero : n = 0
    · rw [if_pos hzero]
      omega
    · rw [if_neg hzero]
      omega

/-- The pending bytes grow by what is loaded. -/
theorem storePlain_bytesLeft (r : Response) (at_ : Int) (k : Content) :
    r.bytesLeft ≤ (storePlain r at_ k).bytesLeft := by
  unfold storePlain
  dsimp only
  split
  · exact le_refl _
  · show r.bytesLeft ≤ r.bytesLeft + k.size
    omega

theorem storeChunk_bytesLeft (r : Response) (at_ : Int) (first : Bool) (k : Content) :
    r.bytesLeft ≤ (storeChunk r at_ first k).bytesLeft := by
  unfold storeChunk
  dsimp only
  split
  · unfold wrapChunk
    dsimp only
    show r.bytesLeft ≤ r.bytesLeft + _
    omega
  · exact le_refl _

theorem ReadFrame.bytesLeft {r r' : Response} (h : ReadFrame r r') : r'.bytesLeft = r.bytesLeft := by
  obtain ⟨_, _, _, _, _, _, rfl, _⟩ := h
  rfl

theorem readerOf_frame {f : Request → Call → Int → Content} {h : Request} (hf : readerOf h = some f)
    (w : World) (r : Response) : ReadFrame r (readOf f w h r).call.r := by
  obtain ⟨cgi, -, hcgi⟩ := Option.bind_eq_some_iff.mp hf
  exact .readContent hcgi h ⟨w, r⟩ _

theorem storePlain_result (r : Response) (at_ : Int) (k : Content) :
    (storePlain r at_ k).result = r.result := by
  unfold storePlain
  dsimp only
  split
  · rfl
  · rfl

theorem putSend_result (r : Response) (off : Int) (bs : Bytes) :
    (r.putSend off bs).result = r.result := rfl

theorem storeChunk_result (r : Response) (at_ : Int) (first : Bool) (k : Content) :
    (storeChunk r at_ first k).result = r.result := by
  unfold storeChunk
  split
  · simp only [wrapChunk, putSend_result]
  · exact putSend_result ..

theorem putSend_options (r : Response) (off : Int) (bs : Bytes) :
    (r.putSend off bs).options = r.options := rfl

theorem afterRead_options {f : Request → Call → Int → Content} {w : World} {h : Request}
    {r : Response} (hf : readerOf h = some f) : (afterRead f w h r).options = r.options := by
  have hread : (readOf f w h r).call.r.options = r.options := by
    obtain ⟨_, _, _, _, _, _, hframe, -⟩ := readerOf_frame hf w r
    rw [hframe]
  unfold afterRead
  dsimp only
  generalize readOf f w h r = k at hread ⊢
  split
  · unfold storeChunk
    split
    · simp only [wrapChunk, putSend_options, hread]
    · simp only [putSend_options, hread]
  · unfold storePlain
    split
    · simp only [putSend_options, hread]
    · simp only [putSend_options, hread]

/-- Loading leaves the options of the resource alone. -/
theorem loadContent_options (s : Sys) (caller : Caller) :
    (loadContent s caller).1.c.options = s.c.options := by
  show Response.options (loadContent s caller).1.c.toResponse = _
  rcases loadContent_cases s caller with ⟨hframe, -⟩ | ⟨f, hf, -, hafter, -⟩
  · obtain ⟨_, _, _, _, _, _, heq, -⟩ := hframe
    rw [heq]
  · rw [hafter, afterRead_options hf]

theorem loadContent_bytesLeft (s : Sys) (caller : Caller) :
    s.c.bytesLeft ≤ (loadContent s caller).1.c.bytesLeft := by
  rcases loadContent_cases s caller with ⟨hframe, -⟩ | ⟨f, hf, -, hafter, -⟩
  · exact Int.le_of_eq hframe.bytesLeft.symm
  · have hframe := (readerOf_frame hf s.w s.c.toResponse).bytesLeft
    show s.c.bytesLeft ≤ Response.bytesLeft (loadContent s caller).1.c.toResponse
    rw [hafter, afterRead]
    split
    · exact hframe.symm.le.trans (storeChunk_bytesLeft ..)
    · exact hframe.symm.le.trans (storePlain_bytesLeft ..)

/-! ## The invariant -/

/-- A response is under way only behind the request, in blocks of the size of the buffer. -/
structure SendInv (c : RequestContext) : Prop where
  early : c.state.receiving ∨ c.state = .bodyDone → c.sending = false
  block : c.sending = true → c.sendMaxBlock = maxSendBufSize
  left : c.sending = true → 0 ≤ c.bytesLeft

theorem sendInv_idle {c : RequestContext} (h : c.sending = false) : SendInv c where
  early := fun _ => h
  block := fun hs => by rw [h] at hs; cases hs
  left := fun hs => by rw [h] at hs; cases hs

theorem sendInv_same {c c' : RequestContext} (hi : SendInv c) (hreq : c'.toRequest = c.toRequest)
    (hleft : c'.bytesLeft = c.bytesLeft) : SendInv c' := by
  constructor
  · rw [hreq]
    exact hi.early
  · rw [hreq]
    exact hi.block
  · rw [hreq, hleft]
    exact hi.left

theorem sendInv_send {s s' : Sys} (hi : SendInv s.c) (h : SendFrame s s')
    (hleft : 0 ≤ s.c.bytesLeft → 0 ≤ s'.c.bytesLeft) : SendInv s'.c := by
  obtain ⟨_, _, _, _, _, _, rfl, -⟩ := h
  exact ⟨hi.early, hi.block, fun hs => hleft (hi.left hs)⟩

theorem sendInv_failed {s : Sys} (hi : SendInv s.c) : SendInv (sendFailed s).c where
  early := fun h => by rcases h with h | h <;> cases h
  block := hi.block
  left := hi.left

theorem sendInv_sendRemaining {s : Sys} (hi : SendInv s.c) : SendInv (sendRemaining s).c := by
  have hsent := sendInv_send hi (.sendBuffered s) fun h => (sendBuffered_bytesLeft h).1
  unfold sendRemaining
  dsimp only
  split
  · exact hsent
  · exact sendInv_failed hsent

/-- The header is a string, so its length is not negative. -/
theorem cgiSetResponseHeaders_bytesLeft (s : Sys) (codeInfo : Bytes) :
    0 ≤ (cgiSetResponseHeaders s codeInfo).c.bytesLeft := Int.natCast_nonneg _

theorem cgiSetResponseHeaders_request (s : Sys) (codeInfo : Bytes) :
    (cgiSetResponseHeaders s codeInfo).c.toRequest = s.c.toRequest := by
  obtain ⟨t, ht, heq⟩ := cgiSetResponseHeaders_spec s codeInfo
  rw [heq]
  exact ht.request

theorem sendInv_started {c : RequestContext} (hst : c.state.receiving = false)
    (hdone : c.state ≠ .bodyDone) (hblock : c.sendMaxBlock = maxSendBufSize)
    (hleft : 0 ≤ c.bytesLeft) : SendInv c where
  early := fun h => by
    rcases h with h | h
    · rw [hst] at h
      cases h
    · exact absurd h hdone
  block := fun _ => hblock
  left := fun _ => hleft

theorem sendInv_startResponse {s : Sys} (hfirst : s.c.sending = false) :
    SendInv (startResponse s).c := by
  have hreq := cgiSetResponseHeaders_request (beginResponse s) (codeInfoOf s.c.result)
  have hleft := cgiSetResponseHeaders_bytesLeft (beginResponse s) (codeInfoOf s.c.result)
  unfold startResponse
  dsimp only
  generalize cgiSetResponseHeaders _ _ = u at hreq hleft ⊢
  have hsent := sendBuffered_bytesLeft hleft
  have hkept : (sendBuffered u).1.c.sendMaxBlock = maxSendBufSize ∧
      (sendBuffered u).1.c.sending = false := by
    obtain ⟨_, _, _, _, _, _, heq, -⟩ := SendFrame.sendBuffered u
    rw [heq]
    exact ⟨congrArg Request.sendMaxBlock hreq, (congrArg Request.sending hreq).trans hfirst⟩
  generalize sendBuffered u = v at hsent hkept ⊢
  split
  · split
    · exact sendInv_started rfl (fun h => nomatch h) hkept.1 hsent.1
    · exact sendInv_started rfl (fun h => nomatch h) hkept.1 hsent.1
  · exact sendInv_idle hkept.2

theorem sendInv_sendBody {s : Sys} {caller : Caller} (hi : SendInv s.c)
    (hst : s.c.state = .sendingBody) (hsent : s.c.sending = true) :
    SendInv (sendBody s caller).c := by
  have hloaded : (cgiLoadContentToSend s caller).1.c.toRequest = s.c.toRequest ∧
      0 ≤ (cgiLoadContentToSend s caller).1.c.bytesLeft := by
    obtain ⟨t, d, ht, hload, heq⟩ := cgiLoadContentToSend_spec s caller
    have hleft := loadContent_bytesLeft (s.setResponse { s.c.toResponse with peak := 0 }) caller
    rw [hload] at hleft
    rw [heq]
    exact ⟨ht.request, (hi.left hsent).trans hleft⟩
  unfold sendBody
  dsimp only
  generalize cgiLoadContentToSend s caller = u at hloaded ⊢
  obtain ⟨hreq, hleft⟩ := hloaded
  have hblock : u.1.c.sendMaxBlock = maxSendBufSize :=
    (congrArg Request.sendMaxBlock hreq).trans (hi.block hsent)
  have hstate : u.1.c.state = .sendingBody := (congrArg Request.state hreq).trans hst
  split
  · have hdone := sendBuffered_bytesLeft hleft
    have hkept : (sendBuffered u.1).1.c.toRequest.sendMaxBlock = maxSendBufSize ∧
        (sendBuffered u.1).1.c.state = .sendingBody := by
      obtain ⟨_, _, _, _, _, _, heq, -⟩ := SendFrame.sendBuffered u.1
      rw [heq]
      exact ⟨hblock, hstate⟩
    generalize sendBuffered u.1 = v at hdone hkept ⊢
    have hv : SendInv v.1.c := by
      refine sendInv_started ?_ ?_ hkept.1 hdone.1
      · rw [hkept.2]
        rfl
      · rw [hkept.2]
        decide
    split
    · exact sendInv_started (show v.1.c.state.receiving = false by rw [hkept.2]; rfl)
        (show v.1.c.state ≠ .bodyDone by rw [hkept.2]; decide) hkept.1 hdone.1
    · exact sendInv_failed hv
  · split
    · exact sendInv_started rfl (fun h => nomatch h) hblock hleft
    · exact sendInv_started (by rw [hstate]; rfl) (by rw [hstate]; decide) hblock hleft

theorem sendBody_log (s : Sys) (caller : Caller) :
    ∃ l, (sendBody s caller).c.log = (cgiLoadContentToSend s caller).1.c.log ++ l := by
  obtain ⟨_, _, _, _, log, _, hsend, -⟩ := SendFrame.sendBuffered (cgiLoadContentToSend s caller).1
  have hsent : (sendBuffered (cgiLoadContentToSend s caller).1).1.c.log =
      (cgiLoadContentToSend s caller).1.c.log ++ log := by rw [hsend]
  unfold sendBody
  dsimp only
  split
  · split
    · exact ⟨log, hsent⟩
    · exact ⟨log, hsent⟩
  · split
    · exact ⟨[], (List.append_nil _).symm⟩
    · exact ⟨[], (List.append_nil _).symm⟩

theorem sendBody_fault (s : Sys) (caller : Caller) :
    (sendBody s caller).c.fault = (cgiLoadContentToSend s caller).1.c.fault := by
  have hsent : (sendBuffered (cgiLoadContentToSend s caller).1).1.c.fault =
      (cgiLoadContentToSend s caller).1.c.fault := by
    obtain ⟨_, _, _, _, _, _, heq, -⟩ := SendFrame.sendBuffered (cgiLoadContentToSend s caller).1
    rw [heq]
  unfold sendBody
  dsimp only
  split
  · split
    · exact hsent
    · exact hsent
  · split
    · rfl
    · rfl

theorem sendBody_options (s : Sys) (caller : Caller) :
    (sendBody s caller).c.options = s.c.options := by
  have hloaded : (cgiLoadContentToSend s caller).1.c.options = s.c.options := by
    obtain ⟨t, d, -, hload, heq⟩ := cgiLoadContentToSend_spec s caller
    have hkept := loadContent_options (s.setResponse { s.c.toResponse with peak := 0 }) caller
    rw [hload] at hkept
    rw [heq]
    exact hkept
  have hsent : (sendBuffered (cgiLoadContentToSend s caller).1).1.c.options = s.c.options := by
    obtain ⟨_, _, _, _, _, _, heq, -⟩ := SendFrame.sendBuffered (cgiLoadContentToSend s caller).1
    rw [heq]
    exact hloaded
  unfold sendBody
  dsimp only
  split
  · split
    · exact hsent
    · exact hsent
  · split
    · exact hloaded
    · exact hloaded

theorem sendRemaining_kept (s : Sys) : (sendRemaining s).c.sending = s.c.sending ∧
    (sendRemaining s).c.options = s.c.options := by
  obtain ⟨_, _, _, _, _, _, heq, -⟩ := SendFrame.sendBuffered s
  unfold sendRemaining
  dsimp only
  rw [heq]
  split
  · exact ⟨rfl, rfl⟩
  · exact ⟨rfl, rfl⟩

theorem sendInv_freed {s s' : Sys} (h : FreedFrame s s') : SendInv s'.c := by
  obtain ⟨_, _, _, _, _, _, rfl, -⟩ := h
  exact sendInv_idle rfl

theorem sendInv_reset (s : Sys) : SendInv (resetHttpContext s).c := by
  obtain ⟨_, _, heq, -⟩ := resetHttpContext_spec s
  rw [heq]
  exact sendInv_idle rfl

/-- A header section does not start an answer. -/
theorem parseHeader_sending {s : Sys} (h : s.c.sending = false) :
    (parseHeader s s.c.requestLength).1.c.sending = false := by
  have hscan : (parseScan s s.c.requestLength).s.c.sending = false := by
    refine lineLoop_induct (P := fun t => t.c.sending = false) ?_ ?_ ?_ _ _ _ h
    · intro t tail n _ ht
      obtain ⟨_, _, _, _, heq, hh, -⟩ := LineFrame.requestLine t tail n
      rw [heq]
      show Request.sending _ = _
      rw [hh]
      exact ht
    · intro t tail n _ ht
      obtain ⟨_, _, _, _, heq, hh, -⟩ := LineFrame.headerLine t tail n
      rw [heq]
      show Request.sending _ = _
      rw [hh]
      exact ht
    · intro t ht
      unfold endOfHeaders
      dsimp only
      split
      · rfl
      · rfl
  exact (congrArg Request.sending (shift_request ..)).trans hscan

theorem offerContent_sending (s : Sys) (size : Int) :
    (offerContent s size).c.sending = s.c.sending := by
  obtain ⟨w, r, log, heq⟩ := cgiContentReceived_frame s s.c.httpRequestBuffer size
  unfold offerContent
  dsimp only
  rw [heq]
  split
  · rfl
  · unfold takeContent
    dsimp only
    split
    · unfold contentDone
      split
      · dsimp only
        split <;> rfl
      · rfl
    · rfl

theorem offerContent_state (s : Sys) (size : Int) (hst : s.c.state.receiving) :
    (offerContent s size).c.state.receiving ∨ (offerContent s size).c.state = .bodyDone := by
  obtain ⟨w, r, log, heq⟩ := cgiContentReceived_frame s s.c.httpRequestBuffer size
  unfold offerContent
  dsimp only
  rw [heq]
  split
  · exact .inl hst
  · unfold takeContent
    dsimp only
    split
    · unfold contentDone
      split
      · dsimp only
        split
        · exact .inr rfl
        · exact .inl rfl
      · exact .inr rfl
    · exact .inl hst

/-- Every action keeps the invariant. -/
theorem sendInv_step {s s' : Sys} (hi : SendInv s.c) (h : Micro s s') : SendInv s'.c := by
  cases h with
  | environment w net hpcbs => exact hi
  | receive p hlive hfit =>
    obtain ⟨_, hresp⟩ := (RxFrame.receivePbuf s.c p.chain).response
    exact sendInv_same hi (RxFrame.receivePbuf ..).request
      ((congrArg Response.bytesLeft hresp).trans rfl)
  | peerClosed => exact ⟨hi.early, hi.block, hi.left⟩
  | touch t => exact ⟨hi.early, hi.block, hi.left⟩
  | acknowledged len => exact ⟨hi.early, hi.block, hi.left⟩
  | dequeue hst =>
    obtain ⟨_, hresp⟩ := (RxFrame.dequeue s.c).response
    exact sendInv_same hi (RxFrame.dequeue ..).request
      ((congrArg Response.bytesLeft hresp).trans rfl)
  | startRequest hst hlen => exact sendInv_idle (hi.early (.inl (by rw [hst]; rfl)))
  | parseHeader hst hlen =>
    exact sendInv_idle (parseHeader_sending (hi.early (.inl (by rw [hst]; rfl))))
  | tooLarge hst => exact ⟨hi.early, hi.block, hi.left⟩
  | headersEnd hst hok =>
    refine sendInv_idle ?_
    obtain ⟨_, _, heq, -⟩ := headersEnd_eq s
    rw [heq, (CallFrame.cgiHeadersReceived _).request]
    exact hi.early (.inl (by rw [hst]; rfl))
  | refuse hst hbad hsending => exact sendInv_idle (hi.early hsending)
  | chunkLength hst hok =>
    refine sendInv_idle ?_
    have hsent := hi.early (.inl (by rw [hst]; rfl))
    unfold chunkLength
    split
    · exact hsent
    · exact hsent
  | content size hst hok =>
    refine sendInv_idle ((offerContent_sending s size).trans (hi.early (.inl ?_)))
    rcases hst with h | ⟨h, -⟩ <;> rw [h] <;> rfl
  | complete hst hok =>
    refine sendInv_idle ?_
    show Request.sending (completeRequest s).c.toRequest = false
    rw [show (completeRequest s).c.toRequest = s.c.toRequest from
      (CallFrame.completeRequest s).request]
    exact hi.early (.inr hst)
  | sendRemaining hst hres hleft => exact sendInv_sendRemaining hi
  | startResponse hst hres hfirst => exact sendInv_startResponse hfirst
  | headerAcked hst hres hsent =>
    unfold headerAcked
    split
    · exact ⟨fun h => (by rcases h with h | h <;> cases h), hi.block, hi.left⟩
    · exact ⟨fun h => (by rcases h with h | h <;> cases h), hi.block, hi.left⟩
  | sendBody caller hst hres hsent hstage => exact sendInv_sendBody hi hst hsent
  | requestEnd hst =>
    unfold requestEnd
    split
    · exact sendInv_freed (closeHttpContext_frame s)
    · split
      · exact sendInv_reset _
      · exact sendInv_freed (closeHttpContext_frame s)
  | peerGone hst hpeer => exact ⟨hi.early, hi.block, hi.left⟩
  | close => exact sendInv_freed (closeHttpContext_frame s)
  | free hgone => exact sendInv_freed (freeHttpContext_frame s)
  | outOfFuel => exact ⟨hi.early, hi.block, hi.left⟩

theorem SlotReach.sendInv {c : RequestContext} (h : SlotReach c) : SendInv c := by
  refine SlotReach.always (sendInv_idle rfl) (fun s pcb ip => ?_)
    (fun s s' _ hi hm => sendInv_step hi hm) h
  obtain ⟨_, _, _, heq⟩ := acceptContext_spec s pcb ip
  rw [heq]
  exact sendInv_idle rfl

end Httpd
