import Mathlib.Logic.Relation
import LambdaIOT.Httpd.Frames

/-!
# What an event can do, step by step

An event handler is a few loops around a small number of actions: a pbuf is queued or
dequeued, a header section is parsed, a callback is called, a block is sent. `Micro` lists
these actions with the conditions under which the code reaches them, and
`connStep_micros` says that every event is a sequence of them. An invariant of the
server is then one case for each action, and never looks at the loops again.
-/

namespace Httpd

open CMem Lwip Relation

/-! ## The actions -/

/-- Offer content to the handler and take what it consumed. -/
def offerContent (s : Sys) (size : Int) : Sys :=
  let taken := cgiContentReceived s s.c.httpRequestBuffer size
  if taken.1.c.result ≤ -500 ∨ taken.2 ≤ 0 then taken.1 else takeContent taken.1 taken.2

/-- The request is complete: the handler sets the result, or it is OK. -/
def completeRequest (s : Sys) : Sys :=
  let s := cgiRequestReceived s
  if s.c.result = 0 then s.setResult codeOk else s

/-- lwIP has freed the control block of the connection. -/
def PcbGone (s : Sys) : Prop :=
  ∀ k p, s.c.pcb = some k → s.net.pcbs[k]? = some p → p.live = false

/-- One action of an event handler. -/
inductive Micro : Sys → Sys → Prop where
  /-- The globals change under the connection, though not the files, or the network is asked. -/
  | environment (s : Sys) (w : World) (net : Net) (hpcbs : net.pcbs = s.net.pcbs)
      (hfs : w.fs = s.w.fs) : Micro s ⟨w, s.c, net⟩
  | receive (s : Sys) (p : Segment) (hlive : s.c.pcb.isSome)
      (hfit : (Pbuf.data s.c.reqBufList).length + p.data.length < 65536) :
      Micro s { s with c := s.c.receivePbuf p.chain }
  | peerClosed (s : Sys) :
      Micro s (s.setRequest { s.c.toRequest with peerClosing := true })
  | touch (s : Sys) (t : Nat) :
      Micro s (s.setResponse { s.c.toResponse with tLastReceived := t })
  | acknowledged (s : Sys) (len : Nat) :
      Micro s (s.setRequest { s.c.toRequest with totalSent := s.c.totalSent + len })
  | dequeue (s : Sys) (hst : s.c.state.receiving) : Micro s { s with c := s.c.dequeue }
  | startRequest (s : Sys) (hst : s.c.state = .idle) (hlen : 0 < s.c.requestLength) :
      Micro s (startRequest s)
  | parseHeader (s : Sys) (hst : s.c.state = .headerReceiving) (hlen : 2 ≤ s.c.requestLength) :
      Micro s (parseHeader s s.c.requestLength).1
  | tooLarge (s : Sys) (hst : s.c.state = .headerReceiving) : Micro s (s.setResult (-500))
  | headersEnd (s : Sys) (hst : s.c.state = .headerDone) (hok : 0 ≤ s.c.result) :
      Micro s (headersEnd s)
  | refuse (s : Sys) (hst : s.c.state ≠ .idle ∧ s.c.state ≠ .headerReceiving)
      (hbad : s.c.result < 0) (hsending : s.c.state.receiving ∨ s.c.state = .bodyDone) :
      Micro s (s.setState .sendingHeader)
  | chunkLength (s : Sys) (hst : s.c.state = .chunkLenReceiving) (hok : 0 ≤ s.c.result) :
      Micro s (chunkLength s s.c.requestLength)
  | content (s : Sys) (size : Int)
      (hst : s.c.state = .chunkReceiving ∨ s.c.state = .bodyReceiving ∧ size = s.c.requestLength)
      (hok : 0 ≤ s.c.result) : Micro s (offerContent s size)
  | complete (s : Sys) (hst : s.c.state = .bodyDone) (hok : 0 ≤ s.c.result) :
      Micro s (completeRequest s)
  | sendRemaining (s : Sys) (hst : s.c.state.receiving = false) (hres : s.c.result ≠ 0)
      (hleft : 0 < s.c.bytesLeft) : Micro s (sendRemaining s)
  | startResponse (s : Sys) (hst : s.c.state.receiving = false) (hres : s.c.result ≠ 0)
      (hfirst : s.c.sending = false) : Micro s (startResponse s)
  | headerAcked (s : Sys) (hst : s.c.state = .sendingHeader) (hres : s.c.result ≠ 0)
      (hsent : s.c.sending = true) : Micro s (headerAcked s)
  | sendBody (s : Sys) (caller : Caller) (hst : s.c.state = .sendingBody)
      (hres : s.c.result ≠ 0) (hsent : s.c.sending = true)
      (hstage : 0 < s.c.bytesLeft → s.c.dwOperStage ≠ stageEnd) : Micro s (sendBody s caller)
  | requestEnd (s : Sys) (hst : s.c.state = .requestEnd) : Micro s (requestEnd s)
  | peerGone (s : Sys) (hst : s.c.state.receiving) (hpeer : s.c.peerClosing) :
      Micro s (s.setResult (-500))
  | close (s : Sys) : Micro s (closeHttpContext s)
  | free (s : Sys) (hgone : PcbGone s) : Micro s (freeHttpContext s)
  | outOfFuel (s : Sys) : Micro s s.crash

/-- Any number of actions. -/
abbrev Micros : Sys → Sys → Prop := ReflTransGen Micro

theorem micros_one {s s' : Sys} (h : Micro s s') : Micros s s' := .single h

/-! ## The receive loop -/

/-- The end of a round, once the result is known to be no error. -/
theorem roundEnd_micros {s : Sys} (consumed : Int) (hok : 0 ≤ s.c.result) :
    Micros s (roundEnd s consumed).1 := by
  unfold roundEnd
  split
  · rename_i hst
    exact micros_one (.complete s hst hok)
  · split
    · exact .refl
    · exact .refl

theorem takeContent_result (s : Sys) (consumed : Int) :
    (takeContent s consumed).c.result = s.c.result := by
  unfold takeContent
  dsimp only
  split
  · unfold contentDone
    split
    · dsimp only
      split <;> rfl
    · rfl
  · rfl

/-- The content part of a round: content is offered, and the request may be complete. -/
theorem contentPart_micros {s : Sys} {size : Int} (hok : 0 ≤ s.c.result)
    (hsize : s.c.state = .bodyReceiving → size = s.c.requestLength) :
    Micros s (contentPart s size).1 := by
  unfold contentPart
  split
  · rename_i hst
    have hcontent : Micro s (offerContent s size) := by
      refine .content s size ?_ hok
      rcases hst with h | h
      · exact .inl h
      · exact .inr ⟨h, hsize h⟩
    have hres := cgiContentReceived_result s s.c.httpRequestBuffer size
    unfold offerContent at hcontent
    dsimp only at hcontent ⊢
    split
    · rename_i hfatal
      rw [if_pos (.inl hfatal)] at hcontent
      exact micros_one hcontent
    · rename_i hfine
      split
      · rename_i hnone
        rw [if_pos (.inr hnone)] at hcontent
        exact micros_one hcontent
      · rename_i hsome
        rw [if_neg (not_or.mpr ⟨hfine, hsome⟩)] at hcontent
        refine (micros_one hcontent).trans (roundEnd_micros _ ?_)
        rw [takeContent_result]
        rcases hres with h | h
        · rw [h]
          exact hok
        · rw [h] at hfine
          exact absurd (le_refl _) hfine
  · exact roundEnd_micros 0 hok

/-- The framing of the content chooses the state, and may start the sending timeout. -/
theorem frameContent_spec (s : Sys) :
    ∃ st t, frameContent s =
        { s with c := { s.c with toRequest := { s.c.toRequest with state := st, tLastSent := t } } }
      ∧ (st = .chunkLenReceiving ∧ s.c.chunked = true ∨
        st = .bodyReceiving ∧ s.c.chunked = false ∧ 0 < s.c.contentLength ∨
        st = .bodyDone ∧ s.c.chunked = false ∧ s.c.contentLength ≤ 0) := by
  unfold frameContent
  split
  · rename_i hch
    exact ⟨_, _, rfl, .inl ⟨rfl, hch⟩⟩
  · rename_i hch
    split
    · rename_i hlen
      exact ⟨_, _, rfl, .inr (.inl ⟨rfl, by simpa using hch, hlen⟩)⟩
    · rename_i hlen
      exact ⟨_, _, rfl, .inr (.inr ⟨rfl, by simpa using hch, by omega⟩)⟩

/-- The states `headersEnd` ends in. -/
theorem headersEnd_state (s : Sys) :
    (headersEnd s).c.state = .chunkLenReceiving ∨ (headersEnd s).c.state = .bodyReceiving ∨
      (headersEnd s).c.state = .bodyDone := by
  obtain ⟨st, t, heq, hst⟩ :=
    frameContent_spec (s.setResponse (authorize s.w s.c.toRequest s.c.toResponse))
  unfold headersEnd
  dsimp only
  rw [(CallFrame.cgiHeadersReceived _).request, heq]
  rcases hst with ⟨h, -⟩ | ⟨h, -⟩ | ⟨h, -⟩
  · exact .inl h
  · exact .inr (.inl h)
  · exact .inr (.inr h)

theorem headersEnd_requestLength (s : Sys) :
    (headersEnd s).c.requestLength = s.c.requestLength := by
  obtain ⟨_, _, heq, -⟩ :=
    frameContent_spec (s.setResponse (authorize s.w s.c.toRequest s.c.toResponse))
  unfold headersEnd
  dsimp only
  rw [heq]
  obtain ⟨_, _, _, hcall, -⟩ := CallFrame.cgiHeadersReceived _
  rw [hcall]
  rfl

/-- Decoding a chunk-size line moves on to the chunk, or does nothing. -/
theorem chunkLength_state (s : Sys) (size : Int) :
    chunkLength s size = s ∨ (chunkLength s size).c.state = .chunkReceiving := by
  unfold chunkLength
  split
  · exact .inl rfl
  · exact .inr rfl

theorem chunkLength_result (s : Sys) (size : Int) :
    (chunkLength s size).c.result = s.c.result := by
  unfold chunkLength
  split <;> rfl

/-- A round behind the header section. -/
theorem afterHeader_micros {s : Sys} {justNow : Bool} {size : Int}
    (hsize : size = s.c.requestLength) (hok : 0 ≤ s.c.result)
    (hnow : justNow → s.c.state = .headerDone)
    (hbefore : justNow = false →
      s.c.state.receiving ∧ s.c.state ≠ .idle ∧ s.c.state ≠ .headerReceiving) :
    Micros s (afterHeader s justNow size).1 := by
  have hhead : Micros s (if justNow then headersEnd s else s) := by
    split
    · rename_i hj
      exact micros_one (.headersEnd s (hnow hj) hok)
    · exact .refl
  have hlen : size = (if justNow then headersEnd s else s).c.requestLength := by
    split
    · rw [headersEnd_requestLength]
      exact hsize
    · exact hsize
  have hst : ((if justNow then headersEnd s else s).c.state.receiving ∨
        (if justNow then headersEnd s else s).c.state = .bodyDone) ∧
      (if justNow then headersEnd s else s).c.state ≠ .idle ∧
      (if justNow then headersEnd s else s).c.state ≠ .headerReceiving := by
    cases justNow with
    | true =>
      rcases headersEnd_state s with h | h | h <;> simp [h, HttpState.receiving]
    | false =>
      obtain ⟨h1, h2⟩ := hbefore rfl
      exact ⟨.inl h1, h2⟩
  unfold afterHeader
  dsimp only
  generalize (if justNow then headersEnd s else s) = t at hhead hlen hst ⊢
  split
  · rename_i hbad
    exact hhead.tail (.refuse t hst.2 hbad hst.1)
  · rename_i hgood
    have hgood' : 0 ≤ t.c.result := by omega
    split
    · rename_i hchunk
      have hone : Micro t (chunkLength t size) := by
        rw [hlen]
        exact .chunkLength t hchunk.1 hgood'
      refine (hhead.tail hone).trans (contentPart_micros ?_ ?_)
      · rw [chunkLength_result]
        exact hgood'
      · intro hbody
        rcases chunkLength_state t size with h | h
        · rw [h]
          exact hlen
        · rw [h] at hbody
          cases hbody
    · exact hhead.trans (contentPart_micros hgood' fun _ => hlen)

/-- The header part of a round, and what the rest of the round relies on. -/
theorem headerPart_micros {s : Sys} (hst : s.c.state.receiving) :
    Micros s (headerPart s).1 ∧
      (headerPart s).2.2 = (headerPart s).1.c.requestLength ∧
      ((headerPart s).2.1 → (headerPart s).1.c.state = .headerDone) ∧
      ((headerPart s).2.1 = false → (headerPart s).1.c.state.receiving) := by
  unfold headerPart
  dsimp only
  have hstart : Micros s (if 0 < s.c.requestLength ∧ s.c.state = .idle then startRequest s else s)
      ∧ (if 0 < s.c.requestLength ∧ s.c.state = .idle then startRequest s else s).c.requestLength
        = s.c.requestLength
      ∧ (if 0 < s.c.requestLength ∧ s.c.state = .idle then startRequest s else s).c.state.receiving
      := by
    split
    · rename_i hidle
      exact ⟨micros_one (.startRequest s hidle.2 hidle.1), rfl, rfl⟩
    · exact ⟨.refl, rfl, hst⟩
  generalize (if 0 < s.c.requestLength ∧ s.c.state = .idle then startRequest s else s) = t
    at hstart ⊢
  obtain ⟨hmicros, hlen, hrec⟩ := hstart
  split
  · rename_i hparse
    rw [← hlen] at hparse ⊢
    have hstate := parseHeader_state t t.c.requestLength (by omega)
    refine ⟨hmicros.tail (.parseHeader t hparse.1 hparse.2), rfl, ?_, ?_⟩
    · intro hj
      dsimp only at hj ⊢
      rw [hstate, if_pos hj]
    · intro hj
      dsimp only at hj ⊢
      rw [hstate, if_neg (by rw [hj]; decide), hparse.1]
      rfl
  · exact ⟨hmicros, hlen.symm, (fun h => nomatch h), fun _ => hrec⟩

/-- A round behind the dequeue block. -/
theorem processBuffer_micros {s : Sys} (hst : s.c.state.receiving) :
    Micros s (processBuffer s).1 := by
  unfold processBuffer
  split
  · exact .refl
  · rename_i hlen
    dsimp only
    have hhead := headerPart_micros hst
    split
    · exact hhead.1
    · rename_i hgood
      split
      · rename_i hbig
        exact hhead.1.tail (.tooLarge _ hbig.1)
      · split
        · exact hhead.1
        · rename_i hmore
          exact hhead.1.trans (afterHeader_micros hhead.2.1 (by omega) hhead.2.2.1
            fun h => ⟨hhead.2.2.2 h, fun hc => hmore (.inl hc), fun hc => hmore (.inr hc)⟩)

/-- One round of the loop over received data. -/
theorem iteration_micros {s : Sys} (hst : s.c.state.receiving) : Micros s (iteration s).1 := by
  have hdeq : Micro s { s with c := s.c.dequeue } := .dequeue s hst
  refine (micros_one hdeq).trans (processBuffer_micros ?_)
  show Request.state s.c.dequeue.toRequest |>.receiving
  rw [(RxFrame.dequeue s.c).request]
  exact hst

theorem receiveLoop_micros (fuel : Nat) (s : Sys) : Micros s (receiveLoop fuel s).1 := by
  induction fuel generalizing s with
  | zero => exact micros_one (.outOfFuel s)
  | succ fuel ih =>
    rw [receiveLoop]
    split
    · rename_i hst
      have hone := iteration_micros hst
      split
      · rename_i s' heq
        rw [heq] at hone
        exact hone.trans (ih s')
      · exact hone
    · exact .refl

/-! ## The response -/

/-- What `startResponse` leaves: a failed write, or a response under way. -/
theorem startResponse_after (s : Sys) (hres : s.c.result ≠ 0) :
    (startResponse s).c.state = .requestEnd ∨
      ((startResponse s).c.sending = true ∧ (startResponse s).c.result ≠ 0 ∧
        (startResponse s).c.dwOperStage = 0) := by
  obtain ⟨left, _, _, _, _, _, hframe, _⟩ :=
    cgiSetResponseHeaders_frame (beginResponse s) (codeInfoOf s.c.result)
  have hresult := congrArg Response.result hframe
  have hstage := congrArg Response.dwOperStage hframe
  unfold startResponse
  dsimp only
  generalize cgiSetResponseHeaders _ _ = u at hresult hstage ⊢
  obtain ⟨_, _, _, _, _, _, heq, _⟩ := SendFrame.sendBuffered u
  have hres' : u.c.result ≠ 0 := by
    rw [show u.c.result = s.c.result from hresult]
    exact hres
  split
  · refine .inr ?_
    rw [heq]
    split
    · exact ⟨rfl, hres', hstage⟩
    · exact ⟨rfl, hres', hstage⟩
  · exact .inl rfl

/-- A block of the body is sent only for a response under way, and never over a last block
that is still pending. -/
theorem responseHeaderStep_body {s : Sys} {caller : Caller} (hres : s.c.result ≠ 0)
    (hstage : 0 < s.c.bytesLeft → s.c.dwOperStage ≠ stageEnd)
    (hbody : (responseHeaderStep s caller).c.state = .sendingBody) :
    let s' := responseHeaderStep s caller
    s'.c.result ≠ 0 ∧ s'.c.sending = true ∧ (0 < s'.c.bytesLeft → s'.c.dwOperStage ≠ stageEnd) := by
  dsimp only
  unfold responseHeaderStep at hbody ⊢
  split
  · rename_i hfirst
    rw [if_pos hfirst] at hbody
    rcases startResponse_after s hres with h | ⟨hsent, hres', hzero⟩
    · rw [h] at hbody
      cases hbody
    · refine ⟨hres', hsent, fun _ => ?_⟩
      rw [hzero]
      decide
  · rename_i hsent
    have hsent' : s.c.sending = true := by simpa using hsent
    unfold headerAcked
    split
    · split
      · exact ⟨hres, hsent', hstage⟩
      · exact ⟨hres, hsent', hstage⟩
    · exact ⟨hres, hsent', hstage⟩

/-- The response step: the rest of the last block, or the header, or the next block. -/
theorem httpResponseProc_micros (s : Sys) (caller : Caller) :
    Micros s (httpResponseProc s caller) := by
  unfold httpResponseProc
  split
  · exact .refl
  · rename_i hgo
    have hrec : s.c.state.receiving = false := by
      by_contra h
      exact hgo (.inl (by simpa using h))
    have hres : s.c.result ≠ 0 := fun h => hgo (.inr h)
    split
    · rename_i hleft
      exact micros_one (.sendRemaining s hrec hres hleft.1)
    · rename_i hstage
      have hask : Micros s s.afterSndbuf := micros_one (.environment s s.w _ rfl rfl)
      split
      · rename_i hleft
        exact hask.tail (.sendRemaining _ hrec hres hleft.1)
      · dsimp only
        have hfirst : Micros s (if 0 < s.c.bytesLeft then s.afterSndbuf else s) ∧
            (if 0 < s.c.bytesLeft then s.afterSndbuf else s).c = s.c := by
          split
          · exact ⟨hask, rfl⟩
          · exact ⟨.refl, rfl⟩
        generalize (if 0 < s.c.bytesLeft then s.afterSndbuf else s) = t at hfirst ⊢
        obtain ⟨hmicros, hc⟩ := hfirst
        rw [← hc] at hrec hres hstage
        have hstep : Micros s (responseHeaderStep t caller) := by
          unfold responseHeaderStep
          split
          · rename_i hfirst
            exact hmicros.tail (.startResponse t hrec hres hfirst)
          · rename_i hsent
            split
            · rename_i hack
              exact hmicros.tail (.headerAcked t hack.1 hres (by simpa using hsent))
            · exact hmicros
        split
        · exact hstep
        · rename_i hgone
          split
          · rename_i hbody
            obtain ⟨h1, h2, h3⟩ :=
              responseHeaderStep_body hres (fun h0 h1 => hstage ⟨h0, h1⟩) hbody
            exact hstep.tail (.sendBody _ caller hbody h1 h2 h3)
          · exact hstep

/-! ## Events -/

theorem requestFinish_micros (s : Sys) (caller : Caller) : Micros s (requestFinish s caller) := by
  unfold requestFinish
  split
  · rename_i hst
    split
    · rename_i hpeer
      exact micros_one (.peerGone s hst hpeer)
    · exact .refl
  · dsimp only
    split
    · rename_i hend
      exact (httpResponseProc_micros s caller).tail (.requestEnd _ hend)
    · exact httpResponseProc_micros s caller

theorem httpRequestProc_micros (s : Sys) (caller : Caller) :
    Micros s (httpRequestProc s caller) := by
  unfold httpRequestProc
  have hloop := receiveLoop_micros (receiveFuel s.c) s
  split
  · rename_i s' heq
    rw [heq] at hloop
    exact hloop
  · rename_i s' _ _ heq
    rw [heq] at hloop
    exact hloop.trans (requestFinish_micros s' caller)

theorem closeIfFatal_micros (s : Sys) : Micros s (closeIfFatal s) := by
  unfold closeIfFatal
  split
  · exact micros_one (.close s)
  · exact .refl

/-- What an event of a connection relies on: data fits the window, and an error comes after
the end of the control block. Accepting is not an event of a connection. -/
def ConnEvent.Legal (s : Sys) : ConnEvent → Prop
  | .accept _ _ => False
  | .receive (some p) =>
    s.c.pcb.isSome ∧ (Pbuf.data s.c.reqBufList).length + p.data.length < 65536
  | .error => PcbGone s
  | _ => True

theorem onHttpReceive_micros (s : Sys) (p : Option Segment)
    (hlegal : ConnEvent.Legal s (.receive p)) :
    Micros s (onHttpReceive s (p.map Segment.chain)) := by
  unfold onHttpReceive
  have hfin : ∀ t : Sys, Micros s t →
      Micros s (let u := httpRequestProc t .recv
        if u.c.result ≤ -500 then closeHttpContext u
        else if u.c.checkAlive then u
        else { u with w := { u.w with
          sessions := sessionReceived u.w.sessions u.c.session u.w.tick } }) := by
    intro t ht
    have hu := ht.trans (httpRequestProc_micros t .recv)
    dsimp only
    split
    · exact hu.tail (.close _)
    · split
      · exact hu
      · exact hu.tail (.environment _ _ _ rfl rfl)
  cases p with
  | none =>
    split
    · exact micros_one (.close s)
    · refine hfin _ ?_
      exact (micros_one (.peerClosed s)).tail (.touch _ _)
  | some p =>
    rw [if_neg (fun h => nomatch h.1)]
    refine hfin _ ?_
    refine (micros_one (.touch s s.now)).tail ?_
    exact .receive (s.setResponse { s.c.toResponse with tLastReceived := s.now }) p
      hlegal.1 hlegal.2

theorem onHttpSent_micros (s : Sys) (len : Nat) : Micros s (onHttpSent s len) := by
  unfold onHttpSent
  have hfirst : Micros s (if s.c.checkAlive then s else
      { s with w := { s.w with sessions := sessionSent s.w.sessions s.c.session s.w.tick } }) := by
    split
    · exact .refl
    · exact micros_one (.environment s _ _ rfl rfl)
  exact ((hfirst.tail (.acknowledged _ len)).trans (httpRequestProc_micros _ _)).trans
    (closeIfFatal_micros _)

/-- Every event is a sequence of actions. -/
theorem connStep_micros {s : Sys} {e : ConnEvent} (hlegal : e.Legal s) :
    Micros s (connStep s e) := by
  cases e with
  | accept pcb ipRemote => cases hlegal
  | receive p => exact onHttpReceive_micros s p hlegal
  | poll =>
    show Micros s (onHttpPoll s)
    unfold onHttpPoll
    split
    · exact micros_one (.close s)
    · exact (httpRequestProc_micros s .poll).trans (closeIfFatal_micros _)
  | sent len => exact onHttpSent_micros s len
  | error => exact micros_one (.free s hlegal)

end Httpd
