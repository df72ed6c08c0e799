import LambdaIOT.Httpd.Invariants
import LambdaIOT.Httpd.Protocol

/-!
# The server calls its handlers in order

`RequestContext.core` is what a context shows of `Core`. Each function of `http_core.c`
makes moves of it, from one place of the control flow to the next, so that a connection of
the server is a run of the core with the six handlers of the table.
-/

namespace Httpd

open CMem Lwip Relation

/-! ## What a context shows -/

/-- The calls of a run. -/
def calls (log : List Act) : List Act := log.filter Act.isCall

def RequestContext.core (c : RequestContext) : Core where
  state := c.state
  sending := c.sending
  requestMethod := c.requestMethod
  chunked := c.chunked
  contentLength := c.contentLength
  contentReceived := c.contentReceived
  calls := calls c.log

theorem calls_append (l m : List Act) : calls (l ++ m) = calls l ++ calls m := List.filter_append ..

/-- Entries the protocol does not look at. -/
theorem calls_quiet {log : List Act} (h : ∀ a ∈ log, a.isCall = false) : calls log = [] :=
  List.filter_eq_nil_iff.mpr fun a ha => by rw [h a ha]; decide

theorem core_logged {c : RequestContext} {log : List Act} (h : ∀ a ∈ log, a.isCall = false) :
    ({ c with log := c.log ++ log } : RequestContext).core = c.core := by
  simp only [RequestContext.core, calls_append, calls_quiet h, List.append_nil]

theorem core_note (s : Sys) {a : Act} (h : a.isCall = false) : (s.note a).c.core = s.c.core :=
  core_logged fun b hb => by rwa [List.mem_singleton.mp hb]

/-- An entry the protocol looks at. -/
theorem core_note_call (s : Sys) {a : Act} (h : a.isCall = true) :
    (s.note a).c.core = s.c.core.log [a] := by
  have hone : calls [a] = [a] := List.filter_eq_self.mpr fun b hb => by
    rwa [List.mem_singleton.mp hb]
  simp only [RequestContext.core, Sys.note, calls_append, hone, Core.log]

theorem core_rx {c c' : RequestContext} (h : RxFrame c c') : c'.core = c.core := by
  obtain ⟨_, _, _, _, _, log, rfl, _, hl⟩ := h
  refine core_logged (c := c) fun a ha => ?_
  have hrx := hl a ha
  cases a <;> first | rfl | cases hrx

theorem core_send {s s' : Sys} (h : SendFrame s s') : s'.c.core = s.c.core := by
  obtain ⟨_, _, _, _, log, _, rfl, _, _, hl⟩ := h
  refine core_logged (c := s.c) fun a ha => ?_
  have hwrite := hl a ha
  cases a <;> first | rfl | cases hwrite

theorem log_nil (c : Core) : c.log [] = c := by
  rw [Core.log, List.append_nil]

theorem core_invoke (s : Sys) (cb : Callback) (f : Cgi → Option (Call → Call)) :
    ∃ cs, Invoked cb cs ∧ (s.invoke cb f).c.core = s.c.core.log cs := by
  unfold Sys.invoke
  split
  · exact ⟨[], .inl rfl, (log_nil _).symm⟩
  · rename_i cgi _
    split
    · exact ⟨[], .inl rfl, (log_nil _).symm⟩
    · exact ⟨_, .inr ⟨cgi, rfl⟩, core_note_call s rfl⟩

/-! ## Header lines -/

theorem parseMethod_ne_none {tail : Bytes} {method : Method} {n : Nat}
    (h : parseMethod tail = some (method, n)) : method ≠ .none := by
  unfold parseMethod at h
  split at h
  · cases h
    decide
  · split at h
    · cases h
      decide
    · cases h

theorem requestLine_moves {s : Sys} (tail : Bytes) (n : Nat) (hst : s.c.state = .headerReceiving)
    (hfirst : s.c.requestMethod = .none) :
    CoreMoves (.round, s.c.core) (.round, (requestLine s tail n).c.core) ∧
      (requestLine s tail n).c.state = .headerReceiving := by
  unfold requestLine
  split
  · exact ⟨.refl, hst⟩
  · rename_i method iSkip hmethod
    have hcore : ∀ t : Sys, (cgiSetCgiHandler t).c.core = t.c.core ∧
        (cgiSetCgiHandler t).c.state = t.c.state := by
      intro t
      unfold cgiSetCgiHandler
      dsimp only
      split <;> exact ⟨rfl, rfl⟩
    dsimp only
    rw [(hcore _).1, (hcore _).2]
    refine ⟨.single ?_, hst⟩
    rw [core_note_call _ rfl]
    exact .requestLine s.c.core _ method hst hfirst (parseMethod_ne_none hmethod)

/-- A header line sets how the content is delimited, or is offered to the handler. -/
theorem headerLine_core (s : Sys) (tail : Bytes) (n : Nat) :
    ∃ length received chunked cs, Invoked .onHeaderReceived cs ∧
      (headerLine s tail n).c.state = s.c.state ∧
      (headerLine s tail n).c.core = { s.c.core with
        contentLength := length, contentReceived := received, chunked := chunked }.log cs := by
  have hquiet : ∀ t : Sys, t.c.state = s.c.state → (∃ length received chunked,
      t.c.core = { s.c.core with
        contentLength := length, contentReceived := received, chunked := chunked }) →
      ∃ length received chunked cs, Invoked .onHeaderReceived cs ∧ t.c.state = s.c.state ∧
        t.c.core = { s.c.core with
          contentLength := length, contentReceived := received, chunked := chunked }.log cs := by
    rintro t hst ⟨length, received, chunked, heq⟩
    exact ⟨length, received, chunked, [], .inl rfl, hst, by rw [log_nil, heq]⟩
  unfold headerLine
  dsimp only
  repeat' split
  · exact hquiet _ rfl ⟨_, _, _, rfl⟩
  · exact hquiet _ rfl ⟨_, _, _, rfl⟩
  · exact hquiet _ rfl ⟨_, _, _, rfl⟩
  · exact hquiet _ rfl ⟨_, _, _, rfl⟩
  · exact hquiet _ rfl ⟨_, _, _, rfl⟩
  · exact hquiet _ rfl ⟨_, _, _, rfl⟩
  · exact hquiet _ rfl ⟨_, _, _, rfl⟩
  · obtain ⟨cs, hcs, heq⟩ := core_invoke (s.note (.headerLine (cstr tail))) .onHeaderReceived
      fun cgi => cgi.onHeaderReceived.map fun f c => f c tail
    refine ⟨s.c.contentLength, s.c.contentReceived, s.c.chunked, cs, hcs, ?_, ?_⟩
    · exact congrArg Request.state
        (CallFrame.invoke (s.note (.headerLine (cstr tail))) .onHeaderReceived _).request
    · unfold cgiHeaderReceived
      rw [heq, core_note s rfl]
      rfl

/-- Where the parser leaves the core. -/
def headPlace (afterHeader : Bool) : Place := if afterHeader then .headed else .round

/-- Where the scan of the buffer has come to. -/
structure LineMoves (s : Sys) (l : LineScan) : Prop where
  moves : CoreMoves (.round, s.c.core) (headPlace l.afterHeader, l.s.c.core)
  state : l.afterHeader = false → l.s.c.state = .headerReceiving
  stop : l.afterHeader → l.stop

theorem lineMoves_line {s : Sys} {l : LineScan} (i : Nat) (h : LineMoves s l)
    (hrun : l.stop = false) : LineMoves s (l.line i) := by
  have hnot : l.afterHeader = false := by
    by_contra hc
    rw [h.stop (by simpa using hc)] at hrun
    cases hrun
  have hmoves := h.moves
  have hst := h.state hnot
  rw [hnot] at hmoves
  have hon : ∀ t : LineScan, t.afterHeader = false → t.s.c.state = .headerReceiving →
      CoreMoves (.round, l.s.c.core) (.round, t.s.c.core) → LineMoves s t := by
    intro t hafter hstate hmore
    refine ⟨?_, fun _ => hstate, fun hc => ?_⟩
    · rw [hafter]
      exact hmoves.trans hmore
    · rw [hafter] at hc
      cases hc
  unfold LineScan.line
  dsimp only
  split
  · refine ⟨hmoves.tail ?_, (fun hc => nomatch hc), fun _ => rfl⟩
    have hcore : (endOfHeaders l.s).c.core =
        { l.s.c.core with state := .headerDone, sending := false } := by
      unfold endOfHeaders
      dsimp only
      split <;> rfl
    show CoreMove _ (.headed, (endOfHeaders l.s).c.core)
    rw [hcore]
    exact .endOfHeaders l.s.c.core hst
  · split
    · rename_i hfirst
      obtain ⟨hline, hstate⟩ := requestLine_moves
        ((store l.buf i [0]).drop l.nLinePos) (i - l.nLinePos) hst hfirst
      split
      · exact hon _ hnot hstate hline
      · exact hon _ hnot hstate hline
    · rename_i hlater
      obtain ⟨length, received, chunked, cs, hcs, hstate, heq⟩ := headerLine_core l.s
        ((store l.buf i [0]).drop l.nLinePos) (i - l.nLinePos)
      refine hon _ hnot (hstate.trans hst) (.single ?_)
      rw [heq]
      exact .headerLine l.s.c.core length received chunked cs hst hlater hcs

theorem lineMoves_loop {s : Sys} {k i : Nat} {l : LineScan} (h : LineMoves s l) :
    LineMoves s (lineLoop k i l) := by
  induction k generalizing i l with
  | zero => exact h
  | succ k ih =>
    rw [lineLoop]
    split
    · exact h
    · rename_i hrun
      split
      · exact ih (lineMoves_line i h (by simpa using hrun))
      · exact ih h

/-- Parsing the buffer. -/
theorem parseHeader_moves {s : Sys} (size : Int) (hst : s.c.state = .headerReceiving) :
    CoreMoves (.round, s.c.core)
      (headPlace (parseHeader s size).2, (parseHeader s size).1.c.core) := by
  have hscan : LineMoves s (parseScan s size) :=
    lineMoves_loop ⟨.refl, fun _ => hst, fun h => nomatch h⟩
  have hshift : ((parseScan s size).shift s.c.httpRequestBuffer).core
      = (parseScan s size).s.c.core := by
    unfold LineScan.shift
    dsimp only
    split
    · split
      · exact (core_rx (RxFrame.shiftOut _ _ _)).trans rfl
      · rfl
    · exact (core_rx (RxFrame.shiftOut _ _ _)).trans rfl
  have hmoves := hscan.moves
  rw [← hshift] at hmoves
  exact hmoves

theorem startRequest_moves (s : Sys) :
    let t := if 0 < s.c.requestLength ∧ s.c.state = .idle then startRequest s else s
    CoreMoves (.round, s.c.core) (.round, t.c.core) := by
  dsimp only
  split
  · rename_i hidle
    exact .single (.startRequest s.c.core hidle.2)
  · exact .refl

theorem headerPart_moves (s : Sys) :
    CoreMoves (.round, s.c.core)
      (headPlace (headerPart s).2.1, (headerPart s).1.c.core) := by
  have hstart := startRequest_moves s
  unfold headerPart
  dsimp only at hstart ⊢
  generalize (if 0 < s.c.requestLength ∧ s.c.state = .idle then startRequest s else s) = t
    at hstart ⊢
  split
  · rename_i hparse
    exact hstart.trans (parseHeader_moves s.c.requestLength hparse.1)
  · exact hstart

/-! ## Content -/

theorem frameContent_core (s : Sys) : (frameContent s).c.core = s.c.core.framed ∧
    (frameContent s).c.chunked = s.c.chunked ∧
    (frameContent s).c.contentLength = s.c.contentLength := by
  unfold frameContent
  split
  · rename_i hchunked
    refine ⟨?_, rfl, rfl⟩
    rw [Core.framed, if_pos (show s.c.core.chunked = true from hchunked)]
    rfl
  · rename_i hchunked
    split
    · rename_i hlength
      refine ⟨?_, rfl, rfl⟩
      rw [Core.framed, if_neg (show ¬s.c.core.chunked = true from hchunked),
        if_pos (show 0 < s.c.core.contentLength from hlength)]
      rfl
    · rename_i hlength
      refine ⟨?_, rfl, rfl⟩
      rw [Core.framed, if_neg (show ¬s.c.core.chunked = true from hchunked),
        if_neg (show ¬0 < s.c.core.contentLength from hlength)]
      rfl

/-- Behind the empty line: the framing, and `OnHeadersReceived`. -/
theorem headersEnd_moves (s : Sys) :
    CoreMoves (.headed, s.c.core) (.content, (headersEnd s).c.core) := by
  obtain ⟨hcore, hchunked, hlength⟩ :=
    frameContent_core (s.setResponse (authorize s.w s.c.toRequest s.c.toResponse))
  have hcall : ∀ t : Sys, ∃ cs, Invoked .onHeadersReceived cs ∧
      (cgiHeadersReceived t).c.core = t.c.core.log cs := by
    intro t
    unfold cgiHeadersReceived
    dsimp only
    split
    · exact ⟨[], .inl rfl, (log_nil _).symm⟩
    · split
      · exact core_invoke t .onHeadersReceived _
      · exact ⟨[], .inl rfl, (log_nil _).symm⟩
  unfold headersEnd
  dsimp only
  generalize frameContent (s.setResponse (authorize s.w s.c.toRequest s.c.toResponse)) = t
    at hcore hchunked hlength ⊢
  obtain ⟨cs, hcs, heq⟩ := hcall
    (t.note (.headersEnd t.c.toRequest t.c.toResponse (loggedIn t.w t.c.session t.c.ipRemote)))
  have hframed : t.c.core = s.c.core.framed := hcore
  rw [heq, core_note_call t rfl, hframed]
  refine .single ?_
  have hmove := CoreMove.headersEnd s.c.core t.c.toRequest t.c.toResponse
    (loggedIn t.w t.c.session t.c.ipRemote) cs hchunked hlength hcs
  simpa only [Core.log, List.append_assoc, List.singleton_append] using hmove

theorem chunkLength_moves {s : Sys} (size : Int) (hst : s.c.state = .chunkLenReceiving) :
    CoreMoves (.content, s.c.core) (.content, (chunkLength s size).c.core) := by
  unfold chunkLength
  split
  · exact .refl
  · rename_i i _
    dsimp only
    rw [(core_rx (RxFrame.shiftOut _ _ _))]
    refine .single ?_
    have hmove := CoreMove.chunkLength s.c.core
      (wrapLong (atol (store s.c.httpRequestBuffer i [0]) + 2)) hst
    have hnote := core_note s (a := .chunkLine s.c.toRequest) rfl
    rw [← hnote] at hmove ⊢
    exact hmove

/-- Where the loop is behind a round. -/
def Next.place : Next → Place
  | .again => .round
  | .stop => .behind
  | .ret => .between

/-- The end of a round, from its content part. -/
theorem roundEnd_moves (s : Sys) (consumed : Int) :
    CoreMoves (.content, s.c.core)
      ((roundEnd s consumed).2.place, (roundEnd s consumed).1.c.core) := by
  unfold roundEnd
  split
  · rename_i hdone
    obtain ⟨cs, hcs, heq⟩ := core_invoke s .onRequestReceived
      fun cgi => cgi.onRequestReceived.map fun f c => f s.c.toRequest c
    have hcore : (if (cgiRequestReceived s).c.result = 0
        then (cgiRequestReceived s).setResult codeOk else cgiRequestReceived s).c.core
          = s.c.core.log cs := by
      split
      · exact heq
      · exact heq
    dsimp only
    rw [hcore]
    exact .single (.complete s.c.core cs hdone hcs)
  · rename_i hst
    split
    · exact (ReflTransGen.single (.next s.c.core hst)).tail (.stop s.c.core)
    · exact .single (.next s.c.core hst)

/-- Leaving a round from its content part, the request incomplete. -/
theorem content_leave {c : Core} (hrec : c.state.receiving) :
    CoreMoves (.content, c) (.behind, c) ∧ CoreMoves (.content, c) (.between, c) := by
  have hst : c.state ≠ .bodyDone := by
    intro h
    rw [h] at hrec
    cases hrec
  have hbehind : CoreMoves (.content, c) (.behind, c) :=
    (ReflTransGen.single (.next c hst)).tail (.stop c)
  exact ⟨hbehind, hbehind.tail (.leave c hrec)⟩

theorem contentDone_core (s : Sys) : (contentDone s).c.core =
    if s.c.chunked then
      { s.c.core with
        state := if s.c.contentLength = 2 then .bodyDone else .chunkLenReceiving
        contentLength := 0
        contentReceived := 0 }
    else { s.c.core with state := .bodyDone } := by
  unfold contentDone
  split
  · dsimp only
    split <;> rfl
  · rfl

theorem takeContent_core (s : Sys) (n : Int) : (takeContent s n).c.core = s.c.core.taken n := by
  have hdone : ∀ t : Sys, t.c.core = { s.c.core with contentReceived := s.c.contentReceived + n } →
      (if t.c.contentLength ≤ t.c.contentReceived then contentDone t else t).c.core
        = s.c.core.taken n := by
    intro t ht
    have hlength : t.c.contentLength = s.c.contentLength := congrArg Core.contentLength ht
    have hreceived : t.c.contentReceived = s.c.contentReceived + n :=
      congrArg Core.contentReceived ht
    have hchunked : t.c.chunked = s.c.chunked := congrArg Core.chunked ht
    rw [hlength, hreceived, Core.taken]
    split
    · rename_i hall
      rw [if_pos (show s.c.core.contentLength ≤ s.c.core.contentReceived + n from hall),
        contentDone_core, hchunked, hlength, ht]
      rfl
    · rename_i hall
      rw [if_neg (show ¬s.c.core.contentLength ≤ s.c.core.contentReceived + n from hall)]
      exact ht
  refine hdone { s.setRequest { s.c.toRequest with
    contentReceived := s.c.contentReceived + n } with c := _ } ?_
  exact (core_rx (RxFrame.shiftOut _ n (s.c.httpRequestBuffer.take n.toNat))).trans rfl

/-- The content part of a round. -/
theorem contentPart_moves {s : Sys} (size : Int) :
    CoreMoves (.content, s.c.core)
      ((contentPart s size).2.place, (contentPart s size).1.c.core) := by
  unfold contentPart
  split
  · rename_i hst
    have hrec : s.c.state.receiving = true := by
      rcases hst with h | h
      · rw [h]
        rfl
      · rw [h]
        rfl
    rcases cgiContentReceived_cases s s.c.httpRequestBuffer size with heq | ⟨cgi, f, -, -, heq⟩
    · rw [heq]
      dsimp only
      split
      · exact (content_leave (c := s.c.core) hrec).2
      · exact (content_leave (c := s.c.core) hrec).1
    · rw [heq]
      generalize f s.c.toRequest s.call s.c.httpRequestBuffer size = k
      generalize ht : Sys.ofCall _ k.1 = t
      have hcore : t.c.core = s.c.core.log [.callback cgi .onContentReceived,
          .content s.c.toRequest s.c.toResponse s.c.requestLength size k.2] := by
        rw [← ht]
        show ((s.note _).note _).c.core = _
        rw [core_note_call _ rfl, core_note_call _ rfl]
        simp only [Core.log, List.append_assoc, List.singleton_append]
      have htrec : t.c.core.state.receiving = true := by
        rw [hcore]
        exact hrec
      have hnone := CoreMove.offerNone s.c.core cgi s.c.toRequest s.c.toResponse s.c.requestLength size
        k.2 hst
      rw [← hcore] at hnone
      dsimp only
      split
      · exact (ReflTransGen.single hnone).trans (content_leave htrec).2
      · split
        · exact (ReflTransGen.single hnone).trans (content_leave htrec).1
        · have hoffer := CoreMove.offer s.c.core cgi s.c.toRequest s.c.toResponse s.c.requestLength size
            k.2 hst rfl rfl rfl
          have htaken : (takeContent t k.2).c.core = (s.c.core.taken k.2).log
              [.callback cgi .onContentReceived,
                .content s.c.toRequest s.c.toResponse s.c.requestLength size k.2] := by
            rw [takeContent_core, hcore]
            unfold Core.taken
            show (if s.c.core.contentLength ≤ s.c.core.contentReceived + k.2 then _ else _) = _
            split
            · show (if s.c.core.chunked then _ else _) = _
              split <;> rfl
            · rfl
          rw [← htaken] at hoffer
          exact (ReflTransGen.single hoffer).trans (roundEnd_moves _ _)
  · exact roundEnd_moves s 0

/-! ## The loop -/

/-- Leaving a round from its header part. -/
theorem head_leave (justNow : Bool) (c : Core) : CoreMoves (headPlace justNow, c) (.behind, c) := by
  cases justNow with
  | true => exact .single (.drop c)
  | false => exact .single (.stop c)

/-- A round behind the header section. -/
theorem afterHeader_moves {s : Sys} {justNow : Bool} (size : Int)
    (hbefore : justNow = false →
      s.c.state.receiving ∧ s.c.state ≠ .idle ∧ s.c.state ≠ .headerReceiving) :
    CoreMoves (headPlace justNow, s.c.core)
      ((afterHeader s justNow size).2.place, (afterHeader s justNow size).1.c.core) := by
  have hcontent : CoreMoves (headPlace justNow, s.c.core)
      (.content, (if justNow then headersEnd s else s).c.core) := by
    cases justNow with
    | true => exact headersEnd_moves s
    | false =>
      obtain ⟨hrec, hlater⟩ := hbefore rfl
      exact .single (.toContent s.c.core hrec hlater)
  unfold afterHeader
  dsimp only
  generalize (if justNow then headersEnd s else s) = t at hcontent ⊢
  split
  · exact hcontent.tail (.refuse t.c.core)
  · split
    · rename_i hchunk
      exact (hcontent.trans (chunkLength_moves size hchunk.1)).trans (contentPart_moves size)
    · exact hcontent.trans (contentPart_moves size)

/-- A round behind the dequeue block. -/
theorem processBuffer_moves {s : Sys} (hst : s.c.state.receiving) :
    CoreMoves (.round, s.c.core)
      ((processBuffer s).2.place, (processBuffer s).1.c.core) := by
  unfold processBuffer
  split
  · exact .single (.stop s.c.core)
  · dsimp only
    have hhead := headerPart_moves s
    obtain ⟨-, -, hnow, hnotyet⟩ := headerPart_micros hst
    generalize headerPart s = parsed at hhead hnow hnotyet ⊢
    have hleave := hhead.trans (head_leave parsed.2.1 parsed.1.c.core)
    split
    · exact hleave
    · split
      · exact hleave
      · split
        · rename_i hmore
          split
          · exact hleave
          · -- the header section is not complete, so the loop goes on with the parser
            have hround : parsed.2.1 = false := by
              by_contra hjust
              have hdone := hnow (by simpa using hjust)
              rcases hmore with h | h
              · rw [h] at hdone
                cases hdone
              · rw [h] at hdone
                cases hdone
            rw [hround] at hhead
            exact hhead
        · rename_i hmore
          exact hhead.trans (afterHeader_moves parsed.2.2 fun h =>
            ⟨hnotyet h, fun hc => hmore (.inl hc), fun hc => hmore (.inr hc)⟩)

/-- One round of the loop over received data. -/
theorem iteration_moves {s : Sys} (hst : s.c.state.receiving) :
    CoreMoves (.round, s.c.core) ((iteration s).2.place, (iteration s).1.c.core) := by
  have hdeq := RxFrame.dequeue s.c
  have hcore : s.c.dequeue.core = s.c.core := core_rx hdeq
  rw [← hcore]
  refine processBuffer_moves (s := { s with c := s.c.dequeue }) ?_
  show Request.state s.c.dequeue.toRequest |>.receiving
  rw [hdeq.request]
  exact hst

theorem receiveLoop_moves (fuel : Nat) (s : Sys) :
    CoreMoves (.round, s.c.core)
      (if (receiveLoop fuel s).2 = .ret then .between else .behind,
        (receiveLoop fuel s).1.c.core) := by
  induction fuel generalizing s with
  | zero => exact .single (.stop s.c.core)
  | succ fuel ih =>
    rw [receiveLoop]
    split
    · rename_i hst
      have hround := iteration_moves hst
      generalize iteration s = r at hround ⊢
      obtain ⟨t, next⟩ := r
      cases next with
      | again => exact hround.trans (ih t)
      | stop => exact hround
      | ret => exact hround
    · exact .single (.stop s.c.core)

/-! ## The response -/

theorem beginResponse_core (s : Sys) : (beginResponse s).c.core = s.c.core := rfl

/-- The header is built by the handler; the log of it is not a call. -/
theorem cgiSetResponseHeaders_core (s : Sys) (codeInfo : Bytes) :
    ∃ cs, Invoked .setResponseHeaders cs ∧
      (cgiSetResponseHeaders s codeInfo).c.core = s.c.core.log cs := by
  unfold cgiSetResponseHeaders
  dsimp only
  obtain ⟨cs, hcs, heq⟩ := core_invoke
    (s.setResponse (headersBegin { s.c.toResponse with peak := 0 })) .setResponseHeaders
    fun cgi => cgi.setResponseHeaders.map fun f c => f
      (s.setResponse (headersBegin { s.c.toResponse with peak := 0 })).c.toRequest c codeInfo
  refine ⟨cs, hcs, ?_⟩
  rw [core_note _ rfl]
  exact heq

theorem startResponse_moves {s : Sys} (hst : s.c.state.receiving = false)
    (hfirst : s.c.sending = false) :
    CoreMoves (.behind, s.c.core) (.begun, (startResponse s).c.core) := by
  obtain ⟨cs, hcs, hcore⟩ := cgiSetResponseHeaders_core (beginResponse s) (codeInfoOf s.c.result)
  unfold startResponse
  dsimp only
  generalize cgiSetResponseHeaders (beginResponse s) (codeInfoOf s.c.result) = t at hcore ⊢
  have hsent := (core_send (.sendBuffered t)).trans (hcore.trans (congrArg (Core.log · cs)
    (beginResponse_core s)))
  generalize sendBuffered t = sent at hsent ⊢
  have hstate : ∀ st : HttpState,
      ((sent.1.setRequest { sent.1.c.toRequest with sending := true }).setState st).c.core =
        ({ s.c.core with state := st, sending := true } : Core).log cs := by
    intro st
    show ({ sent.1.c.core with state := st, sending := true } : Core) = _
    rw [hsent]
    rfl
  split
  · split
    · rw [hstate]
      exact .single (.startResponse s.c.core .sendingBody cs hst hfirst hcs (.inr rfl))
    · rw [hstate]
      exact .single (.startResponse s.c.core .sendingHeader cs hst hfirst hcs (.inl rfl))
  · have hfailed : (sendFailed sent.1).c.core =
        ({ s.c.core with state := .requestEnd } : Core).log cs := by
      show ({ sent.1.c.core with state := .requestEnd } : Core) = _
      rw [hsent]
      rfl
    rw [hfailed]
    exact .single (.startFailed s.c.core cs hst hfirst hcs)

theorem responseHeaderStep_moves {s : Sys} (caller : Caller) (hst : s.c.state.receiving = false) :
    CoreMoves (.behind, s.c.core) (.begun, (responseHeaderStep s caller).c.core) := by
  unfold responseHeaderStep
  split
  · rename_i hfirst
    exact startResponse_moves hst hfirst
  · rename_i hsent
    have hskip : CoreMoves (.behind, s.c.core) (.begun, s.c.core) := .single (.skip s.c.core hst)
    split
    · rename_i hack
      unfold headerAcked
      split
      · have hend : ((s.note (.refused s.c.toResponse)).setState .requestEnd).c.core =
            { s.c.core with state := .requestEnd } := by
          show ({ (s.note (.refused s.c.toResponse)).c.core with state := .requestEnd } : Core) = _
          rw [core_note s rfl]
        rw [hend]
        exact hskip.tail (.finish s.c.core)
      · have hsent' : s.c.sending = true := by simpa using hsent
        exact .single (.headerAcked s.c.core hack.1 hsent')
    · exact hskip

/-- Loading a block calls `ReadContent` or `OnAllSent`. -/
theorem cgiLoadContentToSend_core (s : Sys) (caller : Caller) :
    ∃ cs, (Invoked .readContent cs ∨ Invoked .onAllSent cs) ∧
      (cgiLoadContentToSend s caller).1.c.core = s.c.core.log cs := by
  have hload : ∀ t : Sys, ∃ cs, (Invoked .readContent cs ∨ Invoked .onAllSent cs) ∧
      (loadContent t caller).1.c.core = t.c.core.log cs := by
    intro t
    unfold loadContent
    split
    · show ∃ cs, _ ∧ (cgiAllSent t).c.core = _
      unfold cgiAllSent
      split
      · exact ⟨[], .inr (.inl rfl), (log_nil _).symm⟩
      · obtain ⟨cs, hcs, heq⟩ := core_invoke t .onAllSent Cgi.onAllSent
        exact ⟨cs, .inr hcs, heq⟩
    · split
      · exact ⟨[], .inl (.inl rfl), (log_nil _).symm⟩
      · rename_i cgi _
        split
        · exact ⟨[], .inl (.inl rfl), (log_nil _).symm⟩
        · split
          · exact ⟨[], .inl (.inl rfl), (log_nil _).symm⟩
          · exact ⟨_, .inl (.inr ⟨cgi, rfl⟩), core_note_call t rfl⟩
  unfold cgiLoadContentToSend
  dsimp only
  obtain ⟨cs, hcs, heq⟩ := hload (s.setResponse { s.c.toResponse with peak := 0 })
  refine ⟨cs, hcs, ?_⟩
  rw [core_note _ rfl]
  exact heq

theorem sendBody_moves {s : Sys} (caller : Caller) (hst : s.c.state = .sendingBody) :
    CoreMoves (.begun, s.c.core) (.begun, (sendBody s caller).c.core) := by
  obtain ⟨cs, hcs, hcore⟩ := cgiLoadContentToSend_core s caller
  have hread : CoreMoves (.begun, s.c.core) (.begun, (cgiLoadContentToSend s caller).1.c.core) := by
    rw [hcore]
    exact .single (.readContent s.c.core cs hst hcs)
  have hstate : (cgiLoadContentToSend s caller).1.c.core.state = .sendingBody := by
    rw [hcore]
    exact hst
  unfold sendBody
  dsimp only
  generalize cgiLoadContentToSend s caller = loaded at hread hstate ⊢
  split
  · have hsend := core_send (.sendBuffered loaded.1)
    generalize sendBuffered loaded.1 = sent at hsend ⊢
    rw [← hsend] at hread hstate
    split
    · exact hread.tail (.sent sent.1.c.core hstate)
    · exact hread.tail (.finish sent.1.c.core)
  · split
    · exact hread.tail (.finish loaded.1.c.core)
    · exact hread

theorem sendRemaining_moves (s : Sys) :
    CoreMoves (.begun, s.c.core) (.begun, (sendRemaining s).c.core) := by
  have hsend := core_send (.sendBuffered s)
  unfold sendRemaining
  dsimp only
  generalize sendBuffered s = sent at hsend ⊢
  rw [← hsend]
  split
  · exact .refl
  · exact .single (.finish sent.1.c.core)

/-- `HttpResponseProc` of a request that is received. -/
theorem httpResponseProc_moves {s : Sys} (caller : Caller) (hst : s.c.state.receiving = false) :
    CoreMoves (.behind, s.c.core) (.begun, (httpResponseProc s caller).c.core) := by
  have hskip : CoreMoves (.behind, s.c.core) (.begun, s.c.core) := .single (.skip s.c.core hst)
  unfold httpResponseProc
  split
  · exact hskip
  · split
    · exact hskip.trans (sendRemaining_moves s)
    · split
      · exact hskip.trans (sendRemaining_moves s.afterSndbuf)
      · dsimp only
        have hsame : (if 0 < s.c.bytesLeft then s.afterSndbuf else s).c = s.c := by
          split <;> rfl
        generalize (if 0 < s.c.bytesLeft then s.afterSndbuf else s) = t at hsame ⊢
        rw [← hsame] at hst ⊢
        have hstep := responseHeaderStep_moves caller hst
        split
        · exact hstep
        · split
          · rename_i hbody
            exact hstep.trans (sendBody_moves caller hbody)
          · exact hstep

/-! ## The end of a request -/

theorem closeFileHandle_core (s : Sys) : (closeFileHandle s).c.core = s.c.core := by
  unfold closeFileHandle
  split <;> rfl

/-- A context that is freed has called `OnFinished` at most. -/
theorem freeHttpContext_moves (place : Place) (s : Sys) :
    CoreMoves (place, s.c.core) (.between, (freeHttpContext s).c.core) := by
  obtain ⟨cs, hcs, heq⟩ := core_invoke s .onFinished Cgi.onFinished
  have hclosed : (closeFileHandle (cgiFinish s)).c.core = s.c.core.log cs :=
    (closeFileHandle_core _).trans heq
  have hfreed : (freeHttpContext s).c.core = .fresh (s.c.core.calls ++ (cs ++ [.freed])) := by
    unfold freeHttpContext
    dsimp only
    have hcalls : calls (closeFileHandle (cgiFinish s)).c.log = s.c.core.calls ++ cs :=
      congrArg Core.calls hclosed
    show Core.fresh (calls ((closeFileHandle (cgiFinish s)).c.log ++ [.freed])) = _
    rw [calls_append, hcalls, List.append_assoc]
    rfl
  rw [hfreed]
  exact .single (.close place s.c.core cs hcs)

theorem closeHttpContext_moves (place : Place) (s : Sys) :
    CoreMoves (place, s.c.core) (.between, (closeHttpContext s).c.core) := by
  have hdetach : (detachPcb s).c.core = s.c.core := by
    unfold detachPcb
    split
    · rfl
    · dsimp only
      split <;> rfl
  unfold closeHttpContext
  rw [← hdetach]
  exact freeHttpContext_moves place (detachPcb s)

theorem requestEnd_moves (s : Sys) :
    CoreMoves (.begun, s.c.core) (.between, (requestEnd s).c.core) := by
  unfold requestEnd
  split
  · exact closeHttpContext_moves .begun s
  · split
    · have hreset : (resetHttpContext (s.note (.reset s.c.toRequest s.c.toResponse))).c.core =
          .fresh (s.c.core.calls ++ [.reset s.c.toRequest s.c.toResponse]) := by
        obtain ⟨_, _, heq, -⟩ := resetHttpContext_spec
          (s.note (.reset s.c.toRequest s.c.toResponse))
        rw [heq]
        show Core.fresh (calls (s.c.log ++ [_])) = _
        rw [calls_append]
        rfl
      rw [hreset]
      exact .single (.reset s.c.core s.c.toRequest s.c.toResponse)
    · exact closeHttpContext_moves .begun s

/-! ## Events -/

theorem requestFinish_moves (s : Sys) (caller : Caller) :
    CoreMoves (.behind, s.c.core) (.between, (requestFinish s caller).c.core) := by
  unfold requestFinish
  split
  · rename_i hrec
    split
    · exact .single (.leave s.c.core hrec)
    · exact .single (.leave s.c.core hrec)
  · rename_i hrec
    have hresp := httpResponseProc_moves caller (by simpa using hrec)
    dsimp only
    split
    · exact hresp.trans (requestEnd_moves _)
    · rename_i hst
      exact hresp.tail (.leaveSending _ hst)

theorem httpRequestProc_moves (s : Sys) (caller : Caller) :
    CoreMoves (.between, s.c.core) (.between, (httpRequestProc s caller).c.core) := by
  have hloop := (ReflTransGen.single (.enter s.c.core)).trans
    (receiveLoop_moves (receiveFuel s.c) s)
  unfold httpRequestProc
  generalize receiveLoop (receiveFuel s.c) s = r at hloop ⊢
  obtain ⟨t, next⟩ := r
  cases next with
  | again => exact hloop.trans (requestFinish_moves t caller)
  | stop => exact hloop.trans (requestFinish_moves t caller)
  | ret => exact hloop

theorem closeIfFatal_moves (s : Sys) :
    CoreMoves (.between, s.c.core) (.between, (closeIfFatal s).c.core) := by
  unfold closeIfFatal
  split
  · exact closeHttpContext_moves .between s
  · exact .refl

theorem onHttpReceive_moves (s : Sys) (p : Option (List Pbuf)) :
    CoreMoves (.between, s.c.core) (.between, (onHttpReceive s p).c.core) := by
  unfold onHttpReceive
  split
  · exact closeHttpContext_moves .between s
  · dsimp only
    have hfinish : ∀ t : Sys, t.c.core = s.c.core → CoreMoves (.between, s.c.core) (.between,
        (if (httpRequestProc t .recv).c.result ≤ -500 then closeHttpContext (httpRequestProc t .recv)
          else if (httpRequestProc t .recv).c.checkAlive then httpRequestProc t .recv
          else { httpRequestProc t .recv with w := { (httpRequestProc t .recv).w with
            sessions := sessionReceived (httpRequestProc t .recv).w.sessions
              (httpRequestProc t .recv).c.session (httpRequestProc t .recv).w.tick } }).c.core) := by
      intro t ht
      have hproc := httpRequestProc_moves t .recv
      rw [ht] at hproc
      split
      · exact hproc.trans (closeHttpContext_moves .between _)
      · split
        · exact hproc
        · exact hproc
    refine hfinish _ ?_
    cases p with
    | none => rfl
    | some chain =>
      refine (core_rx (.receivePbuf _ chain)).trans ?_
      split <;> rfl

/-- Every event of a connection is a run of the core. -/
theorem connStep_moves (s : Sys) (e : ConnEvent) :
    CoreMoves (.between, s.c.core) (.between, (connStep s e).c.core) := by
  cases e with
  | accept pcb ipRemote =>
    have hcore : (acceptContext s pcb ipRemote).c.core = .fresh [] := by
      obtain ⟨_, _, _, heq⟩ := acceptContext_spec s pcb ipRemote
      rw [heq]
      rfl
    show CoreMoves _ (.between, (acceptContext s pcb ipRemote).c.core)
    rw [hcore]
    exact .single (.accept s.c.core)
  | receive p => exact onHttpReceive_moves s _
  | poll =>
    show CoreMoves _ (.between, (onHttpPoll s).c.core)
    unfold onHttpPoll
    split
    · exact closeHttpContext_moves .between s
    · exact (httpRequestProc_moves s .poll).trans (closeIfFatal_moves _)
  | sent len =>
    show CoreMoves _ (.between, (onHttpSent s len).c.core)
    unfold onHttpSent
    dsimp only
    have hsame : (if s.c.checkAlive then s else
        { s with w := { s.w with sessions := sessionSent s.w.sessions s.c.session s.w.tick } }).c
          = s.c := by
      split <;> rfl
    generalize (if s.c.checkAlive then s else
      { s with w := { s.w with sessions := sessionSent s.w.sessions s.c.session s.w.tick } }) = t
      at hsame ⊢
    rw [← hsame]
    exact (httpRequestProc_moves (t.setRequest { t.c.toRequest with
      totalSent := t.c.totalSent + len }) .sent).trans (closeIfFatal_moves _)
  | error => exact freeHttpContext_moves .between s

/-! ## Runs of the server -/

theorem reached_onSlot (sv : Server) {i : Nat} {a : Answers} {e : ConnEvent}
    (h : ∀ c ∈ sv.slots, c.core.Reached) :
    ∀ c ∈ (sv.onSlot i a fun s => connStep s e).slots, c.core.Reached := by
  unfold Server.onSlot
  split
  · exact h
  · rename_i c hc
    split
    · exact h
    · intro d hd
      rcases List.mem_or_eq_of_mem_set hd with hd | rfl
      · exact h d hd
      · have hold : c.core.Reached := h c (List.mem_of_getElem? hc)
        exact hold.trans (connStep_moves ⟨sv.w, c, ⟨a.sndbuf, a.write, a.close, sv.pcbs⟩⟩ e)

theorem reached_onPcb {sv : Server} {pcb : Nat} {a : Answers} {e : ConnEvent}
    (h : ∀ c ∈ sv.slots, c.core.Reached) :
    ∀ c ∈ (sv.onPcb pcb a e).slots, c.core.Reached := by
  unfold Server.onPcb
  split
  · exact h
  · split
    · split
      · exact reached_onSlot sv h
      · unfold Server.retryClose
        split <;> exact h
    · exact h

theorem reached_step {sv : Server} {a : Answers} {e : Event}
    (h : ∀ c ∈ sv.slots, c.core.Reached) : ∀ c ∈ (sv.step a e).slots, c.core.Reached := by
  cases e with
  | accept ip =>
    show ∀ c ∈ (sv.accept ip a).slots, c.core.Reached
    unfold Server.accept
    split
    · exact h
    · exact reached_onSlot { sv with pcbs := sv.pcbs ++ [⟨some _, true⟩] }
        (e := .accept sv.pcbs.length ip) h
  | receive pcb p => exact reached_onPcb h
  | poll pcb => exact reached_onPcb h
  | sent pcb len => exact reached_onPcb h
  | error pcb =>
    show ∀ c ∈ (sv.onError pcb a).slots, c.core.Reached
    unfold Server.onError
    split
    · exact h
    · split
      · split
        · exact reached_onSlot (sv.dropPcb pcb) h
        · exact h
      · exact h
  | tick tick clock => exact h
  | device dev listening443 => exact h

theorem Server.Reachable.core {sv : Server} (h : sv.Reachable) :
    ∀ c ∈ sv.slots, c.core.Reached := by
  induction h with
  | boot w =>
    intro c hc
    rw [List.eq_of_mem_replicate hc]
    exact .refl
  | step a e _ _ ih => exact reached_step ih

/-- **Callback protocol.** In every run of the core, whatever the handlers do and return, the
calls follow the protocol, and every connection of every run of the server is a run of the
core; so the calls in its log follow the protocol. -/
theorem callback_protocol :
    (∀ c : Core, c.Reached → Follows c.calls) ∧
      ∀ sv : Server, sv.Reachable → ∀ c ∈ sv.slots, c.core.Reached ∧ Follows (calls c.log) := by
  refine ⟨fun c h => h.follows, fun sv h c hc => ?_⟩
  have hcore := h.core c hc
  exact ⟨hcore, hcore.follows⟩

/-- Two requests on one connection, the second with a body. -/
def twoRequests : List (Answers × Event) :=
  [(openNet, .accept 0x0A000001),
   (openNet, receiveText 0 "GET /auth/x HTTP/1.1\r\nConnection: keep-alive\r\n\r\n"),
   (openNet, .sent 0 200),
   (openNet, receiveText 0 "POST /auth/y HTTP/1.1\r\nContent-Length: 3\r\n\r\n"),
   (openNet, receiveText 0 "abc"), (openNet, .sent 0 200)]

theorem callback_protocol_twoRequests :
    Follows (calls (((Server.boot plainWorld).run twoRequests).slot 0).log) := by
  have hlegal : (Server.boot plainWorld).RunLegal twoRequests ∧
      0 < ((Server.boot plainWorld).run twoRequests).slots.length := by decide +kernel
  exact (callback_protocol.2 _ ((Server.Reachable.boot plainWorld).run hlegal.1) _
    (Server.slot_mem hlegal.2)).2

end Httpd
