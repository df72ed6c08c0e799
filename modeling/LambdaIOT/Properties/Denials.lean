import LambdaIOT.Httpd.Events
import LambdaIOT.Properties.Redirects

/-!
# Who is turned away is sent the redirect only

The verdict on a request is taken where its header section ends, and the call that takes it also
answers: what happens to a request that is turned away is over when the call returns. So a run is
judged call by call. `RedirectFits` looks at the data that is waiting before the call: if a header
section ends in it that is turned away, the request is an upload, and the network takes the redirect
at once. Each round of the loop keeps what is known of the windows of the header section (`Foreseen`),
the loop is an induction on its fuel, and the run one on its events.
-/

namespace Httpd

open CMem Lwip Relation

/-! ## Before the verdict -/

/-- Until the verdict nobody has served the request, and nothing was written for it. -/
def Unanswered (c : RequestContext) : Prop :=
  c.state.before = true → ∀ a ∈ current c.log, a.serves = false ∧ a.isWrite = false

/-- An entry that belongs to no answer. -/
def Act.silent (a : Act) : Bool := !a.endsRequest && !a.serves && !a.isWrite

theorem silent_of_rx {a : Act} (h : a.isRx = true) : a.silent = true := by
  cases a <;> first | rfl | cases h

theorem silent_of_parse {a : Act} (h : a.isParse = true) : a.silent = true := by
  cases a with
  | callback cgi cb => cases cb <;> first | rfl | cases h
  | _ => first | rfl | cases h

theorem Unanswered.more {c d : RequestContext} {l : List Act} (h : Unanswered c)
    (hlog : d.log = c.log ++ l) (hst : d.state.before = true → c.state.before = true)
    (hl : ∀ a ∈ l, a.silent = true) : Unanswered d := by
  have hall : ∀ a ∈ l, a.endsRequest = false ∧ a.serves = false ∧ a.isWrite = false := by
    intro a ha
    simpa [Act.silent, and_assoc] using hl a ha
  intro hbefore a ha
  rw [hlog, current_append fun b hb => (hall b hb).1] at ha
  rcases List.mem_append.mp ha with ha | ha
  · exact h (hst hbefore) a ha
  · exact (hall a ha).2

theorem Unanswered.same {c d : RequestContext} (h : Unanswered c) (hlog : d.log = c.log)
    (hst : d.state = c.state) : Unanswered d :=
  h.more (l := []) (by rw [hlog, List.append_nil]) (fun hb => hst ▸ hb) fun _ h => absurd h List.not_mem_nil

theorem unanswered_behind {c : RequestContext} (h : c.state.before = false) : Unanswered c :=
  fun hbefore => by rw [h] at hbefore; cases hbefore

/-- A request has just ended. -/
theorem unanswered_ended {c : RequestContext} (log : List Act) {e : Act} (hlog : c.log = log ++ [e])
    (he : e.endsRequest = true) : Unanswered c := by
  intro _ a ha
  rw [hlog, current_append_one, if_pos he] at ha
  cases ha

theorem unanswered_freed {s t : Sys} (h : FreedFrame s t) : Unanswered t.c := by
  obtain ⟨_, _, _, _, log, _, heq, -⟩ := h
  have hlog : t.c.log = s.c.log ++ log ++ [.freed] := by
    rw [heq]
    rfl
  exact unanswered_ended _ hlog rfl

theorem unanswered_response {s t : Sys} (hst : s.c.state.receiving = false) (h : RespFrame s t) :
    Unanswered t.c := by
  obtain ⟨_, st, _, _, _, _, _, _, _, rfl, hstate, -⟩ := h
  have hresp := hstate (by rw [HttpState.responding, hst]; rfl)
  refine unanswered_behind ?_
  show st.before = false
  cases st <;> first | rfl | cases hresp

/-- An offer does not go back in front of the verdict. -/
theorem offerContent_before {s : Sys} (size : Int) (h : s.c.state.before = false) :
    (offerContent s size).c.state.before = false := by
  have hkept : (cgiContentReceived s s.c.httpRequestBuffer size).1.c.state = s.c.state := by
    obtain ⟨_, _, _, heq⟩ := cgiContentReceived_frame s s.c.httpRequestBuffer size
    rw [heq]
  unfold offerContent
  dsimp only
  split
  · rw [hkept]
    exact h
  · rcases (takeContent_state _ (cgiContentReceived s s.c.httpRequestBuffer size).2).2 with
      hst | hst | ⟨-, hst⟩
    · rw [hst, hkept]
      exact h
    · rw [hst]
      rfl
    · rw [hst]
      rfl

theorem unanswered_step {s t : Sys} (hi : Unanswered s.c) (h : Micro s t) : Unanswered t.c := by
  cases h with
  | environment w net hpcbs => exact hi
  | receive p hlive hfit =>
    obtain ⟨_, _, _, _, _, log, heq, -, hl⟩ := RxFrame.receivePbuf s.c p.chain
    show Unanswered (s.c.receivePbuf p.chain)
    rw [heq]
    exact hi.more rfl id fun a ha => silent_of_rx (hl a ha)
  | peerClosed => exact hi.same rfl rfl
  | touch t => exact hi.same rfl rfl
  | acknowledged len => exact hi.same rfl rfl
  | dequeue hst =>
    obtain ⟨_, _, _, _, _, log, heq, -, hl⟩ := RxFrame.dequeue s.c
    show Unanswered s.c.dequeue
    rw [heq]
    exact hi.more rfl id fun a ha => silent_of_rx (hl a ha)
  | startRequest hst hlen =>
    exact hi.more (l := []) (List.append_nil _).symm (fun _ => by rw [hst]; rfl) fun _ h => absurd h List.not_mem_nil
  | parseHeader hst hlen =>
    obtain ⟨_, _, _, _, _, log, heq, -, hl⟩ := ParseFrame.parseHeader s s.c.requestLength
    rw [heq]
    exact hi.more rfl (fun _ => by rw [hst]; rfl) fun a ha => silent_of_parse (hl a ha)
  | tooLarge hst => exact hi.same rfl rfl
  | headersEnd hst hok =>
    obtain ⟨_, st, _, _, _, heq, hframe⟩ := headersEnd_frame s
    rw [heq]
    rcases hframe with ⟨rfl, -⟩ | ⟨rfl, -⟩ | ⟨rfl, -⟩
    · exact unanswered_behind rfl
    · exact unanswered_behind rfl
    · exact unanswered_behind rfl
  | refuse hst hbad hsending => exact unanswered_behind rfl
  | chunkLength hst hok =>
    rcases chunkLength_state s s.c.requestLength with h | h
    · rw [h]
      exact hi
    · exact unanswered_behind (by rw [h]; rfl)
  | content size hst hok =>
    refine unanswered_behind ?_
    have hbefore : s.c.state.before = false := by
      rcases hst with h | ⟨h, -⟩
      · rw [h]
        rfl
      · rw [h]
        rfl
    exact offerContent_before size hbefore
  | complete hst hok =>
    have hstate : (completeRequest s).c.state = .bodyDone :=
      (congrArg Request.state (CallFrame.completeRequest s).request).trans hst
    exact unanswered_behind (by rw [hstate]; rfl)
  | sendRemaining hst hres hleft => exact unanswered_response hst (.sendRemaining s)
  | startResponse hst hres hfirst => exact unanswered_response hst (.startResponse s)
  | headerAcked hst hres hsent => exact unanswered_response (by rw [hst]; rfl) (.headerAcked s)
  | sendBody caller hst hres hsent hstage =>
    exact unanswered_response (by rw [hst]; rfl) (.sendBody s caller)
  | requestEnd hst =>
    unfold requestEnd
    split
    · exact unanswered_freed (closeHttpContext_frame s)
    · split
      · obtain ⟨_, _, heq, -⟩ :=
          resetHttpContext_spec (s.note (.reset s.c.toRequest s.c.toResponse))
        rw [heq]
        exact unanswered_ended s.c.log rfl rfl
      · exact unanswered_freed (closeHttpContext_frame s)
  | peerGone hst hpeer => exact hi.same rfl rfl
  | close => exact unanswered_freed (closeHttpContext_frame s)
  | free hgone => exact unanswered_freed (freeHttpContext_frame s)
  | outOfFuel => exact hi.same rfl rfl

theorem SlotReach.unanswered {c : RequestContext} (h : SlotReach c) : Unanswered c := by
  refine h.always (P := Unanswered) (fun _ a ha => absurd ha List.not_mem_nil) ?_
    fun s s' _ hi hm => unanswered_step hi hm
  intro s pcb ipRemote
  obtain ⟨_, _, _, heq⟩ := acceptContext_spec s pcb ipRemote
  rw [heq]
  exact fun _ a ha => absurd ha List.not_mem_nil

/-! ## The verdict -/

/-- The handler and the page of the request ask for a session that its client does not have. -/
def denied (w : World) (ipRemote : Nat) (f : HeaderFields) : Bool :=
  f.handler.any (fun cgi => cgi.optionsAllowed.authRequired) &&
    sessionTypes (extensionText (cstr f.requestPath)) && !hasSession w ipRemote f

/-- If the request is turned away, it is an upload, and the network takes the redirect at once. -/
def Redirectable (w : World) (ipRemote : Nat) (net : Net) (f : HeaderFields) : Prop :=
  denied w ipRemote f = true → f.handler = some .upload ∧
    takesAll (redirectText w.clock).length net.sndbuf net.write = true

instance (w : World) (ipRemote : Nat) (net : Net) (f : HeaderFields) :
    Decidable (Redirectable w ipRemote net f) := inferInstanceAs (Decidable (_ → _))

/-- Nothing that was logged in between turns a request away. -/
def NoDenial (s t : Sys) : Prop := LogsNo Act.denies s t

theorem Routine.noDenial {s t : Sys} (h : Routine s t) : NoDenial s t :=
  LogsNo.mono h fun a ha => by cases a <;> first | rfl | cases ha

section Verdict

variable {p : Sys} {lines : List Bytes}

/-- The verdict of a request that is turned away. -/
theorem authorize_denied {w : World} {h : Request} {r : Response}
    (hno : loggedIn w (getSession w.sessions r.token) h.ipRemote = false)
    (hrequired : r.options.authRequired = true) (hpage : sessionTypes r.extension = true) :
    (authorize w h r).result = codeRedirect ∧ (authorize w h r).authorized = codeRedirect ∧
      (authorize w h r).responsePath = webDefaultPage := by
  unfold authorize
  dsimp only
  rw [if_pos ⟨by simpa using hno, hrequired, hpage⟩]
  exact ⟨rfl, rfl, rfl⟩

/-- The entry at the end of a header section says whether the request is turned away. -/
theorem headersEnd_denies (hchosen : Chosen p.c) (h : Request)
    (hcgi : h.handler = p.c.handler) :
    (Act.headersEnd h (authorize p.w p.c.toRequest p.c.toResponse) (loggedIn p.w
      (authorize p.w p.c.toRequest p.c.toResponse).session p.c.ipRemote)).denies =
      denied p.w p.c.ipRemote (HeaderData.ofParts p.c.toRequest p.c.toResponse lines).toHeaderFields
    := by
  show (h.handler.any _ && sessionTypes _ && !loggedIn _ _ _) = (p.c.handler.any _ && _ && _)
  rw [hcgi, (authorize_verdict p.w p.c.toRequest p.c.toResponse).2.1,
    (authorize_kept p.w p.c.toRequest p.c.toResponse).2.1]
  cases hhandler : p.c.handler with
  | none => rfl
  | some cgi =>
    rw [hchosen.page cgi hhandler]
    rfl

/-- What the end of the header section leaves of a request that is turned away. -/
theorem headersEnd_denied (hchosen : Chosen p.c)
    (h : denied p.w p.c.ipRemote
      (HeaderData.ofParts p.c.toRequest p.c.toResponse lines).toHeaderFields = true) :
    ∃ st t a, headersEnd p = ⟨p.w, { p.c with
      toRequest := { p.c.toRequest with state := st, tLastSent := t }
      toResponse := authorize p.w p.c.toRequest p.c.toResponse
      log := p.c.log ++ [a] }, p.net⟩ ∧
      (authorize p.w p.c.toRequest p.c.toResponse).result = codeRedirect ∧
      (authorize p.w p.c.toRequest p.c.toResponse).responsePath = webDefaultPage := by
  have hparts : (p.c.handler.any (fun cgi => cgi.optionsAllowed.authRequired) = true ∧
      sessionTypes (extensionText (cstr p.c.requestPath)) = true) ∧
      (!loggedIn p.w (getSession p.w.sessions p.c.token) p.c.ipRemote) = true := by
    rw [← Bool.and_eq_true, ← Bool.and_eq_true]
    exact h
  obtain ⟨⟨hany, hpage⟩, hno⟩ := hparts
  obtain ⟨cgi, hcgi, hrequired⟩ := (Option.any_eq_true ..).mp hany
  have hoptions : p.c.options.authRequired = true := by
    rw [hchosen.options cgi hcgi]
    exact hrequired
  obtain ⟨hresult, hauthorized, hpath⟩ := authorize_denied (w := p.w) (h := p.c.toRequest)
    (r := p.c.toResponse) (by simpa using hno) hoptions
    (by rw [hchosen.page cgi hcgi]; exact hpage)
  have hkept := (authorize_verdict p.w p.c.toRequest p.c.toResponse).1
  obtain ⟨st, t, heq, -⟩ := headersEnd_eq p
  refine ⟨st, t, .headersEnd { p.c.toRequest with state := st, tLastSent := t }
    (authorize p.w p.c.toRequest p.c.toResponse) (loggedIn p.w
      (authorize p.w p.c.toRequest p.c.toResponse).session p.c.ipRemote),
    heq.trans ?_, hresult, hpath⟩
  generalize authorize p.w p.c.toRequest p.c.toResponse = r at hresult hauthorized hkept ⊢
  unfold cgiHeadersReceived
  dsimp only
  rw [if_pos ⟨by rw [hcgi]; rfl, by rw [hkept]; exact hoptions, by rw [hauthorized]; decide⟩]
  -- the verdict has left the result already
  have hsame : { r with result := r.authorized } = r := by
    cases r
    cases hresult
    cases hauthorized
    rfl
  exact congrArg (fun x => (⟨p.w, { p.c with
    toRequest := { p.c.toRequest with state := st, tLastSent := t }
    toResponse := x
    log := p.c.log ++ [.headersEnd { p.c.toRequest with state := st, tLastSent := t } r
      (loggedIn p.w r.session p.c.ipRemote)] }, p.net⟩ : Sys)) hsame

/-- The end of the header section of any other request. -/
theorem headersEnd_admitted (hchosen : Chosen p.c)
    (h : denied p.w p.c.ipRemote
      (HeaderData.ofParts p.c.toRequest p.c.toResponse lines).toHeaderFields = false) :
    NoDenial p (headersEnd p) := by
  obtain ⟨st, t, heq, -⟩ := headersEnd_eq p
  rw [heq]
  refine LogsNo.trans ?_ (Routine.noDenial (.call (.cgiHeadersReceived _)))
  refine ⟨[_], rfl, fun a ha => ?_⟩
  rw [List.mem_singleton.mp ha]
  exact (headersEnd_denies hchosen _ rfl).trans h

end Verdict

/-! ## Behind the header section -/

/-- The header section of the request is over. -/
def Behind (c : RequestContext) : Prop := c.state ≠ .idle ∧ c.state ≠ .headerReceiving

theorem not_behind {c : RequestContext} (h : ¬Behind c) :
    c.state = .idle ∨ c.state = .headerReceiving := by
  by_contra hnot
  exact h (not_or.mp hnot)

theorem headersEnd_behind (s : Sys) : Behind (headersEnd s).c := by
  rcases headersEnd_state s with h | h | h
  · rw [Behind, h]
    decide
  · rw [Behind, h]
    decide
  · rw [Behind, h]
    decide

theorem roundEnd_behind {s : Sys} (consumed : Int) (h : Behind s.c) :
    NoDenial s (roundEnd s consumed).1 ∧ Behind (roundEnd s consumed).1.c := by
  unfold roundEnd
  split
  · have hcall := CallFrame.completeRequest s
    refine ⟨Routine.noDenial (.call hcall), ?_⟩
    have hst : (completeRequest s).c.state = s.c.state := congrArg Request.state hcall.request
    show Behind (completeRequest s).c
    rw [Behind, hst]
    exact h
  · split
    · exact ⟨.refl s, h⟩
    · exact ⟨.refl s, h⟩

theorem takeContent_behind {s : Sys} (consumed : Int) (h : Behind s.c) :
    NoDenial s (takeContent s consumed) ∧ Behind (takeContent s consumed).c := by
  constructor
  · obtain ⟨_, _, _, heq, -⟩ := takeContent_frame s consumed
    refine ⟨[.consumed (s.c.httpRequestBuffer.take consumed.toNat)], by rw [heq], fun a ha => ?_⟩
    rw [List.mem_singleton.mp ha]
    rfl
  · rcases (takeContent_state s consumed).2 with hst | hst | ⟨-, hst⟩
    · rw [Behind, hst]
      exact h
    · rw [Behind, hst]
      decide
    · rw [Behind, hst]
      decide

/-- The content part of a round. -/
theorem contentPart_behind {s : Sys} (size : Int) (h : Behind s.c) :
    NoDenial s (contentPart s size).1 ∧ Behind (contentPart s size).1.c := by
  unfold contentPart
  split
  · have hcalled : NoDenial s (cgiContentReceived s s.c.httpRequestBuffer size).1 ∧
        Behind (cgiContentReceived s s.c.httpRequestBuffer size).1.c := by
      rcases cgiContentReceived_cases s s.c.httpRequestBuffer size with heq | ⟨cgi, f, -, -, heq⟩
      · rw [heq]
        exact ⟨.refl s, h⟩
      · rw [heq]
        exact ⟨((LogsNo.note s rfl).trans (LogsNo.note _ rfl)).trans (.quiet rfl), h⟩
    dsimp only
    generalize cgiContentReceived s s.c.httpRequestBuffer size = taken at hcalled ⊢
    split
    · exact hcalled
    · split
      · exact hcalled
      · obtain ⟨htook, hbehind⟩ := takeContent_behind taken.2 hcalled.2
        obtain ⟨hend, hbehind'⟩ := roundEnd_behind taken.2 hbehind
        exact ⟨(hcalled.1.trans htook).trans hend, hbehind'⟩
  · exact roundEnd_behind 0 h

/-- A chunk-size line and the content behind it. -/
theorem content_behind {s : Sys} (size : Int) (h : Behind s.c) :
    NoDenial s (contentPart (contentBegin s size) size).1 ∧
      Behind (contentPart (contentBegin s size) size).1.c := by
  have hbegin : NoDenial s (contentBegin s size) ∧ Behind (contentBegin s size).c := by
    unfold contentBegin
    split
    · refine ⟨(Routine.chunkLength s size).noDenial, ?_⟩
      rcases chunkLength_state s size with hsame | hst
      · rw [hsame]
        exact h
      · rw [Behind, hst]
        decide
    · exact ⟨.refl s, h⟩
  obtain ⟨hpart, hbehind⟩ := contentPart_behind size hbegin.2
  exact ⟨hbegin.1.trans hpart, hbehind⟩

/-! ## A round -/

/-- What is known of the data that waits in front of a round. -/
inductive Foreseen (s : Sys) : Prop where
  | behind (h : Behind s.c)
  | nothing (hqueue : s.c.reqBufList = []) (hlen : s.c.requestLength ≤ 0)
  | scanning (k : Nat) (lines : List Bytes) (σ : HeaderScan) (hbounds : InBounds s.c)
      (hholds : Holds s.c lines σ.data σ.exact) (hpending : σ.verdict = .pending)
      (hfuel : s.c.waiting.length < k)
      (hfits : ∀ e ∈ headerEnd k σ s.c.waiting,
        Redirectable s.w s.c.ipRemote s.net e.1.data.toHeaderFields)

/-- How a round, and the loop, end: nobody was turned away, or one request was, and its response is
next. -/
inductive Judged (s : Sys) : Sys × Next → Prop where
  | clear {r : Sys × Next} (h : NoDenial s r.1) (hagain : r.2 = .again → Foreseen r.1) : Judged s r
  | denied {t : Sys} {l : List Act} {a : Act} (hlog : t.c.log = s.c.log ++ l ++ [a])
      (hl : ∀ b ∈ l, b.denies = false)
      (hbefore : ∀ b ∈ current (s.c.log ++ l), b.serves = false ∧ b.isWrite = false)
      (h : Redirecting t) : Judged s (t, .stop)

/-- A round that stops with nobody turned away. -/
theorem Judged.stop {s t : Sys} (h : NoDenial s t) : Judged s (t, .stop) :=
  .clear h fun hagain => Next.noConfusion hagain

/-- What came before turned nobody away. -/
theorem Judged.before {s t : Sys} {r : Sys × Next} (h : Judged t r) (hquiet : NoDenial s t) :
    Judged s r := by
  cases h with
  | clear h hagain => exact .clear (hquiet.trans h) hagain
  | @denied u l a hlog hl hbefore h =>
    obtain ⟨m, hm, hquiet⟩ := hquiet
    rw [hm, List.append_assoc] at hbefore
    refine .denied (l := m ++ l) (a := a) (by rw [hlog, hm, List.append_assoc s.c.log]) ?_ hbefore h
    intro b hb
    rcases List.mem_append.mp hb with hb | hb
    · exact hquiet b hb
    · exact hl b hb

/-- A round that the result ends. -/
theorem processBuffer_bad {s t : Sys} {justNow : Bool} {size : Int} (hlen : s.c.requestLength ≠ 0)
    (hhead : headerPart s = (t, justNow, size)) (hbad : t.c.result < 0) :
    processBuffer s = (t, .stop) := by
  unfold processBuffer
  rw [if_neg hlen, hhead]
  exact if_pos hbad

/-- A round behind the header section. -/
theorem behind_round {s : Sys} (h : Behind s.c) : Judged s (processBuffer s) := by
  by_cases hlen : s.c.requestLength = 0
  · unfold processBuffer
    rw [if_pos hlen]
    exact .stop (.refl s)
  have hhead := headerPart_behind h
  by_cases hbad : s.c.result < 0
  · rw [processBuffer_bad hlen hhead hbad]
    exact .stop (.refl s)
  · have hgood : 0 ≤ s.c.result := by omega
    rw [((round_begins (u := s) hlen hhead hgood h rfl).2 hgood).2]
    obtain ⟨hquiet, hbehind⟩ := content_behind s.c.requestLength h
    exact .clear hquiet fun _ => .behind hbehind

/-- A round that finds one byte at most. -/
theorem short_round {s : Sys} (hst : s.c.state = .idle ∨ s.c.state = .headerReceiving)
    (hqueue : s.c.reqBufList = []) (hlen : s.c.requestLength ≤ 1) : Judged s (processBuffer s) := by
  have hmax : maxReqBufSize = 128 := rfl
  by_cases hlen0 : s.c.requestLength = 0
  · unfold processBuffer
    rw [if_pos hlen0]
    exact .stop (.refl s)
  -- there is no line to parse
  have hhead : ∃ t, headerPart s = (t, false, s.c.requestLength) ∧ NoDenial s t ∧
      (t.c.state = .idle ∨ t.c.state = .headerReceiving) ∧ t.c.reqBufList = [] ∧
      t.c.requestLength = s.c.requestLength := by
    have hshort : ∀ st : HttpState, ¬(st = .headerReceiving ∧ 2 ≤ s.c.requestLength) :=
      fun _ h => by omega
    unfold headerPart
    dsimp only
    rw [if_neg (hshort _)]
    split
    · exact ⟨_, rfl, .quiet rfl, .inr rfl, hqueue, rfl⟩
    · exact ⟨_, rfl, .refl s, hst, hqueue, rfl⟩
  obtain ⟨t, hhead, hquiet, hst', hqueue', hlen'⟩ := hhead
  by_cases hbad : t.c.result < 0
  · rw [processBuffer_bad hlen0 hhead hbad]
    exact .stop hquiet
  · have hround : processBuffer s = (t, .stop) := by
      unfold processBuffer
      rw [if_neg hlen0, hhead]
      dsimp only
      rw [if_neg hbad, if_neg fun h => by omega, if_pos hst', if_pos hqueue']
    rw [hround]
    exact .stop hquiet

/-- A round that finds header lines. -/
theorem scanned_round {s : Sys} {k : Nat} {lines : List Bytes} {σ : HeaderScan}
    (hreach : SlotReach s.c) (hst : s.c.state = .idle ∨ s.c.state = .headerReceiving)
    (hshape : RxShape s.c) (hholds : Holds s.c lines σ.data σ.exact)
    (hpending : σ.verdict = .pending) (hfuel : s.c.waiting.length < k)
    (hfits : ∀ e ∈ headerEnd k σ s.c.waiting,
      Redirectable s.w s.c.ipRemote s.net e.1.data.toHeaderFields)
    (hfull : s.c.reqBufList = [] ∨ s.c.requestLength = maxReqBufSize) :
    Judged s (processBuffer s) := by
  have hmax : maxReqBufSize = 128 := rfl
  by_cases hlen : s.c.requestLength ≤ 1
  · exact short_round hst (hfull.resolve_right (by omega)) hlen
  have hlen0 : s.c.requestLength ≠ 0 := by omega
  obtain ⟨p, justNow, hhead, hw, hip, hkept, hreach', hread⟩ :=
    header_lines hreach hst hshape hholds hpending hfuel (by omega) hfull
  have hquiet : NoDenial s p := by
    have h := (Routine.headerPart s).noDenial
    rwa [hhead] at h
  by_cases hbad : p.c.result < 0
  · rw [processBuffer_bad hlen0 hhead hbad]
    exact .stop hquiet
  have hgood : 0 ≤ p.c.result := by omega
  cases hread with
  | refused hrefused _ => omega
  | more lines' τ hpshape hsaid hmore hpst hshort hnext =>
    rw [(round_more hlen0 hhead hbad hpst hshort).2]
    refine .clear hquiet fun hagain => ?_
    have hqueue : p.c.reqBufList ≠ [] := fun h => by
      rw [if_pos h] at hagain
      cases hagain
    obtain ⟨n, hn, hend⟩ := hnext hqueue
    refine .scanning n lines' τ ⟨hpshape.nonneg, hpshape.atMost⟩ hsaid hmore hn fun e he => ?_
    show Redirectable p.w p.c.ipRemote p.net _
    rw [hw, hip, hkept.net]
    exact hfits e (hend.trans he)
  | complete lines' τ hpshape hfields hpst hend =>
    have hredirect := hfits _ hend
    have hchosen := hreach'.gated.chosen (by rw [hpst]; rfl)
    -- the verdict falls in this round, and the answers of the network are those of the call
    obtain ⟨hstop, hcontent⟩ :=
      round_begins (u := headersEnd p) hlen0 hhead hgood (by rw [hpst]; decide) rfl
    cases hdenied : denied p.w p.c.ipRemote
      (HeaderData.ofParts p.c.toRequest p.c.toResponse lines').toHeaderFields with
    | true =>
      obtain ⟨st, t, a, heq, hresult, hpath⟩ := headersEnd_denied hchosen hdenied
      rw [← hw, ← hip, ← hkept.net, ← hfields] at hredirect
      obtain ⟨hcgi, htakes⟩ := hredirect hdenied
      obtain ⟨l, hlog, hl⟩ := hquiet
      rw [(hstop (by rw [heq]; exact hresult ▸ by decide)).2, heq]
      refine .denied (l := l) (a := a) (by rw [← hlog]; rfl) hl ?_ ?_
      · rw [← hlog]
        exact hreach'.unanswered (by rw [hpst]; rfl)
      · have hlive : p.c.pcb.isSome = true := by
          refine Option.isSome_iff_ne_none.mpr fun hnone => ?_
          have hidle := (hreach'.shape.free hnone).state
          rw [hpst] at hidle
          cases hidle
        rw [length_redirectText] at htakes
        exact {
          state := rfl
          result := hresult
          path := hpath
          handler := hcgi
          sending := hreach'.sendInv.early (.inl (by rw [hpst]; rfl))
          empty := (authorize_bytesLeft ..).trans (hreach'.framing.empty hpst)
          live := hlive
          memory := (congrArg List.length (authorize_kept ..).2.2.2).trans hreach'.shape.mem
          takes := htakes }
    | false =>
      have hnone := hquiet.trans (headersEnd_admitted hchosen hdenied)
      by_cases hfatal : (headersEnd p).c.result < 0
      · rw [(hstop hfatal).2]
        exact .stop (hnone.trans (.quiet rfl))
      · rw [(hcontent (by omega)).2]
        obtain ⟨hlater, hbehind⟩ := content_behind p.c.requestLength (headersEnd_behind p)
        exact .clear (hnone.trans hlater) fun _ => .behind hbehind

/-! ## The loop and the call -/

/-- A round begins with the dequeue block. -/
theorem Foreseen.round {s : Sys} (h : Foreseen s) (hreach : SlotReach s.c)
    (hrec : s.c.state.receiving = true) : Judged s (iteration s) := by
  have hmax : maxReqBufSize = 128 := rfl
  have hreach' : SlotReach s.c.dequeue := hreach.micro (.dequeue s hrec)
  have hreq : s.c.dequeue.toRequest = s.c.toRequest := (RxFrame.dequeue s.c).request
  have hquiet : NoDenial s { s with c := s.c.dequeue } := Routine.noDenial (.rx (.dequeue s.c))
  refine Judged.before ?_ hquiet
  by_cases hbehind : Behind s.c
  · refine behind_round ?_
    show s.c.dequeue.state ≠ _ ∧ s.c.dequeue.state ≠ _
    rw [hreq]
    exact hbehind
  have hst := not_behind hbehind
  have hst' : s.c.dequeue.state = .idle ∨ s.c.dequeue.state = .headerReceiving := by
    rw [hreq]
    exact hst
  have hempty : s.c.reqBufList = [] → s.c.requestLength ≤ 1 →
      Judged { s with c := s.c.dequeue } (processBuffer { s with c := s.c.dequeue }) := by
    intro hqueue hlen
    have hsame : s.c.dequeue = s.c := by
      rw [RequestContext.dequeue, if_pos hqueue]
    rw [hsame]
    exact short_round hst hqueue hlen
  cases h with
  | behind h => exact absurd h hbehind
  | nothing hqueue hlen => exact hempty hqueue (by omega)
  | scanning k lines σ hbounds hholds hpending hfuel hfits =>
    by_cases hlive : s.c.pcb.isSome = true
    · obtain ⟨hinv, hdone⟩ := queueInv_dequeue hreach.queueInv
      obtain ⟨hshape, hwaiting, ⟨-, hresp, -⟩, -⟩ :=
        (rxShape_of hreach hlive hbounds).dequeue hreach.queueInv.small
      have hlevel := hreach.queueInv.level hlive
      have hatMost := hshape.atMost
      refine scanned_round (k := k) hreach' hst' hshape (hholds.of_same ?_) hpending ?_ ?_ ?_
      · show HeaderData.ofParts s.c.dequeue.toRequest s.c.dequeue.toResponse lines = _
        rw [hreq, hresp]
      · show s.c.dequeue.waiting.length < k
        rw [hwaiting]
        exact hfuel
      · show ∀ e ∈ headerEnd k σ s.c.dequeue.waiting,
          Redirectable s.w s.c.dequeue.ipRemote s.net e.1.data.toHeaderFields
        rw [hwaiting, hreq]
        exact hfits
      · show s.c.dequeue.reqBufList = [] ∨ s.c.dequeue.requestLength = _
        rcases hdone with hqueue | hfull
        · exact .inl hqueue
        · right
          omega
    · -- a context without a connection is empty
      have hfree := hreach.shape.free (by simpa using hlive)
      have hlen := hfree.length
      exact hempty hfree.queue (by omega)

/-- The loop turns nobody away, or one request of which the response is next. -/
theorem receiveLoop_judged (fuel : Nat) {s : Sys} (hreach : SlotReach s.c) (h : Foreseen s) :
    Judged s (receiveLoop fuel s) := by
  -- a round that goes on hands `Foreseen` to the next one; one that turns away is the last
  induction fuel generalizing s with
  | zero => exact .stop (.quiet rfl)
  | succ fuel ih =>
    rw [receiveLoop]
    by_cases hrec : s.c.state.receiving = true
    · rw [if_pos hrec]
      have hround := h.round hreach hrec
      have hnext : SlotReach (iteration s).1.c := hreach.micros (iteration_micros hrec)
      generalize iteration s = r at hround hnext ⊢
      cases hround with
      | clear hquiet hagain =>
        obtain ⟨t, next⟩ := r
        cases next with
        | again => exact (ih hnext (hagain rfl)).before hquiet
        | stop => exact .clear hquiet hagain
        | ret => exact .clear hquiet hagain
      | denied hlog hl hbefore h => exact .denied hlog hl hbefore h
    · rw [if_neg hrec]
      exact .stop (.refl s)

/-- Steps that turn nobody away. -/
theorem deniedRedirected_later {s t : Sys} (h : NoDenial s t) (hlog : DeniedRedirected s.c.log) :
    DeniedRedirected t.c.log := by
  obtain ⟨l, hl, hquiet⟩ := h
  rw [hl]
  exact deniedRedirected_append hlog hquiet

/-- What a request that is turned away is sent, the call sends. -/
theorem httpRequestProc_redirected {s : Sys} (caller : Caller) (hreach : SlotReach s.c)
    (h : Foreseen s) (hlog : DeniedRedirected s.c.log) :
    DeniedRedirected (httpRequestProc s caller).c.log := by
  have hloop := receiveLoop_judged (receiveFuel s.c) hreach h
  unfold httpRequestProc
  generalize receiveLoop (receiveFuel s.c) s = r at hloop ⊢
  cases hloop with
  | clear hquiet hagain =>
    obtain ⟨t, next⟩ := r
    have hend : DeniedRedirected (requestFinish t caller).c.log :=
      deniedRedirected_later (hquiet.trans (Routine.requestFinish t caller).noDenial) hlog
    cases next with
    | again => exact hend
    | stop => exact hend
    | ret => exact deniedRedirected_later hquiet hlog
  | @denied t l a hlog' hl hbefore hredirecting =>
    obtain ⟨m, e, hend, hplain, hbytes, he, hdenies⟩ := requestFinish_redirect caller hredirecting
    have hm : ∀ b ∈ m, b.endsRequest = false ∧ b.serves = false ∧ b.denies = false := by
      intro b hb
      simpa [Act.plain, and_assoc] using hplain b hb
    -- the loop is left with the verdict, so the response belongs to the same call
    show DeniedRedirected (requestFinish t caller).c.log
    rw [hend, hlog', List.append_assoc, List.singleton_append]
    refine deniedRedirected_redirected (deniedRedirected_append hlog hl) ?_ fun b hb => ?_
    · refine ⟨m, e, [], t.w.clock, rfl, he, fun b hb => (hm b hb).1, fun b hb => ?_, ?_⟩
      · rcases List.mem_append.mp hb with hb | hb
        · exact (hbefore b hb).1
        · exact (hm b hb).2.1
      · rw [writtenBytes_append, writtenBytes_none fun b hb => (hbefore b hb).2, List.nil_append]
        exact hbytes
    · rcases List.mem_append.mp hb with hb | hb
      · exact (hm b hb).2.2
      · rw [List.mem_singleton.mp hb]
        exact hdenies

/-! ## In front of the call -/

/-- What a verdict looks at in a session. -/
def Session.key (s : Session) : Bytes × Nat := (s.token, s.nLoginIP)

theorem sessionTouch_keys (ss : List Session) (session : Option Nat) {f : Session → Session}
    (hf : ∀ s, (f s).key = s.key) :
    (sessionTouch ss session f).map Session.key = ss.map Session.key := by
  unfold sessionTouch
  split
  · rfl
  · split
    · rename_i s hs
      split
      · rfl
      · obtain ⟨hlt, rfl⟩ := List.getElem?_eq_some_iff.mp hs
        rw [List.map_set, hf, ← List.map_set, List.set_getElem_self]
    · rfl

theorem getSession_keys {ss ss' : List Session} (h : ss'.map Session.key = ss.map Session.key)
    (token : Bytes) : getSession ss' token = getSession ss token := by
  have hkeys : ∀ l : List Session,
      (l.findIdx? fun s => !s.token.isEmpty && (strstr token s.token).isSome) =
        (l.map Session.key).findIdx? fun k => !k.1.isEmpty && (strstr token k.1).isSome := by
    intro l
    rw [List.findIdx?_map]
    rfl
  unfold getSession
  rw [hkeys, hkeys, h]

theorem hasSession_keys {w w' : World}
    (h : w'.sessions.map Session.key = w.sessions.map Session.key) (ipRemote : Nat)
    (f : HeaderFields) : hasSession w' ipRemote f = hasSession w ipRemote f := by
  have haddress : ∀ (l : List Session) (i : Nat), (l.getD i emptySession).nLoginIP =
      ((l.map Session.key).getD i emptySession.key).2 := by
    intro l i
    rw [List.getD_eq_getElem?_getD, List.getD_eq_getElem?_getD, List.getElem?_map]
    cases l[i]? <;> rfl
  unfold hasSession loggedIn
  rw [getSession_keys h]
  cases getSession w.sessions f.token with
  | none => rfl
  | some i =>
    dsimp only
    rw [haddress, haddress, h]

theorem Segment.data_ne_nil (p : Segment) : p.data ≠ [] := by
  obtain ⟨first, others, hcons⟩ := List.exists_cons_of_ne_nil p.nonempty
  have hfirst : 0 < first.len := by
    have hchained := p.chained
    rw [hcons] at hchained
    exact hchained.1
  intro hnone
  have hdata : Pbuf.data p.chain = [] := hnone
  rw [hcons, Pbuf.data_cons, List.append_eq_nil_iff] at hdata
  rw [Pbuf.len, hdata.1] at hfirst
  exact absurd hfirst (lt_irrefl 0)

/-- If a header section ends in the data that waits and its request is turned away, then the
request is an upload, and the network takes the redirect at once. -/
def RedirectFits (s : Sys) (data : Bytes) : Prop :=
  s.c.state = .idle ∨ s.c.state = .headerReceiving → s.c.waiting ++ data ≠ [] →
    InBounds s.c ∧ ∀ e ∈ headerEnd ((s.c.waiting ++ data).length + 1) (scanOf s.c)
      (s.c.waiting ++ data), Redirectable s.w s.c.ipRemote s.net e.1.data.toHeaderFields

instance (c : RequestContext) : Decidable (InBounds c) := inferInstanceAs (Decidable (_ ∧ _))

instance (s : Sys) (data : Bytes) : Decidable (RedirectFits s data) :=
  inferInstanceAs (Decidable (_ ∨ _ → _ → _ ∧ ∀ e ∈ headerEnd _ _ _, Redirectable _ _ _ _))

namespace RedirectFits

/-- Only the header section, the keys of the sessions and the answers of the network count. -/
theorem same {s t : Sys} {data : Bytes} (h : RedirectFits s data)
    (hreq : t.c.state = s.c.state ∧ t.c.ipRemote = s.c.ipRemote ∧ scanOf t.c = scanOf s.c)
    (hbuf : t.c.requestLength = s.c.requestLength ∧ t.c.waiting = s.c.waiting)
    (hkeys : t.w.sessions.map Session.key = s.w.sessions.map Session.key)
    (hclock : t.w.clock = s.w.clock)
    (hnet : t.net.sndbuf = s.net.sndbuf ∧ t.net.write = s.net.write) : RedirectFits t data := by
  obtain ⟨hst, hip, hscan⟩ := hreq
  obtain ⟨hlen, hwaiting⟩ := hbuf
  intro hst' hne
  rw [hst] at hst'
  rw [hwaiting] at hne ⊢
  obtain ⟨hbounds, hfits⟩ := h hst' hne
  rw [InBounds, hlen, hscan, hip]
  refine ⟨hbounds, fun e he hdenied => ?_⟩
  rw [denied, hasSession_keys hkeys] at hdenied
  rw [hclock, hnet.1, hnet.2]
  exact hfits e he hdenied

/-- A segment has arrived. -/
theorem received {s : Sys} {p : Segment} (hreach : SlotReach s.c) (hlive : s.c.pcb.isSome)
    (hsize : (Pbuf.data s.c.reqBufList).length + p.data.length < 65536)
    (h : RedirectFits s p.data) : RedirectFits { s with c := s.c.receivePbuf p.chain } [] := by
  have hreq : (s.c.receivePbuf p.chain).toRequest = s.c.toRequest :=
    (RxFrame.receivePbuf s.c p.chain).request
  intro hst _
  have hst' : s.c.state = .idle ∨ s.c.state = .headerReceiving := by
    rw [← hreq]
    exact hst
  obtain ⟨hbounds, hfits⟩ :=
    h hst' fun hnone => p.data_ne_nil (List.append_eq_nil_iff.mp hnone).2
  obtain ⟨hshape, hwaiting, ⟨-, hresp, -⟩, -⟩ :=
    (rxShape_of hreach hlive hbounds).receivePbuf hsize
  refine ⟨⟨hshape.nonneg, hshape.atMost⟩, ?_⟩
  have hscan : scanOf (s.c.receivePbuf p.chain) = scanOf s.c := by
    rw [scanOf, hreq, hresp]
    rfl
  show ∀ e ∈ headerEnd (((s.c.receivePbuf p.chain).waiting ++ []).length + 1)
    (scanOf (s.c.receivePbuf p.chain)) ((s.c.receivePbuf p.chain).waiting ++ []),
      Redirectable s.w (s.c.receivePbuf p.chain).ipRemote s.net e.1.data.toHeaderFields
  rw [List.append_nil, hwaiting, hscan, hreq]
  exact hfits

/-- The first round knows the windows of the header section. -/
theorem foreseen {s : Sys} (hreach : SlotReach s.c) (h : RedirectFits s []) : Foreseen s := by
  by_cases hbehind : Behind s.c
  · exact .behind hbehind
  have hst := not_behind hbehind
  by_cases hnone : s.c.waiting = []
  · -- nothing waits: the count of the buffer may even be negative
    obtain ⟨hbuffered, hqueued⟩ := List.append_eq_nil_iff.mp hnone
    refine .nothing ?_ ?_
    · by_contra hqueue
      obtain ⟨h0, hlt⟩ := hreach.queueInv.offset_lt hqueue
      have hle : (Pbuf.data s.c.reqBufList).length ≤ s.c.bufOffset.toNat :=
        List.drop_eq_nil_iff.mp hqueued
      rw [Pbuf.chainTotLen_eq hreach.queueInv.chained] at hlt
      omega
    · rcases List.take_eq_nil_iff.mp hbuffered with hlen | hbuf
      · omega
      · have hlength := hreach.shape.buffer
        rw [hbuf] at hlength
        cases hlength
  · obtain ⟨hbounds, hfits⟩ := h hst (by rwa [List.append_nil])
    rw [List.append_nil] at hfits
    exact .scanning _ [] (scanOf s.c) hbounds (holds_scanOf s.c) rfl (Nat.lt_succ_self _) hfits

end RedirectFits

/-! ## Events -/

/-- `HttpRequestProc` is called for the event. -/
def ConnEvent.attends (s : Sys) : ConnEvent → Bool
  | .receive none => decide (s.c.state ≠ .idle)
  | .receive (some _) => true
  | .poll => !isContextTimeout s
  | .sent _ => true
  | _ => false

/-- One event of a connection. -/
theorem connStep_redirected {s : Sys} {f : ConnEvent} (hreach : SlotReach s.c) (hlegal : f.Legal s)
    (hfits : f.attends s = true → RedirectFits s f.data) (hlog : DeniedRedirected s.c.log) :
    DeniedRedirected (connStep s f).c.log := by
  have hclose : ∀ t : Sys, DeniedRedirected t.c.log →
      DeniedRedirected (closeHttpContext t).c.log := fun t h =>
    deniedRedirected_later (Routine.noDenial (.freed (closeHttpContext_frame t))) h
  have hfatal : ∀ t : Sys, DeniedRedirected t.c.log → DeniedRedirected (closeIfFatal t).c.log := by
    intro t h
    unfold closeIfFatal
    split
    · exact hclose t h
    · exact h
  have hcall : ∀ (t : Sys) (caller : Caller), SlotReach t.c → NoDenial s t → RedirectFits t [] →
      DeniedRedirected (httpRequestProc t caller).c.log := fun t caller ht hquiet h =>
    httpRequestProc_redirected caller ht (h.foreseen ht) (deniedRedirected_later hquiet hlog)
  have hend : ∀ t : Sys, DeniedRedirected t.c.log → DeniedRedirected
      (if t.c.result ≤ -500 then closeHttpContext t else if t.c.checkAlive then t
        else { t with w := { t.w with
          sessions := sessionReceived t.w.sessions t.c.session t.w.tick } }).c.log := by
    intro t h
    split
    · exact hclose t h
    · split
      · exact h
      · exact h
  cases f with
  | accept pcb ipRemote => cases hlegal
  | receive p =>
    cases p with
    | none =>
      show DeniedRedirected (onHttpReceive s none).c.log
      unfold onHttpReceive
      by_cases hidle : s.c.state = .idle
      · rw [if_pos ⟨rfl, hidle⟩]
        exact hclose s hlog
      · rw [if_neg fun h => hidle h.2]
        have hfits' := hfits (decide_eq_true hidle)
        refine hend _ (hcall _ .recv ?_ (.quiet rfl) ?_)
        · exact (hreach.micro (.peerClosed s)).micro (.touch _ _)
        · exact hfits'.same ⟨rfl, rfl, rfl⟩ ⟨rfl, rfl⟩ rfl rfl ⟨rfl, rfl⟩
    | some p =>
      show DeniedRedirected (onHttpReceive s (some p.chain)).c.log
      unfold onHttpReceive
      rw [if_neg fun h => Option.some_ne_none _ h.1]
      have htouched := hreach.micro (.touch s s.now)
      have hfits' : RedirectFits (s.setResponse { s.c.toResponse with tLastReceived := s.now })
          p.data := (hfits rfl).same ⟨rfl, rfl, rfl⟩ ⟨rfl, rfl⟩ rfl rfl ⟨rfl, rfl⟩
      refine hend _ (hcall _ .recv (htouched.micro (.receive _ p hlegal.1 hlegal.2)) ?_
        (hfits'.received htouched hlegal.1 hlegal.2))
      refine LogsNo.trans (LogsNo.quiet rfl) (Routine.noDenial (.rx (s :=
        s.setResponse { s.c.toResponse with tLastReceived := s.now }) (.receivePbuf _ p.chain)))
  | poll =>
    show DeniedRedirected (onHttpPoll s).c.log
    unfold onHttpPoll
    split
    · exact hclose s hlog
    · rename_i hno
      refine hfatal _ (hcall s .poll hreach (.refl s) (hfits ?_))
      show (!isContextTimeout s) = true
      simpa using hno
  | sent len =>
    show DeniedRedirected (onHttpSent s len).c.log
    unfold onHttpSent
    have hfits' := hfits rfl
    have hfirst : ∀ t : Sys, SlotReach t.c → NoDenial s t → RedirectFits t [] →
        DeniedRedirected (closeIfFatal (httpRequestProc
          (t.setRequest { t.c.toRequest with totalSent := t.c.totalSent + len }) .sent)).c.log := by
      intro t ht hquiet h
      refine hfatal _ (hcall _ .sent (ht.micro (.acknowledged t len)) (hquiet.trans (.quiet rfl)) ?_)
      exact h.same ⟨rfl, rfl, rfl⟩ ⟨rfl, rfl⟩ rfl rfl ⟨rfl, rfl⟩
    split
    · exact hfirst s hreach (.refl s) hfits'
    · -- `SessionSent` moves a time stamp, which no verdict looks at
      refine hfirst _ hreach (.quiet rfl) (hfits'.same ⟨rfl, rfl, rfl⟩ ⟨rfl, rfl⟩ ?_ rfl ⟨rfl, rfl⟩)
      exact sessionTouch_keys _ _ fun _ => rfl
  | error =>
    exact deniedRedirected_later (Routine.noDenial (.freed (freeHttpContext_frame s))) hlog

/-! ## Runs -/

namespace Server

/-- `RedirectFits` of the context that the event comes to, if it has `HttpRequestProc` called. -/
def RedirectFits (sv : Server) (a : Answers) (e : Event) : Prop :=
  ∀ c ∈ sv.slots, c.fault = false → c.pcb.isSome → e.pcb = c.pcb → ∀ f ∈ e.conn,
    f.attends (sv.sys a c) = true → Httpd.RedirectFits (sv.sys a c) f.data

instance (sv : Server) (a : Answers) (e : Event) : Decidable (sv.RedirectFits a e) :=
  inferInstanceAs (Decidable (∀ c ∈ sv.slots, c.fault = false → c.pcb.isSome → e.pcb = c.pcb →
    ∀ f ∈ e.conn, f.attends (sv.sys a c) = true → Httpd.RedirectFits (sv.sys a c) f.data))

/-- Every event of the list is such an event when it happens. -/
def RedirectsFit (sv : Server) : List (Answers × Event) → Prop
  | [] => True
  | (a, e) :: es => sv.RedirectFits a e ∧ (sv.step a e).RedirectsFit es

def decidableRedirectsFit (sv : Server) :
    (es : List (Answers × Event)) → Decidable (sv.RedirectsFit es)
  | [] => .isTrue trivial
  | (a, e) :: es =>
    have := decidableRedirectsFit (sv.step a e) es
    inferInstanceAs (Decidable (_ ∧ _))

instance (sv : Server) (es : List (Answers × Event)) : Decidable (sv.RedirectsFit es) :=
  decidableRedirectsFit sv es

/-- One step of the server. -/
theorem redirected_step {sv : Server} {a : Answers} {e : Event} (hreach : sv.Reachable)
    (hlegal : e.Legal sv) (hfit : sv.RedirectFits a e)
    (h : ∀ c ∈ sv.slots, DeniedRedirected c.log) :
    ∀ c ∈ (sv.step a e).slots, DeniedRedirected c.log := by
  intro c hc
  cases step_kind hreach.inv a hlegal with
  | idle hslots _ _ _ _ =>
    rw [hslots] at hc
    exact h c hc
  | @accept i s pcb ip _ _ _ _ hslots _ _ _ =>
    rw [hslots] at hc
    rcases List.mem_or_eq_of_mem_set hc with hold | rfl
    · exact h c hold
    · obtain ⟨_, _, _, heq⟩ := acceptContext_spec s pcb ip
      rw [heq]
      exact deniedRedirected_nil
  | @event i s f hslot hw hslotReach hok hpcb hown hlegal' hslots _ _ _ _ hconn hnet =>
    rw [hslots] at hc
    rcases List.mem_or_eq_of_mem_set hc with hold | rfl
    · exact h c hold
    · have hmem := List.mem_of_getElem? hslot
      have hattends : f.attends (sv.sys a s.c) = f.attends s := by
        obtain ⟨w, c, net⟩ := s
        cases hw
        cases f <;> rfl
      refine connStep_redirected hslotReach hlegal' (fun hcalled => ?_) (h s.c hmem)
      have hfits := hfit s.c hmem hok hpcb hown f hconn (hattends.trans hcalled)
      exact hfits.same ⟨rfl, rfl, rfl⟩ ⟨rfl, rfl⟩ (by rw [hw]; rfl) (by rw [hw]; rfl) hnet

/-- A run of the server. -/
theorem redirected_run {sv : Server} {es : List (Answers × Event)} (hreach : sv.Reachable)
    (hlegal : sv.RunLegal es) (hfit : sv.RedirectsFit es)
    (h : ∀ c ∈ sv.slots, DeniedRedirected c.log) :
    ∀ c ∈ (sv.run es).slots, DeniedRedirected c.log := by
  induction es generalizing sv with
  | nil => exact h
  | cons e es ih =>
    exact ih (hreach.step e.1 e.2 hlegal.1) hlegal.2 hfit.2
      (redirected_step hreach hlegal.1 hfit.1 h)

end Server

/-- **Who is turned away is sent the redirect only.** In every run in which the requests that are
turned away are uploads, and the network takes the redirect of each at once: no callback serves
such a request, and what is written for it is the redirect to the login page. -/
theorem denied_dismissed {w : World} {es : List (Answers × Event)}
    (hlegal : (Server.boot w).RunLegal es) (hfit : (Server.boot w).RedirectsFit es)
    {c : RequestContext} (hc : c ∈ ((Server.boot w).run es).slots) : DeniedDismissed c.log := by
  refine (Server.redirected_run (.boot w) hlegal hfit (fun d hd => ?_) c hc).dismissed
  rw [List.eq_of_mem_replicate hd]
  exact deniedRedirected_nil

/-- An upload and a look at the listing, both without a session. -/
def deniedUpload : List (Answers × Event) :=
  [(openNet, .accept 0x0A000001),
   (openNet, .receive 0 (some (.ofBytes (ascii
     "POST /api/upload.cgi HTTP/1.1\r\nContent-Length: 5\r\n\r\nhello") (by decide))))]

def deniedListing : List (Answers × Event) :=
  [(openNet, .accept 0x0A000001),
   (openNet, .receive 0 (some (.ofBytes (ascii "GET /api/files.cgi HTTP/1.1\r\n\r\n") (by decide))))]

theorem denied_dismissed_upload :
    DeniedDismissed (((Server.boot plainWorld).run deniedUpload).slot 0).log ∧
      (((Server.boot plainWorld).run deniedUpload).slot 0).log.any Act.denies = true := by
  have hrun : (Server.boot plainWorld).RunLegal deniedUpload ∧
      (Server.boot plainWorld).RedirectsFit deniedUpload ∧
      0 < ((Server.boot plainWorld).run deniedUpload).slots.length ∧
      (((Server.boot plainWorld).run deniedUpload).slot 0).log.any Act.denies = true := by
    decide +kernel
  obtain ⟨hlegal, hfit, hin, hdenied⟩ := hrun
  exact ⟨denied_dismissed hlegal hfit (Server.slot_mem hin), hdenied⟩

/-- The listing is read for a client without a session, in the call that has denied it. -/
theorem denied_dismissed_listing :
    ¬ ∀ (w : World) (es : List (Answers × Event)), (Server.boot w).RunLegal es →
      ∀ c ∈ ((Server.boot w).run es).slots, DeniedDismissed c.log := by
  intro h
  have hrun : (Server.boot plainWorld).RunLegal deniedListing ∧
      0 < ((Server.boot plainWorld).run deniedListing).slots.length ∧
      ((((Server.boot plainWorld).run deniedListing).slot 0).log[4]?).any Act.denies = true ∧
      (requestEntries ((((Server.boot plainWorld).run deniedListing).slot 0).log.take 4)
        ((((Server.boot plainWorld).run deniedListing).slot 0).log.drop 5)).any Act.serves =
          true := by
    decide +kernel
  obtain ⟨hlegal, hin, hany, hserved⟩ := hrun
  have hall := h plainWorld deniedListing hlegal _ (Server.slot_mem hin)
  generalize (((Server.boot plainWorld).run deniedListing).slot 0).log = log at hall hany hserved
  obtain ⟨a, ha, hdenies⟩ := (Option.any_eq_true ..).mp hany
  obtain ⟨hlt, rfl⟩ := List.getElem?_eq_some_iff.mp ha
  have hsplit : log = log.take 4 ++ log[4] :: log.drop 5 := by
    rw [← List.drop_eq_getElem_cons hlt, List.take_append_drop]
  obtain ⟨b, hb, hserves⟩ := List.any_eq_true.mp hserved
  rw [(hall _ _ _ hsplit hdenies).unserved b hb] at hserves
  cases hserves

end Httpd
