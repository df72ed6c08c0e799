import LambdaIOT.Httpd.Events
import LambdaIOT.Properties.Globals
import LambdaIOT.Properties.Receive

/-!
# What an event does to the globals

`Micro` lets the globals change in any way between two actions of an event. A `Deed` is an
action together with what it really does to them, its `Effect`: a login creates a session, a
verdict on a header section looks one up, a posted form is saved. Most actions are `Quiet` and do
nothing of all that. `connStep_deeds` says that every event is a sequence of deeds, all of them
inner ones but the first, which may take in a segment.
-/

namespace Httpd

open CMem Lwip Relation

/-! ## The effect of an action -/

/-- The action from `s` to `t` is a login that is accepted: account `a` gets a session. -/
structure LogsIn (s t : Sys) (a : Account) : Prop where
  done : s.c.state = .bodyDone
  handler : s.c.handler = some .auth
  login : isLogin s.c.toRequest = true
  credentials : Credentials s.c.appContext
  answered : t = completeRequest s
  account : a = ⟨s.c.ipRemote, cookieOf s.w.tick⟩

/-- The action from `s` to `t` puts a posted configuration in force. -/
structure Saves (s t : Sys) : Prop where
  done : s.c.state = .bodyDone
  fine : 0 ≤ s.c.result
  handler : s.c.handler = some .form
  post : s.c.requestMethod = .post
  answered : t = completeRequest s

/-- A verdict on a header section for which account `a` is needed: its address, and its token
somewhere in the cookie. -/
def Permits (a : Account) (q : Request × Response) : Prop :=
  q.1.ipRemote = a.address ∧ (strstr q.2.token a.token).isSome

/-- In the action from `s` to `t` the header section of a request ends, and its cookie names the
session in record `j`. -/
structure LooksUp (s t : Sys) (j : Nat) : Prop where
  verdict : ∃ l h r found, t.c.log = s.c.log ++ l ∧ .headersEnd h r found ∈ l ∧
    getSession s.w.sessions r.token = some j

/-- The action from `s` to `t` is a login that takes the vacant record `j` for its account, and
points the context to it. -/
structure OpensSession (s t : Sys) (j : Nat) : Prop where
  login : ∃ a x, LogsIn s t a ∧ t.w.sessions[j]? = some x ∧ a = ⟨x.nLoginIP, x.token⟩
  vacant : Vacant s.w.sessions j
  pointer : t.c.session = some j

/-- What an action may do to the sessions and to the configuration, and what it may log. -/
structure Effect (s t : Sys) : Prop where
  address : t.c.ipRemote = s.c.ipRemote
  tick : t.w.tick = s.w.tick
  received : t.c.tLastReceived = s.c.tLastReceived ∨ t.c.tLastReceived = s.now
  holds : ∀ a, t.w.Holds a → s.w.Holds a ∨ LogsIn s t a
  records : ∀ j, t.w.sessions[j]? = s.w.sessions[j]? ∨ s.c.session = some j ∨ OpensSession s t j
  pointer : ∀ j, t.c.session = some j → s.c.session = some j ∨ LooksUp s t j ∨ OpensSession s t j
  verdict : ∀ h r found, .headersEnd h r found ∈ t.c.log →
    .headersEnd h r found ∈ s.c.log ∨
      h.ipRemote = s.c.ipRemote ∧ (found = true → ∃ a, Permits a (h, r) ∧ s.w.Holds a)
  config : t.w.dev.workConfig = s.w.dev.workConfig ∨ Saves s t

/-- A verdict, or the delivery of a segment. -/
def Act.tells : Act → Bool
  | .headersEnd .. => true
  | .delivered _ => true
  | _ => false

/-- `t` is later than `s`, and nothing of that was logged in between. -/
def Muted (s t : Sys) : Prop := ∃ l, t.c.log = s.c.log ++ l ∧ ∀ a ∈ l, a.tells = false

namespace Muted

theorem quiet {s t : Sys} (h : t.c.log = s.c.log) : Muted s t :=
  ⟨[], by rw [h, List.append_nil], fun _ ha => absurd ha List.not_mem_nil⟩

theorem one {s t : Sys} {a : Act} (h : t.c.log = s.c.log ++ [a]) (ha : a.tells = false) :
    Muted s t :=
  ⟨[a], h, fun b hb => by rwa [List.mem_singleton.mp hb]⟩

theorem trans {s t u : Sys} (h : Muted s t) (h' : Muted t u) : Muted s u := by
  obtain ⟨l, hlog, hl⟩ := h
  obtain ⟨l', hlog', hl'⟩ := h'
  refine ⟨l ++ l', by rw [hlog', hlog, List.append_assoc], fun a ha => ?_⟩
  rcases List.mem_append.mp ha with h | h
  · exact hl a h
  · exact hl' a h

theorem verdict {s t : Sys} (h : Muted s t) {q : Request} {r : Response} {found : Bool}
    (hq : .headersEnd q r found ∈ t.c.log) : .headersEnd q r found ∈ s.c.log := by
  obtain ⟨l, hlog, hl⟩ := h
  rw [hlog] at hq
  rcases List.mem_append.mp hq with hold | hnew
  · exact hold
  · exact absurd (hl _ hnew) (by simp [Act.tells])

theorem delivered {s t : Sys} (h : Muted s t) : deliveredBytes t.c.log = deliveredBytes s.c.log := by
  obtain ⟨l, hlog, hl⟩ := h
  have hnone : deliveredBytes l = [] := by
    refine List.flatMap_eq_nil_iff.mpr fun a ha => ?_
    have htells := hl a ha
    cases a <;> first | rfl | cases htells
  rw [hlog, deliveredBytes_append, hnone, List.append_nil]

end Muted

/-- An action that does nothing of all that. -/
structure Quiet (s t : Sys) : Prop where
  address : t.c.ipRemote = s.c.ipRemote
  aside : Aside s.call t.call
  log : Muted s t

namespace Quiet

theorem same {s t : Sys} (hip : t.c.ipRemote = s.c.ipRemote) (hcall : Aside s.call t.call)
    (hlog : t.c.log = s.c.log) : Quiet s t :=
  ⟨hip, hcall, .quiet hlog⟩

theorem refl (s : Sys) : Quiet s s := same rfl (.refl _) rfl

theorem trans {s t u : Sys} (h : Quiet s t) (h' : Quiet t u) : Quiet s u where
  address := h'.address.trans h.address
  aside := h.aside.trans h'.aside
  log := h.log.trans h'.log

theorem effect {s t : Sys} (h : Quiet s t) : Effect s t where
  address := h.address
  tick := h.aside.tick
  received := h.aside.received
  holds := fun _ ha => .inl (holds_of_sessions h.aside.sessions ha)
  records := fun j => .inl (congrArg (·[j]?) h.aside.sessions)
  pointer := fun _ hj => .inl (h.aside.session.symm.trans hj)
  verdict := fun _ _ _ hq => .inl (h.log.verdict hq)
  config := .inl h.aside.config

/-- Behind a state of the same tick the time of the last reception is the old one, or now. -/
theorem received {s u t : Sys} (h : Quiet u t) (htick : u.w.tick = s.w.tick)
    (hu : u.c.tLastReceived = s.c.tLastReceived ∨ u.c.tLastReceived = s.now) :
    t.c.tLastReceived = s.c.tLastReceived ∨ t.c.tLastReceived = s.now := by
  rcases h.aside.received with hsame | hnow
  · exact hu.imp hsame.trans hsame.trans
  · refine .inr (hnow.trans ?_)
    show tickOrOne u.w.tick = tickOrOne s.w.tick
    rw [htick]

theorem setRequest (s : Sys) (h : Request) (hip : h.ipRemote = s.c.ipRemote) :
    Quiet s (s.setRequest h) := same hip (.refl _) rfl

/-- The callbacks' part of the context is set, but for its session; the time may be taken. -/
theorem setResponse (s : Sys) (r : Response) (hsession : r.session = s.c.session)
    (hreceived : r.tLastReceived = s.c.tLastReceived ∨ r.tLastReceived = s.now) :
    Quiet s (s.setResponse r) :=
  same rfl ⟨rfl, rfl, rfl, hsession, hreceived⟩ rfl

theorem note (s : Sys) {a : Act} (ha : a.tells = false) : Quiet s (s.note a) :=
  ⟨rfl, .refl _, .one rfl ha⟩

theorem ofCall (s : Sys) {k : Call} (hk : Aside s.call k) : Quiet s (s.ofCall k) :=
  same rfl hk rfl

theorem dequeue (s : Sys) : Quiet s { s with c := s.c.dequeue } := by
  obtain ⟨acks, hlog⟩ := dequeue_log s.c
  obtain ⟨_, _, _, _, _, _, heq, -⟩ := RxFrame.dequeue s.c
  refine ⟨?_, ?_, acks.map Act.recved, hlog, fun a ha => ?_⟩
  · show s.c.dequeue.ipRemote = s.c.ipRemote
    rw [heq]
  · show Aside s.call ⟨s.w, s.c.dequeue.toResponse⟩
    rw [heq]
    exact ⟨rfl, rfl, rfl, rfl, .inl rfl⟩
  · obtain ⟨n, -, rfl⟩ := List.mem_map.mp ha
    rfl

theorem send {s t : Sys} (h : SendFrame s t) : Quiet s t := by
  obtain ⟨_, _, _, _, log, _, rfl, _, _, hl⟩ := h
  refine ⟨rfl, ⟨rfl, rfl, rfl, rfl, .inl rfl⟩, log, rfl, fun a ha => ?_⟩
  have hwrite := hl a ha
  cases a <;> first | rfl | cases hwrite

/-- Callbacks that leave the sessions and the configuration alone. -/
theorem invoke (s : Sys) (cb : Callback) {f : Cgi → Option (Call → Call)}
    (hf : ∀ cgi g, f cgi = some g → Aside s.call (g s.call)) : Quiet s (s.invoke cb f) := by
  unfold Sys.invoke
  split
  · exact refl s
  · split
    · exact refl s
    · rename_i g hg
      exact (note s rfl).trans (ofCall _ (hf _ g hg))

theorem setResult (s : Sys) (code : Int) : Quiet s (s.setResult code) :=
  setResponse s _ rfl (.inl rfl)

theorem setState (s : Sys) (st : HttpState) : Quiet s (s.setState st) := setRequest s _ rfl

theorem closeFileHandle (s : Sys) : Quiet s (closeFileHandle s) := by
  unfold Httpd.closeFileHandle
  split
  · exact same rfl (.files _ rfl rfl rfl) rfl
  · exact setResponse s _ rfl (.inl rfl)

theorem resetHttpContext (s : Sys) : Quiet s (resetHttpContext s) := by
  have hclose := closeFileHandle s
  unfold Httpd.resetHttpContext
  -- a reset takes the time, at which the next request is waited for
  exact hclose.trans (same rfl ⟨rfl, rfl, rfl, rfl, .inr rfl⟩ rfl)

theorem freeHttpContext (s : Sys) : Quiet s (freeHttpContext s) := by
  have hfinish : Quiet s (cgiFinish s) :=
    invoke s .onFinished fun cgi g hg => closing_aside (.inr hg) s.call
  have hclose := hfinish.trans (closeFileHandle _)
  unfold Httpd.freeHttpContext
  exact hclose.trans ⟨rfl, ⟨rfl, rfl, rfl, rfl, .inl rfl⟩, .one rfl rfl⟩

theorem closeHttpContext (s : Sys) : Quiet s (closeHttpContext s) := by
  have hdetach : Quiet s (detachPcb s) := by
    unfold detachPcb
    split
    · exact refl s
    · dsimp only
      split
      · exact same rfl (.refl _) rfl
      · exact same rfl (.refl _) rfl
  exact hdetach.trans (freeHttpContext _)

theorem parseHeader (s : Sys) (size : Int) : Quiet s (parseHeader s size).1 := by
  have hparsed := parseHeader_parseAside s size
  refine ⟨hparsed.address, ?_, ?_⟩
  · have hw := hparsed.globals
    exact ⟨congrArg World.tick hw, congrArg World.sessions hw,
      congrArg (fun w => w.dev.workConfig) hw, hparsed.session, .inl hparsed.received⟩
  · obtain ⟨_, _, _, _, _, log, heq, -, hl⟩ := ParseFrame.parseHeader s size
    refine ⟨log, by rw [heq], fun a ha => ?_⟩
    have hparse := hl a ha
    cases a <;> first | rfl | cases hparse

end Quiet

/-! ## Quiet actions -/

theorem quiet_takeContent (s : Sys) (consumed : Int) : Quiet s (takeContent s consumed) := by
  have hip : (takeContent s consumed).c.ipRemote = s.c.ipRemote := by
    unfold takeContent
    dsimp only
    split
    · unfold contentDone
      split
      · dsimp only
        split <;> rfl
      · rfl
    · rfl
  obtain ⟨_, _, _, heq, -⟩ := takeContent_frame s consumed
  rw [heq] at hip ⊢
  exact ⟨hip, .refl _, .one rfl rfl⟩

theorem quiet_offerContent (s : Sys) (size : Int) : Quiet s (offerContent s size) := by
  have hcall : Quiet s (cgiContentReceived s s.c.httpRequestBuffer size).1 := by
    rcases cgiContentReceived_cases s s.c.httpRequestBuffer size with h | ⟨cgi, f, -, hf, h⟩
    · rw [h]
      exact .refl s
    · rw [h]
      exact ((Quiet.note s rfl).trans (.note _ rfl)).trans
        (.ofCall _ (onContentReceived_aside hf s.c.toRequest s.call _ _))
  unfold offerContent
  dsimp only
  split
  · exact hcall
  · exact hcall.trans (quiet_takeContent ..)

theorem quiet_chunkLength (s : Sys) (size : Int) : Quiet s (chunkLength s size) := by
  unfold chunkLength
  split
  · exact .refl s
  · dsimp only
    refine (Quiet.note s (a := .chunkLine s.c.toRequest) rfl).trans ?_
    exact ⟨rfl, .refl _, .one rfl rfl⟩

theorem quiet_sendFailed (s : Sys) : Quiet s (sendFailed s) :=
  (Quiet.setState s .requestEnd).trans (.setResult ..)

theorem quiet_sendRemaining (s : Sys) : Quiet s (sendRemaining s) := by
  unfold sendRemaining
  dsimp only
  have hsent := Quiet.send (SendFrame.sendBuffered s)
  split
  · exact hsent
  · exact hsent.trans (quiet_sendFailed _)

theorem quiet_cgiSetResponseHeaders (s : Sys) (codeInfo : Bytes) :
    Quiet s (cgiSetResponseHeaders s codeInfo) := by
  unfold cgiSetResponseHeaders
  dsimp only
  generalize hu : s.setResponse _ = u
  have hbegin : Quiet s u := by
    rw [← hu]
    have hframe := headersBegin_frame { s.c.toResponse with peak := 0 }
    exact .setResponse s _ hframe.session (.inl hframe.tLastReceived)
  have hcall : Quiet u (u.invoke .setResponseHeaders fun cgi =>
      cgi.setResponseHeaders.map fun f c => f u.c.toRequest c codeInfo) := by
    refine .invoke u .setResponseHeaders fun cgi g hg => ?_
    obtain ⟨f, hf, rfl⟩ := Option.map_eq_some_iff.mp hg
    exact setResponseHeaders_aside hf u.c.toRequest u.call codeInfo
  generalize Sys.invoke _ _ _ = v at hcall ⊢
  have hfinish : Quiet v (v.setResponse (headersFinish v.w v.c.toResponse codeInfo)) := by
    obtain ⟨left, hframe⟩ := headersFinish_frame v.w v.c.toResponse codeInfo
    exact .setResponse v _ hframe.session (.inl hframe.tLastReceived)
  exact ((hbegin.trans hcall).trans hfinish).trans (.note _ rfl)

theorem quiet_startResponse (s : Sys) : Quiet s (startResponse s) := by
  have hheaders : Quiet s (cgiSetResponseHeaders (beginResponse s) (codeInfoOf s.c.result)) := by
    refine Quiet.trans ?_ (quiet_cgiSetResponseHeaders ..)
    exact .same rfl ⟨rfl, rfl, rfl, rfl, .inl rfl⟩ rfl
  unfold startResponse
  dsimp only
  generalize cgiSetResponseHeaders _ _ = u at hheaders ⊢
  have hsent := hheaders.trans (.send (.sendBuffered u))
  generalize sendBuffered u = v at hsent ⊢
  split
  · have hgone := hsent.trans (.setRequest v.1 { v.1.c.toRequest with sending := true } rfl)
    split
    · exact hgone.trans (.setState ..)
    · exact hgone.trans (.setState ..)
  · exact hsent.trans (quiet_sendFailed _)

/-- Storing what was read writes to the send buffer. -/
theorem storeContent_kept (r : Response) (pReadTo : Int) (first : Bool) (k : Content) :
    (storeChunk r pReadTo first k).session = r.session ∧
      (storeChunk r pReadTo first k).tLastReceived = r.tLastReceived ∧
      (storePlain r pReadTo k).session = r.session ∧
      (storePlain r pReadTo k).tLastReceived = r.tLastReceived := by
  have hwrap : ∀ (q : Response) (n : Nat), (wrapChunk q pReadTo first n).session = q.session ∧
      (wrapChunk q pReadTo first n).tLastReceived = q.tLastReceived := by
    intro q n
    simp [wrapChunk, Response.putSend]
  have hchunk : (storeChunk r pReadTo first k).session = r.session ∧
      (storeChunk r pReadTo first k).tLastReceived = r.tLastReceived := by
    unfold storeChunk
    dsimp only
    split
    · exact hwrap (r.putSend (pReadTo + 10) k.out) k.size.toNat
    · simp [Response.putSend]
  have hplain : (storePlain r pReadTo k).session = r.session ∧
      (storePlain r pReadTo k).tLastReceived = r.tLastReceived := by
    unfold storePlain
    dsimp only
    split <;> simp [Response.putSend]
  exact ⟨hchunk.1, hchunk.2, hplain⟩

theorem quiet_readToSend {cgi : Cgi} {f : Request → Call → Int → Content}
    (hf : cgi.readContent = some f) (s : Sys) : Quiet s (readToSend f s).1 := by
  have hread := readContent_aside hf s.c.toRequest s.call (freeSize s.c.toRequest s.c.toResponse)
  unfold readToSend
  dsimp only
  generalize f s.c.toRequest s.call _ = k at hread ⊢
  refine .ofCall s (hread.trans ?_)
  generalize hr : (if s.c.options.chunkEnabled then _ else _ : Response) = r
  have hkept : r.session = k.call.r.session ∧ r.tLastReceived = k.call.r.tLastReceived := by
    rw [← hr]
    obtain ⟨h1, h2, h3, h4⟩ := storeContent_kept k.call.r s.c.bytesLeft
      (s.c.dwOperStage = 0 ∧ s.c.dwOperIndex = 0) k
    split
    · exact ⟨h1, h2⟩
    · exact ⟨h3, h4⟩
  exact ⟨rfl, rfl, rfl, hkept.1, .inl hkept.2⟩

theorem quiet_loadContent (s : Sys) (caller : Caller) : Quiet s (loadContent s caller).1 := by
  unfold loadContent
  split
  · show Quiet s (cgiAllSent s)
    unfold cgiAllSent
    split
    · exact .setResponse s _ rfl (.inl rfl)
    · exact .invoke s .onAllSent fun cgi g hg => closing_aside (.inl hg) s.call
  · split
    · exact .refl s
    · rename_i cgi _
      split
      · exact .refl s
      · rename_i f hf
        split
        · exact .refl s
        · exact (Quiet.note s (a := .callback cgi .readContent) rfl).trans (quiet_readToSend hf _)

theorem quiet_sendBody (s : Sys) (caller : Caller) : Quiet s (sendBody s caller) := by
  have hload : Quiet s (cgiLoadContentToSend s caller).1 := by
    have hbegin := Quiet.setResponse s { s.c.toResponse with peak := 0 } rfl (.inl rfl)
    have hload := hbegin.trans (quiet_loadContent _ caller)
    unfold cgiLoadContentToSend
    dsimp only
    generalize loadContent _ caller = k at hload ⊢
    exact hload.trans (.note k.1 rfl)
  unfold sendBody
  dsimp only
  split
  · have hsent := hload.trans (.send (.sendBuffered _))
    split
    · exact hsent.trans (.setRequest _ _ rfl)
    · exact hsent.trans (quiet_sendFailed _)
  · split
    · exact hload.trans (.setState ..)
    · exact hload

theorem quiet_requestEnd (s : Sys) : Quiet s (requestEnd s) := by
  unfold requestEnd
  split
  · exact .closeHttpContext s
  · split
    · exact (Quiet.note s rfl).trans (.resetHttpContext _)
    · exact .closeHttpContext s

theorem quiet_headerAcked (s : Sys) : Quiet s (headerAcked s) := by
  unfold headerAcked
  split
  · exact (Quiet.note s rfl).trans (.setState ..)
  · exact .setState ..

/-! ## Deeds -/

/-- An action, and what it does to the globals. -/
def Deed (s t : Sys) : Prop := Micro s t ∧ Effect s t

/-- Any number of deeds. -/
abbrev Deeds : Sys → Sys → Prop := ReflTransGen Deed

/-- A deed in which nothing is delivered. -/
def InnerDeed (s t : Sys) : Prop := Deed s t ∧ deliveredBytes t.c.log = deliveredBytes s.c.log

abbrev InnerDeeds : Sys → Sys → Prop := ReflTransGen InnerDeed

theorem InnerDeeds.deeds {s t : Sys} (h : InnerDeeds s t) : Deeds s t :=
  ReflTransGen.mono (fun _ _ hd => hd.1) _ _ h

theorem InnerDeeds.delivered {s t : Sys} (h : InnerDeeds s t) :
    deliveredBytes t.c.log = deliveredBytes s.c.log := by
  induction h with
  | refl => rfl
  | tail _ hlast ih => exact hlast.2.trans ih

/-- The session that `GetSession` finds is one of an account that the cookie names. -/
theorem getSession_holds {w : World} {token : Bytes} {ip : Nat}
    (h : loggedIn w (getSession w.sessions token) ip = true) :
    ∃ a : Account, a.address = ip ∧ (strstr token a.token).isSome ∧ w.Holds a := by
  cases hs : getSession w.sessions token with
  | none =>
    rw [hs] at h
    cases h
  | some i =>
    rw [hs] at h
    unfold getSession at hs
    split at hs
    · cases hs
    · obtain ⟨hlt, hfound, -⟩ := List.findIdx?_eq_some_iff_getElem.mp hs
      rw [Bool.and_eq_true] at hfound
      have hip : (w.sessions.getD i emptySession).nLoginIP = ip := by simpa [loggedIn] using h
      rw [List.getD_eq_getElem?_getD, List.getElem?_eq_getElem hlt] at hip
      refine ⟨⟨w.sessions[i].nLoginIP, w.sessions[i].token⟩, hip, hfound.2, w.sessions[i],
        List.getElem_mem hlt, ?_, rfl⟩
      rw [live_iff_isEmpty]
      simpa using hfound.1

namespace InnerDeed

theorem quiet {s t : Sys} (hm : Micro s t) (hq : Quiet s t) : InnerDeed s t :=
  ⟨⟨hm, hq.effect⟩, hq.log.delivered⟩

/-- The network is asked. -/
theorem asked (s : Sys) : InnerDeed s s.afterSndbuf :=
  quiet (.environment s s.w _ rfl rfl) (.send (.afterSndbuf s))

/-- The session of the connection is touched. -/
theorem touched (s : Sys) {f : Session → Session}
    (hf : ∀ x, (f x).token = x.token ∧ (f x).nLoginIP = x.nLoginIP) :
    InnerDeed s
      { s with w := { s.w with sessions := sessionTouch s.w.sessions s.c.session f } } := by
  refine ⟨⟨.environment s _ s.net rfl rfl, ?_⟩, rfl⟩
  constructor
  · rfl
  · rfl
  · exact .inl rfl
  · exact fun a ha => .inl (holds_of_touch hf ha)
  · intro j
    rcases sessionTouch_other s.w.sessions s.c.session f j with hsame | hours
    · exact .inl hsame
    · exact .inr (.inl hours)
  · exact fun j hj => .inl hj
  · exact fun _ _ _ hq => .inl hq
  · exact .inl rfl

theorem startRequest (s : Sys) (hst : s.c.state = .idle) (hlen : 0 < s.c.requestLength) :
    InnerDeed s (startRequest s) :=
  quiet (.startRequest s hst hlen) (.same rfl ⟨rfl, rfl, rfl, rfl, .inr rfl⟩ rfl)

theorem parseHeader (s : Sys) (hst : s.c.state = .headerReceiving) (hlen : 2 ≤ s.c.requestLength) :
    InnerDeed s (parseHeader s s.c.requestLength).1 :=
  quiet (.parseHeader s hst hlen) (.parseHeader s _)

theorem quiet_cgiHeadersReceived (s : Sys) : Quiet s (cgiHeadersReceived s) := by
  have hnobody : (cgiNobody s.c.toRequest s.c.toResponse).session = s.c.session ∧
      (cgiNobody s.c.toRequest s.c.toResponse).tLastReceived = s.c.tLastReceived := by
    unfold cgiNobody
    repeat' split
    all_goals exact ⟨rfl, rfl⟩
  unfold cgiHeadersReceived
  dsimp only
  split
  · exact .setResult ..
  · split
    · refine .invoke s .onHeadersReceived fun cgi g hg => ?_
      obtain ⟨f, hf, rfl⟩ := Option.map_eq_some_iff.mp hg
      exact onHeadersReceived_aside hf s.c.toRequest s.call
    · exact .setResponse s _ hnobody.1 (.inl hnobody.2)

/-- The verdict is logged in state `u`, behind it the callback is quiet. -/
theorem effect_verdict {s u t : Sys} {q : Request} {r : Response} {found : Bool} (hw : u.w = s.w)
    (haddress : u.c.ipRemote = s.c.ipRemote) (hreceived : u.c.tLastReceived = s.c.tLastReceived)
    (hsession : u.c.session = getSession s.w.sessions s.c.token)
    (hlog : u.c.log = s.c.log ++ [.headersEnd q r found]) (hq : q.ipRemote = s.c.ipRemote)
    (hr : r.token = s.c.token) (hfound : found = loggedIn s.w u.c.session s.c.ipRemote)
    (hcall : Quiet u t) : Effect s t := by
  have hsessions : t.w.sessions = s.w.sessions := by
    rw [← hw]
    exact hcall.aside.sessions
  constructor
  · exact hcall.address.trans haddress
  · rw [← hw]
    exact hcall.aside.tick
  · exact hcall.received (by rw [hw]) (.inl hreceived)
  · exact fun a ha => .inl (holds_of_sessions hsessions ha)
  · exact fun j => .inl (congrArg (·[j]?) hsessions)
  · -- the session of the context is the one that the cookie names
    intro j hj
    obtain ⟨l, hlater, -⟩ := hcall.log
    refine .inr (.inl ⟨.headersEnd q r found :: l, q, r, found, ?_, List.mem_cons_self, ?_⟩)
    · rw [hlater, hlog]
      exact List.append_assoc ..
    · rw [hr, ← hsession, ← hj]
      exact hcall.aside.session.symm
  · intro h p f hentry
    have hbefore := hcall.log.verdict hentry
    rw [hlog] at hbefore
    rcases List.mem_append.mp hbefore with hold | hnew
    · exact .inl hold
    · cases List.mem_singleton.mp hnew
      refine .inr ⟨hq, fun hlogged => ?_⟩
      rw [hlogged, hsession] at hfound
      obtain ⟨a, haddr, hname, hheld⟩ := getSession_holds hfound.symm
      exact ⟨a, ⟨hq.trans haddr.symm, by rw [hr]; exact hname⟩, hheld⟩
  · refine .inl ?_
    rw [← hw]
    exact hcall.aside.config

/-- The verdict on a header section: who is found logged in has an account. -/
theorem headersEnd (s : Sys) (hst : s.c.state = .headerDone) (hok : 0 ≤ s.c.result) :
    InnerDeed s (headersEnd s) := by
  obtain ⟨st, t, heq, -⟩ := headersEnd_eq s
  obtain ⟨htoken, hsession, hreceived, -⟩ := authorize_kept s.w s.c.toRequest s.c.toResponse
  rw [heq]
  have hcall := quiet_cgiHeadersReceived ⟨s.w, { s.c with
    toRequest := { s.c.toRequest with state := st, tLastSent := t }
    toResponse := authorize s.w s.c.toRequest s.c.toResponse
    log := s.c.log ++ [.headersEnd { s.c.toRequest with state := st, tLastSent := t }
      (authorize s.w s.c.toRequest s.c.toResponse)
      (loggedIn s.w (authorize s.w s.c.toRequest s.c.toResponse).session s.c.ipRemote)] }, s.net⟩
  have hdelivered := hcall.log.delivered.trans (deliveredBytes_append s.c.log _)
  refine ⟨⟨?_, effect_verdict ?_ ?_ ?_ ?_ rfl ?_ htoken ?_ hcall⟩, ?_⟩
  · rw [← heq]
    exact .headersEnd s hst hok
  · rfl
  · rfl
  · exact hreceived
  · exact hsession
  · rfl
  · rfl
  · rw [hdelivered]
    exact List.append_nil _

theorem content (s : Sys) (size : Int)
    (hst : s.c.state = .chunkReceiving ∨ s.c.state = .bodyReceiving ∧ size = s.c.requestLength)
    (hok : 0 ≤ s.c.result) : InnerDeed s (offerContent s size) :=
  quiet (.content s size hst hok) (quiet_offerContent s size)

/-- The callback of the login pages, with what it does with the sessions. -/
theorem effect_auth {s t : Sys} {k : Call} (hst : s.c.state = .bodyDone)
    (hcgi : s.c.handler = some .auth) (ht : t = Httpd.completeRequest s)
    (hk : AuthOutcome s.c.toRequest s.call k)
    (hrest : k.w.tick = s.w.tick ∧ k.w.dev = s.w.dev ∧ k.r.tLastReceived = s.c.tLastReceived)
    (hlast : Quiet ((s.note (.callback .auth .onRequestReceived)).ofCall k) t) : Effect s t := by
  have hlogin : isLogin s.c.toRequest = true → Credentials s.c.appContext →
      LogsIn s t ⟨s.c.ipRemote, cookieOf s.w.tick⟩ := fun hlogin hknown =>
    ⟨hst, hcgi, hlogin, hknown, ht, rfl⟩
  have hlater : t.w.sessions = k.w.sessions := hlast.aside.sessions
  have hpointer : t.c.session = k.r.session := hlast.aside.session
  -- a login that gets a record opens it
  have hopens : isLogin s.c.toRequest = true → Credentials s.c.appContext →
      k.w.sessions = (sessionCreate s.w.sessions s.w.tick s.c.ipRemote).1 →
      k.r.session = (sessionCreate s.w.sessions s.w.tick s.c.ipRemote).2 →
      ∀ j, (sessionCreate s.w.sessions s.w.tick s.c.ipRemote).2 = some j →
        OpensSession s t j := by
    intro hpage hknown hw hsession j hj
    obtain ⟨hvacant, hrecord⟩ := sessionCreate_taken hj
    refine ⟨⟨_, ⟨cookieOf s.w.tick, s.c.ipRemote, tickOrOne s.w.tick, 0⟩, hlogin hpage hknown, ?_,
      rfl⟩, hvacant, ?_⟩
    · rw [hlater, hw]
      exact hrecord
    · rw [hpointer, hsession]
      exact hj
  constructor
  · exact hlast.address
  · exact hlast.aside.tick.trans hrest.1
  · exact hlast.received hrest.1 (.inl hrest.2.2)
  · -- only the login gives an account its session
    intro a ha
    rcases hk.holds (holds_of_sessions hlast.aside.sessions ha) with hold | ⟨hpage, hknown, ha⟩
    · exact .inl hold
    · rw [ha]
      exact .inr (hlogin hpage hknown)
  · -- a logout clears the record of the context, a login takes a vacant one
    intro j
    rw [hlater]
    cases hk with
    | aside hw _ =>
      rw [hw]
      exact .inl rfl
    | logout hw _ =>
      rw [hw]
      rcases sessionKill_other s.w.sessions s.c.session j with hsame | hours
      · exact .inl hsame
      · exact .inr (.inl hours)
    | login hpage hknown hw hsession =>
      rcases sessionCreate_other s.w.sessions s.w.tick s.c.ipRemote j with hsame | htaken
      · rw [hw]
        exact .inl hsame
      · exact .inr (.inr (hopens hpage hknown hw hsession j htaken))
  · -- a logout does not take the pointer back
    intro j hj
    rw [hpointer] at hj
    cases hk with
    | aside _ hsession => exact .inl (hsession.symm.trans hj)
    | logout _ hsession => exact .inl (hsession.symm.trans hj)
    | login hpage hknown hw hsession =>
      exact .inr (.inr (hopens hpage hknown hw hsession j (hsession.symm.trans hj)))
  · intro h r found hq
    exact .inl (((Quiet.note s rfl).log.trans hlast.log).verdict hq)
  · refine .inl (hlast.aside.config.trans ?_)
    exact congrArg Device.workConfig hrest.2.1

/-- The callback behind a posted form saves it; behind a page that is asked for it does not. -/
theorem effect_form {s t : Sys} (hst : s.c.state = .bodyDone) (hok : 0 ≤ s.c.result)
    (hcgi : s.c.handler = some .form) (ht : t = Httpd.completeRequest s)
    (hlast : Quiet ((s.note (.callback .form .onRequestReceived)).ofCall
      (formOnRequestReceived s.c.toRequest s.call)) t) : Effect s t := by
  have hpage := webRequestReceived_aside s.c.toRequest s.call
  by_cases hpost : s.c.requestMethod = .post
  · have hk : formOnRequestReceived s.c.toRequest s.call =
        { w := { (webRequestReceived s.c.toRequest s.call).w with
            dev := (webRequestReceived s.c.toRequest s.call).w.dev.appyConfig }
          r := clearSendBuffer (webRequestReceived s.c.toRequest s.call).r } := by
      unfold formOnRequestReceived
      dsimp only
      rw [if_pos hpost]
    rw [hk] at hlast
    constructor
    · exact hlast.address
    · exact hlast.aside.tick.trans hpage.tick
    · exact hlast.received hpage.tick hpage.received
    · exact fun a ha => .inl (holds_of_sessions (hlast.aside.sessions.trans hpage.sessions) ha)
    · exact fun j => .inl (congrArg (·[j]?) (hlast.aside.sessions.trans hpage.sessions))
    · exact fun j hj => .inl ((hlast.aside.session.trans hpage.session).symm.trans hj)
    · intro h r found hq
      exact .inl (((Quiet.note s rfl).log.trans hlast.log).verdict hq)
    · exact .inr ⟨hst, hok, hcgi, hpost, ht⟩
  · have hk : formOnRequestReceived s.c.toRequest s.call =
        { webRequestReceived s.c.toRequest s.call with
          r := clearSendBuffer (webRequestReceived s.c.toRequest s.call).r } := by
      unfold formOnRequestReceived
      dsimp only
      rw [if_neg hpost]
    have hform : Aside s.call (formOnRequestReceived s.c.toRequest s.call) := by
      rw [hk]
      exact ⟨hpage.tick, hpage.sessions, hpage.config, hpage.session, hpage.received⟩
    exact (((Quiet.note s rfl).trans (.ofCall _ hform)).trans hlast).effect

/-- Without a handler, or without its callback, nothing is called. -/
theorem cgiRequestReceived_none {s : Sys}
    (h : ∀ cgi, s.c.handler = some cgi → cgi.onRequestReceived = none) :
    cgiRequestReceived s = s := by
  unfold cgiRequestReceived Sys.invoke
  split
  · rfl
  · rename_i cgi hcgi
    dsimp only
    rw [h cgi hcgi]
    rfl

theorem cgiRequestReceived_some {s : Sys} {cgi : Cgi} {f : Request → Call → Call}
    (hcgi : s.c.handler = some cgi) (hf : cgi.onRequestReceived = some f) :
    cgiRequestReceived s =
      (s.note (.callback cgi .onRequestReceived)).ofCall (f s.c.toRequest s.call) := by
  unfold cgiRequestReceived Sys.invoke
  rw [hcgi]
  dsimp only
  rw [hf]
  rfl

theorem effect_completeRequest (s : Sys) (hst : s.c.state = .bodyDone) (hok : 0 ≤ s.c.result) :
    Effect s (completeRequest s) := by
  have hlast : Quiet (cgiRequestReceived s) (Httpd.completeRequest s) := by
    unfold Httpd.completeRequest
    dsimp only
    split
    · exact .setResult ..
    · exact .refl _
  cases hcgi : s.c.handler with
  | none =>
    rw [cgiRequestReceived_none fun cgi h => by rw [hcgi] at h; cases h] at hlast
    exact hlast.effect
  | some cgi =>
    cases hf : cgi.onRequestReceived with
    | none =>
      rw [cgiRequestReceived_none fun cgi' h => by rw [hcgi] at h; cases h; exact hf] at hlast
      exact hlast.effect
    | some f =>
      rw [cgiRequestReceived_some hcgi hf] at hlast
      -- every handler but the login pages and the form leaves the globals alone
      have hplain : Aside s.call (f s.c.toRequest s.call) → Effect s (Httpd.completeRequest s) :=
        fun haside => (((Quiet.note s rfl).trans (.ofCall _ haside)).trans hlast).effect
      cases cgi with
      | ssdp => cases hf
      | files =>
        cases hf
        exact hplain (filesOnRequestReceived_aside s.c.toRequest s.call)
      | upload =>
        cases hf
        refine hplain ?_
        show Aside s.call (uploadAllReceived s.call)
        unfold uploadAllReceived
        split
        · exact .files _ rfl rfl rfl
        · exact .files _ rfl rfl rfl
      | webApp =>
        cases hf
        exact hplain (webRequestReceived_aside s.c.toRequest s.call)
      | auth =>
        cases hf
        exact effect_auth hst hcgi rfl (authOnRequestReceived_outcome ..)
          (authOnRequestReceived_rest ..) hlast
      | form =>
        cases hf
        exact effect_form hst hok hcgi rfl hlast

theorem completeRequest (s : Sys) (hst : s.c.state = .bodyDone) (hok : 0 ≤ s.c.result) :
    InnerDeed s (completeRequest s) := by
  obtain ⟨_, _, log, heq, hl⟩ := CallFrame.completeRequest s
  refine ⟨⟨.complete s hst hok, effect_completeRequest s hst hok⟩, ?_⟩
  have hnone : deliveredBytes log = [] := by
    refine List.flatMap_eq_nil_iff.mpr fun a ha => ?_
    obtain ⟨_, _, _, rfl⟩ := hl a ha
    rfl
  have hlog : (Httpd.completeRequest s).c.log = s.c.log ++ log := congrArg (fun u : Sys => u.c.log) heq
  rw [hlog, deliveredBytes_append, hnone, List.append_nil]

end InnerDeed

/-! ## The traversal -/

/-- The end of a round, once the result is known to be no error. -/
theorem roundEnd_deeds {s : Sys} (consumed : Int) (hok : 0 ≤ s.c.result) :
    InnerDeeds s (roundEnd s consumed).1 := by
  unfold roundEnd
  split
  · rename_i hst
    exact .single (.completeRequest s hst hok)
  · split
    · exact .refl
    · exact .refl

/-- The content part of a round: content is offered, and the request may be complete. -/
theorem contentPart_deeds {s : Sys} {size : Int} (hok : 0 ≤ s.c.result)
    (hsize : s.c.state = .bodyReceiving → size = s.c.requestLength) :
    InnerDeeds s (contentPart s size).1 := by
  unfold contentPart
  split
  · rename_i hst
    have hcontent : InnerDeed s (offerContent s size) :=
      .content s size (hst.imp id fun h => ⟨h, hsize h⟩) hok
    have hres := cgiContentReceived_result s s.c.httpRequestBuffer size
    unfold offerContent at hcontent
    dsimp only at hcontent ⊢
    split
    · rename_i hfatal
      rw [if_pos (.inl hfatal)] at hcontent
      exact .single hcontent
    -- the handler took the content: the request may be complete
    · rename_i hfine
      split
      · rename_i hnone
        rw [if_pos (.inr hnone)] at hcontent
        exact .single hcontent
      · rename_i hsome
        rw [if_neg (not_or.mpr ⟨hfine, hsome⟩)] at hcontent
        refine (ReflTransGen.single hcontent).trans (roundEnd_deeds _ ?_)
        rw [takeContent_result]
        omega
  · exact roundEnd_deeds 0 hok

/-- A round behind the header section. -/
theorem afterHeader_deeds {s : Sys} {justNow : Bool} {size : Int}
    (hsize : size = s.c.requestLength) (hok : 0 ≤ s.c.result)
    (hnow : justNow → s.c.state = .headerDone)
    (hbefore : justNow = false →
      s.c.state.receiving ∧ s.c.state ≠ .idle ∧ s.c.state ≠ .headerReceiving) :
    InnerDeeds s (afterHeader s justNow size).1 := by
  have hhead : InnerDeeds s (if justNow then headersEnd s else s) := by
    split
    · rename_i hj
      exact .single (.headersEnd s (hnow hj) hok)
    · exact .refl
  have hlen : size = (if justNow then headersEnd s else s).c.requestLength := by
    split
    · rw [headersEnd_requestLength]
      exact hsize
    · exact hsize
  have hst : ((if justNow then headersEnd s else s).c.state.receiving ∨
        (if justNow then headersEnd s else s).c.state = .bodyDone) ∧
      (if justNow then headersEnd s else s).c.state ≠ .idle ∧
      (if justNow then headersEnd s else s).c.state ≠ .headerReceiving := by
    cases justNow with
    | true =>
      rcases headersEnd_state s with h | h | h <;> simp [h, HttpState.receiving]
    | false =>
      obtain ⟨h1, h2⟩ := hbefore rfl
      exact ⟨.inl h1, h2⟩
  unfold afterHeader
  dsimp only
  generalize (if justNow then headersEnd s else s) = t at hhead hlen hst ⊢
  split
  -- a request that is refused is answered without its content
  · rename_i hbad
    exact hhead.tail (.quiet (.refuse t hst.2 hbad hst.1) (.setState ..))
  · rename_i hgood
    have hgood' : 0 ≤ t.c.result := by omega
    split
    · rename_i hchunk
      have hone : InnerDeed t (chunkLength t size) := by
        rw [hlen]
        exact .quiet (.chunkLength t hchunk.1 hgood') (quiet_chunkLength ..)
      refine (hhead.tail hone).trans (contentPart_deeds ?_ ?_)
      · rw [chunkLength_result]
        exact hgood'
      · intro hbody
        rcases chunkLength_state t size with h | h
        · rw [h]
          exact hlen
        · rw [h] at hbody
          cases hbody
    · exact hhead.trans (contentPart_deeds hgood' fun _ => hlen)

/-- The header part of a round: a request is started, and its lines are parsed. -/
theorem headerPart_deeds (s : Sys) : InnerDeeds s (headerPart s).1 := by
  unfold headerPart
  dsimp only
  have hstart : InnerDeeds s (if 0 < s.c.requestLength ∧ s.c.state = .idle then startRequest s else s)
      ∧ (if 0 < s.c.requestLength ∧ s.c.state = .idle then startRequest s else s).c.requestLength
        = s.c.requestLength := by
    split
    · rename_i hidle
      exact ⟨.single (.startRequest s hidle.2 hidle.1), rfl⟩
    · exact ⟨.refl, rfl⟩
  generalize (if 0 < s.c.requestLength ∧ s.c.state = .idle then startRequest s else s) = t
    at hstart ⊢
  obtain ⟨hdeeds, hlen⟩ := hstart
  split
  · rename_i hparse
    rw [← hlen] at hparse ⊢
    exact hdeeds.tail (.parseHeader t hparse.1 hparse.2)
  · exact hdeeds

/-- A round of the loop over received data. -/
theorem iteration_deeds {s : Sys} (hst : s.c.state.receiving) : InnerDeeds s (iteration s).1 := by
  have hdeq : InnerDeed s { s with c := s.c.dequeue } := .quiet (.dequeue s hst) (.dequeue s)
  have hrec : s.c.dequeue.state.receiving := by
    show Request.state s.c.dequeue.toRequest |>.receiving
    rw [(RxFrame.dequeue s.c).request]
    exact hst
  refine (ReflTransGen.single hdeq).trans ?_
  unfold iteration processBuffer
  generalize hu : ({ s with c := s.c.dequeue } : Sys) = u
  have hu' : u.c.state.receiving := by
    rw [← hu]
    exact hrec
  split
  · exact .refl
  · dsimp only
    have hdeeds := headerPart_deeds u
    have hhead := (headerPart_micros hu').2
    split
    · exact hdeeds
    · split
      · rename_i hbig
        exact hdeeds.tail (.quiet (.tooLarge _ hbig.1) (.setResult ..))
      · split
        · exact hdeeds
        · rename_i hmore
          exact hdeeds.trans (afterHeader_deeds hhead.1 (by omega) hhead.2.1
            fun h => ⟨hhead.2.2 h, fun hc => hmore (.inl hc), fun hc => hmore (.inr hc)⟩)

theorem receiveLoop_deeds (fuel : Nat) (s : Sys) : InnerDeeds s (receiveLoop fuel s).1 := by
  induction fuel generalizing s with
  | zero => exact .single (.quiet (.outOfFuel s) (.setResponse s _ rfl (.inl rfl)))
  | succ fuel ih =>
    rw [receiveLoop]
    split
    · rename_i hst
      have hround := iteration_deeds hst
      -- the round asks for another one, or it is the last
      split
      · rename_i s' heq
        rw [heq] at hround
        exact hround.trans (ih s')
      · exact hround
    · exact .refl

/-- The response step: the rest of the last block, or the header, or the next block. -/
theorem httpResponseProc_deeds (s : Sys) (caller : Caller) :
    InnerDeeds s (httpResponseProc s caller) := by
  unfold httpResponseProc
  split
  · exact .refl
  · rename_i hgo
    have hrec : s.c.state.receiving = false := by
      by_contra h
      exact hgo (.inl (by simpa using h))
    have hres : s.c.result ≠ 0 := fun h => hgo (.inr h)
    split
    · rename_i hleft
      exact .single (.quiet (.sendRemaining s hrec hres hleft.1) (quiet_sendRemaining s))
    · rename_i hstage
      split
      · rename_i hleft
        exact (ReflTransGen.single (InnerDeed.asked s)).tail
          (.quiet (.sendRemaining _ hrec hres hleft.1) (quiet_sendRemaining _))
      · dsimp only
        have hfirst : InnerDeeds s (if 0 < s.c.bytesLeft then s.afterSndbuf else s) ∧
            (if 0 < s.c.bytesLeft then s.afterSndbuf else s).c = s.c := by
          split
          · exact ⟨.single (.asked s), rfl⟩
          · exact ⟨.refl, rfl⟩
        generalize (if 0 < s.c.bytesLeft then s.afterSndbuf else s) = t at hfirst ⊢
        obtain ⟨hdeeds, hc⟩ := hfirst
        rw [← hc] at hrec hres hstage
        have hstep : InnerDeeds s (responseHeaderStep t caller) := by
          unfold responseHeaderStep
          split
          · rename_i hfirst
            exact hdeeds.tail (.quiet (.startResponse t hrec hres hfirst) (quiet_startResponse t))
          · rename_i hsent
            split
            · rename_i hack
              exact hdeeds.tail (.quiet (.headerAcked t hack.1 hres (by simpa using hsent))
                (quiet_headerAcked t))
            · exact hdeeds
        split
        · exact hstep
        · split
          · rename_i hbody
            obtain ⟨h1, h2, h3⟩ :=
              responseHeaderStep_body hres (fun h0 h1 => hstage ⟨h0, h1⟩) hbody
            exact hstep.tail (.quiet (.sendBody _ caller hbody h1 h2 h3) (quiet_sendBody ..))
          · exact hstep

theorem httpRequestProc_deeds (s : Sys) (caller : Caller) :
    InnerDeeds s (httpRequestProc s caller) := by
  have hfinish : ∀ t : Sys, InnerDeeds t (requestFinish t caller) := by
    intro t
    unfold requestFinish
    split
    · rename_i hst
      split
      · rename_i hpeer
        exact .single (.quiet (.peerGone t hst hpeer) (.setResult ..))
      · exact .refl
    · dsimp only
      split
      · rename_i hend
        exact (httpResponseProc_deeds t caller).tail
          (.quiet (.requestEnd _ hend) (quiet_requestEnd _))
      · exact httpResponseProc_deeds t caller
  have hloop := receiveLoop_deeds (receiveFuel s.c) s
  unfold httpRequestProc
  split
  · rename_i s' heq
    rw [heq] at hloop
    exact hloop
  · rename_i s' _ _ heq
    rw [heq] at hloop
    exact hloop.trans (hfinish s')

theorem close_deeds (s : Sys) : InnerDeeds s (closeHttpContext s) :=
  .single (.quiet (.close s) (.closeHttpContext s))

/-- A segment is taken in before anything else is done. -/
def takenIn (s : Sys) : ConnEvent → Sys
  | .receive (some p) =>
    let s := s.setResponse { s.c.toResponse with tLastReceived := s.now }
    { s with c := s.c.receivePbuf p.chain }
  | _ => s

/-- The receive path touches none of the globals. -/
theorem effect_rx {s : Sys} {c : RequestContext} (h : RxFrame s.c c) : Effect s { s with c := c } := by
  obtain ⟨_, _, _, _, _, log, rfl, _, hl⟩ := h
  constructor
  · rfl
  · rfl
  · exact .inl rfl
  · exact fun _ ha => .inl ha
  · exact fun _ => .inl rfl
  · exact fun _ hj => .inl hj
  · intro h r found hq
    rcases List.mem_append.mp hq with hold | hnew
    · exact .inl hold
    · cases hl _ hnew
  · exact .inl rfl

theorem touch_deed (s : Sys) :
    InnerDeed s (s.setResponse { s.c.toResponse with tLastReceived := s.now }) :=
  .quiet (.touch s s.now) (.setResponse s _ rfl (.inr rfl))

theorem takenIn_deeds {s : Sys} {e : ConnEvent} (hlegal : e.Legal s) : Deeds s (takenIn s e) := by
  unfold takenIn
  split
  · rename_i p
    exact (ReflTransGen.single (touch_deed s).1).tail
      ⟨.receive _ p hlegal.1 hlegal.2, effect_rx (.receivePbuf _ p.chain)⟩
  · exact .refl

theorem takenIn_delivered (s : Sys) (e : ConnEvent) :
    deliveredBytes (takenIn s e).c.log = deliveredBytes s.c.log ++ e.data := by
  unfold takenIn
  split
  · exact receivePbuf_delivered ..
  · rename_i hother
    have hnone : e.data = [] := by
      unfold ConnEvent.data
      split
      · rename_i p
        exact absurd rfl (hother p)
      · rfl
    rw [hnone, List.append_nil]

theorem onHttpReceive_deeds (s : Sys) (p : Option Segment) :
    InnerDeeds (takenIn s (.receive p)) (onHttpReceive s (p.map Segment.chain)) := by
  unfold onHttpReceive
  have hfin : ∀ t : Sys, InnerDeeds t (let u := httpRequestProc t .recv
      if u.c.result ≤ -500 then closeHttpContext u
      else if u.c.checkAlive then u
      else { u with w := { u.w with
        sessions := sessionReceived u.w.sessions u.c.session u.w.tick } }) := by
    intro t
    have hu := httpRequestProc_deeds t .recv
    dsimp only
    split
    · exact hu.trans (close_deeds _)
    · split
      · exact hu
      -- without an error the session is touched
      · exact hu.tail (.touched _ fun x => ⟨rfl, rfl⟩)
  cases p with
  | none =>
    split
    · exact close_deeds s
    -- the peer has closed its side in the middle of a request or of a response
    · refine ((ReflTransGen.single ?_).tail (touch_deed _)).trans (hfin _)
      exact .quiet (.peerClosed s) (.setRequest s _ rfl)
  | some p =>
    rw [if_neg (by simp)]
    exact hfin _

/-- Behind the segment that it brings, an event is a sequence of inner deeds. -/
theorem connStep_inner {s : Sys} {e : ConnEvent} (hlegal : e.Legal s) :
    InnerDeeds (takenIn s e) (connStep s e) := by
  have hfatal : ∀ t : Sys, InnerDeeds t (closeIfFatal t) := by
    intro t
    unfold closeIfFatal
    split
    · exact close_deeds t
    · exact .refl
  cases e with
  | accept pcb ipRemote => cases hlegal
  | receive p => exact onHttpReceive_deeds s p
  | poll =>
    show InnerDeeds s (onHttpPoll s)
    unfold onHttpPoll
    split
    · exact close_deeds s
    · exact (httpRequestProc_deeds s .poll).trans (hfatal _)
  | sent len =>
    show InnerDeeds s (onHttpSent s len)
    unfold onHttpSent
    have hfirst : InnerDeeds s (if s.c.checkAlive then s else
        { s with w := { s.w with sessions := sessionSent s.w.sessions s.c.session s.w.tick } }) := by
      split
      · exact .refl
      · exact .single (.touched s fun x => ⟨rfl, rfl⟩)
    refine ((hfirst.tail ?_).trans (httpRequestProc_deeds _ .sent)).trans (hfatal _)
    exact .quiet (.acknowledged _ len) (.setRequest _ _ rfl)
  | error => exact .single (.quiet (.free s hlegal) (.freeHttpContext s))

/-- Every event is a sequence of deeds. -/
theorem connStep_deeds {s : Sys} {e : ConnEvent} (hlegal : e.Legal s) : Deeds s (connStep s e) :=
  (takenIn_deeds hlegal).trans (connStep_inner hlegal).deeds

/-- An event delivers the segment that it brings, and nothing else. -/
theorem connStep_delivered {s : Sys} {e : ConnEvent} (hlegal : e.Legal s) :
    deliveredBytes (connStep s e).c.log = deliveredBytes s.c.log ++ e.data :=
  (connStep_inner hlegal).delivered.trans (takenIn_delivered s e)

end Httpd
