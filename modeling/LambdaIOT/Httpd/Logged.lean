import LambdaIOT.Httpd.Invariants

/-!
# What the log says

An entry of the log is written by one action, in a state that the entry shows. `Logged` is
what is then known of this state, and `SlotReach.logged` finds the state for any entry in
the log of a reachable context.
-/

namespace Httpd

open CMem Lwip Relation

/-- The action that writes `a` is done in state `s`. -/
def Logged (s : Sys) : Act → Prop
  | .headers h before after =>
    s.c.state.receiving = false ∧ s.c.result ≠ 0 ∧ s.c.sending = false ∧
      h = (beginResponse s).c.toRequest ∧
      before = { (beginResponse s).c.toResponse with peak := 0 } ∧
      after = (cgiSetResponseHeaders (beginResponse s) (codeInfoOf s.c.result)).c.toResponse
  | .load w h before after d =>
    s.c.state = .sendingBody ∧ s.c.sending = true ∧
      (0 < s.c.bytesLeft → s.c.dwOperStage ≠ stageEnd) ∧
      w = s.w ∧ h = s.c.toRequest ∧ before = { s.c.toResponse with peak := 0 } ∧
      ∃ caller t, loadContent (s.setResponse before) caller = (t, d) ∧ after = t.c.toResponse
  | .refused r => s.c.state = .sendingHeader ∧ s.c.result < 0 ∧ r = s.c.toResponse
  | .reset h r =>
    s.c.state = .requestEnd ∧ s.c.keepalive = true ∧ h = s.c.toRequest ∧ r = s.c.toResponse
  | _ => True

/-- The entries that show a state. -/
def Act.isEntry : Act → Bool
  | .headers .. => true
  | .load .. => true
  | .refused _ => true
  | .reset .. => true
  | _ => false

theorem logged_of_plain (s : Sys) {a : Act} (h : a.isEntry = false) : Logged s a := by
  cases a <;> trivial

theorem plain_of_callback {a : Act} (h : a.isCallback) : a.isEntry = false := by
  cases a <;> first | rfl | cases h

theorem plain_of_rx {a : Act} (h : a.isRx) : a.isEntry = false := by
  cases a <;> first | rfl | cases h

theorem plain_of_parse {a : Act} (h : a.isParse) : a.isEntry = false := by
  cases a <;> first | rfl | cases h

theorem plain_of_write {a : Act} (h : a.isWrite) : a.isEntry = false := by
  cases a <;> first | rfl | cases h

theorem CallbackOf.isCallback {s : Sys} {a : Act} (h : CallbackOf s a) : a.isCallback := by
  obtain ⟨_, _, _, rfl⟩ := h
  rfl

/-- `s'` is later than `s`, and only callbacks were logged in between. -/
def CalledBy (s s' : Sys) : Prop := ∃ log, s'.c.log = s.c.log ++ log ∧ ∀ a ∈ log, a.isCallback

/-- `s'` is later than `s`, and an entry that was logged in between was logged in `s`, with
only callbacks in front of it. -/
def LoggedBy (s s' : Sys) : Prop :=
  ∃ log, s'.c.log = s.c.log ++ log ∧ ∀ l a l', log = l ++ a :: l' → a.isEntry →
    Logged s a ∧ ∀ b ∈ l, b.isCallback

namespace CalledBy

theorem refl (s : Sys) : CalledBy s s := ⟨[], (List.append_nil _).symm, fun _ h => nomatch h⟩

theorem quiet {s t u : Sys} (h : CalledBy s t) (hlog : u.c.log = t.c.log) : CalledBy s u := by
  obtain ⟨log, hlog', hl⟩ := h
  exact ⟨log, hlog.trans hlog', hl⟩

theorem call {s t u : Sys} (h : CalledBy s t) (h' : CallFrame t u) : CalledBy s u := by
  obtain ⟨log, hlog, hl⟩ := h
  obtain ⟨_, _, log', rfl, hl'⟩ := h'
  refine ⟨log ++ log', ?_, fun a ha => ?_⟩
  · show t.c.log ++ log' = _
    rw [hlog, List.append_assoc]
  · rcases List.mem_append.mp ha with h | h
    · exact hl a h
    · exact (hl' a h).isCallback

theorem loggedBy {s t : Sys} (h : CalledBy s t) : LoggedBy s t := by
  obtain ⟨log, hlog, hl⟩ := h
  refine ⟨log, hlog, fun l a l' heq ha => ?_⟩
  rw [plain_of_callback (hl a (by rw [heq]; exact List.mem_append_right _ (List.mem_cons_self ..)))]
    at ha
  cases ha

/-- An entry behind the callbacks. -/
theorem entry {s t : Sys} (h : CalledBy s t) {a : Act} (ha : Logged s a) :
    LoggedBy s (t.note a) := by
  obtain ⟨log, hlog, hl⟩ := h
  refine ⟨log ++ [a], ?_, fun l b l' heq hb => ?_⟩
  · show t.c.log ++ [a] = _
    rw [hlog, List.append_assoc]
  · rcases List.eq_nil_or_concat l' with rfl | ⟨l'', d, rfl⟩
    · obtain ⟨rfl, hb'⟩ := List.append_inj' heq rfl
      obtain ⟨rfl, -⟩ := List.cons.inj hb'
      exact ⟨ha, hl⟩
    · rw [List.concat_eq_append, ← List.cons_append, ← List.append_assoc] at heq
      obtain ⟨rfl, -⟩ := List.append_inj' heq rfl
      rw [plain_of_callback (hl b (List.mem_append_right _ (List.mem_cons_self ..)))] at hb
      cases hb

end CalledBy

namespace LoggedBy

theorem refl (s : Sys) : LoggedBy s s := (CalledBy.refl s).loggedBy

/-- What is no entry may follow. -/
theorem append {s t u : Sys} (h : LoggedBy s t) {l : List Act} (hlog : u.c.log = t.c.log ++ l)
    (hl : ∀ a ∈ l, a.isEntry = false) : LoggedBy s u := by
  obtain ⟨log, hlog', hentry⟩ := h
  refine ⟨log ++ l, by rw [hlog, hlog', List.append_assoc], fun l₁ a l₂ heq ha => ?_⟩
  rcases List.append_eq_append_iff.mp heq with ⟨m, -, hm⟩ | ⟨m, hm, hm'⟩
  · rw [hl a (by rw [hm]; exact List.mem_append_right _ (List.mem_cons_self ..))] at ha
    cases ha
  · cases m with
    | nil =>
      rw [hl a (by
        rw [show l = a :: l₂ from hm'.symm]
        exact List.mem_cons_self ..)] at ha
      cases ha
    | cons b m =>
      obtain ⟨rfl, -⟩ := List.cons.inj hm'
      exact hentry l₁ a m hm ha

/-- A change that is not logged. -/
theorem quiet {s t u : Sys} (h : LoggedBy s t) (hlog : u.c.log = t.c.log) : LoggedBy s u :=
  h.append (l := []) (by rw [hlog, List.append_nil]) fun _ h => nomatch h

theorem note {s t : Sys} (h : LoggedBy s t) {a : Act} (ha : a.isEntry = false) :
    LoggedBy s (t.note a) :=
  h.append rfl fun b hb => by rwa [List.mem_singleton.mp hb]

theorem rx {s s' : Sys} (h : RxFrame s.c s'.c) : LoggedBy s s' := by
  obtain ⟨_, _, _, _, _, log, heq, _, hl⟩ := h
  exact (refl s).append (by rw [heq]) fun a ha => plain_of_rx (hl a ha)

theorem call {s t u : Sys} (h : LoggedBy s t) (h' : CallFrame t u) : LoggedBy s u := by
  obtain ⟨_, _, log, rfl, hl⟩ := h'
  exact h.append rfl fun a ha => plain_of_callback (hl a ha).isCallback

theorem send {s t u : Sys} (h : LoggedBy s t) (h' : SendFrame t u) : LoggedBy s u := by
  obtain ⟨_, _, _, _, log, _, rfl, _, _, hl⟩ := h'
  exact h.append rfl fun a ha => plain_of_write (hl a ha)

theorem freed {s s' : Sys} (h : FreedFrame s s') : LoggedBy s s' := by
  obtain ⟨_, _, _, _, log, _, rfl, hl⟩ := h
  refine (refl s).append (l := log ++ [.freed]) ?_ fun a ha => ?_
  · show s.c.log ++ log ++ [.freed] = _
    rw [List.append_assoc]
  rcases List.mem_append.mp ha with h | h
  · exact plain_of_callback (hl a h)
  · rw [List.mem_singleton.mp h]
    rfl

theorem parse {s s' : Sys} (h : ParseFrame s s') : LoggedBy s s' := by
  obtain ⟨_, _, _, _, _, log, rfl, _, hl⟩ := h
  exact (refl s).append rfl fun a ha => plain_of_parse (hl a ha)

theorem offerContent (s : Sys) (size : Int) : LoggedBy s (offerContent s size) := by
  have hcall : LoggedBy s (cgiContentReceived s s.c.httpRequestBuffer size).1 := by
    rcases cgiContentReceived_cases s s.c.httpRequestBuffer size with heq | ⟨cgi, f, -, -, heq⟩
    · rw [heq]
      exact refl s
    · rw [heq]
      have hnoted := (refl s).note (a := .callback cgi .onContentReceived) rfl
      exact (hnoted.note (a := .content ..) rfl).quiet rfl
  unfold Httpd.offerContent
  dsimp only
  split
  · exact hcall
  · exact hcall.append (takeContent_log ..) fun a ha => by
      rw [List.mem_singleton.mp ha]
      rfl

theorem startResponse (s : Sys) (hst : s.c.state.receiving = false) (hres : s.c.result ≠ 0)
    (hfirst : s.c.sending = false) : LoggedBy s (startResponse s) := by
  have hbuilt : LoggedBy s
      (cgiSetResponseHeaders (beginResponse s) (codeInfoOf s.c.result)) := by
    obtain ⟨t, ht, heq⟩ := cgiSetResponseHeaders_spec (beginResponse s) (codeInfoOf s.c.result)
    have hafter : t.c.toResponse =
        (cgiSetResponseHeaders (beginResponse s) (codeInfoOf s.c.result)).c.toResponse := by
      rw [heq]
      rfl
    rw [heq]
    have hbegin : CalledBy s (beginResponse s) := (CalledBy.refl s).quiet rfl
    exact (hbegin.call ht).entry ⟨hst, hres, hfirst, rfl, rfl, hafter⟩
  unfold Httpd.startResponse
  dsimp only
  generalize cgiSetResponseHeaders _ _ = u at hbuilt ⊢
  have hsent := hbuilt.send (.sendBuffered u)
  split
  · split
    · exact hsent.quiet rfl
    · exact hsent.quiet rfl
  · exact hsent.quiet rfl

theorem sendRemaining (s : Sys) : LoggedBy s (sendRemaining s) := by
  have hsent := (refl s).send (.sendBuffered s)
  unfold Httpd.sendRemaining
  dsimp only
  split
  · exact hsent
  · exact hsent.quiet rfl

theorem sendBody (s : Sys) (caller : Caller) (hst : s.c.state = .sendingBody)
    (hsent : s.c.sending = true) (hstage : 0 < s.c.bytesLeft → s.c.dwOperStage ≠ stageEnd) :
    LoggedBy s (sendBody s caller) := by
  have hloaded : LoggedBy s (cgiLoadContentToSend s caller).1 := by
    obtain ⟨t, d, ht, hload, heq⟩ := cgiLoadContentToSend_spec s caller
    rw [heq]
    exact ((CalledBy.refl s).call ht).entry ⟨hst, hsent, hstage, rfl, rfl, rfl, caller, t, hload, rfl⟩
  unfold Httpd.sendBody
  dsimp only
  generalize cgiLoadContentToSend s caller = u at hloaded ⊢
  have hsentBy := hloaded.send (.sendBuffered u.1)
  split
  · split
    · exact hsentBy.quiet rfl
    · exact hsentBy.quiet rfl
  · split
    · exact hloaded.quiet rfl
    · exact hloaded

end LoggedBy

/-- Every action logs in its own state. -/
theorem micro_logged {s s' : Sys} (h : Micro s s') : LoggedBy s s' := by
  have hrefl := LoggedBy.refl s
  cases h with
  | environment w net hpcbs => exact hrefl.quiet rfl
  | receive p hlive hfit => exact .rx (.receivePbuf ..)
  | peerClosed => exact hrefl.quiet rfl
  | touch t => exact hrefl.quiet rfl
  | acknowledged len => exact hrefl.quiet rfl
  | dequeue hst => exact .rx (.dequeue _)
  | startRequest hst hlen => exact hrefl.quiet rfl
  | parseHeader hst hlen => exact .parse (.parseHeader ..)
  | tooLarge hst => exact hrefl.quiet rfl
  | headersEnd hst hok =>
    obtain ⟨_, _, heq, -⟩ := headersEnd_eq s
    rw [heq]
    exact (hrefl.append rfl fun a ha => by
      rw [List.mem_singleton.mp ha]
      rfl).call (.cgiHeadersReceived _)
  | refuse hst hbad hsending => exact hrefl.quiet rfl
  | chunkLength hst hok =>
    unfold chunkLength
    split
    · exact hrefl
    · exact (hrefl.note (a := .chunkLine s.c.toRequest) rfl).append rfl fun a ha => by
        rw [List.mem_singleton.mp ha]
        rfl
  | content size hst hok => exact .offerContent s size
  | complete hst hok => exact hrefl.call (.completeRequest s)
  | sendRemaining hst hres hleft => exact .sendRemaining s
  | startResponse hst hres hfirst => exact .startResponse s hst hres hfirst
  | headerAcked hst hres hsent =>
    unfold headerAcked
    split
    · rename_i hbad
      have hnote := (CalledBy.refl s).entry (a := .refused s.c.toResponse) ⟨hst, hbad, rfl⟩
      exact hnote.quiet rfl
    · exact hrefl.quiet rfl
  | sendBody caller hst hres hsent hstage => exact .sendBody s caller hst hsent hstage
  | requestEnd hst =>
    unfold requestEnd
    split
    · exact .freed (closeHttpContext_frame s)
    · split
      · rename_i hkeep
        have hnote := (CalledBy.refl s).entry (a := .reset s.c.toRequest s.c.toResponse)
          ⟨hst, hkeep, rfl, rfl⟩
        obtain ⟨_, _, heq, -⟩ :=
          resetHttpContext_spec (s.note (.reset s.c.toRequest s.c.toResponse))
        rw [heq]
        exact hnote.quiet rfl
      · exact .freed (closeHttpContext_frame s)
  | peerGone hst hpeer => exact hrefl.quiet rfl
  | close => exact .freed (closeHttpContext_frame s)
  | free hgone => exact .freed (freeHttpContext_frame s)
  | outOfFuel => exact hrefl.quiet rfl

/-- An entry in the log of a reachable context was logged in a reachable state, whose log
comes before it, up to callbacks. -/
theorem SlotReach.loggedAt {c : RequestContext} (h : SlotReach c) {pre post : List Act} {a : Act}
    (hlog : c.log = pre ++ a :: post) (ha : a.isEntry) :
    ∃ (s : Sys) (l : List Act), SlotReach s.c ∧ pre = s.c.log ++ l ∧ (∀ b ∈ l, b.isCallback) ∧
      Logged s a := by
  induction h generalizing post with
  | setup => exact absurd hlog (by simp [setupContext])
  | @accept s pcb ipRemote _ _ _ _ =>
    obtain ⟨_, _, _, heq⟩ := acceptContext_spec s pcb ipRemote
    rw [heq] at hlog
    exact absurd hlog (by simp)
  | @micro s s' h hm ih =>
    obtain ⟨log, hlog', hentry⟩ := micro_logged hm
    rw [hlog'] at hlog
    rcases List.append_eq_append_iff.mp hlog with ⟨m, hpre, hm'⟩ | ⟨m, hold, hm'⟩
    · obtain ⟨hl, hcalls⟩ := hentry m a post hm' ha
      exact ⟨s, m, h, hpre, hcalls, hl⟩
    · cases m with
      | nil =>
        obtain ⟨hl, hcalls⟩ := hentry [] a post hm'.symm ha
        exact ⟨s, [], h, by rw [hold, List.append_nil, List.append_nil], hcalls, hl⟩
      | cons b m =>
        obtain ⟨rfl, -⟩ := List.cons.inj hm'
        exact ih hold

theorem SlotReach.logged {c : RequestContext} (h : SlotReach c) {a : Act} (hmem : a ∈ c.log)
    (ha : a.isEntry) : ∃ s : Sys, SlotReach s.c ∧ Logged s a := by
  obtain ⟨pre, post, hlog⟩ := List.append_of_mem hmem
  obtain ⟨s, _, hs, -, -, hl⟩ := h.loggedAt hlog ha
  exact ⟨s, hs, hl⟩

end Httpd
