import LambdaIOT.Httpd.Sending
import LambdaIOT.Properties.Headers

/-!
# The sender moves on

A sent event finds pending bytes in the send buffer and room in the window. The code sends
them at once when the body is at its end or the window is no larger than what is pending;
otherwise it first asks the handler for more, and sends only if there is more. `Moves` lists
the states in which a byte goes out, and they are exactly those in which it should.
-/

namespace Httpd

open CMem Lwip

/-! ## Handing bytes over -/

/-- Between `s` and `s'` at least one byte of the send buffer is accepted by `altcp_write`. -/
def HandsOver (s s' : Sys) : Prop :=
  ∃ acts bs, s'.c.log = s.c.log ++ acts ∧ Act.write bs true ∈ acts ∧ bs ≠ []

theorem HandsOver.of_later {s t u : Sys} {l : List Act} (hlog : t.c.log = s.c.log ++ l)
    (h : HandsOver t u) : HandsOver s u := by
  obtain ⟨acts, bs, hacts, hbs, hne⟩ := h
  refine ⟨l ++ acts, bs, ?_, List.mem_append_right _ hbs, hne⟩
  rw [hacts, hlog, List.append_assoc]

theorem HandsOver.of_log {s t u : Sys} (h : HandsOver s t) (hlog : u.c.log = t.c.log) :
    HandsOver s u := by
  obtain ⟨acts, bs, hacts, hbs⟩ := h
  exact ⟨acts, bs, hlog.trans hacts, hbs⟩

/-- Without a write nothing is handed over. -/
theorem not_handsOver {s s' : Sys} {acts : List Act} (hlog : s'.c.log = s.c.log ++ acts)
    (hquiet : ∀ a ∈ acts, a.isWrite = false) : ¬HandsOver s s' := by
  rintro ⟨acts', bs, hlog', hbs, -⟩
  have hacts : acts' = acts := List.append_cancel_left (hlog'.symm.trans hlog)
  rw [hacts] at hbs
  cases hquiet _ hbs

/-- Pending bytes and an open window: the first round of `sendBuffered` writes. -/
theorem sendBuffered_handsOver {s : Sys} (hleft : 0 < s.c.bytesLeft) (hwindow : 0 < s.sndbuf)
    (hok : s.writeOk = true) (hmem : s.c.mem ≠ []) : HandsOver s (sendBuffered s).1 := by
  obtain ⟨k, hk⟩ : ∃ k, s.c.bytesLeft.toNat = k + 1 := ⟨s.c.bytesLeft.toNat - 1, by omega⟩
  unfold sendBuffered
  rw [hk, sendLoop, if_pos hleft]
  dsimp only
  rw [if_neg (Nat.pos_iff_ne_zero.mp hwindow), if_pos (show s.afterSndbuf.writeOk = true from hok)]
  obtain ⟨_, _, _, _, log, _, heq, -⟩ := SendFrame.sendLoop k
    (afterWrite (s.afterSndbuf.altcpWrite
      (load s.afterSndbuf.c.mem 0 (min s.afterSndbuf.c.bytesLeft.toNat s.sndbuf)))
      (min s.afterSndbuf.c.bytesLeft.toNat s.sndbuf))
  rw [heq]
  refine ⟨[.write (load s.c.mem 0 (min s.c.bytesLeft.toNat s.sndbuf)) true] ++ log, _, ?_,
    List.mem_append_left _ (List.mem_singleton.mpr rfl), ?_⟩
  · rw [← List.append_assoc]
    have hwrote : (s.afterSndbuf).writeOk = true := hok
    show s.c.log ++ [.write _ (s.afterSndbuf).writeOk] ++ log = _
    rw [hwrote]
    rfl
  · intro hnil
    have hlen := congrArg List.length hnil
    rw [load_zero, List.length_take, List.length_nil] at hlen
    have hpos := List.length_pos_iff.mpr hmem
    omega

theorem sendRemaining_handsOver {s : Sys} (hleft : 0 < s.c.bytesLeft) (hwindow : 0 < s.sndbuf)
    (hok : s.writeOk = true) (hmem : s.c.mem ≠ []) : HandsOver s (sendRemaining s) := by
  refine (sendBuffered_handsOver hleft hwindow hok hmem).of_log ?_
  unfold sendRemaining
  dsimp only
  split <;> rfl

/-! ## A header is never empty -/

/-- The string in the send buffer is not empty. -/
def Begun (r : Response) : Prop := at' r.mem 0 ≠ 0

theorem Begun.strlen {r : Response} (h : Begun r) : 0 < strlen r.mem := by
  unfold Begun at' at h
  rw [CMem.strlen, cstr]
  cases hm : r.mem with
  | nil =>
    rw [hm] at h
    exact absurd rfl h
  | cons b m =>
    rw [hm] at h
    rw [List.takeWhile_cons_of_pos (by simpa using h)]
    exact Nat.succ_pos _

/-- Appending keeps the first byte. -/
theorem Begun.strcat {r : Response} (h : Begun r) (s : Bytes) : Begun (r.strcatSend s) := by
  have hpos := h.strlen
  unfold Response.strcatSend Response.putSend
  split
  · have hfirst : ∀ m : Bytes, at' m 0 = (m.take 1).getD 0 0 := by
      intro m
      cases m <;> rfl
    unfold Begun at h ⊢
    rw [hfirst] at h ⊢
    rwa [take_store (by omega)]
  · exact h

theorem begun_headersDefault {r : Response} {codeInfo : Bytes} (hmem : r.mem.length = memSize)
    (hcode : codeInfo.length ≤ 40) : Begun (headersDefault r codeInfo) := by
  unfold headersDefault
  split
  · have h1 : (ascii "text/html").length = 9 := by decide
    have h2 : (decimal 0).length = 1 := by decide
    have hlen := length_headerGeneric codeInfo (ascii "text/html") 0
    obtain ⟨t, ht⟩ : ∃ t, headerGeneric codeInfo (ascii "text/html") 0 connectionHeader =
        72 :: t := ⟨_, rfl⟩
    rw [ht, List.length_cons] at hlen
    rw [Response.sprintfSend, ht]
    exact (putSend_first (by decide) hmem (by omega)).1
  · rename_i hfirst
    exact hfirst

theorem begun_headersFinish {w : World} {r : Response} {codeInfo : Bytes}
    (hmem : r.mem.length = memSize) (hcode : codeInfo.length ≤ 40) :
    0 < (headersFinish w r codeInfo).bytesLeft := by
  have hbegun := begun_headersDefault hmem hcode
  have hdate : Begun (headersDate (headersDefault r codeInfo) w.clock) :=
    ((((hbegun.strcat _).strcat _).strcat _).strcat _).strcat _
  have hbody : Begun (headersBody (headersDate (headersDefault r codeInfo) w.clock)) := by
    unfold headersBody
    split
    · exact ((hdate.strcat _).strcat _).strcat _
    · exact hdate
  exact Int.natCast_pos.mpr hbody.strlen

theorem cgiSetResponseHeaders_pending {s : Sys} (hmem : s.c.mem.length = memSize)
    {codeInfo : Bytes} (hcode : codeInfo.length ≤ 40) :
    0 < (cgiSetResponseHeaders s codeInfo).c.bytesLeft := by
  unfold cgiSetResponseHeaders
  dsimp only
  generalize hu : Sys.invoke _ _ _ = u
  have hu' : u.c.mem.length = memSize := by
    have hbegin : (headersBegin { s.c.toResponse with peak := 0 }).mem.length = memSize := by
      obtain ⟨_, _, _, _, _, heq, hlen⟩ := headersBegin_frame { s.c.toResponse with peak := 0 }
      rw [heq]
      exact hlen.trans hmem
    rw [← hu]
    unfold Sys.invoke
    split
    · exact hbegin
    · split
      · exact hbegin
      · rename_i g hg
        obtain ⟨f, hf, rfl⟩ := Option.map_eq_some_iff.mp hg
        obtain ⟨_, _, _, _, _, heq, hlen⟩ := setResponseHeaders_frame hf s.c.toRequest
          (s.setResponse (headersBegin { s.c.toResponse with peak := 0 })).call codeInfo
        exact (congrArg (fun r : Response => r.mem.length) heq).trans (hlen.trans hbegin)
  exact begun_headersFinish hu' hcode

/-! ## A response has a result -/

/-- `HttpResponseProc` does nothing without a result, but a response under way has one. -/
def Answered (c : RequestContext) : Prop :=
  c.state = .sendingHeader ∨ c.state = .sendingBody → c.result ≠ 0

theorem answered_of_receiving {c : RequestContext} (h : c.state.receiving ∨ c.state = .bodyDone) :
    Answered c := by
  intro hst
  rcases h with h | h
  · rcases hst with hst | hst
    · rw [hst] at h
      cases h
    · rw [hst] at h
      cases h
  · rcases hst with hst | hst
    · rw [hst] at h
      cases h
    · rw [hst] at h
      cases h

theorem sendBuffered_result (s : Sys) : (sendBuffered s).1.c.result = s.c.result := by
  obtain ⟨_, _, _, _, _, _, heq, -⟩ := SendFrame.sendBuffered s
  rw [heq]

theorem sendRemaining_answered {s : Sys} (hres : s.c.result ≠ 0) : Answered (sendRemaining s).c := by
  intro _
  unfold sendRemaining
  dsimp only
  split
  · rw [sendBuffered_result]
    exact hres
  · exact show (-500 : Int) ≠ 0 by decide

theorem startResponse_answered {s : Sys} (hres : s.c.result ≠ 0) : Answered (startResponse s).c := by
  intro _
  have hkept : (cgiSetResponseHeaders (beginResponse s) (codeInfoOf s.c.result)).c.result =
      s.c.result := by
    obtain ⟨_, _, _, _, _, _, heq, -⟩ :=
      cgiSetResponseHeaders_frame (beginResponse s) (codeInfoOf s.c.result)
    exact (congrArg Response.result heq).trans rfl
  have hsent := (sendBuffered_result _).trans hkept
  unfold startResponse
  dsimp only
  generalize sendBuffered _ = t at hsent ⊢
  split
  · split
    · exact fun h0 => hres (hsent.symm.trans h0)
    · exact fun h0 => hres (hsent.symm.trans h0)
  · exact show (-500 : Int) ≠ 0 by decide

theorem loadContent_result (s : Sys) (caller : Caller) :
    (loadContent s caller).1.c.result = s.c.result ∨ (loadContent s caller).1.c.result = -500 := by
  rcases loadContent_cases s caller with ⟨hframe, -⟩ | ⟨f, hf, -, hafter, -⟩
  · exact hframe.result
  · have hread := (readerOf_frame hf s.w s.c.toResponse).result
    show Response.result (loadContent s caller).1.c.toResponse = _ ∨
      Response.result (loadContent s caller).1.c.toResponse = _
    rw [hafter, afterRead]
    split
    · rw [storeChunk_result]
      exact hread
    · rw [storePlain_result]
      exact hread

theorem sendBody_answered {s : Sys} {caller : Caller} (hres : s.c.result ≠ 0) :
    Answered (sendBody s caller).c := by
  intro _
  have hloaded : (cgiLoadContentToSend s caller).1.c.result ≠ 0 := by
    obtain ⟨t, d, -, hload, heq⟩ := cgiLoadContentToSend_spec s caller
    have hkept := loadContent_result (s.setResponse { s.c.toResponse with peak := 0 }) caller
    rw [hload] at hkept
    rw [heq]
    rcases hkept with hkept | hkept
    · exact fun h0 => hres (hkept.symm.trans h0)
    · exact fun h0 => by cases hkept.symm.trans h0
  unfold sendBody
  dsimp only
  generalize cgiLoadContentToSend s caller = u at hloaded ⊢
  have hsent := sendBuffered_result u.1
  split
  · split
    · exact fun h0 => hloaded (hsent.symm.trans h0)
    · exact show (-500 : Int) ≠ 0 by decide
  · split
    · exact hloaded
    · exact hloaded

theorem answered_freed {s s' : Sys} (h : FreedFrame s s') : Answered s'.c := by
  obtain ⟨_, _, _, _, _, _, rfl, -⟩ := h
  exact answered_of_receiving (.inl rfl)

/-- Every action keeps the result of a response. -/
theorem answered_step {s s' : Sys} (hi : Answered s.c) (h : Micro s s') : Answered s'.c := by
  cases h with
  | environment w net hpcbs => exact hi
  | receive p hlive hfit =>
    obtain ⟨_, hresp⟩ := (RxFrame.receivePbuf s.c p.chain).response
    show Request.state (s.c.receivePbuf p.chain).toRequest = _ ∨ _ →
      Response.result (s.c.receivePbuf p.chain).toResponse ≠ 0
    rw [(RxFrame.receivePbuf s.c p.chain).request, hresp]
    exact hi
  | peerClosed => exact hi
  | touch t => exact hi
  | acknowledged len => exact hi
  | dequeue hst =>
    refine answered_of_receiving (.inl ?_)
    show (Request.state s.c.dequeue.toRequest).receiving
    rw [(RxFrame.dequeue s.c).request]
    exact hst
  | startRequest hst hlen => exact answered_of_receiving (.inl rfl)
  | parseHeader hst hlen =>
    refine answered_of_receiving (.inl ?_)
    rw [parseHeader_state s s.c.requestLength (by omega)]
    split
    · rfl
    · rw [hst]
      rfl
  | tooLarge hst => exact answered_of_receiving (.inl (by
      show s.c.state.receiving
      rw [hst]
      rfl))
  | headersEnd hst hok =>
    rcases headersEnd_state s with h | h | h
    · exact answered_of_receiving (.inl (by rw [h]; rfl))
    · exact answered_of_receiving (.inl (by rw [h]; rfl))
    · exact answered_of_receiving (.inr h)
  | refuse hst hbad hsending => exact fun _ => ne_of_lt hbad
  | chunkLength hst hok =>
    refine answered_of_receiving (.inl ?_)
    rcases chunkLength_state s s.c.requestLength with h | h
    · rw [h, hst]
      rfl
    · rw [h]
      rfl
  | content size hst hok =>
    refine answered_of_receiving (offerContent_state s size ?_)
    rcases hst with h | ⟨h, -⟩
    · rw [h]
      rfl
    · rw [h]
      rfl
  | complete hst hok =>
    refine answered_of_receiving (.inr ?_)
    show Request.state (completeRequest s).c.toRequest = _
    rw [show (completeRequest s).c.toRequest = s.c.toRequest from
      (CallFrame.completeRequest s).request]
    exact hst
  | sendRemaining hst hres hleft => exact sendRemaining_answered hres
  | startResponse hst hres hfirst => exact startResponse_answered hres
  | headerAcked hst hres hsent =>
    intro _
    unfold headerAcked
    split
    · exact hres
    · exact hres
  | sendBody caller hst hres hsent hstage => exact sendBody_answered hres
  | requestEnd hst =>
    unfold requestEnd
    split
    · exact answered_freed (closeHttpContext_frame s)
    · split
      · obtain ⟨_, _, heq, -⟩ := resetHttpContext_spec (s.note (.reset s.c.toRequest s.c.toResponse))
        rw [heq]
        exact answered_of_receiving (.inl rfl)
      · exact answered_freed (closeHttpContext_frame s)
  | peerGone hst hpeer => exact answered_of_receiving (.inl hst)
  | close => exact answered_freed (closeHttpContext_frame s)
  | free hgone => exact answered_freed (freeHttpContext_frame s)
  | outOfFuel => exact hi

theorem SlotReach.answered {c : RequestContext} (h : SlotReach c) : Answered c := by
  refine SlotReach.always (answered_of_receiving (.inl rfl)) (fun s pcb ip => ?_)
    (fun s s' _ hi hm => answered_step hi hm) h
  obtain ⟨_, _, _, heq⟩ := acceptContext_spec s pcb ip
  rw [heq]
  exact answered_of_receiving (.inl rfl)

/-! ## One sent event -/

/-- The handler, asked while the body is sent, returns at least one byte for the room behind
the pending ones. -/
def Loads (s : Sys) : Prop :=
  ∃ f, readerOf s.c.toRequest = some f ∧ s.c.dwOperStage < stageEnd ∧
    0 < (readOf f s.w { s.c.toRequest with state := .sendingBody }
      { s.c.toResponse with peak := 0 }).size

/-- A sent event with window `v` finds something to send: the content is at its end, the
window is no larger than what is pending, the response has not begun, or it is no error and
the handler has more. -/
def Moves (v : Nat) (s : Sys) : Prop :=
  s.c.dwOperStage = stageEnd ∨ (v : Int) ≤ s.c.bytesLeft ∨ s.c.sending = false ∨
    (s.c.state = .sendingBody ∨ 0 ≤ s.c.result) ∧ Loads s

/-- The sent event, taken apart: what is pending goes out, or the response moves on. -/
theorem httpResponseProc_sent {s : Sys} (hst : s.c.state.receiving = false)
    (hres : s.c.result ≠ 0) (hleft : 0 < s.c.bytesLeft) :
    httpResponseProc s .sent =
      if s.c.dwOperStage = stageEnd then sendRemaining s
      else if (s.sndbuf : Int) ≤ s.c.bytesLeft then sendRemaining s.afterSndbuf
      else
        let s' := responseHeaderStep s.afterSndbuf .sent
        if s.c.sending = false ∧ s'.c.state = .requestEnd then s'
        else if s'.c.state = .sendingBody then sendBody s' .sent
        else s' := by
  unfold httpResponseProc
  rw [if_neg (by rw [hst, not_or]; exact ⟨by decide, hres⟩)]
  by_cases hend : s.c.dwOperStage = stageEnd
  · rw [if_pos ⟨hleft, hend⟩, if_pos hend]
  · rw [if_neg (fun h => hend h.2), if_neg hend]
    by_cases hfull : (s.sndbuf : Int) ≤ s.c.bytesLeft
    · rw [if_pos ⟨hleft, hfull⟩, if_pos hfull]
    · rw [if_neg (fun h => hfull h.2), if_neg hfull, if_pos hleft]
      rfl

/-- A response that begins writes its header. -/
theorem startResponse_handsOver {s : Sys} (hwindow : 0 < s.sndbuf) (hok : s.writeOk = true)
    (hmem : s.c.mem.length = memSize) : HandsOver s (startResponse s) := by
  have hbegin : (beginResponse s).c.mem.length = memSize := hmem
  have hleft := cgiSetResponseHeaders_pending hbegin (length_codeInfoOf s.c.result)
  obtain ⟨t, ht, heq⟩ := cgiSetResponseHeaders_spec (beginResponse s) (codeInfoOf s.c.result)
  obtain ⟨_, _, _, _, _, _, hframe, hlen⟩ :=
    cgiSetResponseHeaders_frame (beginResponse s) (codeInfoOf s.c.result)
  have hkept : (cgiSetResponseHeaders (beginResponse s) (codeInfoOf s.c.result)).c.mem ≠ [] := by
    refine List.ne_nil_of_length_pos ?_
    show 0 < (Response.mem (cgiSetResponseHeaders (beginResponse s)
      (codeInfoOf s.c.result)).c.toResponse).length
    rw [hframe]
    dsimp only
    rw [hlen]
    exact hmem.symm ▸ (by decide : 0 < memSize)
  have hgo : (cgiSetResponseHeaders (beginResponse s) (codeInfoOf s.c.result)).sndbuf = s.sndbuf ∧
      (cgiSetResponseHeaders (beginResponse s) (codeInfoOf s.c.result)).writeOk = s.writeOk ∧
      ∃ l, (cgiSetResponseHeaders (beginResponse s) (codeInfoOf s.c.result)).c.log =
        s.c.log ++ l := by
    obtain ⟨w, r, log, rfl, -⟩ := ht
    rw [heq]
    exact ⟨rfl, rfl, _, List.append_assoc s.c.log log [_]⟩
  unfold startResponse
  dsimp only
  generalize cgiSetResponseHeaders _ _ = u at hleft hkept hgo ⊢
  obtain ⟨hsnd, hwrite, l, hlog⟩ := hgo
  have hsent := HandsOver.of_later hlog (sendBuffered_handsOver hleft (by rw [hsnd]; exact hwindow)
    (by rw [hwrite]; exact hok) hkept)
  split
  · split
    · exact hsent.of_log rfl
    · exact hsent.of_log rfl
  · exact hsent.of_log rfl

theorem sendBody_handsOver {s : Sys} (hst : s.c.state = .sendingBody) (hleft : 0 < s.c.bytesLeft)
    (hwindow : 0 < s.sndbuf) (hok : s.writeOk = true) (hmem : s.c.mem.length = memSize) :
    HandsOver s (sendBody s .sent) ↔ Loads s := by
  obtain ⟨t, d, ht, hload, heq⟩ := cgiLoadContentToSend_spec s .sent
  have hmore := loadContent_bytesLeft (s.setResponse { s.c.toResponse with peak := 0 }) .sent
  have hkept := loadContent_kept (s.setResponse { s.c.toResponse with peak := 0 }) .sent
  have hcases := loadContent_cases (s.setResponse { s.c.toResponse with peak := 0 }) .sent
  rw [hload] at hmore hkept hcases
  have hmem' : t.c.mem.length = memSize := hkept.size hmem
  have hreq : { s.c.toRequest with state := HttpState.sendingBody } = s.c.toRequest := by
    rw [← hst]
  have hloads : 0 < d ↔ Loads s := by
    unfold Loads
    rw [hreq]
    constructor
    · intro hd
      rcases hcases with ⟨-, hd', -⟩ | ⟨f, hf, hstage, -, hd'⟩
      · exact absurd hd (not_lt.mpr hd')
      · rw [show d = _ from hd', hasData_pos] at hd
        exact ⟨f, hf, hstage, hd⟩
    · rintro ⟨f, hf, hstage, hsize⟩
      rcases hcases with ⟨-, -, hnone | hend⟩ | ⟨g, hg, -, -, hd'⟩
      · rw [show readerOf s.c.toRequest = none from hnone] at hf
        cases hf
      · exact absurd hstage (Nat.not_lt.mpr hend)
      · rw [show readerOf s.c.toRequest = some g from hg] at hf
        cases hf
        rw [show d = _ from hd', hasData_pos]
        exact hsize
  obtain ⟨w, r, log, rfl, hcalls⟩ := ht
  unfold sendBody
  dsimp only
  rw [heq]
  rw [← hloads]
  by_cases hd : 0 < d
  · rw [if_pos hd]
    refine ⟨fun _ => hd, fun _ => ?_⟩
    have hsent := HandsOver.of_later (List.append_assoc s.c.log log [_])
      (sendBuffered_handsOver (s := (Sys.mk w { s.c with
        toResponse := r, log := s.c.log ++ log } s.net).note
          (.load s.w s.c.toRequest { s.c.toResponse with peak := 0 } r d))
        (lt_of_lt_of_le hleft hmore) hwindow hok
        (List.ne_nil_of_length_pos (lt_of_lt_of_eq (by decide) hmem'.symm)))
    split
    · exact hsent.of_log rfl
    · exact hsent.of_log rfl
  · rw [if_neg hd]
    refine ⟨fun hsent => ?_, fun h => absurd h hd⟩
    replace hsent := hsent.of_log (u := (Sys.mk w { s.c with
        toResponse := r, log := s.c.log ++ log } s.net).note
          (.load s.w s.c.toRequest { s.c.toResponse with peak := 0 } r d)) (by split <;> rfl)
    refine absurd hsent (not_handsOver (List.append_assoc s.c.log log
      [.load s.w s.c.toRequest { s.c.toResponse with peak := 0 } r d]) fun a ha => ?_)
    rcases List.mem_append.mp ha with ha | ha
    · obtain ⟨_, _, _, rfl⟩ := hcalls a ha
      rfl
    · rw [List.mem_singleton.mp ha]
      rfl

theorem HandsOver.more {s t u : Sys} {l : List Act} (h : HandsOver s t)
    (hlog : u.c.log = t.c.log ++ l) : HandsOver s u := by
  obtain ⟨acts, bs, hacts, hbs, hne⟩ := h
  refine ⟨acts ++ l, bs, ?_, List.mem_append_left _ hbs, hne⟩
  rw [hlog, hacts, List.append_assoc]

/-- The case of a window that is larger than what is pending. -/
theorem wideWindow_handsOver {s : Sys} (hst : s.c.state = .sendingHeader ∨ s.c.state = .sendingBody)
    (hleft : 0 < s.c.bytesLeft) (hwindow : 0 < s.sndbuf) (hok : s.writeOk = true)
    (hmem : s.c.mem.length = memSize) :
    HandsOver s (let s' := responseHeaderStep s .sent
        if s.c.sending = false ∧ s'.c.state = .requestEnd then s'
        else if s'.c.state = .sendingBody then sendBody s' .sent
        else s') ↔
      s.c.sending = false ∨ (s.c.state = .sendingBody ∨ 0 ≤ s.c.result) ∧ Loads s := by
  dsimp only
  by_cases hfirst : s.c.sending = false
  · have hstep : responseHeaderStep s .sent = startResponse s := if_pos hfirst
    have hstart := startResponse_handsOver hwindow hok hmem
    rw [hstep]
    refine ⟨fun _ => .inl hfirst, fun _ => ?_⟩
    split
    · exact hstart
    · split
      · obtain ⟨_, _, _, _, _, _, _, log, _, heq, -⟩ := RespFrame.sendBody (startResponse s) .sent
        exact hstart.more (congrArg (fun t : Sys => t.c.log) heq)
      · exact hstart
  · rw [if_neg fun h => hfirst h.1, or_iff_right hfirst]
    rcases hst with hst | hst
    · have hstep : responseHeaderStep s .sent = headerAcked s := by
        unfold responseHeaderStep
        rw [if_neg hfirst, if_pos ⟨hst, rfl⟩]
      rw [hstep]
      by_cases hbad : s.c.result < 0
      · have hacked : headerAcked s = (s.note (.refused s.c.toResponse)).setState .requestEnd :=
          if_pos hbad
        rw [hacked, if_neg (by exact fun h => nomatch h)]
        refine ⟨fun h => ?_, fun h => ?_⟩
        · have hlog : ((s.note (.refused s.c.toResponse)).setState .requestEnd).c.log =
              s.c.log ++ [.refused s.c.toResponse] := rfl
          refine absurd h (not_handsOver hlog fun a ha => ?_)
          rw [List.mem_singleton.mp ha]
          rfl
        · rcases h.1 with h | h
          · rw [hst] at h
            cases h
          · exact absurd hbad (not_lt.mpr h)
      · have hacked : headerAcked s = s.setState .sendingBody := if_neg hbad
        rw [hacked, if_pos (show (s.setState .sendingBody).c.state = .sendingBody from rfl)]
        have hbody := sendBody_handsOver (s := s.setState .sendingBody) rfl hleft hwindow hok hmem
        exact hbody.trans ⟨fun h => ⟨.inr (not_lt.mp hbad), h⟩, fun h => h.2⟩
    · have hstep : responseHeaderStep s .sent = s := by
        unfold responseHeaderStep
        rw [if_neg hfirst, if_neg fun h => by rw [hst] at h; cases h.1]
      rw [hstep, if_pos hst]
      exact (sendBody_handsOver hst hleft hwindow hok hmem).trans
        ⟨fun h => ⟨.inl hst, h⟩, fun h => h.2⟩

/-- In every reachable state with pending bytes, a sent event with an open window hands at
least one byte to `altcp_write` exactly when the state is one of `Moves`. -/
theorem sender_progress {sv : Server} (h : sv.Reachable) {c : RequestContext} (hc : c ∈ sv.slots)
    (hst : c.state = .sendingHeader ∨ c.state = .sendingBody) (hleft : 0 < c.bytesLeft)
    {v : Nat} (hv : 0 < v) {a : Answers} {l : List Nat} (hwindow : a.sndbuf = v :: v :: l)
    (hwrite : ∀ ok ∈ a.write, ok = true) :
    HandsOver (sv.sys a c) (httpResponseProc (sv.sys a c) .sent) ↔ Moves v (sv.sys a c) := by
  have hs := h.slot hc
  have hrec : c.state.receiving = false := by
    rcases hst with hst | hst
    · rw [hst]
      rfl
    · rw [hst]
      rfl
  have hpcb : c.pcb.isSome := by
    by_contra hnone
    rw [Option.not_isSome_iff_eq_none] at hnone
    rw [(hs.shape.free hnone).state] at hrec
    cases hrec
  have hok : (sv.sys a c).writeOk = true := by
    show (c.pcb.isSome && a.write.headD true) = true
    rw [hpcb, Bool.true_and]
    cases hw : a.write with
    | nil => rfl
    | cons ok l => exact hwrite ok (by rw [hw]; exact List.mem_cons_self ..)
  have hnone : c.pcb.isNone = false := by
    rw [← Option.not_isSome, hpcb]
    rfl
  have hsnd : (sv.sys a c).sndbuf = v ∧ (sv.sys a c).afterSndbuf.sndbuf = v := by
    unfold Sys.sndbuf
    constructor
    · show (if c.pcb.isNone then 0 else a.sndbuf.headD 0) = v
      rw [hnone, hwindow]
      rfl
    · show (if c.pcb.isNone then 0 else a.sndbuf.tail.headD 0) = v
      rw [hnone, hwindow]
      rfl
  have hmem : c.mem ≠ [] := List.ne_nil_of_length_pos (lt_of_lt_of_eq (by decide) hs.shape.mem.symm)
  rw [httpResponseProc_sent (s := sv.sys a c) hrec (hs.answered hst) hleft]
  by_cases hend : c.dwOperStage = stageEnd
  · rw [if_pos (show (sv.sys a c).c.dwOperStage = stageEnd from hend)]
    exact ⟨fun _ => .inl hend, fun _ =>
      sendRemaining_handsOver (s := sv.sys a c) hleft (by rw [hsnd.1]; exact hv) hok hmem⟩
  · rw [if_neg (show (sv.sys a c).c.dwOperStage ≠ stageEnd from hend), hsnd.1]
    by_cases hfull : (v : Int) ≤ c.bytesLeft
    · rw [if_pos (show (v : Int) ≤ (sv.sys a c).c.bytesLeft from hfull)]
      refine ⟨fun _ => .inr (.inl hfull), fun _ => ?_⟩
      exact HandsOver.of_later (List.append_nil _).symm
        (sendRemaining_handsOver (s := (sv.sys a c).afterSndbuf) hleft
          (by rw [hsnd.2]; exact hv) hok hmem)
    · rw [if_neg (show ¬(v : Int) ≤ (sv.sys a c).c.bytesLeft from hfull)]
      have hwide := wideWindow_handsOver (s := (sv.sys a c).afterSndbuf) hst hleft
        (by rw [hsnd.2]; exact hv) hok hs.shape.mem
      refine Iff.trans ⟨fun h => ?_, fun h => ?_⟩ (hwide.trans ⟨fun h => ?_, fun h => ?_⟩)
      · exact h
      · exact HandsOver.of_later (List.append_nil _).symm h
      · exact .inr (.inr h)
      · exact (h.resolve_left hend).resolve_left hfull

theorem HandsOver.countP {s s' : Sys} (h : HandsOver s s') :
    s.c.log.countP Act.isWrite < s'.c.log.countP Act.isWrite := by
  obtain ⟨acts, bs, hlog, hbs, -⟩ := h
  have hpos : 0 < acts.countP Act.isWrite := List.countP_pos_iff.mpr ⟨_, hbs, rfl⟩
  rw [hlog, List.countP_append]
  omega

/-- A request for the description of the device; one byte of the header goes out. -/
def pendingRun : List (Answers × Event) :=
  [(openNet, .accept 7), (⟨[1, 0], [], []⟩, receiveText 0 "GET /upnp_device.xml HTTP/1.1\r\n\r\n")]

/-- A network with a window of `n` bytes. -/
def windowNet (n : Nat) : Answers := ⟨[n, n], [], []⟩

/-- With a window of 100 bytes the rest of the header goes on its way. -/
theorem sender_progress_narrow :
    let sv := (Server.boot plainWorld).run pendingRun
    HandsOver (sv.sys (windowNet 100) (sv.slot 0))
      (httpResponseProc (sv.sys (windowNet 100) (sv.slot 0)) .sent) := by
  have hrun : (Server.boot plainWorld).RunLegal pendingRun ∧
      0 < ((Server.boot plainWorld).run pendingRun).slots.length ∧
      (((Server.boot plainWorld).run pendingRun).slot 0).state = .sendingHeader ∧
      0 < (((Server.boot plainWorld).run pendingRun).slot 0).bytesLeft ∧
      ((100 : Nat) : Int) ≤ (((Server.boot plainWorld).run pendingRun).slot 0).bytesLeft := by
    decide +kernel
  obtain ⟨hlegal, hslot, hst, hleft, hmore⟩ := hrun
  have hmoves : ∀ (sv : Server) (c : RequestContext), ((100 : Nat) : Int) ≤ c.bytesLeft →
      Moves 100 (sv.sys (windowNet 100) c) := fun _ _ h => .inr (.inl h)
  exact (sender_progress ((Server.Reachable.boot plainWorld).run hlegal) (Server.slot_mem hslot)
    (.inl hst) hleft (v := 100) (a := windowNet 100) (l := []) (by decide) rfl
    (fun ok h => by cases h)).mpr (hmoves _ _ hmore)

/-- With 300 bytes the handler is asked first, has no room behind the header, and nothing is
sent. -/
theorem sender_progress_stuck :
    let sv := (Server.boot plainWorld).run pendingRun
    (Server.boot plainWorld).RunLegal pendingRun ∧ (sv.slot 0).state = .sendingHeader ∧
      0 < (sv.slot 0).bytesLeft ∧
      ¬HandsOver (sv.sys (windowNet 300) (sv.slot 0))
        (httpResponseProc (sv.sys (windowNet 300) (sv.slot 0)) .sent) := by
  have hrun : (Server.boot plainWorld).RunLegal pendingRun ∧
      (((Server.boot plainWorld).run pendingRun).slot 0).state = .sendingHeader ∧
      0 < (((Server.boot plainWorld).run pendingRun).slot 0).bytesLeft ∧
      (httpResponseProc (((Server.boot plainWorld).run pendingRun).sys (windowNet 300)
        (((Server.boot plainWorld).run pendingRun).slot 0)) .sent).c.log.countP Act.isWrite ≤
      (((Server.boot plainWorld).run pendingRun).slot 0).log.countP Act.isWrite := by
    decide +kernel
  obtain ⟨hlegal, hst, hleft, hcount⟩ := hrun
  exact ⟨hlegal, hst, hleft, fun h => absurd h.countP (Nat.not_lt.mpr hcount)⟩

end Httpd
