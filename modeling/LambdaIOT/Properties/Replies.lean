import LambdaIOT.Httpd.Sending
import LambdaIOT.Properties.Boundaries
import LambdaIOT.Properties.Stranded

/-!
# What a request comes to

The verdict on a header section, the answers of the handlers to an offer of content, and the
beginning of a response: for each what the conditions of a call say about it. A request that is
turned away is an error, a handler answers an offer with a count that is not negative, and a
response whose header is accepted does not end in the call that begins it.
-/

namespace Httpd

open CMem Lwip Relation

/-! ## The end of the header section -/

/-- `OnHeadersReceived` leaves the result alone, or it is an error of its own. -/
theorem onHeadersReceived_result {cgi : Cgi} {f : Request → Call → Call}
    (hf : cgi.onHeadersReceived = some f) (h : Request) (c : Call) :
    (f h c).r.result = c.r.result ∨ (f h c).r.result = codeNotFound ∨ (f h c).r.result = -500 := by
  cases cgi with
  | auth =>
    cases hf
    exact .inl rfl
  | form =>
    cases hf
    refine .inl ?_
    unfold formOnHeadersReceived
    dsimp only
    split <;> rfl
  | upload =>
    cases hf
    unfold uploadOnHeadersReceived
    split
    · exact .inr (.inl rfl)
    · dsimp only
      split
      · exact .inr (.inr rfl)
      · exact .inl rfl
    · exact .inl rfl
  | _ => cases hf

section Verdict

variable {s : Sys}

/-- A request that is turned away is an error. -/
theorem headersEnd_turnedAway (hchosen : Chosen s.c) {lines : List Bytes}
    (h : TurnedAway s.w s.c.ipRemote
      (HeaderData.ofParts s.c.toRequest s.c.toResponse lines).toHeaderFields) :
    (headersEnd s).c.result < 0 := by
  obtain ⟨hoptions, -, hverdict⟩ := authorize_verdict s.w s.c.toRequest s.c.toResponse
  obtain ⟨st, t, heq, -⟩ := headersEnd_eq s
  rw [heq]
  unfold cgiHeadersReceived
  dsimp only
  split
  · -- its handler asks for a session
    rename_i hrefused
    show (authorize s.w s.c.toRequest s.c.toResponse).authorized < 0
    rcases hverdict with ⟨hbad, -⟩ | ⟨hgood, -⟩
    · rw [hbad]
      decide
    · exact absurd hgood hrefused.2.2
  · rename_i hnot
    split
    · rename_i hserved
      exfalso
      have hsome : s.c.handler.isSome = true := hserved.1
      obtain ⟨cgi, hcgi⟩ := Option.isSome_iff_exists.mp hsome
      have hown := hchosen.options cgi hcgi
      have h' : cgi.closed = true ∧
            loggedIn s.w (getSession s.w.sessions s.c.token) s.c.ipRemote = false ∨
          methodEnabled { setupContext.toRequest with requestMethod := s.c.requestMethod }
            cgi.optionsAllowed = false := by
        have hfields : (HeaderData.ofParts s.c.toRequest s.c.toResponse lines).handler = some cgi :=
          hcgi
        unfold TurnedAway at h
        rw [hfields] at h
        exact h
      rcases h' with ⟨hclosed, hnone⟩ | hmethod
      · have hrequired : s.c.options.authRequired = true := by
          rw [hown]
          exact (Bool.not_eq_false _).mp (closed_required hclosed)
        have hauth : (authorize s.w s.c.toRequest s.c.toResponse).authorized = codeRedirect := by
          unfold authorize
          dsimp only
          rw [if_pos ⟨by rw [hnone]; rfl, hrequired, hchosen.session cgi hcgi hclosed⟩]
        refine hnot ⟨hsome, ?_, ?_⟩
        · rw [hoptions]
          exact hrequired
        · rw [hauth]
          decide
      · have henabled := hserved.2
        rw [hoptions, hown] at henabled
        exact Bool.noConfusion (hmethod.symm.trans henabled)
    · exact cgiNobody_result _ _

/-- A request that is let in is not redirected. -/
theorem headersEnd_letIn (hchosen : Chosen s.c) (hres : 0 ≤ s.c.result) {cgi : Cgi}
    (hcgi : s.c.handler = some cgi) (hlet : cgi.optionsAllowed.authRequired = false ∨
      loggedIn s.w (getSession s.w.sessions s.c.token) s.c.ipRemote = true) :
    (headersEnd s).c.result ≠ codeRedirect := by
  have hauth : (authorize s.w s.c.toRequest s.c.toResponse).authorized = codeOk ∧
      (authorize s.w s.c.toRequest s.c.toResponse).result = s.c.result := by
    unfold authorize
    dsimp only
    rw [if_neg]
    · exact ⟨rfl, rfl⟩
    · rintro ⟨hno, hrequired, -⟩
      rcases hlet with h | h
      · rw [hchosen.options cgi hcgi, h] at hrequired
        cases hrequired
      · rw [h] at hno
        cases hno
  have hredirect : codeRedirect = -307 := rfl
  obtain ⟨st, t, heq, -⟩ := headersEnd_eq s
  rw [heq]
  unfold cgiHeadersReceived
  dsimp only
  split
  · rename_i hrefused
    exact absurd hauth.1 hrefused.2.2
  · split
    · unfold Sys.invoke
      split
      · show (authorize s.w s.c.toRequest s.c.toResponse).result ≠ codeRedirect
        rw [hauth.2]
        omega
      · split
        · show (authorize s.w s.c.toRequest s.c.toResponse).result ≠ codeRedirect
          rw [hauth.2]
          omega
        · rename_i g hg
          obtain ⟨f, hf, rfl⟩ := Option.map_eq_some_iff.mp hg
          rcases onHeadersReceived_result hf
              { s.c.toRequest with state := st, tLastSent := t }
              (Sys.call ⟨s.w, { s.c with
                toRequest := { s.c.toRequest with state := st, tLastSent := t }
                toResponse := authorize s.w s.c.toRequest s.c.toResponse
                log := s.c.log ++ [.headersEnd { s.c.toRequest with state := st, tLastSent := t }
                  (authorize s.w s.c.toRequest s.c.toResponse)
                  (loggedIn s.w (authorize s.w s.c.toRequest s.c.toResponse).session
                    s.c.ipRemote)] }, s.net⟩) with h | h | h
          · refine fun hbad => ?_
            have hsame := h.symm.trans hbad
            have hsame' : (authorize s.w s.c.toRequest s.c.toResponse).result = codeRedirect :=
              hsame
            rw [hauth.2] at hsame'
            omega
          · exact fun hbad => absurd (h.symm.trans hbad) (by decide)
          · exact fun hbad => absurd (h.symm.trans hbad) (by decide)
    · show (cgiNobody _ (authorize s.w s.c.toRequest s.c.toResponse)).result ≠ codeRedirect
      unfold cgiNobody
      rw [hauth.2, if_neg (by omega)]
      split
      · rename_i hnobody
        have hnone : s.c.handler.isNone = true := hnobody.2
        rw [hcgi] at hnone
        cases hnone
      · split
        · exact show codeNotFound ≠ codeRedirect by decide
        · exact show (-500 : Int) ≠ codeRedirect by decide

/-- Behind the header section nothing is pending in the send buffer. -/
theorem headersEnd_bytesLeft (h : s.c.bytesLeft = 0) : (headersEnd s).c.bytesLeft = 0 := by
  obtain ⟨st, t, heq, -⟩ := headersEnd_eq s
  rw [heq]
  exact cgiHeadersReceived_bytesLeft ((authorize_bytesLeft ..).trans h)

end Verdict

/-! ## Offers -/

/-- A handler answers an offer with a count that is not negative; a form has to have room and
content to come. -/
theorem onContentReceived_nonneg {cgi : Cgi} {f : Request → Call → Bytes → Int → Call × Int}
    (hf : cgi.onContentReceived = some f) (h : Request) (c : Call) (buffer : Bytes) {size : Int}
    (hsize : 1 ≤ size)
    (hform : cgi = .form → c.r.bytesLeft ≤ 224 ∧ h.contentReceived ≤ h.contentLength) :
    0 ≤ (f h c buffer size).2 := by
  cases cgi with
  | auth =>
    cases hf
    have hall : (authOnPostData c buffer size).2 = size := by
      unfold authOnPostData
      dsimp only
      split
      · split <;> rfl
      · rfl
    show 0 ≤ (authOnPostData c buffer size).2
    omega
  | form =>
    cases hf
    obtain ⟨hleft, hmore⟩ := hform rfl
    have hmax : (maxSendBufSize : Int) = 256 := rfl
    unfold webOnFormReceived
    dsimp only
    split
    · split
      · exact le_refl _
      · split
        · rename_i hpos
          exact le_of_lt hpos
        · show 0 ≤ min _ _
          omega
    · show 0 ≤ min _ _
      omega
  | upload =>
    cases hf
    show 0 ≤ (uploadOnContentReceived h c size).2
    unfold uploadOnContentReceived
    dsimp only
    split
    · split
      · exact le_refl _
      · split
        · rename_i hpos
          exact le_of_lt hpos
        · exact le_refl _
    · exact le_refl _
  | _ => cases hf

theorem onContentReceived_le {cgi : Cgi} {f : Request → Call → Bytes → Int → Call × Int}
    (hf : cgi.onContentReceived = some f) (h : Request) (c : Call) (buffer : Bytes) (size : Int) :
    (f h c buffer size).2 ≤ max size 0 := by
  cases cgi with
  | auth =>
    cases hf
    have hall : (authOnPostData c buffer size).2 = size := by
      unfold authOnPostData
      dsimp only
      split
      · split <;> rfl
      · rfl
    show (authOnPostData c buffer size).2 ≤ _
    omega
  | form =>
    cases hf
    unfold webOnFormReceived
    dsimp only
    split
    · split
      · exact le_max_right _ _
      · split
        · show min _ _ ≤ _
          omega
        · show min _ _ ≤ _
          omega
    · show min _ _ ≤ _
      omega
  | upload =>
    cases hf
    show (uploadOnContentReceived h c size).2 ≤ _
    unfold uploadOnContentReceived FileSystem.webFwrite
    dsimp only
    split
    · split
      · exact le_max_right _ _
      · split
        · show min _ _ ≤ _
          omega
        · exact le_max_right _ _
    · exact le_max_right _ _
  | _ => cases hf

/-! ## The start of a response -/

theorem sendLoop_accepted (fuel : Nat) {s : Sys} (hlive : s.c.pcb.isSome = true)
    (hnet : NoneRefused s.net) : (sendLoop fuel s).2 = true := by
  induction fuel generalizing s with
  | zero => rfl
  | succ fuel ih =>
    have hok : s.afterSndbuf.writeOk = true := by
      show (s.c.pcb.isSome && s.net.write.headD true) = true
      rw [hlive, Bool.true_and]
      cases hw : s.net.write with
      | nil => rfl
      | cons ok rest => exact hnet ok (by rw [hw]; exact List.mem_cons_self ..)
    rw [sendLoop]
    split
    · dsimp only
      split
      · rfl
      · exact ih hlive fun b hb => hnet b (List.mem_of_mem_tail hb)
    · rfl

theorem sendBuffered_accepted {s : Sys} (hlive : s.c.pcb.isSome = true) (hnet : NoneRefused s.net) :
    (sendBuffered s).2 = true := sendLoop_accepted _ hlive hnet

theorem sendRemaining_accepted {s : Sys} (hlive : s.c.pcb.isSome = true)
    (hnet : NoneRefused s.net) : (sendRemaining s).c.state = s.c.state := by
  obtain ⟨_, _, _, _, _, _, heq, -⟩ := SendFrame.sendBuffered s
  unfold sendRemaining
  dsimp only
  rw [if_pos (sendBuffered_accepted hlive hnet), heq]

/-- A header that is accepted is not the end of the response, unless it redirects. -/
theorem startResponse_accepted {s : Sys} (hlive : s.c.pcb.isSome = true) (hnet : NoneRefused s.net)
    (hres : s.c.result ≠ codeRedirect) : (startResponse s).c.state = .sendingHeader := by
  have hkept : (cgiSetResponseHeaders (beginResponse s) (codeInfoOf s.c.result)).c.result =
      s.c.result := by
    obtain ⟨_, _, _, _, _, _, heq, -⟩ :=
      cgiSetResponseHeaders_frame (beginResponse s) (codeInfoOf s.c.result)
    exact (congrArg Response.result heq).trans rfl
  have hgo : (cgiSetResponseHeaders (beginResponse s) (codeInfoOf s.c.result)).c.pcb = s.c.pcb ∧
      (cgiSetResponseHeaders (beginResponse s) (codeInfoOf s.c.result)).net = s.net := by
    obtain ⟨_, ⟨_, _, _, rfl, -⟩, heq⟩ :=
      cgiSetResponseHeaders_spec (beginResponse s) (codeInfoOf s.c.result)
    rw [heq]
    exact ⟨rfl, rfl⟩
  unfold startResponse
  dsimp only
  generalize cgiSetResponseHeaders _ _ = u at hkept hgo ⊢
  have hsent : (sendBuffered u).2 = true :=
    sendBuffered_accepted (by rw [hgo.1]; exact hlive) (by rw [hgo.2]; exact hnet)
  have hresult : (sendBuffered u).1.c.result = s.c.result := by
    obtain ⟨_, _, _, _, _, _, hsend, -⟩ := SendFrame.sendBuffered u
    rw [hsend]
    exact hkept
  rw [if_pos hsent]
  split
  · rename_i hbad
    exact absurd (hresult.symm.trans hbad) hres
  · rfl

/-- A response that only begins does not end, unless it redirects or is refused. -/
theorem httpResponseProc_begins {s : Sys} (caller : Caller) (hlive : s.c.pcb.isSome = true)
    (hnet : NoneRefused s.net) (hst : s.c.state = .bodyDone ∨ s.c.state = .sendingHeader)
    (hfirst : s.c.sending = false) (hres : s.c.result ≠ codeRedirect) :
    (httpResponseProc s caller).c.state ≠ .requestEnd := by
  have hnot : s.c.state ≠ .requestEnd := by
    rcases hst with h | h
    · rw [h]
      decide
    · rw [h]
      decide
  have hstart : ∀ t : Sys, t.c = s.c → t.net.write = s.net.write →
      responseHeaderStep t caller = startResponse t ∧
        (startResponse t).c.state = .sendingHeader := by
    intro t hc hw
    refine ⟨if_pos (by rw [hc]; exact hfirst), startResponse_accepted (by rw [hc]; exact hlive) ?_
      (by rw [hc]; exact hres)⟩
    unfold NoneRefused
    rw [hw]
    exact hnet
  unfold httpResponseProc
  split
  · exact hnot
  · split
    · rw [sendRemaining_accepted hlive hnet]
      exact hnot
    · split
      · rw [sendRemaining_accepted (s := s.afterSndbuf) hlive hnet]
        exact hnot
      · dsimp only
        have hsame : (if 0 < s.c.bytesLeft then s.afterSndbuf else s).c = s.c ∧
            (if 0 < s.c.bytesLeft then s.afterSndbuf else s).net.write = s.net.write := by
          split <;> exact ⟨rfl, rfl⟩
        obtain ⟨hstep, hheader⟩ := hstart _ hsame.1 hsame.2
        generalize (if 0 < s.c.bytesLeft then s.afterSndbuf else s) = t at hstep hheader ⊢
        rw [hstep]
        split
        · rw [hheader]
          decide
        · split
          · rename_i hbody
            rw [hheader] at hbody
            cases hbody
          · rw [hheader]
            decide

/-! ## The end of the content -/

theorem webFileOpened_result (h : Request) (c : Call) (x : SSIContext) :
    (webFileOpened h c x).r.result = c.r.result ∨
      (webFileOpened h c x).r.result = codeNotModified := by
  rw [webFileOpened]
  split
  · exact .inl rfl
  · rename_i opened flag _
    dsimp only
    generalize (if flag.isSome = true then (opened.webFseek x.fp 0).getD opened else opened) = fs
    by_cases hold : x.ssi = 0 ∧ fs.webFtime c.r.responsePath ≠ 0 ∧ h.ifModified ≠ 0 ∧
        (fs.webFtime c.r.responsePath : Int) ≤ h.ifModified
    · rw [if_pos hold]
      exact .inr rfl
    · rw [if_neg hold]
      exact .inl rfl

theorem webRequestReceived_result (h : Request) (c : Call) :
    (webRequestReceived h c).r.result = c.r.result ∨
      (webRequestReceived h c).r.result = codeNotFound ∨
      (webRequestReceived h c).r.result = codeNotModified := by
  have hpath : (defaultPath c.r).result = c.r.result := by
    unfold defaultPath
    split <;> rfl
  rw [webRequestReceived]
  dsimp only
  split
  · rcases webFileOpened_result h _ _ with hopened | hopened
    · exact .inl (hopened.trans hpath)
    · exact .inr (.inr hopened)
  · exact .inr (.inl rfl)

theorem setResponsePath_result (r : Response) (s : Bytes) :
    (r.setResponsePath s).result = r.result := rfl

theorem filesFilter_result (r : Response) (argument : Option Bytes) :
    (filesFilter r argument).result = r.result := by
  unfold filesFilter
  cases argument with
  | none =>
    dsimp only
    rw [setResponsePath_result, setResponsePath_result]
  | some p =>
    dsimp only
    generalize (if at' p 0 = 47 then p.drop 1 else p) = q
    split
    · simp only [setResponsePath_result]
    · simp only [setResponsePath_result]

/-- Only the login answers content with a redirect. -/
theorem onRequestReceived_result {cgi : Cgi} {f : Request → Call → Call}
    (hf : cgi.onRequestReceived = some f) (hcgi : cgi ≠ .auth) (h : Request) {c : Call}
    (hres : c.r.result ≠ codeRedirect) : (f h c).r.result ≠ codeRedirect := by
  have hweb : ∀ c : Call, c.r.result ≠ codeRedirect →
      (webRequestReceived h c).r.result ≠ codeRedirect := by
    intro c hc
    rcases webRequestReceived_result h c with hr | hr | hr
    · rw [hr]
      exact hc
    · rw [hr]
      decide
    · rw [hr]
      decide
  cases cgi with
  | ssdp => cases hf
  | auth => exact absurd rfl hcgi
  | form =>
    cases hf
    unfold formOnRequestReceived
    dsimp only
    split
    · exact hweb c hres
    · exact hweb c hres
  | files =>
    cases hf
    unfold filesOnRequestReceived
    dsimp only
    rw [filesFilter_result]
    exact hres
  | upload =>
    cases hf
    show (uploadAllReceived c).r.result ≠ codeRedirect
    unfold uploadAllReceived
    split
    · exact hres
    · exact hres
  | webApp =>
    cases hf
    exact hweb c hres

theorem completeRequest_result {s : Sys} (hcgi : s.c.handler ≠ some .auth)
    (hres : s.c.result ≠ codeRedirect) : (completeRequest s).c.result ≠ codeRedirect := by
  have hcall : (cgiRequestReceived s).c.result ≠ codeRedirect := by
    unfold cgiRequestReceived Sys.invoke
    split
    · exact hres
    · rename_i cgi hhandler
      split
      · exact hres
      · rename_i g hg
        obtain ⟨f, hf, rfl⟩ := Option.map_eq_some_iff.mp hg
        exact onRequestReceived_result hf (fun h => hcgi (by rw [hhandler, h])) _ hres
  unfold completeRequest
  dsimp only
  split
  · exact show codeOk ≠ codeRedirect by decide
  · exact hcall

/-- Data that is queued behind a complete request is left to the response, unless that ends in the
same call. -/
theorem completeRequest_over {s : Sys} (hreach : SlotReach s.c) (hst : s.c.state = .bodyDone)
    (h : s.c.reqBufList ≠ [] → s.c.keepalive = true →
      NoneRefused s.net ∧ s.c.handler ≠ some .auth ∧ s.c.result ≠ codeRedirect)
    (caller : Caller) : ¬ResetWaiting (completeRequest s) caller := by
  intro hreset
  have hcall := CallFrame.completeRequest s
  have hkept := RoundKept.call hcall
  have hreq : (completeRequest s).c.toRequest = s.c.toRequest := hcall.request
  have hqueue : s.c.reqBufList ≠ [] := by
    intro hnil
    exact hreset.queued (hkept.queue.trans hnil)
  have hkeep : s.c.keepalive = true := (congrArg Request.keepalive hreq).symm.trans hreset.kept
  obtain ⟨hnet, hcgi, hres⟩ := h hqueue hkeep
  have hlive : (completeRequest s).c.pcb.isSome = true := by
    rw [show (completeRequest s).c.pcb = s.c.pcb from hkept.pcb]
    refine Option.isSome_iff_ne_none.mpr fun hnone => hqueue (hreach.shape.free hnone).queue
  have hfirst : (completeRequest s).c.sending = false :=
    (congrArg Request.sending hreq).trans (hreach.sendInv.early (.inr hst))
  refine httpResponseProc_begins caller hlive ?_ (.inl ?_) hfirst
    (completeRequest_result hcgi hres) hreset.ended
  · rw [show (completeRequest s).net = s.net from hkept.net]
    exact hnet
  · exact (congrArg Request.state hreq).trans hst

end Httpd
