import LambdaIOT.Httpd.Transfer

/-!
# A reused connection has its whole response

`HttpRequestProc` resets the context of a keep-alive connection when the request is at its
end. The end is also reached with bytes pending, and after a failed write, and the reset
forgets both. `Drained` is the condition on the steps of a response under which neither
happens; then every byte that was put into the send buffer has been accepted, in order.
-/

namespace Httpd

open CMem Lwip

/-! ## The condition -/

/-- Writes succeed, and a response ends only when nothing is pending: the header of an error
is acknowledged, or the content is at its end. -/
def Drained : Act → Prop
  | .write _ ok => ok = true
  | .refused r => r.bytesLeft = 0
  | .load _ _ before _ d => before.bytesLeft ≤ maxSendBufSize ∧ (d < 0 → before.bytesLeft = 0)
  | _ => True

instance : DecidablePred Drained := fun a => by
  apply @Act.casesOn (fun a => Decidable (Drained a)) a <;> intros <;> unfold Drained <;> infer_instance

/-- The response `r` that ends behind `log` was handed over whole. -/
structure Delivered (log : List Act) (r : Response) : Prop where
  written : (Transfer.ofLog log).failed = false
  drained : r.bytesLeft = 0
  whole : (Transfer.ofLog log).accepted =
    (Transfer.ofLog log).header ++ (Transfer.ofLog log).content

theorem Drained.apart {a : Act} (h : Drained a) : Apart a := by
  cases a with
  | load w h' before after d => exact h.1
  | _ => trivial

/-- Without a failed write the history is clean. -/
theorem ofLog_written {log : List Act} (h : ∀ a ∈ log, Drained a) :
    (Transfer.ofLog log).failed = false := by
  have hfold : ∀ (l : List Act) (t : Transfer), (∀ a ∈ l, Drained a) → t.failed = false →
      (l.foldl Transfer.add t).failed = false := by
    intro l
    induction l with
    | nil => exact fun t _ ht => ht
    | cons a l ih =>
      intro t hl ht
      rw [List.foldl_cons]
      refine ih _ (fun b hb => hl b (List.mem_cons_of_mem _ hb)) ?_
      have ha := hl a (List.mem_cons_self ..)
      cases a with
      | write bs ok =>
        rw [show ok = true from ha]
        exact ht
      | headers => rfl
      | reset => rfl
      | freed => rfl
      | _ => exact ht
  exact hfold log _ h rfl

/-! ## Failed writes -/

theorem sendLoop_fails (fuel : Nat) {s : Sys} (h : (sendLoop fuel s).2 = false) :
    ∃ bs, .write bs false ∈ (sendLoop fuel s).1.c.log := by
  induction fuel generalizing s with
  | zero => cases h
  | succ fuel ih =>
    rw [sendLoop] at h ⊢
    by_cases hleft : 0 < s.c.bytesLeft
    · rw [if_pos hleft] at h ⊢
      dsimp only at h ⊢
      by_cases hwindow : s.sndbuf = 0
      · rw [if_pos hwindow] at h
        cases h
      · rw [if_neg hwindow] at h ⊢
        by_cases hok : s.afterSndbuf.writeOk
        · rw [if_pos hok] at h ⊢
          exact ih h
        · rw [if_neg hok]
          have hfailed : s.afterSndbuf.writeOk = false := by simpa using hok
          refine ⟨load s.c.mem 0 (min s.c.bytesLeft.toNat s.sndbuf), List.mem_append_right _ ?_⟩
          rw [hfailed]
          exact List.mem_singleton.mpr rfl
    · rw [if_neg hleft] at h
      cases h

/-- Under the condition `sendBuffered` does not fail. -/
theorem sendBuffered_succeeds {s t : Sys} (log : List Act) (hdrained : ∀ a ∈ t.c.log, Drained a)
    (hlog : t.c.log = (sendBuffered s).1.c.log ++ log) : (sendBuffered s).2 = true := by
  by_contra hbad
  have hfailed : (sendBuffered s).2 = false := by simpa using hbad
  obtain ⟨bs, hbs⟩ := sendLoop_fails _ hfailed
  have hmem : Act.write bs false ∈ t.c.log := by
    rw [hlog]
    exact List.mem_append_left _ hbs
  exact absurd (hdrained _ hmem) (by exact fun h => nomatch h)

/-! ## The end of a response -/

/-- A response that is at its end has been sent. -/
def EndInv (c : RequestContext) : Prop :=
  c.state = .requestEnd → c.sending = true ∧ c.bytesLeft = 0

theorem endInv_of_ne {c : RequestContext} (h : c.state ≠ .requestEnd) : EndInv c :=
  fun hend => absurd hend h

theorem storeChunk_none {r : Response} {at_ : Int} {first : Bool} {k : Content} (h : k.size < 0) :
    (storeChunk r at_ first k).bytesLeft = r.bytesLeft := by
  unfold storeChunk
  dsimp only
  rw [if_neg (not_lt.mpr (le_of_lt h))]
  rfl

theorem storePlain_none {r : Response} {at_ : Int} {k : Content} (h : k.size < 0) :
    (storePlain r at_ k).bytesLeft = r.bytesLeft := by
  unfold storePlain
  dsimp only
  rw [if_pos h]
  rfl

/-- A call that loads nothing leaves the number of pending bytes alone. -/
theorem loadContent_none {s : Sys} (caller : Caller) (h : (loadContent s caller).2 < 0) :
    (loadContent s caller).1.c.bytesLeft = s.c.bytesLeft := by
  rcases loadContent_cases s caller with ⟨hframe, -⟩ | ⟨f, hf, -, hafter, hd⟩
  · exact hframe.bytesLeft
  · rw [hd, hasData_neg] at h
    have hframe := (readerOf_frame hf s.w s.c.toResponse).bytesLeft
    show Response.bytesLeft (loadContent s caller).1.c.toResponse = _
    rw [hafter, afterRead]
    split
    · rw [storeChunk_none h]
      exact hframe
    · rw [storePlain_none h]
      exact hframe

theorem startResponse_end {s : Sys} (hdrained : ∀ a ∈ (startResponse s).c.log, Drained a) :
    EndInv (startResponse s).c := by
  have hsent := sendBuffered_succeeds (t := startResponse s)
    (s := cgiSetResponseHeaders (beginResponse s) (codeInfoOf s.c.result)) [] hdrained
  unfold startResponse at hsent ⊢
  dsimp only at hsent ⊢
  generalize sendBuffered _ = u at hsent ⊢
  replace hsent := hsent (by
    rw [List.append_nil]
    split
    · split
      · rfl
      · rfl
    · rfl)
  rw [if_pos hsent]
  refine endInv_of_ne ?_
  split
  · exact fun h => nomatch h
  · exact fun h => nomatch h

theorem sendRemaining_end {s : Sys} (hi : EndInv s.c) (hleft : 0 < s.c.bytesLeft)
    (hdrained : ∀ a ∈ (sendRemaining s).c.log, Drained a) : EndInv (sendRemaining s).c := by
  have hsent : (sendBuffered s).2 = true := by
    refine sendBuffered_succeeds [] hdrained ?_
    rw [List.append_nil]
    unfold sendRemaining
    dsimp only
    split
    · rfl
    · rfl
  refine endInv_of_ne fun hend => ?_
  have hstate : (sendRemaining s).c.state = s.c.state := by
    obtain ⟨_, _, _, _, _, _, heq, -⟩ := SendFrame.sendBuffered s
    unfold sendRemaining
    dsimp only
    rw [if_pos hsent, heq]
  rw [hstate] at hend
  have hnone := (hi hend).2
  omega

theorem sendBody_end {s : Sys} {caller : Caller} (hst : s.c.state = .sendingBody)
    (hsending : s.c.sending = true) (hdrained : ∀ a ∈ (sendBody s caller).c.log, Drained a) :
    EndInv (sendBody s caller).c := by
  obtain ⟨t, d, hcall, hload, heq⟩ := cgiLoadContentToSend_spec s caller
  have hnone := loadContent_none (s := s.setResponse { s.c.toResponse with peak := 0 }) caller
  rw [hload] at hnone
  have hreq : t.c.toRequest = s.c.toRequest := hcall.request
  unfold sendBody at hdrained ⊢
  dsimp only at hdrained ⊢
  rw [heq] at hdrained ⊢
  generalize hu : t.note (.load s.w s.c.toRequest { s.c.toResponse with peak := 0 }
    t.c.toResponse d) = u at hdrained ⊢
  have huc : u.c.toRequest = s.c.toRequest := by
    rw [← hu]
    exact hreq
  by_cases hmore : 0 < d
  · rw [if_pos hmore] at hdrained ⊢
    have hsent : (sendBuffered u).2 = true := by
      refine sendBuffered_succeeds [] hdrained ?_
      rw [List.append_nil]
      split
      · rfl
      · rfl
    rw [if_pos hsent]
    refine endInv_of_ne fun hend => ?_
    obtain ⟨_, _, _, _, _, _, hframe, -⟩ := SendFrame.sendBuffered u
    rw [hframe] at hend
    rw [show s.c.state = u.c.state from (congrArg Request.state huc).symm] at hst
    rw [show u.c.state = .requestEnd from hend] at hst
    cases hst
  · rw [if_neg hmore] at hdrained ⊢
    by_cases hdone : d < 0
    · rw [if_pos hdone] at hdrained ⊢
      refine fun _ => ⟨(congrArg Request.sending huc).trans hsending, ?_⟩
      have hentry : .load s.w s.c.toRequest { s.c.toResponse with peak := 0 } t.c.toResponse d ∈
          u.c.log := by
        rw [← hu]
        exact List.mem_append_right _ (List.mem_singleton.mpr rfl)
      have hzero : s.c.bytesLeft = 0 := (hdrained _ hentry).2 hdone
      show u.c.bytesLeft = 0
      rw [← hu]
      exact (hnone hdone).trans hzero
    · rw [if_neg hdone]
      refine endInv_of_ne fun hend => ?_
      rw [show u.c.state = s.c.state from congrArg Request.state huc, hst] at hend
      cases hend

theorem endInv_freed {s s' : Sys} (h : FreedFrame s s') : EndInv s'.c := by
  obtain ⟨_, _, _, _, _, _, rfl, -⟩ := h
  exact endInv_of_ne fun h => nomatch h

theorem endInv_rx {s : Sys} {c : RequestContext} (hi : EndInv s.c) (h : RxFrame s.c c) :
    EndInv c := by
  intro hend
  rw [h.request] at hend ⊢
  obtain ⟨_, hresp⟩ := h.response
  exact ⟨(hi hend).1, (congrArg Response.bytesLeft hresp).trans (hi hend).2⟩

/-- Every action keeps it, under the condition. -/
theorem endInv_step {s s' : Sys} (hi : EndInv s.c) (h : Micro s s')
    (hdrained : ∀ a ∈ s'.c.log, Drained a) : EndInv s'.c := by
  cases h with
  | environment w net hpcbs => exact hi
  | receive p hlive hfit => exact endInv_rx hi (.receivePbuf ..)
  | peerClosed => exact hi
  | touch t => exact hi
  | acknowledged len => exact hi
  | dequeue hst => exact endInv_rx hi (.dequeue _)
  | startRequest hst hlen => exact endInv_of_ne fun h => nomatch h
  | parseHeader hst hlen =>
    refine endInv_of_ne fun hend => ?_
    rw [parseHeader_state s s.c.requestLength (by omega)] at hend
    split at hend
    · cases hend
    · rw [hst] at hend
      cases hend
  | tooLarge hst => exact endInv_of_ne fun hend => nomatch hst.symm.trans hend
  | headersEnd hst hok =>
    refine endInv_of_ne fun hend => ?_
    rcases headersEnd_state s with h | h | h
    · rw [h] at hend
      cases hend
    · rw [h] at hend
      cases hend
    · rw [h] at hend
      cases hend
  | refuse hst hbad hsending => exact endInv_of_ne fun h => nomatch h
  | chunkLength hst hok =>
    refine endInv_of_ne fun hend => ?_
    rcases chunkLength_state s s.c.requestLength with h | h
    · rw [h, hst] at hend
      cases hend
    · rw [h] at hend
      cases hend
  | content size hst hok =>
    refine endInv_of_ne fun hend => ?_
    have hrec : s.c.state.receiving := by
      rcases hst with h | ⟨h, -⟩
      · rw [h]
        rfl
      · rw [h]
        rfl
    rcases offerContent_state s size hrec with h | h
    · rw [hend] at h
      cases h
    · rw [hend] at h
      cases h
  | complete hst hok =>
    refine endInv_of_ne fun hend => ?_
    rw [show (completeRequest s).c.state = s.c.state from
      congrArg Request.state (CallFrame.completeRequest s).request, hst] at hend
    cases hend
  | sendRemaining hst hres hleft => exact sendRemaining_end hi hleft hdrained
  | startResponse hst hres hfirst => exact startResponse_end hdrained
  | headerAcked hst hres hsent =>
    unfold headerAcked at hdrained ⊢
    by_cases hbad : s.c.result < 0
    · rw [if_pos hbad] at hdrained ⊢
      have hzero : s.c.bytesLeft = 0 :=
        hdrained (.refused s.c.toResponse) (List.mem_append_right _ (List.mem_singleton.mpr rfl))
      exact fun _ => ⟨hsent, hzero⟩
    · rw [if_neg hbad]
      exact endInv_of_ne fun h => nomatch h
  | sendBody caller hst hres hsent hstage => exact sendBody_end hst hsent hdrained
  | requestEnd hst =>
    unfold requestEnd
    split
    · exact endInv_freed (closeHttpContext_frame s)
    · split
      · obtain ⟨_, _, heq, -⟩ := resetHttpContext_spec (s.note (.reset s.c.toRequest s.c.toResponse))
        rw [heq]
        exact endInv_of_ne fun h => nomatch h
      · exact endInv_freed (closeHttpContext_frame s)
  | peerGone hst hpeer =>
    refine endInv_of_ne fun hend => ?_
    rw [show s.c.state = .requestEnd from hend] at hst
    cases hst
  | close => exact endInv_freed (closeHttpContext_frame s)
  | free hgone => exact endInv_freed (freeHttpContext_frame s)
  | outOfFuel => exact hi

theorem SlotReach.ended {c : RequestContext} (h : SlotReach c) (hok : c.fault = false)
    (hdrained : ∀ a ∈ c.log, Drained a) : EndInv c :=
  SlotReach.induct (P := EndInv) (endInv_of_ne fun h => nomatch h)
    (fun s pcb ip _ _ => by
      obtain ⟨_, _, _, heq⟩ := acceptContext_spec s pcb ip
      rw [heq]
      exact endInv_of_ne fun h => nomatch h)
    (fun s s' _ hi hm _ hcond => endInv_step hi hm hcond) h hok hdrained

/-- Whenever a keep-alive connection is reset in a run, and the steps up to there meet the
condition, the response that ends was handed over whole and in order. -/
theorem response_delivered {sv : Server} (h : sv.Reachable) {c : RequestContext}
    (hc : c ∈ sv.slots) {pre post : List Act} {req : Request} {r : Response}
    (hlog : c.log = pre ++ .reset req r :: post) (hok : r.fault = false)
    (hdrained : ∀ a ∈ pre, Drained a) : Delivered pre r := by
  obtain ⟨s, l, hs, rfl, hcalls, hst, -, -, rfl⟩ := (h.slot hc).loggedAt hlog rfl
  have hbefore : ∀ a ∈ s.c.log, Drained a := fun a ha => hdrained a (List.mem_append_left _ ha)
  have hlog' : Transfer.ofLog (s.c.log ++ l) = Transfer.ofLog s.c.log :=
    Transfer.ofLog_other _ fun a ha => takes_of_callback (hcalls a ha)
  obtain ⟨hsent, hleft⟩ := hs.ended hok hbefore hst
  have htracked := hs.tracked hok (fun a ha => (hbefore a ha).apart) hsent
  have hwritten := ofLog_written hbefore
  have hwhole := htracked.whole hwritten
  rw [Response.pending, hleft, Int.toNat_zero, List.take_zero, List.append_nil] at hwhole
  refine ⟨?_, hleft, ?_⟩
  · rw [hlog']
    exact hwritten
  · rw [hlog']
    exact hwhole.symm

/-- Entry `k` is a reset within defined behaviour. -/
def resetAt (log : List Act) (k : Nat) : Bool :=
  match log[k]? with
  | some (.reset _ r) => !r.fault
  | _ => false

/-- The response that the reset at entry `k` drops has pending bytes. -/
def resetPending (log : List Act) (k : Nat) : Bool :=
  match log[k]? with
  | some (.reset _ r) => decide (0 < r.bytesLeft)
  | _ => false

theorem resetAt_split {log : List Act} {k : Nat} (h : resetAt log k) :
    ∃ req r, log = log.take k ++ .reset req r :: log.drop (k + 1) ∧ log[k]? = some (.reset req r) ∧
      r.fault = false := by
  unfold resetAt at h
  cases hk : log[k]? with
  | none =>
    rw [hk] at h
    cases h
  | some a =>
    rw [hk] at h
    cases a with
    | reset req r =>
      obtain ⟨hlt, hget⟩ := List.getElem?_eq_some_iff.mp hk
      refine ⟨req, r, ?_, rfl, by simpa using h⟩
      rw [← hget, List.cons_getElem_drop_succ, List.take_append_drop]
    | _ => cases h

/-- A request for a page that does not exist, on a connection that stays. -/
def keepAliveRun : List (Answers × Event) :=
  [(openNet, .accept 7),
    (openNet, receiveText 0 "GET /auth/x HTTP/1.1\r\nConnection: keep-alive\r\n\r\n"),
    (openNet, .sent 0 150)]

/-- The same with a window that takes one byte of the header at first. -/
def keepAliveNarrowRun : List (Answers × Event) :=
  [(openNet, .accept 7),
    (⟨[1, 0], [], []⟩, receiveText 0 "GET /auth/x HTTP/1.1\r\nConnection: keep-alive\r\n\r\n"),
    (openNet, .sent 0 1)]

/-- The whole header is accepted before the acknowledgement ends the request. -/
theorem response_delivered_notFound :
    ∃ pre req r post, (((Server.boot plainWorld).run keepAliveRun).slot 0).log =
      pre ++ .reset req r :: post ∧ Delivered pre r := by
  have hrun : (Server.boot plainWorld).RunLegal keepAliveRun ∧
      0 < ((Server.boot plainWorld).run keepAliveRun).slots.length ∧
      resetAt (((Server.boot plainWorld).run keepAliveRun).slot 0).log 11 = true ∧
      ∀ a ∈ (((Server.boot plainWorld).run keepAliveRun).slot 0).log.take 11, Drained a := by
    decide +kernel
  obtain ⟨hlegal, hslot, hreset, hdrained⟩ := hrun
  obtain ⟨req, r, hsplit, -, hok⟩ := resetAt_split hreset
  exact ⟨_, req, r, _, hsplit, response_delivered ((Server.Reachable.boot plainWorld).run hlegal)
    (Server.slot_mem hslot) hsplit hok hdrained⟩

/-- One byte of the header is accepted, and its acknowledgement ends the request. -/
theorem response_delivered_truncated :
    (Server.boot plainWorld).RunLegal keepAliveNarrowRun ∧
      ∃ pre req r post, (((Server.boot plainWorld).run keepAliveNarrowRun).slot 0).log =
        pre ++ .reset req r :: post ∧ r.fault = false ∧ ¬Delivered pre r := by
  have hrun : (Server.boot plainWorld).RunLegal keepAliveNarrowRun ∧
      resetAt (((Server.boot plainWorld).run keepAliveNarrowRun).slot 0).log 11 = true ∧
      resetPending (((Server.boot plainWorld).run keepAliveNarrowRun).slot 0).log 11 = true := by
    decide +kernel
  obtain ⟨hlegal, hreset, hpending⟩ := hrun
  obtain ⟨req, r, hsplit, hget, hok⟩ := resetAt_split hreset
  refine ⟨hlegal, _, req, r, _, hsplit, hok, fun hdelivered => ?_⟩
  rw [resetPending, hget] at hpending
  have hleft : 0 < r.bytesLeft := by simpa using hpending
  have hzero := hdelivered.drained
  omega

end Httpd
