import LambdaIOT.Httpd.Events
import LambdaIOT.Properties.Deliveries
import LambdaIOT.Properties.Occupancy
import LambdaIOT.Properties.Segmentation
import LambdaIOT.Properties.Stranded

/-!
# The received stream in every run

`RxInv` is kept by the operations on the receive buffer as long as nobody takes more than
there is. Here the rest of the server runs around it: the parser cuts lines in the buffer, the
handlers take content, responses are sent, requests follow each other on a connection that is
kept. In every run the bytes that were consumed, then the buffer, then the queue are the
stream that was delivered.

A refused request line is the one exception. It is cut in the buffer and stays there, so the
invariant is lost until the connection is closed; that is done by the same event. The proof
therefore follows the functions of an event and not its actions in any order.
-/

namespace Httpd

open CMem Lwip Relation

/-! ## Steps that leave the receive path alone -/

/-- Entries that say nothing about the stream. -/
theorem stream_of_quiet {l : List Act} (h : ∀ a ∈ l, a.isRx = false) :
    consumedBytes l = [] ∧ deliveredBytes l = [] ∧ recvedTotal l = 0 := by
  refine ⟨List.flatMap_eq_nil_iff.mpr fun a ha => ?_, List.flatMap_eq_nil_iff.mpr fun a ha => ?_,
    List.sum_eq_zero fun n hn => ?_⟩
  · have hrx := h a ha
    cases a <;> first | rfl | cases hrx
  · have hrx := h a ha
    cases a <;> first | rfl | cases hrx
  · obtain ⟨a, ha, rfl⟩ := List.mem_map.mp hn
    have hrx := h a ha
    cases a <;> first | rfl | cases hrx

/-- The invariant looks at neither part of the request. -/
theorem RxInv.logged {c : RequestContext} (hi : RxInv c) (h : Request) (r : Response)
    {l : List Act} (hl : ∀ a ∈ l, a.isRx = false) :
    RxInv { c with toRequest := h, toResponse := r, log := c.log ++ l } := by
  obtain ⟨hconsumed, hdelivered, hrecved⟩ := stream_of_quiet hl
  refine hi.of_same rfl rfl rfl rfl rfl rfl ?_ ?_ ?_
  · show consumedBytes (c.log ++ l) = _
    rw [consumedBytes_append, hconsumed, List.append_nil]
  · show deliveredBytes (c.log ++ l) = _
    rw [deliveredBytes_append, hdelivered, List.append_nil]
  · show recvedTotal (c.log ++ l) = _
    rw [recvedTotal_append, hrecved, Nat.add_zero]

theorem RxInv.setParts {c : RequestContext} (hi : RxInv c) (h : Request) (r : Response) :
    RxInv { c with toRequest := h, toResponse := r } :=
  hi.of_same rfl rfl rfl rfl rfl rfl rfl rfl rfl

theorem rxInv_call {s s' : Sys} (hi : RxInv s.c) (hf : CallFrame s s') : RxInv s'.c := by
  obtain ⟨_, r, _, rfl, hl⟩ := hf
  refine hi.logged s.c.toRequest r fun a ha => ?_
  obtain ⟨_, _, _, rfl⟩ := hl a ha
  rfl

theorem rxInv_response {s s' : Sys} (hi : RxInv s.c) (hf : RespFrame s s') : RxInv s'.c := by
  obtain ⟨_, _, _, _, _, _, r, _, _, rfl, -, hl⟩ := hf
  refine hi.logged _ r fun a ha => ?_
  have hresp := hl a ha
  cases a <;> first | rfl | cases hresp

/-- The buffer and the queue stay for the next request. -/
theorem rxInv_reset {s : Sys} (hi : RxInv s.c) : RxInv (resetHttpContext s).c := by
  obtain ⟨_, _, heq, -⟩ := resetHttpContext_spec s
  rw [heq]
  exact hi.of_same hi.maxLevel.symm rfl rfl rfl rfl rfl rfl rfl rfl

theorem rxInv_headersEnd {s : Sys} (hi : RxInv s.c) : RxInv (headersEnd s).c := by
  obtain ⟨st, t, heq, -⟩ := headersEnd_eq s
  rw [heq]
  refine rxInv_call (hi.logged { s.c.toRequest with state := st, tLastSent := t } _ fun a ha => ?_)
    (.cgiHeadersReceived _)
  rw [List.mem_singleton.mp ha]
  rfl

theorem rxInv_accept {s : Sys} (pcb ipRemote : Nat) (hshape : Shape s.c) (hfree : FreeCtx s.c) :
    RxInv (acceptContext s pcb ipRemote).c := by
  obtain ⟨_, _, _, heq⟩ := acceptContext_spec s pcb ipRemote
  rw [heq]
  exact rxInv_of_empty ⟨rfl, rfl, rfl, hshape.buffer, hfree.length, rfl, rfl⟩

/-! ## The parser -/

/-- The request line is refused if it leaves the method open. -/
theorem result_of_refused {s : Sys} {tail : Bytes} {n : Nat}
    (h : (requestLine s tail n).c.requestMethod = .none) :
    (requestLine s tail n).c.result = -500 := by
  unfold requestLine at h ⊢
  split
  · rfl
  · rename_i method iSkip hmethod
    rw [hmethod] at h
    dsimp only at h
    have hkept : ∀ t : Sys, (cgiSetCgiHandler t).c.requestMethod = t.c.requestMethod := by
      intro t
      unfold cgiSetCgiHandler
      dsimp only
      split <;> rfl
    rw [hkept] at h
    have hnone : method = .none := h
    unfold parseMethod at hmethod
    split at hmethod
    · cases hmethod
      cases hnone
    · split at hmethod
      · cases hmethod
        cases hnone
      · cases hmethod

/-- The lines are cut in front of `nLinePos` only, unless the request line is refused. -/
theorem lineLoop_uncut {m : Bytes} (k i : Nat) {l : LineScan} (hrun : l.stop = false)
    (h : LineProgress m i l) :
    (lineLoop k i l).buf.drop (lineLoop k i l).nLinePos = m.drop (lineLoop k i l).nLinePos ∨
      (lineLoop k i l).s.c.result = -500 := by
  induction k generalizing i l with
  | zero => exact .inl h.rest
  | succ k ih =>
    rw [lineLoop, if_neg (by rw [hrun]; decide)]
    by_cases hfound : at' l.buf i = 13 ∧ at' l.buf (i + 1) = 10
    · rw [if_pos hfound]
      have hle : l.nLinePos ≤ i := by
        rcases h.pos with hle | ⟨-, hcr⟩
        · exact hle
        · exact absurd hfound.1 hcr
      unfold LineScan.line
      by_cases hempty : i = l.nLinePos
      · rw [if_pos hempty, lineLoop_stop _ _ rfl]
        exact .inl (h.later (show l.nLinePos ≤ i + 2 by omega))
      · rw [if_neg hempty]
        dsimp only
        split
        · split
          · rename_i hnone
            rw [lineLoop_stop _ _ rfl]
            exact .inr (result_of_refused hnone)
          · exact ih (i + 1) hrun (h.line hle hfound.2 _)
        · exact ih (i + 1) hrun (h.line hle hfound.2 _)
    · rw [if_neg hfound]
      exact ih (i + 1) hrun (h.next hfound)

/-- The parser keeps the stream, or it refuses the request line. -/
theorem rxInv_parseHeader {s : Sys} (hi : RxInv s.c) (hlen : 2 ≤ s.c.requestLength) :
    RxInv (parseHeader s s.c.requestLength).1.c ∨
      (parseHeader s s.c.requestLength).1.c.result = -500 := by
  obtain ⟨n, hn⟩ := Int.eq_ofNat_of_zero_le hi.nonneg
  have hbound := (parseScan_bound s s.c.requestLength (by omega)).1
  have huncut := lineLoop_uncut (m := s.c.httpRequestBuffer) (s.c.requestLength - 1).toNat 0
    (l := ⟨s, s.c.httpRequestBuffer, 0, false, false⟩) rfl
    ⟨rfl, rfl, .inl (le_refl _), fun j _ hj => absurd hj (Nat.not_lt_zero j)⟩
  rcases huncut with huncut | hbad
  · obtain ⟨w, h, r, log, hframe, -, -⟩ := parseScan_frame s s.c.requestLength
    exact .inl ((shift_taken hi.toRxShape hn ⟨w, h, r, log, hframe⟩ (ParseFrame.length_lineLoop ..)
      huncut (by omega)).inv (rxInv_parseScan hi _))
  · refine .inr ?_
    show Response.result (LineScan.shift _ _).toResponse = -500
    rw [shift_response]
    exact hbad

/-! ## Content -/

/-- A context of a run that has kept the condition of the occupancy. -/
structure Orderly (c : RequestContext) : Prop where
  reach : SlotReach c
  fine : c.fault = false
  cond : ∀ a ∈ c.log, OccupancyCond a

theorem Orderly.occ {c : RequestContext} (h : Orderly c) : OccInv c :=
  h.reach.induct occInv_setup (fun _ pcb ipRemote _ hfree => occInv_accept pcb ipRemote hfree)
    (fun _ _ _ hi hstep _ hcond => occInv_step hi hstep hcond) h.fine h.cond

/-- What is said of the end of some actions was true at their start. -/
theorem Orderly.start {s t : Sys} (h : Orderly t.c) (hm : Micros s t) (hs : SlotReach s.c) :
    Orderly s.c where
  reach := hs
  fine := by
    by_contra hbad
    have hfine := h.fine
    rw [micros_marked hm (by simpa using hbad)] at hfine
    cases hfine
  cond := fun a ha => by
    obtain ⟨log, hlog⟩ := micros_logExtends hm
    refine h.cond a ?_
    rw [hlog]
    exact List.mem_append_left _ ha

theorem rxInv_takeContent {s : Sys} {n : Int} (hi : RxInv s.c) (h0 : 0 ≤ n)
    (hn : n ≤ s.c.requestLength) : RxInv (takeContent s n).c := by
  have hshift := (rxStep_shiftOut (hi.setParts { s.c.toRequest with
    contentReceived := s.c.contentReceived + n } s.c.toResponse) h0 hn).inv
  unfold takeContent
  dsimp only
  split
  · unfold contentDone
    split
    · dsimp only
      split
      · exact hshift.setParts _ _
      · exact hshift.setParts _ _
    · exact hshift.setParts _ _
  · exact hshift

/-- A handler takes bytes that are there. -/
theorem rxInv_offerContent {s : Sys} (hi : RxInv s.c) (hocc : OccInv s.c)
    (hst : s.c.state = .bodyReceiving)
    (hcond : ∀ a ∈ (offerContent s s.c.requestLength).c.log, OccupancyCond a) :
    RxInv (offerContent s s.c.requestLength).c := by
  have hafter := occInv_offerContent hocc hst hcond
  unfold offerContent at hafter ⊢
  dsimp only at hafter ⊢
  rcases cgiContentReceived_cases s s.c.httpRequestBuffer s.c.requestLength with
    heq | ⟨cgi, f, -, -, heq⟩
  · rw [heq]
    rw [if_pos (.inr (le_refl _))]
    exact hi
  · rw [heq] at hafter ⊢
    generalize f s.c.toRequest s.call s.c.httpRequestBuffer s.c.requestLength = k at hafter ⊢
    have htold : RxInv (Sys.note (Sys.ofCall (s.note (.callback cgi .onContentReceived)) k.1)
        (.content s.c.toRequest s.c.toResponse s.c.requestLength s.c.requestLength k.2)).c := by
      have hquiet := hi.logged s.c.toRequest k.1.r (l := [.callback cgi .onContentReceived,
        .content s.c.toRequest s.c.toResponse s.c.requestLength s.c.requestLength k.2])
        (fun a ha => by
          rcases List.mem_cons.mp ha with rfl | ha
          · rfl
          · rw [List.mem_singleton.mp ha]
            rfl)
      rw [← List.singleton_append, ← List.append_assoc] at hquiet
      exact hquiet
    split
    · exact htold
    · rename_i htake
      rw [if_neg htake] at hafter
      have hok := hafter.content (.content s.c.toRequest s.c.toResponse s.c.requestLength
        s.c.requestLength k.2) (by
          rw [takeContent_log]
          exact List.mem_append_left _ (List.mem_append_right _ (List.mem_singleton_self _)))
      exact rxInv_takeContent htold hok.2.1 hok.2.2.1

/-- The end of a round calls the handler at most. -/
theorem rxInv_roundEnd {s : Sys} (consumed : Int) (hi : RxInv s.c) :
    RxInv (roundEnd s consumed).1.c := by
  unfold roundEnd
  split
  · exact rxInv_call hi (.completeRequest s)
  · split
    · exact hi
    · exact hi

theorem rxInv_contentPart {s : Sys} {size : Int} (hi : RxInv s.c) (hocc : OccInv s.c)
    (hsize : s.c.state = .bodyReceiving → size = s.c.requestLength)
    (hcond : ∀ a ∈ (contentPart s size).1.c.log, OccupancyCond a) :
    RxInv (contentPart s size).1.c := by
  unfold contentPart at hcond ⊢
  split
  · rename_i hst
    rw [if_pos hst] at hcond
    have hbody : s.c.state = .bodyReceiving := hst.resolve_left hocc.noChunk
    have hoffer : (∀ a ∈ (offerContent s s.c.requestLength).c.log, OccupancyCond a) →
        RxInv (offerContent s s.c.requestLength).c := rxInv_offerContent hi hocc hbody
    rw [hsize hbody] at hcond ⊢
    unfold offerContent at hoffer
    dsimp only at hcond hoffer ⊢
    split
    · rename_i hfatal
      rw [if_pos hfatal] at hcond
      rw [if_pos (.inl hfatal)] at hoffer
      exact hoffer hcond
    · rename_i hfine
      rw [if_neg hfine] at hcond
      split
      · rename_i hnone
        rw [if_pos hnone] at hcond
        rw [if_pos (.inr hnone)] at hoffer
        exact hoffer hcond
      · rename_i hsome
        rw [if_neg hsome] at hcond
        rw [if_neg (not_or.mpr ⟨hfine, hsome⟩)] at hoffer
        refine rxInv_roundEnd _ (hoffer fun a ha => hcond a ?_)
        obtain ⟨log, hlog⟩ := roundEnd_logExtends (takeContent _ _) _
        rw [hlog]
        exact List.mem_append_left _ ha
  · exact rxInv_roundEnd 0 hi

/-! ## The receive loop -/

/-- The event is about to close the connection. -/
def Fatal (c : RequestContext) : Prop := c.result ≤ -500 ∧ c.state.receiving

/-- The round behind the header section. -/
theorem rxInv_afterHeader {s : Sys} {justNow : Bool} {size : Int} (hi : RxInv s.c)
    (hreach : SlotReach s.c) (hsize : size = s.c.requestLength) (hok : 0 ≤ s.c.result)
    (hnow : justNow → s.c.state = .headerDone)
    (hend : Orderly (afterHeader s justNow size).1.c) :
    RxInv (afterHeader s justNow size).1.c := by
  have hhead : RxInv (if justNow then headersEnd s else s).c ∧
      SlotReach (if justNow then headersEnd s else s).c ∧
      size = (if justNow then headersEnd s else s).c.requestLength := by
    split
    · rename_i hj
      exact ⟨rxInv_headersEnd hi, hreach.micro (.headersEnd s (hnow hj) hok), by
        rw [headersEnd_requestLength]
        exact hsize⟩
    · exact ⟨hi, hreach, hsize⟩
  unfold afterHeader at hend ⊢
  dsimp only at hend ⊢
  generalize (if justNow then headersEnd s else s) = t at hhead hend ⊢
  obtain ⟨hrx, hreach, hlen⟩ := hhead
  split
  · exact hrx.setParts _ _
  · rename_i hgood
    rw [if_neg hgood] at hend
    split
    · rename_i hchunk
      rw [if_pos hchunk] at hend
      have hquiet : chunkLength t size = t := chunkLength_quiet fun a ha => by
        obtain ⟨log, hlog⟩ := contentPart_logExtends (chunkLength t size) size
        refine hend.cond a ?_
        rw [hlog]
        exact List.mem_append_left _ ha
      rw [hquiet] at hend ⊢
      exact rxInv_contentPart hrx (hend.start (contentPart_micros (by omega) fun _ => hlen) hreach).occ
        (fun _ => hlen) hend.cond
    · rename_i hplain
      rw [if_neg hplain] at hend
      exact rxInv_contentPart hrx (hend.start (contentPart_micros (by omega) fun _ => hlen) hreach).occ
        (fun _ => hlen) hend.cond

/-- The header part of a round keeps the stream, or it refuses the request line. -/
theorem rxInv_headerPart {s : Sys} (hi : RxInv s.c) :
    RxInv (headerPart s).1.c ∨ (headerPart s).1.c.result = -500 := by
  unfold headerPart
  dsimp only
  have hstart : RxInv (if 0 < s.c.requestLength ∧ s.c.state = .idle then startRequest s else s).c ∧
      (if 0 < s.c.requestLength ∧ s.c.state = .idle then startRequest s else s).c.requestLength =
        s.c.requestLength := by
    split
    · exact ⟨hi.setParts _ _, rfl⟩
    · exact ⟨hi, rfl⟩
  generalize (if 0 < s.c.requestLength ∧ s.c.state = .idle then startRequest s else s) = t at hstart ⊢
  obtain ⟨hrx, hlen⟩ := hstart
  split
  · rename_i hparse
    rw [← hlen] at hparse ⊢
    exact rxInv_parseHeader hrx hparse.2
  · exact .inl hrx

/-- One round of the loop. -/
theorem rxInv_iteration {s : Sys} (hi : RxInv s.c) (hreach : SlotReach s.c)
    (hst : s.c.state.receiving) (hend : Orderly (iteration s).1.c) :
    RxInv (iteration s).1.c ∨ (Fatal (iteration s).1.c ∧ (iteration s).2 = .stop) := by
  have hdeq : RxInv s.c.dequeue := (rxStep_dequeue hi hreach.queueInv.small).inv
  have hreach' : SlotReach s.c.dequeue := hreach.micro (.dequeue s hst)
  have hst' : s.c.dequeue.state.receiving := by
    rw [show s.c.dequeue.state = s.c.state from congrArg Request.state (RxFrame.dequeue s.c).request]
    exact hst
  unfold iteration at hend ⊢
  generalize hs : ({ s with c := s.c.dequeue } : Sys) = t at hend ⊢
  have hc : t.c = s.c.dequeue := by rw [← hs]
  rw [← hc] at hdeq hreach' hst'
  unfold processBuffer at hend ⊢
  split
  · exact .inl hdeq
  · rename_i hlen
    rw [if_neg hlen] at hend
    have hhead := headerPart_micros hst'
    have hrx := rxInv_headerPart hdeq
    dsimp only at hend ⊢
    split
    · rename_i hbad
      rcases hrx with hrx | hrefused
      · exact .inl hrx
      · refine .inr ⟨⟨Int.le_of_eq hrefused, ?_⟩, rfl⟩
        by_cases hj : (headerPart t).2.1
        · show (headerPart t).1.c.state.receiving
          rw [hhead.2.2.1 hj]
          rfl
        · exact hhead.2.2.2 (by simpa using hj)
    · rename_i hgood
      rw [if_neg hgood] at hend
      have hrx : RxInv (headerPart t).1.c := hrx.resolve_right (by omega)
      split
      · exact .inl (hrx.setParts _ _)
      · rename_i hbig
        rw [if_neg hbig] at hend
        split
        · exact .inl hrx
        · rename_i hmore
          rw [if_neg hmore] at hend
          exact .inl (rxInv_afterHeader hrx (SlotReach.micros hreach' hhead.1) hhead.2.1 (by omega)
            hhead.2.2.1 hend)

/-- The loop over received data. -/
theorem rxInv_receiveLoop (fuel : Nat) {s : Sys} (hi : RxInv s.c) (hreach : SlotReach s.c)
    (hend : Orderly (receiveLoop fuel s).1.c) :
    RxInv (receiveLoop fuel s).1.c ∨ Fatal (receiveLoop fuel s).1.c := by
  induction fuel generalizing s with
  | zero =>
    rw [receiveLoop]
    exact .inl (hi.setParts _ _)
  | succ fuel ih =>
    rw [receiveLoop] at hend ⊢
    split
    · rename_i hst
      rw [if_pos hst] at hend
      have hone := iteration_micros hst
      have hround := rxInv_iteration hi hreach hst
      generalize iteration s = r at hone hround hend ⊢
      obtain ⟨t, next⟩ := r
      cases next with
      | again =>
        have hreach' := SlotReach.micros hreach hone
        rcases hround (hend.start (receiveLoop_micros fuel t) hreach') with hrx | ⟨-, hstop⟩
        · exact ih hrx hreach' hend
        · cases hstop
      | stop => exact (hround hend).imp id And.left
      | ret => exact (hround hend).imp id And.left
    · exact .inl hi

/-! ## Events -/

/-- A connection that is open still has its stream. -/
def Streamed (c : RequestContext) : Prop := c.pcb.isSome → RxInv c

theorem streamed_freed {s s' : Sys} (h : FreedFrame s s') : Streamed s'.c := by
  obtain ⟨_, _, _, _, _, _, rfl, -⟩ := h
  exact fun h => nomatch h

theorem streamed_requestFinish {s : Sys} (caller : Caller) (h : RxInv s.c ∨ Fatal s.c) :
    Streamed (requestFinish s caller).c ∨ (requestFinish s caller).c.result ≤ -500 := by
  unfold requestFinish
  split
  · split
    · exact .inr (le_refl (-500 : Int))
    · exact h.imp (fun hrx _ => hrx) And.left
  · rename_i hrec
    have hrx : RxInv s.c := h.resolve_right fun hf => hrec hf.2
    have hresp := rxInv_response hrx (RespFrame.httpResponseProc s caller)
    refine .inl ?_
    dsimp only
    split
    · unfold requestEnd
      split
      · exact streamed_freed (closeHttpContext_frame _)
      · split
        · refine fun _ => rxInv_reset ?_
          refine hresp.logged _ _ fun a ha => ?_
          rw [List.mem_singleton.mp ha]
          rfl
        · exact streamed_freed (closeHttpContext_frame _)
    · exact fun _ => hresp

theorem streamed_httpRequestProc {s : Sys} (caller : Caller) (hi : RxInv s.c)
    (hreach : SlotReach s.c) (hend : Orderly (httpRequestProc s caller).c) :
    Streamed (httpRequestProc s caller).c ∨ (httpRequestProc s caller).c.result ≤ -500 := by
  have hmicros := receiveLoop_micros (receiveFuel s.c) s
  have hloop := rxInv_receiveLoop (receiveFuel s.c) hi hreach
  unfold httpRequestProc at hend ⊢
  generalize receiveLoop (receiveFuel s.c) s = r at hmicros hloop hend ⊢
  obtain ⟨t, next⟩ := r
  cases next with
  | ret => exact (hloop hend).imp (fun hrx _ => hrx) And.left
  | again =>
    exact streamed_requestFinish caller
      (hloop (hend.start (requestFinish_micros t caller) (SlotReach.micros hreach hmicros)))
  | stop =>
    exact streamed_requestFinish caller
      (hloop (hend.start (requestFinish_micros t caller) (SlotReach.micros hreach hmicros)))

/-- `HttpRequestProc` and the test for a fatal result behind it. -/
theorem streamed_closeIfFatal {s : Sys} (caller : Caller) (hi : RxInv s.c) (hreach : SlotReach s.c)
    (hend : Orderly (closeIfFatal (httpRequestProc s caller)).c) :
    Streamed (closeIfFatal (httpRequestProc s caller)).c := by
  have hproc := streamed_httpRequestProc caller hi hreach (hend.start (closeIfFatal_micros _)
    (SlotReach.micros hreach (httpRequestProc_micros s caller)))
  unfold closeIfFatal at hend ⊢
  split
  · exact streamed_freed (closeHttpContext_frame _)
  · rename_i hfine
    exact hproc.resolve_right hfine

/-- `OnHttpReceive` behind its first lines: the session may be refreshed. -/
theorem streamed_received {s t : Sys} (hi : RxInv s.c) (hreach : SlotReach s.c)
    (heq : t = (let u := httpRequestProc s .recv
      if u.c.result ≤ -500 then closeHttpContext u
      else if u.c.checkAlive then u
      else { u with w := { u.w with
        sessions := sessionReceived u.w.sessions u.c.session u.w.tick } }))
    (hend : Orderly t.c) : Streamed t.c := by
  have hsame : t.c = (closeIfFatal (httpRequestProc s .recv)).c := by
    rw [heq]
    unfold closeIfFatal
    dsimp only
    split
    · rfl
    · split
      · rfl
      · rfl
  rw [hsame] at hend ⊢
  exact streamed_closeIfFatal .recv hi hreach hend

/-- Every event keeps the stream of its connection. -/
theorem streamed_connStep {s : Sys} {e : ConnEvent} (hreach : SlotReach s.c)
    (hlive : s.c.pcb.isSome) (hi : Streamed s.c) (hlegal : e.Legal s)
    (hend : Orderly (connStep s e).c) : Streamed (connStep s e).c := by
  have hrx := hi hlive
  cases e with
  | accept pcb ipRemote => cases hlegal
  | receive p =>
    cases p with
    | none =>
      by_cases hidle : s.c.state = .idle
      · have hclosed : connStep s (.receive none) = closeHttpContext s := by
          show onHttpReceive s none = _
          unfold onHttpReceive
          rw [if_pos ⟨rfl, hidle⟩]
        rw [hclosed]
        exact streamed_freed (closeHttpContext_frame s)
      · refine streamed_received (s := (s.setRequest { s.c.toRequest with
          peerClosing := true }).setResponse { s.c.toResponse with tLastReceived := s.now })
          (hrx.setParts _ _) ?_ ?_ hend
        · exact (hreach.micro (.peerClosed s)).micro (.touch (s.setRequest _) s.now)
        · show onHttpReceive s none = _
          unfold onHttpReceive
          rw [if_neg (fun h => hidle h.2)]
          rfl
    | some p =>
      exact streamed_received (s := received s p)
        (rxStep_receivePbuf (p := p) (hrx.setParts s.c.toRequest { s.c.toResponse with
          tLastReceived := s.now }) hlegal.2).inv
        (hreach.received hlegal.1 hlegal.2) (onHttpReceive_segment s p.chain) hend
  | poll =>
    have hend' : Orderly (onHttpPoll s).c := hend
    show Streamed (onHttpPoll s).c
    unfold onHttpPoll at hend' ⊢
    split
    · exact streamed_freed (closeHttpContext_frame s)
    · rename_i htime
      rw [if_neg htime] at hend'
      exact streamed_closeIfFatal .poll hrx hreach hend'
  | sent len =>
    have hfirst : RxInv (if s.c.checkAlive then s else
          { s with w := { s.w with sessions := sessionSent s.w.sessions s.c.session s.w.tick } }).c ∧
        SlotReach (if s.c.checkAlive then s else
          { s with w := { s.w with sessions := sessionSent s.w.sessions s.c.session s.w.tick } }).c := by
      split
      · exact ⟨hrx, hreach⟩
      · exact ⟨hrx, hreach⟩
    have hend' : Orderly (onHttpSent s len).c := hend
    show Streamed (onHttpSent s len).c
    unfold onHttpSent at hend' ⊢
    dsimp only at hend' ⊢
    generalize (if s.c.checkAlive then s else
      { s with w := { s.w with sessions := sessionSent s.w.sessions s.c.session s.w.tick } }) = t
      at hfirst hend' ⊢
    exact streamed_closeIfFatal .sent (hfirst.1.setParts _ _) (hfirst.2.micro (.acknowledged t len))
      hend'
  | error => exact streamed_freed (freeHttpContext_frame s)

/-! ## Every run -/

theorem Orderly.streamed {sv : Server} (h : sv.Reachable) {c : RequestContext} (hc : c ∈ sv.slots)
    (hord : Orderly c) : Streamed c := by
  refine h.byEvents (P := fun c => Orderly c → Streamed c) ?_ ?_ ?_ c hc hord
  · exact fun _ h => nomatch h
  · exact fun s pcb ipRemote hshape hfree _ _ => rxInv_accept pcb ipRemote hshape hfree
  · intro s e hreach hok hlive hi hlegal hend
    have hstart : Orderly s.c := hend.start (connStep_micros hlegal) hreach
    exact streamed_connStep hreach hlive (hi hstart) hlegal hend

/-- **The received stream in every run.** In every run of the server, on every open connection
that has decoded no chunk-size line and has not offered the login handler more than the rest of
its content: each byte that the receive events of its control block have brought was consumed, is
in the buffer or is in the queue, in the order of the stream and once; the queue is well linked
with the offset in its first pbuf; and what was acknowledged and what is queued add up to what
was sent. -/
theorem stream_in_every_run {w : World} {es : List (Answers × Event)}
    (hlegal : (Server.boot w).RunLegal es) {i k : Nat} {c : RequestContext}
    (hc : ((Server.boot w).run es).slots[i]? = some c) (hk : c.pcb = some k) (hok : c.fault = false)
    (hcond : ∀ a ∈ c.log, OccupancyCond a) :
    RxInv c ∧ consumedBytes c.log ++ c.buffered ++ c.queued = (Server.boot w).sentTo k es ∧
      recvedTotal c.log + Pbuf.chainTotLen c.reqBufList =
        ((Server.boot w).sentTo k es).length := by
  have hreach := (Server.Reachable.boot w).run hlegal
  have hmem := List.mem_of_getElem? hc
  have hrx : RxInv c :=
    Orderly.streamed hreach hmem ⟨hreach.slot hmem, hok, hcond⟩ (by rw [hk]; rfl)
  rw [← Server.delivered_sent hlegal hc hok hk]
  exact ⟨hrx, hrx.stream, hrx.window⟩

/-- Two requests in one segment, the second with a body that is not complete. -/
def pipelinedRequests : List (Answers × Event) :=
  [(openNet, .accept 0x0A000001),
   (openNet, receiveText 0 ("GET /a.css HTTP/1.1\r\nConnection: keep-alive\r\n\r\n" ++
     "POST /auth/login.html HTTP/1.1\r\nContent-Length: 300\r\n\r\nuser")),
   (openNet, .sent 0 100), (openNet, .sent 0 100), (openNet, receiveText 0 "name=admin")]

/-- The first request is consumed and the second one waits, its body in two segments. -/
theorem stream_in_every_run_pipelined :
    let c := ((Server.boot plainWorld).run pipelinedRequests).slot 0
    ((Server.boot plainWorld).sentTo 0 pipelinedRequests).length = 116 ∧ RxInv c ∧
      consumedBytes c.log ++ c.buffered ++ c.queued =
        (Server.boot plainWorld).sentTo 0 pipelinedRequests := by
  have hrun : (Server.boot plainWorld).RunLegal pipelinedRequests ∧
      0 < ((Server.boot plainWorld).run pipelinedRequests).slots.length ∧
      (((Server.boot plainWorld).run pipelinedRequests).slot 0).pcb = some 0 ∧
      (((Server.boot plainWorld).run pipelinedRequests).slot 0).fault = false ∧
      (∀ a ∈ (((Server.boot plainWorld).run pipelinedRequests).slot 0).log, OccupancyCond a) ∧
      ((Server.boot plainWorld).sentTo 0 pipelinedRequests).length = 116 := by
    decide +kernel
  obtain ⟨hlegal, hslot, hpcb, hok, hcond, hlength⟩ := hrun
  obtain ⟨hrx, hstream, -⟩ :=
    stream_in_every_run hlegal (Server.slot_getElem? hslot) hpcb hok hcond
  exact ⟨hlength, hrx, hstream⟩

end Httpd
