import LambdaIOT.Properties.Globals
import LambdaIOT.Properties.Replies

/-!
# Calls that leave nothing stranded

A call that finds the buffer, the queue and the state aligned leaves no data waiting for nothing.
`Calm` is what the rounds of the loop hand on: nothing is queued, the windows of the header section
are known, content is received of which something is offered, or the buffer is full and stays so.
Each round keeps it and offers what it has, and the loop is an induction on its fuel.
-/

namespace Httpd

open CMem Lwip Relation

/-! ## A round that receives content -/

/-- How a round ends that receives content or has just ended the header section: if it goes on,
content is still received, and if the request is over, its response does not end with data
queued. -/
structure ContentEnd (s : Sys) (r : Sys × Next) : Prop where
  again : r.2 = .again →
    (r.1.c.state = .bodyReceiving ∨ r.1.c.state = .chunkLenReceiving ∨
      r.1.c.state = .chunkReceiving) ∧ r.1.c.handler = s.c.handler ∧
      (r.1.c.state ≠ .bodyReceiving →
        s.c.state = .chunkLenReceiving ∨ s.c.state = .chunkReceiving) ∧ ContentFits r.1
  ended : r.1.c.state.receiving = false → ∀ caller, ¬ResetWaiting r.1 caller

/-- A round that stops while the request is being received. -/
theorem ContentEnd.stop {s t : Sys} {next : Next} (hnext : next ≠ .again)
    (hrec : t.c.state.receiving = true) : ContentEnd s (t, next) where
  again := fun h => absurd h hnext
  ended := fun h => by rw [show t.c.state.receiving = true from hrec] at h; cases h

theorem receiving_of_header {st : HttpState} (h : st = .idle ∨ st = .headerReceiving) :
    st.receiving = true := by
  rcases h with rfl | rfl
  · rfl
  · rfl

/-- The states in which content is received. -/
theorem receiving_of_content {st : HttpState}
    (h : st = .bodyReceiving ∨ st = .chunkLenReceiving ∨ st = .chunkReceiving) :
    st.receiving = true ∧ (st ≠ .idle ∧ st ≠ .headerReceiving) := by
  rcases h with rfl | rfl | rfl
  · decide
  · decide
  · decide

theorem rxShape_of {c : RequestContext} (hreach : SlotReach c) (hlive : c.pcb.isSome)
    (hbounds : InBounds c) : RxShape c where
  maxLevel := hreach.queueInv.level hlive
  buffer := hreach.shape.buffer
  nonneg := hbounds.1
  atMost := hbounds.2
  chained := hreach.queueInv.chained
  empty := hreach.queueInv.empty
  inFirst := hreach.queueInv.inFirst

theorem live_of_queue {c : RequestContext} (hreach : SlotReach c) (hqueue : c.reqBufList ≠ []) :
    c.pcb.isSome := by
  refine Option.isSome_iff_ne_none.mpr fun hnone => hqueue ?_
  exact (hreach.shape.free hnone).queue

/-- What taking content does to the request. -/
theorem takeContent_counts (s : Sys) (n : Int) :
    (takeContent s n).c.handler = s.c.handler ∧ (takeContent s n).c.keepalive = s.c.keepalive ∧
      (takeContent s n).c.chunked = s.c.chunked ∧
      (takeContent s n).c.buffered =
        (s.c.shiftOut n (s.c.httpRequestBuffer.take n.toNat)).buffered ∧
      (takeContent s n).c.requestLength = s.c.requestLength - n ∧
      (s.c.chunked = false →
        (takeContent s n).c.state = s.c.state ∧
          (takeContent s n).c.contentLength - (takeContent s n).c.contentReceived =
            s.c.contentLength - s.c.contentReceived - n ∨
        (takeContent s n).c.state = .bodyDone ∧
          s.c.contentLength - s.c.contentReceived - n ≤ 0) := by
  unfold takeContent
  dsimp only
  split
  · rename_i hdone
    have hdone' : s.c.contentLength ≤ s.c.contentReceived + n := hdone
    unfold contentDone
    split
    · rename_i hchunk
      have hchunk' : s.c.chunked = true := hchunk
      have hno : s.c.chunked = false → False := fun h => by rw [h] at hchunk'; cases hchunk'
      dsimp only
      split
      · exact ⟨rfl, rfl, rfl, rfl, rfl, fun h => absurd h hno⟩
      · exact ⟨rfl, rfl, rfl, rfl, rfl, fun h => absurd h hno⟩
    · exact ⟨rfl, rfl, rfl, rfl, rfl, fun _ => .inr ⟨rfl, by omega⟩⟩
  · refine ⟨rfl, rfl, rfl, rfl, rfl, fun _ => .inl ⟨rfl, ?_⟩⟩
    show s.c.contentLength - (s.c.contentReceived + n) = _
    omega

/-- A body that needs all that is waiting needs all that is left when `n` bytes are taken. -/
theorem takeContent_needsAll {s : Sys} {n : Int} (hshape : RxShape s.c) (h0 : 0 ≤ n)
    (hn : n ≤ s.c.requestLength)
    (hrest : (s.c.waiting.length : Int) ≤ s.c.contentLength - s.c.contentReceived) :
    RxShape (takeContent s n).c ∧ ((takeContent s n).c.waiting.length : Int) ≤
      s.c.contentLength - s.c.contentReceived - n := by
  obtain ⟨-, -, -, hbuffered, hlen, -⟩ := takeContent_counts s n
  obtain ⟨hshape', hcut⟩ := hshape.shiftOut h0 hn (s.c.httpRequestBuffer.take n.toNat)
  have hkept := RoundKept.take s n
  have hcount := length_buffered hshape
  have hqueued : (takeContent s n).c.queued = s.c.queued := by
    rw [RequestContext.queued, RequestContext.queued, hkept.queue, hkept.offset]
  have hatMost := hshape.atMost
  constructor
  · obtain ⟨h, len, buf, heq, hbuf⟩ := takeContent_frame s n
    rw [heq] at hlen ⊢
    have hlen' : len = s.c.requestLength - n := hlen
    exact ⟨hshape.maxLevel, hbuf.trans hshape.buffer, show 0 ≤ len by omega,
      show len ≤ _ by omega, hshape.chained, hshape.empty, hshape.inFirst⟩
  · rw [RequestContext.waiting, hbuffered, hcut, hqueued, List.length_append, List.length_drop]
    rw [RequestContext.waiting, List.length_append] at hrest
    omega

/-- Taking content keeps `ContentFits`; and when it completes the request, the response does not
end with data queued. -/
theorem takeContent_fits {s : Sys} {n : Int} (hshape : InBounds s.c → RxShape s.c) (h0 : 0 ≤ n)
    (hn : s.c.state = .bodyReceiving → n ≤ s.c.requestLength) (hfits : ContentFits s) :
    ((takeContent s n).c.state = .bodyDone → (takeContent s n).c.reqBufList ≠ [] →
        (takeContent s n).c.keepalive = true → NoneRefused s.net ∧ s.c.handler ≠ some .auth) ∧
      ((takeContent s n).c.state ≠ .bodyDone → ContentFits (takeContent s n)) := by
  obtain ⟨hhandler, hkeep, hchunk, -, -, hplain⟩ := takeContent_counts s n
  constructor
  · intro hdone hqueue hk
    rcases hfits (hkeep ▸ hk) with ⟨hst, hneeds⟩ | hrest
    · -- a body that needed everything leaves nothing behind
      exfalso
      obtain ⟨hshape', hlen⟩ :=
        takeContent_needsAll (hshape hneeds.bounds) h0 (hn hst) hneeds.rest
      rcases hplain hneeds.plain with ⟨hsame, -⟩ | ⟨-, hend⟩
      · rw [hsame, hst] at hdone
        cases hdone
      · have hnone : (takeContent s n).c.waiting = [] := by
          refine List.eq_nil_of_length_eq_zero ?_
          omega
        exact hqueue (reqBufList_of_queued hshape' (List.append_eq_nil_iff.mp hnone).2)
    · exact hrest
  · intro hmore hk
    rcases hfits (hkeep ▸ hk) with ⟨hst, hneeds⟩ | hrest
    · obtain ⟨hshape', hlen⟩ :=
        takeContent_needsAll (hshape hneeds.bounds) h0 (hn hst) hneeds.rest
      rcases hplain hneeds.plain with ⟨hsame, hleft⟩ | ⟨hdone, -⟩
      · refine .inl ⟨hsame.trans hst, ⟨hshape'.nonneg, hshape'.atMost⟩,
          hchunk.trans hneeds.plain, ?_⟩
        rw [hleft]
        exact hlen
      · exact absurd hdone hmore
    · refine .inr ?_
      rw [(RoundKept.take s n).net, hhandler]
      exact hrest

/-- The content part of a round. -/
theorem contentPart_fits {s : Sys} {size : Int} (hreach : SlotReach s.c) (hres : 0 ≤ s.c.result)
    (hst : s.c.state = .bodyReceiving ∨ s.c.state = .chunkLenReceiving ∨
      s.c.state = .chunkReceiving ∨ s.c.state = .bodyDone)
    (hsize : s.c.state = .bodyReceiving → size = s.c.requestLength)
    (hqueue : s.c.reqBufList ≠ []) (hfits : ContentFits s) : ContentEnd s (contentPart s size) := by
  have hredirect : codeRedirect = -307 := rfl
  unfold contentPart
  split
  · rename_i hoffer
    have hrec : s.c.state.receiving = true :=
      (receiving_of_content (hoffer.elim (fun h => .inr (.inr h)) .inl)).1
    have hnext : SlotReach (offerContent s size).c := by
      refine hreach.micro (.content s size ?_ hres)
      rcases hoffer with h | h
      · exact .inl h
      · exact .inr ⟨h, hsize h⟩
    unfold offerContent at hnext
    cases hf : s.c.handler.bind Cgi.onContentReceived with
    | none =>
      rw [cgiContentReceived_none hf]
      dsimp only
      rw [if_neg (by omega), if_pos (le_refl 0)]
      exact .stop Next.noConfusion hrec
    | some f =>
      obtain ⟨cgi, hcgi, heq⟩ := cgiContentReceived_some hf s.c.httpRequestBuffer size
      have hle := onContentReceived_le hcgi s.c.toRequest s.call s.c.httpRequestBuffer size
      have hresult := onContentReceived_result hcgi s.c.toRequest s.call s.c.httpRequestBuffer size
      rw [heq] at hnext ⊢
      generalize f s.c.toRequest s.call s.c.httpRequestBuffer size = k at hle hresult hnext ⊢
      generalize ht : (⟨k.1.w, { s.c with
        toResponse := k.1.r
        log := s.c.log ++ [.callback cgi .onContentReceived,
          .content s.c.toRequest s.c.toResponse s.c.requestLength size k.2] }, s.net⟩ : Sys) = t
        at hnext ⊢
      have hreq : t.c.toRequest = s.c.toRequest := by rw [← ht]
      have htrec : t.c.state.receiving = true := by
        rw [hreq]
        exact hrec
      dsimp only at hnext ⊢
      split
      · exact .stop Next.noConfusion htrec
      · rename_i hgood
        split
        · exact .stop Next.noConfusion htrec
        · rename_i hpos
          rw [if_neg (not_or.mpr ⟨hgood, hpos⟩)] at hnext
          have hlive := live_of_queue hreach hqueue
          have htshape : InBounds t.c → RxShape t.c := by
            rw [← ht]
            intro hbounds
            obtain ⟨h1, h2, h3, h4, h5, h6, h7⟩ := rxShape_of hreach hlive hbounds
            exact ⟨h1, h2, h3, h4, h5, h6, h7⟩
          have htfits : ContentFits t := by
            rw [← ht]
            intro hk
            rcases hfits hk with ⟨hbst, hneeds⟩ | hrest
            · exact .inl ⟨hbst, hneeds.bounds, hneeds.plain, hneeds.rest⟩
            · exact .inr hrest
          have htn : t.c.state = .bodyReceiving → k.2 ≤ t.c.requestLength := by
            rw [← ht]
            intro hbst
            have hall := hsize hbst
            show k.2 ≤ s.c.requestLength
            omega
          have htres : t.c.result = s.c.result := by
            rcases hresult with h | h
            · rw [← ht]
              exact h
            · rw [← ht] at hgood
              exact absurd (le_of_eq h) hgood
          obtain ⟨hdone, hmore⟩ := takeContent_fits htshape (by omega : 0 ≤ k.2) htn htfits
          obtain ⟨hhandler, -, -, -, -, hplain⟩ := takeContent_counts t k.2
          unfold roundEnd
          split
          · rename_i hover
            refine ⟨fun h => Next.noConfusion h, fun _ caller => completeRequest_over hnext hover
              (fun hq hk => ?_) caller⟩
            obtain ⟨hnet, hauth⟩ := hdone hover hq hk
            refine ⟨?_, ?_, ?_⟩
            · rw [(RoundKept.take t k.2).net]
              exact hnet
            · rw [hhandler]
              exact hauth
            · rw [takeContent_result, htres]
              omega
          · rename_i hover
            have hstate : (takeContent t k.2).c.state = s.c.state ∨
                (takeContent t k.2).c.state = .chunkLenReceiving := by
              rcases (takeContent_state t k.2).2 with h | h | ⟨-, h⟩
              · exact .inl (h.trans (congrArg Request.state hreq))
              · exact absurd h hover
              · exact .inr h
            split
            · refine .stop Next.noConfusion ?_
              rcases hstate with h | h
              · rw [h]
                exact hrec
              · rw [h]
                rfl
            · refine ⟨fun _ => ⟨?_, ?_, ?_, hmore hover⟩, fun h => ?_⟩
              · rcases hstate with h | h
                · rcases hoffer with hs | hs
                  · exact .inr (.inr (h.trans hs))
                  · exact .inl (h.trans hs)
                · exact .inr (.inl h)
              · exact hhandler.trans (congrArg Request.handler hreq)
              · intro hne
                refine .inr (hoffer.resolve_right fun hbst => ?_)
                have hplain' : t.c.chunked = false :=
                  (congrArg Request.chunked hreq).trans (hreach.framing.plain hbst)
                rcases hplain hplain' with ⟨hsame, -⟩ | ⟨hend, -⟩
                · exact hne (hsame.trans ((congrArg Request.state hreq).trans hbst))
                · exact hover hend
              · exfalso
                have h' : (takeContent t k.2).c.state.receiving = false := h
                rcases hstate with hs | hs
                · rw [hs, hrec] at h'
                  cases h'
                · rw [hs] at h'
                  cases h'
  · rename_i hoffer
    unfold roundEnd
    split
    · rename_i hover
      refine ⟨fun h => Next.noConfusion h, fun _ caller => completeRequest_over hreach hover
        (fun _ hk => ?_) caller⟩
      rcases hfits hk with ⟨hbst, -⟩ | ⟨hnet, hauth⟩
      · rw [hover] at hbst
        cases hbst
      · exact ⟨hnet, hauth, by omega⟩
    · rename_i hover
      rw [if_pos (.inr (le_refl 0))]
      refine .stop Next.noConfusion ?_
      rcases hst with h | h | h | h
      · exact absurd (.inr h) hoffer
      · rw [h]
        rfl
      · exact absurd (.inl h) hoffer
      · exact absurd h hover


/-! ## The content part of a round -/

/-- Where the content part begins: the chunk-size line in front of it is decoded first. -/
def contentBegin (u : Sys) (size : Int) : Sys :=
  if u.c.state = .chunkLenReceiving ∧ 2 < size then chunkLength u size else u

/-- The line is looked for in front of the last byte only. -/
theorem chunkLineEnd_take (buf : Bytes) {n k c : Nat} (h : c + k + 1 ≤ n) :
    chunkLineEnd (buf.take n) k c = chunkLineEnd buf k c := by
  induction k generalizing c with
  | zero => rfl
  | succ k ih =>
    rw [chunkLineEnd, chunkLineEnd, at'_take buf (by omega), at'_take buf (by omega),
      ih (by omega)]

/-- A chunk-size line is taken from the buffer, or there is none. -/
theorem chunkLength_spec (s : Sys) (size : Int) :
    (chunkLineEnd s.c.httpRequestBuffer (size - 1).toNat 0 = none ∧ chunkLength s size = s) ∨
      ((chunkLength s size).c.state = .chunkReceiving ∧
        (chunkLength s size).c.handler = s.c.handler ∧
        (chunkLength s size).c.keepalive = s.c.keepalive) := by
  unfold chunkLength
  cases chunkLineEnd s.c.httpRequestBuffer (size - 1).toNat 0 with
  | none => exact .inl ⟨rfl, rfl⟩
  | some i => exact .inr ⟨rfl, rfl, rfl⟩

/-- A handler that takes content is offered some. -/
theorem offers_of {s : Sys} {size : Int}
    (hst : s.c.state = .chunkReceiving ∨ s.c.state = .bodyReceiving) (hsize : 1 ≤ size)
    (htakes : (s.c.handler.bind Cgi.onContentReceived).isSome = true)
    (hform : s.c.handler = some .form →
      s.c.bytesLeft ≤ 224 ∧ s.c.contentReceived ≤ s.c.contentLength) : Offers s size := by
  obtain ⟨f, hf⟩ := Option.isSome_iff_exists.mp htakes
  obtain ⟨cgi, hcgi, hcall⟩ := Option.bind_eq_some_iff.mp hf
  refine ⟨hst, hsize, f, hf, onContentReceived_nonneg hcall _ _ _ hsize fun heq => ?_⟩
  exact hform (hcgi.trans (congrArg some heq))

/-- The handlers of which a chunk is known to be taken. -/
theorem offers_chunk {s : Sys} {size : Int} (hst : s.c.state = .chunkReceiving) (hsize : 1 ≤ size)
    (hcgi : s.c.handler = some .auth ∨ s.c.handler = some .upload) : Offers s size := by
  refine offers_of (.inl hst) hsize ?_ fun hform => ?_
  · rcases hcgi with h | h
    · rw [h]
      rfl
    · rw [h]
      rfl
  · rcases hcgi with h | h
    · rw [h] at hform
      cases hform
    · rw [h] at hform
      cases hform

/-- Content is received, and nothing of it will be stranded. -/
structure ContentCalm (s : Sys) : Prop where
  state : s.c.state = .bodyReceiving ∨ s.c.state = .chunkLenReceiving ∨
    s.c.state = .chunkReceiving
  takes : s.c.state ≠ .bodyReceiving → s.c.handler = some .auth ∨ s.c.handler = some .upload
  fits : ContentFits s

/-- The content part with the chunk-size line in front of it. -/
theorem contentBegin_fits {u : Sys} (hreach : SlotReach u.c) (hres : 0 ≤ u.c.result)
    (hst : u.c.state = .bodyReceiving ∨ u.c.state = .chunkLenReceiving ∨
      u.c.state = .chunkReceiving ∨ u.c.state = .bodyDone)
    (hqueue : u.c.reqBufList ≠ []) (hfits : ContentFits u) :
    ContentEnd u (contentPart (contentBegin u u.c.requestLength) u.c.requestLength) := by
  unfold contentBegin
  split
  · rename_i hchunk
    have hnext : SlotReach (chunkLength u u.c.requestLength).c :=
      hreach.micro (.chunkLength u hchunk.1 hres)
    have hkept := RoundKept.chunkLength u u.c.requestLength
    rcases chunkLength_spec u u.c.requestLength with ⟨-, hsame⟩ | ⟨hstate, hhandler, hkeep⟩
    · rw [hsame]
      refine contentPart_fits hreach hres (.inr (.inl hchunk.1)) (fun _ => rfl) hqueue hfits
    · have hfits' : ContentFits (chunkLength u u.c.requestLength) := by
        intro hk
        rcases hfits (hkeep ▸ hk) with ⟨hbst, -⟩ | ⟨hnet, hauth⟩
        · rw [hchunk.1] at hbst
          cases hbst
        · refine .inr ⟨?_, ?_⟩
          · rw [hkept.net]
            exact hnet
          · rw [hhandler]
            exact hauth
      have hpart : ContentEnd (chunkLength u u.c.requestLength)
          (contentPart (chunkLength u u.c.requestLength) u.c.requestLength) := contentPart_fits hnext
        (by rw [chunkLength_result]; exact hres) (.inr (.inr (.inl hstate)))
        (fun hbst => by rw [hstate] at hbst; cases hbst)
        (by rw [hkept.queue]; exact hqueue) hfits'
      refine ⟨fun hagain => ?_, hpart.ended⟩
      obtain ⟨hround, hsame, -, hmore⟩ := hpart.again hagain
      exact ⟨hround, hsame.trans hhandler, fun _ => .inl hchunk.1, hmore⟩
  · exact contentPart_fits hreach hres hst (fun _ => rfl) hqueue hfits

/-- Content is still received after a round that goes on. -/
theorem ContentEnd.calm {u : Sys} {r : Sys × Next} (h : ContentEnd u r) (hagain : r.2 = .again)
    (hcgi : u.c.state = .chunkLenReceiving ∨ u.c.state = .chunkReceiving →
      u.c.handler = some .auth ∨ u.c.handler = some .upload) : ContentCalm r.1 := by
  obtain ⟨hst, hhandler, hchunk, hfits⟩ := h.again hagain
  refine ⟨hst, fun hne => ?_, hfits⟩
  rw [hhandler]
  exact hcgi (hchunk hne)

/-! ## A round that strands nothing -/

/-- The data that is left waiting will be looked at: there is none, the windows of the header
section are known, or content is received; and a response does not end with data queued. -/
inductive Calm (s : Sys) : Prop where
  | drained (hqueue : s.c.reqBufList = [])
  | scanning (k : Nat) (lines : List Bytes) (σ : HeaderScan)
      (hst : s.c.state = .idle ∨ s.c.state = .headerReceiving) (hbounds : InBounds s.c)
      (hholds : Holds s.c lines σ.data σ.exact) (hpending : σ.verdict = .pending)
      (hfuel : s.c.waiting.length < k)
      (hfits : ∀ τ rest queue, headerEnd k σ s.c.waiting = some (τ, rest, queue) → queue ≠ [] →
        HeaderAligned s.w s.c.ipRemote s.net τ.data.toHeaderFields rest queue)
  | content (h : ContentCalm s)
  | blocked (h : NothingTaken s.c)
  | ended (h : s.c.state.receiving = false) (hreset : ∀ caller, ¬ResetWaiting s caller)

/-- A round behind the dequeue block that strands nothing. -/
structure CalmRound (s : Sys) : Prop where
  offered : ∀ t size, contentStart s = some (t, size) → Waiting t → Offers t size
  again : (processBuffer s).2 = .again → Calm (processBuffer s).1
  ended : (processBuffer s).1.c.state.receiving = false →
    ∀ caller, ¬ResetWaiting (processBuffer s).1 caller

/-- Where the content part begins, behind a given header part. -/
theorem round_begins {s t u : Sys} {justNow : Bool} {size : Int} (hlen : s.c.requestLength ≠ 0)
    (hhead : headerPart s = (t, justNow, size)) (hres : 0 ≤ t.c.result)
    (hst : t.c.state ≠ .idle ∧ t.c.state ≠ .headerReceiving)
    (hu : u = if justNow then headersEnd t else t) :
    (u.c.result < 0 → contentStart s = none ∧
      processBuffer s = (u.setState .sendingHeader, .stop)) ∧
    (0 ≤ u.c.result → contentStart s = some (contentBegin u size, size) ∧
      processBuffer s = contentPart (contentBegin u size) size) := by
  have hidle : ¬(t.c.state = .idle ∨ t.c.state = .headerReceiving) := not_or.mpr hst
  have hsmall : ¬(t.c.state = .headerReceiving ∧ (maxReqBufSize : Int) ≤ t.c.requestLength) :=
    fun h => hst.2 h.1
  unfold contentStart processBuffer afterHeader contentBegin
  rw [if_neg hlen, if_neg hlen, hhead]
  dsimp only
  rw [if_neg (not_lt.mpr hres), if_neg (not_lt.mpr hres), if_neg hsmall, if_neg hsmall,
    if_neg hidle, if_neg hidle, ← hu]
  constructor
  · intro hbad
    rw [if_pos hbad, if_pos hbad]
    exact ⟨rfl, rfl⟩
  · intro hgood
    rw [if_neg (not_lt.mpr hgood), if_neg (not_lt.mpr hgood)]
    split
    · exact ⟨rfl, rfl⟩
    · exact ⟨rfl, rfl⟩

/-- A round that the result or the verdict on the header section ends. -/
theorem round_refused {s t : Sys} {justNow : Bool} {size : Int} (hlen : s.c.requestLength ≠ 0)
    (hhead : headerPart s = (t, justNow, size)) (hbad : t.c.result < 0)
    (hrec : t.c.state.receiving = true) : CalmRound s := by
  have hstart : contentStart s = none := by
    unfold contentStart
    rw [if_neg hlen, hhead]
    exact if_pos hbad
  have hround : processBuffer s = (t, .stop) := by
    unfold processBuffer
    rw [if_neg hlen, hhead]
    exact if_pos hbad
  refine ⟨fun _ _ h => ?_, fun h => ?_, fun h => ?_⟩
  · rw [hstart] at h
    cases h
  · rw [hround] at h
    cases h
  · rw [hround] at h
    have hnot : t.c.state.receiving = false := h
    rw [hrec] at hnot
    cases hnot

/-- Behind the header section the header part does nothing. -/
theorem headerPart_behind {s : Sys} (hst : s.c.state ≠ .idle ∧ s.c.state ≠ .headerReceiving) :
    headerPart s = (s, false, s.c.requestLength) := by
  unfold headerPart
  dsimp only
  have hidle : ¬(0 < s.c.requestLength ∧ s.c.state = .idle) := fun hc => hst.1 hc.2
  have hunder : ¬(s.c.state = .headerReceiving ∧ 2 ≤ s.c.requestLength) := fun hc => hst.2 hc.1
  rw [if_neg hidle, if_neg hunder]

/-- The way to the content part leaves the queue alone. -/
theorem contentStart_kept {s t : Sys} {size : Int} (h : contentStart s = some (t, size)) :
    RoundKept s t := by
  have hhead := RoundKept.headerPart s
  unfold contentStart at h
  split at h
  · cases h
  · dsimp only at h
    generalize headerPart s = parsed at h hhead
    have hnow : RoundKept s (if parsed.2.1 then headersEnd parsed.1 else parsed.1) := by
      split
      · exact hhead.trans (.headersEnd _)
      · exact hhead
    generalize (if parsed.2.1 then headersEnd parsed.1 else parsed.1) = u at h hnow
    split at h
    · cases h
    · split at h
      · cases h
      · split at h
        · cases h
        · split at h
          · cases h
          · split at h
            · obtain ⟨rfl, -⟩ := Prod.mk.inj (Option.some.inj h)
              exact hnow.trans (.chunkLength ..)
            · obtain ⟨rfl, -⟩ := Prod.mk.inj (Option.some.inj h)
              exact hnow

/-- With nothing queued nothing is stranded. -/
theorem drained_round {s : Sys} (hqueue : s.c.reqBufList = []) : CalmRound s := by
  have hkept := (RoundKept.processBuffer s).queue.trans hqueue
  refine ⟨fun t size h hw => ?_, fun _ => .drained hkept, fun _ caller hreset => ?_⟩
  · exact absurd ((contentStart_kept h).queue.trans hqueue) hw.queued
  · exact hreset.queued hkept

/-- A round that takes nothing from a full buffer. -/
theorem blocked_round {s : Sys} (hfull : s.c.maxLevel ≤ s.c.requestLength)
    (hlevel : s.c.maxLevel = maxReqBufSize)
    (h : s.c.state = .chunkReceiving ∧ s.c.handler.bind Cgi.onContentReceived = none ∨
      s.c.state = .chunkLenReceiving ∧
        chunkLineEnd s.c.httpRequestBuffer (s.c.requestLength - 1).toNat 0 = none) :
    CalmRound s := by
  have hmax : maxReqBufSize = 128 := rfl
  obtain ⟨hrec, hbehind⟩ := receiving_of_content
    (.inr (h.elim (fun h => .inr h.1) fun h => .inl h.1))
  have hhead := headerPart_behind hbehind
  by_cases hbad : s.c.result < 0
  · exact round_refused (by omega) hhead hbad hrec
  · have hgood : 0 ≤ s.c.result := by omega
    obtain ⟨hstart, hround⟩ :=
      (round_begins (u := s) (by omega) hhead hgood hbehind rfl).2 hgood
    have hstop : contentBegin s s.c.requestLength = s ∧
        contentPart s s.c.requestLength = (s, .stop) := by
      rcases h with ⟨hchunk, hnone⟩ | ⟨hchunk, hnone⟩
      · constructor
        · exact if_neg fun hc => absurd (hchunk.symm.trans hc.1) (by decide)
        · unfold contentPart
          rw [if_pos (.inl hchunk), cgiContentReceived_none hnone]
          dsimp only
          rw [if_neg (by omega), if_pos (le_refl 0)]
      · constructor
        · unfold contentBegin
          split
          · unfold chunkLength
            rw [hnone]
          · rfl
        · have hover : s.c.state ≠ .bodyDone := by
            rw [hchunk]
            decide
          unfold contentPart roundEnd
          rw [if_neg (by rw [hchunk]; decide), if_neg hover, if_pos (.inr (le_refl 0))]
    rw [hstop.1] at hstart hround
    rw [hstop.2] at hround
    refine ⟨fun t size ht hw => ?_, fun hagain => ?_, fun hover => ?_⟩
    · rw [hstart] at ht
      obtain ⟨rfl, -⟩ := Prod.mk.inj (Option.some.inj ht)
      have hroom := hw.room
      omega
    · rw [hround] at hagain
      cases hagain
    · rw [hround] at hover
      have hnot : s.c.state.receiving = false := hover
      rw [hrec] at hnot
      cases hnot

/-- A round that finds content in a full buffer. -/
theorem content_round {s : Sys} (hreach : SlotReach s.c) (h : ContentCalm s)
    (hqueue : s.c.reqBufList ≠ []) (hfull : s.c.maxLevel ≤ s.c.requestLength)
    (hlevel : s.c.maxLevel = maxReqBufSize) : CalmRound s := by
  have hmax : maxReqBufSize = 128 := rfl
  obtain ⟨hrec, hst⟩ := receiving_of_content h.state
  have hhead := headerPart_behind hst
  by_cases hbad : s.c.result < 0
  · exact round_refused (by omega) hhead hbad hrec
  · obtain ⟨hstart, hround⟩ :=
      (round_begins (u := s) (by omega) hhead (by omega) hst rfl).2 (by omega)
    have hend := contentBegin_fits hreach (by omega)
      (h.state.imp id (Or.imp id .inl)) hqueue h.fits
    rw [← hround] at hend
    refine ⟨fun t size ht hw => ?_, fun hagain => ?_, hend.ended⟩
    · rw [hstart] at ht
      obtain ⟨rfl, rfl⟩ := Prod.mk.inj (Option.some.inj ht)
      have hroom := hw.room
      unfold contentBegin at hroom ⊢
      split at hroom
      · rename_i hchunk
        rw [if_pos hchunk]
        rcases chunkLength_spec s s.c.requestLength with ⟨-, hsame⟩ | ⟨hcst, hcgi, -⟩
        · rw [hsame] at hroom
          omega
        · refine offers_chunk hcst (by omega) ?_
          rw [hcgi]
          exact h.takes (by rw [hchunk.1]; decide)
      · omega
    · exact .content (hend.calm hagain fun hchunk => h.takes (by
        rcases hchunk with hc | hc
        · rw [hc]
          decide
        · rw [hc]
          decide))

/-! ## A round that ends the header section -/

/-- The handlers that take content. -/
theorem takes_content {h : Option Cgi} (htakes : (h.bind Cgi.onContentReceived).isSome = true) :
    h = some .auth ∨ h = some .form ∨ h = some .upload := by
  cases h with
  | none => cases htakes
  | some cgi =>
    cases cgi with
    | auth => exact .inl rfl
    | form => exact .inr (.inl rfl)
    | upload => exact .inr (.inr rfl)
    | _ => cases htakes

section HeaderOver

variable {t : Sys} {lines : List Bytes}

/-- A request that is refused does not end with data queued if its connection is kept. -/
theorem header_refused (hreach : SlotReach t.c) (hst : t.c.state = .headerDone)
    (hres : 0 ≤ t.c.result) (hlive : t.c.pcb.isSome = true)
    (hfits : HeaderAligned t.w t.c.ipRemote t.net
      (HeaderData.ofParts t.c.toRequest t.c.toResponse lines).toHeaderFields
      t.c.buffered t.c.queued) (caller : Caller) :
    ¬ResetWaiting ((headersEnd t).setState .sendingHeader) caller := by
  intro hreset
  obtain ⟨w, st, tm, r, log, heq, -⟩ := headersEnd_frame t
  have hkept := RoundKept.headersEnd t
  have hkeep : t.c.keepalive = true := by
    have hk := hreset.kept
    rw [heq] at hk
    exact hk
  obtain ⟨hnet, ⟨cgi, hcgi, hlet⟩, -⟩ := hfits.kept hkeep
  have hredirect := headersEnd_letIn (hreach.gated.chosen (by rw [hst]; rfl)) hres hcgi hlet
  refine httpResponseProc_begins (s := (headersEnd t).setState .sendingHeader) caller ?_ ?_
    (.inr rfl) ?_ hredirect hreset.ended
  · exact (congrArg Option.isSome hkept.pcb).trans hlive
  · show NoneRefused (headersEnd t).net
    rw [hkept.net]
    exact hnet
  · rw [heq]
    exact hreach.sendInv.early (.inl (by rw [hst]; rfl))

/-- A request that is let in comes to its content part with something to offer. -/
theorem header_content (hreach : SlotReach t.c) (hst : t.c.state = .headerDone)
    (hshape : RxShape t.c) (hqueue : t.c.queued ≠ [])
    (hfits : HeaderAligned t.w t.c.ipRemote t.net
      (HeaderData.ofParts t.c.toRequest t.c.toResponse lines).toHeaderFields
      t.c.buffered t.c.queued) (hgood : 0 ≤ (headersEnd t).c.result) :
    ContentFits (headersEnd t) ∧
      ((headersEnd t).c.state = .chunkLenReceiving ∨ (headersEnd t).c.state = .chunkReceiving →
        (headersEnd t).c.handler = some .auth ∨ (headersEnd t).c.handler = some .upload) ∧
      (Waiting (contentBegin (headersEnd t) t.c.requestLength) →
        Offers (contentBegin (headersEnd t) t.c.requestLength) t.c.requestLength) := by
  have hlen := length_buffered hshape
  have hqueued := List.length_pos_iff.mpr hqueue
  have hleft := headersEnd_bytesLeft (hreach.framing.empty hst)
  have hnone : t.c.contentReceived = 0 := hreach.framing.received (by rw [hst]; rfl)
  have hnot : ¬TurnedAway t.w t.c.ipRemote
      (HeaderData.ofParts t.c.toRequest t.c.toResponse lines).toHeaderFields := fun h => by
    have hbad := headersEnd_turnedAway (hreach.gated.chosen (by rw [hst]; rfl)) h
    omega
  have hnet := (RoundKept.headersEnd t).net
  obtain ⟨w, st, tm, r, log, heq, hframe⟩ := headersEnd_frame t
  generalize headersEnd t = u at heq hleft hgood hnet ⊢
  have hstate : u.c.state = st := by rw [heq]
  have hhandler : u.c.handler = t.c.handler := by rw [heq]
  have hwaiting : u.c.waiting = t.c.buffered ++ t.c.queued := by
    rw [heq]
    rfl
  have hlength : u.c.contentLength = t.c.contentLength ∧ u.c.contentReceived = 0 := by
    rw [heq]
    exact ⟨rfl, hnone⟩
  -- content is at hand if there is any
  have hhand : t.c.chunked = true ∨ 0 < t.c.contentLength →
      AtHand (HeaderData.ofParts t.c.toRequest t.c.toResponse lines).toHeaderFields
        t.c.buffered := by
    intro hsome
    rcases hfits.offered with ⟨hplain, hempty⟩ | haway | hhand
    · have hplain' : t.c.chunked = false := hplain
      have hempty' : t.c.contentLength ≤ 0 := hempty
      rcases hsome with h | h
      · rw [hplain'] at h
        cases h
      · omega
    · exact absurd haway hnot
    · exact hhand
  have hchunkHand : t.c.chunked = true → (t.c.handler = some .auth ∨ t.c.handler = some .upload) ∧
      2 < t.c.buffered.length ∧
      (chunkLineEnd t.c.buffered (t.c.buffered.length - 1) 0).isSome = true := by
    intro hchunk
    obtain ⟨htakes, hrest⟩ := hhand (.inl hchunk)
    have hchunk' : (HeaderData.ofParts t.c.toRequest t.c.toResponse lines).chunked = true := hchunk
    rw [if_pos hchunk'] at hrest
    refine ⟨?_, hrest.2⟩
    rcases takes_content htakes with h | h | h
    · exact .inl h
    · exact absurd h hrest.1
    · exact .inr h
  refine ⟨fun hk => ?_, fun hcst => ?_, fun hw => ?_⟩
  · have hkeep : t.c.keepalive = true := by
      rw [heq] at hk
      exact hk
    obtain ⟨haccept, -, hcgi⟩ := hfits.kept hkeep
    rcases hcgi with hne | ⟨hplain, hall⟩
    · refine .inr ⟨?_, ?_⟩
      · rw [hnet]
        exact haccept
      · rw [hhandler]
        exact hne
    · have hplain' : t.c.chunked = false := hplain
      have hall' : ((t.c.buffered.length + t.c.queued.length : Nat) : Int) ≤ t.c.contentLength :=
        hall
      rcases hframe with ⟨-, hchunk⟩ | ⟨hbst, -, -⟩ | ⟨-, -, hempty⟩
      · rw [hplain'] at hchunk
        cases hchunk
      · refine .inl ⟨hstate.trans hbst, ?_, ?_, ?_⟩
        · rw [heq]
          exact ⟨hshape.nonneg, hshape.atMost⟩
        · rw [heq]
          exact hplain'
        · rw [hwaiting, List.length_append, hlength.1, hlength.2]
          omega
      · omega
  · rw [hhandler]
    rcases hframe with ⟨-, hchunk⟩ | ⟨hbst, -, -⟩ | ⟨hbst, -, -⟩
    · exact (hchunkHand hchunk).1
    · rw [hstate, hbst] at hcst
      rcases hcst with h | h
      · cases h
      · cases h
    · rw [hstate, hbst] at hcst
      rcases hcst with h | h
      · cases h
      · cases h
  · rcases hframe with ⟨hcst, hchunk⟩ | ⟨hbst, hplain, hsome⟩ | ⟨hbst, -, -⟩
    · obtain ⟨hcgi, hlong, hline⟩ := hchunkHand hchunk
      have hbegin : contentBegin u t.c.requestLength = chunkLength u t.c.requestLength :=
        if_pos ⟨hstate.trans hcst, by omega⟩
      rw [hbegin]
      have hbuffer : u.c.httpRequestBuffer = t.c.httpRequestBuffer := by rw [heq]
      rcases chunkLength_spec u t.c.requestLength with ⟨hnoline, -⟩ | ⟨hdecoded, hsame, -⟩
      · -- the line that is at hand is in the buffer
        exfalso
        rw [hbuffer] at hnoline
        have hcount : t.c.buffered.length - 1 = (t.c.requestLength - 1).toNat := by omega
        rw [hcount, RequestContext.buffered, chunkLineEnd_take _ (by omega), hnoline] at hline
        cases hline
      · refine offers_chunk hdecoded (by omega) ?_
        rw [hsame, hhandler]
        exact hcgi
    · obtain ⟨htakes, hrest⟩ := hhand (.inr hsome)
      have hplain' : ¬(HeaderData.ofParts t.c.toRequest t.c.toResponse lines).chunked = true :=
        (Bool.not_eq_true _).mpr hplain
      rw [if_neg hplain'] at hrest
      have hpos := List.length_pos_iff.mpr hrest
      have hbegin : contentBegin u t.c.requestLength = u :=
        if_neg fun h => by
          have hcst := hstate.symm.trans h.1
          rw [hbst] at hcst
          cases hcst
      rw [hbegin]
      refine offers_of (.inr (hstate.trans hbst)) (by omega) ?_ fun _ => ⟨by omega, ?_⟩
      · rw [hhandler]
        exact htakes
      · rw [hlength.1, hlength.2]
        omega
    · exfalso
      have hbegin : contentBegin u t.c.requestLength = u :=
        if_neg fun h => by
          have hcst := hstate.symm.trans h.1
          rw [hbst] at hcst
          cases hcst
      have hrec := hw.receiving
      rw [hbegin, hstate, hbst] at hrec
      cases hrec

end HeaderOver

/-! ## A round that reads header lines -/

theorem headerEnd_more {k : Nat} {σ τ : HeaderScan} {p rest : Bytes}
    (hwindow : readWindow σ p = (τ, rest)) (hpending : τ.verdict = .pending)
    (hqueue : p.drop maxReqBufSize ≠ []) :
    headerEnd (k + 1) σ p = headerEnd k τ (rest ++ p.drop maxReqBufSize) := by
  conv_lhs => rw [headerEnd]
  rw [hwindow]
  dsimp only
  rw [hpending]
  exact if_neg hqueue

theorem headerEnd_complete {k : Nat} {σ τ : HeaderScan} {p rest : Bytes}
    (hwindow : readWindow σ p = (τ, rest)) (hcomplete : τ.verdict = .complete) :
    headerEnd (k + 1) σ p = some (τ, rest, p.drop maxReqBufSize) := by
  rw [headerEnd, hwindow]
  dsimp only
  rw [hcomplete]

/-- A round that finds a header section under way parses in `t`. -/
structure HeaderStart (s t : Sys) : Prop where
  globals : t.w = s.w
  net : t.net = s.net
  state : t.c.state = .headerReceiving
  address : t.c.ipRemote = s.c.ipRemote
  parts : ∀ lines, HeaderData.ofParts t.c.toRequest t.c.toResponse lines =
    HeaderData.ofParts s.c.toRequest s.c.toResponse lines
  shape : RxShape s.c → RxShape t.c
  length : t.c.requestLength = s.c.requestLength
  buffered : t.c.buffered = s.c.buffered
  queued : t.c.queued = s.c.queued
  queue : t.c.reqBufList = s.c.reqBufList
  parsed : headerPart s = ((parseHeader t t.c.requestLength).1, (parseHeader t t.c.requestLength).2,
    (parseHeader t t.c.requestLength).1.c.requestLength)

theorem headerStart {s : Sys} (hst : s.c.state = .idle ∨ s.c.state = .headerReceiving)
    (hlen : 2 ≤ s.c.requestLength) : ∃ t, HeaderStart s t := by
  rcases hst with hidle | hunder
  · refine ⟨startRequest s, rfl, rfl, rfl, rfl, fun _ => rfl, ?_, rfl, rfl, rfl, rfl, ?_⟩
    · intro h
      exact ⟨h.maxLevel, h.buffer, h.nonneg, h.atMost, h.chained, h.empty, h.inFirst⟩
    · have hfirst : 0 < s.c.requestLength ∧ s.c.state = .idle := ⟨by omega, hidle⟩
      unfold headerPart
      dsimp only
      rw [if_pos hfirst]
      exact if_pos ⟨rfl, hlen⟩
  · refine ⟨s, rfl, rfl, hunder, rfl, fun _ => rfl, id, rfl, rfl, rfl, rfl, ?_⟩
    have hnot : ¬(0 < s.c.requestLength ∧ s.c.state = .idle) := fun h => by
      rw [hunder] at h
      cases h.2
    unfold headerPart
    dsimp only
    rw [if_neg hnot]
    exact if_pos ⟨hunder, hlen⟩

/-- How the lines in the buffer leave the header section that its windows end. -/
inductive LinesRead (s p : Sys) (k : Nat) (σ : HeaderScan) : Bool → Prop
  | refused {justNow : Bool} (hbad : p.c.result = -500) (hrec : p.c.state.receiving = true) :
      LinesRead s p k σ justNow
  | more (lines : List Bytes) (τ : HeaderScan) (hshape : RxShape p.c)
      (hholds : Holds p.c lines τ.data τ.exact) (hpending : τ.verdict = .pending)
      (hst : p.c.state = .headerReceiving) (hlen : p.c.requestLength < maxReqBufSize)
      (hnext : p.c.reqBufList ≠ [] → ∃ n, p.c.waiting.length < n ∧
        headerEnd k σ s.c.waiting = headerEnd n τ p.c.waiting) :
      LinesRead s p k σ false
  | complete (lines : List Bytes) (τ : HeaderScan) (hshape : RxShape p.c)
      (hfields : (HeaderData.ofParts p.c.toRequest p.c.toResponse lines).toHeaderFields =
        τ.data.toHeaderFields)
      (hst : p.c.state = .headerDone)
      (hend : headerEnd k σ s.c.waiting = some (τ, p.c.buffered, p.c.queued)) :
      LinesRead s p k σ true

/-- The header part of a round leaves `p`. -/
structure HeaderLines (s : Sys) (k : Nat) (σ : HeaderScan) (p : Sys) (justNow : Bool) : Prop where
  parsed : headerPart s = (p, justNow, p.c.requestLength)
  globals : p.w = s.w
  address : p.c.ipRemote = s.c.ipRemote
  kept : RoundKept s p
  reach : SlotReach p.c
  read : LinesRead s p k σ justNow

/-- A round that finds header lines in a window. -/
theorem header_lines {s : Sys} {k : Nat} {lines : List Bytes} {σ : HeaderScan}
    (hreach : SlotReach s.c) (hst : s.c.state = .idle ∨ s.c.state = .headerReceiving)
    (hshape : RxShape s.c) (hholds : Holds s.c lines σ.data σ.exact)
    (hpending : σ.verdict = .pending) (hfuel : s.c.waiting.length < k)
    (hlen : 2 ≤ s.c.requestLength)
    (hfull : s.c.reqBufList = [] ∨ s.c.requestLength = maxReqBufSize) :
    ∃ p justNow, HeaderLines s k σ p justNow := by
  have hmax : maxReqBufSize = 128 := rfl
  have hcount := length_buffered hshape
  have hatMost := hshape.atMost
  have hrec := receiving_of_header hst
  -- the buffer is the window, and the queue is what is behind it
  have hfront : s.c.waiting.take maxReqBufSize = s.c.buffered ∧
      s.c.waiting.drop maxReqBufSize = s.c.queued := by
    rw [RequestContext.waiting]
    rcases hfull with hnone | hfull
    · rw [queued_of_reqBufList hnone, List.append_nil]
      exact ⟨List.take_of_length_le (by omega), List.drop_of_length_le (by omega)⟩
    · exact ⟨List.take_left' (by omega), List.drop_left' (by omega)⟩
  obtain ⟨t, ht⟩ := headerStart hst hlen
  have hreach' := hreach.micros (headerPart_micros hrec).1
  obtain ⟨n, hn⟩ := Int.eq_ofNat_of_zero_le hshape.nonneg
  have hwindow := parseHeader_window (n := n) (ht.shape hshape) ht.state (ht.length.trans hn)
    (by omega) hpending (hholds.of_same (ht.parts lines))
  have haside := parseHeader_parseAside t t.c.requestLength
  have hkept := RoundKept.headerPart s
  have hhead := ht.parsed
  rw [hhead] at hreach' hkept
  generalize parseHeader t t.c.requestLength = parsed at hwindow haside hkept hhead hreach'
  have hw : parsed.1.w = s.w := haside.globals.trans ht.globals
  have hip : parsed.1.c.ipRemote = s.c.ipRemote := haside.address.trans ht.address
  have hqueued : parsed.1.c.queued = s.c.queued := by
    rw [RequestContext.queued, RequestContext.queued, hkept.queue, hkept.offset]
  obtain ⟨k, rfl⟩ : ∃ m, k = m + 1 := ⟨k - 1, by omega⟩
  refine ⟨parsed.1, parsed.2, hhead, hw, hip, hkept, hreach', ?_⟩
  cases hwindow with
  | refused τ rest hsteps hrefused hbad hprec hsaid => exact .refused hbad hprec
  | @more p τ hparsed hsteps hmore hpst hshort hnoline =>
    have hleft := length_buffered hparsed.shape
    have hread : readWindow σ s.c.waiting = (τ, p.c.buffered) := by
      refine readWindow_eq ?_ ?_
      · rw [hfront.1, ← ht.buffered]
        exact hsteps
      · show headerStep τ p.c.buffered = none
        unfold headerStep
        rw [if_neg (by rw [hmore]; exact fun h => h rfl), List.take_of_length_le (by omega), hnoline]
        exact if_neg (by omega)
    obtain ⟨l, -, -, -, -, -, hsaid⟩ := hparsed.said
    refine .more (lines ++ headerLines l) τ hparsed.shape hsaid hmore hpst hshort fun hqueue => ?_
    have hsome : s.c.reqBufList ≠ [] := hkept.queue ▸ hqueue
    have hall := hfull.resolve_left hsome
    have hqueue' : s.c.queued ≠ [] := fun h => hsome (reqBufList_of_queued hshape h)
    have hqueued' : p.c.queued = s.c.queued := hqueued
    refine ⟨k, ?_, ?_⟩
    · show p.c.waiting.length < k
      rw [RequestContext.waiting, List.length_append] at hfuel ⊢
      rw [hqueued']
      omega
    · show _ = headerEnd k τ (p.c.buffered ++ p.c.queued)
      rw [hqueued', ← hfront.2]
      exact headerEnd_more hread hmore (by rw [hfront.2]; exact hqueue')
  | @complete p τ hparsed hsteps hcomplete hpst =>
    have hread : readWindow σ s.c.waiting = (τ, p.c.buffered) := by
      refine readWindow_eq ?_ ?_
      · rw [hfront.1, ← ht.buffered]
        exact hsteps
      · show headerStep τ p.c.buffered = none
        exact if_pos (by rw [hcomplete]; decide)
    obtain ⟨l, -, -, -, -, -, hsaid⟩ := hparsed.said
    refine .complete (lines ++ headerLines l) τ hparsed.shape hsaid.fields hpst ?_
    show _ = some (τ, p.c.buffered, p.c.queued)
    rw [show p.c.queued = s.c.queued from hqueued, ← hfront.2]
    exact headerEnd_complete hread hcomplete

/-- A round in which the header section goes on. -/
theorem round_more {s p : Sys} {size : Int} (hlen : s.c.requestLength ≠ 0)
    (hhead : headerPart s = (p, false, size)) (hgood : ¬ p.c.result < 0)
    (hst : p.c.state = .headerReceiving) (hshort : p.c.requestLength < maxReqBufSize) :
    contentStart s = none ∧
      processBuffer s = (p, if p.c.reqBufList = [] then .stop else .again) := by
  have hsmall : ¬(p.c.state = .headerReceiving ∧ (maxReqBufSize : Int) ≤ p.c.requestLength) :=
    fun h => absurd h.2 (by omega)
  unfold contentStart processBuffer
  rw [if_neg hlen, if_neg hlen, hhead]
  dsimp only
  rw [if_neg hgood, if_neg hgood, if_neg hsmall, if_neg hsmall, if_pos (.inr hst),
    if_pos (.inr hst)]
  exact ⟨rfl, rfl⟩

/-- A round that finds header lines in a full buffer. -/
theorem header_round {s : Sys} {k : Nat} {lines : List Bytes} {σ : HeaderScan}
    (hreach : SlotReach s.c) (hst : s.c.state = .idle ∨ s.c.state = .headerReceiving)
    (hshape : RxShape s.c) (hholds : Holds s.c lines σ.data σ.exact)
    (hpending : σ.verdict = .pending) (hfuel : s.c.waiting.length < k)
    (hfits : ∀ τ rest queue, headerEnd k σ s.c.waiting = some (τ, rest, queue) → queue ≠ [] →
      HeaderAligned s.w s.c.ipRemote s.net τ.data.toHeaderFields rest queue)
    (hqueue : s.c.reqBufList ≠ []) (hfull : s.c.requestLength = maxReqBufSize) : CalmRound s := by
  have hmax : maxReqBufSize = 128 := rfl
  have hlen0 : s.c.requestLength ≠ 0 := by omega
  obtain ⟨p, justNow, hhead, hw, hip, hkept, hreach', hread⟩ :=
    header_lines hreach hst hshape hholds hpending hfuel (by omega) (.inr hfull)
  have hplist : p.c.reqBufList ≠ [] := by
    rw [hkept.queue]
    exact hqueue
  cases hread with
  | refused hbad hprec => exact round_refused hlen0 hhead (by rw [hbad]; decide) hprec
  | more lines' τ hpshape hsaid hmore hpst hshort hnext =>
    by_cases hbad : p.c.result < 0
    · exact round_refused hlen0 hhead hbad (by rw [hpst]; rfl)
    · obtain ⟨hstart, hround⟩ := round_more hlen0 hhead hbad hpst hshort
      refine ⟨fun u size h => ?_, fun _ => ?_, fun h => ?_⟩
      · rw [hstart] at h
        cases h
      · rw [hround]
        obtain ⟨n, hn, hend⟩ := hnext hplist
        refine .scanning n lines' τ (.inr hpst) ⟨hpshape.nonneg, hpshape.atMost⟩ hsaid hmore hn ?_
        intro υ rest queue heq hne
        have heq' : headerEnd n τ p.c.waiting = some (υ, rest, queue) := heq
        rw [← hend] at heq'
        show HeaderAligned p.w p.c.ipRemote p.net _ rest queue
        rw [hw, hip, hkept.net]
        exact hfits υ rest queue heq' hne
      · rw [hround] at h
        have h' : p.c.state.receiving = false := h
        rw [hpst] at h'
        cases h'
  | complete lines' τ hpshape hfields hpst hend =>
    by_cases hbad : p.c.result < 0
    · exact round_refused hlen0 hhead hbad (by rw [hpst]; rfl)
    · have hqueued : p.c.queued ≠ [] := fun h => hplist (reqBufList_of_queued hpshape h)
      have hover : HeaderAligned p.w p.c.ipRemote p.net
          (HeaderData.ofParts p.c.toRequest p.c.toResponse lines').toHeaderFields
          p.c.buffered p.c.queued := by
        rw [hw, hip, hkept.net, hfields]
        exact hfits τ _ _ hend hqueued
      have hlive : p.c.pcb.isSome = true := live_of_queue hreach' hplist
      have hfine : 0 ≤ p.c.result := by omega
      have hbegins := round_begins (u := headersEnd p) hlen0 hhead hfine (by rw [hpst]; decide) rfl
      by_cases hfatal : (headersEnd p).c.result < 0
      · obtain ⟨hstart, hround⟩ := hbegins.1 hfatal
        refine ⟨fun u size h => ?_, fun h => ?_, fun _ caller => ?_⟩
        · rw [hstart] at h
          cases h
        · rw [hround] at h
          cases h
        · rw [hround]
          exact header_refused hreach' hpst hfine hlive hover caller
      · have hgood : 0 ≤ (headersEnd p).c.result := by omega
        obtain ⟨hstart, hround⟩ := hbegins.2 hgood
        obtain ⟨hcontent, hcgi, hoffers⟩ :=
          header_content hreach' hpst hpshape hqueued hover hgood
        obtain ⟨w, st, tm, r, log, heq, hframe⟩ := headersEnd_frame p
        have hplen : (headersEnd p).c.requestLength = p.c.requestLength := by rw [heq]
        have hend := contentBegin_fits (u := headersEnd p)
          (hreach'.micro (.headersEnd p hpst hfine)) hgood (by
            rw [show (headersEnd p).c.state = st by rw [heq]]
            rcases hframe with ⟨h, -⟩ | ⟨h, -⟩ | ⟨h, -⟩
            · exact .inr (.inl h)
            · exact .inl h
            · exact .inr (.inr (.inr h)))
          (by rw [(RoundKept.headersEnd p).queue]; exact hplist) hcontent
        rw [hplen, ← hround] at hend
        refine ⟨fun u size h hw => ?_, fun hagain => .content (hend.calm hagain hcgi), hend.ended⟩
        rw [hstart] at h
        obtain ⟨rfl, rfl⟩ := Prod.mk.inj (Option.some.inj h)
        exact hoffers hw

/-! ## The loop and the call -/

/-- A calm round begins with the dequeue block. -/
theorem Calm.round {s : Sys} (h : Calm s) (hreach : SlotReach s.c)
    (hrec : s.c.state.receiving = true) : CalmRound { s with c := s.c.dequeue } := by
  obtain ⟨hinv, hdone⟩ := queueInv_dequeue hreach.queueInv
  have hreach' : SlotReach s.c.dequeue := hreach.micro (.dequeue s hrec)
  by_cases hqueue : s.c.dequeue.reqBufList = []
  · exact drained_round hqueue
  have hlive' := live_of_queue hreach' hqueue
  obtain ⟨queue, off, len, buf, fault, log, heq, -⟩ := RxFrame.dequeue s.c
  have hlive : s.c.pcb.isSome := by
    rw [heq] at hlive'
    exact hlive'
  have hlevel := hreach.queueInv.level hlive
  have hlevel' := hinv.level hlive'
  have hfull := hdone.resolve_left hqueue
  have hreq : s.c.dequeue.toRequest = s.c.toRequest := (RxFrame.dequeue s.c).request
  have hmoved : InBounds s.c → RxShape s.c.dequeue ∧ s.c.dequeue.waiting = s.c.waiting := by
    intro hbounds
    obtain ⟨hshape, hwaiting, -⟩ := (rxShape_of hreach hlive hbounds).dequeue hreach.queueInv.small
    exact ⟨hshape, hwaiting⟩
  cases h with
  | drained hnone =>
    refine absurd ?_ hqueue
    rw [RequestContext.dequeue, if_pos hnone]
    exact hnone
  | scanning k lines σ hst hbounds hholds hpending hfuel hfits =>
    obtain ⟨hshape, hwaiting⟩ := hmoved hbounds
    have hatMost := hshape.atMost
    refine header_round (k := k) hreach' ?_ hshape (hholds.of_same ?_) hpending ?_ ?_ hqueue ?_
    · show s.c.dequeue.state = _ ∨ s.c.dequeue.state = _
      rw [hreq]
      exact hst
    · show HeaderData.ofParts s.c.dequeue.toRequest s.c.dequeue.toResponse lines = _
      rw [heq]
      rfl
    · show s.c.dequeue.waiting.length < k
      rw [hwaiting]
      exact hfuel
    · show ∀ τ rest queue, headerEnd k σ s.c.dequeue.waiting = some (τ, rest, queue) → queue ≠ [] →
        HeaderAligned s.w s.c.dequeue.ipRemote s.net τ.data.toHeaderFields rest queue
      rw [hwaiting, hreq]
      exact hfits
    · show s.c.dequeue.requestLength = _
      omega
  | content hcontent =>
    refine content_round hreach' ⟨?_, ?_, fun hk => ?_⟩ hqueue (by
      show s.c.dequeue.maxLevel ≤ s.c.dequeue.requestLength
      omega) hlevel'
    · show s.c.dequeue.state = _ ∨ s.c.dequeue.state = _ ∨ s.c.dequeue.state = _
      rw [hreq]
      exact hcontent.state
    · show s.c.dequeue.state ≠ _ → s.c.dequeue.handler = _ ∨ s.c.dequeue.handler = _
      rw [hreq]
      exact hcontent.takes
    · have hkeep : s.c.keepalive = true := (congrArg Request.keepalive hreq).symm.trans hk
      rcases hcontent.fits hkeep with ⟨hbst, hneeds⟩ | ⟨hnet, hauth⟩
      · obtain ⟨hshape, hwaiting⟩ := hmoved hneeds.bounds
        refine .inl ⟨(congrArg Request.state hreq).trans hbst, ⟨hshape.nonneg, hshape.atMost⟩,
          (congrArg Request.chunked hreq).trans hneeds.plain, ?_⟩
        show (s.c.dequeue.waiting.length : Int) ≤
          s.c.dequeue.contentLength - s.c.dequeue.contentReceived
        rw [hwaiting, hreq]
        exact hneeds.rest
      · refine .inr ⟨hnet, ?_⟩
        show s.c.dequeue.handler ≠ _
        rw [hreq]
        exact hauth
  | blocked hnothing =>
    refine blocked_round (by
      show s.c.dequeue.maxLevel ≤ s.c.dequeue.requestLength
      omega) hlevel' ?_
    show s.c.dequeue.state = _ ∧ s.c.dequeue.handler.bind _ = none ∨ s.c.dequeue.state = _ ∧
      chunkLineEnd s.c.dequeue.httpRequestBuffer (s.c.dequeue.requestLength - 1).toNat 0 = none
    rw [hreq]
    rcases hnothing with hchunk | ⟨hchunk, hbounds, hnone⟩
    · exact .inl hchunk
    refine .inr ⟨hchunk, ?_⟩
    obtain ⟨hshape, hwaiting⟩ := hmoved hbounds
    have hatMost := hshape.atMost
    have hlen : s.c.dequeue.requestLength = maxReqBufSize := by omega
    have hcount := length_buffered hshape
    -- the window is what the buffer holds
    have hwindow : s.c.waiting.take maxReqBufSize =
        s.c.dequeue.httpRequestBuffer.take maxReqBufSize := by
      rw [← hwaiting, RequestContext.waiting, List.take_left' (by omega), RequestContext.buffered,
        hlen, Int.toNat_natCast]
    rw [hwindow, chunkLineEnd_take _ (by decide)] at hnone
    rw [hlen]
    exact hnone
  | ended hnot =>
    rw [hrec] at hnot
    cases hnot

theorem Calm.reset {s : Sys} (h : Calm s) (hrec : s.c.state.receiving = false) (caller : Caller) :
    ¬ResetWaiting s caller := by
  have hover : s.c.state.receiving = true → ¬ResetWaiting s caller := by
    intro h
    rw [hrec] at h
    cases h
  cases h with
  | drained hqueue => exact fun hreset => hreset.queued hqueue
  | scanning k lines σ hst => exact hover (receiving_of_header hst)
  | content hcontent => exact hover (receiving_of_content hcontent.state).1
  | blocked hnothing =>
    exact hover (receiving_of_content
      (.inr (hnothing.elim (fun h => .inr h.1) fun h => .inl h.1))).1
  | ended hnot hreset => exact hreset caller

/-- The loop keeps calm. -/
theorem receiveLoop_calm (fuel : Nat) {s : Sys} (hreach : SlotReach s.c) (hcalm : Calm s)
    (hok : (receiveLoop fuel s).1.c.fault = false) :
    ¬StrandedRound (lastRound fuel s) ∧ ∀ caller, ¬ResetWaiting (receiveLoop fuel s).1 caller := by
  induction fuel generalizing s with
  | zero => cases hok
  | succ fuel ih =>
    rw [receiveLoop] at hok ⊢
    rw [lastRound]
    by_cases hrec : s.c.state.receiving = true
    · rw [if_pos hrec, if_pos hrec]
      rw [if_pos hrec] at hok
      have hround := hcalm.round hreach hrec
      have hnext : SlotReach (iteration s).1.c := hreach.micros (iteration_micros hrec)
      have hnone : ¬StrandedRound s := by
        rintro ⟨-, t, size, hstart, hw, hnot⟩
        exact hnot (hround.offered t size hstart hw)
      have hagain : (iteration s).2 = .again → Calm (iteration s).1 := hround.again
      have hover : (iteration s).1.c.state.receiving = false →
          ∀ caller, ¬ResetWaiting (iteration s).1 caller := hround.ended
      generalize iteration s = r at hok hnext hagain hover ⊢
      obtain ⟨t, next⟩ := r
      cases next with
      | again => exact ih hnext (hagain rfl) hok
      | stop => exact ⟨hnone, fun caller hreset => hover hreset.responding caller hreset⟩
      | ret => exact ⟨hnone, fun caller hreset => hover hreset.responding caller hreset⟩
    · rw [if_neg hrec, if_neg hrec]
      have hnot : s.c.state.receiving = false := (Bool.not_eq_true _).mp hrec
      exact ⟨fun h => hrec h.1, hcalm.reset hnot⟩

theorem calm_of_aligned {s : Sys} (h : Aligned s) : s.c.peerClosing = true ∨ Calm s := by
  unfold Aligned at h
  rcases h with hpeer | hqueue | h
  · exact .inl hpeer
  · exact .inr (.drained hqueue)
  · refine .inr ?_
    have hreset : s.c.keepalive = false ∨ (maxReqBufSize : Int) ≤ s.c.requestLength →
        ∀ caller, ¬ResetWaiting s caller := by
      rintro (hkeep | hfull) caller hreset
      · have hkept := hreset.kept
        rw [hkeep] at hkept
        cases hkept
      · have hroom := hreset.room
        omega
    have hscan : (s.c.state = .idle ∨ s.c.state = .headerReceiving) → InBounds s.c →
        (∀ τ rest queue, headerEnd (s.c.waiting.length + 1) (scanOf s.c) s.c.waiting =
          some (τ, rest, queue) → queue ≠ [] →
          HeaderAligned s.w s.c.ipRemote s.net τ.data.toHeaderFields rest queue) → Calm s :=
      fun hst hbounds hfits => .scanning _ [] (scanOf s.c) hst hbounds (holds_scanOf s.c) rfl
        (Nat.lt_succ_self _) hfits
    cases hst : s.c.state with
    | idle =>
      rw [hst] at h
      exact hscan (.inl hst) h.1 h.2
    | headerReceiving =>
      rw [hst] at h
      exact hscan (.inr hst) h.1 h.2
    | bodyReceiving =>
      rw [hst] at h
      exact .content ⟨.inl hst, fun hne => absurd hst hne, h⟩
    | chunkLenReceiving =>
      rw [hst] at h
      rcases h with hnothing | hcontent
      · exact .blocked hnothing
      · exact .content ⟨.inr (.inl hst), fun _ => hcontent.1, hcontent.2⟩
    | chunkReceiving =>
      rw [hst] at h
      rcases h with hnothing | hcontent
      · exact .blocked hnothing
      · exact .content ⟨.inr (.inr hst), fun _ => hcontent.1, hcontent.2⟩
    | headerDone =>
      rw [hst] at h
      exact h.elim
    | chunkLenDone =>
      rw [hst] at h
      exact h.elim
    | chunkDone =>
      rw [hst] at h
      exact h.elim
    | bodyDone =>
      rw [hst] at h
      exact .ended (by rw [hst]; rfl) (hreset h)
    | sendingHeader =>
      rw [hst] at h
      exact .ended (by rw [hst]; rfl) (hreset h)
    | sendingBody =>
      rw [hst] at h
      exact .ended (by rw [hst]; rfl) (hreset h)
    | requestEnd =>
      rw [hst] at h
      exact .ended (by rw [hst]; rfl) (hreset h)

/-- The loop of a call without a fault ends without one. -/
theorem receiveLoop_fine {s : Sys} {caller : Caller}
    (hok : (httpRequestProc s caller).c.fault = false) :
    (receiveLoop (receiveFuel s.c) s).1.c.fault = false := by
  unfold httpRequestProc at hok
  generalize receiveLoop (receiveFuel s.c) s = r at hok ⊢
  obtain ⟨t, next⟩ := r
  have hfinish : (requestFinish t caller).c.fault = false → t.c.fault = false := by
    intro h
    by_contra hbad
    rw [micros_marked (requestFinish_micros t caller) (by simpa using hbad)] at h
    cases h
  cases next with
  | again => exact hfinish hok
  | stop => exact hfinish hok
  | ret => exact hok

/-- **No stranded input.** For every state a context can be in and every event, as long as
nothing is written outside its object: a call of `HttpRequestProc` that finds the buffer, the
queue and the state aligned leaves no data waiting for nothing. -/
theorem no_stranded_input {s : Sys} {caller : Caller} (hreach : SlotReach s.c)
    (hok : (httpRequestProc s caller).c.fault = false) (haligned : Aligned s) :
    NoStrandedInput s caller := by
  rw [noStrandedInput_iff, waiting_iff hreach hok]
  have hpeer := receiveLoop_peerClosing (receiveFuel s.c) s
  rcases calm_of_aligned haligned with hclosing | hcalm
  · rintro (⟨-, hopen⟩ | hreset)
    · rw [hclosing] at hopen
      cases hopen
    · have hopen := hreset.peer
      rw [hpeer, hclosing] at hopen
      cases hopen
  · obtain ⟨hround, hreset⟩ := receiveLoop_calm _ hreach hcalm (receiveLoop_fine hok)
    rintro (⟨hstranded, -⟩ | hlast)
    · exact hround hstranded
    · exact hreset caller hlast

/-- A login with a header line of `fill` letters, and 25 bytes of its body behind it. -/
def filledLogin (length : String) (fill : Nat) : Bytes :=
  ascii "POST /auth/login.html HTTP/1.1\r\nContent-Length: " ++ ascii length ++
    ascii "\r\nX-Fill: " ++ List.replicate fill 97 ++ ascii "\r\n\r\n" ++
    ascii "username=admin&password=x"

/-- A header section one byte shorter than the buffer, and a body that goes on. -/
def shortLogin : Segment := .ofBytes (filledLogin "99" 63) (by decide)

/-- A header section as long as the buffer, and its body. -/
def fullLogin : Segment := .ofBytes (filledLogin "25" 64) (by decide)

/-- A server with one connection. -/
def oneConnection : Server := (Server.boot plainWorld).run [(openNet, .accept 0x0A000001)]

/-- A segment arrives on it. -/
def segmentArrived (p : Segment) : Sys :=
  received (oneConnection.sys openNet (oneConnection.slot 0)) p

theorem segmentArrived_reach {p : Segment} (hfit : p.data.length < 65536) :
    SlotReach (segmentArrived p).c := by
  have hrun : (Server.boot plainWorld).RunLegal [(openNet, .accept 0x0A000001)] ∧
      0 < oneConnection.slots.length ∧
      (oneConnection.sys openNet (oneConnection.slot 0)).c.pcb.isSome ∧
      (oneConnection.sys openNet (oneConnection.slot 0)).c.reqBufList = [] := by decide +kernel
  obtain ⟨hlegal, hin, hlive, hnone⟩ := hrun
  have hslot : SlotReach (oneConnection.sys openNet (oneConnection.slot 0)).c :=
    ((Server.Reachable.boot plainWorld).run hlegal).slot (Server.slot_mem hin)
  refine hslot.received hlive ?_
  rw [hnone, Pbuf.data_nil, List.length_nil, Nat.zero_add]
  exact hfit

/-- Behind the short header section a byte of the body is at hand. -/
theorem shortLogin_aligned : Aligned (segmentArrived shortLogin) := by
  have hfound : (segmentArrived shortLogin).c.state = .idle ∧
      (segmentArrived shortLogin).c.requestLength = 0 ∧
      (headerEnd ((segmentArrived shortLogin).c.waiting.length + 1)
        (scanOf (segmentArrived shortLogin).c) (segmentArrived shortLogin).c.waiting).all (fun e =>
          decide (e.1.data.handler = some .auth ∧ e.1.data.chunked = false ∧
            e.1.data.keepalive = false ∧ e.2.1 ≠ [])) = true := by
    decide +kernel
  obtain ⟨hst, hlen, hend⟩ := hfound
  refine .inr (.inr ?_)
  rw [hst]
  refine ⟨⟨by omega, by rw [hlen]; decide⟩, fun τ rest queue heq _ => ?_⟩
  rw [heq] at hend
  obtain ⟨hcgi, hplain, hkeep, hrest⟩ := of_decide_eq_true (show decide _ = true from hend)
  refine ⟨.inr (.inr ⟨?_, ?_⟩), fun h => ?_⟩
  · rw [hcgi]
    rfl
  · rw [if_neg (by rw [hplain]; decide)]
    exact hrest
  · rw [hkeep] at h
    cases h

theorem no_stranded_input_short : NoStrandedInput (segmentArrived shortLogin) .recv :=
  no_stranded_input (segmentArrived_reach (by decide +kernel)) (by decide +kernel)
    shortLogin_aligned

/-- The header section empties the buffer, the handler is offered no byte of the body, and the
call returns with the body in the queue. -/
theorem no_stranded_input_body :
    ¬ ∀ (s : Sys) (caller : Caller), SlotReach s.c → (httpRequestProc s caller).c.fault = false →
      NoStrandedInput s caller := by
  intro h
  have hrun : (httpRequestProc (segmentArrived fullLogin) .recv).c.fault = false ∧
      (httpRequestProc (segmentArrived fullLogin) .recv).c.state.receiving ∧
      0 ≤ (httpRequestProc (segmentArrived fullLogin) .recv).c.result ∧
      (httpRequestProc (segmentArrived fullLogin) .recv).c.reqBufList ≠ [] ∧
      (httpRequestProc (segmentArrived fullLogin) .recv).c.requestLength
        < (httpRequestProc (segmentArrived fullLogin) .recv).c.maxLevel ∧
      ∀ a ∈ (httpRequestProc (segmentArrived fullLogin) .recv).c.log.drop
        (segmentArrived fullLogin).c.log.length, a.inVain = false := by decide +kernel
  obtain ⟨hok, hrec, hfine, hqueue, hroom, hnone⟩ := hrun
  have hreach := segmentArrived_reach (p := fullLogin) (by decide +kernel)
  rcases h (segmentArrived fullLogin) .recv hreach hok hrec hfine hqueue with
    hfull | ⟨a, ha, hvain⟩
  · omega
  · rw [hnone a ha] at hvain
    cases hvain

end Httpd
