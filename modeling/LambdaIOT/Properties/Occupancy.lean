import LambdaIOT.Httpd.Invariants

/-!
# Occupancy of the receive buffer

`request_length` stays between zero and `max_level`, a content callback is offered what is
there and takes no more than that, and `_contentReceived` stays below `_contentLength`.

Two steps of the code break this. Decoding a chunk-size line removes it from the buffer but
the content is still offered with the size from before; and the login handler takes all it
is offered, the beginning of the next request included. `OccupancyCond` excludes the two.
-/

namespace Httpd

open CMem Lwip

/-- A content callback is offered the bytes present, and takes some of them, as long as the
content lasts. -/
def ContentOk : Act → Prop
  | .content h _ requestLength size consumed =>
    size = requestLength ∧ 0 ≤ consumed ∧ consumed ≤ size ∧
      h.contentReceived + consumed ≤ max h.contentLength 0
  | _ => True

/-- What is promised of a context. A content length of -1 is none. -/
structure Occupancy (c : RequestContext) : Prop where
  level : c.pcb.isSome → c.maxLevel = maxReqBufSize
  nonneg : 0 ≤ c.requestLength
  atMost : c.requestLength ≤ maxReqBufSize
  content : ∀ a ∈ c.log, ContentOk a
  received : c.contentReceived ≤ max c.contentLength 0

/-- The steps for which it is kept: no chunk-size line is decoded, and the login handler is
offered no more than the rest of its content. -/
def OccupancyCond : Act → Prop
  | .chunkLine _ => False
  | .content h _ _ size _ => h.handler = some .auth → size ≤ h.contentLength - h.contentReceived
  | _ => True

instance : DecidablePred OccupancyCond := fun a => by
  apply @Act.casesOn (fun a => Decidable (OccupancyCond a)) a <;> intros <;> unfold OccupancyCond <;> infer_instance

/-! ## The invariant -/

structure OccInv (c : RequestContext) : Prop extends Occupancy c where
  levelLe : c.maxLevel ≤ maxReqBufSize
  early : c.state = .idle ∨ c.state = .headerReceiving ∨ c.state = .headerDone →
    c.contentReceived = 0
  empty : c.state = .headerDone → c.bytesLeft = 0
  body : c.state = .bodyReceiving → c.contentReceived < c.contentLength ∧ c.bytesLeft ≤ 224
  noChunk : c.state ≠ .chunkReceiving

theorem occInv_setup : OccInv setupContext where
  level := fun h => nomatch h
  nonneg := le_refl _
  atMost := by decide
  content := fun a ha => nomatch ha
  received := le_refl _
  levelLe := by decide
  early := fun _ => rfl
  empty := fun h => nomatch h
  body := fun h => nomatch h
  noChunk := fun h => nomatch h

theorem contentOk_of_rx {a : Act} (h : a.isRx) : ContentOk a := by
  cases a with
  | content => cases h
  | _ => trivial

theorem contentOk_of_parse {a : Act} (h : a.isParse) : ContentOk a := by
  cases a with
  | content => cases h
  | _ => trivial

theorem contentOk_of_response {a : Act} (h : a.isResponse) : ContentOk a := by
  cases a with
  | content => cases h
  | _ => trivial

theorem contentOk_append {log ext : List Act} (hl : ∀ a ∈ log, ContentOk a)
    (he : ∀ a ∈ ext, ContentOk a) : ∀ a ∈ log ++ ext, ContentOk a := by
  intro a ha
  rcases List.mem_append.mp ha with h | h
  · exact hl a h
  · exact he a h

/-! ## The receive path -/

/-- Moving bytes keeps the invariant if the new length is in bounds. -/
theorem occInv_rx {c c' : RequestContext} (hi : OccInv c) (hf : RxFrame c c')
    (h0 : 0 ≤ c'.requestLength) (h1 : c'.requestLength ≤ maxReqBufSize) : OccInv c' := by
  obtain ⟨_, _, _, _, _, _, rfl, -, hl⟩ := hf
  exact {
    level := hi.level
    nonneg := h0
    atMost := h1
    content := contentOk_append hi.content fun a ha => contentOk_of_rx (hl a ha)
    received := hi.received
    levelLe := hi.levelLe
    early := hi.early
    empty := hi.empty
    body := hi.body
    noChunk := hi.noChunk }

theorem occInv_dequeue {c : RequestContext} (hi : OccInv c) : OccInv c.dequeue := by
  have hlen : 0 ≤ c.dequeue.requestLength ∧ c.dequeue.requestLength ≤ maxReqBufSize := by
    have h0 := hi.nonneg
    have h1 := hi.atMost
    have h2 := hi.levelLe
    unfold RequestContext.dequeue
    split
    · exact ⟨h0, h1⟩
    · dsimp only
      split
      · rename_i hspace
        rw [releaseQueue_requestLength]
        show 0 ≤ c.requestLength + _ ∧ c.requestLength + _ ≤ _
        omega
      · exact ⟨h0, h1⟩
  exact occInv_rx hi (.dequeue c) hlen.1 hlen.2

theorem occInv_receivePbuf {c : RequestContext} (p : List Pbuf) (hi : OccInv c) :
    OccInv (c.receivePbuf p) := by
  have hlen : 0 ≤ (c.receivePbuf p).requestLength ∧
      (c.receivePbuf p).requestLength ≤ maxReqBufSize := by
    have h0 := hi.nonneg
    have h1 := hi.atMost
    have h2 := hi.levelLe
    unfold RequestContext.receivePbuf
    dsimp only
    split
    · exact ⟨h0, h1⟩
    · split
      · exact ⟨h0, h1⟩
      · rename_i hfits
        show 0 ≤ c.requestLength + _ ∧ c.requestLength + _ ≤ _
        omega
  exact occInv_rx hi (.receivePbuf c p) hlen.1 hlen.2

/-! ## The parser -/

theorem cgiSetCgiHandler_contentReceived (s : Sys) :
    (cgiSetCgiHandler s).c.contentReceived = s.c.contentReceived := by
  rw [cgiSetCgiHandler]
  dsimp only
  split
  · rfl
  · rfl

theorem requestLine_contentReceived (s : Sys) (tail : Bytes) (n : Nat) :
    (requestLine s tail n).c.contentReceived = s.c.contentReceived := by
  rw [requestLine]
  split
  · rfl
  · exact cgiSetCgiHandler_contentReceived _

theorem headerLine_contentReceived (s : Sys) (tail : Bytes) (n : Nat) :
    (headerLine s tail n).c.contentReceived = s.c.contentReceived ∨
      (headerLine s tail n).c.contentReceived = 0 := by
  unfold headerLine
  dsimp only
  repeat' split
  · exact .inr rfl
  · exact .inl rfl
  · exact .inl rfl
  · exact .inl rfl
  · exact .inl rfl
  · exact .inl rfl
  · exact .inl rfl
  · unfold cgiHeaderReceived Sys.invoke
    split
    · exact .inl rfl
    · split <;> exact .inl rfl

/-- What the lines of a header section keep: the content starts at zero, and behind the
empty line nothing is pending. -/
structure ScanInv (c d : RequestContext) : Prop where
  length : d.requestLength = c.requestLength
  level : d.maxLevel = c.maxLevel
  received : d.contentReceived = 0
  empty : d.state = .headerDone → d.bytesLeft = 0

theorem scanInv_parseScan {s : Sys} (size : Int) (h0 : s.c.contentReceived = 0)
    (hst : s.c.state = .headerReceiving) : ScanInv s.c (parseScan s size).s.c := by
  refine lineLoop_induct (P := fun t => ScanInv s.c t.c) ?_ ?_ ?_ _ _ _
    ⟨rfl, rfl, h0, fun h => by rw [hst] at h; cases h⟩
  · intro t tail n _ ht
    have hrec := (requestLine_contentReceived t tail n).trans ht.received
    obtain ⟨_, _, _, _, heq, hh, hr, _⟩ := LineFrame.requestLine t tail n
    rw [heq] at hrec ⊢
    refine ⟨ht.length, ht.level, hrec, ?_⟩
    show Request.state _ = _ → Response.bytesLeft _ = _
    rw [hh, hr]
    exact ht.empty
  · intro t tail n _ ht
    have hrec : (headerLine t tail n).c.contentReceived = 0 := by
      rcases headerLine_contentReceived t tail n with h | h
      · rw [h]
        exact ht.received
      · exact h
    obtain ⟨_, _, _, _, heq, hh, hr, _⟩ := LineFrame.headerLine t tail n
    rw [heq] at hrec ⊢
    refine ⟨ht.length, ht.level, hrec, ?_⟩
    show Request.state _ = _ → Response.bytesLeft _ = _
    rw [hh, hr]
    exact ht.empty
  · intro t ht
    unfold endOfHeaders
    dsimp only
    split
    · exact ⟨ht.length, ht.level, ht.received, fun _ => rfl⟩
    · exact ⟨ht.length, ht.level, ht.received, fun _ => rfl⟩

/-- The lines that are shifted out were in the buffer. -/
theorem shift_requestLength {l : LineScan} {size : Int} (arrived : Bytes)
    (hlen : l.s.c.requestLength = size) (hpos : (l.nLinePos : Int) ≤ size) (hsize : 0 ≤ size) :
    0 ≤ (l.shift arrived).requestLength ∧ (l.shift arrived).requestLength ≤ size := by
  unfold LineScan.shift
  dsimp only
  split
  · split
    · show 0 ≤ l.s.c.requestLength - l.s.c.requestLength.tdiv 2 ∧ _ - _ ≤ _
      rw [hlen, Int.tdiv_eq_ediv_of_nonneg hsize]
      omega
    · exact ⟨by rw [hlen]; exact hsize, Int.le_of_eq hlen⟩
  · show 0 ≤ l.s.c.requestLength - _ ∧ _ - _ ≤ _
    rw [hlen]
    omega

theorem occInv_parseHeader {s : Sys} (hi : OccInv s.c) (hst : s.c.state = .headerReceiving)
    (hlen : 2 ≤ s.c.requestLength) : OccInv (parseHeader s s.c.requestLength).1.c := by
  have hscan := scanInv_parseScan s.c.requestLength (hi.early (.inr (.inl hst))) hst
  have hpos := (parseScan_bound s s.c.requestLength (by omega)).1
  have hstate := parseHeader_state s s.c.requestLength (by omega)
  have hshift := shift_requestLength s.c.httpRequestBuffer hscan.length hpos hi.nonneg
  have hreq := shift_request (parseScan s s.c.requestLength) s.c.httpRequestBuffer
  have hresp := shift_response (parseScan s s.c.requestLength) s.c.httpRequestBuffer
  have hrec : (parseHeader s s.c.requestLength).1.c.contentReceived = 0 :=
    (congrArg Request.contentReceived hreq).trans hscan.received
  have hempty : (parseHeader s s.c.requestLength).1.c.state = .headerDone →
      (parseHeader s s.c.requestLength).1.c.bytesLeft = 0 := fun h =>
    (congrArg Response.bytesLeft hresp).trans
      (hscan.empty ((congrArg Request.state hreq).symm.trans h))
  have hle : (parseHeader s s.c.requestLength).1.c.requestLength ≤ maxReqBufSize :=
    hshift.2.trans hi.atMost
  have hst' : (parseHeader s s.c.requestLength).1.c.state = .headerDone ∨
      (parseHeader s s.c.requestLength).1.c.state = .headerReceiving := by
    rw [hstate, hst]
    split
    · exact .inl rfl
    · exact .inr rfl
  have h0 : 0 ≤ (parseHeader s s.c.requestLength).1.c.requestLength := hshift.1
  obtain ⟨_, _, _, _, _, _, heq, -, hl⟩ := ParseFrame.parseHeader s s.c.requestLength
  rw [heq] at hrec hempty hle hst' h0 ⊢
  exact {
    level := hi.level
    nonneg := h0
    atMost := hle
    content := contentOk_append hi.content fun a ha => contentOk_of_parse (hl a ha)
    received := by
      rw [hrec]
      exact le_max_right ..
    levelLe := hi.levelLe
    early := fun _ => hrec
    empty := hempty
    body := fun h => by rcases hst' with h' | h' <;> rw [h'] at h <;> cases h
    noChunk := fun h => by rcases hst' with h' | h' <;> rw [h'] at h <;> cases h }

/-! ## The end of the header section -/

/-- No `OnHeadersReceived` leaves pending bytes behind. -/
theorem onHeadersReceived_bytesLeft {cgi : Cgi} {f : Request → Call → Call}
    (hf : cgi.onHeadersReceived = some f) (h : Request) {c : Call} (h0 : c.r.bytesLeft = 0) :
    (f h c).r.bytesLeft = 0 := by
  cases cgi with
  | ssdp => cases hf
  | auth =>
    cases hf
    exact h0
  | form =>
    cases hf
    rfl
  | files => cases hf
  | upload =>
    cases hf
    unfold uploadOnHeadersReceived
    split
    · exact h0
    · dsimp only
      split <;> exact h0
    · exact h0
  | webApp => cases hf

theorem cgiHeadersReceived_bytesLeft {s : Sys} (h0 : s.c.bytesLeft = 0) :
    (cgiHeadersReceived s).c.bytesLeft = 0 := by
  unfold cgiHeadersReceived
  dsimp only
  split
  · exact h0
  · split
    · unfold Sys.invoke
      split
      · exact h0
      · split
        · exact h0
        · rename_i g hg
          obtain ⟨f, hf, rfl⟩ := Option.map_eq_some_iff.mp hg
          exact onHeadersReceived_bytesLeft hf _ h0
    · show (cgiNobody s.c.toRequest s.c.toResponse).bytesLeft = 0
      unfold cgiNobody
      split
      · exact h0
      · split
        · exact h0
        · split <;> exact h0

theorem authorize_bytesLeft (w : World) (h : Request) (r : Response) :
    (authorize w h r).bytesLeft = r.bytesLeft := by
  unfold authorize
  dsimp only
  split <;> rfl

theorem occInv_headersEnd {s : Sys} (hi : OccInv s.c) (hst : s.c.state = .headerDone) :
    OccInv (headersEnd s).c := by
  have hrec := hi.early (.inr (.inr hst))
  have hleft : (authorize s.w s.c.toRequest s.c.toResponse).bytesLeft = 0 :=
    (authorize_bytesLeft ..).trans (hi.empty hst)
  obtain ⟨st, t, heq, hframe⟩ := headersEnd_eq s
  rw [heq]
  generalize hu : Sys.mk _ _ _ = u
  have hcall : (cgiHeadersReceived u).c.bytesLeft = 0 := by
    refine cgiHeadersReceived_bytesLeft ?_
    rw [← hu]
    exact hleft
  obtain ⟨_, _, log, heq', hl⟩ := CallFrame.cgiHeadersReceived u
  rw [heq'] at hcall ⊢
  rw [← hu] at hcall ⊢
  have hst' : st = .chunkLenReceiving ∨ st = .bodyDone ∨
      (st = .bodyReceiving ∧ 0 < s.c.contentLength) := by
    rcases hframe with ⟨h, -⟩ | ⟨h, -, h'⟩ | ⟨h, -⟩
    · exact .inl h
    · exact .inr (.inr ⟨h, h'⟩)
    · exact .inr (.inl h)
  exact {
    level := hi.level
    nonneg := hi.nonneg
    atMost := hi.atMost
    content := by
      refine contentOk_append (contentOk_append hi.content fun a ha => ?_) fun a ha => ?_
      · rw [List.mem_singleton.mp ha]
        trivial
      · obtain ⟨_, _, _, rfl⟩ := hl a ha
        trivial
    received := hi.received
    levelLe := hi.levelLe
    early := fun _ => hrec
    empty := fun _ => hcall
    body := fun h => by
      have h' : st = .bodyReceiving := h
      rcases hst' with h1 | h1 | ⟨-, hpos⟩
      · rw [h1] at h'
        cases h'
      · rw [h1] at h'
        cases h'
      · refine ⟨?_, ?_⟩
        · show s.c.contentReceived < s.c.contentLength
          rw [hrec]
          exact hpos
        · show Response.bytesLeft _ ≤ _
          rw [hcall]
          decide
    noChunk := fun h => by
      have h' : st = .chunkReceiving := h
      rcases hst' with h1 | h1 | ⟨h1, -⟩ <;> rw [h1] at h' <;> cases h' }

/-! ## Content -/

/-- What a content callback takes, and the bound that a form keeps on what it collects. -/
structure ContentTaken (h : Request) (size : Int) (k : Call × Int) : Prop where
  nonneg : 0 ≤ k.2
  offered : k.2 ≤ size
  remaining : h.contentReceived + k.2 ≤ h.contentLength
  left : k.1.r.bytesLeft ≤ 224

theorem formAccept_bytesLeft {h : Request} {c : Call} {buffer : Bytes} {consumed : Int}
    (hfree : consumed ≤ (maxSendBufSize : Int) - c.r.bytesLeft - 32) :
    (formAccept h c buffer consumed).r.bytesLeft ≤ 224 := by
  have hbuf : (maxSendBufSize : Int) = 256 := rfl
  have hle : (formAccept h c buffer consumed).r.bytesLeft ≤ c.r.bytesLeft + consumed := by
    unfold formAccept
    dsimp only
    split
    · show c.r.bytesLeft + consumed - _ ≤ _
      omega
    · show c.r.bytesLeft + consumed - _ ≤ _
      omega
  omega

theorem onContentReceived_taken {cgi : Cgi} {f : Request → Call → Bytes → Int → Call × Int}
    (hf : cgi.onContentReceived = some f) {h : Request} {c : Call} (buffer : Bytes) {size : Int}
    (hsize : 0 ≤ size) (hmore : h.contentReceived < h.contentLength)
    (hleft : c.r.bytesLeft ≤ 224)
    (hauth : cgi = .auth → size ≤ h.contentLength - h.contentReceived) :
    ContentTaken h size (f h c buffer size) := by
  cases cgi with
  | ssdp => cases hf
  | auth =>
    cases hf
    have hrest := hauth rfl
    have hk : (authOnPostData c buffer size).2 = size ∧
        (authOnPostData c buffer size).1.r.bytesLeft = c.r.bytesLeft := by
      unfold authOnPostData
      dsimp only
      split
      · split
        · exact ⟨rfl, rfl⟩
        · exact ⟨rfl, rfl⟩
      · exact ⟨rfl, rfl⟩
    exact ⟨by rw [hk.1]; exact hsize, Int.le_of_eq hk.1, by rw [hk.1]; omega, by rwa [hk.2]⟩
  | form =>
    cases hf
    have hbuf : (maxSendBufSize : Int) = 256 := rfl
    unfold webOnFormReceived
    dsimp only
    split
    · split
      · exact ⟨le_refl _, hsize, by dsimp only; omega, hleft⟩
      · split
        · rename_i hpos
          refine ⟨by dsimp only; omega, by dsimp only; omega, by dsimp only; omega, ?_⟩
          exact formAccept_bytesLeft (by omega)
        · exact ⟨by dsimp only; omega, by dsimp only; omega, by dsimp only; omega, hleft⟩
    · exact ⟨by dsimp only; omega, by dsimp only; omega, by dsimp only; omega, hleft⟩
  | files => cases hf
  | upload =>
    cases hf
    show ContentTaken h size (uploadOnContentReceived h c size)
    unfold uploadOnContentReceived FileSystem.webFwrite
    dsimp only
    split
    · split
      · exact ⟨le_refl _, hsize, by dsimp only; omega, hleft⟩
      · split
        · exact ⟨by dsimp only; omega, by dsimp only; omega, by dsimp only; omega, hleft⟩
        · exact ⟨le_refl _, hsize, by dsimp only; omega, hleft⟩
    · exact ⟨le_refl _, hsize, by dsimp only; omega, hleft⟩
  | webApp => cases hf

/-- Taking content out of the buffer. -/
theorem occInv_takeContent {s : Sys} {consumed : Int} (hi : OccInv s.c)
    (hst : s.c.state = .bodyReceiving) (h0 : 0 ≤ consumed) (hle : consumed ≤ s.c.requestLength)
    (hrem : s.c.contentReceived + consumed ≤ s.c.contentLength) :
    OccInv (takeContent s consumed).c := by
  have hbody := hi.body hst
  have hshift : OccInv (({ (s.setRequest { s.c.toRequest with
      contentReceived := s.c.contentReceived + consumed }).c with
        state := .bodyDone } : RequestContext).shiftOut consumed
          (s.c.httpRequestBuffer.take consumed.toNat)) := by
    refine occInv_rx (c := { (s.setRequest { s.c.toRequest with
      contentReceived := s.c.contentReceived + consumed }).c with state := .bodyDone }) ?_
        (.shiftOut ..) ?_ ?_
    · exact {
        level := hi.level
        nonneg := hi.nonneg
        atMost := hi.atMost
        content := hi.content
        received := hrem.trans (le_max_left _ _)
        levelLe := hi.levelLe
        early := fun h => by rcases h with h | h | h <;> cases h
        empty := fun h => nomatch h
        body := fun h => nomatch h
        noChunk := fun h => nomatch h }
    · show 0 ≤ s.c.requestLength - consumed
      omega
    · show s.c.requestLength - consumed ≤ _
      have := hi.atMost
      omega
  unfold takeContent
  dsimp only
  split
  · -- the last piece: the state that follows is neither early nor another body
    unfold contentDone
    split
    · dsimp only
      split
      · exact { hshift with
          received := le_refl _
          early := fun h => by rcases h with h | h | h <;> cases h
          empty := fun h => nomatch h
          body := fun h => nomatch h
          noChunk := fun h => nomatch h }
      · exact { hshift with
          received := le_refl _
          early := fun h => by rcases h with h | h | h <;> cases h
          empty := fun h => nomatch h
          body := fun h => nomatch h
          noChunk := fun h => nomatch h }
    · exact { hshift with
        early := fun h => by rcases h with h | h | h <;> cases h
        empty := fun h => nomatch h
        body := fun h => nomatch h
        noChunk := fun h => nomatch h }
  · rename_i hmore
    have hnot : ∀ st, s.c.state = st → st = .bodyReceiving := fun st h => h.symm.trans hst
    exact { hshift with
      early := fun h => by
        rcases h with h | h | h <;> cases hnot _ h
      empty := fun h => by cases hnot _ h
      body := fun _ => ⟨by
        have : ¬ s.c.contentLength ≤ s.c.contentReceived + consumed := hmore
        show s.c.contentReceived + consumed < s.c.contentLength
        omega, hbody.2⟩
      noChunk := fun h => by cases hnot _ h }

theorem occInv_offerContent {s : Sys} (hi : OccInv s.c) (hst : s.c.state = .bodyReceiving)
    (hcond : ∀ a ∈ (offerContent s s.c.requestLength).c.log, OccupancyCond a) :
    OccInv (offerContent s s.c.requestLength).c := by
  have hbody := hi.body hst
  unfold offerContent at hcond ⊢
  rcases cgiContentReceived_cases s s.c.httpRequestBuffer s.c.requestLength with
    heq | ⟨cgi, f, hcgi, hf, heq⟩
  · rw [heq]
    dsimp only
    rw [if_pos (.inr (le_refl _))]
    exact hi
  · rw [heq] at hcond ⊢
    dsimp only at hcond ⊢
    generalize hk : f s.c.toRequest s.call s.c.httpRequestBuffer s.c.requestLength = k
      at hcond ⊢
    generalize ht : Sys.ofCall _ k.1 = t at hcond ⊢
    have hnote : Act.content s.c.toRequest s.c.toResponse s.c.requestLength s.c.requestLength k.2
        ∈ t.c.log := by
      rw [← ht]
      exact List.mem_append_right _ (List.mem_singleton_self _)
    have hauth : cgi = .auth → s.c.requestLength ≤ s.c.contentLength - s.c.contentReceived := by
      intro hc
      subst hc
      have hone : OccupancyCond (.content s.c.toRequest s.c.toResponse s.c.requestLength
          s.c.requestLength k.2) := by
        refine hcond _ ?_
        split
        · exact hnote
        · rw [takeContent_log]
          exact List.mem_append_left _ hnote
      exact hone hcgi
    have htaken := onContentReceived_taken (c := s.call) hf s.c.httpRequestBuffer hi.nonneg
      hbody.1 hbody.2 hauth
    rw [hk] at htaken
    have hit : OccInv t.c := by
      rw [← ht]
      exact {
        level := hi.level
        nonneg := hi.nonneg
        atMost := hi.atMost
        content := by
          refine contentOk_append (contentOk_append hi.content fun a ha => ?_) fun a ha => ?_
          · rw [List.mem_singleton.mp ha]
            trivial
          · rw [List.mem_singleton.mp ha]
            exact ⟨rfl, htaken.nonneg, htaken.offered,
              htaken.remaining.trans (le_max_left _ _)⟩
        received := hi.received
        levelLe := hi.levelLe
        early := hi.early
        empty := fun h => by rw [show s.c.state = .headerDone from h] at hst; cases hst
        body := fun _ => ⟨hbody.1, htaken.left⟩
        noChunk := hi.noChunk }
    have htreq : t.c.toRequest = s.c.toRequest ∧ t.c.requestLength = s.c.requestLength := by
      rw [← ht]
      exact ⟨rfl, rfl⟩
    split
    · exact hit
    · refine occInv_takeContent hit ?_ htaken.nonneg ?_ ?_
      · rw [htreq.1]
        exact hst
      · rw [htreq.2]
        exact htaken.offered
      · rw [htreq.1]
        exact htaken.remaining

/-! ## The rest -/

/-- An action of the response keeps the invariant. -/
theorem occInv_response {s s' : Sys} (hi : OccInv s.c) (hst : s.c.state.responding)
    (hf : RespFrame s s') : OccInv s'.c := by
  obtain ⟨_, st, _, _, _, _, _, _, _, rfl, hst', hl⟩ := hf
  have hlate := hst' hst
  have hnot : ∀ u : HttpState, st = u → u.responding := fun u h => h ▸ hlate
  exact {
    level := hi.level
    nonneg := hi.nonneg
    atMost := hi.atMost
    content := contentOk_append hi.content fun a ha => contentOk_of_response (hl a ha)
    received := hi.received
    levelLe := hi.levelLe
    early := fun h => by rcases h with h | h | h <;> cases hnot _ h
    empty := fun h => by cases hnot _ h
    body := fun h => by cases hnot _ h
    noChunk := fun h => by cases hnot _ h }

theorem occInv_freed {s s' : Sys} (hi : OccInv s.c) (hf : FreedFrame s s') : OccInv s'.c := by
  obtain ⟨_, _, _, _, _, _, rfl, hl⟩ := hf
  exact {
    level := fun h => nomatch h
    nonneg := le_refl _
    atMost := by show (0 : Int) ≤ _; decide
    content := by
      refine contentOk_append (contentOk_append hi.content fun a ha =>
        contentOk_of_response (isResponse_of_isCallback (hl a ha))) fun a ha => ?_
      rw [List.mem_singleton.mp ha]
      trivial
    received := le_max_right _ _
    levelLe := le_refl _
    early := fun _ => rfl
    empty := fun h => nomatch h
    body := fun h => nomatch h
    noChunk := fun h => nomatch h }

theorem occInv_reset {s : Sys} (hi : OccInv s.c) : OccInv (resetHttpContext s).c := by
  obtain ⟨_, _, heq, -⟩ := resetHttpContext_spec s
  rw [heq]
  exact {
    level := fun _ => rfl
    nonneg := hi.nonneg
    atMost := hi.atMost
    content := hi.content
    received := le_max_right _ _
    levelLe := le_refl _
    early := fun _ => rfl
    empty := fun h => nomatch h
    body := fun h => nomatch h
    noChunk := fun h => nomatch h }

theorem occInv_note {s : Sys} {a : Act} (hi : OccInv s.c) (ha : ContentOk a) :
    OccInv (s.note a).c :=
  { hi with
    content := contentOk_append hi.content fun b hb => by rwa [List.mem_singleton.mp hb]
    early := hi.early
    empty := hi.empty
    body := hi.body
    noChunk := hi.noChunk }

theorem occInv_requestEnd {s : Sys} (hi : OccInv s.c) : OccInv (requestEnd s).c := by
  unfold requestEnd
  split
  · exact occInv_freed hi (closeHttpContext_frame s)
  · split
    · exact occInv_reset (occInv_note hi trivial)
    · exact occInv_freed hi (closeHttpContext_frame s)

theorem occInv_accept {s : Sys} (pcb ipRemote : Nat) (hfree : FreeCtx s.c) :
    OccInv (acceptContext s pcb ipRemote).c := by
  obtain ⟨_, _, _, heq⟩ := acceptContext_spec s pcb ipRemote
  rw [heq]
  exact {
    level := fun _ => rfl
    nonneg := Int.le_of_eq hfree.length.symm
    atMost := by
      show s.c.requestLength ≤ _
      rw [hfree.length]
      decide
    content := fun a ha => nomatch ha
    received := le_max_right _ _
    levelLe := le_refl _
    early := fun _ => rfl
    empty := fun h => nomatch h
    body := fun h => nomatch h
    noChunk := fun h => nomatch h }

/-- Without a chunk-size line in the log, none was decoded. -/
theorem chunkLength_quiet {s : Sys} {size : Int}
    (hcond : ∀ a ∈ (chunkLength s size).c.log, OccupancyCond a) : chunkLength s size = s := by
  unfold chunkLength at hcond ⊢
  split
  · rfl
  · rename_i c hc
    rw [hc] at hcond
    exact (hcond (.chunkLine s.c.toRequest) (by
      refine List.mem_append_left _ ?_
      exact List.mem_append_right _ (List.mem_singleton_self _))).elim

/-- One action keeps the invariant. -/
theorem occInv_step {s s' : Sys} (hi : OccInv s.c) (hstep : Micro s s')
    (hcond : ∀ a ∈ s'.c.log, OccupancyCond a) : OccInv s'.c := by
  cases hstep with
  | environment w net hpcbs => exact hi
  | receive p hlive hfit => exact occInv_receivePbuf p.chain hi
  | peerClosed => exact { hi with }
  | touch t => exact { hi with }
  | acknowledged len => exact { hi with }
  | dequeue hst => exact occInv_dequeue hi
  | startRequest hst hlen =>
    have hrec := hi.early (.inl hst)
    exact { hi with
      early := fun _ => hrec
      empty := fun h => nomatch h
      body := fun h => nomatch h
      noChunk := fun h => nomatch h }
  | parseHeader hst hlen => exact occInv_parseHeader hi hst hlen
  | tooLarge hst => exact { hi with }
  | headersEnd hst hok => exact occInv_headersEnd hi hst
  | refuse hst hbad hsending =>
    exact { hi with
      early := fun h => by rcases h with h | h | h <;> cases h
      empty := fun h => nomatch h
      body := fun h => nomatch h
      noChunk := fun h => nomatch h }
  | chunkLength hst hok =>
    rw [chunkLength_quiet hcond]
    exact hi
  | content size hst hok =>
    rcases hst with h | ⟨h, rfl⟩
    · exact absurd h hi.noChunk
    · exact occInv_offerContent hi h hcond
  | complete hst hok =>
    exact occInv_response hi (by rw [hst]; rfl) (.callFrame (.completeRequest s))
  | sendRemaining hst hres hleft =>
    exact occInv_response hi (by rw [HttpState.responding, hst]; rfl) (.sendRemaining s)
  | startResponse hst hres hfirst =>
    exact occInv_response hi (by rw [HttpState.responding, hst]; rfl) (.startResponse s)
  | headerAcked hst hres hsent =>
    exact occInv_response hi (by rw [hst]; rfl) (.headerAcked s)
  | sendBody caller hst hres hsent hstage =>
    exact occInv_response hi (by rw [hst]; rfl) (.sendBody s caller)
  | requestEnd hst => exact occInv_requestEnd hi
  | peerGone hst hpeer => exact { hi with }
  | close => exact occInv_freed hi (closeHttpContext_frame s)
  | free hgone => exact occInv_freed hi (freeHttpContext_frame s)
  | outOfFuel => exact { hi with }

/-- **Occupancy.** In every reachable state of a connection that has decoded no chunk-size
line and has not offered the login handler more than the rest of its content, and as long
as nothing was written outside its object, the receive buffer is in bounds, content
callbacks are offered the bytes present and take some of them, and no more content is
received than announced. -/
theorem request_buffer_occupancy {sv : Server} (h : sv.Reachable) {c : RequestContext}
    (hc : c ∈ sv.slots) (hok : c.fault = false) (hcond : ∀ a ∈ c.log, OccupancyCond a) :
    Occupancy c :=
  (h.induct occInv_setup (fun _ pcb ipRemote _ hfree => occInv_accept pcb ipRemote hfree)
    (fun _ _ _ hi hstep _ hcond => occInv_step hi hstep hcond) hc hok hcond).toOccupancy

/-- A login with its body in the segment behind the headers. -/
def plainLogin : List (Answers × Event) :=
  [(openNet, .accept 0x0A000001),
   (openNet, receiveText 0 "POST /auth/login.html HTTP/1.1\r\nContent-Length: 10\r\n\r\nuser"),
   (openNet, receiveText 0 "name=")]

theorem request_buffer_occupancy_plainLogin :
    Occupancy (((Server.boot plainWorld).run plainLogin).slot 0) := by
  have hlegal : (Server.boot plainWorld).RunLegal plainLogin := by decide +kernel
  exact request_buffer_occupancy ((Server.Reachable.boot plainWorld).run hlegal)
    (Server.slot_mem (by decide +kernel)) (by decide +kernel) (by decide +kernel)

/-- A login form that announces chunks. -/
def chunkedLogin : List (Answers × Event) :=
  [(openNet, .accept 0x0A000001),
   (openNet, receiveText 0
     "POST /auth/login.html HTTP/1.1\r\nTransfer-Encoding: chunked\r\n\r\n5\r\nhello")]

/-- The chunk-size line is removed, its three bytes are offered as content all the same,
and `request_length` ends at -3. -/
theorem request_buffer_occupancy_chunkedLogin :
    ¬ ∀ sv : Server, sv.Reachable → ∀ c ∈ sv.slots, c.fault = false → Occupancy c := by
  intro h
  have hlegal : (Server.boot plainWorld).RunLegal chunkedLogin := by decide +kernel
  have hstate : ((Server.boot plainWorld).run chunkedLogin).slots.length = 4 ∧
      (((Server.boot plainWorld).run chunkedLogin).slot 0).fault = false ∧
      (((Server.boot plainWorld).run chunkedLogin).slot 0).requestLength = -3 := by
    decide +kernel
  have hnonneg := (h _ ((Server.Reachable.boot plainWorld).run hlegal) _
    (Server.slot_mem (by rw [hstate.1]; decide)) hstate.2.1).nonneg
  rw [hstate.2.2] at hnonneg
  exact absurd hnonneg (by decide)

end Httpd
