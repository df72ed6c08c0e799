import LambdaIOT.Properties.Authorization
import LambdaIOT.Properties.Stream

/-!
# The content of a request

A header section announces a length, and the handler takes that many bytes from the stream
behind it, in any number of pieces. `BodyInv` counts what was taken for the request under way
and compares it with `_contentReceived`. With the received stream this says which bytes the
handler was given: the first ones behind the header section, all of them when
`OnRequestReceived` is called, and none of the request that follows.
-/

namespace Httpd

open CMem Lwip

/-! ## Requests in the log -/

/-- `m` is what the log says behind the header section `h`, and the request is not over. -/
def Underway (log : List Act) (h : Request) (m : List Act) : Prop :=
  ∃ l r found, log = l ++ .headersEnd h r found :: m ∧ ∀ a ∈ m, a.endsRequest = false

/-- The handler was told that the request is complete. -/
def Completed (m : List Act) : Prop := ∃ cgi, .callback cgi .onRequestReceived ∈ m

/-- What was taken for the request `h` while the log said `m`. -/
structure WithinContent (h : Request) (m : List Act) : Prop where
  atMost : ((consumedBytes m).length : Int) ≤ max h.contentLength 0
  complete : Completed m → max h.contentLength 0 ≤ (consumedBytes m).length

/-- At any time no request had taken more than its content, and a complete one had all. -/
def WithinContents (log : List Act) : Prop :=
  ∀ p rest h m, log = p ++ rest → Underway p h m → h.chunked = false → WithinContent h m

theorem not_underway_nil (h : Request) (m : List Act) : ¬Underway [] h m := by
  rintro ⟨l, r, found, heq, -⟩
  have hlen := congrArg List.length heq
  simp at hlen

/-- A request under way began with the last entry, or it was under way before. -/
theorem Underway.last {log : List Act} {a : Act} {h : Request} {m : List Act}
    (hu : Underway (log ++ [a]) h m) :
    (m = [] ∧ ∃ r found, a = .headersEnd h r found) ∨
      ∃ m', m = m' ++ [a] ∧ a.endsRequest = false ∧ Underway log h m' := by
  obtain ⟨l, r, found, heq, hm⟩ := hu
  rcases List.eq_nil_or_concat m with rfl | ⟨m', b, rfl⟩
  · obtain ⟨-, hlast⟩ := List.append_inj' heq rfl
    exact .inl ⟨rfl, r, found, (List.cons.inj hlast).1⟩
  · rw [List.concat_eq_append] at heq hm ⊢
    rw [← List.cons_append, ← List.append_assoc] at heq
    obtain ⟨rfl, hlast⟩ := List.append_inj' heq rfl
    obtain ⟨rfl, -⟩ := List.cons.inj hlast
    exact .inr ⟨m', rfl, hm a (List.mem_append_right _ (List.mem_singleton_self a)), l, r, found, rfl,
      fun c hc => hm c (List.mem_append_left _ hc)⟩

theorem withinContents_nil : WithinContents [] := by
  intro p rest h m heq hu
  have hp : p = [] := (List.append_eq_nil_iff.mp heq.symm).1
  rw [hp] at hu
  exact absurd hu (not_underway_nil h m)

theorem withinContents_append_one {log : List Act} {a : Act} (hw : WithinContents log)
    (hlast : ∀ h m, Underway (log ++ [a]) h m → h.chunked = false → WithinContent h m) :
    WithinContents (log ++ [a]) := by
  intro p rest h m heq hu hplain
  rcases List.eq_nil_or_concat rest with rfl | ⟨rest', b, rfl⟩
  · rw [List.append_nil] at heq
    rw [← heq] at hu
    exact hlast h m hu hplain
  · rw [List.concat_eq_append, ← List.append_assoc] at heq
    exact hw p rest' h m (List.append_inj' heq rfl).1 hu hplain

/-! ## Entries -/

/-- An entry that neither takes bytes nor says that the request begins, is complete or ends. -/
def Act.passes : Act → Bool
  | .consumed _ => false
  | .headersEnd .. => false
  | .callback _ .onRequestReceived => false
  | a => !a.endsRequest

def Act.isHeadersEnd : Act → Bool
  | .headersEnd .. => true
  | _ => false

theorem consumedBytes_one {a : Act} (ha : a.passes = true) : consumedBytes [a] = [] := by
  cases a <;> first | rfl | cases ha

theorem consumedBytes_passes {l : List Act} (hl : ∀ a ∈ l, a.passes = true) :
    consumedBytes l = [] := by
  refine List.flatMap_eq_nil_iff.mpr fun a ha => ?_
  have hpass := hl a ha
  cases a <;> first | rfl | cases hpass

theorem completed_append {m : List Act} {a : Act} (h : Completed (m ++ [a]))
    (ha : ∀ cgi, a ≠ .callback cgi .onRequestReceived) : Completed m := by
  obtain ⟨cgi, hmem⟩ := h
  rcases List.mem_append.mp hmem with hin | hin
  · exact ⟨cgi, hin⟩
  · exact absurd (List.mem_singleton.mp hin).symm (ha cgi)

theorem not_complete_of_passes {a : Act} (ha : a.passes = true) (cgi : Cgi) :
    a ≠ .callback cgi .onRequestReceived := by
  rintro rfl
  cases ha

/-- Such an entry changes nothing of what was taken. -/
theorem WithinContent.pass {h : Request} {m : List Act} (hw : WithinContent h m) {a : Act}
    (ha : a.passes = true) : WithinContent h (m ++ [a]) := by
  have hsame : consumedBytes (m ++ [a]) = consumedBytes m := by
    rw [consumedBytes_append, consumedBytes_one ha, List.append_nil]
  refine ⟨?_, fun hc => ?_⟩
  · rw [hsame]
    exact hw.atMost
  · rw [hsame]
    exact hw.complete (completed_append hc (not_complete_of_passes ha))

/-- What an action of the response logs passes, if it is harmless. -/
theorem passes_of_response {a : Act} (hresp : a.isResponse = true) (hharm : a.harmless = true) :
    a.passes = true := by
  cases a with
  | callback cgi cb => cases cb <;> first | rfl | cases hharm
  | _ => first | rfl | cases hresp

/-! ## The invariant -/

/-- A request that is past its header section takes content or is answered. -/
def Past (c : RequestContext) : Prop := c.state = .bodyReceiving ∨ c.state.responding

/-- The context of the request under way: what it has taken is what it counts. -/
structure BodyNow (c : RequestContext) (h : Request) (m : List Act) : Prop where
  length : c.contentLength = h.contentLength
  plain : c.chunked = false
  taken : ((consumedBytes m).length : Int) = c.contentReceived
  past : Past c
  done : c.state = .bodyDone ∨ Completed m → c.contentLength ≤ c.contentReceived

structure BodyInv (c : RequestContext) : Prop where
  within : WithinContents c.log
  now : ∀ h m, Underway c.log h m → h.chunked = false → BodyNow c h m

theorem bodyInv_nil {c : RequestContext} (h : c.log = []) : BodyInv c where
  within := by
    rw [h]
    exact withinContents_nil
  now := by
    intro h' m hu
    rw [h] at hu
    exact absurd hu (not_underway_nil h' m)

/-- Entries that pass, behind a context that counts as before. -/
theorem BodyInv.pass {c c' : RequestContext} {l : List Act} (hi : BodyInv c)
    (hlog : c'.log = c.log ++ l) (hl : ∀ a ∈ l, a.passes = true)
    (hlength : c'.contentLength = c.contentLength) (hchunked : c'.chunked = c.chunked)
    (hreceived : c'.contentReceived = c.contentReceived) (hpast : Past c → Past c')
    (hdone : c'.state = .bodyDone → c.state = .bodyDone) : BodyInv c' := by
  have hall : WithinContents (c.log ++ l) ∧ ∀ h m, Underway (c.log ++ l) h m →
      ∃ m', m = m' ++ l ∧ Underway c.log h m' := by
    clear hlog
    induction l using List.reverseRecOn with
    | nil =>
      rw [List.append_nil]
      exact ⟨hi.within, fun h m hu => ⟨m, (List.append_nil m).symm, hu⟩⟩
    | append_singleton l a ih =>
      obtain ⟨hw, hold⟩ := ih fun b hb => hl b (List.mem_append_left _ hb)
      have ha := hl a (List.mem_append_right _ (List.mem_singleton_self a))
      have hback : ∀ h m, Underway (c.log ++ l ++ [a]) h m →
          ∃ m', m = m' ++ [a] ∧ Underway (c.log ++ l) h m' := by
        intro h m hu
        rcases hu.last with ⟨-, r, found, rfl⟩ | ⟨m', rfl, -, hu'⟩
        · cases ha
        · exact ⟨m', rfl, hu'⟩
      rw [← List.append_assoc]
      refine ⟨withinContents_append_one hw fun h m hu hplain => ?_, fun h m hu => ?_⟩
      · obtain ⟨m', rfl, hu'⟩ := hback h m hu
        exact (hw _ [] h m' (List.append_nil _).symm hu' hplain).pass ha
      · obtain ⟨m', rfl, hu'⟩ := hback h m hu
        obtain ⟨m'', rfl, hu''⟩ := hold h m' hu'
        exact ⟨m'', List.append_assoc _ _ _, hu''⟩
  refine ⟨by rw [hlog]; exact hall.1, fun h m hu hplain => ?_⟩
  rw [hlog] at hu
  obtain ⟨m', rfl, hu'⟩ := hall.2 h m hu
  have hnow := hi.now h m' hu' hplain
  refine ⟨hlength.trans hnow.length, hchunked.trans hnow.plain, ?_, hpast hnow.past, ?_⟩
  · rw [hreceived, consumedBytes_append, consumedBytes_passes hl, List.append_nil]
    exact hnow.taken
  · intro hc
    rw [hlength, hreceived]
    refine hnow.done (hc.imp hdone ?_)
    rintro ⟨cgi, hmem⟩
    rcases List.mem_append.mp hmem with hin | hin
    · exact ⟨cgi, hin⟩
    · exact absurd rfl (not_complete_of_passes (hl _ hin) cgi)

/-- While no request is past its header section, entries that do not begin one are free. -/
theorem BodyInv.outside {c c' : RequestContext} {l : List Act} (hi : BodyInv c)
    (hlog : c'.log = c.log ++ l) (hl : ∀ a ∈ l, a.isHeadersEnd = false) (hnot : ¬Past c) :
    BodyInv c' := by
  have hnone : ∀ h m, Underway c.log h m → h.chunked = true := by
    intro h m hu
    by_contra hplain
    exact hnot (hi.now h m hu (by simpa using hplain)).past
  have hall : WithinContents (c.log ++ l) ∧ ∀ h m, Underway (c.log ++ l) h m → h.chunked = true := by
    clear hlog
    induction l using List.reverseRecOn with
    | nil =>
      rw [List.append_nil]
      exact ⟨hi.within, hnone⟩
    | append_singleton l a ih =>
      obtain ⟨hw, hold⟩ := ih fun b hb => hl b (List.mem_append_left _ hb)
      have hstill : ∀ h m, Underway (c.log ++ l ++ [a]) h m → h.chunked = true := by
        intro h m hu
        rcases hu.last with ⟨-, r, found, rfl⟩ | ⟨m', -, -, hu'⟩
        · have hbegin := hl _ (List.mem_append_right _ (List.mem_singleton_self _))
          cases hbegin
        · exact hold h m' hu'
      rw [← List.append_assoc]
      refine ⟨withinContents_append_one hw fun h m hu hplain => ?_, hstill⟩
      rw [hstill h m hu] at hplain
      cases hplain
  refine ⟨by rw [hlog]; exact hall.1, fun h m hu hplain => ?_⟩
  rw [hlog] at hu
  rw [hall.2 h m hu] at hplain
  cases hplain

/-- The end of a request. -/
theorem BodyInv.over {c c' : RequestContext} {a : Act} (hi : BodyInv c)
    (hlog : c'.log = c.log ++ [a]) (ha : a.endsRequest = true) : BodyInv c' := by
  have hnone : ∀ h m, ¬Underway (c.log ++ [a]) h m := by
    intro h m hu
    rcases hu.last with ⟨-, r, found, rfl⟩ | ⟨m', -, hnot, -⟩
    · cases ha
    · rw [ha] at hnot
      cases hnot
  refine ⟨?_, fun h m hu => ?_⟩
  · rw [hlog]
    exact withinContents_append_one hi.within fun h m hu => absurd hu (hnone h m)
  · rw [hlog] at hu
    exact absurd hu (hnone h m)

/-! ## The receive path -/

theorem receivePbuf_passes (c : RequestContext) (p : List Pbuf) :
    ∃ l, (c.receivePbuf p).log = c.log ++ l ∧ ∀ a ∈ l, a.passes = true := by
  unfold RequestContext.receivePbuf
  dsimp only
  have hone : ∀ a ∈ [Act.delivered (Pbuf.data p)], a.passes = true := by
    intro a ha
    rw [List.mem_singleton.mp ha]
    rfl
  split
  · exact ⟨[.delivered _], rfl, hone⟩
  · split
    · exact ⟨[.delivered _], rfl, hone⟩
    · refine ⟨[.delivered _, .recved _], (List.append_assoc c.log [_] [_]), ?_⟩
      intro a ha
      rcases List.mem_cons.mp ha with rfl | ha
      · rfl
      · rw [List.mem_singleton.mp ha]
        rfl

theorem bodyInv_rx {c c' : RequestContext} {l : List Act} (hi : BodyInv c) (hf : RxFrame c c')
    (hlog : c'.log = c.log ++ l) (hl : ∀ a ∈ l, a.passes = true) : BodyInv c' := by
  have hreq := hf.request
  refine hi.pass hlog hl ?_ ?_ ?_ ?_ ?_
  · exact congrArg Request.contentLength hreq
  · exact congrArg Request.chunked hreq
  · exact congrArg Request.contentReceived hreq
  · intro hpast
    rw [Past, show c'.state = c.state from congrArg Request.state hreq]
    exact hpast
  · intro hst
    rw [← hst]
    exact (congrArg Request.state hreq).symm

/-- An action that logs nothing and leaves the count and the state alone. -/
theorem BodyInv.same {c c' : RequestContext} (hi : BodyInv c) (hlog : c'.log = c.log)
    (hlength : c'.contentLength = c.contentLength) (hchunked : c'.chunked = c.chunked)
    (hreceived : c'.contentReceived = c.contentReceived) (hpast : Past c → Past c')
    (hdone : c'.state = .bodyDone → c.state = .bodyDone) : BodyInv c' :=
  hi.pass (l := []) (by rw [hlog, List.append_nil]) (fun _ ha => nomatch ha) hlength hchunked
    hreceived hpast hdone

/-! ## The header section -/

theorem invoke_log (s : Sys) (cb : Callback) (f : Cgi → Option (Call → Call)) :
    ∃ l, (s.invoke cb f).c.log = s.c.log ++ l ∧ ∀ a ∈ l, ∃ cgi, a = .callback cgi cb := by
  unfold Sys.invoke
  split
  · exact ⟨[], (List.append_nil _).symm, fun _ ha => nomatch ha⟩
  · rename_i cgi hcgi
    split
    · exact ⟨[], (List.append_nil _).symm, fun _ ha => nomatch ha⟩
    · exact ⟨[.callback cgi cb], rfl, fun a ha => ⟨cgi, List.mem_singleton.mp ha⟩⟩

theorem cgiHeadersReceived_passes (s : Sys) :
    ∃ l, (cgiHeadersReceived s).c.log = s.c.log ++ l ∧ ∀ a ∈ l, a.passes = true := by
  unfold cgiHeadersReceived
  dsimp only
  split
  · exact ⟨[], (List.append_nil _).symm, fun _ ha => nomatch ha⟩
  · split
    · obtain ⟨l, hlog, hl⟩ := invoke_log s .onHeadersReceived
        fun cgi => cgi.onHeadersReceived.map fun f c => f s.c.toRequest c
      refine ⟨l, hlog, fun a ha => ?_⟩
      obtain ⟨cgi, rfl⟩ := hl a ha
      rfl
    · exact ⟨[], (List.append_nil _).symm, fun _ ha => nomatch ha⟩

/-- The request begins, with nothing taken. -/
theorem bodyInv_headersEnd {s : Sys} (hi : BodyInv s.c) (hocc : OccInv s.c)
    (hst : s.c.state = .headerDone) : BodyInv (headersEnd s).c := by
  have hzero := hocc.early (.inr (.inr hst))
  have hnot : ¬Past s.c := by
    unfold Past
    rw [hst]
    decide
  obtain ⟨st, t, heq, hframe⟩ := headersEnd_eq s
  rw [heq]
  generalize authorize s.w s.c.toRequest s.c.toResponse = r
  generalize loggedIn s.w r.session s.c.ipRemote = found
  generalize hu : (⟨s.w, { s.c with
    toRequest := { s.c.toRequest with state := st, tLastSent := t }
    toResponse := r
    log := s.c.log ++ [.headersEnd { s.c.toRequest with state := st, tLastSent := t } r found] },
    s.net⟩ : Sys) = u
  have hbegun : BodyInv u.c := by
    have hlast : ∀ h m, Underway u.c.log h m → h.chunked = false →
        m = [] ∧ h = { s.c.toRequest with state := st, tLastSent := t } := by
      intro h m hunder hplain
      rw [← hu] at hunder
      rcases hunder.last with ⟨hm, _, _, hact⟩ | ⟨m', -, -, hbefore⟩
      · exact ⟨hm, ((Act.headersEnd.inj hact).1).symm⟩
      · exact absurd (hi.now h m' hbefore hplain).past hnot
    refine ⟨?_, fun h m hunder hplain => ?_⟩
    · rw [← hu] at hlast ⊢
      refine withinContents_append_one hi.within fun h m hunder hplain => ?_
      obtain ⟨rfl, rfl⟩ := hlast h m hunder hplain
      refine ⟨le_max_right _ _, ?_⟩
      rintro ⟨cgi, hmem⟩
      cases hmem
    · obtain ⟨rfl, rfl⟩ := hlast h m hunder hplain
      have hplain' : s.c.chunked = false := hplain
      rw [← hu]
      refine ⟨rfl, hplain, hzero.symm, ?_, ?_⟩
      · rcases hframe with ⟨-, hchunked⟩ | ⟨h, -⟩ | ⟨h, -⟩
        · rw [hplain'] at hchunked
          cases hchunked
        · exact .inl h
        · refine .inr ?_
          show HttpState.responding st = true
          rw [h]
          rfl
      · rintro (hdone | ⟨cgi, hmem⟩)
        · show s.c.contentLength ≤ s.c.contentReceived
          rw [hzero]
          have hst' : st = .bodyDone := hdone
          rcases hframe with ⟨h, -⟩ | ⟨h, -⟩ | ⟨-, -, h⟩
          · rw [h] at hst'
            cases hst'
          · rw [h] at hst'
            cases hst'
          · exact h
        · cases hmem
  obtain ⟨l, hlog, hl⟩ := cgiHeadersReceived_passes u
  have hreq := (CallFrame.cgiHeadersReceived u).request
  refine hbegun.pass hlog hl ?_ ?_ ?_ ?_ ?_
  · exact congrArg Request.contentLength hreq
  · exact congrArg Request.chunked hreq
  · exact congrArg Request.contentReceived hreq
  · intro hpast
    rw [Past, show (cgiHeadersReceived u).c.state = u.c.state from congrArg Request.state hreq]
    exact hpast
  · intro hdone
    rw [← hdone]
    exact (congrArg Request.state hreq).symm

/-! ## Content -/

/-- What leaves the buffer is counted, and the content ends with its last byte. -/
theorem bodyInv_takeContent {s : Sys} {n : Int} (hi : BodyInv s.c)
    (hst : s.c.state = .bodyReceiving) (hmore : s.c.contentReceived < s.c.contentLength)
    (h0 : 0 ≤ n) (hroom : n ≤ s.c.httpRequestBuffer.length)
    (hrem : s.c.contentReceived + n ≤ max s.c.contentLength 0) : BodyInv (takeContent s n).c := by
  have hlen : (consumedBytes [.consumed (s.c.httpRequestBuffer.take n.toNat)]).length = n.toNat := by
    show (s.c.httpRequestBuffer.take n.toNat ++ []).length = n.toNat
    rw [List.append_nil, List.length_take]
    omega
  -- the request under way takes the bytes
  have hunder : ∀ h m, Underway (takeContent s n).c.log h m → h.chunked = false →
      ∃ m', m = m' ++ [.consumed (s.c.httpRequestBuffer.take n.toNat)] ∧ BodyNow s.c h m' := by
    intro h m hu hplain
    rw [takeContent_log] at hu
    rcases hu.last with ⟨-, _, _, hact⟩ | ⟨m', hm, -, hbefore⟩
    · cases hact
    · exact ⟨m', hm, hi.now h m' hbefore hplain⟩
  have hcount : ∀ h m, BodyNow s.c h m → ((consumedBytes
      (m ++ [.consumed (s.c.httpRequestBuffer.take n.toNat)])).length : Int) =
        s.c.contentReceived + n := by
    intro h m hnow
    have htaken := hnow.taken
    rw [consumedBytes_append, List.length_append, hlen]
    omega
  have hopen : ∀ h m, BodyNow s.c h m →
      ¬Completed (m ++ [.consumed (s.c.httpRequestBuffer.take n.toNat)]) := by
    intro h m hnow hc
    have hdone := hnow.done (.inr (completed_append hc fun cgi heq => nomatch heq))
    omega
  refine ⟨?_, fun h m hu hplain => ?_⟩
  · rw [takeContent_log] at hunder ⊢
    refine withinContents_append_one hi.within fun h m hu hplain => ?_
    obtain ⟨m', rfl, hnow⟩ := hunder h m hu hplain
    refine ⟨?_, fun hc => absurd hc (hopen h m' hnow)⟩
    rw [hcount h m' hnow, ← hnow.length]
    exact hrem
  · obtain ⟨m', rfl, hnow⟩ := hunder h m hu hplain
    have htaken := hcount h m' hnow
    have hplainc : s.c.chunked = false := hnow.plain
    have hnone := hopen h m' hnow
    generalize m' ++ [Act.consumed (s.c.httpRequestBuffer.take n.toNat)] = m at htaken hnone ⊢
    unfold takeContent
    dsimp only
    split
    · rename_i hall
      unfold contentDone
      rw [if_neg (by
        show ¬s.c.chunked = true
        rw [hplainc]
        decide)]
      exact ⟨hnow.length, hplainc, htaken, .inr rfl, fun _ => hall⟩
    · rename_i hpart
      refine ⟨hnow.length, hplainc, htaken, .inl hst, ?_⟩
      rintro (hdone | hc)
      · have hdone' : s.c.state = .bodyDone := hdone
        rw [hst] at hdone'
        cases hdone'
      · exact absurd hc hnone

theorem bodyInv_offerContent {s : Sys} (hi : BodyInv s.c) (hocc : OccInv s.c) (hshape : Shape s.c)
    (hst : s.c.state = .bodyReceiving)
    (hcond : ∀ a ∈ (offerContent s s.c.requestLength).c.log, OccupancyCond a) :
    BodyInv (offerContent s s.c.requestLength).c := by
  have hafter := occInv_offerContent hocc hst hcond
  unfold offerContent at hafter ⊢
  dsimp only at hafter ⊢
  rcases cgiContentReceived_cases s s.c.httpRequestBuffer s.c.requestLength with
    heq | ⟨cgi, f, -, -, heq⟩
  · rw [heq]
    rw [if_pos (.inr (le_refl _))]
    exact hi
  · rw [heq] at hafter ⊢
    generalize f s.c.toRequest s.call s.c.httpRequestBuffer s.c.requestLength = k at hafter ⊢
    generalize ht : Sys.ofCall _ k.1 = t at hafter ⊢
    have hlog : t.c.log = s.c.log ++ [.callback cgi .onContentReceived,
        .content s.c.toRequest s.c.toResponse s.c.requestLength s.c.requestLength k.2] := by
      rw [← ht]
      exact List.append_assoc s.c.log [_] [_]
    have hreq : t.c.toRequest = s.c.toRequest ∧ t.c.httpRequestBuffer = s.c.httpRequestBuffer := by
      rw [← ht]
      exact ⟨rfl, rfl⟩
    have hstate : t.c.state = s.c.state := congrArg Request.state hreq.1
    have hlength : t.c.contentLength = s.c.contentLength := congrArg Request.contentLength hreq.1
    have hreceived : t.c.contentReceived = s.c.contentReceived :=
      congrArg Request.contentReceived hreq.1
    have htold : BodyInv t.c := by
      refine hi.pass hlog ?_ hlength (congrArg Request.chunked hreq.1) hreceived ?_ ?_
      · intro a ha
        rcases List.mem_cons.mp ha with rfl | ha
        · rfl
        · rw [List.mem_singleton.mp ha]
          rfl
      · intro hpast
        rw [Past, hstate]
        exact hpast
      · intro hdone
        rw [← hstate]
        exact hdone
    split
    · exact htold
    · rename_i htake
      rw [if_neg htake] at hafter
      have hok := hafter.content (.content s.c.toRequest s.c.toResponse s.c.requestLength
        s.c.requestLength k.2) (by
          rw [takeContent_log]
          refine List.mem_append_left _ ?_
          rw [show (t, k.2).1.c.log = _ from hlog]
          exact List.mem_append_right _ (List.mem_cons_of_mem _ (List.mem_singleton_self _)))
      obtain ⟨-, h0, hn, hrem⟩ := hok
      have hbuf := hshape.buffer
      have hle := hocc.atMost
      have hmax : maxReqBufSize = 128 := rfl
      refine bodyInv_takeContent htold (hstate.trans hst) ?_ h0 ?_ ?_
      · rw [hreceived, hlength]
        exact (hocc.body hst).1
      · rw [hreq.2]
        omega
      · rw [hreceived, hlength]
        exact hrem

/-! ## The response -/

/-- An action of the response. -/
theorem bodyInv_response {s s' : Sys} (hi : BodyInv s.c) (hf : RespFrame s s') (hh : Harmless s s')
    (hresp : s.c.state.responding) (hdone : s'.c.state = .bodyDone → s.c.state = .bodyDone) :
    BodyInv s'.c := by
  obtain ⟨_, st, _, _, _, _, _, l, _, rfl, hst, hl⟩ := hf
  obtain ⟨l', hlog, hl'⟩ := hh
  have hsame : l = l' := List.append_cancel_left hlog
  subst hsame
  refine hi.pass rfl (fun a ha => passes_of_response (hl a ha) (hl' a ha)) rfl rfl rfl ?_ hdone
  exact fun _ => .inr (hst hresp)

/-- The handler is told that the request is complete, and the content was. -/
theorem bodyInv_completeRequest {s : Sys} (hi : BodyInv s.c) (hst : s.c.state = .bodyDone) :
    BodyInv (completeRequest s).c := by
  have hcall : BodyInv (cgiRequestReceived s).c := by
    have hreq : (cgiRequestReceived s).c.toRequest = s.c.toRequest := (CallFrame.invoke s _ _).request
    have hlog : (cgiRequestReceived s).c.log = s.c.log ∨
        ∃ cgi, (cgiRequestReceived s).c.log = s.c.log ++ [.callback cgi .onRequestReceived] := by
      unfold cgiRequestReceived Sys.invoke
      split
      · exact .inl rfl
      · rename_i cgi hcgi
        split
        · exact .inl rfl
        · exact .inr ⟨cgi, rfl⟩
    have hstate : (cgiRequestReceived s).c.state = .bodyDone :=
      (congrArg Request.state hreq).trans hst
    generalize cgiRequestReceived s = t at hreq hlog hstate ⊢
    have hlength : t.c.contentLength = s.c.contentLength := congrArg Request.contentLength hreq
    have hreceived : t.c.contentReceived = s.c.contentReceived :=
      congrArg Request.contentReceived hreq
    have hchunked : t.c.chunked = s.c.chunked := congrArg Request.chunked hreq
    rcases hlog with hlog | ⟨cgi, hlog⟩
    · refine hi.same hlog hlength hchunked hreceived (fun _ => .inr ?_) fun _ => hst
      rw [hstate]
      rfl
    · have hunder : ∀ h m, Underway t.c.log h m → h.chunked = false →
          ∃ m', m = m' ++ [.callback cgi .onRequestReceived] ∧ BodyNow s.c h m' ∧
            WithinContent h m' ∧ consumedBytes m = consumedBytes m' := by
        intro h m hu hplain
        rw [hlog] at hu
        rcases hu.last with ⟨-, _, _, hact⟩ | ⟨m', rfl, -, hbefore⟩
        · cases hact
        · refine ⟨m', rfl, hi.now h m' hbefore hplain,
            hi.within s.c.log [] h m' (List.append_nil _).symm hbefore hplain, ?_⟩
          rw [consumedBytes_append]
          exact List.append_nil _
      refine ⟨?_, fun h m hu hplain => ?_⟩
      · rw [hlog] at hunder ⊢
        refine withinContents_append_one hi.within fun h m hu hplain => ?_
        obtain ⟨m', rfl, hnow, hwithin, hsame⟩ := hunder h m hu hplain
        have htaken := hnow.taken
        have hdone := hnow.done (.inl hst)
        have hlen := hnow.length
        rw [← hsame] at htaken
        refine ⟨?_, fun _ => ?_⟩
        · rw [hsame]
          exact hwithin.atMost
        · omega
      · obtain ⟨m', rfl, hnow, -, hsame⟩ := hunder h m hu hplain
        refine ⟨hlength.trans hnow.length, hchunked.trans hnow.plain, ?_, .inr ?_, fun _ => ?_⟩
        · rw [hsame, hreceived]
          exact hnow.taken
        · rw [hstate]
          rfl
        · rw [hlength, hreceived]
          exact hnow.done (.inl hst)
  unfold completeRequest
  dsimp only
  split
  · exact hcall.same rfl rfl rfl rfl id id
  · exact hcall

/-! ## The end of a request -/

theorem bodyInv_freed {s : Sys} (hi : BodyInv s.c) : BodyInv (freeHttpContext s).c := by
  have hlog : (freeHttpContext s).c.log = (cgiFinish s).c.log ++ [.freed] := by
    unfold freeHttpContext closeFileHandle
    dsimp only
    split
    · rfl
    · rfl
  have hfinish : BodyInv (cgiFinish s).c := by
    obtain ⟨l, hlog', hl⟩ := invoke_log s .onFinished Cgi.onFinished
    have hreq : (cgiFinish s).c.toRequest = s.c.toRequest := (CallFrame.invoke s _ _).request
    refine hi.pass hlog' ?_ (congrArg Request.contentLength hreq) (congrArg Request.chunked hreq)
      (congrArg Request.contentReceived hreq) ?_ ?_
    · intro a ha
      obtain ⟨cgi, rfl⟩ := hl a ha
      rfl
    · intro hpast
      rw [Past, show (cgiFinish s).c.state = s.c.state from congrArg Request.state hreq]
      exact hpast
    · intro hdone
      rw [← hdone]
      exact (congrArg Request.state hreq).symm
  exact hfinish.over hlog rfl

theorem bodyInv_closed {s : Sys} (hi : BodyInv s.c) : BodyInv (closeHttpContext s).c := by
  refine bodyInv_freed (s := detachPcb s) ?_
  unfold detachPcb
  split
  · exact hi
  · dsimp only
    split
    · exact hi.same rfl rfl rfl rfl id id
    · exact hi

theorem bodyInv_reset {s : Sys} (hi : BodyInv s.c) (h : Request) (r : Response) :
    BodyInv (resetHttpContext (s.note (.reset h r))).c := by
  obtain ⟨_, _, heq, -⟩ := resetHttpContext_spec (s.note (.reset h r))
  rw [heq]
  exact hi.over rfl rfl

/-! ## Every action -/

/-- One action keeps the invariant. -/
theorem bodyInv_step {s s' : Sys} (hi : BodyInv s.c) (hocc : OccInv s.c) (hshape : Shape s.c)
    (hstep : Micro s s') (hcond : ∀ a ∈ s'.c.log, OccupancyCond a) : BodyInv s'.c := by
  have hidle : ∀ st, s.c.state = st → st.receiving = true → st ≠ .bodyReceiving → ¬Past s.c := by
    intro st hst hrec hne hpast
    rw [Past, hst, HttpState.responding, hrec] at hpast
    rcases hpast with h | h
    · exact hne h
    · cases h
  cases hstep with
  | environment w net hpcbs => exact hi
  | receive p hlive hfit =>
    obtain ⟨l, hlog, hl⟩ := receivePbuf_passes s.c p.chain
    exact bodyInv_rx hi (.receivePbuf ..) hlog hl
  | peerClosed => exact hi.same rfl rfl rfl rfl id id
  | touch t => exact hi.same rfl rfl rfl rfl id id
  | acknowledged len => exact hi.same rfl rfl rfl rfl id id
  | dequeue hst =>
    obtain ⟨acks, hlog⟩ := dequeue_log s.c
    refine bodyInv_rx hi (.dequeue _) hlog fun a ha => ?_
    obtain ⟨n, -, rfl⟩ := List.mem_map.mp ha
    rfl
  | startRequest hst hlen =>
    exact hi.outside (l := []) (List.append_nil _).symm (fun _ ha => absurd ha List.not_mem_nil)
      (hidle _ hst rfl (by decide))
  | parseHeader hst hlen =>
    have hnot := hidle _ hst rfl (by decide)
    obtain ⟨_, _, _, _, _, l, heq, -, hl⟩ := ParseFrame.parseHeader s s.c.requestLength
    rw [heq]
    refine hi.outside (l := l) rfl (fun a ha => ?_) hnot
    have hparse := hl a ha
    cases a <;> first | rfl | cases hparse
  | tooLarge hst => exact hi.same rfl rfl rfl rfl id id
  | headersEnd hst hok => exact bodyInv_headersEnd hi hocc hst
  | refuse hst hbad hsending =>
    exact hi.same rfl rfl rfl rfl (fun _ => .inr rfl) fun h => by cases h
  | chunkLength hst hok =>
    rw [chunkLength_quiet hcond]
    exact hi
  | content size hst hok =>
    rcases hst with h | ⟨h, rfl⟩
    · exact absurd h hocc.noChunk
    · exact bodyInv_offerContent hi hocc hshape h hcond
  | complete hst hok => exact bodyInv_completeRequest hi hst
  | sendRemaining hst hres hleft =>
    refine bodyInv_response hi (.sendRemaining s) (.sendRemaining s)
      (by rw [HttpState.responding, hst]; rfl) ?_
    unfold sendRemaining
    dsimp only
    split
    · obtain ⟨_, _, _, _, _, _, hsent, -⟩ := SendFrame.sendBuffered s
      rw [hsent]
      exact id
    · exact fun h => by cases h
  | startResponse hst hres hfirst =>
    refine bodyInv_response hi (.startResponse s) (.startResponse s)
      (by rw [HttpState.responding, hst]; rfl) fun hdone => ?_
    rcases startResponse_state s with h | h | h
    · rw [h] at hdone
      cases hdone
    · rw [h] at hdone
      cases hdone
    · rw [h] at hdone
      cases hdone
  | headerAcked hst hres hsent =>
    unfold headerAcked
    split
    · refine hi.pass (l := [.refused s.c.toResponse]) rfl ?_ rfl rfl rfl (fun _ => .inr rfl)
        fun h => by cases h
      intro a ha
      rw [List.mem_singleton.mp ha]
      rfl
    · exact hi.same rfl rfl rfl rfl (fun _ => .inr rfl) fun h => by cases h
  | sendBody caller hst hres hsent hstage =>
    refine bodyInv_response hi (.sendBody s caller) (.sendBody s caller)
      (by rw [hst]; rfl) fun hdone => ?_
    rcases sendBody_state caller hst with h | h
    · rw [h] at hdone
      cases hdone
    · rw [h] at hdone
      cases hdone
  | requestEnd hst =>
    unfold requestEnd
    split
    · exact bodyInv_closed hi
    · split
      · exact bodyInv_reset hi _ _
      · exact bodyInv_closed hi
  | peerGone hst hpeer => exact hi.same rfl rfl rfl rfl id id
  | close => exact bodyInv_closed hi
  | free hgone => exact bodyInv_freed hi
  | outOfFuel => exact hi.same rfl rfl rfl rfl id id

/-- The invariant with the one it relies on, over every run. -/
theorem Orderly.body {c : RequestContext} (h : Orderly c) : BodyInv c := by
  have hboth : OccInv c ∧ BodyInv c := by
    refine h.reach.induct (P := fun c => OccInv c ∧ BodyInv c) ⟨occInv_setup, bodyInv_nil rfl⟩ ?_ ?_
      h.fine h.cond
    · intro s pcb ipRemote _ hfree
      refine ⟨occInv_accept pcb ipRemote hfree, bodyInv_nil ?_⟩
      obtain ⟨_, _, _, heq⟩ := acceptContext_spec s pcb ipRemote
      rw [heq]
    · intro s s' hshape hi hstep _ hcond
      exact ⟨occInv_step hi.1 hstep hcond, bodyInv_step hi.2 hi.1 hshape hstep hcond⟩
  exact hboth.2

/-! ## Every request of every run -/

/-- The content of a request in the stream that was sent: `l` is the log up to the end of its
header section, `m` what follows while the request is not over. -/
structure ContentOf (sent : Bytes) (l : List Act) (h : Request) (m : List Act) : Prop where
  bytes : consumedBytes m =
    (sent.drop (consumedBytes l).length).take (consumedBytes m).length
  atMost : ((consumedBytes m).length : Int) ≤ max h.contentLength 0
  complete : Completed m → ((consumedBytes m).length : Int) = max h.contentLength 0

/-- **The content of every request.** In every run of the server, on every open connection that
has decoded no chunk-size line and has not offered the login handler more than the rest of its
content, and for every request on it that is not chunked: what was taken since the end of its
header section are the next bytes of the stream that the receive events of the connection have
brought, without a gap or a repetition; they are never more than `_contentLength`; and when
`OnRequestReceived` is called they are exactly as many, so that the next request starts behind
them. -/
theorem request_contents {w : World} {es : List (Answers × Event)}
    (hlegal : (Server.boot w).RunLegal es) {i k : Nat} {c : RequestContext}
    (hc : ((Server.boot w).run es).slots[i]? = some c) (hk : c.pcb = some k) (hok : c.fault = false)
    (hcond : ∀ a ∈ c.log, OccupancyCond a) :
    ∀ l hd r found m rest, c.log = l ++ .headersEnd hd r found :: (m ++ rest) →
      (∀ a ∈ m, a.endsRequest = false) → hd.chunked = false →
      ContentOf ((Server.boot w).sentTo k es) l hd m := by
  intro l hd r found m rest hlog hm hplain
  have hord : Orderly c :=
    ⟨((Server.Reachable.boot w).run hlegal).slot (List.mem_of_getElem? hc), hok, hcond⟩
  obtain ⟨-, hstream, -⟩ := stream_in_every_run hlegal hc hk hok hcond
  have hwithin := hord.body.within (l ++ .headersEnd hd r found :: m) rest hd m (by simp [hlog])
    ⟨l, r, found, rfl, hm⟩ hplain
  refine ⟨?_, hwithin.atMost, fun hdone => ?_⟩
  · have hsplit : consumedBytes c.log = consumedBytes l ++ (consumedBytes m ++ consumedBytes rest) := by
      rw [hlog, consumedBytes_append, ← List.singleton_append, consumedBytes_append,
        consumedBytes_append]
      rfl
    rw [← hstream, hsplit, List.append_assoc, List.append_assoc, List.drop_left,
      List.append_assoc, List.take_left]
  · exact Int.le_antisymm hwithin.atMost (hwithin.complete hdone)

/-- Somebody is logged in from 10.0.0.1. -/
def loggedInWorld : World :=
  { plainWorld with sessions := (sessionCreate setupSession 1000 0x0A000001).1 }

/-- An upload in two pieces, and behind it the beginning of another request. -/
def uploadRun : List (Answers × Event) :=
  [(openNet, .accept 0x0A000001),
   (openNet, receiveText 0 ("POST /api/upload.cgi HTTP/1.1\r\nConnection: keep-alive\r\n" ++
     "Cookie: SID=000003E8\r\nX-File-Name: YQ==\r\nContent-Length: 12\r\n\r\nhello ")),
   (openNet, receiveText 0 "worldsGET /a.css HT")]

/-- The upload is opened, given two pieces and completed, and the next request waits. -/
theorem request_contents_upload :
    let c := ((Server.boot loggedInWorld).run uploadRun).slot 0
    (c.log.filterMap actingHandler = [.upload, .upload, .upload, .upload] ∧ c.waiting = ascii "GET /a.css HT") ∧
      ∀ l hd r found m rest, c.log = l ++ .headersEnd hd r found :: (m ++ rest) →
        (∀ a ∈ m, a.endsRequest = false) → hd.chunked = false →
        ContentOf ((Server.boot loggedInWorld).sentTo 0 uploadRun) l hd m := by
  have hrun : (Server.boot loggedInWorld).RunLegal uploadRun ∧
      0 < ((Server.boot loggedInWorld).run uploadRun).slots.length ∧
      (((Server.boot loggedInWorld).run uploadRun).slot 0).pcb = some 0 ∧
      (((Server.boot loggedInWorld).run uploadRun).slot 0).fault = false ∧
      (∀ a ∈ (((Server.boot loggedInWorld).run uploadRun).slot 0).log, OccupancyCond a) ∧
      (((Server.boot loggedInWorld).run uploadRun).slot 0).log.filterMap actingHandler =
        [.upload, .upload, .upload, .upload] ∧
      (((Server.boot loggedInWorld).run uploadRun).slot 0).waiting = ascii "GET /a.css HT" := by
    decide +kernel
  obtain ⟨hlegal, hslot, hpcb, hok, hcond, hshown⟩ := hrun
  exact ⟨hshown, request_contents hlegal (Server.slot_getElem? hslot) hpcb hok hcond⟩

end Httpd
