import LambdaIOT.Httpd.Invariants
import LambdaIOT.Httpd.Pages
import LambdaIOT.Httpd.Protocol
import LambdaIOT.Properties.Paths
import LambdaIOT.Properties.Search

/-!
# Who gets in

`HttpRequestProc` asks for a session once, behind the header section, and
`CGI_HeadersReceived` turns the request away or lets it in. From there on nothing is asked
again: the callbacks that open files, take content and change the device rely on the states
that a request which was turned away never comes to.
-/

namespace Httpd

open CMem Lwip

/-! ## The verdict -/

/-- The callbacks that act for a request. -/
def Callback.acts : Callback → Bool
  | .onHeadersReceived | .onContentReceived | .onRequestReceived => true
  | _ => false

/-- The handlers of one page that is no public file: nobody gets in without a session. -/
def Cgi.closed : Cgi → Bool
  | .form | .files | .upload => true
  | _ => false

theorem closed_required {cgi : Cgi} (h : cgi.closed = true) : cgi.optionsAllowed.authRequired ≠ false := by
  revert h
  cases cgi <;> decide

/-- A verdict that lets handler `cgi` act: a session of the client's address was found, or
none is asked for. -/
def LetsIn (cgi : Cgi) : Act → Prop
  | .headersEnd h r found => h.handler = some cgi ∧ (found = true ∨ cgi.closed = false ∧
      (cgi.optionsAllowed.authRequired = false ∨ sessionTypes r.extension = false))
  | _ => False

/-- Every callback that acted was let in before, in the same request. -/
def Acted (log : List Act) : Prop :=
  ∀ l cgi cb l', log = l ++ .callback cgi cb :: l' → cb.acts = true →
    ∃ a ∈ current l, LetsIn cgi a

/-- An entry that neither acts nor ends the request. -/
def Act.harmless : Act → Bool
  | .callback _ cb => !cb.acts
  | a => !a.endsRequest

theorem acted_nil : Acted [] := by
  intro l cgi cb l' h
  exact absurd h (by simp)

theorem acted_append_one {log : List Act} {a : Act} (h : Acted log)
    (ha : ∀ cgi cb, a = .callback cgi cb → cb.acts = true → ∃ b ∈ current log, LetsIn cgi b) :
    Acted (log ++ [a]) := by
  intro l cgi cb l' heq hacts
  rcases List.eq_nil_or_concat l' with rfl | ⟨m, d, rfl⟩
  · obtain ⟨rfl, hb⟩ := List.append_inj' heq rfl
    exact ha cgi cb (List.cons.inj hb).1 hacts
  · rw [List.concat_eq_append, ← List.cons_append, ← List.append_assoc] at heq
    exact h l cgi cb m (List.append_inj' heq rfl).1 hacts

theorem acted_append {log l : List Act} (h : Acted log)
    (hl : ∀ a ∈ l, ∀ cgi cb, a = .callback cgi cb → cb.acts = false) : Acted (log ++ l) := by
  induction l generalizing log with
  | nil => rwa [List.append_nil]
  | cons a l ih =>
    have hone : Acted (log ++ [a]) := by
      refine acted_append_one h ?_
      intro cgi cb ha hacts
      rw [hl a (List.mem_cons_self ..) cgi cb ha] at hacts
      cases hacts
    rw [List.append_cons]
    exact ih hone fun b hb => hl b (List.mem_cons_of_mem _ hb)

theorem current_append {log l : List Act} (hl : ∀ a ∈ l, a.endsRequest = false) :
    current (log ++ l) = current log ++ l := by
  induction l generalizing log with
  | nil => rw [List.append_nil, List.append_nil]
  | cons a l ih =>
    rw [List.append_cons, ih fun b hb => hl b (List.mem_cons_of_mem _ hb), current_append_one,
      if_neg (by rw [hl a (List.mem_cons_self ..)]; decide), List.append_assoc]
    rfl

/-- What is in the current request stays in it. -/
theorem mem_current_append {log : List Act} {a b : Act} (hb : b.endsRequest = false)
    (ha : a ∈ current log) : a ∈ current (log ++ [b]) := by
  rw [current_append_one, if_neg (by rw [hb]; decide)]
  exact List.mem_append_left _ ha

theorem harmless_callback {a : Act} (h : a.harmless = true) :
    ∀ cgi cb, a = .callback cgi cb → cb.acts = false := by
  rintro cgi cb rfl
  simpa [Act.harmless] using h

theorem harmless_continues {a : Act} (h : a.harmless = true) : a.endsRequest = false := by
  cases a with
  | callback cgi cb => rfl
  | _ => simpa [Act.harmless] using h

/-! ## The page of a closed handler -/

theorem toUpper_ne {d : UInt8} (hd : d < 65) : (fun c => toUpper c != d) = fun c => c != d := by
  have hsame : toUpper d = d := by
    rw [toUpper, if_neg]
    have hlt := UInt8.lt_iff_toNat_lt.mp hd
    have hd' : d.toNat < 65 := hlt
    simp [UInt8.le_iff_toNat_le]
    omega
  funext c
  rw [Bool.eq_iff_iff, bne_iff_ne, bne_iff_ne, not_iff_not]
  constructor
  · intro h
    exact toUpper_eq hd (by rw [h, hsame])
  · rintro rfl
    exact hsame

theorem mem_map_toUpper {d : UInt8} (hd : d < 65) (p : Bytes) : d ∈ p.map toUpper ↔ d ∈ p := by
  have hiff : ∀ c, toUpper c = d ↔ c = d := by
    intro c
    have h := congrFun (toUpper_ne hd) c
    rwa [Bool.eq_iff_iff, bne_iff_ne, bne_iff_ne, not_iff_not] at h
  rw [List.mem_map]
  constructor
  · rintro ⟨c, hc, h⟩
    rwa [(hiff c).mp h] at hc
  · intro h
    exact ⟨d, h, (hiff d).mpr rfl⟩

theorem takeWhile_map_toUpper {d : UInt8} (hd : d < 65) (p : Bytes) :
    (p.map toUpper).takeWhile (· != d) = (p.takeWhile (· != d)).map toUpper := by
  rw [List.takeWhile_map]
  congr 2
  exact toUpper_ne hd

/-- The letter case of a path is that of its extension. -/
theorem extensionText_map (p : Bytes) : extensionText (p.map toUpper) = (extensionText p).map toUpper := by
  have hname : (p.map toUpper).reverse.takeWhile (· != 47)
      = (p.reverse.takeWhile (· != 47)).map toUpper := by
    rw [← List.map_reverse, takeWhile_map_toUpper (by decide)]
  have hrun : extensionRun (p.map toUpper) = (extensionRun p).map (List.map toUpper) := by
    unfold extensionRun
    dsimp only
    rw [hname]
    by_cases hdot : 46 ∈ p.reverse.takeWhile (· != 47)
    · rw [if_pos hdot, if_pos ((mem_map_toUpper (by decide) _).mpr hdot),
        takeWhile_map_toUpper (by decide), ← List.map_reverse]
      rfl
    · rw [if_neg hdot, if_neg fun h => hdot ((mem_map_toUpper (by decide) _).mp h)]
      rfl
  rw [extensionText, extensionText, hrun]
  cases extensionRun p with
  | none => rfl
  | some run =>
    change (run.map toUpper).filter (· != 35) = (run.filter (· != 35)).map toUpper
    rw [List.filter_map]
    congr 2
    exact toUpper_ne (by decide)

/-- `SessionTypes` does not look at the letter case. -/
theorem sessionTypes_map {a b : Bytes} (ha : NoNul a) (hb : NoNul b)
    (h : a.map toUpper = b.map toUpper) : sessionTypes a = sessionTypes b := by
  have hplain : ∀ e ∈ publicExtensions, NoNul e := by decide
  have hsame : ∀ e ∈ publicExtensions, hasPrefix a e = hasPrefix b e := by
    intro e he
    rw [Bool.eq_iff_iff, hasPrefix_iff_namesField (hplain e he),
      hasPrefix_iff_namesField (hplain e he), cstr_eq_self ha, cstr_eq_self hb, NamesField,
      NamesField, List.map_take, List.map_take, h]
  unfold sessionTypes
  congr 1
  rw [Bool.eq_iff_iff, List.any_eq_true, List.any_eq_true]
  constructor
  · rintro ⟨e, he, hp⟩
    exact ⟨e, he, by rwa [← hsame e he]⟩
  · rintro ⟨e, he, hp⟩
    exact ⟨e, he, by rwa [hsame e he]⟩

theorem length_scanPath (n : Nat) (rest path : Bytes) (h : path.length ≤ 126) :
    (scanPath n rest path).1.length ≤ 126 := by
  induction n generalizing rest path with
  | zero => exact h
  | succ n ih =>
    rw [scanPath]
    split
    · exact h
    · refine ih _ _ ?_
      split
      · exact h
      · split
        · rw [List.length_append, List.length_singleton]
          omega
        · exact h

theorem length_parseQueryLoop (fuel : Nat) (m : Bytes) (i : Nat) (dot : Bool) (q : Int) (len : Nat) :
    (parseQueryLoop fuel m i dot q len).1.length = m.length := by
  induction fuel generalizing m i dot q len with
  | zero => rfl
  | succ fuel ih =>
    rw [parseQueryLoop]
    split
    · dsimp only
      split
      · split
        · rw [ih, length_store]
        · exact ih ..
      · split
        · exact ih ..
        · split
          · exact ih ..
          · split
            · split
              · rw [ih, length_store]
              · exact ih ..
            · split
              · rw [ih, length_store]
              · exact ih ..
    · rfl

theorem length_parseQueryString (path : Bytes) : (parseQueryString path).2.1.length = path.length := by
  unfold parseQueryString
  dsimp only
  have hloop := length_parseQueryLoop 128 (List.replicate 8 0 ++ path) 0 false (-1) 0
  rw [List.length_append, List.length_replicate] at hloop
  rw [List.length_drop]
  split
  · rw [length_store, hloop]
    omega
  · rw [hloop]
    omega

/-- A path that a closed handler accepts is its own, in any letter case. -/
theorem find_closed {path : Bytes} {cgi : Cgi} (h : Cgi.find path = some cgi)
    (hclosed : cgi.closed = true) : (cstr path).map toUpper = cgi.path.map toUpper := by
  have haccepts : cgi.accepts path = true := List.find?_some (p := fun c : Cgi => c.accepts path) h
  have hpath : NoNul cgi.path ∧ cgi.optionsAllowed.prefixWildcard = false := by
    cases cgi with
    | form => exact ⟨by decide, rfl⟩
    | files => exact ⟨by decide, rfl⟩
    | upload => exact ⟨by decide, rfl⟩
    | ssdp => cases hclosed
    | auth => cases hclosed
    | webApp => cases hclosed
  rw [Cgi.accepts, hpath.2, if_neg Bool.false_ne_true, Bool.and_eq_true, decide_eq_true_eq] at haccepts
  obtain ⟨hlen, hprefix⟩ := haccepts
  have hname := (hasPrefix_iff_namesField hpath.1 path).mp hprefix
  have hwhole : (cstr path).take cgi.path.length = cstr path := List.take_of_length_le (le_of_eq hlen)
  rwa [NamesField, hwhole] at hname

/-- A handler accepts no path that is shorter than its own. -/
theorem length_of_accepts {cgi : Cgi} {path : Bytes} (h : cgi.accepts path = true) :
    cgi.path.length ≤ strlen path := by
  rw [Cgi.accepts, Bool.and_eq_true] at h
  obtain ⟨hlen, -⟩ := h
  split at hlen
  · exact of_decide_eq_true hlen
  · exact (of_decide_eq_true hlen).ge

/-- A request line keeps the array of the path, and a request that finds a handler has the
extension of its path. -/
theorem requestLineRequest_page {h : Request} (hpath : h.requestPath.length = 128) (tail : Bytes)
    (n : Nat) (method : Method) (iSkip : Nat) :
    (requestLineRequest h tail n method iSkip).1.requestPath.length = 128 ∧
      ∀ cgi, Cgi.find (requestLineRequest h tail n method iSkip).1.requestPath = some cgi →
        (requestLineRequest h tail n method iSkip).2 =
          extensionText (cstr (requestLineRequest h tail n method iSkip).1.requestPath) := by
  have hscan := length_scanPath (n - iSkip) (tail.drop iSkip) [] (Nat.zero_le _)
  generalize hpathText : (scanPath (n - iSkip) (tail.drop iSkip) []).1 = text at hscan
  -- the decoded path ends inside its array
  have hdecoded : (urlDecode (store h.requestPath 0 (text ++ [0]))).2 ≤ 126 :=
    (urlDecode_le _).trans ((strlen_store_le (by omega)).trans (by omega))
  have harray : (urlDecode (store h.requestPath 0 (text ++ [0]))).1.length = 128 := by
    rw [length_urlDecode, length_store, hpath]
  generalize hdec : urlDecode (store h.requestPath 0 (text ++ [0])) = decoded at hdecoded harray
  have hshort : strlen (store decoded.1 decoded.2 [0]) ≤ decoded.2 :=
    strlen_store_le (s := []) (by rw [List.length_nil]; omega)
  have hsame : requestLineRequest h tail n method iSkip =
      ({ h with
          requestMethod := method
          ver := (scanPath (n - iSkip) (tail.drop iSkip) []).2.getD h.ver
          requestPath := (parseQueryString (store decoded.1 decoded.2 [0])).2.1
          posQuestion := (parseQueryString (store decoded.1 decoded.2 [0])).2.2
          checkAlive := hasPrefix (parseQueryString (store decoded.1 decoded.2 [0])).2.1
            webSessionCheck },
        (parseQueryString (store decoded.1 decoded.2 [0])).1) := by
    unfold requestLineRequest
    dsimp only
    rw [hpathText, hdec]
  rw [hsame]
  dsimp only
  have hlen : (store decoded.1 decoded.2 [0]).length = 128 := by rw [length_store, harray]
  generalize store decoded.1 decoded.2 [0] = m at hshort hlen
  refine ⟨by rw [length_parseQueryString, hlen], ?_⟩
  intro cgi hfind
  obtain ⟨behind, hm⟩ := cstr_nul (m := m) (show strlen m < m.length by omega)
  by_cases hfit : ExtensionsFit (cstr m)
  · have hsplit := parseQueryString_fits behind (noNul_cstr m) (show strlen m < 128 by omega) hfit
    rw [← hm] at hsplit
    have hfits : (extensionText (pathCut (cstr m))).length ≤ 7 := hfit _ List.prefix_rfl
    have hext := hsplit.extension
    rw [List.take_of_length_le hfits] at hext
    rw [hsplit.path]
    exact hext
  · -- an overrun leaves no path, and no handler accepts that
    have hempty := parseQueryString_overrun behind (noNul_cstr m) (show strlen m < 128 by omega) hfit
    rw [← hm] at hempty
    have haccepts : cgi.accepts (parseQueryString m).2.1 = true :=
      List.find?_some (p := fun c : Cgi => c.accepts (parseQueryString m).2.1) hfind
    have hlen' := length_of_accepts haccepts
    rw [strlen, hempty] at hlen'
    cases cgi <;> exact absurd hlen' (by decide)

/-- The page of a closed handler is no public file. -/
theorem sessionTypes_closed {path : Bytes} {cgi : Cgi} (hfind : Cgi.find path = some cgi)
    (hclosed : cgi.closed = true) : sessionTypes (extensionText (cstr path)) = true := by
  have hupper : (extensionText (cstr path)).map toUpper =
      (extensionText cgi.path).map toUpper := by
    rw [← extensionText_map, ← extensionText_map, find_closed hfind hclosed]
  have hplain : NoNul (extensionText (cstr path)) := fun b hb =>
    noNul_cstr path b (extensionText_subset _ b hb)
  cases cgi with
  | form => exact (sessionTypes_map hplain (by decide) hupper).trans (by decide)
  | files => exact (sessionTypes_map hplain (by decide) hupper).trans (by decide)
  | upload => exact (sessionTypes_map hplain (by decide) hupper).trans (by decide)
  | ssdp => cases hclosed
  | auth => cases hclosed
  | webApp => cases hclosed

/-! ## The handler of a request -/

/-- The handler of the request line has the options of its entry and the extension of the path,
and the page of a closed one is no public file. -/
structure Chosen (c : RequestContext) : Prop where
  path : c.requestPath.length = 128
  options : ∀ cgi, c.handler = some cgi → c.options = cgi.optionsAllowed
  page : ∀ cgi, c.handler = some cgi → c.extension = extensionText (cstr c.requestPath)
  session : ∀ cgi, c.handler = some cgi → cgi.closed = true → sessionTypes c.extension = true

/-- Nothing of it depends on the other fields. -/
theorem Chosen.same {c c' : RequestContext} (h : Chosen c) (hpath : c'.requestPath = c.requestPath)
    (hhandler : c'.handler = c.handler) (hoptions : c'.options = c.options)
    (hextension : c'.extension = c.extension) : Chosen c' where
  path := by rw [hpath]; exact h.path
  options := by
    intro cgi hcgi
    rw [hoptions]
    exact h.options cgi (hhandler ▸ hcgi)
  page := by
    intro cgi hcgi
    rw [hextension, hpath]
    exact h.page cgi (hhandler ▸ hcgi)
  session := by
    intro cgi hcgi hclosed
    rw [hextension]
    exact h.session cgi (hhandler ▸ hcgi) hclosed

/-- A context between two requests has no handler. -/
theorem chosen_none {c : RequestContext} (hpath : c.requestPath.length = 128)
    (hhandler : c.handler = none) : Chosen c := by
  have hnot : ∀ cgi, c.handler ≠ some cgi := by
    intro cgi hcgi
    rw [hhandler] at hcgi
    cases hcgi
  exact ⟨hpath, fun cgi h => absurd h (hnot cgi), fun cgi h => absurd h (hnot cgi),
    fun cgi h => absurd h (hnot cgi)⟩

theorem chosen_setCgiHandler {s : Sys} (hpath : s.c.requestPath.length = 128)
    (hpage : ∀ cgi, Cgi.find s.c.requestPath = some cgi →
      s.c.extension = extensionText (cstr s.c.requestPath)) : Chosen (cgiSetCgiHandler s).c := by
  unfold cgiSetCgiHandler
  dsimp only
  cases hfind : Cgi.find s.c.requestPath with
  | none => exact chosen_none hpath rfl
  | some cgi =>
    refine ⟨hpath, ?_, fun _ _ => hpage cgi hfind, ?_⟩
    · intro cgi' hcgi
      rw [← Option.some.inj hcgi]
      rfl
    · intro cgi' hcgi h
      obtain rfl : cgi = cgi' := Option.some.inj hcgi
      show sessionTypes s.c.extension = true
      rw [hpage cgi hfind]
      exact sessionTypes_closed hfind h

theorem chosen_requestLine {s : Sys} (h : Chosen s.c) (tail : Bytes) (n : Nat) :
    Chosen (requestLine s tail n).c := by
  unfold requestLine
  split
  · exact h.same rfl rfl rfl rfl
  · rename_i method iSkip hmethod
    obtain ⟨hpath, hpage⟩ := requestLineRequest_page h.path tail n method iSkip
    exact chosen_setCgiHandler hpath hpage

theorem chosen_headerReceived {s : Sys} (h : Chosen s.c) (line : Bytes) :
    Chosen (cgiHeaderReceived s line).c := by
  unfold cgiHeaderReceived Sys.invoke
  split
  · exact h
  · rename_i cgi hcgi
    split
    · exact h
    · rename_i g hg
      obtain ⟨f, hf, rfl⟩ := Option.map_eq_some_iff.mp hg
      have hline : ∀ k : Call, (f k line).r.options = k.r.options ∧
          (f k line).r.extension = k.r.extension := by
        intro k
        cases cgi with
        | upload =>
          cases hf
          have hput : ∀ bs, (k.r.putApp 0 bs).options = k.r.options ∧
              (k.r.putApp 0 bs).extension = k.r.extension := fun _ => ⟨rfl, rfl⟩
          unfold uploadOnHeaderReceived
          split
          · exact hput _
          · exact ⟨rfl, rfl⟩
        | ssdp => cases hf
        | auth => cases hf
        | form => cases hf
        | files => cases hf
        | webApp => cases hf
      exact h.same rfl rfl (hline s.call).1 (hline s.call).2

theorem chosen_headerLine {s : Sys} (h : Chosen s.c) (tail : Bytes) (n : Nat) :
    Chosen (headerLine s tail n).c := by
  unfold headerLine
  dsimp only
  repeat' split
  · exact h.same rfl rfl rfl rfl
  · exact h.same rfl rfl rfl rfl
  · exact h.same rfl rfl rfl rfl
  · exact h.same rfl rfl rfl rfl
  · exact h.same rfl rfl rfl rfl
  · exact h.same rfl rfl rfl rfl
  · exact h.same rfl rfl rfl rfl
  · exact chosen_headerReceived (s := s.note _) (h.same rfl rfl rfl rfl) tail

theorem chosen_parseHeader {s : Sys} (h : Chosen s.c) (size : Int) :
    Chosen (parseHeader s size).1.c := by
  have hscan : Chosen (parseScan s size).s.c := by
    refine lineLoop_induct (P := fun t => Chosen t.c) ?_ ?_ ?_ _ _ _ h
    · intro t tail n _ ht
      exact chosen_requestLine ht tail n
    · intro t tail n _ ht
      exact chosen_headerLine ht tail n
    · intro t ht
      unfold endOfHeaders
      dsimp only
      split
      · exact ht.same rfl rfl rfl rfl
      · exact ht.same rfl rfl rfl rfl
  have hreq := shift_request (parseScan s size) s.c.httpRequestBuffer
  have hresp := shift_response (parseScan s size) s.c.httpRequestBuffer
  exact hscan.same (congrArg Request.requestPath hreq) (congrArg Request.handler hreq)
    (congrArg Response.options hresp) (congrArg Response.extension hresp)

/-! ## What the actions log -/

/-- `s'` is later than `s`, and only harmless entries were logged in between. -/
def Harmless (s s' : Sys) : Prop :=
  ∃ log, s'.c.log = s.c.log ++ log ∧ ∀ a ∈ log, a.harmless = true

namespace Harmless

theorem quiet {s s' : Sys} (h : s'.c.log = s.c.log) : Harmless s s' := by
  refine ⟨[], ?_, fun a ha => absurd ha List.not_mem_nil⟩
  rw [h, List.append_nil]

theorem trans {s t u : Sys} (h : Harmless s t) (h' : Harmless t u) : Harmless s u := by
  obtain ⟨log, hlog, hl⟩ := h
  obtain ⟨log', hlog', hl'⟩ := h'
  refine ⟨log ++ log', ?_, ?_⟩
  · rw [hlog', hlog, List.append_assoc]
  · intro a ha
    rcases List.mem_append.mp ha with h | h
    · exact hl a h
    · exact hl' a h

theorem note (s : Sys) {a : Act} (ha : a.harmless = true) : Harmless s (s.note a) := by
  refine ⟨[a], rfl, ?_⟩
  intro b hb
  rwa [List.mem_singleton.mp hb]

theorem invoke (s : Sys) {cb : Callback} (hcb : cb.acts = false) (f : Cgi → Option (Call → Call)) :
    Harmless s (s.invoke cb f) := by
  unfold Sys.invoke
  split
  · exact quiet rfl
  · split
    · exact quiet rfl
    · exact (note s (by simp [Act.harmless, hcb])).trans (quiet rfl)

theorem rx {s : Sys} {c : RequestContext} (h : RxFrame s.c c) : Harmless s { s with c := c } := by
  obtain ⟨_, _, _, _, _, log, rfl, _, hl⟩ := h
  refine ⟨log, rfl, ?_⟩
  intro a ha
  have hrx := hl a ha
  cases a <;> first | rfl | cases hrx

theorem send {s s' : Sys} (h : SendFrame s s') : Harmless s s' := by
  obtain ⟨_, _, _, _, log, _, rfl, _, _, hl⟩ := h
  refine ⟨log, rfl, ?_⟩
  intro a ha
  have hwrite := hl a ha
  cases a <;> first | rfl | cases hwrite

theorem parse {s s' : Sys} (h : ParseFrame s s') : Harmless s s' := by
  obtain ⟨_, _, _, _, _, log, rfl, _, hl⟩ := h
  refine ⟨log, rfl, ?_⟩
  intro a ha
  have hparse := hl a ha
  cases a with
  | callback cgi cb => cases cb <;> first | rfl | cases hparse
  | _ => first | rfl | cases hparse

theorem setResponseHeaders (s : Sys) (codeInfo : Bytes) :
    Harmless s (cgiSetResponseHeaders s codeInfo) := by
  have hbegin : Harmless s (s.setResponse (headersBegin { s.c.toResponse with peak := 0 })) := quiet rfl
  unfold cgiSetResponseHeaders
  dsimp only
  generalize s.setResponse (headersBegin { s.c.toResponse with peak := 0 }) = t at hbegin ⊢
  have hcall := hbegin.trans (invoke t (show Callback.setResponseHeaders.acts = false from rfl)
    fun cgi => cgi.setResponseHeaders.map fun f c => f t.c.toRequest c codeInfo)
  refine Harmless.trans ?_ (note _ rfl)
  exact hcall.trans (quiet rfl)

theorem loadContentToSend (s : Sys) (caller : Caller) :
    Harmless s (cgiLoadContentToSend s caller).1 := by
  unfold cgiLoadContentToSend
  dsimp only
  refine Harmless.trans ?_ (note _ rfl)
  unfold loadContent
  split
  · change Harmless s (cgiAllSent _)
    unfold cgiAllSent
    split
    · exact quiet rfl
    · exact invoke _ (show Callback.onAllSent.acts = false from rfl) _
  · split
    · exact quiet rfl
    · split
      · exact quiet rfl
      · split
        · exact quiet rfl
        · exact (note _ rfl).trans (quiet rfl)

theorem sendRemaining (s : Sys) : Harmless s (sendRemaining s) := by
  unfold Httpd.sendRemaining
  dsimp only
  split
  · exact send (.sendBuffered s)
  · exact (send (.sendBuffered s)).trans (quiet rfl)

theorem startResponse (s : Sys) : Harmless s (startResponse s) := by
  unfold Httpd.startResponse
  dsimp only
  have hbegin : Harmless s (beginResponse s) := quiet rfl
  have hsent := (hbegin.trans (setResponseHeaders _ (codeInfoOf s.c.result))).trans
    (send (.sendBuffered _))
  generalize sendBuffered (cgiSetResponseHeaders (beginResponse s) (codeInfoOf s.c.result)) = sent
    at hsent ⊢
  split
  · refine hsent.trans ?_
    split
    · exact quiet rfl
    · exact quiet rfl
  · exact hsent.trans (quiet rfl)

theorem sendBody (s : Sys) (caller : Caller) : Harmless s (sendBody s caller) := by
  unfold Httpd.sendBody
  dsimp only
  have hload := loadContentToSend s caller
  generalize cgiLoadContentToSend s caller = loaded at hload ⊢
  split
  · have hsent := hload.trans (send (.sendBuffered loaded.1))
    generalize sendBuffered loaded.1 = sent at hsent ⊢
    split
    · exact hsent.trans (quiet rfl)
    · exact hsent.trans (quiet rfl)
  · split
    · exact hload.trans (quiet rfl)
    · exact hload

end Harmless

/-- A response under way is in one of the three states behind `HTTP_STATE_BODY_DONE`. -/
theorem startResponse_state (s : Sys) : (startResponse s).c.state = .sendingHeader ∨
    (startResponse s).c.state = .sendingBody ∨ (startResponse s).c.state = .requestEnd := by
  unfold startResponse
  dsimp only
  split
  · split
    · exact .inr (.inl rfl)
    · exact .inl rfl
  · exact .inr (.inr rfl)

theorem sendBody_state {s : Sys} (caller : Caller) (hst : s.c.state = .sendingBody) :
    (sendBody s caller).c.state = .sendingBody ∨ (sendBody s caller).c.state = .requestEnd := by
  obtain ⟨t, d, ht, -, heq⟩ := cgiLoadContentToSend_spec s caller
  unfold sendBody
  dsimp only
  rw [heq]
  have hstate : ∀ a, (t.note a).c.state = .sendingBody := fun a =>
    (congrArg Request.state ht.request).trans hst
  replace hstate := hstate (.load s.w s.c.toRequest { s.c.toResponse with peak := 0 } t.c.toResponse d)
  generalize t.note _ = u at hstate ⊢
  split
  · obtain ⟨_, _, _, _, _, _, hsent, -⟩ := SendFrame.sendBuffered u
    split
    · refine .inl ?_
      rw [hsent]
      exact hstate
    · exact .inr rfl
  · split
    · exact .inr rfl
    · exact .inl hstate

/-! ## The verdict of a header section -/

/-- Whoever is turned away is redirected; everybody else is let in. -/
theorem authorize_verdict (w : World) (h : Request) (r : Response) :
    (authorize w h r).options = r.options ∧ (authorize w h r).extension = r.extension ∧
      ((authorize w h r).authorized = codeRedirect ∧ r.options.authRequired = true ∨
        (authorize w h r).authorized = codeOk ∧ (loggedIn w (authorize w h r).session h.ipRemote = true ∨ r.options.authRequired = false ∨
          sessionTypes r.extension = false)) := by
  unfold authorize
  dsimp only
  split
  · rename_i hrefused
    exact ⟨rfl, rfl, .inl ⟨rfl, hrefused.2.1⟩⟩
  · rename_i hnot
    refine ⟨rfl, rfl, .inr ⟨rfl, ?_⟩⟩
    by_contra hall
    push Not at hall
    refine hnot ⟨?_, ?_, ?_⟩
    · simpa using hall.1
    · simpa using hall.2.1
    · simpa using hall.2.2

/-- A request that nobody takes is an error. -/
theorem cgiNobody_result (h : Request) (r : Response) : (cgiNobody h r).result < 0 := by
  unfold cgiNobody
  split
  · assumption
  · split
    · exact (show codeRedirect < 0 by decide)
    · split
      · exact (show codeNotFound < 0 by decide)
      · exact (show (-500 : Int) < 0 by decide)

/-! ## Every callback was let in -/

/-- The states behind the header section in which the handler acts. -/
def HttpState.admits : HttpState → Bool
  | .chunkLenReceiving | .chunkReceiving | .bodyReceiving | .bodyDone => true
  | _ => false

/-- The states in front of the verdict. -/
def HttpState.before : HttpState → Bool
  | .idle | .headerReceiving | .headerDone => true
  | _ => false

/-- The handler of the request was let in. -/
def Entered (c : RequestContext) : Prop :=
  ∀ cgi, c.handler = some cgi → ∃ a ∈ current c.log, LetsIn cgi a

/-- What holds of every context: who acted was let in, and a handler that may still act is in. -/
structure Gated (c : RequestContext) : Prop where
  acted : Acted c.log
  chosen : c.state.before = true → Chosen c
  entered : c.state.admits = true → 0 ≤ c.result → Entered c

theorem Harmless.acted {s s' : Sys} (h : Harmless s s') (hacted : Acted s.c.log) : Acted s'.c.log := by
  obtain ⟨log, hlog, hl⟩ := h
  rw [hlog]
  exact acted_append hacted fun a ha => harmless_callback (hl a ha)

theorem Harmless.entered {s s' : Sys} (h : Harmless s s') (hhandler : s'.c.handler = s.c.handler)
    (hin : Entered s.c) : Entered s'.c := by
  obtain ⟨log, hlog, hl⟩ := h
  intro cgi hcgi
  obtain ⟨a, ha, hlets⟩ := hin cgi (hhandler ▸ hcgi)
  refine ⟨a, ?_, hlets⟩
  rw [hlog, current_append fun b hb => harmless_continues (hl b hb)]
  exact List.mem_append_left _ ha

/-- An action that leaves the request and its verdict alone. -/
theorem Gated.quiet {s s' : Sys} (h : Gated s.c) (hlog : Harmless s s')
    (hreq : s'.c.state = s.c.state ∧ s'.c.requestPath = s.c.requestPath ∧
      s'.c.handler = s.c.handler)
    (hresp : s'.c.options = s.c.options ∧ s'.c.extension = s.c.extension)
    (hresult : 0 ≤ s'.c.result → 0 ≤ s.c.result) : Gated s'.c where
  acted := hlog.acted h.acted
  chosen := by
    intro hst
    rw [hreq.1] at hst
    exact (h.chosen hst).same hreq.2.1 hreq.2.2 hresp.1 hresp.2
  entered := by
    intro hst hok
    rw [hreq.1] at hst
    exact hlog.entered hreq.2.2 (h.entered hst (hresult hok))

/-- An action behind which the handler acts no more. -/
theorem Gated.leave {s s' : Sys} (h : Gated s.c) (hlog : Harmless s s')
    (hst : s'.c.state.before = false ∧ s'.c.state.admits = false) : Gated s'.c where
  acted := hlog.acted h.acted
  chosen := by
    intro hbefore
    rw [hst.1] at hbefore
    cases hbefore
  entered := by
    intro hadmits
    rw [hst.2] at hadmits
    cases hadmits

/-- A context without a request. -/
theorem gated_none {c : RequestContext} (hacted : Acted c.log) (hpath : c.requestPath.length = 128)
    (hhandler : c.handler = none) : Gated c where
  acted := hacted
  chosen := fun _ => chosen_none hpath hhandler
  entered := by
    intro _ _ cgi hcgi
    rw [hhandler] at hcgi
    cases hcgi

theorem freeHttpContext_acted {s : Sys} (h : Acted s.c.log) : Acted (freeHttpContext s).c.log := by
  have hlog : (freeHttpContext s).c.log = (cgiFinish s).c.log ++ [.freed] := by
    unfold freeHttpContext closeFileHandle
    dsimp only
    split
    · rfl
    · rfl
  have hfinish : Harmless s (cgiFinish s) := .invoke s (show Callback.onFinished.acts = false from rfl) _
  rw [hlog]
  refine acted_append_one (hfinish.acted h) ?_
  intro cgi cb ha
  cases ha

theorem freeHttpContext_gated {s : Sys} (h : Acted s.c.log) : Gated (freeHttpContext s).c := by
  refine gated_none (freeHttpContext_acted h) ?_ ?_
  · obtain ⟨_, _, _, _, _, _, heq, -⟩ := freeHttpContext_frame s
    rw [heq]
    exact List.length_replicate ..
  · obtain ⟨_, _, _, _, _, _, heq, -⟩ := freeHttpContext_frame s
    rw [heq]
    rfl

theorem closeHttpContext_gated {s : Sys} (h : Acted s.c.log) : Gated (closeHttpContext s).c := by
  refine freeHttpContext_gated (s := detachPcb s) ?_
  have hlog : (detachPcb s).c.log = s.c.log := by
    unfold detachPcb
    split
    · rfl
    · dsimp only
      split
      · rfl
      · rfl
  rwa [hlog]

/-- A callback of a handler that is in. -/
theorem invoke_entered {s : Sys} (cb : Callback) (f : Cgi → Option (Call → Call))
    (hacted : Acted s.c.log) (hin : Entered s.c) :
    Acted (s.invoke cb f).c.log ∧ Entered (s.invoke cb f).c := by
  unfold Sys.invoke
  split
  · exact ⟨hacted, hin⟩
  · rename_i cgi hcgi
    split
    · exact ⟨hacted, hin⟩
    · refine ⟨acted_append_one hacted ?_, ?_⟩
      · intro cgi' cb' ha _
        obtain ⟨rfl, -⟩ := Act.callback.inj ha
        exact hin cgi hcgi
      · intro cgi' hcgi'
        obtain ⟨a, ha, hlets⟩ := hin cgi' hcgi'
        refine ⟨a, ?_, hlets⟩
        exact mem_current_append rfl ha

/-- The end of the header section: the verdict. -/
theorem headersEnd_gated {s : Sys} (h : Gated s.c) (hst : s.c.state = .headerDone) :
    Gated (headersEnd s).c := by
  have hchosen := h.chosen (by rw [hst]; rfl)
  obtain ⟨st, t, heq, hframed⟩ := headersEnd_eq s
  have hadmits : st.admits = true ∧ st.before = false := by
    rcases hframed with ⟨rfl, -⟩ | ⟨rfl, -⟩ | ⟨rfl, -⟩
    · exact ⟨rfl, rfl⟩
    · exact ⟨rfl, rfl⟩
    · exact ⟨rfl, rfl⟩
  obtain ⟨hoptions, hextension, hverdict⟩ := authorize_verdict s.w s.c.toRequest s.c.toResponse
  rw [heq]
  generalize authorize s.w s.c.toRequest s.c.toResponse = r at hoptions hextension hverdict ⊢
  generalize hfound : loggedIn s.w r.session s.c.ipRemote = found at hverdict ⊢
  generalize hentry : Act.headersEnd { s.c.toRequest with state := st, tLastSent := t } r found = a
  generalize hu : (⟨s.w, { s.c with
    toRequest := { s.c.toRequest with state := st, tLastSent := t }
    toResponse := r
    log := s.c.log ++ [a] }, s.net⟩ : Sys) = u
  have hplain : Acted (s.c.log ++ [a]) := by
    refine acted_append_one h.acted ?_
    rw [← hentry]
    intro cgi cb ha
    cases ha
  have hlog : u.c.log = s.c.log ++ [a] := by rw [← hu]
  have hustate : u.c.state = st := by rw [← hu]
  have hresponse : u.c.toResponse = r := by rw [← hu]
  have hhandler : u.c.handler = s.c.handler := by rw [← hu]
  have hends : a.endsRequest = false := by rw [← hentry]; rfl
  -- who is not turned away is let in
  have hin : r.authorized ≠ codeRedirect → Entered u.c := by
    intro hok cgi hcgi
    rw [hhandler] at hcgi
    rcases hverdict with ⟨hbad, -⟩ | ⟨-, hgood⟩
    · exact absurd hbad hok
    · refine ⟨a, ?_, ?_⟩
      · rw [hlog, current_append_one, if_neg (by rw [hends]; decide)]
        exact List.mem_append_right _ (List.mem_singleton_self a)
      · rw [← hentry]
        refine ⟨hcgi, ?_⟩
        have hown : s.c.options.authRequired = cgi.optionsAllowed.authRequired := by
          rw [hchosen.options cgi hcgi]
        rcases hgood with hsession | hfree
        · exact .inl hsession
        · cases hclosed : cgi.closed with
          | false =>
            rw [hextension, ← hown]
            exact .inr ⟨rfl, hfree⟩
          | true =>
            exfalso
            have hpublic := hchosen.session cgi hcgi hclosed
            rcases hfree with hnone | hnone
            · rw [hown] at hnone
              exact absurd hnone (closed_required hclosed)
            · exact absurd hnone (by rw [show sessionTypes s.c.extension = true from hpublic]; decide)
  have hnever : ∀ c : RequestContext, c.log = u.c.log → c.state = st → c.result < 0 → Gated c := by
    intro c hclog hcst hbad
    refine ⟨by rw [hclog, hlog]; exact hplain, ?_, ?_⟩
    · intro hbefore
      rw [hcst, hadmits.2] at hbefore
      cases hbefore
    · intro _ hok
      omega
  unfold cgiHeadersReceived
  dsimp only
  split
  · rename_i hrefused
    refine hnever _ rfl hustate ?_
    have hauth : r.authorized ≠ codeOk := by
      have hne := hrefused.2.2
      rwa [hresponse] at hne
    change u.c.authorized < 0
    rw [show u.c.authorized = r.authorized from congrArg Response.authorized hresponse]
    rcases hverdict with ⟨hbad, -⟩ | ⟨hgood, -⟩
    · rw [hbad]
      decide
    · exact absurd hgood hauth
  · rename_i hadmitted
    split
    · rename_i htaken
      have hentered : Entered u.c := by
        refine hin fun hbad => hadmitted ⟨htaken.1, ?_, ?_⟩
        · rcases hverdict with ⟨-, hrequired⟩ | ⟨hgood, -⟩
          · rw [hresponse, hoptions]
            exact hrequired
          · rw [hbad] at hgood
            exact absurd hgood (by decide)
        · rw [hresponse, hbad]
          decide
      have hcallback := invoke_entered (s := u) .onHeadersReceived
        (fun cgi => cgi.onHeadersReceived.map fun f c => f u.c.toRequest c)
        (by rw [hlog]; exact hplain) hentered
      refine ⟨hcallback.1, ?_, fun _ _ => hcallback.2⟩
      intro hbefore
      rw [(CallFrame.invoke u _ _).request, hustate, hadmits.2] at hbefore
      cases hbefore
    · exact hnever _ rfl hustate (cgiNobody_result _ _)

theorem takeContent_request (s : Sys) (consumed : Int) :
    (takeContent s consumed).c.handler = s.c.handler ∧
      (s.c.state.admits = true → (takeContent s consumed).c.state.admits = true) := by
  unfold takeContent
  dsimp only
  split
  · unfold contentDone
    split
    · dsimp only
      split
      · exact ⟨rfl, fun _ => rfl⟩
      · exact ⟨rfl, fun _ => rfl⟩
    · exact ⟨rfl, fun _ => rfl⟩
  · exact ⟨rfl, id⟩

theorem admits_not_before {st : HttpState} (h : st.admits = true) : st.before = false := by
  cases st <;> first | rfl | cases h

/-- Content goes to a handler that is in. -/
theorem offerContent_gated {s : Sys} (h : Gated s.c) (size : Int) (hst : s.c.state.admits = true)
    (hok : 0 ≤ s.c.result) : Gated (offerContent s size).c := by
  have hin := h.entered hst hok
  have hcalled : Acted (cgiContentReceived s s.c.httpRequestBuffer size).1.c.log ∧
      Entered (cgiContentReceived s s.c.httpRequestBuffer size).1.c ∧
      (cgiContentReceived s s.c.httpRequestBuffer size).1.c.state = s.c.state := by
    rcases cgiContentReceived_cases s s.c.httpRequestBuffer size with heq | ⟨cgi, f, hcgi, _, heq⟩
    · rw [heq]
      exact ⟨h.acted, hin, rfl⟩
    · rw [heq]
      refine ⟨acted_append_one (acted_append_one h.acted ?_) ?_, ?_, rfl⟩
      · intro cgi' cb' ha _
        obtain ⟨rfl, -⟩ := Act.callback.inj ha
        exact hin cgi hcgi
      · intro cgi' cb' ha
        cases ha
      · intro cgi' hcgi'
        obtain ⟨a, ha, hlets⟩ := hin cgi' hcgi'
        refine ⟨a, ?_, hlets⟩
        exact mem_current_append rfl (mem_current_append rfl ha)
  obtain ⟨hacted, hentered, hstate⟩ := hcalled
  unfold offerContent
  dsimp only
  generalize cgiContentReceived s s.c.httpRequestBuffer size = taken at hacted hentered hstate ⊢
  split
  · refine ⟨hacted, ?_, fun _ _ => hentered⟩
    intro hbefore
    rw [hstate, admits_not_before hst] at hbefore
    cases hbefore
  · obtain ⟨hhandler, hadmits⟩ := takeContent_request taken.1 taken.2
    obtain ⟨_, _, _, hframe, -⟩ := takeContent_frame taken.1 taken.2
    have hlog : Harmless taken.1 (takeContent taken.1 taken.2) := by
      refine ⟨[.consumed (taken.1.c.httpRequestBuffer.take taken.2.toNat)], ?_, ?_⟩
      · rw [hframe]
      · intro a ha
        rw [List.mem_singleton.mp ha]
        rfl
    refine ⟨hlog.acted hacted, ?_, fun _ _ => hlog.entered hhandler hentered⟩
    intro hbefore
    rw [admits_not_before (hadmits (by rw [hstate]; exact hst))] at hbefore
    cases hbefore

/-- The request is complete: `OnRequestReceived` of a handler that is in. -/
theorem completeRequest_gated {s : Sys} (h : Gated s.c) (hst : s.c.state = .bodyDone)
    (hok : 0 ≤ s.c.result) : Gated (completeRequest s).c := by
  have hin := h.entered (by rw [hst]; rfl) hok
  have hcallback := invoke_entered (s := s) .onRequestReceived
    (fun cgi => cgi.onRequestReceived.map fun f c => f s.c.toRequest c) h.acted hin
  have hstate : (cgiRequestReceived s).c.state = .bodyDone :=
    (congrArg Request.state (CallFrame.invoke s _ _).request).trans hst
  have hbefore : ∀ {st : HttpState}, st = .bodyDone → st.before = true → False := by
    rintro st rfl hb
    cases hb
  unfold completeRequest
  dsimp only
  split
  · exact ⟨hcallback.1, fun hb => (hbefore hstate hb).elim, fun _ _ => hcallback.2⟩
  · exact ⟨hcallback.1, fun hb => (hbefore hstate hb).elim, fun _ _ => hcallback.2⟩

/-- Every action keeps it. -/
theorem gated_step {s s' : Sys} (h : Gated s.c) (hm : Micro s s') : Gated s'.c := by
  cases hm with
  | environment w net hpcbs => exact h
  | receive p hlive hfit =>
    have hframe : RxFrame s.c (s.c.receivePbuf p.chain) := .receivePbuf ..
    have hlog := Harmless.rx hframe
    obtain ⟨_, _, _, _, _, _, heq, -⟩ := hframe
    rw [heq] at hlog ⊢
    exact h.quiet hlog ⟨rfl, rfl, rfl⟩ ⟨rfl, rfl⟩ id
  | peerClosed => exact h.quiet (.quiet rfl) ⟨rfl, rfl, rfl⟩ ⟨rfl, rfl⟩ id
  | touch t => exact h.quiet (.quiet rfl) ⟨rfl, rfl, rfl⟩ ⟨rfl, rfl⟩ id
  | acknowledged len => exact h.quiet (.quiet rfl) ⟨rfl, rfl, rfl⟩ ⟨rfl, rfl⟩ id
  | dequeue hst =>
    have hframe : RxFrame s.c s.c.dequeue := .dequeue _
    have hlog := Harmless.rx hframe
    obtain ⟨_, _, _, _, _, _, heq, -⟩ := hframe
    rw [heq] at hlog ⊢
    exact h.quiet hlog ⟨rfl, rfl, rfl⟩ ⟨rfl, rfl⟩ id
  | startRequest hst hlen =>
    have hchosen := h.chosen (by rw [hst]; rfl)
    refine ⟨h.acted, fun _ => hchosen.same rfl rfl rfl rfl, ?_⟩
    intro hadmits
    cases hadmits
  | parseHeader hst hlen =>
    have hchosen := chosen_parseHeader (h.chosen (by rw [hst]; rfl)) s.c.requestLength
    have hlog := Harmless.parse (ParseFrame.parseHeader s s.c.requestLength)
    have hstate := parseHeader_state s s.c.requestLength (by omega)
    refine ⟨hlog.acted h.acted, fun _ => hchosen, ?_⟩
    intro hadmits
    rw [hstate, hst] at hadmits
    split at hadmits
    · cases hadmits
    · cases hadmits
  | tooLarge hst =>
    exact h.quiet (.quiet rfl) ⟨rfl, rfl, rfl⟩ ⟨rfl, rfl⟩
      fun hbad => absurd hbad (show ¬ (0 : Int) ≤ -500 by decide)
  | headersEnd hst hok => exact headersEnd_gated h hst
  | refuse hst hbad hsending => exact h.leave (.quiet rfl) ⟨rfl, rfl⟩
  | chunkLength hst hok =>
    have hin := h.entered (by rw [hst]; rfl) hok
    unfold chunkLength
    split
    · exact h
    · have hlog : Harmless s (s.note (.chunkLine s.c.toRequest)) := .note s rfl
      rename_i c _
      refine ⟨?_, ?_, ?_⟩
      · exact acted_append (acted_append h.acted (by
          intro a ha cgi cb hcb
          rw [List.mem_singleton.mp ha] at hcb
          cases hcb)) (by
          intro a ha cgi cb hcb
          rw [List.mem_singleton.mp ha] at hcb
          cases hcb)
      · intro hbefore
        cases hbefore
      · intro _ _ cgi hcgi
        obtain ⟨a, ha, hlets⟩ := hin cgi hcgi
        refine ⟨a, ?_, hlets⟩
        exact mem_current_append rfl (mem_current_append rfl ha)
  | content size hst hok =>
    refine offerContent_gated h size ?_ hok
    rcases hst with hst | ⟨hst, -⟩
    · rw [hst]
      rfl
    · rw [hst]
      rfl
  | complete hst hok => exact completeRequest_gated h hst hok
  | sendRemaining hst hres hleft =>
    have hlog := Harmless.sendRemaining s
    unfold sendRemaining at hlog ⊢
    dsimp only at hlog ⊢
    obtain ⟨_, _, _, _, _, _, hsent, -⟩ := SendFrame.sendBuffered s
    split
    · rename_i hgood
      rw [if_pos hgood] at hlog
      rw [hsent] at hlog ⊢
      exact h.quiet hlog ⟨rfl, rfl, rfl⟩ ⟨rfl, rfl⟩ id
    · rename_i hbad
      rw [if_neg hbad] at hlog
      exact h.leave hlog ⟨rfl, rfl⟩
  | startResponse hst hres hfirst =>
    refine h.leave (.startResponse s) ?_
    rcases startResponse_state s with hstate | hstate | hstate
    · rw [hstate]
      exact ⟨rfl, rfl⟩
    · rw [hstate]
      exact ⟨rfl, rfl⟩
    · rw [hstate]
      exact ⟨rfl, rfl⟩
  | headerAcked hst hres hsent =>
    unfold headerAcked
    split
    · exact h.leave ((Harmless.note s rfl).trans (.quiet rfl)) ⟨rfl, rfl⟩
    · exact h.leave (.quiet rfl) ⟨rfl, rfl⟩
  | sendBody caller hst hres hsent hstage =>
    refine h.leave (.sendBody s caller) ?_
    rcases sendBody_state caller hst with hstate | hstate
    · rw [hstate]
      exact ⟨rfl, rfl⟩
    · rw [hstate]
      exact ⟨rfl, rfl⟩
  | requestEnd hst =>
    unfold requestEnd
    split
    · exact closeHttpContext_gated h.acted
    · split
      · obtain ⟨_, _, heq, -⟩ := resetHttpContext_spec (s.note (.reset s.c.toRequest s.c.toResponse))
        rw [heq]
        refine gated_none (acted_append_one h.acted ?_) (List.length_replicate ..) rfl
        intro cgi cb ha
        cases ha
      · exact closeHttpContext_gated h.acted
  | peerGone hst hpeer =>
    exact h.quiet (.quiet rfl) ⟨rfl, rfl, rfl⟩ ⟨rfl, rfl⟩
      fun hbad => absurd hbad (show ¬ (0 : Int) ≤ -500 by decide)
  | close => exact closeHttpContext_gated h.acted
  | free hgone => exact freeHttpContext_gated h.acted
  | outOfFuel => exact h.quiet (.quiet rfl) ⟨rfl, rfl, rfl⟩ ⟨rfl, rfl⟩ id

theorem SlotReach.gated {c : RequestContext} (h : SlotReach c) : Gated c := by
  refine h.always (P := Gated) ?_ ?_ ?_
  · exact gated_none acted_nil (List.length_replicate ..) rfl
  · intro s pcb ipRemote
    obtain ⟨_, _, _, heq⟩ := acceptContext_spec s pcb ipRemote
    rw [heq]
    exact gated_none acted_nil (List.length_replicate ..) rfl
  · intro s s' _ hi hm
    exact gated_step hi hm

/-- **In every run of the server a callback that opens files, takes content or changes the
device is made only for a request that was let in: with a session of the client's address, or,
for a page that asks for none, without.** -/
theorem callbacks_let_in {sv : Server} (h : sv.Reachable) {c : RequestContext} (hc : c ∈ sv.slots) :
    Acted c.log :=
  (h.slot hc).gated.acted

/-- The login page, and behind it an upload without a session. -/
def loginAndUpload : List (Answers × Event) :=
  [(openNet, .accept 0x0A000001),
   (openNet, receiveText 0 "GET /auth/login.html HTTP/1.1\r\nConnection: keep-alive\r\n\r\n"),
   (openNet, .sent 0 200),
   (openNet, receiveText 0 "POST /api/upload.cgi HTTP/1.1\r\nContent-Length: 3\r\n\r\nabc")]

/-- The handler of an acting callback. -/
def actingHandler : Act → Option Cgi
  | .callback cgi cb => if cb.acts then some cgi else none
  | _ => none

/-- Only the login page has acted. -/
theorem callbacks_let_in_loginPage :
    ((((Server.boot plainWorld).run loginAndUpload).slot 0).log.filterMap actingHandler
        = [.auth, .auth]) ∧
      Acted (((Server.boot plainWorld).run loginAndUpload).slot 0).log := by
  have hrun : (Server.boot plainWorld).RunLegal loginAndUpload ∧
      0 < ((Server.boot plainWorld).run loginAndUpload).slots.length ∧
      (((Server.boot plainWorld).run loginAndUpload).slot 0).log.filterMap actingHandler
        = [.auth, .auth] := by
    decide +kernel
  exact ⟨hrun.2.2, callbacks_let_in ((Server.Reachable.boot plainWorld).run hrun.1)
    (Server.slot_mem hrun.2.1)⟩

end Httpd
