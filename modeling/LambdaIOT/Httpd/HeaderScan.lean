import LambdaIOT.Lib.Scanner
import LambdaIOT.Httpd.Logged

/-!
# The header section as a scan of the stream

`HttpRequestProc` finds the lines of a header section in a window of `MAX_REQ_BUF_SIZE`
bytes, and drops half of a window without a line. `headerScanner` does the same on the
stream itself: its state is what the lines have said so far (`HeaderData`), and a step takes
a line, or half a window.

A line is cut in place, so what its fields are read from goes on behind its NUL. Two of the
fields may be read from there (`contained` says that they are not); the others cannot.
-/

namespace Httpd

open CMem

/-! ## What lies behind a line -/

section Behind

variable (line t t' : Bytes)

/-- A C string does not go on behind a NUL. -/
theorem cstr_behind {k : Nat} (hk : k ≤ line.length) :
    cstr ((line ++ 0 :: t).drop k) = cstr ((line ++ 0 :: t').drop k) := by
  rw [List.drop_append_of_le_length hk, List.drop_append_of_le_length hk]
  generalize line.drop k = l
  induction l with
  | nil => rfl
  | cons b l ih =>
    unfold cstr at ih ⊢
    rw [List.cons_append, List.cons_append, List.takeWhile_cons, List.takeWhile_cons, ih]

theorem cstr_line : cstr (line ++ 0 :: t) = cstr (line ++ 0 :: t') :=
  cstr_behind line t t' (Nat.zero_le _)

theorem hasPrefix_line (lit : Bytes) :
    hasPrefix (line ++ 0 :: t) lit = hasPrefix (line ++ 0 :: t') lit := by
  unfold hasPrefix strnicmp
  rw [cstr_line line t t']

theorem atol_behind {k : Nat} (hk : k ≤ line.length) :
    atol ((line ++ 0 :: t).drop k) = atol ((line ++ 0 :: t').drop k) := by
  unfold atol
  rw [cstr_behind line t t' hk]

theorem strstr_behind {k : Nat} (hk : k ≤ line.length) (needle : Bytes) :
    strstr ((line ++ 0 :: t).drop k) needle = strstr ((line ++ 0 :: t').drop k) needle := by
  unfold strstr
  rw [cstr_behind line t t' hk]

theorem mentions_behind {k : Nat} (hk : k ≤ line.length) (a b : Bytes) :
    mentions ((line ++ 0 :: t).drop k) a b = mentions ((line ++ 0 :: t').drop k) a b := by
  unfold mentions
  rw [strstr_behind line t t' hk, strstr_behind line t t' hk]

theorem strnicmp_behind {k : Nat} (hk : k ≤ line.length) (name : Bytes) (n : Nat) :
    strnicmp ((line ++ 0 :: t).drop k) name n = strnicmp ((line ++ 0 :: t').drop k) name n := by
  unfold strnicmp
  rw [cstr_behind line t t' hk]

theorem take_line : (line ++ 0 :: t).take line.length = line := List.take_left' rfl

/-- A byte of the line, or its NUL. -/
theorem at'_behind {k : Nat} (hk : k ≤ line.length) :
    at' (line ++ 0 :: t) k = at' (line ++ 0 :: t') k := by
  unfold at'
  rw [List.getD_eq_getElem?_getD, List.getD_eq_getElem?_getD]
  rcases Nat.lt_or_eq_of_le hk with hlt | rfl
  · rw [List.getElem?_append_left hlt, List.getElem?_append_left hlt]
  · rw [List.getElem?_append_right (le_refl _), List.getElem?_append_right (le_refl _),
      Nat.sub_self]
    rfl

/-- A text without a NUL is found in front of the NUL or not at all. -/
theorem isPrefixOf_line {lit : Bytes} (hlit : NoNul lit) :
    lit.isPrefixOf (line ++ 0 :: t) = lit.isPrefixOf (line ++ 0 :: t') := by
  induction lit generalizing line with
  | nil => rfl
  | cons a lit ih =>
    cases line with
    | nil =>
      have ha : (a == 0) = false := by simpa using hlit a (List.mem_cons_self ..)
      rw [List.nil_append, List.nil_append, List.isPrefixOf_cons_cons, List.isPrefixOf_cons_cons, ha]
      rfl
    | cons b line =>
      rw [List.cons_append, List.cons_append, List.isPrefixOf_cons_cons, List.isPrefixOf_cons_cons,
        ih line fun c hc => hlit c (List.mem_cons_of_mem _ hc)]

/-- A text without a NUL that is found is part of the line. -/
theorem isPrefixOf_length {lit : Bytes} (hlit : NoNul lit)
    (h : lit.isPrefixOf (line ++ 0 :: t) = true) : lit.length ≤ line.length := by
  induction lit generalizing line with
  | nil => exact Nat.zero_le _
  | cons a lit ih =>
    cases line with
    | nil =>
      have ha : (a == 0) = false := by simpa using hlit a (List.mem_cons_self ..)
      rw [List.nil_append, List.isPrefixOf_cons_cons, ha] at h
      cases h
    | cons b line =>
      rw [List.cons_append, List.isPrefixOf_cons_cons, Bool.and_eq_true] at h
      exact Nat.succ_le_succ (ih line (fun c hc => hlit c (List.mem_cons_of_mem _ hc)) h.2)

end Behind

/-- `Strnicmp` finds the whole text. -/
theorem strnicmpLoop_length {n : Nat} {a b : Bytes} (hn : n ≤ b.length) (hb : NoNul b)
    (h : strnicmpLoop a b n = 0) : n ≤ a.length := by
  induction n generalizing a b with
  | zero => exact Nat.zero_le _
  | succ n ih =>
    cases b with
    | nil => exact absurd hn (Nat.not_succ_le_zero n)
    | cons y b =>
      cases a with
      | nil => exact absurd (show (-1 : Int) = 0 from h) (by decide)
      | cons x a =>
        rw [strnicmpLoop] at h
        by_cases hsame : ((toUpper x).toNat : Int) - (toUpper y).toNat = 0
        · rw [if_neg (by simpa using hsame)] at h
          exact Nat.succ_le_succ (ih (Nat.le_of_succ_le_succ hn)
            (fun c hc => hb c (List.mem_cons_of_mem _ hc)) h)
        · rw [if_pos (by simpa using hsame)] at h
          split at h
          · exact absurd h (by decide)
          · exact absurd h (by decide)

/-- A header name is part of the line. -/
theorem hasPrefix_length {line t lit : Bytes} (hlit : NoNul lit)
    (h : hasPrefix (line ++ 0 :: t) lit = true) : lit.length ≤ line.length := by
  unfold hasPrefix strnicmp at h
  rw [cstr_eq_self hlit] at h
  have hlen := strnicmpLoop_length (le_refl lit.length) hlit (by simpa using h)
  have hcut : (cstr (line ++ 0 :: t)).length ≤ line.length :=
    strlen_le_of_nul (k := line.length) (by
      rw [List.getElem?_append_right (le_refl _), Nat.sub_self]
      rfl)
  exact hlen.trans hcut

/-! ## What a header section says -/

/-- The fields that are read from within the lines, and the lines that are handed to
`CGI_HeaderReceived`. -/
structure HeaderFields where
  requestMethod : Method
  ver : Bytes
  requestPath : Bytes
  posQuestion : Int
  handler : Option Cgi
  contentLength : Int
  keepalive : Bool
  chunked : Bool
  expect00 : Bool
  token : Bytes
  lines : List Bytes
  deriving DecidableEq

/-- All fields: the date and the range too, which may be read from behind a line. -/
structure HeaderData extends HeaderFields where
  ifModified : Int
  rangeFrom : Int
  rangeTo : Int
  deriving DecidableEq

namespace HeaderData

/-- What the two parts of a context hold. -/
def ofParts (h : Request) (r : Response) (lines : List Bytes) : HeaderData where
  requestMethod := h.requestMethod
  ver := h.ver
  requestPath := h.requestPath
  posQuestion := h.posQuestion
  handler := h.handler
  contentLength := h.contentLength
  keepalive := h.keepalive
  chunked := h.chunked
  expect00 := h.expect00
  token := r.token
  lines := lines
  ifModified := h.ifModified
  rangeFrom := h.rangeFrom
  rangeTo := r.rangeTo

/-- What a request line says, unless its method is unknown. -/
def requestLine (f : HeaderData) (line : Bytes) : Option HeaderData :=
  (parseMethod (line ++ [0])).map fun m =>
    let h := { setupContext.toRequest with ver := f.ver, requestPath := f.requestPath }
    let parsed := (requestLineRequest h (line ++ [0]) line.length m.1 m.2).1
    { f with
      requestMethod := m.1
      ver := parsed.ver
      requestPath := parsed.requestPath
      posQuestion := parsed.posQuestion
      handler := Cgi.find parsed.requestPath }

/-- What a header line says. -/
def headerLine (f : HeaderData) (line : Bytes) : HeaderData :=
  let tail := line ++ [0]
  if hasPrefix tail (ascii "Content-Length:") then
    { f with contentLength := atol (tail.drop 15) }
  else if hasPrefix tail (ascii "Connection:") then
    { f with keepalive := mentions (tail.drop 11) (ascii "keep-alive") (ascii "Keep-Alive") }
  else if hasPrefix tail (ascii "Transfer-Encoding:") then
    { f with chunked := mentions (tail.drop 18) (ascii "chunked") (ascii "Chunked") }
  else if hasPrefix tail (ascii "Expect:") then
    { f with expect00 := mentions (tail.drop 7) (ascii "100-continue") (ascii "100-Continue") }
  else if hasPrefix tail (ascii "If-Modified-Since:") then
    { f with ifModified := parseHttpDate (tail.drop 19) }
  else if hasPrefix tail (ascii "Range:") then
    { f with rangeFrom := (parseRange tail).1, rangeTo := (parseRange tail).2 }
  else if hasPrefix tail (ascii "X-Auth-Token:") || hasPrefix tail (ascii "Cookie:") then
    { f with token := tokenValue line }
  else { f with lines := f.lines ++ [cstr tail] }

end HeaderData

/-- The date reaches to its last column, and the range begins within the line: neither is
read from behind it. -/
def contained (line : Bytes) : Bool :=
  let tail := line ++ [0]
  if hasPrefix tail (ascii "If-Modified-Since:") then decide (42 ≤ line.length)
  else if hasPrefix tail (ascii "Range:") then
    match strstr (tail.drop 6) (ascii "bytes=") with
    | none => true
    | some p => decide (6 + p + 7 ≤ line.length)
  else true

/-! ## A line in the buffer says what it says alone -/

/-- A context holds what `f` says; date and range only if `exact`. -/
structure Holds (c : RequestContext) (lines : List Bytes) (f : HeaderData) (exact : Bool) : Prop where
  fields : (HeaderData.ofParts c.toRequest c.toResponse lines).toHeaderFields = f.toHeaderFields
  extra : exact = true →
    c.ifModified = f.ifModified ∧ c.rangeFrom = f.rangeFrom ∧ c.rangeTo = f.rangeTo

theorem Holds.all {c : RequestContext} {lines : List Bytes} {f : HeaderData}
    (h : Holds c lines f true) : HeaderData.ofParts c.toRequest c.toResponse lines = f := by
  obtain ⟨hfields, hextra⟩ := h
  obtain ⟨hdate, hfrom, hto⟩ := hextra rfl
  cases f
  cases hfields
  cases hdate
  cases hfrom
  cases hto
  rfl

theorem parseHttpDate_behind (line t t' : Bytes) (h : 42 ≤ line.length) :
    parseHttpDate ((line ++ 0 :: t).drop 19) = parseHttpDate ((line ++ 0 :: t').drop 19) := by
  unfold parseHttpDate
  simp only [List.drop_drop]
  rw [atol_behind line t t' (show 19 + 12 ≤ line.length by omega),
    atol_behind line t t' (show 19 + 5 ≤ line.length by omega),
    atol_behind line t t' (show 19 + 17 ≤ line.length by omega),
    atol_behind line t t' (show 19 + 20 ≤ line.length by omega),
    atol_behind line t t' (show 19 + 23 ≤ line.length by omega)]
  simp only [strnicmp_behind line t t' (show 19 + 8 ≤ line.length by omega)]

theorem strlen_line (line t : Bytes) : strlen (line ++ 0 :: t) ≤ line.length :=
  strlen_le_of_nul (by
    rw [List.getElem?_append_right (le_refl _), Nat.sub_self]
    rfl)

theorem parseRange_behind (line t t' : Bytes) (h6 : 6 ≤ line.length)
    (h : ∀ p, strstr ((line ++ 0 :: t').drop 6) (ascii "bytes=") = some p →
      6 + p + 7 ≤ line.length) :
    parseRange (line ++ 0 :: t) = parseRange (line ++ 0 :: t') := by
  unfold parseRange
  refine congrArg (fun range : Int × Int => if range.1 < range.2 then range else (0, 0)) ?_
  rw [strstr_behind line t t' h6]
  cases hp : strstr ((line ++ 0 :: t').drop 6) (ascii "bytes=") with
  | none => rfl
  | some p =>
    have hin := h p hp
    dsimp only
    rw [strstr_behind line t t' hin, atol_behind line t t' hin]
    cases hq : strstr ((line ++ 0 :: t').drop (6 + p + 7)) (ascii "-") with
    | none => rfl
    | some q =>
      have hqle : 6 + p + 7 + (q + 1) ≤ line.length := by
        have hfound := findSub_le hq
        have hdash : (ascii "-").length = 1 := rfl
        have hcut : (cstr ((line ++ 0 :: t').drop (6 + p + 7))).length ≤
            line.length - (6 + p + 7) := by
          rw [List.drop_append_of_le_length hin, ← List.length_drop]
          exact strlen_line ..
        omega
      have hbyte : at' ((line ++ 0 :: t).drop (6 + p + 7)) (q + 1) =
          at' ((line ++ 0 :: t').drop (6 + p + 7)) (q + 1) := by
        unfold at'
        rw [List.getD_eq_getElem?_getD, List.getD_eq_getElem?_getD, List.getElem?_drop,
          List.getElem?_drop]
        have hsame := at'_behind line t t' hqle
        unfold at' at hsame
        rwa [List.getD_eq_getElem?_getD, List.getD_eq_getElem?_getD] at hsame
      dsimp only
      rw [hbyte, List.drop_drop, List.drop_drop, atol_behind line t t' hqle]

/-- The lines that were handed to `CGI_HeaderReceived`. -/
def headerLines (log : List Act) : List Bytes :=
  log.filterMap fun
    | .headerLine line => some line
    | _ => none

theorem headerLines_append (l m : List Act) :
    headerLines (l ++ m) = headerLines l ++ headerLines m := List.filterMap_append ..

theorem headerLines_callbacks {l : List Act} (h : ∀ a ∈ l, a.isCallback) : headerLines l = [] := by
  refine List.filterMap_eq_nil_iff.mpr fun a ha => ?_
  have hcall := h a ha
  cases a <;> first | rfl | cases hcall

/-- A line that logs nothing. -/
theorem holds_quiet {s s' : Sys} {lines : List Bytes} {g : HeaderData} {exact : Bool}
    (hlog : s'.c.log = s.c.log) (h : Holds s'.c lines g exact) :
    ∃ l, s'.c.log = s.c.log ++ l ∧ Holds s'.c (lines ++ headerLines l) g exact := by
  refine ⟨[], by rw [hlog, List.append_nil], ?_⟩
  rw [show headerLines [] = [] from rfl, List.append_nil]
  exact h

theorem putApp_kept (r : Response) (off : Int) (bs : Bytes) :
    (r.putApp off bs).token = r.token ∧ (r.putApp off bs).rangeTo = r.rangeTo ∧
      (r.putApp off bs).result = r.result := ⟨rfl, rfl, rfl⟩

theorem uploadOnHeaderReceived_kept (c : Call) (line : Bytes) :
    (uploadOnHeaderReceived c line).r.token = c.r.token ∧
      (uploadOnHeaderReceived c line).r.rangeTo = c.r.rangeTo ∧
      (uploadOnHeaderReceived c line).r.result = c.r.result := by
  unfold uploadOnHeaderReceived
  split
  · exact putApp_kept ..
  · exact ⟨rfl, rfl, rfl⟩

theorem onHeaderReceived_kept_fields {cgi : Cgi} {f : Call → Bytes → Call}
    (hf : cgi.onHeaderReceived = some f) (c : Call) (line : Bytes) :
    (f c line).r.token = c.r.token ∧ (f c line).r.rangeTo = c.r.rangeTo ∧
      (f c line).r.result = c.r.result := by
  cases cgi with
  | upload =>
    cases hf
    exact uploadOnHeaderReceived_kept ..
  | _ => cases hf

theorem cgiHeaderReceived_result (s : Sys) (line : Bytes) :
    (cgiHeaderReceived s line).c.result = s.c.result := by
  unfold cgiHeaderReceived Sys.invoke
  split
  · rfl
  · split
    · rfl
    · rename_i g hg
      obtain ⟨f, hf, rfl⟩ := Option.map_eq_some_iff.mp hg
      exact (onHeaderReceived_kept_fields hf s.call line).2.2

theorem cgiHeaderReceived_parts (s : Sys) (line : Bytes) (lines : List Bytes) :
    HeaderData.ofParts (cgiHeaderReceived s line).c.toRequest
        (cgiHeaderReceived s line).c.toResponse lines =
      HeaderData.ofParts s.c.toRequest s.c.toResponse lines ∧
    ∃ l, (cgiHeaderReceived s line).c.log = s.c.log ++ l ∧ ∀ a ∈ l, a.isCallback := by
  unfold cgiHeaderReceived Sys.invoke
  split
  · exact ⟨rfl, [], (List.append_nil _).symm, fun _ h => nomatch h⟩
  · rename_i cgi hcgi
    split
    · exact ⟨rfl, [], (List.append_nil _).symm, fun _ h => nomatch h⟩
    · rename_i g hg
      refine ⟨?_, [.callback cgi .onHeaderReceived], rfl, fun a ha => ?_⟩
      · obtain ⟨f, hf, rfl⟩ := Option.map_eq_some_iff.mp hg
        obtain ⟨htoken, hto, -⟩ := onHeaderReceived_kept_fields hf s.call line
        show HeaderData.ofParts s.c.toRequest (f s.call line).r lines = _
        unfold HeaderData.ofParts
        rw [htoken, hto]
        rfl
      · rw [List.mem_singleton.mp ha]
        rfl

/-- A header line in the buffer sets the fields that it sets alone. -/
theorem headerLine_holds {s : Sys} {lines : List Bytes} {f : HeaderData} {exact : Bool}
    (h : Holds s.c lines f exact) (line t : Bytes) :
    ∃ l, (headerLine s (line ++ 0 :: t) line.length).c.log = s.c.log ++ l ∧
      Holds (headerLine s (line ++ 0 :: t) line.length).c (lines ++ headerLines l)
        (f.headerLine line) (exact && contained line) := by
  obtain ⟨hfields, hextra⟩ := h
  cases f
  cases hfields
  unfold headerLine HeaderData.headerLine contained
  dsimp only
  rw [hasPrefix_line line t [] (ascii "Content-Length:"),
    hasPrefix_line line t [] (ascii "Connection:"),
    hasPrefix_line line t [] (ascii "Transfer-Encoding:"),
    hasPrefix_line line t [] (ascii "Expect:"),
    hasPrefix_line line t [] (ascii "If-Modified-Since:"),
    hasPrefix_line line t [] (ascii "Range:"),
    hasPrefix_line line t [] (ascii "X-Auth-Token:"),
    hasPrefix_line line t [] (ascii "Cookie:")]
  have hboth : ∀ {a b : Bool}, (a && b) = true → a = true ∧ b = true := fun hab => by
    simpa using hab
  by_cases h1 : hasPrefix (line ++ [0]) (ascii "Content-Length:")
  · have hin : 15 ≤ line.length := hasPrefix_length (t := []) (by decide) h1
    rw [if_pos h1, if_pos h1, atol_behind line t [] hin]
    exact holds_quiet rfl ⟨rfl, fun hx => hextra (hboth hx).1⟩
  rw [if_neg h1, if_neg h1]
  by_cases h2 : hasPrefix (line ++ [0]) (ascii "Connection:")
  · have hin : 11 ≤ line.length := hasPrefix_length (t := []) (by decide) h2
    rw [if_pos h2, if_pos h2, mentions_behind line t [] hin]
    exact holds_quiet rfl ⟨rfl, fun hx => hextra (hboth hx).1⟩
  rw [if_neg h2, if_neg h2]
  by_cases h3 : hasPrefix (line ++ [0]) (ascii "Transfer-Encoding:")
  · have hin : 18 ≤ line.length := hasPrefix_length (t := []) (by decide) h3
    rw [if_pos h3, if_pos h3, mentions_behind line t [] hin]
    exact holds_quiet rfl ⟨rfl, fun hx => hextra (hboth hx).1⟩
  rw [if_neg h3, if_neg h3]
  by_cases h4 : hasPrefix (line ++ [0]) (ascii "Expect:")
  · have hin : 7 ≤ line.length := hasPrefix_length (t := []) (by decide) h4
    rw [if_pos h4, if_pos h4, mentions_behind line t [] hin]
    exact holds_quiet rfl ⟨rfl, fun hx => hextra (hboth hx).1⟩
  rw [if_neg h4, if_neg h4]
  by_cases h5 : hasPrefix (line ++ [0]) (ascii "If-Modified-Since:")
  · rw [if_pos h5, if_pos h5, if_pos h5]
    refine holds_quiet rfl ⟨rfl, fun hx => ?_⟩
    have hin : 42 ≤ line.length := by simpa using (hboth hx).2
    exact ⟨parseHttpDate_behind line t [] hin, (hextra (hboth hx).1).2⟩
  rw [if_neg h5, if_neg h5, if_neg h5]
  by_cases h6 : hasPrefix (line ++ [0]) (ascii "Range:")
  · have hin : 6 ≤ line.length := hasPrefix_length (t := []) (by decide) h6
    rw [if_pos h6, if_pos h6, if_pos h6]
    refine holds_quiet rfl ⟨rfl, fun hx => ?_⟩
    have hrange : ∀ p, strstr ((line ++ [0]).drop 6) (ascii "bytes=") = some p →
        6 + p + 7 ≤ line.length := by
      intro p hp
      have hin' := (hboth hx).2
      rw [hp] at hin'
      simpa using hin'
    have hsame := parseRange_behind line t [] hin hrange
    exact ⟨(hextra (hboth hx).1).1, congrArg Prod.fst hsame, congrArg Prod.snd hsame⟩
  rw [if_neg h6, if_neg h6, if_neg h6]
  by_cases h7 : (hasPrefix (line ++ [0]) (ascii "X-Auth-Token:") ||
      hasPrefix (line ++ [0]) (ascii "Cookie:")) = true
  · rw [if_pos h7, if_pos h7, take_line]
    exact holds_quiet rfl ⟨rfl, fun hx => hextra (hboth hx).1⟩
  rw [if_neg h7, if_neg h7]
  obtain ⟨hparts, l, hlog, hcalls⟩ := cgiHeaderReceived_parts
    (s.note (.headerLine (cstr (line ++ 0 :: t)))) (line ++ 0 :: t) (lines ++ [cstr (line ++ [0])])
  refine ⟨.headerLine (cstr (line ++ 0 :: t)) :: l, ?_, ?_⟩
  · rw [hlog]
    exact List.append_assoc ..
  · have hlines : headerLines (.headerLine (cstr (line ++ 0 :: t)) :: l) = [cstr (line ++ [0])] := by
      show cstr (line ++ 0 :: t) :: headerLines l = _
      rw [headerLines_callbacks hcalls, cstr_line line t []]
    rw [hlines]
    refine ⟨(congrArg HeaderData.toHeaderFields hparts).trans rfl, fun hx => ?_⟩
    obtain ⟨hdate, hfrom, hto⟩ := hextra (hboth hx).1
    exact ⟨(congrArg HeaderData.ifModified hparts).trans hdate,
      (congrArg HeaderData.rangeFrom hparts).trans hfrom,
      (congrArg HeaderData.rangeTo hparts).trans hto⟩

/-! ## A request line in the buffer says what it says alone -/

theorem parseMethod_line (line t t' : Bytes) :
    parseMethod (line ++ 0 :: t) = parseMethod (line ++ 0 :: t') := by
  unfold parseMethod
  rw [isPrefixOf_line line t t' (by decide), isPrefixOf_line line t t' (by decide)]

theorem parseMethod_some {line t : Bytes} {m : Method × Nat} (h : parseMethod (line ++ 0 :: t) = some m) :
    m.1 ≠ .none ∧ m.2 ≤ line.length := by
  unfold parseMethod at h
  have hget : (ascii "GET ").length = 4 := rfl
  have hpost : (ascii "POST ").length = 5 := rfl
  split at h
  · rename_i hp
    have hlen := isPrefixOf_length line t (by decide) hp
    cases h
    exact ⟨by decide, hget ▸ hlen⟩
  · split at h
    · rename_i hp
      have hlen := isPrefixOf_length line t (by decide) hp
      cases h
      exact ⟨by decide, hpost ▸ hlen⟩
    · cases h

/-- A read that reaches the NUL at most. -/
theorem load_behind (line t t' : Bytes) {k n : Nat} (hk : k ≤ line.length)
    (h : k + n ≤ line.length + 1) : load (line ++ 0 :: t) k n = load (line ++ 0 :: t') k n := by
  unfold load
  rw [List.drop_append_of_le_length hk, List.drop_append_of_le_length hk]
  have hlen : n ≤ (line.drop k ++ [0]).length := by
    rw [List.length_append, List.length_drop, List.length_singleton]
    omega
  rw [show line.drop k ++ 0 :: t = line.drop k ++ [0] ++ t by rw [List.append_assoc]; rfl,
    show line.drop k ++ 0 :: t' = line.drop k ++ [0] ++ t' by rw [List.append_assoc]; rfl,
    List.take_append_of_le_length hlen, List.take_append_of_le_length hlen]

/-- The path of a request line is scanned within the line. -/
theorem scanPath_behind (line t t' : Bytes) {n k : Nat} (h : k + n ≤ line.length) (path : Bytes) :
    scanPath n ((line ++ 0 :: t).drop k) path = scanPath n ((line ++ 0 :: t').drop k) path := by
  induction n generalizing k path with
  | zero => rfl
  | succ n ih =>
    have hk : k ≤ line.length := by omega
    have hfound : (ascii " HTTP/1.").isPrefixOf ((line ++ 0 :: t).drop k) =
        (ascii " HTTP/1.").isPrefixOf ((line ++ 0 :: t').drop k) := by
      rw [List.drop_append_of_le_length hk, List.drop_append_of_le_length hk]
      exact isPrefixOf_line _ t t' (by decide)
    have hbyte : at' ((line ++ 0 :: t).drop k) 0 = at' ((line ++ 0 :: t').drop k) 0 := by
      have hsame := at'_behind line t t' hk
      unfold at' at hsame ⊢
      rwa [List.getD_eq_getElem?_getD, List.getD_eq_getElem?_getD, List.getElem?_drop,
        List.getElem?_drop, Nat.add_zero, ← List.getD_eq_getElem?_getD,
        ← List.getD_eq_getElem?_getD]
    rw [scanPath, scanPath, hfound, hbyte, List.drop_drop, List.drop_drop]
    by_cases hver : (ascii " HTTP/1.").isPrefixOf ((line ++ 0 :: t').drop k) = true
    · rw [if_pos hver, if_pos hver]
      have h8 : (ascii " HTTP/1.").length = 8 := rfl
      rw [List.drop_append_of_le_length hk] at hver
      have hlen := isPrefixOf_length _ t' (by decide) hver
      rw [List.length_drop] at hlen
      have hload := load_behind line t t' (show k + 6 ≤ line.length by omega)
        (show k + 6 + 3 ≤ line.length + 1 by omega)
      unfold load at hload ⊢
      rw [List.drop_drop, List.drop_drop, hload]
    · rw [if_neg hver, if_neg hver]
      dsimp only
      exact ih (k := k + 1) (by omega) _

/-- A request line reads the path array and the version of the request, and nothing else. -/
theorem requestLineRequest_eq (h : Request) (tail : Bytes) (n : Nat) (method : Method)
    (iSkip : Nat) :
    (requestLineRequest h tail n method iSkip).1 =
      let parsed := (requestLineRequest { setupContext.toRequest with
        ver := h.ver, requestPath := h.requestPath } tail n method iSkip).1
      { h with
        requestMethod := method
        ver := parsed.ver
        requestPath := parsed.requestPath
        posQuestion := parsed.posQuestion
        checkAlive := parsed.checkAlive } := by
  unfold requestLineRequest
  dsimp only

/-- An unknown method is an error, and the request stays without a method. -/
theorem requestLine_refused {s : Sys} {f : HeaderData} {line : Bytes}
    (h : f.requestLine line = none) (t : Bytes) :
    requestLine s (line ++ 0 :: t) line.length = s.setResult (-500) := by
  have hnone : parseMethod (line ++ [0]) = none := Option.map_eq_none_iff.mp h
  unfold requestLine
  rw [parseMethod_line line t [], hnone]

/-- A request line in the buffer sets the fields that it sets alone. -/
theorem requestLine_holds {s : Sys} {lines : List Bytes} {f g : HeaderData} {exact : Bool}
    (h : Holds s.c lines f exact) {line : Bytes} (hsome : f.requestLine line = some g) (t : Bytes) :
    Holds (requestLine s (line ++ 0 :: t) line.length).c lines g exact ∧
      g.requestMethod ≠ .none ∧
      (requestLine s (line ++ 0 :: t) line.length).c.result = s.c.result ∧
      (requestLine s (line ++ 0 :: t) line.length).c.log = s.c.log ++ [.requestLine line] := by
  obtain ⟨m, hm, rfl⟩ := Option.map_eq_some_iff.mp hsome
  obtain ⟨hmethod, hskip⟩ := parseMethod_some hm
  obtain ⟨hfields, hextra⟩ := h
  cases f
  cases hfields
  have hparsed : requestLineRequest s.c.toRequest (line ++ 0 :: t) line.length m.1 m.2 =
      requestLineRequest s.c.toRequest (line ++ [0]) line.length m.1 m.2 := by
    unfold requestLineRequest
    rw [scanPath_behind line t [] (show m.2 + (line.length - m.2) ≤ line.length by omega)]
  have hline : requestLine s (line ++ 0 :: t) line.length =
      let parsed := requestLineRequest s.c.toRequest (line ++ [0]) line.length m.1 m.2
      let r := { s.c.toResponse with
        mem := store s.c.mem maxSendBufSize (List.replicate maxAppContextSize 0)
        extension := parsed.2 }
      cgiSetCgiHandler (((s.setRequest parsed.1).setResponse
        (r.setResponsePath (cstr parsed.1.requestPath))).note (.requestLine line)) := by
    unfold requestLine
    rw [parseMethod_line line t [], hm]
    dsimp only
    rw [hparsed, take_line]
  rw [hline]
  dsimp only
  rw [requestLineRequest_eq]
  generalize (requestLineRequest { setupContext.toRequest with
    ver := s.c.ver, requestPath := s.c.requestPath } (line ++ [0]) line.length m.1 m.2).1 = parsed
  unfold cgiSetCgiHandler
  dsimp only
  split
  · exact ⟨⟨rfl, hextra⟩, hmethod, rfl, rfl⟩
  · exact ⟨⟨rfl, hextra⟩, hmethod, rfl, rfl⟩

/-! ## The scanner -/

/-- What is decided about a header section. -/
inductive Verdict where
  | pending
  | complete
  | refused
  deriving DecidableEq, Repr

/-- The state of the scan: what the lines have said, the verdict, and whether no line was
read from behind its end. -/
structure HeaderScan where
  data : HeaderData
  verdict : Verdict
  exact : Bool

namespace HeaderScan

/-- A line that is not empty. -/
def line (σ : HeaderScan) (bs : Bytes) : HeaderScan :=
  if σ.data.requestMethod = .none then
    match σ.data.requestLine bs with
    | none => { σ with verdict := .refused }
    | some f => { σ with data := f }
  else { σ with data := σ.data.headerLine bs, exact := σ.exact && contained bs }

/-- The empty line. -/
def emptyLine (σ : HeaderScan) : HeaderScan :=
  { σ with verdict := if σ.data.requestMethod = .none then .refused else .complete }

end HeaderScan

def newline : Bytes := [13, 10]

/-- One step: a line of at most a window, or half a window without a line. -/
def headerStep (σ : HeaderScan) (p : Bytes) : Option (HeaderScan × Nat) :=
  if σ.verdict ≠ .pending then none
  else
    match findSub newline (p.take maxReqBufSize) with
    | some i => some (if i = 0 then σ.emptyLine else σ.line (p.take i), i + 2)
    | none => if maxReqBufSize ≤ p.length then some (σ, maxReqBufSize / 2) else none

theorem headerStep_bounded {σ τ : HeaderScan} {p : Bytes} {n : Nat}
    (h : headerStep σ p = some (τ, n)) : n ≤ p.length := by
  unfold headerStep at h
  split at h
  · cases h
  · split at h
    · rename_i i hi
      obtain ⟨-, rfl⟩ := Prod.mk.inj (Option.some.inj h)
      have hin := findSub_le hi
      rw [List.length_take] at hin
      have hlen : newline.length = 2 := rfl
      omega
    · split at h
      · rename_i hfull
        obtain ⟨-, rfl⟩ := Prod.mk.inj (Option.some.inj h)
        exact (Nat.div_le_self ..).trans hfull
      · cases h

theorem headerStep_stable {σ τ : HeaderScan} {p : Bytes} {n : Nat}
    (h : headerStep σ p = some (τ, n)) (q : Bytes) : headerStep σ (p ++ q) = some (τ, n) := by
  unfold headerStep at h ⊢
  split at h
  · cases h
  · rename_i hpending
    rw [if_neg hpending]
    split at h
    · rename_i i hi
      have hin := findSub_le hi
      have hle : i ≤ p.length := by
        rw [List.length_take] at hin
        omega
      rw [List.take_append, findSub_append hi]
      dsimp only
      rw [List.take_append_of_le_length hle]
      exact h
    · rename_i hnone
      split at h
      · rename_i hfull
        rw [List.take_append_of_le_length hfull, hnone]
        dsimp only
        rw [if_pos (hfull.trans (by rw [List.length_append]; omega))]
        exact h
      · cases h

/-- The scanner of header sections. -/
def headerScanner : Scanner HeaderScan UInt8 where
  step := headerStep
  bounded := headerStep_bounded
  stable := headerStep_stable

/-! ## The loop over the buffer is a run of the scanner -/

theorem at'_drop (p : Bytes) (k j : Nat) : at' (p.drop k) j = at' p (k + j) := by
  unfold at'
  rw [List.getD_eq_getElem?_getD, List.getD_eq_getElem?_getD, List.getElem?_drop]

theorem at'_take (p : Bytes) {n j : Nat} (h : j < n) : at' (p.take n) j = at' p j := by
  unfold at'
  rw [List.getD_eq_getElem?_getD, List.getD_eq_getElem?_getD, List.getElem?_take_of_lt h]

theorem at'_end {p : Bytes} {j : Nat} (h : p.length ≤ j) : at' p j = 0 := by
  unfold at'
  rw [List.getD_eq_getElem?_getD, List.getElem?_eq_none h]
  rfl

theorem isPrefixOf_newline (p : Bytes) (k : Nat) :
    newline.isPrefixOf (p.drop k) = true ↔ at' p k = 13 ∧ at' p (k + 1) = 10 := by
  rw [← Nat.add_zero k, ← at'_drop p k 0, Nat.add_zero, ← at'_drop p k 1]
  generalize p.drop k = q
  cases q with
  | nil => exact iff_of_false (fun h => nomatch h) fun h => absurd h.1 (by decide)
  | cons a q =>
    cases q with
    | nil =>
      refine iff_of_false (fun h => ?_) fun h => absurd (show (0 : UInt8) = 10 from h.2) (by decide)
      rw [newline, List.isPrefixOf_cons_cons, Bool.and_eq_true] at h
      cases h.2
    | cons b q =>
      rw [newline, List.isPrefixOf_cons_cons, List.isPrefixOf_cons_cons, List.isPrefixOf_nil_left,
        Bool.and_true, Bool.and_eq_true, beq_iff_eq, beq_iff_eq]
      exact ⟨fun h => ⟨h.1.symm, h.2.symm⟩, fun h => ⟨h.1.symm, h.2.symm⟩⟩

/-- The buffer from a line on, once the line is cut. -/
theorem drop_store_line {buf : Bytes} {a i : Nat} (ha : a ≤ i) (hi : i < buf.length) :
    (store buf i [0]).drop a = (buf.drop a).take (i - a) ++ 0 :: buf.drop (i + 1) := by
  have hlen : a ≤ (buf.take i).length := by
    rw [List.length_take]
    omega
  rw [store_eq (by rw [List.length_singleton]; omega), List.append_assoc,
    List.drop_append_of_le_length hlen, List.drop_take]
  rfl

/-- How far the loop got in the buffer `m`: what is behind the last line is untouched, and no
line ends in front of index `i`. -/
structure LineProgress (m : Bytes) (i : Nat) (l : LineScan) : Prop where
  length : l.buf.length = m.length
  rest : l.buf.drop l.nLinePos = m.drop l.nLinePos
  pos : l.nLinePos ≤ i ∨ l.nLinePos = i + 1 ∧ at' l.buf i ≠ 13
  none : ∀ j, l.nLinePos ≤ j → j < i → ¬(at' m j = 13 ∧ at' m (j + 1) = 10)

/-- The lines between `s` and `s'` said what `σ` says. -/
abbrev Said (s s' : Sys) (lines : List Bytes) (σ : HeaderScan) : Prop :=
  ∃ l, s'.c.log = s.c.log ++ l ∧ (∀ a ∈ l, a.isLine) ∧
    Holds s'.c (lines ++ headerLines l) σ.data σ.exact

/-- The lines between `s` and `s'` said what `σ` says, and none was refused. -/
structure Scanned (s s' : Sys) (lines : List Bytes) (σ : HeaderScan) : Prop where
  result : s'.c.result = s.c.result
  logged : Said s s' lines σ

theorem Scanned.method {s s' : Sys} {lines : List Bytes} {σ : HeaderScan}
    (h : Scanned s s' lines σ) : s'.c.requestMethod = σ.data.requestMethod := by
  obtain ⟨l, -, -, hholds⟩ := h.logged
  exact congrArg HeaderFields.requestMethod hholds.fields

/-- How the loop over the bytes `p` ends: it waits for more, the section is complete, or it
is refused. -/
inductive LoopEnd (s : Sys) (lines : List Bytes) (σ₀ : HeaderScan) (m p : Bytes) :
    LineScan → Prop where
  | more {l : LineScan} (σ : HeaderScan)
      (hsteps : headerScanner.Steps (σ₀, p) (σ, p.drop l.nLinePos))
      (hpending : σ.verdict = .pending) (hscanned : Scanned s l.s lines σ)
      (hnone : findSub newline (p.drop l.nLinePos) = none) (hnot : l.afterHeader = false)
      (hlen : l.buf.length = m.length) (hrest : l.buf.drop l.nLinePos = m.drop l.nLinePos) :
      LoopEnd s lines σ₀ m p l
  | complete {l : LineScan} (σ : HeaderScan)
      (hsteps : headerScanner.Steps (σ₀, p) (σ, p.drop l.nLinePos))
      (hcomplete : σ.verdict = .complete) (hscanned : Scanned s l.s lines σ)
      (hdone : l.afterHeader = true) (hpos : 0 < l.nLinePos) (hle : l.nLinePos ≤ p.length)
      (hlen : l.buf.length = m.length) (hrest : l.buf.drop l.nLinePos = m.drop l.nLinePos) :
      LoopEnd s lines σ₀ m p l
  | refused {l : LineScan} (σ : HeaderScan) (rest : Bytes)
      (hsteps : headerScanner.Steps (σ₀, p) (σ, rest)) (hrefused : σ.verdict = .refused)
      (hbad : l.s.c.result = -500) (hsaid : Said s l.s lines σ) : LoopEnd s lines σ₀ m p l

theorem lineLoop_stop (k i : Nat) {l : LineScan} (h : l.stop = true) : lineLoop k i l = l := by
  cases k with
  | zero => rfl
  | succ k => rw [lineLoop, if_pos h]

/-- The scanner takes the line that the loop has found. -/
theorem headerStep_line {m : Bytes} {n i a : Nat} {σ : HeaderScan} (hn : n ≤ m.length)
    (hwindow : n ≤ maxReqBufSize) (ha : a ≤ i) (hi : i + 1 < n) (hpending : σ.verdict = .pending)
    (hfound : at' m i = 13 ∧ at' m (i + 1) = 10)
    (hnone : ∀ j, a ≤ j → j < i → ¬(at' m j = 13 ∧ at' m (j + 1) = 10)) :
    headerScanner.Step (σ, (m.take n).drop a)
      (if i = a then σ.emptyLine else σ.line ((m.drop a).take (i - a)), (m.take n).drop (i + 2)) := by
  have hlen : ((m.take n).drop a).length = n - a := by
    rw [List.length_drop, List.length_take, Nat.min_eq_left hn]
  have hbyte : ∀ j, a + j < n → at' ((m.take n).drop a) j = at' m (a + j) := fun j hj => by
    rw [at'_drop, at'_take _ hj]
  have hsub : findSub newline (((m.take n).drop a).take maxReqBufSize) = some (i - a) := by
    rw [List.take_of_length_le (by omega)]
    refine findSub_eq_some ?_ (by omega) fun j hj => ?_
    · rw [isPrefixOf_newline, hbyte _ (by omega), hbyte _ (by omega), Nat.add_sub_cancel' ha,
        show a + (i - a + 1) = i + 1 by omega]
      exact hfound
    · rw [← Bool.not_eq_true, isPrefixOf_newline, hbyte _ (by omega), hbyte _ (by omega)]
      exact hnone (a + j) (by omega) (by omega)
  refine ⟨i - a + 2, ?_, ?_⟩
  · show headerStep σ ((m.take n).drop a) = _
    unfold headerStep
    rw [if_neg (by rw [hpending]; exact fun h => h rfl), hsub]
    have htake : ((m.take n).drop a).take (i - a) = (m.drop a).take (i - a) := by
      rw [List.drop_take, List.take_take, Nat.min_eq_left (by omega)]
    have heq : (i - a = 0) = (i = a) := propext (by omega)
    dsimp only
    rw [htake]
    simp only [heq]
  · show (m.take n).drop (i + 2) = ((m.take n).drop a).drop (i - a + 2)
    rw [List.drop_drop, show a + (i - a + 2) = i + 2 by omega]

/-- Behind the last line there is no other. -/
theorem findSub_rest {m : Bytes} {n a : Nat} (hn : n ≤ m.length)
    (hnone : ∀ j, a ≤ j → j + 1 < n → ¬(at' m j = 13 ∧ at' m (j + 1) = 10)) :
    findSub newline ((m.take n).drop a) = none := by
  refine findSub_eq_none (List.cons_ne_nil _ _) fun j hj => ?_
  rw [List.length_drop, List.length_take, Nat.min_eq_left hn] at hj
  rw [← Bool.not_eq_true, isPrefixOf_newline, at'_drop, at'_drop]
  by_cases hlast : a + (j + 1) < n
  · rw [at'_take _ (by omega), at'_take _ hlast]
    exact hnone (a + j) (by omega) (by omega)
  · rw [at'_end (p := m.take n) (j := a + (j + 1)) (by rw [List.length_take]; omega)]
    exact fun h => absurd h.2 (by decide)

theorem endOfHeaders_scanned {s s' : Sys} {lines : List Bytes} {σ : HeaderScan}
    (h : Scanned s s' lines σ) (hsome : σ.data.requestMethod ≠ .none) :
    Scanned s (endOfHeaders s') lines σ.emptyLine := by
  have hmethod : s'.c.requestMethod ≠ .none := by
    rw [h.method]
    exact hsome
  obtain ⟨hresult, l, hlog, hl, hholds⟩ := h
  unfold endOfHeaders
  dsimp only
  rw [if_neg hmethod]
  exact ⟨hresult, l, hlog, hl, ⟨hholds.fields, hholds.extra⟩⟩

theorem headerLine_result (s : Sys) (tail : Bytes) (n : Nat) :
    (headerLine s tail n).c.result = s.c.result := by
  unfold headerLine
  dsimp only
  repeat' split
  all_goals try rfl
  exact cgiHeaderReceived_result ..

theorem LineFrame.isLine {s s' : Sys} (h : LineFrame s s') {l : List Act}
    (hlog : s'.c.log = s.c.log ++ l) : ∀ a ∈ l, a.isLine := by
  obtain ⟨_, _, _, log, rfl, -, -, hl⟩ := h
  have hsame : log = l := List.append_cancel_left hlog
  rw [← hsame]
  exact hl

/-- A line that is not empty: it is refused, or it says what the scanner takes from it. -/
theorem line_scanned {s : Sys} {lines : List Bytes} {σ : HeaderScan} {l : LineScan} {i : Nat}
    {bs t : Bytes} (hne : i ≠ l.nLinePos)
    (htail : (store l.buf i [0]).drop l.nLinePos = bs ++ 0 :: t) (hlen : i - l.nLinePos = bs.length)
    (hscanned : Scanned s l.s lines σ) :
    ((l.line i).s.c.result = -500 ∧ (l.line i).stop = true ∧ (σ.line bs).verdict = .refused ∧
        Said s (l.line i).s lines (σ.line bs)) ∨
      ∃ s', l.line i = { l with s := s', buf := store l.buf i [0], nLinePos := i + 2 } ∧
        (σ.line bs).verdict = σ.verdict ∧ Scanned s s' lines (σ.line bs) := by
  have hmethod := hscanned.method
  obtain ⟨hresult, log, hlog, hl, hholds⟩ := hscanned
  unfold LineScan.line HeaderScan.line
  dsimp only
  rw [if_neg hne, htail, hlen]
  by_cases hnone : l.s.c.requestMethod = .none
  · rw [if_pos hnone, if_pos (hmethod.symm.trans hnone)]
    cases hparsed : σ.data.requestLine bs with
    | none =>
      have hstill : (l.s.setResult (-500)).c.requestMethod = .none := hnone
      rw [requestLine_refused hparsed t, if_pos hstill]
      exact .inl ⟨rfl, rfl, rfl, log, hlog, hl, ⟨hholds.fields, hholds.extra⟩⟩
    | some f =>
      obtain ⟨hholds', hmethod', hresult', hlog'⟩ := requestLine_holds hholds hparsed t
      have hsome : (requestLine l.s (bs ++ 0 :: t) bs.length).c.requestMethod ≠ .none := by
        rw [show (requestLine l.s (bs ++ 0 :: t) bs.length).c.requestMethod = f.requestMethod from
          congrArg HeaderFields.requestMethod hholds'.fields]
        exact hmethod'
      rw [if_neg hsome]
      refine .inr ⟨_, rfl, rfl, hresult'.trans hresult, log ++ [.requestLine bs], ?_, ?_, ?_⟩
      · rw [hlog', hlog, List.append_assoc]
      · intro a ha
        rcases List.mem_append.mp ha with h | h
        · exact hl a h
        · rw [List.mem_singleton.mp h]
          rfl
      · rw [headerLines_append, show headerLines [.requestLine bs] = [] from rfl, List.append_nil]
        exact hholds'
  · have hsomeσ : ¬σ.data.requestMethod = .none := by
      rw [← hmethod]
      exact hnone
    rw [if_neg hnone, if_neg hsomeσ]
    obtain ⟨log', hlog', hholds'⟩ := headerLine_holds hholds bs t
    have hl' := (LineFrame.headerLine l.s (bs ++ 0 :: t) bs.length).isLine hlog'
    refine .inr ⟨_, rfl, rfl, (headerLine_result ..).trans hresult, log ++ log', ?_, ?_, ?_⟩
    · rw [hlog', hlog, List.append_assoc]
    · intro a ha
      rcases List.mem_append.mp ha with h | h
      · exact hl a h
      · exact hl' a h
    · rw [headerLines_append, ← List.append_assoc]
      exact hholds'

/-- What is behind a later position is untouched too. -/
theorem LineProgress.later {m : Bytes} {i : Nat} {l : LineScan} (h : LineProgress m i l) {a : Nat}
    (ha : l.nLinePos ≤ a) : l.buf.drop a = m.drop a := by
  have hrest := congrArg (List.drop (a - l.nLinePos)) h.rest
  rwa [List.drop_drop, List.drop_drop, Nat.add_sub_cancel' ha] at hrest

theorem LineProgress.byte {m : Bytes} {i : Nat} {l : LineScan} (h : LineProgress m i l) {a : Nat}
    (ha : l.nLinePos ≤ a) : at' l.buf a = at' m a := by
  have hsame := congrArg (fun x => at' x 0) (h.later ha)
  simp only [at'_drop, Nat.add_zero] at hsame
  exact hsame

/-- Behind a line the next one begins. -/
theorem LineProgress.line {m : Bytes} {i : Nat} {l : LineScan} (h : LineProgress m i l)
    (hle : l.nLinePos ≤ i) (hlf : at' l.buf (i + 1) = 10) (s' : Sys) : LineProgress m (i + 1)
      { l with s := s', buf := store l.buf i [0], nLinePos := i + 2 } where
  length := (length_store ..).trans h.length
  rest := by
    show (store l.buf i [0]).drop (i + 2) = m.drop (i + 2)
    rw [drop_store (by rw [List.length_singleton]; omega)]
    exact h.later (by omega)
  pos := by
    refine .inr ⟨rfl, ?_⟩
    show at' (store l.buf i [0]) (i + 1) ≠ 13
    have hcut : (store l.buf i [0]).drop (i + 1) = l.buf.drop (i + 1) := drop_store (le_refl _)
    have hsame := congrArg (fun x => at' x 0) hcut
    simp only [at'_drop, Nat.add_zero] at hsame
    rw [hsame, hlf]
    decide
  none := fun j hj hj' => absurd (show i + 2 ≤ j from hj) (by omega)

/-- No line ends at index `i`. -/
theorem LineProgress.next {m : Bytes} {i : Nat} {l : LineScan} (h : LineProgress m i l)
    (hnot : ¬(at' l.buf i = 13 ∧ at' l.buf (i + 1) = 10)) : LineProgress m (i + 1) l where
  length := h.length
  rest := h.rest
  pos := by
    rcases h.pos with hle | ⟨hle, -⟩
    · exact .inl (Nat.le_succ_of_le hle)
    · exact .inl (le_of_eq hle)
  none := fun j hj hj' => by
    rcases Nat.lt_succ_iff_lt_or_eq.mp hj' with hlt | rfl
    · exact h.none j hj hlt
    · rw [← h.byte hj, ← h.byte (Nat.le_succ_of_le hj)]
      exact hnot

/-- The loop over the buffer is a run of the scanner. -/
theorem lineLoop_end {s : Sys} {lines : List Bytes} {σ₀ : HeaderScan} {m : Bytes} {n : Nat}
    (hn : n ≤ m.length) (hwindow : n ≤ maxReqBufSize) (k i : Nat) (hk : i + k + 1 = n)
    {l : LineScan} {σ : HeaderScan} (hrun : l.stop = false) (hnot : l.afterHeader = false)
    (hprogress : LineProgress m i l)
    (hsteps : headerScanner.Steps (σ₀, m.take n) (σ, (m.take n).drop l.nLinePos))
    (hpending : σ.verdict = .pending) (hscanned : Scanned s l.s lines σ) :
    LoopEnd s lines σ₀ m (m.take n) (lineLoop k i l) := by
  induction k generalizing i l σ with
  | zero =>
    refine .more σ hsteps hpending hscanned (findSub_rest hn fun j hj hjn => ?_) hnot
      hprogress.length hprogress.rest
    exact hprogress.none j hj (by omega)
  | succ k ih =>
    rw [lineLoop, if_neg (by rw [hrun]; decide)]
    by_cases hfound : at' l.buf i = 13 ∧ at' l.buf (i + 1) = 10
    · rw [if_pos hfound]
      have hle : l.nLinePos ≤ i := by
        rcases hprogress.pos with hle | ⟨-, hcr⟩
        · exact hle
        · exact absurd hfound.1 hcr
      have hfound' : at' m i = 13 ∧ at' m (i + 1) = 10 := by
        rw [← hprogress.byte hle, ← hprogress.byte (Nat.le_succ_of_le hle)]
        exact hfound
      have hstep := headerStep_line hn hwindow hle (by omega) hpending hfound' hprogress.none
      by_cases hempty : i = l.nLinePos
      · -- the empty line
        have hline : l.line i = { l with
            s := endOfHeaders l.s, nLinePos := i + 2, afterHeader := true, stop := true } := by
          unfold LineScan.line
          rw [if_pos hempty]
        rw [if_pos hempty] at hstep
        rw [hline, lineLoop_stop _ _ rfl]
        have hmethod := hscanned.method
        by_cases hnone : σ.data.requestMethod = .none
        · obtain ⟨log, hlog, hl, hholds⟩ := hscanned.logged
          refine .refused σ.emptyLine _ (hsteps.tail hstep)
            (by rw [HeaderScan.emptyLine, if_pos hnone]) ?_ ⟨log, ?_, hl, ?_⟩
          all_goals
            show _
            unfold endOfHeaders
            dsimp only
            rw [if_pos (hmethod.trans hnone)]
          · rfl
          · exact hlog
          · exact ⟨hholds.fields, hholds.extra⟩
        · refine .complete σ.emptyLine (hsteps.tail hstep)
            (by rw [HeaderScan.emptyLine, if_neg hnone]) (endOfHeaders_scanned hscanned hnone) rfl
            (Nat.succ_pos _) ?_ hprogress.length (hprogress.later (a := i + 2) (by omega))
          show i + 2 ≤ (m.take n).length
          rw [List.length_take]
          omega
      · -- a line, cut in place
        rw [if_neg hempty] at hstep
        have htail : (store l.buf i [0]).drop l.nLinePos =
            (m.drop l.nLinePos).take (i - l.nLinePos) ++ 0 :: l.buf.drop (i + 1) := by
          rw [drop_store_line hle (by rw [hprogress.length]; omega), hprogress.rest]
        have hlen : i - l.nLinePos = ((m.drop l.nLinePos).take (i - l.nLinePos)).length := by
          rw [List.length_take, List.length_drop]
          omega
        rcases line_scanned hempty htail hlen hscanned with ⟨hbad, hstop, hrefused, hsaid⟩ |
          ⟨s', hline, hverdict, hscanned'⟩
        · rw [lineLoop_stop _ _ hstop]
          exact .refused _ _ (hsteps.tail hstep) hrefused hbad hsaid
        · rw [hline]
          exact ih (i + 1) (by omega) hrun hnot (hprogress.line hle hfound.2 s') (hsteps.tail hstep)
            (hverdict.trans hpending) hscanned'
    · rw [if_neg hfound]
      exact ih (i + 1) (by omega) hrun hnot (hprogress.next hfound) hsteps hpending hscanned

/-- The scan of a buffer with `n` bytes is a run of the scanner over these. -/
theorem parseScan_end (s : Sys) (lines : List Bytes) {σ : HeaderScan} {n : Nat}
    (hn : s.c.requestLength = n) (h1 : 1 ≤ n) (hbuf : n ≤ s.c.httpRequestBuffer.length)
    (hwindow : n ≤ maxReqBufSize) (hpending : σ.verdict = .pending)
    (hholds : Holds s.c lines σ.data σ.exact) :
    LoopEnd s lines σ s.c.httpRequestBuffer (s.c.httpRequestBuffer.take n)
      (parseScan s s.c.requestLength) := by
  unfold parseScan
  refine lineLoop_end hbuf hwindow _ 0 (by omega) rfl rfl ⟨rfl, rfl, .inl (le_refl _), ?_⟩ .refl
    hpending ⟨rfl, [], (List.append_nil _).symm, (fun _ h => nomatch h), ?_⟩
  · exact fun j _ hj => absurd hj (Nat.not_lt_zero j)
  · rw [show headerLines [] = [] from rfl, List.append_nil]
    exact hholds

end Httpd
