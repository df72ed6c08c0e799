import LambdaIOT.Properties.Segmentation

/-!
# Over-long header lines

A header line that does not fit the window is cut by half a window until it does, and what
is left of it, its last 63 to 126 bytes, is parsed as a header line of its own. So a header
section says what it says with every over-long line replaced by its tail (`lineTail`), and
not what it says without these lines. Fields are set by the last line of their name, so the
two differ exactly if a tail has no known name, or the last line of a name is a tail with
another value.
-/

namespace Httpd

open CMem Lwip Relation

/-! ## The fields a line sets -/

/-- The headers that set fields. -/
inductive HeaderName where
  | contentLength
  | connection
  | transferEncoding
  | expect
  | ifModifiedSince
  | range
  | token
  deriving DecidableEq, Repr

/-- The header that a line begins with, if it is one of the known ones. -/
def headerName (line : Bytes) : Option HeaderName :=
  let tail := line ++ [0]
  if hasPrefix tail (ascii "Content-Length:") then some .contentLength
  else if hasPrefix tail (ascii "Connection:") then some .connection
  else if hasPrefix tail (ascii "Transfer-Encoding:") then some .transferEncoding
  else if hasPrefix tail (ascii "Expect:") then some .expect
  else if hasPrefix tail (ascii "If-Modified-Since:") then some .ifModifiedSince
  else if hasPrefix tail (ascii "Range:") then some .range
  else if hasPrefix tail (ascii "X-Auth-Token:") || hasPrefix tail (ascii "Cookie:") then
    some .token
  else none

/-- `f` with the fields of a header taken from `g`. -/
def HeaderName.take (f g : HeaderData) : HeaderName → HeaderData
  | .contentLength => { f with contentLength := g.contentLength }
  | .connection => { f with keepalive := g.keepalive }
  | .transferEncoding => { f with chunked := g.chunked }
  | .expect => { f with expect00 := g.expect00 }
  | .ifModifiedSince => { f with ifModified := g.ifModified }
  | .range => { f with rangeFrom := g.rangeFrom, rangeTo := g.rangeTo }
  | .token => { f with token := g.token }

/-- A line with a known name sets the fields of this name, from the line alone. -/
theorem headerLine_named {line : Bytes} {k : HeaderName} (h : headerName line = some k)
    (f g : HeaderData) : f.headerLine line = k.take f (g.headerLine line) := by
  unfold headerName at h
  unfold HeaderData.headerLine
  dsimp only at h ⊢
  by_cases h1 : hasPrefix (line ++ [0]) (ascii "Content-Length:")
  · rw [if_pos h1] at h
    cases h
    rw [if_pos h1, if_pos h1]
    rfl
  rw [if_neg h1] at h
  rw [if_neg h1, if_neg h1]
  by_cases h2 : hasPrefix (line ++ [0]) (ascii "Connection:")
  · rw [if_pos h2] at h
    cases h
    rw [if_pos h2, if_pos h2]
    rfl
  rw [if_neg h2] at h
  rw [if_neg h2, if_neg h2]
  by_cases h3 : hasPrefix (line ++ [0]) (ascii "Transfer-Encoding:")
  · rw [if_pos h3] at h
    cases h
    rw [if_pos h3, if_pos h3]
    rfl
  rw [if_neg h3] at h
  rw [if_neg h3, if_neg h3]
  by_cases h4 : hasPrefix (line ++ [0]) (ascii "Expect:")
  · rw [if_pos h4] at h
    cases h
    rw [if_pos h4, if_pos h4]
    rfl
  rw [if_neg h4] at h
  rw [if_neg h4, if_neg h4]
  by_cases h5 : hasPrefix (line ++ [0]) (ascii "If-Modified-Since:")
  · rw [if_pos h5] at h
    cases h
    rw [if_pos h5, if_pos h5]
    rfl
  rw [if_neg h5] at h
  rw [if_neg h5, if_neg h5]
  by_cases h6 : hasPrefix (line ++ [0]) (ascii "Range:")
  · rw [if_pos h6] at h
    cases h
    rw [if_pos h6, if_pos h6]
    rfl
  rw [if_neg h6] at h
  rw [if_neg h6, if_neg h6]
  by_cases h7 : (hasPrefix (line ++ [0]) (ascii "X-Auth-Token:") ||
      hasPrefix (line ++ [0]) (ascii "Cookie:")) = true
  · rw [if_pos h7] at h
    cases h
    rw [if_pos h7, if_pos h7]
    rfl
  · rw [if_neg h7] at h
    cases h

/-- Any other line is only handed on. -/
theorem headerLine_unnamed {line : Bytes} (h : headerName line = none) (f : HeaderData) :
    f.headerLine line = { f with lines := f.lines ++ [cstr (line ++ [0])] } := by
  unfold headerName at h
  unfold HeaderData.headerLine
  dsimp only at h ⊢
  repeat' split at h
  all_goals try cases h
  simp_all only [if_false, Bool.false_eq_true]

/-- What a request line sets, and no header line. -/
def HeaderData.request (f : HeaderData) : Method × Bytes × Bytes × Int × Option Cgi :=
  (f.requestMethod, f.ver, f.requestPath, f.posQuestion, f.handler)

theorem headerLine_request (f : HeaderData) (line : Bytes) :
    (f.headerLine line).request = f.request := by
  cases h : headerName line with
  | none => rw [headerLine_unnamed h]; rfl
  | some k =>
    rw [headerLine_named h f f]
    cases k <;> rfl

/-- The last line of a name. -/
def lastNamed (k : HeaderName) (lines : List Bytes) : Option Bytes :=
  (lines.filter fun l => headerName l = some k).getLast?

/-- The fields after one line, or none. -/
def HeaderData.setBy (f : HeaderData) : Option Bytes → HeaderData
  | none => f
  | some line => f.headerLine line

theorem HeaderName.take_self (k : HeaderName) (f : HeaderData) : k.take f f = f := by
  cases k <;> rfl

theorem HeaderName.take_take {j k : HeaderName} (h : j ≠ k) (f g g' : HeaderData) :
    k.take f (j.take g g') = k.take f g := by
  cases j <;> cases k <;> first | rfl | exact absurd rfl h

theorem HeaderName.take_lines (k : HeaderName) (f g : HeaderData) (lines : List Bytes) :
    k.take f { g with lines := lines } = k.take f g := by
  cases k <;> rfl

theorem foldl_headerLine_request (f : HeaderData) (lines : List Bytes) :
    (lines.foldl HeaderData.headerLine f).request = f.request := by
  induction lines generalizing f with
  | nil => rfl
  | cons l lines ih => exact (ih _).trans (headerLine_request ..)

/-- The fields of a name are set by its last line. -/
theorem foldl_headerLine_take (k : HeaderName) (f : HeaderData) (lines : List Bytes) :
    k.take f (lines.foldl HeaderData.headerLine f) = f.setBy (lastNamed k lines) := by
  induction lines using List.reverseRecOn with
  | nil => exact k.take_self f
  | append_singleton lines l ih =>
    rw [List.foldl_append, List.foldl_cons, List.foldl_nil]
    unfold lastNamed at ih ⊢
    rw [List.filter_append]
    cases hname : headerName l with
    | none =>
      rw [headerLine_unnamed hname, k.take_lines, ih, List.filter_cons_of_neg (by simp [hname]),
        List.filter_nil, List.append_nil]
    | some j =>
      by_cases hjk : j = k
      · rw [List.filter_cons_of_pos (by simp [hname, hjk]), List.filter_nil,
          List.getLast?_concat, ← headerLine_named (hjk ▸ hname)]
        rfl
      · rw [headerLine_named hname _ f, HeaderName.take_take hjk, ih,
          List.filter_cons_of_neg (by simp [hname, hjk]), List.filter_nil, List.append_nil]

/-- The lines without a known name are handed on. -/
theorem foldl_headerLine_lines (f : HeaderData) (lines : List Bytes) :
    (lines.foldl HeaderData.headerLine f).lines =
      f.lines ++ (lines.filter fun l => headerName l = none).map fun l => cstr (l ++ [0]) := by
  induction lines using List.reverseRecOn with
  | nil => exact (List.append_nil _).symm
  | append_singleton lines l ih =>
    rw [List.foldl_append, List.foldl_cons, List.foldl_nil, List.filter_append]
    cases hname : headerName l with
    | none =>
      rw [headerLine_unnamed hname, ih, List.filter_cons_of_pos (by simp [hname]), List.filter_nil,
        List.map_append, List.append_assoc]
      rfl
    | some j =>
      have hsame : (HeaderData.headerLine (lines.foldl HeaderData.headerLine f) l).lines =
          (lines.foldl HeaderData.headerLine f).lines := by
        rw [headerLine_named hname _ f]
        cases j <;> rfl
      rw [hsame, ih, List.filter_cons_of_neg (by simp [hname]), List.filter_nil, List.append_nil]

/-- The names whose fields are read from within the line, whatever its length. -/
def HeaderName.inside : HeaderName → Bool
  | .ifModifiedSince | .range => false
  | _ => true

/-- Behind the same request line, the fields are equal name by name. -/
theorem headerFields_eq_iff {f F G : HeaderData} (hF : F.request = f.request)
    (hG : G.request = f.request) : F.toHeaderFields = G.toHeaderFields ↔
      F.lines = G.lines ∧ ∀ k : HeaderName, k.inside → k.take f F = k.take f G := by
  have hrequest := hF.trans hG.symm
  constructor
  · intro h
    refine ⟨congrArg HeaderFields.lines h, fun k hk => ?_⟩
    cases k with
    | ifModifiedSince => cases hk
    | range => cases hk
    | contentLength => unfold HeaderName.take; rw [h]
    | connection => unfold HeaderName.take; rw [h]
    | transferEncoding => unfold HeaderName.take; rw [h]
    | expect => unfold HeaderName.take; rw [h]
    | token => unfold HeaderName.take; rw [h]
  · rintro ⟨hlines, hnames⟩
    have hlen := congrArg (·.contentLength) (hnames .contentLength rfl)
    have hconn := congrArg (·.keepalive) (hnames .connection rfl)
    have hte := congrArg (·.chunked) (hnames .transferEncoding rfl)
    have hexp := congrArg (·.expect00) (hnames .expect rfl)
    have htoken := congrArg (·.token) (hnames .token rfl)
    obtain ⟨⟨_, _, _, _, _, _, _, _, _, _, _⟩, _, _, _⟩ := F
    obtain ⟨⟨_, _, _, _, _, _, _, _, _, _, _⟩, _, _, _⟩ := G
    cases hrequest
    cases hlines
    cases hlen
    cases hconn
    cases hte
    cases hexp
    cases htoken
    rfl

theorem headerData_eq_iff {f F G : HeaderData} (hF : F.request = f.request)
    (hG : G.request = f.request) : F = G ↔
      F.lines = G.lines ∧ ∀ k : HeaderName, k.take f F = k.take f G := by
  constructor
  · rintro rfl
    exact ⟨rfl, fun _ => rfl⟩
  · rintro ⟨hlines, hnames⟩
    have hfields := (headerFields_eq_iff hF hG).mpr ⟨hlines, fun k _ => hnames k⟩
    have hdate := congrArg (·.ifModified) (hnames .ifModifiedSince)
    have hfrom := congrArg (·.rangeFrom) (hnames .range)
    have hto := congrArg (·.rangeTo) (hnames .range)
    cases F
    cases G
    cases hfields
    cases hdate
    cases hfrom
    cases hto
    rfl

/-! ## Lines and what is left of them -/

/-- A line of a header section, without its line end. -/
def IsLine (l : Bytes) : Prop := l ≠ [] ∧ findSub newline (l ++ newline) = some l.length

/-- The line and its line end fit the window. -/
def fitsWindow (l : Bytes) : Bool := l.length + 2 ≤ maxReqBufSize

/-- What is left of a line when it fits: it is cut by 64 bytes at a time. -/
def lineTail (l : Bytes) : Bytes := l.drop (maxReqBufSize / 2 * ((l.length - 63) / (maxReqBufSize / 2)))

/-- The text of a header section. -/
def sectionText (request : Bytes) (lines : List Bytes) : Bytes :=
  request ++ newline ++ (lines.flatMap (· ++ newline) ++ newline)

theorem lineTail_of_fits {l : Bytes} (h : fitsWindow l = true) : lineTail l = l := by
  have hmax : maxReqBufSize = 128 := rfl
  have hle : l.length + 2 ≤ maxReqBufSize := by simpa [fitsWindow] using h
  unfold lineTail
  rw [Nat.div_eq_of_lt (show l.length - 63 < maxReqBufSize / 2 by omega), Nat.mul_zero,
    List.drop_zero]

/-- A line that fits is one step of the scanner. -/
theorem step_line {σ : HeaderScan} {l : Bytes} (hl : IsLine l) (hfits : fitsWindow l = true)
    (hpending : σ.verdict = .pending) (q : Bytes) :
    headerScanner.Step (σ, l ++ newline ++ q) (σ.line l, q) := by
  obtain ⟨hne, hline⟩ := hl
  have hle : l.length + 2 ≤ maxReqBufSize := by simpa [fitsWindow] using hfits
  have hlen : (l ++ newline).length = l.length + 2 := List.length_append
  have hfound : findSub newline ((l ++ newline ++ q).take maxReqBufSize) = some l.length := by
    rw [List.take_append, List.take_of_length_le (by rw [hlen]; exact hle)]
    exact findSub_append hline _
  refine ⟨l.length + 2, ?_, ?_⟩
  · show headerStep σ (l ++ newline ++ q) = _
    unfold headerStep
    rw [if_neg (by rw [hpending]; exact fun h => h rfl), hfound]
    dsimp only
    rw [if_neg (by simpa using hne), List.append_assoc, List.take_left' rfl]
  · show q = (l ++ newline ++ q).drop (l.length + 2)
    rw [← hlen, List.drop_left' rfl]

/-- Half a window of an over-long line is dropped. -/
theorem step_overlong {σ : HeaderScan} {l : Bytes} (hl : IsLine l) (hlong : fitsWindow l = false)
    (hpending : σ.verdict = .pending) (q : Bytes) :
    headerScanner.Step (σ, l ++ newline ++ q) (σ, l.drop (maxReqBufSize / 2) ++ newline ++ q) := by
  have hmax : maxReqBufSize = 128 := rfl
  have hlt : ¬l.length + 2 ≤ maxReqBufSize := by simpa [fitsWindow] using hlong
  have hlen : (l ++ newline ++ q).length = l.length + 2 + q.length := by
    rw [List.length_append, List.length_append]
    rfl
  have hnone : findSub newline ((l ++ newline ++ q).take maxReqBufSize) = none := by
    cases hfound : findSub newline ((l ++ newline ++ q).take maxReqBufSize) with
    | none => rfl
    | some i =>
      have hin := findSub_le hfound
      have hall := findSub_append hfound ((l ++ newline ++ q).drop maxReqBufSize)
      rw [List.take_append_drop, findSub_append hl.2 q] at hall
      obtain rfl := Option.some.inj hall
      rw [List.length_take] at hin
      have htwo : newline.length = 2 := rfl
      omega
  refine ⟨maxReqBufSize / 2, ?_, ?_⟩
  · show headerStep σ (l ++ newline ++ q) = _
    unfold headerStep
    rw [if_neg (by rw [hpending]; exact fun h => h rfl), hnone]
    dsimp only
    rw [if_pos (by omega)]
  · show l.drop _ ++ newline ++ q = (l ++ newline ++ q).drop _
    rw [List.append_assoc, List.append_assoc, List.drop_append_of_le_length (by omega)]

/-- The rest of a line is a line, as long as something is left. -/
theorem isLine_drop {l : Bytes} {k : Nat} (hl : IsLine l) (hk : k < l.length) :
    IsLine (l.drop k) := by
  refine ⟨fun h => ?_, ?_⟩
  · have hlen := List.drop_eq_nil_iff.mp h
    omega
  · rw [← List.drop_append_of_le_length (le_of_lt hk), findSub_drop_eq_some hl.2 (le_of_lt hk),
      List.length_drop]

/-- A line of any length is parsed as its tail. -/
theorem steps_line {σ : HeaderScan} {l : Bytes} (hl : IsLine l) (hpending : σ.verdict = .pending)
    (q : Bytes) : headerScanner.Steps (σ, l ++ newline ++ q) (σ.line (lineTail l), q) := by
  have hmax : maxReqBufSize = 128 := rfl
  generalize hn : l.length = n
  induction n using Nat.strong_induction_on generalizing l with
  | _ n ih =>
    cases hfits : fitsWindow l with
    | true =>
      rw [lineTail_of_fits hfits]
      exact .single (step_line hl hfits hpending q)
    | false =>
      have hlt : ¬l.length + 2 ≤ maxReqBufSize := by simpa [fitsWindow] using hfits
      have hrest := isLine_drop hl (k := maxReqBufSize / 2) (by omega)
      have hless : (l.drop (maxReqBufSize / 2)).length < n := by
        rw [List.length_drop]
        omega
      have htail : lineTail (l.drop (maxReqBufSize / 2)) = lineTail l := by
        have hhalf : maxReqBufSize / 2 = 64 := rfl
        unfold lineTail
        rw [List.drop_drop, List.length_drop, hhalf]
        congr 1
        omega
      have hsteps := ih _ hless hrest rfl
      rw [htail] at hsteps
      exact .head (step_overlong hl hfits hpending q) hsteps

/-- The lines of a section, each parsed as its tail. -/
theorem steps_lines {lines : List Bytes} (hlines : ∀ l ∈ lines, IsLine l) (σ : HeaderScan)
    (hpending : σ.verdict = .pending) (hmethod : σ.data.requestMethod ≠ .none) (q : Bytes) :
    headerScanner.Steps (σ, lines.flatMap (· ++ newline) ++ q)
      ({ σ with
        data := (lines.map lineTail).foldl HeaderData.headerLine σ.data
        exact := σ.exact && lines.all fun l => contained (lineTail l) }, q) := by
  induction lines generalizing σ with
  | nil =>
    rw [List.all_nil, Bool.and_true]
    exact .refl
  | cons l lines ih =>
    have hline : σ.line (lineTail l) = { σ with
        data := σ.data.headerLine (lineTail l), exact := σ.exact && contained (lineTail l) } := by
      unfold HeaderScan.line
      rw [if_neg hmethod]
    have hmethod' : (σ.line (lineTail l)).data.requestMethod ≠ .none := by
      rw [hline, show (σ.data.headerLine (lineTail l)).requestMethod = σ.data.requestMethod from
        congrArg Prod.fst (headerLine_request ..)]
      exact hmethod
    have hfirst := steps_line (hlines l (List.mem_cons_self ..)) hpending
      (lines.flatMap (· ++ newline) ++ q)
    have hrest := ih (fun l' hl' => hlines l' (List.mem_cons_of_mem _ hl'))
      (σ.line (lineTail l)) (by rw [hline]; exact hpending) hmethod'
    rw [List.flatMap_cons, List.append_assoc]
    refine hfirst.trans ?_
    rw [hline] at hrest ⊢
    rw [List.all_cons, ← Bool.and_assoc]
    exact hrest

/-! ## Sections with and without over-long lines -/

/-- The tails of over-long lines do nothing: each has a known name, and the last line of a
name, over-long ones counted by their tails, sets what the last one that fits sets. -/
structure TailsInert (f : HeaderData) (lines : List Bytes) (names : HeaderName → Prop) : Prop where
  named : ∀ l ∈ lines, fitsWindow l = false → headerName (lineTail l) ≠ none
  last : ∀ k, names k → f.setBy (lastNamed k (lines.map lineTail)) =
    f.setBy (lastNamed k (lines.filter fitsWindow))

/-- The lines that are handed on: more of them, if a tail has no known name. -/
theorem unnamed_lines_iff (lines : List Bytes) (g : Bytes → Bytes) :
    (((lines.map lineTail).filter fun l => headerName l = none).map g =
        ((lines.filter fitsWindow).filter fun l => headerName l = none).map g) ↔
      ∀ l ∈ lines, fitsWindow l = false → headerName (lineTail l) ≠ none := by
  have hle : ∀ lines : List Bytes,
      ((lines.filter fitsWindow).filter fun l => headerName l = none).length ≤
        ((lines.map lineTail).filter fun l => headerName l = none).length := by
    intro lines
    induction lines with
    | nil => exact le_refl _
    | cons l lines ih =>
      cases hfits : fitsWindow l with
      | true =>
        rw [List.filter_cons_of_pos hfits, List.map_cons, lineTail_of_fits hfits,
          List.filter_cons, List.filter_cons]
        split
        · exact Nat.succ_le_succ ih
        · exact ih
      | false =>
        rw [List.filter_cons_of_neg (by simp [hfits]), List.map_cons, List.filter_cons]
        split
        · exact Nat.le_succ_of_le ih
        · exact ih
  induction lines with
  | nil => exact ⟨(fun _ _ h => nomatch h), fun _ => rfl⟩
  | cons l lines ih =>
    rw [List.forall_mem_cons]
    cases hfits : fitsWindow l with
    | true =>
      rw [List.filter_cons_of_pos hfits, List.map_cons, lineTail_of_fits hfits,
        List.filter_cons, List.filter_cons]
      have hskip : true = false → headerName l ≠ none := fun h => nomatch h
      rw [and_iff_right hskip]
      refine Iff.trans ?_ ih
      split
      · rw [List.map_cons, List.map_cons, List.cons.injEq]
        exact and_iff_right rfl
      · exact Iff.rfl
    | false =>
      rw [List.filter_cons_of_neg (by simp [hfits]), List.map_cons, List.filter_cons]
      by_cases hname : headerName (lineTail l) = none
      · rw [if_pos (by simpa using hname)]
        refine iff_of_false (fun h => ?_) fun h => h.1 rfl hname
        have hlen := congrArg List.length h
        rw [List.length_map, List.length_map, List.length_cons] at hlen
        have := hle lines
        omega
      · rw [if_neg (by simpa using hname)]
        exact ih.trans (and_iff_right fun _ => hname).symm

/-- The fields of a section with and without its over-long lines. -/
theorem tails_fields_iff (f : HeaderData) (lines : List Bytes) :
    ((lines.map lineTail).foldl HeaderData.headerLine f).toHeaderFields =
        ((lines.filter fitsWindow).foldl HeaderData.headerLine f).toHeaderFields ↔
      TailsInert f lines fun k => k.inside := by
  rw [headerFields_eq_iff (foldl_headerLine_request ..) (foldl_headerLine_request ..),
    foldl_headerLine_lines, foldl_headerLine_lines, List.append_cancel_left_eq, unnamed_lines_iff]
  simp only [foldl_headerLine_take]
  exact ⟨fun h => ⟨h.1, h.2⟩, fun h => ⟨h.1, h.2⟩⟩

theorem tails_data_iff (f : HeaderData) (lines : List Bytes) :
    ((lines.map lineTail).foldl HeaderData.headerLine f) =
        ((lines.filter fitsWindow).foldl HeaderData.headerLine f) ↔
      TailsInert f lines fun _ => True := by
  rw [headerData_eq_iff (foldl_headerLine_request ..) (foldl_headerLine_request ..),
    foldl_headerLine_lines, foldl_headerLine_lines, List.append_cancel_left_eq, unnamed_lines_iff]
  simp only [foldl_headerLine_take]
  exact ⟨fun h => ⟨h.1, fun k _ => h.2 k⟩, fun h => ⟨h.1, fun k => h.2 k trivial⟩⟩

/-- The scanner on the text of a section. -/
theorem steps_section (σ : HeaderScan) {request : Bytes} {lines : List Bytes} {f : HeaderData}
    (hpending : σ.verdict = .pending) (hnone : σ.data.requestMethod = .none)
    (hrequest : IsLine request) (hfits : fitsWindow request = true)
    (hvalid : σ.data.requestLine request = some f) (hlines : ∀ l ∈ lines, IsLine l) (q : Bytes) :
    headerScanner.Steps (σ, sectionText request lines ++ q)
      (⟨(lines.map lineTail).foldl HeaderData.headerLine f, .complete,
        σ.exact && lines.all fun l => contained (lineTail l)⟩, q) := by
  have hmethod : f.requestMethod ≠ .none := by
    obtain ⟨m, hm, rfl⟩ := Option.map_eq_some_iff.mp hvalid
    exact (parseMethod_some hm).1
  have hline : σ.line request = { σ with data := f } := by
    unfold HeaderScan.line
    rw [if_pos hnone, hvalid]
  have hfirst := step_line hrequest hfits hpending
    (lines.flatMap (· ++ newline) ++ (newline ++ q))
  rw [hline] at hfirst
  have hmore := steps_lines hlines { σ with data := f } hpending hmethod (newline ++ q)
  have hlast : headerScanner.Step
      (⟨(lines.map lineTail).foldl HeaderData.headerLine f, σ.verdict,
        σ.exact && lines.all fun l => contained (lineTail l)⟩, newline ++ q)
      (⟨(lines.map lineTail).foldl HeaderData.headerLine f, .complete,
        σ.exact && lines.all fun l => contained (lineTail l)⟩, q) := by
    have hfound : findSub newline ((newline ++ q).take maxReqBufSize) = some 0 := by
      rw [List.take_append, show newline.take maxReqBufSize = newline from rfl]
      exact findSub_append (by decide) _
    refine ⟨2, ?_, rfl⟩
    show headerStep _ (newline ++ q) = _
    unfold headerStep
    rw [if_neg (by rw [hpending]; exact fun h => h rfl), hfound]
    dsimp only
    rw [if_pos rfl]
    unfold HeaderScan.emptyLine
    rw [if_neg (by
      rw [show ((lines.map lineTail).foldl HeaderData.headerLine f).requestMethod = f.requestMethod
        from congrArg Prod.fst (foldl_headerLine_request ..)]
      exact hmethod)]
  have hall : sectionText request lines ++ q =
      request ++ newline ++ (lines.flatMap (· ++ newline) ++ (newline ++ q)) := by
    unfold sectionText
    simp only [List.append_assoc]
  rw [hall]
  exact (ReflTransGen.head hfirst hmore).tail hlast

/-- The fields that a request at the start `c` has once a section with these lines and any
body behind it is delivered. -/
theorem deliverAll_section {c : RequestContext} {ds : List Delivery} {request body : Bytes}
    {lines : List Bytes} {f : HeaderData} (hstart : RequestStart c)
    (hnone : c.requestMethod = .none) (hds : ds ≠ []) (hfit : DeliveriesFit c ds)
    (hstream : c.waiting ++ deliveredData ds = sectionText request lines ++ body)
    (hrequest : IsLine request) (hfits : fitsWindow request = true)
    (hvalid : (HeaderData.ofParts c.toRequest c.toResponse []).requestLine request = some f)
    (hlines : ∀ l ∈ lines, IsLine l) :
    let parsed := (headerSection c.log.length (deliverAll c ds)).fields
    let said := (lines.map lineTail).foldl HeaderData.headerLine f
    parsed.toHeaderFields = said.toHeaderFields ∧
      ((∀ l ∈ lines, contained (lineTail l)) → parsed = said) := by
  have houtcome := requestStart_outcome ⟨HeaderData.ofParts c.toRequest c.toResponse [],
    .pending, true⟩ hstart rfl ⟨rfl, fun _ => ⟨rfl, rfl, rfl⟩⟩ hds hfit
  rw [hstream] at houtcome
  have hsteps := steps_section ⟨HeaderData.ofParts c.toRequest c.toResponse [],
    .pending, true⟩ rfl hnone hrequest hfits hvalid hlines body
  obtain ⟨hfields, hall⟩ := houtcome.complete_fields hsteps rfl
  refine ⟨hfields, fun hin => hall ?_⟩
  rw [Bool.true_and, List.all_eq_true]
  exact hin

/-- **Over-long header lines.** A valid request line and any header lines, and the same
without the lines over 128 bytes, are delivered to two contexts at the start of a request
in any segments. The two parse to the same fields if and only if the tails of the over-long
lines are inert; date and range are compared when they are read from within their lines. -/
theorem oversized_header_lines {s t : RequestContext} {ds es : List Delivery}
    {request body body' : Bytes} {lines : List Bytes} {f : HeaderData}
    (hs : RequestStart s) (ht : RequestStart t)
    (hsame : HeaderData.ofParts s.toRequest s.toResponse [] =
      HeaderData.ofParts t.toRequest t.toResponse [])
    (hnone : s.requestMethod = .none) (hds : ds ≠ []) (hes : es ≠ [])
    (hsfit : DeliveriesFit s ds) (htfit : DeliveriesFit t es)
    (hrequest : IsLine request) (hfits : fitsWindow request = true)
    (hvalid : (HeaderData.ofParts s.toRequest s.toResponse []).requestLine request = some f)
    (hlines : ∀ l ∈ lines, IsLine l)
    (hstream : s.waiting ++ deliveredData ds = sectionText request lines ++ body)
    (hstream' : t.waiting ++ deliveredData es =
      sectionText request (lines.filter fitsWindow) ++ body') :
    let full := (headerSection s.log.length (deliverAll s ds)).fields
    let short := (headerSection t.log.length (deliverAll t es)).fields
    (full.toHeaderFields = short.toHeaderFields ↔ TailsInert f lines fun k => k.inside) ∧
      ((∀ l ∈ lines, contained (lineTail l)) →
        (full = short ↔ TailsInert f lines fun _ => True)) := by
  have hnone' : t.requestMethod = .none :=
    (congrArg (·.requestMethod) hsame).symm.trans hnone
  obtain ⟨hfields, hall⟩ := deliverAll_section hs hnone hds hsfit hstream hrequest hfits hvalid
    hlines
  obtain ⟨hfields', hall'⟩ := deliverAll_section ht hnone' hes htfit hstream' hrequest hfits
    (hsame ▸ hvalid) fun l hl => hlines l (List.mem_of_mem_filter hl)
  have hkept : (lines.filter fitsWindow).map lineTail = lines.filter fitsWindow := by
    refine (List.map_congr_left fun l hl => ?_).trans (List.map_id _)
    exact lineTail_of_fits (List.of_mem_filter hl)
  rw [hkept] at hfields' hall'
  refine ⟨?_, fun hin => ?_⟩
  · rw [hfields, hfields']
    exact tails_fields_iff f lines
  · rw [hall hin, hall' fun l hl => ?_]
    · exact tails_data_iff f lines
    · exact hin l (List.mem_of_mem_filter hl)

/-- A connection that was just accepted. -/
def acceptedConnection : RequestContext :=
  (acceptContext ⟨plainWorld, setupContext, ⟨[], [], [], []⟩⟩ 0 1).c

theorem acceptedConnection_start : RequestStart acceptedConnection :=
  requestStart_accept .setup rfl 0 1

def getRoot : Bytes := ascii "GET / HTTP/1.1"

/-- A cookie of 127 bytes whose last 63 look like another header. -/
def smugglingCookie : Bytes :=
  ascii "Cookie: " ++ List.replicate 56 97 ++ ascii "Content-Length: 5" ++ List.replicate 46 32

/-- The delivery of a section in one segment. -/
def deliverSection (lines : List Bytes) : Delivery :=
  ⟨plainWorld, ⟨[], [], [], []⟩, .ofBytes (sectionText getRoot lines) (by
    unfold sectionText getRoot
    exact fun h => absurd (List.append_eq_nil_iff.mp (List.append_eq_nil_iff.mp h).1).2 (by decide))⟩

theorem oversized_header_lines_smuggled :
    let f := ((HeaderData.ofParts acceptedConnection.toRequest acceptedConnection.toResponse
      []).requestLine getRoot).get (by decide)
    let n := acceptedConnection.log.length
    let full := (headerSection n (deliverAll acceptedConnection
      [deliverSection [smugglingCookie]])).fields
    let short := (headerSection n (deliverAll acceptedConnection
      [deliverSection ([smugglingCookie].filter fitsWindow)])).fields
    (full.toHeaderFields = short.toHeaderFields ↔
        TailsInert f [smugglingCookie] fun k => k.inside) ∧
      ((∀ l ∈ [smugglingCookie], contained (lineTail l)) →
        (full = short ↔ TailsInert f [smugglingCookie] fun _ => True)) :=
  oversized_header_lines acceptedConnection_start acceptedConnection_start rfl rfl (List.cons_ne_nil _ _) (List.cons_ne_nil _ _)
    ⟨by decide +kernel, trivial⟩ ⟨by decide +kernel, trivial⟩
    ⟨by decide, by decide⟩ (by decide) (Option.some_get _).symm
    (List.forall_mem_singleton.mpr ⟨by decide +kernel, by decide +kernel⟩)
    (show _ = _ ++ ([] : Bytes) by decide +kernel) (show _ = _ ++ ([] : Bytes) by decide +kernel)

/-- The tail of the cookie becomes the length of the request. -/
theorem oversized_cookie_sets_contentLength :
    (headerSection acceptedConnection.log.length (deliverAll acceptedConnection
        [deliverSection [smugglingCookie]])).fields.contentLength = 5 ∧
      (headerSection acceptedConnection.log.length (deliverAll acceptedConnection
        [deliverSection ([smugglingCookie].filter fitsWindow)])).fields.contentLength = -1 := by
  decide +kernel

end Httpd
