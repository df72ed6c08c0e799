import LambdaIOT.Httpd.Downloads
import LambdaIOT.Httpd.Transfer
import LambdaIOT.Properties.Headers

/-!
# Range requests

The value of a `Range:` line goes through three functions: the header loop reads the two
numbers, `WEB_AppendHeaders` bounds them by the file and seeks, `WEB_ReadContent` returns the
bytes. The first of them starts to read one byte too far, behind the first digit
(`parseRange_rangeLine`), so that a range is honoured only where that digit does not matter.
-/

namespace Httpd

open CMem

/-! ## The header line -/

/-- `Range: bytes=a-b`, or `Range: bytes=a-` without a `b`, with its CR cut. -/
def rangeLine (a : Nat) (b : Option Nat) (behind : Bytes) : Bytes :=
  ascii "Range: bytes=" ++ (decimalNat a ++ 45 :: (b.elim [] decimalNat ++ 0 :: behind))

/-- The byte behind the last one asked for, in a file of `n` bytes. -/
def rangeStop (n : Nat) (b : Option Nat) : Nat := b.elim n fun b => min (b + 1) n

theorem findSub_byte {x : UInt8} {ds : Bytes} (hds : x ∉ ds) (t : Bytes) :
    findSub [x] (ds ++ x :: t) = some ds.length := by
  induction ds with
  | nil =>
    rw [List.nil_append, findSub, if_pos]
    · rfl
    · rw [List.isPrefixOf_iff_prefix]
      exact ⟨t, rfl⟩
  | cons c ds ih =>
    have hne : ¬ [x].isPrefixOf (c :: (ds ++ x :: t)) = true := by
      rw [List.isPrefixOf_iff_prefix]
      rintro ⟨u, hu⟩
      rw [List.singleton_append] at hu
      exact hds (by rw [(List.cons.inj hu).1]; exact List.mem_cons_self ..)
    rw [List.cons_append, findSub, if_neg hne, ih fun hmem => hds (List.mem_cons_of_mem _ hmem)]
    rfl

theorem noNul_digits {ds : Bytes} (hds : ∀ c ∈ ds, isDigit c = true) : NoNul ds := by
  intro c hc h0
  have := isDigit_bounds (hds c hc)
  rw [h0] at this
  exact absurd this.1 (by decide)

theorem not_mem_digits {ds : Bytes} (hds : ∀ c ∈ ds, isDigit c = true) : (45 : UInt8) ∉ ds := by
  intro hmem
  have := isDigit_bounds (hds 45 hmem)
  exact absurd this.1 (by decide)

/-- The two numbers that the digits `ds` of the first and `bs` of the last one give: the
digits in front of the dash are those that are left of the first number. -/
theorem parseRange_digits {ds bs : Bytes} (hds : ∀ c ∈ ds, isDigit c = true)
    (hbs : ∀ c ∈ bs, isDigit c = true) (x : UInt8) (behind : Bytes) :
    let first := ds ++ 45 :: (bs ++ 0 :: behind)
    let stop := if bs = [] then 0x7FFFFFFF else wrapLong (atol (bs ++ 0 :: behind) + 1)
    parseRange (ascii "Range: bytes=" ++ x :: first) =
      if atol first < stop then (atol first, stop) else (0, 0) := by
  intro first stop
  have hfound : strstr ((ascii "Range: bytes=" ++ x :: first).drop 6) (ascii "bytes=") = some 1 := by
    rfl
  have hfirst : (ascii "Range: bytes=" ++ x :: first).drop (6 + 1 + 7) = first := rfl
  have hdash : strstr first (ascii "-") = some ds.length := by
    have hcstr : cstr first = ds ++ 45 :: bs := by
      have hall : NoNul (ds ++ 45 :: bs) := by
        refine (noNul_digits hds).append ?_
        intro c hc
        rcases List.mem_cons.mp hc with rfl | hc
        · decide
        · exact noNul_digits hbs c hc
      have hsplit : first = (ds ++ 45 :: bs) ++ 0 :: behind := by
        change ds ++ 45 :: (bs ++ 0 :: behind) = _
        rw [List.append_assoc, List.cons_append]
      rw [hsplit, cstr_append_nul hall]
    rw [strstr, hcstr]
    exact findSub_byte (not_mem_digits hds) bs
  have hbehind : first.drop (ds.length + 1) = bs ++ 0 :: behind := by
    change (ds ++ 45 :: (bs ++ 0 :: behind)).drop (ds.length + 1) = _
    rw [← List.drop_drop, List.drop_left]
    rfl
  have hhead : isDigit (at' first (ds.length + 1)) = true ↔ bs ≠ [] := by
    have hat : at' first (ds.length + 1) = at' (bs ++ 0 :: behind) 0 := by
      rw [← hbehind, at', at', List.getD_eq_getElem?_getD, List.getD_eq_getElem?_getD,
        List.getElem?_drop, Nat.add_zero]
    rw [hat]
    cases bs with
    | nil => exact iff_of_false Bool.false_ne_true fun hc => hc rfl
    | cons c bs => exact iff_of_true (hbs c (List.mem_cons_self ..)) (List.cons_ne_nil c bs)
  by_cases hopen : bs = []
  · have hstop : stop = 0x7FFFFFFF := if_pos hopen
    have hdigit : ¬ isDigit (at' first (ds.length + 1)) = true := fun hd => hhead.mp hd hopen
    simp only [parseRange, hfound, hfirst, hdash, hstop, if_neg hdigit]
  · have hstop : stop = wrapLong (atol (bs ++ 0 :: behind) + 1) := if_neg hopen
    simp only [parseRange, hfound, hfirst, hdash, hbehind, hstop, if_pos (hhead.mpr hopen)]

/-- `atol` of a dash and digits. -/
theorem atol_dash {bs : Bytes} (hbs : ∀ c ∈ bs, isDigit c = true) (behind : Bytes) :
    atol (45 :: (bs ++ 0 :: behind)) = max longMin (-(positionalValue 10 bs : Int)) := by
  have hall : NoNul (45 :: bs) := by
    intro c hc
    rcases List.mem_cons.mp hc with rfl | hc
    · decide
    · exact noNul_digits hbs c hc
  have hcstr : cstr (45 :: (bs ++ 0 :: behind)) = 45 :: bs := by
    rw [← List.cons_append]
    exact cstr_append_nul hall behind
  have hvalue : digitsValue (bs ++ []) = _ := digitsValue_append hbs fun c hc => nomatch hc
  rw [List.append_nil] at hvalue
  rw [atol, hcstr, List.dropWhile_cons_of_neg (by decide), ← hvalue]
  rfl

/-- What the header loop makes of the line. The first number is right only where all of it
is one zero and no other number is taken for it. -/
theorem parseRange_rangeLine {a : Nat} {b : Option Nat} (behind : Bytes) (ha : a < 2147483647)
    (hb : ∀ e ∈ b, a ≤ e ∧ e < 2147483647) :
    ∃ first : Int, parseRange (rangeLine a b behind) =
        (first, b.elim 0x7FFFFFFF fun e => (e : Int) + 1) ∧
      (first = a ↔ a = 0 ∧ (b = none ∨ b = some 0)) ∧
      (first < b.elim 0x7FFFFFFF fun e => (e : Int) + 1) ∧ longMin ≤ first ∧ first ≤ longMax := by
  have hmax : longMax = 2147483647 := rfl
  have hmin : longMin = -2147483648 := rfl
  obtain ⟨c, ds, hds⟩ := List.exists_cons_of_ne_nil
    (List.length_pos_iff.mp (length_positional_pos 10 a))
  change decimalNat a = c :: ds at hds
  have hdigits : ∀ x ∈ ds, isDigit x = true := fun x hx =>
    decimalNat_digits a x (by rw [hds]; exact List.mem_cons_of_mem _ hx)
  have hbs : ∀ x ∈ b.elim [] decimalNat, isDigit x = true := by
    cases b with
    | none => exact fun x hx => nomatch hx
    | some e => exact decimalNat_digits e
  have hline : rangeLine a b behind =
      ascii "Range: bytes=" ++ c :: (ds ++ 45 :: (b.elim [] decimalNat ++ 0 :: behind)) := by
    rw [rangeLine, hds, List.cons_append]
  have hparse := parseRange_digits hdigits hbs c behind
  dsimp only at hparse
  rw [← hline] at hparse
  have hstop : (if b.elim [] decimalNat = [] then (0x7FFFFFFF : Int)
      else wrapLong (atol (b.elim [] decimalNat ++ 0 :: behind) + 1))
      = b.elim 0x7FFFFFFF fun e => (e : Int) + 1 := by
    cases b with
    | none => rfl
    | some e =>
      obtain ⟨-, he⟩ := hb e rfl
      have hne : decimalNat e ≠ [] := List.length_pos_iff.mp (length_positional_pos 10 e)
      have hatol : atol (decimalNat e ++ 0 :: behind) = e :=
        atol_decimalNat (by omega) fun x hx => by cases hx; rfl
      change (if decimalNat e = [] then _ else wrapLong (atol (decimalNat e ++ 0 :: behind) + 1)) = _
      rw [if_neg hne, hatol, wrapLong]
      change ((e : Int) + 1 + 2147483648) % 4294967296 - 2147483648 = e + 1
      omega
  rw [hstop] at hparse
  have hlast : (a : Int) < b.elim 0x7FFFFFFF fun e => (e : Int) + 1 := by
    cases b with
    | none =>
      change (a : Int) < 2147483647
      omega
    | some e =>
      obtain ⟨he, -⟩ := hb e rfl
      change (a : Int) < e + 1
      omega
  refine ⟨atol (ds ++ 45 :: (b.elim [] decimalNat ++ 0 :: behind)), ?_⟩
  rw [← and_assoc, ← and_assoc]
  refine ⟨?_, longMin_le_atol _, atol_le _⟩
  rw [and_assoc]
  by_cases hone : a < 10
  · -- One digit: what is left is the dash, and the other number is taken for the first.
    have hnil : ds = [] := by
      have hlen : (decimalNat a).length ≤ 1 := length_positional_le (by decide) (by decide) hone
      rw [hds, List.length_cons] at hlen
      exact List.eq_nil_of_length_eq_zero (by omega)
    rw [hnil, List.nil_append] at hparse ⊢
    rw [atol_dash hbs] at hparse ⊢
    cases b with
    | none =>
      have hzero : max longMin (-(positionalValue 10 [] : Int)) = 0 := by decide
      change _ = if max longMin (-(positionalValue 10 [] : Int)) < _ then
        (max longMin (-(positionalValue 10 [] : Int)), _) else _ at hparse
      change _ = (max longMin (-(positionalValue 10 [] : Int)), _) ∧
        (max longMin (-(positionalValue 10 [] : Int)) = a ↔ _) ∧ max longMin (-(positionalValue 10 [] : Int)) < _
      rw [hzero] at hparse ⊢
      have hlt : (0 : Int) < 0x7FFFFFFF := by decide
      refine ⟨hparse.trans (if_pos hlt), ?_, hlt⟩
      constructor
      · intro h0
        exact ⟨by omega, .inl rfl⟩
      · rintro ⟨rfl, -⟩
        rfl
    | some e =>
      obtain ⟨he, hsmall⟩ := hb e rfl
      have hvalue : max longMin (-(positionalValue 10 (decimalNat e) : Int)) = -(e : Int) := by
        rw [decimalNat, positionalValue_positional e (by decide) (by decide)]
        omega
      change _ = if max longMin (-(positionalValue 10 (decimalNat e) : Int)) < (e : Int) + 1 then
        (max longMin (-(positionalValue 10 (decimalNat e) : Int)), (e : Int) + 1) else _ at hparse
      change _ = (max longMin (-(positionalValue 10 (decimalNat e) : Int)), (e : Int) + 1) ∧
        (max longMin (-(positionalValue 10 (decimalNat e) : Int)) = a ↔ _) ∧
        max longMin (-(positionalValue 10 (decimalNat e) : Int)) < (e : Int) + 1
      rw [hvalue] at hparse ⊢
      have hlt : -(e : Int) < (e : Int) + 1 := by omega
      refine ⟨hparse.trans (if_pos hlt), ?_, hlt⟩
      constructor
      · intro h0
        exact ⟨by omega, .inr (congrArg some (by omega))⟩
      · rintro ⟨rfl, h0 | h0⟩
        · cases h0
        · cases h0
          rfl
  · -- Several digits: what is left of them is a smaller number.
    obtain ⟨c', ds', heq, hne, hless⟩ := decimalNat_cons (n := a) (by omega)
    rw [hds] at heq
    rw [← (List.cons.inj heq).2] at hne hless
    have hvalue : atol (ds ++ 45 :: (b.elim [] decimalNat ++ 0 :: behind)) = positionalValue 10 ds := by
      rw [atol_append hne hdigits fun x hx => by cases hx; rfl]
      omega
    rw [hvalue] at hparse ⊢
    have hlt : (positionalValue 10 ds : Int) < b.elim 0x7FFFFFFF fun e => (e : Int) + 1 := by omega
    refine ⟨hparse.trans (if_pos hlt), ?_, hlt⟩
    constructor
    · intro h0
      omega
    · rintro ⟨rfl, -⟩
      omega

/-! ## The header -/

theorem contentTypes_plain : ∀ t ∈ contentTypes, t.2.length ≤ 29 ∧ NoNul t.2 := by
  decide

theorem getContentType_plain (extension : Bytes) :
    (getContentType extension).length ≤ 29 ∧ NoNul (getContentType extension) := by
  rw [getContentType]
  split
  · rename_i t ht
    exact contentTypes_plain t (List.mem_of_find?_eq_some ht)
  · decide

theorem noNul_headerRange (first last total length : Int) {type : Bytes} (htype : NoNul type) :
    NoNul (headerRange first last total type length connectionHeader) := by
  have h1 : NoNul (ascii "HTTP/1.1 206 Partial Content\r\nContent-Range: bytes ") := by decide
  have h2 : NoNul (ascii "\r\nContent-type: ") := by decide
  have h3 : NoNul (ascii "\r\nContent-Length: ") := by decide
  have h4 : NoNul (ascii "\r\nConnection: ") := by decide
  have h5 : NoNul connectionHeader := by decide
  have h6 : NoNul (ascii "-") := by decide
  have h7 : NoNul (ascii "/") := by decide
  have h8 : NoNul (ascii "\r\n") := by decide
  unfold headerRange
  exact ((((((((((((h1.append (noNul_decimal _)).append h6).append (noNul_decimal _)).append
    h7).append (noNul_decimal _)).append h2).append htype).append h3).append
    (noNul_decimal _)).append h4).append h5).append h8)

/-- Two numbers in front of the same text. -/
theorem decimal_agree {f : Int} {n : Nat} {x : UInt8} {u v text : Bytes} (hx : isDigit x = false)
    (h : decimal f ++ x :: u <+: text) (h' : decimal n ++ x :: v <+: text) :
    f = n ∧ u <+: text.drop ((decimal n).length + 1) ∧ v <+: text.drop ((decimal n).length + 1) := by
  have hbehind : ∀ {ds w : Bytes}, ds ++ x :: w <+: text → w <+: text.drop (ds.length + 1) := by
    intro ds w hw
    have hdrop := hw.drop (ds.length + 1)
    rwa [← List.drop_drop, List.drop_left] at hdrop
  have hdigits : ∀ {m : Nat} {w : Bytes}, decimalNat m ++ x :: w <+: text →
      text.takeWhile isDigit = decimalNat m := by
    rintro m w ⟨t, rfl⟩
    rw [List.append_assoc, List.takeWhile_append_of_pos (decimalNat_digits m), List.cons_append,
      List.takeWhile_cons_of_neg (by rw [hx]; exact Bool.false_ne_true), List.append_nil]
  have hn : decimal (n : Int) = decimalNat n := if_neg (by omega)
  have hnat : text.takeWhile isDigit = decimalNat n := hdigits (hn ▸ h')
  have hne : decimalNat n ≠ [] := List.length_pos_iff.mp (length_positional_pos 10 n)
  have hsame : f = n := by
    by_cases hneg : f < 0
    · have hdash : decimal f = 45 :: decimalNat f.natAbs := if_pos hneg
      rw [hdash] at h
      obtain ⟨t, rfl⟩ := h
      rw [List.cons_append, List.cons_append, List.takeWhile_cons_of_neg (by decide)] at hnat
      exact absurd hnat.symm hne
    · have hpos : decimal f = decimalNat f.natAbs := if_neg hneg
      have heq := (hdigits (hpos ▸ h)).symm.trans hnat
      have hvalue := congrArg (positionalValue 10) heq
      rw [decimalNat, decimalNat, positionalValue_positional _ (by decide) (by decide),
        positionalValue_positional _ (by decide) (by decide)] at hvalue
      omega
  subst hsame
  exact ⟨rfl, hbehind h, hbehind h'⟩

/-- The first two numbers of a `Content-Range` line can be read back. -/
theorem headerRange_agree {first last total total' length length' : Int} {a e : Nat}
    {type type' text : Bytes}
    (h : headerRange first last total type length connectionHeader <+: text)
    (h' : headerRange a e total' type' length' connectionHeader <+: text) :
    first = a ∧ last = e := by
  have hbehind : ∀ {w : Bytes},
      ascii "HTTP/1.1 206 Partial Content\r\nContent-Range: bytes " ++ w <+: text →
        w <+: text.drop 51 := by
    intro w hw
    have hlen : (ascii "HTTP/1.1 206 Partial Content\r\nContent-Range: bytes ").length = 51 := by
      decide
    have hdrop := hw.drop 51
    rwa [← hlen, List.drop_left, hlen] at hdrop
  have hfront : ∀ (f l t : Int) (ty : Bytes) (n : Int), ∃ u,
      headerRange f l t ty n connectionHeader =
        ascii "HTTP/1.1 206 Partial Content\r\nContent-Range: bytes " ++
          (decimal f ++ 45 :: (decimal l ++ 47 :: u)) := by
    intro f l t ty n
    refine ⟨decimal t ++ (ascii "\r\nContent-type: " ++ (ty ++ (ascii "\r\nContent-Length: " ++
      (decimal n ++ (ascii "\r\nConnection: " ++ (connectionHeader ++ ascii "\r\n")))))), ?_⟩
    unfold headerRange
    simp only [List.append_assoc]
    rfl
  obtain ⟨u, hu⟩ := hfront first last total type length
  obtain ⟨v, hv⟩ := hfront a e total' type' length'
  rw [hu] at h
  rw [hv] at h'
  obtain ⟨hfirst, h₁, h₁'⟩ := decimal_agree (by decide) (hbehind h) (hbehind h')
  obtain ⟨hlast, -, -⟩ := decimal_agree (by decide) h₁ h₁'
  exact ⟨hfirst, hlast⟩

/-- The string in the send buffer begins with `line`. -/
def Begins (line : Bytes) (r : Response) : Prop := line <+: cstr r.mem

theorem prefix_cstr {line m : Bytes} (hline : NoNul line) (h : line <+: m) : line <+: cstr m := by
  obtain ⟨t, rfl⟩ := h
  rw [cstr, List.takeWhile_append_of_pos fun c hc => by simpa using hline c hc]
  exact List.prefix_append ..

theorem Begins.strcatSend {line : Bytes} {r : Response} (h : Begins line r) (bs : Bytes) :
    Begins line (r.strcatSend bs) := by
  have hkept : cstr r.mem <+: (r.strcatSend bs).mem := by
    have htake : (r.strcatSend bs).mem.take (strlen r.mem) = cstr r.mem := by
      have hbefore : (r.strcatSend bs).mem.take (strlen r.mem) = r.mem.take (strlen r.mem) :=
        take_putSend (Nat.le_refl _)
      exact hbefore.trans (take_length_cstr r.mem)
    rw [← htake]
    exact List.take_prefix ..
  exact List.IsPrefix.trans h (prefix_cstr (noNul_cstr _) hkept)

theorem Begins.sprintfSend {line : Bytes} {r : Response} (hline : NoNul line)
    (hmem : r.mem.length = memSize) (hlen : line.length < memSize) :
    Begins line (r.sprintfSend line) := by
  have htotal : (line ++ [0]).length = line.length + 1 := List.length_append
  have hfits : Response.sendFits 0 (line ++ [0]) := .inr ⟨Int.le_refl 0, by rw [htotal]; omega⟩
  have hput : (r.sprintfSend line).mem = store r.mem 0 (line ++ [0]) := by
    rw [Response.sprintfSend, Response.putSend, if_pos hfits]
    rfl
  rw [Begins, hput, cstr_store_zero hline (by omega)]

theorem Begins.appendCaching {line : Bytes} {r : Response} (h : Begins line r) :
    Begins line (appendCaching r) := by
  have hgzip : Begins line (appendGzip r) := by
    unfold appendGzip
    split
    · exact h.strcatSend _
    · exact h
  have hmodified : Begins line (appendModified (appendGzip r)) := by
    unfold appendModified
    split
    · exact hgzip.strcatSend _
    · exact hgzip.strcatSend _
  unfold Httpd.appendCaching appendMaxAge
  split
  · exact hmodified.strcatSend _
  · exact hmodified

theorem Begins.headersFinish {line : Bytes} {r : Response} (h : Begins line r)
    (hne : line ≠ []) (w : World) (codeInfo : Bytes) : Begins line (headersFinish w r codeInfo) := by
  have hdefault : headersDefault r codeInfo = r := by
    obtain ⟨c, t, rfl⟩ := List.exists_cons_of_ne_nil hne
    obtain ⟨u, hu⟩ := h
    have hc : c ≠ 0 := noNul_cstr r.mem c (by rw [← hu]; exact List.mem_cons_self ..)
    have hmem := cstr_append_drop r.mem
    rw [← hu] at hmem
    unfold headersDefault
    rw [if_neg]
    rw [← hmem]
    exact hc
  have hdate : Begins line (headersDate (headersDefault r codeInfo) w.clock) := by
    rw [hdefault]
    exact ((((h.strcatSend _).strcatSend _).strcatSend _).strcatSend _).strcatSend _
  have hbody : Begins line (headersBody (headersDate (headersDefault r codeInfo) w.clock)) := by
    unfold headersBody
    split
    · exact ((hdate.strcatSend _).strcatSend _).strcatSend _
    · exact hdate
  exact hbody

/-! ## The answer -/

/-- The handler of the request gives out the files of the web root. -/
def ServesFile (h : Request) : Prop :=
  h.handler = some .webApp ∨ (h.handler = some .auth ∧
    hasPrefix h.requestPath webSessionCheck = false ∧
    hasPrefix h.requestPath webLogoutPage = false ∧ isLogin h = false)

/-- A complete GET for a page without tags of `content`, with the range that a `Range:` line
has left. -/
structure RangeGet (s : Sys) (content : Bytes) (a : Nat) (b : Option Nat) : Prop where
  serves : ServesFile s.c.toRequest
  method : s.c.requestMethod = .get
  state : s.c.state = .bodyDone
  result : s.c.result = 0
  mem : s.c.mem.length = memSize
  total : s.c.dwTotal = 0
  line : ∃ s₀ behind n, s.c.rangeFrom = (headerLine s₀ (rangeLine a b behind) n).c.rangeFrom ∧
    s.c.rangeTo = (headerLine s₀ (rangeLine a b behind) n).c.rangeTo
  untagged : isSsiExtension (defaultPath s.c.toResponse).extension = false
  found : FileFound s.call content
  first : a < content.length
  last : ∀ e ∈ b, a ≤ e ∧ e < 2147483647

/-- The state with the header in the send buffer: `CGI_RequestReceived`, as the loop of
`HttpRequestProc` ends with it, and the beginning of `HttpResponseProc`. -/
def answer (s : Sys) : Sys :=
  cgiSetResponseHeaders (beginResponse (roundEnd s 0).1) (codeInfoOf (roundEnd s 0).1.c.result)

/-- The answer the range asks for: its header, and its bytes out of `WEB_ReadContent`,
whatever sizes it is called with. -/
structure RangeAnswered (s : Sys) (content : Bytes) (a stop : Nat) : Prop where
  header : headerRange a ((stop - 1 : Nat) : Int) content.length
    (getContentType (defaultPath s.c.toResponse).extension) ((stop - a : Nat) : Int)
    connectionHeader <+: cstr (answer s).c.mem
  body : ∀ ms : Nat → Int, (∀ i, 0 < ms i) →
    ∃ n, Ended (answer s).c.toRequest (answer s).call ms n ∧
      (∀ j < n, ¬ Ended (answer s).c.toRequest (answer s).call ms j) ∧
      callBytes (answer s).c.toRequest (answer s).call ms n = load content a (stop - a)

/-- The header of the whole file, or of its first byte, fits in the send buffer. -/
def RangeRoom (s : Sys) (content : Bytes) (stop : Nat) : Prop :=
  (headerRange 0 ((stop - 1 : Nat) : Int) content.length
      (getContentType (defaultPath s.c.toResponse).extension) stop connectionHeader).length +
    (if s.c.options.gzip || isGzip (some (load content 0 (min content.length 3))) then 24 else 0) +
    (if s.w.fs.webFtime (defaultPath s.c.toResponse).responsePath = 0 then 82 else 46) ≤ 194

instance (s : Sys) (content : Bytes) (stop : Nat) : Decidable (RangeRoom s content stop) :=
  inferInstanceAs (Decidable (_ ≤ _))

theorem headerLine_range (s : Sys) (a : Nat) (b : Option Nat) (behind : Bytes) (n : Nat) :
    (headerLine s (rangeLine a b behind) n).c.rangeFrom = (parseRange (rangeLine a b behind)).1 ∧
      (headerLine s (rangeLine a b behind) n).c.rangeTo
        = (parseRange (rangeLine a b behind)).2 := by
  have hline : headerLine s (rangeLine a b behind) n =
      (s.setRequest { s.c.toRequest with
        rangeFrom := (parseRange (rangeLine a b behind)).1 }).setResponse { s.c.toResponse with
          rangeTo := (parseRange (rangeLine a b behind)).2 } := by
    rfl
  rw [hline]
  exact ⟨rfl, rfl⟩

theorem ServesFile.received {s : Sys} (h : ServesFile s.c.toRequest) :
    ∃ cgi, cgiRequestReceived s = (s.note (.callback cgi .onRequestReceived)).ofCall
      (webRequestReceived s.c.toRequest s.call) := by
  rcases h with h | ⟨h, hcheck, hlogout, hlogin⟩
  · refine ⟨.webApp, ?_⟩
    rw [cgiRequestReceived, Sys.invoke, h]
    rfl
  · refine ⟨.auth, ?_⟩
    have hreceived : authOnRequestReceived s.c.toRequest s.call
        = webRequestReceived s.c.toRequest s.call := by
      rw [authOnRequestReceived, if_neg (by rw [hcheck]; exact Bool.false_ne_true),
        if_neg (by rw [hlogout]; exact Bool.false_ne_true),
        if_neg (by rw [hlogin]; exact Bool.false_ne_true)]
    rw [cgiRequestReceived, Sys.invoke, h]
    change (s.note _).ofCall (authOnRequestReceived s.c.toRequest s.call) = _
    rw [hreceived]

theorem ServesFile.headers {s : Sys} (h : ServesFile s.c.toRequest) (hresult : s.c.result ≠ codeRedirect)
    (codeInfo : Bytes) :
    let b := { s.c.toResponse with peak := 0 }
    let k := webAppendHeaders s.c.toRequest ⟨s.w, b.putSend 0 [0]⟩ codeInfo
    (cgiSetResponseHeaders s codeInfo).c.toRequest = s.c.toRequest ∧
      (cgiSetResponseHeaders s codeInfo).call = ⟨k.w, headersFinish k.w k.r codeInfo⟩ := by
  intro b k
  have hbegin : headersBegin b = b.putSend 0 [0] := by
    unfold headersBegin
    exact if_neg hresult
  have hcall : (cgiSetResponseHeaders s codeInfo).c.toRequest = s.c.toRequest ∧
      ∀ cgi f, s.c.handler = some cgi → cgi.setResponseHeaders = some f →
        (cgiSetResponseHeaders s codeInfo).call =
          ⟨(f s.c.toRequest ⟨s.w, headersBegin b⟩ codeInfo).w,
            headersFinish (f s.c.toRequest ⟨s.w, headersBegin b⟩ codeInfo).w
              (f s.c.toRequest ⟨s.w, headersBegin b⟩ codeInfo).r codeInfo⟩ := by
    unfold cgiSetResponseHeaders Sys.invoke
    dsimp only [Sys.setResponse]
    cases hcgi : s.c.handler with
    | none => exact ⟨rfl, fun cgi f hc => nomatch hc⟩
    | some cgi =>
      dsimp only
      cases hf : cgi.setResponseHeaders with
      | none =>
        refine ⟨rfl, fun cgi' f hc hf' => ?_⟩
        rw [← Option.some.inj hc, hf] at hf'
        cases hf'
      | some g =>
        refine ⟨rfl, fun cgi' f hc hf' => ?_⟩
        rw [← Option.some.inj hc, hf] at hf'
        cases hf'
        rfl
  refine ⟨hcall.1, ?_⟩
  rcases h with h | ⟨h, -, hlogout, hlogin⟩
  · have hpage := hcall.2 .webApp webAppendHeaders h rfl
    rwa [hbegin] at hpage
  · have hpage := hcall.2 .auth authSetResponseHeaders h rfl
    have hlines : ∀ r : Response, authTokenLines s.c.toRequest r = [] := by
      intro r
      rw [authTokenLines, if_neg (by rw [hlogout]; exact Bool.false_ne_true), if_neg]
      rintro ⟨hl, -⟩
      rw [hlogin] at hl
      cases hl
    have hsame : authSetResponseHeaders s.c.toRequest ⟨s.w, headersBegin b⟩ codeInfo = k := by
      rw [authSetResponseHeaders, hlines, hbegin]
      rfl
    rwa [hsame] at hpage

/-- The state before the header: what `WEB_RequestReceived` leaves, with the counters reset. -/
structure BeforeHeader (s t : Sys) : Prop where
  serves : ServesFile t.c.toRequest
  method : t.c.requestMethod = s.c.requestMethod
  rangeFrom : t.c.rangeFrom = s.c.rangeFrom
  world : t.w = (webRequestReceived s.c.toRequest s.call).w
  index : t.c.dwOperIndex = 0
  stage : t.c.dwOperStage = 0
  response : ∃ result, { t.c.toResponse with peak := 0 } =
    { (webRequestReceived s.c.toRequest s.call).r with
      result := result, dwOperStage := 0, dwOperIndex := 0, peak := 0 } ∧
    result = if (webRequestReceived s.c.toRequest s.call).r.result = 0 then codeOk
      else (webRequestReceived s.c.toRequest s.call).r.result

theorem answer_eq {s : Sys} (hserves : ServesFile s.c.toRequest) (hstate : s.c.state = .bodyDone) :
    ∃ t codeInfo, BeforeHeader s t ∧ codeInfo = codeInfoOf t.c.result ∧
      answer s = cgiSetResponseHeaders t codeInfo := by
  obtain ⟨cgi, hreceived⟩ := hserves.received
  refine ⟨beginResponse (roundEnd s 0).1, codeInfoOf (roundEnd s 0).1.c.result, ?_, rfl, rfl⟩
  have hround : (roundEnd s 0).1 = if (cgiRequestReceived s).c.result = 0
      then (cgiRequestReceived s).setResult codeOk else cgiRequestReceived s := by
    rw [roundEnd, if_pos hstate]
  rw [hround, hreceived]
  by_cases h0 : (webRequestReceived s.c.toRequest s.call).r.result = 0
  · rw [if_pos (show ((s.note _).ofCall (webRequestReceived s.c.toRequest s.call)).c.result = 0 from h0)]
    exact ⟨hserves, rfl, rfl, rfl, rfl, rfl, ⟨codeOk, rfl, (if_pos h0).symm⟩⟩
  · rw [if_neg (show ¬ ((s.note _).ofCall (webRequestReceived s.c.toRequest s.call)).c.result = 0 from h0)]
    exact ⟨hserves, rfl, rfl, rfl, rfl, rfl, ⟨_, rfl, (if_neg h0).symm⟩⟩

/-- The header begins with the line of the range. -/
theorem begins_webAppendHeaders {h : Request} {c : Call} (hmem : c.r.mem.length = memSize)
    (hempty : strlen c.r.mem = 0) (hrange : h.rangeFrom < c.r.rangeTo) (codeInfo : Bytes)
    (hfrom : h.rangeFrom.natAbs < 4294967296) (hto : (min c.r.rangeTo c.r.dwTotal).natAbs < 4294967296)
    (htotal : c.r.dwTotal.natAbs < 4294967296) :
    Begins (headerRange h.rangeFrom (min c.r.rangeTo c.r.dwTotal - 1) c.r.dwTotal
      (getContentType c.r.extension) (wrapLong (min c.r.rangeTo c.r.dwTotal - h.rangeFrom))
      connectionHeader) (webAppendHeaders h c codeInfo).r := by
  obtain ⟨htype, hplain⟩ := getContentType_plain c.r.extension
  have hlen := length_headerRange h.rangeFrom (min c.r.rangeTo c.r.dwTotal - 1) c.r.dwTotal
    (wrapLong (min c.r.rangeTo c.r.dwTotal - h.rangeFrom)) (getContentType c.r.extension)
  have h1 : (decimal h.rangeFrom).length ≤ 11 := length_decimal_le (by omega)
  have h2 : (decimal (min c.r.rangeTo c.r.dwTotal - 1)).length ≤ 11 := length_decimal_le (by omega)
  have h3 : (decimal c.r.dwTotal).length ≤ 11 := length_decimal_le (by omega)
  have h4 : (decimal (wrapLong (min c.r.rangeTo c.r.dwTotal - h.rangeFrom))).length ≤ 11 := by
    obtain ⟨hlow, hhigh⟩ := wrapLong_bounds (min c.r.rangeTo c.r.dwTotal - h.rangeFrom)
    have hmin : longMin = -2147483648 := rfl
    have hmax : longMax = 2147483647 := rfl
    exact length_decimal_le (by omega)
  have hsize : memSize = 512 := rfl
  have hline := noNul_headerRange h.rangeFrom (min c.r.rangeTo c.r.dwTotal - 1) c.r.dwTotal
    (wrapLong (min c.r.rangeTo c.r.dwTotal - h.rangeFrom)) hplain
  generalize hl : headerRange h.rangeFrom (min c.r.rangeTo c.r.dwTotal - 1) c.r.dwTotal
    (getContentType c.r.extension) (wrapLong (min c.r.rangeTo c.r.dwTotal - h.rangeFrom))
      connectionHeader = line at hlen hline
  have hkind : Begins line (appendKind h c codeInfo).r := by
    have hbegin : Begins line ((clipRange c.r).sprintfSend line) :=
      Begins.sprintfSend hline hmem (by omega)
    have hempty' : strlen (clipRange c.r).mem = 0 := hempty
    rw [appendKind, if_pos hrange, appendRange]
    have hsame : beginHeaders (clipRange c.r) (headerRange h.rangeFrom ((clipRange c.r).rangeTo - 1)
        (clipRange c.r).dwTotal (getContentType (clipRange c.r).extension)
        (wrapLong ((clipRange c.r).rangeTo - h.rangeFrom)) connectionHeader)
        = (clipRange c.r).sprintfSend line := by
      rw [beginHeaders, if_pos hempty', ← hl]
      rfl
    dsimp only
    rw [hsame]
    split
    · exact hbegin
    · exact hbegin
  exact hkind.appendCaching

/-- What is known of the response in front of the header, whether the page is new or not. -/
structure RangeBefore (s t : Sys) (a : Nat) (b : Option Nat) (total : Int) : Prop where
  before : BeforeHeader s t
  method : t.c.requestMethod ≠ .none
  result : t.c.result ≠ codeRedirect
  mem : t.c.mem.length = memSize
  extension : t.c.extension = (defaultPath s.c.toResponse).extension
  total : t.c.dwTotal = total
  from_iff : t.c.rangeFrom = a ↔ a = 0 ∧ (b = none ∨ b = some 0)
  from_bounds : longMin ≤ t.c.rangeFrom ∧ t.c.rangeFrom ≤ longMax
  upTo : t.c.rangeTo = b.elim 0x7FFFFFFF fun e => (e : Int) + 1
  ordered : t.c.rangeFrom < t.c.rangeTo

/-- A page of `content` is shorter than `2^31`. -/
theorem FileFound.small {c : Call} {content : Bytes} (h : FileFound c content) :
    content.length < 2147483648 := by
  obtain ⟨_, -, hholds⟩ := h.found
  exact hholds.small

theorem RangeGet.before {s : Sys} {content : Bytes} {a : Nat} {b : Option Nat}
    (h : RangeGet s content a b) :
    ∃ t, RangeBefore s t a b (if NotModified s.c.toRequest s.call then 0 else content.length) ∧
      answer s = cgiSetResponseHeaders t (codeInfoOf t.c.result) := by
  obtain ⟨t, codeInfo, hbefore, rfl, hanswer⟩ := answer_eq h.serves h.state
  refine ⟨t, ?_, hanswer⟩
  have hsmall := h.found.small
  have hfirst := h.first
  obtain ⟨s₀, behind, n, hfrom, hto⟩ := h.line
  obtain ⟨hfrom', hto'⟩ := headerLine_range s₀ a b behind n
  rw [hfrom'] at hfrom
  rw [hto'] at hto
  obtain ⟨first, hparse, hiff, hless, hmin, hmax⟩ := parseRange_rangeLine behind (by omega) h.last
  rw [hparse] at hfrom hto
  dsimp only at hfrom hto
  obtain ⟨fs, fp, -, -, hcall⟩ := webRequestReceived_opened (h := s.c.toRequest) h.found
  have hpath : ∀ r : Response, (defaultPath r).rangeTo = r.rangeTo ∧ (defaultPath r).dwTotal = r.dwTotal ∧
      (defaultPath r).result = r.result := by
    intro r
    rw [defaultPath]
    split
    · exact ⟨rfl, rfl, rfl⟩
    · exact ⟨rfl, rfl, rfl⟩
  obtain ⟨hpto, hptotal, hpresult⟩ := hpath s.c.toResponse
  have hk : (webRequestReceived s.c.toRequest s.call).r.mem.length = memSize ∧
      (webRequestReceived s.c.toRequest s.call).r.rangeTo = s.c.rangeTo ∧
      (webRequestReceived s.c.toRequest s.call).r.extension = (defaultPath s.c.toResponse).extension ∧
      (webRequestReceived s.c.toRequest s.call).r.dwTotal =
        (if NotModified s.c.toRequest s.call then (0 : Int) else (content.length : Int)) ∧
      ((webRequestReceived s.c.toRequest s.call).r.result = 0 ∨
        (webRequestReceived s.c.toRequest s.call).r.result = codeNotModified) := by
    rw [hcall]
    by_cases hn : NotModified s.c.toRequest s.call
    · rw [if_pos hn, if_pos hn]
      exact ⟨(length_store ..).trans ((length_defaultPath _).trans h.mem), hpto, rfl,
        hptotal.trans h.total, .inr rfl⟩
    · rw [if_neg hn, if_neg hn]
      exact ⟨(length_store ..).trans ((length_defaultPath _).trans h.mem), hpto, rfl, rfl,
        .inl (hpresult.trans h.result)⟩
  obtain ⟨hkmem, hkto, hkext, hktotal, hkresult⟩ := hk
  obtain ⟨result, hresponse, hresult⟩ := hbefore.response
  have hfield : ∀ {β : Type} (f : Response → β),
      f { t.c.toResponse with peak := 0 } = f { (webRequestReceived s.c.toRequest s.call).r with
        result := result, dwOperStage := 0, dwOperIndex := 0, peak := 0 } := by
    intro β f
    rw [hresponse]
  refine ⟨hbefore, ?_, ?_, ?_, ?_, ?_, ?_, ?_, ?_, ?_⟩
  · rw [hbefore.method, h.method]
    decide
  · have hsame : t.c.result = result := hfield Response.result
    rw [hsame, hresult]
    rcases hkresult with h0 | h0
    · rw [h0]
      decide
    · rw [h0]
      decide
  · exact (hfield fun r => r.mem.length).trans hkmem
  · exact (hfield Response.extension).trans hkext
  · exact (hfield Response.dwTotal).trans hktotal
  · rw [hbefore.rangeFrom, hfrom]
    exact hiff
  · rw [hbefore.rangeFrom, hfrom]
    exact ⟨hmin, hmax⟩
  · exact (hfield Response.rangeTo).trans (hkto.trans hto)
  · have hsame : t.c.rangeTo = s.c.rangeTo := (hfield Response.rangeTo).trans hkto
    rw [hsame, hbefore.rangeFrom, hfrom, hto]
    exact hless

/-- The response behind the page headers. -/
def pageHead (t : Sys) : Call :=
  webAppendHeaders t.c.toRequest ⟨t.w, ({ t.c.toResponse with peak := 0 } : Response).putSend 0 [0]⟩
    (codeInfoOf t.c.result)

section

variable {s t : Sys} {a : Nat} {b : Option Nat} {total : Int}

theorem RangeBefore.answered (hb : RangeBefore s t a b total) :
    (cgiSetResponseHeaders t (codeInfoOf t.c.result)).c.toRequest = t.c.toRequest ∧
      (cgiSetResponseHeaders t (codeInfoOf t.c.result)).call =
        ⟨(pageHead t).w, headersFinish (pageHead t).w (pageHead t).r (codeInfoOf t.c.result)⟩ :=
  hb.before.serves.headers hb.result (codeInfoOf t.c.result)

/-- The bound of the range is not negative. -/
theorem RangeBefore.upTo_nonneg (hb : RangeBefore s t a b total) : 0 ≤ t.c.rangeTo := by
  rw [hb.upTo]
  cases b with
  | none => decide
  | some e =>
    change (0 : Int) ≤ e + 1
    omega

theorem RangeBefore.begins (hb : RangeBefore s t a b total)
    (htotal : 0 ≤ total ∧ total < 2147483648) :
    headerRange t.c.rangeFrom (min t.c.rangeTo total - 1) total
        (getContentType (defaultPath s.c.toResponse).extension)
        (wrapLong (min t.c.rangeTo total - t.c.rangeFrom)) connectionHeader <+:
      cstr (cgiSetResponseHeaders t (codeInfoOf t.c.result)).c.mem := by
  have hmax : longMax = 2147483647 := rfl
  have hmin : longMin = -2147483648 := rfl
  obtain ⟨hlow, hhigh⟩ := hb.from_bounds
  have hto := hb.upTo_nonneg
  have hclear := headerAt_clear (b := { t.c.toResponse with peak := 0 }) hb.mem rfl
  have hbegins : Begins _ (pageHead t).r := begins_webAppendHeaders (h := t.c.toRequest)
    (c := ⟨t.w, ({ t.c.toResponse with peak := 0 } : Response).putSend 0 [0]⟩) hclear.length
    (Nat.le_zero.mp hclear.string) hb.ordered (codeInfoOf t.c.result) (by omega)
    (show (min t.c.rangeTo t.c.dwTotal).natAbs < 4294967296 by rw [hb.total]; omega)
    (show t.c.dwTotal.natAbs < 4294967296 by rw [hb.total]; omega)
  change Begins (headerRange t.c.rangeFrom (min t.c.rangeTo t.c.dwTotal - 1) t.c.dwTotal
    (getContentType t.c.extension) (wrapLong (min t.c.rangeTo t.c.dwTotal - t.c.rangeFrom))
    connectionHeader) (pageHead t).r at hbegins
  rw [hb.total, hb.extension] at hbegins
  have hwhole := hbegins.headersFinish (by
    intro hnil
    have hlen := congrArg List.length hnil
    rw [length_headerRange, List.length_nil] at hlen
    omega) (pageHead t).w (codeInfoOf t.c.result)
  have hmem : (cgiSetResponseHeaders t (codeInfoOf t.c.result)).c.mem
      = (headersFinish (pageHead t).w (pageHead t).r (codeInfoOf t.c.result)).mem :=
    congrArg (fun k : Call => k.r.mem) hb.answered.2
  rw [hmem]
  exact hwhole

end

/-- An answer to the range was read from the right byte on, and the page was new. -/
theorem RangeAnswered.first {s : Sys} {content : Bytes} {a : Nat} {b : Option Nat}
    (h : RangeGet s content a b) (hanswered : RangeAnswered s content a (rangeStop content.length b)) :
    (a = 0 ∧ (b = none ∨ b = some 0)) ∧ ¬ NotModified s.c.toRequest s.call := by
  obtain ⟨t, hb, hanswer⟩ := h.before
  have hsmall := h.found.small
  have hto := hb.upTo_nonneg
  have hbegins := hb.begins (by
    split
    · decide
    · omega)
  have hheader := hanswered.header
  rw [hanswer] at hheader
  obtain ⟨hfirst, hlast⟩ := headerRange_agree hbegins hheader
  refine ⟨hb.from_iff.mp hfirst, fun hn => ?_⟩
  rw [if_pos hn] at hlast
  omega

/-! ## A range that is honoured -/

theorem strcatSend_dwTotal (r : Response) (bs : Bytes) : (r.strcatSend bs).dwTotal = r.dwTotal := rfl

theorem sprintfSend_dwTotal (r : Response) (bs : Bytes) : (r.sprintfSend bs).dwTotal = r.dwTotal := rfl

theorem appendCaching_dwTotal (r : Response) : (appendCaching r).dwTotal = r.dwTotal := by
  have h1 : (appendGzip r).dwTotal = r.dwTotal := by
    unfold appendGzip
    split
    · exact strcatSend_dwTotal ..
    · rfl
  have h2 : (appendModified (appendGzip r)).dwTotal = (appendGzip r).dwTotal := by
    unfold appendModified
    split
    · exact strcatSend_dwTotal ..
    · exact strcatSend_dwTotal ..
  have h3 : (appendCaching r).dwTotal = (appendModified (appendGzip r)).dwTotal := by
    unfold appendCaching appendMaxAge
    split
    · exact strcatSend_dwTotal ..
    · rfl
  rw [h3, h2, h1]

theorem headersFinish_dwTotal (w : World) (r : Response) (codeInfo : Bytes) :
    (headersFinish w r codeInfo).dwTotal = r.dwTotal := by
  have h1 : (headersDefault r codeInfo).dwTotal = r.dwTotal := by
    unfold headersDefault
    split
    · exact sprintfSend_dwTotal ..
    · rfl
  have h2 : ∀ q : Response, (headersDate q w.clock).dwTotal = q.dwTotal := by
    intro q
    unfold headersDate
    rw [strcatSend_dwTotal, strcatSend_dwTotal, strcatSend_dwTotal, strcatSend_dwTotal,
      strcatSend_dwTotal]
  have h3 : ∀ q : Response, (headersBody q).dwTotal = q.dwTotal := by
    intro q
    unfold headersBody
    split
    · rw [strcatSend_dwTotal, strcatSend_dwTotal, strcatSend_dwTotal]
    · rfl
  exact (h3 _).trans ((h2 _).trans h1)

/-- The range branch of `WEB_AppendHeaders` leaves the file at the first byte of the range. -/
theorem appendRange_open {h : Request} {c : Call} {content : Bytes} (pos off : Nat)
    (hopen : c.w.fs.OpenFile c.r.fileHandle content pos) (hfrom : h.rangeFrom = off)
    (hoff : off ≤ content.length) :
    (appendRange h c).w.fs.OpenFile c.r.fileHandle content off ∧
      (appendRange h c).r.dwTotal = wrapLong (min c.r.rangeTo c.r.dwTotal - off) := by
  obtain ⟨fs, hseek, hopen', -, -⟩ := hopen.webFseek hoff
  have hhandle : ∀ line : Bytes, (beginHeaders (clipRange c.r) line).fileHandle = c.r.fileHandle := by
    intro line
    obtain ⟨_, _, _, _, _, hsame, -⟩ := HeaderFrame.beginHeaders (clipRange c.r) line
    rw [hsame]
    rfl
  rw [appendRange]
  dsimp only
  rw [hfrom, hhandle, hseek]
  exact ⟨hopen', rfl⟩

/-- The compression, date and cache lines of a page without tags. -/
theorem cacheLines_ready {h : Request} {c c' : Call} {content : Bytes} {b : Response}
    (hready : FileReady h c c' content) (hoptions : b.options = c'.r.options)
    (hmem : b.mem = c'.r.mem) : cacheLines b =
      (if c.r.options.gzip || isGzip (some (load content 0 (min content.length 3))) then 24 else 0) +
        (if c.w.fs.webFtime (defaultPath c.r).responsePath = 0 then 82 else 46) := by
  have hgzip : b.options.gzip =
      (c.r.options.gzip || isGzip (some (load content 0 (min content.length 3)))) := by
    have hsame : c'.r.options.gzip = (openResponse h c content).options.gzip := by rw [hready.rest]
    have hpath : (defaultPath c.r).options.gzip = c.r.options.gzip := by
      rw [defaultPath]
      split
      · rfl
      · rfl
    rw [hoptions, hsame, ← hpath]
    rfl
  have hmodified : lastModifiedOf b = lastModifiedOf c'.r := by
    rw [lastModifiedOf, lastModifiedOf, Response.appContext, Response.appContext, hmem]
  have hssi : b.ssi.ssi = 0 := by
    have huntagged := hready.untagged
    rwa [Response.ssi, Response.appContext, ← hmem] at huntagged
  rw [cacheLines, hgzip, hmodified, hready.modified]
  congr 1
  by_cases hzero : c.w.fs.webFtime (defaultPath c.r).responsePath = 0
  · rw [if_pos hzero, if_pos hzero, if_pos rfl]
  · have hlen : (ascii "Last-Modified: " ++ crlf).length = 17 := by decide
    rw [if_neg hzero, if_neg hzero, if_neg (by decide), hlen, if_pos hssi]

/-- With its whole header in the send buffer, the page is ready to be read. -/
theorem RangeBefore.read {s t : Sys} {a : Nat} {b : Option Nat} {content : Bytes}
    (hb : RangeBefore s t a b content.length) (hpos : 0 < content.length)
    (hsmall : content.length < 2147483648)
    (hready : FileReady s.c.toRequest s.call (webRequestReceived s.c.toRequest s.call) content)
    (hfrom : t.c.rangeFrom = 0)
    (hroom : RangeRoom s content (min t.c.rangeTo content.length).toNat) :
    PlainRead content 0 (cgiSetResponseHeaders t (codeInfoOf t.c.result)).call ∧
      (cgiSetResponseHeaders t (codeInfoOf t.c.result)).c.dwOperIndex = 0 ∧
      (cgiSetResponseHeaders t (codeInfoOf t.c.result)).c.dwOperStage = 0 ∧
      (cgiSetResponseHeaders t (codeInfoOf t.c.result)).c.dwTotal = min t.c.rangeTo content.length := by
  have hto := hb.upTo_nonneg
  have hordered := hb.ordered
  have hmin : longMin = -2147483648 := rfl
  have hmax : longMax = 2147483647 := rfl
  obtain ⟨result, hresponse, -⟩ := hb.before.response
  have hindex : ({ t.c.toResponse with peak := 0 } : Response).dwOperIndex = 0 := hb.before.index
  have hstage : ({ t.c.toResponse with peak := 0 } : Response).dwOperStage = 0 := hb.before.stage
  have hrangeTo : ({ t.c.toResponse with peak := 0 } : Response).rangeTo = t.c.rangeTo := rfl
  have htotal : ({ t.c.toResponse with peak := 0 } : Response).dwTotal = content.length := hb.total
  have hextension : ({ t.c.toResponse with peak := 0 } : Response).extension
      = (defaultPath s.c.toResponse).extension := hb.extension
  have hresult : ({ t.c.toResponse with peak := 0 } : Response).result ≠ codeRedirect := hb.result
  have hclear := headerAt_clear (b := { t.c.toResponse with peak := 0 }) hb.mem rfl
  have hcode := length_codeInfoOf t.c.result
  obtain ⟨-, hcall⟩ := hb.answered
  rw [pageHead] at hcall
  generalize ({ t.c.toResponse with peak := 0 } : Response) = b₀
    at hresponse hclear hindex hstage hrangeTo htotal hextension hresult hcall
  have hwhole : ∀ {β : Type} (f : Call → β),
      f (cgiSetResponseHeaders t (codeInfoOf t.c.result)).call = f _ := fun f => congrArg f hcall
  generalize codeInfoOf t.c.result = codeInfo at *
  -- What the header takes.
  have hline : pageLine t.c.toRequest b₀ codeInfo =
      headerRange 0 (((min t.c.rangeTo content.length).toNat - 1 : Nat) : Int) content.length
        (getContentType (defaultPath s.c.toResponse).extension)
        ((min t.c.rangeTo content.length).toNat : Int) connectionHeader := by
    have h4 : min t.c.rangeTo content.length - 1
        = (((min t.c.rangeTo content.length).toNat - 1 : Nat) : Int) := by omega
    have h5 : wrapLong (min t.c.rangeTo content.length - 0)
        = ((min t.c.rangeTo content.length).toNat : Int) := by
      rw [wrapLong_of_fits (by omega) (by omega)]
      omega
    rw [pageLine, hrangeTo, htotal, hextension]
    dsimp only
    rw [if_pos hordered, hfrom, h4, h5]
  have hcache := cacheLines_ready hready (b := b₀) (by rw [hresponse]) (by rw [hresponse])
  have hlines : (pageLine t.c.toRequest b₀ codeInfo).length + cacheLines b₀ ≤ 194 := by
    rw [hline, hcache, ← Nat.add_assoc]
    exact hroom
  have hbuf : maxSendBufSize = 256 := rfl
  have hempty : strlen (b₀.putSend 0 [0]).mem = 0 := Nat.le_zero.mp hclear.string
  have hpage := headerAt_page (h := t.c.toRequest) (w := t.w) (t := codeInfo) hclear
    (pageLine_strcat t.c.toRequest b₀ 0 [0] codeInfo hclear.ssi) (by
      rw [if_pos hempty]
      omega)
  rw [if_pos hempty] at hpage
  have hdate := headerAt_date (webAppendHeaders t.c.toRequest ⟨t.w, b₀.putSend 0 [0]⟩ codeInfo).w.clock
    (headerAt_default hpage hcode) (by omega)
  obtain ⟨n, hfinal⟩ := headerAt_body hdate fun hredirect => absurd hredirect hresult
  obtain ⟨hopen', hsize⟩ := appendRange_open (h := t.c.toRequest) (c := ⟨t.w, b₀.putSend 0 [0]⟩) 0 0 (by
      have hhandle : b₀.fileHandle = (webRequestReceived s.c.toRequest s.call).r.ssi.fp := by
        rw [hresponse]
        exact congrArg Response.fileHandle hready.rest
      change t.w.fs.OpenFile b₀.fileHandle content 0
      rw [hhandle, hb.before.world]
      exact hready.file) hfrom (Nat.zero_le _)
  have hkind : (webAppendHeaders t.c.toRequest ⟨t.w, b₀.putSend 0 [0]⟩ codeInfo).w
        = (appendRange t.c.toRequest ⟨t.w, b₀.putSend 0 [0]⟩).w ∧
      (webAppendHeaders t.c.toRequest ⟨t.w, b₀.putSend 0 [0]⟩ codeInfo).r.dwTotal
        = (appendRange t.c.toRequest ⟨t.w, b₀.putSend 0 [0]⟩).r.dwTotal := by
    have hrange : t.c.rangeFrom < (b₀.putSend 0 [0]).rangeTo := by
      change t.c.rangeFrom < b₀.rangeTo
      rw [hrangeTo]
      exact hordered
    rw [webAppendHeaders, appendKind, if_pos hrange]
    exact ⟨rfl, appendCaching_dwTotal _⟩
  obtain ⟨hworld, hdwTotal⟩ := hkind
  generalize webAppendHeaders t.c.toRequest ⟨t.w, b₀.putSend 0 [0]⟩ codeInfo = k
    at hcall hfinal hworld hdwTotal
  -- The response behind the last line.
  have hssi : (headersFinish k.w k.r codeInfo).ssi
      = (webRequestReceived s.c.toRequest s.call).r.ssi := by
    have hsame : (headersFinish k.w k.r codeInfo).ssi = b₀.ssi := hfinal.ssi
    rw [hsame, hresponse]
    rfl
  obtain ⟨_, _, _, _, _, hframe, -⟩ := hfinal.frame
  have hidx : (headersFinish k.w k.r codeInfo).dwOperIndex = 0 :=
    (congrArg Response.dwOperIndex hframe).trans hindex
  have hstg : (headersFinish k.w k.r codeInfo).dwOperStage = 0 :=
    (congrArg Response.dwOperStage hframe).trans hstage
  have htot : (headersFinish k.w k.r codeInfo).dwTotal = min t.c.rangeTo content.length := by
    rw [headersFinish_dwTotal, hdwTotal, hsize]
    change wrapLong (min b₀.rangeTo b₀.dwTotal - ((0 : Nat) : Int)) = _
    rw [hrangeTo, htotal, wrapLong_of_fits (by omega) (by omega)]
    omega
  have hread : PlainRead content 0 ⟨k.w, headersFinish k.w k.r codeInfo⟩ := by
    refine ⟨?_, ?_, ?_, ?_⟩
    · change (headersFinish k.w k.r codeInfo).ssi.ssi = 0
      rw [hssi]
      exact hready.untagged
    · change 0 ≤ (headersFinish k.w k.r codeInfo).dwOperIndex ∧
        (headersFinish k.w k.r codeInfo).dwOperIndex ≤ (headersFinish k.w k.r codeInfo).dwTotal
      rw [hidx, htot]
      omega
    · change ((0 : Nat) : Int) + (headersFinish k.w k.r codeInfo).dwTotal ≤ content.length
      rw [htot]
      omega
    · change k.w.fs.OpenFile (headersFinish k.w k.r codeInfo).ssi.fp content
        (0 + (headersFinish k.w k.r codeInfo).dwOperIndex.toNat)
      rw [hssi, hidx, hworld]
      have hhandle : (b₀.putSend 0 [0]).fileHandle
          = (webRequestReceived s.c.toRequest s.call).r.ssi.fp := by
        rw [hresponse]
        exact congrArg Response.fileHandle hready.rest
      rw [← hhandle]
      exact hopen'
  refine ⟨?_, ?_, ?_, ?_⟩
  · rw [hcall]
    exact hread
  · exact (congrArg (fun c : Call => c.r.dwOperIndex) hcall).trans hidx
  · exact (congrArg (fun c : Call => c.r.dwOperStage) hcall).trans hstg
  · exact (congrArg (fun c : Call => c.r.dwTotal) hcall).trans htot

/-- The first byte of a page, and the whole page, are what they are asked for. -/
theorem RangeGet.answered {s : Sys} {content : Bytes} {a : Nat} {b : Option Nat}
    (h : RangeGet s content a b) (hzero : a = 0 ∧ (b = none ∨ b = some 0))
    (hnew : ¬ NotModified s.c.toRequest s.call)
    (hroom : RangeRoom s content (rangeStop content.length b)) :
    RangeAnswered s content a (rangeStop content.length b) := by
  obtain ⟨t, hb, hanswer⟩ := h.before
  have hsmall := h.found.small
  have hfirst := h.first
  have hready := webRequestReceived_ready (h := s.c.toRequest) h.found h.mem h.untagged hnew
  have hfrom : t.c.rangeFrom = a := hb.from_iff.mpr hzero
  rw [if_neg hnew] at hb
  obtain ⟨rfl, hb0⟩ := hzero
  have hstop : min t.c.rangeTo content.length = (rangeStop content.length b : Nat) := by
    rw [hb.upTo]
    rcases hb0 with rfl | rfl
    · change min (2147483647 : Int) content.length = (content.length : Nat)
      omega
    · change min (((0 : Nat) : Int) + 1) content.length = (min (0 + 1) content.length : Nat)
      omega
  have hpos : 0 < rangeStop content.length b := by
    rcases hb0 with rfl | rfl
    · exact hfirst
    · change 0 < min (0 + 1) content.length
      omega
  have hbegins := hb.begins (by omega)
  obtain ⟨hread, hindex, hstage, htotal⟩ := hb.read hfirst hsmall hready hfrom (by
    rw [hstop, Int.toNat_natCast]
    exact hroom)
  rw [hstop] at hbegins htotal
  constructor
  · have hlast : ((rangeStop content.length b : Nat) : Int) - 1
        = ((rangeStop content.length b - 1 : Nat) : Int) := by omega
    have hmin : longMin = -2147483648 := rfl
    have hmax : longMax = 2147483647 := rfl
    have hsize : wrapLong (((rangeStop content.length b : Nat) : Int) - ((0 : Nat) : Int))
        = ((rangeStop content.length b - 0 : Nat) : Int) := by
      rw [wrapLong_of_fits (by omega) (by omega)]
      omega
    rw [hfrom, hlast, hsize] at hbegins
    rw [hanswer]
    exact hbegins
  · intro ms hms
    have hmethod : (cgiSetResponseHeaders t (codeInfoOf t.c.result)).c.toRequest.requestMethod
        ≠ .none := by
      rw [hb.answered.1]
      exact hb.method
    obtain ⟨n, hended, hbefore, hbytes⟩ := plain_calls hmethod hread hindex hstage
      (show 0 < (cgiSetResponseHeaders t (codeInfoOf t.c.result)).c.dwTotal by omega) hms
    rw [hanswer]
    refine ⟨n, hended, hbefore, ?_⟩
    rw [hbytes]
    change load content 0 (cgiSetResponseHeaders t (codeInfoOf t.c.result)).c.dwTotal.toNat = _
    rw [htotal, Int.toNat_natCast, Nat.sub_zero]

/-- A range is answered with its bytes only if it is the first byte or the whole page, and the
page is new; and it is, when the header fits. -/
theorem range_answered_iff {s : Sys} {content : Bytes} {a : Nat} {b : Option Nat}
    (h : RangeGet s content a b) :
    (RangeAnswered s content a (rangeStop content.length b) →
      (a = 0 ∧ (b = none ∨ b = some 0)) ∧ ¬ NotModified s.c.toRequest s.call) ∧
    ((a = 0 ∧ (b = none ∨ b = some 0)) ∧ ¬ NotModified s.c.toRequest s.call →
      RangeRoom s content (rangeStop content.length b) →
        RangeAnswered s content a (rangeStop content.length b)) :=
  ⟨RangeAnswered.first h, fun hc hroom => h.answered hc.1 hc.2 hroom⟩

/-! ## Ranges of a page -/

/-- The file that holds `content`. -/
def pageInfo (content : Bytes) : FileInfo := ⟨ascii "/app/page.css", content.length, 1, 1⟩

/-- A server with one page. -/
def pageWorld (content : Bytes) : World :=
  { plainWorld with
    fs := ⟨[pageInfo content], 0 :: content, List.replicate maxFiles closedHandle⟩ }

/-- A complete GET for it, with the range of a `Range:` line. -/
def rangeSys (content : Bytes) (a : Nat) (b : Option Nat) : Sys where
  w := pageWorld content
  c := { setupContext with
    state := .bodyDone
    requestMethod := .get
    handler := some .webApp
    extension := ascii "css"
    responsePath := ascii "/app/page.css"
    rangeFrom := (parseRange (rangeLine a b [])).1
    rangeTo := (parseRange (rangeLine a b [])).2 }
  net := ⟨[], [], [], []⟩

/-- The page is found under its path. -/
theorem fileFound_page {content : Bytes} {c : Call} (hfs : c.w.fs = (pageWorld content).fs)
    (hpath : (defaultPath c.r).responsePath = ascii "/app/page.css") (hlen : content.length < 2147483648) :
    FileFound c content := by
  refine ⟨?_, ⟨closedHandle, ?_, rfl⟩, pageInfo content, ?_, rfl, hlen, ?_⟩
  · rw [hfs]
    exact List.length_replicate
  · rw [hfs]
    exact List.mem_replicate.mpr ⟨by decide, rfl⟩
  · rw [hfs, hpath]
    rfl
  · intro pos n hin
    have hpos : (1 + pos) % 4294967296 = pos + 1 := by omega
    rw [hfs]
    change load (0 :: content) ((1 + pos) % 4294967296) n = _
    rw [hpos]
    rfl

theorem rangeGet_rangeSys {content : Bytes} {a : Nat} {b : Option Nat}
    (hlen : content.length < 2147483648) (hfirst : a < content.length)
    (hlast : ∀ e ∈ b, a ≤ e ∧ e < 2147483647) : RangeGet (rangeSys content a b) content a b := by
  have hline := headerLine_range (rangeSys content a b) a b [] 0
  constructor
  · exact .inl rfl
  · rfl
  · rfl
  · rfl
  · exact List.length_replicate
  · rfl
  · exact ⟨rangeSys content a b, [], 0, hline.1.symm, hline.2.symm⟩
  · exact (show isSsiExtension (ascii "css") = false by decide)
  · exact fileFound_page rfl rfl hlen
  · exact hfirst
  · exact hlast

/-- Thirty bytes. -/
def thirtyBytes : Bytes := ascii "abcdefghijklmnopqrstuvwxyz0123"

/-- The first byte of them is what `bytes=0-0` gets. -/
theorem range_first_byte :
    RangeAnswered (rangeSys thirtyBytes 0 (some 0)) thirtyBytes 0 (rangeStop thirtyBytes.length (some 0)) :=
  (range_answered_iff (rangeGet_rangeSys (by decide) (by decide) (by decide))).2
    ⟨⟨rfl, .inr rfl⟩, by decide +kernel⟩ (by decide +kernel)

/-- The answer to `bytes=10-19` is the range from 0 on. -/
theorem range_first_digit_lost :
    RangeGet (rangeSys thirtyBytes 10 (some 19)) thirtyBytes 10 (some 19) ∧
      ascii "HTTP/1.1 206 Partial Content\r\nContent-Range: bytes 0-19/30\r\n" <+:
        cstr (answer (rangeSys thirtyBytes 10 (some 19))).c.mem ∧
      ¬ RangeAnswered (rangeSys thirtyBytes 10 (some 19)) thirtyBytes 10
        (rangeStop thirtyBytes.length (some 19)) := by
  refine ⟨rangeGet_rangeSys (by decide) (by decide) (by decide),
    by decide +kernel, fun hanswered => ?_⟩
  have hheader := hanswered.header
  revert hheader
  decide +kernel

end Httpd
