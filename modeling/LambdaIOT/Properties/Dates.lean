import LambdaIOT.Httpd.Dates
import LambdaIOT.Httpd.Downloads
import LambdaIOT.Httpd.Reach

/-!
# Dates that are written and read back

`gmt4http` writes the seven fields of a date at fixed columns, and `parseHttpDate` reads six of
them there. Each field is read back, so the date is, because `mktime` and `gmtime` are inverse.
-/

namespace Httpd

open CMem

/-! ## Numbers of a fixed width -/

theorem decimal_eq {n : Int} (hn : 0 ≤ n) : decimal n = decimalNat n.toNat := by
  have habs : n.natAbs = n.toNat := by omega
  rw [decimal, if_neg (by omega), habs]

theorem length_decimal_width {n : Int} {k : Nat} (hn : 0 ≤ n) (hk : 0 < k) (h : n < 10 ^ k) :
    (decimal n).length ≤ k := by
  have hlt : n.toNat < 10 ^ k := by
    have hcast : ((10 ^ k : Nat) : Int) = 10 ^ k := by norm_cast
    omega
  rw [decimal_eq hn, decimalNat]
  exact length_positional_le (by decide) hk hlt

theorem length_twoDigits {n : Int} (hn : 0 ≤ n) (h : n < 100) : (twoDigits n).length = 2 := by
  have hlen := length_decimal_width (k := 2) hn (by decide) (by omega)
  rw [twoDigits, zeroPad, List.length_append, List.length_replicate]
  omega

/-- A year of four digits. -/
theorem length_decimal_year {n : Int} (hn : 1000 ≤ n) (h : n ≤ 9999) : (decimal n).length = 4 := by
  have hle := length_decimal_width (k := 4) (show 0 ≤ n by omega) (by decide) (by omega)
  have hdigits : 4 ≤ (Nat.digits 10 n.toNat).length := by
    change 3 < _
    rw [Nat.lt_digits_length_iff (by decide)]
    omega
  have hlen : (decimal n).length = (Nat.digits 10 n.toNat).length := by
    rw [decimal_eq (by omega), decimalNat, positional, if_neg (by omega), List.length_reverse,
      List.length_map]
  omega

/-- A number with zeros in front is read back. -/
theorem atol_twoDigits {n : Int} (hn : 0 ≤ n) (h : n < 100) {rest : Bytes}
    (hrest : ∀ c ∈ rest.head?, isDigit c = false) : atol (twoDigits n ++ rest) = n := by
  have hdigits : ∀ c ∈ twoDigits n, isDigit c = true := by
    intro c hc
    rw [twoDigits, zeroPad, List.mem_append] at hc
    rcases hc with hc | hc
    · rw [(List.mem_replicate.mp hc).2]
      decide
    · rw [decimal_eq hn] at hc
      exact decimalNat_digits _ c hc
  have hne : twoDigits n ≠ [] := by
    intro hnil
    have hlen := length_twoDigits hn h
    rw [hnil] at hlen
    cases hlen
  rw [atol_append hne hdigits hrest, twoDigits, positionalValue_zeroPad, decimal_eq hn, decimalNat,
    positionalValue_positional _ (by decide) (by decide)]
  have hmax : longMax = 2147483647 := rfl
  omega

/-! ## The columns -/

/-- A date line, its fields at the columns where `parseHttpDate` reads them. -/
structure DateColumns (s mday mon year hour min sec : Bytes) (rest : Bytes) : Prop where
  mday : s.drop 5 = mday ++ 32 :: (mon ++ 32 :: (year ++ 32 :: (hour ++ 58 ::
    (min ++ 58 :: (sec ++ rest)))))
  mon : s.drop 8 = mon ++ 32 :: (year ++ 32 :: (hour ++ 58 :: (min ++ 58 :: (sec ++ rest))))
  year : s.drop 12 = year ++ 32 :: (hour ++ 58 :: (min ++ 58 :: (sec ++ rest)))
  hour : s.drop 17 = hour ++ 58 :: (min ++ 58 :: (sec ++ rest))
  min : s.drop 20 = min ++ 58 :: (sec ++ rest)
  sec : s.drop 23 = sec ++ rest

theorem dateColumns {wday mday mon year hour min sec : Bytes} (hwday : wday.length = 3)
    (hmday : mday.length = 2) (hmon : mon.length = 3) (hyear : year.length = 4)
    (hhour : hour.length = 2) (hmin : min.length = 2) (rest : Bytes) :
    DateColumns (wday ++ 44 :: 32 :: (mday ++ 32 :: (mon ++ 32 :: (year ++ 32 ::
      (hour ++ 58 :: (min ++ 58 :: (sec ++ rest))))))) mday mon year hour min sec rest := by
  obtain ⟨w₁, w₂, w₃, rfl⟩ := List.length_eq_three.mp hwday
  obtain ⟨d₁, d₂, rfl⟩ := List.length_eq_two.mp hmday
  obtain ⟨m₁, m₂, m₃, rfl⟩ := List.length_eq_three.mp hmon
  obtain ⟨h₁, h₂, rfl⟩ := List.length_eq_two.mp hhour
  obtain ⟨n₁, n₂, rfl⟩ := List.length_eq_two.mp hmin
  match year, hyear with
  | [y₁, y₂, y₃, y₄], _ => exact ⟨rfl, rfl, rfl, rfl, rfl, rfl⟩

/-! ## The names of the months -/

theorem length_monName {k : Nat} (hk : k < 12) : (monName.getD k []).length = 3 := by
  interval_cases k <;> rfl

theorem length_wdayName {k : Nat} (hk : k < 7) : (wdayName.getD k []).length = 3 := by
  interval_cases k <;> rfl

/-- `Strnicmp` does not look behind the text it compares. -/
theorem strnicmpLoop_append {a : Bytes} (b t : Bytes) {n : Nat} (hn : n ≤ a.length) :
    strnicmpLoop (a ++ t) b n = strnicmpLoop a b n := by
  induction n generalizing a b with
  | zero =>
    rw [strnicmpLoop, strnicmpLoop]
  | succ n ih =>
    obtain ⟨x, a, rfl⟩ := List.exists_cons_of_length_pos (Nat.lt_of_lt_of_le (Nat.succ_pos n) hn)
    cases b with
    | nil => rfl
    | cons y b =>
      rw [List.cons_append, strnicmpLoop, strnicmpLoop, ih b (Nat.le_of_succ_le_succ hn)]

theorem strnicmp_append {a : Bytes} (ha : NoNul a) (b t : Bytes) {n : Nat} (hn : n ≤ a.length) :
    strnicmp (a ++ t) b n = strnicmp a b n := by
  have hcut : cstr (a ++ t) = a ++ cstr t :=
    List.takeWhile_append_of_pos fun c hc => by simpa using ha c hc
  rw [strnicmp, strnicmp, hcut, cstr_eq_self ha, strnicmpLoop_append _ _ hn]

theorem noNul_monName {k : Nat} (hk : k < 12) : NoNul (monName.getD k []) := by
  interval_cases k <;> decide

/-- A month is found by its name, whatever follows it. -/
theorem findIdx_monName {k : Nat} (hk : k < 12) (rest : Bytes) :
    (monName.findIdx? fun name => strnicmp (monName.getD k [] ++ rest) name 3 == 0) = some k := by
  have hname : ∀ k < 12,
      (monName.findIdx? fun name => strnicmp (monName.getD k []) name 3 == 0) = some k := by
    decide
  have hlen := length_monName hk
  rw [← hname k hk]
  congr 1
  funext name
  rw [strnicmp_append (noNul_monName hk) name rest hlen.ge]

/-! ## The round trip -/

/-- The text of a date, its fields in columns. -/
theorem gmtText_columns {tm : Tm} (htm : tm.Valid) (hyear : 1000 ≤ 1900 + tm.tmYear)
    (hyear' : 1900 + tm.tmYear ≤ 9999) (rest : Bytes) :
    DateColumns (gmtText tm ++ rest) (twoDigits tm.tmMday) (monName.getD tm.tmMon.toNat [])
      (decimal (1900 + tm.tmYear)) (twoDigits tm.tmHour) (twoDigits tm.tmMin) (twoDigits tm.tmSec)
      (ascii " GMT" ++ rest) := by
  have hwday := htm.wday
  have hmday := htm.mday
  have hmon := htm.mon
  have hhour := htm.hour
  have hmin := htm.min
  have htext : gmtText tm ++ rest = wdayName.getD tm.tmWday.toNat [] ++ 44 :: 32 ::
      (twoDigits tm.tmMday ++ 32 :: (monName.getD tm.tmMon.toNat [] ++ 32 ::
        (decimal (1900 + tm.tmYear) ++ 32 :: (twoDigits tm.tmHour ++ 58 ::
          (twoDigits tm.tmMin ++ 58 :: (twoDigits tm.tmSec ++ (ascii " GMT" ++ rest))))))) := by
    have hcomma : ascii ", " = [44, 32] := by decide
    have hblank : ascii " " = [32] := by decide
    have hcolon : ascii ":" = [58] := by decide
    unfold gmtText
    rw [hcomma, hblank, hcolon]
    simp only [List.append_assoc, List.cons_append, List.nil_append]
  rw [htext]
  exact dateColumns (length_wdayName (by omega)) (length_twoDigits (by omega) (by omega))
    (length_monName (by omega)) (length_decimal_year hyear hyear')
    (length_twoDigits (by omega) (by omega)) (length_twoDigits (by omega) (by omega)) _

/-- The six fields that make a time are read back from their columns. -/
theorem parseHttpDate_gmtText {tm : Tm} (htm : tm.Valid) (hyear : 1000 ≤ 1900 + tm.tmYear)
    (hyear' : 1900 + tm.tmYear ≤ 9999) (rest : Bytes) :
    parseHttpDate (gmtText tm ++ rest) =
      mktime (1900 + tm.tmYear) tm.tmMon tm.tmMday tm.tmHour tm.tmMin tm.tmSec := by
  have hcol := gmtText_columns htm hyear hyear' rest
  have hmon := htm.mon
  have hmday := htm.mday
  have hhour := htm.hour
  have hmin := htm.min
  have hsec := htm.sec
  have hblank : ∀ t : Bytes, ∀ c ∈ (32 :: t : Bytes).head?, isDigit c = false := by
    rintro t c ⟨⟩
    rfl
  have hcolon : ∀ t : Bytes, ∀ c ∈ (58 :: t : Bytes).head?, isDigit c = false := by
    rintro t c ⟨⟩
    rfl
  have hyearValue : atol ((gmtText tm ++ rest).drop 12) = 1900 + tm.tmYear := by
    have hmax : longMax = 2147483647 := rfl
    rw [hcol.year, decimal_eq (by omega), atol_decimalNat (by omega) (hblank _)]
    omega
  have hmonValue : (monName.findIdx? fun name => strnicmp ((gmtText tm ++ rest).drop 8) name 3 == 0)
      = some tm.tmMon.toNat := by
    rw [hcol.mon]
    exact findIdx_monName (by omega) _
  unfold parseHttpDate
  rw [hyearValue, hmonValue, hcol.mday, atol_twoDigits (by omega) (by omega) (hblank _), hcol.hour,
    atol_twoDigits (by omega) (by omega) (hcolon _), hcol.min,
    atol_twoDigits (by omega) (by omega) (hcolon _), hcol.sec,
    atol_twoDigits (by omega) (by omega) (show ∀ c ∈ (ascii " GMT" ++ rest).head?, _ from hblank _)]
  have hback : (Int.ofNat tm.tmMon.toNat) = tm.tmMon := by
    rw [Int.ofNat_eq_natCast]
    omega
  dsimp only [Option.elim_some]
  rw [hback]

theorem length_gmtText {tm : Tm} (htm : tm.Valid) (hyear : 1000 ≤ 1900 + tm.tmYear)
    (hyear' : 1900 + tm.tmYear ≤ 9999) : (gmtText tm).length = 29 := by
  have hsec := htm.sec
  have hcol := (gmtText_columns htm hyear hyear' []).sec
  have hlen := congrArg List.length hcol
  have hgmt : (ascii " GMT").length = 4 := rfl
  rw [List.length_drop, List.append_nil, List.length_append, List.append_nil,
    length_twoDigits (by omega) (by omega), hgmt] at hlen
  omega

/-- **A date that `gmt4http` writes is read back by `parseHttpDate`.** -/
theorem parseHttpDate_gmt4http (t : Int) (out : Bytes) (maxSize : Int)
    (hyear : 1000 ≤ 1900 + (gmtime t).tmYear) (hyear' : 1900 + (gmtime t).tmYear ≤ 9999)
    (hmax : 31 ≤ maxSize) (hint : maxSize < 2147483648) (hout : maxSize ≤ out.length) :
    parseHttpDate (gmt4http t out maxSize) = t := by
  have htm := gmtime_valid t
  have hlen := length_gmtText htm hyear hyear'
  have hsize : ((maxSize - 1) % 4294967296).toNat = (maxSize - 1).toNat := by omega
  have hwritten : snprintf ((maxSize - 1) % 4294967296).toNat (gmtText (gmtime t)) =
      gmtText (gmtime t) ++ [0] := by
    rw [hsize, snprintf, if_neg (by omega), List.take_of_length_le (by omega)]
  have hmem : gmt4http t out maxSize = gmtText (gmtime t) ++ (0 :: out.drop 30) := by
    rw [gmt4http, hwritten, store_eq (by
      rw [List.length_append, hlen, List.length_singleton]; omega), List.length_append, hlen,
      List.take_zero, List.nil_append, List.append_assoc]
    rfl
  rw [hmem, parseHttpDate_gmtText htm hyear hyear', mktime_gmtime]

theorem parseHttpDate_gmt4http_last :
    parseHttpDate (gmt4http 253402300799 (List.replicate 40 0) 31) = 253402300799 :=
  parseHttpDate_gmt4http 253402300799 (List.replicate 40 0) 31 (by decide)
    (by decide) (by decide) (by decide) (by decide)

/-! ## Conditional requests

`WEB_RequestReceived` puts the date of the file behind `Last-Modified: ` with `WEB_ftime`, which
does not write its buffer in this build. -/

/-- The path of the response, without tags, opens an entry that was last modified at `t`. -/
structure Opens (c : Call) (t : Nat) : Prop where
  untagged : isSsiExtension (defaultPath c.r).extension = false
  entry : ∃ i info, filePtr (c.w.fs.webFopen (defaultPath c.r).responsePath (ascii "rb")).2 = .slot i ∧
    ((c.w.fs.webFopen (defaultPath c.r).responsePath (ascii "rb")).1.handle i).pFileInfo = some info ∧
    info.tLastModified = t
  dated : 0 < t

/-- The line that `WEB_AppendHeaders` appends for the date of the file denotes `t`. -/
def CarriesDate (r : Response) (t : Int) : Prop :=
  ∃ v, lastModifiedOf r = ascii "Last-Modified: " ++ v ++ crlf ∧ parseHttpDate v = t

/-- What a line `If-Modified-Since: ` with the value `v` sets `_ifModified` to. -/
def ifModifiedSince (v : Bytes) : Int :=
  parseHttpDate ((ascii "If-Modified-Since: " ++ v ++ [0]).drop 19)

/-- The round trip of the date `t` of a path: the first answer carries it, `WEB_ftime` returns
it, and a later GET that sends it back gets 304, one with an earlier date the whole file. -/
structure DateRoundTrip (h : Request) (c : Call) (t : Nat) : Prop where
  sound : (webRequestReceived { h with ifModified := 0 } c).r.fault = false
  carries : CarriesDate (webRequestReceived { h with ifModified := 0 } c).r t
  time : c.w.fs.webFtime (defaultPath c.r).responsePath = t
  same : ∀ v, lastModifiedOf (webRequestReceived { h with ifModified := 0 } c).r =
      ascii "Last-Modified: " ++ v ++ crlf →
    (webRequestReceived { h with ifModified := ifModifiedSince v } c).r.result = codeNotModified
  earlier : ∀ v, ifModifiedSince v < t →
    (webRequestReceived { h with ifModified := ifModifiedSince v } c).r.result ≠ codeNotModified

theorem lastModifiedOf_openContext {r : Response} {c : Call} {fp : Nat}
    (hmem : r.mem.length = memSize) (huntagged : isSsiExtension (defaultPath c.r).extension = false)
    (hfp : fp < 4294967296) (line : Bytes)
    (hshort : strlen (store SSIContext.zero.lastModified 0 line) < 64) :
    lastModifiedOf (r.setSsi
      { SSIContext.zero with
        valid := 1, ssi := 0, fp := fp, lastModified := store SSIContext.zero.lastModified 0 line }) =
      cstr (store SSIContext.zero.lastModified 0 line) := by
  have hcontext : openContext c fp line = { SSIContext.zero with
      valid := 1, ssi := 0, fp := fp, lastModified := store SSIContext.zero.lastModified 0 line } := by
    rw [openContext, huntagged]
    rfl
  have hx := ssi_setSsi hmem (openContext_fits c hfp line)
  rw [← hcontext, lastModifiedOf_ssi ((length_store ..).trans hmem) (by rw [hx]; exact hshort), hx]
  rfl

/-- The date line of an open file, when nothing has gone wrong: it has no date in it. -/
theorem lastModified_opened {h : Request} {c : Call} {t : Nat} (hopens : Opens c t)
    (hmem : c.r.mem.length = memSize)
    (hsound : (webRequestReceived { h with ifModified := 0 } c).r.fault = false) :
    lastModifiedOf (webRequestReceived { h with ifModified := 0 } c).r = [] ∨
      lastModifiedOf (webRequestReceived { h with ifModified := 0 } c).r =
        ascii "Last-Modified: " ++ crlf := by
  obtain ⟨i, info, hslot, -, -⟩ := hopens.entry
  have huntagged := hopens.untagged
  have hne : (c.w.fs.webFopen (defaultPath c.r).responsePath (ascii "rb")).2 ≠ 0 := by
    intro hzero
    rw [hzero] at hslot
    cases hslot
  have hfp := filePtr_slot hslot
  rw [webRequestReceived] at hsound ⊢
  simp only [ne_eq, hne, not_false_eq_true, if_true, huntagged, Bool.false_eq_true, if_false] at hsound ⊢
  rw [webFileOpened] at hsound ⊢
  cases hread : (c.w.fs.webFopen (defaultPath c.r).responsePath (ascii "rb")).1.webFread
      (c.w.fs.webFopen (defaultPath c.r).responsePath (ascii "rb")).2 3 with
  | none =>
    rw [hread] at hsound
    cases hsound
  | some read =>
    obtain ⟨fs, flag⟩ := read
    simp only [ne_eq, not_true_eq_false, false_and, and_false, if_false]
    generalize (if flag.isSome = true then _ else fs : FileSystem) = fs'
    have hcontext := fun r hmem line hshort =>
      lastModifiedOf_openContext (r := r) (c := c) hmem huntagged hfp line hshort
    by_cases htime : fs'.webFtime (defaultPath c.r).responsePath = 0
    · left
      rw [htime]
      refine (hcontext _ ?_ (0 :: ascii "ast-Modified: " ++ [0]) (by decide)).trans ?_
      · exact (length_defaultPath c.r).trans hmem
      · decide
    · right
      rw [if_neg htime]
      refine (hcontext _ ?_ (ascii "Last-Modified: " ++ crlf ++ [0]) (by decide)).trans ?_
      · exact (length_defaultPath c.r).trans hmem
      · decide

/-- **No date of any file makes the round trip: the header never carries it.** -/
theorem conditional_get_round_trip (h : Request) (c : Call) (t : Nat) (hopens : Opens c t)
    (hmem : c.r.mem.length = memSize) : ¬ DateRoundTrip h c t := by
  intro htrip
  obtain ⟨v, hline, hdate⟩ := htrip.carries
  have hpos := hopens.dated
  rcases lastModified_opened hopens hmem htrip.sound with hnone | hempty
  · rw [hnone] at hline
    have hlen := congrArg List.length hline
    rw [List.length_append, List.length_append] at hlen
    have h15 : (ascii "Last-Modified: ").length = 15 := rfl
    rw [List.length_nil, h15] at hlen
    omega
  · rw [hempty, List.append_assoc, List.append_cancel_left_eq] at hline
    -- Nothing stands between the colon and the end of the line, and that denotes no time.
    have hv : v = [] := by
      have hlen := congrArg List.length hline
      rw [List.length_append] at hlen
      exact List.length_eq_zero_iff.mp (by omega)
    rw [hv] at hdate
    have hyear : parseHttpDate [] < 0 := by decide
    omega

/-- The answer to a GET of `path` on a server with one page, changed on 2 October 2015. -/
def datedCall (path extension : Bytes) : Call where
  w := { plainWorld with
    fs := ⟨[⟨ascii "/app/page.css", 4, 1443770880, 1⟩], 0 :: ascii "p {}",
      List.replicate maxFiles closedHandle⟩ }
  r := { setupContext.toResponse with extension := extension, responsePath := path }

theorem opens_datedCall : Opens (datedCall (ascii "/app/page.css") (ascii "css")) 1443770880 where
  untagged := by decide
  entry := ⟨0, ⟨ascii "/app/page.css", 4, 1443770880, 1⟩, by decide⟩
  dated := by decide

theorem conditional_get_round_trip_page : ¬ DateRoundTrip setupContext.toRequest
    (datedCall (ascii "/app/page.css") (ascii "css")) 1443770880 :=
  conditional_get_round_trip _ _ _ opens_datedCall (by decide +kernel)

/-- The date line of the page has no date, so a client that sends it back gets the file again;
a fake file is opened under a path that has no date at all. -/
theorem conditional_get_round_trip_dateless :
    let page := datedCall (ascii "/app/page.css") (ascii "css")
    let fake := datedCall (ascii "/files/@@FakeFile001MB.dat") (ascii "dat")
    let get (c : Call) (ifModified : Int) : Call :=
      webRequestReceived { setupContext.toRequest with ifModified := ifModified } c
    lastModifiedOf (get page 0).r = ascii "Last-Modified: \r\n" ∧
      (get page (ifModifiedSince [])).r.result ≠ codeNotModified ∧
      (fake.w.fs.webFopen fake.r.responsePath (ascii "rb")).2 ≠ 0 ∧
      fake.w.fs.webFtime fake.r.responsePath = 0 ∧ lastModifiedOf (get fake 0).r = [] := by
  decide +kernel

end Httpd
