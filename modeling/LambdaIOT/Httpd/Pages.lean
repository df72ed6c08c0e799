import Mathlib.Tactic.IntervalCases
import LambdaIOT.Lib.Template
import LambdaIOT.Httpd.Files

/-!
# Pages with tags

The scanner of `WEB_ReadContent` is a scanner of texts with tags: each round over the
cache is a step of it or stops, and refilling and shifting the cache do not change the
text that is still to come. `PageInv` is the invariant of a page between two calls; one
call is `webReadContent_page`.
-/

namespace Httpd

open CMem Template

/-! ## `SSI_Context` in memory -/

namespace SSIContext

/-- The fields have values of their types. -/
structure Fits (x : SSIContext) : Prop where
  valid : -32768 ≤ x.valid ∧ x.valid < 32768
  source : -32768 ≤ x.source ∧ x.source < 32768
  fp : x.fp < 4294967296
  lastModified : x.lastModified.length = 64
  buffer : x.buffer < 4294967296
  options : x.options < 4294967296
  ssi : -32768 ≤ x.ssi ∧ x.ssi < 32768
  ssiState : -32768 ≤ x.ssiState ∧ x.ssiState < 32768
  tagLength : -32768 ≤ x.tagLength ∧ x.tagLength < 32768
  tagName : x.tagName.length = 64
  cacheOffset : -32768 ≤ x.cacheOffset ∧ x.cacheOffset < 32768
  cache : x.cache.length = 64

end SSIContext

@[simp] theorem length_leBytes (k n : Nat) : (leBytes k n).length = k := by
  induction k generalizing n with
  | zero => rfl
  | succ k ih => rw [leBytes, List.length_cons, ih]

theorem leValue_leBytes (k n : Nat) : leValue (leBytes k n) = n % 256 ^ k := by
  induction k generalizing n with
  | zero => rw [Nat.pow_zero, Nat.mod_one]; rfl
  | succ k ih =>
    have hhead : n.toUInt8.toNat = n % 256 := rfl
    rw [leBytes, leValue, ih, hhead, Nat.pow_succ', Nat.mod_mul]

theorem leValue_lt (m : Bytes) : leValue m < 256 ^ m.length := by
  induction m with
  | nil => exact Nat.one_pos
  | cons b m ih =>
    have hb : b.toNat < 256 := b.toNat_lt
    rw [leValue, List.length_cons, Nat.pow_succ]
    omega

@[simp] theorem length_shortBytes (n : Int) : (shortBytes n).length = 2 := length_leBytes ..

@[simp] theorem length_wordBytes (n : Nat) : (wordBytes n).length = 4 := length_leBytes ..

/-- Reading behind a part of known length. -/
theorem load_append_behind {a b : Bytes} {off n : Nat} (h : a.length ≤ off) :
    load (a ++ b) off n = load b (off - a.length) n := by
  rw [load, load, List.drop_append, List.drop_of_length_le h, List.nil_append]

theorem load_append_front {a b : Bytes} {n : Nat} (h : a.length = n) : load (a ++ b) 0 n = a := by
  rw [load, List.drop_zero, List.take_left' h]

theorem shortAt_shortBytes {n : Int} (h : -32768 ≤ n ∧ n < 32768) (rest : Bytes) :
    shortAt (shortBytes n ++ rest) 0 = n := by
  have hmod : leValue (shortBytes n) = (n % 65536).toNat := by
    rw [shortBytes, leValue_leBytes]
    change (n % 65536).toNat % 65536 = _
    omega
  rw [shortAt, load_append_front (length_shortBytes n), hmod]
  split <;> omega

theorem wordAt_wordBytes {n : Nat} (h : n < 4294967296) (rest : Bytes) :
    wordAt (wordBytes n ++ rest) 0 = n := by
  rw [wordAt, load_append_front (length_wordBytes n), wordBytes, leValue_leBytes]
  exact Nat.mod_eq_of_lt h

theorem shortAt_behind {a b : Bytes} {off : Nat} (h : a.length ≤ off) :
    shortAt (a ++ b) off = shortAt b (off - a.length) := by
  rw [shortAt, load_append_behind h, shortAt]

theorem wordAt_behind {a b : Bytes} {off : Nat} (h : a.length ≤ off) :
    wordAt (a ++ b) off = wordAt b (off - a.length) := by
  rw [wordAt, load_append_behind h, wordAt]

theorem length_toBytes {x : SSIContext} (h : x.Fits) : x.toBytes.length = SSIContext.size := by
  simp only [SSIContext.toBytes, List.length_append, length_shortBytes, length_wordBytes,
    h.lastModified, h.tagName, h.cache]
  rfl

/-- What was written is read back. -/
theorem ofBytes_toBytes {x : SSIContext} (h : x.Fits) (rest : Bytes) :
    SSIContext.ofBytes (x.toBytes ++ rest) = x := by
  have hlast := h.lastModified
  have hname := h.tagName
  have hcache := h.cache
  rw [SSIContext.toBytes]
  simp only [List.append_assoc]
  rw [SSIContext.ofBytes]
  simp (disch := simp [*]) only [shortAt_behind, wordAt_behind, load_append_behind,
    length_shortBytes, length_wordBytes, hlast, hname]
  simp only [Nat.reduceSub, Nat.sub_self, shortAt_shortBytes h.valid,
    shortAt_shortBytes h.source, wordAt_wordBytes h.fp, load_append_front hlast,
    wordAt_wordBytes h.buffer, wordAt_wordBytes h.options, shortAt_shortBytes h.ssi,
    shortAt_shortBytes h.ssiState, shortAt_shortBytes h.tagLength, load_append_front hname,
    shortAt_shortBytes h.cacheOffset, load_append_front hcache]

theorem shortAt_bounds (m : Bytes) (off : Nat) :
    -32768 ≤ shortAt m off ∧ shortAt m off < 32768 := by
  have hlt := leValue_lt (load m off 2)
  have hlen : (load m off 2).length ≤ 2 := List.length_take_le ..
  have hpow : 256 ^ (load m off 2).length ≤ 256 ^ 2 := Nat.pow_le_pow_right (by decide) hlen
  rw [shortAt]
  split <;> omega

theorem wordAt_bound (m : Bytes) (off : Nat) : wordAt m off < 4294967296 := by
  have hlt := leValue_lt (load m off 4)
  have hlen : (load m off 4).length ≤ 4 := List.length_take_le ..
  have hpow : 256 ^ (load m off 4).length ≤ 256 ^ 4 := Nat.pow_le_pow_right (by decide) hlen
  rw [wordAt]
  omega

/-- Whatever the memory holds, its fields have values of their types. -/
theorem ofBytes_fits {m : Bytes} (h : SSIContext.size ≤ m.length) :
    (SSIContext.ofBytes m).Fits where
  valid := shortAt_bounds ..
  source := shortAt_bounds ..
  fp := wordAt_bound ..
  lastModified := length_load (Nat.le_trans (by decide) h)
  buffer := wordAt_bound ..
  options := wordAt_bound ..
  ssi := shortAt_bounds ..
  ssiState := shortAt_bounds ..
  tagLength := shortAt_bounds ..
  tagName := length_load (Nat.le_trans (by decide) h)
  cacheOffset := shortAt_bounds ..
  cache := length_load (Nat.le_trans (by decide) h)

theorem ssi_fits {r : Response} (hmem : r.mem.length = memSize) : r.ssi.Fits := by
  refine ofBytes_fits ?_
  rw [Response.appContext, List.length_drop, hmem]
  decide

/-- The context written into the memory is read back. -/
theorem ssi_setSsi {r : Response} {x : SSIContext} (hmem : r.mem.length = memSize) (hx : x.Fits) :
    (r.setSsi x).ssi = x := by
  have hlen : maxSendBufSize + x.toBytes.length ≤ r.mem.length := by
    rw [length_toBytes hx, hmem]
    decide
  have hfront : (r.mem.take maxSendBufSize).length = maxSendBufSize := by
    rw [List.length_take]
    omega
  rw [Response.ssi, Response.appContext, Response.setSsi]
  dsimp only
  rw [store_eq hlen, List.append_assoc, List.drop_left' hfront, ofBytes_toBytes hx]

/-! ## The markers -/

/-- `Strnicmp` does not change what is no letter. -/
theorem toUpper_eq {b c : UInt8} (hc : c < 65) (h : toUpper b = toUpper c) : b = c := by
  have hc' : c.toNat < 65 := UInt8.lt_iff_toNat_lt.mp hc
  have hsame : toUpper c = c := by
    rw [toUpper, if_neg]
    rw [Bool.and_eq_true, decide_eq_true_eq, UInt8.le_iff_toNat_le]
    rintro ⟨hlow, -⟩
    exact absurd (show 97 ≤ c.toNat from hlow) (by omega)
  rw [hsame, toUpper] at h
  split at h
  case isFalse => exact h
  case isTrue hlower =>
    -- A letter turns into a letter.
    rw [Bool.and_eq_true, decide_eq_true_eq, decide_eq_true_eq, UInt8.le_iff_toNat_le,
      UInt8.le_iff_toNat_le] at hlower
    have hlow : 97 ≤ b.toNat := hlower.1
    have hhigh : b.toNat ≤ 122 := hlower.2
    have hcap : 65 ≤ (b &&& 0xDF).toNat := by
      rw [UInt8.toNat_and]
      generalize b.toNat = n at hlow hhigh
      interval_cases n <;> decide
    rw [h] at hcap
    omega

/-- A literal without letters is compared as it is. -/
theorem hasPrefix_iff {s lit : Bytes} (hlit : ∀ c ∈ lit, c ≠ 0 ∧ c < 65) :
    hasPrefix s lit = true ↔ lit <+: s := by
  have hloop : strnicmpLoop (cstr s) lit lit.length = 0 ↔ lit <+: s := by
    induction lit generalizing s with
    | nil =>
      rw [List.length_nil, strnicmpLoop]
      exact iff_of_true rfl List.nil_prefix
    | cons c lit ih =>
      obtain ⟨hne, hlt⟩ := hlit c (List.mem_cons_self ..)
      have hrest := fun s' => ih (s := s') fun d hd => hlit d (List.mem_cons_of_mem _ hd)
      cases s with
      | nil =>
        refine iff_of_false ?_ ?_
        · change ¬ (-1 : Int) = 0
          decide
        · intro h
          exact List.cons_ne_nil _ _ (List.prefix_nil.mp h)
      | cons b s =>
        by_cases hb : b = 0
        · refine iff_of_false ?_ ?_
          · have hcut : cstr (b :: s) = [] := by rw [hb]; rfl
            rw [hcut]
            change ¬ (-1 : Int) = 0
            decide
          · intro h
            rw [List.cons_prefix_cons] at h
            exact hne (h.1.trans hb)
        · have hstring : cstr (b :: s) = b :: cstr s := by
            rw [cstr, List.takeWhile_cons, if_pos (by simpa using hb)]
            rfl
          rw [hstring, List.length_cons, strnicmpLoop, List.cons_prefix_cons]
          by_cases hsame : toUpper b = toUpper c
          · rw [if_neg (by rw [hsame]; omega), hrest s]
            exact ⟨fun h => ⟨(toUpper_eq hlt hsame).symm, h⟩, fun h => h.2⟩
          · have hdiff : ((toUpper b).toNat : Int) - (toUpper c).toNat ≠ 0 := by
              intro h0
              exact hsame (UInt8.toNat_inj.mp (by omega))
            rw [if_pos hdiff]
            refine iff_of_false ?_ ?_
            · split <;> decide
            · rintro ⟨hbc, -⟩
              exact hsame (by rw [hbc])
  have hstr : cstr lit = lit := cstr_eq_self fun c hc => (hlit c hc).1
  rw [hasPrefix, strnicmp, hstr, beq_iff_eq, hloop]

/-- `<!--#` and `-->`. -/
def pageMarkers : Markers UInt8 where
  start := tagStart
  stop := tagEnd
  start_ne := by decide
  stop_ne := by decide
  unbordered := by
    intro k hpos hlt
    have hlen : tagEnd.length = 3 := rfl
    rw [hlen] at hlt
    interval_cases k <;> decide

theorem hasPrefix_tagStart (s : Bytes) : hasPrefix s tagStart = true ↔ tagStart <+: s :=
  hasPrefix_iff (by decide +kernel)

theorem hasPrefix_tagEnd (s : Bytes) : hasPrefix s tagEnd = true ↔ tagEnd <+: s :=
  hasPrefix_iff (by decide +kernel)

/-! ## The scanner as a scanner of texts with tags -/

/-- What a name stands for while `maxSize` bytes are asked for: a tag is replaced at the
start of the output. -/
def tagValue (d : Device) (maxSize : Int) (name : Bytes) : Bytes :=
  replaceTag d name (maxSize - 50)

namespace SsiScan

/-- What the scanner is doing. -/
def mode (s : SsiScan) : Mode UInt8 :=
  if s.x.ssiState = 2 then .name (s.x.tagName.take s.x.tagLength.toNat) else .copy

/-- The part of the cache that is still to be scanned. -/
def window (s : SsiScan) : Bytes := (s.x.cache.take s.x.cacheOffset.toNat).drop s.consumed

/-- The scanner, with the bytes of the file that are not in the cache yet. -/
def toState (s : SsiScan) (unread : Bytes) : State UInt8 := ⟨s.mode, s.window ++ unread, s.out⟩

end SsiScan

/-- The scanner is inside its objects, and `_tagName` is terminated. -/
structure ScanOk (s : SsiScan) : Prop where
  fits : s.x.Fits
  offset : 0 ≤ s.x.cacheOffset ∧ s.x.cacheOffset ≤ 64
  consumed : (s.consumed : Int) ≤ s.x.cacheOffset
  state : s.x.ssiState = 0 ∨ s.x.ssiState = 1 ∨ s.x.ssiState = 2
  length : 0 ≤ s.x.tagLength ∧ s.x.tagLength < 64
  idle : s.x.ssiState ≠ 2 → s.x.tagLength = 0
  ended : at' s.x.tagName s.x.tagLength.toNat = 0

/-- There is something the scanner copies at once. -/
def Emits (rest : Bytes) : Prop :=
  rest ≠ [] ∧ ¬ tagStart <+: rest ∧ (5 ≤ rest.length ∨ rest.head? ≠ some 60)

instance (rest : Bytes) : Decidable (Emits rest) := inferInstanceAs (Decidable (_ ∧ _ ∧ _))

/-- What a call needs of the text before it and of the size: names that fit, and room for
what it puts out. -/
structure Running (maxSize : Int) (t : State UInt8) : Prop where
  fits : NameFits pageMarkers 63 t.mode t.rest
  closing : NameCloses pageMarkers t.mode t.rest → 50 ≤ maxSize
  naming : t.mode ≠ .copy → t.out = []
  copying : t.mode = .copy →
    (t.out.length : Int) < maxSize ∨ (t.out = [] ∧ (Emits t.rest → 1 ≤ maxSize))

section

variable {s : SsiScan} {unread : Bytes} {d : Device} {maxSize : Int}

theorem length_window (h : ScanOk s) : s.window.length = s.x.cacheOffset.toNat - s.consumed := by
  have hcache := h.fits.cache
  have hoff := h.offset
  rw [SsiScan.window, List.length_drop, List.length_take]
  omega

/-- The window is the cache from `consumed` on. -/
theorem window_eq (s : SsiScan) :
    s.window = (s.x.cache.drop s.consumed).take (s.x.cacheOffset.toNat - s.consumed) := by
  rw [SsiScan.window, List.drop_take]

/-- A marker that lies inside the window. -/
theorem prefix_window {lit : Bytes} (h : ScanOk s)
    (hlen : (lit.length : Int) ≤ s.x.cacheOffset - s.consumed) :
    lit <+: s.x.cache.drop s.consumed ↔ lit <+: s.window ++ unread := by
  have hconsumed := h.consumed
  have hwindow : lit.length ≤ s.window.length := by
    rw [length_window h]
    omega
  constructor
  · intro hp
    refine List.IsPrefix.trans ?_ (List.prefix_append ..)
    rw [window_eq]
    refine (List.prefix_take_iff).mpr ⟨hp, ?_⟩
    rw [length_window h] at hwindow
    exact hwindow
  · intro hp
    have hw : lit <+: s.window :=
      List.prefix_of_prefix_length_le hp (List.prefix_append ..) hwindow
    rw [window_eq] at hw
    exact hw.trans (List.take_prefix ..)

/-- The next byte, and what is left behind it. -/
theorem window_cons (h : ScanOk s) (hmore : (s.consumed : Int) < s.x.cacheOffset) :
    s.window = at' s.x.cache s.consumed :: (s.x.cache.take s.x.cacheOffset.toNat).drop (s.consumed + 1) := by
  have hcache := h.fits.cache
  have hoff := h.offset
  have hlt : s.consumed < (s.x.cache.take s.x.cacheOffset.toNat).length := by
    rw [List.length_take]
    omega
  have hlt' : s.consumed < s.x.cache.length := by omega
  rw [SsiScan.window, List.drop_eq_getElem_cons hlt, List.getElem_take, at',
    List.getD_eq_getElem?_getD, List.getElem?_eq_getElem hlt', Option.getD_some]

/-- A byte that is not `<` begins no tag. -/
theorem not_tagStart {c : UInt8} {rest : Bytes} (hc : c ≠ at' tagStart 0) :
    ¬ tagStart <+: c :: rest := by
  intro h
  have hhead : tagStart = at' tagStart 0 :: tagStart.drop 1 := rfl
  rw [hhead, List.cons_prefix_cons] at h
  exact hc h.1.symm

theorem not_tagEnd {c : UInt8} {rest : Bytes} (hc : c ≠ at' tagEnd 0) :
    ¬ tagEnd <+: c :: rest := by
  intro h
  have hhead : tagEnd = at' tagEnd 0 :: tagEnd.drop 1 := rfl
  rw [hhead, List.cons_prefix_cons] at h
  exact hc h.1.symm

/-! ### The rounds -/

/-- What a round does: a step, inside the objects, with the room kept. -/
structure Advanced (d : Device) (maxSize : Int) (unread : Bytes) (s s' : SsiScan) : Prop where
  steps : Steps pageMarkers (tagValue d maxSize) (s.toState unread) (s'.toState unread)
  ok : ScanOk s'
  fine : s'.bad = s.bad
  room : (s'.out.length : Int) ≤ max maxSize 0
  running : s'.ready = false → Running maxSize (s'.toState unread)
  kept : ∃ st len nm, s'.x = { s.x with ssiState := st, tagLength := len, tagName := nm }
  forward : s.consumed ≤ s'.consumed

/-- A byte goes to the output. -/
theorem emit_advanced (h : ScanOk s) (hstate : s.x.ssiState = 1)
    (hmore : (s.consumed : Int) < s.x.cacheOffset)
    (hrun : Running maxSize (s.toState unread))
    (hother : ¬ tagStart <+: s.window ++ unread)
    (hsure : 5 ≤ s.x.cacheOffset - s.consumed ∨ at' s.x.cache s.consumed ≠ at' tagStart 0) :
    Advanced d maxSize unread s (s.emit (at' s.x.cache s.consumed) maxSize) := by
  have hwindow := window_cons h hmore
  have hcopy : s.mode = .copy := by rw [SsiScan.mode, if_neg (by omega)]
  have hwindow' : (s.emit (at' s.x.cache s.consumed) maxSize).window
      = (s.x.cache.take s.x.cacheOffset.toNat).drop (s.consumed + 1) := rfl
  have hmode' : (s.emit (at' s.x.cache s.consumed) maxSize).mode = .copy := hcopy
  have hout' : (s.emit (at' s.x.cache s.consumed) maxSize).out
      = s.out ++ [at' s.x.cache s.consumed] := rfl
  have hlen : ((s.out ++ [at' s.x.cache s.consumed]).length : Int) = s.out.length + 1 := by simp
  have hemits : Emits (s.window ++ unread) := by
    refine ⟨?_, hother, ?_⟩
    · rw [hwindow, List.cons_append]
      exact List.cons_ne_nil _ _
    · rcases hsure with hlong | hne
      · left
        rw [List.length_append, length_window h]
        have hconsumed := h.consumed
        omega
      · right
        rw [hwindow, List.cons_append, List.head?_cons]
        exact fun heq => hne (Option.some.inj heq)
  -- There is room for it, since it is copied at once.
  have hroom : (s.out.length : Int) + 1 ≤ maxSize := by
    rcases hrun.copying hcopy with hlt | ⟨hnil, hone⟩
    · have hlt' : (s.out.length : Int) < maxSize := hlt
      omega
    · have hnil' : s.out = [] := hnil
      rw [hnil']
      exact hone hemits
  constructor
  · refine Relation.ReflTransGen.single ?_
    rw [SsiScan.toState, SsiScan.toState, hcopy, hmode', hwindow', hout', hwindow, List.cons_append]
    refine Step.emit ?_
    rw [← List.cons_append, ← hwindow]
    exact hother
  · exact ⟨h.fits, h.offset, Int.add_one_le_of_lt hmore, h.state, h.length, h.idle, h.ended⟩
  · rfl
  · rw [hout', hlen]
    omega
  · intro hready
    have hnot : ¬ maxSize ≤ (s.out.length + 1 : Int) := of_decide_eq_false hready
    refine ⟨?_, ?_, ?_, ?_⟩
    · rw [SsiScan.toState, hmode']
      trivial
    · rw [SsiScan.toState, hmode']
      exact fun hf => hf.elim
    · intro hne
      exact absurd hmode' hne
    · intro _
      left
      change ((s.out ++ [_]).length : Int) < maxSize
      omega
  · exact ⟨_, _, _, rfl⟩
  · exact Nat.le_succ _

/-- A start marker is taken whole; the call ends there. -/
theorem enter_advanced (h : ScanOk s) (hstate : s.x.ssiState = 1)
    (hsure : 5 ≤ s.x.cacheOffset - s.consumed)
    (hrun : Running maxSize (s.toState unread))
    (hstart : tagStart <+: s.window ++ unread) :
    Advanced d maxSize unread s
      { s with x := { s.x with ssiState := 2 }, consumed := s.consumed + 5, ready := true } := by
  have hcopy : s.mode = .copy := by rw [SsiScan.mode, if_neg (by omega)]
  have hidle : s.x.tagLength = 0 := h.idle (by omega)
  have hconsumed := h.consumed
  have hwindow := length_window h
  have hoff := h.offset
  have hrest : s.window ++ unread = tagStart ++ ((s.x.cache.take s.x.cacheOffset.toNat).drop
      (s.consumed + 5) ++ unread) := by
    have hin : tagStart <+: s.window :=
      List.prefix_of_prefix_length_le hstart (List.prefix_append ..) (by
        have hlen : tagStart.length = 5 := rfl
        omega)
    obtain ⟨behind, hbehind⟩ := hin
    have hdrop : (s.x.cache.take s.x.cacheOffset.toNat).drop (s.consumed + 5) = behind := by
      rw [← List.drop_drop]
      change s.window.drop 5 = behind
      rw [← hbehind]
      exact List.drop_left' (rfl : tagStart.length = 5)
    rw [← hbehind, hdrop, List.append_assoc]
  constructor
  · refine Relation.ReflTransGen.single ?_
    have hname : (s.x.tagName.take s.x.tagLength.toNat) = [] := by
      rw [hidle]
      rfl
    rw [SsiScan.toState, hcopy, hrest]
    change Step pageMarkers _ _ ⟨.name (s.x.tagName.take s.x.tagLength.toNat), _, _⟩
    rw [hname]
    exact Step.enter
  · refine ⟨?_, h.offset, ?_, .inr (.inr rfl), h.length, fun hne => absurd rfl hne, h.ended⟩
    · refine { h.fits with ssiState := ?_ }
      change (-32768 : Int) ≤ 2 ∧ (2 : Int) < 32768
      decide
    · change ((s.consumed + 5 : Nat) : Int) ≤ s.x.cacheOffset
      omega
  · rfl
  · rcases hrun.copying hcopy with hlt | ⟨hnil, -⟩
    · have hlt' : (s.out.length : Int) < maxSize := hlt
      change (s.out.length : Int) ≤ _
      omega
    · have hnil' : s.out = [] := hnil
      change (s.out.length : Int) ≤ _
      rw [hnil']
      exact le_max_right ..
  · intro hready
    cases hready
  · exact ⟨_, _, _, rfl⟩
  · exact Nat.le_add_right ..

/-- A byte goes to the name. -/
theorem collect_advanced (h : ScanOk s) (hstate : s.x.ssiState = 2)
    (hmore : (s.consumed : Int) < s.x.cacheOffset)
    (hrun : Running maxSize (s.toState unread))
    (hother : ¬ tagEnd <+: s.window ++ unread)
    (hsure : 3 ≤ s.x.cacheOffset - s.consumed ∨ at' s.x.cache s.consumed ≠ at' tagEnd 0) :
    Advanced d maxSize unread s (s.collect (at' s.x.cache s.consumed)) := by
  have hwindow := window_cons h hmore
  have hlength := h.length
  have hnameLen := h.fits.tagName
  have hname : s.mode = .name (s.x.tagName.take s.x.tagLength.toNat) := by
    rw [SsiScan.mode, if_pos hstate]
  have hlen : (s.x.tagName.take s.x.tagLength.toNat).length = s.x.tagLength.toNat := by
    rw [List.length_take]
    omega
  have hout : s.out = [] := hrun.naming (by
    change s.mode ≠ _
    rw [hname]
    exact fun hc => nomatch hc)
  -- What is next is no part of a stop marker.
  have hnot : ¬ pageMarkers.stop <+: at' s.x.cache s.consumed ::
      ((s.x.cache.take s.x.cacheOffset.toNat).drop (s.consumed + 1) ++ unread) := by
    rw [← List.cons_append, ← hwindow]
    exact hother
  have hlook : pageMarkers.stop.length
        ≤ ((s.x.cache.take s.x.cacheOffset.toNat).drop (s.consumed + 1) ++ unread).length + 1 ∨
      pageMarkers.stop.head? ≠ some (at' s.x.cache s.consumed) := by
    rcases hsure with hlong | hne
    · left
      have hall := length_window h
      have hconsumed := h.consumed
      rw [hwindow, List.length_cons] at hall
      change 3 ≤ _
      rw [List.length_append]
      omega
    · right
      exact fun heq => hne (Option.some.inj heq).symm
  have hfits : NameFits pageMarkers 63 (.name (s.x.tagName.take s.x.tagLength.toNat))
      (at' s.x.cache s.consumed ::
        ((s.x.cache.take s.x.cacheOffset.toNat).drop (s.consumed + 1) ++ unread)) := by
    have hf : NameFits pageMarkers 63 s.mode (s.window ++ unread) := hrun.fits
    rw [hname, hwindow, List.cons_append] at hf
    exact hf
  obtain ⟨hlimit, hfits'⟩ := hfits.collect hnot hlook
  rw [hlen] at hlimit
  -- The byte and its terminator stay inside `_tagName`.
  have hstore : store s.x.tagName s.x.tagLength.toNat [at' s.x.cache s.consumed, 0]
      = s.x.tagName.take s.x.tagLength.toNat ++ [at' s.x.cache s.consumed, 0] ++
        s.x.tagName.drop (s.x.tagLength.toNat + 2) :=
    store_eq (by
      rw [hnameLen]
      change s.x.tagLength.toNat + 2 ≤ 64
      omega)
  have hnext : (s.x.tagLength + 1).toNat = s.x.tagLength.toNat + 1 := by omega
  have htake : (store s.x.tagName s.x.tagLength.toNat [at' s.x.cache s.consumed, 0]).take
      (s.x.tagLength + 1).toNat
      = s.x.tagName.take s.x.tagLength.toNat ++ [at' s.x.cache s.consumed] := by
    rw [hstore, hnext, List.append_assoc]
    have hsplit : s.x.tagName.take s.x.tagLength.toNat ++
        ([at' s.x.cache s.consumed, 0] ++ s.x.tagName.drop (s.x.tagLength.toNat + 2))
        = (s.x.tagName.take s.x.tagLength.toNat ++ [at' s.x.cache s.consumed]) ++
          (0 :: s.x.tagName.drop (s.x.tagLength.toNat + 2)) := by simp
    rw [hsplit, List.take_left']
    rw [List.length_append, hlen, List.length_singleton]
  have hend : at' (store s.x.tagName s.x.tagLength.toNat [at' s.x.cache s.consumed, 0])
      (s.x.tagLength + 1).toNat = 0 := by
    rw [hstore, hnext, List.append_assoc, at', List.getD_eq_getElem?_getD,
      List.getElem?_append_right (by omega), hlen, Nat.add_sub_cancel_left]
    rfl
  have hmode' : (s.collect (at' s.x.cache s.consumed)).mode
      = .name (s.x.tagName.take s.x.tagLength.toNat ++ [at' s.x.cache s.consumed]) := by
    rw [SsiScan.mode]
    change (if s.x.ssiState = 2 then Mode.name ((store s.x.tagName s.x.tagLength.toNat
      [at' s.x.cache s.consumed, 0]).take (s.x.tagLength + 1).toNat) else .copy) = _
    rw [if_pos hstate, htake]
  have hstate' : (s.collect (at' s.x.cache s.consumed)).toState unread
      = ⟨.name (s.x.tagName.take s.x.tagLength.toNat ++ [at' s.x.cache s.consumed]),
        (s.x.cache.take s.x.cacheOffset.toNat).drop (s.consumed + 1) ++ unread, s.out⟩ := by
    rw [SsiScan.toState, hmode']
    rfl
  constructor
  · refine Relation.ReflTransGen.single ?_
    rw [hstate', SsiScan.toState, hname, hwindow, List.cons_append]
    exact Step.collect hnot
  · refine ⟨?_, h.offset, Int.add_one_le_of_lt hmore, h.state, ?_, ?_, hend⟩
    · refine { h.fits with tagLength := ?_, tagName := ?_ }
      · change -32768 ≤ s.x.tagLength + 1 ∧ s.x.tagLength + 1 < 32768
        omega
      · exact (length_store ..).trans hnameLen
    · change 0 ≤ s.x.tagLength + 1 ∧ s.x.tagLength + 1 < 64
      omega
    · intro hne
      exact absurd hstate hne
  · change (s.bad || !decide (0 ≤ s.x.tagLength ∧ s.x.tagLength + 1 < 64)) = s.bad
    rw [decide_eq_true (by omega)]
    simp
  · change (s.out.length : Int) ≤ _
    rw [hout]
    exact le_max_right ..
  · intro _
    rw [hstate']
    refine ⟨hfits', ?_, fun _ => hout, fun hc => nomatch hc⟩
    intro hclose
    refine hrun.closing ?_
    change NameCloses pageMarkers s.mode (s.window ++ unread)
    rw [hname, hwindow, List.cons_append]
    exact hclose.collect hnot hlook
  · exact ⟨_, _, _, rfl⟩
  · exact Nat.le_succ _

/-- A tag is looked up by the string in `_tagName`. -/
theorem tagText_congr {a b : Bytes} (h : cstr a = cstr b) : tagText d a = tagText d b := by
  have hsame : (fun t : Bytes × (Device → Bytes) => strEq t.1 a) = fun t => strEq t.1 b := by
    funext t
    rw [strEq, strEq, h]
  rw [tagText, tagText, hsame]

/-- What lies behind the terminator of a name is not part of it. -/
theorem cstr_take_ended {m : Bytes} {n : Nat} (hn : n < m.length) (h : at' m n = 0) :
    cstr m = cstr (m.take n) := by
  have hsplit : m = m.take n ++ 0 :: m.drop (n + 1) := by
    have hget : m[n] = 0 := by
      rw [at', List.getD_eq_getElem?_getD, List.getElem?_eq_getElem hn] at h
      exact h
    rw [← hget, ← List.drop_eq_getElem_cons hn, List.take_append_drop]
  have hcut : ∀ a t : Bytes, cstr (a ++ 0 :: t) = cstr a := by
    intro a t
    induction a with
    | nil => rfl
    | cons b a ih =>
      unfold cstr at ih ⊢
      rw [List.cons_append, List.takeWhile_cons, List.takeWhile_cons, ih]
  conv_lhs => rw [hsplit]
  exact hcut ..

/-- The value does not depend on what lies behind the name. -/
theorem replaceTag_name (h : ScanOk s) (k : Int) :
    replaceTag d s.x.tagName k = replaceTag d (s.x.tagName.take s.x.tagLength.toNat) k ∧
      replaceTagLen d s.x.tagName k
        = replaceTagLen d (s.x.tagName.take s.x.tagLength.toNat) k := by
  have hlength := h.length
  have hname := h.fits.tagName
  have htext := tagText_congr (d := d) (cstr_take_ended (m := s.x.tagName)
    (n := s.x.tagLength.toNat) (by omega) h.ended)
  constructor
  · rw [replaceTag, replaceTag, replaceTagLen, replaceTagLen, htext]
  · rw [replaceTagLen, replaceTagLen, htext]

/-- A stop marker is taken whole, and the value of the name goes to the output. -/
theorem replace_advanced (h : ScanOk s) (hstate : s.x.ssiState = 2)
    (hsure : 3 ≤ s.x.cacheOffset - s.consumed) (hrun : Running maxSize (s.toState unread))
    (hstop : tagEnd <+: s.window ++ unread) :
    Advanced d maxSize unread s (s.replace d maxSize) := by
  have hname : s.mode = .name (s.x.tagName.take s.x.tagLength.toNat) := by
    rw [SsiScan.mode, if_pos hstate]
  have hout : s.out = [] := hrun.naming (by
    change s.mode ≠ _
    rw [hname]
    exact fun hc => nomatch hc)
  have hsize : 50 ≤ maxSize := by
    refine hrun.closing ?_
    change NameCloses pageMarkers s.mode (s.window ++ unread)
    rw [hname]
    exact nameCloses_stop hstop
  have hallowed : maxSize - (s.out.length : Int) - 50 = maxSize - 50 := by
    rw [hout]
    simp
  have hwindow := length_window h
  have hconsumed := h.consumed
  have hrest : s.window ++ unread = tagEnd ++ ((s.x.cache.take s.x.cacheOffset.toNat).drop
      (s.consumed + 3) ++ unread) := by
    have hin : tagEnd <+: s.window :=
      List.prefix_of_prefix_length_le hstop (List.prefix_append ..) (by
        have hlen : tagEnd.length = 3 := rfl
        omega)
    obtain ⟨behind, hbehind⟩ := hin
    have hdrop : (s.x.cache.take s.x.cacheOffset.toNat).drop (s.consumed + 3) = behind := by
      rw [← List.drop_drop]
      change s.window.drop 3 = behind
      rw [← hbehind]
      exact List.drop_left' (rfl : tagEnd.length = 3)
    rw [← hbehind, hdrop, List.append_assoc]
  have hvalue : replaceTag d s.x.tagName (maxSize - (s.out.length : Int) - 50)
      = tagValue d maxSize (s.x.tagName.take s.x.tagLength.toNat) := by
    rw [hallowed, (replaceTag_name h _).1]
    rfl
  have hlen : ((s.out ++ replaceTag d s.x.tagName (maxSize - (s.out.length : Int) - 50)).length
      : Int) ≤ maxSize - 50 := by
    rw [hallowed, hout, List.nil_append, length_replaceTag (by omega)]
    exact replaceTagLen_le (by omega)
  constructor
  · refine Relation.ReflTransGen.single ?_
    rw [SsiScan.toState, hname, hrest]
    change Step pageMarkers _ _ ⟨.copy, _, s.out ++ replaceTag d s.x.tagName _⟩
    rw [hvalue]
    exact Step.replace
  · refine ⟨?_, h.offset, ?_, .inl rfl, (show (0 : Int) ≤ 0 ∧ (0 : Int) < 64 by decide),
      fun _ => rfl, rfl⟩
    · refine { h.fits with ssiState := ?_, tagLength := ?_, tagName := List.length_replicate }
      · change (-32768 : Int) ≤ 0 ∧ (0 : Int) < 32768
        decide
      · change (-32768 : Int) ≤ 0 ∧ (0 : Int) < 32768
        decide
    · change ((s.consumed + 3 : Nat) : Int) ≤ s.x.cacheOffset
      omega
  · change (s.bad || decide (replaceTagLen d s.x.tagName (maxSize - s.out.length - 50) < 0)) = s.bad
    have hpos : ¬ replaceTagLen d s.x.tagName (maxSize - s.out.length - 50) < 0 := by
      rw [hallowed, ← length_replaceTag (by omega)]
      omega
    rw [decide_eq_false hpos, Bool.or_false]
  · change ((s.out ++ replaceTag d s.x.tagName _).length : Int) ≤ _
    omega
  · intro _
    refine ⟨trivial, fun hc => hc.elim, fun hne => absurd rfl hne, ?_⟩
    intro _
    left
    change ((s.out ++ replaceTag d s.x.tagName _).length : Int) < maxSize
    omega
  · exact ⟨_, _, _, rfl⟩
  · exact Nat.le_add_right ..

/-- The scanner has taken what it could: at most the beginning of a marker is left. -/
theorem round_advanced (h : ScanOk s) (hstarted : s.x.ssiState = 1 ∨ s.x.ssiState = 2)
    (hmore : (s.consumed : Int) < s.x.cacheOffset)
    (hrun : Running maxSize (s.toState unread)) :
    (∃ s', s.round d maxSize = some s' ∧ Advanced d maxSize unread s s' ∧
        s.consumed < s'.consumed) ∨
      (s.round d maxSize = none ∧ s.window.length < 5) := by
  have hlen := length_window h
  have hoff := h.offset
  have hconsumed := h.consumed
  rw [SsiScan.round]
  dsimp only
  rcases hstarted with hstate | hstate
  · rw [if_pos hstate]
    by_cases hc : at' s.x.cache s.consumed ≠ at' tagStart 0
    · rw [if_pos hc]
      left
      refine ⟨_, rfl, emit_advanced h hstate hmore hrun ?_ (.inr hc), Nat.lt_succ_self _⟩
      rw [window_cons h hmore, List.cons_append]
      exact not_tagStart hc
    · rw [if_neg hc]
      by_cases hfive : 5 ≤ s.x.cacheOffset - s.consumed
      · rw [if_pos hfive]
        have hfront : hasPrefix (s.x.cache.drop s.consumed) tagStart = true ↔
            tagStart <+: s.window ++ unread := by
          rw [hasPrefix_tagStart]
          exact prefix_window h hfive
        left
        by_cases hp : hasPrefix (s.x.cache.drop s.consumed) tagStart = true
        · rw [if_pos hp]
          exact ⟨_, rfl, enter_advanced h hstate hfive hrun (hfront.mp hp),
            Nat.lt_add_of_pos_right (by decide)⟩
        · rw [if_neg hp]
          exact ⟨_, rfl, emit_advanced h hstate hmore hrun (fun hq => hp (hfront.mpr hq))
            (.inl hfive), Nat.lt_succ_self _⟩
      · rw [if_neg hfive]
        right
        exact ⟨rfl, by omega⟩
  · rw [if_neg (by omega), if_pos hstate]
    by_cases hc : at' s.x.cache s.consumed ≠ at' tagEnd 0
    · rw [if_pos hc]
      left
      refine ⟨_, rfl, collect_advanced h hstate hmore hrun ?_ (.inr hc), Nat.lt_succ_self _⟩
      rw [window_cons h hmore, List.cons_append]
      exact not_tagEnd hc
    · rw [if_neg hc]
      by_cases hthree : 3 ≤ s.x.cacheOffset - s.consumed
      · rw [if_pos hthree]
        have hfront : hasPrefix (s.x.cache.drop s.consumed) tagEnd = true ↔
            tagEnd <+: s.window ++ unread := by
          rw [hasPrefix_tagEnd]
          exact prefix_window h hthree
        left
        by_cases hp : hasPrefix (s.x.cache.drop s.consumed) tagEnd = true
        · rw [if_pos hp]
          exact ⟨_, rfl, replace_advanced h hstate hthree hrun (hfront.mp hp),
            Nat.lt_add_of_pos_right (by decide)⟩
        · rw [if_neg hp]
          exact ⟨_, rfl, collect_advanced h hstate hmore hrun (fun hq => hp (hfront.mpr hq))
            (.inl hthree), Nat.lt_succ_self _⟩
      · rw [if_neg hthree]
        right
        exact ⟨rfl, by omega⟩

theorem Advanced.trans {s s' s'' : SsiScan} (h : Advanced d maxSize unread s s')
    (h' : Advanced d maxSize unread s' s'') : Advanced d maxSize unread s s'' where
  steps := h.steps.trans h'.steps
  ok := h'.ok
  fine := h'.fine.trans h.fine
  room := h'.room
  running := h'.running
  kept := by
    obtain ⟨_, _, _, hx⟩ := h.kept
    obtain ⟨_, _, _, hx'⟩ := h'.kept
    exact ⟨_, _, _, by rw [hx', hx]⟩
  forward := h.forward.trans h'.forward

/-- Nothing done yet. -/
theorem Advanced.refl (h : ScanOk s) (hroom : (s.out.length : Int) ≤ max maxSize 0)
    (hrun : s.ready = false → Running maxSize (s.toState unread)) :
    Advanced d maxSize unread s s where
  steps := .refl
  ok := h
  fine := rfl
  room := hroom
  running := hrun
  kept := ⟨_, _, _, rfl⟩
  forward := Nat.le_refl _

/-- A scan that has not begun begins to copy; this is no step. -/
theorem begin_scan (unread : Bytes) (h : ScanOk s) :
    ∃ t, t = (if s.x.ssiState = 0 then { s with x := { s.x with ssiState := 1 } } else s) ∧
      ScanOk t ∧ (t.x.ssiState = 1 ∨ t.x.ssiState = 2) ∧ t.consumed = s.consumed ∧
      t.x.cacheOffset = s.x.cacheOffset ∧ t.toState unread = s.toState unread ∧
      t.ready = s.ready ∧ t.bad = s.bad ∧ t.out = s.out ∧
      ∃ st len nm, t.x = { s.x with ssiState := st, tagLength := len, tagName := nm } := by
  by_cases h0 : s.x.ssiState = 0
  · rw [if_pos h0]
    have hcopy : s.mode = .copy := by rw [SsiScan.mode, if_neg (by omega)]
    have hcopy' : ({ s with x := { s.x with ssiState := 1 } } : SsiScan).mode = .copy := by
      rw [SsiScan.mode]
      exact if_neg (by decide : ¬ (1 : Int) = 2)
    have hsame : ({ s with x := { s.x with ssiState := 1 } } : SsiScan).toState unread
        = s.toState unread := by
      rw [SsiScan.toState, SsiScan.toState, hcopy, hcopy']
      rfl
    refine ⟨_, rfl, ?_, .inl rfl, rfl, rfl, hsame, rfl, rfl, rfl, _, _, _, rfl⟩
    refine ⟨?_, h.offset, h.consumed, .inr (.inl rfl), h.length, fun _ => h.idle (by omega), h.ended⟩
    refine { h.fits with ssiState := ?_ }
    change (-32768 : Int) ≤ 1 ∧ (1 : Int) < 32768
    decide
  · rw [if_neg h0]
    exact ⟨s, rfl, h, h.state.resolve_left h0, rfl, rfl, rfl, rfl, rfl, rfl, _, _, _, rfl⟩

/-- The scan of the cache, by induction on the rounds: it goes on to the end of what it can
tell, or stops because there is something to send. -/
theorem loop_advanced (unread : Bytes) (fuel : Nat) (h : ScanOk s) (hfine : s.bad = false)
    (hroom : (s.out.length : Int) ≤ max maxSize 0)
    (hrun : s.ready = false → Running maxSize (s.toState unread))
    (hfuel : s.x.cacheOffset.toNat - s.consumed ≤ fuel) :
    Advanced d maxSize unread s (SsiScan.loop d maxSize fuel s) ∧
      (((SsiScan.loop d maxSize fuel s).ready = true ∧
          (s.ready = false → s.consumed < (SsiScan.loop d maxSize fuel s).consumed)) ∨
        (SsiScan.loop d maxSize fuel s).window.length < 5) := by
  have hoff := h.offset
  have hconsumed := h.consumed
  have hlen := length_window h
  induction fuel generalizing s with
  | zero =>
    rw [SsiScan.loop]
    exact ⟨.refl h hroom hrun, .inr (by omega)⟩
  | succ fuel ih =>
    rw [SsiScan.loop]
    by_cases hgo : (s.consumed : Int) < s.x.cacheOffset ∧ s.ready = false ∧ s.bad = false
    · rw [if_pos hgo]
      obtain ⟨hmore, hready, -⟩ := hgo
      dsimp only
      obtain ⟨t, ht, hok, hstarted, hcons, hcache, hsame, htready, htfine, hout, hkept⟩ :=
        begin_scan unread h
      rw [← ht]
      have hadv : Advanced d maxSize unread s t := by
        refine ⟨?_, hok, htfine, ?_, ?_, hkept, Nat.le_of_eq hcons.symm⟩
        · rw [hsame]
        · rw [hout]
          exact hroom
        · rw [htready, hsame]
          exact hrun
      rw [hready] at htready
      rw [hfine] at htfine
      have hmore' : (t.consumed : Int) < t.x.cacheOffset := by omega
      rcases round_advanced (d := d) hadv.ok hstarted hmore' (hadv.running htready)
        with ⟨t', hround, hnext, hless⟩ | ⟨hround, hshort⟩
      · rw [hround]
        have hall := hadv.trans hnext
        obtain ⟨_, _, _, hx⟩ := hnext.kept
        have hsame : t'.x.cacheOffset = t.x.cacheOffset := by rw [hx]
        have hrest := ih hnext.ok (hnext.fine.trans htfine) hnext.room hnext.running (by omega)
          hnext.ok.offset hnext.ok.consumed (length_window hnext.ok)
        have hforward := hrest.1.forward
        have hfurther : s.consumed < (SsiScan.loop d maxSize fuel t').consumed := by omega
        exact ⟨hall.trans hrest.1, hrest.2.imp_left fun hsend => ⟨hsend.1, fun _ => hfurther⟩⟩
      · rw [hround]
        exact ⟨hadv, .inr hshort⟩
    · rw [if_neg hgo]
      refine ⟨.refl h hroom hrun, ?_⟩
      by_cases hready : s.ready = true
      · exact .inl ⟨hready, fun hno => by rw [hready] at hno; cases hno⟩
      · right
        have hall : ¬ (s.consumed : Int) < s.x.cacheOffset := fun hlt =>
          hgo ⟨hlt, by simpa using hready, hfine⟩
        omega

/-! ### The cache -/

/-- Shifting the consumed bytes out leaves the scanner where it is. -/
theorem shift_toState (unread : Bytes) (h : ScanOk s) : s.shift.toState unread = s.toState unread := by
  have hoff := h.offset
  have hconsumed := h.consumed
  have hcache := h.fits.cache
  have hn : (s.x.cacheOffset - s.consumed).toNat = s.x.cacheOffset.toNat - s.consumed := by omega
  have hload : load s.x.cache s.consumed (s.x.cacheOffset - s.consumed).toNat = s.window := by
    rw [hn, window_eq, load]
  have hlen := length_window h
  have hwindow : s.shift.window = s.window := by
    change ((store s.x.cache 0 (load s.x.cache s.consumed (s.x.cacheOffset - s.consumed).toNat)).take
      (s.x.cacheOffset - s.consumed).toNat).drop 0 = s.window
    rw [hload, store_eq (by omega), List.take_zero, List.nil_append, List.drop_zero,
      List.take_left' (by omega)]
  rw [SsiScan.toState, SsiScan.toState, hwindow]
  rfl

theorem shift_ok (h : ScanOk s) : ScanOk s.shift := by
  have hoff := h.offset
  have hconsumed := h.consumed
  refine ⟨?_, ?_, ?_, h.state, h.length, h.idle, h.ended⟩
  · refine { h.fits with cacheOffset := ?_, cache := ?_ }
    · change -32768 ≤ s.x.cacheOffset - s.consumed ∧ s.x.cacheOffset - s.consumed < 32768
      omega
    · exact (length_store ..).trans h.fits.cache
  · change 0 ≤ s.x.cacheOffset - s.consumed ∧ s.x.cacheOffset - s.consumed ≤ 64
    omega
  · change (0 : Int) ≤ s.x.cacheOffset - s.consumed
    omega

/-- The cache with `bs` read behind what it holds. -/
def SsiScan.fill (s : SsiScan) (bs : Bytes) : SsiScan :=
  { s with x := { s.x with
      cache := store s.x.cache s.x.cacheOffset.toNat bs
      cacheOffset := s.x.cacheOffset + bs.length } }

theorem fill_ok {bs : Bytes} (h : ScanOk s) (hroom : s.x.cacheOffset + bs.length ≤ 64) :
    ScanOk (s.fill bs) := by
  have hoff := h.offset
  have hconsumed := h.consumed
  refine ⟨?_, ?_, ?_, h.state, h.length, h.idle, h.ended⟩
  · refine { h.fits with cacheOffset := ?_, cache := ?_ }
    · change -32768 ≤ s.x.cacheOffset + bs.length ∧ s.x.cacheOffset + bs.length < 32768
      omega
    · exact (length_store ..).trans h.fits.cache
  · change 0 ≤ s.x.cacheOffset + bs.length ∧ s.x.cacheOffset + bs.length ≤ 64
    omega
  · change (s.consumed : Int) ≤ s.x.cacheOffset + bs.length
    omega

/-- Bytes move from the file into the cache. -/
theorem fill_toState {bs : Bytes} (h : ScanOk s) (hroom : s.x.cacheOffset + bs.length ≤ 64)
    (hfresh : s.consumed = 0) : (s.fill bs).toState unread = s.toState (bs ++ unread) := by
  have hoff := h.offset
  have hcache := h.fits.cache
  have hfront : (s.x.cache.take s.x.cacheOffset.toNat).length = s.x.cacheOffset.toNat := by
    rw [List.length_take]
    omega
  have hn : (s.x.cacheOffset + bs.length).toNat = s.x.cacheOffset.toNat + bs.length := by omega
  have hwindow : (s.fill bs).window = s.window ++ bs := by
    change ((store s.x.cache s.x.cacheOffset.toNat bs).take (s.x.cacheOffset + bs.length).toNat).drop
      s.consumed = _
    rw [SsiScan.window, hfresh, List.drop_zero, List.drop_zero, store_eq (by omega), hn,
      List.take_left']
    rw [List.length_append, hfront]
  rw [SsiScan.toState, SsiScan.toState, hwindow, List.append_assoc]
  rfl

end

/-! ## One call -/

/-- A page between two rounds: the scanner, and the file read up to `_dwOperIndex`. -/
structure PageRead (content : Bytes) (s : SsiRead) : Prop where
  scan : ScanOk s.scan
  fresh : s.scan.consumed = 0
  space : s.scan.x.cacheOffset < 64
  index : 0 ≤ s.dwOperIndex
  file : s.fs.OpenFile s.scan.x.fp content s.dwOperIndex.toNat
  fine : s.scan.bad = false
  read : s.failed = false

namespace SsiRead

/-- The scanner, with the rest of the file. -/
def toState (content : Bytes) (s : SsiRead) : State UInt8 :=
  s.scan.toState (content.drop s.dwOperIndex.toNat)

end SsiRead

/-- What a part of a call does to a page. -/
structure Turned (d : Device) (maxSize : Int) (content : Bytes) (s s' : SsiRead) : Prop where
  page : PageRead content s'
  steps : Steps pageMarkers (tagValue d maxSize) (s.toState content) (s'.toState content)
  room : (s'.scan.out.length : Int) ≤ max maxSize 0
  running : s'.scan.ready = false → Running maxSize (s'.toState content)
  forward : s.dwOperIndex ≤ s'.dwOperIndex
  kept : ∃ st len nm off cache, s'.scan.x = { s.scan.x with
    ssiState := st, tagLength := len, tagName := nm, cacheOffset := off, cache := cache }
  opened : s'.fs.image = s.fs.image ∧ s'.fs.table = s.fs.table

section

variable {content : Bytes} {d : Device} {maxSize : Int}

/-- A round reads what fits into the cache and scans it. -/
theorem ssiRound_turned {s : SsiRead} (h : PageRead content s)
    (hrun : Running maxSize (s.toState content)) (hgo : s.scan.ready = false)
    (hmore : s.dwOperIndex < content.length)
    (hroom : (s.scan.out.length : Int) ≤ max maxSize 0) :
    Turned d maxSize content s (ssiRound d content.length maxSize s) ∧
      s.dwOperIndex < (ssiRound d content.length maxSize s).dwOperIndex := by
  have hscan := h.scan
  have hspace := h.space
  have hoff := hscan.offset
  have hindex := h.index
  have hinside := h.file.inside
  have hcount : 0 ≤ min ((content.length : Int) - s.dwOperIndex) (64 - s.scan.x.cacheOffset) := by
    omega
  obtain ⟨fs', hread, hfile, himage, htable⟩ := h.file.webFread hcount
  generalize hn : min (content.length - s.dwOperIndex.toNat)
    (min ((content.length : Int) - s.dwOperIndex) (64 - s.scan.x.cacheOffset)).toNat = n at hread hfile
  have hnval : (n : Int) = min ((content.length : Int) - s.dwOperIndex)
      (64 - s.scan.x.cacheOffset) := by omega
  have hbs : (load content s.dwOperIndex.toNat n).length = n := length_load (by omega)
  have hfit : s.scan.x.cacheOffset + (load content s.dwOperIndex.toNat n).length ≤ 64 := by
    rw [hbs]
    omega
  -- The bytes read are the next ones of the file.
  have hnext : content.drop s.dwOperIndex.toNat
      = load content s.dwOperIndex.toNat n ++ content.drop (s.dwOperIndex + n).toNat := by
    have hplus : (s.dwOperIndex + n).toNat = s.dwOperIndex.toNat + n := by omega
    rw [hplus, load, ← List.drop_drop, List.take_append_drop]
  have hfilled := fill_ok hscan hfit
  have hsame : (s.scan.fill (load content s.dwOperIndex.toNat n)).toState
      (content.drop (s.dwOperIndex + n).toNat) = s.toState content := by
    rw [fill_toState hscan hfit h.fresh, ← hnext]
    rfl
  have hloop := loop_advanced (d := d) (content.drop (s.dwOperIndex + n).toNat)
    (s := s.scan.fill (load content s.dwOperIndex.toNat n))
    (s.scan.fill (load content s.dwOperIndex.toNat n)).x.cacheOffset.toNat hfilled h.fine hroom
    (fun _ => by rw [hsame]; exact hrun) (Nat.sub_le ..)
  have hround : ssiRound d content.length maxSize s
      = { fs := fs', dwOperIndex := s.dwOperIndex + n
          scan := (SsiScan.loop d maxSize
            (s.scan.fill (load content s.dwOperIndex.toNat n)).x.cacheOffset.toNat
            (s.scan.fill (load content s.dwOperIndex.toNat n))).shift
          failed := false } := by
    rw [ssiRound]
    simp only [if_neg h.file.ne_zero, hread, hbs, SsiScan.fill]
  rw [hround]
  generalize (SsiScan.loop d maxSize
    (s.scan.fill (load content s.dwOperIndex.toNat n)).x.cacheOffset.toNat
    (s.scan.fill (load content s.dwOperIndex.toNat n))) = t at hloop
  obtain ⟨hadv, hstop⟩ := hloop
  obtain ⟨st, len, nm, hx⟩ := hadv.kept
  have hshift := shift_toState (content.drop (s.dwOperIndex + n).toNat) hadv.ok
  have hnonneg := hadv.ok.offset
  refine ⟨⟨⟨shift_ok hadv.ok, rfl, ?_, by dsimp only; omega, ?_, ?_, rfl⟩, ?_, hadv.room, ?_, ?_, ?_,
    himage, htable⟩, ?_⟩
  · change t.x.cacheOffset - t.consumed < 64
    rcases hstop with ⟨-, hsome⟩ | hshort
    · have htaken : (s.scan.fill (load content s.dwOperIndex.toNat n)).consumed < t.consumed :=
        hsome hgo
      omega
    · have hlen := length_window hadv.ok
      omega
  · change fs'.OpenFile t.x.fp content (s.dwOperIndex + n).toNat
    have hfp : t.x.fp = s.scan.x.fp := by rw [hx]; rfl
    have hplus : (s.dwOperIndex + n).toNat = s.dwOperIndex.toNat + n := by omega
    rw [hfp, hplus]
    exact hfile
  · exact hadv.fine.trans h.fine
  · change Steps pageMarkers _ _ (t.shift.toState (content.drop (s.dwOperIndex + n).toNat))
    rw [hshift, ← hsame]
    exact hadv.steps
  · intro hready
    change Running maxSize (t.shift.toState (content.drop (s.dwOperIndex + n).toNat))
    rw [hshift]
    exact hadv.running hready
  · dsimp only
    omega
  · refine ⟨st, len, nm, t.x.cacheOffset - t.consumed, t.shift.x.cache, ?_⟩
    change { t.x with cacheOffset := t.x.cacheOffset - t.consumed, cache := t.shift.x.cache } = _
    rw [hx]
    rfl
  · dsimp only
    omega

theorem Turned.trans {s s' s'' : SsiRead} (h : Turned d maxSize content s s')
    (h' : Turned d maxSize content s' s'') : Turned d maxSize content s s'' where
  page := h'.page
  steps := h.steps.trans h'.steps
  room := h'.room
  running := h'.running
  forward := h.forward.trans h'.forward
  kept := by
    obtain ⟨_, _, _, _, _, hx⟩ := h.kept
    obtain ⟨_, _, _, _, _, hx'⟩ := h'.kept
    exact ⟨_, _, _, _, _, by rw [hx', hx]⟩
  opened := ⟨h'.opened.1.trans h.opened.1, h'.opened.2.trans h.opened.2⟩

theorem Turned.refl {s : SsiRead} (h : PageRead content s)
    (hroom : (s.scan.out.length : Int) ≤ max maxSize 0)
    (hrun : s.scan.ready = false → Running maxSize (s.toState content)) :
    Turned d maxSize content s s where
  page := h
  steps := .refl
  room := hroom
  running := hrun
  forward := le_refl _
  kept := ⟨_, _, _, _, _, rfl⟩
  opened := ⟨rfl, rfl⟩

/-- The rounds of a call, by induction on them; each reads at least a byte. They end with
something to send, or with the file. -/
theorem ssiLoop_turned (fuel : Nat) {s : SsiRead} (h : PageRead content s)
    (hroom : (s.scan.out.length : Int) ≤ max maxSize 0)
    (hrun : s.scan.ready = false → Running maxSize (s.toState content))
    (hfuel : (content.length - s.dwOperIndex).toNat ≤ fuel) :
    Turned d maxSize content s (ssiLoop d content.length maxSize fuel s) ∧
      ((ssiLoop d content.length maxSize fuel s).scan.ready = true ∨
        (content.length : Int) ≤ (ssiLoop d content.length maxSize fuel s).dwOperIndex) ∧
      (s.scan.ready = false → s.dwOperIndex < content.length →
        s.dwOperIndex < (ssiLoop d content.length maxSize fuel s).dwOperIndex) := by
  induction fuel generalizing s with
  | zero =>
    have hend : ¬ (s.dwOperIndex < content.length ∧ s.scan.ready = false) := by
      rintro ⟨hlt, -⟩
      omega
    rw [ssiLoop, if_neg hend]
    exact ⟨.refl h hroom hrun, .inr (by omega), fun _ hlt => absurd hlt (by omega)⟩
  | succ fuel ih =>
    rw [ssiLoop]
    by_cases hgo : s.dwOperIndex < content.length ∧ s.scan.ready = false ∧ s.scan.bad = false ∧
        s.failed = false
    · rw [if_pos hgo]
      obtain ⟨hmore, hready, -, -⟩ := hgo
      obtain ⟨hturn, hnext⟩ := ssiRound_turned (d := d) h (hrun hready) hready hmore hroom
      obtain ⟨hrest, hstop, -⟩ := ih hturn.page hturn.room hturn.running (by omega)
      have hforward := hrest.forward
      exact ⟨hturn.trans hrest, hstop, fun _ _ => by omega⟩
    · rw [if_neg hgo]
      refine ⟨.refl h hroom hrun, ?_, fun hready hlt => absurd ⟨hlt, hready, h.fine, h.read⟩ hgo⟩
      by_cases hready : s.scan.ready = true
      · exact .inl hready
      · right
        by_contra hlt
        exact hgo ⟨by omega, by simpa using hready, h.fine, h.read⟩

/-! ## A page between two calls -/

/-- The scanner at the start of a call. -/
def pageScan (r : Response) : SsiScan := ⟨r.ssi, [], 0, false, false⟩

/-- A page with tags between two calls of `WEB_ReadContent`: the scanner is inside its
objects and the file is open and read up to `_dwOperIndex`. -/
structure PageInv (content : Bytes) (c : Call) : Prop where
  mem : c.r.mem.length = memSize
  scan : ScanOk (pageScan c.r)
  space : c.r.ssi.cacheOffset < 64
  tags : 0 < c.r.ssi.ssi
  index : 0 ≤ c.r.dwOperIndex
  total : c.r.dwTotal = content.length
  file : c.w.fs.OpenFile c.r.ssi.fp content c.r.dwOperIndex.toNat
  fine : c.r.fault = false

/-- What is still to come: the mode, and the rest of the page. -/
def pageState (content : Bytes) (c : Call) : State UInt8 :=
  (pageScan c.r).toState (content.drop c.r.dwOperIndex.toNat)

/-- A call while the file is not read to its end. -/
theorem webReadSsi_page {c : Call} (h : PageInv content c)
    (hmore : c.r.dwOperIndex < content.length)
    (hrun : Running maxSize (pageState content c)) :
    PageInv content (webReadSsi c maxSize).call ∧
      (webReadSsi c maxSize).call.w.dev = c.w.dev ∧
      (webReadSsi c maxSize).size = (webReadSsi c maxSize).out.length ∧
      Steps pageMarkers (tagValue c.w.dev maxSize) (pageState content c)
        { pageState content (webReadSsi c maxSize).call with out := (webReadSsi c maxSize).out } ∧
      ((webReadSsi c maxSize).out.length : Int) ≤ max maxSize 0 ∧
      c.r.dwOperIndex < (webReadSsi c maxSize).call.r.dwOperIndex ∧
      (webReadSsi c maxSize).call.r.dwOperStage =
        if (webReadSsi c maxSize).call.r.dwOperIndex = content.length ∧
            (webReadSsi c maxSize).call.r.ssi.cacheOffset = 0 then stageEnd
        else (c.r.dwOperStage + 1) % 4294967296 := by
  have hpage : PageRead content ⟨c.w.fs, c.r.dwOperIndex, pageScan c.r, false⟩ :=
    ⟨h.scan, rfl, h.space, h.index, h.file, rfl, rfl⟩
  have hempty : (((pageScan c.r).out.length : Nat) : Int) ≤ max maxSize 0 := le_max_right ..
  have hindex := h.index
  obtain ⟨hturn, -, hnext⟩ := ssiLoop_turned (d := c.w.dev)
    (2 * (c.r.dwTotal - c.r.dwOperIndex).toNat + 2) hpage hempty (fun _ => hrun) (by
      rw [h.total]
      dsimp only
      omega)
  rw [← h.total] at hturn hnext
  have hforward := hnext rfl (by rw [h.total]; exact hmore)
  have hcall : webReadSsi c maxSize =
      let s := ssiLoop c.w.dev c.r.dwTotal maxSize
        (2 * (c.r.dwTotal - c.r.dwOperIndex).toNat + 2) ⟨c.w.fs, c.r.dwOperIndex, pageScan c.r, false⟩
      ⟨{ w := { c.w with fs := s.fs }
         r := webAdvance ({ c.r with dwOperIndex := s.dwOperIndex }.setSsi s.scan.x) s.scan.x.ssi
           s.scan.x.cacheOffset }, s.scan.out.length, s.scan.out⟩ := by
    have hfine := hturn.page.fine
    have hread := hturn.page.read
    rw [webReadSsi]
    change (if (ssiLoop _ _ _ _ ⟨c.w.fs, c.r.dwOperIndex, pageScan c.r, false⟩).scan.bad then _
      else if (ssiLoop _ _ _ _ ⟨c.w.fs, c.r.dwOperIndex, pageScan c.r, false⟩).failed then _
      else _) = _
    rw [hfine, hread]
    rfl
  rw [hcall]
  dsimp only
  generalize ssiLoop c.w.dev c.r.dwTotal maxSize
    (2 * (c.r.dwTotal - c.r.dwOperIndex).toNat + 2)
    ⟨c.w.fs, c.r.dwOperIndex, pageScan c.r, false⟩ = s at hturn hforward
  have hscan := hturn.page.scan
  have hwrite : ({ c.r with dwOperIndex := s.dwOperIndex }.setSsi s.scan.x).ssi = s.scan.x :=
    ssi_setSsi h.mem hscan.fits
  have hadvance : ∀ r : Response, ∀ a b,
      (webAdvance r a b).ssi = r.ssi ∧ (webAdvance r a b).dwOperIndex = r.dwOperIndex ∧
      (webAdvance r a b).dwTotal = r.dwTotal ∧ (webAdvance r a b).mem = r.mem ∧
      (webAdvance r a b).fault = r.fault ∧
      (webAdvance r a b).dwOperStage =
        if r.dwTotal ≤ r.dwOperIndex ∧ ¬(0 < a ∧ 0 < b) then stageEnd
        else (r.dwOperStage + 1) % 4294967296 := by
    intro r a b
    rw [webAdvance]
    split
    · exact ⟨rfl, rfl, rfl, rfl, rfl, rfl⟩
    · exact ⟨rfl, rfl, rfl, rfl, rfl, rfl⟩
  obtain ⟨hssi, hidx, htotal, hmem, hfault, hstage⟩ := hadvance
    ({ c.r with dwOperIndex := s.dwOperIndex }.setSsi s.scan.x) s.scan.x.ssi s.scan.x.cacheOffset
  rw [hwrite] at hssi
  obtain ⟨st, len, nm, off, cache, hkept⟩ := hturn.kept
  have hsame : pageScan (webAdvance ({ c.r with dwOperIndex := s.dwOperIndex }.setSsi s.scan.x)
      s.scan.x.ssi s.scan.x.cacheOffset) = ⟨s.scan.x, [], 0, false, false⟩ := by
    rw [pageScan, hssi]
  refine ⟨⟨?_, ?_, ?_, ?_, ?_, ?_, ?_, ?_⟩, rfl, rfl, ?_, hturn.room, ?_, ?_⟩
  · rw [hmem]
    exact (length_store ..).trans h.mem
  · rw [hsame]
    have hfresh := hturn.page.fresh
    refine ⟨hscan.fits, hscan.offset, hscan.offset.1, hscan.state, hscan.length, hscan.idle,
      hscan.ended⟩
  · rw [hssi]
    exact hturn.page.space
  · rw [hssi, hkept]
    exact h.tags
  · rw [hidx]
    exact hturn.page.index
  · rw [htotal]
    exact h.total
  · rw [hssi, hidx]
    exact hturn.page.file
  · rw [hfault]
    exact h.fine
  · have hstate : { pageState content ⟨{ c.w with fs := s.fs },
          webAdvance ({ c.r with dwOperIndex := s.dwOperIndex }.setSsi s.scan.x) s.scan.x.ssi
            s.scan.x.cacheOffset⟩ with out := s.scan.out } = s.toState content := by
      rw [pageState]
      dsimp only
      rw [hsame, hidx]
      have hfresh := hturn.page.fresh
      rw [SsiRead.toState, SsiScan.toState, SsiScan.toState, SsiScan.window, SsiScan.window,
        hfresh]
      rfl
    rw [hstate]
    exact hturn.steps
  · rw [hidx]
    exact hforward
  · have hinside := hturn.page.file.inside
    have htags : 0 < s.scan.x.ssi := by
      rw [hkept]
      exact h.tags
    have hoff := hscan.offset
    have hnonneg := hturn.page.index
    have htot := h.total
    rw [hidx, hssi, hstage]
    change (if c.r.dwTotal ≤ s.dwOperIndex ∧ ¬(0 < s.scan.x.ssi ∧ 0 < s.scan.x.cacheOffset) then
        stageEnd else (c.r.dwOperStage + 1) % 4294967296)
      = if s.dwOperIndex = content.length ∧ s.scan.x.cacheOffset = 0 then stageEnd
        else (c.r.dwOperStage + 1) % 4294967296
    by_cases hend : s.dwOperIndex = content.length ∧ s.scan.x.cacheOffset = 0
    · rw [if_pos hend, if_pos (by omega)]
    · rw [if_neg hend, if_neg]
      rintro ⟨hle, hcache⟩
      exact hend ⟨by omega, by omega⟩

/-- A call that finds the file read to its end: the cache goes out as it is. -/
theorem webReadEnd_page {c : Call} (h : PageInv content c) (hend : c.r.dwOperIndex = content.length) :
    (webReadEnd c).out = (pageState content c).rest ∧
      (webReadEnd c).call.r.dwOperStage = stageEnd ∧ (webReadEnd c).call.r.fault = false ∧
      (webReadEnd c).call.w = c.w ∧ (webReadEnd c).call.r.ssi = { c.r.ssi with cacheOffset := 0 } := by
  have hoff : 0 ≤ c.r.ssi.cacheOffset ∧ c.r.ssi.cacheOffset ≤ 64 := h.scan.offset
  have hfits : c.r.ssi.Fits := h.scan.fits
  have hcache := hfits.cache
  have hrest : (pageState content c).rest = c.r.ssi.cache.take c.r.ssi.cacheOffset.toNat := by
    change c.r.ssi.cache.take c.r.ssi.cacheOffset.toNat ++ content.drop c.r.dwOperIndex.toNat = _
    rw [hend, Int.toNat_natCast, List.drop_length, List.append_nil]
  have hout : load c.r.appContext 152 c.r.ssi.cacheOffset.toNat
      = c.r.ssi.cache.take c.r.ssi.cacheOffset.toNat := by
    change _ = ((c.r.appContext.drop 152).take 64).take c.r.ssi.cacheOffset.toNat
    rw [List.take_take, load]
    congr 1
    omega
  have hlen : (c.r.ssi.cache.take c.r.ssi.cacheOffset.toNat).length = c.r.ssi.cacheOffset.toNat := by
    rw [List.length_take]
    omega
  rw [hrest]
  rw [webReadEnd]
  dsimp only
  by_cases hsome : 0 < c.r.ssi.ssi ∧ 0 < c.r.ssi.cacheOffset
  · rw [if_pos hsome, hout, if_pos hlen]
    refine ⟨rfl, rfl, h.fine, rfl, ?_⟩
    refine ssi_setSsi h.mem ?_
    exact { hfits with cacheOffset := (show (-32768 : Int) ≤ 0 ∧ (0 : Int) < 32768 by decide) }
  · rw [if_neg hsome]
    have hzero : c.r.ssi.cacheOffset = 0 := by
      have htags := h.tags
      omega
    refine ⟨?_, rfl, h.fine, rfl, ?_⟩
    · rw [hzero]
      rfl
    · change c.r.ssi = _
      rw [← hzero]

end

end Httpd
