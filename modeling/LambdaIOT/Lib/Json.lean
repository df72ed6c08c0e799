import LambdaIOT.Lib.CLib
import Mathlib.Data.List.Forall2

/-!
# JSON texts

A reader for JSON in the fragment without escapes, fractions and exponents: what it accepts is
JSON, and a text outside the fragment is refused. `value` reads one value off the front of a text
and leaves what is behind it, so how texts are put together is said by what they read as in front
of any rest (`Reads`).
-/

namespace Json

open CMem

inductive Value where
  | null
  | bool (b : Bool)
  | num (n : Int)
  | str (s : Bytes)
  | arr (vs : List Value)
  | obj (fields : List (Bytes × Value))

/-- Blank, tab, line feed, carriage return. -/
def isBlank (c : UInt8) : Bool := c == 32 || c == 9 || c == 10 || c == 13

def skipBlanks (s : Bytes) : Bytes := s.dropWhile isBlank

/-- A character that stands for itself in a string. -/
def plain (c : UInt8) : Bool := 32 ≤ c && c != 34 && c != 92

/-- A string behind its opening quote, and what is behind the closing one. -/
def stringBody (s : Bytes) : Option (Bytes × Bytes) :=
  match s.dropWhile plain with
  | 34 :: rest => some (s.takeWhile plain, rest)
  | _ => none

/-- A number without a sign; a zero in front of other digits is refused. -/
def natural (s : Bytes) : Option (Nat × Bytes) :=
  match s.takeWhile isDigit with
  | [] => none
  | 48 :: _ :: _ => none
  | ds => some (positionalValue 10 ds, s.dropWhile isDigit)

/-- A number or one of the three names. -/
def scalar (s : Bytes) : Option (Value × Bytes) :=
  if (ascii "null").isPrefixOf s then some (.null, s.drop 4)
  else if (ascii "true").isPrefixOf s then some (.bool true, s.drop 4)
  else if (ascii "false").isPrefixOf s then some (.bool false, s.drop 5)
  else
    match s with
    | 45 :: s => (natural s).map fun n => (.num (-n.1), n.2)
    | s => (natural s).map fun n => (.num n.1, n.2)

/-- A name, the colon and the value. -/
def field (item : Bytes → Option (Value × Bytes)) (s : Bytes) :
    Option ((Bytes × Value) × Bytes) :=
  match skipBlanks s with
  | 34 :: s =>
    match stringBody s with
    | none => none
    | some (k, s) =>
      match skipBlanks s with
      | 58 :: s => (item s).map fun v => ((k, v.1), v.2)
      | _ => none
  | _ => none

/-- Items with commas between them and a closing character, at most `n` of them. -/
def separated {α : Type} (close : UInt8) (item : Bytes → Option (α × Bytes)) :
    Nat → Bytes → Option (List α × Bytes)
  | 0, _ => none
  | n + 1, s =>
    match item s with
    | none => none
    | some (v, s) =>
      match skipBlanks s with
      | [] => none
      | c :: s =>
        if c = 44 then (separated close item n s).map fun vs => (v :: vs.1, vs.2)
        else if c = close then some ([v], s)
        else none

/-- The value at the front of a text, nested at most `depth` deep. -/
def value : Nat → Bytes → Option (Value × Bytes)
  | 0, _ => none
  | depth + 1, s =>
    match skipBlanks s with
    | 34 :: s => (stringBody s).map fun b => (.str b.1, b.2)
    | 91 :: s =>
      match skipBlanks s with
      | 93 :: s => some (.arr [], s)
      | _ => (separated 93 (value depth) (s.length + 1) s).map fun vs => (.arr vs.1, vs.2)
    | 123 :: s =>
      match skipBlanks s with
      | 125 :: s => some (.obj [], s)
      | _ => (separated 125 (field (value depth)) (s.length + 1) s).map fun kvs => (.obj kvs.1, kvs.2)
    | s => scalar s

/-- The value a text denotes. A value cannot be nested deeper than its text is long. -/
def parse (s : Bytes) : Option Value :=
  match value (s.length + 1) s with
  | none => none
  | some (v, rest) => if skipBlanks rest = [] then some v else none

/-! ## How texts are put together -/

/-- What may follow a number. -/
def Stops (rest : Bytes) : Prop := ∀ c ∈ rest.head?, isDigit c = false

/-- `item` takes `t` for `v`, whatever stops it. -/
def Reads {α : Type} (item : Bytes → Option (α × Bytes)) (t : Bytes) (v : α) : Prop :=
  ∀ rest, Stops rest → item (t ++ rest) = some (v, rest)

theorem stops_nil : Stops [] := by simp [Stops]

theorem stops_cons {c : UInt8} (hc : isDigit c = false) (rest : Bytes) : Stops (c :: rest) := by
  simpa [Stops] using hc

theorem skipBlanks_cons {c : UInt8} (hc : isBlank c = false) (s : Bytes) :
    skipBlanks (c :: s) = c :: s := by
  simp [skipBlanks, hc]

/-! ### Strings and numbers -/

theorem stringBody_plain {b : Bytes} (hb : ∀ c ∈ b, plain c = true) (rest : Bytes) :
    stringBody (b ++ 34 :: rest) = some (b, rest) := by
  have hquote : plain 34 = false := by decide
  rw [stringBody, List.dropWhile_append_of_pos hb, List.takeWhile_append_of_pos hb]
  simp [hquote]

theorem reads_str (depth : Nat) {b : Bytes} (hb : ∀ c ∈ b, plain c = true) :
    Reads (value (depth + 1)) (34 :: (b ++ [34])) (.str b) := by
  intro rest _
  have hbody : stringBody (b ++ [34] ++ rest) = some (b, rest) := by
    simpa using stringBody_plain hb rest
  rw [List.cons_append, value, skipBlanks_cons (by decide)]
  change (stringBody (b ++ [34] ++ rest)).map _ = _
  rw [hbody]
  rfl

/-- Only zero itself is written with a zero in front. -/
theorem decimalNat_head {n : Nat} {ds : Bytes} (h : decimalNat n = 48 :: ds) : ds = [] := by
  by_cases hn : n < 10
  · have hlen : (decimalNat n).length ≤ 1 :=
      length_positional_le (by decide) (by decide) (by omega)
    rw [h, List.length_cons] at hlen
    exact List.length_eq_zero_iff.mp (by omega)
  · obtain ⟨c, ds', heq, -, hlt⟩ := decimalNat_cons (n := n) (by omega)
    have hsum : positionalValue 10 (decimalNat n) = n :=
      positionalValue_positional n (by decide) (by decide)
    obtain ⟨rfl, rfl⟩ : c = 48 ∧ ds' = ds := by simpa [heq] using h
    have hzero : digitValue 48 = 0 := by decide
    rw [heq, positionalValue_cons, hzero] at hsum
    omega

theorem natural_decimalNat (n : Nat) {rest : Bytes} (hrest : Stops rest) :
    natural (decimalNat n ++ rest) = some (n, rest) := by
  have htake : rest.takeWhile isDigit = [] := by
    cases rest with
    | nil => rfl
    | cons c rest => simp [hrest c rfl]
  have hdrop : rest.dropWhile isDigit = rest := by
    cases rest with
    | nil => rfl
    | cons c rest => simp [hrest c rfl]
  have hvalue : positionalValue 10 (decimalNat n) = n :=
    positionalValue_positional n (by decide) (by decide)
  rw [natural, List.takeWhile_append_of_pos (decimalNat_digits n),
    List.dropWhile_append_of_pos (decimalNat_digits n), htake, hdrop, List.append_nil]
  split
  · rename_i h
    exact absurd h (List.length_pos_iff.mp (length_positional_pos 10 n))
  · rename_i h
    simpa using decimalNat_head h
  · rw [hvalue]

theorem value_digit {c : UInt8} (hc : isDigit c = true) (depth : Nat) (s : Bytes) :
    value (depth + 1) (c :: s) = (natural (c :: s)).map fun n => (.num n.1, n.2) := by
  obtain ⟨hlow, hhigh⟩ := isDigit_bounds hc
  obtain ⟨k, hk⟩ : ∃ k, c.toNat = k := ⟨_, rfl⟩
  obtain rfl : c = k.toUInt8 := by simp [← hk]
  rw [hk] at hlow hhigh
  interval_cases k <;> rfl

theorem reads_num (depth : Nat) (n : Int) : Reads (value (depth + 1)) (decimal n) (.num n) := by
  intro rest hrest
  have hnat := natural_decimalNat n.natAbs hrest
  rw [decimal]
  split
  · have hneg : -(n.natAbs : Int) = n := by omega
    change (natural (decimalNat n.natAbs ++ rest)).map _ = _
    rw [hnat]
    change some (Value.num (-(n.natAbs : Int)), rest) = _
    rw [hneg]
  · have hpos : (n.natAbs : Int) = n := by omega
    obtain ⟨c, ds, heq⟩ := List.exists_cons_of_ne_nil
      (List.length_pos_iff.mp (length_positional_pos 10 n.natAbs))
    have hc : isDigit c = true := decimalNat_digits n.natAbs c (by simp [decimalNat, heq])
    have hcons : decimalNat n.natAbs ++ rest = c :: (ds ++ rest) := by simp [decimalNat, heq]
    rw [hcons, value_digit hc, ← hcons, hnat]
    simp [hpos]

/-! ### Arrays and objects -/

/-- Texts with commas between them. -/
def joined (t : Bytes) (ts : List Bytes) : Bytes := t ++ ts.flatMap fun u => 44 :: u

theorem joined_cons (t u : Bytes) (ts : List Bytes) :
    joined t (u :: ts) = t ++ 44 :: joined u ts := by
  simp [joined]

section Separated

variable {α : Type} {close : UInt8} {item : Bytes → Option (α × Bytes)}

theorem separated_step {t : Bytes} {v : α} (hread : Reads item t v) (n : Nat) (s : Bytes) :
    separated close item (n + 1) (t ++ 44 :: s)
      = (separated close item n s).map fun vs => (v :: vs.1, vs.2) := by
  rw [separated, hread _ (stops_cons (by decide) _)]
  simp [skipBlanks_cons (c := 44) (by decide)]

theorem separated_close {t : Bytes} {v : α} (hread : Reads item t v) (hcomma : close ≠ 44)
    (hblank : isBlank close = false) (hdigit : isDigit close = false) (n : Nat) (rest : Bytes) :
    separated close item (n + 1) (t ++ close :: rest) = some ([v], rest) := by
  rw [separated, hread _ (stops_cons hdigit _)]
  simp [skipBlanks_cons hblank, hcomma]

/-- Where no item can be read there are no items. -/
theorem separated_none {s : Bytes} (h : item s = none) (n : Nat) :
    separated close item n s = none := by
  cases n with
  | zero => rfl
  | succ n => rw [separated, h]

/-- Items that are closed. -/
theorem separated_joined (hcomma : close ≠ 44) (hblank : isBlank close = false)
    (hdigit : isDigit close = false) {ts : List Bytes} {vs : List α}
    (hreads : List.Forall₂ (Reads item) ts vs) {t : Bytes} {v : α} (hread : Reads item t v)
    {n : Nat} (hn : ts.length < n) (rest : Bytes) :
    separated close item n (joined t ts ++ close :: rest) = some (v :: vs, rest) := by
  induction hreads generalizing t v n with
  | nil =>
    obtain ⟨n, rfl⟩ : ∃ k, n = k + 1 := ⟨n - 1, by simp at hn; omega⟩
    simpa [joined] using separated_close hread hcomma hblank hdigit n rest
  | @cons u w ts vs hu _ ih =>
    obtain ⟨n, rfl⟩ : ∃ k, n = k + 1 := ⟨n - 1, by simp at hn; omega⟩
    rw [joined_cons, List.append_assoc, List.cons_append, separated_step hread,
      ih hu (by simpa using hn)]
    rfl

/-- Items with nothing behind them. -/
theorem separated_unclosed {ts : List Bytes} {vs : List α}
    (hreads : List.Forall₂ (Reads item) ts vs) {t : Bytes} {v : α} (hread : Reads item t v)
    (n : Nat) : separated close item n (joined t ts) = none := by
  induction hreads generalizing t v n with
  | nil =>
    cases n with
    | zero => rfl
    | succ n =>
      have hitem := hread [] stops_nil
      rw [List.append_nil] at hitem
      simp [joined, separated, hitem, skipBlanks]
  | @cons u w ts vs hu _ ih =>
    cases n with
    | zero => rfl
    | succ n =>
      rw [joined_cons, separated_step hread, ih hu]
      rfl

end Separated

/-- A field of an object. -/
theorem field_cons {item : Bytes → Option (Value × Bytes)} {k : Bytes}
    (hk : ∀ c ∈ k, plain c = true) (s : Bytes) :
    field item (34 :: (k ++ 34 :: 58 :: s)) = (item s).map fun v => ((k, v.1), v.2) := by
  rw [field, skipBlanks_cons (by decide)]
  simp only [stringBody_plain hk, skipBlanks_cons (c := 58) (by decide)]

theorem reads_field {item : Bytes → Option (Value × Bytes)} {k t : Bytes} {v : Value}
    (hk : ∀ c ∈ k, plain c = true) (hread : Reads item t v) :
    Reads (field item) (34 :: (k ++ 34 :: 58 :: t)) (k, v) := by
  intro rest hrest
  have h := @field_cons item k hk (t ++ rest)
  rw [hread rest hrest] at h
  simpa using h

/-- Blanks in front of a field. -/
theorem field_blank {item : Bytes → Option (Value × Bytes)} (s : Bytes) :
    field item (32 :: s) = field item s := rfl

theorem value_arr {depth : Nat} {s : Bytes} (hs : ∀ rest, skipBlanks s ≠ 93 :: rest) :
    value (depth + 1) (91 :: s)
      = (separated 93 (value depth) (s.length + 1) s).map fun vs => (.arr vs.1, vs.2) := by
  rw [value, skipBlanks_cons (by decide)]
  simp only

theorem value_obj {depth : Nat} {s : Bytes} (hs : ∀ rest, skipBlanks s ≠ 125 :: rest) :
    value (depth + 1) (123 :: s)
      = (separated 125 (field (value depth)) (s.length + 1) s).map
          fun kvs => (.obj kvs.1, kvs.2) := by
  rw [value, skipBlanks_cons (by decide)]
  simp only

/-- What stops the first of some joined texts. -/
theorem joined_stops (t : Bytes) (ts : List Bytes) {rest : Bytes} (hrest : Stops rest) :
    ∃ behind, Stops behind ∧ joined t ts ++ rest = t ++ behind := by
  cases ts with
  | nil => exact ⟨rest, hrest, by simp [joined]⟩
  | cons u ts => exact ⟨_, stops_cons (c := 44) (by decide) _, by rw [joined_cons, List.append_assoc]; rfl⟩

theorem length_joined (t : Bytes) (ts : List Bytes) : ts.length ≤ (joined t ts).length := by
  induction ts generalizing t with
  | nil => simp
  | cons u ts ih =>
    have := ih u
    simp only [joined_cons, List.length_append, List.length_cons]
    omega

/-- No value starts with the closing bracket of an array. -/
theorem skipBlanks_value {depth : Nat} {s : Bytes} {r : Value × Bytes}
    (h : value depth s = some r) (rest : Bytes) : skipBlanks s ≠ 93 :: rest := by
  intro hs
  cases depth with
  | zero => cases h
  | succ depth =>
    rw [value, hs] at h
    cases h

/-- A field starts with a quote. -/
theorem skipBlanks_field {item : Bytes → Option (Value × Bytes)} {s : Bytes}
    {r : (Bytes × Value) × Bytes} (h : field item s = some r) (rest : Bytes) :
    skipBlanks s ≠ 125 :: rest := by
  intro hs
  rw [field, hs] at h
  cases h

theorem reads_arr {depth : Nat} {t : Bytes} {v : Value} (hread : Reads (value depth) t v)
    {ts : List Bytes} {vs : List Value} (hreads : List.Forall₂ (Reads (value depth)) ts vs) :
    Reads (value (depth + 1)) (91 :: (joined t ts ++ [93])) (.arr (v :: vs)) := by
  intro rest _
  obtain ⟨behind, hbehind, heq⟩ := joined_stops t ts (stops_cons (c := 93) (by decide) rest)
  have htext : joined t ts ++ [93] ++ rest = joined t ts ++ 93 :: rest := by simp
  have hfirst := hread behind hbehind
  rw [← heq] at hfirst
  have hlen := length_joined t ts
  rw [List.cons_append, htext, value_arr (skipBlanks_value hfirst),
    separated_joined (by decide) (by decide) (by decide) hreads hread (by simp; omega)]
  rfl

theorem reads_obj {depth : Nat} {t : Bytes} {v : Bytes × Value}
    (hread : Reads (field (value depth)) t v) {ts : List Bytes} {vs : List (Bytes × Value)}
    (hreads : List.Forall₂ (Reads (field (value depth))) ts vs) :
    Reads (value (depth + 1)) (123 :: (joined t ts ++ [125])) (.obj (v :: vs)) := by
  intro rest _
  obtain ⟨behind, hbehind, heq⟩ := joined_stops t ts (stops_cons (c := 125) (by decide) rest)
  have htext : joined t ts ++ [125] ++ rest = joined t ts ++ 125 :: rest := by simp
  have hfirst := hread behind hbehind
  rw [← heq] at hfirst
  have hlen := length_joined t ts
  rw [List.cons_append, htext, value_obj (skipBlanks_field hfirst),
    separated_joined (by decide) (by decide) (by decide) hreads hread (by simp; omega)]
  rfl

/-- An array that is not closed. -/
theorem value_unclosed {depth : Nat} {t : Bytes} {v : Value} (hread : Reads (value depth) t v)
    {ts : List Bytes} {vs : List Value} (hreads : List.Forall₂ (Reads (value depth)) ts vs) :
    value (depth + 1) (91 :: joined t ts) = none := by
  obtain ⟨behind, hbehind, heq⟩ := joined_stops t ts stops_nil
  have hfirst := hread behind hbehind
  rw [← heq, List.append_nil] at hfirst
  rw [value_arr (skipBlanks_value hfirst), separated_unclosed hreads hread]
  rfl

/-- A text that reads as a value at every depth is that value. -/
theorem parse_eq {t : Bytes} {v : Value} {k : Nat} (h : ∀ depth, Reads (value (depth + k)) t v)
    (hk : k ≤ t.length + 1) : parse t = some v := by
  have hread := h (t.length + 1 - k) [] stops_nil
  rw [Nat.sub_add_cancel hk, List.append_nil] at hread
  rw [parse, hread]
  rfl

end Json
