import Mathlib.Data.Nat.Digits.Lemmas
import LambdaIOT.Lib.Bytes

/-!
# The C library functions a string-handling program calls

`strlen`, `strstr`, `strcmp`, `strncpy`, `atol` and the number conversions of
`sprintf`, over byte memories. Each works on the C string at the start of its
argument, so what lies behind the first NUL never matters.

`long` is 32 bits wide; `atol` saturates as `strtol` does.
-/

namespace CMem

/-- Length of the string at the start of `m`. -/
def strlen (m : Bytes) : Nat := (cstr m).length

/-- Position of the first occurrence of `needle` in the bytes `hay`. -/
def findSub (needle : Bytes) : Bytes → Option Nat
  | [] => if needle.isEmpty then some 0 else none
  | b :: hay =>
    if needle.isPrefixOf (b :: hay) then some 0 else (findSub needle hay).map (· + 1)

/-- `strstr(hay, needle)`, as an offset into `hay`. -/
def strstr (hay needle : Bytes) : Option Nat := findSub needle (cstr hay)

/-- `strcmp(a, b) == 0`. -/
def strEq (a b : Bytes) : Bool := cstr a == cstr b

/-- The `n` bytes that `strncpy(dst, src, n)` writes. -/
def strncpy (src : Bytes) (n : Nat) : Bytes :=
  let s := (cstr src).take n
  s ++ List.replicate (n - s.length) 0

/-! ## Numbers -/

/-- `c` is one of `'0'..'9'`. -/
def isDigit (c : UInt8) : Bool := 48 ≤ c && c ≤ 57

/-- `isspace(c)` in the C locale. -/
def isSpace (c : UInt8) : Bool := c == 32 || (9 ≤ c && c ≤ 13)

/-- Value of the leading decimal digits. -/
def digitsValue (s : Bytes) : Nat :=
  (s.takeWhile isDigit).foldl (fun acc c => acc * 10 + (c.toNat - 48)) 0

def longMax : Int := 2147483647
def longMin : Int := -2147483648

/-- `atol(s)`: blanks, a sign, digits; the result saturates. -/
def atol (m : Bytes) : Int :=
  match (cstr m).dropWhile isSpace with
  | 45 :: ds => max longMin (-(digitsValue ds : Int))
  | 43 :: ds => min longMax (digitsValue ds)
  | ds => min longMax (digitsValue ds)

/-- The character of a digit, `A`.. from ten on. -/
def digitChar (d : Nat) : UInt8 := if d < 10 then (48 + d).toUInt8 else (55 + d).toUInt8

/-- Positional notation, most significant digit first; zero is one digit. -/
def positional (base n : Nat) : Bytes :=
  if n = 0 then [48] else ((Nat.digits base n).map digitChar).reverse

/-- `%u`. -/
def decimalNat (n : Nat) : Bytes := positional 10 n

/-- `%d` and `%ld`. -/
def decimal (n : Int) : Bytes :=
  if n < 0 then 45 :: decimalNat n.natAbs else decimalNat n.natAbs

/-- `%X`. -/
def hexUpper (n : Nat) : Bytes := positional 16 n

/-- `%0wu` and the like: zeros in front up to the width. -/
def zeroPad (w : Nat) (s : Bytes) : Bytes := List.replicate (w - s.length) 48 ++ s

/-- Value of a digit character. -/
def digitValue (c : UInt8) : Nat := if c ≤ 57 then c.toNat - 48 else c.toNat - 55

/-- Value of digits in positional notation. -/
def positionalValue (base : Nat) (s : Bytes) : Nat :=
  s.foldl (fun acc c => acc * base + digitValue c) 0

/-! ## Their lemmas -/

theorem strlen_le (m : Bytes) : strlen m ≤ m.length := length_cstr_le m

@[simp] theorem length_strncpy (src : Bytes) (n : Nat) : (strncpy src n).length = n := by
  simp only [strncpy, List.length_append, List.length_replicate, List.length_take]
  omega

theorem findSub_le {needle hay : Bytes} {i : Nat} (h : findSub needle hay = some i) :
    i + needle.length ≤ hay.length := by
  induction hay generalizing i with
  | nil =>
    rw [findSub] at h
    split at h
    · rename_i he
      simp only [List.isEmpty_iff] at he
      simp_all
    · cases h
  | cons b hay ih =>
    rw [findSub] at h
    split at h
    · rename_i hp
      cases h
      have := (List.isPrefixOf_iff_prefix.mp hp).length_le
      omega
    · obtain ⟨j, hj, rfl⟩ := Option.map_eq_some_iff.mp h
      have := ih hj
      simp only [List.length_cons]
      omega

/-- What occurs in a text is found in it. -/
theorem findSub_isSome {needle hay : Bytes} (h : needle <:+: hay) :
    (findSub needle hay).isSome := by
  induction hay with
  | nil =>
    rw [List.infix_nil.mp h]
    rfl
  | cons b hay ih =>
    rw [findSub]
    split
    · rfl
    · rename_i hp
      rcases List.infix_cons_iff.mp h with hpre | hin
      · exact absurd (List.isPrefixOf_iff_prefix.mpr hpre) hp
      · simpa using ih hin

/-- A needle is found where it starts first. -/
theorem findSub_eq_some {needle hay : Bytes} {i : Nat} (hin : needle.isPrefixOf (hay.drop i) = true)
    (hi : i < hay.length) (hfirst : ∀ j < i, needle.isPrefixOf (hay.drop j) = false) :
    findSub needle hay = some i := by
  induction hay generalizing i with
  | nil => cases hi
  | cons b hay ih =>
    rw [findSub]
    cases i with
    | zero => exact if_pos hin
    | succ i =>
      have h0 : needle.isPrefixOf (b :: hay) = false := hfirst 0 (Nat.succ_pos i)
      rw [if_neg (by simp [h0]), ih hin (Nat.lt_of_succ_lt_succ hi) fun j hj =>
        hfirst (j + 1) (Nat.succ_lt_succ hj)]
      rfl

/-- A needle that starts nowhere is not found. -/
theorem findSub_eq_none {needle hay : Bytes} (hne : needle ≠ [])
    (h : ∀ j < hay.length, needle.isPrefixOf (hay.drop j) = false) : findSub needle hay = none := by
  induction hay with
  | nil =>
    rw [findSub, if_neg]
    simpa using hne
  | cons b hay ih =>
    have h0 : needle.isPrefixOf (b :: hay) = false := h 0 (Nat.succ_pos _)
    rw [findSub, if_neg (by simp [h0]), ih fun j hj => h (j + 1) (Nat.succ_lt_succ hj)]
    rfl

/-- The first occurrence, seen from further on. -/
theorem findSub_drop_eq_some {needle hay : Bytes} {i k : Nat} (h : findSub needle hay = some i)
    (hk : k ≤ i) : findSub needle (hay.drop k) = some (i - k) := by
  induction k generalizing hay i with
  | zero => exact h
  | succ k ih =>
    cases hay with
    | nil =>
      rw [findSub] at h
      split at h
      · cases h
        cases hk
      · cases h
    | cons b hay =>
      rw [findSub] at h
      split at h
      · cases h
        cases hk
      · obtain ⟨j, hj, rfl⟩ := Option.map_eq_some_iff.mp h
        rw [List.drop_succ_cons, ih hj (Nat.le_of_succ_le_succ hk), Nat.add_sub_add_right]

/-- What is not in a text is not in the rest of it. -/
theorem findSub_drop_eq_none {needle hay : Bytes} (h : findSub needle hay = none) (k : Nat) :
    findSub needle (hay.drop k) = none := by
  induction hay generalizing k with
  | nil => rwa [List.drop_nil]
  | cons b hay ih =>
    cases k with
    | zero => exact h
    | succ k =>
      rw [findSub] at h
      split at h
      · cases h
      · exact ih (Option.map_eq_none_iff.mp h) k

/-- What is found stays found when text is appended. -/
theorem findSub_append {needle hay : Bytes} {i : Nat} (h : findSub needle hay = some i)
    (t : Bytes) : findSub needle (hay ++ t) = some i := by
  induction hay generalizing i with
  | nil =>
    rw [findSub] at h
    split at h
    · rename_i hnil
      cases h
      rw [List.isEmpty_iff.mp hnil]
      cases t <;> rfl
    · cases h
  | cons b hay ih =>
    rw [findSub] at h
    rw [List.cons_append, findSub]
    by_cases hp : needle.isPrefixOf (b :: hay) = true
    · rw [if_pos hp] at h
      have hp' : needle.isPrefixOf (b :: (hay ++ t)) = true :=
        List.isPrefixOf_iff_prefix.mpr
          ((List.isPrefixOf_iff_prefix.mp hp).trans (List.prefix_append (b :: hay) t))
      rw [if_pos hp']
      exact h
    · rw [if_neg hp] at h
      obtain ⟨j, hj, rfl⟩ := Option.map_eq_some_iff.mp h
      have hlong := findSub_le hj
      have hp' : ¬needle.isPrefixOf (b :: (hay ++ t)) = true := by
        rw [List.isPrefixOf_iff_prefix] at hp ⊢
        intro hpre
        have hshort : needle.length ≤ (b :: hay).length := by
          rw [List.length_cons]
          omega
        exact hp (List.prefix_of_prefix_length_le hpre (List.prefix_append (b :: hay) t) hshort)
      rw [if_neg hp', ih hj]
      rfl

/-- What is found in a text occurs in it. -/
theorem findSub_isSome_iff (needle hay : Bytes) :
    (findSub needle hay).isSome ↔ needle <:+: hay := by
  refine ⟨fun h => ?_, findSub_isSome⟩
  induction hay with
  | nil =>
    rw [findSub] at h
    split at h
    · rename_i hnil
      rw [List.isEmpty_iff.mp hnil]
    · cases h
  | cons b hay ih =>
    rw [findSub] at h
    split at h
    · rename_i hpre
      exact (List.isPrefixOf_iff_prefix.mp hpre).isInfix
    · rw [Option.isSome_map] at h
      exact (ih h).trans (List.suffix_cons b hay).isInfix

/-- A character is found where it stands first. -/
theorem findSub_char {p : Bytes} {c : UInt8} (hp : c ∉ p) (t : Bytes) :
    findSub [c] (p ++ c :: t) = some p.length := by
  induction p with
  | nil => rw [List.nil_append, findSub, if_pos (by simp [List.isPrefixOf])]; rfl
  | cons b p ih =>
    have hb : ¬ [c].isPrefixOf (b :: (p ++ c :: t)) = true := by
      rw [List.isPrefixOf_cons_cons, Bool.and_eq_true, beq_iff_eq]
      rintro ⟨rfl, -⟩
      exact hp (List.mem_cons_self ..)
    rw [List.cons_append, findSub, if_neg hb, ih fun h => hp (List.mem_cons_of_mem _ h)]
    rfl

theorem findSub_char_none {s : Bytes} {c : UInt8} (hs : c ∉ s) : findSub [c] s = none := by
  induction s with
  | nil => rfl
  | cons b s ih =>
    have hb : ¬ [c].isPrefixOf (b :: s) = true := by
      rw [List.isPrefixOf_cons_cons, Bool.and_eq_true, beq_iff_eq]
      rintro ⟨rfl, -⟩
      exact hs (List.mem_cons_self ..)
    rw [findSub, if_neg hb, ih fun h => hs (List.mem_cons_of_mem _ h)]
    rfl

/-- A terminator bounds the string. -/
theorem strlen_le_of_nul {m : Bytes} {k : Nat} (h : m[k]? = some 0) : strlen m ≤ k := by
  by_contra hlt
  rw [strlen, Nat.not_le] at hlt
  have hpre : (cstr m)[k]? = some 0 := by
    rw [← take_length_cstr, List.getElem?_take, if_pos hlt]
    exact h
  exact noNul_cstr m 0 (List.mem_of_getElem? hpre) rfl

/-- `strcat` and `sprintf` end the string behind what they write. -/
theorem strlen_store_le {m s : Bytes} {k : Nat} (h : k + s.length + 1 ≤ m.length) :
    strlen (store m k (s ++ [0])) ≤ k + s.length := by
  refine strlen_le_of_nul ?_
  have hlen : (m.take k ++ s).length = k + s.length := by
    rw [List.length_append, List.length_take]
    omega
  rw [store_eq (by simp only [List.length_append, List.length_singleton]; omega),
    ← List.append_assoc, List.append_assoc, List.getElem?_append_right (by omega), hlen,
    Nat.sub_self]
  rfl

theorem atol_le (m : Bytes) : atol m ≤ longMax := by
  unfold atol
  split
  · refine max_le ?_ ?_
    · decide
    · simp only [longMax]
      omega
  · exact min_le_left _ _
  · exact min_le_left _ _

theorem longMin_le_atol (m : Bytes) : longMin ≤ atol m := by
  unfold atol
  split
  · exact le_max_left _ _
  · exact le_min (by decide) (by simp only [longMin]; omega)
  · exact le_min (by decide) (by simp only [longMin]; omega)

theorem length_positional_pos (base n : Nat) : 0 < (positional base n).length := by
  unfold positional
  split
  · decide
  · rename_i hn
    rw [List.length_reverse, List.length_map]
    exact List.length_pos_iff.mpr (Nat.digits_ne_nil_iff_ne_zero.mpr hn)

/-- A number below `base ^ k` is written in at most `k` digits. -/
theorem length_positional_le {base n k : Nat} (hb : 1 < base) (hk : 0 < k) (h : n < base ^ k) :
    (positional base n).length ≤ k := by
  unfold positional
  split
  · exact hk
  · rw [List.length_reverse, List.length_map]
    exact (Nat.digits_length_le_iff hb n).mpr h

/-- Ten digits and a sign. -/
theorem length_decimal_le {n : Int} (hn : n.natAbs < 10000000000) : (decimal n).length ≤ 11 := by
  have hlen : (decimalNat n.natAbs).length ≤ 10 :=
    length_positional_le (by decide) (by decide) hn
  rw [decimal]
  split
  · rw [List.length_cons]
    omega
  · omega

theorem digitChar_ne_zero {d : Nat} (hd : d < 16) : digitChar d ≠ 0 := by
  interval_cases d <;> decide

theorem noNul_positional {base : Nat} (n : Nat) (hb : 1 < base) (hb16 : base ≤ 16) :
    NoNul (positional base n) := by
  unfold positional
  split
  · intro b hmem
    rw [List.mem_singleton.mp hmem]
    decide
  · intro b hmem
    obtain ⟨d, hd, rfl⟩ := List.mem_map.mp (List.mem_reverse.mp hmem)
    exact digitChar_ne_zero (lt_of_lt_of_le (Nat.digits_lt_base hb hd) hb16)

theorem digitValue_digitChar {d : Nat} (hd : d < 16) : digitValue (digitChar d) = d := by
  interval_cases d <;> decide

/-- A number is read back from its digits. -/
theorem positionalValue_positional {base : Nat} (n : Nat) (hb : 1 < base) (hb16 : base ≤ 16) :
    positionalValue base (positional base n) = n := by
  by_cases hn : n = 0
  · rw [positional, if_pos hn, hn]
    simp [positionalValue, digitValue]
  · have hdigits : ∀ l : List Nat, (∀ d ∈ l, d < base) →
        (l.map digitChar).foldr (fun c acc => acc * base + digitValue c) 0 =
          Nat.ofDigits base l := by
      intro l hl
      induction l with
      | nil => rfl
      | cons d l ih =>
        rw [List.map_cons, List.foldr_cons, ih fun e he => hl e (List.mem_cons_of_mem _ he),
          Nat.ofDigits_cons,
          digitValue_digitChar (lt_of_lt_of_le (hl d (List.mem_cons_self ..)) hb16),
          Nat.add_comm, Nat.mul_comm]
    rw [positionalValue, positional, if_neg hn, List.foldl_reverse, hdigits _ fun d hd =>
      Nat.digits_lt_base hb hd]
    exact Nat.ofDigits_digits base n

/-- Zeros in front do not change the value. -/
theorem positionalValue_zeroPad (base w : Nat) (s : Bytes) :
    positionalValue base (zeroPad w s) = positionalValue base s := by
  have hzero : ∀ k : Nat, (List.replicate k (48 : UInt8)).foldl
      (fun acc c => acc * base + digitValue c) 0 = 0 := by
    intro k
    induction k with
    | zero => rfl
    | succ k ih =>
      rw [List.replicate_succ, List.foldl_cons]
      simpa [digitValue] using ih
  rw [positionalValue, zeroPad, List.foldl_append, hzero, positionalValue]

theorem noNul_decimal (n : Int) : NoNul (decimal n) := by
  unfold decimal decimalNat
  split
  · intro b hb
    rcases List.mem_cons.mp hb with rfl | h
    · decide
    · exact noNul_positional _ (by decide) (by decide) b h
  · exact noNul_positional _ (by decide) (by decide)

/-! ## Numbers that are written and read back -/

theorem isDigit_digitChar {d : Nat} (hd : d < 10) : isDigit (digitChar d) = true := by
  interval_cases d <;> decide

theorem isDigit_bounds {c : UInt8} (hc : isDigit c = true) : 48 ≤ c.toNat ∧ c.toNat ≤ 57 := by
  rw [isDigit, Bool.and_eq_true, decide_eq_true_iff, decide_eq_true_iff] at hc
  exact ⟨UInt8.le_iff_toNat_le.mp hc.1, UInt8.le_iff_toNat_le.mp hc.2⟩

theorem decimalNat_digits (n : Nat) : ∀ c ∈ decimalNat n, isDigit c = true := by
  rw [decimalNat, positional]
  split
  · intro c hc
    rw [List.mem_singleton.mp hc]
    decide
  · intro c hc
    obtain ⟨d, hd, rfl⟩ := List.mem_map.mp (List.mem_reverse.mp hc)
    exact isDigit_digitChar (Nat.digits_lt_base (by decide) hd)

/-- The value of the digits in front of something else. -/
theorem digitsValue_append {ds rest : Bytes} (hds : ∀ c ∈ ds, isDigit c = true)
    (hrest : ∀ c ∈ rest.head?, isDigit c = false) :
    digitsValue (ds ++ rest) = positionalValue 10 ds := by
  have htake : (ds ++ rest).takeWhile isDigit = ds := by
    rw [List.takeWhile_append_of_pos hds]
    cases rest with
    | nil => exact List.append_nil ds
    | cons c rest =>
      rw [List.takeWhile_cons_of_neg (by rw [hrest c rfl]; exact Bool.false_ne_true),
        List.append_nil]
  rw [digitsValue, htake, positionalValue]
  clear htake
  -- Both folds take the same value of a digit, whatever they start with.
  generalize 0 = acc
  induction ds generalizing acc with
  | nil => rfl
  | cons c ds ih =>
    have hc := isDigit_bounds (hds c (List.mem_cons_self ..))
    have hvalue : digitValue c = c.toNat - 48 := by
      rw [digitValue, if_pos (UInt8.le_iff_toNat_le.mpr hc.2)]
    rw [List.foldl_cons, List.foldl_cons, hvalue]
    exact ih (fun b hb => hds b (List.mem_cons_of_mem _ hb)) _

/-- `atol` of digits in front of something else. -/
theorem atol_append {ds rest : Bytes} (hne : ds ≠ []) (hds : ∀ c ∈ ds, isDigit c = true)
    (hrest : ∀ c ∈ rest.head?, isDigit c = false) :
    atol (ds ++ rest) = min longMax (positionalValue 10 ds) := by
  obtain ⟨c, ds', rfl⟩ := List.exists_cons_of_ne_nil hne
  have hc := isDigit_bounds (hds c (List.mem_cons_self ..))
  have hnonul : ∀ b ∈ c :: ds', (b != 0) = true := by
    intro b hb
    have hb' := isDigit_bounds (hds b hb)
    rw [bne_iff_ne]
    rintro rfl
    exact absurd hb'.1 (by decide)
  have hcstr : cstr (c :: ds' ++ rest) = c :: ds' ++ cstr rest :=
    List.takeWhile_append_of_pos hnonul
  have hhead : ∀ b ∈ (cstr rest).head?, isDigit b = false := by
    intro b hb
    cases rest with
    | nil => cases hb
    | cons r rest =>
      by_cases hr : r = 0
      · rw [hr] at hb
        cases hb
      · rw [cstr, List.takeWhile_cons_of_pos (by simpa using hr)] at hb
        exact hrest b hb
  have hspace : ¬ isSpace c = true := by
    rw [isSpace, Bool.or_eq_true, Bool.and_eq_true, beq_iff_eq, decide_eq_true_iff,
      decide_eq_true_iff]
    rintro (rfl | ⟨-, hle⟩)
    · exact absurd hc.1 (by decide)
    · have := UInt8.le_iff_toNat_le.mp hle
      have h13 : (13 : UInt8).toNat = 13 := rfl
      omega
  have hvalue := digitsValue_append hds hhead
  rw [← hcstr] at hvalue
  rw [atol, ← hvalue, hcstr, List.cons_append, List.dropWhile_cons_of_neg hspace]
  split
  · rename_i hsign
    rw [(List.cons.inj hsign).1] at hc
    exact absurd hc.1 (by decide)
  · rename_i hsign
    rw [(List.cons.inj hsign).1] at hc
    exact absurd hc.1 (by decide)
  · rfl

/-- A number that fits a `long` is read back. -/
theorem atol_decimalNat {n : Nat} (hn : (n : Int) ≤ longMax) {rest : Bytes}
    (hrest : ∀ c ∈ rest.head?, isDigit c = false) : atol (decimalNat n ++ rest) = n := by
  have hne : decimalNat n ≠ [] := List.length_pos_iff.mp (length_positional_pos 10 n)
  rw [atol_append hne (decimalNat_digits n) hrest, decimalNat,
    positionalValue_positional n (by decide) (by decide)]
  exact min_eq_right hn

/-- The value of the first digit and of the others. -/
theorem positionalValue_cons (base : Nat) (c : UInt8) (s : Bytes) :
    positionalValue base (c :: s) = digitValue c * base ^ s.length + positionalValue base s := by
  induction s using List.reverseRecOn with
  | nil => rw [positionalValue, List.length_nil, Nat.pow_zero, Nat.mul_one]; simp [positionalValue]
  | append_singleton s d ih =>
    have hback : ∀ t : Bytes, positionalValue base (t ++ [d])
        = positionalValue base t * base + digitValue d := by
      intro t
      rw [positionalValue, List.foldl_append]
      rfl
    rw [← List.cons_append, hback, hback, ih, List.length_append, List.length_singleton,
      Nat.pow_succ]
    ring

/-- Without its first digit a number of several digits is another one. -/
theorem decimalNat_cons {n : Nat} (hn : 10 ≤ n) : ∃ c ds, decimalNat n = c :: ds ∧ ds ≠ [] ∧
    positionalValue 10 ds < n := by
  obtain ⟨c, ds, heq⟩ := List.exists_cons_of_ne_nil
    (List.length_pos_iff.mp (length_positional_pos 10 n))
  have hdigits : Nat.digits 10 n ≠ [] := Nat.digits_ne_nil_iff_ne_zero.mpr (by omega)
  have hpos : positional 10 n = ((Nat.digits 10 n).map digitChar).reverse := by
    rw [positional, if_neg (by omega)]
  have hhead : c = digitChar ((Nat.digits 10 n).getLast hdigits) := by
    rw [hpos] at heq
    have hfirst := congrArg List.head? heq
    rw [List.head?_reverse, List.getLast?_map, List.getLast?_eq_getLast_of_ne_nil hdigits] at hfirst
    exact (Option.some.inj hfirst).symm
  have hlast : (Nat.digits 10 n).getLast hdigits < 10 :=
    Nat.digits_lt_base (by decide) (List.getLast_mem hdigits)
  have hvalue : digitValue c ≠ 0 := by
    rw [hhead, digitValue_digitChar (by omega)]
    exact Nat.getLast_digit_ne_zero 10 (by omega)
  have hsum : positionalValue 10 (positional 10 n) = n :=
    positionalValue_positional n (by decide) (by decide)
  rw [heq, positionalValue_cons] at hsum
  have hpow : 0 < 10 ^ ds.length := Nat.pow_pos (by decide)
  refine ⟨c, ds, heq, ?_, ?_⟩
  · rintro rfl
    rw [hhead, digitValue_digitChar (by omega)] at hsum
    simp [positionalValue] at hsum
    omega
  · have : 1 * 10 ^ ds.length ≤ digitValue c * 10 ^ ds.length :=
      Nat.mul_le_mul_right _ (Nat.pos_of_ne_zero hvalue)
    omega

end CMem
