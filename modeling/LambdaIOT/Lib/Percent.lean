import LambdaIOT.Lib.Bytes

/-!
# Percent escapes

An escape is a `%` with two hexadecimal digits behind it, and stands for one byte. A text is
decoded from left to right; what is no escape stays as it is, and a decoded byte is not looked at
again.
-/

namespace CMem

/-- The value of a hexadecimal digit, in either case. -/
def hexDigit (c : UInt8) : Option Nat :=
  if 48 ≤ c && c ≤ 57 then some (c.toNat - 48)
  else if 65 ≤ c && c ≤ 70 then some (c.toNat - 55)
  else if 97 ≤ c && c ≤ 102 then some (c.toNat - 87)
  else none

/-- The byte that two digits behind a `%` stand for. -/
def escaped (high low : UInt8) : Option UInt8 :=
  match hexDigit high, hexDigit low with
  | some a, some b => some (a * 16 + b).toUInt8
  | _, _ => none

/-- The decoded text. -/
def percentDecode : Bytes → Bytes
  | [] => []
  | [c] => [c]
  | [c, a] => c :: percentDecode [a]
  | c :: a :: b :: s =>
    if c = 37 then
      match escaped a b with
      | some x => x :: percentDecode s
      | none => c :: percentDecode (a :: b :: s)
    else c :: percentDecode (a :: b :: s)

/-- A character that is no `%`. -/
theorem percentDecode_plain {c : UInt8} (hc : c ≠ 37) (s : Bytes) :
    percentDecode (c :: s) = c :: percentDecode s := by
  match s with
  | [] => rfl
  | [a] => rfl
  | a :: b :: s => rw [percentDecode, if_neg hc]

/-- An escape. -/
theorem percentDecode_escape {a b x : UInt8} (hx : escaped a b = some x) (s : Bytes) :
    percentDecode (37 :: a :: b :: s) = x :: percentDecode s := by
  rw [percentDecode, if_pos rfl, hx]

/-- A `%` with two characters behind it that are not both digits. -/
theorem percentDecode_invalid {a b : UInt8} (hx : escaped a b = none) (s : Bytes) :
    percentDecode (37 :: a :: b :: s) = 37 :: percentDecode (a :: b :: s) := by
  rw [percentDecode, if_pos rfl, hx]

/-- A `%` too near to the end. -/
theorem percentDecode_short (c : UInt8) {s : Bytes} (hs : s.length < 2) :
    percentDecode (c :: s) = c :: percentDecode s := by
  match s, hs with
  | [], _ => rfl
  | [a], _ => rfl
  | a :: b :: s, hs => exact absurd hs (by simp)

end CMem
