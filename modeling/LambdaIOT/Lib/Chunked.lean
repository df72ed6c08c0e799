import LambdaIOT.Lib.CLib

/-!
# The chunked transfer coding of HTTP/1.1

A body is cut into chunks; each is sent as its size in hexadecimal, CRLF, its bytes, CRLF,
and a chunk of size zero ends the body. `encode` writes a body, `decode` reads one and takes
nothing but a whole one: the terminating chunk has to be the end of the input.

`opening` is the coding without the last CRLF and without the terminating chunk. It is what
a sender has written that closes each chunk with the next one.
-/

namespace Chunked

open CMem

/-! ## Writing -/

def lineEnd : Bytes := [13, 10]

/-- The size line of a chunk of `n` bytes. -/
def sizeLine (n : Nat) : Bytes := hexUpper n ++ lineEnd

def encodeChunk (c : Bytes) : Bytes := sizeLine c.length ++ c ++ lineEnd

/-- The chunk of size zero, without trailers. -/
def lastChunk : Bytes := sizeLine 0 ++ lineEnd

/-- A body in the chunks `cs`. -/
def encode (cs : List Bytes) : Bytes := cs.flatMap encodeChunk ++ lastChunk

/-- The chunks `cs`, the last of them not closed yet. -/
def opening : List Bytes → Bytes
  | [] => []
  | c :: cs => sizeLine c.length ++ c ++ cs.flatMap fun d => lineEnd ++ sizeLine d.length ++ d

theorem opening_cons (c : Bytes) (cs : List Bytes) :
    opening (c :: cs) = sizeLine c.length ++ c ++ cs.flatMap fun d => lineEnd ++ sizeLine d.length ++ d :=
  rfl

theorem opening_singleton (c : Bytes) : opening [c] = sizeLine c.length ++ c := by
  rw [opening_cons, List.flatMap_nil, List.append_nil]

/-- One more chunk closes the one before. -/
theorem opening_concat {cs : List Bytes} (h : cs ≠ []) (c : Bytes) :
    opening (cs ++ [c]) = opening cs ++ (lineEnd ++ sizeLine c.length ++ c) := by
  cases cs with
  | nil => exact absurd rfl h
  | cons b cs =>
    rw [List.cons_append, opening_cons, opening_cons, List.flatMap_append, List.flatMap_singleton,
      ← List.append_assoc]

/-- Moving the line ends from in front of the chunks to behind them. -/
theorem flatMap_lineEnd (cs : List Bytes) :
    (cs.flatMap fun d => lineEnd ++ sizeLine d.length ++ d) ++ lineEnd =
      lineEnd ++ cs.flatMap encodeChunk := by
  induction cs with
  | nil => rfl
  | cons c cs ih =>
    rw [List.flatMap_cons, List.flatMap_cons, List.append_assoc, ih, encodeChunk]
    simp only [List.append_assoc]

/-- Closing the last chunk and ending the body gives the whole coding. -/
theorem opening_close {cs : List Bytes} (h : cs ≠ []) :
    opening cs ++ (lineEnd ++ lastChunk) = encode cs := by
  cases cs with
  | nil => exact absurd rfl h
  | cons c cs =>
    rw [opening_cons, encode, List.flatMap_cons, encodeChunk, ← List.append_assoc,
      List.append_assoc (sizeLine c.length ++ c), flatMap_lineEnd]
    simp only [List.append_assoc]

/-! ## Reading -/

def isHexDigit (c : UInt8) : Bool :=
  isDigit c || (65 ≤ c && c ≤ 70) || (97 ≤ c && c ≤ 102)

def hexValue (c : UInt8) : Nat :=
  if c ≤ 57 then c.toNat - 48 else if c ≤ 70 then c.toNat - 55 else c.toNat - 87

/-- A size line: at least one digit, and CRLF. -/
def readSize (m : Bytes) : Option (Nat × Bytes) :=
  let digits := m.takeWhile isHexDigit
  let rest := m.dropWhile isHexDigit
  if digits ≠ [] ∧ rest.take 2 = lineEnd then
    some (digits.foldl (fun acc c => acc * 16 + hexValue c) 0, rest.drop 2)
  else none

def decodeLoop : Nat → Bytes → Option Bytes
  | 0, _ => none
  | fuel + 1, m =>
    match readSize m with
    | none => none
    | some (n, rest) =>
      if n = 0 then if rest = lineEnd then some [] else none
      else if n ≤ rest.length ∧ (rest.drop n).take 2 = lineEnd then
        (decodeLoop fuel (rest.drop (n + 2))).map (rest.take n ++ ·)
      else none

/-- Read a chunked body. Every chunk takes at least one byte of the input. -/
def decode (m : Bytes) : Option Bytes := decodeLoop (m.length + 1) m

/-! ## The round trip -/

theorem hexUpper_digits (n : Nat) : ∀ c ∈ hexUpper n, ∃ d < 16, c = digitChar d := by
  unfold hexUpper positional
  split
  · intro c hc
    rw [List.mem_singleton.mp hc]
    exact ⟨0, by decide, by decide⟩
  · intro c hc
    obtain ⟨d, hd, rfl⟩ := List.mem_map.mp (List.mem_reverse.mp hc)
    exact ⟨d, Nat.digits_lt_base (by decide) hd, rfl⟩

theorem isHexDigit_digitChar {d : Nat} (h : d < 16) : isHexDigit (digitChar d) = true := by
  interval_cases d <;> decide

theorem hexValue_digitChar {d : Nat} (h : d < 16) : hexValue (digitChar d) = digitValue (digitChar d) := by
  interval_cases d <;> decide

/-- A size is read back from its digits. -/
theorem foldl_hexUpper (n : Nat) :
    (hexUpper n).foldl (fun acc c => acc * 16 + hexValue c) 0 = n := by
  have hsame : (hexUpper n).foldl (fun acc c => acc * 16 + hexValue c) 0 =
      positionalValue 16 (hexUpper n) := by
    refine List.foldl_ext _ _ _ fun acc c hc => ?_
    obtain ⟨d, hd, rfl⟩ := hexUpper_digits n c hc
    rw [hexValue_digitChar hd]
  rw [hsame]
  exact positionalValue_positional n (by decide) (by decide)

theorem readSize_sizeLine (n : Nat) (rest : Bytes) :
    readSize (sizeLine n ++ rest) = some (n, rest) := by
  have hall : ∀ c ∈ hexUpper n, isHexDigit c = true := by
    intro c hc
    obtain ⟨d, hd, rfl⟩ := hexUpper_digits n c hc
    exact isHexDigit_digitChar hd
  have hstop : isHexDigit 13 = false := by decide
  have hsplit : sizeLine n ++ rest = hexUpper n ++ 13 :: 10 :: rest := by
    rw [sizeLine, lineEnd, List.append_assoc]
    rfl
  have htake : (sizeLine n ++ rest).takeWhile isHexDigit = hexUpper n := by
    rw [hsplit, List.takeWhile_append_of_pos hall, List.takeWhile_cons_of_neg (by simpa using hstop),
      List.append_nil]
  have hdrop : (sizeLine n ++ rest).dropWhile isHexDigit = 13 :: 10 :: rest := by
    rw [hsplit, List.dropWhile_append_of_pos hall, List.dropWhile_cons_of_neg (by simpa using hstop)]
  have hne : hexUpper n ≠ [] := List.ne_nil_of_length_pos (length_positional_pos 16 n)
  unfold readSize
  dsimp only
  rw [htake, hdrop, if_pos ⟨hne, rfl⟩, foldl_hexUpper]
  rfl

theorem decodeLoop_encode {cs : List Bytes} (hcs : ∀ c ∈ cs, c ≠ []) {fuel : Nat}
    (hfuel : cs.length < fuel) : decodeLoop fuel (encode cs) = some cs.flatten := by
  induction cs generalizing fuel with
  | nil =>
    cases fuel with
    | zero => cases hfuel
    | succ fuel =>
      have hread := readSize_sizeLine 0 lineEnd
      rw [decodeLoop, encode, List.flatMap_nil, List.nil_append, lastChunk, hread]
      rfl
  | cons c cs ih =>
    cases fuel with
    | zero => cases hfuel
    | succ fuel =>
      have hpos : c.length ≠ 0 := fun h => hcs c (List.mem_cons_self ..) (List.length_eq_zero_iff.mp h)
      have hsplit : encode (c :: cs) = sizeLine c.length ++ (c ++ (lineEnd ++ encode cs)) := by
        rw [encode, List.flatMap_cons, encodeChunk, encode]
        simp only [List.append_assoc]
      have htail : (c ++ (lineEnd ++ encode cs)).drop (c.length + 2) = encode cs := by
        rw [← List.drop_drop, List.drop_left]
        rfl
      rw [decodeLoop, hsplit, readSize_sizeLine]
      dsimp only
      rw [if_neg hpos, if_pos ⟨by rw [List.length_append]; omega, by rw [List.drop_left]; rfl⟩, htail,
        ih (fun d hd => hcs d (List.mem_cons_of_mem _ hd))
          (by rw [List.length_cons] at hfuel; omega), List.take_left]
      rfl

/-- A coding of non-empty chunks is read back. -/
theorem decode_encode {cs : List Bytes} (hcs : ∀ c ∈ cs, c ≠ []) :
    decode (encode cs) = some cs.flatten := by
  refine decodeLoop_encode hcs (Nat.lt_succ_of_le ?_)
  have hlen : cs.length ≤ (cs.flatMap encodeChunk).length := by
    clear hcs
    induction cs with
    | nil => exact Nat.zero_le _
    | cons c cs ih =>
      have hchunk : 0 < (encodeChunk c).length := by
        rw [encodeChunk, List.length_append, lineEnd]
        exact Nat.succ_pos _
      rw [List.flatMap_cons, List.length_append, List.length_cons]
      omega
  rw [encode, List.length_append]
  omega

end Chunked
