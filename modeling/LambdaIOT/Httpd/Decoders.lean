import LambdaIOT.Lib.Window
import LambdaIOT.Httpd.Utils

/-!
# The in-place decoders of `utils.c`

`URLDecode` and `DecodeB64` write into the text they read. Here their loops run with each access
checked: those of `URLDecode` must lie in the text, the writes of `DecodeB64` on characters that
were read before.
-/

namespace Httpd

open CMem

/-! ## `URLDecode` -/

/-- The loop of `URLDecode` with its accesses to `url` in front of `limit`; there is no value either
where the rounds given do not suffice. -/
def urlDecodeWithin (limit : Nat) : Nat → Bytes → Nat → Nat → Option (Bytes × Nat)
  | 0, url, i, len => if i < len then none else some (url, i)
  | fuel + 1, url, i, len =>
    if i < len then do
      let c ← readBelow limit url i
      if c = 0 then some (url, i)
      else if c ≠ 37 then urlDecodeWithin limit fuel url (i + 1) len
      else if i + 2 < len then do
        let high ← readBelow limit url (i + 1)
        let low ← readBelow limit url (i + 2)
        match hex2Int high, hex2Int low with
        | some a, some b => do
          let url ← storeBelow limit url i [(a * 16 + b).toUInt8]
          let tail ← loadBelow limit url (i + 3) (len - i - 3)
          let url ← storeBelow limit url (i + 1) tail
          urlDecodeWithin limit fuel url (i + 1) (len - 2)
        | _, _ => urlDecodeWithin limit fuel url (i + 1) len
      else urlDecodeWithin limit fuel url (i + 1) len
    else some (url, i)

/-- The checks change nothing where they pass. -/
theorem urlDecodeLoop_of_within {limit fuel : Nat} {url : Bytes} {i len : Nat} {r : Bytes × Nat}
    (h : urlDecodeWithin limit fuel url i len = some r) : urlDecodeLoop fuel url i len = r := by
  induction fuel generalizing url i len with
  | zero =>
    rw [urlDecodeWithin] at h
    split at h
    · cases h
    · exact Option.some.inj h
  | succ fuel ih =>
    rw [urlDecodeWithin] at h
    rw [urlDecodeLoop]
    split at h
    · rename_i hi
      obtain ⟨c, hc, h⟩ := Option.bind_eq_some_iff.mp h
      have hat : at' url i = c := (eq_of_readBelow hc).symm
      rw [hat]
      split at h
      · rename_i hzero
        rw [if_neg fun hand => hand.2 hzero]
        exact Option.some.inj h
      · rename_i hchar
        rw [if_pos ⟨hi, hchar⟩]
        split at h
        · rename_i hplain
          rw [if_pos hplain]
          exact ih h
        · rename_i hpercent
          rw [if_neg hpercent]
          split at h
          · rename_i hroom
            rw [if_pos hroom]
            obtain ⟨high, hhigh, h⟩ := Option.bind_eq_some_iff.mp h
            obtain ⟨low, hlow, h⟩ := Option.bind_eq_some_iff.mp h
            have hat1 : at' url (i + 1) = high := (eq_of_readBelow hhigh).symm
            have hat2 : at' url (i + 2) = low := (eq_of_readBelow hlow).symm
            rw [hat1, hat2]
            cases ha : hex2Int high with
            | none =>
              rw [ha] at h
              exact ih h
            | some a =>
              cases hb : hex2Int low with
              | none =>
                rw [ha, hb] at h
                exact ih h
              | some b =>
                rw [ha, hb] at h
                obtain ⟨url₁, h₁, h⟩ := Option.bind_eq_some_iff.mp h
                obtain ⟨tail, h₂, h⟩ := Option.bind_eq_some_iff.mp h
                obtain ⟨url₂, h₃, h⟩ := Option.bind_eq_some_iff.mp h
                rw [eq_of_storeBelow h₃, eq_of_loadBelow h₂, eq_of_storeBelow h₁] at h
                exact ih h
          · rename_i hshort
            rw [if_neg hshort]
            exact ih h
    · rename_i hi
      rw [if_neg fun hand => hi hand.1]
      exact Option.some.inj h

/-! ## `DecodeB64` -/

/-- The variables of `DecodeB64`. -/
structure B64 where
  data : Bytes
  i : Nat
  resultCount : Nat
  validCount : Nat
  convered : Nat

/-- How a call of `DecodeB64` ends. -/
inductive B64End where
  | returned (data : Bytes) (resultCount : Nat)
  /-- A character is overwritten that was not read yet. -/
  | overwrites
  /-- The rounds given did not suffice. -/
  | running
  deriving DecidableEq, Repr

/-- `data[resultCount + k] = bs[k]` and the count moved on; the characters in front of `limit`
were read. -/
def B64.put (s : B64) (limit : Nat) (bs : Bytes) : Option B64 :=
  (storeBelow limit s.data s.resultCount bs).map fun data =>
    { s with data := data, resultCount := s.resultCount + bs.length }

/-- The bytes left in `convered` behind the loop. -/
def B64.tail (s : B64) : Bytes :=
  if s.validCount % 4 = 3 then [(s.convered / 1024).toUInt8, (s.convered / 4).toUInt8]
  else if s.validCount % 4 = 2 then [(s.convered / 16).toUInt8]
  else []

/-- What stands behind the loop. The terminator at `i` is read by then. -/
def B64.finish (s : B64) : B64End :=
  match s.put (s.i + 1) s.tail with
  | none => .overwrites
  | some s =>
    match storeBelow (s.i + 1) s.data s.resultCount [0] with
    | none => .overwrites
    | some data => .returned data s.resultCount

/-- The next character, of value `v`; `convered` is an `unsigned long`. -/
def B64.take (s : B64) (v : Nat) : B64 :=
  { s with
    i := s.i + 1
    validCount := s.validCount + 1
    convered := (s.convered * 64 + v) % 4294967296 }

/-- The three bytes of a full group. -/
def B64.group (s : B64) : Bytes :=
  [(s.convered / 65536).toUInt8, (s.convered / 256).toUInt8, s.convered.toUInt8]

/-- `while (data[i] != 0)`. -/
def B64.loop : Nat → B64 → B64End
  | 0, _ => .running
  | rounds + 1, s =>
    let c := at' s.data s.i
    if c = 0 then s.finish
    else if c == 13 || c == 10 || c == 61 then loop rounds { s with i := s.i + 1 }
    else
      match b64Value c with
      | none => .returned s.data 0
      | some v =>
        let s := s.take v
        if s.validCount % 4 = 0 then
          match s.put s.i s.group with
          | none => .overwrites
          | some s => loop rounds { s with convered := 0 }
        else loop rounds s

/-- `DecodeB64(data)` in `rounds` rounds. -/
def decodeB64InPlace (rounds : Nat) (data : Bytes) : B64End := B64.loop rounds ⟨data, 0, 0, 0, 0⟩

end Httpd
