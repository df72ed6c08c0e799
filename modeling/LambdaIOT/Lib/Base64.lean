import LambdaIOT.Lib.Bytes

/-!
# Base64 texts

Three bytes are twenty-four bits and so four characters, of six bits each. Of a last group that is
not full, only the characters that hold some of its bits are written; a padding of `=` may make up
the four.
-/

namespace CMem

/-- The character of a six-bit value. -/
def base64Char (v : Nat) : UInt8 :=
  if v < 26 then (65 + v).toUInt8
  else if v < 52 then (97 + (v - 26)).toUInt8
  else if v < 62 then (48 + (v - 52)).toUInt8
  else if v = 62 then 43
  else 47

/-- The characters of a byte string, without padding. -/
def base64Encode : Bytes → Bytes
  | [] => []
  | [a] => [base64Char (a.toNat / 4), base64Char (a.toNat % 4 * 16)]
  | [a, b] =>
    [base64Char (a.toNat / 4), base64Char (a.toNat % 4 * 16 + b.toNat / 16),
      base64Char (b.toNat % 16 * 4)]
  | a :: b :: c :: x =>
    base64Char (a.toNat / 4) :: base64Char (a.toNat % 4 * 16 + b.toNat / 16) ::
      base64Char (b.toNat % 16 * 4 + c.toNat / 64) :: base64Char (c.toNat % 64) :: base64Encode x

/-- The padding of a string of `n` bytes. -/
def base64Padding (n : Nat) : Bytes := List.replicate ((3 - n % 3) % 3) 61

/-- The number that four sextets make up. -/
def sextets (v₁ v₂ v₃ v₄ : Nat) : Nat := ((v₁ * 64 + v₂) * 64 + v₃) * 64 + v₄

theorem toUInt8_eq {n : Nat} {b : UInt8} (h : n % 256 = b.toNat) : n.toUInt8 = b := by
  apply UInt8.toNat_inj.mp
  rw [← h]
  exact UInt8.toNat_ofNat'

section

variable (a b c : UInt8)

/-- Each character of a group holds six bits. -/
theorem sextet_lt : a.toNat / 4 < 64 ∧ a.toNat % 4 * 16 + b.toNat / 16 < 64 ∧
    b.toNat % 16 * 4 + c.toNat / 64 < 64 ∧ c.toNat % 64 < 64 := by
  have ha := a.toNat_lt
  have hb := b.toNat_lt
  have hc := c.toNat_lt
  refine ⟨?_, ?_, ?_, ?_⟩ <;> omega

/-- A full group gives its three bytes back. -/
theorem sextets_group {n : Nat}
    (hn : n = sextets (a.toNat / 4) (a.toNat % 4 * 16 + b.toNat / 16)
      (b.toNat % 16 * 4 + c.toNat / 64) (c.toNat % 64)) :
    [(n / 65536).toUInt8, (n / 256).toUInt8, n.toUInt8] = [a, b, c] := by
  have ha := a.toNat_lt
  have hb := b.toNat_lt
  have hc := c.toNat_lt
  have hval : n = a.toNat * 65536 + b.toNat * 256 + c.toNat := by
    rw [hn, sextets]
    omega
  rw [toUInt8_eq (show n / 65536 % 256 = a.toNat by omega),
    toUInt8_eq (show n / 256 % 256 = b.toNat by omega),
    toUInt8_eq (show n % 256 = c.toNat by omega)]

/-- Three characters give two bytes back. -/
theorem sextets_three {n : Nat}
    (hn : n = (a.toNat / 4 * 64 + (a.toNat % 4 * 16 + b.toNat / 16)) * 64 + b.toNat % 16 * 4) :
    [(n / 1024).toUInt8, (n / 4).toUInt8] = [a, b] := by
  have ha := a.toNat_lt
  have hb := b.toNat_lt
  have hval : n = a.toNat * 1024 + b.toNat * 4 := by
    rw [hn]
    omega
  rw [toUInt8_eq (show n / 1024 % 256 = a.toNat by omega),
    toUInt8_eq (show n / 4 % 256 = b.toNat by omega)]

/-- Two characters give one byte back. -/
theorem sextets_two {n : Nat} (hn : n = a.toNat / 4 * 64 + a.toNat % 4 * 16) :
    [(n / 16).toUInt8] = [a] := by
  have ha := a.toNat_lt
  have hval : n = a.toNat * 16 := by
    rw [hn]
    omega
  rw [toUInt8_eq (show n / 16 % 256 = a.toNat by omega)]

end

/-- Every character of an encoding stands for some six bits. -/
theorem mem_base64Encode {x : Bytes} {c : UInt8} (hc : c ∈ base64Encode x) :
    ∃ v < 64, c = base64Char v := by
  induction x using base64Encode.induct with
  | case1 => cases hc
  | case2 a =>
    obtain ⟨h₁, h₂, -⟩ := sextet_lt a 0 0
    rw [base64Encode] at hc
    rcases List.mem_cons.mp hc with rfl | hc
    · exact ⟨_, h₁, rfl⟩
    · obtain rfl := List.mem_singleton.mp hc
      exact ⟨_, h₂, rfl⟩
  | case3 a b =>
    obtain ⟨h₁, h₂, h₃, -⟩ := sextet_lt a b 0
    rw [base64Encode] at hc
    rcases List.mem_cons.mp hc with rfl | hc
    · exact ⟨_, h₁, rfl⟩
    rcases List.mem_cons.mp hc with rfl | hc
    · exact ⟨_, h₂, rfl⟩
    · obtain rfl := List.mem_singleton.mp hc
      exact ⟨_, h₃, rfl⟩
  | case4 a b d x ih =>
    obtain ⟨h₁, h₂, h₃, h₄⟩ := sextet_lt a b d
    rw [base64Encode] at hc
    rcases List.mem_cons.mp hc with rfl | hc
    · exact ⟨_, h₁, rfl⟩
    rcases List.mem_cons.mp hc with rfl | hc
    · exact ⟨_, h₂, rfl⟩
    rcases List.mem_cons.mp hc with rfl | hc
    · exact ⟨_, h₃, rfl⟩
    rcases List.mem_cons.mp hc with rfl | hc
    · exact ⟨_, h₄, rfl⟩
    · exact ih hc

end CMem
