import LambdaIOT.Lib.Base64
import LambdaIOT.Lib.Percent
import LambdaIOT.Httpd.Decoders
import LambdaIOT.Httpd.Handlers

/-!
# Decoding in place

`URLDecode` leaves the decoded text at the front of the buffer it was given the text in, and never
looks behind the text. It shortens a length of its own and not the string, so that the bytes
behind the decoded text are left as they come.

`DecodeB64` writes three bytes for every four characters, so it stays behind its own reading. Of a
text in the alphabet it leaves the decoded bytes and a zero. The last of its comparisons accepts
every byte from `/` on, and only a smaller one makes it return 0.
-/

namespace Httpd

open CMem

/-! ## Percent escapes -/

theorem hex2Int_eq (c : UInt8) : hex2Int c = hexDigit c := by
  have hall : ∀ n : Fin 256, hex2Int (UInt8.ofNat n) = hexDigit (UInt8.ofNat n) := by decide +kernel
  have hc := hall ⟨c.toNat, c.toNat_lt⟩
  rwa [UInt8.ofNat_toNat] at hc

theorem at'_behind_prefix (pre s : Bytes) (k : Nat) : (pre ++ s).getD (pre.length + k) 0 = s.getD k 0 := by
  rw [List.getD_eq_getElem?_getD, List.getD_eq_getElem?_getD, List.getElem?_append_right (by omega),
    Nat.add_sub_cancel_left]

/-- One round over a character that stays. -/
theorem urlDecodeWithin_keep {limit fuel : Nat} {pre todo junk : Bytes} {c : UInt8} (hc : c ≠ 0)
    (hlimit : pre.length + (c :: todo).length ≤ limit)
    (hkeep : c ≠ 37 ∨ todo.length < 2 ∨
      ∃ a b s, todo = a :: b :: s ∧ escaped a b = none) :
    urlDecodeWithin limit (fuel + 1) (pre ++ (c :: todo ++ junk)) pre.length
        (pre.length + (c :: todo).length) =
      urlDecodeWithin limit fuel ((pre ++ [c]) ++ (todo ++ junk)) (pre ++ [c]).length
        ((pre ++ [c]).length + todo.length) := by
  rw [List.length_cons] at hlimit
  have hmem : pre ++ (c :: todo ++ junk) = (pre ++ [c]) ++ (todo ++ junk) := by simp
  have hpos : (pre ++ [c]).length = pre.length + 1 := by
    rw [List.length_append, List.length_singleton]
  have hend : pre.length + (c :: todo).length = (pre ++ [c]).length + todo.length := by
    rw [hpos, List.length_cons]
    omega
  have hread : ∀ k, pre.length + k < limit →
      readBelow limit (pre ++ (c :: todo ++ junk)) (pre.length + k) =
        some ((c :: todo ++ junk).getD k 0) := by
    intro k hk
    rw [readBelow_of_lt hk, at'_behind_prefix]
  have hfirst := hread 0 (by omega)
  rw [Nat.add_zero] at hfirst
  rw [urlDecodeWithin, if_pos (by rw [List.length_cons]; omega), hfirst]
  simp only [List.cons_append, List.getD_cons_zero, Option.bind_eq_bind, Option.bind_some]
  rw [if_neg hc, hend, ← List.cons_append, hmem, hpos]
  by_cases hplain : c = 37
  · rw [if_neg (by simpa using hplain)]
    by_cases hshort : todo.length < 2
    · rw [if_neg (by omega)]
    · rcases hkeep with h | h | ⟨a, b, s, rfl, hbad⟩
      · exact absurd hplain h
      · exact absurd h hshort
      · rw [List.length_cons, List.length_cons] at hlimit
        have hhigh := hread 1 (by omega)
        have hlow := hread 2 (by omega)
        rw [hmem] at hhigh hlow
        rw [if_pos (by rw [List.length_cons, List.length_cons]; omega), hhigh, hlow]
        simp only [List.cons_append, List.getD_cons_succ, List.getD_cons_zero, Option.bind_some]
        rw [hex2Int_eq, hex2Int_eq]
        unfold escaped at hbad
        cases ha : hexDigit a with
        | none => rfl
        | some x =>
          cases hb : hexDigit b with
          | none => rfl
          | some y =>
            rw [ha, hb] at hbad
            cases hbad
  · rw [if_pos hplain]

/-- One round over an escape: the text behind it moves up by two bytes. -/
theorem urlDecodeWithin_escape {limit : Nat} (fuel : Nat) (pre todo junk : Bytes) {a b x : UInt8}
    (hx : escaped a b = some x)
    (hlimit : pre.length + (37 :: a :: b :: todo).length ≤ limit) :
    ∃ left, left.length = 2 ∧
      urlDecodeWithin limit (fuel + 1) (pre ++ (37 :: a :: b :: todo ++ junk)) pre.length
          (pre.length + (37 :: a :: b :: todo).length) =
        urlDecodeWithin limit fuel ((pre ++ [x]) ++ (todo ++ (left ++ junk))) (pre ++ [x]).length
          ((pre ++ [x]).length + todo.length) := by
  simp only [List.length_cons] at hlimit
  have hread : ∀ k, pre.length + k < limit →
      readBelow limit (pre ++ (37 :: a :: b :: todo ++ junk)) (pre.length + k) =
        some ((37 :: a :: b :: todo ++ junk).getD k 0) := by
    intro k hk
    rw [readBelow_of_lt hk, at'_behind_prefix]
  have hfirst := hread 0 (by omega)
  have hhigh := hread 1 (by omega)
  have hlow := hread 2 (by omega)
  rw [Nat.add_zero] at hfirst
  obtain ⟨n, m, ha, hb, hnm⟩ : ∃ n m, hexDigit a = some n ∧ hexDigit b = some m ∧
      (n * 16 + m).toUInt8 = x := by
    unfold escaped at hx
    cases ha : hexDigit a with
    | none => rw [ha] at hx; cases hx
    | some n =>
      cases hb : hexDigit b with
      | none => rw [ha, hb] at hx; cases hx
      | some m =>
        rw [ha, hb] at hx
        exact ⟨n, m, rfl, rfl, Option.some.inj hx⟩
  -- The decoded byte, and then the rest of the text behind it.
  have hput : store (pre ++ (37 :: a :: b :: todo ++ junk)) pre.length [x] =
      (pre ++ [x]) ++ (a :: b :: todo ++ junk) := by
    rw [List.cons_append, store_byte _ _ _ _ rfl, List.append_assoc]
    rfl
  have htail : load ((pre ++ [x]) ++ (a :: b :: todo ++ junk)) (pre.length + 3) todo.length = todo := by
    have hin : (pre ++ [x]) ++ (a :: b :: todo ++ junk) = (pre ++ [x, a, b]) ++ (todo ++ junk) := by
      simp
    rw [hin, load, List.drop_left' (by simp), List.take_left]
  obtain ⟨left, hleft, hmove⟩ : ∃ left, left.length = 2 ∧
      store ((pre ++ [x]) ++ (a :: b :: todo ++ junk)) (pre.length + 1) todo =
        (pre ++ [x]) ++ (todo ++ (left ++ junk)) := by
    have hpos : pre.length + 1 = (pre ++ [x]).length := by
      rw [List.length_append, List.length_singleton]
    have hroom : todo.length ≤ (a :: b :: todo).length := by
      rw [List.length_cons, List.length_cons]
      omega
    refine ⟨(a :: b :: todo).drop todo.length, ?_, ?_⟩
    · rw [List.length_drop, List.length_cons, List.length_cons]
      omega
    rw [hpos, store_eq (by simp only [List.length_append]; omega), List.take_left,
      ← List.length_append]
    have hdrop : ((pre ++ [x]) ++ (a :: b :: todo ++ junk)).drop ((pre ++ [x]) ++ todo).length =
        (a :: b :: todo).drop todo.length ++ junk := by
      rw [List.length_append, List.drop_append, List.drop_of_length_le (by omega), List.nil_append,
        Nat.add_sub_cancel_left, List.drop_append_of_le_length hroom]
    rw [hdrop, List.append_assoc]
  have hsize : pre.length + (37 :: a :: b :: todo).length - pre.length - 3 = todo.length := by
    simp only [List.length_cons]
    omega
  have hend : pre.length + (37 :: a :: b :: todo).length - 2 = (pre ++ [x]).length + todo.length := by
    simp only [List.length_cons, List.length_append, List.length_nil]
    omega
  refine ⟨left, hleft, ?_⟩
  rw [urlDecodeWithin, if_pos (by simp), hfirst]
  simp only [List.cons_append, List.getD_cons_zero, Option.bind_eq_bind, Option.bind_some]
  rw [if_neg (by decide), if_neg (by decide), if_pos (by simp only [List.length_cons]; omega)]
  simp only [List.cons_append] at hhigh hlow hput htail hmove
  rw [hhigh, hlow]
  simp only [List.getD_cons_succ, List.getD_cons_zero, Option.bind_some]
  rw [hex2Int_eq, hex2Int_eq, ha, hb]
  dsimp only
  rw [hnm, storeBelow_of_le (by simp only [List.length_singleton]; omega), Option.bind_some, hput,
    hsize, loadBelow_of_le (by omega), Option.bind_some, htail, storeBelow_of_le (by omega),
    Option.bind_some, hmove, hend]
  simp

/-- The loop from any point of the text on, by induction on what is not scanned. -/
theorem urlDecodeWithin_decodes (limit fuel : Nat) (pre todo junk : Bytes) (htodo : NoNul todo)
    (hfuel : todo.length ≤ fuel) (hlimit : pre.length + todo.length ≤ limit) :
    ∃ left, (percentDecode todo).length + left.length = todo.length ∧
      urlDecodeWithin limit fuel (pre ++ (todo ++ junk)) pre.length (pre.length + todo.length) =
        some (pre ++ (percentDecode todo ++ (left ++ junk)),
          pre.length + (percentDecode todo).length) := by
  generalize hn : todo.length = n
  induction n using Nat.strong_induction_on generalizing fuel pre todo junk with
  | _ n ih =>
    subst hn
    cases todo with
    | nil =>
      refine ⟨[], rfl, ?_⟩
      cases fuel with
      | zero => simp [urlDecodeWithin, percentDecode]
      | succ fuel => simp [urlDecodeWithin, percentDecode]
    | cons c todo =>
      obtain ⟨fuel, rfl⟩ : ∃ k, fuel = k + 1 :=
        Nat.exists_eq_succ_of_ne_zero (by rw [List.length_cons] at hfuel; omega)
      have hc : c ≠ 0 := htodo c (List.mem_cons_self ..)
      have hrest : NoNul todo := fun b hb => htodo b (List.mem_cons_of_mem _ hb)
      -- A character that stays: the rest of the text is scanned from behind it.
      have hstays : percentDecode (c :: todo) = c :: percentDecode todo →
          (c ≠ 37 ∨ todo.length < 2 ∨ ∃ a b s, todo = a :: b :: s ∧ escaped a b = none) →
          ∃ left, (percentDecode (c :: todo)).length + left.length = (c :: todo).length ∧
            urlDecodeWithin limit (fuel + 1) (pre ++ (c :: todo ++ junk)) pre.length
                (pre.length + (c :: todo).length) =
              some (pre ++ (percentDecode (c :: todo) ++ (left ++ junk)),
                pre.length + (percentDecode (c :: todo)).length) := by
        intro hdecode hkeep
        simp only [List.length_cons] at hfuel hlimit
        obtain ⟨left, hleft, hloop⟩ := ih todo.length (by rw [List.length_cons]; omega) fuel
          (pre ++ [c]) todo junk hrest (by omega)
          (by rw [List.length_append, List.length_singleton]; omega) rfl
        refine ⟨left, by rw [hdecode, List.length_cons, List.length_cons]; omega, ?_⟩
        rw [urlDecodeWithin_keep hc (by rw [List.length_cons]; omega) hkeep, hloop, hdecode]
        simp
        omega
      by_cases hpercent : c = 37
      · subst hpercent
        rcases todo with _ | ⟨a, _ | ⟨b, s⟩⟩
        · exact hstays (percentDecode_short 37 (by decide)) (.inr (.inl (by decide)))
        · exact hstays (percentDecode_short 37 Nat.one_lt_two) (.inr (.inl Nat.one_lt_two))
        · cases hx : escaped a b with
          | none =>
            exact hstays (percentDecode_invalid hx s) (.inr (.inr ⟨a, b, s, rfl, hx⟩))
          | some x =>
            have hs : NoNul s := fun d hd =>
              hrest d (List.mem_cons_of_mem _ (List.mem_cons_of_mem _ hd))
            obtain ⟨gap, hgap, hround⟩ := urlDecodeWithin_escape fuel pre s junk hx hlimit
            simp only [List.length_cons] at hfuel hlimit
            obtain ⟨left, hleft, hloop⟩ := ih s.length (by simp only [List.length_cons]; omega) fuel
              (pre ++ [x]) s (gap ++ junk) hs (by omega)
              (by rw [List.length_append, List.length_singleton]; omega) rfl
            refine ⟨left ++ gap, ?_, ?_⟩
            · rw [percentDecode_escape hx]
              simp only [List.length_cons, List.length_append]
              omega
            · rw [hround, hloop, percentDecode_escape hx]
              simp
              omega
      · exact hstays (percentDecode_plain hpercent todo) (.inl hpercent)

/-- `URLDecode` over a string, whatever stands behind its terminator. The loop has ended after as
many rounds as the string has characters, has kept its accesses inside the string, and gives the
length of the decoded text, which stands at the front. -/
theorem url_decode_string {s : Bytes} (hs : NoNul s) (behind : Bytes) :
    ∃ left, (percentDecode s).length + left.length = s.length ∧
      urlDecodeWithin s.length s.length (s ++ 0 :: behind) 0 s.length =
        some (percentDecode s ++ (left ++ 0 :: behind), (percentDecode s).length) ∧
      urlDecode (s ++ 0 :: behind) =
        (percentDecode s ++ (left ++ 0 :: behind), (percentDecode s).length) := by
  obtain ⟨left, hleft, hloop⟩ :=
    urlDecodeWithin_decodes s.length s.length [] s (0 :: behind) hs (Nat.le_refl _) (by simp)
  have hstrlen : strlen (s ++ 0 :: behind) = s.length := by
    rw [strlen, cstr_append_nul hs]
  simp only [List.nil_append, List.length_nil, Nat.zero_add] at hloop
  refine ⟨left, hleft, hloop, ?_⟩
  rw [urlDecode, hstrlen]
  exact urlDecodeLoop_of_within hloop

/-- `a%41%4`, an escape in front of one that is cut off. -/
theorem url_decode_string_cut_escape :
    ∃ left, (percentDecode [97, 37, 52, 49, 37, 52]).length + left.length = 6 ∧
      urlDecodeWithin 6 6 [97, 37, 52, 49, 37, 52, 0] 0 6 =
        some ([97, 65, 37, 52] ++ (left ++ [0]), 4) ∧
      urlDecode [97, 37, 52, 49, 37, 52, 0] = ([97, 65, 37, 52] ++ (left ++ [0]), 4) :=
  url_decode_string (s := [97, 37, 52, 49, 37, 52]) (by decide) []

/-! ## Base64 -/

/-- What the loop of `DecodeB64` passes over. -/
def b64Ignored (c : UInt8) : Bool := c == 13 || c == 10 || c == 61

theorem decodeB64Loop_ignored {c : UInt8} (hc : b64Ignored c = true) (cs : Bytes) (valid bits : Nat)
    (out : Bytes) : decodeB64Loop (c :: cs) valid bits out = decodeB64Loop cs valid bits out := by
  rw [decodeB64Loop]
  exact if_pos hc

theorem decodeB64Loop_bad {c : UInt8} (hc : b64Ignored c = false) (hbad : b64Value c = none)
    (cs : Bytes) (valid bits : Nat) (out : Bytes) :
    decodeB64Loop (c :: cs) valid bits out = [] := by
  rw [decodeB64Loop]
  refine (if_neg (by rw [← b64Ignored, hc]; exact Bool.false_ne_true)).trans ?_
  rw [hbad]

theorem decodeB64Loop_value {c : UInt8} {v : Nat} (hc : b64Ignored c = false)
    (hv : b64Value c = some v) (cs : Bytes) (valid bits : Nat) (out : Bytes) :
    decodeB64Loop (c :: cs) valid bits out =
      if (valid + 1) % 4 = 0 then
        decodeB64Loop cs (valid + 1) 0 (out ++ [((bits * 64 + v) / 65536).toUInt8,
          ((bits * 64 + v) / 256).toUInt8, (bits * 64 + v).toUInt8])
      else decodeB64Loop cs (valid + 1) (bits * 64 + v) out := by
  rw [decodeB64Loop]
  refine (if_neg (by rw [← b64Ignored, hc]; exact Bool.false_ne_true)).trans ?_
  rw [hv]

theorem b64Value_lt {c : UInt8} {v : Nat} (hv : b64Value c = some v) : v < 64 := by
  have hall : ∀ n : Fin 256, ∀ v ∈ b64Value (UInt8.ofNat n), v < 64 := by decide +kernel
  have hc := hall ⟨c.toNat, c.toNat_lt⟩
  rw [UInt8.ofNat_toNat] at hc
  exact hc v hv

/-- The bytes left behind the loop, by the characters counted. -/
theorem decodeB64Loop_nil (data : Bytes) (i n valid bits : Nat) (out : Bytes) :
    decodeB64Loop [] valid bits out = out ++ B64.tail ⟨data, i, n, valid, bits⟩ := by
  unfold decodeB64Loop B64.tail
  dsimp only
  by_cases h3 : valid % 4 = 3
  · rw [if_pos h3, if_pos h3]
  · rw [if_neg h3, if_neg h3]
    by_cases h2 : valid % 4 = 2
    · rw [if_pos h2, if_pos h2]
    · rw [if_neg h2, if_neg h2, List.append_nil]

theorem length_tail (s : B64) : s.tail.length = s.validCount % 4 * 3 / 4 := by
  unfold B64.tail
  by_cases h3 : s.validCount % 4 = 3
  · rw [if_pos h3, h3]
    rfl
  · rw [if_neg h3]
    by_cases h2 : s.validCount % 4 = 2
    · rw [if_pos h2, h2]
      rfl
    · rw [if_neg h2, List.length_nil]
      omega

theorem store_over_gap {out gap bs : Bytes} (t : Bytes) (h : bs.length ≤ gap.length) :
    store (out ++ (gap ++ t)) out.length bs = (out ++ bs) ++ (gap.drop bs.length ++ t) := by
  rw [store_eq (by simp only [List.length_append]; omega), List.take_left, List.drop_append,
    List.drop_of_length_le (by omega), List.nil_append, Nat.add_sub_cancel_left,
    List.drop_append_of_le_length h]

theorem put_over_gap {out gap : Bytes} {limit : Nat} (bs t : Bytes) (i valid bits : Nat)
    (hlimit : limit ≤ out.length + gap.length) (hbs : out.length + bs.length ≤ limit) :
    B64.put ⟨out ++ (gap ++ t), i, out.length, valid, bits⟩ limit bs =
      some ⟨(out ++ bs) ++ (gap.drop bs.length ++ t), i, (out ++ bs).length, valid, bits⟩ := by
  rw [B64.put, storeBelow_of_le hbs, store_over_gap t (by omega), Option.map_some,
    List.length_append]

section

variable {s : B64} {rounds : Nat} (hchar : at' s.data s.i ≠ 0)

include hchar

theorem loop_ignored (hc : b64Ignored (at' s.data s.i) = true) :
    B64.loop (rounds + 1) s = B64.loop rounds { s with i := s.i + 1 } := by
  rw [B64.loop]
  exact (if_neg hchar).trans (if_pos hc)

theorem loop_bad (hc : b64Ignored (at' s.data s.i) = false) (hbad : b64Value (at' s.data s.i) = none) :
    B64.loop (rounds + 1) s = .returned s.data 0 := by
  rw [B64.loop]
  refine (if_neg hchar).trans ((if_neg (by rw [← b64Ignored, hc]; exact Bool.false_ne_true)).trans ?_)
  rw [hbad]

theorem loop_value {v : Nat} (hc : b64Ignored (at' s.data s.i) = false)
    (hv : b64Value (at' s.data s.i) = some v) :
    B64.loop (rounds + 1) s =
      if (s.validCount + 1) % 4 = 0 then
        match (s.take v).put (s.i + 1) (s.take v).group with
        | none => .overwrites
        | some s => B64.loop rounds { s with convered := 0 }
      else B64.loop rounds (s.take v) := by
  rw [B64.loop]
  refine (if_neg hchar).trans ((if_neg (by rw [← b64Ignored, hc]; exact Bool.false_ne_true)).trans ?_)
  rw [hv]
  rfl

end

/-- The character a round looks at. -/
theorem at'_scanned (out gap t : Bytes) : at' (out ++ (gap ++ t)) (out.length + gap.length) = t.getD 0 0 := by
  have h := at'_behind_prefix (out ++ gap) t 0
  rw [List.append_assoc, List.length_append, Nat.add_zero] at h
  exact h

/-- The loop from any point of a text on, by induction on what is not scanned. What was scanned and
not written over is `gap`. The bytes written are three for each group of four characters, so they
end in front of the next character. -/
theorem b64_loop (behind : Bytes) {cs : Bytes} (hcs : NoNul cs) {rounds valid bits : Nat}
    {out gap : Bytes} (hrounds : cs.length < rounds) (hout : out.length = 3 * (valid / 4))
    (hvalid : valid ≤ out.length + gap.length) (hbits : bits < 64 ^ (valid % 4)) :
    ∃ data, B64.loop rounds ⟨out ++ (gap ++ (cs ++ 0 :: behind)), out.length + gap.length,
        out.length, valid, bits⟩ = .returned data (decodeB64Loop cs valid bits out).length ∧
      ((∀ c ∈ cs, b64Ignored c = true ∨ ∃ v, b64Value c = some v) →
        ∃ rest, data = decodeB64Loop cs valid bits out ++ 0 :: rest) := by
  induction cs generalizing rounds valid bits out gap with
  | nil =>
    obtain ⟨rounds, rfl⟩ : ∃ k, rounds = k + 1 := Nat.exists_eq_succ_of_ne_zero (by omega)
    have hdata : out ++ (gap ++ ([] ++ 0 :: behind)) = out ++ ((gap ++ [0]) ++ behind) := by simp
    have hlimit : out.length + gap.length + 1 ≤ out.length + (gap ++ [0]).length := by
      rw [List.length_append, List.length_singleton]
      omega
    rw [B64.loop]
    dsimp only
    rw [at'_scanned, if_pos (show ([] ++ 0 :: behind : Bytes).getD 0 0 = 0 from rfl), B64.finish, hdata]
    generalize hs : B64.mk (out ++ ((gap ++ [0]) ++ behind)) (out.length + gap.length) out.length
      valid bits = s
    have htail := length_tail s
    have hcount : s.validCount = valid := by rw [← hs]
    have hi : s.i = out.length + gap.length := by rw [← hs]
    rw [hcount] at htail
    have hput := put_over_gap s.tail behind (out.length + gap.length) valid bits hlimit (by omega)
    rw [hs] at hput
    rw [hi, hput]
    dsimp only
    rw [storeBelow_of_le (by simp only [List.length_append, List.length_singleton]; omega),
      store_over_gap behind (by
        simp only [List.length_drop, List.length_append, List.length_singleton]; omega)]
    have hend := decodeB64Loop_nil (out ++ ((gap ++ [0]) ++ behind)) (out.length + gap.length)
      out.length valid bits out
    rw [hs] at hend
    rw [hend]
    refine ⟨_, rfl, ?_⟩
    intro _
    exact ⟨_, by rw [List.append_assoc (out ++ s.tail)]; rfl⟩
  | cons c cs ih =>
    obtain ⟨rounds, rfl⟩ : ∃ k, rounds = k + 1 := Nat.exists_eq_succ_of_ne_zero (by omega)
    have hc : c ≠ 0 := hcs c (List.mem_cons_self ..)
    have hrest : NoNul cs := fun b hb => hcs b (List.mem_cons_of_mem _ hb)
    rw [List.length_cons] at hrounds
    have hscanned : gap ++ (c :: cs ++ 0 :: behind) = (gap ++ [c]) ++ (cs ++ 0 :: behind) := by simp
    have hnext : out.length + gap.length + 1 = out.length + (gap ++ [c]).length := by
      rw [List.length_append, List.length_singleton]
      omega
    have hat : at' (out ++ (gap ++ (c :: cs ++ 0 :: behind))) (out.length + gap.length) = c :=
      at'_scanned ..
    by_cases hign : b64Ignored c = true
    · rw [loop_ignored (by rw [hat]; exact hc) (by rw [hat]; exact hign),
        decodeB64Loop_ignored hign]
      dsimp only
      rw [hscanned, hnext]
      obtain ⟨data, hdata, hall⟩ := @ih hrest rounds valid bits out (gap ++ [c]) (by omega) hout
        (by omega) hbits
      exact ⟨data, hdata, fun h => hall fun b hb => h b (List.mem_cons_of_mem _ hb)⟩
    · have hchar : b64Ignored c = false := Bool.not_eq_true _ ▸ hign
      cases hv : b64Value c with
      | none =>
        rw [loop_bad (by rw [hat]; exact hc) (by rw [hat]; exact hchar) (by rw [hat]; exact hv),
          decodeB64Loop_bad hchar hv]
        refine ⟨_, rfl, ?_⟩
        intro h
        rcases h c (List.mem_cons_self ..) with hign' | ⟨v, hv'⟩
        · exact absurd hign' hign
        · rw [hv] at hv'
          cases hv'
      | some v =>
        have hlt := b64Value_lt hv
        have hword : (bits * 64 + v) % 4294967296 = bits * 64 + v := by
          have hpow : 64 ^ (valid % 4) ≤ 64 ^ 3 := Nat.pow_le_pow_right (by decide) (by omega)
          omega
        rw [loop_value (by rw [hat]; exact hc) (by rw [hat]; exact hchar) (by rw [hat]; exact hv),
          decodeB64Loop_value hchar hv]
        simp only [B64.take, B64.group, hword]
        by_cases hgroup : (valid + 1) % 4 = 0
        · rw [if_pos hgroup, if_pos hgroup, hscanned, put_over_gap _ _ _ _ _ (by omega)
            (by simp only [List.length_cons, List.length_nil]; omega)]
          dsimp only
          generalize hbs : [((bits * 64 + v) / 65536).toUInt8, ((bits * 64 + v) / 256).toUInt8,
            (bits * 64 + v).toUInt8] = bs
          have hthree : bs.length = 3 := by rw [← hbs]; rfl
          have hgap : ((gap ++ [c]).drop bs.length).length = gap.length + 1 - 3 := by
            rw [List.length_drop, List.length_append, List.length_singleton, hthree]
          have hi : out.length + gap.length + 1 =
              (out ++ bs).length + ((gap ++ [c]).drop bs.length).length := by
            rw [hgap, List.length_append, hthree]
            omega
          obtain ⟨data, hdata, hall⟩ := @ih hrest rounds (valid + 1) 0 (out ++ bs)
            ((gap ++ [c]).drop bs.length) (by omega)
            (by rw [List.length_append, hthree]; omega) (by omega) (Nat.pow_pos (by decide))
          rw [hi]
          exact ⟨data, hdata, fun h => hall fun b hb => h b (List.mem_cons_of_mem _ hb)⟩
        · rw [if_neg hgroup, if_neg hgroup, hscanned, hnext]
          have hmore : bits * 64 + v < 64 ^ ((valid + 1) % 4) := by
            have hsucc : (valid + 1) % 4 = valid % 4 + 1 := by omega
            rw [hsucc, Nat.pow_succ]
            omega
          obtain ⟨data, hdata, hall⟩ := @ih hrest rounds (valid + 1) (bits * 64 + v) out
            (gap ++ [c]) (by omega) (by omega) (by omega) hmore
          exact ⟨data, hdata, fun h => hall fun b hb => h b (List.mem_cons_of_mem _ hb)⟩

/-! ### Encoded texts -/

theorem base64Char_accepted {v : Nat} (hv : v < 64) : b64Ignored (base64Char v) = false ∧
    b64Value (base64Char v) = some v ∧ base64Char v ≠ 0 := by
  have hall : ∀ v : Fin 64, b64Ignored (base64Char v) = false ∧
      b64Value (base64Char v) = some v.val ∧ base64Char v ≠ 0 := by decide +kernel
  exact hall ⟨v, hv⟩

/-- A round over a character of the alphabet. -/
theorem decodeB64Loop_char {v : Nat} (hv : v < 64) (cs : Bytes) (valid bits : Nat) (out : Bytes) :
    decodeB64Loop (base64Char v :: cs) valid bits out =
      if (valid + 1) % 4 = 0 then
        decodeB64Loop cs (valid + 1) 0 (out ++ [((bits * 64 + v) / 65536).toUInt8,
          ((bits * 64 + v) / 256).toUInt8, (bits * 64 + v).toUInt8])
      else decodeB64Loop cs (valid + 1) (bits * 64 + v) out :=
  decodeB64Loop_value (base64Char_accepted hv).1 (base64Char_accepted hv).2.1 cs valid bits out

/-- From a group's start on the loop gives back what was encoded. -/
theorem decodeB64Loop_encode (x out : Bytes) {valid : Nat} (hvalid : valid % 4 = 0) :
    decodeB64Loop (base64Encode x) valid 0 out = out ++ x := by
  induction x using base64Encode.induct generalizing out valid with
  | case1 =>
    rw [base64Encode, decodeB64Loop, if_neg (by omega), if_neg (by omega), List.append_nil]
  | case2 a =>
    obtain ⟨h₁, -⟩ := sextet_lt a 0 0
    have h₂ : a.toNat % 4 * 16 < 64 := by omega
    rw [base64Encode, decodeB64Loop_char h₁, if_neg (by omega), decodeB64Loop_char h₂,
      if_neg (by omega), decodeB64Loop, if_neg (by omega), if_pos (by omega)]
    rw [sextets_two a (by omega)]
  | case3 a b =>
    obtain ⟨h₁, h₂, -⟩ := sextet_lt a b 0
    have h₃ : b.toNat % 16 * 4 < 64 := by omega
    rw [base64Encode, decodeB64Loop_char h₁, if_neg (by omega), decodeB64Loop_char h₂,
      if_neg (by omega), decodeB64Loop_char h₃, if_neg (by omega), decodeB64Loop,
      if_pos (by omega)]
    rw [sextets_three a b (by omega)]
  | case4 a b c x ih =>
    obtain ⟨h₁, h₂, h₃, h₄⟩ := sextet_lt a b c
    rw [base64Encode, decodeB64Loop_char h₁, if_neg (by omega), decodeB64Loop_char h₂,
      if_neg (by omega), decodeB64Loop_char h₃, if_neg (by omega), decodeB64Loop_char h₄,
      if_pos (by omega)]
    rw [sextets_group a b c (by rw [sextets]; omega), ih _ (by omega), List.append_assoc]
    rfl

/-- What is passed over may as well not be there. -/
theorem decodeB64Loop_filter (cs : Bytes) (valid bits : Nat) (out : Bytes) :
    decodeB64Loop (cs.filter fun c => !b64Ignored c) valid bits out =
      decodeB64Loop cs valid bits out := by
  induction cs generalizing valid bits out with
  | nil => rfl
  | cons c cs ih =>
    by_cases hc : b64Ignored c = true
    · rw [List.filter_cons_of_neg (by rw [hc]; decide), decodeB64Loop_ignored hc, ih]
    · have hchar : b64Ignored c = false := Bool.not_eq_true _ ▸ hc
      rw [List.filter_cons_of_pos (by rw [hchar]; rfl)]
      cases hv : b64Value c with
      | none => rw [decodeB64Loop_bad hchar hv, decodeB64Loop_bad hchar hv]
      | some v => rw [decodeB64Loop_value hchar hv, decodeB64Loop_value hchar hv, ih, ih]

theorem filter_padding (n : Nat) : (base64Padding n).filter (fun c => !b64Ignored c) = [] := by
  rw [base64Padding, List.filter_replicate_of_neg (by decide)]

theorem filter_encode (x : Bytes) :
    (base64Encode x).filter (fun c => !b64Ignored c) = base64Encode x := by
  apply List.filter_eq_self.mpr
  intro c hc
  obtain ⟨v, hv, rfl⟩ := mem_base64Encode hc
  rw [(base64Char_accepted hv).1]
  rfl

/-- An encoding in lines, padded or not, is the encoding and bytes that are passed over. -/
theorem filter_encoded {x e : Bytes}
    (he : (e.filter fun c => c ≠ 13 ∧ c ≠ 10) = base64Encode x ∨
      (e.filter fun c => c ≠ 13 ∧ c ≠ 10) = base64Encode x ++ base64Padding x.length) :
    e.filter (fun c => !b64Ignored c) = base64Encode x := by
  have hlines : e.filter (fun c => !b64Ignored c) =
      (e.filter fun c => c ≠ 13 ∧ c ≠ 10).filter fun c => !b64Ignored c := by
    rw [List.filter_filter]
    apply List.filter_congr
    intro c _
    unfold b64Ignored
    by_cases h13 : c = 13
    · subst h13; rfl
    · by_cases h10 : c = 10
      · subst h10; rfl
      · simp [h13, h10]
  rw [hlines]
  rcases he with h | h
  · rw [h, filter_encode]
  · rw [h, List.filter_append, filter_encode, filter_padding, List.append_nil]

/-- A Base64 text, in lines or not, padded or not, whatever stands behind its terminator. A value
other than `.overwrites` says that no byte was written over a character still to be read. -/
theorem decodeB64InPlace_encoded {x e : Bytes}
    (he : (e.filter fun c => c ≠ 13 ∧ c ≠ 10) = base64Encode x ∨
      (e.filter fun c => c ≠ 13 ∧ c ≠ 10) = base64Encode x ++ base64Padding x.length)
    (behind : Bytes) {rounds : Nat} (hrounds : e.length < rounds) :
    ∃ rest, decodeB64InPlace rounds (e ++ 0 :: behind) = .returned (x ++ 0 :: rest) x.length := by
  have hfilter := filter_encoded he
  have haccepted : ∀ c ∈ e, b64Ignored c = true ∨ ∃ v, b64Value c = some v := by
    intro c hc
    by_cases hign : b64Ignored c = true
    · exact .inl hign
    · obtain ⟨v, hv, rfl⟩ := mem_base64Encode (hfilter ▸ List.mem_filter.mpr ⟨hc, by simpa using hign⟩)
      exact .inr ⟨v, (base64Char_accepted hv).2.1⟩
  have hnul : NoNul e := by
    intro c hc hzero
    subst hzero
    rcases haccepted 0 hc with h | ⟨v, hv⟩
    · exact absurd h (by decide)
    · exact absurd hv (by decide +revert)
  have hdecoded : decodeB64Loop e 0 0 [] = x := by
    rw [← decodeB64Loop_filter, hfilter, decodeB64Loop_encode x [] rfl, List.nil_append]
  obtain ⟨data, hloop, hdata⟩ :=
    @b64_loop behind e hnul rounds 0 0 [] [] hrounds rfl (Nat.zero_le 0) (by decide)
  obtain ⟨rest, rfl⟩ := hdata haccepted
  rw [hdecoded] at hloop
  exact ⟨rest, hloop⟩

/-- `TWFu` on two lines. -/
theorem decodeB64InPlace_encoded_lines :
    ([84, 87, 13, 10, 70, 117].filter fun c : UInt8 => c ≠ 13 ∧ c ≠ 10) =
        base64Encode [77, 97, 110] ∧
      ∃ rest, decodeB64InPlace 7 [84, 87, 13, 10, 70, 117, 0] =
        .returned ([77, 97, 110] ++ 0 :: rest) 3 :=
  ⟨by decide, decodeB64InPlace_encoded (x := [77, 97, 110]) (e := [84, 87, 13, 10, 70, 117])
    (.inl (by decide)) [] (by decide)⟩

/-! ### Malformed texts -/

/-- The bytes of no Base64 text. -/
def B64Foreign (c : UInt8) : Prop :=
  ¬(65 ≤ c ∧ c ≤ 90) ∧ ¬(97 ≤ c ∧ c ≤ 122) ∧ ¬(48 ≤ c ∧ c ≤ 57) ∧
    c ≠ 43 ∧ c ≠ 47 ∧ c ≠ 61 ∧ c ≠ 13 ∧ c ≠ 10

instance (c : UInt8) : Decidable (B64Foreign c) := inferInstanceAs (Decidable (_ ∧ _))

/-- The bytes that make `DecodeB64` give up. -/
def B64Refused (c : UInt8) : Prop := c < 47 ∧ c ≠ 43 ∧ c ≠ 13 ∧ c ≠ 10

instance (c : UInt8) : Decidable (B64Refused c) := inferInstanceAs (Decidable (_ ∧ _))

theorem b64Refused_iff (c : UInt8) :
    B64Refused c ↔ b64Ignored c = false ∧ b64Value c = none := by
  have hall : ∀ n : Fin 256, B64Refused (UInt8.ofNat n) ↔
      b64Ignored (UInt8.ofNat n) = false ∧ b64Value (UInt8.ofNat n) = none := by decide +kernel
  have hc := hall ⟨c.toNat, c.toNat_lt⟩
  rwa [UInt8.ofNat_toNat] at hc

/-- They are the foreign bytes under `/`. -/
theorem b64Refused_iff_foreign (c : UInt8) : B64Refused c ↔ B64Foreign c ∧ c < 47 := by
  have hall : ∀ n : Fin 256, B64Refused (UInt8.ofNat n) ↔
      B64Foreign (UInt8.ofNat n) ∧ UInt8.ofNat n < 47 := by decide +kernel
  have hc := hall ⟨c.toNat, c.toNat_lt⟩
  rwa [UInt8.ofNat_toNat] at hc

theorem decodeB64Loop_refused {cs : Bytes} (h : ∃ c ∈ cs, B64Refused c) (valid bits : Nat)
    (out : Bytes) : decodeB64Loop cs valid bits out = [] := by
  induction cs generalizing valid bits out with
  | nil =>
    obtain ⟨c, hc, -⟩ := h
    cases hc
  | cons c cs ih =>
    by_cases hc : B64Refused c
    · obtain ⟨hchar, hbad⟩ := (b64Refused_iff c).mp hc
      exact decodeB64Loop_bad hchar hbad cs valid bits out
    · have hrest : ∃ b ∈ cs, B64Refused b := by
        obtain ⟨b, hb, hbad⟩ := h
        rcases List.mem_cons.mp hb with rfl | hb
        · exact absurd hbad hc
        · exact ⟨b, hb, hbad⟩
      by_cases hign : b64Ignored c = true
      · rw [decodeB64Loop_ignored hign, ih hrest]
      · have hchar : b64Ignored c = false := Bool.not_eq_true _ ▸ hign
        cases hv : b64Value c with
        | none => exact absurd ((b64Refused_iff c).mpr ⟨hchar, hv⟩) hc
        | some v => rw [decodeB64Loop_value hchar hv, ih hrest, ih hrest, ite_self]

/-- Of a text without them, every four characters give three bytes. -/
theorem length_decodeB64Loop {cs : Bytes} (h : ∀ c ∈ cs, ¬B64Refused c) {valid : Nat} (bits : Nat)
    {out : Bytes} (hout : out.length = 3 * (valid / 4)) :
    (decodeB64Loop cs valid bits out).length =
      (valid + cs.countP fun c => !b64Ignored c) * 3 / 4 := by
  induction cs generalizing valid bits out with
  | nil =>
    rw [decodeB64Loop_nil [] 0 0, List.length_append, length_tail, List.countP_nil]
    dsimp only
    omega
  | cons c cs ih =>
    have hrest : ∀ b ∈ cs, ¬B64Refused b := fun b hb => h b (List.mem_cons_of_mem _ hb)
    by_cases hign : b64Ignored c = true
    · rw [decodeB64Loop_ignored hign, ih hrest bits hout,
        List.countP_cons_of_neg (by rw [hign]; decide)]
    · have hchar : b64Ignored c = false := Bool.not_eq_true _ ▸ hign
      rw [List.countP_cons_of_pos (by rw [hchar]; rfl)]
      cases hv : b64Value c with
      | none => exact absurd ((b64Refused_iff c).mpr ⟨hchar, hv⟩) (h c (List.mem_cons_self ..))
      | some v =>
        rw [decodeB64Loop_value hchar hv]
        by_cases hgroup : (valid + 1) % 4 = 0
        · rw [if_pos hgroup, ih hrest 0 (by
            simp only [List.length_append, List.length_cons, List.length_nil]; omega)]
          congr 2
          omega
        · rw [if_neg hgroup, ih hrest _ (by omega)]
          congr 2
          omega

theorem length_decodeB64Loop_eq_zero (s : Bytes) : (decodeB64Loop s 0 0 []).length = 0 ↔
    (∃ c ∈ s, B64Refused c) ∨ s.countP (fun c => !b64Ignored c) < 2 := by
  by_cases h : ∃ c ∈ s, B64Refused c
  · rw [decodeB64Loop_refused h]
    exact ⟨fun _ => .inl h, fun _ => rfl⟩
  · have hnone : ∀ c ∈ s, ¬B64Refused c := fun c hc hbad => h ⟨c, hc, hbad⟩
    rw [length_decodeB64Loop hnone 0 rfl, Nat.zero_add]
    constructor
    · intro hzero
      exact .inr (by omega)
    · rintro (hbad | hfew)
      · exact absurd hbad h
      · omega

/-- Of the foreign bytes `DecodeB64` gives up at those under `/`. Any other it takes for a `/`, and
then it returns 0 only if there are less than two characters to decode. Where it returns 0, the
upload handler has no name behind its folder. -/
theorem decodeB64_foreign {s : Bytes} (hs : NoNul s) (behind : Bytes) :
    ((∀ rounds > s.length, ∃ data, decodeB64InPlace rounds (s ++ 0 :: behind) = .returned data 0) ∧
      (∀ c line, hasPrefix line (ascii "X-File-Name:") = true → headerValue line = s →
        uploadOnHeaderReceived c line = { c with r := c.r.putApp 0 (uploadToFolder ++ [0]) })) ↔
      (∃ c ∈ s, B64Foreign c ∧ c < 47) ∨ s.countP (fun c => !b64Ignored c) < 2 := by
  have hrun : ∀ rounds > s.length, ∃ data, decodeB64InPlace rounds (s ++ 0 :: behind) =
      .returned data (decodeB64Loop s 0 0 []).length := by
    intro rounds hrounds
    obtain ⟨data, hloop, -⟩ :=
      @b64_loop behind s hs rounds 0 0 [] [] hrounds rfl (Nat.zero_le 0) (by decide)
    exact ⟨data, hloop⟩
  simp only [← b64Refused_iff_foreign]
  rw [← length_decodeB64Loop_eq_zero s]
  constructor
  · rintro ⟨hzero, -⟩
    obtain ⟨data, hdata⟩ := hrun (s.length + 1) (Nat.lt_succ_self _)
    obtain ⟨data', hdata'⟩ := hzero (s.length + 1) (Nat.lt_succ_self _)
    rw [hdata] at hdata'
    exact (B64End.returned.inj hdata').2
  · intro hlength
    refine ⟨?_, ?_⟩
    · intro rounds hrounds
      obtain ⟨data, hdata⟩ := hrun rounds hrounds
      rw [hlength] at hdata
      exact ⟨data, hdata⟩
    · intro c line hname hvalue
      have hnone : decodeB64 (headerValue line) = [] := by
        rw [hvalue, decodeB64, cstr_eq_self hs]
        exact List.eq_nil_of_length_eq_zero hlength
      rw [uploadOnHeaderReceived, if_pos hname, hnone]
      rfl

/-- `????` decodes to three bytes. -/
theorem decodeB64_foreign_marks :
    (∃ c ∈ [63, 63, 63, 63], B64Foreign c) ∧
      ¬(∀ rounds > 4, ∃ data,
        decodeB64InPlace rounds [63, 63, 63, 63, 0] = .returned data 0) := by
  refine ⟨⟨63, by decide, by decide⟩, ?_⟩
  intro h
  obtain ⟨data, hdata⟩ := h 5 (by decide)
  have hrun : decodeB64InPlace 5 [63, 63, 63, 63, 0] = .returned [255, 255, 255, 0, 0] 3 := by
    decide
  rw [hrun] at hdata
  exact absurd (B64End.returned.inj hdata).2 (by decide)

/-- A `!` behind three characters. -/
theorem decodeB64_foreign_exclamation :
    ((∀ rounds > 4, ∃ data, decodeB64InPlace rounds [65, 65, 65, 33, 0] = .returned data 0) ∧
      (∀ c line, hasPrefix line (ascii "X-File-Name:") = true → headerValue line = [65, 65, 65, 33] →
        uploadOnHeaderReceived c line = { c with r := c.r.putApp 0 (uploadToFolder ++ [0]) })) ↔
      (∃ c ∈ [65, 65, 65, 33], B64Foreign c ∧ c < 47) ∨
        [65, 65, 65, 33].countP (fun c => !b64Ignored c) < 2 :=
  decodeB64_foreign (s := [65, 65, 65, 33]) (by decide) []

end Httpd
