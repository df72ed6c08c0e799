import LambdaIOT.Httpd.Reach

/-!
# Splitting a request path

`ParseQueryString` cuts the path at its first question mark and copies its extension into
`_extension[8]`, without a bound. As long as every extension on the way fits there, the loop
keeps the extension of what it has read (`Splits`); the eighth character of one puts its NUL on
the first byte of the path, and the loop ends with an empty path.
-/

namespace Httpd

open CMem

/-! ## What a path consists of -/

/-- The path in front of the query. -/
def pathCut (s : Bytes) : Bytes := s.takeWhile (· != 63)

/-- The index of the first question mark, or -1. -/
def questionPos (s : Bytes) : Int := if 63 ∈ s then (pathCut s).length else -1

/-- What follows the last dot behind the last slash. -/
def extensionRun (p : Bytes) : Option Bytes :=
  let name := p.reverse.takeWhile (· != 47)
  if 46 ∈ name then some (name.takeWhile (· != 46)).reverse else none

/-- The same without `#`. -/
def extensionText (p : Bytes) : Bytes := ((extensionRun p).getD []).filter (· != 35)

/-- Nowhere in front of the query does an extension have more than seven characters. -/
def ExtensionsFit (s : Bytes) : Prop := ∀ p, p <+: pathCut s → (extensionText p).length ≤ 7

theorem extensionsFit_iff (s : Bytes) : ExtensionsFit s ↔
    ∀ n < (pathCut s).length + 1, (extensionText ((pathCut s).take n)).length ≤ 7 := by
  constructor
  · intro h n _
    exact h _ (List.take_prefix _ _)
  · intro h p hp
    have hlen := hp.length_le
    rw [List.prefix_iff_eq_take.mp hp]
    exact h _ (by omega)

instance (s : Bytes) : Decidable (ExtensionsFit s) := decidable_of_iff _ (extensionsFit_iff s).symm

/-- `parsed` is the path in the array `requestPath`, split: its extension, as far as it fits
with its NUL; the array, in which nothing but the first question mark has changed, so that it
reads as the path in front of the query; and where the query is. -/
structure PathSplit (requestPath : Bytes) (parsed : Bytes × Bytes × Int) : Prop where
  extension : parsed.1 = (extensionText (pathCut (cstr requestPath))).take 7
  path : cstr parsed.2.1 = pathCut (cstr requestPath)
  outside : ∀ i : Nat, (i : Int) ≠ parsed.2.2 → parsed.2.1[i]? = requestPath[i]?
  position : parsed.2.2 = questionPos (cstr requestPath)

theorem takeWhile_eq_self_of_not_mem {p : Bytes} {c : UInt8} (hp : c ∉ p) :
    p.takeWhile (· != c) = p := by
  rw [List.takeWhile_eq_self_iff]
  intro b hb
  rw [bne_iff_ne]
  rintro rfl
  exact hp hb

theorem takeWhile_append_stop {p : Bytes} {c : UInt8} (hp : c ∉ p) (rest : Bytes) :
    (p ++ c :: rest).takeWhile (· != c) = p := by
  have hall : ∀ b ∈ p, (b != c) = true := by
    intro b hb
    rw [bne_iff_ne]
    rintro rfl
    exact hp hb
  rw [List.takeWhile_append_of_pos hall, List.takeWhile_cons_of_neg (by simp), List.append_nil]

theorem prefix_takeWhile {p s : Bytes} {c : UInt8} (h : p <+: s) (hp : c ∉ p) :
    p <+: s.takeWhile (· != c) := by
  obtain ⟨t, rfl⟩ := h
  have hall : ∀ b ∈ p, (b != c) = true := by
    intro b hb
    rw [bne_iff_ne]
    rintro rfl
    exact hp hb
  rw [List.takeWhile_append_of_pos hall]
  exact List.prefix_append _ _

theorem extensionRun_dot (p : Bytes) : extensionRun (p ++ [46]) = some [] := by
  unfold extensionRun
  simp

theorem extensionRun_slash (p : Bytes) : extensionRun (p ++ [47]) = none := by
  unfold extensionRun
  simp

theorem extensionRun_other (p : Bytes) {c : UInt8} (hdot : c ≠ 46) (hslash : c ≠ 47) :
    extensionRun (p ++ [c]) = (extensionRun p).map (· ++ [c]) := by
  have hname : (p ++ [c]).reverse.takeWhile (· != 47) = c :: p.reverse.takeWhile (· != 47) := by
    rw [List.reverse_append, List.reverse_singleton, List.singleton_append,
      List.takeWhile_cons_of_pos (by simpa using hslash)]
  unfold extensionRun
  dsimp only
  rw [hname, List.takeWhile_cons_of_pos (by simpa using hdot)]
  by_cases hmem : 46 ∈ p.reverse.takeWhile (· != 47)
  · rw [if_pos (List.mem_cons_of_mem _ hmem), if_pos hmem]
    simp
  · have hnot : 46 ∉ c :: p.reverse.takeWhile (· != 47) := by
      intro h
      rcases List.mem_cons.mp h with h | h
      · exact hdot h.symm
      · exact hmem h
    rw [if_neg hnot, if_neg hmem]
    rfl

theorem extensionText_dot (p : Bytes) : extensionText (p ++ [46]) = [] := by
  rw [extensionText, extensionRun_dot]
  rfl

theorem extensionText_slash (p : Bytes) : extensionText (p ++ [47]) = [] := by
  rw [extensionText, extensionRun_slash]
  rfl

theorem extensionText_hash (p : Bytes) : extensionText (p ++ [35]) = extensionText p := by
  rw [extensionText, extensionRun_other p (by decide) (by decide), extensionText]
  cases extensionRun p with
  | none => rfl
  | some run =>
    rw [Option.map_some, Option.getD_some, Option.getD_some, List.filter_append]
    exact List.append_nil _

/-- A character of an extension. -/
theorem extensionText_char (p : Bytes) {c : UInt8} (hdot : c ≠ 46) (hslash : c ≠ 47)
    (hhash : c ≠ 35) (hrun : (extensionRun p).isSome) :
    extensionText (p ++ [c]) = extensionText p ++ [c] := by
  obtain ⟨run, hrun⟩ := Option.isSome_iff_exists.mp hrun
  rw [extensionText, extensionRun_other p hdot hslash, extensionText, hrun, Option.map_some,
    Option.getD_some, Option.getD_some, List.filter_append, List.filter_cons_of_pos
      (by simpa using hhash)]
  rfl

/-- A character that is not in an extension. -/
theorem extensionText_none (p : Bytes) {c : UInt8} (hdot : c ≠ 46) (hslash : c ≠ 47)
    (hrun : (extensionRun p).isSome = false) : extensionText (p ++ [c]) = extensionText p := by
  have hnone := Option.isNone_iff_eq_none.mp (Option.isSome_eq_false_iff.mp hrun)
  rw [extensionText, extensionRun_other p hdot hslash, extensionText, hnone]
  rfl

/-! ## One round of the loop -/

/-- `_extension` after the text `p`, with `iDot >= 0` and `len`. -/
structure Splits (e : Bytes) (dot : Bool) (len : Nat) (p : Bytes) : Prop where
  length : e.length = 8
  text : ∃ behind, e = extensionText p ++ 0 :: behind
  hasDot : dot = (extensionRun p).isSome
  hasLen : dot = true → len = (extensionText p).length

theorem Splits.fits {e : Bytes} {dot : Bool} {len : Nat} {p : Bytes} (h : Splits e dot len p) :
    (extensionText p).length ≤ 7 := by
  obtain ⟨behind, htext⟩ := h.text
  have hlen := congrArg List.length htext
  rw [h.length, List.length_append, List.length_cons] at hlen
  omega

section Round

variable {s behind : Bytes}

theorem strlen_path (hs : NoNul s) {e : Bytes} (he : e.length = 8) :
    strlen ((e ++ (s ++ 0 :: behind)).drop 8) = s.length := by
  rw [List.drop_left' he, strlen, cstr_append_nul hs]

theorem at'_path {e p rest : Bytes} {c : UInt8} (he : e.length = 8) (hs : s = p ++ c :: rest) :
    at' (e ++ (s ++ 0 :: behind)) (8 + p.length) = c := by
  unfold at'
  rw [List.getD_eq_getElem?_getD, List.getElem?_append_right (by omega), he, hs,
    Nat.add_sub_cancel_left, List.append_assoc, List.getElem?_append_right (le_refl _),
    Nat.sub_self]
  rfl

/-- A round on a character that is no question mark keeps `Splits`, when the extension still
fits. -/
theorem parseQueryLoop_char (fuel : Nat) (behind : Bytes) {e p rest : Bytes} {dot : Bool} {len : Nat} {c : UInt8}
    (hs : NoNul s) (hsplit : s = p ++ c :: rest) (hc : c ≠ 63) (h : Splits e dot len p)
    (hfit : (extensionText (p ++ [c])).length ≤ 7) :
    ∃ e' dot' len', Splits e' dot' len' (p ++ [c]) ∧
      parseQueryLoop (fuel + 1) (e ++ (s ++ 0 :: behind)) p.length dot (-1) len =
        parseQueryLoop fuel (e' ++ (s ++ 0 :: behind)) (p ++ [c]).length dot' (-1) len' := by
  have hlt : p.length < s.length := by
    rw [hsplit, List.length_append, List.length_cons]
    omega
  have hnext : (p ++ [c]).length = p.length + 1 := List.length_append
  obtain ⟨junk, htext⟩ := h.text
  rw [parseQueryLoop, strlen_path hs h.length, if_pos hlt, at'_path h.length hsplit, hnext]
  dsimp only
  -- A dot and a slash start the extension anew.
  have hreset : ∀ {p'}, extensionText p' = [] → Splits (store e 0 [0]) (extensionRun p').isSome 0 p' := by
    intro p' hp'
    refine ⟨by rw [length_store, h.length], ⟨e.drop 1, ?_⟩, rfl, fun _ => by rw [hp']; rfl⟩
    rw [store_eq (by rw [h.length]; decide), hp']
    rfl
  by_cases hdot : c = 46
  · rw [if_pos hdot, if_pos (by decide), store_append_left _ (by rw [h.length]; decide)]
    subst hdot
    have hnew := hreset (extensionText_dot p)
    rw [extensionRun_dot] at hnew
    exact ⟨_, _, _, hnew, rfl⟩
  rw [if_neg hdot, if_neg hc]
  by_cases hhash : c = 35
  · rw [if_pos hhash]
    subst hhash
    refine ⟨e, dot, len, ⟨h.length, ⟨junk, by rw [extensionText_hash]; exact htext⟩, ?_, ?_⟩, rfl⟩
    · rw [extensionRun_other p (by decide) (by decide), Option.isSome_map]
      exact h.hasDot
    · rw [extensionText_hash]
      exact h.hasLen
  rw [if_neg hhash]
  by_cases hslash : c = 47
  · rw [if_pos hslash, if_pos (by decide), store_append_left _ (by rw [h.length]; decide)]
    subst hslash
    have hnew := hreset (extensionText_slash p)
    rw [extensionRun_slash] at hnew
    exact ⟨_, _, _, hnew, rfl⟩
  rw [if_neg hslash]
  have hsome : (extensionRun (p ++ [c])).isSome = (extensionRun p).isSome := by
    rw [extensionRun_other p hdot hslash, Option.isSome_map]
  by_cases hin : dot = true
  · have hrun : (extensionRun p).isSome := by rw [← h.hasDot, hin]
    have hchar := extensionText_char p hdot hslash hhash hrun
    have hlen := h.hasLen hin
    rw [hchar, List.length_append, List.length_singleton, ← hlen] at hfit
    rw [if_pos ⟨hin, by decide⟩, store_append_left _ (by
      rw [h.length, List.length_cons, List.length_singleton]; omega)]
    refine ⟨_, _, _, ⟨by rw [length_store, h.length], ⟨e.drop (len + 2), ?_⟩, ?_, ?_⟩, rfl⟩
    · rw [store_eq (by rw [h.length, List.length_cons, List.length_singleton]; omega), hchar]
      have htake : e.take len = extensionText p := by
        rw [hlen, htext, List.take_left]
      rw [htake, List.append_assoc, List.append_assoc]
      rfl
    · rw [hsome]
      exact h.hasDot
    · intro _
      rw [hchar, List.length_append, List.length_singleton, hlen]
  · have hout : dot = false := by simpa using hin
    have hnone := extensionText_none p hdot hslash (by rw [← h.hasDot, hout])
    rw [if_neg (fun hand => hin hand.1)]
    refine ⟨e, dot, len, ⟨h.length, ⟨junk, by rw [hnone]; exact htext⟩, ?_, ?_⟩, rfl⟩
    · rw [hsome]
      exact h.hasDot
    · rw [hnone]
      exact h.hasLen

/-- The eighth character of an extension ends the loop with an empty path. -/
theorem parseQueryLoop_overrun {fuel : Nat} {e p rest : Bytes} {dot : Bool} {len : Nat} {c : UInt8}
    (hs : NoNul s) (hsplit : s = p ++ c :: rest) (hc : c ≠ 63) (h : Splits e dot len p)
    (hlong : 7 < (extensionText (p ++ [c])).length) :
    ∃ e', e'.length = 8 ∧
      parseQueryLoop (fuel + 1) (e ++ (s ++ 0 :: behind)) p.length dot (-1) len =
        (e' ++ 0 :: (s ++ 0 :: behind).tail, -1) := by
  have hlt : p.length < s.length := by
    rw [hsplit, List.length_append, List.length_cons]
    omega
  have hfits := h.fits
  rw [parseQueryLoop, strlen_path hs h.length, if_pos hlt, at'_path h.length hsplit]
  dsimp only
  have hdot : c ≠ 46 := by
    rintro rfl
    rw [extensionText_dot] at hlong
    exact absurd hlong (Nat.not_lt_zero 7)
  have hhash : c ≠ 35 := by
    rintro rfl
    rw [extensionText_hash] at hlong
    omega
  have hslash : c ≠ 47 := by
    rintro rfl
    rw [extensionText_slash] at hlong
    exact absurd hlong (Nat.not_lt_zero 7)
  have hin : dot = true := by
    by_contra hout
    rw [extensionText_none p hdot hslash (by rw [← h.hasDot]; simpa using hout)] at hlong
    omega
  have hlen : len = 7 := by
    rw [extensionText_char p hdot hslash hhash (by rw [← h.hasDot, hin]), List.length_append,
      List.length_singleton] at hlong
    rw [h.hasLen hin]
    omega
  rw [if_neg hdot, if_neg hc, if_neg hhash, if_neg hslash, if_pos ⟨hin, by decide⟩, hlen]
  have hpos : 0 < (s ++ 0 :: behind).length := by
    rw [List.length_append, List.length_cons]
    omega
  have hstore : store (e ++ (s ++ 0 :: behind)) 7 [c, 0] =
      (e.take 7 ++ [c]) ++ 0 :: (s ++ 0 :: behind).tail := by
    rw [store_eq (by rw [List.length_append, h.length, List.length_cons, List.length_singleton]; omega),
      List.take_append_of_le_length (by rw [h.length]; decide), List.length_cons,
      List.length_singleton, List.drop_append, List.drop_of_length_le (by rw [h.length]; decide),
      h.length, List.nil_append, List.append_assoc, List.append_assoc, List.drop_one]
    rfl
  have he' : (e.take 7 ++ [c]).length = 8 := by
    rw [List.length_append, List.length_take, h.length]
    rfl
  refine ⟨e.take 7 ++ [c], he', ?_⟩
  rw [hstore]
  -- The path is empty now, so the loop is over.
  cases fuel with
  | zero => rfl
  | succ fuel =>
    have hempty : strlen (((e.take 7 ++ [c]) ++ 0 :: (s ++ 0 :: behind).tail).drop 8) = 0 := by
      rw [List.drop_left' he']
      rfl
    rw [parseQueryLoop, hempty, if_neg (Nat.not_lt_zero _)]

end Round

/-- Behind the first question mark nothing changes. -/
theorem parseQueryLoop_query (fuel : Nat) (m : Bytes) (i : Nat) (dot : Bool) {q : Int} (len : Nat)
    (hq : 0 ≤ q) : parseQueryLoop fuel m i dot q len = (m, q) := by
  have hneg : ¬ q < 0 := by omega
  induction fuel generalizing i with
  | zero => rfl
  | succ fuel ih =>
    rw [parseQueryLoop]
    split
    · simp only [hneg, if_false, and_false, ih, ite_self]
    · rfl

/-! ## The whole loop -/

section Run

variable {s behind : Bytes}

/-- The loop from the text `p` on, when every extension fits. -/
theorem parseQueryLoop_fits (fuel : Nat) (behind : Bytes) {e p rest : Bytes} {dot : Bool} {len : Nat}
    (hs : NoNul s) (hsplit : s = p ++ rest) (hp : 63 ∉ p) (h : Splits e dot len p)
    (hfit : ExtensionsFit s) (hfuel : rest.length < fuel) :
    ∃ e' behind', e'.length = 8 ∧ e' = extensionText (pathCut s) ++ 0 :: behind' ∧
      parseQueryLoop fuel (e ++ (s ++ 0 :: behind)) p.length dot (-1) len =
        (e' ++ (s ++ 0 :: behind), questionPos s) := by
  induction rest generalizing fuel e p dot len with
  | nil =>
    have hall : s = p := hsplit.trans (List.append_nil p)
    obtain ⟨fuel, rfl⟩ := Nat.exists_eq_succ_of_ne_zero (Nat.ne_of_gt hfuel)
    obtain ⟨junk, htext⟩ := h.text
    refine ⟨e, junk, h.length, ?_, ?_⟩
    · rw [hall, pathCut, takeWhile_eq_self_of_not_mem hp]
      exact htext
    · rw [parseQueryLoop, strlen_path hs h.length, if_neg (by rw [hall]; exact lt_irrefl _),
        questionPos, if_neg (by rw [hall]; exact hp)]
  | cons c rest ih =>
    obtain ⟨fuel, rfl⟩ := Nat.exists_eq_succ_of_ne_zero (Nat.ne_of_gt (Nat.zero_lt_of_lt hfuel))
    by_cases hc : c = 63
    · have hcut : pathCut s = p := by
        rw [pathCut, hsplit, hc]
        exact takeWhile_append_stop hp rest
      have hq : questionPos s = p.length := by
        rw [questionPos, if_pos (by rw [hsplit, hc]; simp), hcut]
      obtain ⟨junk, htext⟩ := h.text
      refine ⟨e, junk, h.length, by rw [hcut]; exact htext, ?_⟩
      have hlt : p.length < s.length := by
        rw [hsplit, List.length_append, List.length_cons]
        omega
      rw [parseQueryLoop, strlen_path hs h.length, if_pos hlt, at'_path h.length hsplit, hc, hq]
      exact parseQueryLoop_query fuel _ _ _ _ (Int.natCast_nonneg _)
    · have hp' : 63 ∉ p ++ [c] := by
        rw [List.mem_append, List.mem_singleton]
        rintro (h | h)
        · exact hp h
        · exact hc h.symm
      have hfront : p ++ [c] <+: pathCut s := by
        refine prefix_takeWhile ?_ hp'
        exact ⟨rest, by rw [hsplit]; simp⟩
      obtain ⟨e', dot', len', hnext, hround⟩ :=
        parseQueryLoop_char fuel behind hs hsplit hc h (hfit _ hfront)
      rw [hround]
      exact ih fuel (by rw [hsplit]; simp) hp' hnext (Nat.lt_of_succ_lt_succ hfuel)

/-- The loop from the text `p` on, when an extension does not fit: the path is empty. -/
theorem parseQueryLoop_overrun_run (fuel : Nat) (behind : Bytes) {e p rest : Bytes} {dot : Bool} {len : Nat}
    (hs : NoNul s) (hsplit : s = p ++ rest) (hp : 63 ∉ p) (h : Splits e dot len p)
    (hbad : ∃ p', p <+: p' ∧ p' <+: pathCut s ∧ 7 < (extensionText p').length)
    (hfuel : rest.length < fuel) :
    ∃ e', e'.length = 8 ∧
      parseQueryLoop fuel (e ++ (s ++ 0 :: behind)) p.length dot (-1) len =
        (e' ++ 0 :: (s ++ 0 :: behind).tail, -1) := by
  obtain ⟨p', hpp', hcut, hlong⟩ := hbad
  have hmore : ∀ {q : Bytes}, p = q → ¬ 7 < (extensionText q).length := by
    rintro q rfl
    have := h.fits
    omega
  induction rest generalizing fuel e p dot len with
  | nil =>
    have hle := (hcut.trans (List.takeWhile_prefix _)).length_le
    rw [hsplit, List.append_nil] at hle
    exact absurd hlong (hmore (hpp'.eq_of_length_le hle))
  | cons c rest ih =>
    obtain ⟨fuel, rfl⟩ := Nat.exists_eq_succ_of_ne_zero (Nat.ne_of_gt (Nat.zero_lt_of_lt hfuel))
    have hin : p' <+: p ++ c :: rest := by
      rw [← hsplit]
      exact hcut.trans (List.takeWhile_prefix _)
    -- The bad text goes on behind `p`, so its next character is `c`, in front of the query.
    obtain ⟨t, ht⟩ := hpp'
    cases t with
    | nil => exact absurd hlong (hmore (by rw [← ht]; exact (List.append_nil p).symm))
    | cons d t =>
      have hd : d = c := by
        rw [← ht] at hin
        obtain ⟨u, hu⟩ := hin
        rw [List.append_assoc, List.append_cancel_left_eq, List.cons_append, List.cons.injEq] at hu
        exact hu.1
      rw [hd] at ht
      have hc : c ≠ 63 := by
        rintro rfl
        have hmem : (63 : UInt8) ∈ pathCut s :=
          hcut.subset (by rw [← ht]; simp)
        simpa using List.mem_takeWhile_imp hmem
      by_cases hfit : (extensionText (p ++ [c])).length ≤ 7
      · have hp' : 63 ∉ p ++ [c] := by
          rw [List.mem_append, List.mem_singleton]
          rintro (h | h)
          · exact hp h
          · exact hc h.symm
        obtain ⟨e', dot', len', hnext, hround⟩ :=
          parseQueryLoop_char fuel behind hs hsplit hc h hfit
        rw [hround]
        refine ih fuel (by rw [hsplit]; simp) hp' hnext (Nat.lt_of_succ_lt_succ hfuel)
          ⟨t, by rw [← ht]; simp⟩ ?_
        rintro q rfl
        omega
      · exact parseQueryLoop_overrun hs hsplit hc h (Nat.lt_of_not_le hfit)

end Run

theorem extensionText_subset (p : Bytes) : ∀ b ∈ extensionText p, b ∈ p := by
  intro b hb
  rw [extensionText, List.mem_filter] at hb
  unfold extensionRun at hb
  dsimp only at hb
  split at hb
  · have hrun := (List.takeWhile_prefix _).subset (List.mem_reverse.mp hb.1)
    exact List.mem_reverse.mp ((List.takeWhile_prefix _).subset hrun)
  · cases hb.1

theorem noNul_extensionText {s : Bytes} (hs : NoNul s) : NoNul (extensionText (pathCut s)) :=
  fun b hb => hs b ((List.takeWhile_prefix _).subset (extensionText_subset _ b hb))

theorem splits_empty : Splits (List.replicate 8 0) false 0 [] :=
  ⟨rfl, ⟨List.replicate 7 0, rfl⟩, rfl, fun h => by cases h⟩

/-- A path whose extensions fit is split as it should be. -/
theorem parseQueryString_fits {s : Bytes} (behind : Bytes) (hs : NoNul s) (hlen : s.length < 128)
    (hfit : ExtensionsFit s) :
    PathSplit (s ++ 0 :: behind) (parseQueryString (s ++ 0 :: behind)) := by
  obtain ⟨e, junk, he, htext, hloop⟩ := parseQueryLoop_fits 128 behind (p := [])
    hs (List.nil_append s).symm (List.not_mem_nil) splits_empty hfit hlen
  have hseven : (extensionText (pathCut s)).take 7 = extensionText (pathCut s) :=
    List.take_of_length_le (hfit _ List.prefix_rfl)
  have hext : ∀ path : Bytes, cstr (e ++ path) = extensionText (pathCut s) := by
    intro path
    rw [htext, List.append_assoc]
    exact cstr_append_nul (noNul_extensionText hs) _
  have hstring : cstr (s ++ 0 :: behind) = s := cstr_append_nul hs behind
  unfold parseQueryString
  rw [List.length_nil] at hloop
  rw [hloop]
  dsimp only
  by_cases hmem : 63 ∈ s
  · obtain ⟨cut, rest, hcut, hnot⟩ := List.eq_append_cons_of_mem hmem
    have hpath : pathCut s = cut := by
      rw [pathCut, hcut, takeWhile_append_stop hnot]
    have hq : questionPos s = cut.length := by
      rw [questionPos, if_pos hmem, hpath]
    have hmemory : s ++ 0 :: behind = cut ++ 63 :: (rest ++ 0 :: behind) := by
      rw [hcut, List.append_assoc, List.cons_append]
    have hstore : store (e ++ (s ++ 0 :: behind)) (8 + (questionPos s).toNat) [0] =
        e ++ (cut ++ 0 :: (rest ++ 0 :: behind)) := by
      have hin : cut.length + [(0 : UInt8)].length ≤ (s ++ 0 :: behind).length := by
        rw [hcut]
        simp only [List.length_append, List.length_cons, List.length_nil]
        omega
      rw [store_behind (s ++ 0 :: behind) [0] (n := cut.length) (by rw [hq, he]; rfl) hin,
        store_eq hin, hmemory, List.take_left]
      simp
    rw [if_pos (by rw [hq]; exact Int.natCast_nonneg _), hstore, List.drop_left' he]
    refine ⟨?_, ?_, ?_, ?_⟩
    · rw [hstring, hseven]
      exact hext _
    · rw [hstring, hpath]
      exact cstr_append_nul (fun b hb => hs b (by rw [hcut]; exact List.mem_append_left _ hb)) _
    · intro i hi
      dsimp only at hi ⊢
      rw [hq] at hi
      rw [hcut, List.append_assoc, List.cons_append]
      rcases Nat.lt_or_ge i cut.length with hlt | hge
      · rw [List.getElem?_append_left hlt, List.getElem?_append_left hlt]
      · obtain ⟨k, hk⟩ : ∃ k, i - cut.length = k + 1 := Nat.exists_eq_succ_of_ne_zero (by omega)
        rw [List.getElem?_append_right hge, List.getElem?_append_right hge, hk]
        rfl
    · rw [hstring]
  · have hpath : pathCut s = s := takeWhile_eq_self_of_not_mem hmem
    have hq : questionPos s = -1 := by rw [questionPos, if_neg hmem]
    rw [hq, if_neg (by decide), List.drop_left' he]
    refine ⟨?_, ?_, fun i _ => rfl, ?_⟩
    · rw [hstring, hseven]
      exact hext _
    · rw [hstring, hpath]
    · rw [hstring, hq]

/-- A path with an extension that does not fit becomes empty. -/
theorem parseQueryString_overrun {s : Bytes} (behind : Bytes) (hs : NoNul s) (hlen : s.length < 128)
    (hbad : ¬ ExtensionsFit s) : cstr (parseQueryString (s ++ 0 :: behind)).2.1 = [] := by
  have hlong : ∃ p', [] <+: p' ∧ p' <+: pathCut s ∧ 7 < (extensionText p').length := by
    unfold ExtensionsFit at hbad
    push Not at hbad
    obtain ⟨p', hp', hlong⟩ := hbad
    exact ⟨p', List.nil_prefix, hp', hlong⟩
  obtain ⟨e, he, hloop⟩ := parseQueryLoop_overrun_run 128 behind (p := [])
    hs (List.nil_append s).symm (List.not_mem_nil) splits_empty hlong hlen
  unfold parseQueryString
  rw [List.length_nil] at hloop
  rw [hloop]
  dsimp only
  rw [if_neg (by decide), List.drop_left' he]
  rfl

/-- **`ParseQueryString` splits a path of at most 125 characters exactly when every extension in
it, the ones that are passed over too, has at most seven characters.** -/
theorem parse_query_string_splits (requestPath : Bytes) (hlen : requestPath.length = 128)
    (hs : (cstr requestPath).length ≤ 125) :
    PathSplit requestPath (parseQueryString requestPath) ↔ ExtensionsFit (cstr requestPath) := by
  obtain ⟨behind, hpath⟩ := cstr_nul (m := requestPath) (by omega)
  have hnul : NoNul (cstr requestPath) := noNul_cstr requestPath
  constructor
  · intro hsplit
    by_contra hbad
    have hempty := parseQueryString_overrun behind hnul (by omega) hbad
    rw [← hpath, hsplit.path] at hempty
    -- An empty path has no extension at all.
    apply hbad
    intro p hp
    rw [hempty] at hp
    rw [List.prefix_nil.mp hp]
    decide
  · intro hfit
    have hright := parseQueryString_fits behind hnul (by omega) hfit
    rwa [← hpath] at hright

/-- A path array with the path `s` in it. -/
def pathArray (s : Bytes) : Bytes := store (List.replicate 128 0) 0 s

theorem parse_query_string_splits_page :
    PathSplit (pathArray (ascii "/app/index.shtml?a=1.2")) (ascii "shtml",
      store (pathArray (ascii "/app/index.shtml?a=1.2")) 16 [0], 16) := by
  have hparsed : parseQueryString (pathArray (ascii "/app/index.shtml?a=1.2")) =
      (ascii "shtml", store (pathArray (ascii "/app/index.shtml?a=1.2")) 16 [0], 16) := by
    decide +kernel
  rw [← hparsed]
  exact (parse_query_string_splits _ (by decide +kernel) (by decide +kernel)).mpr
    (by decide +kernel)

/-- A long extension makes the path empty. -/
theorem parse_query_string_splits_manifest :
    (cstr (pathArray (ascii "/site.manifest"))).length ≤ 125 ∧
      parseQueryString (pathArray (ascii "/site.manifest")) =
        (ascii "manifest", store (pathArray (ascii "/site.manifest")) 0 [0], -1) ∧
      ¬ PathSplit (pathArray (ascii "/site.manifest"))
        (parseQueryString (pathArray (ascii "/site.manifest"))) := by
  have hparsed : parseQueryString (pathArray (ascii "/site.manifest")) =
      (ascii "manifest", store (pathArray (ascii "/site.manifest")) 0 [0], -1) := by
    decide +kernel
  refine ⟨by decide +kernel, hparsed, ?_⟩
  intro hsplit
  have hpath := hsplit.path
  rw [hparsed] at hpath
  revert hpath
  decide +kernel

/-! ## The folder to list -/

/-- The argument of the listing as it is appended to the folder. -/
def listedName (p : Bytes) : Bytes := if at' p 0 = 47 then p.drop 1 else p

/-- The argument and the slash behind it fit between the folder and the filter. -/
def ArgumentFits : Option Bytes → Prop
  | none => True
  | some p =>
    (listedName p).length +
      (if listedName p = [] ∨ (listedName p).getLast? = some 47 then 0 else 1) ≤ 43

instance : (argument : Option Bytes) → Decidable (ArgumentFits argument)
  | none => inferInstanceAs (Decidable True)
  | some _ => inferInstanceAs (Decidable (_ ≤ _))

/-- `_responsePath` holds the text `s` that was built up in it, or has been overrun by it. -/
inductive BuiltUp (r : Response) (s : Bytes) : Prop where
  | inside (hfault : r.fault = false) (hpath : r.responsePath = s) (hlen : s.length < 128)
  | overrun (hfault : r.fault = true) (hlen : 128 ≤ s.length)

theorem BuiltUp.fault_iff {r : Response} {s : Bytes} (h : BuiltUp r s) :
    r.fault = false ↔ s.length < 128 := by
  cases h with
  | inside hfault _ hlen => exact iff_of_true hfault hlen
  | overrun hfault hlen =>
    rw [hfault]
    exact iff_of_false (by decide) (Nat.not_lt.mpr hlen)

theorem builtUp_set {r : Response} (hfault : r.fault = false) (s : Bytes) :
    BuiltUp (r.setResponsePath s) s := by
  by_cases hlen : s.length < 128
  · refine .inside ?_ ?_ hlen
    · change (r.fault || !decide (s.length < 128)) = false
      rw [hfault, decide_eq_true hlen]
      rfl
    · exact if_pos hlen
  · refine .overrun ?_ (Nat.le_of_not_lt hlen)
    change (r.fault || !decide (s.length < 128)) = true
    rw [decide_eq_false hlen]
    exact Bool.or_true _

/-- One `strcat`. -/
theorem BuiltUp.strcat {r : Response} {s : Bytes} (h : BuiltUp r s) (t : Bytes) :
    BuiltUp (r.setResponsePath (r.responsePath ++ t)) (s ++ t) := by
  cases h with
  | inside hfault hpath _ =>
    rw [hpath]
    exact builtUp_set hfault (s ++ t)
  | overrun hfault hlen =>
    refine .overrun ?_ (by rw [List.length_append]; omega)
    change (r.fault || !decide ((r.responsePath ++ t).length < 128)) = true
    rw [hfault]
    rfl

/-- The folder, the argument and the slash behind it. -/
def listingFolder (name : Bytes) : Bytes :=
  folderToList ++ name ++ if name = [] ∨ name.getLast? = some 47 then [] else ascii "/"

theorem folderToList_name_end (name : Bytes) :
    (folderToList ++ name).getLast? = some 47 ↔ name = [] ∨ name.getLast? = some 47 := by
  have hfolder : folderToList.getLast? = some 47 := by decide
  rw [List.getLast?_append, hfolder]
  cases hlast : name.getLast? with
  | none => simp [List.getLast?_eq_none_iff.mp hlast]
  | some b =>
    have hne : name ≠ [] := by
      rintro rfl
      cases hlast
    simp [hne]

theorem filesFilter_builtUp {r : Response} (hr : r.fault = false) (p : Bytes) :
    BuiltUp (filesFilter r (some p)) (listingFolder (listedName p) ++ ascii "*.*") := by
  have hname := (builtUp_set hr folderToList).strcat (listedName p)
  unfold filesFilter
  dsimp only
  refine BuiltUp.strcat ?_ _
  change BuiltUp (if ((r.setResponsePath folderToList).setResponsePath
    ((r.setResponsePath folderToList).responsePath ++ listedName p)).responsePath.getLast? = some 47
      then _ else _) _
  have hslash := hname.strcat (ascii "/")
  cases hname with
  | inside hfault hpath hlen =>
    unfold listingFolder
    have hend := folderToList_name_end (listedName p)
    rw [← hpath] at hend
    by_cases hlast : listedName p = [] ∨ (listedName p).getLast? = some 47
    · rw [if_pos (hend.mpr hlast), if_pos hlast, List.append_nil]
      exact .inside hfault hpath hlen
    · rw [if_neg (fun h => hlast (hend.mp h)), if_neg hlast]
      exact hslash
  | overrun hfault hlen =>
    -- The array is overrun already, whatever the last byte of it is taken for.
    have hlong : 128 ≤ (listingFolder (listedName p)).length := by
      unfold listingFolder
      rw [List.length_append]
      omega
    split
    · exact .overrun hfault hlong
    · cases hslash with
      | inside _ _ hshort =>
        rw [List.length_append] at hshort
        omega
      | overrun hfault' _ => exact .overrun hfault' hlong

/-- What `strcat` builds up fits when the whole of it does. -/
theorem filesFilter_fault {r : Response} (hr : r.fault = false) (argument : Option Bytes) :
    (filesFilter r argument).fault = false ↔ ArgumentFits argument := by
  have hfolder : folderToList.length = 81 := by decide
  cases argument with
  | none =>
    have hbuilt := (builtUp_set hr folderToList).strcat (ascii "*.*")
    exact iff_of_true (hbuilt.fault_iff.mpr (by decide)) trivial
  | some p =>
    have hstar : (ascii "*.*").length = 3 := rfl
    have hslash : (ascii "/").length = 1 := rfl
    rw [(filesFilter_builtUp hr p).fault_iff]
    change _ ↔ _ ≤ 43
    unfold listingFolder
    rw [List.length_append, List.length_append, List.length_append, hfolder, hstar]
    split
    · rw [List.length_nil]
      omega
    · rw [hslash]
      omega

/-- **`Files_OnRequestReceived` stays inside `_responsePath` exactly when the path argument fits
behind the folder.** -/
theorem files_path_capacity (h : Request) (c : Call) (hfault : c.r.fault = false) :
    (filesOnRequestReceived h c).r.fault = false ↔ ArgumentFits (filesPathArgument h) := by
  have hssi : (c.r.setSsi { SSIContext.zero with valid := 1 }).fault = false := hfault
  exact filesFilter_fault hssi (filesPathArgument h)

/-- The request line that asks for the folder `name`. -/
def listingLine (name : Bytes) : Bytes := ascii "GET /api/files.cgi?path=" ++ name ++ ascii " HTTP/1.1"

/-- The request after that line. -/
def listingRequest (name : Bytes) : Request :=
  (requestLineRequest setupContext.toRequest (listingLine name) (listingLine name).length .get 4).1

theorem files_path_capacity_folder :
    (filesOnRequestReceived (listingRequest (ascii "/photos/2024"))
      ⟨plainWorld, setupContext.toResponse⟩).r.fault = false :=
  (files_path_capacity _ _ rfl).mpr (by decide +kernel)

/-- A folder of 44 characters is too long, although its request line fits the buffer. -/
theorem files_path_capacity_deep :
    (listingLine (ascii "archive/2024/measurements/raw/sensor-0123456")).length < 128 ∧
      hasPrefix (listingRequest (ascii "archive/2024/measurements/raw/sensor-0123456")).requestPath
        (ascii "/api/files.cgi") = true ∧
      (filesOnRequestReceived
        (listingRequest (ascii "archive/2024/measurements/raw/sensor-0123456"))
          ⟨plainWorld, setupContext.toResponse⟩).r.fault = true := by
  decide +kernel

end Httpd
