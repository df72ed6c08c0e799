import Mathlib.Data.List.Forall2
import LambdaIOT.Httpd.Forms

/-!
# Posted forms

A form body is a list of pairs, `name=value` with `&` between them. `ExtractFormData` splits it
as it should, but `URLDecode` leaves the rest of an escape behind the decoded text and the NUL
where it was: a string with an escape is passed on with bytes behind its end.
-/

namespace Httpd

open CMem

/-! ## Bodies -/

/-- The body of a form. -/
def formBody : List (Bytes × Bytes) → Bytes
  | [] => []
  | [f] => pairText f
  | f :: form => pairText f ++ 38 :: formBody form

theorem formBody_cons (f : Bytes × Bytes) {form : List (Bytes × Bytes)} (h : form ≠ []) :
    formBody (f :: form) = pairText f ++ 38 :: formBody form := by
  obtain ⟨g, form, rfl⟩ := List.exists_cons_of_ne_nil h
  rfl

/-- The last pair has no `&` behind it. -/
theorem formBody_concat (form : List (Bytes × Bytes)) (last : Bytes × Bytes) :
    formBody (form ++ [last]) = formText form ++ pairText last := by
  induction form with
  | nil => rfl
  | cons f form ih =>
    rw [List.cons_append, formBody_cons f (by simp), ih, formText_cons]

/-! ## Escapes -/

/-- `Encodes s e`: `e` is the text `s`, with any of its characters as an escape, and those that
mean something in a form body always. -/
inductive Encodes : Bytes → Bytes → Prop where
  | nil : Encodes [] []
  | plain {b : UInt8} {s e : Bytes} (hb : b ≠ 0 ∧ b ≠ 37 ∧ b ≠ 38 ∧ b ≠ 61) (h : Encodes s e) :
      Encodes (b :: s) (b :: e)
  | escape {high low : UInt8} {a b : Nat} {s e : Bytes} (ha : hex2Int high = some a)
      (hb : hex2Int low = some b) (hne : (a * 16 + b).toUInt8 ≠ 0) (h : Encodes s e) :
      Encodes ((a * 16 + b).toUInt8 :: s) (37 :: high :: low :: e)

theorem hex2Int_char {c : UInt8} {a : Nat} (h : hex2Int c = some a) :
    c ≠ 0 ∧ c ≠ 38 ∧ c ≠ 61 := by
  have hnone : ∀ b : UInt8, hex2Int b = none → c ≠ b := by
    rintro b hb rfl
    rw [hb] at h
    cases h
  exact ⟨hnone 0 (by decide), hnone 38 (by decide), hnone 61 (by decide)⟩

/-- The encoded text can stand in a form body. -/
theorem Encodes.chars {s e : Bytes} (h : Encodes s e) : ∀ c ∈ e, c ≠ 0 ∧ c ≠ 38 ∧ c ≠ 61 := by
  induction h with
  | nil => intro c hc; cases hc
  | plain hb _ ih =>
    intro c hc
    rcases List.mem_cons.mp hc with rfl | hc
    · exact ⟨hb.1, hb.2.2⟩
    · exact ih c hc
  | escape ha hb _ _ ih =>
    intro c hc
    rcases List.mem_cons.mp hc with rfl | hc
    · decide
    · rcases List.mem_cons.mp hc with rfl | hc
      · exact hex2Int_char ha
      · rcases List.mem_cons.mp hc with rfl | hc
        · exact hex2Int_char hb
        · exact ih c hc

theorem Encodes.decoded {s e : Bytes} (h : Encodes s e) : NoNul s := by
  induction h with
  | nil => intro c hc; cases hc
  | plain hb _ ih =>
    intro c hc
    rcases List.mem_cons.mp hc with rfl | hc
    · exact hb.1
    · exact ih c hc
  | escape _ _ hne _ ih =>
    intro c hc
    rcases List.mem_cons.mp hc with rfl | hc
    · exact hne
    · exact ih c hc

/-- A text as long as its encoding has no escape in it. -/
theorem Encodes.eq_of_length {s e : Bytes} (h : Encodes s e) :
    s.length ≤ e.length ∧ (s.length = e.length → e = s) := by
  induction h with
  | nil => exact ⟨le_refl _, fun _ => rfl⟩
  | plain _ _ ih =>
    refine ⟨Nat.succ_le_succ ih.1, fun hlen => ?_⟩
    rw [ih.2 (Nat.succ.inj hlen)]
  | escape _ _ _ _ ih =>
    have hle := ih.1
    refine ⟨by simp only [List.length_cons]; omega, fun hlen => ?_⟩
    simp only [List.length_cons] at hlen
    omega

/-- `URLDecode` leaves the decoded text, and behind it as many bytes as the escapes were longer. -/
theorem urlDecodeLoop_encodes {s e : Bytes} (h : Encodes s e) (fuel : Nat) (pre junk : Bytes)
    (hfuel : e.length ≤ fuel) :
    ∃ left, NoNul left ∧ s.length + left.length = e.length ∧
      (urlDecodeLoop fuel (pre ++ (e ++ junk)) pre.length (pre.length + e.length)).1 =
        pre ++ (s ++ (left ++ junk)) := by
  induction h generalizing fuel pre junk with
  | nil =>
    refine ⟨[], fun b hb => by (cases hb), rfl, ?_⟩
    cases fuel with
    | zero => rfl
    | succ fuel => rw [urlDecodeLoop, if_neg (by simp)]; rfl
  | @plain b s e hb h ih =>
    obtain ⟨fuel, rfl⟩ := Nat.exists_eq_succ_of_ne_zero (Nat.ne_of_gt (Nat.lt_of_lt_of_le
      (Nat.succ_pos e.length) hfuel))
    obtain ⟨left, hleft, hlen, hloop⟩ := ih fuel (pre ++ [b]) junk (Nat.le_of_succ_le_succ hfuel)
    refine ⟨left, hleft, by simp only [List.length_cons]; omega, ?_⟩
    have hat : at' (pre ++ (b :: e ++ junk)) pre.length = b := by
      unfold at'
      rw [List.getD_eq_getElem?_getD, List.getElem?_append_right (le_refl _), Nat.sub_self]
      rfl
    rw [urlDecodeLoop, hat, if_pos ⟨by rw [List.length_cons]; omega, hb.1⟩, if_pos hb.2.1]
    have hmem : pre ++ (b :: e ++ junk) = (pre ++ [b]) ++ (e ++ junk) := by simp
    have hpos : pre.length + 1 = (pre ++ [b]).length := by
      rw [List.length_append, List.length_singleton]
    have hend : pre.length + (b :: e).length = (pre ++ [b]).length + e.length := by
      rw [← hpos, List.length_cons]
      omega
    rw [hmem, hpos, hend, hloop]
    simp
  | @escape high low a b s e ha hb hne h ih =>
    obtain ⟨fuel, rfl⟩ := Nat.exists_eq_succ_of_ne_zero (Nat.ne_of_gt (Nat.lt_of_lt_of_le
      (Nat.succ_pos _) hfuel))
    -- The two bytes that the shorter text leaves free keep what was there.
    obtain ⟨left, hleft, hlen, hloop⟩ := ih fuel (pre ++ [(a * 16 + b).toUInt8])
      ((high :: low :: e).drop e.length ++ junk) (by simp only [List.length_cons] at hfuel; omega)
    have hat : ∀ k, k < 3 → at' (pre ++ (37 :: high :: low :: e ++ junk)) (pre.length + k) =
        at' (37 :: high :: low :: []) k := by
      intro k hk
      unfold at'
      rw [List.getD_eq_getElem?_getD, List.getElem?_append_right (Nat.le_add_right _ _),
        Nat.add_sub_cancel_left]
      interval_cases k <;> rfl
    have hrest : NoNul ((high :: low :: e).drop e.length) := by
      intro c hc
      have hmem := List.mem_of_mem_drop hc
      rcases List.mem_cons.mp hmem with rfl | hmem
      · exact (hex2Int_char ha).1
      · rcases List.mem_cons.mp hmem with rfl | hmem
        · exact (hex2Int_char hb).1
        · exact (h.chars c hmem).1
    refine ⟨left ++ (high :: low :: e).drop e.length, hleft.append hrest, ?_, ?_⟩
    · simp only [List.length_append, List.length_drop, List.length_cons]
      omega
    have h0 : at' (pre ++ (37 :: high :: low :: e ++ junk)) pre.length = 37 := hat 0 (by decide)
    have hstore : store (pre ++ (37 :: high :: low :: e ++ junk)) pre.length
        [(a * 16 + b).toUInt8] = (pre ++ [(a * 16 + b).toUInt8]) ++ (high :: low :: e ++ junk) := by
      rw [List.cons_append, store_byte _ _ _ _ rfl]
      simp
    have hload : load ((pre ++ [(a * 16 + b).toUInt8]) ++ (high :: low :: e ++ junk))
        (pre.length + 3) (pre.length + (37 :: high :: low :: e).length - pre.length - 3) = e := by
      have hmem : (pre ++ [(a * 16 + b).toUInt8]) ++ (high :: low :: e ++ junk) =
          (pre ++ [(a * 16 + b).toUInt8, high, low]) ++ (e ++ junk) := by simp
      rw [load, hmem, List.drop_left' (by
        rw [List.length_append]; rfl), List.take_append_of_le_length (by
          simp only [List.length_cons]; omega), List.take_of_length_le (by
          simp only [List.length_cons]; omega)]
    have hmove : store ((pre ++ [(a * 16 + b).toUInt8]) ++ (high :: low :: e ++ junk))
        (pre.length + 1) e = (pre ++ [(a * 16 + b).toUInt8]) ++
          (e ++ ((high :: low :: e).drop e.length ++ junk)) := by
      have hpos : pre.length + 1 = (pre ++ [(a * 16 + b).toUInt8]).length := by
        rw [List.length_append, List.length_singleton]
      rw [hpos, store_eq (by simp only [List.length_append, List.length_cons]; omega),
        List.take_left, List.append_assoc]
      congr 2
      rw [List.drop_append, List.drop_of_length_le (by omega), List.nil_append,
        Nat.add_sub_cancel_left, List.drop_append_of_le_length (by
          simp only [List.length_cons]; omega)]
    rw [urlDecodeLoop, h0, if_pos ⟨by simp only [List.length_cons]; omega, by decide⟩,
      if_neg (by decide), if_pos (by simp only [List.length_cons]; omega), hat 1 (by decide),
      hat 2 (by decide)]
    have h1 : hex2Int (at' [37, high, low] 1) = some a := ha
    have h2 : hex2Int (at' [37, high, low] 2) = some b := hb
    rw [h1, h2]
    dsimp only
    have hpos : pre.length + 1 = (pre ++ [(a * 16 + b).toUInt8]).length := by
      rw [List.length_append, List.length_singleton]
    have hend : pre.length + (37 :: high :: low :: e).length - 2 =
        (pre ++ [(a * 16 + b).toUInt8]).length + e.length := by
      simp only [List.length_append, List.length_cons, List.length_nil]
      omega
    rw [hstore, hload, hmove, hend, hpos, hloop]
    simp

/-- The string of an encoded text, decoded in place, is the text only if nothing was encoded. -/
theorem formDecode_encodes {s e : Bytes} (h : Encodes s e) :
    cstr (formDecode e) = s ↔ e = s := by
  obtain ⟨left, hleft, hlen, hloop⟩ := urlDecodeLoop_encodes h e.length [] [] (le_refl _)
  have hdecode : formDecode e = s ++ left := by
    rw [List.append_nil, List.append_nil, List.nil_append, List.nil_append, List.length_nil,
      Nat.zero_add] at hloop
    exact hloop
  rw [hdecode, cstr_eq_self (h.decoded.append hleft)]
  constructor
  · intro hsame
    have hleftLen := congrArg List.length hsame
    rw [List.length_append] at hleftLen
    exact h.eq_of_length.2 (by omega)
  · intro hsame
    have hnone : left = [] := by
      rw [hsame] at hlen
      exact List.length_eq_zero_iff.mp (by omega)
    rw [hnone, List.append_nil]

/-! ## Whole bodies -/

/-- `enc` is the list `form` of pairs, percent-encoded. -/
def FormEncodes (form enc : List (Bytes × Bytes)) : Prop :=
  List.Forall₂ (fun f e => Encodes f.1 e.1 ∧ Encodes f.2 e.2) form enc

theorem FormEncodes.pairs {form enc : List (Bytes × Bytes)} (h : FormEncodes form enc) :
    ∀ e ∈ enc, FormPair e := by
  induction h with
  | nil => intro e he; cases he
  | cons hpair _ ih =>
    intro e he
    rcases List.mem_cons.mp he with rfl | he
    · exact ⟨fun c hc => (hpair.1.chars c hc).1, fun c hc => (hpair.2.chars c hc).1,
        fun hc => (hpair.1.chars _ hc).2.1 rfl, fun hc => (hpair.1.chars _ hc).2.2 rfl,
        fun hc => (hpair.2.chars _ hc).2.1 rfl⟩
    · exact ih e he

/-- The strings of all pairs are the decoded ones only if nothing was encoded. -/
theorem FormEncodes.strings {form enc : List (Bytes × Bytes)} (h : FormEncodes form enc) :
    enc.map formStrings = form ↔ enc = form := by
  induction h with
  | nil => exact iff_of_true rfl rfl
  | @cons f e form enc hpair _ ih =>
    have hboth : formStrings e = f ↔ e = f := by
      rw [Prod.ext_iff, Prod.ext_iff (x := e), formStrings, formDecode_encodes hpair.1,
        formDecode_encodes hpair.2]
    rw [List.map_cons, List.cons.injEq, List.cons.injEq, ih, hboth]

/-- One call of `ExtractFormData` on a whole body sets its pairs, each as it is decoded in
place. -/
theorem formCalls_body {enc : List (Bytes × Bytes)} (henc : ∀ e ∈ enc, FormPair e) {n : Nat}
    (hn : 0 < n) :
    (formCalls (formBody enc ++ List.replicate n 0) (formBody enc).length 0).map callStrings =
      enc.map formStrings := by
  obtain ⟨n, rfl⟩ := Nat.exists_eq_succ_of_ne_zero (Nat.ne_of_gt hn)
  rcases List.eq_nil_or_concat enc with rfl | ⟨init, last, rfl⟩
  · rfl
  · rw [List.concat_eq_append] at henc ⊢
    rw [formBody_concat, List.append_assoc, List.length_append, List.replicate_succ]
    exact formCalls_last _ (fun e he => henc e (List.mem_append_left _ he))
      (henc last (List.mem_append_right _ (List.mem_singleton_self _))) (by decide)

/-- **A form is passed on as its pairs, in order and once each, exactly when no escape stands in
its body.** -/
theorem form_decoding (form enc : List (Bytes × Bytes)) (henc : FormEncodes form enc)
    (hlen : (formBody enc).length ≤ 220) :
    (formCalls (formBody enc ++ List.replicate (maxSendBufSize - (formBody enc).length) 0)
      (formBody enc).length 0).map callStrings = form ↔ enc = form := by
  have hbuf : maxSendBufSize = 256 := rfl
  rw [formCalls_body henc.pairs (by omega), henc.strings]

/-- A text of plain characters. -/
theorem encodes_plain {s : Bytes}
    (h : (s.all fun b => b ≠ 0 ∧ b ≠ 37 ∧ b ≠ 38 ∧ b ≠ 61) = true) : Encodes s s := by
  induction s with
  | nil => exact .nil
  | cons b s ih =>
    rw [List.all_cons, Bool.and_eq_true, decide_eq_true_iff] at h
    exact .plain h.1 (ih h.2)

/-- A form with a host name and a number. -/
def plainForm : List (Bytes × Bytes) := [(ascii "host", ascii "lambda"), (ascii "log", ascii "1")]

theorem form_decoding_plain :
    (formCalls (formBody plainForm ++ List.replicate (maxSendBufSize - (formBody plainForm).length) 0)
      (formBody plainForm).length 0).map callStrings = plainForm :=
  (form_decoding plainForm plainForm
    (.cons ⟨encodes_plain (by decide), encodes_plain (by decide)⟩
      (.cons ⟨encodes_plain (by decide), encodes_plain (by decide)⟩ .nil))
    (by decide)).mpr rfl

/-- A blank in a value is passed on with the last digit of its escape behind the text. -/
theorem form_decoding_blank :
    FormEncodes [(ascii "host", ascii "a b")] [(ascii "host", ascii "a%20b")] ∧
      (formCalls (ascii "host=a%20b" ++ List.replicate 246 0) 10 0).map callStrings =
        [(ascii "host", ascii "a b0b")] ∧
      ascii "a b0b" ≠ ascii "a b" := by
  refine ⟨.cons ⟨encodes_plain (by decide +kernel), ?_⟩ .nil, by decide +kernel, by decide⟩
  exact .plain (by decide) (.escape (a := 2) (b := 0) rfl rfl (by decide) (.plain (by decide) .nil))

end Httpd
