import LambdaIOT.Httpd.HeaderScan

/-!
# The calls that a posted form makes

`ExtractFormData` hands the pairs of a form to `TAG_Setter`. `formCalls` lists the calls it
makes, with the memory behind each of the two strings, and `extractFormData_calls` says that
the device is what these calls make of it. `formTrace_form` follows the loop over the pairs that
are complete.
-/

namespace Httpd

open CMem

/-! ## The calls -/

/-- The calls of the loop of `ExtractFormData`, and its variables at the end. -/
structure FormTrace where
  calls : List (Bytes × Bytes)
  mem : Bytes
  p : Nat
  ne : Option Nat

/-- The loop of `ExtractFormData`, keeping the arguments of `TAG_Setter`. -/
def formTrace (nSize : Nat) : Nat → Bytes → Nat → Option Nat → FormTrace
  | 0, mem, p, ne => ⟨[], mem, p, ne⟩
  | fuel + 1, mem, p, ne =>
    if at' mem p ≠ 0 ∧ p < nSize then
      match strstr (mem.drop p) (ascii "&"), strstr (mem.drop p) (ascii "=") with
      | some v, some n =>
        let mem := store (store mem (p + n) [0]) (p + v) [0]
        let mem := urlDecodeAt (urlDecodeAt mem p) (p + n + 1)
        let rest := formTrace nSize fuel mem (p + v + 1) (some (p + n))
        { rest with calls := (mem.drop p, mem.drop (p + n + 1)) :: rest.calls }
      | _, n => ⟨[], mem, p, n.map (p + ·)⟩
    else ⟨[], mem, p, ne⟩

/-- The device after a list of calls of `TAG_Setter`. -/
def setTags (dev : Device) (calls : List (Bytes × Bytes)) : Device :=
  calls.foldl (fun d call => tagSetter d call.1 call.2) dev

/-- The calls of `ExtractFormData(buffer, nSize, nTotalRemain)`. -/
def formCalls (mem : Bytes) (nSize : Nat) (nTotalRemain : Int) : List (Bytes × Bytes) :=
  let t := formTrace nSize nSize mem 0 none
  if 0 < nTotalRemain then t.calls
  else
    match t.ne with
    | some n =>
      let mem := urlDecodeAt (urlDecodeAt (store t.mem n [0]) t.p) (n + 1)
      t.calls ++ [(mem.drop t.p, mem.drop (n + 1))]
    | none => t.calls

/-- The two strings of a call. -/
def callStrings (call : Bytes × Bytes) : Bytes × Bytes := (cstr call.1, cstr call.2)

theorem formLoop_trace (nSize fuel : Nat) (s : FormScan) :
    formLoop nSize fuel s =
      let t := formTrace nSize fuel s.mem s.p s.ne
      ⟨setTags s.dev t.calls, t.mem, t.p, t.ne⟩ := by
  induction fuel generalizing s with
  | zero => rfl
  | succ fuel ih =>
    rw [formLoop, formTrace]
    dsimp only
    split
    · cases hv : strstr (s.mem.drop s.p) (ascii "&") with
      | none => rfl
      | some v =>
        cases hn : strstr (s.mem.drop s.p) (ascii "=") with
        | none => rfl
        | some n =>
          dsimp only
          rw [ih]
          rfl
    · rfl

/-- What `ExtractFormData` sets is what its calls set. -/
theorem extractFormData_calls (dev : Device) (mem : Bytes) (nSize : Nat) (nTotalRemain : Int) :
    (extractFormData dev mem nSize nTotalRemain).1 =
      setTags dev (formCalls mem nSize nTotalRemain) := by
  unfold extractFormData formCalls
  rw [formLoop_trace]
  dsimp only
  split
  · rfl
  · cases (formTrace nSize nSize mem 0 none).ne with
    | none => rfl
    | some n =>
      dsimp only [FormScan.set]
      rw [setTags, setTags, List.foldl_append]
      rfl

/-- What stays in the buffer while more of the form is to come. -/
theorem extractFormData_more (dev : Device) (mem : Bytes) (nSize : Nat) {nTotalRemain : Int}
    (hmore : 0 < nTotalRemain) :
    (extractFormData dev mem nSize nTotalRemain).2 =
      ((formTrace nSize nSize mem 0 none).mem, (formTrace nSize nSize mem 0 none).p) := by
  unfold extractFormData
  rw [formLoop_trace]
  dsimp only
  rw [if_pos hmore]

/-- The last call parses all that is there. -/
theorem extractFormData_last (dev : Device) (mem : Bytes) (nSize : Nat) {nTotalRemain : Int}
    (hlast : ¬ 0 < nTotalRemain) : (extractFormData dev mem nSize nTotalRemain).2.2 = nSize := by
  unfold extractFormData
  dsimp only
  rw [if_neg hlast]
  split <;> rfl

/-! ## Decoding in place -/

/-- `URLDecode` of a text, with what is left of the text behind its decoded end. -/
def formDecode (e : Bytes) : Bytes := (urlDecodeLoop e.length e 0 e.length).1

@[simp] theorem length_formDecode (e : Bytes) : (formDecode e).length = e.length :=
  urlDecodeLoop_length ..

theorem at'_append {e : Bytes} (t : Bytes) {i : Nat} (h : i < e.length) : at' (e ++ t) i = at' e i := by
  unfold at'
  rw [List.getD_eq_getElem?_getD, List.getD_eq_getElem?_getD, List.getElem?_append_left h]

/-- `URLDecode` works inside the text. -/
theorem urlDecodeLoop_append (fuel : Nat) {e : Bytes} (t : Bytes) (i : Nat) {len : Nat}
    (hlen : len ≤ e.length) :
    urlDecodeLoop fuel (e ++ t) i len =
      ((urlDecodeLoop fuel e i len).1 ++ t, (urlDecodeLoop fuel e i len).2) := by
  induction fuel generalizing e i len with
  | zero => rfl
  | succ fuel ih =>
    rw [urlDecodeLoop, urlDecodeLoop]
    by_cases hi : i < len
    · rw [at'_append t (show i < e.length by omega)]
      split
      · split
        · exact ih _ hlen
        · by_cases hroom : i + 2 < len
          · rw [if_pos hroom, if_pos hroom, at'_append t (show i + 1 < e.length by omega),
              at'_append t (show i + 2 < e.length by omega)]
            split
            · rename_i a b _ _
              dsimp only
              have hone : i + [(a * 16 + b).toUInt8].length ≤ e.length := by
                rw [List.length_singleton]
                omega
              have hload : (load (store e i [(a * 16 + b).toUInt8]) (i + 3) (len - i - 3)).length
                  ≤ len - i - 3 := List.length_take_le _ _
              rw [store_append_left t hone, load_append_left t (by rw [length_store]; omega),
                store_append_left t (by rw [length_store]; omega)]
              exact ih _ (by rw [length_store, length_store]; omega)
            · exact ih _ hlen
          · rw [if_neg hroom, if_neg hroom]
            exact ih _ hlen
      · rfl
    · rw [if_neg (fun h => hi h.1), if_neg (fun h => hi h.1)]

/-- `URLDecode` of a string in memory. -/
theorem urlDecode_string {e : Bytes} (he : NoNul e) (t : Bytes) :
    (urlDecode (e ++ 0 :: t)).1 = formDecode e ++ 0 :: t := by
  have hlen : strlen (e ++ 0 :: t) = e.length := by rw [strlen, cstr_append_nul he]
  unfold urlDecode formDecode
  rw [hlen, urlDecodeLoop_append _ _ _ (le_refl _)]

theorem urlDecodeAt_string {pre e : Bytes} (he : NoNul e) (t : Bytes) {k : Nat}
    (hk : k = pre.length) :
    urlDecodeAt (pre ++ (e ++ 0 :: t)) k = pre ++ (formDecode e ++ 0 :: t) := by
  rw [urlDecodeAt, hk, List.take_left, List.drop_left, urlDecode_string he]

/-! ## The texts of a form -/

/-- `name=value`. -/
def pairText (f : Bytes × Bytes) : Bytes := f.1 ++ 61 :: f.2

/-- Pairs with the `&` behind each of them. -/
def formText (form : List (Bytes × Bytes)) : Bytes := form.flatMap fun f => pairText f ++ [38]

/-- A name and a value as they stand in a form body. -/
structure FormPair (f : Bytes × Bytes) : Prop where
  name : NoNul f.1
  value : NoNul f.2
  nameAmp : 38 ∉ f.1
  nameEq : 61 ∉ f.1
  valueAmp : 38 ∉ f.2

/-- The two strings that the pair is decoded to in place. -/
def formStrings (f : Bytes × Bytes) : Bytes × Bytes := (cstr (formDecode f.1), cstr (formDecode f.2))

theorem length_pairText (f : Bytes × Bytes) : (pairText f).length = f.1.length + 1 + f.2.length := by
  rw [pairText, List.length_append, List.length_cons]
  omega

theorem formText_cons (f : Bytes × Bytes) (form : List (Bytes × Bytes)) (t : Bytes) :
    formText (f :: form) ++ t = pairText f ++ 38 :: (formText form ++ t) := by
  rw [formText, List.flatMap_cons, List.append_assoc, List.append_assoc]
  rfl

/-! ## The loop over the pairs that are complete -/

theorem FormPair.strstr_eq {f : Bytes × Bytes} (hf : FormPair f) (t : Bytes) :
    strstr (pairText f ++ t) (ascii "=") = some f.1.length := by
  have heq : ascii "=" = [61] := by decide
  rw [strstr, heq, pairText, List.append_assoc, cstr_append hf.name, List.cons_append]
  exact findSub_char hf.nameEq _

theorem FormPair.noNul {f : Bytes × Bytes} (hf : FormPair f) : NoNul (pairText f) := by
  refine hf.name.append ?_
  intro b hb
  rcases List.mem_cons.mp hb with rfl | hb
  · decide
  · exact hf.value b hb

theorem FormPair.noAmp {f : Bytes × Bytes} (hf : FormPair f) : 38 ∉ pairText f := by
  rw [pairText, List.mem_append, List.mem_cons]
  rintro (h | h | h)
  · exact hf.nameAmp h
  · exact absurd h (by decide)
  · exact hf.valueAmp h

theorem FormPair.strstr_amp {f : Bytes × Bytes} (hf : FormPair f) (t : Bytes) :
    strstr (pairText f ++ 38 :: t) (ascii "&") = some (pairText f).length := by
  have hamp : ascii "&" = [38] := by decide
  rw [strstr, hamp, cstr_append hf.noNul]
  exact findSub_char hf.noAmp _

/-- The NUL over the `=` of a pair. -/
theorem store_equals (f : Bytes × Bytes) (pre t : Bytes) :
    store (pre ++ (pairText f ++ t)) (pre.length + f.1.length) [0] =
      pre ++ (f.1 ++ 0 :: (f.2 ++ t)) := by
  have hin : pre ++ (pairText f ++ t) = (pre ++ f.1) ++ 61 :: (f.2 ++ t) := by
    rw [pairText]
    simp
  rw [hin, store_byte _ _ _ _ List.length_append.symm, List.append_assoc]

/-- A pair cut at its `=` and at its end, both parts decoded. -/
theorem decode_pair {f : Bytes × Bytes} (hf : FormPair f) (pre rest : Bytes) :
    urlDecodeAt (urlDecodeAt (store (pre ++ (pairText f ++ 0 :: rest)) (pre.length + f.1.length) [0])
        pre.length) (pre.length + f.1.length + 1) =
      pre ++ (formDecode f.1 ++ 0 :: (formDecode f.2 ++ 0 :: rest)) := by
  rw [store_equals f pre (0 :: rest), urlDecodeAt_string hf.name _ rfl]
  have hnext : pre ++ (formDecode f.1 ++ 0 :: (f.2 ++ 0 :: rest)) =
      (pre ++ (formDecode f.1 ++ [0])) ++ (f.2 ++ 0 :: rest) := by simp
  rw [hnext, urlDecodeAt_string hf.value _ (by
    rw [List.length_append, List.length_append, length_formDecode, List.length_singleton]; omega)]
  simp

/-- One round takes a pair with its `&`. -/
theorem formTrace_round (nSize fuel : Nat) (pre rest : Bytes) {f : Bytes × Bytes}
    (ne : Option Nat) (hf : FormPair f) (hp : pre.length < nSize) :
    let pre' := pre ++ (formDecode f.1 ++ 0 :: (formDecode f.2 ++ [0]))
    let t := formTrace nSize fuel (pre' ++ rest) pre'.length (some (pre.length + f.1.length))
    formTrace nSize (fuel + 1) (pre ++ (pairText f ++ 38 :: rest)) pre.length ne =
      { t with calls := (formDecode f.1 ++ 0 :: (formDecode f.2 ++ 0 :: rest),
          formDecode f.2 ++ 0 :: rest) :: t.calls } := by
  dsimp only
  have hfirst : at' (pre ++ (pairText f ++ 38 :: rest)) pre.length ≠ 0 := by
    have hlen := length_pairText f
    obtain ⟨b, s, hbs⟩ := List.exists_cons_of_length_pos (show 0 < (pairText f).length by omega)
    have hb := hf.noNul b (by rw [hbs]; exact List.mem_cons_self ..)
    unfold at'
    rw [List.getD_eq_getElem?_getD, List.getElem?_append_right (le_refl _), Nat.sub_self, hbs]
    exact hb
  rw [formTrace, if_pos ⟨hfirst, hp⟩, List.drop_left, hf.strstr_amp, hf.strstr_eq]
  dsimp only
  have hlen := length_pairText f
  -- The two NULs do not meet, so their order does not matter.
  have hmem : store (store (pre ++ (pairText f ++ 38 :: rest)) (pre.length + f.1.length) [0])
      (pre.length + (pairText f).length) [0] =
      store (pre ++ (pairText f ++ 0 :: rest)) (pre.length + f.1.length) [0] := by
    have htwo : pre ++ (f.1 ++ 0 :: (f.2 ++ 38 :: rest)) =
        (pre ++ (f.1 ++ 0 :: f.2)) ++ 38 :: rest := by simp
    have hpos : pre.length + (pairText f).length = (pre ++ (f.1 ++ 0 :: f.2)).length := by
      rw [hlen, List.length_append, List.length_append, List.length_cons]
      omega
    rw [store_equals, store_equals, htwo, store_byte _ _ _ _ hpos]
    simp
  rw [hmem, decode_pair hf]
  have hsplit : pre ++ (formDecode f.1 ++ 0 :: (formDecode f.2 ++ 0 :: rest)) =
      (pre ++ (formDecode f.1 ++ 0 :: (formDecode f.2 ++ [0]))) ++ rest := by simp
  have hpos : (pre ++ (formDecode f.1 ++ 0 :: (formDecode f.2 ++ [0]))).length =
      pre.length + (pairText f).length + 1 := by
    rw [hlen]
    simp only [List.length_append, List.length_cons, length_formDecode, List.length_nil]
    omega
  have hvalue : (pre ++ (formDecode f.1 ++ 0 :: (formDecode f.2 ++ 0 :: rest))).drop
      (pre.length + f.1.length + 1) = formDecode f.2 ++ 0 :: rest := by
    have hin : pre ++ (formDecode f.1 ++ 0 :: (formDecode f.2 ++ 0 :: rest)) =
        (pre ++ (formDecode f.1 ++ [0])) ++ (formDecode f.2 ++ 0 :: rest) := by simp
    rw [hin]
    refine List.drop_left' ?_
    rw [List.length_append, List.length_append, length_formDecode, List.length_singleton]
    omega
  rw [hvalue, List.drop_left, ← hsplit, hpos]

/-- The calls for complete pairs, and where the loop is behind them. -/
theorem formTrace_form (nSize fuel : Nat) (pre tail : Bytes) {form : List (Bytes × Bytes)}
    (ne : Option Nat) (hform : ∀ f ∈ form, FormPair f)
    (hsize : pre.length + (formText form).length ≤ nSize) :
    ∃ pre' ne' calls, pre'.length = pre.length + (formText form).length ∧
      (form = [] → pre' = pre) ∧
      calls.map callStrings = form.map formStrings ∧
      formTrace nSize (fuel + form.length) (pre ++ (formText form ++ tail)) pre.length ne =
        { formTrace nSize fuel (pre' ++ tail) pre'.length ne' with
          calls := calls ++ (formTrace nSize fuel (pre' ++ tail) pre'.length ne').calls } := by
  induction form generalizing pre ne with
  | nil => exact ⟨pre, ne, [], rfl, fun _ => rfl, rfl, rfl⟩
  | cons f form ih =>
    have hf := hform f (List.mem_cons_self ..)
    have hlen : (formText (f :: form)).length = (pairText f).length + 1 + (formText form).length := by
      have happ := congrArg List.length (formText_cons f form [])
      simp only [List.append_nil, List.length_append, List.length_cons] at happ
      omega
    have hround := formTrace_round nSize (fuel + form.length) pre (formText form ++ tail) ne hf
      (by omega)
    dsimp only at hround
    have hpos : (pre ++ (formDecode f.1 ++ 0 :: (formDecode f.2 ++ [0]))).length =
        pre.length + (pairText f).length + 1 := by
      rw [length_pairText]
      simp only [List.length_append, List.length_cons, length_formDecode, List.length_nil]
      omega
    obtain ⟨pre', ne', calls, hlen', -, hcalls, htrace⟩ :=
      ih (pre ++ (formDecode f.1 ++ 0 :: (formDecode f.2 ++ [0])))
        (some (pre.length + f.1.length)) (fun g hg => hform g (List.mem_cons_of_mem _ hg))
        (by rw [hpos]; omega)
    refine ⟨pre', ne', (formDecode f.1 ++ 0 :: (formDecode f.2 ++ 0 :: (formText form ++ tail)),
      formDecode f.2 ++ 0 :: (formText form ++ tail)) :: calls, ?_, ?_, ?_, ?_⟩
    · rw [hlen', hpos, hlen]
      omega
    · intro h
      cases h
    · rw [List.map_cons, List.map_cons, hcalls, callStrings, formStrings, cstr_before_nul,
        cstr_before_nul]
    · rw [formText_cons, List.length_cons, ← Nat.add_assoc, hround, htrace]
      rfl

/-- The loop ends with the bytes that are there. -/
theorem formTrace_end {nSize : Nat} (fuel : Nat) (mem : Bytes) {p : Nat} (ne : Option Nat)
    (hp : nSize ≤ p) : formTrace nSize fuel mem p ne = ⟨[], mem, p, ne⟩ := by
  cases fuel with
  | zero => rfl
  | succ fuel => rw [formTrace, if_neg fun h => absurd h.2 (Nat.not_lt.mpr hp)]

/-- The loop ends at a pair without its `&`. -/
theorem formTrace_tail {nSize : Nat} (fuel : Nat) (pre : Bytes) {tail : Bytes} (ne : Option Nat)
    (hamp : 38 ∉ cstr tail) (hfirst : at' tail 0 ≠ 0) (hp : pre.length < nSize) :
    formTrace nSize (fuel + 1) (pre ++ tail) pre.length ne =
      ⟨[], pre ++ tail, pre.length, (strstr tail (ascii "=")).map (pre.length + ·)⟩ := by
  have hnone : strstr tail (ascii "&") = none := by
    have h38 : ascii "&" = [38] := by decide
    rw [strstr, h38]
    exact findSub_char_none hamp
  have hat : at' (pre ++ tail) pre.length = at' tail 0 := by
    unfold at'
    rw [List.getD_eq_getElem?_getD, List.getElem?_append_right (le_refl _), Nat.sub_self,
      List.getD_eq_getElem?_getD]
  rw [formTrace, hat, if_pos ⟨hfirst, hp⟩, List.drop_left, hnone]

theorem length_formText (form : List (Bytes × Bytes)) : 2 * form.length ≤ (formText form).length := by
  induction form with
  | nil => exact Nat.zero_le _
  | cons f form ih =>
    have happ := congrArg List.length (formText_cons f form [])
    have hlen := length_pairText f
    simp only [List.append_nil, List.length_append, List.length_cons] at happ ⊢
    omega

theorem at'_first {t behind : Bytes} (ht : NoNul t) (hne : t ≠ []) : at' (t ++ behind) 0 ≠ 0 := by
  obtain ⟨b, s, rfl⟩ := List.exists_cons_of_ne_nil hne
  exact ht b (List.mem_cons_self ..)

section Accepted

variable {form : List (Bytes × Bytes)} {t : Bytes}

/-- The loop sets the complete pairs, and stops at the bytes `t` of one that is not. -/
theorem formTrace_stop {nSize fuel : Nat} (behind : Bytes) (hform : ∀ f ∈ form, FormPair f) (ht : NoNul t)
    (hamp : 38 ∉ t) (hclean : t ≠ [] → 38 ∉ cstr behind)
    (hsize : nSize = (formText form).length + t.length) (hfuel : form.length + t.length ≤ fuel) :
    ∃ pre' ne' calls, pre'.length = (formText form).length ∧ (form = [] → pre' = []) ∧
      calls.map callStrings = form.map formStrings ∧
      (t ≠ [] → ne' = (strstr (t ++ behind) (ascii "=")).map ((formText form).length + ·)) ∧
      formTrace nSize fuel (formText form ++ (t ++ behind)) 0 none =
        ⟨calls, pre' ++ (t ++ behind), (formText form).length, ne'⟩ := by
  obtain ⟨k, rfl⟩ : ∃ k, fuel = k + form.length := ⟨fuel - form.length, by omega⟩
  obtain ⟨pre', ne', calls, hlen, hnil, hcalls, htrace⟩ :=
    formTrace_form nSize k [] (t ++ behind) none hform
      (by rw [List.length_nil]; omega)
  rw [List.length_nil, Nat.zero_add] at hlen
  rw [List.length_nil, List.nil_append] at htrace
  rw [htrace]
  by_cases hne : t = []
  · have hstop := formTrace_end k (pre' ++ (t ++ behind)) ne'
      (show nSize ≤ pre'.length by rw [hsize, hne, hlen]; exact le_refl _)
    refine ⟨pre', ne', calls, hlen, hnil, hcalls, fun h => absurd hne h, ?_⟩
    rw [hstop, hlen]
    simp
  · have hpos := List.length_pos_iff.mpr hne
    obtain ⟨k, rfl⟩ : ∃ j, k = j + 1 := Nat.exists_eq_succ_of_ne_zero (by omega)
    have hcut : 38 ∉ cstr (t ++ behind) := by
      rw [cstr_append ht, List.mem_append]
      rintro (h | h)
      · exact hamp h
      · exact hclean hne h
    have hstop := formTrace_tail k pre' ne' hcut (at'_first ht hne)
      (show pre'.length < nSize by omega)
    refine ⟨pre', _, calls, hlen, hnil, hcalls, fun _ => rfl, ?_⟩
    rw [hstop, hlen]
    simp

/-- More of the form is to come: the complete pairs are set. -/
theorem formCalls_more {behind : Bytes} {nTotalRemain : Int} (hform : ∀ f ∈ form, FormPair f)
    (ht : NoNul t) (hamp : 38 ∉ t) (hclean : t ≠ [] → 38 ∉ cstr behind) (hmore : 0 < nTotalRemain) :
    (formCalls (formText form ++ (t ++ behind)) ((formText form).length + t.length)
      nTotalRemain).map callStrings = form.map formStrings := by
  have hrounds := length_formText form
  obtain ⟨pre', ne', calls, -, -, hcalls, -, htrace⟩ :=
    formTrace_stop behind hform ht hamp hclean rfl (show form.length + t.length ≤
      (formText form).length + t.length by omega)
  unfold formCalls
  dsimp only
  rw [htrace, if_pos hmore]
  exact hcalls

/-- The last bytes: the pair at the end is set too, when it ends there. -/
theorem formCalls_last (behind : Bytes) {nTotalRemain : Int} {last : Bytes × Bytes}
    (hform : ∀ f ∈ form, FormPair f) (hlast : FormPair last) (hend : ¬ 0 < nTotalRemain) :
    (formCalls (formText form ++ (pairText last ++ 0 :: behind))
      ((formText form).length + (pairText last).length) nTotalRemain).map callStrings =
        (form ++ [last]).map formStrings := by
  have hrounds := length_formText form
  have hne : pairText last ≠ [] := by
    rw [pairText]
    exact List.append_ne_nil_of_right_ne_nil _ (List.cons_ne_nil _ _)
  obtain ⟨pre', ne', calls, hlen, -, hcalls, hequals, htrace⟩ :=
    formTrace_stop (0 :: behind) hform hlast.noNul hlast.noAmp
      (fun _ h => by cases h) rfl (show form.length + (pairText last).length ≤
      (formText form).length + (pairText last).length by omega)
  have hequals := hequals hne
  rw [hlast.strstr_eq, Option.map_some] at hequals
  unfold formCalls
  dsimp only
  rw [htrace, if_neg hend, hequals]
  dsimp only
  rw [← hlen, decode_pair hlast, List.drop_left, List.map_append, List.map_append, hcalls]
  have hvalue : (pre' ++ (formDecode last.1 ++ 0 :: (formDecode last.2 ++ 0 :: behind))).drop
      (pre'.length + last.1.length + 1) = formDecode last.2 ++ 0 :: behind := by
    have hin : pre' ++ (formDecode last.1 ++ 0 :: (formDecode last.2 ++ 0 :: behind)) =
        (pre' ++ (formDecode last.1 ++ [0])) ++ (formDecode last.2 ++ 0 :: behind) := by simp
    rw [hin]
    refine List.drop_left' ?_
    rw [List.length_append, List.length_append, length_formDecode, List.length_singleton]
    omega
  rw [hvalue, List.map_singleton, List.map_singleton, callStrings, formStrings, cstr_before_nul,
    cstr_before_nul]

end Accepted

end Httpd
