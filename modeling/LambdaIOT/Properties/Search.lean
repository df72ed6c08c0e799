import LambdaIOT.Httpd.Ssdp
import LambdaIOT.Httpd.HeaderScan

/-!
# Datagrams to the SSDP listener

The loop of `ssdp_listener` reads the lines of the datagram that end in CRLF, from left to
right. `searchLoop_lines` says so, and with it that the loop is over after fewer rounds than
the datagram has bytes. It says nothing about a datagram without any byte, whose `len - 1`
is the largest `u32_t`.
-/

namespace Httpd

open CMem Lwip

/-! ## Texts -/

/-- `line` starts with `name`, in any letter case. -/
def NamesField (name line : Bytes) : Prop :=
  (line.take name.length).map toUpper = name.map toUpper

instance (name line : Bytes) : Decidable (NamesField name line) :=
  inferInstanceAs (Decidable (_ = _))

theorem strnicmpLoop_iff (a b : Bytes) :
    strnicmpLoop a b b.length = 0 ↔ NamesField b a := by
  induction b generalizing a with
  | nil => exact ⟨fun _ => rfl, fun _ => by cases a <;> rfl⟩
  | cons y b ih =>
    cases a with
    | nil =>
      constructor
      · intro h
        exact absurd (show (-1 : Int) = 0 from h) (by decide)
      · intro h
        cases h
    | cons x a =>
      rw [List.length_cons, strnicmpLoop]
      have hcons : NamesField (y :: b) (x :: a) ↔ toUpper x = toUpper y ∧ NamesField b a := by
        unfold NamesField
        rw [List.length_cons, List.take_succ_cons, List.map_cons, List.map_cons, List.cons.injEq]
      rw [hcons]
      by_cases hsame : toUpper x = toUpper y
      · rw [if_neg (by rw [hsame]; simp), ih]
        exact ⟨fun h => ⟨hsame, h⟩, fun h => h.2⟩
      · have hne : ((toUpper x).toNat : Int) - (toUpper y).toNat ≠ 0 := by
          intro h
          exact hsame (UInt8.toNat_inj.mp (by omega))
        rw [if_pos hne]
        constructor
        · intro h
          split at h <;> cases h
        · intro h
          exact absurd h.1 hsame

theorem hasPrefix_iff_namesField {lit : Bytes} (hlit : NoNul lit) (s : Bytes) :
    hasPrefix s lit = true ↔ NamesField lit (cstr s) := by
  unfold hasPrefix strnicmp
  rw [cstr_eq_self hlit, beq_iff_eq, strnicmpLoop_iff]

/-! ## Lines -/

/-- The lines of a text that end in CRLF; `line` is what is in front of the text. -/
def crlfLines (line : Bytes) : Bytes → List Bytes
  | 13 :: 10 :: rest => line :: crlfLines [] rest
  | b :: rest => crlfLines (line ++ [b]) rest
  | [] => []

theorem crlfLines_more (line : Bytes) {b c : UInt8} (rest : Bytes) (h : ¬(b = 13 ∧ c = 10)) :
    crlfLines line (b :: c :: rest) = crlfLines (line ++ [b]) (c :: rest) := by
  rw [crlfLines]
  rintro rest' rfl hrest
  exact h ⟨rfl, (List.cons.inj hrest).1⟩

theorem crlfLines_one (line : Bytes) (b : UInt8) : crlfLines line [b] = [] := by
  rw [crlfLines]
  · rw [crlfLines]
  · rintro rest' - hrest
    cases hrest

/-- Reading a line does not look behind its end. -/
theorem read_line (f : SearchFields) (line t : Bytes) :
    f.read (line ++ 0 :: t) = f.read (line ++ [0]) := by
  have hin : ∀ {name : Bytes} {k : Nat}, NoNul name → hasPrefix (line ++ [0]) name = true →
      k ≤ name.length → k ≤ line.length := fun hname h hk =>
    hk.trans (hasPrefix_length (t := []) hname h)
  unfold SearchFields.read
  simp only [hasPrefix_line line t []]
  split
  · rfl
  · congr 1
    split
    · rfl
    · split
      · rename_i hst
        have h3 := hin (by decide) hst (show 3 ≤ _ by decide)
        rw [strstr_behind line t [] h3, strstr_behind line t [] h3]
      · split
        · rename_i hman
          rw [strstr_behind line t [] (hin (by decide) hman (show 4 ≤ _ by decide))]
        · split
          · rename_i hmx
            rw [atol_behind line t [] (hin (by decide) hmx (show 3 ≤ _ by decide))]
          · rfl

/-- What the lines say, read in their order. -/
def SearchFields.readAll (f : SearchFields) : List Bytes → Option SearchFields
  | [] => some f
  | line :: lines => (f.read (line ++ [0])).bind fun f => f.readAll lines

/-- The end of the loop that a list of lines leads to. -/
def SearchEnd.ofFields : Option SearchFields → SearchEnd
  | some f => .done f
  | none => .refused

/-- A line that ends here is read, and the next one starts behind it. -/
theorem endLine_eq (pre line rest : Bytes) (f : SearchFields) :
    SearchScan.endLine ⟨pre ++ (line ++ 13 :: 10 :: rest), pre.length + line.length, pre.length, f⟩ =
      match f.read (line ++ [0]) with
      | none => .refused
      | some f => .next ⟨pre ++ line ++ [0, 10] ++ rest, pre.length + line.length + 2,
          pre.length + line.length + 2, f⟩ := by
  have hcut : store (pre ++ (line ++ 13 :: 10 :: rest)) (pre.length + line.length) [0] =
      pre ++ line ++ [0, 10] ++ rest := by
    rw [store_eq (by simp), ← List.append_assoc, ← List.length_append, List.take_left,
      List.drop_append]
    simp
  have hdrop : (pre ++ line ++ [0, 10] ++ rest).drop pre.length = line ++ 0 :: 10 :: rest := by
    rw [List.append_assoc, List.append_assoc, List.drop_left]
    simp
  unfold SearchScan.endLine
  dsimp only
  rw [hcut, terminated, hdrop, if_pos (by simp)]
  have hread := read_line f line (10 :: rest)
  cases hf : f.read (line ++ [0]) with
  | none => rw [hread, hf]
  | some g => rw [hread, hf]

/-- The loop reads the lines, in fewer rounds than there are bytes. -/
theorem searchLoop_lines (limit rounds : Nat) (pre line rest behind : Bytes) (f : SearchFields)
    (hlimit : limit + 1 = pre.length + line.length + rest.length)
    (hrounds : rest.length ≤ rounds + 1) :
    searchLoop limit rounds
        ⟨pre ++ (line ++ (rest ++ behind)), pre.length + line.length, pre.length, f⟩ =
      .ofFields (f.readAll (crlfLines line rest)) := by
  induction rounds generalizing pre line rest f with
  | zero =>
    have hdone : crlfLines line rest = [] := by
      match rest, hrounds with
      | [], _ => rw [crlfLines]
      | [b], _ => exact crlfLines_one line b
    rw [searchLoop, if_neg (by dsimp only; omega), hdone]
    rfl
  | succ rounds ih =>
    match rest, hlimit, hrounds with
    | [], hlimit, _ =>
      rw [searchLoop, if_neg (by dsimp only; rw [List.length_nil] at hlimit; omega), crlfLines]
      rfl
    | [b], hlimit, _ =>
      rw [searchLoop, if_neg (by dsimp only; rw [List.length_singleton] at hlimit; omega),
        crlfLines_one]
      rfl
    | b :: c :: rest, hlimit, hrounds =>
      rw [List.length_cons, List.length_cons] at hlimit hrounds
      have hb : (pre ++ (line ++ (b :: c :: rest ++ behind)))[pre.length + line.length]? = some b := by
        rw [List.getElem?_append_right (by omega), List.getElem?_append_right (by omega)]
        simp
      have hc : (pre ++ (line ++ (b :: c :: rest ++ behind)))[pre.length + line.length + 1]?
          = some c := by
        rw [List.getElem?_append_right (by omega), List.getElem?_append_right (by omega)]
        have hindex : pre.length + line.length + 1 - pre.length - line.length = 1 := by omega
        rw [hindex]
        rfl
      rw [searchLoop, if_pos (by dsimp only; omega)]
      unfold SearchScan.round
      dsimp only
      rw [hb]
      dsimp only
      by_cases hcrlf : b = 13 ∧ c = 10
      · obtain ⟨rfl, rfl⟩ := hcrlf
        rw [if_pos rfl, hc]
        dsimp only
        rw [if_pos rfl, crlfLines, SearchFields.readAll, List.cons_append, List.cons_append,
          endLine_eq]
        cases hread : f.read (line ++ [0]) with
        | none => rfl
        | some g =>
          have hnext := ih (pre ++ line ++ [0, 10]) [] rest g
            (by simp only [List.length_append, List.length_cons, List.length_nil]; omega) (by omega)
          simp only [List.length_append, List.length_cons, List.length_nil, List.nil_append,
            Nat.add_zero] at hnext
          exact hnext
      · have hnext := ih pre (line ++ [b]) (c :: rest) f
          (by simp only [List.length_append, List.length_cons, List.length_nil]; omega)
          (by rw [List.length_cons]; omega)
        rw [crlfLines_more line rest hcrlf, ← hnext]
        have hsame : pre ++ (line ++ [b] ++ (c :: rest ++ behind)) =
            pre ++ (line ++ (b :: c :: rest ++ behind)) := by simp
        rw [hsame, List.length_append, List.length_singleton, ← Nat.add_assoc]
        by_cases hcr : b = 13
        · have hlf : ¬ c = 10 := fun hc => hcrlf ⟨hcr, hc⟩
          rw [if_pos hcr, hc]
          dsimp only
          rw [if_neg hlf]
        · rw [if_neg hcr]

/-! ## Bounds -/

theorem szBuffer_eq (p : List Pbuf) :
    szBuffer p = ((Pbuf.data p).take 252 ++ List.replicate (256 - ((Pbuf.data p).take 252).length) 0,
      ((Pbuf.data p).take 252).length) := by
  have hcopied : Pbuf.pbufCopyPartial p (szBufferSize - 4) 0 = (Pbuf.data p).take 252 :=
    Pbuf.pbufCopyPartial_eq
  have hlen : ((Pbuf.data p).take 252).length ≤ 252 := List.length_take_le _ _
  unfold szBuffer
  dsimp only
  rw [hcopied, store_eq (by rw [List.length_replicate, szBufferSize]; omega), List.take_zero,
    List.nil_append, List.drop_replicate, Nat.zero_add]
  rfl

/-- The copied text ends inside the buffer. -/
theorem terminated_szBuffer (p : List Pbuf) : terminated (szBuffer p).1 0 = true := by
  have hlen : ((Pbuf.data p).take 252).length ≤ 252 := List.length_take_le _ _
  rw [szBuffer_eq, terminated, List.drop_zero, List.contains_iff_mem, List.mem_append]
  right
  rw [List.mem_replicate]
  exact ⟨by omega, rfl⟩

/-- What `ssdp_listener` answers to a datagram with bytes, with at least one round for each of
them. -/
theorem ssdpListenerWithin_eq (rounds : Nat) {p : List Pbuf} (addr port : Nat)
    (hp : Pbuf.data p ≠ []) (hrounds : 252 ≤ rounds + 1) :
    ssdpListenerWithin rounds p addr port =
      if ascii "NOTIFY " <:+: cstr ((Pbuf.data p).take 252) then .returned []
      else
        match SearchFields.none.readAll (crlfLines [] ((Pbuf.data p).take 252)) with
        | some fields => .returned (if fields.accepted then [⟨.msearchReply, addr, port⟩] else [])
        | none => .returned [] := by
  have hlen : ((Pbuf.data p).take 252).length ≤ 252 := List.length_take_le _ _
  have hpos : 0 < ((Pbuf.data p).take 252).length := by
    rw [List.length_take]
    have := List.length_pos_iff.mpr hp
    omega
  have hless : lenLess1 (szBuffer p).2 = ((Pbuf.data p).take 252).length - 1 := by
    rw [szBuffer_eq, lenLess1]
    dsimp only
    omega
  have hloop := searchLoop_lines (((Pbuf.data p).take 252).length - 1) rounds [] []
    ((Pbuf.data p).take 252) (List.replicate (256 - ((Pbuf.data p).take 252).length) 0) .none
    (by simp only [List.length_nil]; omega) (by omega)
  have hstr : (strstr (szBuffer p).1 (ascii "NOTIFY ")).isSome ↔
      ascii "NOTIFY " <:+: cstr ((Pbuf.data p).take 252) := by
    rw [strstr, findSub_isSome_iff, szBuffer_eq, cstr_append_zeros]
  unfold ssdpListenerWithin
  dsimp only
  rw [if_neg (by rw [terminated_szBuffer]; decide), hless]
  by_cases hn : ascii "NOTIFY " <:+: cstr ((Pbuf.data p).take 252)
  · rw [if_pos hn, if_pos (hstr.mpr hn)]
  · rw [if_neg hn, if_neg (fun h => hn (hstr.mp h))]
    have hbuf : (szBuffer p).1 = [] ++ ([] ++ ((Pbuf.data p).take 252 ++
        List.replicate (256 - ((Pbuf.data p).take 252).length) 0)) := by
      rw [szBuffer_eq]
      rfl
    rw [hbuf]
    rw [List.length_nil] at hloop
    rw [hloop]
    cases SearchFields.none.readAll (crlfLines [] ((Pbuf.data p).take 252)) <;> rfl

/-- A datagram without a byte: `len - 1` wraps, and the loop leaves the buffer. -/
theorem ssdpListenerWithin_empty {p : List Pbuf} (addr port : Nat) (hp : Pbuf.data p = []) :
    ssdpListenerWithin 256 p addr port = .running := by
  have hbuf : szBuffer p = (List.replicate 256 0, 0) := by
    rw [szBuffer_eq, hp]
    rfl
  have hloop : searchLoop (lenLess1 0) 256 ⟨List.replicate 256 0, 0, 0, .none⟩ = .running := by
    decide +kernel
  have hend : terminated (List.replicate 256 0) 0 = true := by decide
  have hstr : (strstr (List.replicate 256 0) (ascii "NOTIFY ")).isSome = false := by decide
  unfold ssdpListenerWithin
  dsimp only
  rw [hbuf]
  dsimp only
  rw [if_neg (by rw [hend]; decide), if_neg (by rw [hstr]; decide), hloop]

/-- **Exactly on a datagram with a byte does `ssdp_listener` return within 256 rounds of its
loop, and without an access outside `szBuffer` or to a string that does not end in it.** -/
theorem ssdp_listener_bounds (p : List Pbuf) (addr port : Nat) :
    (∃ sent, ssdpListenerWithin 256 p addr port = .returned sent) ↔ Pbuf.data p ≠ [] := by
  constructor
  · rintro ⟨sent, hsent⟩ hempty
    rw [ssdpListenerWithin_empty addr port hempty] at hsent
    cases hsent
  · intro hp
    rw [ssdpListenerWithin_eq 256 addr port hp (by decide)]
    split
    · exact ⟨_, rfl⟩
    · split
      · exact ⟨_, rfl⟩
      · exact ⟨_, rfl⟩

/-- An empty datagram makes the loop leave `szBuffer`. -/
theorem ssdp_listener_bounds_empty :
    ssdpListener [⟨[], 0⟩] 3232235777 1900 = .outOfBounds ∧
      ¬ ∃ sent, ssdpListenerWithin 256 [⟨[], 0⟩] 3232235777 1900 = .returned sent := by
  refine ⟨by decide +kernel, ?_⟩
  rintro ⟨sent, hsent⟩
  rw [ssdpListenerWithin_empty 3232235777 1900 rfl] at hsent
  cases hsent

/-! ## What is accepted -/

/-- The last MX line, when there is one, asks for a positive time. -/
def lastMxPositive (fields : List Bytes) : Bool :=
  match (fields.filter fun line => NamesField (ascii "MX:") line).getLast? with
  | some line => decide (0 < atol (line.drop 3))
  | none => false

/-- The lines of an M-SEARCH request that asks for this device. -/
def SearchRequest : List Bytes → Prop
  | [] => False
  | first :: fields =>
    NamesField (ascii "M-SEARCH") first ∧
      (∃ line ∈ fields, NamesField (ascii "Host:") line) ∧
      (∃ line ∈ fields, NamesField (ascii "ST:") line ∧
        (ascii "ssdp:all" <:+: line ∨ ascii "upnp:rootdevice" <:+: line)) ∧
      (∃ line ∈ fields, NamesField (ascii "Man:") line ∧ ascii "\"ssdp:discover\"" <:+: line) ∧
      lastMxPositive fields

instance : (lines : List Bytes) → Decidable (SearchRequest lines)
  | [] => inferInstanceAs (Decidable False)
  | _ :: _ => inferInstanceAs (Decidable (_ ∧ _))

/-- A name has no room for the start of a text that does not fit into it. -/
theorem infix_behind_name {name needle line : Bytes} (hname : NamesField name line)
    (hfit : ∀ j < name.length,
      (needle.take (name.length - j)).map toUpper ≠ (name.map toUpper).drop j)
    (hneedle : name.length ≤ needle.length) :
    needle <:+: line.drop name.length ↔ needle <:+: line := by
  refine ⟨fun h => h.trans (List.drop_suffix _ _).isInfix, ?_⟩
  rintro ⟨s, t, hst⟩
  rcases Nat.lt_or_ge s.length name.length with hs | hs
  · exfalso
    apply hfit s.length hs
    have hcut : needle.take (name.length - s.length) = (line.take name.length).drop s.length := by
      rw [← hst, List.append_assoc, List.take_append,
        List.take_of_length_le (show s.length ≤ name.length by omega), List.drop_left' rfl,
        List.take_append_of_le_length (by omega)]
    rw [hcut, List.map_drop, hname]
  · refine ⟨s.drop name.length, t, ?_⟩
    rw [← hst, List.append_assoc, List.append_assoc, List.drop_append_of_le_length hs]

theorem cstr_end (line : Bytes) : cstr (line ++ [0]) = cstr line := cstr_append_zeros line 1

theorem NamesField.length_le {name line : Bytes} (h : NamesField name line) :
    name.length ≤ line.length := by
  have hlen := congrArg List.length h
  rw [List.length_map, List.length_map, List.length_take] at hlen
  omega

/-- The text behind the name of a field is found in the line itself. -/
theorem strstr_field {name line : Bytes} (needle : Bytes) (hname : NamesField name (cstr line))
    (hfit : ∀ j < name.length,
      (needle.take (name.length - j)).map toUpper ≠ (name.map toUpper).drop j)
    (hneedle : name.length ≤ needle.length) :
    (strstr ((line ++ [0]).drop name.length) needle).isSome ↔ needle <:+: cstr line := by
  have hlong := hname.length_le
  rw [strstr, findSub_isSome_iff, cstr_drop (by rw [cstr_end]; exact hlong), cstr_end,
    infix_behind_name hname hfit hneedle]

/-- The number behind the name of a field. -/
theorem atol_field {name line : Bytes} (hname : NamesField name (cstr line)) :
    atol ((line ++ [0]).drop name.length) = atol ((cstr line).drop name.length) := by
  have hlong := hname.length_le
  have htext : cstr ((cstr line).drop name.length) = (cstr line).drop name.length := by
    rw [cstr_drop (by rw [cstr_cstr]; exact hlong), cstr_cstr]
  unfold atol
  rw [cstr_drop (by rw [cstr_end]; exact hlong), cstr_end, htext]

theorem hasPrefix_end {lit : Bytes} (hlit : NoNul lit) (line : Bytes) :
    hasPrefix (line ++ [0]) lit = true ↔ NamesField lit (cstr line) := by
  rw [hasPrefix_iff_namesField hlit, cstr_end]

/-- Two different names do not start one line. -/
theorem NamesField.take_eq {a b line : Bytes} (ha : NamesField a line) (hb : NamesField b line) :
    (a.take b.length).map toUpper = (b.take a.length).map toUpper := by
  rw [List.map_take, List.map_take, ← ha, ← hb, ← List.map_take, ← List.map_take, List.take_take,
    List.take_take, Nat.min_comm]

/-- The last of the MX lines, or what was there before them. -/
def mxOf (before : Int) (fields : List Bytes) : Int :=
  match (fields.filter fun line => NamesField (ascii "MX:") line).getLast? with
  | some line => atol (line.drop 3)
  | none => before

theorem mxOf_cons (before : Int) (line : Bytes) (fields : List Bytes) :
    mxOf before (line :: fields) =
      mxOf (if NamesField (ascii "MX:") line then atol (line.drop 3) else before) fields := by
  unfold mxOf
  rw [List.filter_cons]
  by_cases h : NamesField (ascii "MX:") line
  · rw [if_pos (by simpa using h), if_pos h, List.getLast?_cons]
    cases (fields.filter fun line => NamesField (ascii "MX:") line).getLast? <;> rfl
  · rw [if_neg (by simpa using h), if_neg h]

/-- What a line other than the first adds. -/
structure ReadLine (f g : SearchFields) (line : Bytes) : Prop where
  counted : g.line ≠ 0
  host : g.gotHost ↔ f.gotHost ∨ NamesField (ascii "Host:") line
  st : g.gotSt ↔ f.gotSt ∨ NamesField (ascii "ST:") line ∧
    (ascii "ssdp:all" <:+: line ∨ ascii "upnp:rootdevice" <:+: line)
  man : g.gotMan ↔ f.gotMan ∨ NamesField (ascii "Man:") line ∧ ascii "\"ssdp:discover\"" <:+: line
  mx : g.gotMx ↔ f.gotMx ∨ NamesField (ascii "MX:") line
  mxMin : g.ssdpMxMin = if NamesField (ascii "MX:") line then atol (line.drop 3) else f.ssdpMxMin

theorem read_field {f : SearchFields} (hf : f.line ≠ 0) (line : Bytes) :
    ∃ g, f.read (line ++ [0]) = some g ∧ ReadLine f g (cstr line) := by
  have hother : ∀ {a b : Bytes}, NamesField a (cstr line) →
      (a.take b.length).map toUpper ≠ (b.take a.length).map toUpper → ¬ NamesField b (cstr line) :=
    fun ha hne hb => hne (ha.take_eq hb)
  unfold SearchFields.read
  rw [if_neg hf]
  refine ⟨_, rfl, ?_⟩
  by_cases hhost : NamesField (ascii "Host:") (cstr line)
  · have hst := hother hhost (b := ascii "ST:") (by decide)
    have hman := hother hhost (b := ascii "Man:") (by decide)
    have hmx := hother hhost (b := ascii "MX:") (by decide)
    rw [if_pos ((hasPrefix_end (by decide) line).mpr hhost)]
    exact ⟨Nat.succ_ne_zero _, by simp [hhost], by simp [hst], by simp [hman], by simp [hmx],
      by simp [hmx]⟩
  rw [if_neg (fun h => hhost ((hasPrefix_end (by decide) line).mp h))]
  by_cases hst : NamesField (ascii "ST:") (cstr line)
  · have hman := hother hst (b := ascii "Man:") (by decide)
    have hmx := hother hst (b := ascii "MX:") (by decide)
    have hall := strstr_field (ascii "ssdp:all") hst (by decide) (by decide)
    have hroot := strstr_field (ascii "upnp:rootdevice") hst (by decide) (by decide)
    rw [if_pos ((hasPrefix_end (by decide) line).mpr hst)]
    change (strstr ((line ++ [0]).drop 3) _).isSome ↔ _ at hall hroot
    by_cases h1 : ascii "ssdp:all" <:+: cstr line
    · rw [if_pos (hall.mpr h1)]
      exact ⟨Nat.succ_ne_zero _, by simp [hhost], by simp [hst, h1], by simp [hman], by simp [hmx],
        by simp [hmx]⟩
    · rw [if_neg (fun h => h1 (hall.mp h))]
      by_cases h2 : ascii "upnp:rootdevice" <:+: cstr line
      · rw [if_pos (hroot.mpr h2)]
        exact ⟨Nat.succ_ne_zero _, by simp [hhost], by simp [hst, h2], by simp [hman],
          by simp [hmx], by simp [hmx]⟩
      · rw [if_neg (fun h => h2 (hroot.mp h))]
        exact ⟨Nat.succ_ne_zero _, by simp [hhost], by simp [h1, h2], by simp [hman], by simp [hmx],
          by simp [hmx]⟩
  rw [if_neg (fun h => hst ((hasPrefix_end (by decide) line).mp h))]
  by_cases hman : NamesField (ascii "Man:") (cstr line)
  · have hmx := hother hman (b := ascii "MX:") (by decide)
    have hdiscover := strstr_field (ascii "\"ssdp:discover\"") hman (by decide) (by decide)
    change (strstr ((line ++ [0]).drop 4) _).isSome ↔ _ at hdiscover
    rw [if_pos ((hasPrefix_end (by decide) line).mpr hman)]
    by_cases h1 : ascii "\"ssdp:discover\"" <:+: cstr line
    · rw [if_pos (hdiscover.mpr h1)]
      exact ⟨Nat.succ_ne_zero _, by simp [hhost], by simp [hst], by simp [hman, h1], by simp [hmx],
        by simp [hmx]⟩
    · rw [if_neg (fun h => h1 (hdiscover.mp h))]
      exact ⟨Nat.succ_ne_zero _, by simp [hhost], by simp [hst], by simp [h1], by simp [hmx],
        by simp [hmx]⟩
  rw [if_neg (fun h => hman ((hasPrefix_end (by decide) line).mp h))]
  by_cases hmx : NamesField (ascii "MX:") (cstr line)
  · have hvalue := atol_field hmx
    change atol ((line ++ [0]).drop 3) = atol ((cstr line).drop 3) at hvalue
    rw [if_pos ((hasPrefix_end (by decide) line).mpr hmx)]
    exact ⟨Nat.succ_ne_zero _, by simp [hhost], by simp [hst], by simp [hman], by simp [hmx],
      by simp [hmx, hvalue]⟩
  · rw [if_neg (fun h => hmx ((hasPrefix_end (by decide) line).mp h))]
    exact ⟨Nat.succ_ne_zero _, by simp [hhost], by simp [hst], by simp [hman], by simp [hmx],
      by simp [hmx]⟩

/-- What all the lines behind the first one have said. -/
theorem readAll_fields {f : SearchFields} (hf : f.line ≠ 0) (lines : List Bytes) :
    ∃ g, f.readAll lines = some g ∧
      (g.gotHost ↔ f.gotHost ∨ ∃ line ∈ lines.map cstr, NamesField (ascii "Host:") line) ∧
      (g.gotSt ↔ f.gotSt ∨ ∃ line ∈ lines.map cstr, NamesField (ascii "ST:") line ∧
        (ascii "ssdp:all" <:+: line ∨ ascii "upnp:rootdevice" <:+: line)) ∧
      (g.gotMan ↔ f.gotMan ∨ ∃ line ∈ lines.map cstr, NamesField (ascii "Man:") line ∧
        ascii "\"ssdp:discover\"" <:+: line) ∧
      (g.gotMx ↔ f.gotMx ∨ ∃ line ∈ lines.map cstr, NamesField (ascii "MX:") line) ∧
      g.ssdpMxMin = mxOf f.ssdpMxMin (lines.map cstr) := by
  induction lines generalizing f with
  | nil => exact ⟨f, rfl, by simp, by simp, by simp, by simp, rfl⟩
  | cons line lines ih =>
    obtain ⟨g, hg, hline⟩ := read_field hf line
    obtain ⟨e, he, hhost, hst, hman, hmx, hmin⟩ := ih hline.counted
    refine ⟨e, ?_, ?_, ?_, ?_, ?_, ?_⟩
    · rw [SearchFields.readAll, hg]
      exact he
    · rw [hhost, hline.host, List.map_cons, List.exists_mem_cons_iff, or_assoc]
    · rw [hst, hline.st, List.map_cons, List.exists_mem_cons_iff, or_assoc]
    · rw [hman, hline.man, List.map_cons, List.exists_mem_cons_iff, or_assoc]
    · rw [hmx, hline.mx, List.map_cons, List.exists_mem_cons_iff, or_assoc]
    · rw [hmin, hline.mxMin, List.map_cons, mxOf_cons]

/-- A positive `MX` value comes from an MX line. -/
theorem mxOf_pos_iff (fields : List Bytes) :
    ((∃ line ∈ fields, NamesField (ascii "MX:") line) ∧ 0 < mxOf 0 fields) ↔
      lastMxPositive fields = true := by
  unfold mxOf lastMxPositive
  cases hlast : (fields.filter fun line => NamesField (ascii "MX:") line).getLast? with
  | none =>
    constructor
    · intro h
      exact absurd h.2 (lt_irrefl 0)
    · intro h
      cases h
  | some last =>
    constructor
    · intro h
      exact decide_eq_true h.2
    · intro hpos
      have hmem := List.mem_of_getLast? hlast
      rw [List.mem_filter] at hmem
      exact ⟨⟨last, hmem.1, by simpa using hmem.2⟩, of_decide_eq_true hpos⟩

/-- The fields of a whole datagram are accepted when its lines are a search request. -/
theorem readAll_accepted (lines : List Bytes) :
    (∃ g, SearchFields.none.readAll lines = some g ∧ g.accepted = true) ↔
      SearchRequest (lines.map cstr) := by
  cases lines with
  | nil =>
    constructor
    · rintro ⟨g, hg, hacc⟩
      cases hg
      cases hacc
    · intro h
      cases h
  | cons first lines =>
    have hfirst : SearchFields.none.read (first ++ [0]) =
        if hasPrefix (first ++ [0]) (ascii "M-SEARCH") then
          some ⟨1, false, false, false, false, 0⟩
        else none := rfl
    rw [SearchFields.readAll, hfirst, List.map_cons, SearchRequest]
    by_cases hsearch : NamesField (ascii "M-SEARCH") (cstr first)
    · rw [if_pos ((hasPrefix_end (by decide) first).mpr hsearch), Option.bind_some]
      obtain ⟨g, hg, hhost, hst, hman, hmx, hmin⟩ :=
        readAll_fields (f := ⟨1, false, false, false, false, 0⟩) Nat.one_ne_zero lines
      have hacc : g.accepted = true ↔
          g.gotHost ∧ g.gotSt ∧ g.gotMan ∧ g.gotMx ∧ 0 < g.ssdpMxMin := by
        simp only [SearchFields.accepted, Bool.and_eq_true, decide_eq_true_eq, and_assoc]
      have hnone : ∀ {P : Prop}, (false = true ∨ P) ↔ P := by simp
      rw [hhost, hst, hman, hmx, hmin, hnone, hnone, hnone, hnone, mxOf_pos_iff] at hacc
      rw [hg]
      constructor
      · rintro ⟨e, he, haccepted⟩
        cases he
        exact ⟨hsearch, hacc.mp haccepted⟩
      · intro h
        exact ⟨g, rfl, hacc.mpr h.2⟩
    · rw [if_neg (fun h => hsearch ((hasPrefix_end (by decide) first).mp h))]
      constructor
      · rintro ⟨g, hg, -⟩
        cases hg
      · intro h
        exact absurd h.1 hsearch

/-- **`ssdp_listener` answers an M-SEARCH request with one reply to its sender, and nothing
else; a datagram with `NOTIFY ` in its text is not looked at, and a NUL ends a line.** -/
theorem ssdp_listener_reply (p : List Pbuf) (addr port : Nat) (hpos : 1 ≤ (Pbuf.data p).length)
    (hlen : (Pbuf.data p).length ≤ 252) :
    (SearchRequest ((crlfLines [] (Pbuf.data p)).map cstr) ∧
        ¬ ascii "NOTIFY " <:+: cstr (Pbuf.data p) →
      ssdpListener p addr port = .returned [⟨.msearchReply, addr, port⟩]) ∧
    (¬ (SearchRequest ((crlfLines [] (Pbuf.data p)).map cstr) ∧
        ¬ ascii "NOTIFY " <:+: cstr (Pbuf.data p)) →
      ssdpListener p addr port = .returned []) := by
  have hp : Pbuf.data p ≠ [] := List.length_pos_iff.mp hpos
  have heq := ssdpListenerWithin_eq (szBufferSize + 1) addr port hp (by decide)
  rw [List.take_of_length_le hlen] at heq
  have hread := readAll_accepted (crlfLines [] (Pbuf.data p))
  unfold ssdpListener
  rw [heq]
  constructor
  · rintro ⟨hrequest, hnotify⟩
    obtain ⟨g, hg, hacc⟩ := hread.mpr hrequest
    rw [if_neg hnotify, hg]
    dsimp only
    rw [if_pos hacc]
  · intro h
    by_cases hnotify : ascii "NOTIFY " <:+: cstr (Pbuf.data p)
    · rw [if_pos hnotify]
    · rw [if_neg hnotify]
      cases hg : SearchFields.none.readAll (crlfLines [] (Pbuf.data p)) with
      | none => rfl
      | some g =>
        have hacc : ¬ g.accepted = true := fun hacc => h ⟨hread.mp ⟨g, hg, hacc⟩, hnotify⟩
        dsimp only
        rw [if_neg hacc]

/-- An M-SEARCH datagram of a control point. -/
def searchDatagram : Bytes :=
  ascii "M-SEARCH * HTTP/1.1\r\nHost: 239.255.255.250:1900\r\nMan: \"ssdp:discover\"\r\nMX: 3\r\nST: ssdp:all\r\n\r\n"

theorem ssdp_listener_reply_search :
    ssdpListener [⟨searchDatagram, 96⟩] 3232235777 50000 =
      .returned [⟨.msearchReply, 3232235777, 50000⟩] :=
  (ssdp_listener_reply [⟨searchDatagram, 96⟩] 3232235777 50000 (by decide)
    (by decide +kernel)).1 (by decide +kernel)

/-- The same request with a line that mentions `NOTIFY `. -/
def notifyDatagram : Bytes :=
  ascii "M-SEARCH * HTTP/1.1\r\nHost: 239.255.255.250:1900\r\nMan: \"ssdp:discover\"\r\nMX: 3\r\nST: ssdp:all\r\nX: NOTIFY me\r\n\r\n"

/-- The same request with a NUL in front of the search target. -/
def nulDatagram : Bytes :=
  ascii "M-SEARCH * HTTP/1.1\r\nHost: 239.255.255.250:1900\r\nMan: \"ssdp:discover\"\r\nMX: 3\r\nST: " ++
    0 :: ascii "ssdp:all\r\n\r\n"

/-- The same request with its first line in small letters. -/
def smallDatagram : Bytes :=
  ascii "m-search * HTTP/1.1\r\nHost: 239.255.255.250:1900\r\nMan: \"ssdp:discover\"\r\nMX: 3\r\nST: ssdp:all\r\n\r\n"

/-- Two search requests are not answered, because of a `NOTIFY ` anywhere in the text and
because of a NUL in a line; and a first line in small letters is taken for an M-SEARCH. -/
theorem ssdp_listener_reply_exceptions :
    (SearchRequest (crlfLines [] notifyDatagram) ∧ notifyDatagram.length ≤ 252 ∧
      ssdpListener [⟨notifyDatagram, 110⟩] 3232235777 50000 = .returned []) ∧
    (SearchRequest (crlfLines [] nulDatagram) ∧ nulDatagram.length ≤ 252 ∧
      ssdpListener [⟨nulDatagram, 97⟩] 3232235777 50000 = .returned []) ∧
    (¬ ascii "M-SEARCH" <+: smallDatagram ∧ smallDatagram.length ≤ 252 ∧
      ssdpListener [⟨smallDatagram, 96⟩] 3232235777 50000 =
        .returned [⟨.msearchReply, 3232235777, 50000⟩]) := by
  decide +kernel

end Httpd
