import Mathlib.Data.List.Basic
import Mathlib.Data.List.TakeWhile

/-!
# Byte memory and C strings

A C object of type `char[n]` is a list of `n` bytes. `load` and `store` are the
two accesses (`memcpy` out of and into it); a store never changes the length, so
the part of it that would fall behind the end is dropped. `cstr` is the
NUL-terminated string that starts at the first byte.

The lemmas say how the two accesses and the string reader compose; every proof
about a buffer goes through them and never unfolds `store`.
-/

namespace CMem

/-- Contents of a byte array. -/
abbrev Bytes := List UInt8

/-- The bytes of a string literal. -/
def ascii (s : String) : Bytes := s.toList.map fun c => c.toNat.toUInt8

/-- The C string that starts at the first byte of `m` (its end is the first NUL,
or the end of the memory). -/
def cstr (m : Bytes) : Bytes := m.takeWhile (· != 0)

/-- Read `n` bytes at offset `off`. -/
def load (m : Bytes) (off n : Nat) : Bytes := (m.drop off).take n

/-- Write `bs` at offset `off`; what lies behind the end of `m` is dropped. -/
def store (m : Bytes) (off : Nat) (bs : Bytes) : Bytes :=
  (m.take off ++ bs ++ m.drop (off + bs.length)).take m.length

/-! ## Stores -/

@[simp] theorem length_store (m : Bytes) (off : Nat) (bs : Bytes) :
    (store m off bs).length = m.length := by
  simp only [store, List.length_take, List.length_append, List.length_drop]
  omega

/-- A store that fits is plain splicing. -/
theorem store_eq {m : Bytes} {off : Nat} {bs : Bytes} (h : off + bs.length ≤ m.length) :
    store m off bs = m.take off ++ bs ++ m.drop (off + bs.length) := by
  refine List.take_of_length_le ?_
  simp only [List.length_append, List.length_take, List.length_drop]
  omega

@[simp] theorem store_nil (m : Bytes) (off : Nat) : store m off [] = m := by
  simp [store]

/-- What was stored is read back. -/
theorem load_store_self {m : Bytes} {off : Nat} {bs : Bytes} (h : off + bs.length ≤ m.length) :
    load (store m off bs) off bs.length = bs := by
  have hlen : (m.take off).length = off := by
    rw [List.length_take]; omega
  rw [store_eq h, load, List.append_assoc, List.drop_append_of_le_length (by omega),
    List.drop_of_length_le (by omega), List.nil_append, List.take_left']
  rfl

/-- Bytes in front of a store keep their values. -/
theorem take_store {m : Bytes} {off n : Nat} {bs : Bytes} (hn : n ≤ off) :
    (store m off bs).take n = m.take n := by
  rcases Nat.lt_or_ge m.length off with hoff | hoff
  · rw [store, List.take_of_length_le (Nat.le_of_lt hoff),
      List.drop_of_length_le (by omega), List.append_nil, List.take_left']
    rfl
  · rw [store, List.take_take, List.append_assoc,
      List.take_append_of_le_length (by rw [List.length_take]; omega), List.take_take]
    congr 1
    omega

/-- Bytes behind a store keep their values. -/
theorem drop_store {m : Bytes} {off n : Nat} {bs : Bytes} (hn : off + bs.length ≤ n) :
    (store m off bs).drop n = m.drop n := by
  rcases Nat.lt_or_ge m.length (off + bs.length) with hlt | hge
  · rw [List.drop_of_length_le (by rw [length_store]; omega),
      List.drop_of_length_le (by omega)]
  · rw [store_eq hge, List.drop_append]
    have hl : (m.take off ++ bs).length = off + bs.length := by
      rw [List.length_append, List.length_take]; omega
    rw [List.drop_of_length_le (by omega), List.nil_append, hl, List.drop_drop]
    congr 1
    omega

/-- A read in front of a store. -/
theorem load_store_before {m : Bytes} {off a n : Nat} {bs : Bytes} (h : a + n ≤ off) :
    load (store m off bs) a n = load m a n := by
  have key : ∀ l : Bytes, (l.drop a).take n = (l.take (a + n)).drop a := by
    intro l
    rw [List.drop_take]
    congr 1
    omega
  rw [load, load, key, key, take_store h]

/-- A read behind a store. -/
theorem load_store_after {m : Bytes} {off a n : Nat} {bs : Bytes} (h : off + bs.length ≤ a) :
    load (store m off bs) a n = load m a n := by
  rw [load, load, drop_store h]

/-- A store of two pieces is two stores. -/
theorem store_append {m : Bytes} {off : Nat} {as bs : Bytes}
    (h : off + as.length + bs.length ≤ m.length) :
    store (store m off as) (off + as.length) bs = store m off (as ++ bs) := by
  have h1 : off + as.length ≤ m.length := by omega
  have hl : (m.take off ++ as).length = off + as.length := by
    rw [List.length_append, List.length_take]; omega
  have h2 : off + (as ++ bs).length ≤ m.length := by
    rw [List.length_append]; omega
  rw [store_eq (m := store m off as) (by rw [length_store]; exact h), store_eq h1, store_eq h2,
    List.take_append_of_le_length (by omega), List.take_of_length_le (by omega)]
  have hd : (m.take off ++ as ++ m.drop (off + as.length)).drop (off + as.length + bs.length)
      = m.drop (off + (as ++ bs).length) := by
    rw [List.drop_append, List.drop_of_length_le (by omega), List.nil_append, hl,
      List.drop_drop, List.length_append]
    congr 1
    omega
  rw [hd, List.append_assoc (m.take off) as bs]

/-! ## Reads -/

theorem length_load {m : Bytes} {off n : Nat} (h : off + n ≤ m.length) :
    (load m off n).length = n := by
  rw [load, List.length_take, List.length_drop]
  omega

theorem load_zero (m : Bytes) (n : Nat) : load m 0 n = m.take n := rfl

/-- Consecutive reads concatenate. -/
theorem load_add (m : Bytes) (off a b : Nat) :
    load m off (a + b) = load m off a ++ load m (off + a) b := by
  rw [load, load, load, ← List.drop_drop, List.take_add]

/-! ## C strings -/

/-- `s` contains no NUL. -/
def NoNul (s : Bytes) : Prop := ∀ b ∈ s, b ≠ 0

instance (s : Bytes) : Decidable (NoNul s) := List.decidableBAll (fun b => b ≠ 0) s

theorem NoNul.append {s t : Bytes} (hs : NoNul s) (ht : NoNul t) : NoNul (s ++ t) := by
  intro b hb
  rcases List.mem_append.mp hb with h | h
  · exact hs b h
  · exact ht b h

theorem noNul_cstr (m : Bytes) : NoNul (cstr m) := by
  intro b hb
  have := List.mem_takeWhile_imp hb
  simpa using this

theorem length_cstr_le (m : Bytes) : (cstr m).length ≤ m.length :=
  (List.takeWhile_sublist _).length_le

/-- Reading back a string with its terminator. -/
theorem cstr_append_nul {s : Bytes} (hs : NoNul s) (t : Bytes) : cstr (s ++ 0 :: t) = s := by
  induction s with
  | nil => rfl
  | cons b s ih =>
    have hb : b ≠ 0 := hs b (List.mem_cons_self ..)
    have hs' : NoNul s := fun c hc => hs c (List.mem_cons_of_mem _ hc)
    rw [List.cons_append, cstr, List.takeWhile_cons_of_pos (by simpa using hb)]
    exact congrArg _ (ih hs')

/-- A string without a NUL is its own C string. -/
theorem cstr_eq_self {s : Bytes} (hs : NoNul s) : cstr s = s :=
  List.takeWhile_eq_self_iff.mpr fun b hb => by simpa using hs b hb

/-- A memory is its C string followed by what starts with the terminator. -/
theorem cstr_append_drop (m : Bytes) : cstr m ++ m.drop (cstr m).length = m := by
  induction m with
  | nil => rfl
  | cons b m ih =>
    by_cases hb : b = 0
    · subst hb
      rfl
    · have hc : cstr (b :: m) = b :: cstr m :=
        List.takeWhile_cons_of_pos (by simpa using hb)
      rw [hc]
      exact congrArg _ ih

theorem take_length_cstr (m : Bytes) : m.take (cstr m).length = cstr m := by
  have h := congrArg (List.take (cstr m).length) (cstr_append_drop m)
  rw [List.take_left] at h
  exact h.symm

/-- A string that ends inside the first `n` bytes. -/
theorem cstr_take {m : Bytes} {n : Nat} (h : (cstr (m.take n)).length < (m.take n).length) :
    cstr (m.take n) = cstr m := by
  have hsplit : cstr m = cstr (m.take n ++ m.drop n) := by rw [List.take_append_drop]
  rw [hsplit]
  exact (List.takeWhile_append.trans (if_neg (Nat.ne_of_lt h))).symm

/-- `strcat`: writing `bs` and a NUL at the end of the string appends `bs`. -/
theorem cstr_store_end {m bs : Bytes} (hbs : NoNul bs)
    (h : (cstr m).length + bs.length + 1 ≤ m.length) :
    cstr (store m (cstr m).length (bs ++ [0])) = cstr m ++ bs := by
  rw [store_eq (by simp only [List.length_append, List.length_singleton]; omega),
    take_length_cstr]
  have : cstr m ++ (bs ++ [0]) ++ m.drop ((cstr m).length + (bs ++ [0]).length)
      = (cstr m ++ bs) ++ 0 :: m.drop ((cstr m).length + (bs ++ [0]).length) := by
    simp only [List.append_assoc, List.singleton_append]
  rw [this]
  exact cstr_append_nul ((noNul_cstr m).append hbs) _

/-- `sprintf` at the start of the buffer replaces the string. -/
theorem cstr_store_zero {m bs : Bytes} (hbs : NoNul bs) (h : bs.length + 1 ≤ m.length) :
    cstr (store m 0 (bs ++ [0])) = bs := by
  rw [store_eq (by simp only [List.length_append, List.length_singleton]; omega)]
  have : m.take 0 ++ (bs ++ [0]) ++ m.drop (0 + (bs ++ [0]).length)
      = bs ++ 0 :: m.drop (0 + (bs ++ [0]).length) := by
    simp only [List.take_zero, List.nil_append, List.append_assoc, List.singleton_append]
  rw [this]
  exact cstr_append_nul hbs _

/-! ## Memories in two parts -/

/-- A string behind a text without a NUL. -/
theorem cstr_append {s : Bytes} (hs : NoNul s) (t : Bytes) : cstr (s ++ t) = s ++ cstr t :=
  List.takeWhile_append_of_pos fun c hc => by simpa using hs c hc

/-- What lies behind a NUL is not part of the string. -/
theorem cstr_before_nul (d t : Bytes) : cstr (d ++ 0 :: t) = cstr d := by
  induction d with
  | nil => rfl
  | cons b d ih =>
    unfold cstr at ih ⊢
    rw [List.cons_append, List.takeWhile_cons, List.takeWhile_cons, ih]

theorem cstr_append_zeros (s : Bytes) (n : Nat) : cstr (s ++ List.replicate n 0) = cstr s := by
  cases n with
  | zero => rw [List.replicate_zero, List.append_nil]
  | succ n => rw [List.replicate_succ, cstr_before_nul]

theorem cstr_cstr (m : Bytes) : cstr (cstr m) = cstr m := cstr_eq_self (noNul_cstr m)

/-- A string that ends inside its memory, and what lies behind it. -/
theorem cstr_nul {m : Bytes} (h : (cstr m).length < m.length) :
    ∃ behind, m = cstr m ++ 0 :: behind := by
  induction m with
  | nil => exact absurd h (lt_irrefl _)
  | cons b m ih =>
    by_cases hb : b = 0
    · rw [hb]
      exact ⟨m, rfl⟩
    · have hcons : cstr (b :: m) = b :: cstr m := List.takeWhile_cons_of_pos (by simpa using hb)
      rw [hcons, List.length_cons, List.length_cons] at h
      obtain ⟨behind, hbehind⟩ := ih (Nat.lt_of_succ_lt_succ h)
      refine ⟨behind, ?_⟩
      rw [hcons, List.cons_append, ← hbehind]

/-- The rest of a string. -/
theorem cstr_drop {m : Bytes} {k : Nat} (hk : k ≤ (cstr m).length) :
    cstr (m.drop k) = (cstr m).drop k := by
  induction m generalizing k with
  | nil => rw [List.drop_nil]; exact (List.drop_nil).symm
  | cons b m ih =>
    cases k with
    | zero => rfl
    | succ k =>
      have hb : (b != 0) = true := by
        by_contra h
        rw [cstr, List.takeWhile_cons, if_neg h] at hk
        exact absurd hk (Nat.not_succ_le_zero k)
      have hcons : cstr (b :: m) = b :: cstr m := by
        rw [cstr, List.takeWhile_cons, if_pos hb]
        rfl
      rw [hcons] at hk ⊢
      rw [List.drop_succ_cons, List.drop_succ_cons, ih (Nat.le_of_succ_le_succ hk)]

/-- One byte written over another. -/
theorem store_byte (a b : Bytes) (x y : UInt8) {k : Nat} (hk : k = a.length) :
    store (a ++ x :: b) k [y] = a ++ y :: b := by
  rw [hk, store_eq (by rw [List.length_append, List.length_singleton, List.length_cons]; omega),
    List.take_left, List.drop_append]
  simp

/-- A write into the first part of a memory. -/
theorem store_append_left {e bs : Bytes} {k : Nat} (t : Bytes) (h : k + bs.length ≤ e.length) :
    store (e ++ t) k bs = store e k bs ++ t := by
  rw [store_eq (by rw [List.length_append]; omega), store_eq h,
    List.take_append_of_le_length (by omega), List.drop_append_of_le_length h,
    List.append_assoc, List.append_assoc, List.append_assoc]

/-- A write into the second part. -/
theorem store_behind {e : Bytes} (m : Bytes) {k n : Nat} (bs : Bytes) (hk : k = e.length + n)
    (h : n + bs.length ≤ m.length) : store (e ++ m) k bs = e ++ store m n bs := by
  rw [hk, store_eq (by rw [List.length_append]; omega), store_eq h, List.take_append,
    List.take_of_length_le (show e.length ≤ e.length + n by omega), Nat.add_sub_cancel_left,
    List.drop_append, List.drop_of_length_le (show e.length ≤ e.length + n + bs.length by omega),
    List.nil_append, List.append_assoc, List.append_assoc, List.append_assoc]
  congr 4
  omega

theorem load_append_left {e : Bytes} {k n : Nat} (t : Bytes) (h : k + n ≤ e.length) :
    load (e ++ t) k n = load e k n := by
  rw [load, load, List.drop_append_of_le_length (by omega),
    List.take_append_of_le_length (by rw [List.length_drop]; omega)]

end CMem
