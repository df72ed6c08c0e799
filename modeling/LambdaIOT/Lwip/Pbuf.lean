import LambdaIOT.Lib.Bytes

/-!
# Packet buffers

A `struct pbuf` chain is the list of its pbufs. `tot_len` is kept in each pbuf, as
lwIP keeps it: `pbuf_cat` and the receive queue of the server both write it by
hand, so that it agrees with the payloads is a theorem and not a definition.
`tot_len` and `len` are `u16_t`.
-/

namespace Lwip

open CMem

/-- `struct pbuf`; the next pbuf of the chain is the next of the list. -/
structure Pbuf where
  payload : Bytes
  totLen : Nat
  deriving DecidableEq, Repr

/-- A `u16_t` conversion. -/
def u16 (n : Nat) : Nat := n % 65536

namespace Pbuf

def len (p : Pbuf) : Nat := p.payload.length

/-- `tot_len` of a chain; the null pointer counts as none. -/
def chainTotLen : List Pbuf → Nat
  | [] => 0
  | p :: _ => p.totLen

/-- The bytes a chain carries. -/
def data (c : List Pbuf) : Bytes := (c.map payload).flatten

/-- Every pbuf carries bytes, and `tot_len = len + next->tot_len` along the chain. -/
def Chained : List Pbuf → Prop
  | [] => True
  | p :: rest => 0 < p.len ∧ p.totLen = p.len + chainTotLen rest ∧ Chained rest

instance decidableChained : (c : List Pbuf) → Decidable (Chained c)
  | [] => inferInstanceAs (Decidable True)
  | p :: rest =>
    have := decidableChained rest
    inferInstanceAs (Decidable (0 < p.len ∧ p.totLen = p.len + chainTotLen rest ∧ Chained rest))

/-- `tot_len = len + next->tot_len` along the chain, whose pbufs may be empty. -/
def Totalled : List Pbuf → Prop
  | [] => True
  | p :: rest => p.totLen = p.len + chainTotLen rest ∧ Totalled rest

instance decidableTotalled : (c : List Pbuf) → Decidable (Totalled c)
  | [] => inferInstanceAs (Decidable True)
  | p :: rest =>
    have := decidableTotalled rest
    inferInstanceAs (Decidable (p.totLen = p.len + chainTotLen rest ∧ Totalled rest))

/-- The chain with the given payloads. -/
def ofPayloads : List Bytes → List Pbuf
  | [] => []
  | b :: bs => ⟨b, b.length + bs.flatten.length⟩ :: ofPayloads bs

/-- `pbuf_cat(h, t)`: every pbuf of `h` gets the total of `t` added. -/
def pbufCat (h t : List Pbuf) : List Pbuf :=
  h.map (fun p => { p with totLen := u16 (p.totLen + chainTotLen t) }) ++ t

/-- `pbuf_copy_partial(c, _, len, offset)`: the bytes it copies. -/
def pbufCopyPartial : List Pbuf → Nat → Nat → Bytes
  | [], _, _ => []
  | p :: rest, len, offset =>
    if len = 0 then []
    else if offset ≠ 0 ∧ p.len ≤ offset then pbufCopyPartial rest len (offset - p.len)
    else
      let n := min (p.len - offset) len
      load p.payload offset n ++ pbufCopyPartial rest (len - n) 0

/-! ## Lemmas -/

@[simp] theorem data_nil : data [] = [] := rfl

@[simp] theorem chainTotLen_nil : chainTotLen [] = 0 := rfl

@[simp] theorem data_cons (p : Pbuf) (rest : List Pbuf) :
    data (p :: rest) = p.payload ++ data rest := rfl

@[simp] theorem data_append (c d : List Pbuf) : data (c ++ d) = data c ++ data d := by
  simp [data]

theorem Chained.totalled {c : List Pbuf} (h : Chained c) : Totalled c := by
  induction c with
  | nil => exact trivial
  | cons p rest ih =>
    obtain ⟨-, htot, hrest⟩ := h
    exact ⟨htot, ih hrest⟩

/-- The total of a chain is the number of bytes in it. -/
theorem Totalled.chainTotLen {c : List Pbuf} (h : Totalled c) :
    chainTotLen c = (data c).length := by
  induction c with
  | nil => rfl
  | cons p rest ih =>
    obtain ⟨htot, hrest⟩ := h
    rw [Pbuf.chainTotLen, htot, ih hrest, data_cons, List.length_append, len]

theorem chainTotLen_eq {c : List Pbuf} (h : Chained c) : chainTotLen c = (data c).length :=
  h.totalled.chainTotLen

theorem data_ofPayloads (bs : List Bytes) : data (ofPayloads bs) = bs.flatten := by
  induction bs with
  | nil => rfl
  | cons b bs ih => rw [ofPayloads, data_cons, ih, List.flatten_cons]

theorem chainTotLen_ofPayloads (bs : List Bytes) :
    chainTotLen (ofPayloads bs) = bs.flatten.length := by
  cases bs with
  | nil => rfl
  | cons b bs => rw [ofPayloads, chainTotLen, List.flatten_cons, List.length_append]

/-- Chains of non-empty payloads are well linked. -/
theorem chained_ofPayloads {bs : List Bytes} (h : ∀ b ∈ bs, b ≠ []) : Chained (ofPayloads bs) := by
  induction bs with
  | nil => exact trivial
  | cons b bs ih =>
    refine ⟨List.length_pos_iff.mpr (h b (List.mem_cons_self ..)), ?_,
      ih fun c hc => h c (List.mem_cons_of_mem _ hc)⟩
    rw [chainTotLen_ofPayloads]
    rfl

@[simp] theorem data_pbufCat (h t : List Pbuf) : data (pbufCat h t) = data h ++ data t := by
  rw [pbufCat, data_append]
  congr 1
  simp only [data, List.map_map]
  rfl

/-- `pbuf_cat` keeps chains well linked as long as the total fits its field. -/
theorem chained_pbufCat {h t : List Pbuf} (hh : Chained h) (ht : Chained t)
    (hfit : (data h).length + (data t).length < 65536) : Chained (pbufCat h t) := by
  have htot : chainTotLen t = (data t).length := chainTotLen_eq ht
  induction h with
  | nil => exact ht
  | cons p rest ih =>
    obtain ⟨hpos, hlink, hrest⟩ := hh
    rw [data_cons, List.length_append] at hfit
    have hrec : Chained (pbufCat rest t) := ih hrest (by omega)
    have hnext : chainTotLen (pbufCat rest t) = (data rest).length + (data t).length := by
      rw [chainTotLen_eq hrec, data_pbufCat, List.length_append]
    have hold : chainTotLen rest = (data rest).length := chainTotLen_eq hrest
    refine ⟨hpos, ?_, hrec⟩
    change u16 (p.totLen + chainTotLen t) = p.len + chainTotLen (pbufCat rest t)
    rw [hlink, hold, hnext, htot, u16, Nat.mod_eq_of_lt]
    · omega
    · simp only [len] at hpos ⊢
      omega

/-- `pbuf_copy_partial` reads the chain as one array. -/
theorem pbufCopyPartial_eq {c : List Pbuf} {n off : Nat} :
    pbufCopyPartial c n off = load (data c) off n := by
  induction c generalizing n off with
  | nil => simp [pbufCopyPartial, load]
  | cons p rest ih =>
    rw [pbufCopyPartial]
    split
    · rename_i h0
      rw [h0, load, List.take_zero]
    · split
      · rename_i h
        rw [ih, data_cons, load, load, List.drop_append, List.drop_of_length_le h.2,
          List.nil_append]
        rfl
      · rename_i h
        have hle : off ≤ p.payload.length := by
          simp only [len] at h
          omega
        show load p.payload off (min (p.len - off) n) ++
            pbufCopyPartial rest (n - min (p.len - off) n) 0 = _
        rw [ih, data_cons, load, load, load, List.drop_zero,
          List.drop_append_of_le_length hle, List.take_append, List.length_drop, len]
        congr 1
        · rcases Nat.le_total (p.payload.length - off) n with hn | hn
          · rw [Nat.min_eq_left hn, List.take_of_length_le (by rw [List.length_drop]),
              List.take_of_length_le (by rw [List.length_drop]; exact hn)]
          · rw [Nat.min_eq_right hn]
        · congr 1
          omega

end Pbuf

end Lwip
