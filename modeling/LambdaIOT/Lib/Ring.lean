import Mathlib.Data.List.Basic
import Mathlib.Data.List.TakeDrop

/-!
# Rings with two indices

A ring of `n` slots between a producer and a consumer: `produce` is the slot the
producer fills next, `consume` the one the consumer takes next, and equal indices
mean empty. No counter is kept, so that a ring holds at most `n - 1` items: one more
`publish` makes the indices equal and the ring reads as empty.
-/

/-- The slots and the two indices, both inside the ring. -/
structure SlotRing (α : Type) where
  slots : List α
  consume : Nat
  produce : Nat
  consume_lt : consume < slots.length
  produce_lt : produce < slots.length
  deriving DecidableEq, Repr

namespace SlotRing

variable {α : Type}

/-- The index after `i` in a ring of `n` slots. -/
def next (n i : Nat) : Nat := if i + 1 = n then 0 else i + 1

theorem next_lt {n i : Nat} (h : i < n) : next n i < n := by
  rw [next]
  split <;> omega

/-- No index of a ring of two slots or more is its own successor. -/
theorem next_ne {n i : Nat} (h : 1 < n) : next n i ≠ i := by
  rw [next]
  split <;> omega

/-- The number of slots. -/
def size (r : SlotRing α) : Nat := r.slots.length

/-- The ring of the given slots with both indices at the first one. -/
def start (slots : List α) (h : 0 < slots.length) : SlotRing α := ⟨slots, 0, 0, h, h⟩

/-- The slots from index `c` on up to index `p`, going around the end of the array. -/
def between (slots : List α) (c p : Nat) : List α :=
  if c ≤ p then (slots.drop c).take (p - c) else slots.drop c ++ slots.take p

/-- The items between the two indices, in the order in which they were published. -/
def toList (r : SlotRing α) : List α := between r.slots r.consume r.produce

/-- What the consumer takes next. -/
def front (r : SlotRing α) : α := r.slots.get ⟨r.consume, r.consume_lt⟩

/-- What the producer's slot holds. -/
def spare (r : SlotRing α) : α := r.slots.get ⟨r.produce, r.produce_lt⟩

/-- The producer fills its slot; nothing is published. -/
def fill (r : SlotRing α) (x : α) : SlotRing α where
  slots := r.slots.set r.produce x
  consume := r.consume
  produce := r.produce
  consume_lt := by
    rw [List.length_set]
    exact r.consume_lt
  produce_lt := by
    rw [List.length_set]
    exact r.produce_lt

/-- The producer hands its slot over. -/
def publish (r : SlotRing α) : SlotRing α where
  slots := r.slots
  consume := r.consume
  produce := next r.slots.length r.produce
  consume_lt := r.consume_lt
  produce_lt := next_lt r.produce_lt

/-- The consumer releases its slot. -/
def release (r : SlotRing α) : SlotRing α where
  slots := r.slots
  consume := next r.slots.length r.consume
  produce := r.produce
  consume_lt := next_lt r.consume_lt
  produce_lt := r.produce_lt

/-- There is no room: one more `publish` would make the indices equal. -/
def Full (r : SlotRing α) : Prop := next r.slots.length r.produce = r.consume

instance (r : SlotRing α) : Decidable r.Full := inferInstanceAs (Decidable (_ = _))

/-! ## The small facts about each operation -/

@[simp] theorem size_fill (r : SlotRing α) (x : α) : (r.fill x).size = r.size := List.length_set

@[simp] theorem size_publish (r : SlotRing α) : r.publish.size = r.size := rfl

@[simp] theorem size_release (r : SlotRing α) : r.release.size = r.size := rfl

@[simp] theorem consume_fill (r : SlotRing α) (x : α) : (r.fill x).consume = r.consume := rfl

@[simp] theorem produce_fill (r : SlotRing α) (x : α) : (r.fill x).produce = r.produce := rfl

@[simp] theorem consume_publish (r : SlotRing α) : r.publish.consume = r.consume := rfl

@[simp] theorem produce_release (r : SlotRing α) : r.release.produce = r.produce := rfl

@[simp] theorem spare_fill (r : SlotRing α) (x : α) : (r.fill x).spare = x := by
  simp [spare, fill]

@[simp] theorem full_fill (r : SlotRing α) (x : α) : (r.fill x).Full ↔ r.Full := by
  simp [Full, fill]

/-! ## What lies between two indices -/

@[simp] theorem between_self (slots : List α) (c : Nat) : between slots c c = [] := by
  simp [between]

/-- The slot at the upper index is not among them. -/
theorem between_set {slots : List α} {c p : Nat} {x : α} :
    between (slots.set p x) c p = between slots c p := by
  rw [between, between]
  by_cases h : c ≤ p
  · rw [if_pos h, if_pos h]
    apply List.ext_getElem
    · simp
    · intro i hi hi'
      rw [List.length_take, List.length_drop] at hi'
      rw [List.getElem_take, List.getElem_take, List.getElem_drop, List.getElem_drop,
        List.getElem_set_ne (by omega)]
  · rw [if_neg h, if_neg h, List.drop_set_of_lt (by omega), List.take_set_of_le (by omega)]

/-- Moving the upper index on adds the slot it was at, unless it meets the lower one. -/
theorem between_next_right {slots : List α} {c p : Nat} (hc : c < slots.length)
    (hp : p < slots.length) (h : next slots.length p ≠ c) :
    between slots c (next slots.length p) = between slots c p ++ [slots[p]] := by
  have hgrow : ∀ hle : c ≤ p, (slots.drop c).take (p - c + 1)
      = (slots.drop c).take (p - c) ++ [slots[p]] := by
    intro hle
    have hlen : p - c < (slots.drop c).length := by
      rw [List.length_drop]
      omega
    have hat : c + (p - c) = p := by omega
    rw [List.take_succ_eq_append_getElem hlen, List.getElem_drop]
    simp only [hat]
  rw [between, between]
  by_cases hlast : p + 1 = slots.length
  · -- The upper index wraps: the slots from `c` to the end are all of them.
    have hwrap : next slots.length p = 0 := by rw [next, if_pos hlast]
    have hlow : ¬ c ≤ 0 := by omega
    have hle : c ≤ p := by omega
    have hall : (slots.drop c).take (p - c + 1) = slots.drop c := by
      apply List.take_of_length_le
      rw [List.length_drop]
      omega
    rw [hwrap, if_neg hlow, if_pos hle, List.take_zero, List.append_nil, ← hgrow hle, hall]
  · have hmore : next slots.length p = p + 1 := by rw [next, if_neg hlast]
    rw [hmore] at h ⊢
    by_cases hle : c ≤ p
    · have hcount : p + 1 - c = p - c + 1 := by omega
      rw [if_pos hle, if_pos (by omega), hcount, hgrow hle]
    · rw [if_neg hle, if_neg (by omega), List.take_succ_eq_append_getElem hp,
        List.append_assoc]

/-- The first of them is the slot at the lower index. -/
theorem between_next_left {slots : List α} {c p : Nat} (hc : c < slots.length)
    (hp : p < slots.length) (h : c ≠ p) :
    between slots c p = slots[c] :: between slots (next slots.length c) p := by
  rw [between, between, next]
  by_cases hle : c ≤ p
  · have hmore : c + 1 ≠ slots.length := by omega
    have hcount : p - c = p - (c + 1) + 1 := by omega
    rw [if_pos hle, if_neg hmore, if_pos (by omega), hcount, List.drop_eq_getElem_cons hc,
      List.take_succ_cons]
  · rw [if_neg hle, List.drop_eq_getElem_cons hc]
    by_cases hlast : c + 1 = slots.length
    · rw [if_pos hlast, if_pos (Nat.zero_le p), hlast, List.drop_length, List.drop_zero,
        Nat.sub_zero]
      rfl
    · rw [if_neg hlast, if_neg (by omega)]
      rfl

/-- One slot always stays free. -/
theorem length_between_lt {slots : List α} {c p : Nat} (hc : c < slots.length)
    (hp : p < slots.length) : (between slots c p).length < slots.length := by
  rw [between]
  split
  · rw [List.length_take, List.length_drop]
    omega
  · rw [List.length_append, List.length_take, List.length_drop]
    omega

/-! ## The ring as a queue -/

/-- A ring whose indices agree holds nothing. -/
theorem toList_of_empty {r : SlotRing α} (h : r.consume = r.produce) : r.toList = [] := by
  rw [toList, h, between_self]

@[simp] theorem toList_start (slots : List α) (h : 0 < slots.length) :
    (start slots h).toList = [] :=
  toList_of_empty rfl

/-- Filling is not seen by the consumer. -/
@[simp] theorem toList_fill (r : SlotRing α) (x : α) : (r.fill x).toList = r.toList :=
  between_set

/-- As long as there is room, `publish` appends the producer's slot. -/
theorem toList_publish {r : SlotRing α} (h : ¬ r.Full) : r.publish.toList = r.toList ++ [r.spare] :=
  between_next_right r.consume_lt r.produce_lt h

/-- With no room left, `publish` loses everything the ring holds. -/
theorem toList_publish_full {r : SlotRing α} (h : r.Full) : r.publish.toList = [] :=
  toList_of_empty h.symm

/-- The consumer takes the oldest item. -/
theorem toList_release {r : SlotRing α} (h : r.consume ≠ r.produce) :
    r.toList = r.front :: r.release.toList :=
  between_next_left r.consume_lt r.produce_lt h

theorem length_toList_lt (r : SlotRing α) : r.toList.length < r.size :=
  length_between_lt r.consume_lt r.produce_lt

end SlotRing
