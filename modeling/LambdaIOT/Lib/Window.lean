import LambdaIOT.Lib.Bytes

/-!
# Checked accesses

A loop that works inside its argument reads and writes in front of some index only. The accesses
here give `none` at that index and behind it, so a run that gives a value has made no other
access.
-/

namespace CMem

/-- The byte at index `i`, in front of `limit`. -/
def readBelow (limit : Nat) (m : Bytes) (i : Nat) : Option UInt8 :=
  if i < limit then some (m.getD i 0) else none

/-- `n` bytes from index `off` on, in front of `limit`. -/
def loadBelow (limit : Nat) (m : Bytes) (off n : Nat) : Option Bytes :=
  if off + n ≤ limit then some (load m off n) else none

/-- Write `bs` from index `off` on, in front of `limit`. -/
def storeBelow (limit : Nat) (m : Bytes) (off : Nat) (bs : Bytes) : Option Bytes :=
  if off + bs.length ≤ limit then some (store m off bs) else none

section

variable {limit : Nat} {m bs m' : Bytes} {i off n : Nat} {c : UInt8}

theorem readBelow_of_lt (h : i < limit) : readBelow limit m i = some (m.getD i 0) := if_pos h

theorem loadBelow_of_le (h : off + n ≤ limit) : loadBelow limit m off n = some (load m off n) :=
  if_pos h

theorem storeBelow_of_le (h : off + bs.length ≤ limit) :
    storeBelow limit m off bs = some (store m off bs) := if_pos h

theorem eq_of_readBelow (h : readBelow limit m i = some c) : c = m.getD i 0 := by
  unfold readBelow at h
  split at h
  · exact (Option.some.inj h).symm
  · cases h

theorem eq_of_loadBelow (h : loadBelow limit m off n = some bs) : bs = load m off n := by
  unfold loadBelow at h
  split at h
  · exact (Option.some.inj h).symm
  · cases h

theorem eq_of_storeBelow (h : storeBelow limit m off bs = some m') : m' = store m off bs := by
  unfold storeBelow at h
  split at h
  · exact (Option.some.inj h).symm
  · cases h

end

end CMem
