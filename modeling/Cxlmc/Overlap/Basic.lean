import Cxlmc.Action

/-!
# Resolving a read byte by byte (`thread_memory.h`)

A read is resolved by a vector of slots, one for each byte, that is filled from the newest store to
the oldest. `get_overlaps` fills the free slots a store covers; `get_overlaps_save_old` does the
same and returns the slots from before its first change. The two loops are modelled separately, as
they are written.
-/

namespace Cxlmc

/-- `shared::vector<ModelAction *>`: one slot for each byte of the read, `none` for `NULL`. -/
abbrev Slots := List (Option ModelAction)

/-- The slots of a read before any store was tried. -/
def Slots.free (size : Nat) : Slots := List.replicate size none

/-- The loop of `get_overlaps`: `n` more steps from slot `i`. Returns whether a slot was filled, the
slots and `numslotsleft`. -/
def overlapsLoop (write : ModelAction) :
    (n i : Nat) → Slots → (numslotsleft : Nat) → (ret : Bool) → Bool × Slots × Nat
  | 0, _, rf, left, ret => (ret, rf, left)
  | n + 1, i, rf, left, ret =>
      if rf[i]? = some none then
        let rf := rf.set i (some write)
        let left := left - 1
        if left = 0 then (true, rf, left) else overlapsLoop write n (i + 1) rf left true
      else overlapsLoop write n (i + 1) rf left ret

/-- The loop of `get_overlaps_save_old`. -/
def overlapsSaveOldLoop (write : ModelAction) :
    (n i : Nat) → Slots → (numslotsleft : Nat) → (ret : Option Slots) → Option Slots × Slots × Nat
  | 0, _, rf, left, ret => (ret, rf, left)
  | n + 1, i, rf, left, ret =>
      if rf[i]? = some none then
        let ret := if ret = none then some rf else ret
        let rf := rf.set i (some write)
        let left := left - 1
        if left = 0 then (ret, rf, left) else overlapsSaveOldLoop write n (i + 1) rf left ret
      else overlapsSaveOldLoop write n (i + 1) rf left ret

/-- The write and the read have no byte in common: `(wbot >= rtop) || (rbot >= wtop)`. -/
def NoOverlap (write read : ModelAction) : Prop :=
  read.location + read.size ≤ write.location ∨ write.location + write.size ≤ read.location

instance (write read : ModelAction) : Decidable (NoOverlap write read) :=
  inferInstanceAs (Decidable (_ ∨ _))

/-- The offset of the write at the beginning of the read. -/
def overlapOffset (write read : ModelAction) : Nat :=
  if write.location > read.location then write.location - read.location else 0

/-- The number of steps of `for (i = offset; i < offset + wsize && i < rsize; i++)`. -/
def overlapSteps (write read : ModelAction) : Nat :=
  min (overlapOffset write read + write.size) read.size - overlapOffset write read

/-- `get_overlaps(write, read, rf, numslotsleft)`. -/
def getOverlaps (write read : ModelAction) (rf : Slots) (left : Nat) : Bool × Slots × Nat :=
  if NoOverlap write read then (false, rf, left)
  else overlapsLoop write (overlapSteps write read) (overlapOffset write read) rf left false

/-- `get_overlaps_save_old(write, read, rf, numslotsleft)`. -/
def getOverlapsSaveOld (write read : ModelAction) (rf : Slots) (left : Nat) :
    Option Slots × Slots × Nat :=
  if NoOverlap write read then (none, rf, left)
  else overlapsSaveOldLoop write (overlapSteps write read) (overlapOffset write read) rf left none

/-- The bytes of `get_read_value` from slot `i` on, the last slot first:
`value = value << 8; value |= (write->get_value() >> (8 * offset)) & 0xff`. -/
def getReadValueFrom (readLoc : Nat) : (i : Nat) → Slots → Nat
  | _, [] => 0
  | i, none :: rf => getReadValueFrom readLoc (i + 1) rf <<< 8
  | i, some write :: rf =>
      (getReadValueFrom readLoc (i + 1) rf <<< 8) ||| write.byteAt (i + readLoc)

/-- `get_read_value(read_loc, rf)`. -/
def getReadValue (readLoc : Nat) (rf : Slots) : Nat := getReadValueFrom readLoc 0 rf

end Cxlmc
