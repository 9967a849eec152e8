import Mathlib.Data.Nat.Digits.Lemmas
import Cxlmc.Overlap.Spec

/-!
# Which bytes a write takes

A write takes the slots whose bytes it covers unless it begins before the read and ends inside it
(`wants_iff_covers_of_not_cuts`): the loops then run to `offset + wsize` with `offset` 0, past the
end of the write. `overlaps_exact` says when they are byte exact.
-/

namespace Cxlmc

open Fill

/-- The `i`-th byte of a value. -/
def byteOf (value i : Nat) : Nat := (value >>> (8 * i)) &&& 0xff

theorem and_0xff (n : Nat) : n &&& 0xff = n % 256 := Nat.and_two_pow_sub_one_eq_mod n 8

theorem byteOf_eq (value i : Nat) : byteOf value i = value / 256 ^ i % 256 := by
  have hpow : 2 ^ (8 * i) = 256 ^ i := Nat.pow_mul 2 8 i
  rw [byteOf, and_0xff, Nat.shiftRight_eq_div_pow, hpow]

theorem byteAt_eq_byteOf (a : ModelAction) (addr : Nat) :
    a.byteAt addr = byteOf a.value (addr - a.location) := rfl

/-- The bytes that a number was put together from. -/
theorem byteOf_ofDigits {digits : List Nat} (hdigits : ∀ d ∈ digits, d < 256) {i : Nat}
    (hi : i < digits.length) : byteOf (Nat.ofDigits 256 digits) i = digits[i] := by
  rw [byteOf_eq, Nat.ofDigits_div_pow_eq_ofDigits_drop i (by decide) digits hdigits,
    List.drop_eq_getElem_cons hi, Nat.ofDigits_cons, Nat.add_mul_mod_self_left]
  exact Nat.mod_eq_of_lt (hdigits _ (List.getElem_mem hi))

/-- The bytes of the result of a read are those of its slots. -/
theorem byteOf_getReadValue (readLoc : Nat) {rf : Slots} {i : Nat} {o : Option ModelAction}
    (ho : rf[i]? = some o) :
    byteOf (getReadValue readLoc rf) i = slotByte (readLoc + i) o := by
  obtain ⟨hi, hget⟩ := List.getElem?_eq_some_iff.mp ho
  rw [getReadValue_eq_ofDigits, byteOf_ofDigits, List.getElem_mapIdx, hget]
  · intro d hd
    obtain ⟨j, hj, rfl⟩ := List.mem_mapIdx.mp hd
    exact slotByte_lt _ _
  · rw [List.length_mapIdx]
    exact hi

/-! ## Which slots a store takes -/

/-- The write begins before the read and ends inside it. -/
def ModelAction.Cuts (write read : ModelAction) : Prop :=
  write.location < read.location ∧ read.location < write.location + write.size ∧
    write.location + write.size < read.location + read.size

instance (write read : ModelAction) : Decidable (write.Cuts read) :=
  inferInstanceAs (Decidable (_ ∧ _))

theorem ModelAction.NaturallyAligned.not_cuts {write read : ModelAction}
    (hw : write.NaturallyAligned) (hr : read.NaturallyAligned) : ¬ write.Cuts read := by
  rintro ⟨hlt, hin, hout⟩
  have hnested := hw.nested hr (by omega) hin
  omega

/-- A write that does not cut the read takes exactly the slots whose bytes it covers. -/
theorem wants_iff_covers_of_not_cuts {write read : ModelAction} (h : ¬ write.Cuts read) {i : Nat}
    (hi : i < read.size) : wants read write i = true ↔ write.Covers (read.location + i) := by
  refine ⟨covers_of_wants hi fun hlt hin => ?_, wants_of_covers hi⟩
  by_contra hout
  exact h ⟨hlt, hin, Nat.lt_of_not_le hout⟩

/-- What a write that cuts the read takes wrongly: the slots below its size, past its end. -/
theorem wants_iff_covers_iff {write read : ModelAction} {i : Nat} (hi : i < read.size) :
    (wants read write i = true ↔ write.Covers (read.location + i)) ↔
      ¬ (write.Cuts read ∧ i < write.size ∧ write.location + write.size ≤ read.location + i) := by
  constructor
  · intro hiff hpast
    obtain ⟨⟨hlt, hin, hout⟩, hsize, hend⟩ := hpast
    have hwants : wants read write i = true := by
      rw [wants_iff, overlapOffset, if_neg (by omega)]
      unfold NoOverlap
      omega
    have hcovers := (hiff.mp hwants).2
    omega
  · intro hnot
    by_cases hcuts : write.Cuts read
    · constructor
      · intro hwants
        obtain ⟨hno, hlo, hhi⟩ := wants_iff.mp hwants
        obtain ⟨hlt, hin, hout⟩ := hcuts
        rw [overlapOffset, if_neg (by omega)] at hhi
        -- the slot is below the size of the write, so by `hnot` it is not past its end
        have hend : ¬ write.location + write.size ≤ read.location + i := fun hend =>
          hnot ⟨⟨hlt, hin, hout⟩, by omega, hend⟩
        exact ⟨by omega, by omega⟩
      · exact wants_of_covers hi
    · exact wants_iff_covers_of_not_cuts hcuts hi

/-! ## Byte exact resolution -/

/-- The slots and `numslotsleft` after a write was tried, byte for byte. -/
structure ByteExact (write read : ModelAction) (rf rf' : Slots) (left left' : Nat) : Prop where
  /-- The write is in exactly the free slots whose bytes it covers. -/
  slots : ∀ i < read.size, rf'[i]? =
    if rf[i]? = some none ∧ write.Covers (read.location + i) then some (some write) else rf[i]?
  length : rf'.length = rf.length
  /-- `numslotsleft` went down by the number of slots set. -/
  left : left' + countSet rf rf' = left
  /-- `get_read_value` takes the byte of a slot that was set from within the write. -/
  value : ∀ i, rf[i]? = some none → rf'[i]? = some (some write) →
    write.Covers (read.location + i) ∧
      byteOf (getReadValue read.location rf') i =
        byteOf write.value (read.location + i - write.location)

/-- The write takes no free slot past its end. -/
def TakesWithin (write read : ModelAction) (rf : Slots) : Prop :=
  ¬ (write.Cuts read ∧ ∃ i < write.size,
    write.location + write.size ≤ read.location + i ∧ rf[i]? = some none)

section

variable {write read : ModelAction} {rf : Slots}

theorem TakesWithin.wants_iff (hlen : rf.length = read.size) (h : TakesWithin write read rf)
    {i : Nat} (hfree : rf[i]? = some none) :
    wants read write i = true ↔ write.Covers (read.location + i) := by
  obtain ⟨hi, _⟩ := List.getElem?_eq_some_iff.mp hfree
  rw [wants_iff_covers_iff (by omega)]
  intro hpast
  exact h ⟨hpast.1, i, hpast.2.1, hpast.2.2, hfree⟩

theorem byteExact_fill (hlen : rf.length = read.size) (h : TakesWithin write read rf) :
    ByteExact write read rf (fill (wants read) write rf) (countFree rf)
      (countFree (fill (wants read) write rf)) where
  slots := by
    intro i hi
    rw [getElem?_fill]
    cases ho : rf[i]? with
    | none => simp
    | some o =>
        cases o with
        | some w => simp
        | none =>
            have hw := h.wants_iff hlen ho
            by_cases hc : write.Covers (read.location + i)
            · simp [hw.mpr hc, hc]
            · have hno : ¬ wants read write i = true := fun hwants => hc (hw.mp hwants)
              simp [hno, hc]
  length := length_fill _ _ _
  left := countFree_fill _ _ _
  value := by
    intro i hfree hset
    have hwants : wants read write i = true := by
      rw [getElem?_fill, hfree] at hset
      by_contra hno
      simp [hno] at hset
    exact ⟨(h.wants_iff hlen hfree).mp hwants, byteOf_getReadValue _ hset⟩

theorem byteExact_fill_iff (hlen : rf.length = read.size) :
    ByteExact write read rf (fill (wants read) write rf) (countFree rf)
      (countFree (fill (wants read) write rf)) ↔ TakesWithin write read rf := by
  constructor
  · intro hexact hpast
    obtain ⟨hcuts, i, hsize, hend, hfree⟩ := hpast
    obtain ⟨hi, _⟩ := List.getElem?_eq_some_iff.mp hfree
    have hread : i < read.size := by omega
    have hnot : ¬ write.Covers (read.location + i) := by
      intro hcovers
      have := hcovers.2
      omega
    have hwants : wants read write i = true := by
      by_contra hno
      exact (wants_iff_covers_iff hread).mp
        ⟨fun hwants => absurd hwants hno, fun hcovers => absurd hcovers hnot⟩
        ⟨hcuts, hsize, hend⟩
    have hslot := hexact.slots i hread
    rw [getElem?_fill, hfree] at hslot
    simp [hwants, hnot] at hslot
  · exact byteExact_fill hlen

end

/-- `get_overlaps` and `get_overlaps_save_old` are byte exact if and only if the write, where it
begins before the read and ends inside it, finds no free slot past its end. -/
theorem overlaps_exact (write read : ModelAction) (rf : Slots) (hlen : rf.length = read.size) :
    (ByteExact write read rf (getOverlaps write read rf (countFree rf)).2.1 (countFree rf)
        (getOverlaps write read rf (countFree rf)).2.2 ∧
      ByteExact write read rf (getOverlapsSaveOld write read rf (countFree rf)).2.1 (countFree rf)
        (getOverlapsSaveOld write read rf (countFree rf)).2.2) ↔
      TakesWithin write read rf := by
  rw [getOverlaps_eq hlen, getOverlapsSaveOld_eq hlen, and_self]
  exact byteExact_fill_iff hlen

/-- Four bytes into the upper half of a word whose first byte is taken already. -/
theorem overlaps_exact_upperHalf :
    let write : ModelAction := { tid := 1, type := .nonatomicStore, location := 4100, size := 4 }
    let read : ModelAction := { tid := 1, type := .nonatomicLoad, location := 4096, size := 8 }
    let rf : Slots := (Slots.free 8).set 0 (some { write with location := 4096, size := 1 })
    ByteExact write read rf (getOverlaps write read rf (countFree rf)).2.1 (countFree rf)
        (getOverlaps write read rf (countFree rf)).2.2 ∧
      ByteExact write read rf (getOverlapsSaveOld write read rf (countFree rf)).2.1 (countFree rf)
        (getOverlapsSaveOld write read rf (countFree rf)).2.2 := by
  intro write read rf
  exact (overlaps_exact write read rf (by decide)).mpr fun h => absurd h.1 (by decide)

/-- A write of four bytes that ends two bytes into the read takes four slots of it. -/
theorem overlaps_not_exact :
    ¬ ∀ (write read : ModelAction) (rf : Slots), rf.length = read.size →
      1 ≤ write.size ∧ write.size ≤ 8 → 1 ≤ read.size ∧ read.size ≤ 8 →
      ByteExact write read rf (getOverlaps write read rf (countFree rf)).2.1 (countFree rf)
          (getOverlaps write read rf (countFree rf)).2.2 ∧
        ByteExact write read rf (getOverlapsSaveOld write read rf (countFree rf)).2.1 (countFree rf)
          (getOverlapsSaveOld write read rf (countFree rf)).2.2 := by
  intro hall
  let write : ModelAction := { tid := 1, type := .nonatomicStore, location := 4102, size := 4 }
  let read : ModelAction := { tid := 1, type := .nonatomicLoad, location := 4104, size := 8 }
  have hexact := (hall write read (Slots.free 8) (by decide) (by decide) (by decide)).1
  exact absurd (hexact.slots 2 (by decide)) (by decide)

end Cxlmc
