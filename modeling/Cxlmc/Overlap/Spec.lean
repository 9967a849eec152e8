import Mathlib.Data.Nat.Digits.Defs
import Cxlmc.Lib.Fill
import Cxlmc.Overlap.Basic

/-!
# What the overlap loops compute

`get_overlaps` and `get_overlaps_save_old` fill the free slots that the write wants
(`getOverlaps_eq`, `getOverlapsSaveOld_eq`), and for naturally aligned accesses a write wants
exactly the bytes it covers (`wants_iff_covers`). `get_read_value` is the little-endian number of
the bytes in the slots (`getReadValue_eq_ofDigits`).
-/

namespace Cxlmc

open Fill

/-- The slots of `read` that the loops of `get_overlaps` offer to `write`. -/
def wants (read write : ModelAction) (i : Nat) : Bool :=
  ¬ NoOverlap write read ∧ overlapOffset write read ≤ i ∧
    i < overlapOffset write read + write.size

/-- A range of slots, as one loop goes through it. -/
def inRange (i n j : Nat) : Bool := i ≤ j ∧ j < i + n

/-- The slots that the loops go through for a pair of actions. -/
def offers (read write : ModelAction) (i : Nat) : Bool :=
  ¬ NoOverlap write read ∧ inRange (overlapOffset write read) (overlapSteps write read) i = true

theorem length_free (n : Nat) : (Slots.free n).length = n := List.length_replicate ..

theorem countFree_free (n : Nat) : countFree (Slots.free n) = n := countFree_replicate n

/-! ## The loops -/

/-- One step of a loop that finds a free slot. -/
theorem fill_inRange_free (write : ModelAction) {rf : Slots} {i : Nat} (n : Nat)
    (h : rf[i]? = some none) :
    fill (fun _ => inRange i (n + 1)) write rf =
      fill (fun _ => inRange (i + 1) n) write (rf.set i (some write)) := by
  apply List.ext_getElem?
  intro j
  rw [getElem?_fill, getElem?_fill, List.getElem?_set]
  by_cases hij : i = j
  · subst hij
    obtain ⟨hi, hget⟩ := List.getElem?_eq_some_iff.mp h
    simp [hi, hget, inRange]
  · rw [if_neg hij]
    have hr : inRange i (n + 1) j = inRange (i + 1) n j := by
      simp only [inRange, decide_eq_decide]
      omega
    rw [hr]

/-- One step of a loop that finds the slot taken, or past the end. -/
theorem fill_inRange_taken (write : ModelAction) {rf : Slots} {i : Nat} (n : Nat)
    (h : ¬ rf[i]? = some none) :
    fill (fun _ => inRange i (n + 1)) write rf = fill (fun _ => inRange (i + 1) n) write rf := by
  apply List.ext_getElem?
  intro j
  rw [getElem?_fill, getElem?_fill]
  by_cases hij : i = j
  · subst hij
    cases ho : rf[i]? with
    | none => rfl
    | some o =>
        cases o with
        | none => exact absurd ho h
        | some v => rfl
  · have hr : inRange i (n + 1) j = inRange (i + 1) n j := by
      simp only [inRange, decide_eq_decide]
      omega
    rw [hr]

theorem fill_inRange_zero (write : ModelAction) (rf : Slots) (i : Nat) :
    fill (fun _ => inRange i 0) write rf = rf := by
  rw [fill_eq_self_iff]
  intro j _
  simp only [inRange, decide_eq_false_iff_not]
  omega

theorem fill_inRange_ne (write : ModelAction) {rf : Slots} {i : Nat} (n : Nat) (h : rf[i]? = some none) :
    fill (fun _ => inRange i (n + 1)) write rf ≠ rf := by
  rw [Ne, fill_eq_self_iff]
  intro hall
  have := hall i h
  simp [inRange] at this

theorem overlapsLoop_eq (write : ModelAction) (n i : Nat) (rf : Slots) (ret : Bool) :
    overlapsLoop write n i rf (countFree rf) ret =
      (ret || decide (fill (fun _ => inRange i n) write rf ≠ rf),
        fill (fun _ => inRange i n) write rf,
        countFree (fill (fun _ => inRange i n) write rf)) := by
  induction n generalizing i rf ret with
  | zero => simp [overlapsLoop, fill_inRange_zero]
  | succ n ih =>
      unfold overlapsLoop
      split
      · next h =>
          have hne := fill_inRange_ne write n h
          simp only [← countFree_set write h]
          rw [decide_eq_true hne, Bool.or_true]
          split
          · next hz =>
              rw [fill_inRange_free write n h, fill_of_full _ write hz, hz]
          · rw [ih, ← fill_inRange_free write n h, Bool.true_or]
      · next h => rw [ih, fill_inRange_taken write n h]

theorem overlapsSaveOldLoop_eq (write : ModelAction) (n i : Nat) (rf : Slots)
    (ret : Option Slots) :
    overlapsSaveOldLoop write n i rf (countFree rf) ret =
      (if fill (fun _ => inRange i n) write rf = rf then ret else ret.or (some rf),
        fill (fun _ => inRange i n) write rf,
        countFree (fill (fun _ => inRange i n) write rf)) := by
  induction n generalizing i rf ret with
  | zero => simp [overlapsSaveOldLoop, fill_inRange_zero]
  | succ n ih =>
      unfold overlapsSaveOldLoop
      split
      · next h =>
          have hne := fill_inRange_ne write n h
          have hret : (if ret = none then some rf else ret) = ret.or (some rf) := by
            cases ret <;> simp
          simp only [← countFree_set write h, hret]
          rw [if_neg hne]
          split
          · next hz =>
              rw [fill_inRange_free write n h, fill_of_full _ write hz, hz]
          · rw [ih, ← fill_inRange_free write n h]
            split <;> cases ret <;> rfl
      · next h => rw [ih, fill_inRange_taken write n h]

/-! ## The functions -/

section

variable {write read : ModelAction} {rf : Slots}

theorem fill_offers_of_noOverlap (h : NoOverlap write read) : fill (offers read) write rf = rf := by
  rw [fill_eq_self_iff]
  intro i _
  simp [offers, h]

theorem fill_offers_of_overlap (h : ¬ NoOverlap write read) :
    fill (offers read) write rf =
      fill (fun _ => inRange (overlapOffset write read) (overlapSteps write read)) write rf := by
  apply List.ext_getElem?
  intro i
  rw [getElem?_fill, getElem?_fill]
  simp [offers, h]

/-- What the two functions do to a vector of any length. -/
theorem getOverlaps_fill :
    getOverlaps write read rf (countFree rf) =
      (decide (fill (offers read) write rf ≠ rf), fill (offers read) write rf,
        countFree (fill (offers read) write rf)) := by
  unfold getOverlaps
  split
  · next h => simp [fill_offers_of_noOverlap h]
  · next h => rw [overlapsLoop_eq, fill_offers_of_overlap h, Bool.false_or]

theorem getOverlapsSaveOld_fill :
    getOverlapsSaveOld write read rf (countFree rf) =
      (if fill (offers read) write rf = rf then none else some rf, fill (offers read) write rf,
        countFree (fill (offers read) write rf)) := by
  unfold getOverlapsSaveOld
  split
  · next h => simp [fill_offers_of_noOverlap h]
  · next h => rw [overlapsSaveOldLoop_eq, fill_offers_of_overlap h, Option.none_or]

/-- In a vector of the length of the read the loops reach every slot that the write wants. -/
theorem fill_offers (hlen : rf.length = read.size) :
    fill (offers read) write rf = fill (wants read) write rf := by
  apply List.ext_getElem?
  intro i
  rw [getElem?_fill, getElem?_fill]
  by_cases hi : i < read.size
  · have hw : offers read write i = wants read write i := by
      rw [offers, wants, decide_eq_decide]
      have hrange : ∀ o n, inRange o n i = true ↔ o ≤ i ∧ i < o + n := fun _ _ => decide_eq_true_iff
      rw [hrange, overlapSteps]
      refine and_congr_right fun _ => ?_
      omega
    rw [hw]
  · rw [List.getElem?_eq_none (by omega)]
    rfl

/-- `get_overlaps` fills the free slots the write wants. -/
theorem getOverlaps_eq (hlen : rf.length = read.size) :
    getOverlaps write read rf (countFree rf) =
      (decide (fill (wants read) write rf ≠ rf), fill (wants read) write rf,
        countFree (fill (wants read) write rf)) := by
  rw [getOverlaps_fill, fill_offers hlen]

/-- `get_overlaps_save_old` fills the free slots the write wants, and gives back the slots from
before if that changed them. -/
theorem getOverlapsSaveOld_eq (hlen : rf.length = read.size) :
    getOverlapsSaveOld write read rf (countFree rf) =
      (if fill (wants read) write rf = rf then none else some rf, fill (wants read) write rf,
        countFree (fill (wants read) write rf)) := by
  rw [getOverlapsSaveOld_fill, fill_offers hlen]

end

/-! ## Bytes -/

theorem wants_iff {read write : ModelAction} {i : Nat} :
    wants read write i = true ↔
      ¬ NoOverlap write read ∧ overlapOffset write read ≤ i ∧
        i < overlapOffset write read + write.size :=
  decide_eq_true_iff

/-- A write takes every free slot whose byte it covers. -/
theorem wants_of_covers {read write : ModelAction} {i : Nat} (hi : i < read.size)
    (hc : write.Covers (read.location + i)) : wants read write i = true := by
  obtain ⟨hlo, hhi⟩ := hc
  rw [wants_iff]
  unfold NoOverlap overlapOffset
  split <;> omega

/-- A write takes only such slots, unless it starts before the read and ends inside it. -/
theorem covers_of_wants {read write : ModelAction} {i : Nat} (hi : i < read.size)
    (hends : write.location < read.location → read.location < write.location + write.size →
      read.location + read.size ≤ write.location + write.size)
    (h : wants read write i = true) : write.Covers (read.location + i) := by
  obtain ⟨hno, hlo, hhi⟩ := wants_iff.mp h
  unfold NoOverlap at hno
  unfold ModelAction.Covers
  by_cases hlt : write.location > read.location
  · rw [overlapOffset, if_pos hlt] at hlo hhi
    omega
  · rw [overlapOffset, if_neg hlt] at hlo hhi
    omega

/-- Between naturally aligned accesses a write takes exactly the slots whose bytes it covers. -/
theorem wants_iff_covers {read write : ModelAction} (hr : read.NaturallyAligned)
    (hw : write.NaturallyAligned) {i : Nat} (hi : i < read.size) :
    wants read write i = true ↔ write.Covers (read.location + i) := by
  refine ⟨covers_of_wants hi fun hlt hin => ?_, wants_of_covers hi⟩
  -- of two nested accesses the write starts before the read only if it contains it
  have hnested := hr.nested hw hin (by omega)
  omega

theorem byteAt_lt (a : ModelAction) (addr : Nat) : a.byteAt addr < 256 := by
  unfold ModelAction.byteAt
  exact Nat.lt_of_le_of_lt Nat.and_le_right (by decide)

/-- The byte that a slot contributes to the value. -/
def slotByte (addr : Nat) : Option ModelAction → Nat
  | none => 0
  | some write => write.byteAt addr

theorem slotByte_lt (addr : Nat) (o : Option ModelAction) : slotByte addr o < 256 := by
  cases o with
  | none => exact Nat.zero_lt_succ 255
  | some w => exact byteAt_lt w addr

theorem getReadValueFrom_eq (readLoc i : Nat) (rf : Slots) :
    getReadValueFrom readLoc i rf =
      Nat.ofDigits 256 (rf.mapIdx fun j o => slotByte (readLoc + (i + j)) o) := by
  induction rf generalizing i with
  | nil => rfl
  | cons o rf ih =>
      have htail : (rf.mapIdx fun j o => slotByte (readLoc + (i + (j + 1))) o) =
          rf.mapIdx fun j o => slotByte (readLoc + (i + 1 + j)) o := by
        congr
        funext j o
        congr 2
        omega
      rw [List.mapIdx_cons, Nat.ofDigits_cons, htail, ← ih, Nat.add_zero]
      cases o with
      | none =>
          rw [getReadValueFrom, Nat.shiftLeft_eq, slotByte]
          omega
      | some w =>
          rw [getReadValueFrom, ← Nat.shiftLeft_add_eq_or_of_lt (byteAt_lt w _), Nat.shiftLeft_eq,
            slotByte, Nat.add_comm i readLoc]
          omega

/-- `get_read_value` puts the bytes of the slots together, least significant first. -/
theorem getReadValue_eq_ofDigits (readLoc : Nat) (rf : Slots) :
    getReadValue readLoc rf = Nat.ofDigits 256 (rf.mapIdx fun i o => slotByte (readLoc + i) o) := by
  rw [getReadValue, getReadValueFrom_eq]
  simp only [Nat.zero_add]

end Cxlmc
