import Mathlib.Data.List.Find
import Cxlmc.Read.Step

/-!
# Resolving the bytes of a read

What a read should return, said without the loops: each byte comes from the newest store of the
word that covers it and that the reader may see (`resolve`). The slots of a read give that value as
soon as they were filled by the visible stores in turn (`resolve_eq`). Two stores with the same
location, size and value are the same to a read (`ModelAction.data`).
-/

namespace Cxlmc

open Stateful Fill

/-! ## The specification -/

/-- The number whose bytes, least significant first, are those at `loc`, `loc + 1`, …. -/
def bytesValue (loc size : Nat) (byte : Nat → Nat) : Nat :=
  Nat.ofDigits 256 ((List.range size).map fun i => byte (loc + i))

/-- The newest visible store of a list that covers the byte at `addr`; the list is in the order of
a store list, oldest first. -/
def newestStore (visible : ModelAction → Bool) (stores : List ModelAction) (addr : Nat) :
    Option ModelAction :=
  stores.reverse.find? fun w => visible w && decide (w.Covers addr)

/-- The value of a read that takes each byte from the newest visible store covering it. -/
def resolve (visible : ModelAction → Bool) (stores : List ModelAction) (read : ModelAction) : Nat :=
  bytesValue read.location read.size fun addr => slotByte addr (newestStore visible stores addr)

theorem bytesValue_congr {loc size : Nat} {byte byte' : Nat → Nat}
    (h : ∀ i, i < size → byte (loc + i) = byte' (loc + i)) :
    bytesValue loc size byte = bytesValue loc size byte' := by
  unfold bytesValue
  congr 1
  apply List.map_congr_left
  intro i hi
  exact h i (List.mem_range.mp hi)

/-! ## What a store is to a read -/

namespace ModelAction

/-- The part of a store that a read can see. -/
def data (a : ModelAction) : ModelAction :=
  { tid := 0, type := .atomicInit, location := a.location, value := a.value, size := a.size }

theorem data_eq_of_equivalent {a b : ModelAction} (h : a.equivalent b = true) : a.data = b.data := by
  simp only [equivalent, Bool.and_eq_true, decide_eq_true_eq] at h
  obtain ⟨⟨hv, hs⟩, hl⟩ := h
  simp only [data, hv, hs, hl]

end ModelAction

/-- A store is passed over for one that is the same to a read. -/
theorem Skips.next {cfg : Config} {read store : ModelAction} {older : List ModelAction} {s : Model}
    (h : Skips cfg read store older s) : ∃ next rest, older = next :: rest ∧ store.data = next.data := by
  obtain ⟨_, _, hequiv⟩ := h
  cases older with
  | nil => simp at hequiv
  | cons next rest =>
      refine ⟨next, rest, rfl, ModelAction.data_eq_of_equivalent ?_⟩
      simpa using hequiv

theorem wants_data (read w : ModelAction) (i : Nat) : wants read w.data i = wants read w i := rfl

theorem slotByte_map_data (addr : Nat) (o : Option ModelAction) :
    slotByte addr (o.map ModelAction.data) = slotByte addr o := by
  cases o <;> rfl

theorem getReadValue_map_data (readLoc : Nat) (rf : Slots) :
    getReadValue readLoc (rf.map (Option.map ModelAction.data)) = getReadValue readLoc rf := by
  rw [getReadValue_eq_ofDigits, getReadValue_eq_ofDigits]
  congr 1
  apply List.ext_getElem?
  intro i
  rw [List.getElem?_mapIdx, List.getElem?_mapIdx, List.getElem?_map]
  cases rf[i]? with
  | none => rfl
  | some o => simp only [Option.map_some, slotByte_map_data]

/-! ## Slots and values -/

section

variable {read : ModelAction}

theorem getReadValue_eq_bytesValue (readLoc : Nat) (rf : Slots) :
    getReadValue readLoc rf =
      bytesValue readLoc rf.length fun addr => slotByte addr (rf[addr - readLoc]?.join) := by
  rw [getReadValue_eq_ofDigits, bytesValue]
  congr 1
  apply List.ext_getElem?
  intro i
  rw [List.getElem?_mapIdx, List.getElem?_map]
  by_cases hi : i < rf.length
  · rw [List.getElem?_range hi, List.getElem?_eq_getElem hi]
    simp [hi]
  · rw [List.getElem?_eq_none (by omega), List.getElem?_eq_none (by simpa using hi)]
    rfl

/-- The slots filled by a list of stores, newest first, hold for each byte the newest of them that
covers it. -/
theorem getReadValue_fillAll (hr : read.NaturallyAligned) {ws : List ModelAction}
    (hws : ∀ w ∈ ws, w.NaturallyAligned) :
    getReadValue read.location (fillAll (wants read) ws (Slots.free read.size)) =
      bytesValue read.location read.size fun addr =>
        slotByte addr (ws.find? fun w => w.Covers addr) := by
  rw [getReadValue_eq_bytesValue, length_fillAll, length_free]
  apply bytesValue_congr
  intro i hi
  have hslot : (fillAll (wants read) ws (Slots.free read.size))[i]? =
      some (ws.find? fun w => w.Covers (read.location + i)) := by
    rw [getElem?_fillAll, Slots.free, List.getElem?_replicate_of_lt hi]
    simp only [Option.map_some, Option.none_or]
    rw [List.find?_congr]
    intro w hw
    rw [Bool.eq_iff_iff, decide_eq_true_iff]
    exact wants_iff_covers hr (hws w hw) hi
  rw [Nat.add_sub_cancel_left, hslot]
  rfl

/-- The specification in terms of slots. -/
theorem resolve_eq (hr : read.NaturallyAligned) {visible : ModelAction → Bool}
    {stores : List ModelAction} (hs : ∀ w ∈ stores, w.NaturallyAligned) :
    resolve visible stores read =
      getReadValue read.location
        (fillAll (wants read) (stores.reverse.filter visible) (Slots.free read.size)) := by
  have hws : ∀ w ∈ stores.reverse.filter visible, w.NaturallyAligned := by
    intro w hw
    exact hs w (List.mem_reverse.mp (List.mem_of_mem_filter hw))
  rw [getReadValue_fillAll hr hws, resolve]
  simp only [newestStore, List.find?_filter, Bool.decide_and, Bool.decide_eq_true]

end

end Cxlmc
