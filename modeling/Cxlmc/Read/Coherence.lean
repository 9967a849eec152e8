import Cxlmc.Effect.Order
import Cxlmc.Overlap.Exact

/-!
# The bytes of a read

Byte by byte, what a read returns when no process crashes: the byte of the first store that the
loops offer the slot to (`byteOf_read`).
-/

namespace Cxlmc

open Stateful Fill

/-! ## A read without a crash -/

section

variable {cfg : Config} {read : ModelAction} {s s' : Model} {rf : Slots}

/-- The stores in the order in which a read looks at them. -/
def Model.candidates (s : Model) (read : ModelAction) : List ModelAction :=
  ((s.threadMemory read.tid).storeBuffer.reverse.filter fun w => w.type = .nonatomicStore) ++
    (s.objToWr read.word).reverse

/-- The slots that were filled by a list of stores, where none is left free. -/
theorem getElem?_filled {ws : List ModelAction}
    (hrf : rf = fillAll (wants read) ws (Slots.free read.size)) (hfull : countFree rf = 0) {i : Nat}
    (hi : i < read.size) :
    ∃ x, ws.find? (fun w => wants read w i) = some x ∧ rf[i]? = some (some x) := by
  have hslot : rf[i]? = some (ws.find? fun w => wants read w i) := by
    rw [hrf, getElem?_fillAll, Slots.free, List.getElem?_replicate_of_lt hi]
    rfl
  have hne := countFree_eq_zero.mp hfull _ (List.mem_of_getElem? hslot)
  obtain ⟨x, hx⟩ := Option.ne_none_iff_exists'.mp hne
  exact ⟨x, hx, hslot.trans (congrArg some hx)⟩

/-- Each byte of a read is that of the first candidate which takes its slot. -/
theorem byteOf_read (hpos : 0 < read.size) (hcfg : cfg.memPoison = false) (hcrash : s'.crashes = ∅)
    (h : (buildReadFromSlots cfg read).Ends s (.ok rf) s') {i : Nat} (hi : i < read.size) :
    ∃ x, (s.candidates read).find? (fun w => wants read w i) = some x ∧
      byteOf (getReadValue read.location rf) i = x.byteAt (read.location + i) := by
  obtain ⟨hrf, hfull⟩ := buildReadFromSlots_crashFree hpos hcfg hcrash h
  rw [bypassed, ← fillAll_append] at hrf
  obtain ⟨x, hx, hslot⟩ := getElem?_filled hrf hfull hi
  exact ⟨x, hx, byteOf_getReadValue _ hslot⟩

end

/-! ## The recorded initial value -/

theorem readWord_eq_ofDigits (memory : Nat → Nat) (addr : Nat) :
    Model.readWord memory addr =
      Nat.ofDigits 256 ((List.range 8).map fun i => memory (addr + i) &&& 0xff) := by
  rw [Model.readWord, Nat.ofDigits_eq_foldr, List.foldr_map]
  congr 1
  funext i v
  have hlt : memory (addr + i) &&& 0xff < 2 ^ 8 := Nat.lt_of_le_of_lt Nat.and_le_right (by decide)
  rw [← Nat.shiftLeft_add_eq_or_of_lt hlt, Nat.shiftLeft_eq]
  show v * 2 ^ 8 + (memory (addr + i) &&& 0xff) = (memory (addr + i) &&& 0xff) + 256 * v
  rw [Nat.add_comm, Nat.mul_comm]

/-- The recorded initial value holds the bytes of the mapping. -/
theorem byteAt_initialValue (s : Model) {word addr : Nat} (hlo : word ≤ addr)
    (hhi : addr < word + 8) : (s.initialValue word).byteAt addr = s.memory addr &&& 0xff := by
  rw [byteAt_eq_byteOf]
  show byteOf (Model.readWord s.memory word) (addr - word) = _
  rw [readWord_eq_ofDigits, byteOf_ofDigits]
  · rw [List.getElem_map, List.getElem_range, Nat.add_sub_cancel' hlo]
  · intro d hd
    obtain ⟨j, _, rfl⟩ := List.mem_map.mp hd
    exact Nat.lt_of_le_of_lt Nat.and_le_right (by decide)
  · rw [List.length_map, List.length_range]
    omega

end Cxlmc
