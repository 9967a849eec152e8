import Mathlib.Algebra.Group.Nat.Defs
import Cxlmc.Lib.Bytes

/-!
# A flat memory of bytes

Little-endian loads and stores of any width. A store of what was loaded copies bytes
(`store_load`).
-/

/-- The byte at each address. -/
abbrev FlatMemory := Nat → UInt8

namespace FlatMemory

open Bytes

def load (m : FlatMemory) (addr width : Nat) : Nat :=
  ofBytes ((List.range width).map fun j => m (addr + j))

def store (m : FlatMemory) (addr width val : Nat) : FlatMemory :=
  fun x => if addr ≤ x ∧ x < addr + width then (toBytes width val)[x - addr]?.getD 0 else m x

variable {m m' : FlatMemory} {addr width val x : Nat}

theorem store_of_lt (h : x < addr) : m.store addr width val x = m x :=
  if_neg fun hin => Nat.not_lt_of_le hin.1 h

theorem store_of_ge (h : addr + width ≤ x) : m.store addr width val x = m x :=
  if_neg fun hin => Nat.not_lt_of_le h hin.2

theorem store_inside {j : Nat} (hj : j < width) :
    m.store addr width val (addr + j) = (toBytes width val)[j]?.getD 0 := by
  unfold store
  rw [if_pos ⟨Nat.le_add_right .., Nat.add_lt_add_left hj _⟩, Nat.add_sub_cancel_left]

/-- The bytes after a store. -/
theorem store_apply : m.store addr width val x =
    if addr ≤ x ∧ x < addr + width then UInt8.ofNat (val / 256 ^ (x - addr)) else m x := by
  unfold store
  split
  · next hin => rw [getElem?_toBytes val (by omega), Option.getD_some]
  · rfl

/-- A load looks at its own bytes only. -/
theorem load_congr {addr' : Nat} (h : ∀ j, j < width → m (addr + j) = m' (addr' + j)) :
    m.load addr width = m'.load addr' width := by
  unfold load
  congr 1
  apply List.map_congr_left
  intro j hj
  exact h j (List.mem_range.mp hj)

theorem load_eq_zero (h : ∀ j, j < width → m (addr + j) = 0) : m.load addr width = 0 := by
  apply ofBytes_eq_zero
  intro b hb
  obtain ⟨j, hj, rfl⟩ := List.mem_map.mp hb
  exact h j (List.mem_range.mp hj)

/-- A store of what was loaded copies the bytes. -/
theorem store_load {src j : Nat} (hj : j < width) :
    m.store addr width (m'.load src width) (addr + j) = m' (src + j) := by
  rw [store_inside hj, load]
  have hlen : ((List.range width).map fun j => m' (src + j)).length = width := by simp
  rw [toBytes_ofBytes hlen]
  simp [hj]

/-! ## The memory as an object -/

inductive Call where
  | load (addr width : Nat)
  | store (addr width val : Nat)
  deriving DecidableEq, Repr

/-- The memory after a call, and what the call returns: a store returns what it was given. -/
def reply : Call → FlatMemory → FlatMemory × Nat
  | .load addr width, m => (m, m.load addr width)
  | .store addr width val, m => (m.store addr width val, val)

end FlatMemory
