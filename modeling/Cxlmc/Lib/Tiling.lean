import Mathlib.Data.Nat.Notation

/-!
# Ranges cut into chunks

`Tiles i cs j` — the chunks of `cs` follow each other from `i` to `j` without a gap. Each number of the
range lies in one of them and in no other (`Tiles.partition`).
-/

/-- The numbers from `offset` on, `width` of them. -/
structure Chunk where
  offset : Nat
  width : Nat
  deriving DecidableEq, Repr

instance : Membership Nat Chunk := ⟨fun c x => c.offset ≤ x ∧ x < c.offset + c.width⟩

inductive Tiles : Nat → List Chunk → Nat → Prop where
  | nil (i : Nat) : Tiles i [] i
  | cons {i w j : Nat} {cs : List Chunk} (hw : 0 < w) (h : Tiles (i + w) cs j) :
      Tiles i (⟨i, w⟩ :: cs) j

namespace Tiles

variable {i j k : Nat} {cs cs' : List Chunk}

theorem append (h : Tiles i cs j) (h' : Tiles j cs' k) : Tiles i (cs ++ cs') k := by
  induction h with
  | nil i => exact h'
  | cons hw _ ih => exact .cons hw (ih h')

/-- One more chunk at the end. -/
theorem concat {w : Nat} (h : Tiles i cs j) (hw : 0 < w) : Tiles i (cs ++ [⟨j, w⟩]) (j + w) :=
  h.append (.cons hw (.nil _))

/-- The chunks begin at `i` or later. -/
theorem le_of_mem {c : Chunk} {x : Nat} (h : Tiles i cs j) (hc : c ∈ cs) (hx : x ∈ c) : i ≤ x := by
  induction h with
  | nil i => cases hc
  | cons hw _ ih =>
      rcases List.mem_cons.mp hc with rfl | hc
      · exact hx.1
      · exact Nat.le_trans (Nat.le_add_right ..) (ih hc)

/-- Each number of the range lies in exactly one of the chunks. -/
theorem partition {x : Nat} (h : Tiles i cs j) (hi : i ≤ x) (hj : x < j) :
    ∃ c ∈ cs, x ∈ c ∧ ∀ c' ∈ cs, x ∈ c' → c' = c := by
  induction h with
  | nil i => exact absurd hj (Nat.not_lt_of_le hi)
  | @cons i w _ cs hw h ih =>
      by_cases hx : x < i + w
      · refine ⟨⟨i, w⟩, List.mem_cons_self, ⟨hi, hx⟩, ?_⟩
        intro c' hc' hxc
        rcases List.mem_cons.mp hc' with rfl | hc'
        · rfl
        · exact absurd hx (Nat.not_lt_of_le (h.le_of_mem hc' hxc))
      · obtain ⟨c, hc, hxc, honly⟩ := ih (Nat.le_of_not_lt hx) hj
        refine ⟨c, List.mem_cons_of_mem _ hc, hxc, ?_⟩
        intro c' hc' hxc'
        rcases List.mem_cons.mp hc' with rfl | hc'
        · exact absurd hxc'.2 hx
        · exact honly c' hc' hxc'

end Tiles
