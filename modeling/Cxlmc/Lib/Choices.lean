import Mathlib.Data.Set.Finite.Basic
import Mathlib.Data.Set.Card
import Mathlib.Data.Set.Finite.Lattice

/-!
# Programs as trees of choices

A deterministic program that asks for choices is a function from the choices answered so far to
either `none` (done) or `some n` (it asks for one of `n` choices). `IsPathFrom` and `IsLeafFrom`
follow the choices below a prefix one at a time, in the order in which `<` on lists compares them,
so that every fact about the order of leaves is an induction on the leaf.
-/

/-- From the choices answered so far to the next number of choices, or `none` at the end. -/
abbrev ChoiceProgram : Type := List Nat → Option Nat

namespace ChoiceProgram

variable {P : ChoiceProgram}

/-- `σ` is a sequence of answers that the program can be given after `pre`. -/
def IsPathFrom (P : ChoiceProgram) : List Nat → List Nat → Prop
  | _, [] => True
  | pre, c :: σ => ∃ n, P pre = some n ∧ c < n ∧ IsPathFrom P (pre ++ [c]) σ

/-- `σ` is a sequence of answers after `pre` at whose end the program is done. -/
def IsLeafFrom (P : ChoiceProgram) : List Nat → List Nat → Prop
  | pre, [] => P pre = none
  | pre, c :: σ => ∃ n, P pre = some n ∧ c < n ∧ IsLeafFrom P (pre ++ [c]) σ

/-- The root-to-leaf choice sequences. -/
def IsLeaf (P : ChoiceProgram) (π : List Nat) : Prop := P.IsLeafFrom [] π

/-- The tree is finite, and the program never asks for one of no choices. -/
structure IsFinite (P : ChoiceProgram) : Prop where
  finite : {π | P.IsPathFrom [] π}.Finite
  pos : ∀ π n, P π = some n → 1 ≤ n

/-- Every sequence of answers after `pre` is shorter than `d`. -/
def DepthBelow (P : ChoiceProgram) (pre : List Nat) (d : Nat) : Prop :=
  ∀ σ, P.IsPathFrom pre σ → σ.length < d

theorem IsLeafFrom.isPathFrom {pre σ : List Nat} (h : P.IsLeafFrom pre σ) :
    P.IsPathFrom pre σ := by
  induction σ generalizing pre with
  | nil => trivial
  | cons c σ ih =>
      obtain ⟨n, hn, hc, hσ⟩ := h
      exact ⟨n, hn, hc, ih hσ⟩

/-- A finite tree has a depth. -/
theorem IsFinite.depthBelow (h : P.IsFinite) : ∃ d, P.DepthBelow [] d := by
  obtain ⟨d, hd⟩ := (h.finite.image List.length).bddAbove
  exact ⟨d + 1, fun σ hσ => Nat.lt_succ_of_le (hd ⟨σ, hσ, rfl⟩)⟩

theorem IsFinite.leaves (h : P.IsFinite) : {π | P.IsLeaf π}.Finite :=
  h.finite.subset fun _ hπ => hπ.isPathFrom

/-- One answer uses up one level. -/
theorem DepthBelow.step {pre : List Nat} {d n c : Nat} (h : P.DepthBelow pre (d + 1))
    (hn : P pre = some n) (hc : c < n) : P.DepthBelow (pre ++ [c]) d :=
  fun σ hσ => by simpa using h (c :: σ) ⟨n, hn, hc, hσ⟩

theorem DepthBelow.pos {pre : List Nat} {d : Nat} (h : P.DepthBelow pre d) : 0 < d := h [] trivial

/-! ## The order of the leaves -/

/-- Nothing below the same prefix comes before the leaf reached by always answering `0`. -/
theorem IsLeafFrom.not_lt_zeros {pre σ ρ : List Nat} (hσ : P.IsLeafFrom pre σ)
    (hz : ∀ c ∈ σ, c = 0) (hρ : P.IsLeafFrom pre ρ) : ¬ ρ < σ := by
  induction σ generalizing pre ρ with
  | nil => exact List.not_lt_nil ρ
  | cons c σ ih =>
      obtain ⟨n, hn, _, hσ⟩ := hσ
      obtain rfl : c = 0 := hz c (by simp)
      cases ρ with
      | nil => simp [IsLeafFrom, hn] at hρ
      | cons d ρ =>
          obtain ⟨_, _, _, hρ⟩ := hρ
          rw [List.cons_lt_cons_iff]
          rintro (hd | ⟨rfl, hlt⟩)
          · exact absurd hd (Nat.not_lt_zero d)
          · exact ih hσ (fun c hc => hz c (by simp [hc])) hρ hlt

/-- A leaf without a larger answer on the way is the last one. -/
def IsLastFrom (P : ChoiceProgram) : List Nat → List Nat → Prop
  | _, [] => True
  | pre, c :: σ => (∀ n, P pre = some n → n ≤ c + 1) ∧ IsLastFrom P (pre ++ [c]) σ

theorem IsLeafFrom.not_lt_of_isLast {pre σ ρ : List Nat} (hσ : P.IsLeafFrom pre σ)
    (hlast : P.IsLastFrom pre σ) (hρ : P.IsLeafFrom pre ρ) : ¬ σ < ρ := by
  induction σ generalizing pre ρ with
  | nil =>
      cases ρ with
      | nil => exact List.not_lt_nil []
      | cons d ρ =>
          obtain ⟨n, hn, _⟩ := hρ
          simp [IsLeafFrom, hn] at hσ
  | cons c σ ih =>
      obtain ⟨n, hn, _, hσ⟩ := hσ
      obtain ⟨hc, hlast⟩ := hlast
      cases ρ with
      | nil => exact List.not_lt_nil _
      | cons d ρ =>
          obtain ⟨m, hm, hd, hρ⟩ := hρ
          rw [List.cons_lt_cons_iff]
          rintro (hlt | ⟨rfl, hlt⟩)
          · have := hc m hm
            omega
          · exact ih hσ hlast hρ hlt

end ChoiceProgram
