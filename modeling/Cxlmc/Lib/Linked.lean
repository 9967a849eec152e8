import Mathlib.Data.List.Nodup
import Mathlib.Logic.Function.Basic

/-!
# Linked cells on a heap

A heap holds cells with a value and a pointer to the next cell. `Segment` says which cells lie between
two pointers; the lemmas below it say what writing to one cell does to a segment.

* `setNext` — a write to the pointer of a cell.
* `Segment.frame` — a segment does not see a write to a cell that is not in it.
* `Segment.link`, `Segment.unlink`, `Segment.setVal` — a cell is put behind the last one, taken out, or
  gets another value.
-/

namespace Linked

structure Cell (α : Type) where
  val : α
  next : Option Nat

abbrev Heap (α : Type) := Nat → Option (Cell α)

variable {α : Type} {h h' : Heap α} {p q r : Option Nat} {l l' : List (Nat × α)} {n m : Nat × α} {a : Nat}

/-- `a->next = q`. -/
def setNext (h : Heap α) (a : Nat) (q : Option Nat) : Option (Heap α) :=
  (h a).map fun c => Function.update h a (some { c with next := q })

/-- The cells from `p` up to `q` are at the addresses of `l` and hold its values. -/
def Segment (h : Heap α) : Option Nat → List (Nat × α) → Option Nat → Prop
  | p, [], q => p = q
  | p, n :: l, q => p = some n.1 ∧ ∃ next, h n.1 = some ⟨n.2, next⟩ ∧ Segment h next l q

/-- The address of the last cell, or the one before the first. -/
def lastOf : Option Nat → List (Nat × α) → Option Nat
  | last, [] => last
  | _, n :: l => lastOf (some n.1) l

abbrev addrs (l : List (Nat × α)) : List Nat := l.map Prod.fst

@[simp] theorem segment_nil : Segment h p [] q ↔ p = q := Iff.rfl

@[simp] theorem segment_cons : Segment h p (n :: l) q ↔
    p = some n.1 ∧ ∃ next, h n.1 = some ⟨n.2, next⟩ ∧ Segment h next l q := Iff.rfl

@[simp] theorem lastOf_nil (last : Option Nat) : lastOf last ([] : List (Nat × α)) = last := rfl

@[simp] theorem lastOf_cons (last : Option Nat) : lastOf last (n :: l) = lastOf (some n.1) l := rfl

@[simp] theorem lastOf_concat (last : Option Nat) : lastOf last (l ++ [n]) = some n.1 := by
  induction l generalizing last with
  | nil => rfl
  | cons m l ih => exact ih _

theorem Segment.congr (hseg : Segment h p l q) (heq : ∀ a ∈ addrs l, h' a = h a) : Segment h' p l q := by
  induction l generalizing p with
  | nil => exact hseg
  | cons n l ih =>
      obtain ⟨hp, next, hcell, hrest⟩ := hseg
      refine ⟨hp, next, ?_, ih hrest fun a ha => heq a (List.mem_cons_of_mem _ ha)⟩
      rw [heq n.1 List.mem_cons_self]
      exact hcell

/-- A write elsewhere. -/
theorem Segment.frame (hseg : Segment h p l q) (ha : a ∉ addrs l) (c : Option (Cell α)) :
    Segment (Function.update h a c) p l q := by
  refine hseg.congr fun x hx => Function.update_of_ne ?_ _ _
  rintro rfl
  exact ha hx

theorem segment_append :
    Segment h p (l ++ l') q ↔ ∃ r, Segment h p l r ∧ Segment h r l' q := by
  induction l generalizing p with
  | nil => simp
  | cons n l ih =>
      rw [List.cons_append, segment_cons]
      constructor
      · rintro ⟨hp, next, hcell, hrest⟩
        obtain ⟨r, hl, hl'⟩ := ih.mp hrest
        exact ⟨r, ⟨hp, next, hcell, hl⟩, hl'⟩
      · rintro ⟨r, ⟨hp, next, hcell, hl⟩, hl'⟩
        exact ⟨hp, next, hcell, ih.mpr ⟨r, hl, hl'⟩⟩

/-- The end of a segment that is not empty is what its last cell points to. -/
theorem segment_concat :
    Segment h p (l ++ [n]) q ↔ Segment h p l (some n.1) ∧ h n.1 = some ⟨n.2, q⟩ := by
  rw [segment_append]
  constructor
  · rintro ⟨r, hl, rfl, next, hcell, rfl⟩
    exact ⟨hl, hcell⟩
  · rintro ⟨hl, hcell⟩
    exact ⟨some n.1, hl, rfl, q, hcell, rfl⟩

/-- The last cell gets another next one. -/
theorem Segment.link (hseg : Segment h p (l ++ [n]) q) (hnodup : n.1 ∉ addrs l) (r : Option Nat) :
    setNext h n.1 r = some (Function.update h n.1 (some ⟨n.2, r⟩)) ∧
      Segment (Function.update h n.1 (some ⟨n.2, r⟩)) p (l ++ [n]) r := by
  obtain ⟨hl, hcell⟩ := segment_concat.mp hseg
  refine ⟨by rw [setNext, hcell]; rfl, segment_concat.mpr ⟨hl.frame hnodup _, ?_⟩⟩
  exact Function.update_self _ _ _

/-- A cell is taken out behind another one. -/
theorem Segment.unlink (hseg : Segment h p (l ++ m :: n :: l') q)
    (hnodup : (addrs (l ++ m :: n :: l')).Nodup) :
    ∃ next, h n.1 = some ⟨n.2, next⟩ ∧
      setNext h m.1 next = some (Function.update h m.1 (some ⟨m.2, next⟩)) ∧
      Segment (Function.update h m.1 (some ⟨m.2, next⟩)) p (l ++ m :: l') q := by
  rw [List.append_cons] at hseg
  obtain ⟨r, hfirst, rfl, next, hcell, hrest⟩ := segment_append.mp hseg
  have hm : m.1 ∉ addrs l := by
    intro hmem
    rw [addrs, List.map_append, List.map_cons] at hnodup
    exact List.disjoint_of_nodup_append hnodup hmem List.mem_cons_self
  have hm' : m.1 ∉ addrs l' := by
    intro hmem
    rw [addrs, List.map_append, List.map_cons] at hnodup
    have hlast := (List.nodup_cons.mp (List.nodup_append.mp hnodup).2.1).1
    exact hlast (List.mem_cons_of_mem _ hmem)
  obtain ⟨hset, hlink⟩ := hfirst.link hm next
  refine ⟨next, hcell, hset, ?_⟩
  rw [List.append_cons]
  exact segment_append.mpr ⟨next, hlink, hrest.frame hm' _⟩

/-- A cell gets another value. -/
theorem Segment.setVal (hseg : Segment h p (l ++ n :: l') q) (hnodup : (addrs (l ++ n :: l')).Nodup)
    (x : α) : ∃ next, h n.1 = some ⟨n.2, next⟩ ∧
      Segment (Function.update h n.1 (some ⟨x, next⟩)) p (l ++ (n.1, x) :: l') q := by
  obtain ⟨r, hl, rfl, next, hcell, hrest⟩ := segment_append.mp hseg
  rw [addrs, List.map_append, List.map_cons] at hnodup
  have hn : n.1 ∉ addrs l := fun hmem => List.disjoint_of_nodup_append hnodup hmem List.mem_cons_self
  have hn' : n.1 ∉ addrs l' := (List.nodup_cons.mp (List.nodup_append.mp hnodup).2.1).1
  refine ⟨next, hcell, segment_append.mpr ⟨some n.1, hl.frame hn _, rfl, next, ?_, hrest.frame hn' _⟩⟩
  exact Function.update_self _ _ _

end Linked
