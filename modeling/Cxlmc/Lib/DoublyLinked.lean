import Mathlib.Data.List.Induction
import Mathlib.Data.List.Nodup
import Mathlib.Logic.Function.Basic

/-!
# Nodes linked in both directions

A heap holds nodes with a value and pointers to the node before and the node behind. `Linked h b l q` says
that the nodes of `l` are linked to each other in this order, the first one back to `b` and the last one on to
`q`. A list of nodes is changed at its two ends:

* `linkPrev`, `linkNext` — a pointer to the first or the last node of a part, or the end of the whole list.
* `Linked.linkPrev_spec`, `Linked.linkNext_spec` — what they do to the part.
* `Linked.relink` — both of them, for a part that loses what is behind it and one that loses what is before it;
  by `link_comm` in either order.
-/

namespace DoublyLinked

structure Node (α : Type) where
  prev : Option Nat
  next : Option Nat
  val : α
  deriving DecidableEq, Repr

abbrev Heap (α : Type) := Nat → Option (Node α)

variable {α : Type} {h h' : Heap α} {b p q x : Option Nat} {l l' : List (Nat × α)} {n : Nat × α} {a : Nat}

/-- `a->prev = q`. -/
def setPrev (h : Heap α) (a : Nat) (q : Option Nat) : Option (Heap α) :=
  (h a).map fun c => Function.update h a (some { c with prev := q })

/-- `a->next = q`. -/
def setNext (h : Heap α) (a : Nat) (q : Option Nat) : Option (Heap α) :=
  (h a).map fun c => Function.update h a (some { c with next := q })

/-- `if (p == NULL) tail = q; else p->prev = q;`: the heap and the tail. -/
def linkPrev (h : Heap α) (tail p q : Option Nat) : Option (Heap α × Option Nat) :=
  match p with
  | none => some (h, q)
  | some a => (setPrev h a q).map fun h => (h, tail)

/-- `if (p == NULL) head = q; else p->next = q;`: the heap and the head. -/
def linkNext (h : Heap α) (head p q : Option Nat) : Option (Heap α × Option Nat) :=
  match p with
  | none => some (h, q)
  | some a => (setNext h a q).map fun h => (h, head)

/-- The address of the first node, or what is behind the list. -/
def first : List (Nat × α) → Option Nat → Option Nat
  | [], q => q
  | n :: _, _ => some n.1

/-- The address of the last node, or what is before the list. -/
def last : Option Nat → List (Nat × α) → Option Nat
  | b, [] => b
  | _, n :: l => last (some n.1) l

def Linked (h : Heap α) : Option Nat → List (Nat × α) → Option Nat → Prop
  | _, [], _ => True
  | b, n :: l, q => h n.1 = some ⟨b, first l q, n.2⟩ ∧ Linked h (some n.1) l q

abbrev addrs (l : List (Nat × α)) : List Nat := l.map Prod.fst

@[simp] theorem first_nil (q : Option Nat) : first ([] : List (Nat × α)) q = q := rfl

@[simp] theorem first_cons (q : Option Nat) : first (n :: l) q = some n.1 := rfl

@[simp] theorem last_nil (b : Option Nat) : last b ([] : List (Nat × α)) = b := rfl

@[simp] theorem last_cons (b : Option Nat) : last b (n :: l) = last (some n.1) l := rfl

@[simp] theorem first_append (l l' : List (Nat × α)) (q : Option Nat) :
    first (l ++ l') q = first l (first l' q) := by
  cases l <;> rfl

@[simp] theorem last_append (b : Option Nat) (l l' : List (Nat × α)) :
    last b (l ++ l') = last (last b l) l' := by
  induction l generalizing b with
  | nil => rfl
  | cons n l ih => exact ih _

theorem first_eq_none : first l none = none ↔ l = [] := by
  cases l <;> simp

theorem last_eq_none : last none l = none ↔ l = [] := by
  induction l using List.reverseRecOn with
  | nil => simp
  | append_singleton l n => simp

theorem mem_of_last_eq (h : last none l = some a) : a ∈ addrs l := by
  induction l using List.reverseRecOn with
  | nil => cases h
  | append_singleton l n _ =>
      rw [last_append, last_cons, last_nil] at h
      cases h
      rw [addrs, List.map_append]
      exact List.mem_append_right _ (List.mem_singleton_self _)

@[simp] theorem linked_nil : Linked h b [] q ↔ True := Iff.rfl

@[simp] theorem linked_cons : Linked h b (n :: l) q ↔
    h n.1 = some ⟨b, first l q, n.2⟩ ∧ Linked h (some n.1) l q := Iff.rfl

theorem linked_append :
    Linked h b (l ++ l') q ↔ Linked h b l (first l' q) ∧ Linked h (last b l) l' q := by
  induction l generalizing b with
  | nil => simp
  | cons n l ih => rw [List.cons_append, linked_cons, linked_cons, ih, first_append, last_cons, and_assoc]

theorem linked_concat :
    Linked h b (l ++ [n]) q ↔ Linked h b l (some n.1) ∧ h n.1 = some ⟨last b l, q, n.2⟩ := by
  rw [linked_append, linked_cons, linked_nil, and_true, first_cons, first_nil]

/-- Only the nodes of the list matter. -/
theorem Linked.congr (hl : Linked h b l q) (heq : ∀ a ∈ addrs l, h' a = h a) : Linked h' b l q := by
  induction l generalizing b with
  | nil => trivial
  | cons n l ih =>
      refine ⟨?_, ih hl.2 fun a ha => heq a (List.mem_cons_of_mem _ ha)⟩
      rw [heq n.1 List.mem_cons_self]
      exact hl.1

theorem Linked.update (hl : Linked h b l q) (ha : a ∉ addrs l) (c : Option (Node α)) :
    Linked (Function.update h a c) b l q := by
  refine hl.congr fun a' ha' => Function.update_of_ne ?_ _ _
  rintro rfl
  exact ha ha'

theorem Linked.cell (hl : Linked h b (l ++ n :: l') q) :
    h n.1 = some ⟨last b l, first l' q, n.2⟩ := (linked_append.mp hl).2.1

/-! ## The ends of a part -/

/-- The first node gets another one before it. -/
theorem Linked.linkPrev_spec (hl : Linked h b l none) (hnodup : (addrs l).Nodup) (x : Option Nat) :
    ∃ h', linkPrev h (last b l) (first l none) x = some (h', last x l) ∧ Linked h' x l none ∧
      ∀ a ∉ addrs l, h' a = h a := by
  cases l with
  | nil => exact ⟨h, rfl, trivial, fun _ _ => rfl⟩
  | cons n l =>
      obtain ⟨hcell, hrest⟩ := hl
      refine ⟨Function.update h n.1 (some ⟨x, first l none, n.2⟩), ?_, ⟨?_, ?_⟩, fun a ha => ?_⟩
      · show (setPrev h n.1 x).map _ = _
        rw [setPrev, hcell]
        rfl
      · exact Function.update_self _ _ _
      · exact hrest.update (List.nodup_cons.mp hnodup).1 _
      · refine Function.update_of_ne ?_ _ _
        rintro rfl
        exact ha List.mem_cons_self

/-- The last node gets another one behind it. -/
theorem Linked.linkNext_spec (hl : Linked h none l q) (hnodup : (addrs l).Nodup) (x : Option Nat) :
    ∃ h', linkNext h (first l q) (last none l) x = some (h', first l x) ∧ Linked h' none l x ∧
      ∀ a ∉ addrs l, h' a = h a := by
  induction l using List.reverseRecOn with
  | nil => exact ⟨h, rfl, trivial, fun _ _ => rfl⟩
  | append_singleton l n _ =>
      obtain ⟨hrest, hcell⟩ := linked_concat.mp hl
      rw [addrs, List.map_append] at hnodup
      have hn : n.1 ∉ addrs l := fun hmem =>
        List.disjoint_of_nodup_append hnodup hmem (List.mem_singleton_self _)
      refine ⟨Function.update h n.1 (some ⟨last none l, x, n.2⟩), ?_, linked_concat.mpr ⟨?_, ?_⟩, fun a ha => ?_⟩
      · rw [last_append, first_append, first_append]
        show (setNext h n.1 x).map _ = _
        rw [setNext, hcell]
        rfl
      · exact hrest.update hn _
      · exact Function.update_self _ _ _
      · refine Function.update_of_ne (fun heq => ha ?_) _ _
        rw [heq, addrs, List.map_append]
        exact List.mem_append_right _ (List.mem_singleton_self _)

/-- A part gets `x` behind it, and then another one gets `y` before it. -/
theorem Linked.relink (hl : Linked h none l q) (hl' : Linked h b l' none)
    (hnodup : (addrs l ++ addrs l').Nodup) (x y : Option Nat) :
    ∃ h₁ h₂, linkNext h (first l q) (last none l) x = some (h₁, first l x) ∧
      linkPrev h₁ (last b l') (first l' none) y = some (h₂, last y l') ∧
      Linked h₂ none l x ∧ Linked h₂ y l' none ∧
      ∀ a ∉ addrs l ++ addrs l', h₁ a = h a ∧ h₂ a = h a := by
  obtain ⟨hleft, hright, hdisjoint⟩ := List.nodup_append.mp hnodup
  obtain ⟨h₁, hnext, hl₁, hframe₁⟩ := hl.linkNext_spec hleft x
  have hmoved : Linked h₁ b l' none := hl'.congr fun a ha => hframe₁ a fun ha' => hdisjoint a ha' a ha rfl
  obtain ⟨h₂, hprev, hl₂, hframe₂⟩ := hmoved.linkPrev_spec hright y
  refine ⟨h₁, h₂, hnext, hprev, ?_, hl₂, fun a ha => ?_⟩
  · exact hl₁.congr fun a ha => hframe₂ a fun ha' => hdisjoint a ha a ha' rfl
  · have hone := hframe₁ a fun ha' => ha (List.mem_append_left _ ha')
    exact ⟨hone, (hframe₂ a fun ha' => ha (List.mem_append_right _ ha')).trans hone⟩

/-- The two can be made in the other order, where they are about different nodes. -/
theorem link_comm {h₁ h₂ : Heap α} {head head' tail tail' y : Option Nat} (hne : ∀ a, p = some a → q ≠ some a)
    (hnext : linkNext h head p x = some (h₁, head')) (hprev : linkPrev h₁ tail q y = some (h₂, tail')) :
    ∃ h', linkPrev h tail q y = some (h', tail') ∧ linkNext h' head p x = some (h₂, head') := by
  cases p with
  | none =>
      cases hnext
      exact ⟨h₂, hprev, rfl⟩
  | some a =>
      obtain ⟨g₁, hset, heq⟩ := Option.map_eq_some_iff.mp hnext
      cases heq
      cases q with
      | none =>
          cases hprev
          exact ⟨h, rfl, hnext⟩
      | some d =>
          have had : d ≠ a := fun heq => hne a rfl (congrArg some heq)
          obtain ⟨c, hc, rfl⟩ := Option.map_eq_some_iff.mp hset
          obtain ⟨g₂, hset', heq⟩ := Option.map_eq_some_iff.mp hprev
          cases heq
          obtain ⟨c', hc', rfl⟩ := Option.map_eq_some_iff.mp hset'
          rw [Function.update_of_ne had] at hc'
          refine ⟨Function.update h d (some { c' with prev := y }), ?_, ?_⟩
          · show (setPrev h d y).map _ = _
            rw [setPrev, hc']
            rfl
          · show (setNext _ a x).map _ = _
            rw [setNext, Function.update_of_ne had.symm, hc, Option.map_some, Function.update_comm had]
            rfl

end DoublyLinked
