import Cxlmc.Model.List
import Mathlib.Data.List.Perm.Subperm
import Mathlib.Data.List.Range

/-!
# Which nodes a list consists of

`Rep t l` says that the list `t` consists of the nodes of `l`, in this order. There is one specification for
each operation of the list, in terms of its nodes.
-/

namespace Cxlmc

open DoublyLinked

namespace LList

variable {α : Type} {t : LList α} {l pre post : List (Nat × α)} {n : Nat × α} {v : α}

structure Rep (t : LList α) (l : List (Nat × α)) : Prop where
  linked : Linked t.nodes none l none
  head : t.head = first l none
  tail : t.tail = last none l
  nodup : (addrs l).Nodup
  fresh : ∀ a ∈ addrs l, a < t.fresh
  size : t.size = l.length

theorem rep_new : Rep (new : LList α) [] :=
  ⟨trivial, rfl, rfl, List.nodup_nil, fun _ h => absurd h List.not_mem_nil, rfl⟩

theorem Rep.fresh_not_mem (h : t.Rep l) : t.fresh ∉ addrs l := fun hmem => Nat.lt_irrefl _ (h.fresh _ hmem)

/-- The addresses below `fresh` are enough fuel for a loop over the list. -/
theorem Rep.length_le (h : t.Rep l) : l.length ≤ t.fresh := by
  have hsub : addrs l ⊆ List.range t.fresh := fun a ha => List.mem_range.mpr (h.fresh a ha)
  have hlen := (h.nodup.subperm hsub).length_le
  rwa [List.length_map, List.length_range] at hlen

theorem addrs_mid (pre post : List (Nat × α)) (n : Nat × α) :
    (addrs (pre ++ n :: post)).Perm (n.1 :: (addrs pre ++ addrs post)) := by
  rw [addrs, List.map_append, List.map_cons]
  exact List.perm_middle

/-- A list of nodes with one more. -/
theorem Rep.nodup_insert (h : t.Rep (pre ++ post)) :
    (addrs (pre ++ (t.fresh, v) :: post)).Nodup ∧ ∀ a ∈ addrs (pre ++ (t.fresh, v) :: post), a < t.fresh + 1 := by
  have hperm := addrs_mid pre post (t.fresh, v)
  have hnodup := h.nodup
  have hfresh := h.fresh
  have hnot := h.fresh_not_mem
  rw [addrs, List.map_append] at hnodup hfresh hnot
  refine ⟨hperm.nodup_iff.mpr (List.nodup_cons.mpr ⟨hnot, hnodup⟩), fun a ha => ?_⟩
  rcases List.mem_cons.mp (hperm.mem_iff.mp ha) with rfl | ha
  · exact Nat.lt_succ_self _
  · exact Nat.lt_succ_of_lt (hfresh a ha)

/-- The new node is linked in between `pre` and `post`: with `node->next` first. -/
theorem Rep.insert_spec (h : t.Rep (pre ++ post)) (v : α) :
    ∃ nodes₁ nodes₂,
      linkNext (Function.update t.nodes t.fresh (some ⟨last none pre, first post none, v⟩)) t.head
        (last none pre) (some t.fresh) = some (nodes₁, first pre (some t.fresh)) ∧
      linkPrev nodes₁ t.tail (first post none) (some t.fresh) = some (nodes₂, last (some t.fresh) post) ∧
      Rep ⟨nodes₂, t.fresh + 1, first pre (some t.fresh), last (some t.fresh) post, t.size + 1⟩
        (pre ++ (t.fresh, v) :: post) := by
  have hnot := h.fresh_not_mem
  have hnodup := h.nodup
  rw [addrs, List.map_append] at hnot hnodup
  obtain ⟨hpre, hpost⟩ := linked_append.mp h.linked
  obtain ⟨nodes₁, nodes₂, hnext, hprev, hl, hl', hframe⟩ :=
    (hpre.update (fun hmem => hnot (List.mem_append_left _ hmem))
      (some ⟨last none pre, first post none, v⟩)).relink
      (hpost.update (fun hmem => hnot (List.mem_append_right _ hmem)) _) hnodup (some t.fresh) (some t.fresh)
  refine ⟨nodes₁, nodes₂, ?_, ?_, ?_⟩
  · rw [h.head, first_append]
    exact hnext
  · rw [h.tail, last_append]
    exact hprev
  · obtain ⟨hnodup', hfresh'⟩ := h.nodup_insert (v := v)
    refine ⟨linked_append.mpr ⟨hl, ?_, hl'⟩, ?_, ?_, hnodup', hfresh', ?_⟩
    · exact (hframe t.fresh hnot).2.trans (Function.update_self _ _ _)
    · rw [first_append, first_cons]
    · rw [last_append, last_cons]
    · show t.size + 1 = _
      rw [h.size, List.length_append, List.length_append, List.length_cons, Nat.add_assoc]

theorem Rep.addFront_spec (h : t.Rep l) (v : α) :
    ∃ t', t.addFront v = some (t', t.fresh) ∧ t'.fresh = t.fresh + 1 ∧ t'.Rep ((t.fresh, v) :: l) := by
  have hsplit : t.Rep ([] ++ l) := h
  obtain ⟨nodes₁, nodes₂, hnext, hprev, hrep⟩ := hsplit.insert_spec v
  cases hnext
  refine ⟨_, ?_, rfl, hrep⟩
  rw [last_nil] at hprev
  rw [addFront, h.head]
  dsimp only
  rw [hprev]
  rfl

theorem Rep.addBack_spec (h : t.Rep l) (v : α) :
    ∃ t', t.addBack v = some (t', t.fresh) ∧ t'.fresh = t.fresh + 1 ∧ t'.Rep (l ++ [(t.fresh, v)]) := by
  have hsplit : t.Rep (l ++ []) := by rwa [List.append_nil]
  obtain ⟨nodes₁, nodes₂, hnext, hprev, hrep⟩ := hsplit.insert_spec v
  cases hprev
  refine ⟨_, ?_, rfl, hrep⟩
  rw [first_nil] at hnext
  rw [addBack, h.tail]
  dsimp only
  rw [hnext]
  rfl

/-- `node->next = tmp`. -/
theorem linkNext_concat {nodes nodes' : Heap α} {head head' q : Option Nat}
    (h : linkNext nodes head (last none (pre ++ [n])) q = some (nodes', head')) :
    setNext nodes n.1 q = some nodes' ∧ head' = head := by
  rw [last_append, last_cons, last_nil] at h
  obtain ⟨x, hset, heq⟩ := Option.map_eq_some_iff.mp h
  cases heq
  exact ⟨hset, rfl⟩

theorem Rep.insertAfter_spec (h : t.Rep (pre ++ n :: post)) (v : α) :
    ∃ t', t.insertAfter n.1 v = some (t', t.fresh) ∧ t'.fresh = t.fresh + 1 ∧
      t'.Rep (pre ++ n :: (t.fresh, v) :: post) := by
  have hcell := h.linked.cell
  rw [List.append_cons] at h ⊢
  obtain ⟨nodes₁, nodes₂, hnext, hprev, hrep⟩ := h.insert_spec v
  obtain ⟨hset, hhead⟩ := linkNext_concat hnext
  rw [last_append, last_cons, last_nil] at hset
  refine ⟨_, ?_, rfl, hrep⟩
  rw [insertAfter, hcell]
  dsimp only [Option.bind_eq_bind, Option.bind_some]
  rw [hset]
  dsimp only [Option.bind_some]
  rw [hprev, hhead]
  rfl

theorem Rep.insertBefore_spec (h : t.Rep (pre ++ n :: post)) (v : α) :
    ∃ t', t.insertBefore n.1 v = some t' ∧ t'.fresh = t.fresh + 1 ∧
      t'.Rep (pre ++ (t.fresh, v) :: n :: post) := by
  have hcell := h.linked.cell
  obtain ⟨nodes₁, nodes₂, hnext, hprev, hrep⟩ := h.insert_spec v
  have hne : ∀ a, last none pre = some a → first (n :: post) none ≠ some a := by
    intro a ha heq
    cases heq
    have hnodup := h.nodup
    rw [addrs, List.map_append] at hnodup
    exact List.disjoint_of_nodup_append hnodup (mem_of_last_eq ha) List.mem_cons_self
  -- the code sets `node->prev` first
  obtain ⟨nodes', hprev', hnext'⟩ := link_comm hne hnext hprev
  obtain ⟨x, hset, heq⟩ := Option.map_eq_some_iff.mp hprev'
  obtain ⟨rfl, htail⟩ := Prod.mk.inj heq
  rw [first_cons] at hset
  refine ⟨_, ?_, rfl, hrep⟩
  rw [insertBefore, hcell]
  dsimp only [Option.bind_eq_bind, Option.bind_some]
  rw [hset]
  dsimp only [Option.bind_some]
  rw [hnext', htail]
  rfl

/-! ## Removal -/

/-- The node is taken out from between `pre` and `post`. -/
theorem Rep.remove_spec (h : t.Rep (pre ++ n :: post)) :
    ∃ nodes₁ nodes₂,
      linkNext t.nodes t.head (last none pre) (first post none) = some (nodes₁, first pre (first post none)) ∧
      linkPrev nodes₁ t.tail (first post none) (last none pre) = some (nodes₂, last (last none pre) post) ∧
      nodes₁ n.1 = t.nodes n.1 ∧ nodes₂ n.1 = t.nodes n.1 ∧
      Rep ⟨free nodes₂ n.1, t.fresh, first pre (first post none), last (last none pre) post, t.size - 1⟩
        (pre ++ post) := by
  have hperm := addrs_mid pre post n
  obtain ⟨hnot, hnodup⟩ := List.nodup_cons.mp (hperm.nodup_iff.mp h.nodup)
  obtain ⟨hpre, _, hpost⟩ := linked_append.mp h.linked
  obtain ⟨nodes₁, nodes₂, hnext, hprev, hl, hl', hframe⟩ :=
    hpre.relink hpost hnodup (first post none) (last none pre)
  obtain ⟨hsame₁, hsame₂⟩ := hframe n.1 hnot
  refine ⟨nodes₁, nodes₂, ?_, ?_, hsame₁, hsame₂, ?_⟩
  · rw [h.head, first_append]
    exact hnext
  · rw [h.tail, last_append, last_cons]
    exact hprev
  · refine ⟨linked_append.mpr ⟨hl.update (fun hmem => hnot (List.mem_append_left _ hmem)) _,
      hl'.update (fun hmem => hnot (List.mem_append_right _ hmem)) _⟩, ?_, ?_, ?_, fun a ha => ?_, ?_⟩
    · rw [first_append]
    · rw [last_append]
    · rw [addrs, List.map_append]
      exact hnodup
    · rw [addrs, List.map_append] at ha
      exact h.fresh a (hperm.mem_iff.mpr (List.mem_cons_of_mem _ ha))
    · show t.size - 1 = _
      rw [h.size, List.length_append, List.length_append, List.length_cons]
      rfl

theorem Rep.popFront_spec (h : t.Rep (n :: l)) :
    ∃ t', t.popFront = some (t', n.2) ∧ t'.fresh = t.fresh ∧ t'.Rep l := by
  have hsplit : t.Rep ([] ++ n :: l) := h
  obtain ⟨nodes₁, nodes₂, hnext, hprev, _, _, hrep⟩ := hsplit.remove_spec
  cases hnext
  rw [last_nil] at hprev
  refine ⟨⟨free nodes₂ n.1, t.fresh, first l none, last none l, t.size - 1⟩, ?_, rfl, hrep⟩
  rw [popFront, h.head]
  dsimp only [first_cons, Option.bind_eq_bind, Option.bind_some]
  rw [h.linked.1]
  dsimp only [Option.bind_some]
  rw [hprev]
  rfl

theorem Rep.popBack_spec (h : t.Rep (l ++ [n])) :
    ∃ t', t.popBack = some t' ∧ t'.fresh = t.fresh ∧ t'.Rep l := by
  obtain ⟨nodes₁, nodes₂, hnext, hprev, _, _, hrep⟩ := h.remove_spec
  cases hprev
  rw [first_nil] at hnext
  rw [List.append_nil] at hrep
  refine ⟨⟨free nodes₁ n.1, t.fresh, first l none, last none l, t.size - 1⟩, ?_, rfl, hrep⟩
  rw [popBack, h.tail, last_append, last_cons, last_nil]
  dsimp only [Option.bind_eq_bind, Option.bind_some]
  rw [h.linked.cell]
  dsimp only [Option.bind_some, first_nil]
  rw [hnext]
  rfl

/-- The node before exists where the node is not the head. -/
theorem unlinkNext_eq {nodes : Heap α} {head : Option Nat} {node : Nat} {c : Node α}
    (hcell : nodes node = some c) (hhead : head = some node ↔ c.prev = none) :
    unlinkNext nodes head node = linkNext nodes head c.prev c.next := by
  rw [unlinkNext, hcell]
  dsimp only [Option.bind_eq_bind, Option.bind_some]
  cases hprev : c.prev with
  | none =>
      rw [if_pos (hhead.mpr hprev)]
      rfl
  | some a =>
      have hne : head ≠ some node := by
        intro heq
        have := hhead.mp heq
        rw [hprev] at this
        cases this
      rw [if_neg hne]
      show (setNext nodes a c.next >>= _) = (setNext nodes a c.next).map _
      cases setNext nodes a c.next <;> rfl

theorem unlinkPrev_eq {nodes : Heap α} {tail : Option Nat} {node : Nat} {c : Node α}
    (hcell : nodes node = some c) (htail : tail = some node ↔ c.next = none) :
    unlinkPrev nodes tail node = linkPrev nodes tail c.next c.prev := by
  rw [unlinkPrev, hcell]
  dsimp only [Option.bind_eq_bind, Option.bind_some]
  cases hnext : c.next with
  | none =>
      rw [if_pos (htail.mpr hnext)]
      rfl
  | some a =>
      have hne : tail ≠ some node := by
        intro heq
        have := htail.mp heq
        rw [hnext] at this
        cases this
      rw [if_neg hne]
      show (setPrev nodes a c.prev >>= _) = (setPrev nodes a c.prev).map _
      cases setPrev nodes a c.prev <;> rfl

theorem Rep.head_eq_iff (h : t.Rep (pre ++ n :: post)) : t.head = some n.1 ↔ last none pre = none := by
  rw [h.head, first_append, first_cons, last_eq_none]
  cases pre with
  | nil => exact iff_of_true rfl rfl
  | cons m pre =>
      refine iff_of_false (fun heq => ?_) (List.cons_ne_nil _ _)
      have hmem : m.1 ∈ addrs (m :: pre) ++ addrs post := List.mem_cons_self
      rw [Option.some.inj heq] at hmem
      exact (List.nodup_cons.mp ((addrs_mid _ _ _).nodup_iff.mp h.nodup)).1 hmem

theorem Rep.tail_eq_iff (h : t.Rep (pre ++ n :: post)) : t.tail = some n.1 ↔ first post none = none := by
  rw [h.tail, last_append, last_cons, first_eq_none]
  induction post using List.reverseRecOn with
  | nil => exact iff_of_true rfl rfl
  | append_singleton post m _ =>
      refine iff_of_false (fun heq => ?_) (List.append_ne_nil_of_right_ne_nil _ (List.cons_ne_nil _ _))
      rw [last_append, last_cons, last_nil] at heq
      have hmem : m.1 ∈ addrs pre ++ addrs (post ++ [m]) :=
        List.mem_append_right _ (List.mem_map_of_mem (List.mem_append_right _ (List.mem_singleton_self m)))
      rw [Option.some.inj heq] at hmem
      exact (List.nodup_cons.mp ((addrs_mid _ _ _).nodup_iff.mp h.nodup)).1 hmem

theorem Rep.erase_spec (h : t.Rep (pre ++ n :: post)) :
    ∃ t', t.erase n.1 = some (t', first post none) ∧ t'.fresh = t.fresh ∧ t'.Rep (pre ++ post) := by
  obtain ⟨nodes₁, nodes₂, hnext, hprev, hsame₁, hsame₂, hrep⟩ := h.remove_spec
  have hcell := h.linked.cell
  rw [hcell] at hsame₁ hsame₂
  refine ⟨⟨free nodes₂ n.1, t.fresh, first pre (first post none), last (last none pre) post, t.size - 1⟩,
    ?_, rfl, hrep⟩
  rw [erase, unlinkNext_eq hcell h.head_eq_iff]
  dsimp only [Option.bind_eq_bind]
  rw [hnext]
  dsimp only [Option.bind_some]
  rw [unlinkPrev_eq hsame₁ h.tail_eq_iff]
  dsimp only
  rw [hprev]
  dsimp only [Option.bind_some]
  rw [hsame₂]
  rfl

/-! ## Loops over a list -/

theorem clearLoop_spec {nodes : Heap α} {b : Option Nat} {fuel : Nat} (hl : Linked nodes b l none)
    (hnodup : (addrs l).Nodup) (hfuel : l.length ≤ fuel) :
    ∃ nodes', clearLoop fuel (first l none) nodes = some nodes' := by
  induction l generalizing nodes b fuel with
  | nil => exact ⟨nodes, by rw [first_nil, clearLoop]⟩
  | cons n l ih =>
      obtain ⟨fuel, rfl⟩ := Nat.exists_eq_succ_of_ne_zero (Nat.ne_zero_of_lt hfuel)
      obtain ⟨hcell, hrest⟩ := hl
      obtain ⟨hn, hnodup⟩ := List.nodup_cons.mp hnodup
      -- the next node is read before the node is freed
      obtain ⟨nodes', hloop⟩ := ih (hrest.update hn none) hnodup (Nat.le_of_succ_le_succ hfuel)
      refine ⟨nodes', ?_⟩
      rw [first_cons, clearLoop, hcell]
      exact hloop

theorem Rep.clear_spec (h : t.Rep l) : ∃ t', t.clear = some t' ∧ t'.fresh = t.fresh ∧ t'.Rep [] := by
  obtain ⟨nodes', hloop⟩ := clearLoop_spec h.linked h.nodup h.length_le
  refine ⟨⟨nodes', t.fresh, none, none, 0⟩, ?_, rfl, ?_⟩
  · rw [clear, h.head, hloop]
    rfl
  · exact ⟨trivial, rfl, rfl, List.nodup_nil, fun _ ha => absurd ha List.not_mem_nil, rfl⟩

theorem visitLoop_spec {nodes : Heap α} {b : Option Nat} {fuel : Nat} (hl : Linked nodes b l none)
    (hfuel : l.length ≤ fuel) : visitLoop nodes fuel (first l none) = some (l.map Prod.snd) := by
  induction l generalizing b fuel with
  | nil => rw [first_nil, visitLoop, List.map_nil]
  | cons n l ih =>
      obtain ⟨fuel, rfl⟩ := Nat.exists_eq_succ_of_ne_zero (Nat.ne_zero_of_lt hfuel)
      obtain ⟨hcell, hrest⟩ := hl
      rw [first_cons, visitLoop, hcell]
      dsimp only [Option.bind_eq_bind, Option.bind_some]
      rw [ih hrest (Nat.le_of_succ_le_succ hfuel)]
      rfl

theorem reverseLoop_spec {nodes : Heap α} {q : Option Nat} {fuel : Nat} (hl : Linked nodes none l q)
    (hfuel : l.length ≤ fuel) : reverseLoop nodes fuel (last none l) = some (l.map Prod.snd).reverse := by
  induction l using List.reverseRecOn generalizing q fuel with
  | nil => rw [last_nil, reverseLoop, List.map_nil, List.reverse_nil]
  | append_singleton l n ih =>
      rw [List.length_append, List.length_singleton] at hfuel
      obtain ⟨fuel, rfl⟩ := Nat.exists_eq_succ_of_ne_zero (Nat.ne_zero_of_lt hfuel)
      obtain ⟨hrest, hcell⟩ := linked_concat.mp hl
      rw [last_append, last_cons, last_nil, reverseLoop, hcell]
      dsimp only [Option.bind_eq_bind, Option.bind_some]
      rw [ih hrest (Nat.le_of_succ_le_succ hfuel), List.map_append, List.reverse_append]
      rfl

/-- The values with the addresses that they get, from `fresh` on. -/
def number (fresh : Nat) (vals : List α) : List (Nat × α) := (vals.zipIdx fresh).map Prod.swap

@[simp] theorem number_nil (fresh : Nat) : number fresh ([] : List α) = [] := rfl

@[simp] theorem number_cons (fresh : Nat) (v : α) (vals : List α) :
    number fresh (v :: vals) = (fresh, v) :: number (fresh + 1) vals := rfl

theorem Rep.copyLoop_spec {list : Heap α} {b : Option Nat} {src : List (Nat × α)} {fuel : Nat} (h : t.Rep l)
    (hl : Linked list b src none) (hfuel : src.length ≤ fuel) :
    ∃ t', copyLoop list fuel (first src none) t = some t' ∧ t'.fresh = t.fresh + src.length ∧
      t'.Rep (l ++ number t.fresh (src.map Prod.snd)) := by
  induction src generalizing b fuel t l with
  | nil => exact ⟨t, by rw [first_nil, copyLoop], rfl, by rwa [List.map_nil, number_nil, List.append_nil]⟩
  | cons n src ih =>
      obtain ⟨fuel, rfl⟩ := Nat.exists_eq_succ_of_ne_zero (Nat.ne_zero_of_lt hfuel)
      obtain ⟨hcell, hrest⟩ := hl
      obtain ⟨t₁, hadd, hfresh, hrep⟩ := h.addBack_spec n.2
      obtain ⟨t', hloop, hfresh', hrep'⟩ := ih hrep hrest (Nat.le_of_succ_le_succ hfuel)
      rw [hfresh] at hfresh' hrep'
      refine ⟨t', ?_, ?_, ?_⟩
      · rw [first_cons, copyLoop, hcell]
        dsimp only [Option.bind_eq_bind, Option.bind_some]
        rw [pushBack, hadd]
        exact hloop
      · rw [hfresh', List.length_cons, Nat.add_assoc, Nat.add_comm 1]
      · rw [List.append_assoc, List.singleton_append] at hrep'
        rwa [List.map_cons, number_cons]

end LList

end Cxlmc
