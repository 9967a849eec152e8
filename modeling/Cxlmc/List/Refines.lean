import Cxlmc.Lib.Always
import Cxlmc.List.Rep

/-!
# A list is a sequence

`Sequence` is what a list is for: values in order, each under the number by which a caller knows its node.
`Sequence.run` and `Sequence.runStep` say what the operations mean for sequences. A program on lists does the
same as long as it assigns no list to itself that has elements (`list_refines_iff`): `Shows` is what can be
seen of a list.
-/

namespace Cxlmc

open DoublyLinked LList

variable {α : Type}

/-! ## Sequences -/

structure Sequence (α : Type) where
  items : List (Nat × α)
  fresh : Nat

namespace Sequence

def empty : Sequence α := ⟨[], 0⟩

def vals (s : Sequence α) : List α := s.items.map Prod.snd

/-- The element `node` is replaced by the elements `f` makes of it. -/
def replace (node : Nat) (f : Nat × α → List (Nat × α)) (items : List (Nat × α)) : List (Nat × α) :=
  items.flatMap fun n => if n.1 = node then f n else [n]

/-- The element behind `node`. -/
def behind (node : Nat) (items : List (Nat × α)) : Option Nat :=
  first (items.dropWhile fun n => n.1 ≠ node).tail none

/-- What a use of a list means; `none` where it is not defined. -/
def run (s : Sequence α) : Command α → Option (Sequence α × Result α)
  | .pushFront val => some (⟨(s.fresh, val) :: s.items, s.fresh + 1⟩, .done)
  | .pushBack val => some (⟨s.items ++ [(s.fresh, val)], s.fresh + 1⟩, .done)
  | .addFront val => some (⟨(s.fresh, val) :: s.items, s.fresh + 1⟩, .node (some s.fresh))
  | .addBack val => some (⟨s.items ++ [(s.fresh, val)], s.fresh + 1⟩, .node (some s.fresh))
  | .popFront =>
      match s.items with
      | [] => none
      | n :: items => some (⟨items, s.fresh⟩, .val n.2)
  | .popBack => if s.items.isEmpty then none else some (⟨s.items.dropLast, s.fresh⟩, .done)
  | .clear => some (⟨[], s.fresh⟩, .done)
  | .insertAfter node val =>
      if node ∈ addrs s.items then
        some (⟨replace node (fun n => [n, (s.fresh, val)]) s.items, s.fresh + 1⟩, .node (some s.fresh))
      else none
  | .insertBefore node val =>
      if node ∈ addrs s.items then
        some (⟨replace node (fun n => [(s.fresh, val), n]) s.items, s.fresh + 1⟩, .done)
      else none
  | .erase node =>
      if node ∈ addrs s.items then
        some (⟨replace node (fun _ => []) s.items, s.fresh⟩, .node (behind node s.items))
      else none

/-- The values at the end of the sequence, under new numbers. -/
def append (s : Sequence α) (vals : List α) : Sequence α :=
  ⟨s.items ++ number s.fresh vals, s.fresh + vals.length⟩

/-- What a step means for the sequences of the lists. -/
def runStep (ss : Nat → Sequence α) : Step α → Option ((Nat → Sequence α) × Result α)
  | .on i c => ((ss i).run c).map fun x => (Function.update ss i x.1, x.2)
  | .copy dst src => some (Function.update ss dst (empty.append (ss src).vals), .done)
  | .assign dst src => some (Function.update ss dst (append ⟨[], (ss dst).fresh⟩ (ss src).vals), .done)

variable {pre post : List (Nat × α)} {n : Nat × α}

theorem replace_of_not_mem {items : List (Nat × α)} {node : Nat} (h : node ∉ addrs items)
    (f : Nat × α → List (Nat × α)) : replace node f items = items := by
  induction items with
  | nil => rfl
  | cons m items ih =>
      have hne : m.1 ≠ node := fun heq => h (List.mem_cons.mpr (.inl heq.symm))
      rw [replace, List.flatMap_cons, if_neg hne]
      exact congrArg (m :: ·) (ih fun hmem => h (List.mem_cons_of_mem _ hmem))

/-- The numbers differ, so that one element is replaced. -/
theorem replace_mid (hnodup : (addrs (pre ++ n :: post)).Nodup) (f : Nat × α → List (Nat × α)) :
    replace n.1 f (pre ++ n :: post) = pre ++ (f n ++ post) := by
  obtain ⟨hnot, _⟩ := List.nodup_cons.mp ((addrs_mid pre post n).nodup_iff.mp hnodup)
  have hpre := replace_of_not_mem (fun hmem => hnot (List.mem_append_left _ hmem)) f
  have hpost := replace_of_not_mem (fun hmem => hnot (List.mem_append_right _ hmem)) f
  unfold replace at hpre hpost ⊢
  rw [List.flatMap_append, List.flatMap_cons, hpre, hpost, if_pos rfl]

theorem behind_mid (hnodup : (addrs (pre ++ n :: post)).Nodup) :
    behind n.1 (pre ++ n :: post) = first post none := by
  obtain ⟨hnot, _⟩ := List.nodup_cons.mp ((addrs_mid pre post n).nodup_iff.mp hnodup)
  have hpre : ∀ m ∈ pre, decide (m.1 ≠ n.1) = true := by
    intro m hm
    refine decide_eq_true fun heq => hnot (List.mem_append_left _ ?_)
    rw [← heq]
    exact List.mem_map_of_mem hm
  rw [behind, List.dropWhile_append_of_pos hpre, List.dropWhile_cons_of_neg (by simp), List.tail_cons]

theorem vals_append (fresh : Nat) (vals : List α) : (append ⟨[], fresh⟩ vals).vals = vals := by
  unfold append Sequence.vals
  induction vals generalizing fresh with
  | nil => rfl
  | cons v vals ih => exact congrArg (v :: ·) (ih (fresh + 1))

end Sequence

namespace LList

/-! ## The operations -/

/-- The list has the elements of the sequence, and its next node gets the number of the next element. -/
structure Models (t : LList α) (s : Sequence α) : Prop where
  rep : t.Rep s.items
  fresh : t.fresh = s.fresh

variable {t : LList α} {s s' : Sequence α} {r : Result α}

/-- The node of an element of the sequence. -/
theorem Models.split (h : t.Models s) {node : Nat} (hnode : node ∈ addrs s.items) :
    ∃ pre n post, n.1 = node ∧ s.items = pre ++ n :: post ∧ t.Rep (pre ++ n :: post) := by
  obtain ⟨n, hn, rfl⟩ := List.mem_map.mp hnode
  obtain ⟨pre, post, hsplit⟩ := List.append_of_mem hn
  exact ⟨pre, n, post, rfl, hsplit, hsplit ▸ h.rep⟩

/-! Each operation does to the elements what it means for the sequence. -/

theorem Models.addFront (h : t.Models s) (val : α) :
    ∃ t', t.addFront val = some (t', s.fresh) ∧ t'.Models ⟨(s.fresh, val) :: s.items, s.fresh + 1⟩ := by
  obtain ⟨t', hadd, hnext, hrep⟩ := h.rep.addFront_spec val
  rw [h.fresh] at hadd hnext hrep
  exact ⟨t', hadd, hrep, hnext⟩

theorem Models.addBack (h : t.Models s) (val : α) :
    ∃ t', t.addBack val = some (t', s.fresh) ∧ t'.Models ⟨s.items ++ [(s.fresh, val)], s.fresh + 1⟩ := by
  obtain ⟨t', hadd, hnext, hrep⟩ := h.rep.addBack_spec val
  rw [h.fresh] at hadd hnext hrep
  exact ⟨t', hadd, hrep, hnext⟩

theorem Models.popFront {n : Nat × α} {items : List (Nat × α)} (h : t.Models s) (hitems : s.items = n :: items) :
    ∃ t', t.popFront = some (t', n.2) ∧ t'.Models ⟨items, s.fresh⟩ := by
  have hrep := h.rep
  rw [hitems] at hrep
  obtain ⟨t', hpop, hnext, hrep'⟩ := hrep.popFront_spec
  exact ⟨t', hpop, hrep', hnext.trans h.fresh⟩

theorem Models.popBack (h : t.Models s) (hne : s.items ≠ []) :
    ∃ t', t.popBack = some t' ∧ t'.Models ⟨s.items.dropLast, s.fresh⟩ := by
  have hrep := h.rep
  rw [← List.dropLast_append_getLast hne] at hrep
  obtain ⟨t', hpop, hnext, hrep'⟩ := hrep.popBack_spec
  exact ⟨t', hpop, hrep', hnext.trans h.fresh⟩

theorem Models.clear (h : t.Models s) : ∃ t', t.clear = some t' ∧ t'.Models ⟨[], s.fresh⟩ := by
  obtain ⟨t', hclear, hnext, hrep⟩ := h.rep.clear_spec
  exact ⟨t', hclear, hrep, hnext.trans h.fresh⟩

theorem Models.insertAfter (h : t.Models s) {node : Nat} (hnode : node ∈ addrs s.items) (val : α) :
    ∃ t', t.insertAfter node val = some (t', s.fresh) ∧
      t'.Models ⟨Sequence.replace node (fun n => [n, (s.fresh, val)]) s.items, s.fresh + 1⟩ := by
  obtain ⟨pre, n, post, rfl, hitems, hsplit⟩ := h.split hnode
  obtain ⟨t', hinsert, hnext, hrep⟩ := hsplit.insertAfter_spec val
  rw [h.fresh] at hinsert hnext hrep
  refine ⟨t', hinsert, ?_, hnext⟩
  rw [hitems, Sequence.replace_mid hsplit.nodup]
  exact hrep

theorem Models.insertBefore (h : t.Models s) {node : Nat} (hnode : node ∈ addrs s.items) (val : α) :
    ∃ t', t.insertBefore node val = some t' ∧
      t'.Models ⟨Sequence.replace node (fun n => [(s.fresh, val), n]) s.items, s.fresh + 1⟩ := by
  obtain ⟨pre, n, post, rfl, hitems, hsplit⟩ := h.split hnode
  obtain ⟨t', hinsert, hnext, hrep⟩ := hsplit.insertBefore_spec val
  rw [h.fresh] at hnext hrep
  refine ⟨t', hinsert, ?_, hnext⟩
  rw [hitems, Sequence.replace_mid hsplit.nodup]
  exact hrep

theorem Models.erase (h : t.Models s) {node : Nat} (hnode : node ∈ addrs s.items) :
    ∃ t', t.erase node = some (t', Sequence.behind node s.items) ∧
      t'.Models ⟨Sequence.replace node (fun _ => []) s.items, s.fresh⟩ := by
  obtain ⟨pre, n, post, rfl, hitems, hsplit⟩ := h.split hnode
  obtain ⟨t', herase, hnext, hrep⟩ := hsplit.erase_spec
  rw [hitems, Sequence.behind_mid hsplit.nodup, Sequence.replace_mid hsplit.nodup]
  exact ⟨t', herase, hrep, hnext.trans h.fresh⟩

theorem Models.run (h : t.Models s) (c : Command α) (hspec : s.run c = some (s', r)) :
    ∃ t', t.run c = some (t', r) ∧ t'.Models s' := by
  cases c with
  | pushFront val =>
      cases hspec
      obtain ⟨t', hadd, hmodels⟩ := h.addFront val
      exact ⟨t', by rw [LList.run, pushFront, hadd]; rfl, hmodels⟩
  | addFront val =>
      cases hspec
      obtain ⟨t', hadd, hmodels⟩ := h.addFront val
      exact ⟨t', by rw [LList.run, hadd]; rfl, hmodels⟩
  | pushBack val =>
      cases hspec
      obtain ⟨t', hadd, hmodels⟩ := h.addBack val
      exact ⟨t', by rw [LList.run, pushBack, hadd]; rfl, hmodels⟩
  | addBack val =>
      cases hspec
      obtain ⟨t', hadd, hmodels⟩ := h.addBack val
      exact ⟨t', by rw [LList.run, hadd]; rfl, hmodels⟩
  | popFront =>
      rw [Sequence.run] at hspec
      split at hspec
      · cases hspec
      · next hitems =>
          cases hspec
          obtain ⟨t', hpop, hmodels⟩ := h.popFront hitems
          exact ⟨t', by rw [LList.run, hpop]; rfl, hmodels⟩
  | popBack =>
      rw [Sequence.run] at hspec
      split at hspec
      · cases hspec
      · next hne =>
          cases hspec
          obtain ⟨t', hpop, hmodels⟩ := h.popBack fun heq => hne (List.isEmpty_iff.mpr heq)
          exact ⟨t', by rw [LList.run, hpop]; rfl, hmodels⟩
  | clear =>
      cases hspec
      obtain ⟨t', hclear, hmodels⟩ := h.clear
      exact ⟨t', by rw [LList.run, hclear]; rfl, hmodels⟩
  | insertAfter node val =>
      obtain ⟨hnode, heq⟩ := Option.ite_none_right_eq_some.mp hspec
      cases heq
      obtain ⟨t', hinsert, hmodels⟩ := h.insertAfter hnode val
      exact ⟨t', by rw [LList.run, hinsert]; rfl, hmodels⟩
  | insertBefore node val =>
      obtain ⟨hnode, heq⟩ := Option.ite_none_right_eq_some.mp hspec
      cases heq
      obtain ⟨t', hinsert, hmodels⟩ := h.insertBefore hnode val
      exact ⟨t', by rw [LList.run, hinsert]; rfl, hmodels⟩
  | erase node =>
      obtain ⟨hnode, heq⟩ := Option.ite_none_right_eq_some.mp hspec
      cases heq
      obtain ⟨t', herase, hmodels⟩ := h.erase hnode
      exact ⟨t', by rw [LList.run, herase]; rfl, hmodels⟩

/-- A copy of the values behind those that the list has. -/
theorem Models.append {src : LList α} {ssrc : Sequence α} (h : t.Models s) (hsrc : src.Models ssrc) :
    ∃ t', copyLoop src.nodes src.fresh src.head t = some t' ∧ t'.Models (s.append ssrc.vals) := by
  obtain ⟨t', hloop, hnext, hrep⟩ := h.rep.copyLoop_spec hsrc.rep.linked hsrc.rep.length_le
  rw [h.fresh] at hnext hrep
  refine ⟨t', ?_, hrep, ?_⟩
  · rw [hsrc.rep.head]
    exact hloop
  · rw [hnext, Sequence.append, Sequence.vals, List.length_map]

/-! ## What can be seen of a list -/

structure Shows (t : LList α) (vals : List α) : Prop where
  forward : t.visit = some vals
  backward : t.visitReverse = some vals.reverse
  head : t.head = none ↔ vals = []
  tail : t.tail = none ↔ vals = []
  size : t.size = vals.length

theorem Models.shows (h : t.Models s) : t.Shows s.vals where
  forward := by
    rw [visit, h.rep.head]
    exact visitLoop_spec h.rep.linked h.rep.length_le
  backward := by
    rw [visitReverse, h.rep.tail]
    exact reverseLoop_spec h.rep.linked h.rep.length_le
  head := by rw [h.rep.head, first_eq_none, Sequence.vals, List.map_eq_nil_iff]
  tail := by rw [h.rep.tail, last_eq_none, Sequence.vals, List.map_eq_nil_iff]
  size := by rw [h.rep.size, Sequence.vals, List.length_map]

/-! ## Programs -/

/-- The lists of a program and their sequences. -/
abbrev Programs (α : Type) := LLists α × (Nat → Sequence α)

/-- A step of both. -/
def Programs.next (x : Programs α) (c : Step α) : Programs α :=
  (((runStep x.1 c).map Prod.fst).getD x.1, ((Sequence.runStep x.2 c).map Prod.fst).getD x.2)

namespace Step

/-- The nodes are nodes of the list, and nothing is removed from a list without elements. -/
def Defined (x : Programs α) (c : Step α) : Prop := (Sequence.runStep x.2 c).isSome

/-- A list that has elements is not assigned to itself. -/
def CopiesOthers (x : Programs α) : Step α → Prop
  | .assign dst src => dst = src → (x.2 src).items.isEmpty
  | _ => True

instance (x : Programs α) (c : Step α) : Decidable (c.Defined x) :=
  inferInstanceAs (Decidable ((Sequence.runStep x.2 c).isSome = true))

instance (x : Programs α) : (c : Step α) → Decidable (c.CopiesOthers x)
  | .assign dst src => inferInstanceAs (Decidable (dst = src → (x.2 src).items.isEmpty = true))
  | .on _ _ | .copy _ _ => inferInstanceAs (Decidable True)

/-- The lists come back from the step with what it means for the sequences, and show these. -/
def Refines (x : Programs α) (c : Step α) : Prop :=
  ∃ ls ss r, runStep x.1 c = some (ls, r) ∧ Sequence.runStep x.2 c = some (ss, r) ∧
    ∀ i, (ls i).Shows (ss i).vals

end Step

theorem Models.runStep {ls : LLists α} {ss ss' : Nat → Sequence α} (h : ∀ i, (ls i).Models (ss i))
    {c : Step α} (hother : c.CopiesOthers (ls, ss)) (hspec : Sequence.runStep ss c = some (ss', r)) :
    ∃ ls', LList.runStep ls c = some (ls', r) ∧ ∀ i, (ls' i).Models (ss' i) := by
  have hupdate : ∀ {dst : Nat} {t' : LList α} {s' : Sequence α}, t'.Models s' →
      ∀ i, (Function.update ls dst t' i).Models (Function.update ss dst s' i) := by
    intro dst t' s' hmodels i
    rw [Function.update_apply, Function.update_apply]
    split
    · exact hmodels
    · exact h i
  cases c with
  | on i c =>
      obtain ⟨⟨s', r'⟩, hc, heq⟩ := Option.map_eq_some_iff.mp hspec
      cases heq
      obtain ⟨t', hrun, hmodels⟩ := (h i).run c hc
      refine ⟨_, ?_, hupdate hmodels⟩
      rw [LList.runStep, hrun]
      rfl
  | copy dst src =>
      cases hspec
      obtain ⟨t', hcopy, hmodels⟩ := Models.append (s := Sequence.empty) ⟨rep_new, rfl⟩ (h src)
      refine ⟨_, ?_, hupdate hmodels⟩
      rw [LList.runStep, copy, hcopy]
      rfl
  | assign dst src =>
      cases hspec
      obtain ⟨cleared, hclear, hmodels⟩ := (h dst).clear
      -- the list that is read: for a list that is assigned to itself, the one that has been cleared
      have hsrc : ((Function.update ls dst cleared) src).Models ⟨(ss src).items, (ss src).fresh⟩ := by
        rw [Function.update_apply]
        split
        · next heq =>
            have hempty := List.isEmpty_iff.mp (hother heq.symm)
            rw [hempty, heq]
            exact hmodels
        · exact h src
      obtain ⟨t', hcopy, hmodels'⟩ := hmodels.append hsrc
      refine ⟨_, ?_, hupdate hmodels'⟩
      rw [LList.runStep, assign, hclear]
      dsimp only [Option.bind_eq_bind, Option.bind_some]
      rw [hcopy]
      rfl

/-- A list that is assigned to itself is empty. -/
theorem Models.assign_self {ls ls' : LLists α} {i : Nat} (h : (ls i).Models s)
    (hassign : assign ls i i = some ls') : (ls' i).visit = some [] := by
  obtain ⟨cleared, hclear, hmodels⟩ := h.clear
  rw [assign, hclear] at hassign
  dsimp only [Option.bind_eq_bind, Option.bind_some] at hassign
  rw [Function.update_self, hmodels.rep.head, first_nil, copyLoop] at hassign
  cases hassign
  rw [Function.update_self]
  exact hmodels.shows.forward

theorem step_refines_iff {x : Programs α} (hx : ∀ i, (x.1 i).Models (x.2 i)) {c : Step α}
    (hdefined : c.Defined x) : c.Refines x ↔ c.CopiesOthers x := by
  constructor
  · rintro ⟨ls, ss, r, hls, hss, hshows⟩
    cases c with
    | on i c => trivial
    | copy dst src => trivial
    | assign dst src =>
        rintro rfl
        obtain ⟨ls', hassign, heq⟩ := Option.map_eq_some_iff.mp hls
        cases heq
        cases hss
        have hvisit := (hshows dst).forward
        rw [(hx dst).assign_self hassign, Function.update_self, Sequence.vals_append] at hvisit
        exact List.isEmpty_iff.mpr (List.map_eq_nil_iff.mp (Option.some.inj hvisit).symm)
  · intro hother
    obtain ⟨⟨ss, r⟩, hss⟩ := Option.isSome_iff_exists.mp hdefined
    obtain ⟨ls, hls, hmodels⟩ := Models.runStep hx hother hss
    exact ⟨ls, ss, r, hls, hss, fun i => (hmodels i).shows⟩

theorem Models.next {x : Programs α} (hx : ∀ i, (x.1 i).Models (x.2 i)) {c : Step α} (hdefined : c.Defined x)
    (hother : c.CopiesOthers x) : ∀ i, ((x.next c).1 i).Models ((x.next c).2 i) := by
  obtain ⟨⟨ss, r⟩, hss⟩ := Option.isSome_iff_exists.mp hdefined
  obtain ⟨ls, hls, hmodels⟩ := Models.runStep hx hother hss
  rw [Programs.next, hls, hss]
  exact hmodels

/-- `P` holds of each step of a program, where it is made. -/
abbrev Along (P : Programs α → Step α → Prop) (cs : List (Step α)) : Prop :=
  Always Programs.next P (fun _ => new, fun _ => Sequence.empty) cs

end LList

/-- The lists of a program are the sequences that its steps mean, after every step, exactly where no list that
has elements is assigned to itself. -/
theorem list_refines_iff (cs : List (LList.Step α)) (hdefined : LList.Along (fun x c => c.Defined x) cs) :
    LList.Along (fun x c => c.Refines x) cs ↔ LList.Along (fun x c => c.CopiesOthers x) cs :=
  always_iff (I := fun x => ∀ i, (x.1 i).Models (x.2 i)) (fun _ _ hx hc => step_refines_iff hx hc)
    (fun _ _ hx hc hrefines => Models.next hx hc ((step_refines_iff hx hc).mp hrefines))
    (fun _ => ⟨rep_new, rfl⟩) hdefined

/-- A list is filled from both ends and in the middle, copied, assigned and emptied. -/
def filledList : List (LList.Step Nat) :=
  [.on 0 (.addBack 3), .on 0 (.pushFront 1), .on 0 (.insertBefore 0 2), .on 0 (.insertAfter 0 4),
    .copy 1 0, .assign 2 1, .on 0 (.erase 2), .on 0 .popFront, .on 0 .popBack, .on 0 (.erase 0),
    .assign 0 0, .on 1 .clear, .assign 1 2, .on 1 (.addFront 0)]

/-- `list_refines_iff` on such a program. -/
theorem list_refines_iff_filled : LList.Along (fun x c => c.Refines x) filledList :=
  (list_refines_iff filledList (by decide)).mpr (by decide)

/-- `l.push_back(1); l = l;`. -/
def assignedToItself : List (LList.Step Nat) := [.on 0 (.pushBack 1), .assign 0 0]

/-- The list is empty after it. -/
theorem list_not_refines : LList.Along (fun x c => c.Defined x) assignedToItself ∧
    ¬ LList.Along (fun x c => c.Refines x) assignedToItself := by
  refine ⟨by decide, fun h => ?_⟩
  obtain ⟨ls, ss, r, hls, hss, hshows⟩ := h.2.1
  have hlist : some (ls 0).visit = some (some []) := by
    show (some (ls, r)).map (fun y => (y.1 0).visit) = _
    rw [← hls]
    rfl
  have hsequence : some (ss 0).vals = some [1] := by
    show (some (ss, r)).map (fun y => (y.1 0).vals) = _
    rw [← hss]
    rfl
  have hvisit := (hshows 0).forward
  rw [Option.some.inj hlist, Option.some.inj hsequence] at hvisit
  cases hvisit

end Cxlmc
