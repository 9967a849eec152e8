import Cxlmc.Lib.Choices
import Cxlmc.NodeStack.Basic
import Mathlib.Tactic.IntervalCases

/-!
# The search visits every execution once

The loop around the node stack: run the program, answering every decision point from the stack,
then start over while there is another execution.

The invariant is what an execution leaves behind. After the leaf `σ` the stack holds exactly the
nodes of `σ`, nothing is marked for backtracking, and `last_backtrack` is the last node of `σ` with
a choice left (`visited`). The next execution replays `σ` up to that node, takes its next choice and
then always the first one: this is the next leaf in lexicographic order, so a run of the loop lists
the leaves after `σ` one by one.
-/

namespace Cxlmc

open ChoiceProgram

/-- How a search can fail to come to an end: an assertion in `explore_next`, or the loop bounds of
this model. -/
inductive Fault where
  | assertion
  | outOfFuel
  deriving DecidableEq, Repr

/-- Run the program once, at most `depth` decisions deep. Returns the answers it was given. -/
def runProgram (P : ChoiceProgram) :
    (depth : Nat) → List Nat → NodeStack → Except Fault (List Nat × NodeStack)
  | 0, _, _ => .error .outOfFuel
  | depth + 1, choices, ns =>
      match P choices with
      | none => .ok (choices, ns)
      | some n =>
          match ns.decisionPoint n with
          | none => .error .assertion
          | some (c, ns) => runProgram P depth (choices ++ [c]) ns

/-- Run execution after execution, at most `execs` of them. Returns the answers of each. -/
def explore (P : ChoiceProgram) (depth : Nat) :
    (execs : Nat) → NodeStack → Except Fault (List (List Nat))
  | 0, _ => .error .outOfFuel
  | execs + 1, ns =>
      match runProgram P depth [] ns with
      | .error e => .error e
      | .ok (leaf, ns) =>
          match ns.finishExecution with
          | none => .ok [leaf]
          | some ns => (explore P depth execs ns).map (leaf :: ·)

/-! ## The stack after an execution -/

/-- The nodes of the answers `σ` after `pre`. -/
def nodesFrom (P : ChoiceProgram) : List Nat → List Nat → List Node
  | _, [] => []
  | pre, c :: σ => ⟨c, (P pre).getD 0⟩ :: nodesFrom P (pre ++ [c]) σ

/-- The last node with a choice left. -/
def lastMore : List Node → Option Nat
  | [] => none
  | n :: ns =>
      match lastMore ns with
      | some i => some (i + 1)
      | none => if n.hasMoreChoices then some 0 else none

/-- The stack while an execution runs: `done` are the nodes visited so far, `rest` the nodes still
to be replayed. -/
def running (done rest : List Node) (curr : Option Nat) : NodeStack :=
  ⟨done ++ rest, lastMore done, curr, (done.length : Int) - 1⟩

/-- The stack at the end of an execution with these nodes. -/
def visited (nodes : List Node) : NodeStack := running nodes [] none

@[simp] theorem lastMore_append_singleton (ns : List Node) (n : Node) :
    lastMore (ns ++ [n]) = if n.hasMoreChoices then some ns.length else lastMore ns := by
  induction ns with
  | nil => simp [lastMore]
  | cons m ns ih =>
      simp only [List.cons_append, lastMore, ih]
      cases n.hasMoreChoices <;> simp

/-- No node with a choice left: the leaf is the last one. -/
theorem isLastFrom_of_lastMore {P : ChoiceProgram} {pre σ : List Nat}
    (h : lastMore (nodesFrom P pre σ) = none) : P.IsLastFrom pre σ := by
  induction σ generalizing pre with
  | nil => trivial
  | cons c σ ih =>
      simp only [nodesFrom, lastMore] at h
      split at h
      · simp at h
      · next hσ =>
        refine ⟨fun n hn => ?_, ih hσ⟩
        simp only [hn, Option.getD_some, Node.hasMoreChoices, decide_eq_true_eq] at h
        split at h
        · simp at h
        · omega

/-! ## One decision point -/

theorem noteBacktrack_running (done : List Node) (n : Node) (rest : List Node)
    (curr : Option Nat) (idx : Int) :
    NodeStack.noteBacktrack ⟨(done ++ [n]) ++ rest, lastMore done, curr, idx⟩ done.length =
      some (n, ⟨(done ++ [n]) ++ rest, lastMore (done ++ [n]), curr, idx⟩) := by
  simp only [NodeStack.noteBacktrack, List.append_assoc, List.singleton_append,
    List.getElem?_append_right (Nat.le_refl _), Nat.sub_self, List.getElem?_cons_zero,
    lastMore_append_singleton]
  split <;> rfl

/-- At the end of the stack a node with the first choice is made. -/
theorem decisionPoint_fresh (done : List Node) (n : Nat) :
    (visited done).decisionPoint n = some (0, visited (done ++ [Node.ofSize n])) := by
  have hnext : (visited done).getNext = (none, visited done) := by
    have : ((done.length : Int) - 1 + 1).toNat = done.length := by omega
    simp [visited, running, NodeStack.getNext]
  have hnote := noteBacktrack_running done (Node.ofSize n) [] none ((done.length : Int) - 1 + 1)
  simp only [List.append_nil] at hnote
  rw [NodeStack.decisionPoint, NodeStack.exploreNext, hnext]
  simp only [NodeStack.createNode, visited, running, List.append_nil, hnote, Option.map_some]
  simp [Node.ofSize, Node.getChoice]

theorem getNext_running (done : List Node) (m : Node) (rest : List Node) (curr : Option Nat) :
    (running done (m :: rest) curr).getNext =
      (some done.length, ⟨done ++ m :: rest, lastMore done, curr, (done.length : Int) - 1 + 1⟩) := by
  simp [running, NodeStack.getNext]

/-- Before the node to backtrack to, the choice of the last execution is taken again. -/
theorem decisionPoint_replay (done : List Node) (m : Node) (rest : List Node) (curr : Option Nat)
    (hcurr : curr ≠ some done.length) :
    (running done (m :: rest) curr).decisionPoint m.rfSize =
      some (m.readFromIdx, running (done ++ [m]) rest curr) := by
  have hnote := noteBacktrack_running done m rest curr ((done.length : Int) - 1 + 1)
  simp only [List.append_assoc, List.singleton_append] at hnote
  simp only [NodeStack.decisionPoint, NodeStack.exploreNext, getNext_running, if_neg hcurr, hnote]
  simp [running, Node.getReadFromSize, Node.getChoice]

/-- The node to backtrack to is a later one. -/
theorem decisionPoint_before (done : List Node) (m : Node) (rest : List Node) (b : Nat) :
    (running done (m :: rest) (some (done.length + (b + 1)))).decisionPoint m.rfSize =
      some (m.readFromIdx, running (done ++ [m]) rest (some ((done ++ [m]).length + b))) := by
  have hcurr : some (done.length + (b + 1)) ≠ some done.length := by
    intro h
    have := Option.some.inj h
    omega
  rw [decisionPoint_replay done m rest _ hcurr, List.length_append, List.length_singleton,
    Nat.add_comm b 1, Nat.add_assoc]

/-- At the node to backtrack to, the next choice is taken and the nodes after it are dropped. -/
theorem decisionPoint_backtrack (done : List Node) (m : Node) (rest : List Node) :
    (running done (m :: rest) (some done.length)).decisionPoint m.rfSize =
      some (m.readFromIdx + 1, visited (done ++ [m.incrementReadFrom])) := by
  have hnote := noteBacktrack_running done m.incrementReadFrom [] none
    ((done.length : Int) - 1 + 1)
  have htake : ((done.length : Int) - 1 + 1 + 1).toNat = done.length + 1 := by omega
  have hset : ((done ++ m :: rest).set done.length m.incrementReadFrom).take (done.length + 1) =
      done ++ [m.incrementReadFrom] := by
    rw [List.set_append_right _ _ (Nat.le_refl _)]
    simp [List.take_append]
  simp only [List.append_nil] at hnote
  rw [NodeStack.decisionPoint, NodeStack.exploreNext, getNext_running]
  simp only [List.getElem?_append_right (Nat.le_refl _), Nat.sub_self, List.getElem?_cons_zero,
    Node.getReadFromSize, ↓reduceIte, NodeStack.popRestofstack, Nat.cast_one, htake, hset, hnote,
    Option.map_some]
  simp [Node.getChoice, Node.incrementReadFrom, visited, running]

/-! ## One execution -/

variable {P : ChoiceProgram}

/-- Past the end of the stack, an execution goes to the first leaf below the answers so far. -/
theorem runProgram_fresh (hpos : ∀ π n, P π = some n → 1 ≤ n) {depth : Nat} {pre : List Nat}
    (hd : P.DepthBelow pre depth) (done : List Node) :
    ∃ τ, runProgram P depth pre (visited done) =
        .ok (pre ++ τ, visited (done ++ nodesFrom P pre τ)) ∧
      P.IsLeafFrom pre τ ∧ ∀ c ∈ τ, c = 0 := by
  induction depth generalizing pre done with
  | zero => exact absurd hd.pos (Nat.lt_irrefl 0)
  | succ depth ih =>
      cases hn : P pre with
      | none => exact ⟨[], by simp [runProgram, hn, nodesFrom], hn, by simp⟩
      | some n =>
          have h0 : 0 < n := hpos pre n hn
          obtain ⟨τ, hrun, hleaf, hz⟩ := ih (hd.step hn h0) (done ++ [Node.ofSize n])
          refine ⟨0 :: τ, ?_, ⟨n, hn, h0, hleaf⟩, by simpa using hz⟩
          simp only [runProgram, hn, decisionPoint_fresh, hrun]
          simp [nodesFrom, hn, Node.ofSize]

/-- An execution that replays the leaf `σ` with a choice left goes to the next leaf. -/
theorem runProgram_replay (hpos : ∀ π n, P π = some n → 1 ≤ n) {depth : Nat} {pre σ : List Nat}
    (hd : P.DepthBelow pre depth) (hσ : P.IsLeafFrom pre σ) (done : List Node) {b : Nat}
    (hb : lastMore (nodesFrom P pre σ) = some b) :
    ∃ τ, runProgram P depth pre
          (running done (nodesFrom P pre σ) (some (done.length + b))) =
        .ok (pre ++ τ, visited (done ++ nodesFrom P pre τ)) ∧
      P.IsLeafFrom pre τ ∧ σ < τ ∧ ∀ ρ, P.IsLeafFrom pre ρ → σ < ρ → ¬ ρ < τ := by
  induction σ generalizing depth pre done b with
  | nil => simp [nodesFrom, lastMore] at hb
  | cons c σ ih =>
      obtain ⟨n, hn, hc, hσ⟩ := hσ
      obtain ⟨depth, rfl⟩ : ∃ d, depth = d + 1 := ⟨depth - 1, by have := hd.pos; omega⟩
      have hnode : nodesFrom P pre (c :: σ) = ⟨c, n⟩ :: nodesFrom P (pre ++ [c]) σ := by
        simp [nodesFrom, hn]
      rw [hnode] at hb ⊢
      cases hrest : lastMore (nodesFrom P (pre ++ [c]) σ) with
      | some b' =>
          -- the node to backtrack to lies deeper
          obtain rfl : b = b' + 1 := by simpa [lastMore, hrest, eq_comm] using hb
          have hcurr : some (done.length + (b' + 1)) ≠ some done.length := by simp
          have hidx : (done ++ [(⟨c, n⟩ : Node)]).length + b' = done.length + (b' + 1) := by
            simp only [List.length_append, List.length_singleton]
            omega
          obtain ⟨τ, hrun, hleaf, hlt, hmin⟩ :=
            ih (hd.step hn hc) hσ (done ++ [(⟨c, n⟩ : Node)]) hrest
          refine ⟨c :: τ, ?_, ⟨n, hn, hc, hleaf⟩, List.cons_lt_cons_iff.mpr (.inr ⟨rfl, hlt⟩), ?_⟩
          · have hdp := decisionPoint_replay done ⟨c, n⟩ (nodesFrom P (pre ++ [c]) σ) _ hcurr
            rw [hidx] at hrun
            simp only at hdp
            simp only [runProgram, hn, hdp, hrun]
            simp [nodesFrom, hn]
          · rintro (_ | ⟨d, ρ⟩) hρ hcρ
            · exact absurd hcρ (List.not_lt_nil _)
            · obtain ⟨_, _, _, hρ⟩ := hρ
              rw [List.cons_lt_cons_iff] at hcρ ⊢
              rcases hcρ with hcd | ⟨rfl, hcρ⟩
              · omega
              · rintro (hlt' | ⟨_, hlt'⟩)
                · exact absurd hlt' (Nat.lt_irrefl _)
                · exact hmin ρ hρ hcρ hlt'
      | none =>
          -- this is the node to backtrack to
          have hmore : c + 1 < n ∧ b = 0 := by
            simpa [lastMore, hrest, Node.hasMoreChoices, eq_comm] using hb
          obtain ⟨hc1, rfl⟩ := hmore
          obtain ⟨τ, hrun, hleaf, hz⟩ :=
            runProgram_fresh hpos (hd.step hn hc1) (done ++ [(⟨c + 1, n⟩ : Node)])
          refine ⟨(c + 1) :: τ, ?_, ⟨n, hn, hc1, hleaf⟩,
            List.cons_lt_cons_iff.mpr (.inl (Nat.lt_succ_self c)), ?_⟩
          · have hdp := decisionPoint_backtrack done ⟨c, n⟩ (nodesFrom P (pre ++ [c]) σ)
            simp only [Node.incrementReadFrom] at hdp
            simp only [Nat.add_zero, runProgram, hn, hdp, hrun]
            simp [nodesFrom, hn]
          · rintro (_ | ⟨d, ρ⟩) hρ hcρ
            · exact absurd hcρ (List.not_lt_nil _)
            · obtain ⟨_, _, _, hρ⟩ := hρ
              rw [List.cons_lt_cons_iff] at hcρ ⊢
              rcases hcρ with hcd | ⟨rfl, hcρ⟩
              · rintro (hlt' | ⟨rfl, hlt'⟩)
                · omega
                · exact hleaf.not_lt_zeros hz hρ hlt'
              · exact absurd hcρ (hσ.not_lt_of_isLast (isLastFrom_of_lastMore hrest) hρ)

/-! ## All executions -/

theorem finishExecution_visited (nodes : List Node) :
    (visited nodes).finishExecution =
      (lastMore nodes).map fun b => running [] nodes (some b) := by
  cases h : lastMore nodes <;>
    simp [NodeStack.finishExecution, visited, running, NodeStack.hasAnotherExecution,
      NodeStack.resetExecution, h, lastMore]

/-- After the leaf `σ`, the loop visits the leaves after `σ` in order and stops. -/
theorem explore_after (hfin : P.IsFinite) {depth : Nat} (hd : P.DepthBelow [] depth) :
    ∀ (k : Nat) (σ : List Nat), P.IsLeaf σ → {ρ | P.IsLeaf ρ ∧ σ < ρ}.ncard ≤ k →
      ∀ b, lastMore (nodesFrom P [] σ) = some b → ∀ execs, k ≤ execs →
        ∃ L, explore P depth execs (running [] (nodesFrom P [] σ) (some b)) = .ok L ∧
          L.Pairwise (· < ·) ∧ ∀ ρ, ρ ∈ L ↔ P.IsLeaf ρ ∧ σ < ρ := by
  intro k
  induction k with
  | zero =>
      intro σ hσ hcard b hb
      obtain ⟨τ, -, hleaf, hlt, -⟩ := runProgram_replay hfin.pos hd hσ [] hb
      have hempty := (Set.ncard_eq_zero (hfin.leaves.subset fun _ h => h.1)).mp
        (Nat.le_zero.mp hcard)
      exact absurd (show τ ∈ {ρ | P.IsLeaf ρ ∧ σ < ρ} from ⟨hleaf, hlt⟩) (by simp [hempty])
  | succ k ih =>
      intro σ hσ hcard b hb execs hk
      obtain ⟨execs, rfl⟩ : ∃ e, execs = e + 1 := ⟨execs - 1, by omega⟩
      obtain ⟨τ, hrun, hleaf, hlt, hmin⟩ := runProgram_replay hfin.pos hd hσ [] hb
      simp only [List.length_nil, Nat.zero_add, List.nil_append] at hrun
      have hsplit : ∀ ρ, P.IsLeaf ρ ∧ σ < ρ ↔ ρ = τ ∨ (P.IsLeaf ρ ∧ τ < ρ) := by
        intro ρ
        constructor
        · rintro ⟨hρ, hσρ⟩
          rcases lt_trichotomy ρ τ with h | h | h
          · exact absurd h (hmin ρ hρ hσρ)
          · exact .inl h
          · exact .inr ⟨hρ, h⟩
        · rintro (rfl | ⟨hρ, h⟩)
          · exact ⟨hleaf, hlt⟩
          · exact ⟨hρ, lt_trans hlt h⟩
      simp only [explore, hrun, finishExecution_visited]
      cases hτ : lastMore (nodesFrom P [] τ) with
      | none =>
          -- the last leaf
          refine ⟨[τ], by simp, by simp, fun ρ => ?_⟩
          rw [hsplit, List.mem_singleton]
          constructor
          · exact .inl
          · rintro (h | ⟨hρ, h⟩)
            · exact h
            · exact absurd h (hleaf.not_lt_of_isLast (isLastFrom_of_lastMore hτ) hρ)
      | some b' =>
          have hfewer : {ρ | P.IsLeaf ρ ∧ τ < ρ}.ncard ≤ k := by
            have hsub : {ρ | P.IsLeaf ρ ∧ τ < ρ} ⊂ {ρ | P.IsLeaf ρ ∧ σ < ρ} := by
              refine ⟨fun ρ h => (hsplit ρ).mpr (.inr h), fun h => ?_⟩
              exact lt_irrefl τ (h (show τ ∈ {ρ | P.IsLeaf ρ ∧ σ < ρ} from ⟨hleaf, hlt⟩)).2
            have := Set.ncard_lt_ncard hsub (hfin.leaves.subset fun _ h => h.1)
            omega
          obtain ⟨L, hL, hsorted, hmem⟩ := ih τ hleaf hfewer b' hτ execs (by omega)
          refine ⟨τ :: L, by simp [hL, Except.map], ?_, fun ρ => ?_⟩
          · exact List.pairwise_cons.mpr ⟨fun ρ hρ => ((hmem ρ).mp hρ).2, hsorted⟩
          · rw [hsplit, List.mem_cons, hmem]

/-- **Exhaustive search.** For every finite program the loop comes to an end without a failed
assertion, and the executions it ran are exactly the leaves of the program, each once and in
lexicographic order. The two bounds only have to be large enough. -/
theorem explore_exhaustive (P : ChoiceProgram) (hfin : P.IsFinite) :
    ∃ depth₀ execs₀, ∀ depth ≥ depth₀, ∀ execs ≥ execs₀,
      ∃ L, explore P depth execs NodeStack.empty = .ok L ∧
        L.Pairwise (· < ·) ∧ ∀ π, π ∈ L ↔ P.IsLeaf π := by
  obtain ⟨depth₀, hd₀⟩ := hfin.depthBelow
  refine ⟨depth₀, {π | P.IsLeaf π}.ncard + 1, fun depth hdepth execs hexecs => ?_⟩
  have hd : P.DepthBelow [] depth := fun σ hσ => lt_of_lt_of_le (hd₀ σ hσ) hdepth
  obtain ⟨execs, rfl⟩ : ∃ e, execs = e + 1 := ⟨execs - 1, by omega⟩
  obtain ⟨τ, hrun, hleaf, hz⟩ := runProgram_fresh hfin.pos hd []
  have hfirst : ∀ ρ, P.IsLeaf ρ ↔ ρ = τ ∨ (P.IsLeaf ρ ∧ τ < ρ) := by
    intro ρ
    constructor
    · intro hρ
      rcases lt_trichotomy ρ τ with h | h | h
      · exact absurd h (hleaf.not_lt_zeros hz hρ)
      · exact .inl h
      · exact .inr ⟨hρ, h⟩
    · rintro (rfl | h)
      · exact hleaf
      · exact h.1
  have hempty : NodeStack.empty = visited [] := rfl
  simp only [explore, hempty, hrun, finishExecution_visited, List.nil_append]
  cases hτ : lastMore (nodesFrom P [] τ) with
  | none =>
      refine ⟨[τ], by simp, by simp, fun ρ => ?_⟩
      rw [hfirst, List.mem_singleton]
      constructor
      · exact .inl
      · rintro (h | ⟨hρ, h⟩)
        · exact h
        · exact absurd h (hleaf.not_lt_of_isLast (isLastFrom_of_lastMore hτ) hρ)
  | some b =>
      have hcard : {ρ | P.IsLeaf ρ ∧ τ < ρ}.ncard ≤ {π | P.IsLeaf π}.ncard :=
        Set.ncard_le_ncard (fun _ h => h.1) hfin.leaves
      obtain ⟨L, hL, hsorted, hmem⟩ :=
        explore_after hfin hd _ τ hleaf hcard b hτ execs (by omega)
      refine ⟨τ :: L, by simp [hL, Except.map], ?_, fun ρ => ?_⟩
      · exact List.pairwise_cons.mpr ⟨fun ρ hρ => ((hmem ρ).mp hρ).2, hsorted⟩
      · rw [hfirst, List.mem_cons, hmem]

/-- A process that passes two crash points: it stops at the first crash. -/
def insertCrashTwice : ChoiceProgram
  | [] => some 2
  | [1] => some 2
  | _ => none

theorem insertCrashTwice_isFinite : insertCrashTwice.IsFinite where
  finite := by
    refine (Set.toFinite {[], [0], [1], [1, 0], [1, 1]}).subset fun π hπ => ?_
    match π, hπ with
    | [], _ => simp
    | [c], ⟨n, hn, hc, _⟩ =>
        obtain rfl : n = 2 := by simpa [insertCrashTwice, eq_comm] using hn
        interval_cases c <;> simp
    | 0 :: d :: σ, ⟨_, _, _, m, hm, _⟩ => simp [insertCrashTwice] at hm
    | [1, d], ⟨_, _, _, m, hm, hd, _⟩ =>
        obtain rfl : m = 2 := by simpa [insertCrashTwice, eq_comm] using hm
        interval_cases d <;> simp
    | 1 :: d :: e :: σ, ⟨_, _, _, _, _, _, m, hm, _⟩ => simp [insertCrashTwice] at hm
    | (c + 2) :: σ, ⟨n, hn, hc, _⟩ =>
        obtain rfl : n = 2 := by simpa [insertCrashTwice, eq_comm] using hn
        omega
  pos := by
    intro π n hn
    simp only [insertCrashTwice] at hn
    split at hn <;> simp_all <;> omega

theorem explore_insertCrashTwice :
    ∃ depth₀ execs₀, ∀ depth ≥ depth₀, ∀ execs ≥ execs₀,
      ∃ L, explore insertCrashTwice depth execs NodeStack.empty = .ok L ∧
        L.Pairwise (· < ·) ∧ ∀ π, π ∈ L ↔ insertCrashTwice.IsLeaf π :=
  explore_exhaustive insertCrashTwice insertCrashTwice_isFinite

example : explore insertCrashTwice 3 3 NodeStack.empty = .ok [[0], [1, 0], [1, 1]] := by decide

end Cxlmc
