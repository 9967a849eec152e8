import Cxlmc.Snapshot.Execution

/-!
# A check runs every execution of the program

The loop of `take_snapshot` is the search of the node stack over the decision tree of the program. The
search lists the leaves; the check goes through this list in turn (`inTurn`), up to `MAX_EXECUTION`, and
stops at the first execution that does not come to its end (`takeSnapshot_of_explore`).
-/

namespace Cxlmc

open ChoiceProgram

/-! ## The numbers of the executions -/

theorem toInt32_succ (num : Nat) : Int32.ofNat num + 1 = Int32.ofNat (num + 1) :=
  (Int32.ofNat_add num 1).symm

theorem le_maxExecution {num : Nat} (h : num ≤ 50001) : Int32.ofNat num ≤ maxExecution ↔ num ≤ 50000 :=
  Int32.ofNat_le_iff_le (by omega) (by decide)

theorem maxExecution_lt {num : Nat} (h : num ≤ 50001) : maxExecution < Int32.ofNat num ↔ 50000 < num :=
  Int32.ofNat_lt_iff_lt (by decide) (by omega)

/-! ## The answers of the node stack -/

section

variable {α : Type}

/-- The node stack answers a tree as it answers its program. -/
theorem answer_of_runProgram {d : Decision α} {P : ChoiceProgram} {depth : Nat} {pre leaf : List Nat}
    {ns ns' : NodeStack} (h : ∀ cs, P (pre ++ cs) = d.program cs)
    (hrun : runProgram P depth pre ns = .ok (leaf, ns')) :
    ∃ cs a, leaf = pre ++ cs ∧ ns.answer d = some (cs, a, ns') := by
  induction d generalizing depth pre ns with
  | done a =>
      have hpre : P pre = none := by
        have hnil := h []
        rwa [List.append_nil] at hnil
      cases depth with
      | zero => cases hrun
      | succ depth =>
          rw [runProgram, hpre] at hrun
          cases hrun
          exact ⟨[], a, (List.append_nil _).symm, rfl⟩
  | choose n k ih =>
      have hpre : P pre = some n := by
        have hnil := h []
        rwa [List.append_nil] at hnil
      cases depth with
      | zero => cases hrun
      | succ depth =>
          rw [runProgram, hpre] at hrun
          dsimp only at hrun
          split at hrun
          · cases hrun
          · next c ns₁ hdp =>
              have hnext : ∀ cs, P ((pre ++ [c]) ++ cs) = (k c).program cs := by
                intro cs
                rw [List.append_assoc, h]
                exact Decision.program_cons n k c cs
              obtain ⟨cs, a, rfl, hanswer⟩ := ih c hnext hrun
              refine ⟨c :: cs, a, by rw [List.append_assoc, List.singleton_append], ?_⟩
              rw [NodeStack.answer, hdp]
              dsimp only
              rw [hanswer]

/-- Where the answers are answers to the questions asked, the result is the one of the tree. -/
theorem answer_runWith {d : Decision α} {ns ns' : NodeStack} {cs : List Nat} {a b : α}
    (h : ns.answer d = some (cs, a, ns')) (hrun : d.runWith cs = some b) : a = b := by
  induction d generalizing ns cs with
  | done a' =>
      cases h
      exact Option.some.inj hrun
  | choose n k ih =>
      rw [NodeStack.answer] at h
      split at h
      · cases h
      · next c ns₁ _ =>
          split at h
          · cases h
          · next cs₁ a₁ ns₂ hanswer =>
              cases h
              rw [Decision.runWith] at hrun
              split at hrun
              · exact ih c hanswer hrun
              · cases hrun

end

/-- The search runs one execution, and goes on from there if there is another one. -/
theorem explore_succ_ok {P : ChoiceProgram} {depth k : Nat} {ns : NodeStack} {L : List (List Nat)}
    (h : explore P depth (k + 1) ns = .ok L) :
    ∃ leaf ns' L', L = leaf :: L' ∧ runProgram P depth [] ns = .ok (leaf, ns') ∧
      ((ns'.finishExecution = none ∧ L' = []) ∨
        ∃ ns'', ns'.finishExecution = some ns'' ∧ explore P depth k ns'' = .ok L') := by
  rw [explore] at h
  split at h
  · cases h
  · next leaf ns' hrun =>
      split at h
      · next hnone =>
          cases h
          exact ⟨leaf, ns', [], rfl, hrun, .inl ⟨hnone, rfl⟩⟩
      · next ns'' hsome =>
          cases hrest : explore P depth k ns'' with
          | error e =>
              rw [hrest] at h
              cases h
          | ok L' =>
              rw [hrest] at h
              cases h
              exact ⟨leaf, ns', L', rfl, hrun, .inr ⟨ns'', hsome, hrest⟩⟩

/-! ## The executions in turn -/

/-- The executions `L` one after the other, until one does not come to its end. -/
def inTurn : List (List Nat × Report) → List (List Nat × Report) × Verdict
  | [] => ([], .success)
  | x :: L =>
      match x.2.ending with
      | .killed => ([x], .failure)
      | .stuck => ([x], .stuck)
      | .ended =>
          let (log, verdict) := inTurn L
          (x :: log, verdict)

section

variable {x : List Nat × Report} {L : List (List Nat × Report)}

theorem inTurn_over (h : x.2.ending = .ended) :
    inTurn (x :: L) = (x :: (inTurn L).1, (inTurn L).2) := by
  rw [inTurn, h]

theorem inTurn_killed (h : x.2.ending = .killed) : inTurn (x :: L) = ([x], .failure) := by
  rw [inTurn, h]

theorem inTurn_stuck (h : x.2.ending = .stuck) : inTurn (x :: L) = ([x], .stuck) := by
  rw [inTurn, h]

theorem prefix_inTurn (L : List (List Nat × Report)) : (inTurn L).1 <+: L := by
  induction L with
  | nil => exact List.prefix_refl _
  | cons x L ih =>
      cases h : x.2.ending with
      | ended =>
          rw [inTurn_over h]
          exact (List.prefix_cons_inj x).mpr ih
      | killed =>
          rw [inTurn_killed h]
          exact ⟨L, rfl⟩
      | stuck =>
          rw [inTurn_stuck h]
          exact ⟨L, rfl⟩

/-- All executions before the last one of the log have come to their end. -/
theorem inTurn_take {k : Nat} (h : k < (inTurn L).1.length) : ∀ x ∈ L.take k, x.2.ending = .ended := by
  induction L generalizing k with
  | nil => simp
  | cons x L ih =>
      cases k with
      | zero => simp
      | succ k =>
          cases hx : x.2.ending with
          | ended =>
              rw [inTurn_over hx, List.length_cons] at h
              intro y hy
              rcases List.mem_cons.mp hy with rfl | hy
              · exact hx
              · exact ih (Nat.lt_of_succ_lt_succ h) y hy
          | killed => simp [inTurn_killed hx] at h
          | stuck => simp [inTurn_stuck hx] at h

/-- What comes after executions that come to their end. -/
theorem inTurn_drop {k : Nat} (h : ∀ x ∈ L.take k, x.2.ending = .ended) :
    inTurn (L.drop k) = ((inTurn L).1.drop k, (inTurn L).2) := by
  induction L generalizing k with
  | nil => simp [inTurn]
  | cons x L ih =>
      cases k with
      | zero => rfl
      | succ k =>
          rw [List.take_succ_cons] at h
          obtain ⟨hx, hL⟩ := List.forall_mem_cons.mp h
          rw [List.drop_succ_cons, ih hL, inTurn_over hx, List.drop_succ_cons]

end

/-! ## From one execution to the next -/

/-- What holds at the start of the execution number `num`. -/
structure Checker.Ready (t : Setting) (n num : Nat) (c : Checker) : Prop where
  fresh : c.model.Fresh n t.mutexType
  rollbackAgain : c.rollbackAgain = true
  executionNum : c.executionNum = Int32.ofNat num

/-- The decision tree of every execution of a check with `n` processes. -/
def Setting.decisions (t : Setting) (n : Nat) : Decision (Option Report) :=
  t.tree (Model.init n 0 (fun _ => 0) t.mutexType)

theorem Setting.tree_fresh {t : Setting} {n : Nat} {s : Model} (h : s.Fresh n t.mutexType) :
    t.tree s = t.decisions n := by
  have hinit := Model.fresh_init n 0 (fun _ => 0) t.mutexType
  rw [decisions, tree, tree, h t.cxlMapping, hinit t.cxlMapping]

theorem Setting.decisions_asks (t : Setting) (n : Nat) : (t.decisions n).Asks (· = 2) fun _ => True :=
  execution_asks t.steps [] _

theorem Setting.isFinite_decisions (t : Setting) (n : Nat) : IsFinite (t.decisions n).program :=
  isFinite_execution t.steps [] _

section

variable {t : Setting} {n num : Nat} {c : Checker} {r : Report} {ns : NodeStack}

/-- An execution that the search lists is one of the program. -/
theorem answer_of_leaf {depth : Nat} {ns₀ : NodeStack} {x : List Nat × Report}
    (hrun : runProgram (t.decisions n).program depth [] ns₀ = .ok (x.1, ns))
    (hx : (t.decisions n).runWith x.1 = some (some x.2)) :
    ns₀.answer (t.decisions n) = some (x.1, some x.2, ns) ∧ x.2.state.processCount = n := by
  obtain ⟨cs, a, hleaf, hanswer⟩ := answer_of_runProgram (fun _ => rfl) hrun
  rw [List.nil_append] at hleaf
  subst hleaf
  obtain rfl := answer_runWith hanswer hx
  exact ⟨hanswer, (mem_execution_iff.mp (Decision.mem_outcomes_of_runWith hx)).1.processCount⟩

/-- The last process of an execution that comes to its end makes the checker ready for the next one. -/
theorem finishExecution_ready (hr : r.state.processCount = n) (hc : c.Ready t n num)
    (hnum : num < 50000) {ns' : NodeStack} (hns : ns.finishExecution = some ns') :
    ∃ c', { c with nodestack := ns, model := r.state }.finishExecution t.mutexType = c' ∧
      c'.Ready t n (num + 1) ∧ c'.nodestack = ns' ∧ c'.executionNumSave = c.executionNumSave ∧
      c'.nsSave = if c.executionNumSave = Int32.ofNat (num + 1)
        then c.nsSave.map (ns'.saveState (UInt32.ofNat (num + 1))) else c.nsSave := by
  refine ⟨_, rfl, ?_⟩
  have hmore : ns.hasAnotherExecution = true ∧ ns.resetExecution = ns' := by
    rw [NodeStack.finishExecution] at hns
    split at hns
    · next hmore => exact ⟨hmore, Option.some.inj hns⟩
    · cases hns
  obtain ⟨hmore, rfl⟩ := hmore
  have hle : Int32.ofNat (num + 1) ≤ maxExecution := (le_maxExecution (by omega)).mpr hnum
  have hfresh := r.state.fresh_reset t.mutexType
  rw [hr] at hfresh
  simp only [Checker.finishExecution, hc.rollbackAgain, hc.executionNum, toInt32_succ, hle, hmore,
    decide_true, Bool.and_self, ↓reduceIte]
  split
  · exact ⟨⟨hfresh, rfl, rfl⟩, rfl, rfl, rfl⟩
  · exact ⟨⟨hfresh, rfl, rfl⟩, rfl, rfl, rfl⟩

/-- After the last execution the check ends. -/
theorem waitForNextExecution_last (hc : c.executionNum = Int32.ofNat num) (hnum : num ≤ 50000)
    (hlast : num = 50000 ∨ ns.finishExecution = none) :
    ({ c with nodestack := ns, model := r.state }.finishExecution t.mutexType).waitForNextExecution
      (Int32.ofNat num + 1) = some false := by
  rw [toInt32_succ]
  refine if_pos ?_
  rcases hlast with rfl | hlast
  · exact .inl ((maxExecution_lt (Nat.le_refl _)).mpr (by decide))
  · have hmore : ns.hasAnotherExecution = false := by
      rw [NodeStack.finishExecution] at hlast
      split at hlast
      · cases hlast
      · next hmore => exact Bool.eq_false_iff.mpr hmore
    refine .inr ?_
    simp only [Checker.finishExecution, hmore, Bool.and_false, Bool.false_eq_true, ↓reduceIte]

theorem waitForNextExecution_ready (hc : c.Ready t n num) (hnum : num ≤ 50000) :
    c.waitForNextExecution (Int32.ofNat num) = some true := by
  have hle : ¬ maxExecution < Int32.ofNat num := by
    rw [maxExecution_lt (by omega)]
    omega
  have hlt : ¬ Int32.ofNat num < Int32.ofNat num := Int32.lt_irrefl
  simp [Checker.waitForNextExecution, hc.rollbackAgain, hc.executionNum, hle, hlt]

/-- Without another execution nothing is saved. -/
theorem finishExecution_nsSave (mutexType : MutexId → MutexType)
    (h : c.rollbackAgain = false ∨ ¬ c.executionNum + 1 ≤ maxExecution ∨
      c.nodestack.hasAnotherExecution = false) :
    (c.finishExecution mutexType).nsSave = c.nsSave := by
  have hfalse : (c.rollbackAgain && decide (c.executionNum + 1 ≤ maxExecution) &&
      c.nodestack.hasAnotherExecution) = false := by
    rcases h with h | h | h <;> simp [h]
  simp only [Checker.finishExecution, hfalse, Bool.false_eq_true, ↓reduceIte]

/-- One execution of the loop: the check goes on with the next one, or it ends here. -/
theorem takeSnapshot_succ (hc : c.Ready t n num) (hnum : num ≤ 50000) {leaf : List Nat}
    (hanswer : c.nodestack.answer (t.decisions n) = some (leaf, some r, ns))
    (hr : r.state.processCount = n) (execs : Nat) :
    (∃ ns' c', r.ending = .ended ∧ num < 50000 ∧ ns.finishExecution = some ns' ∧
      c'.Ready t n (num + 1) ∧ c'.nodestack = ns' ∧ c'.executionNumSave = c.executionNumSave ∧
      (c'.nsSave = if c.executionNumSave = Int32.ofNat (num + 1)
        then c.nsSave.map (ns'.saveState (UInt32.ofNat (num + 1))) else c.nsSave) ∧
      takeSnapshot t (execs + 1) (Int32.ofNat num) c =
        ((leaf, r) :: (takeSnapshot t execs (Int32.ofNat (num + 1)) c').1,
          (takeSnapshot t execs (Int32.ofNat (num + 1)) c').2)) ∨
    (∃ c', (r.ending ≠ .ended ∨ num = 50000 ∨ ns.finishExecution = none) ∧ c'.nsSave = c.nsSave ∧
      takeSnapshot t (execs + 1) (Int32.ofNat num) c =
        ((inTurn [(leaf, r)]).1, (inTurn [(leaf, r)]).2, c')) := by
  rw [← Setting.tree_fresh hc.fresh] at hanswer
  rw [takeSnapshot, hanswer]
  dsimp only
  cases hending : r.ending with
  | killed =>
      refine .inr ⟨_, .inl (by decide), ?_, by rw [inTurn_killed hending]⟩
      exact finishExecution_nsSave _ (.inl rfl)
  | stuck =>
      refine .inr ⟨{ c with nodestack := ns, model := r.state }, .inl (by decide), rfl, ?_⟩
      rw [inTurn_stuck hending]
  | ended =>
      by_cases hlast : num = 50000 ∨ ns.finishExecution = none
      · refine .inr ⟨{ c with nodestack := ns, model := r.state }.finishExecution t.mutexType, .inr hlast, ?_, ?_⟩
        · refine finishExecution_nsSave _ (.inr ?_)
          rcases hlast with rfl | hlast
          · left
            show ¬ c.executionNum + 1 ≤ maxExecution
            rw [hc.executionNum]
            decide
          · right
            rw [NodeStack.finishExecution] at hlast
            split at hlast
            · cases hlast
            · next hmore => exact Bool.eq_false_iff.mpr hmore
        · rw [waitForNextExecution_last hc.executionNum hnum hlast, inTurn_over hending]
          rfl
      · obtain ⟨hne, hmore⟩ := not_or.mp hlast
        obtain ⟨ns', hns'⟩ := Option.ne_none_iff_exists'.mp hmore
        have hlt : num < 50000 := Nat.lt_of_le_of_ne hnum hne
        obtain ⟨c', rfl, hready, hstack, hsaves, hsaved⟩ := finishExecution_ready hr hc hlt hns'
        refine .inl ⟨ns', _, rfl, hlt, hns', hready, hstack, hsaves, hsaved, ?_⟩
        rw [toInt32_succ, waitForNextExecution_ready hready hlt]

end

/-! ## The whole check -/

section

variable {t : Setting} {n : Nat}

/-- The check goes through the executions that the search lists. -/
theorem takeSnapshot_of_explore {depth k num : Nat} {c : Checker} {L : List (List Nat × Report)}
    (hc : c.Ready t n num) (hnum : num ≤ 50000)
    (hexplore : explore (t.decisions n).program depth k c.nodestack = .ok (L.map Prod.fst))
    (hL : ∀ x ∈ L, (t.decisions n).runWith x.1 = some (some x.2)) (execs : Nat)
    (hexecs : 50000 < num + execs) :
    ∃ c', takeSnapshot t execs (Int32.ofNat num) c =
      ((inTurn (L.take (50001 - num))).1, (inTurn (L.take (50001 - num))).2, c') := by
  induction k generalizing num c L execs with
  | zero => cases hexplore
  | succ k ih =>
      obtain ⟨execs, rfl⟩ : ∃ e, execs = e + 1 := ⟨execs - 1, by omega⟩
      have hbound : 50001 - num = (50000 - num) + 1 := by omega
      obtain ⟨leaf, ns, L₁, hmap, hrun, hrest⟩ := explore_succ_ok hexplore
      obtain ⟨x, L, rfl, rfl, rfl⟩ := List.map_eq_cons_iff.mp hmap
      obtain ⟨hanswer, hcount⟩ := answer_of_leaf hrun (hL x List.mem_cons_self)
      rcases takeSnapshot_succ hc hnum hanswer hcount execs with
        ⟨ns', c', hover, hlt, hns', hready, hstack, _, _, hsnap⟩ | ⟨c', hlast, _, hsnap⟩
      · rcases hrest with ⟨hnone, _⟩ | ⟨ns'', hsome, hrest⟩
        · rw [hnone] at hns'
          cases hns'
        · rw [hns'] at hsome
          cases hsome
          obtain ⟨c'', htail⟩ := ih hready hlt (hstack ▸ hrest)
            (fun y hy => hL y (List.mem_cons_of_mem x hy)) execs (by omega)
          have hleft : 50001 - (num + 1) = 50000 - num := by omega
          refine ⟨c'', ?_⟩
          rw [hsnap, htail, hleft, hbound, List.take_succ_cons, inTurn_over hover]
      · refine ⟨c', ?_⟩
        rw [hsnap, hbound, List.take_succ_cons]
        rcases hlast with hover | rfl | hnone
        · cases hending : x.2.ending with
          | ended => exact absurd hending hover
          | killed => rw [inTurn_killed hending, inTurn_killed hending]
          | stuck => rw [inTurn_stuck hending, inTurn_stuck hending]
        · simp
        · rcases hrest with ⟨_, hnil⟩ | ⟨ns'', hsome, _⟩
          · rw [List.map_eq_nil_iff.mp hnil, List.take_nil]
          · rw [hnone] at hsome
            cases hsome

/-- The search of the empty stack lists the leaves in order. -/
theorem explore_empty {P : ChoiceProgram} (hfin : P.IsFinite) :
    ∃ depth k L, explore P depth k NodeStack.empty = .ok L ∧ L.Pairwise (· < ·) ∧
      ∀ cs, cs ∈ L ↔ P.IsLeaf cs := by
  obtain ⟨depth, hd⟩ := hfin.depthBelow
  obtain ⟨τ, hrun, hτ, hzeros⟩ := runProgram_fresh hfin.pos hd []
  rw [List.nil_append, List.nil_append] at hrun
  have hfirst : ∀ ρ, P.IsLeaf ρ → ρ = τ ∨ τ < ρ := by
    intro ρ hρ
    rcases lt_trichotomy ρ τ with hlt | heq | hgt
    · exact absurd hlt (hτ.not_lt_zeros hzeros hρ)
    · exact .inl heq
    · exact .inr hgt
  refine ⟨depth, {ρ | P.IsLeaf ρ ∧ τ < ρ}.ncard + 1, ?_⟩
  rw [explore, show NodeStack.empty = visited [] from rfl, hrun]
  dsimp only
  rw [finishExecution_visited]
  cases hb : lastMore (nodesFrom P [] τ) with
  | none =>
      refine ⟨[τ], rfl, List.pairwise_singleton _ _, ?_⟩
      intro ρ
      rw [List.mem_singleton]
      constructor
      · intro h
        exact h ▸ hτ
      · intro hρ
        apply (hfirst ρ hρ).resolve_right
        exact hτ.not_lt_of_isLast (isLastFrom_of_lastMore hb) hρ
  | some b =>
      obtain ⟨L, hL, hsorted, hmem⟩ := explore_after hfin hd _ τ hτ (Nat.le_refl _) b hb _ (Nat.le_refl _)
      refine ⟨τ :: L, by simp [hL, Except.map], ?_, ?_⟩
      · exact List.pairwise_cons.mpr ⟨fun ρ hρ => ((hmem ρ).mp hρ).2, hsorted⟩
      · intro ρ
        rw [List.mem_cons, hmem]
        constructor
        · intro h
          rcases h with rfl | ⟨hρ, _⟩
          · exact hτ
          · exact hρ
        · intro hρ
          exact (hfirst ρ hρ).imp id fun hlt => ⟨hρ, hlt⟩

/-- No execution of the program with `n` processes takes more than `steps` steps. -/
def Setting.Terminates (t : Setting) (n : Nat) : Prop :=
  ∀ trace s, Follows t.cfg t.prog [] (Model.init n t.cxlMapping (fun _ => 0) t.mutexType) trace s →
    trace.length < t.steps

/-- The report is about an execution of the program with `n` processes. -/
def Setting.Execution (t : Setting) (n : Nat) (r : Report) : Prop :=
  Executes t.cfg t.prog [] (Model.init n t.cxlMapping (fun _ => 0) t.mutexType) r

/-- `steps` is enough where the tree has a report for all answers. -/
theorem Setting.terminates_iff : t.Terminates n ↔ none ∉ (t.decisions n).outcomes := by
  constructor
  · intro h hnone
    obtain ⟨trace, s, hfollows, hlen⟩ := none_mem_execution_iff.mp hnone
    have hlt := h trace s hfollows
    rw [List.length_nil] at hlen
    omega
  · intro h trace s hfollows
    by_contra hlen
    obtain ⟨trace₁, s₁, hfirst, hlen₁⟩ := hfollows.prefix_steps t.steps (by simpa using hlen)
    exact h (none_mem_execution_iff.mpr ⟨trace₁, s₁, hfirst, hlen₁⟩)

/-- The executions of the program with their answers, in the order of these. -/
def Setting.executions (t : Setting) (n : Nat) : List (List Nat × Report) :=
  (t.decisions n).answers.filterMap fun x => x.2.map fun r => (x.1, r)

namespace Setting

/-- The leaves of the tree are executions. -/
theorem Terminates.isLeaf_iff (h : t.Terminates n) {cs : List Nat} :
    ChoiceProgram.IsLeaf (t.decisions n).program cs ↔ ∃ r, (t.decisions n).runWith cs = some (some r) := by
  rw [Decision.isLeaf_program]
  constructor
  · intro h
    obtain ⟨a, ha⟩ := h
    cases a with
    | none => exact absurd (Decision.mem_outcomes_of_runWith ha) (Setting.terminates_iff.mp h)
    | some r => exact ⟨r, ha⟩
  · intro h
    obtain ⟨r, hr⟩ := h
    exact ⟨some r, hr⟩

/-- The tree has every execution of the program. -/
theorem Terminates.execution_iff (h : t.Terminates n) {r : Report} :
    t.Execution n r ↔ ∃ cs, (t.decisions n).runWith cs = some (some r) := by
  rw [← Decision.mem_outcomes_iff]
  constructor
  · intro hr
    refine mem_execution_iff.mpr ⟨hr, ?_⟩
    obtain ⟨s, hfollows, _⟩ := hr
    rw [List.length_nil, Nat.zero_add]
    exact h _ _ hfollows
  · intro hr
    exact (mem_execution_iff.mp hr).1

theorem mem_executions_iff {cs : List Nat} {r : Report} :
    (cs, r) ∈ t.executions n ↔ (t.decisions n).runWith cs = some (some r) := by
  rw [← Decision.mem_answers_iff]
  constructor
  · intro h
    obtain ⟨⟨cs', _ | r'⟩, hmem, heq⟩ := List.mem_filterMap.mp h
    · cases heq
    · cases heq
      exact hmem
  · intro h
    exact List.mem_filterMap.mpr ⟨(cs, some r), h, rfl⟩

theorem executions_pairwise (t : Setting) (n : Nat) :
    (t.executions n).Pairwise fun x y => x.1 < y.1 := by
  rw [executions, List.pairwise_filterMap]
  apply (t.decisions n).answers_pairwise.imp
  intro x y hxy b hb b' hb'
  obtain ⟨_, _, rfl⟩ := Option.map_eq_some_iff.mp hb
  obtain ⟨_, _, rfl⟩ := Option.map_eq_some_iff.mp hb'
  exact hxy

/-- The search lists the executions. -/
theorem Terminates.exists_explore (h : t.Terminates n) :
    ∃ depth k, explore (t.decisions n).program depth k NodeStack.empty =
      .ok ((t.executions n).map Prod.fst) := by
  obtain ⟨depth, k, leaves, hexplore, hsorted, hmem⟩ := explore_empty (t.isFinite_decisions n)
  refine ⟨depth, k, ?_⟩
  rw [hexplore]
  congr 1
  apply hsorted.eq_of_mem_iff (List.pairwise_map.mpr (t.executions_pairwise n))
  intro cs
  rw [hmem, h.isLeaf_iff, List.mem_map]
  constructor
  · intro h
    obtain ⟨r, hr⟩ := h
    exact ⟨(cs, r), mem_executions_iff.mpr hr, rfl⟩
  · intro h
    obtain ⟨⟨_, r⟩, hr, heq⟩ := h
    exact ⟨r, heq ▸ mem_executions_iff.mp hr⟩

end Setting

theorem ready_start (executionNumSave : Int32) (nsSave : Option (List UInt8)) :
    (Checker.start n executionNumSave nsSave none t.mutexType).Ready t n 1 :=
  ⟨Model.fresh_init n 0 (fun _ => 0) t.mutexType, rfl, rfl⟩

/-- **A check explores the program.** The list of executions has every execution of the program, in the
order of their answers; the check of `n` processes, whatever it saves, goes through the first
`MAX_EXECUTION` of them up to the first that does not come to its end. -/
theorem check_explores (h : t.Terminates n) :
    (∀ r, t.Execution n r ↔ ∃ cs, (cs, r) ∈ t.executions n) ∧
      ∀ (executionNumSave : Int32) (nsSave : Option (List UInt8)) (execs : Nat), 50000 ≤ execs →
        ∃ c', (Checker.start n executionNumSave nsSave none t.mutexType).check t execs =
          ((inTurn ((t.executions n).take 50000)).1, (inTurn ((t.executions n).take 50000)).2, c') := by
  constructor
  · intro r
    rw [h.execution_iff]
    exact exists_congr fun cs => Setting.mem_executions_iff.symm
  · intro executionNumSave nsSave execs hexecs
    obtain ⟨depth, k, hexplore⟩ := h.exists_explore
    exact takeSnapshot_of_explore (ready_start executionNumSave nsSave) (by decide) hexplore
      (fun x hx => Setting.mem_executions_iff.mp hx) execs (by omega)

/-- **Each execution is a run.** Without `MEM_POISON`, the steps of an execution of a check that enter the
checker are a run from a state in which nothing has happened, whatever the executions before it did. -/
theorem check_runs (h : t.Terminates n) (hn : 1 ≤ n) (hcfg : t.cfg.memPoison = false)
    (executionNumSave : Int32) (nsSave : Option (List UInt8)) {execs : Nat} (hexecs : 50000 ≤ execs)
    {x : List Nat × Report}
    (hx : x ∈ ((Checker.start n executionNumSave nsSave none t.mutexType).check t execs).1) :
    ∃ tr s, IsRun t.cfg n t.cxlMapping (fun _ => 0) t.mutexType tr s ∧
      (tr.map Prod.snd).Sublist x.2.trace ∧
      (step t.cfg (t.prog x.2.trace s)).Ends s (.error x.2.stop) x.2.state := by
  obtain ⟨depth, k, hexplore⟩ := h.exists_explore
  obtain ⟨c', hcheck⟩ := takeSnapshot_of_explore (ready_start executionNumSave nsSave) (by decide) hexplore
    (fun x hx => Setting.mem_executions_iff.mp hx) execs (by omega)
  have hlog : x ∈ (inTurn ((t.executions n).take 50000)).1 := by
    have hfst := congrArg Prod.fst hcheck
    exact hfst ▸ hx
  have hmem := List.mem_of_mem_take ((prefix_inTurn _).subset hlog)
  exact (h.execution_iff.mpr ⟨x.1, Setting.mem_executions_iff.mp hmem⟩).isRun hcfg hn

end

/-! ## A check with two executions -/

/-- Process `0` passes a crash point, then both processes exit. -/
def crashOrExit : Setting where
  cfg := Config.asBuilt
  prog := fun trace _ => { call := if trace = [] then .insertCrash else .exit }
  cxlMapping := 64
  mutexType := fun _ => .default
  steps := 4

theorem crashOrExit_terminates : crashOrExit.Terminates 2 := by
  have hall : ((crashOrExit.decisions 2).answers.all fun x => x.2.isSome) = true := by decide
  rw [Setting.terminates_iff, Decision.mem_outcomes_iff]
  intro h
  obtain ⟨cs, hcs⟩ := h
  cases List.all_eq_true.mp hall _ (Decision.mem_answers_iff.mpr hcs)

theorem check_explores_crashOrExit :
    (∀ r, crashOrExit.Execution 2 r ↔ ∃ cs, (cs, r) ∈ crashOrExit.executions 2) ∧
      ∀ (executionNumSave : Int32) (nsSave : Option (List UInt8)) (execs : Nat), 50000 ≤ execs →
        ∃ c', (Checker.start 2 executionNumSave nsSave none crashOrExit.mutexType).check crashOrExit execs =
          ((inTurn ((crashOrExit.executions 2).take 50000)).1,
            (inTurn ((crashOrExit.executions 2).take 50000)).2, c') :=
  check_explores crashOrExit_terminates

/-- `check_runs` for the second execution. -/
theorem check_runs_crashOrExit :
    ∃ x, ((Checker.start 2 0 none none crashOrExit.mutexType).check crashOrExit 50000).1[1]? = some x ∧
      x.1 = [1] ∧
      ∃ tr s, IsRun crashOrExit.cfg 2 crashOrExit.cxlMapping (fun _ => 0) crashOrExit.mutexType tr s ∧
        (tr.map Prod.snd).Sublist x.2.trace ∧
        (step crashOrExit.cfg (crashOrExit.prog x.2.trace s)).Ends s (.error x.2.stop) x.2.state := by
  have hsecond : (((Checker.start 2 0 none none crashOrExit.mutexType).check crashOrExit
      50000).1.map Prod.fst)[1]? = some [1] := by
    decide +kernel
  rw [List.getElem?_map, Option.map_eq_some_iff] at hsecond
  obtain ⟨x, hx, hanswers⟩ := hsecond
  exact ⟨x, hx, hanswers,
    check_runs crashOrExit_terminates (by decide) rfl 0 none (Nat.le_refl _) (List.mem_of_getElem? hx)⟩

/-- The check of this program: two executions, and both come to their end. -/
example : (((Checker.start 2 0 none none crashOrExit.mutexType).check crashOrExit 3).1.map Prod.fst,
    ((Checker.start 2 0 none none crashOrExit.mutexType).check crashOrExit 3).2.1) = ([[0], [1]], .success) := by
  decide

end Cxlmc
