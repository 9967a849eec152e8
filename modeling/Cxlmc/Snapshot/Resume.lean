import Cxlmc.NodeStack.SaveState
import Cxlmc.Snapshot.Check

/-!
# A check that is saved and resumed

With `-e num -s file` the node stack is saved when execution `num` is about to start; with `-l file` a
check starts from there. A resumed check runs exactly the executions that the first one ran from `num`
on, and comes to the same verdict (`check_resumes`).
-/

namespace Cxlmc

open ChoiceProgram

theorem toInt32_inj {num num' : Nat} (h : num ≤ 50000) (h' : num' ≤ 50000)
    (heq : Int32.ofNat num = Int32.ofNat num') : num = num' := by
  have hint := congrArg Int32.toInt heq
  rw [Int32.toInt_ofNat_of_lt (by omega), Int32.toInt_ofNat_of_lt (by omega)] at hint
  exact Int.ofNat.inj hint

/-- The stacks with which an execution starts. -/
def Begun (P : ChoiceProgram) (ns : NodeStack) : Prop := ns = NodeStack.empty ∨ Searched P ns

theorem Begun.searched {P : ChoiceProgram} {depth : Nat} {leaf : List Nat} {ns ns' ns'' : NodeStack}
    (h : Begun P ns) (hrun : runProgram P depth [] ns = .ok (leaf, ns'))
    (hns' : ns'.finishExecution = some ns'') : Searched P ns'' := by
  rcases h with rfl | h
  · exact .first hrun hns'
  · exact .next h hrun hns'

section

variable {t : Setting} {n : Nat}

/-! ## What is saved -/

/-- Once the number is reached, nothing is saved any more. -/
theorem takeSnapshot_nsSave {depth k num e : Nat} {c : Checker} {L : List (List Nat × Report)}
    (hc : c.Ready t n num) (hnum : num ≤ 50000) (hsave : c.executionNumSave = Int32.ofNat e) (he : e ≤ num)
    (hexplore : explore (t.decisions n).program depth k c.nodestack = .ok (L.map Prod.fst))
    (hL : ∀ x ∈ L, (t.decisions n).runWith x.1 = some (some x.2)) (execs : Nat) :
    (takeSnapshot t execs (Int32.ofNat num) c).2.2.nsSave = c.nsSave := by
  induction k generalizing num c L execs with
  | zero => cases hexplore
  | succ k ih =>
      cases execs with
      | zero => rfl
      | succ execs =>
          obtain ⟨leaf, ns, L₁, hmap, hrun, hrest⟩ := explore_succ_ok hexplore
          obtain ⟨x, L, rfl, rfl, rfl⟩ := List.map_eq_cons_iff.mp hmap
          obtain ⟨hanswer, hcount⟩ := answer_of_leaf hrun (hL x List.mem_cons_self)
          rcases takeSnapshot_succ hc hnum hanswer hcount execs with
            ⟨ns', c', _, hlt, hns', hready, hstack, hnumSave, hsaved, hsnap⟩ | ⟨c', _, hsaved, hsnap⟩
          · rcases hrest with ⟨hnone, _⟩ | ⟨ns'', hsome, hrest⟩
            · rw [hnone] at hns'
              cases hns'
            · rw [hns'] at hsome
              cases hsome
              have hne : c.executionNumSave ≠ Int32.ofNat (num + 1) := by
                rw [hsave]
                intro heq
                have := toInt32_inj (by omega) hlt heq
                omega
              rw [if_neg hne] at hsaved
              rw [hsnap, ← hsaved]
              exact ih hready hlt (hnumSave.trans hsave) (Nat.le_succ_of_le he) (hstack ▸ hrest)
                (fun y hy => hL y (List.mem_cons_of_mem x hy)) execs
          · rw [hsnap]
            exact hsaved

/-- What the file holds after a check that has come to execution `e`: the search for the executions from
there on. -/
theorem takeSnapshot_saves {depth k num e : Nat} {c : Checker} {L : List (List Nat × Report)}
    (hc : c.Ready t n num) (hnum : num < e) (he : e ≤ 50000) (hsave : c.executionNumSave = Int32.ofNat e)
    (hbegun : Begun (t.decisions n).program c.nodestack)
    (hexplore : explore (t.decisions n).program depth k c.nodestack = .ok (L.map Prod.fst))
    (hL : ∀ x ∈ L, (t.decisions n).runWith x.1 = some (some x.2)) (execs : Nat)
    (hlog : e - num < (takeSnapshot t execs (Int32.ofNat num) c).1.length) :
    ∃ k' ns, Searched (t.decisions n).program ns ∧
      explore (t.decisions n).program depth k' ns = .ok ((L.drop (e - num)).map Prod.fst) ∧
      (takeSnapshot t execs (Int32.ofNat num) c).2.2.nsSave = c.nsSave.map (ns.saveState (UInt32.ofNat e)) := by
  induction k generalizing num c L execs with
  | zero => cases hexplore
  | succ k ih =>
      cases execs with
      | zero => cases hlog
      | succ execs =>
          obtain ⟨leaf, ns, L₁, hmap, hrun, hrest⟩ := explore_succ_ok hexplore
          obtain ⟨x, L, rfl, rfl, rfl⟩ := List.map_eq_cons_iff.mp hmap
          obtain ⟨hanswer, hcount⟩ := answer_of_leaf hrun (hL x List.mem_cons_self)
          have hL' : ∀ y ∈ L, (t.decisions n).runWith y.1 = some (some y.2) :=
            fun y hy => hL y (List.mem_cons_of_mem x hy)
          rcases takeSnapshot_succ hc (Nat.le_trans (Nat.le_of_lt hnum) he) hanswer hcount execs with
            ⟨ns', c', _, hlt, hns', hready, hstack, hnumSave, hsaved, hsnap⟩ | ⟨c', _, _, hsnap⟩
          · rcases hrest with ⟨hnone, _⟩ | ⟨ns'', hsome, hrest⟩
            · rw [hnone] at hns'
              cases hns'
            · rw [hns'] at hsome
              cases hsome
              have hsearched : Searched (t.decisions n).program ns' := hbegun.searched hrun hns'
              rw [hsnap] at hlog ⊢
              rcases Nat.eq_or_lt_of_le (Nat.succ_le_of_lt hnum) with rfl | hgt
              · -- the execution that is saved comes next
                rw [if_pos hsave] at hsaved
                refine ⟨k, ns', hsearched, ?_, ?_⟩
                · rw [show num.succ - num = 1 by omega, List.drop_succ_cons, List.drop_zero]
                  exact hrest
                · rw [← hsaved]
                  exact takeSnapshot_nsSave hready hlt (hnumSave.trans hsave) (Nat.le_refl _)
                    (hstack ▸ hrest) hL' execs
              · have hne : c.executionNumSave ≠ Int32.ofNat (num + 1) := by
                  rw [hsave]
                  intro heq
                  have := toInt32_inj he hlt heq
                  omega
                rw [if_neg hne] at hsaved
                rw [← hsaved, show e - num = (e - (num + 1)) + 1 by omega, List.drop_succ_cons]
                rw [show e - num = (e - (num + 1)) + 1 by omega] at hlog
                exact ih hready hgt (hnumSave.trans hsave) (.inr (hstack ▸ hsearched)) (hstack ▸ hrest) hL' execs
                  (Nat.lt_of_succ_lt_succ hlog)
          · -- the check has ended before
            rw [hsnap] at hlog
            have hle : (inTurn [(x.1, x.2)]).1.length ≤ 1 := (prefix_inTurn _).length_le
            dsimp only at hlog
            omega

/-! ## The resumed check -/

theorem start_toSearch (executionNumSave : Int32) (nsSave file : Option (List UInt8)) :
    (Checker.start n executionNumSave nsSave (some file) t.mutexType).toSearch =
      Search.init.loadNodestack file := rfl

/-- Loading what has been saved gives a stack that searches the same. -/
theorem explore_setState {P : ChoiceProgram} (hfin : P.IsFinite) (htwo : ∀ cs m, P cs = some m → m = 2)
    (hshort : ∀ cs, P.IsLeaf cs → cs.length ≤ 2 ^ 16) {ns : NodeStack} (hns : Searched P ns)
    (execNum : UInt32) (file : List UInt8) :
    ∃ ns', NodeStack.empty.setState (some (ns.saveState execNum file)) = (execNum, ns') ∧
      ∀ depth k, explore P depth k ns' = explore P depth k ns := by
  obtain ⟨σ, b, hσ, hb, rfl⟩ := hns.eq_running hfin
  have hlen : b < σ.length := by
    have hlt := lastMore_lt hb
    rwa [length_nodesFrom] at hlt
  have hsmall : ∀ m ∈ nodesFrom P [] σ, m.readFromIdx < 256 ∧ m.rfSize < 256 := by
    intro m hm
    obtain ⟨hidx, hsize⟩ := mem_nodesFrom htwo hσ hm
    omega
  obtain ⟨extra, hload⟩ := NodeStack.setState_saveState (nodesFrom P [] σ) none (-1) (lastMore_lt hb) hsmall
    execNum file
  have hstack : running [] (nodesFrom P [] σ) (some b) = ⟨nodesFrom P [] σ, none, some b, -1⟩ := rfl
  refine ⟨_, hstack ▸ hload, ?_⟩
  intro depth k
  rw [Nat.mod_eq_of_lt (Nat.lt_of_lt_of_le hlen (hshort σ hσ))]
  exact explore_extra hσ hlen extra depth k

/-- **No execution is run twice or left out.** A check that saves at execution `e` and comes to this
execution leaves a file from which another check runs the rest: the executions of the first check from
number `e` on, with the same verdict. This holds while no execution has more than `2 ^ 16` decision
points, whatever the file held before and whatever the resumed check saves in turn. -/
theorem check_resumes (h : t.Terminates n)
    (hshort : ∀ x ∈ t.executions n, x.1.length ≤ 2 ^ 16) {e : Nat}
    (hfirst : 1 < e) (he : e ≤ 50000) (file : List UInt8) {execs : Nat} (hexecs : 50000 ≤ execs)
    {log : List (List Nat × Report)} {verdict : Verdict} {c : Checker}
    (hcheck : (Checker.start n (Int32.ofNat e) (some file) none t.mutexType).check t execs = (log, verdict, c))
    (hlog : e ≤ log.length) (executionNumSave : Int32) (nsSave : Option (List UInt8)) :
    ∃ c', (Checker.start n executionNumSave nsSave (some c.nsSave) t.mutexType).check t execs =
      (log.drop (e - 1), verdict, c') := by
  obtain ⟨depth, k, hexplore⟩ := h.exists_explore
  have hL : ∀ x ∈ t.executions n, (t.decisions n).runWith x.1 = some (some x.2) :=
    fun x hx => Setting.mem_executions_iff.mp hx
  have hready : (Checker.start n (Int32.ofNat e) (some file) none t.mutexType).Ready t n 1 :=
    ready_start (Int32.ofNat e) (some file)
  -- the first check, and the file it leaves behind
  obtain ⟨c₁, hsnap⟩ := takeSnapshot_of_explore hready (by decide) hexplore hL execs (by omega)
  have hsnap' : takeSnapshot t execs (Int32.ofNat 1)
      (Checker.start n (Int32.ofNat e) (some file) none t.mutexType) = (log, verdict, c) := hcheck
  rw [hsnap'] at hsnap
  obtain ⟨k', ns, hsearched, hrest, hsaved⟩ := takeSnapshot_saves hready hfirst he rfl (.inl rfl) hexplore hL
    execs (by rw [hsnap']; dsimp only; omega)
  rw [hsnap'] at hsaved
  replace hsaved : c.nsSave = some (ns.saveState (UInt32.ofNat e) file) := hsaved
  -- the second check starts with it
  obtain ⟨ns', hload, hsame⟩ := explore_setState (t.isFinite_decisions n)
    (fun cs m => (t.decisions_asks n).program_eq)
    (fun cs hcs => by
      obtain ⟨r, hr⟩ := h.isLeaf_iff.mp hcs
      exact hshort (cs, r) (Setting.mem_executions_iff.mpr hr))
    hsearched (UInt32.ofNat e) file
  have hsearch : (Checker.start n executionNumSave nsSave (some c.nsSave) t.mutexType).toSearch =
      ⟨Int32.ofNat e, ns'⟩ := by
    rw [hsaved, start_toSearch, Search.loadNodestack, show Search.init.nodestack = NodeStack.empty from rfl,
      hload]
    rfl
  have hnum : (Checker.start n executionNumSave nsSave (some c.nsSave) t.mutexType).executionNum =
      Int32.ofNat e := congrArg Search.executionNum hsearch
  have hstack : (Checker.start n executionNumSave nsSave (some c.nsSave) t.mutexType).nodestack = ns' :=
    congrArg Search.nodestack hsearch
  have hready' : (Checker.start n executionNumSave nsSave (some c.nsSave) t.mutexType).Ready t n e :=
    ⟨Model.fresh_init n 0 (fun _ => 0) t.mutexType, rfl, hnum⟩
  obtain ⟨c₂, hsnap₂⟩ := takeSnapshot_of_explore hready' he (by rw [hstack, hsame]; exact hrest)
    (fun x hx => hL x (List.mem_of_mem_drop hx)) execs (by omega)
  refine ⟨c₂, ?_⟩
  -- and goes through the rest of the list
  have hover : ∀ x ∈ ((t.executions n).take 50000).take (e - 1), x.2.ending = .ended := by
    refine inTurn_take ?_
    rw [show (inTurn ((t.executions n).take 50000)).1 = log from (congrArg Prod.fst hsnap).symm]
    omega
  have hdrop := inTurn_drop hover
  rw [List.drop_take, show 50000 - (e - 1) = 50001 - e by omega] at hdrop
  rw [Checker.check, hnum, hsnap₂, hdrop]
  obtain ⟨hlog', hverdict, _⟩ : log = (inTurn ((t.executions n).take 50000)).1 ∧
      verdict = (inTurn ((t.executions n).take 50000)).2 ∧ c = c₁ := by
    simpa using hsnap
  rw [hlog', hverdict]

end

/-- The second of the two executions is saved and run again. -/
theorem check_resumes_crashOrExit :
    ∃ c', (Checker.start 2 0 none (some ((Checker.start 2 (Int32.ofNat 2) (some []) none
          crashOrExit.mutexType).check crashOrExit 50000).2.2.nsSave) crashOrExit.mutexType).check
        crashOrExit 50000 =
      (((Checker.start 2 (Int32.ofNat 2) (some []) none crashOrExit.mutexType).check crashOrExit 50000).1.drop 1,
        .success, c') :=
  check_resumes crashOrExit_terminates (by decide) (by decide : 1 < 2) (by decide) [] (Nat.le_refl _)
    (Prod.ext rfl (Prod.ext (by decide +kernel) rfl)) (by decide +kernel) 0 none

end Cxlmc
