import Cxlmc.Lib.Bytes
import Cxlmc.NodeStack.Exhaustive
import Mathlib.Data.Set.Finite.List

/-!
# Saving the search and resuming it (`save_state`, `set_state`)

What is saved is the number of the execution, the index of the node to backtrack to in two bytes, and
each node in two bytes. The nodes after the one to backtrack to are dropped by the next execution, so
what an older and longer file leaves behind does no harm. An index from `2 ^ 16` on is cut off, and
the search is resumed at another node (`setState_saveState_iff`).
-/

namespace Cxlmc

open ChoiceProgram Bytes

namespace NodeStack

/-- The two bytes of a node. -/
def saveNode (n : Node) : List UInt8 := [UInt8.ofNat n.getChoice, UInt8.ofNat n.getReadFromSize]

/-- `curr_ind`: the index of the node to backtrack to, in a `uint16_t` that starts as `-1`. -/
def currInd (ns : NodeStack) : UInt16 :=
  match ns.currBacktrack with
  | none => -1
  | some it => if it < ns.nodeList.length then UInt16.ofNat it else -1

/-- `save_state(exec_num, ns_save)`, on a file that holds `file`: it is not truncated. -/
def saveState (ns : NodeStack) (execNum : UInt32) (file : List UInt8) : List UInt8 :=
  let bytes := toBytes 4 execNum.toNat ++ toBytes 2 ns.currInd.toNat ++ ns.nodeList.flatMap saveNode
  bytes ++ file.drop bytes.length

/-- `full_reset()`. -/
def fullReset (ns : NodeStack) : NodeStack := { ns with nodeList := [] }.resetExecution

/-- The loop of `set_state` that reads two bytes at a time. -/
def readNodes : List UInt8 → List Node
  | i₁ :: i₂ :: rest => ⟨i₁.toNat, i₂.toNat⟩ :: readNodes rest
  | _ => []

/-- `set_state(ns_load)`: the number it returns and the stack. `none` is a file that is not there. -/
def setState (ns : NodeStack) : Option (List UInt8) → UInt32 × NodeStack
  | none => (-1, ns)
  | some file =>
      let ns := ns.fullReset
      if (file.take 4).length ≠ 4 then (-1, ns)
      else
        let execNum := UInt32.ofNat (ofBytes (file.take 4))
        let file := file.drop 4
        if (file.take 2).length ≠ 2 then (-1, ns)
        else
          let currInd := ofBytes (file.take 2)
          let ns := { ns with nodeList := readNodes (file.drop 2) }
          (execNum, if currInd < ns.nodeList.length then { ns with currBacktrack := some currInd } else ns)

/-! ## What is read back -/

theorem readNodes_saveNode (nodes : List Node) (rest : List UInt8)
    (hsmall : ∀ n ∈ nodes, n.readFromIdx < 256 ∧ n.rfSize < 256) :
    readNodes (nodes.flatMap saveNode ++ rest) = nodes ++ readNodes rest := by
  induction nodes with
  | nil => rfl
  | cons n nodes ih =>
      obtain ⟨hidx, hsize⟩ := hsmall n List.mem_cons_self
      have hchoice : (UInt8.ofNat n.getChoice).toNat = n.readFromIdx := by
        rw [UInt8.toNat_ofNat']
        exact Nat.mod_eq_of_lt hidx
      have hrf : (UInt8.ofNat n.getReadFromSize).toNat = n.rfSize := by
        rw [UInt8.toNat_ofNat']
        exact Nat.mod_eq_of_lt hsize
      show Node.mk _ _ :: readNodes (nodes.flatMap saveNode ++ rest) = _
      rw [ih fun m hm => hsmall m (List.mem_cons_of_mem n hm), hchoice, hrf]
      rfl

theorem ofBytes_execNum (execNum : UInt32) :
    UInt32.ofNat (ofBytes (toBytes 4 execNum.toNat)) = execNum := by
  have hfits : execNum.toNat < 256 ^ 4 := Nat.lt_of_lt_of_eq execNum.toNat_lt (by decide)
  rw [ofBytes_toBytes, Nat.mod_eq_of_lt hfits]
  exact UInt32.ofNat_toNat

/-- Resuming from a saved stack: the same nodes and maybe more, and the index as far as it fits. -/
theorem setState_saveState (nodes : List Node) (last : Option Nat) (head : Int) {b : Nat}
    (hb : b < nodes.length) (hsmall : ∀ n ∈ nodes, n.readFromIdx < 256 ∧ n.rfSize < 256)
    (execNum : UInt32) (file : List UInt8) :
    ∃ extra, empty.setState (some (saveState ⟨nodes, last, some b, head⟩ execNum file)) =
      (execNum, running [] (nodes ++ extra) (some (b % 2 ^ 16))) := by
  generalize hrest : file.drop (toBytes 4 execNum.toNat ++
    toBytes 2 (currInd ⟨nodes, last, some b, head⟩).toNat ++ nodes.flatMap saveNode).length = rest
  have hind : (currInd ⟨nodes, last, some b, head⟩).toNat = b % 2 ^ 16 := by
    show (if b < nodes.length then UInt16.ofNat b else -1).toNat = _
    rw [if_pos hb, UInt16.toNat_ofNat']
  have hfile : saveState ⟨nodes, last, some b, head⟩ execNum file =
      toBytes 4 execNum.toNat ++ (toBytes 2 (b % 2 ^ 16) ++ (nodes.flatMap saveNode ++ rest)) := by
    rw [saveState]
    dsimp only
    rw [hrest, hind, List.append_assoc, List.append_assoc]
  have hcurr : ofBytes (toBytes 2 (b % 2 ^ 16)) = b % 2 ^ 16 := by
    rw [ofBytes_toBytes]
    exact Nat.mod_mod_of_dvd b (Nat.dvd_refl _)
  have hlt : b % 2 ^ 16 < (nodes ++ readNodes rest).length := by
    rw [List.length_append]
    exact Nat.lt_add_right _ (Nat.lt_of_le_of_lt (Nat.mod_le b _) hb)
  refine ⟨readNodes rest, ?_⟩
  rw [hfile, setState]
  dsimp only
  rw [take_toBytes, drop_toBytes, take_toBytes, drop_toBytes, length_toBytes, length_toBytes, ofBytes_execNum, hcurr,
    readNodes_saveNode nodes rest hsmall, if_neg (not_not.mpr rfl), if_neg (not_not.mpr rfl), if_pos hlt]
  rfl

end NodeStack

variable {P : ChoiceProgram}

/-! ## The stacks that are saved -/

/-- The stacks that `reset_execution` leaves after an execution that has another one. -/
inductive Searched (P : ChoiceProgram) : NodeStack → Prop where
  | first {depth : Nat} {leaf : List Nat} {ns ns' : NodeStack}
      (h : runProgram P depth [] NodeStack.empty = .ok (leaf, ns))
      (h' : ns.finishExecution = some ns') : Searched P ns'
  | next {depth : Nat} {leaf : List Nat} {ns₀ ns ns' : NodeStack} (h₀ : Searched P ns₀)
      (h : runProgram P depth [] ns₀ = .ok (leaf, ns)) (h' : ns.finishExecution = some ns') :
      Searched P ns'

/-- An execution that comes to its end does so with any larger bound. -/
theorem runProgram_mono {d d' : Nat} (hle : d ≤ d') {pre : List Nat} {ns : NodeStack}
    {x : List Nat × NodeStack} (h : runProgram P d pre ns = .ok x) : runProgram P d' pre ns = .ok x := by
  induction d generalizing d' pre ns with
  | zero => cases h
  | succ d ih =>
      obtain ⟨e, rfl⟩ : ∃ e, d' = e + 1 := ⟨d' - 1, by omega⟩
      rw [runProgram] at h ⊢
      split at h
      · exact h
      · next n hP =>
          split at h
          · cases h
          · exact ih (Nat.le_of_succ_le_succ hle) h

/-- A saved stack holds the nodes of a leaf, and backtracks to the last one with a choice left. -/
theorem Searched.eq_running (hfin : P.IsFinite) {ns : NodeStack} (h : Searched P ns) :
    ∃ σ b, P.IsLeaf σ ∧ lastMore (nodesFrom P [] σ) = some b ∧
      ns = running [] (nodesFrom P [] σ) (some b) := by
  obtain ⟨depth₀, hd₀⟩ := hfin.depthBelow
  -- the stack after the end of the execution
  have hend : ∀ {depth : Nat} {ns₀ ns₁ ns' : NodeStack} {leaf τ : List Nat},
      runProgram P depth [] ns₀ = .ok (leaf, ns₁) → ns₁.finishExecution = some ns' → P.IsLeaf τ →
      runProgram P (max depth depth₀) [] ns₀ = .ok (τ, visited (nodesFrom P [] τ)) →
      ∃ σ b, P.IsLeaf σ ∧ lastMore (nodesFrom P [] σ) = some b ∧
        ns' = running [] (nodesFrom P [] σ) (some b) := by
    intro depth ns₀ ns₁ ns' leaf τ hrun hfinish hτ hτrun
    rw [runProgram_mono (Nat.le_max_left depth depth₀) hrun] at hτrun
    cases hτrun
    rw [finishExecution_visited] at hfinish
    obtain ⟨b, hb, rfl⟩ := Option.map_eq_some_iff.mp hfinish
    exact ⟨leaf, b, hτ, hb, rfl⟩
  have hdepth : ∀ depth, P.DepthBelow [] (max depth depth₀) := by
    intro depth σ hσ
    exact Nat.lt_of_lt_of_le (hd₀ σ hσ) (Nat.le_max_right depth depth₀)
  induction h with
  | @first depth leaf ns ns' h h' =>
      obtain ⟨τ, hrun, hτ, _⟩ := runProgram_fresh hfin.pos (hdepth depth) []
      exact hend h h' hτ hrun
  | @next depth leaf ns₀ ns ns' _ h h' ih =>
      obtain ⟨σ, b, hσ, hb, rfl⟩ := ih
      obtain ⟨τ, hrun, hτ, _⟩ := runProgram_replay hfin.pos (hdepth depth) hσ [] hb
      rw [List.length_nil, Nat.zero_add] at hrun
      exact hend h h' hτ hrun

theorem length_nodesFrom (P : ChoiceProgram) (pre σ : List Nat) :
    (nodesFrom P pre σ).length = σ.length := by
  induction σ generalizing pre with
  | nil => rfl
  | cons c σ ih => exact congrArg (· + 1) (ih _)

theorem lastMore_lt {nodes : List Node} {b : Nat} (h : lastMore nodes = some b) :
    b < nodes.length := by
  induction nodes generalizing b with
  | nil => cases h
  | cons n nodes ih =>
      rw [lastMore] at h
      split at h
      · next i hi =>
          cases h
          exact Nat.succ_lt_succ (ih hi)
      · split at h
        · cases h
          exact Nat.zero_lt_succ _
        · cases h

/-- Every node has two choices. -/
theorem mem_nodesFrom (htwo : ∀ π n, P π = some n → n = 2) {pre σ : List Nat}
    (hσ : P.IsLeafFrom pre σ) {n : Node} (hn : n ∈ nodesFrom P pre σ) :
    n.readFromIdx < 2 ∧ n.rfSize = 2 := by
  induction σ generalizing pre with
  | nil => cases hn
  | cons c σ ih =>
      obtain ⟨m, hm, hc, hσ⟩ := hσ
      obtain rfl := htwo pre m hm
      rw [nodesFrom, hm] at hn
      rcases List.mem_cons.mp hn with rfl | hn
      · exact ⟨hc, rfl⟩
      · exact ih hσ hn

/-! ## The next execution -/

theorem nodesFrom_cons {pre : List Nat} {n : Nat} (hn : P pre = some n) (c : Nat) (σ : List Nat) :
    nodesFrom P pre (c :: σ) = ⟨c, n⟩ :: nodesFrom P (pre ++ [c]) σ := by
  rw [nodesFrom, hn]
  rfl

/-- The nodes after the one to backtrack to do not matter. -/
theorem runProgram_extra {depth : Nat} {pre σ : List Nat} (hσ : P.IsLeafFrom pre σ) {b : Nat}
    (hb : b < σ.length) (done extra : List Node) :
    runProgram P depth pre (running done (nodesFrom P pre σ ++ extra) (some (done.length + b))) =
      runProgram P depth pre (running done (nodesFrom P pre σ) (some (done.length + b))) := by
  induction σ generalizing depth pre done b with
  | nil => cases hb
  | cons c σ ih =>
      obtain ⟨n, hn, hc, hσ⟩ := hσ
      have hnode := nodesFrom_cons hn c σ
      cases depth with
      | zero => rfl
      | succ depth =>
          rw [hnode, List.cons_append, runProgram, runProgram, hn]
          cases b with
          | zero =>
              have hdp := fun rest => decisionPoint_backtrack done ⟨c, n⟩ rest
              dsimp only at hdp ⊢
              rw [Nat.add_zero, hdp, hdp]
          | succ b =>
              have hdp := fun rest => decisionPoint_before done ⟨c, n⟩ rest b
              dsimp only at hdp ⊢
              rw [hdp, hdp]
              exact ih hσ (Nat.lt_of_succ_lt_succ hb) (done ++ [⟨c, n⟩])

theorem runProgram_prefix {depth : Nat} {pre leaf : List Nat} {ns ns' : NodeStack}
    (h : runProgram P depth pre ns = .ok (leaf, ns')) : pre <+: leaf := by
  induction depth generalizing pre ns with
  | zero => cases h
  | succ depth ih =>
      rw [runProgram] at h
      split at h
      · cases h
        exact List.prefix_refl _
      · split at h
        · cases h
        · exact (List.prefix_append pre _).trans (ih h)

/-- The execution takes the next choice of the node to backtrack to. -/
theorem runProgram_backtracks {depth : Nat} {pre σ leaf : List Nat} (hσ : P.IsLeafFrom pre σ) {b : Nat}
    (hb : b < σ.length) (done extra : List Node) {ns : NodeStack}
    (h : runProgram P depth pre (running done (nodesFrom P pre σ ++ extra) (some (done.length + b))) =
      .ok (leaf, ns)) : pre ++ σ.take b ++ [σ[b] + 1] <+: leaf := by
  induction σ generalizing depth pre done b with
  | nil => cases hb
  | cons c σ ih =>
      obtain ⟨n, hn, hc, hσ⟩ := hσ
      have hnode := nodesFrom_cons hn c σ
      cases depth with
      | zero => cases h
      | succ depth =>
          rw [hnode, List.cons_append, runProgram, hn] at h
          cases b with
          | zero =>
              have hdp := fun rest => decisionPoint_backtrack done ⟨c, n⟩ rest
              dsimp only at hdp h
              rw [Nat.add_zero, hdp] at h
              rw [List.take_zero, List.append_nil]
              exact runProgram_prefix h
          | succ b =>
              have hdp := fun rest => decisionPoint_before done ⟨c, n⟩ rest b
              dsimp only at hdp h
              rw [hdp] at h
              have htail := ih hσ (Nat.lt_of_succ_lt_succ hb) (done ++ [⟨c, n⟩]) h
              rw [List.append_assoc pre, List.singleton_append] at htail
              exact htail

/-! ## The remaining search -/

/-- The search goes on from a stack that keeps the node to backtrack to. -/
theorem explore_extra {σ : List Nat} (hσ : P.IsLeaf σ) {b : Nat} (hb : b < σ.length)
    (extra : List Node) (depth execs : Nat) :
    explore P depth execs (running [] (nodesFrom P [] σ ++ extra) (some b)) =
      explore P depth execs (running [] (nodesFrom P [] σ) (some b)) := by
  cases execs with
  | zero => rfl
  | succ execs =>
      have hrun : runProgram P depth [] (running [] (nodesFrom P [] σ ++ extra) _) = _ :=
        runProgram_extra hσ hb [] extra
      rw [List.length_nil, Nat.zero_add] at hrun
      rw [explore, explore, hrun]

/-- The first execution of a search that comes to its end. -/
theorem explore_head {depth execs : Nat} {ns : NodeStack} {L : List (List Nat)}
    (h : explore P depth execs ns = .ok L) :
    ∃ leaf ns' L', L = leaf :: L' ∧ runProgram P depth [] ns = .ok (leaf, ns') := by
  cases execs with
  | zero => cases h
  | succ execs =>
      rw [explore] at h
      split at h
      · cases h
      · next leaf ns' hrun =>
          split at h
          · cases h
            exact ⟨leaf, ns', [], rfl, hrun⟩
          · next ns'' _ =>
              cases hrest : explore P depth execs ns'' with
              | error e =>
                  rw [hrest] at h
                  cases h
              | ok L' =>
                  rw [hrest] at h
                  cases h
                  exact ⟨leaf, ns', L', rfl, hrun⟩

/-- From another node to backtrack to, some bounds show a different search. -/
theorem explore_ne (hfin : P.IsFinite) {σ : List Nat} (hσ : P.IsLeaf σ) {b j : Nat}
    (hb : lastMore (nodesFrom P [] σ) = some b) (hj : j < b) (extra : List Node) :
    ∃ depth execs, explore P depth execs (running [] (nodesFrom P [] σ ++ extra) (some j)) ≠
      explore P depth execs (running [] (nodesFrom P [] σ) (some b)) := by
  obtain ⟨depth, hd⟩ := hfin.depthBelow
  obtain ⟨L, hL, _⟩ := explore_after hfin hd _ σ hσ (Nat.le_refl _) b hb _ (Nat.le_refl _)
  refine ⟨depth, {ρ | P.IsLeaf ρ ∧ σ < ρ}.ncard, ?_⟩
  intro heq
  rw [hL] at heq
  have hlen : b < σ.length := by
    have := lastMore_lt hb
    rwa [length_nodesFrom] at this
  have hjlen : j < σ.length := Nat.lt_trans hj hlen
  -- both searches begin with the same execution
  obtain ⟨leaf, ns, L', rfl, hrun⟩ := explore_head hL
  obtain ⟨leaf', ns', L'', hcons, hrun'⟩ := explore_head heq
  cases hcons
  have hrun₀ := runProgram_backtracks (b := b) hσ hlen [] [] (by
    rw [List.append_nil, List.length_nil, Nat.zero_add]
    exact hrun)
  have hrun₁ := runProgram_backtracks (b := j) hσ hjlen [] extra (by
    rw [List.length_nil, Nat.zero_add]
    exact hrun')
  rw [List.nil_append] at hrun₀ hrun₁
  -- but at `j` one repeats the choice and the other takes the next
  have hlen₀ : j < (σ.take b ++ [σ[b] + 1]).length := by
    rw [List.length_append, List.length_take, List.length_singleton]
    omega
  have hlen₁ : j < (σ.take j ++ [σ[j] + 1]).length := by
    rw [List.length_append, List.length_take, List.length_singleton]
    omega
  have hget₀ := hrun₀.getElem hlen₀
  have hget₁ := hrun₁.getElem hlen₁
  have hshort : j < (σ.take b).length := by
    rw [List.length_take]
    omega
  have htake : (σ.take b)[j] = σ[j] := List.getElem_take
  rw [← hget₁, List.getElem_append_left hshort, htake,
    List.getElem_append_right (by rw [List.length_take]; omega)] at hget₀
  simp at hget₀

/-- What is resumed from the file of a saved stack. -/
theorem Searched.resumed (hfin : P.IsFinite) (htwo : ∀ π n, P π = some n → n = 2) {ns : NodeStack}
    (hns : Searched P ns) (execNum : UInt32) (file : List UInt8) :
    ∃ σ b extra, P.IsLeaf σ ∧ lastMore (nodesFrom P [] σ) = some b ∧
      ns = running [] (nodesFrom P [] σ) (some b) ∧
      NodeStack.empty.setState (some (ns.saveState execNum file)) =
        (execNum, running [] (nodesFrom P [] σ ++ extra) (some (b % 2 ^ 16))) := by
  obtain ⟨σ, b, hσ, hb, rfl⟩ := hns.eq_running hfin
  have hsmall : ∀ n ∈ nodesFrom P [] σ, n.readFromIdx < 256 ∧ n.rfSize < 256 := by
    intro n hn
    obtain ⟨hidx, hsize⟩ := mem_nodesFrom htwo hσ hn
    rw [hsize]
    exact ⟨Nat.lt_trans hidx (by decide), by decide⟩
  obtain ⟨extra, hload⟩ := NodeStack.setState_saveState (nodesFrom P [] σ) (lastMore [])
    (([] : List Node).length - 1 : Int) (lastMore_lt hb) hsmall execNum file
  exact ⟨σ, b, extra, hσ, hb, rfl, hload⟩

/-- The search that is resumed from a file is the one that goes on in memory exactly if the index of the
node to backtrack to fits into its two bytes; the number of the execution is always read back. -/
theorem setState_saveState_iff (hfin : P.IsFinite) (htwo : ∀ π n, P π = some n → n = 2)
    {ns : NodeStack} (hns : Searched P ns) (execNum : UInt32) (file : List UInt8) :
    ((NodeStack.empty.setState (some (ns.saveState execNum file))).1 = execNum ∧
      ∀ depth execs,
        explore P depth execs (NodeStack.empty.setState (some (ns.saveState execNum file))).2 =
          explore P depth execs ns) ↔
      ∃ b, ns.currBacktrack = some b ∧ b < 2 ^ 16 := by
  obtain ⟨σ, b, extra, hσ, hb, hns, hload⟩ := hns.resumed hfin htwo execNum file
  have hlen := lastMore_lt hb
  rw [length_nodesFrom] at hlen
  rw [hload, hns]
  constructor
  · rintro ⟨_, hsame⟩
    refine ⟨b, rfl, ?_⟩
    by_contra hge
    have hlt : b % 2 ^ 16 < b :=
      Nat.lt_of_lt_of_le (Nat.mod_lt b (by decide)) (Nat.le_of_not_lt hge)
    obtain ⟨depth, execs, hne⟩ := explore_ne hfin hσ hb hlt extra
    exact hne (hsame depth execs)
  · rintro ⟨b', hb', hlt⟩
    cases hb'
    refine ⟨rfl, ?_⟩
    intro depth execs
    rw [Nat.mod_eq_of_lt hlt]
    exact explore_extra hσ hlen extra depth execs

/-- Saved after the first of three executions, with the node to backtrack to at the top. -/
theorem setState_saveState_insertCrashTwice : ∃ ns, Searched insertCrashTwice ns ∧
    ∀ (execNum : UInt32) (file : List UInt8),
      ((NodeStack.empty.setState (some (ns.saveState execNum file))).1 = execNum ∧
        ∀ depth execs,
          explore insertCrashTwice depth execs
              (NodeStack.empty.setState (some (ns.saveState execNum file))).2 =
            explore insertCrashTwice depth execs ns) ↔
        ∃ b, ns.currBacktrack = some b ∧ b < 2 ^ 16 := by
  have htwo : ∀ π n, insertCrashTwice π = some n → n = 2 := by
    intro π n hn
    unfold insertCrashTwice at hn
    split at hn <;> cases hn <;> rfl
  refine ⟨⟨[⟨0, 2⟩], none, some 0, -1⟩, ?_, ?_⟩
  · exact @Searched.first _ 2 [0] ⟨[⟨0, 2⟩], some 0, none, 0⟩ _ rfl rfl
  · intro execNum file
    exact setState_saveState_iff insertCrashTwice_isFinite htwo
      (@Searched.first _ 2 [0] ⟨[⟨0, 2⟩], some 0, none, 0⟩ _ rfl rfl) execNum file

/-! ## A deep search -/

/-- `n` decision points, each of which may end the program. -/
def deepProgram (n : Nat) : ChoiceProgram := fun π =>
  if π.length < n ∧ ∀ c ∈ π, c = 0 then some 2 else none

theorem deepProgram_two (n : Nat) {π : List Nat} {m : Nat} (h : deepProgram n π = some m) : m = 2 := by
  rw [deepProgram] at h
  split at h
  · exact (Option.some.inj h).symm
  · cases h

theorem deepProgram_path (n : Nat) {pre π : List Nat} (h : (deepProgram n).IsPathFrom pre π) :
    (∀ c ∈ π, c < 2) ∧ (π = [] ∨ pre.length + π.length ≤ n) := by
  induction π generalizing pre with
  | nil => exact ⟨nofun, .inl rfl⟩
  | cons c π ih =>
      obtain ⟨m, hm, hc, hπ⟩ := h
      obtain ⟨hsmall, hlen⟩ := ih hπ
      rw [deepProgram_two n hm] at hc
      refine ⟨?_, .inr ?_⟩
      · intro d hd
        rcases List.mem_cons.mp hd with rfl | hd
        · exact hc
        · exact hsmall d hd
      · have hpre : pre.length < n := by
          rw [deepProgram] at hm
          split at hm
          · next hcond => exact hcond.1
          · cases hm
        rw [List.length_cons]
        rcases hlen with rfl | hlen
        · exact hpre
        · rw [List.length_append, List.length_singleton] at hlen
          omega

theorem deepProgram_isFinite (n : Nat) : (deepProgram n).IsFinite := by
  constructor
  · apply ((List.finite_length_le (Fin 2) n).image (List.map Fin.val)).subset
    intro π hπ
    obtain ⟨hsmall, hlen⟩ := deepProgram_path n hπ
    refine ⟨π.pmap Fin.mk hsmall, ?_, ?_⟩
    · show (π.pmap Fin.mk hsmall).length ≤ n
      rw [List.length_pmap]
      rcases hlen with rfl | hlen
      · exact Nat.zero_le n
      · exact Nat.le_trans (Nat.le_add_left _ _) hlen
    · rw [List.map_pmap]
      exact (List.pmap_eq_map ..).trans (List.map_id π)
  · intro π m hm
    rw [deepProgram_two n hm]
    decide

/-- The nodes of the execution that always goes on. -/
theorem deepProgram_nodes (n : Nat) {pre τ : List Nat} (hpre : ∀ c ∈ pre, c = 0)
    (hτ : (deepProgram n).IsLeafFrom pre τ) (hz : ∀ c ∈ τ, c = 0) :
    nodesFrom (deepProgram n) pre τ = List.replicate (n - pre.length) ⟨0, 2⟩ := by
  induction τ generalizing pre with
  | nil =>
      have hge : ¬ pre.length < n := by
        intro hlt
        have hnone : deepProgram n pre = none := hτ
        rw [deepProgram, if_pos ⟨hlt, hpre⟩] at hnone
        cases hnone
      rw [Nat.sub_eq_zero_of_le (Nat.le_of_not_lt hge)]
      rfl
  | cons c τ ih =>
      obtain ⟨m, hm, _, hτ⟩ := hτ
      obtain rfl : c = 0 := hz c List.mem_cons_self
      obtain rfl := deepProgram_two n hm
      have hlt : pre.length < n := by
        rw [deepProgram] at hm
        split at hm
        · next hcond => exact hcond.1
        · cases hm
      have hrest := ih (by
        intro d hd
        rcases List.mem_append.mp hd with hd | hd
        · exact hpre d hd
        · exact List.mem_singleton.mp hd) hτ fun d hd => hz d (List.mem_cons_of_mem _ hd)
      rw [nodesFrom, hm, hrest, List.length_append, List.length_singleton]
      have hsub : n - pre.length = n - (pre.length + 1) + 1 := by omega
      rw [hsub, List.replicate_succ]
      rfl

/-- A search whose first execution has `2 ^ 16 + 1` decision points: saved and resumed, it backtracks to
the first of them and not to the last. -/
theorem setState_saveState_deep : ∃ P : ChoiceProgram, P.IsFinite ∧ (∀ π n, P π = some n → n = 2) ∧
    ∃ ns, Searched P ns ∧ ∃ depth execs,
      explore P depth execs (NodeStack.empty.setState (some (ns.saveState 1 []))).2 ≠
        explore P depth execs ns := by
  have hfin := deepProgram_isFinite (2 ^ 16 + 1)
  refine ⟨deepProgram (2 ^ 16 + 1), hfin, fun _ _ h => deepProgram_two _ h, ?_⟩
  -- the first execution
  obtain ⟨depth, hd⟩ := hfin.depthBelow
  obtain ⟨τ, hrun, hτ, hz⟩ := runProgram_fresh hfin.pos hd []
  have hmore : lastMore (nodesFrom (deepProgram (2 ^ 16 + 1)) [] τ) = some (2 ^ 16) := by
    have hpre : ∀ c ∈ ([] : List Nat), c = 0 := nofun
    rw [deepProgram_nodes _ hpre hτ hz, List.length_nil, Nat.sub_zero, List.replicate_succ',
      lastMore_append_singleton, if_pos (by decide), List.length_replicate]
  have hns : Searched (deepProgram (2 ^ 16 + 1))
      (running [] (nodesFrom (deepProgram (2 ^ 16 + 1)) [] τ) (some (2 ^ 16))) := by
    apply Searched.first hrun
    rw [List.nil_append, finishExecution_visited, hmore]
    rfl
  refine ⟨_, hns, ?_⟩
  obtain ⟨σ, b, extra, hσ, hb, heq, hload⟩ := hns.resumed hfin (fun _ _ h => deepProgram_two _ h) 1 []
  have hcurr : some (2 ^ 16) = some b := congrArg NodeStack.currBacktrack heq
  cases hcurr
  rw [hload]
  dsimp only
  rw [heq, Nat.mod_self]
  exact explore_ne hfin hσ hb (by decide) extra

end Cxlmc
