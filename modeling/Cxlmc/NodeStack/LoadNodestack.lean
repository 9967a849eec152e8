import Cxlmc.NodeStack.SaveState

/-!
# Loading any file (`load_nodestack`)

`set_state` empties the stack before it reads, takes the nodes as they come, and its `-1` becomes the
number of the execution. So a load leaves the model as it was only where the model already was what the
load leaves behind (`loadNodestack_iff`). The files that `save_state` writes are told by their bytes
(`savedFile_iff`).
-/

namespace Cxlmc

open Bytes NodeStack

/-- What the model keeps of the search: `execution_num`, an `int`, and the node stack. -/
structure Search where
  executionNum : Int32
  nodestack : NodeStack

namespace Search

/-- `Model(scheduler)`. -/
def init : Search := ⟨1, NodeStack.empty⟩

/-- `load_nodestack(filepath)`. `none` is a file that is not there. -/
def loadNodestack (m : Search) (file : Option (List UInt8)) : Search :=
  let (execNum, ns) := m.nodestack.setState file
  ⟨execNum.toInt32, ns⟩

end Search

/-! ## The files that are saved -/

/-- The choice of each node is one of its choices, and their number fits into a byte. -/
def NodeStack.Saveable (ns : NodeStack) : Prop :=
  ∀ n ∈ ns.nodeList, n.readFromIdx < n.rfSize ∧ n.rfSize < 256

/-- The contents of a file that only `save_state` has written to. -/
inductive SavedFile : List UInt8 → Prop where
  | create {ns : NodeStack} (h : ns.Saveable) (execNum : UInt32) : SavedFile (ns.saveState execNum [])
  | overwrite {ns : NodeStack} {file : List UInt8} (h : ns.Saveable) (execNum : UInt32)
      (hfile : SavedFile file) : SavedFile (ns.saveState execNum file)

/-- The stacks of a search are saveable. -/
theorem Searched.saveable {P : ChoiceProgram} (hfin : P.IsFinite) (htwo : ∀ π n, P π = some n → n = 2)
    {ns : NodeStack} (hns : Searched P ns) : ns.Saveable := by
  obtain ⟨σ, b, hσ, _, rfl⟩ := hns.eq_running hfin
  intro n hn
  obtain ⟨hidx, hsize⟩ := mem_nodesFrom htwo hσ hn
  rw [hsize]
  exact ⟨hidx, by decide⟩

/-- The number of the execution in a file. -/
def fileNum (file : List UInt8) : UInt32 := UInt32.ofNat (ofBytes (file.take 4))

/-- The index of the node to backtrack to in a file. -/
def fileInd (file : List UInt8) : Nat := ofBytes ((file.drop 4).take 2)

/-- The nodes in a file. -/
def fileNodes (file : List UInt8) : List Node := readNodes (file.drop 6)

/-- The header is complete, and so are the nodes; the index is one of them or the `-1` of `save_state`,
and each choice is below its size. -/
structure WellFormedFile (file : List UInt8) : Prop where
  header : 6 ≤ file.length
  even : 2 ∣ file.length
  index : fileInd file < (fileNodes file).length ∨ fileInd file = 2 ^ 16 - 1
  choices : ∀ n ∈ fileNodes file, n.readFromIdx < n.rfSize

instance (file : List UInt8) : Decidable (WellFormedFile file) :=
  decidable_of_iff
    (6 ≤ file.length ∧ 2 ∣ file.length ∧
      (fileInd file < (fileNodes file).length ∨ fileInd file = 2 ^ 16 - 1) ∧
      ∀ n ∈ fileNodes file, n.readFromIdx < n.rfSize)
    ⟨fun h => ⟨h.1, h.2.1, h.2.2.1, h.2.2.2⟩, fun h => ⟨h.header, h.even, h.index, h.choices⟩⟩

section

variable {ns : NodeStack} {file : List UInt8}

theorem length_saveNodes (nodes : List Node) : (nodes.flatMap saveNode).length = 2 * nodes.length := by
  induction nodes with
  | nil => rfl
  | cons n nodes ih =>
      rw [List.flatMap_cons, List.length_append, ih, List.length_cons]
      show 2 + 2 * nodes.length = _
      omega

/-- The nodes behind the first `k`. -/
theorem readNodes_drop (bytes : List UInt8) (k : Nat) :
    readNodes (bytes.drop (2 * k)) = (readNodes bytes).drop k := by
  induction k generalizing bytes with
  | zero => rfl
  | succ k ih =>
      cases bytes with
      | nil => rfl
      | cons b₁ bytes =>
          cases bytes with
          | nil => rfl
          | cons b₂ rest => exact ih rest

/-- An even number of bytes is the nodes that are read from it. -/
theorem saveNode_readNodes {bytes : List UInt8} (heven : 2 ∣ bytes.length) :
    (readNodes bytes).flatMap saveNode = bytes := by
  fun_induction readNodes bytes with
  | case1 b₁ b₂ rest ih =>
      have hrest : 2 ∣ rest.length := by
        rw [List.length_cons, List.length_cons] at heven
        omega
      rw [List.flatMap_cons, ih hrest]
      show UInt8.ofNat b₁.toNat :: UInt8.ofNat b₂.toNat :: rest = _
      rw [UInt8.ofNat_toNat, UInt8.ofNat_toNat]
  | case2 bytes hshort =>
      cases bytes with
      | nil => rfl
      | cons b₁ bytes =>
          cases bytes with
          | nil =>
              rw [List.length_singleton] at heven
              omega
          | cons b₂ rest => exact absurd rfl (hshort b₁ b₂ rest)

theorem readNodes_small (bytes : List UInt8) : ∀ n ∈ readNodes bytes, n.rfSize < 256 := by
  fun_induction readNodes bytes with
  | case1 b₁ b₂ rest ih =>
      intro n hn
      rcases List.mem_cons.mp hn with rfl | hn
      · exact b₂.toNat_lt
      · exact ih n hn
  | case2 bytes hshort =>
      intro n hn
      cases hn

theorem saveState_eq (ns : NodeStack) (execNum : UInt32) (file : List UInt8) :
    ns.saveState execNum file = toBytes 4 execNum.toNat ++ (toBytes 2 ns.currInd.toNat ++
      (ns.nodeList.flatMap saveNode ++ file.drop (6 + 2 * ns.nodeList.length))) := by
  have hlen : (toBytes 4 execNum.toNat ++ toBytes 2 ns.currInd.toNat ++
      ns.nodeList.flatMap saveNode).length = 6 + 2 * ns.nodeList.length := by
    rw [List.length_append, List.length_append, length_toBytes, length_toBytes, length_saveNodes]
  rw [saveState, hlen, List.append_assoc, List.append_assoc]

theorem length_saveState (ns : NodeStack) (execNum : UInt32) (file : List UInt8) :
    (ns.saveState execNum file).length = max (6 + 2 * ns.nodeList.length) file.length := by
  rw [saveState_eq, List.length_append, List.length_append, List.length_append, length_toBytes,
    length_toBytes, length_saveNodes, List.length_drop]
  omega

theorem fileInd_saveState (ns : NodeStack) (execNum : UInt32) (file : List UInt8) :
    fileInd (ns.saveState execNum file) = ns.currInd.toNat := by
  have hfits : ns.currInd.toNat < 256 ^ 2 := ns.currInd.toNat_lt
  rw [fileInd, saveState_eq, drop_toBytes, take_toBytes, ofBytes_toBytes, Nat.mod_eq_of_lt hfits]

/-- The nodes of the stack, and those of an older file behind them. -/
theorem fileNodes_saveState (hns : ns.Saveable) (execNum : UInt32) (file : List UInt8) :
    fileNodes (ns.saveState execNum file) =
      ns.nodeList ++ (fileNodes file).drop ns.nodeList.length := by
  have hdrop : (ns.saveState execNum file).drop 6 =
      ns.nodeList.flatMap saveNode ++ file.drop (6 + 2 * ns.nodeList.length) := by
    rw [saveState_eq, show 6 = 4 + 2 from rfl, ← List.drop_drop, drop_toBytes, drop_toBytes]
  have hsmall : ∀ n ∈ ns.nodeList, n.readFromIdx < 256 ∧ n.rfSize < 256 := by
    intro n hn
    obtain ⟨hlt, hsize⟩ := hns n hn
    exact ⟨Nat.lt_trans hlt hsize, hsize⟩
  rw [fileNodes, hdrop, readNodes_saveNode _ _ hsmall, ← List.drop_drop, readNodes_drop]
  rfl

theorem NodeStack.currInd_of_lt {it : Nat} (hcurr : ns.currBacktrack = some it)
    (hlt : it < ns.nodeList.length) : ns.currInd = UInt16.ofNat it := by
  rw [currInd, hcurr]
  exact if_pos hlt

/-- The index of a node that is in the stack, also where it is cut off. -/
theorem NodeStack.currInd_lt (ns : NodeStack) :
    ns.currInd.toNat < ns.nodeList.length ∨ ns.currInd.toNat = 2 ^ 16 - 1 := by
  unfold currInd
  split
  · exact .inr rfl
  · next it _ =>
      split
      · next hlt =>
          rw [UInt16.toNat_ofNat']
          exact .inl (Nat.lt_of_le_of_lt (Nat.mod_le it _) hlt)
      · exact .inr rfl

theorem wellFormedFile_saveState (hns : ns.Saveable) (execNum : UInt32) (heven : 2 ∣ file.length)
    (hchoices : ∀ n ∈ fileNodes file, n.readFromIdx < n.rfSize) :
    WellFormedFile (ns.saveState execNum file) := by
  constructor
  case header =>
    rw [length_saveState]
    omega
  case even =>
    rw [length_saveState]
    omega
  case index =>
    rw [fileInd_saveState, fileNodes_saveState hns, List.length_append]
    rcases ns.currInd_lt with hlt | hnone
    · exact .inl (Nat.lt_add_right _ hlt)
    · exact .inr hnone
  case choices =>
    rw [fileNodes_saveState hns]
    intro n hn
    rcases List.mem_append.mp hn with hn | hn
    · exact (hns n hn).1
    · exact hchoices n (List.mem_of_mem_drop hn)

/-- A well-formed file is what one call of `save_state` writes. -/
theorem WellFormedFile.savedFile (h : WellFormedFile file) : SavedFile file := by
  have hlen := h.header
  have heven := h.even
  let ns : NodeStack := ⟨fileNodes file, none,
    if fileInd file < (fileNodes file).length then some (fileInd file) else none, -1⟩
  have hns : ns.Saveable := fun n hn => ⟨h.choices n hn, readNodes_small _ n hn⟩
  have hlen₄ : (file.take 4).length = 4 := by
    rw [List.length_take]
    omega
  have hlen₂ : ((file.drop 4).take 2).length = 2 := by
    rw [List.length_take, List.length_drop]
    omega
  have hind : ns.currInd.toNat = fileInd file := by
    by_cases hlt : fileInd file < (fileNodes file).length
    · rw [currInd_of_lt (if_pos hlt : ns.currBacktrack = some (fileInd file)) hlt, UInt16.toNat_ofNat']
      exact Nat.mod_eq_of_lt (ofBytes_lt hlen₂)
    · have hnone : ns.currBacktrack = none := if_neg hlt
      rw [currInd, hnone, h.index.resolve_left hlt]
      rfl
  have hnum : (fileNum file).toNat = ofBytes (file.take 4) := by
    rw [fileNum, UInt32.toNat_ofNat']
    exact Nat.mod_eq_of_lt (ofBytes_lt hlen₄)
  have hnodes : ns.nodeList.flatMap saveNode = file.drop 6 := by
    refine saveNode_readNodes ?_
    rw [List.length_drop]
    omega
  have hfile : ns.saveState (fileNum file) [] = file := by
    rw [saveState_eq, hind, hnum, hnodes, fileInd, toBytes_ofBytes hlen₄, toBytes_ofBytes hlen₂,
      List.drop_nil, List.append_nil]
    calc file.take 4 ++ ((file.drop 4).take 2 ++ file.drop 6)
        = file.take 4 ++ ((file.drop 4).take 2 ++ (file.drop 4).drop 2) := by rw [List.drop_drop]
      _ = file.take 4 ++ file.drop 4 := by rw [List.take_append_drop]
      _ = file := List.take_append_drop 4 file
  rw [← hfile]
  exact .create hns _

/-- The files that `save_state` writes. -/
theorem savedFile_iff : SavedFile file ↔ WellFormedFile file := by
  refine ⟨?_, WellFormedFile.savedFile⟩
  intro h
  induction h with
  | create hns execNum => exact wellFormedFile_saveState hns execNum (Nat.dvd_zero 2) nofun
  | overwrite hns execNum _ ih => exact wellFormedFile_saveState hns execNum ih.even ih.choices

/-! ## What a load leaves behind -/

theorem setState_short (ns : NodeStack) (h : file.length < 6) :
    ns.setState (some file) = (-1, ns.fullReset) := by
  rw [setState]
  dsimp only
  split
  · rfl
  · rw [if_pos]
    rw [List.length_take, List.length_drop]
    omega

theorem setState_header (ns : NodeStack) (h : 6 ≤ file.length) :
    ns.setState (some file) = (fileNum file, { ns.fullReset with
      nodeList := fileNodes file
      currBacktrack :=
        if fileInd file < (fileNodes file).length then some (fileInd file) else ns.lastBacktrack }) := by
  have hlen₄ : (file.take 4).length = 4 := by
    rw [List.length_take]
    omega
  have hlen₂ : ((file.drop 4).take 2).length = 2 := by
    rw [List.length_take, List.length_drop]
    omega
  rw [setState]
  dsimp only
  rw [if_neg (not_not.mpr hlen₄), if_neg (not_not.mpr hlen₂), List.drop_drop]
  show (fileNum file, if fileInd file < (fileNodes file).length then _ else _) = _
  split
  · rfl
  · rfl

end

namespace Search

variable (m : Search)

/-- The model has what the file holds. -/
structure Accepts (file : List UInt8) : Prop where
  executionNum : m.executionNum = (fileNum file).toInt32
  nodeList : m.nodestack.nodeList = fileNodes file
  currBacktrack : m.nodestack.currBacktrack =
    if fileInd file < (fileNodes file).length then some (fileInd file) else none
  headIdx : m.nodestack.headIdx = -1

/-- Nothing has changed from `m` to `m'`. -/
structure Kept (m' : Search) : Prop where
  executionNum : m'.executionNum = m.executionNum
  nodeList : m'.nodestack.nodeList = m.nodestack.nodeList
  currBacktrack : m'.nodestack.currBacktrack = m.nodestack.currBacktrack
  headIdx : m'.nodestack.headIdx = m.nodestack.headIdx

/-- The load accepts a file that has been saved, or leaves the model as it was. -/
def LoadsOrKeeps (file : Option (List UInt8)) : Prop :=
  (∃ bytes, file = some bytes ∧ SavedFile bytes ∧ (m.loadNodestack file).Accepts bytes) ∨
    m.Kept (m.loadNodestack file)

/-- The model is what the load leaves behind. -/
def AlreadyLeft : Option (List UInt8) → Prop
  | none => m.executionNum = -1
  | some file =>
      m.nodestack.headIdx = -1 ∧
        if file.length < 6 then
          m.executionNum = -1 ∧ m.nodestack.nodeList = [] ∧
            m.nodestack.currBacktrack = m.nodestack.lastBacktrack
        else
          m.executionNum = (fileNum file).toInt32 ∧ m.nodestack.nodeList = fileNodes file ∧
            m.nodestack.currBacktrack = if fileInd file < (fileNodes file).length
              then some (fileInd file) else m.nodestack.lastBacktrack

instance : (file : Option (List UInt8)) → Decidable (m.AlreadyLeft file)
  | none => inferInstanceAs (Decidable (m.executionNum = -1))
  | some file => inferInstanceAs (Decidable (m.nodestack.headIdx = -1 ∧
      if file.length < 6 then
        m.executionNum = -1 ∧ m.nodestack.nodeList = [] ∧
          m.nodestack.currBacktrack = m.nodestack.lastBacktrack
      else
        m.executionNum = (fileNum file).toInt32 ∧ m.nodestack.nodeList = fileNodes file ∧
          m.nodestack.currBacktrack = if fileInd file < (fileNodes file).length
            then some (fileInd file) else m.nodestack.lastBacktrack))

theorem kept_loadNodestack_iff (file : Option (List UInt8)) :
    m.Kept (m.loadNodestack file) ↔ m.AlreadyLeft file := by
  cases file with
  | none =>
      constructor
      · intro h
        exact h.executionNum.symm
      · intro h
        exact ⟨h.symm, rfl, rfl, rfl⟩
  | some file =>
      rw [AlreadyLeft]
      split
      · next hshort =>
          rw [loadNodestack, setState_short m.nodestack hshort]
          constructor
          · rintro ⟨hnum, hnodes, hcurr, hhead⟩
            exact ⟨hhead.symm, hnum.symm, hnodes.symm, hcurr.symm⟩
          · rintro ⟨hhead, hnum, hnodes, hcurr⟩
            exact ⟨hnum.symm, hnodes.symm, hcurr.symm, hhead.symm⟩
      · next hheader =>
          rw [loadNodestack, setState_header m.nodestack (Nat.le_of_not_lt hheader)]
          constructor
          · rintro ⟨hnum, hnodes, hcurr, hhead⟩
            exact ⟨hhead.symm, hnum.symm, hnodes.symm, hcurr.symm⟩
          · rintro ⟨hhead, hnum, hnodes, hcurr⟩
            exact ⟨hnum.symm, hnodes.symm, hcurr.symm, hhead.symm⟩

/-- A file with a header is accepted, as far as there is a node to backtrack to. -/
theorem accepts_loadNodestack_iff {file : List UInt8} (hheader : 6 ≤ file.length) :
    (m.loadNodestack (some file)).Accepts file ↔
      (fileInd file < (fileNodes file).length ∨ m.nodestack.lastBacktrack = none) := by
  rw [loadNodestack, setState_header m.nodestack hheader]
  constructor
  · rintro ⟨_, _, hcurr, _⟩
    by_cases hlt : fileInd file < (fileNodes file).length
    · exact .inl hlt
    · dsimp only at hcurr
      rw [if_neg hlt, if_neg hlt] at hcurr
      exact .inr hcurr
  · intro h
    refine ⟨rfl, rfl, ?_, rfl⟩
    dsimp only
    split
    · rfl
    · next hge => exact h.resolve_left hge

end Search

/-- For every file and every state of the model: the load accepts a saved file or changes nothing exactly
where the bytes of the file are well formed (and there is no older node to backtrack to, if the file has
none), or the model was already what the load leaves behind. -/
theorem loadNodestack_iff (m : Search) (file : Option (List UInt8)) :
    m.LoadsOrKeeps file ↔
      (∃ bytes, file = some bytes ∧ WellFormedFile bytes ∧
        (fileInd bytes < (fileNodes bytes).length ∨ m.nodestack.lastBacktrack = none)) ∨
      m.AlreadyLeft file := by
  rw [Search.LoadsOrKeeps, m.kept_loadNodestack_iff]
  refine or_congr_left' fun _ => exists_congr fun bytes => and_congr_right ?_
  rintro rfl
  rw [savedFile_iff]
  exact and_congr_right fun h => m.accepts_loadNodestack_iff h.header

/-- A file that is not there, half a header, half a node, a node to backtrack to that is not there, and a
choice that is not below its size. -/
def malformedFiles : List (Option (List UInt8)) :=
  [none, some [2, 0, 0], some [2, 0, 0, 0, 0, 0, 0, 2, 0], some [2, 0, 0, 0, 1, 0, 0, 2],
    some [2, 0, 0, 0, 0, 0, 2, 2]]

/-- Each of them changes the model that has just been built. -/
theorem loadNodestack_changes : ¬ ∃ file ∈ malformedFiles, Search.init.LoadsOrKeeps file := by
  have hwell : ∀ file ∈ malformedFiles, ∀ bytes ∈ file, ¬ WellFormedFile bytes := by decide
  have hleft : ∀ file ∈ malformedFiles, ¬ Search.init.AlreadyLeft file := by decide
  rintro ⟨file, hfile, hloads⟩
  rw [loadNodestack_iff] at hloads
  rcases hloads with ⟨bytes, rfl, hbytes, _⟩ | hsame
  · exact hwell _ hfile bytes rfl hbytes
  · exact hleft file hfile hsame

end Cxlmc
