import Mathlib.Data.Nat.Notation

/-!
# The node stack (`nodestack.h`, `nodestack.cc`)

The stack of decisions of one execution, kept for the next one. A `Node *` is the index of the node
in `node_list`: nodes are appended at the end and removed from the end, so a node keeps its index
for as long as it lives. `head_idx` starts at `-1`.
-/

namespace Cxlmc

/-- One decision: the choice taken and the number of choices. -/
structure Node where
  readFromIdx : Nat
  rfSize : Nat
  deriving DecidableEq, Repr

namespace Node

/-- `Node(int mrf_size)`. -/
def ofSize (mrfSize : Nat) : Node := ⟨0, mrfSize⟩

def getChoice (n : Node) : Nat := n.readFromIdx

def getReadFromSize (n : Node) : Nat := n.rfSize

def hasMoreChoices (n : Node) : Bool := n.readFromIdx + 1 < n.rfSize

def incrementReadFrom (n : Node) : Node := { n with readFromIdx := n.readFromIdx + 1 }

end Node

structure NodeStack where
  nodeList : List Node
  lastBacktrack : Option Nat
  currBacktrack : Option Nat
  headIdx : Int
  deriving DecidableEq, Repr

namespace NodeStack

/-- `NodeStack()`. -/
def empty : NodeStack := ⟨[], none, none, -1⟩

/-- `pop_restofstack(numAhead)`: `node_list.resize(head_idx + numAhead)`. -/
def popRestofstack (ns : NodeStack) (numAhead : Nat) : NodeStack :=
  { ns with nodeList := ns.nodeList.take (ns.headIdx + numAhead).toNat }

/-- `get_next()`: the next node of the replayed execution, if there is one. -/
def getNext (ns : NodeStack) : Option Nat × NodeStack :=
  if ns.nodeList = [] then (none, ns)
  else
    let it := (ns.headIdx + 1).toNat
    if it = ns.nodeList.length then (none, ns)
    else (some it, { ns with headIdx := ns.headIdx + 1 })

/-- `create_node(numchoices)`. -/
def createNode (ns : NodeStack) (numchoices : Nat) : Nat × NodeStack :=
  (ns.nodeList.length,
    { ns with nodeList := ns.nodeList ++ [Node.ofSize numchoices], headIdx := ns.headIdx + 1 })

/-- `reset_execution()`. -/
def resetExecution (ns : NodeStack) : NodeStack :=
  { ns with currBacktrack := ns.lastBacktrack, lastBacktrack := none, headIdx := -1 }

def hasAnotherExecution (ns : NodeStack) : Bool := ns.lastBacktrack.isSome

/-- `if (node->has_more_choices()) last_backtrack = node;` at the end of `explore_next`. -/
def noteBacktrack (ns : NodeStack) (i : Nat) : Option (Node × NodeStack) :=
  match ns.nodeList[i]? with
  | none => none
  | some node =>
      some (node, if node.hasMoreChoices then { ns with lastBacktrack := some i } else ns)

/-- `explore_next(numchoices)`; `none` when `assert(numchoices == node->get_read_from_size())`
fails. -/
def exploreNext (ns : NodeStack) (numchoices : Nat) : Option (Node × NodeStack) :=
  match ns.getNext with
  | (none, ns) =>
      let (i, ns) := ns.createNode numchoices
      ns.noteBacktrack i
  | (some i, ns) =>
      match ns.nodeList[i]? with
      | none => none
      | some node =>
          if numchoices = node.getReadFromSize then
            if ns.currBacktrack = some i then
              let ns := { ns with nodeList := ns.nodeList.set i node.incrementReadFrom }
              let ns := ns.popRestofstack 1
              { ns with currBacktrack := none }.noteBacktrack i
            else ns.noteBacktrack i
          else none

/-- `Model::decision_point(numchoices)`. -/
def decisionPoint (ns : NodeStack) (numchoices : Nat) : Option (Nat × NodeStack) :=
  (ns.exploreNext numchoices).map fun (node, ns) => (node.getChoice, ns)

/-- What `Model::finish_execution` does to the node stack once every process is done: start over if
there is something left to explore. `MAX_EXECUTION` is left out. -/
def finishExecution (ns : NodeStack) : Option NodeStack :=
  if ns.hasAnotherExecution then some ns.resetExecution else none

end NodeStack

end Cxlmc
