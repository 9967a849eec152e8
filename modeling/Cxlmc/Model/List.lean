import Cxlmc.Lib.DoublyLinked

/-!
# The list (`list.h`)

`LList` is the `List` of the checker together with the nodes that it has allocated, which are linked in both
directions. A function gives `none` where it dereferences a null pointer or a node that is gone. Its loops take
the number of addresses as fuel. The nodes are in a map of 1 GB, so that `_size` does not wrap.
-/

namespace Cxlmc

open DoublyLinked

structure LList (α : Type) where
  nodes : Heap α
  /-- The address of the next node that is allocated. -/
  fresh : Nat
  head : Option Nat
  tail : Option Nat
  size : Nat

namespace LList

variable {α : Type}

/-- `List()`. -/
def new : LList α where
  nodes := fun _ => none
  fresh := 0
  head := none
  tail := none
  size := 0

/-! ## Insertion -/

/-- `add_front(val)`. -/
def addFront (l : LList α) (val : α) : Option (LList α × Nat) := do
  let tmp := l.fresh
  let nodes := Function.update l.nodes tmp (some ⟨none, l.head, val⟩)
  let (nodes, tail) ← linkPrev nodes l.tail l.head (some tmp)
  return ({ nodes := nodes, fresh := tmp + 1, head := some tmp, tail := tail, size := l.size + 1 }, tmp)

/-- `add_back(val)`. -/
def addBack (l : LList α) (val : α) : Option (LList α × Nat) := do
  let tmp := l.fresh
  let nodes := Function.update l.nodes tmp (some ⟨l.tail, none, val⟩)
  let (nodes, head) ← linkNext nodes l.head l.tail (some tmp)
  return ({ nodes := nodes, fresh := tmp + 1, head := head, tail := some tmp, size := l.size + 1 }, tmp)

/-- `push_front(val)`: the body of `add_front` without its result. -/
def pushFront (l : LList α) (val : α) : Option (LList α) := (l.addFront val).map Prod.fst

/-- `push_back(val)`: the body of `add_back` without its result. -/
def pushBack (l : LList α) (val : α) : Option (LList α) := (l.addBack val).map Prod.fst

def insertAfter (l : LList α) (node : Nat) (val : α) : Option (LList α × Nat) := do
  let tmp := l.fresh
  let c ← l.nodes node
  let nodes := Function.update l.nodes tmp (some ⟨some node, c.next, val⟩)
  let nodes ← setNext nodes node (some tmp)
  let (nodes, tail) ← linkPrev nodes l.tail c.next (some tmp)
  return ({ nodes := nodes, fresh := tmp + 1, head := l.head, tail := tail, size := l.size + 1 }, tmp)

def insertBefore (l : LList α) (node : Nat) (val : α) : Option (LList α) := do
  let tmp := l.fresh
  let c ← l.nodes node
  let nodes := Function.update l.nodes tmp (some ⟨c.prev, some node, val⟩)
  let nodes ← setPrev nodes node (some tmp)
  let (nodes, head) ← linkNext nodes l.head c.prev (some tmp)
  return { nodes := nodes, fresh := tmp + 1, head := head, tail := l.tail, size := l.size + 1 }

/-! ## Removal -/

/-- `delete a`. -/
def free (nodes : Heap α) (a : Nat) : Heap α := Function.update nodes a none

def popFront (l : LList α) : Option (LList α × α) := do
  let tmp ← l.head
  let c ← l.nodes tmp
  let (nodes, tail) ← linkPrev l.nodes l.tail c.next none
  return ({ l with nodes := free nodes tmp, head := c.next, tail := tail, size := l.size - 1 }, c.val)

def popBack (l : LList α) : Option (LList α) := do
  let tmp ← l.tail
  let c ← l.nodes tmp
  let (nodes, head) ← linkNext l.nodes l.head c.prev none
  return { l with nodes := free nodes tmp, head := head, tail := c.prev, size := l.size - 1 }

/-- `if (head == node) head = node->next; else node->prev->next = node->next;`. -/
def unlinkNext (nodes : Heap α) (head : Option Nat) (node : Nat) : Option (Heap α × Option Nat) := do
  let c ← nodes node
  if head = some node then return (nodes, c.next)
  else do
    let nodes ← setNext nodes (← c.prev) c.next
    return (nodes, head)

/-- `if (tail == node) tail = node->prev; else node->next->prev = node->prev;`. -/
def unlinkPrev (nodes : Heap α) (tail : Option Nat) (node : Nat) : Option (Heap α × Option Nat) := do
  let c ← nodes node
  if tail = some node then return (nodes, c.prev)
  else do
    let nodes ← setPrev nodes (← c.next) c.prev
    return (nodes, tail)

/-- `erase(node)`: the list, and the node behind the one that is erased. -/
def erase (l : LList α) (node : Nat) : Option (LList α × Option Nat) := do
  let (nodes, head) ← unlinkNext l.nodes l.head node
  let (nodes, tail) ← unlinkPrev nodes l.tail node
  let c ← nodes node
  return ({ l with nodes := free nodes node, head := head, tail := tail, size := l.size - 1 }, c.next)

/-- The loop of `clear`. -/
def clearLoop : (fuel : Nat) → (head : Option Nat) → Heap α → Option (Heap α)
  | _, none, nodes => some nodes
  | 0, some _, _ => none
  | fuel + 1, some node, nodes => do
      let c ← nodes node
      clearLoop fuel c.next (free nodes node)

def clear (l : LList α) : Option (LList α) := do
  let nodes ← clearLoop l.fresh l.head l.nodes
  return { l with nodes := nodes, head := none, tail := none, size := 0 }

/-! ## Iteration -/

/-- `for (auto itr = begin(); itr != end(); itr++)` from `node` on: the values it takes. -/
def visitLoop (nodes : Heap α) : (fuel : Nat) → (node : Option Nat) → Option (List α)
  | _, none => some []
  | 0, some _ => none
  | fuel + 1, some node => do
      let c ← nodes node
      let vals ← visitLoop nodes fuel c.next
      return c.val :: vals

def visit (l : LList α) : Option (List α) := visitLoop l.nodes l.fresh l.head

/-- `for (auto itr = rbegin(); itr != rend(); itr++)` from `node` on. -/
def reverseLoop (nodes : Heap α) : (fuel : Nat) → (node : Option Nat) → Option (List α)
  | _, none => some []
  | 0, some _ => none
  | fuel + 1, some node => do
      let c ← nodes node
      let vals ← reverseLoop nodes fuel c.prev
      return c.val :: vals

def visitReverse (l : LList α) : Option (List α) := reverseLoop l.nodes l.fresh l.tail

/-- `for (_Tp& item: list) push_back(item);` from `node` on. The list that is copied is another one, or empty. -/
def copyLoop (list : Heap α) : (fuel : Nat) → (node : Option Nat) → LList α → Option (LList α)
  | _, none, l => some l
  | 0, some _, _ => none
  | fuel + 1, some node, l => do
      let c ← list node
      let l ← l.pushBack c.val
      copyLoop list fuel c.next l

/-- `List(list)`. -/
def copy (list : LList α) : Option (LList α) := copyLoop list.nodes list.fresh list.head new

end LList

/-! ## Programs on lists -/

/-- The lists of a program. -/
abbrev LLists (α : Type) := Nat → LList α

namespace LList

variable {α : Type}

/-- `dst = src`. Where the two are one, `list` is the list that has been cleared. -/
def assign (ls : LLists α) (dst src : Nat) : Option (LLists α) := do
  let cleared ← (ls dst).clear
  let list := Function.update ls dst cleared src
  let l ← copyLoop list.nodes list.fresh list.head cleared
  return Function.update ls dst l

/-- A use of a list. -/
inductive Command (α : Type) where
  | pushFront (val : α)
  | pushBack (val : α)
  | addFront (val : α)
  | addBack (val : α)
  | popFront
  | popBack
  | clear
  | insertAfter (node : Nat) (val : α)
  | insertBefore (node : Nat) (val : α)
  | erase (node : Nat)
  deriving DecidableEq, Repr

/-- What a use of a list comes back with. -/
inductive Result (α : Type) where
  | done
  | val (val : α)
  | node (node : Option Nat)
  deriving DecidableEq, Repr

def run (l : LList α) : Command α → Option (LList α × Result α)
  | .pushFront val => (l.pushFront val).map fun l => (l, .done)
  | .pushBack val => (l.pushBack val).map fun l => (l, .done)
  | .addFront val => (l.addFront val).map fun x => (x.1, .node (some x.2))
  | .addBack val => (l.addBack val).map fun x => (x.1, .node (some x.2))
  | .popFront => l.popFront.map fun x => (x.1, .val x.2)
  | .popBack => l.popBack.map fun l => (l, .done)
  | .clear => l.clear.map fun l => (l, .done)
  | .insertAfter node val => (l.insertAfter node val).map fun x => (x.1, .node (some x.2))
  | .insertBefore node val => (l.insertBefore node val).map fun l => (l, .done)
  | .erase node => (l.erase node).map fun x => (x.1, .node x.2)

/-- A step of a program on lists. -/
inductive Step (α : Type) where
  | on (i : Nat) (c : Command α)
  /-- `List dst(src)`. -/
  | copy (dst src : Nat)
  /-- `dst = src`. -/
  | assign (dst src : Nat)
  deriving DecidableEq, Repr

def runStep (ls : LLists α) : Step α → Option (LLists α × Result α)
  | .on i c => ((ls i).run c).map fun x => (Function.update ls i x.1, x.2)
  | .copy dst src => (ls src).copy.map fun l => (Function.update ls dst l, .done)
  | .assign dst src => (assign ls dst src).map fun ls => (ls, .done)

end LList

end Cxlmc
