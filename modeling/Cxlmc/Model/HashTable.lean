import Cxlmc.Lib.Linked
import Mathlib.Algebra.Group.Nat.Defs

/-!
# The hash table (`hash_table.h`)

`HashTable` is a table together with the nodes that it has allocated: an array of chains of nodes linked by
`next`. A function gives `none` where it dereferences a null pointer or a node that is gone, or aborts. Its
loops over a chain take the number of addresses as fuel. `max_factor` is 0.75.
-/

namespace Cxlmc

open Linked

structure Pair (T₁ T₂ : Type) where
  first : T₁
  second : T₂
  deriving DecidableEq, Repr

/-- `htnode`, a pair with `next`. -/
abbrev HtNode (K V : Type) := Cell (Pair K V)

/-- The parameters `_hash` and `_equals` of the template. -/
structure Hashing (K : Type) where
  hash : K → Nat
  equals : K → K → Bool

/-- `default_hash_function` and `default_equals`, for addresses and numbers. -/
def Hashing.default : Hashing Nat where
  hash t := (t ^^^ (t <<< 5)) % 2 ^ 64
  equals key1 key2 := key1 == key2

structure HashTable (K V : Type) where
  nodes : Heap (Pair K V)
  /-- The address of the next node that is allocated. -/
  fresh : Nat
  /-- The address of the array `table`. -/
  array : Nat
  table : Nat → Option Nat
  size : Nat
  buckets : Nat
  threshold : Nat

namespace HashTable

variable {K V : Type}

/-- `(size_t) (buckets * max_factor)`. -/
def thresholdOf (buckets : Nat) : Nat := buckets * 3 / 4

/-- `HashTable(initial_buckets)`. -/
def new (initialBuckets : Nat) : HashTable K V where
  nodes := fun _ => none
  fresh := 0
  array := 0
  table := fun _ => none
  size := 0
  buckets := initialBuckets
  threshold := thresholdOf initialBuckets

/-! ## Iterators -/

structure Iterator where
  array : Nat
  buckets : Nat
  node : Option Nat
  prev : Option Nat
  index : Nat
  deriving DecidableEq, Repr

/-- `operator==`. -/
def Iterator.eq (it other : Iterator) : Bool :=
  it.array = other.array && it.node = other.node && it.index = other.index

/-- The loops of `begin` and `operator++`: the first node in one of the `n` buckets from `index` on. -/
def Iterator.scan (it : Iterator) (table : Nat → Option Nat) : (n index : Nat) → Iterator
  | 0, index => { it with node := none, prev := none, index := index }
  | n + 1, index =>
      match table index with
      | some node => { it with node := some node, prev := none, index := index }
      | none => it.scan table n (index + 1)

/-- `end()`. -/
def end_ (t : HashTable K V) : Iterator where
  array := t.array
  buckets := t.buckets
  node := none
  prev := none
  index := t.buckets

/-- `begin()`. -/
def begin_ (t : HashTable K V) : Iterator := t.end_.scan t.table t.buckets 0

/-- `*it`. -/
def deref (t : HashTable K V) (it : Iterator) : Option (Pair K V) := do
  let node ← it.node
  let c ← t.nodes node
  return c.val

/-- `++it`; an iterator of an array that is gone reads freed memory. -/
def next (t : HashTable K V) (it : Iterator) : Option Iterator := do
  let node ← it.node
  let c ← t.nodes node
  match c.next with
  | some node' => return { it with node := some node', prev := some node }
  | none =>
      if it.array = t.array then return it.scan t.table (it.buckets - (it.index + 1)) (it.index + 1)
      else none

/-- `for (Pair p : *this)` from `it` on: the pairs it takes. -/
def visitLoop (t : HashTable K V) : (fuel : Nat) → Iterator → Option (List (Pair K V))
  | fuel, it =>
      if it.eq t.end_ then some []
      else
        match fuel with
        | 0 => none
        | fuel + 1 => do
            let p ← t.deref it
            let ps ← t.visitLoop fuel (← t.next it)
            return p :: ps

def visit (t : HashTable K V) : Option (List (Pair K V)) := t.visitLoop t.fresh t.begin_

/-! ## Looking up and inserting -/

variable (H : Hashing K)

/-- `while (node != NULL) { if (_equals(node->first, key)) …; last = node; node = node->next; }`: where
the loop stops, and `last`. -/
def searchLoop (nodes : Heap (Pair K V)) (key : K) :
    (fuel : Nat) → (node last : Option Nat) → Option (Option Nat × Option Nat)
  | _, none, last => some (none, last)
  | 0, some _, _ => none
  | fuel + 1, some node, last => do
      let c ← nodes node
      if H.equals c.val.first key then some (some node, last)
      else searchLoop nodes key fuel c.next (some node)

def search (t : HashTable K V) (key : K) : Option (Option Nat × Option Nat) :=
  searchLoop H t.nodes key t.fresh (t.table (H.hash key % t.buckets)) none

/-- The inner loop of `resize`: each node goes to the front of its new chain. -/
def relinkLoop (buckets : Nat) : (fuel : Nat) → (node : Option Nat) →
    Heap (Pair K V) × (Nat → Option Nat) → Option (Heap (Pair K V) × (Nat → Option Nat))
  | _, none, x => some x
  | 0, some _, _ => none
  | fuel + 1, some node, (nodes, table) => do
      let c ← nodes node
      let index := H.hash c.val.first % buckets
      relinkLoop buckets fuel c.next
        (Function.update nodes node (some { c with next := table index }),
          Function.update table index (some node))

def resize (t : HashTable K V) : Option (HashTable K V) :=
  if t.size < t.threshold then some t
  else do
    let buckets := t.buckets * 2
    let (nodes, table) ← (List.range t.buckets).foldlM
      (fun x i => relinkLoop H buckets t.fresh (t.table i) x) (t.nodes, fun _ => none)
    return { t with
      nodes := nodes
      table := table
      array := t.array + 1
      buckets := buckets
      threshold := thresholdOf buckets }

/-- `node = new Node(key, val)` behind `last`, or at the head of the chain. -/
def insert (t : HashTable K V) (key : K) (val : V) (index : Nat) (last : Option Nat) :
    Option (HashTable K V) :=
  let nodes := Function.update t.nodes t.fresh (some ⟨⟨key, val⟩, none⟩)
  match last with
  | none => some { t with
      nodes := nodes
      fresh := t.fresh + 1
      table := Function.update t.table index (some t.fresh)
      size := t.size + 1 }
  | some a => (setNext nodes a (some t.fresh)).map fun nodes => { t with
      nodes := nodes
      fresh := t.fresh + 1
      size := t.size + 1 }

/-- `emplace(key, val)` and `try_emplace(key, val)`. The body of `operator[]` and `try_emplace(key)` is the
same with `_Val()`. -/
def emplace (t : HashTable K V) (key : K) (val : V) : Option (HashTable K V × Iterator × Bool) := do
  let t ← t.resize H
  let index := H.hash key % t.buckets
  let (node, last) ← t.search H key
  match node with
  | some _ => return (t, ⟨t.array, t.buckets, node, last, index⟩, false)
  | none =>
      let t' ← t.insert key val index last
      return (t', ⟨t.array, t.buckets, some t.fresh, last, index⟩, true)

/-- `try_emplace(key)`. -/
def tryEmplace [Inhabited V] (t : HashTable K V) (key : K) : Option (HashTable K V × Iterator × Bool) :=
  t.emplace H key default

/-- `operator[]`: the node whose `second` it refers to. -/
def subscript [Inhabited V] (t : HashTable K V) (key : K) : Option (HashTable K V × Nat) := do
  let (t, it, _) ← t.emplace H key default
  let node ← it.node
  return (t, node)

/-- `node->second = val`. -/
def setSecond (t : HashTable K V) (node : Nat) (val : V) : Option (HashTable K V) := do
  let c ← t.nodes node
  return { t with nodes := Function.update t.nodes node (some { c with val := { c.val with second := val } }) }

/-- `at(key)`, which aborts where there is no such key. -/
def at_ (t : HashTable K V) (key : K) : Option (HashTable K V × V) := do
  let t ← t.resize H
  let (node, _) ← t.search H key
  let c ← t.nodes (← node)
  return (t, c.val.second)

/-- `find(key)`. -/
def find (t : HashTable K V) (key : K) : Option Iterator := do
  let (node, last) ← t.search H key
  match node with
  | some _ => return ⟨t.array, t.buckets, node, last, H.hash key % t.buckets⟩
  | none => return t.end_

/-! ## Removing -/

/-- `erase(pos)` before its `++pos`: the node is taken out of its chain, but not freed. -/
def unlink (t : HashTable K V) (pos : Iterator) : Option (HashTable K V) := do
  let c ← t.nodes (← pos.node)
  match pos.prev with
  | some prev => do
      let nodes ← setNext t.nodes prev c.next
      return { t with nodes := nodes, size := t.size - 1 }
  | none => return { t with table := Function.update t.table pos.index c.next, size := t.size - 1 }

/-- `erase(pos)`. -/
def erase (t : HashTable K V) (pos : Iterator) : Option (HashTable K V × Iterator) := do
  let t ← t.unlink pos
  let it ← t.next pos
  return (t, it)

/-- The inner loop of `clear`. -/
def freeLoop : (fuel : Nat) → (node : Option Nat) → Heap (Pair K V) → Option (Heap (Pair K V))
  | _, none, nodes => some nodes
  | 0, some _, _ => none
  | fuel + 1, some node, nodes => do
      let c ← nodes node
      freeLoop fuel c.next (Function.update nodes node none)

/-- `clear()`. -/
def clear (t : HashTable K V) : Option (HashTable K V) := do
  let (nodes, table) ← (List.range t.buckets).foldlM
    (fun x i => do
      let nodes ← freeLoop t.fresh (x.2 i) x.1
      return (nodes, Function.update x.2 i none))
    (t.nodes, t.table)
  return { t with nodes := nodes, table := table, size := 0 }

/-! ## Copying -/

/-- `(*this)[p.first] = p.second`. -/
def assignSecond [Inhabited V] (t : HashTable K V) (key : K) (val : V) : Option (HashTable K V) := do
  let (t, node) ← t.subscript H key
  t.setSecond node val

/-- `for (Pair p : hashtable) (*this)[p.first] = p.second;` from `it` on. -/
def copyLoop [Inhabited V] (hashtable : HashTable K V) :
    (fuel : Nat) → Iterator → HashTable K V → Option (HashTable K V)
  | fuel, it, t =>
      if it.eq hashtable.end_ then some t
      else
        match fuel with
        | 0 => none
        | fuel + 1 => do
            let p ← hashtable.deref it
            let t ← t.assignSecond H p.first p.second
            copyLoop hashtable fuel (← hashtable.next it) t

/-- A table with the parameters of another one and no entry. -/
def like (hashtable : HashTable K V) : HashTable K V :=
  { (new hashtable.buckets : HashTable K V) with threshold := hashtable.threshold }

/-- `HashTable(hashtable)`. -/
def copy [Inhabited V] (hashtable : HashTable K V) : Option (HashTable K V) :=
  copyLoop H hashtable hashtable.fresh hashtable.begin_ (like hashtable)

end HashTable

/-! ## Programs on tables -/

/-- The tables of a program. -/
abbrev Tables (K V : Type) := Nat → HashTable K V

namespace HashTable

variable {K V : Type} (H : Hashing K)

/-- `dst = src`. Where the two are one, `hashtable` is the table that has been cleared. -/
def assign [Inhabited V] (ts : Tables K V) (dst src : Nat) : Option (Tables K V) := do
  let cleared ← (ts dst).clear
  let hashtable := Function.update ts dst cleared src
  let ts := Function.update ts dst { cleared with
    buckets := hashtable.buckets
    threshold := hashtable.threshold
    array := cleared.array + 1
    table := fun _ => none }
  let hashtable := ts src
  let t ← copyLoop H hashtable hashtable.fresh hashtable.begin_ (ts dst)
  return Function.update ts dst t

/-- A use of a table. -/
inductive Command (K V : Type) where
  /-- `t[key]`. -/
  | get (key : K)
  /-- `t[key] = val`. -/
  | set (key : K) (val : V)
  | at_ (key : K)
  | emplace (key : K) (val : V)
  | tryEmplace (key : K) (val : V)
  /-- `try_emplace(key)`. -/
  | tryEmplaceKey (key : K)
  | find (key : K)
  /-- `t.erase(t.find(key))`. -/
  | erase (key : K)
  | clear
  deriving DecidableEq, Repr

/-- What a use of a table comes back with: the value it refers to, whether an iterator is not `end()` and the
value there, and the `bool` of `emplace`. -/
inductive Result (V : Type) where
  | value (val : V)
  | found (val : Option V)
  | emplaced (val : V) (inserted : Bool)
  | done
  deriving DecidableEq, Repr

/-- The pair that `emplace` and `try_emplace` return. -/
def emplaced : HashTable K V × Iterator × Bool → Option (HashTable K V × Result V)
  | (t, it, inserted) => do
      let p ← t.deref it
      return (t, .emplaced p.second inserted)

def run [Inhabited V] (t : HashTable K V) : Command K V → Option (HashTable K V × Result V)
  | .get key => do
      let (t, node) ← t.subscript H key
      let c ← t.nodes node
      return (t, .value c.val.second)
  | .set key val => do
      let t ← t.assignSecond H key val
      return (t, .done)
  | .at_ key => do
      let (t, val) ← t.at_ H key
      return (t, .value val)
  | .emplace key val => do emplaced (← t.emplace H key val)
  | .tryEmplace key val => do emplaced (← t.emplace H key val)
  | .tryEmplaceKey key => do emplaced (← t.tryEmplace H key)
  | .find key => do
      let it ← t.find H key
      if it.eq t.end_ then return (t, .found none)
      else do
        let p ← t.deref it
        return (t, .found (some p.second))
  | .erase key => do
      let it ← t.find H key
      let (t, _) ← t.erase it
      return (t, .done)
  | .clear => do
      let t ← t.clear
      return (t, .done)

/-- A step of a program on tables. -/
inductive Step (K V : Type) where
  | on (i : Nat) (c : Command K V)
  /-- `HashTable dst(src)`. -/
  | copy (dst src : Nat)
  /-- `dst = src`. -/
  | assign (dst src : Nat)
  deriving DecidableEq, Repr

def runStep [Inhabited V] (ts : Tables K V) : Step K V → Option (Tables K V × Result V)
  | .on i c => do
      let (t, r) ← (ts i).run H c
      return (Function.update ts i t, r)
  | .copy dst src => do
      let t ← (ts src).copy H
      return (Function.update ts dst t, .done)
  | .assign dst src => do
      let ts ← assign H ts dst src
      return (ts, .done)

/-- The tables after the steps, and what each step came back with. -/
def runSteps [Inhabited V] (ts : Tables K V) : List (Step K V) → Option (Tables K V × List (Result V))
  | [] => some (ts, [])
  | c :: cs => do
      let (ts, r) ← runStep H ts c
      let (ts, rs) ← runSteps ts cs
      return (ts, r :: rs)

end HashTable

end Cxlmc
