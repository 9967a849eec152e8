import Cxlmc.Model.HashTable
import Cxlmc.Model.State
import Cxlmc.Model.Vector
import Mathlib.Algebra.Group.Int.Defs

/-!
# The tables of intervals (`cacheline.h`)

`CacheLineStore` is a vector with a hash table for each process, from lines to intervals. `State.lean` has
the intervals as a function of the process and the line.
-/

namespace Cxlmc

/-- `store_t`. -/
abbrev StoreT := Vector (HashTable Nat Cacheline)

instance : Inhabited Cacheline := ⟨.new⟩

namespace StoreT

/-- `shared::hashmap<uintptr_t, cacheline>()`. -/
def hashmap : HashTable Nat Cacheline := .new 16

-- what the vector stores is a copy of it
example : hashmap.copy .default = some hashmap := rfl

/-- `_store.insertAt(i, shared::hashmap<uintptr_t, cacheline>());`: `n` rounds from `i` on. -/
def initLoop : (n i : Nat) → StoreT → Traced (HashTable Nat Cacheline)
  | 0, _, store => ⟨store, []⟩
  | n + 1, i, store => (store.insertAt i hashmap).andThen (initLoop n (i + 1))

/-- `init(p_count)`. -/
def init (store : StoreT) (pCount : Nat) : Traced (HashTable Nat Cacheline) :=
  (store.resize pCount).andThen (initLoop pCount 0)

/-- The assertion of `get_cacheline`: `(size_t)pid < _store.size()`. -/
def Accepts (store : StoreT) (pid : Int) : Prop := (pid % 2 ^ 64).toNat < store.size

instance (store : StoreT) (pid : Int) : Decidable (store.Accepts pid) := inferInstanceAs (Decidable (_ < _))

/-- `get_cacheline(pid, addr)`. The element of a process has to be a table. -/
def getCacheline (store : StoreT) (pid : Int) (addr : Nat) : Option (StoreT × Cacheline) :=
  if store.Accepts pid then
    match store.array pid.toNat with
    | .made t => do
        let it ← t.find .default addr
        if it.eq t.end_ then do
          let t ← t.assignSecond .default addr .new
          return ({ store with array := Function.update store.array pid.toNat (.made t) }, .new)
        else do
          let (t, node) ← t.subscript .default addr
          let c ← t.nodes node
          return ({ store with array := Function.update store.array pid.toNat (.made t) }, c.val.second)
    | .raw | .copyOfRaw => none
  else none

end StoreT

end Cxlmc
