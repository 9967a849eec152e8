import Cxlmc.Lib.Client
import Cxlmc.Model.CacheLineStore
import Cxlmc.Model.Evict

/-!
# The tables behind the memory (`model.h`)

`obj_to_wr` is a hash table of store lists and `obj_to_cl` a vector of hash tables of intervals, where the
state of the checker has two functions. The code of `model.cc` takes a reference to a list or an interval,
reads it and may write through it (`TableUse`). `ensureInitialValue`, `evict_store` and the part of
`evict_clflush` before it may crash a process are clients of the tables.
-/

namespace Cxlmc

/-- `_Val &val = (*this)[key];`, which then reads `val` and writes `f(val)` to it: the value that it reads. -/
def HashTable.modify {K V : Type} [Inhabited V] (H : Hashing K) (t : HashTable K V) (key : K) (f : V → V) :
    Option (HashTable K V × V) := do
  let (t, node) ← t.subscript H key
  let c ← t.nodes node
  let t ← t.setSecond node (f c.val.second)
  return (t, c.val.second)

/-- `get_cacheline(pid, addr)`: the table of the process, and the node of the interval that it refers to. -/
def StoreT.reference (store : StoreT) (pid : Int) (addr : Nat) : Option (HashTable Nat Cacheline × Nat) :=
  if store.Accepts pid then
    match store.array pid.toNat with
    | .made t => do
        let it ← t.find .default addr
        let (t', node) ← t.subscript .default addr
        if it.eq t.end_ then do
          let t' ← t'.setSecond node .new
          return (t', node)
        else return (t', node)
    | .raw | .copyOfRaw => none
  else none

/-- `cacheline &cl = obj_to_cl.get_cacheline(pid, addr);`, which then reads `cl` and writes `f(cl)` to it. -/
def StoreT.modifyCacheline (store : StoreT) (pid : Int) (addr : Nat) (f : Cacheline → Cacheline) :
    Option (StoreT × Cacheline) := do
  let (t, node) ← store.reference pid addr
  let c ← t.nodes node
  let t ← t.setSecond node (f c.val.second)
  return ({ store with array := Function.update store.array pid.toNat (.made t) }, c.val.second)

/-- `obj_to_wr` and `obj_to_cl`. -/
structure Storage where
  objToWr : HashTable Nat (List ModelAction)
  objToCl : StoreT

/-- The tables of a new `Model` on `n` processes. -/
def Storage.new (n : Nat) : Storage := ⟨.new 16, (StoreT.init .new n).vector⟩

/-- A use of the tables. -/
inductive TableUse where
  /-- `get_storelist(addr)`, which then becomes `f` of what it was. -/
  | storelist (addr : Nat) (f : List ModelAction → List ModelAction)
  /-- `obj_to_cl.get_cacheline(pid, addr)`, which then becomes `f` of what it was. -/
  | cacheline (pid : ProcessId) (addr : Nat) (f : Cacheline → Cacheline)
  /-- `obj_to_wr.clear()`. -/
  | clear

/-- What a use of the tables reads. -/
inductive Found where
  | stores (stores : List ModelAction)
  | interval (cl : Cacheline)
  | nothing
  deriving DecidableEq, Repr

def Found.getStores : Found → List ModelAction
  | stores l => l
  | _ => []

def Found.getInterval : Found → Cacheline
  | interval cl => cl
  | _ => .new

/-- The use on the tables. -/
def Storage.run : TableUse → Storage → Option (Storage × Found)
  | .storelist addr f, x => do
      let (t, stores) ← x.objToWr.modify .default (alignAddress addr) f
      return ({ x with objToWr := t }, .stores stores)
  | .cacheline pid addr f, x => do
      let (store, cl) ← x.objToCl.modifyCacheline pid addr f
      return ({ x with objToCl := store }, .interval cl)
  | .clear, x => do
      let t ← x.objToWr.clear
      return ({ x with objToWr := t }, .nothing)

/-- The use on the functions. -/
def Model.use : TableUse → Model → Model × Found
  | .storelist addr f, s =>
      ({ s with objToWr := Function.update s.objToWr (alignAddress addr) (f (s.getStorelist addr)) },
        .stores (s.getStorelist addr))
  | .cacheline pid addr f, s =>
      ({ s with objToCl := s.objToCl.setCacheline pid addr (f (s.objToCl pid addr)) },
        .interval (s.objToCl pid addr))
  | .clear, s => ({ s with objToWr := fun _ => [] }, .nothing)

/-! ## The clients -/

/-- The part of `ensureInitialValue(action)` that works on the tables. -/
def ensureInitialValueClient (initial action : ModelAction) : Client TableUse Found Unit := do
  let _ ← Client.op (.storelist action.word fun l => if l = [] then [initial] else l)
  return ()

/-- The part of `evict_store(action)` that works on the tables. -/
def evictStoreClient (store : ModelAction) : Client TableUse Found Unit := do
  let _ ← Client.op (.storelist store.location fun l => l ++ [store])
  return ()

/-- The loop of `evict_clflush` over the processes: `min` after it. -/
def flushClient (seqNum addr : Nat) : List ProcessId → Nat → Client TableUse Found Nat
  | [], min => return min
  | i :: is, min => do
      let found ← Client.op (.cacheline i addr fun cl => if seqNum ≤ cl.getBegin then cl else cl.setBegin seqNum)
      let begin_ := found.getInterval.getBegin
      if seqNum ≤ begin_ then flushClient seqNum addr is min
      else flushClient seqNum addr is (if begin_ < min then begin_ else min)

/-- The part of `evict_clflush(action)` before the loop over the stores: `min`, and the copy of the stores. -/
def evictClflushClient (action : ModelAction) (seqNum processCount : Nat) :
    Client TableUse Found (Nat × List ModelAction) := do
  let min ← flushClient seqNum action.line (List.range processCount) seqNum
  let found ← Client.op (.storelist action.location id)
  return (min, found.getStores)

end Cxlmc
