import Cxlmc.Lib.Replies
import Cxlmc.Model.HashTable
import Cxlmc.Model.Interface

/-!
# Mutexes and condition variables by address (`pthread.cc`)

`Trackers` has the tables that take the address of a `pthread_mutex_t` or a `pthread_cond_t` to an object of
the checker, and these objects. A call that does not return gives a `NoReturn`. What `Mutex::lock` and
`Mutex::unlock` do with the mutex is here a function of it (`Mutex.lock`, `Mutex.unlock`); a call to
`pthread_mutex_lock` that waits stands where it takes effect.
-/

namespace Cxlmc

/-! ## Keys -/

/-- `ExtPtr`; the process is `none` for `-1`. -/
abbrev ExtPtr := Pair Nat (Option ProcessId)

/-- `make_ext_ptr(ptr)` in process `pid`. -/
def makeExtPtr (memIsCxl : Nat → Bool) (pid : ProcessId) (ptr : Nat) : ExtPtr :=
  ⟨ptr, if memIsCxl ptr then none else some pid⟩

/-- `(size_t) pid`. -/
def pidWord : Option ProcessId → Nat
  | none => 2 ^ 64 - 1
  | some pid => pid

/-- `ExtPtr::hash` and `==`. -/
def ExtPtr.hashing : Hashing ExtPtr where
  hash p := (Hashing.default.hash p.first * 31 + Hashing.default.hash (pidWord p.second)) % 2 ^ 64
  equals key1 key2 := key1 = key2

/-! ## Calls -/

/-- A call of the program. -/
inductive PthreadCall where
  | mutexInit (mutex : Nat) (attr : Option MutexType)
  | mutexLock (mutex : Nat)
  | mutexUnlock (mutex : Nat)
  | mutexDestroy (mutex : Nat)
  | condInit (cond : Nat)
  | condDestroy (cond : Nat)
  deriving DecidableEq, Repr

/-- A call of thread `tid` of process `pid`. -/
structure Called where
  pid : ProcessId
  tid : ThreadId
  call : PthreadCall
  deriving DecidableEq, Repr

/-- Why a call does not return. -/
inductive NoReturn where
  /-- It reads through a null pointer, or through a pointer to an object that is gone. -/
  | fault
  /-- `abort()`. -/
  | abort
  /-- It waits. -/
  | waits
  deriving DecidableEq, Repr

/-- The value, or `why` there is none. -/
def orElse {α : Type} (why : NoReturn) : Option α → Except NoReturn α
  | none => .error why
  | some x => .ok x

/-- `EINVAL`. -/
def einval : Nat := 22

/-! ## Mutexes -/

/-- `lock()` of thread `tid`. -/
def Mutex.lock (mx : Mutex) (tid : ThreadId) : Except NoReturn Mutex :=
  match mx.owner with
  | none => .ok { mx with owner := some tid, recursiveLockCount := 0 }
  | some o =>
      if tid = o then
        match mx.mutexType with
        | .recursive => .ok { mx with recursiveLockCount := mx.recursiveLockCount + 1 }
        | .errorcheck => .ok mx
        | .default => .error .abort
      else .error .waits

/-- `unlock()` of thread `tid`. -/
def Mutex.unlock (mx : Mutex) (tid : ThreadId) : Mutex :=
  if mx.owner ≠ some tid then mx
  else if mx.mutexType = .recursive ∧ mx.recursiveLockCount > 0 then
    { mx with recursiveLockCount := mx.recursiveLockCount - 1 }
  else { mx with owner := none, recursiveLockCount := 0 }

/-! ## The functions -/

structure Trackers where
  mutexMap : HashTable ExtPtr (Option MutexId)
  condMap : HashTable ExtPtr (Option CondId)
  /-- The `Mutex` objects. -/
  mutexes : MutexId → Option Mutex
  /-- The `ConditionVariable` objects, which have no fields. -/
  conds : CondId → Option Unit
  /-- The address of the next object. -/
  fresh : Nat

namespace Trackers

/-- Before the first call. -/
def new : Trackers where
  mutexMap := .new 16
  condMap := .new 16
  mutexes := fun _ => none
  conds := fun _ => none
  fresh := 0

/-- `pthread_mutex_init(p_mutex, attr)`. -/
def pthreadMutexInit (s : Trackers) (ep : ExtPtr) (attr : Option MutexType) :
    Except NoReturn (Nat × Trackers) := do
  let m := s.fresh
  let (mutexMap, _) ← orElse .fault (s.mutexMap.emplace ExtPtr.hashing ep (some m))
  return (0, { s with
    mutexMap := mutexMap
    mutexes := Function.update s.mutexes m (some ⟨attr.getD .default, none, 0⟩)
    fresh := m + 1 })

/-- `pthread_mutex_lock(p_mutex)` from `mutex_map->at(ep)` on. -/
def lockTracked (s : Trackers) (tid : ThreadId) (ep : ExtPtr) : Except NoReturn (Nat × Trackers) := do
  let (mutexMap, m) ← orElse .abort (s.mutexMap.at_ ExtPtr.hashing ep)
  let s := { s with mutexMap := mutexMap }
  match m with
  | some m => do
      let mx ← orElse .fault (s.mutexes m)
      let mx ← mx.lock tid
      return (0, { s with mutexes := Function.update s.mutexes m (some mx) })
  | none => return (1, s)

/-- `pthread_mutex_lock(p_mutex)` of thread `tid`. -/
def pthreadMutexLock (s : Trackers) (tid : ThreadId) (ep : ExtPtr) : Except NoReturn (Nat × Trackers) := do
  let it ← orElse .fault (s.mutexMap.find ExtPtr.hashing ep)
  if it.eq s.mutexMap.end_ then do
    let (_, s) ← s.pthreadMutexInit ep none
    s.lockTracked tid ep
  else s.lockTracked tid ep

/-- `pthread_mutex_unlock(p_mutex)` of thread `tid`. -/
def pthreadMutexUnlock (s : Trackers) (tid : ThreadId) (ep : ExtPtr) : Except NoReturn (Nat × Trackers) := do
  let (mutexMap, m) ← orElse .abort (s.mutexMap.at_ ExtPtr.hashing ep)
  let s := { s with mutexMap := mutexMap }
  match m with
  | some m => do
      let mx ← orElse .fault (s.mutexes m)
      return (0, { s with mutexes := Function.update s.mutexes m (some (mx.unlock tid)) })
  | none => return (1, s)

/-- `pthread_mutex_destroy(p_mutex)`. -/
def pthreadMutexDestroy (s : Trackers) (ep : ExtPtr) : Except NoReturn (Nat × Trackers) := do
  let iter ← orElse .fault (s.mutexMap.find ExtPtr.hashing ep)
  if iter.eq s.mutexMap.end_ then do
    let p ← orElse .fault (s.mutexMap.deref iter)
    let m ← orElse .fault p.second
    let mx ← orElse .fault (s.mutexes m)
    if mx.owner.isSome then return (ebusy, s)
    else do
      let (mutexMap, _) ← orElse .fault (s.mutexMap.erase iter)
      return (0, { s with mutexMap := mutexMap, mutexes := Function.update s.mutexes m none })
  else return (einval, s)

/-- `pthread_cond_init(p_cond, attr)`. -/
def pthreadCondInit (s : Trackers) (ep : ExtPtr) : Except NoReturn (Nat × Trackers) := do
  let v := s.fresh
  let (condMap, _) ← orElse .fault (s.condMap.emplace ExtPtr.hashing ep (some v))
  return (0, { s with
    condMap := condMap
    conds := Function.update s.conds v (some ())
    fresh := v + 1 })

/-- `pthread_cond_destroy(p_cond)`. -/
def pthreadCondDestroy (s : Trackers) (ep : ExtPtr) : Except NoReturn (Nat × Trackers) := do
  let iter ← orElse .fault (s.condMap.find ExtPtr.hashing ep)
  if iter.eq s.condMap.end_ then do
    let p ← orElse .fault (s.condMap.deref iter)
    let (condMap, _) ← orElse .fault (s.condMap.erase iter)
    -- `delete` of a null pointer does nothing
    let conds := match p.second with
      | some v => Function.update s.conds v none
      | none => s.conds
    return (0, { s with condMap := condMap, conds := conds })
  else return (einval, s)

/-- A call. -/
def call (memIsCxl : Nat → Bool) (s : Trackers) (c : Called) : Except NoReturn (Nat × Trackers) :=
  match c.call with
  | .mutexInit p attr => s.pthreadMutexInit (makeExtPtr memIsCxl c.pid p) attr
  | .mutexLock p => s.pthreadMutexLock c.tid (makeExtPtr memIsCxl c.pid p)
  | .mutexUnlock p => s.pthreadMutexUnlock c.tid (makeExtPtr memIsCxl c.pid p)
  | .mutexDestroy p => s.pthreadMutexDestroy (makeExtPtr memIsCxl c.pid p)
  | .condInit p => s.pthreadCondInit (makeExtPtr memIsCxl c.pid p)
  | .condDestroy p => s.pthreadCondDestroy (makeExtPtr memIsCxl c.pid p)

/-- The mutex that `mutex_map` has for `ep`. -/
def mutex (s : Trackers) (ep : ExtPtr) : Option Mutex := do
  let iter ← s.mutexMap.find ExtPtr.hashing ep
  let p ← s.mutexMap.deref iter
  s.mutexes (← p.second)

/-- The condition variable that `cond_map` has for `ep`. -/
def cond (s : Trackers) (ep : ExtPtr) : Option Unit := do
  let iter ← s.condMap.find ExtPtr.hashing ep
  let p ← s.condMap.deref iter
  s.conds (← p.second)

end Trackers

end Cxlmc
