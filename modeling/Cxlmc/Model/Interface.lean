import Cxlmc.Model.Executor

/-!
# What the program calls (`api.cc`, `pthread.cc`, `sleep.cc`, `user.cc`)

`Call` lists the functions through which a program enters the checker, and `Call.action` the
action each of them hands to `Model::action`. An access outside CXL memory is done directly and
never enters the checker.
-/

namespace Cxlmc

/-- The `size` of the access macros, `8` to `64` bits. -/
inductive Width where
  | w8
  | w16
  | w32
  | w64
  deriving DecidableEq, Repr

/-- `size >> 3`. -/
def Width.bytes : Width → Nat
  | .w8 => 1
  | .w16 => 2
  | .w32 => 4
  | .w64 => 8

/-- Conversion to `uintN_t`, for a type of `size` bytes. -/
def toUint (size val : Nat) : Nat := val % 2 ^ (8 * size)

/-- `orders[atomic_index]`; the entries without an initialiser are `memory_order_relaxed`. -/
def orders : Nat → MemoryOrder
  | 1 => .consume
  | 2 => .acquire
  | 3 => .release
  | 4 => .acqRel
  | 5 => .seqCst
  | _ => .relaxed

/-- `_copy __op__ _val` on `uintN_t`, and for a comparison that succeeds the desired value; `none`
for a comparison that fails. -/
def RmwOp.apply (size old : Nat) : RmwOp → Option Nat
  | .exchange val => some (toUint size val)
  | .fetchAdd val => some (toUint size (old + toUint size val))
  | .fetchSub val => some (toUint size (old + (2 ^ (8 * size) - toUint size val)))
  | .fetchAnd val => some (old &&& toUint size val)
  | .fetchOr val => some (old ||| toUint size val)
  | .fetchXor val => some (old ^^^ toUint size val)
  | .compareExchange expected desired =>
      if old = toUint size expected then some (toUint size desired) else none

inductive Call where
  | load (loc : Nat) (width : Width)
  | store (loc : Nat) (width : Width) (val : Nat)
  | volatileLoad (loc : Nat) (width : Width)
  | volatileStore (loc : Nat) (width : Width) (val : Nat)
  | atomicInit (loc : Nat) (width : Width) (val : Nat)
  | atomicLoad (loc : Nat) (width : Width) (atomicIndex : Nat)
  | atomicStore (loc : Nat) (width : Width) (val atomicIndex : Nat)
  | atomicRmw (op : RmwOp) (addr : Nat) (width : Width) (atomicIndex indexFail : Nat)
  | sfence (loc : Nat)
  | mfence (loc : Nat)
  | clflush (loc : Nat)
  /-- `cxlmc_clflushopt` and `cxlmc_clwb`. -/
  | clflushopt (loc : Nat)
  | pthreadCreate (tid : Nat)
  | pthreadJoin (tid : ThreadId)
  /-- `sched_yield` and the sleep functions. -/
  | schedYield
  | threadStart
  | threadFinish
  | pthreadExit (value : Nat)
  | lock (m : MutexId)
  | tryLock (m : MutexId)
  | unlock (m : MutexId)
  | condWait (c : CondId) (m : MutexId)
  | condTimedwait (c : CondId) (m : MutexId)
  | notifyOne (c : CondId)
  | notifyAll (c : CondId)
  /-- `model->insert_crash()`. -/
  | insertCrash
  | noBacktrackBegin
  | noBacktrackEnd
  /-- `main` returns: `user_done`. -/
  | userDone
  /-- The program calls `exit`. -/
  | exit
  deriving DecidableEq, Repr

/-- The actions without a location, `ModelAction(t)`. -/
def ModelAction.plain (tid : ThreadId) (type : ActionType) : ModelAction :=
  { tid := tid, type := type, size := 0 }

/-- What a call hands to `Model::action`. -/
structure Request where
  action : ModelAction
  /-- The argument `yield`. -/
  yields : Bool := true
  ret : Ret := .toUser
  /-- The call checks `mem_is_cxl` of the location. -/
  needsCxl : Bool := false

/-- The request of a load of `uintN_t`. -/
def Request.loadOf (tid : ThreadId) (type : ActionType) (loc : Nat) (width : Width)
    (order : MemoryOrder) (yields : Bool) : Request where
  action := { tid := tid, type := type, location := loc, value := valueNone, order := order,
              size := width.bytes }
  yields := yields
  needsCxl := true

/-- The request of a store of `uintN_t`; `*((uintN_t *) loc) = val` follows it. -/
def Request.storeOf (tid : ThreadId) (type : ActionType) (loc : Nat) (width : Width) (val : Nat)
    (order : MemoryOrder) (yields : Bool) : Request where
  action := { tid := tid, type := type, location := loc, value := toUint width.bytes val,
              order := order, size := width.bytes }
  yields := yields
  ret := .rawStore loc width.bytes (toUint width.bytes val)
  needsCxl := true

/-- The request of a call made by thread `tid`; `none` for the calls that make no action. -/
def Call.request (tid : ThreadId) : Call → Option Request
  | .load loc width => some (.loadOf tid .nonatomicLoad loc width .relaxed false)
  | .store loc width val => some (.storeOf tid .nonatomicStore loc width val .relaxed false)
  | .volatileLoad loc width => some (.loadOf tid .atomicLoad loc width .acquire false)
  | .volatileStore loc width val => some (.storeOf tid .atomicStore loc width val .release false)
  | .atomicInit loc width val => some (.storeOf tid .atomicInit loc width val .relaxed true)
  | .atomicLoad loc width i => some (.loadOf tid .atomicLoad loc width (orders i) true)
  | .atomicStore loc width val i => some (.storeOf tid .atomicStore loc width val (orders i) true)
  | .atomicRmw op addr width i iFail =>
      some { action := { tid := tid, type := .atomicRmwr, location := addr, order := orders i,
                         size := width.bytes }
             ret := .rmw ⟨op, addr, width.bytes, orders i, orders iFail⟩
             needsCxl := true }
  | .sfence loc => some { action := { tid := tid, type := .cacheSfence, location := loc } }
  | .mfence loc => some { action := { tid := tid, type := .cacheMfence, location := loc } }
  | .clflush loc => some { action := { tid := tid, type := .cacheClflush, location := loc } }
  | .clflushopt loc => some { action := { tid := tid, type := .cacheClflushopt, location := loc } }
  | .pthreadCreate p => some { action := { tid := tid, type := .pthreadCreate, location := p } }
  | .pthreadJoin t =>
      some { action := { tid := tid, type := .pthreadJoin, location := t, value := t } }
  | .schedYield => some { action := .plain tid .threadYield }
  | .threadStart => some { action := .plain tid .threadStart }
  | .threadFinish => some { action := .plain tid .threadFinish }
  | .pthreadExit v =>
      some { action := { tid := tid, type := .threadonlyFinish, location := v } }
  | .lock m => some { action := { tid := tid, type := .atomicLock, location := m } }
  | .tryLock m => some { action := { tid := tid, type := .atomicTrylock, location := m } }
  | .unlock m => some { action := { tid := tid, type := .atomicUnlock, location := m } }
  | .condWait c m =>
      some { action := { tid := tid, type := .atomicWait, location := c, value := m }
             ret := .lock m }
  | .condTimedwait c m =>
      some { action := { tid := tid, type := .atomicTimedwait, location := c, value := m }
             ret := .lock m }
  | .notifyOne c => some { action := { tid := tid, type := .atomicNotifyOne, location := c } }
  | .notifyAll c => some { action := { tid := tid, type := .atomicNotifyAll, location := c } }
  | .insertCrash | .noBacktrackBegin | .noBacktrackEnd | .userDone | .exit => none

/-- The second half of a read-modify-write that has read `old`: its action, and what is left to do
after it. -/
def Rmw.secondHalf (tid : ThreadId) (r : Rmw) (old : Nat) : ModelAction × Ret :=
  match r.op.apply r.size old with
  | none =>
      ({ tid := tid, type := .atomicCasFailed, location := r.addr, order := r.orderFail,
         size := r.size }, .toUser)
  | some new =>
      ({ tid := tid, type := .atomicRmw, location := r.addr, value := new, order := r.order,
         size := r.size },
        match r.op with
        | .compareExchange _ _ => .rawStore r.addr r.size new
        | _ => .toUser)

/-! ## What the calls on mutexes return

`value` is what `Model::action` has returned. -/

/-- `EBUSY`. -/
def ebusy : Nat := 16

/-- `m->lock(); return 0`, for a mutex that is tracked. -/
def pthreadMutexLock (_value : Nat) : Nat := 0

/-- `m->try_lock() ? 0 : EBUSY`. -/
def pthreadMutexTrylock (value : Nat) : Nat := if value ≠ 0 then 0 else ebusy

/-- `m->unlock(); return 0`, for a mutex that is tracked. -/
def pthreadMutexUnlock (_value : Nat) : Nat := 0

/-- `mutex_lock_crashed`: `m->lock() + 1`, where `lock` returns a `bool`. -/
def mutexLockCrashed (value : Nat) : Nat := (if value ≠ 0 then 1 else 0) + 1

end Cxlmc
