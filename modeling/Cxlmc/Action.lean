import Mathlib.Algebra.Group.Nat.Defs

/-!
# Actions (`config.h`, `types.h`, `action.h`, `action.cc`)

What a thread asks the checker to do, with the constants of the build. Addresses and the 64-bit values
are natural numbers: nothing modelled adds up to `2^64`. The clock has 32 bits and wraps around: every
`CLFLUSH` that is evicted takes a number and is freed, so that an execution can take any number of them.
What the model keeps of a number is how many were taken before it; the code reads its low 32 bits
(`modelclock`), and what it compares, stores in an interval or in `crashes` are these.
-/

namespace Cxlmc

/-! ## Constants -/

/-- `CACHELINE_SIZE`. -/
def cachelineSize : Nat := 64

/-- `MAX_CRASHES_PER_EXECUTION`. -/
def maxCrashesPerExecution : Nat := 1

/-- `EVICT_MAX`. -/
def evictMax : Nat := 100

/-- `VALUE_NONE`. -/
def valueNone : Nat := 0xdeadbeef

/-- `CXL_MEM_SIZE`. -/
def cxlMemSize : Nat := 2 ^ 32

/-- The macros of `config.h` that choose the code of a read. -/
structure Config where
  equivStoreSkip : Bool
  gpfAlwaysSucceeds : Bool
  memPoison : Bool
  deriving DecidableEq, Repr

/-- `config.h` as it stands: `EQUIV_STORE_SKIP` is defined, the other two are not. -/
def Config.asBuilt : Config := ⟨true, false, false⟩

/-! ## Names -/

abbrev ThreadId := Nat

abbrev ProcessId := Nat

/-- A `Mutex *`. -/
abbrev MutexId := Nat

/-- A `ConditionVariable *`. -/
abbrev CondId := Nat

/-- `alignAddress`: the 8-byte word of an address. -/
def alignAddress (addr : Nat) : Nat := addr / 8 * 8

/-- `getCacheID`: the cache line of an address. -/
def getCacheID (addr : Nat) : Nat := addr / cachelineSize * cachelineSize

/-- `modelclock_t`, an `unsigned int`: the number that is taken after `ticks` others. -/
def modelclock (ticks : Nat) : Nat := ticks % 2 ^ 32

/-! ## Actions -/

/-- `action_type_t`. -/
inductive ActionType where
  | threadStart
  | threadYield
  | threadFinish
  | threadonlyFinish
  | pthreadCreate
  | pthreadJoin
  | nonatomicStore
  | nonatomicLoad
  | atomicInit
  | atomicStore
  | atomicLoad
  | atomicRmwr
  | atomicCasFailed
  | atomicRmw
  | atomicLock
  | atomicTrylock
  | atomicUnlock
  | atomicNotifyOne
  | atomicNotifyAll
  | atomicWait
  | atomicTimedwait
  | cacheMfence
  | cacheSfence
  | cacheClflush
  | cacheClflushopt
  deriving DecidableEq, Repr

/-- `std::memory_order`. -/
inductive MemoryOrder where
  | relaxed
  | consume
  | acquire
  | release
  | acqRel
  | seqCst
  deriving DecidableEq, Repr

/-- `ModelAction`. The location is an address, or the thread, mutex or condition variable that the
action is about. `tick` stands for `seq_num`: how many numbers were taken before its own. The `position`
text is left out: it is only printed. -/
structure ModelAction where
  tid : ThreadId
  type : ActionType
  location : Nat := 0
  value : Nat := 0
  tick : Nat := 0
  earliestEffect : Nat := 0
  size : Nat := 1
  order : MemoryOrder := .seqCst
  deriving DecidableEq, Repr

namespace ModelAction

/-- `get_seq_num()`. -/
def seqNum (a : ModelAction) : Nat := modelclock a.tick

/-- `ModelAction(ModelAction &action)`: every member but `earliest_effect`, which starts at its
default `0` again. -/
def copy (action : ModelAction) : ModelAction where
  tid := action.tid
  type := action.type
  location := action.location
  value := action.value
  tick := action.tick
  earliestEffect := 0
  size := action.size
  order := action.order

def isSeqCst (a : ModelAction) : Bool := a.order = .seqCst

def isSecondPartOfRmw (a : ModelAction) : Bool := a.type = .atomicRmw || a.type = .atomicCasFailed

def isRead (a : ModelAction) : Bool :=
  a.type = .atomicLoad || a.type = .nonatomicLoad || a.type = .atomicRmwr || a.type = .atomicRmw

def isWrite (a : ModelAction) : Bool :=
  a.type = .atomicStore || a.type = .atomicRmw || a.type = .atomicInit || a.type = .nonatomicStore

/-- `equivalent(other)`. -/
def equivalent (a other : ModelAction) : Bool :=
  a.value = other.value && a.size = other.size && a.location = other.location

/-- The 8-byte word an action falls into. -/
def word (a : ModelAction) : Nat := alignAddress a.location

/-- The cache line an action falls into. -/
def line (a : ModelAction) : Nat := getCacheID a.location

/-- The action covers the byte at `addr`. -/
def Covers (a : ModelAction) (addr : Nat) : Prop := a.location ≤ addr ∧ addr < a.location + a.size

instance (a : ModelAction) (addr : Nat) : Decidable (a.Covers addr) :=
  inferInstanceAs (Decidable (_ ∧ _))

/-- The byte a store holds for `addr`. -/
def byteAt (a : ModelAction) (addr : Nat) : Nat := (a.value >>> (8 * (addr - a.location))) &&& 0xff

/-- A size of 1, 2, 4 or 8 bytes at a multiple of it. -/
def NaturallyAligned (a : ModelAction) : Prop :=
  (a.size = 1 ∨ a.size = 2 ∨ a.size = 4 ∨ a.size = 8) ∧ a.location % a.size = 0

instance (a : ModelAction) : Decidable a.NaturallyAligned := inferInstanceAs (Decidable (_ ∧ _))

end ModelAction

/-! ## The clock -/

/-- The first `2 ^ 32` numbers are what they count. -/
theorem modelclock_of_lt {ticks : Nat} (h : ticks < 2 ^ 32) : modelclock ticks = ticks := Nat.mod_eq_of_lt h

theorem modelclock_le (ticks : Nat) : modelclock ticks ≤ ticks := Nat.mod_le ticks _

theorem le_modelclock_of_lt {m ticks : Nat} (h : m < modelclock (ticks + 1)) : m ≤ modelclock ticks := by
  simp only [modelclock] at h ⊢
  omega

theorem ModelAction.seqNum_of_lt {a : ModelAction} (h : a.tick < 2 ^ 32) : a.seqNum = a.tick :=
  modelclock_of_lt h

theorem ModelAction.seqNum_le (a : ModelAction) : a.seqNum ≤ a.tick := modelclock_le a.tick

theorem ModelAction.seqNum_eq_zero {a : ModelAction} (h : a.tick = 0) : a.seqNum = 0 := by
  rw [seqNum, h]
  rfl

/-! ## Words and lines -/

theorem getCacheID_alignAddress (addr : Nat) : getCacheID (alignAddress addr) = getCacheID addr := by
  simp only [getCacheID, alignAddress, cachelineSize]
  omega

theorem alignAddress_alignAddress (addr : Nat) :
    alignAddress (alignAddress addr) = alignAddress addr := by
  simp only [alignAddress]
  omega

/-- A naturally aligned access stays inside its word. -/
theorem ModelAction.NaturallyAligned.inWord {a : ModelAction} (h : a.NaturallyAligned) :
    a.word ≤ a.location ∧ a.location + a.size ≤ a.word + 8 := by
  obtain ⟨hsize, hmod⟩ := h
  simp only [ModelAction.word, alignAddress]
  rcases hsize with hs | hs | hs | hs <;> rw [hs] at hmod ⊢ <;> omega

theorem ModelAction.NaturallyAligned.alignAddress_eq {a : ModelAction} (h : a.NaturallyAligned)
    {addr : Nat} (hc : a.Covers addr) : alignAddress addr = a.word := by
  have := h.inWord
  simp only [ModelAction.Covers, ModelAction.word, alignAddress] at *
  omega

theorem ModelAction.NaturallyAligned.size_pos {a : ModelAction} (h : a.NaturallyAligned) :
    0 < a.size := by
  rcases h.1 with hs | hs | hs | hs <;> omega

/-- Of two naturally aligned accesses that overlap, one contains the other. -/
theorem ModelAction.NaturallyAligned.nested {a b : ModelAction} (ha : a.NaturallyAligned)
    (hb : b.NaturallyAligned) (hab : a.location < b.location + b.size)
    (hba : b.location < a.location + a.size) :
    (a.location ≤ b.location ∧ b.location + b.size ≤ a.location + a.size) ∨
      (b.location ≤ a.location ∧ a.location + a.size ≤ b.location + b.size) := by
  obtain ⟨hsa, hma⟩ := ha
  obtain ⟨hsb, hmb⟩ := hb
  rcases hsa with hs | hs | hs | hs <;> rcases hsb with hs' | hs' | hs' | hs' <;>
    rw [hs] at hma hba ⊢ <;> rw [hs'] at hmb hab ⊢ <;> omega

end Cxlmc
