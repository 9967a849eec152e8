import Cxlmc.Lib.FlatMemory
import Cxlmc.Lib.While

/-!
# The string functions (`memapi.cc`)

`cxlmc_memcpy`, `cxlmc_memmove`, `cxlmc_memset` and `bzero` go through CXL memory in accesses of 8, 4,
2 or 1 bytes, and each of the four loops has the same tests for the width. An address range does not
wrap around; the offset `i` is an `unsigned` of 32 bits and does. The loads and stores are those of a
flat memory, and every one of them is recorded. All functions are given the number of rounds that their
loop may take.
-/

namespace Cxlmc

/-- A call of `cxlmc_loadN` or `cxlmc_storeN`. -/
structure MemAccess where
  isStore : Bool
  addr : Nat
  width : Nat
  deriving DecidableEq, Repr

/-- The offset `i` of a loop, the memory, and the accesses so far. -/
structure LoopState where
  i : Nat
  memory : FlatMemory
  accesses : List MemAccess

/-- The state in front of a loop. -/
def LoopState.start (memory : FlatMemory) : LoopState := ⟨0, memory, []⟩

/-- The tests of the loops, for a loop that goes through `addrs`: the width of the next access. -/
def chunkWidth (addrs : List Nat) (n i : Nat) : Nat :=
  if (∀ a ∈ addrs, (a + i) &&& 7 = 0) ∧ (i + 8) % 2 ^ 32 ≤ n then 8
  else if (∀ a ∈ addrs, (a + i) &&& 3 = 0) ∧ (i + 4) % 2 ^ 32 ≤ n then 4
  else if (∀ a ∈ addrs, (a + i) &&& 1 = 0) ∧ (i + 2) % 2 ^ 32 ≤ n then 2
  else 1

/-- One round: an access of the width that the tests choose, and `i += width`. -/
def chunkRound (addrs : List Nat) (access : Nat → LoopState → LoopState) (n : Nat) (s : LoopState) :
    LoopState :=
  let width := chunkWidth addrs n s.i
  { access width s with i := (s.i + width) % 2 ^ 32 }

/-- `for(unsigned i=0;i<n;)`, in at most `rounds` rounds. -/
def chunkLoop (addrs : List Nat) (access : Nat → LoopState → LoopState) (n rounds : Nat)
    (s : LoopState) : LoopState :=
  whileLoop (fun s => decide (s.i < n)) (chunkRound addrs access n) rounds s

/-- `cxlmc_loadN(src + i)` and `cxlmc_storeN(dst + i)`. -/
def copyAccess (dst src width : Nat) (s : LoopState) : LoopState :=
  let val := s.memory.load (src + s.i) width
  { s with
    memory := s.memory.store (dst + s.i) width val
    accesses := s.accesses ++ [⟨false, src + s.i, width⟩, ⟨true, dst + s.i, width⟩] }

/-- `cxlmc_storeN(dst + i)` of a value that depends on the width. -/
def setAccess (dst : Nat) (val : Nat → Nat) (width : Nat) (s : LoopState) : LoopState :=
  { s with
    memory := s.memory.store (dst + s.i) width (val width)
    accesses := s.accesses ++ [⟨true, dst + s.i, width⟩] }

def cxlmcMemmove (dst src n : Nat) (memory : FlatMemory) (rounds : Nat) : LoopState :=
  chunkLoop [src, dst] (copyAccess dst src) n rounds (.start memory)

def cxlmcMemcpy (dst src n : Nat) (memory : FlatMemory) (rounds : Nat) : LoopState :=
  chunkLoop [src, dst] (copyAccess dst src) n rounds (.start memory)

/-! ### `cxlmc_memset`

The patterns are computed on `int`, of 32 bits, and converted to the type they are assigned to. -/

/-- `uint8_t cs = c&0xff`. -/
def memsetCs (c : BitVec 32) : BitVec 8 := (c &&& 0xff).setWidth 8

/-- `uint16_t cs2 = cs << 8 | cs`. -/
def memsetCs2 (cs : BitVec 8) : BitVec 16 := (cs.setWidth 32 <<< 8 ||| cs.setWidth 32).setWidth 16

/-- The `int` that `cs2 << 16 | cs2` is. -/
def memsetInt (cs : BitVec 8) : BitVec 32 :=
  (memsetCs2 cs).setWidth 32 <<< 16 ||| (memsetCs2 cs).setWidth 32

/-- `uint64_t cs3 = cs2 << 16 | cs2`. -/
def memsetCs3 (cs : BitVec 8) : BitVec 64 := (memsetInt cs).signExtend 64

/-- `uint64_t cs4 = cs3 << 32 | cs3`. -/
def memsetCs4 (cs : BitVec 8) : BitVec 64 := memsetCs3 cs <<< 32 ||| memsetCs3 cs

/-- The value that is stored with each width. -/
def memsetValue (c : BitVec 32) : Nat → Nat
  | 8 => (memsetCs4 (memsetCs c)).toNat
  | 4 => (memsetInt (memsetCs c)).toNat
  | 2 => (memsetCs2 (memsetCs c)).toNat
  | _ => (memsetCs c).toNat

def cxlmcMemset (dst : Nat) (c : BitVec 32) (n : Nat) (memory : FlatMemory) (rounds : Nat) :
    LoopState :=
  chunkLoop [dst] (setAccess dst (memsetValue c)) n rounds (.start memory)

/-- The loop of `bzero` for CXL memory. -/
def bzero (dst n : Nat) (memory : FlatMemory) (rounds : Nat) : LoopState :=
  chunkLoop [dst] (setAccess dst fun _ => 0) n rounds (.start memory)

/-! ### `strcpy` -/

/-- `while(src[n] != '\0') n++;`: where it stops, if it stops within `rounds` rounds. -/
def scanString (src : Nat) (memory : FlatMemory) (rounds : Nat) : Option Nat :=
  let n := whileLoop (fun n => decide (memory (src + n) ≠ 0)) (· + 1) rounds 0
  if memory (src + n) = 0 then some n else none

/-- `((volatile char *)dst)[i] = ((char *)src)[i]` and `i++`. -/
def byteRound (dst src : Nat) (s : LoopState) : LoopState :=
  { s with
    memory := s.memory.store (dst + s.i) 1 (s.memory.load (src + s.i) 1)
    i := (s.i + 1) % 2 ^ 32 }

/-- `for(unsigned i=0;i<n;i++)` of the fallback path, in at most `rounds` rounds. -/
def byteLoop (dst src n rounds : Nat) (s : LoopState) : LoopState :=
  whileLoop (fun s => decide (s.i < n)) (byteRound dst src) rounds s

/-- `strcpy(dst, src)`: the memory it leaves, if `rounds` rounds are enough for each of its loops.
`strcpyReal` is `none` as long as `strcpy_real` is not resolved. -/
def strcpy (memIsCxl : Nat → Bool) (strcpyReal : Option (Nat → Nat → FlatMemory → FlatMemory))
    (dst src : Nat) (memory : FlatMemory) (rounds : Nat) : Option FlatMemory :=
  if memIsCxl dst then do
    let n ← scanString src memory rounds
    let s := chunkLoop [src, dst] (copyAccess dst src) n rounds (.start memory)
    if n ≤ s.i then some s.memory else none
  else
    match strcpyReal with
    | none => do
        let n ← scanString src memory rounds
        let s := byteLoop dst src n rounds (.start memory)
        if n ≤ s.i then some s.memory else none
    | some real => some (real dst src memory)

end Cxlmc
