import Mathlib.Logic.Function.Basic
import Mathlib.Algebra.Group.Nat.Defs

/-!
# The vector (`vector.h`)

`Vector` is an array with a size and a capacity, which are `uint`. A cell of the array holds what the last
constructor has put there. A function gives the vector and its writes: the cells that it has run a constructor
on, each with the capacity of the array at that time. A copy of a value is the value.
-/

namespace Cxlmc

/-- What is in a cell of an array: memory that holds no object, an object, or what the copy constructor makes
of memory that holds none. -/
inductive Elem (α : Type) where
  | raw
  | made (val : α)
  | copyOfRaw
  deriving DecidableEq, Repr

/-- `type(elem)`. -/
def Elem.copy {α : Type} : Elem α → Elem α
  | made val => made val
  | raw | copyOfRaw => copyOfRaw

/-- A constructor is run on `array[index]`. -/
structure Write where
  index : Nat
  capacity : Nat
  deriving DecidableEq, Repr

structure Vector (α : Type) where
  size : Nat
  capacity : Nat
  array : Nat → Elem α

/-- The values of `uint`. -/
def uint (n : Nat) : Nat := n % 2 ^ 32

/-- `n - 1`. -/
def uintPred (n : Nat) : Nat := if n = 0 then 2 ^ 32 - 1 else n - 1

/-- A vector and the writes on the way to it. -/
structure Traced (α : Type) where
  vector : Vector α
  writes : List Write

/-- One piece of code after another one. -/
def Traced.andThen {α : Type} (x : Traced α) (f : Vector α → Traced α) : Traced α where
  vector := (f x.vector).vector
  writes := x.writes ++ (f x.vector).writes

@[simp] theorem Traced.vector_andThen {α : Type} (x : Traced α) (f : Vector α → Traced α) :
    (x.andThen f).vector = (f x.vector).vector := rfl

namespace Vector

variable {α : Type}

/-- Memory from `mspace_calloc`. -/
def calloc : Nat → Elem α := fun _ => .raw

/-- The memory after `mspace_realloc`. -/
def realloc (array : Nat → Elem α) (capacity newcap : Nat) : Nat → Elem α :=
  fun i => if i < capacity ∧ i < newcap then array i else .raw

/-- The memory after the destructors of the cells from `first` up to `last`. -/
def destroy (array : Nat → Elem α) (first last : Nat) : Nat → Elem α :=
  fun i => if first ≤ i ∧ i < last then .raw else array i

/-- `new (&array[index]) type(item)`. -/
def construct (v : Vector α) (index : Nat) (item : Elem α) : Traced α :=
  ⟨{ v with array := Function.update v.array index item.copy }, [⟨index, v.capacity⟩]⟩

/-! ## Constructors -/

/-- `Vector()`. -/
def new : Vector α where
  size := 0
  capacity := 8
  array := calloc

/-- `Vector(size)`. -/
def sized (size : Nat) : Vector α where
  size := size
  capacity := size
  array := calloc

/-- `for (uint i=0; i<_size; i++) new (&array[i]) type(src[i]);`: `n` rounds from `i` on. -/
def copyCells (src : Nat → Elem α) : (n i : Nat) → Vector α → Traced α
  | 0, _, v => ⟨v, []⟩
  | n + 1, i, v => (v.construct i (src i)).andThen (copyCells src n (i + 1))

/-- `Vector(size, _array)`. -/
def ofArray (size : Nat) (array : Nat → α) : Traced α :=
  copyCells (fun i => .made (array i)) size 0 (sized size)

/-- A vector with the size and the capacity of another one, and a new array. -/
def like (vec : Vector α) : Vector α where
  size := vec.size
  capacity := vec.capacity
  array := calloc

/-- `Vector(vec)`. -/
def copy (vec : Vector α) : Traced α := copyCells vec.array vec.size 0 vec.like

/-! ## Operations -/

def popBack (v : Vector α) : Traced α :=
  ⟨{ v with
    size := uintPred v.size
    array := destroy v.array (v.size - 1) v.size }, []⟩

def resize (v : Vector α) (psize : Nat) : Traced α :=
  if psize ≤ v.size then
    ⟨{ v with size := psize, array := destroy v.array psize v.size }, []⟩
  else if psize > v.capacity then
    ⟨{ size := psize
       capacity := uint (psize <<< 1)
       array := realloc v.array v.capacity (uint (psize <<< 1)) }, []⟩
  else ⟨{ v with size := psize }, []⟩

/-- The array of `push_back`, which is doubled when it is full. -/
def grow (v : Vector α) : Vector α :=
  if v.size ≥ v.capacity then
    { v with
      capacity := uint (v.capacity <<< 1)
      array := realloc v.array v.capacity (uint (v.capacity <<< 1)) }
  else v

def pushBack (v : Vector α) (item : α) : Traced α :=
  (v.grow.construct v.size (.made item)).andThen fun v => ⟨{ v with size := uint (v.size + 1) }, []⟩

def set (v : Vector α) (index : Nat) (item : Elem α) : Traced α := v.construct index item.copy

def setExpand (v : Vector α) (index : Nat) (item : α) : Traced α :=
  if index ≥ v.size then (v.resize (uint (index + 1))).andThen fun v => v.set index (.made item)
  else v.set index (.made item)

/-- `for (i; i > index; i--) set(i, at(i - 1));`. -/
def shiftUp (index : Nat) : (i : Nat) → Vector α → Traced α
  | 0, v => ⟨v, []⟩
  | i + 1, v =>
      if i + 1 > index then (v.set (i + 1) (v.array i)).andThen (shiftUp index i)
      else ⟨v, []⟩

def insertAt (v : Vector α) (index : Nat) (item : α) : Traced α :=
  ((v.resize (uint (v.size + 1))).andThen fun v => shiftUp index (v.size - 1) v).andThen fun v =>
    v.set index (.made item)

/-- `set(i, at(i + 1));`: `n` rounds from `i` on. -/
def shiftDown : (n i : Nat) → Vector α → Traced α
  | 0, _, v => ⟨v, []⟩
  | n + 1, i, v => (v.set i (v.array (i + 1))).andThen (shiftDown n (i + 1))

def removeAt (v : Vector α) (index : Nat) : Traced α :=
  (shiftDown (v.size - (index + 1)) index v).andThen fun v => v.resize (uintPred v.size)

def clear (v : Vector α) : Traced α :=
  ⟨{ v with size := 0, array := destroy v.array 0 v.size }, []⟩

end Vector

/-! ## Programs on vectors -/

/-- The vectors of a program. -/
abbrev Vectors (α : Type) := Nat → Vector α

namespace Vector

variable {α : Type}

/-- `dst = vec`. Where the two are one, `vec.array` is the new array. -/
def assign (vs : Vectors α) (dst vec : Nat) : Traced α :=
  let vs' := Function.update vs dst (vs vec).like
  copyCells (vs' vec).array (vs vec).size 0 (vs' dst)

/-- A use of a vector. -/
inductive Command (α : Type) where
  | pushBack (item : α)
  | popBack
  | resize (psize : Nat)
  | setExpand (index : Nat) (item : α)
  | insertAt (index : Nat) (item : α)
  | removeAt (index : Nat)
  | clear

def run (v : Vector α) : Command α → Traced α
  | .pushBack item => v.pushBack item
  | .popBack => v.popBack
  | .resize psize => v.resize psize
  | .setExpand index item => v.setExpand index item
  | .insertAt index item => v.insertAt index item
  | .removeAt index => v.removeAt index
  | .clear => v.clear

/-- A step of a program on vectors. -/
inductive Step (α : Type) where
  /-- `Vector dst`. -/
  | new (dst : Nat)
  /-- `Vector dst(size)`. -/
  | sized (dst size : Nat)
  /-- `Vector dst(size, array)`. -/
  | ofArray (dst size : Nat) (array : Nat → α)
  /-- `Vector dst(vec)`. -/
  | copy (dst vec : Nat)
  /-- `dst = vec`. -/
  | assign (dst vec : Nat)
  | swap (i other : Nat)
  | on (i : Nat) (c : Command α)

def runStep (vs : Vectors α) : Step α → Vectors α × List Write
  | .new dst => (Function.update vs dst .new, [])
  | .sized dst size => (Function.update vs dst (.sized size), [])
  | .ofArray dst size array => let x := ofArray size array; (Function.update vs dst x.vector, x.writes)
  | .copy dst vec => let x := (vs vec).copy; (Function.update vs dst x.vector, x.writes)
  | .assign dst vec => let x := assign vs dst vec; (Function.update vs dst x.vector, x.writes)
  | .swap i other => (Function.update (Function.update vs other (vs i)) i (vs other), [])
  | .on i c => let x := (vs i).run c; (Function.update vs i x.vector, x.writes)

end Vector

end Cxlmc
