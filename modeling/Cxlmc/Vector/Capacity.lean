import Cxlmc.Lib.Always
import Cxlmc.Model.Vector

/-!
# A vector stays within its capacity

Every constructor and every operation keeps `_size <= capacity` and writes below the capacity, with one
exception: `push_back` doubles the capacity of a full vector, which does nothing where it is 0. So a program
writes past the capacity of a vector exactly where it pushes onto a vector of capacity 0
(`vector_within_iff`).
-/

namespace Cxlmc

variable {α : Type}

theorem uint_eq {n : Nat} (h : n < 2 ^ 32) : uint n = n := Nat.mod_eq_of_lt h

theorem uint_shiftLeft {n : Nat} (h : 2 * n < 2 ^ 32) : uint (n <<< 1) = 2 * n := by
  rw [Nat.shiftLeft_eq, uint_eq (by omega)]
  omega

theorem uintPred_le {n : Nat} (h : 0 < n) : uintPred n ≤ n := by
  rw [uintPred, if_neg (Nat.pos_iff_ne_zero.mp h)]
  exact Nat.sub_le n 1

namespace Vector

variable {v : Vector α} {x : Traced α} {f : Vector α → Traced α} {i n index : Nat}

/-- The writes go below the capacity. -/
def WritesBelow (ws : List Write) : Prop := ∀ w ∈ ws, w.index < w.capacity

theorem writesBelow_nil : WritesBelow [] := fun _ h => absurd h List.not_mem_nil

/-- A piece of code that only writes to the cells of the array. -/
structure Keeps (v : Vector α) (x : Traced α) : Prop where
  size : x.vector.size = v.size
  capacity : x.vector.capacity = v.capacity
  writes : WritesBelow x.writes

/-- A piece of code after which the vector is well-formed. -/
structure Within (x : Traced α) : Prop where
  size : x.vector.size ≤ x.vector.capacity
  writes : WritesBelow x.writes

theorem Keeps.refl (v : Vector α) : v.Keeps ⟨v, []⟩ := ⟨rfl, rfl, writesBelow_nil⟩

theorem Keeps.andThen (h : v.Keeps x) (hf : x.vector.Keeps (f x.vector)) : v.Keeps (x.andThen f) where
  size := hf.size.trans h.size
  capacity := hf.capacity.trans h.capacity
  writes := by
    intro w hw
    rcases List.mem_append.mp hw with hw | hw
    · exact h.writes w hw
    · exact hf.writes w hw

theorem Keeps.within (h : v.Keeps x) (hv : v.size ≤ v.capacity) : Within x where
  size := by
    rw [h.size, h.capacity]
    exact hv
  writes := h.writes

theorem Within.andThen (h : Within x) (hf : Within (f x.vector)) : Within (x.andThen f) where
  size := hf.size
  writes := by
    intro w hw
    rcases List.mem_append.mp hw with hw | hw
    · exact h.writes w hw
    · exact hf.writes w hw

/-! ## The operations -/

theorem construct_keeps (item : Elem α) (h : index < v.capacity) : v.Keeps (v.construct index item) where
  size := rfl
  capacity := rfl
  writes := by
    intro w hw
    rw [List.mem_singleton.mp hw]
    exact h

theorem set_keeps (item : Elem α) (h : index < v.capacity) : v.Keeps (v.set index item) :=
  construct_keeps item.copy h

theorem copyCells_keeps (src : Nat → Elem α) (h : i + n ≤ v.capacity) : v.Keeps (copyCells src n i v) := by
  induction n generalizing i v with
  | zero => exact .refl v
  | succ n ih =>
      have hfirst := construct_keeps (v := v) (src i) (by omega : i < v.capacity)
      refine hfirst.andThen (ih ?_)
      rw [hfirst.capacity]
      omega

theorem shiftUp_keeps (h : i < v.capacity) : v.Keeps (shiftUp index i v) := by
  induction i generalizing v with
  | zero => exact .refl v
  | succ i ih =>
      rw [shiftUp]
      split
      · have hfirst := set_keeps (v.array i) h
        refine hfirst.andThen (ih ?_)
        rw [hfirst.capacity]
        omega
      · exact .refl v

theorem shiftDown_keeps (h : i + n ≤ v.capacity) : v.Keeps (shiftDown n i v) := by
  induction n generalizing i v with
  | zero => exact .refl v
  | succ n ih =>
      have hfirst := set_keeps (v.array (i + 1)) (by omega : i < v.capacity)
      refine hfirst.andThen (ih ?_)
      rw [hfirst.capacity]
      omega

@[simp] theorem resize_size (v : Vector α) (psize : Nat) : (v.resize psize).vector.size = psize := by
  unfold resize
  split
  · rfl
  · split <;> rfl

theorem resize_within (hv : v.size ≤ v.capacity) {psize : Nat}
    (h : 2 * psize < 2 ^ 32 ∨ psize ≤ v.capacity) : Within (v.resize psize) := by
  unfold resize
  split
  · next hle => exact ⟨Nat.le_trans hle hv, writesBelow_nil⟩
  · split
    · next hfull =>
        refine ⟨?_, writesBelow_nil⟩
        have hfits := h.resolve_right (Nat.not_le_of_gt hfull)
        show psize ≤ uint (psize <<< 1)
        rw [uint_shiftLeft hfits]
        omega
    · next hroom => exact ⟨Nat.le_of_not_gt hroom, writesBelow_nil⟩

theorem grow_size (v : Vector α) : v.grow.size = v.size := by
  unfold grow
  split <;> rfl

/-- A vector that has some capacity has room for one more element when it is doubled. -/
theorem lt_grow_capacity (hpos : 0 < v.capacity) (hfits : 2 * v.capacity < 2 ^ 32)
    (hv : v.size ≤ v.capacity) : v.size < v.grow.capacity ∧ v.grow.capacity < 2 ^ 32 := by
  unfold grow
  split
  · show v.size < uint (v.capacity <<< 1) ∧ uint (v.capacity <<< 1) < 2 ^ 32
    rw [uint_shiftLeft hfits]
    omega
  · next hroom => omega

theorem pushBack_within (hv : v.size ≤ v.capacity) (hpos : 0 < v.capacity)
    (hfits : 2 * v.capacity < 2 ^ 32) (item : α) : Within (v.pushBack item) := by
  obtain ⟨hroom, hsmall⟩ := lt_grow_capacity hpos hfits hv
  have hwrite := construct_keeps (v := v.grow) (.made item) hroom
  refine ⟨?_, ?_⟩
  · show uint ((v.grow.construct v.size (.made item)).vector.size + 1) ≤
      (v.grow.construct v.size (.made item)).vector.capacity
    rw [hwrite.size, hwrite.capacity, grow_size, uint_eq (by omega)]
    exact hroom
  · intro w hw
    exact hwrite.writes w ((List.mem_append.mp hw).resolve_right List.not_mem_nil)

/-- The first element that is pushed onto a vector of capacity 0 is written past it. -/
theorem pushBack_not_within (hv : v.size ≤ v.capacity) (hzero : v.capacity = 0) (item : α) :
    ¬ WritesBelow (v.pushBack item).writes := by
  intro h
  have hsize : v.size = 0 := by omega
  have hcap : v.grow.capacity = 0 := by
    unfold grow
    rw [if_pos (by omega)]
    show uint (v.capacity <<< 1) = 0
    rw [hzero]
    rfl
  have hlt := h ⟨v.size, v.grow.capacity⟩ (List.mem_append_left _ List.mem_cons_self)
  simp only [hsize, hcap] at hlt
  exact absurd hlt (Nat.lt_irrefl 0)

theorem setExpand_within (hv : v.size ≤ v.capacity) (hfits : 2 * (index + 1) < 2 ^ 32) (item : α) :
    Within (v.setExpand index item) := by
  unfold setExpand
  split
  · rw [uint_eq (by omega)]
    have hresize : Within (v.resize (index + 1)) := resize_within hv (.inl hfits)
    have hlt : index < (v.resize (index + 1)).vector.capacity := by
      have hsize := hresize.size
      rw [resize_size] at hsize
      exact hsize
    exact hresize.andThen ((set_keeps _ hlt).within hresize.size)
  · next hlt => exact (set_keeps _ (by omega)).within hv

/-- The three parts of `insertAt`. -/
theorem insertAt_eq (hv : v.size ≤ v.capacity) (hsmall : v.size + 1 < 2 ^ 32)
    (hfits : 2 * (v.size + 1) < 2 ^ 32 ∨ v.size + 1 ≤ v.capacity) (index : Nat) (item : α) :
    v.size < (v.resize (v.size + 1)).vector.capacity ∧
    (v.resize (v.size + 1)).vector.Keeps (shiftUp index v.size (v.resize (v.size + 1)).vector) ∧
    v.insertAt index item = ((v.resize (v.size + 1)).andThen (shiftUp index v.size)).andThen
      fun v => v.set index (.made item) := by
  have hroom : v.size < (v.resize (v.size + 1)).vector.capacity := by
    have hsize := (resize_within hv hfits).size
    rw [resize_size] at hsize
    exact hsize
  refine ⟨hroom, shiftUp_keeps hroom, ?_⟩
  unfold insertAt Traced.andThen
  dsimp only
  rw [uint_eq hsmall, resize_size, Nat.add_sub_cancel]

theorem insertAt_within (hv : v.size ≤ v.capacity) (hindex : index ≤ v.size) (hsmall : v.size + 1 < 2 ^ 32)
    (hfits : 2 * (v.size + 1) < 2 ^ 32 ∨ v.size + 1 ≤ v.capacity) (item : α) :
    Within (v.insertAt index item) := by
  obtain ⟨hroom, hshift, heq⟩ := insertAt_eq hv hsmall hfits index item
  have hresize := resize_within hv hfits
  have hshifted := hresize.andThen (hshift.within hresize.size)
  rw [heq]
  refine hshifted.andThen ((set_keeps _ ?_).within hshifted.size)
  show index < (shiftUp index v.size _).vector.capacity
  rw [hshift.capacity]
  omega

theorem removeAt_within (hv : v.size ≤ v.capacity) (hindex : index < v.size) :
    Within (v.removeAt index) := by
  have hshift : v.Keeps (shiftDown (v.size - (index + 1)) index v) := shiftDown_keeps (by omega)
  have hpos : 0 < (shiftDown (v.size - (index + 1)) index v).vector.size := by
    rw [hshift.size]
    omega
  have hwithin := hshift.within hv
  exact hwithin.andThen (resize_within hwithin.size (.inr (Nat.le_trans (uintPred_le hpos) hwithin.size)))

theorem popBack_within (hv : v.size ≤ v.capacity) (hpos : 0 < v.size) : Within v.popBack :=
  ⟨Nat.le_trans (uintPred_le hpos) hv, writesBelow_nil⟩

/-! ## Programs -/

/-- What the caller of an operation owes. -/
def Command.Legal (v : Vector α) : Command α → Prop
  | .popBack => 0 < v.size
  | .insertAt index _ => index ≤ v.size
  | .removeAt index => index < v.size
  | _ => True

/-- The sizes are small enough that doubling does not wrap. -/
def Command.Fits (v : Vector α) : Command α → Prop
  | .pushBack _ => 2 * v.capacity < 2 ^ 32
  | .resize psize => 2 * psize < 2 ^ 32
  | .setExpand index _ => 2 * (index + 1) < 2 ^ 32
  | .insertAt _ _ => 2 * (v.size + 1) < 2 ^ 32
  | _ => True

/-- The operation does not push onto a vector of capacity 0. -/
def Command.HasRoom (v : Vector α) : Command α → Prop
  | .pushBack _ => 0 < v.capacity
  | _ => True

instance (v : Vector α) : (c : Command α) → Decidable (c.Legal v)
  | .popBack => inferInstanceAs (Decidable (0 < v.size))
  | .insertAt index _ => inferInstanceAs (Decidable (index ≤ v.size))
  | .removeAt index => inferInstanceAs (Decidable (index < v.size))
  | .pushBack _ | .resize _ | .setExpand _ _ | .clear => inferInstanceAs (Decidable True)

instance (v : Vector α) : (c : Command α) → Decidable (c.Fits v)
  | .pushBack _ => inferInstanceAs (Decidable (2 * v.capacity < 2 ^ 32))
  | .resize psize => inferInstanceAs (Decidable (2 * psize < 2 ^ 32))
  | .setExpand index _ => inferInstanceAs (Decidable (2 * (index + 1) < 2 ^ 32))
  | .insertAt _ _ => inferInstanceAs (Decidable (2 * (v.size + 1) < 2 ^ 32))
  | .popBack | .removeAt _ | .clear => inferInstanceAs (Decidable True)

instance (v : Vector α) : (c : Command α) → Decidable (c.HasRoom v)
  | .pushBack _ => inferInstanceAs (Decidable (0 < v.capacity))
  | .popBack | .resize _ | .setExpand _ _ | .insertAt _ _ | .removeAt _ | .clear =>
      inferInstanceAs (Decidable True)

namespace Step

/-- A step that the program may make, with sizes that fit. -/
def Allowed (vs : Vectors α) : Step α → Prop
  | .on i c => c.Legal (vs i) ∧ c.Fits (vs i)
  | _ => True

def HasRoom (vs : Vectors α) : Step α → Prop
  | .on i c => c.HasRoom (vs i)
  | _ => True

instance (vs : Vectors α) : (c : Step α) → Decidable (c.Allowed vs)
  | .on i c => inferInstanceAs (Decidable (c.Legal (vs i) ∧ c.Fits (vs i)))
  | .new _ | .sized _ _ | .ofArray _ _ _ | .copy _ _ | .assign _ _ | .swap _ _ =>
      inferInstanceAs (Decidable True)

instance (vs : Vectors α) : (c : Step α) → Decidable (c.HasRoom vs)
  | .on i c => inferInstanceAs (Decidable (c.HasRoom (vs i)))
  | .new _ | .sized _ _ | .ofArray _ _ _ | .copy _ _ | .assign _ _ | .swap _ _ =>
      inferInstanceAs (Decidable True)

/-- After the step `_size <= capacity` holds of every vector, and its writes went below the capacity. -/
def Within (vs : Vectors α) (c : Step α) : Prop :=
  (∀ i, ((runStep vs c).1 i).size ≤ ((runStep vs c).1 i).capacity) ∧ WritesBelow (runStep vs c).2

end Step

theorem run_within (hv : v.size ≤ v.capacity) {c : Command α} (hlegal : c.Legal v) (hfits : c.Fits v)
    (hroom : c.HasRoom v) : Within (v.run c) := by
  cases c with
  | pushBack item => exact pushBack_within hv hroom hfits item
  | popBack => exact popBack_within hv hlegal
  | resize psize => exact resize_within hv (.inl hfits)
  | setExpand index item => exact setExpand_within hv hfits item
  | insertAt index item => exact insertAt_within hv hlegal (by unfold Command.Fits at hfits; omega) (.inl hfits) item
  | removeAt index => exact removeAt_within hv hlegal
  | clear => exact ⟨Nat.zero_le _, writesBelow_nil⟩

/-- The step leaves all vectors well-formed if and only if it has room for what it pushes. -/
theorem step_within_iff {vs : Vectors α} (hvs : ∀ i, (vs i).size ≤ (vs i).capacity) {c : Step α}
    (hallowed : c.Allowed vs) : c.Within vs ↔ c.HasRoom vs := by
  have hupdate : ∀ {dst : Nat} {v : Vector α}, v.size ≤ v.capacity →
      ∀ i, (Function.update vs dst v i).size ≤ (Function.update vs dst v i).capacity := fun hv =>
    (Function.forall_update_iff vs fun _ v => v.size ≤ v.capacity).mpr ⟨hv, fun i _ => hvs i⟩
  have hcopied : ∀ (dst : Nat) (src : Nat → Elem α) {v : Vector α}, v.size ≤ v.capacity →
      (∀ i, (Function.update vs dst (copyCells src v.size 0 v).vector i).size ≤
        (Function.update vs dst (copyCells src v.size 0 v).vector i).capacity) ∧
      WritesBelow (copyCells src v.size 0 v).writes := by
    intro dst src v hv
    have hkeeps := (copyCells_keeps src (i := 0) (n := v.size) (v := v) (by omega)).within hv
    exact ⟨hupdate hkeeps.size, hkeeps.writes⟩
  cases c with
  | new dst => exact iff_of_true ⟨hupdate (Nat.zero_le _), writesBelow_nil⟩ trivial
  | sized dst size => exact iff_of_true ⟨hupdate (Nat.le_refl size), writesBelow_nil⟩ trivial
  | ofArray dst size array => exact iff_of_true (hcopied dst _ (v := sized size) (Nat.le_refl size)) trivial
  | copy dst vec => exact iff_of_true (hcopied dst _ (v := (vs vec).like) (hvs vec)) trivial
  | assign dst vec =>
      refine iff_of_true ?_ trivial
      have h := hcopied dst (Function.update vs dst (vs vec).like vec).array (v := (vs vec).like) (hvs vec)
      unfold Step.Within runStep assign
      simp only [Function.update_self]
      exact h
  | swap i other =>
      refine iff_of_true ⟨fun j => ?_, writesBelow_nil⟩ trivial
      unfold runStep
      dsimp only
      rw [Function.update_apply]
      split
      · exact hvs other
      · exact hupdate (hvs i) j
  | on i c =>
      obtain ⟨hlegal, hfits⟩ := hallowed
      constructor
      · -- only a push has a condition
        rintro ⟨_, hwrites⟩
        cases c with
        | pushBack item =>
            show 0 < (vs i).capacity
            by_contra hzero
            exact pushBack_not_within (hvs i) (by omega) item hwrites
        | _ => trivial
      · intro hroom
        have h := run_within (hvs i) hlegal hfits hroom
        exact ⟨hupdate h.size, h.writes⟩

/-- `P` holds of each step of a program, where it is made. -/
abbrev Along (P : Vectors α → Step α → Prop) (cs : List (Step α)) : Prop :=
  Always (fun vs c => (runStep vs c).1) P (fun _ => new) cs

end Vector

/-- A program writes past the capacity of a vector, or leaves one with more elements than its capacity, exactly
where it pushes onto a vector of capacity 0. -/
theorem vector_within_iff (cs : List (Vector.Step α)) (hallowed : Vector.Along (fun vs c => c.Allowed vs) cs) :
    Vector.Along (fun vs c => c.Within vs) cs ↔ Vector.Along (fun vs c => c.HasRoom vs) cs :=
  always_iff (I := fun vs => ∀ i, (vs i).size ≤ (vs i).capacity)
    (fun _ _ hvs hc => Vector.step_within_iff hvs hc) (fun _ _ _ _ hc => hc.1) (fun _ => Nat.zero_le 8) hallowed

/-- A vector of capacity 0 gets its first element by `insertAt`, and is copied, swapped and emptied. -/
def grownVector : List (Vector.Step Nat) :=
  [.sized 0 0, .on 0 (.insertAt 0 1), .on 0 (.pushBack 2), .on 0 (.pushBack 3), .copy 1 0, .swap 0 1,
    .on 0 (.removeAt 1), .assign 1 0, .on 1 .popBack, .on 1 .clear]

/-- `vector_within_iff` on such a program. -/
theorem vector_within_iff_grown : Vector.Along (fun vs c => c.Within vs) grownVector :=
  (vector_within_iff grownVector (by decide)).mpr (by decide)

/-- `Vector v(0); v.push_back(7);`. -/
def pushedOntoEmpty : List (Vector.Step Nat) := [.sized 0 0, .on 0 (.pushBack 7)]

/-- The element is written to the cell 0 of an array of capacity 0, and the size is then 1. -/
theorem vector_not_within : Vector.Along (fun vs c => c.Allowed vs) pushedOntoEmpty ∧
    ¬ Vector.Along (fun vs c => c.Within vs) pushedOntoEmpty ∧
    (Vector.pushBack (.sized 0) 7).writes = [⟨0, 0⟩] ∧
    (Vector.pushBack (.sized 0) 7).vector.size = 1 ∧ (Vector.pushBack (.sized 0) 7).vector.capacity = 0 := by
  refine ⟨by decide, fun h => ?_, by decide, by decide, by decide⟩
  exact absurd (h.2.1.1 0) (by decide)

end Cxlmc
