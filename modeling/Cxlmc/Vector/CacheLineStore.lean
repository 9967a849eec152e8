import Cxlmc.HashTable.Refines
import Cxlmc.Model.CacheLineStore
import Cxlmc.Vector.Capacity

/-!
# What `CacheLineStore::init` leaves

`init(n)` makes room for `n` elements and then inserts `n` tables in front of them. So it leaves `2 * n`
elements, of which the last `n` are copies of memory that holds no table (`init_spec`), and the assertion of
`get_cacheline` accepts twice as many process ids as there are processes (`init_not_sized`).
-/

namespace Cxlmc

namespace Elem

variable {α : Type}

@[simp] theorem copy_copy (x : Elem α) : x.copy.copy = x.copy := by cases x <;> rfl

end Elem

/-! ## Inserting an element -/

namespace Vector

variable {α : Type} {v : Vector α} {index i j : Nat}

theorem set_array (v : Vector α) (index : Nat) (item : Elem α) :
    (v.set index item).vector.array = Function.update v.array index item.copy := by
  simp [set, construct]

theorem shiftUp_array (index i : Nat) (v : Vector α) (j : Nat) :
    (shiftUp index i v).vector.array j =
      if index < j ∧ j ≤ i then (v.array (j - 1)).copy else v.array j := by
  induction i generalizing v with
  | zero =>
      rw [if_neg (by omega)]
      rfl
  | succ i ih =>
      rw [shiftUp]
      split
      · rw [Traced.vector_andThen, ih, set_array]
        -- the cells below `i + 1` are moved after this one, and not from it
        by_cases hj : j = i + 1
        · subst hj
          rw [if_neg (by omega), if_pos (by omega), Function.update_self]
          rfl
        · by_cases hin : index < j ∧ j ≤ i
          · rw [if_pos hin, if_pos (by omega), Function.update_of_ne (by omega)]
          · rw [if_neg hin, if_neg (by omega), Function.update_of_ne hj]
      · rw [if_neg (by omega)]

/-- A larger size leaves the elements as they are. -/
theorem resize_array {psize : Nat} (hv : v.size ≤ v.capacity) (hless : v.size < psize)
    (hfits : 2 * psize < 2 ^ 32 ∨ psize ≤ v.capacity) (hj : j < v.size) :
    (v.resize psize).vector.array j = v.array j := by
  unfold resize
  rw [if_neg (by omega)]
  split
  · next hfull =>
      show realloc v.array v.capacity (uint (psize <<< 1)) j = _
      rw [uint_shiftLeft (hfits.resolve_right (by omega)), realloc, if_pos (by omega)]
  · rfl

/-- A size above the capacity. -/
theorem resize_capacity {psize : Nat} (hv : v.size ≤ v.capacity) (hfull : v.capacity < psize) :
    (v.resize psize).vector.capacity = uint (psize <<< 1) := by
  unfold resize
  rw [if_neg (by omega), if_pos hfull]

theorem le_resize_capacity {psize : Nat} (hfits : 2 * psize < 2 ^ 32 ∨ psize ≤ v.capacity) :
    v.capacity ≤ (v.resize psize).vector.capacity := by
  unfold resize
  split
  · exact Nat.le_refl _
  · split
    · next hfull =>
        show v.capacity ≤ uint (psize <<< 1)
        rw [uint_shiftLeft (hfits.resolve_right (by omega))]
        omega
    · exact Nat.le_refl _

/-- What `insertAt` makes of a vector. -/
structure Inserted (v : Vector α) (index : Nat) (item : α) (v' : Vector α) : Prop where
  size : v'.size = v.size + 1
  room : v'.size ≤ v'.capacity
  capacity : v.capacity ≤ v'.capacity
  array : ∀ j ≤ v.size, v'.array j =
    if j < index then v.array j else if j = index then .made item else (v.array (j - 1)).copy

theorem insertAt_spec (hv : v.size ≤ v.capacity) (hindex : index ≤ v.size) (hsmall : v.size + 1 < 2 ^ 32)
    (hfits : 2 * (v.size + 1) < 2 ^ 32 ∨ v.size + 1 ≤ v.capacity) (item : α) :
    v.Inserted index item (v.insertAt index item).vector := by
  obtain ⟨hresize, hshift, heq⟩ := insertAt_eq hv hsmall hfits index item
  obtain ⟨hroom, _⟩ := insertAt_within hv hindex hsmall hfits item
  have hset : (v.insertAt index item).vector.size = v.size + 1 ∧
      (v.insertAt index item).vector.capacity = (v.resize (v.size + 1)).vector.capacity := by
    rw [heq]
    exact ⟨hshift.size.trans (resize_size v _), hshift.capacity⟩
  refine ⟨hset.1, hroom, ?_, fun j hj => ?_⟩
  · rw [hset.2]
    exact le_resize_capacity hfits
  · rw [heq, Traced.vector_andThen, Traced.vector_andThen, set_array]
    by_cases hindexj : j = index
    · rw [hindexj, Function.update_self, if_neg (Nat.lt_irrefl index), if_pos rfl]
      rfl
    · rw [Function.update_of_ne hindexj]
      by_cases hlt : j < index
      · rw [shiftUp_array, if_neg (by omega), if_pos hlt]
        exact resize_array hv (Nat.lt_succ_self _) hfits (by omega)
      · rw [shiftUp_array, if_pos (by omega), if_neg hlt, if_neg hindexj]
        exact congrArg Elem.copy (resize_array hv (Nat.lt_succ_self _) hfits (by omega))

end Vector

/-! ## The loop of `init` -/

namespace StoreT

/-- The store of `init(n)` after `i` rounds. -/
structure Rounds (n i : Nat) (store : StoreT) : Prop where
  size : store.size = n + i
  room : store.size ≤ store.capacity
  /-- With more than 8 processes there is room for all elements from the beginning. -/
  capacity : n ≤ 8 ∨ 2 * n ≤ store.capacity
  tables : ∀ j < i, store.array j = .made hashmap
  copies : 0 < i → ∀ j, i ≤ j → j < n + i → store.array j = .copyOfRaw

theorem Rounds.next {n i : Nat} {store : StoreT} (h : Rounds n i store) (hint : n < 2 ^ 31) (hi : i < n)
    (hraw : i = 0 → ∀ j < n, store.array j = .raw) :
    Rounds n (i + 1) (store.insertAt i hashmap).vector := by
  have hsize := h.size
  have hroom := h.room
  have hcap := h.capacity
  have hinsert := Vector.insertAt_spec h.room (by omega : i ≤ store.size) (by omega) (by omega) hashmap
  refine ⟨by rw [hinsert.size, hsize]; omega, hinsert.room, ?_, fun j hj => ?_, fun _ j hle hlt => ?_⟩
  · have hle := hinsert.capacity
    omega
  · rw [hinsert.array j (by omega)]
    by_cases heq : j = i
    · rw [if_neg (by omega), if_pos heq]
    · rw [if_pos (by omega)]
      exact h.tables j (by omega)
  · -- what was at `j - 1` is moved up, and it was no table
    rw [hinsert.array j (by omega), if_neg (by omega), if_neg (by omega)]
    by_cases hzero : i = 0
    · rw [hraw hzero (j - 1) (by omega)]
      rfl
    · rw [h.copies (by omega) (j - 1) (by omega) (by omega)]
      rfl

theorem initLoop_spec {n i k : Nat} {store : StoreT} (h : Rounds n i store) (hint : n < 2 ^ 31) (hk : i + k = n)
    (hraw : i = 0 → ∀ j < n, store.array j = .raw) : Rounds n n (initLoop k i store).vector := by
  induction k generalizing i store with
  | zero =>
      obtain rfl : i = n := hk
      exact h
  | succ k ih => exact ih (h.next hint (by omega) hraw) (by omega) (fun h => absurd h (Nat.succ_ne_zero i))

theorem resize_new (n : Nat) (hint : n < 2 ^ 31) : Rounds n 0 ((Vector.new : StoreT).resize n).vector ∧
    ∀ j, ((Vector.new : StoreT).resize n).vector.array j = .raw := by
  have hwithin := Vector.resize_within (v := (Vector.new : StoreT)) (Nat.zero_le 8)
    (.inl (by omega : 2 * n < 2 ^ 32))
  refine ⟨⟨Vector.resize_size _ _, hwithin.size, ?_, fun _ h => absurd h (Nat.not_lt_zero _),
    fun h => absurd h (Nat.lt_irrefl 0)⟩, fun j => ?_⟩
  · by_cases hfew : n ≤ 8
    · exact .inl hfew
    · right
      have hfull : (Vector.new : StoreT).capacity < n := Nat.lt_of_not_ge hfew
      rw [Vector.resize_capacity (Nat.zero_le 8) hfull, uint_shiftLeft (by omega)]
  · unfold Vector.resize
    split
    · exact ite_self _
    · split
      · exact ite_self _
      · rfl

/-- A store that is made by its constructor and `init(n)`. -/
def initialized (n : Nat) : StoreT := (init .new n).vector

/-- What `init` leaves. -/
theorem init_spec {n : Nat} (hpos : 1 ≤ n) (hint : n < 2 ^ 31) :
    (initialized n).size = 2 * n ∧ (∀ i < n, (initialized n).array i = .made hashmap) ∧
      ∀ i, n ≤ i → i < 2 * n → (initialized n).array i = .copyOfRaw := by
  obtain ⟨hrounds, hraw⟩ := resize_new n hint
  have h := initLoop_spec hrounds hint (Nat.zero_add n) fun _ j _ => hraw j
  refine ⟨h.size.trans (Nat.two_mul n).symm, h.tables, fun i hle hlt => h.copies hpos i hle ?_⟩
  omega

/-- `get_cacheline` on a table without entries gives an empty interval. -/
theorem getCacheline_made {store : StoreT} {pid : Int} {t : HashTable Nat Cacheline} (haccepts : store.Accepts pid)
    (harray : store.array pid.toNat = .made t) (ht : Models Hashing.default_lawful t ∅) (addr : Nat) :
    ∃ store', store.getCacheline pid addr = some (store', .new) := by
  have hfind : t.find .default addr = some t.end_ := ht.find_none (Finmap.lookup_empty _)
  have hend : t.end_.eq t.end_ = true := by simp [HashTable.Iterator.eq]
  obtain ⟨t', hassign, _⟩ := ht.assignSecond addr Cacheline.new
  refine ⟨{ store with array := Function.update store.array pid.toNat (.made t') }, ?_⟩
  rw [getCacheline, if_pos haccepts, harray]
  dsimp only
  rw [hfind, Option.bind_eq_bind, Option.bind_some, if_pos hend, hassign]
  rfl

/-- What the callers of the store rely on after `init(n)`: a table for each process, all of them empty and made
by a constructor, and that `get_cacheline` accepts the ids of the processes. -/
structure Sized (n : Nat) (store : StoreT) : Prop where
  size : store.size = n
  tables : ∀ i < store.size, ∃ t, store.array i = .made t ∧ t.visit = some []
  accepts : ∀ pid : Int, -2 ^ 31 ≤ pid → pid < 2 ^ 31 → (store.Accepts pid ↔ 0 ≤ pid ∧ pid < n)

theorem accepts_iff {store : StoreT} (hsize : store.size < 2 ^ 32) {pid : Int} (hlow : -2 ^ 31 ≤ pid)
    (hhigh : pid < 2 ^ 31) : store.Accepts pid ↔ 0 ≤ pid ∧ pid < store.size := by
  unfold Accepts
  omega

end StoreT

/-- `init(n)` never leaves what the callers rely on: there are `2 * n` elements, the last `n` of them copies of
memory that holds no table, and `get_cacheline` accepts the ids below `2 * n`. -/
theorem init_not_sized (n : Nat) (hpos : 1 ≤ n) (hint : n < 2 ^ 31) :
    ¬ (StoreT.initialized n).Sized n ∧ (StoreT.initialized n).size = 2 * n ∧
    (∀ i < n, (StoreT.initialized n).array i = .made StoreT.hashmap) ∧
    (∀ i, n ≤ i → i < 2 * n → (StoreT.initialized n).array i = .copyOfRaw) ∧
    ∀ pid : Int, -2 ^ 31 ≤ pid → pid < 2 ^ 31 →
      ((StoreT.initialized n).Accepts pid ↔ 0 ≤ pid ∧ pid < 2 * n) := by
  obtain ⟨hsize, htables, hcopies⟩ := StoreT.init_spec hpos hint
  refine ⟨fun h => ?_, hsize, htables, hcopies, fun pid hlow hhigh => ?_⟩
  · have heq := h.size
    omega
  · have hsmall : (StoreT.initialized n).size < 2 ^ 32 := by omega
    rw [StoreT.accepts_iff hsmall hlow hhigh, hsize]
    omega

/-- `init_not_sized` for two processes, where id 3 is accepted. -/
theorem init_not_sized_two : ¬ (StoreT.initialized 2).Sized 2 ∧ (StoreT.initialized 2).Accepts 3 := by
  obtain ⟨hnot, _, _, _, haccepts⟩ := init_not_sized 2 (by decide) (by decide)
  exact ⟨hnot, (haccepts 3 (by decide) (by decide)).mpr (by decide)⟩

/-- One process: the store has two elements, the second is a copy of memory that holds no table, and
`get_cacheline` accepts id 1. -/
theorem init_sized_twice : (StoreT.initialized 1).size = 2 ∧
    (StoreT.initialized 1).array 1 = .copyOfRaw ∧ (StoreT.initialized 1).Accepts 1 ∧
    ¬ (StoreT.initialized 1).Sized 1 := by
  have hsize : (StoreT.initialized 1).size = 2 := by decide
  refine ⟨hsize, rfl, by decide, fun h => ?_⟩
  have heq := h.size
  rw [hsize] at heq
  exact absurd heq (by decide)

end Cxlmc
