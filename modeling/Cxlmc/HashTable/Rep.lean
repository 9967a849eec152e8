import Cxlmc.Model.HashTable
import Mathlib.Data.List.Perm.Subperm
import Mathlib.Data.List.Perm.Lattice
import Mathlib.Data.List.Range

/-!
# The chains of a hash table

`Chains` gives the nodes of each chain with their addresses, and `HashTable.Chained` says that the table
has these chains. What an operation does is said of the chains: `Chained.replace` changes one of them,
`resize` builds new ones from the nodes of all.
-/

namespace Cxlmc

open Linked

/-- The nodes of each chain. -/
abbrev Chains (K V : Type) := Nat → List (Nat × Pair K V)

variable {K V : Type} {H : Hashing K} {t t' : HashTable K V} {b : Chains K V} {n i : Nat}

/-! ## The nodes of all chains -/

namespace Chains

/-- The nodes of the first `n` chains. -/
def nodes (b : Chains K V) (n : Nat) : List (Nat × Pair K V) := (List.range n).flatMap b

/-- All of them but those of chain `i`. -/
def others (b : Chains K V) (n i : Nat) : List (Nat × Pair K V) := ((List.range n).erase i).flatMap b

theorem mem_nodes {x : Nat × Pair K V} : x ∈ b.nodes n ↔ ∃ i < n, x ∈ b i := by
  simp [nodes]

@[simp] theorem nodes_empty (n : Nat) : nodes (fun _ => [] : Chains K V) n = [] := by
  simp [nodes]

theorem nodes_update (hi : i < n) (l : List (Nat × Pair K V)) :
    (nodes (Function.update b i l) n).Perm (l ++ b.others n i) := by
  have hperm := List.perm_cons_erase (List.mem_range.mpr hi)
  have hi' : i ∉ (List.range n).erase i := by simp [List.nodup_range.mem_erase_iff]
  have hrest : ((List.range n).erase i).flatMap (Function.update b i l) = b.others n i := by
    refine List.flatMap_congr fun j hj => Function.update_of_ne ?_ _ _
    rintro rfl
    exact hi' hj
  refine (hperm.flatMap_right _).trans ?_
  rw [List.flatMap_cons, Function.update_self, hrest]

theorem nodes_perm (b : Chains K V) (hi : i < n) : (b.nodes n).Perm (b i ++ b.others n i) := by
  have h := nodes_update (b := b) hi (b i)
  rwa [Function.update_eq_self] at h

theorem sublist_nodes (b : Chains K V) (hi : i < n) : (b i).Sublist (b.nodes n) :=
  List.sublist_flatten_of_mem (List.mem_map_of_mem (List.mem_range.mpr hi))

/-- A node goes to the front of the chain that its hash selects. -/
def push (H : Hashing K) (n : Nat) (b : Chains K V) (x : Nat × Pair K V) : Chains K V :=
  Function.update b (H.hash x.2.first % n) (x :: b (H.hash x.2.first % n))

theorem nodes_push (hn : 0 < n) (x : Nat × Pair K V) :
    ((b.push H n x).nodes n).Perm (x :: b.nodes n) := by
  have hi := Nat.mod_lt (H.hash x.2.first) hn
  refine (nodes_update hi _).trans ?_
  rw [List.cons_append]
  exact (b.nodes_perm hi).symm.cons x

theorem nodes_pushAll (hn : 0 < n) (l : List (Nat × Pair K V)) :
    ((l.foldl (push H n) b).nodes n).Perm (l ++ b.nodes n) := by
  induction l generalizing b with
  | nil => exact .refl _
  | cons x l ih =>
      rw [List.foldl_cons]
      refine (ih (b := b.push H n x)).trans ?_
      exact ((nodes_push hn x).append_left l).trans List.perm_middle

/-- Each node is in the chain that its hash selects. -/
def Placed (H : Hashing K) (b : Chains K V) (n : Nat) : Prop :=
  ∀ i < n, ∀ x ∈ b i, H.hash x.2.first % n = i

theorem Placed.push (h : b.Placed H n) (x : Nat × Pair K V) : (b.push H n x).Placed H n := by
  intro i hi y hy
  rw [Chains.push, Function.update_apply] at hy
  split at hy
  · next heq =>
      rcases List.mem_cons.mp hy with rfl | hy
      · exact heq.symm
      · exact h i hi y (heq ▸ hy)
  · exact h i hi y hy

theorem Placed.pushAll (h : b.Placed H n) (l : List (Nat × Pair K V)) :
    (l.foldl (Chains.push H n) b).Placed H n := by
  induction l generalizing b with
  | nil => exact h
  | cons x l ih => exact ih (h.push x)

end Chains

/-! ## The chains of a table -/

/-- `_equals` is an equality of keys, and equal keys have the same hash. -/
structure Hashing.Lawful (H : Hashing K) : Prop where
  refl : ∀ x, H.equals x x = true
  symm : ∀ {x y}, H.equals x y = true → H.equals y x = true
  trans : ∀ {x y z}, H.equals x y = true → H.equals y z = true → H.equals x z = true
  hash : ∀ {x y}, H.equals x y = true → H.hash x = H.hash y

theorem Hashing.Lawful.symm_false (hH : H.Lawful) {x y : K} (h : H.equals x y = false) :
    H.equals y x = false := by
  by_contra hne
  rw [hH.symm (by simpa using hne)] at h
  cases h

namespace HashTable

/-- The chains of the table are `b`, with each node where its hash says. -/
structure Chained (H : Hashing K) (t : HashTable K V) (b : Chains K V) : Prop where
  segment : ∀ i < t.buckets, Segment t.nodes (t.table i) (b i) none
  nodup : (addrs (b.nodes t.buckets)).Nodup
  fresh : ∀ x ∈ b.nodes t.buckets, x.1 < t.fresh
  placed : b.Placed H t.buckets

/-- No two nodes have equal keys, and `size` is their number. -/
structure Rep (H : Hashing K) (t : HashTable K V) (b : Chains K V) : Prop extends Chained H t b where
  distinct : (b.nodes t.buckets).Pairwise fun x y => H.equals x.2.first y.2.first = false
  size : t.size = (b.nodes t.buckets).length
  buckets : 0 < t.buckets

/-- A table without nodes. -/
theorem rep_empty (htable : ∀ i < t.buckets, t.table i = none) (hsize : t.size = 0)
    (hn : 0 < t.buckets) : t.Rep H fun _ => [] := by
  refine ⟨⟨htable, by simp, by simp, fun _ _ _ hx => absurd hx List.not_mem_nil⟩, by simp, ?_, hn⟩
  rw [hsize, Chains.nodes_empty]
  rfl

/-- The cell of a node. -/
theorem Chained.cell (h : t.Chained H b) (hi : i < t.buckets) {pre post : List (Nat × Pair K V)}
    {x : Nat × Pair K V} (hchain : b i = pre ++ x :: post) :
    ∃ next, t.nodes x.1 = some ⟨x.2, next⟩ ∧ Segment t.nodes next post none := by
  have hsegment := h.segment i hi
  rw [hchain] at hsegment
  obtain ⟨_, _, _, next, hcell, hrest⟩ := segment_append.mp hsegment
  exact ⟨next, hcell, hrest⟩

theorem Chained.nodup_chain (h : t.Chained H b) (hi : i < t.buckets) : (addrs (b i)).Nodup :=
  h.nodup.sublist ((b.sublist_nodes hi).map _)

/-- The fuel of the loops is enough. -/
theorem Chained.length_nodes_le (h : t.Chained H b) : (b.nodes t.buckets).length ≤ t.fresh := by
  have hsubset : addrs (b.nodes t.buckets) ⊆ List.range t.fresh := by
    intro a ha
    obtain ⟨x, hx, rfl⟩ := List.mem_map.mp ha
    exact List.mem_range.mpr (h.fresh x hx)
  have hle := (h.nodup.subperm hsubset).length_le
  rwa [List.length_map, List.length_range] at hle

theorem Chained.length_le (h : t.Chained H b) (hi : i < t.buckets) : (b i).length ≤ t.fresh :=
  (b.sublist_nodes hi).length_le.trans h.length_nodes_le

/-- The chain that a key belongs to. -/
theorem Rep.index_lt (h : t.Rep H b) (key : K) : H.hash key % t.buckets < t.buckets :=
  Nat.mod_lt _ h.buckets

/-- Two chains have no address in common. -/
theorem Chained.ne_of_mem (h : t.Chained H b) {j : Nat} (hi : i < t.buckets) (hj : j < t.buckets)
    (hne : j ≠ i) {a : Nat} (ha : a ∈ addrs (b i)) : a ∉ addrs (b j) := by
  have hnodup := ((b.nodes_perm hi).map Prod.fst).nodup_iff.mp h.nodup
  rw [List.map_append] at hnodup
  intro ha'
  refine List.disjoint_of_nodup_append hnodup ha ?_
  obtain ⟨x, hx, rfl⟩ := List.mem_map.mp ha'
  refine List.mem_map.mpr ⟨x, List.mem_flatMap.mpr ⟨j, ?_, hx⟩, rfl⟩
  exact (List.mem_erase_of_ne hne).mpr (List.mem_range.mpr hj)

/-- One chain changes. -/
theorem Chained.replace (h : t.Chained H b) (hi : i < t.buckets) {l : List (Nat × Pair K V)}
    (hbuckets : t'.buckets = t.buckets) (hfresh : t.fresh ≤ t'.fresh)
    (htable : ∀ j, j ≠ i → t'.table j = t.table j)
    (hnodes : ∀ a, a ∉ addrs (b i) → a < t.fresh → t'.nodes a = t.nodes a)
    (hsegment : Segment t'.nodes (t'.table i) l none) (hnodup : (addrs l).Nodup)
    (haddr : ∀ x ∈ l, x.1 ∈ addrs (b i) ∨ t.fresh ≤ x.1 ∧ x.1 < t'.fresh)
    (hplaced : ∀ x ∈ l, H.hash x.2.first % t.buckets = i) :
    t'.Chained H (Function.update b i l) := by
  have hbefore := ((b.nodes_perm hi).map Prod.fst).nodup_iff.mp h.nodup
  rw [List.map_append] at hbefore
  have hothers : ∀ x ∈ b.others t.buckets i, x.1 < t.fresh := fun x hx =>
    h.fresh x ((b.nodes_perm hi).mem_iff.mpr (List.mem_append_right _ hx))
  have hchain : ∀ x ∈ b i, x.1 < t.fresh := fun x hx => h.fresh x (Chains.mem_nodes.mpr ⟨i, hi, hx⟩)
  have hperm := Chains.nodes_update (b := b) hi l
  refine ⟨?_, ?_, ?_, ?_⟩
  · -- the cells of the other chains are the same
    intro j hj
    rw [hbuckets] at hj
    by_cases hne : j = i
    · subst hne
      rw [Function.update_self]
      exact hsegment
    · rw [Function.update_of_ne hne, htable j hne]
      refine (h.segment j hj).congr fun a ha => hnodes a ?_ ?_
      · exact fun ha' => h.ne_of_mem hi hj hne ha' ha
      · obtain ⟨x, hx, rfl⟩ := List.mem_map.mp ha
        exact h.fresh x (Chains.mem_nodes.mpr ⟨j, hj, hx⟩)
  · rw [hbuckets]
    refine (hperm.map Prod.fst).nodup_iff.mpr ?_
    rw [List.map_append]
    -- a node of the chain was there before, or is newer than those of the other chains
    refine List.Nodup.append hnodup (List.nodup_append.mp hbefore).2.1 fun a ha ha' => ?_
    obtain ⟨x, hx, rfl⟩ := List.mem_map.mp ha
    rcases haddr x hx with hold | ⟨hnew, _⟩
    · exact List.disjoint_of_nodup_append hbefore hold ha'
    · obtain ⟨y, hy, heq⟩ := List.mem_map.mp ha'
      exact absurd (hothers y hy) (Nat.not_lt.mpr (heq ▸ hnew))
  · intro x hx
    rw [hbuckets] at hx
    rcases List.mem_append.mp (hperm.mem_iff.mp hx) with hx | hx
    · rcases haddr x hx with hold | ⟨_, hlt⟩
      · obtain ⟨y, hy, heq⟩ := List.mem_map.mp hold
        exact heq ▸ Nat.lt_of_lt_of_le (hchain y hy) hfresh
      · exact hlt
    · exact Nat.lt_of_lt_of_le (hothers x hx) hfresh
  · intro j hj x hx
    rw [hbuckets] at hj ⊢
    rw [Function.update_apply] at hx
    split at hx
    · next heq => exact heq ▸ hplaced x hx
    · exact h.placed j hj x hx

/-! ## `resize` -/

/-- A chain is relinked. -/
theorem relinkLoop_spec {c : Chains K V} {nodes : Heap (Pair K V)} {table : Nat → Option Nat}
    {fuel : Nat} {p : Option Nat} {l : List (Nat × Pair K V)} (hn : 0 < n)
    (hl : Segment nodes p l none) (hc : ∀ j < n, Segment nodes (table j) (c j) none)
    (hnodup : (addrs (l ++ c.nodes n)).Nodup) (hfuel : l.length ≤ fuel) :
    ∃ nodes' table', relinkLoop H n fuel p (nodes, table) = some (nodes', table') ∧
      (∀ j < n, Segment nodes' (table' j) (l.foldl (Chains.push H n) c j) none) ∧
      ∀ a, a ∉ addrs l → nodes' a = nodes a := by
  induction l generalizing p nodes table c fuel with
  | nil =>
      cases hl
      refine ⟨nodes, table, ?_, hc, fun _ _ => rfl⟩
      cases fuel <;> rfl
  | cons x l ih =>
      obtain ⟨rfl, next, hcell, hrest⟩ := hl
      obtain ⟨fuel, rfl⟩ := Nat.exists_eq_add_of_le' (Nat.lt_of_lt_of_le (Nat.succ_pos _) hfuel)
      have hi := Nat.mod_lt (H.hash x.2.first) hn
      obtain ⟨hx, htail⟩ := List.nodup_cons.mp hnodup
      have hxl : x.1 ∉ addrs l := fun hmem => hx (by simp [addrs] at hmem ⊢; exact .inl hmem)
      have hxc : ∀ j < n, x.1 ∉ addrs (c j) := by
        intro j hj hmem
        refine hx (List.map_subset _ (fun y hy => ?_) hmem)
        exact List.mem_append_right _ ((c.sublist_nodes hj).subset hy)
      have hperm : (l ++ (c.push H n x).nodes n).Perm (x :: l ++ c.nodes n) :=
        ((Chains.nodes_push hn x).append_left l).trans List.perm_middle
      -- the node is pushed onto the chain that its hash selects in the new table
      have hpush : ∀ j < n,
          Segment (Function.update nodes x.1 (some ⟨x.2, table (H.hash x.2.first % n)⟩))
            (Function.update table (H.hash x.2.first % n) (some x.1) j) (c.push H n x j) none := by
        intro j hj
        rw [Chains.push, Function.update_apply, Function.update_apply]
        split
        · refine ⟨rfl, table (H.hash x.2.first % n), Function.update_self _ _ _, ?_⟩
          exact (hc _ hi).frame (hxc _ hi) _
        · exact (hc j hj).frame (hxc j hj) _
      obtain ⟨nodes', table', hloop, hchains, hsame⟩ := ih (hrest.frame hxl _) hpush
        ((hperm.map Prod.fst).nodup_iff.mpr hnodup) (Nat.succ_le_succ_iff.mp hfuel)
      refine ⟨nodes', table', ?_, hchains, fun a ha => ?_⟩
      · rw [relinkLoop, hcell]
        exact hloop
      · have hne : a ≠ x.1 := by
          rintro rfl
          exact ha List.mem_cons_self
        rw [hsame a fun hmem => ha (List.mem_cons_of_mem _ hmem), Function.update_of_ne hne]

/-- All chains are relinked. -/
theorem relinkAll_spec {c : Chains K V} {nodes : Heap (Pair K V)} {table old : Nat → Option Nat}
    {fuel : Nat} (is : List Nat) (hn : 0 < n) (hold : ∀ i ∈ is, Segment nodes (old i) (b i) none)
    (hc : ∀ j < n, Segment nodes (table j) (c j) none)
    (hnodup : (addrs (is.flatMap b ++ c.nodes n)).Nodup) (hfuel : ∀ i ∈ is, (b i).length ≤ fuel) :
    ∃ nodes' table', is.foldlM (fun x i => relinkLoop H n fuel (old i) x) (nodes, table) =
        some (nodes', table') ∧
      ∀ j < n, Segment nodes' (table' j) ((is.flatMap b).foldl (Chains.push H n) c j) none := by
  induction is generalizing nodes table c with
  | nil => exact ⟨nodes, table, rfl, hc⟩
  | cons i is ih =>
      rw [List.flatMap_cons, List.append_assoc] at hnodup
      obtain ⟨nodes₁, table₁, hloop, hchains, hsame⟩ := relinkLoop_spec (H := H) hn
        (hold i List.mem_cons_self) hc (hnodup.sublist ((List.Sublist.append_left
          (List.sublist_append_right _ _) (b i)).map _)) (hfuel i List.mem_cons_self)
      have hperm : (is.flatMap b ++ ((b i).foldl (Chains.push H n) c).nodes n).Perm
          (b i ++ (is.flatMap b ++ c.nodes n)) := by
        refine ((Chains.nodes_pushAll hn (b i)).append_left _).trans ?_
        rw [← List.append_assoc, ← List.append_assoc]
        exact List.perm_append_comm.append_right _
      have hlater : ∀ j ∈ is, Segment nodes₁ (old j) (b j) none := by
        intro j hj
        refine (hold j (List.mem_cons_of_mem _ hj)).congr fun a ha => hsame a fun ha' => ?_
        rw [addrs, List.map_append] at hnodup
        refine List.disjoint_of_nodup_append hnodup ha' ?_
        obtain ⟨x, hx, rfl⟩ := List.mem_map.mp ha
        exact List.mem_map_of_mem (List.mem_append_left _ (List.mem_flatMap.mpr ⟨j, hj, hx⟩))
      obtain ⟨nodes', table', hrest, hsegments⟩ := ih hlater hchains ((hperm.map Prod.fst).nodup_iff.mpr hnodup)
        fun j hj => hfuel j (List.mem_cons_of_mem _ hj)
      refine ⟨nodes', table', ?_, ?_⟩
      · rw [List.foldlM_cons, hloop]
        exact hrest
      · rw [List.flatMap_cons, List.foldl_append]
        exact hsegments

/-- The same nodes in other chains. -/
theorem Rep.of_perm (hH : H.Lawful) (h : t.Rep H b) {c : Chains K V} (hchained : t'.Chained H c)
    (hperm : (c.nodes t'.buckets).Perm (b.nodes t.buckets)) (hsize : t'.size = t.size)
    (hbuckets : 0 < t'.buckets) : t'.Rep H c := by
  refine ⟨hchained, ?_, ?_, hbuckets⟩
  · exact (hperm.pairwise_iff fun hxy => hH.symm_false hxy).mpr h.distinct
  · rw [hsize, h.size, hperm.length_eq]

theorem resize_spec (hH : H.Lawful) (h : t.Rep H b) : ∃ t' c, t.resize H = some t' ∧ t'.Rep H c ∧
    (c.nodes t'.buckets).Perm (b.nodes t.buckets) := by
  by_cases hsmall : t.size < t.threshold
  · exact ⟨t, b, by rw [resize, if_pos hsmall], h, .refl _⟩
  · have hn : 0 < t.buckets * 2 := Nat.mul_pos h.buckets Nat.two_pos
    have hempty : ∀ j < t.buckets * 2, Segment t.nodes ((fun _ => none : Nat → Option Nat) j) [] none :=
      fun _ _ => rfl
    obtain ⟨nodes, table, hloop, hsegments⟩ := relinkAll_spec (H := H) (b := b) (c := fun _ => [])
      (List.range t.buckets) hn (fun i hi => h.segment i (List.mem_range.mp hi)) hempty
      (by rw [Chains.nodes_empty, List.append_nil]; exact h.nodup)
      fun i hi => h.length_le (List.mem_range.mp hi)
    have hperm := Chains.nodes_pushAll (H := H) (b := fun _ => []) hn (b.nodes t.buckets)
    rw [Chains.nodes_empty, List.append_nil] at hperm
    rw [resize, if_neg hsmall]
    dsimp only
    rw [hloop]
    refine ⟨_, (b.nodes t.buckets).foldl (Chains.push H (t.buckets * 2)) fun _ => [], rfl, ?_, hperm⟩
    refine h.of_perm hH ⟨hsegments, ?_, ?_, ?_⟩ hperm rfl hn
    · exact (hperm.map Prod.fst).nodup_iff.mpr h.nodup
    · exact fun x hx => h.fresh x (hperm.mem_iff.mp hx)
    · exact Chains.Placed.pushAll (fun _ _ _ hx => absurd hx List.not_mem_nil) _

end HashTable

end Cxlmc
