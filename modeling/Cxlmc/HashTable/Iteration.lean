import Cxlmc.HashTable.Operations

/-!
# Iterating, removing and copying

`Remains` says which nodes an iterator has still to visit. A loop from `begin` to `end` visits the nodes of
all chains (`Chained.visit_spec`).
-/

namespace Cxlmc

open Linked

namespace HashTable

variable {K V : Type} {H : Hashing K} {t t' : HashTable K V} {b : Chains K V} {n i : Nat} {key : K} {val : V}
  {pre post l : List (Nat × Pair K V)} {x : Nat × Pair K V} {it : Iterator}

/-! ## Iterating -/

/-- The nodes that the iterator has still to visit. -/
inductive Remains (t : HashTable K V) (b : Chains K V) : Iterator → List (Nat × Pair K V) → Prop where
  | done : Remains t b t.end_ []
  | node {i : Nat} {pre post : List (Nat × Pair K V)} {x : Nat × Pair K V} (prev : Option Nat)
      (hi : i < t.buckets) (hchain : b i = pre ++ x :: post) :
      Remains t b (t.atNode i x prev)
        (x :: (post ++ (List.range' (i + 1) (t.buckets - (i + 1))).flatMap b))

/-- The first node in the buckets from `i` on. -/
theorem Chained.scan_remains (h : t.Chained H b) (it : Iterator) (harray : it.array = t.array)
    (hbuckets : it.buckets = t.buckets) (hn : i + n = t.buckets) :
    Remains t b (it.scan t.table n i) ((List.range' i n).flatMap b) := by
  induction n generalizing i with
  | zero =>
      rw [Iterator.scan, harray, hbuckets, ← hn]
      have hend : t.end_ = ⟨t.array, i + 0, none, none, i⟩ := by rw [end_, ← hn]; rfl
      rw [← hend]
      exact .done
  | succ n ih =>
      have hi : i < t.buckets := by omega
      have hsegment := h.segment i hi
      rw [List.range'_succ, List.flatMap_cons, Iterator.scan]
      cases hchain : b i with
      | nil =>
          rw [hchain] at hsegment
          rw [segment_nil.mp hsegment]
          exact ih (by omega)
      | cons x post =>
          rw [hchain] at hsegment
          rw [hsegment.1, harray, hbuckets]
          have hrest : n = t.buckets - (i + 1) := by omega
          rw [hrest]
          exact @Remains.node K V t b i [] post x none hi hchain

theorem Chained.begin_remains (h : t.Chained H b) : Remains t b t.begin_ (b.nodes t.buckets) := by
  rw [Chains.nodes, List.range_eq_range']
  exact h.scan_remains t.end_ rfl rfl (Nat.zero_add _)

/-- `++it` inside a chain. -/
theorem next_inside {y : Nat} {c : Pair K V} (prev : Option Nat) (hcell : t.nodes x.1 = some ⟨c, some y⟩) :
    t.next (t.atNode i x prev) = some ⟨t.array, t.buckets, some y, some x.1, i⟩ := by
  show (t.nodes x.1 >>= _) = _
  rw [hcell]
  rfl

/-- `++it` at the end of a chain. -/
theorem next_behind {c : Pair K V} (prev : Option Nat) (hcell : t.nodes x.1 = some ⟨c, none⟩) :
    t.next (t.atNode i x prev) =
      some ((t.atNode i x prev).scan t.table (t.buckets - (i + 1)) (i + 1)) := by
  show (t.nodes x.1 >>= _) = _
  rw [hcell]
  exact if_pos rfl

theorem Chained.next_remains (h : t.Chained H b) (hit : Remains t b it (x :: l)) :
    ∃ it', t.next it = some it' ∧ Remains t b it' l := by
  generalize heq : x :: l = l' at hit
  cases hit with
  | done => cases heq
  | @node i pre post y prev hi hchain =>
      cases heq
      obtain ⟨next, hcell, hrest⟩ := h.cell hi hchain
      cases post with
      | nil =>
          cases hrest
          exact ⟨_, next_behind prev hcell, h.scan_remains _ rfl rfl (by omega)⟩
      | cons y post =>
          obtain ⟨rfl, _⟩ := hrest
          refine ⟨_, next_inside prev hcell, ?_⟩
          have hchain : b i = (pre ++ [x]) ++ y :: post := by
            rw [hchain, List.append_assoc]
            rfl
          exact .node (some x.1) hi hchain

theorem Chained.deref_remains (h : t.Chained H b) (hit : Remains t b it (x :: l)) :
    t.deref it = some x.2 := by
  generalize heq : x :: l = l' at hit
  cases hit with
  | done => cases heq
  | @node i pre post y prev hi hchain =>
      cases heq
      obtain ⟨next, hcell, _⟩ := h.cell hi hchain
      show (t.nodes x.1 >>= _) = _
      rw [hcell]
      rfl

theorem Remains.eq_end (hit : Remains t b it l) : it.eq t.end_ = l.isEmpty := by
  cases hit with
  | done => simp [Iterator.eq]
  | node _ _ _ => simp [Iterator.eq, atNode, end_]

theorem Chained.visitLoop_spec {fuel : Nat} (h : t.Chained H b) (hit : Remains t b it l)
    (hfuel : l.length ≤ fuel) : t.visitLoop fuel it = some (l.map Prod.snd) := by
  induction l generalizing it fuel with
  | nil =>
      unfold visitLoop
      rw [hit.eq_end]
      rfl
  | cons x l ih =>
      obtain ⟨fuel, rfl⟩ := Nat.exists_eq_add_of_le' (Nat.lt_of_lt_of_le (Nat.succ_pos _) hfuel)
      obtain ⟨it', hnext, hit'⟩ := h.next_remains hit
      unfold visitLoop
      rw [hit.eq_end, h.deref_remains hit, hnext]
      show (t.visitLoop fuel it' >>= _) = _
      rw [ih hit' (Nat.succ_le_succ_iff.mp hfuel)]
      rfl

theorem Chained.visit_spec (h : t.Chained H b) : t.visit = some ((b.nodes t.buckets).map Prod.snd) :=
  h.visitLoop_spec h.begin_remains h.length_nodes_le

/-! ## Removing -/

/-- The table after a removal behind the node before. -/
theorem Chained.unlink_spec (h : t.Chained H b) (hi : i < t.buckets) (hchain : b i = pre ++ x :: post) :
    ∃ t', t.unlink (t.atNode i x (lastOf none pre)) = some t' ∧
      t'.Chained H (Function.update b i (pre ++ post)) ∧ t'.size = t.size - 1 ∧
      t'.buckets = t.buckets ∧ t'.array = t.array ∧ t'.fresh = t.fresh ∧
      ∀ a, a ∉ addrs pre → t'.nodes a = t.nodes a := by
  have hnodup := h.nodup_chain hi
  have hsegment := h.segment i hi
  rw [hchain] at hnodup hsegment
  -- one chain changes, to a part of what it was
  have hreplace : ∀ {t' : HashTable K V}, t'.buckets = t.buckets → t'.fresh = t.fresh →
      (∀ j, j ≠ i → t'.table j = t.table j) → (∀ a, a ∉ addrs pre → t'.nodes a = t.nodes a) →
      Segment t'.nodes (t'.table i) (pre ++ post) none →
      t'.Chained H (Function.update b i (pre ++ post)) := by
    intro t' hbuckets hfresh htable hnodes hseg
    have hsub : (pre ++ post).Sublist (b i) := by
      rw [hchain]
      exact List.Sublist.append_left (List.sublist_cons_self _ _) _
    refine h.replace hi hbuckets (Nat.le_of_eq hfresh.symm) htable ?_ hseg ?_ ?_ ?_
    · intro a ha _
      refine hnodes a fun hmem => ha ?_
      rw [hchain, addrs, List.map_append]
      exact List.mem_append_left _ hmem
    · exact (h.nodup_chain hi).sublist (hsub.map _)
    · exact fun y hy => .inl (List.mem_map_of_mem (hsub.subset hy))
    · exact fun y hy => h.placed i hi y (hsub.subset hy)
  rcases List.eq_nil_or_concat pre with rfl | ⟨pre, m, rfl⟩
  · -- the first node of its chain
    obtain ⟨htable, next, hcell, hrest⟩ := hsegment
    refine ⟨{ t with table := Function.update t.table i next, size := t.size - 1 }, ?_,
      hreplace rfl rfl (fun j hj => Function.update_of_ne hj _ _) (fun _ _ => rfl) ?_, rfl, rfl, rfl, rfl,
      fun _ _ => rfl⟩
    · show (t.nodes x.1 >>= _) = _
      rw [hcell]
      rfl
    · show Segment t.nodes (Function.update t.table i next i) post none
      rw [Function.update_self]
      exact hrest
  · -- a node with `m` before it
    rw [List.concat_eq_append] at hsegment hnodup hreplace ⊢
    rw [List.append_assoc, List.singleton_append] at hsegment hnodup hreplace
    obtain ⟨next, hcell, hset, hseg⟩ := hsegment.unlink hnodup
    have hsame : ∀ a, a ∉ addrs (pre ++ [m]) →
        Function.update t.nodes m.1 (some ⟨m.2, next⟩) a = t.nodes a := by
      intro a ha
      refine Function.update_of_ne ?_ _ _
      rintro rfl
      exact ha (by simp)
    rw [List.append_assoc, List.singleton_append]
    refine ⟨{ t with nodes := Function.update t.nodes m.1 (some ⟨m.2, next⟩), size := t.size - 1 }, ?_,
      hreplace rfl rfl (fun _ _ => rfl) hsame hseg, rfl, rfl, rfl, rfl, hsame⟩
    show (t.nodes x.1 >>= _) = _
    rw [hcell, lastOf_concat]
    show (setNext t.nodes m.1 next >>= _) = _
    rw [hset]
    rfl

theorem Rep.erase_spec (hH : H.Lawful) (h : t.Rep H b) (hi : i < t.buckets)
    (hchain : b i = pre ++ x :: post) : ∃ t' it', t.erase (t.atNode i x (lastOf none pre)) = some (t', it') ∧
      t'.buckets = t.buckets ∧ t'.Rep H (Function.update b i (pre ++ post)) := by
  obtain ⟨t', hunlink, hchained, hsize, hbuckets, harray, _, hsame⟩ := h.unlink_spec hi hchain
  have hnodup := h.nodup_chain hi
  rw [hchain] at hnodup
  obtain ⟨next, hcell, _⟩ := h.cell hi hchain
  have hx : x.1 ∉ addrs pre := by
    rw [addrs, List.map_append] at hnodup
    exact fun hmem => List.disjoint_of_nodup_append hnodup hmem List.mem_cons_self
  rw [← hsame x.1 hx] at hcell
  obtain ⟨it', hnext⟩ : ∃ it', t'.next (t.atNode i x (lastOf none pre)) = some it' := by
    show ∃ it', (t'.nodes x.1 >>= _) = some it'
    rw [hcell]
    cases next with
    | some y => exact ⟨_, rfl⟩
    | none => exact ⟨_, if_pos harray.symm⟩
  obtain ⟨rest, hold, hnew, _⟩ := nodes_replaced (n := t.buckets) hi hchain
  refine ⟨t', it', ?_, hbuckets, hchained, ?_, ?_, hbuckets ▸ h.buckets⟩
  · show (t.unlink (t.atNode i x (lastOf none pre)) >>= _) = _
    rw [hunlink]
    show (t'.next _ >>= _) = _
    rw [hnext]
    rfl
  · rw [hbuckets]
    have hdistinct := (hold.pairwise_iff fun hxy => hH.symm_false hxy).mp h.distinct
    exact (hnew.pairwise_iff fun hxy => hH.symm_false hxy).mpr (List.pairwise_cons.mp hdistinct).2
  · rw [hbuckets, hsize, h.size, hold.length_eq, hnew.length_eq]
    rfl

/-- The nodes of a chain are freed. -/
theorem freeLoop_spec {nodes : Heap (Pair K V)} {fuel : Nat} {p : Option Nat} (hl : Segment nodes p l none)
    (hnodup : (addrs l).Nodup) (hfuel : l.length ≤ fuel) :
    ∃ nodes', freeLoop fuel p nodes = some nodes' ∧ ∀ a, a ∉ addrs l → nodes' a = nodes a := by
  induction l generalizing nodes p fuel with
  | nil =>
      cases hl
      refine ⟨nodes, ?_, fun _ _ => rfl⟩
      cases fuel <;> rfl
  | cons x l ih =>
      obtain ⟨rfl, next, hcell, hrest⟩ := hl
      obtain ⟨fuel, rfl⟩ := Nat.exists_eq_add_of_le' (Nat.lt_of_lt_of_le (Nat.succ_pos _) hfuel)
      obtain ⟨hx, hnodup⟩ := List.nodup_cons.mp hnodup
      obtain ⟨nodes', hloop, hsame⟩ := ih (hrest.frame hx none) hnodup (Nat.succ_le_succ_iff.mp hfuel)
      refine ⟨nodes', ?_, fun a ha => ?_⟩
      · show (nodes x.1 >>= _) = _
        rw [hcell]
        exact hloop
      · rw [hsame a fun hmem => ha (List.mem_cons_of_mem _ hmem), Function.update_of_ne]
        rintro rfl
        exact ha List.mem_cons_self

theorem clearAll_spec {nodes : Heap (Pair K V)} {table : Nat → Option Nat} {fuel : Nat} (is : List Nat)
    (his : is.Nodup) (hl : ∀ i ∈ is, Segment nodes (table i) (b i) none)
    (hnodup : (addrs (is.flatMap b)).Nodup) (hfuel : ∀ i ∈ is, (b i).length ≤ fuel) :
    ∃ nodes' table', is.foldlM (fun x i => do
        let nodes ← freeLoop fuel (x.2 i) x.1
        return (nodes, Function.update x.2 i none)) (nodes, table) = some (nodes', table') ∧
      ∀ i, table' i = if i ∈ is then none else table i := by
  induction is generalizing nodes table with
  | nil => exact ⟨nodes, table, rfl, fun _ => rfl⟩
  | cons i is ih =>
      obtain ⟨hi, his⟩ := List.nodup_cons.mp his
      rw [List.flatMap_cons, addrs, List.map_append] at hnodup
      have hparts := List.nodup_append.mp hnodup
      obtain ⟨nodes₁, hfree, hsame⟩ :=
        freeLoop_spec (hl i List.mem_cons_self) hparts.1 (hfuel i List.mem_cons_self)
      have hlater : ∀ j ∈ is, Segment nodes₁ (Function.update table i none j) (b j) none := by
        intro j hj
        have hne : j ≠ i := by
          rintro rfl
          exact hi hj
        rw [Function.update_of_ne hne]
        refine (hl j (List.mem_cons_of_mem _ hj)).congr fun a ha => hsame a fun ha' => ?_
        refine List.disjoint_of_nodup_append hnodup ha' ?_
        obtain ⟨x, hx, rfl⟩ := List.mem_map.mp ha
        exact List.mem_map_of_mem (List.mem_flatMap.mpr ⟨j, hj, hx⟩)
      obtain ⟨nodes', table', hloop, htable⟩ :=
        ih his hlater hparts.2.1 fun j hj => hfuel j (List.mem_cons_of_mem _ hj)
      refine ⟨nodes', table', ?_, fun j => ?_⟩
      · rw [List.foldlM_cons]
        show ((freeLoop fuel (table i) nodes >>= _) >>= _) = _
        rw [hfree]
        exact hloop
      · rw [htable j, Function.update_apply]
        by_cases hj : j = i
        · subst hj
          simp
        · simp [hj]

theorem Rep.clear_spec (h : t.Rep H b) :
    ∃ t', t.clear = some t' ∧ t'.buckets = t.buckets ∧ t'.Rep H fun _ => [] := by
  obtain ⟨nodes, table, hloop, htable⟩ := clearAll_spec (List.range t.buckets) List.nodup_range
    (fun i hi => h.segment i (List.mem_range.mp hi)) h.nodup
    fun i hi => h.length_le (List.mem_range.mp hi)
  rw [clear, hloop]
  refine ⟨_, rfl, rfl, rep_empty (fun i hi => ?_) rfl h.buckets⟩
  exact (htable i).trans (if_pos (List.mem_range.mpr hi))

/-! ## Copying -/

theorem Chained.copyLoop_spec [Inhabited V] {src : HashTable K V} {fuel : Nat} (h : src.Chained H b)
    (hit : Remains src b it l) (hfuel : l.length ≤ fuel) (t : HashTable K V) :
    copyLoop H src fuel it t = l.foldlM (fun t x => t.assignSecond H x.2.first x.2.second) t := by
  induction l generalizing it fuel t with
  | nil =>
      unfold copyLoop
      rw [hit.eq_end]
      rfl
  | cons x l ih =>
      obtain ⟨fuel, rfl⟩ := Nat.exists_eq_add_of_le' (Nat.lt_of_lt_of_le (Nat.succ_pos _) hfuel)
      obtain ⟨it', hnext, hit'⟩ := h.next_remains hit
      unfold copyLoop
      rw [hit.eq_end, h.deref_remains hit, hnext, List.foldlM_cons]
      show (t.assignSecond H x.2.first x.2.second >>= _) = _
      congr 1
      funext t'
      exact ih hit' (Nat.succ_le_succ_iff.mp hfuel) t'

end HashTable

end Cxlmc
