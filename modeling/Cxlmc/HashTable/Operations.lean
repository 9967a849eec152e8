import Cxlmc.HashTable.Rep

/-!
# The operations of a hash table

What each operation does to the chains. None of them dereferences a null pointer or runs out of fuel.
-/

namespace Cxlmc

open Linked

namespace HashTable

variable {K V : Type} {H : Hashing K} {t t' : HashTable K V} {b : Chains K V} {n i : Nat} {key : K} {val : V}
  {pre post : List (Nat × Pair K V)} {x : Nat × Pair K V}

/-! ## Looking up -/

theorem searchLoop_spec (H : Hashing K) (key : K) {nodes : Heap (Pair K V)} {fuel : Nat} {p : Option Nat}
    {l : List (Nat × Pair K V)} (hl : Segment nodes p l none) (hfuel : l.length ≤ fuel)
    (last : Option Nat) :
    (∃ pre x post, l = pre ++ x :: post ∧ H.equals x.2.first key = true ∧
      searchLoop H nodes key fuel p last = some (some x.1, lastOf last pre)) ∨
    (∀ x ∈ l, H.equals x.2.first key = false) ∧
      searchLoop H nodes key fuel p last = some (none, lastOf last l) := by
  induction l generalizing p fuel last with
  | nil =>
      cases hl
      refine .inr ⟨fun _ hx => absurd hx List.not_mem_nil, ?_⟩
      cases fuel <;> rfl
  | cons y l ih =>
      obtain ⟨rfl, next, hcell, hrest⟩ := hl
      obtain ⟨fuel, rfl⟩ := Nat.exists_eq_add_of_le' (Nat.lt_of_lt_of_le (Nat.succ_pos _) hfuel)
      have hstep : searchLoop H nodes key (fuel + 1) (some y.1) last =
          if H.equals y.2.first key then some (some y.1, last)
          else searchLoop H nodes key fuel next (some y.1) := by
        rw [searchLoop, hcell]
        rfl
      rw [hstep]
      by_cases hy : H.equals y.2.first key = true
      · rw [if_pos hy]
        exact .inl ⟨[], y, l, rfl, hy, rfl⟩
      · rw [if_neg hy]
        rcases ih hrest (Nat.succ_le_succ_iff.mp hfuel) (some y.1) with
          ⟨pre, x, post, rfl, hx, hloop⟩ | ⟨hnone, hloop⟩
        · exact .inl ⟨y :: pre, x, post, rfl, hx, hloop⟩
        · refine .inr ⟨fun x hx => ?_, hloop⟩
          rcases List.mem_cons.mp hx with rfl | hx
          · simpa using hy
          · exact hnone x hx

/-- The key is in the chain that its hash selects, or it is not in the table. -/
theorem Rep.search_spec (hH : H.Lawful) (h : t.Rep H b) (key : K) :
    (∃ pre x post, b (H.hash key % t.buckets) = pre ++ x :: post ∧ H.equals x.2.first key = true ∧
      t.search H key = some (some x.1, lastOf none pre)) ∨
    (∀ x ∈ b.nodes t.buckets, H.equals x.2.first key = false) ∧
      t.search H key = some (none, lastOf none (b (H.hash key % t.buckets))) := by
  have hi := h.index_lt key
  rcases searchLoop_spec H key (h.segment _ hi) (h.length_le hi) none with hfound | ⟨hnone, hloop⟩
  · exact .inl hfound
  · refine .inr ⟨fun x hx => ?_, hloop⟩
    obtain ⟨j, hj, hx⟩ := Chains.mem_nodes.mp hx
    by_contra heq
    have heq : H.equals x.2.first key = true := by simpa using heq
    have hplace := h.placed j hj x hx
    rw [hH.hash heq] at hplace
    rw [hnone x (hplace ▸ hx)] at heq
    cases heq

/-- The iterator at the node `x` of chain `i`. -/
def atNode (t : HashTable K V) (i : Nat) (x : Nat × Pair K V) (prev : Option Nat) : Iterator :=
  ⟨t.array, t.buckets, some x.1, prev, i⟩

theorem Rep.find_spec (hH : H.Lawful) (h : t.Rep H b) (key : K) :
    (∃ i pre x post, i < t.buckets ∧ b i = pre ++ x :: post ∧ H.equals x.2.first key = true ∧
      t.find H key = some (t.atNode i x (lastOf none pre))) ∨
    (∀ x ∈ b.nodes t.buckets, H.equals x.2.first key = false) ∧ t.find H key = some t.end_ := by
  rcases h.search_spec hH key with ⟨pre, x, post, hchain, hx, hsearch⟩ | ⟨hnone, hsearch⟩
  · refine .inl ⟨_, pre, x, post, h.index_lt key, hchain, hx, ?_⟩
    rw [find, hsearch]
    rfl
  · refine .inr ⟨hnone, ?_⟩
    rw [find, hsearch]
    rfl

theorem Chained.mem_nodes (hi : i < n) (hchain : b i = pre ++ x :: post) : x ∈ b.nodes n :=
  Chains.mem_nodes.mpr ⟨i, hi, by simp [hchain]⟩

/-- What `find` comes back with. -/
theorem Rep.run_find [Inhabited V] (hH : H.Lawful) (h : t.Rep H b) (key : K) :
    (∃ x ∈ b.nodes t.buckets, H.equals x.2.first key = true ∧
      t.run H (.find key) = some (t, .found (some x.2.second))) ∨
    (∀ x ∈ b.nodes t.buckets, H.equals x.2.first key = false) ∧
      t.run H (.find key) = some (t, .found none) := by
  rcases h.find_spec hH key with ⟨i, pre, x, post, hi, hchain, hx, hfind⟩ | ⟨hnone, hfind⟩
  · obtain ⟨next, hcell, _⟩ := h.cell hi hchain
    refine .inl ⟨x, Chained.mem_nodes hi hchain, hx, ?_⟩
    have hend : (t.atNode i x (lastOf none pre)).eq t.end_ = false := by
      simp [Iterator.eq, atNode, end_]
    rw [run, hfind]
    show (if (t.atNode i x (lastOf none pre)).eq t.end_ = true then _ else _) = _
    rw [if_neg (by simp [hend])]
    show ((t.nodes x.1 >>= _) >>= _) = _
    rw [hcell]
    rfl
  · refine .inr ⟨hnone, ?_⟩
    rw [run, hfind]
    exact if_pos (by simp [Iterator.eq])

/-! ## Inserting -/

/-- The chains with a new node at the end of the chain of its key. -/
def appended (H : Hashing K) (t : HashTable K V) (b : Chains K V) (key : K) (val : V) : Chains K V :=
  Function.update b (H.hash key % t.buckets) (b (H.hash key % t.buckets) ++ [(t.fresh, ⟨key, val⟩)])

theorem nodes_appended (b : Chains K V) (val : V) (hi : H.hash key % t.buckets < t.buckets) :
    ((t.appended H b key val).nodes t.buckets).Perm ((t.fresh, ⟨key, val⟩) :: b.nodes t.buckets) := by
  have hperm := Chains.nodes_update (b := b) hi
    (b (H.hash key % t.buckets) ++ [(t.fresh, ⟨key, val⟩)])
  rw [List.append_assoc] at hperm
  exact (hperm.trans List.perm_middle).trans ((b.nodes_perm hi).symm.cons _)

/-- A table with one node more, at the end of its chain. -/
theorem Rep.appended (hH : H.Lawful) (h : t.Rep H b)
    (hnew : ∀ x ∈ b.nodes t.buckets, H.equals x.2.first key = false)
    (hbuckets : t'.buckets = t.buckets) (hfresh : t'.fresh = t.fresh + 1) (hsize : t'.size = t.size + 1)
    (htable : ∀ j, j ≠ H.hash key % t.buckets → t'.table j = t.table j)
    (hnodes : ∀ a, a ∉ addrs (b (H.hash key % t.buckets)) → a < t.fresh → t'.nodes a = t.nodes a)
    (hsegment : Segment t'.nodes (t'.table (H.hash key % t.buckets))
      (b (H.hash key % t.buckets) ++ [(t.fresh, ⟨key, val⟩)]) none) :
    t'.Rep H (t.appended H b key val) := by
  have hi := h.index_lt key
  have hperm := nodes_appended b val hi
  have hchained : t'.Chained H (t.appended H b key val) := by
    refine h.replace hi hbuckets (by omega) htable hnodes hsegment ?_ ?_ ?_
    · rw [addrs, List.map_append]
      refine List.Nodup.append (h.nodup_chain hi) (List.nodup_singleton _) ?_
      intro a ha ha'
      obtain ⟨x, hx, rfl⟩ := List.mem_map.mp ha
      have hlt := h.fresh x ((b.sublist_nodes hi).subset hx)
      exact absurd (List.mem_singleton.mp ha') (Nat.ne_of_lt hlt)
    · intro x hx
      rcases List.mem_append.mp hx with hx | hx
      · exact .inl (List.mem_map_of_mem hx)
      · rw [List.mem_singleton.mp hx]
        exact .inr ⟨Nat.le_refl _, by omega⟩
    · intro x hx
      rcases List.mem_append.mp hx with hx | hx
      · exact h.placed _ hi x hx
      · rw [List.mem_singleton.mp hx]
  refine ⟨hchained, ?_, ?_, hbuckets ▸ h.buckets⟩
  · rw [hbuckets]
    refine (hperm.pairwise_iff fun hxy => hH.symm_false hxy).mpr ?_
    exact List.pairwise_cons.mpr ⟨fun x hx => hH.symm_false (hnew x hx), h.distinct⟩
  · rw [hbuckets, hsize, hperm.length_eq, List.length_cons, h.size]

theorem Rep.insert_spec (hH : H.Lawful) (h : t.Rep H b)
    (hnew : ∀ x ∈ b.nodes t.buckets, H.equals x.2.first key = false) (val : V) :
    ∃ t', t.insert key val (H.hash key % t.buckets) (lastOf none (b (H.hash key % t.buckets))) = some t' ∧
      t'.Rep H (t.appended H b key val) ∧ t'.buckets = t.buckets ∧ t'.array = t.array := by
  have hi := h.index_lt key
  have hold : ∀ x ∈ b (H.hash key % t.buckets), x.1 < t.fresh := fun x hx =>
    h.fresh x ((b.sublist_nodes hi).subset hx)
  have hframe := (h.segment _ hi).frame (a := t.fresh) (fun hmem => by
    obtain ⟨x, hx, heq⟩ := List.mem_map.mp hmem
    exact absurd heq (Nat.ne_of_lt (hold x hx))) (some ⟨⟨key, val⟩, none⟩)
  rcases List.eq_nil_or_concat (b (H.hash key % t.buckets)) with hempty | ⟨l, m, hchain⟩
  · -- the chain is empty: the node becomes its head
    rw [hempty, lastOf_nil, insert]
    refine ⟨_, rfl, h.appended hH hnew rfl rfl rfl ?_ ?_ ?_, rfl, rfl⟩
    · exact fun j hj => Function.update_of_ne hj _ _
    · exact fun a _ ha => Function.update_of_ne (Nat.ne_of_lt ha) _ _
    · rw [hempty]
      exact ⟨Function.update_self _ _ _, none, Function.update_self _ _ _, rfl⟩
  · rw [List.concat_eq_append] at hchain
    have hm : m.1 < t.fresh := hold m (by simp [hchain])
    have hnodup := h.nodup_chain hi
    rw [hchain, addrs, List.map_append] at hnodup
    have hml : m.1 ∉ addrs l := fun hmem => List.disjoint_of_nodup_append hnodup hmem (by simp)
    rw [hchain] at hframe
    obtain ⟨hset, hlink⟩ := hframe.link hml (some t.fresh)
    rw [hchain, lastOf_concat, insert, hset]
    refine ⟨_, rfl, h.appended hH hnew rfl rfl rfl (fun _ _ => rfl) ?_ ?_, rfl, rfl⟩
    · intro a ha hlt
      have hne : a ≠ m.1 := by
        rintro rfl
        exact ha (by simp [hchain])
      show Function.update (Function.update t.nodes t.fresh _) m.1 _ a = t.nodes a
      rw [Function.update_of_ne hne, Function.update_of_ne (Nat.ne_of_lt hlt)]
    · rw [hchain]
      refine segment_append.mpr ⟨some t.fresh, hlink, rfl, none, ?_, rfl⟩
      show Function.update (Function.update t.nodes t.fresh _) m.1 _ t.fresh = _
      rw [Function.update_of_ne (Nat.ne_of_gt hm), Function.update_self]

/-- What `emplace` leaves behind: a node with the key, which was there or is new. -/
structure Emplaced (H : Hashing K) (t : HashTable K V) (b : Chains K V) (key : K) (val : V)
    (t' : HashTable K V) (c : Chains K V) (i : Nat) (pre post : List (Nat × Pair K V))
    (x : Nat × Pair K V) (inserted : Bool) : Prop where
  rep : t'.Rep H c
  index : i < t'.buckets
  chain : c i = pre ++ x :: post
  equals : H.equals x.2.first key = true
  nodes : inserted = false ∧ (c.nodes t'.buckets).Perm (b.nodes t.buckets) ∨
    inserted = true ∧ x.2 = ⟨key, val⟩ ∧ (c.nodes t'.buckets).Perm (x :: b.nodes t.buckets) ∧
      ∀ y ∈ b.nodes t.buckets, H.equals y.2.first key = false

theorem Rep.emplace_spec (hH : H.Lawful) (h : t.Rep H b) (key : K) (val : V) :
    ∃ t' c i pre post x inserted, t.emplace H key val = some (t', t'.atNode i x (lastOf none pre), inserted) ∧
      Emplaced H t b key val t' c i pre post x inserted := by
  obtain ⟨t₁, c, hresize, hc, hperm⟩ := resize_spec hH h
  rw [emplace, hresize]
  rcases hc.search_spec hH key with ⟨pre, x, post, hchain, hx, hsearch⟩ | ⟨hnone, hsearch⟩
  · refine ⟨t₁, c, _, pre, post, x, false, ?_, hc, hc.index_lt key, hchain, hx, .inl ⟨rfl, hperm⟩⟩
    show (t₁.search H key >>= _) = _
    rw [hsearch]
    rfl
  · obtain ⟨t₂, hinsert, hrep, hbuckets, harray⟩ := hc.insert_spec hH hnone val
    refine ⟨t₂, t₁.appended H c key val, _, c (H.hash key % t₁.buckets), [], (t₁.fresh, ⟨key, val⟩), true,
      ?_, hrep, hbuckets ▸ hc.index_lt key, Function.update_self _ _ _, hH.refl key, .inr ⟨rfl, rfl, ?_, ?_⟩⟩
    · show (t₁.search H key >>= _) = _
      rw [hsearch]
      show (t₁.insert _ _ _ _ >>= _) = _
      rw [hinsert]
      show some _ = some _
      rw [atNode, hbuckets, harray]
    · rw [hbuckets]
      exact (nodes_appended c val (hc.index_lt key)).trans (hperm.cons _)
    · exact fun y hy => hnone y (hperm.mem_iff.mpr hy)

theorem Rep.subscript_spec [Inhabited V] (hH : H.Lawful) (h : t.Rep H b) (key : K) :
    ∃ t' c i pre post x inserted, t.subscript H key = some (t', x.1) ∧
      Emplaced H t b key default t' c i pre post x inserted := by
  obtain ⟨t', c, i, pre, post, x, inserted, hemplace, hspec⟩ := h.emplace_spec hH key default
  refine ⟨t', c, i, pre, post, x, inserted, ?_, hspec⟩
  rw [subscript, hemplace]
  rfl

/-- A chain in which the node `x` is taken out, or replaced by one with the same address. -/
theorem nodes_replaced (hi : i < n) (hchain : b i = pre ++ x :: post) :
    ∃ rest, (b.nodes n).Perm (x :: rest) ∧
      (Chains.nodes (Function.update b i (pre ++ post)) n).Perm rest ∧
      ∀ y, (Chains.nodes (Function.update b i (pre ++ y :: post)) n).Perm (y :: rest) := by
  have hmiddle : ∀ y, (pre ++ y :: post ++ b.others n i).Perm (y :: (pre ++ post ++ b.others n i)) :=
    fun y => List.perm_middle.append_right _
  refine ⟨pre ++ post ++ b.others n i, ?_, Chains.nodes_update hi _, fun y => ?_⟩
  · refine (b.nodes_perm hi).trans ?_
    rw [hchain]
    exact hmiddle x
  · exact (Chains.nodes_update hi _).trans (hmiddle y)

theorem Rep.setSecond_spec (hH : H.Lawful) (h : t.Rep H b) (hi : i < t.buckets)
    (hchain : b i = pre ++ x :: post) (val : V) :
    ∃ t', t.setSecond x.1 val = some t' ∧ t'.buckets = t.buckets ∧
      t'.Rep H (Function.update b i (pre ++ (x.1, ⟨x.2.first, val⟩) :: post)) := by
  have hnodup := h.nodup_chain hi
  have hsegment := h.segment i hi
  rw [hchain] at hnodup hsegment
  obtain ⟨next, hcell, hseg⟩ := hsegment.setVal hnodup ⟨x.2.first, val⟩
  obtain ⟨rest, hold, _, hnew⟩ := nodes_replaced (n := t.buckets) hi hchain
  have hnew := hnew (x.1, ⟨x.2.first, val⟩)
  rw [setSecond, hcell]
  refine ⟨_, rfl, rfl, ?_, ?_, ?_, h.buckets⟩
  · refine h.replace hi rfl (Nat.le_refl _) (fun _ _ => rfl) ?_ hseg ?_ ?_ ?_
    · intro a ha _
      refine Function.update_of_ne ?_ _ _
      rintro rfl
      exact ha (by simp [hchain])
    · simpa [addrs] using hnodup
    · intro y hy
      rw [hchain]
      simp only [List.mem_append, List.mem_cons] at hy
      rcases hy with hy | rfl | hy
      · exact .inl (List.mem_map_of_mem (by simp [hy]))
      · exact .inl (by simp)
      · exact .inl (List.mem_map_of_mem (by simp [hy]))
    · intro y hy
      have hplaced := h.placed i hi
      rw [hchain] at hplaced
      simp only [List.mem_append, List.mem_cons] at hy
      rcases hy with hy | rfl | hy
      · exact hplaced y (by simp [hy])
      · exact hplaced x (by simp)
      · exact hplaced y (by simp [hy])
  · have hdistinct := (hold.pairwise_iff fun hxy => hH.symm_false hxy).mp h.distinct
    refine (hnew.pairwise_iff fun hxy => hH.symm_false hxy).mpr ?_
    obtain ⟨hx, hrest⟩ := List.pairwise_cons.mp hdistinct
    exact List.pairwise_cons.mpr ⟨hx, hrest⟩
  · show t.size = _
    rw [h.size, hold.length_eq, hnew.length_eq]
    rfl

/-- Nodes with equal keys are the same. -/
theorem Rep.unique (hH : H.Lawful) (h : t.Rep H b) {x y : Nat × Pair K V} (hx : x ∈ b.nodes t.buckets)
    (hy : y ∈ b.nodes t.buckets) (heq : H.equals x.2.first y.2.first = true) : x = y := by
  have : Std.Symm fun x y : Nat × Pair K V => H.equals x.2.first y.2.first = false :=
    ⟨fun _ _ hxy => hH.symm_false hxy⟩
  by_contra hne
  rw [h.distinct.forall hx hy hne] at heq
  cases heq

theorem Rep.at_spec (hH : H.Lawful) (h : t.Rep H b) (hx : x ∈ b.nodes t.buckets)
    (heq : H.equals x.2.first key = true) : ∃ t' c, t.at_ H key = some (t', x.2.second) ∧ t'.Rep H c ∧
      (c.nodes t'.buckets).Perm (b.nodes t.buckets) := by
  obtain ⟨t', c, hresize, hc, hperm⟩ := resize_spec hH h
  refine ⟨t', c, ?_, hc, hperm⟩
  have hx := hperm.mem_iff.mpr hx
  rcases hc.search_spec hH key with ⟨pre, y, post, hchain, hy, hsearch⟩ | ⟨hnone, _⟩
  · have hi := hc.index_lt key
    have hxy := hc.unique hH (Chained.mem_nodes hi hchain) hx (hH.trans hy (hH.symm heq))
    obtain ⟨next, hcell, _⟩ := hc.cell hi hchain
    rw [at_, hresize]
    show (t'.search H key >>= _) = _
    rw [hsearch, hxy]
    rw [hxy] at hcell
    show (t'.nodes x.1 >>= _) = _
    rw [hcell]
    rfl
  · rw [hnone x hx] at heq
    cases heq

/-- `at` of a key that is not there aborts. -/
theorem Rep.at_none (hH : H.Lawful) (h : t.Rep H b)
    (hnone : ∀ x ∈ b.nodes t.buckets, H.equals x.2.first key = false) : t.at_ H key = none := by
  obtain ⟨t', c, hresize, hc, hperm⟩ := resize_spec hH h
  rcases hc.search_spec hH key with ⟨pre, x, post, hchain, hx, _⟩ | ⟨_, hsearch⟩
  · have hmem := hperm.mem_iff.mp (Chained.mem_nodes (hc.index_lt key) hchain)
    rw [hnone x hmem] at hx
    cases hx
  · rw [at_, hresize]
    show (t'.search H key >>= _) = _
    rw [hsearch]
    rfl

end HashTable

end Cxlmc
