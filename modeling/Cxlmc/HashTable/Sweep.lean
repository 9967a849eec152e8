import Cxlmc.HashTable.Refines

/-!
# Erasing while iterating

`erase` takes a node out of its chain and moves the iterator on, with the node that is gone as `_prev`. If the
next node of the chain is erased as well, the node that is gone gets a new `next` and the chain keeps the
second one. `sweep` is what stays of a chain, and `eraseWhere_iff` says when this is what was meant.
-/

namespace Cxlmc

open Linked HashTable

variable {K V : Type} {H : Hashing K} {P : K → Bool}

namespace HashTable

/-- `while (it != end()) it = P(it->first) ? erase(it) : ++it;`. -/
def eraseLoop (P : K → Bool) : (fuel : Nat) → HashTable K V → Iterator → Option (HashTable K V)
  | fuel, t, it =>
      if it.eq t.end_ then some t
      else
        match fuel with
        | 0 => none
        | fuel + 1 => do
            let p ← t.deref it
            if P p.first then do
              let (t, it) ← t.erase it
              eraseLoop P fuel t it
            else eraseLoop P fuel t (← t.next it)

/-- The loop from `begin()`. -/
def eraseWhere (t : HashTable K V) (P : K → Bool) : Option (HashTable K V) :=
  eraseLoop P t.fresh t t.begin_

end HashTable

/-! ## What stays of a chain -/

/-- The nodes that stay; `stale` says that `_prev` is a node that is gone. -/
def sweep (P : K → Bool) : (stale : Bool) → List (Nat × Pair K V) → List (Nat × Pair K V)
  | _, [] => []
  | stale, x :: l =>
      if P x.2.first then if stale then x :: sweep P false l else sweep P true l
      else x :: sweep P false l

/-- No two neighbours are both to be erased. -/
def Apart (P : K → Bool) (l : List (Nat × Pair K V)) : Prop :=
  l.IsChain fun x y => ¬ (P x.2.first = true ∧ P y.2.first = true)

theorem sweep_of_apart {l : List (Nat × Pair K V)} (h : Apart P l) :
    sweep P false l = l.filter fun x => !P x.2.first := by
  induction l with
  | nil => rfl
  | cons x l ih =>
      have htail : sweep P false l = l.filter fun x => !P x.2.first := ih h.tail
      by_cases hx : P x.2.first = true
      · rw [sweep, if_pos hx, if_neg Bool.false_ne_true, List.filter_cons_of_neg (by simp [hx]), ← htail]
        cases l with
        | nil => rfl
        | cons y l =>
            -- the node behind the one that is erased stays
            have hy : ¬ P y.2.first = true := fun hy => (List.isChain_cons_cons.mp h).1 ⟨hx, hy⟩
            rw [sweep, if_neg hy, sweep, if_neg hy]
      · rw [sweep, if_neg hx, List.filter_cons_of_pos (by simp [hx]), htail]

theorem apart_of_sweep {l : List (Nat × Pair K V)} (h : ∀ x ∈ sweep P false l, P x.2.first = false) :
    Apart P l := by
  induction l with
  | nil => exact .nil
  | cons x l ih =>
      rw [sweep] at h
      by_cases hx : P x.2.first = true
      · rw [if_pos hx, if_neg Bool.false_ne_true] at h
        cases l with
        | nil => exact .singleton _
        | cons y l =>
            have hy : ¬ P y.2.first = true := by
              intro hy
              rw [sweep, if_pos hy, if_pos rfl] at h
              rw [h y List.mem_cons_self] at hy
              cases hy
            refine List.isChain_cons_cons.mpr ⟨fun hxy => hy hxy.2, ih ?_⟩
            rw [sweep, if_neg hy] at h ⊢
            exact h
      · rw [if_neg hx] at h
        have htail := ih fun y hy => h y (List.mem_cons_of_mem _ hy)
        cases l with
        | nil => exact .singleton _
        | cons y l => exact List.isChain_cons_cons.mpr ⟨fun hxy => hx hxy.1, htail⟩

/-! ## The loop -/

namespace HashTable

variable {t t' : HashTable K V} {b b' : Chains K V} {i : Nat} {x : Nat × Pair K V}
  {pre post : List (Nat × Pair K V)}

/-- `_prev` is the node before, or a node that is gone. -/
inductive Prev (t : HashTable K V) (b : Chains K V) (pre : List (Nat × Pair K V)) :
    Bool → Option Nat → Prop where
  | live : Prev t b pre false (lastOf none pre)
  | gone {a : Nat} {c : HtNode K V} (ha : a ∉ addrs (b.nodes t.buckets)) (hcell : t.nodes a = some c) :
      Prev t b pre true (some a)

theorem Prev.last : Prev t b (pre ++ [x]) false (some x.1) := by
  have hlast : lastOf none (pre ++ [x]) = some x.1 := lastOf_concat none
  rw [← hlast]
  exact .live

/-- The nodes behind chain `i`. -/
def later (t : HashTable K V) (b : Chains K V) (i : Nat) : List (Nat × Pair K V) :=
  (List.range' (i + 1) (t.buckets - (i + 1))).flatMap b

/-- How many of the nodes are to be erased. -/
def targets (P : K → Bool) (l : List (Nat × Pair K V)) : Nat := l.countP fun x => P x.2.first

/-- The table after the loop, from chain `i` on, of which `l` stays; the loop erases `n` times. -/
structure Swept (P : K → Bool) (H : Hashing K) (t : HashTable K V) (b : Chains K V) (i : Nat)
    (l : List (Nat × Pair K V)) (n : Nat) (t' : HashTable K V) (b' : Chains K V) : Prop where
  chained : t'.Chained H b'
  buckets : t'.buckets = t.buckets
  size : t'.size = t.size - n
  before : ∀ j < i, b' j = b j
  here : i < t.buckets → b' i = l
  after : ∀ j, i < j → j < t.buckets → b' j = sweep P false (b j)

/-- The loop comes to the end from `it`. -/
def Sweeps (P : K → Bool) (H : Hashing K) (fuel : Nat) (t : HashTable K V) (b : Chains K V) (it : Iterator)
    (i : Nat) (l : List (Nat × Pair K V)) (n : Nat) : Prop :=
  ∃ t' b', eraseLoop P fuel t it = some t' ∧ Swept P H t b i l n t' b'

/-- From each node. -/
def SweepsNodes (P : K → Bool) (H : Hashing K) (V : Type) (fuel : Nat) : Prop :=
  ∀ (t : HashTable K V) (b : Chains K V) (i : Nat) (x : Nat × Pair K V) (prev : Option Nat)
    (pre post : List (Nat × Pair K V)) (stale : Bool), t.Chained H b → i < t.buckets →
    b i = pre ++ x :: post → Prev t b pre stale prev → (x :: (post ++ later t b i)).length ≤ fuel →
    Sweeps P H fuel t b (t.atNode i x prev) i (pre ++ sweep P stale (x :: post))
      (targets P (x :: (post ++ later t b i)))

theorem targets_append (l l' : List (Nat × Pair K V)) : targets P (l ++ l') = targets P l + targets P l' :=
  List.countP_append

/-- Chain `i` has been swept before. -/
theorem Swept.behind {l : List (Nat × Pair K V)} {n : Nat}
    (h : Swept P H t b (i + 1) (sweep P false (b (i + 1))) n t' b') (hl : b i = l) :
    Swept P H t b i l n t' b' := by
  refine ⟨h.chained, h.buckets, h.size, fun j hj => h.before j (by omega), fun _ => ?_, fun j hj hlt => ?_⟩
  · rw [h.before i (Nat.lt_succ_self i), hl]
  · by_cases heq : j = i + 1
    · subst heq
      exact h.here hlt
    · exact h.after j (by omega) hlt

/-- The table before a removal from chain `i`. -/
theorem Swept.trans {t₁ : HashTable K V} {l l₁ : List (Nat × Pair K V)} {n k : Nat}
    (h : Swept P H t₁ (Function.update b i l₁) i l n t' b') (hbuckets : t₁.buckets = t.buckets)
    (hsize : t₁.size = t.size - k) : Swept P H t b i l (k + n) t' b' := by
  refine ⟨h.chained, h.buckets.trans hbuckets, ?_, fun j hj => ?_, fun hi => h.here (hbuckets ▸ hi),
    fun j hj hlt => ?_⟩
  · rw [h.size, hsize, Nat.sub_sub]
  · rw [h.before j hj, Function.update_of_ne (Nat.ne_of_lt hj)]
  · rw [h.after j hj (hbuckets ▸ hlt), Function.update_of_ne (Nat.ne_of_gt hj)]

/-- From the first node behind a chain. -/
theorem Chained.sweeps_scan {fuel : Nat} (ih : SweepsNodes P H V fuel) (h : t.Chained H b) (it : Iterator)
    (harray : it.array = t.array) (hbuckets : it.buckets = t.buckets) (n : Nat) (hn : i + n = t.buckets)
    (hfuel : ((List.range' i n).flatMap b).length ≤ fuel) :
    Sweeps P H fuel t b (it.scan t.table n i) i (sweep P false (b i))
      (targets P ((List.range' i n).flatMap b)) := by
  induction n generalizing i with
  | zero =>
      have hend : it.scan t.table 0 i = t.end_ := by
        rw [Iterator.scan, harray, hbuckets, end_, ← hn]
        rfl
      refine ⟨t, b, ?_, h, rfl, rfl, fun _ _ => rfl, fun hi => absurd hi ?_, fun j hj hlt => absurd hlt ?_⟩
      · rw [hend]
        unfold eraseLoop
        rw [if_pos (by simp [Iterator.eq])]
      · omega
      · omega
  | succ n ihn =>
      have hi : i < t.buckets := by omega
      have hsegment := h.segment i hi
      rw [List.range'_succ, List.flatMap_cons] at hfuel ⊢
      rw [Iterator.scan]
      cases hchain : b i with
      | nil =>
          rw [hchain] at hsegment
          rw [segment_nil.mp hsegment]
          rw [hchain, List.nil_append] at hfuel
          obtain ⟨t', b', hloop, hswept⟩ := ihn (i := i + 1) (by omega) hfuel
          exact ⟨t', b', hloop, hswept.behind hchain⟩
      | cons x post =>
          rw [hchain] at hsegment hfuel
          rw [hsegment.1, harray, hbuckets]
          have hrest : n = t.buckets - (i + 1) := by omega
          subst hrest
          exact ih t b i x none [] post false h hi hchain .live hfuel

/-- From the node behind `x`. -/
theorem Chained.sweeps_next {fuel : Nat} (ih : SweepsNodes P H V fuel) (h : t.Chained H b)
    (hi : i < t.buckets) (prev : Option Nat) {next : Option Nat} {stale : Bool}
    (hcell : t.nodes x.1 = some ⟨x.2, next⟩) (hpost : Segment t.nodes next post none) (hchain : b i = pre ++ post)
    (hprev : Prev t b pre stale (some x.1)) (hfuel : (post ++ later t b i).length ≤ fuel) :
    ∃ it, t.next (t.atNode i x prev) = some it ∧
      Sweeps P H fuel t b it i (pre ++ sweep P stale post) (targets P (post ++ later t b i)) := by
  cases post with
  | nil =>
      cases hpost
      refine ⟨_, next_behind prev hcell, ?_⟩
      obtain ⟨t', b', hloop, hswept⟩ := h.sweeps_scan ih (t.atNode i x prev) rfl rfl
        (t.buckets - (i + 1)) (by omega) hfuel
      refine ⟨t', b', hloop, hswept.behind ?_⟩
      rw [hchain, sweep]
  | cons y post =>
      obtain ⟨rfl, _⟩ := hpost
      exact ⟨_, next_inside prev hcell, ih t b i y (some x.1) pre post stale h hi hchain hprev hfuel⟩

/-- What `erase` leaves of the chain of its node, up to the next one. -/
theorem Chained.unlink_prev (h : t.Chained H b) (hi : i < t.buckets) (hchain : b i = pre ++ x :: post)
    {stale : Bool} {prev : Option Nat} (hprev : Prev t b pre stale prev) (hx : P x.2.first = true) :
    ∃ t₁ pre₁ stale₁, t.unlink (t.atNode i x prev) = some t₁ ∧
      t₁.Chained H (Function.update b i (pre₁ ++ post)) ∧ t₁.size = t.size - 1 ∧
      t₁.buckets = t.buckets ∧ t₁.array = t.array ∧
      (∀ a ∈ addrs (x :: post), t₁.nodes a = t.nodes a) ∧
      Prev t₁ (Function.update b i (pre₁ ++ post)) pre₁ stale₁ (some x.1) ∧
      pre ++ sweep P stale (x :: post) = pre₁ ++ sweep P stale₁ post := by
  have hnodup := h.nodup_chain hi
  rw [hchain, addrs, List.map_append] at hnodup
  cases hprev with
  | live =>
      obtain ⟨t₁, hunlink, hchained, hsize, hbuckets, harray, _, hsame⟩ := h.unlink_spec hi hchain
      have hsame : ∀ a ∈ addrs (x :: post), t₁.nodes a = t.nodes a := fun a ha =>
        hsame a fun ha' => List.disjoint_of_nodup_append hnodup ha' ha
      obtain ⟨next, hcell, _⟩ := h.cell hi hchain
      obtain ⟨_, hold, hnew, _⟩ := nodes_replaced (n := t.buckets) hi hchain
      have hgone : x.1 ∉ addrs (Chains.nodes (Function.update b i (pre ++ post)) t₁.buckets) := by
        rw [hbuckets, (hnew.map Prod.fst).mem_iff]
        exact (List.nodup_cons.mp ((hold.map Prod.fst).nodup_iff.mp h.nodup)).1
      refine ⟨t₁, pre, true, hunlink, hchained, hsize, hbuckets, harray, hsame,
        .gone hgone ((hsame x.1 List.mem_cons_self).trans hcell), ?_⟩
      rw [sweep, if_pos hx, if_neg Bool.false_ne_true]
  | @gone a c ha hgone =>
      -- the write goes to the node that is gone, and the chain keeps `x`
      obtain ⟨next, hcell, _⟩ := h.cell hi hchain
      have hsame : ∀ a' ∈ addrs (b.nodes t.buckets),
          Function.update t.nodes a (some ⟨c.val, next⟩) a' = t.nodes a' := by
        intro a' ha'
        refine Function.update_of_ne ?_ _ _
        rintro rfl
        exact ha ha'
      have hchain₁ : Function.update b i (pre ++ [x] ++ post) = b := by
        rw [List.append_assoc, List.singleton_append, ← hchain, Function.update_eq_self]
      have hmem : ∀ j < t.buckets, ∀ a' ∈ addrs (b j), a' ∈ addrs (b.nodes t.buckets) := fun j hj a' ha' =>
        ((b.sublist_nodes hj).map Prod.fst).subset ha'
      refine ⟨{ t with nodes := Function.update t.nodes a (some ⟨c.val, next⟩), size := t.size - 1 },
        pre ++ [x], false, ?_, ?_, rfl, rfl, rfl, fun a' ha' => hsame a' (hmem i hi a' ?_), ?_, ?_⟩
      · show (t.nodes x.1 >>= _) = _
        rw [hcell]
        show (setNext t.nodes a next >>= _) = _
        rw [setNext, hgone]
        rfl
      · rw [hchain₁]
        exact ⟨fun j hj => (h.segment j hj).congr fun a' ha' => hsame a' (hmem j hj a' ha'), h.nodup, h.fresh,
          h.placed⟩
      · rw [hchain, addrs, List.map_append]
        exact List.mem_append_right _ ha'
      · exact .last
      · rw [sweep, if_pos hx, if_pos rfl, List.append_assoc, List.singleton_append]

/-- The loop from each node, by induction on the number of nodes that it has still to visit. -/
theorem sweepsNodes (P : K → Bool) (H : Hashing K) (V : Type) (fuel : Nat) : SweepsNodes P H V fuel := by
  induction fuel with
  | zero =>
      intro t b i x prev pre post stale _ _ _ _ hfuel
      cases hfuel
  | succ fuel ih =>
      intro t b i x prev pre post stale h hi hchain hprev hfuel
      have hfuel := Nat.succ_le_succ_iff.mp hfuel
      obtain ⟨next, hcell, hrest⟩ := h.cell hi hchain
      have hend : (t.atNode i x prev).eq t.end_ = false := by simp [Iterator.eq, atNode, end_]
      have hderef : t.deref (t.atNode i x prev) = some x.2 := by
        show (t.nodes x.1 >>= _) = _
        rw [hcell]
        rfl
      have htargets : targets P (x :: (post ++ later t b i)) =
          targets P [x] + targets P (post ++ later t b i) := targets_append [x] _
      -- the node is erased, and the sweep goes on behind it with the node before as it was
      by_cases hx : P x.2.first = true
      · obtain ⟨t₁, pre₁, stale₁, hunlink, h₁, hsize, hbuckets, harray, hsame, hprev₁, hsweep⟩ :=
          h.unlink_prev hi hchain hprev hx
        -- the chains of the later buckets are as before
        have hlater : later t₁ (Function.update b i (pre₁ ++ post)) i = later t b i := by
          rw [later, later, hbuckets]
          refine List.flatMap_congr fun j hj => Function.update_of_ne ?_ _ _
          have := (List.mem_range'_1.mp hj).1
          omega
        obtain ⟨it, hnext, t', b', hloop, hswept⟩ := h₁.sweeps_next ih (hbuckets ▸ hi) prev
          ((hsame x.1 List.mem_cons_self).trans hcell)
          (hrest.congr fun a ha => hsame a (List.mem_cons_of_mem _ ha)) (Function.update_self _ _ _) hprev₁
          (hlater ▸ hfuel)
        have hn : targets P [x] = 1 := by rw [targets, List.countP_singleton, if_pos hx]
        refine ⟨t', b', ?_, ?_⟩
        · unfold eraseLoop
          rw [hend, hderef]
          show (if P x.2.first then _ else _) = _
          rw [if_pos hx, erase, hunlink]
          show ((t₁.next _ >>= _) >>= _) = _
          have hpos : t.atNode i x prev = t₁.atNode i x prev := by rw [atNode, atNode, harray, hbuckets]
          rw [hpos, hnext]
          exact hloop
        · rw [hlater] at hswept
          rw [hsweep, htargets, hn]
          exact hswept.trans hbuckets hsize
      · -- the node stays, and is the one before
        have hchain₁ : b i = pre ++ [x] ++ post := by
          rw [hchain, List.append_assoc]
          rfl
        obtain ⟨it, hnext, t', b', hloop, hswept⟩ := h.sweeps_next ih hi prev hcell hrest hchain₁ .last hfuel
        have hn : targets P [x] = 0 := by rw [targets, List.countP_singleton, if_neg hx]
        refine ⟨t', b', ?_, ?_⟩
        · unfold eraseLoop
          rw [hend, hderef]
          show (if P x.2.first then _ else _) = _
          rw [if_neg hx, hnext]
          exact hloop
        · rw [htargets, hn, Nat.zero_add, sweep, if_neg hx]
          rw [List.append_assoc, List.singleton_append] at hswept
          exact hswept

/-! ## The loop over the whole table -/

theorem Chained.eraseWhere_spec (h : t.Chained H b) (P : K → Bool) :
    ∃ t' b', t.eraseWhere P = some t' ∧ t'.Chained H b' ∧ t'.buckets = t.buckets ∧
      t'.size = t.size - targets P (b.nodes t.buckets) ∧ ∀ i < t.buckets, b' i = sweep P false (b i) := by
  have hall : b.nodes t.buckets = (List.range' 0 t.buckets).flatMap b := by
    rw [Chains.nodes, List.range_eq_range']
  obtain ⟨t', b', hloop, hswept⟩ := h.sweeps_scan (sweepsNodes P H V t.fresh) t.end_ rfl rfl t.buckets
    (Nat.zero_add _) (hall ▸ h.length_nodes_le)
  refine ⟨t', b', hloop, hswept.chained, hswept.buckets, ?_, fun i hi => ?_⟩
  · rw [hswept.size, hall]
  · cases i with
    | zero => exact hswept.here hi
    | succ i => exact hswept.after _ (Nat.succ_pos i) hi

/-- What the loop is for: the entries whose key satisfies `P` are gone, the others are still there. -/
structure ErasedWhere [Inhabited V] (H : Hashing K) (P : K → Bool) (t t' : HashTable K V) (ps : List (Pair K V)) :
    Prop where
  visit : ∃ ps', t'.visit = some ps' ∧ ps'.Perm (ps.filter fun p => !P p.first)
  size : t'.size = (ps.filter fun p => !P p.first).length
  find : ∀ p ∈ ps, (t'.run H (.find p.first)).map Prod.snd =
    some (.found (if P p.first then none else some p.second))

theorem Rep.erasedWhere [Inhabited V] (hH : H.Lawful) (h : t.Rep H b) (h' : t'.Rep H b')
    (hnodes : b'.nodes t'.buckets = (b.nodes t.buckets).filter fun x => !P x.2.first) :
    ErasedWhere H P t t' ((b.nodes t.buckets).map Prod.snd) := by
  have hfilter : ((b.nodes t.buckets).map Prod.snd).filter (fun p => !P p.first) =
      (b'.nodes t'.buckets).map Prod.snd := by
    rw [hnodes, List.filter_map]
    rfl
  refine ⟨⟨_, h'.visit_spec, ?_⟩, ?_, fun p hp => ?_⟩
  · rw [hfilter]
  · rw [hfilter, h'.size, List.length_map]
  · obtain ⟨x, hx, rfl⟩ := List.mem_map.mp hp
    have hmem : ∀ y, y ∈ b'.nodes t'.buckets ↔ y ∈ b.nodes t.buckets ∧ P y.2.first = false := by simp [hnodes]
    rcases h'.run_find hH x.2.first with ⟨y, hy, heq, hrun⟩ | ⟨hnone, hrun⟩
    · obtain ⟨hy, hkept⟩ := (hmem y).mp hy
      have hxy := h.unique hH hy hx heq
      rw [hrun, ← hxy, hkept]
      rfl
    · rw [hrun]
      by_cases hP : P x.2.first = true
      · rw [if_pos hP]
        rfl
      · have hfound := hnone x ((hmem x).mpr ⟨hx, by simpa using hP⟩)
        rw [hH.refl] at hfound
        cases hfound

/-- The loop erases the entries whose key satisfies `P`, and only these, if and only if no two of them are
neighbours in a chain. -/
theorem eraseWhere_iff [Inhabited V] (hH : H.Lawful) (h : t.Rep H b) (P : K → Bool) :
    ∃ t' ps, t.eraseWhere P = some t' ∧ t.visit = some ps ∧
      (ErasedWhere H P t t' ps ↔ ∀ i < t.buckets, Apart P (b i)) := by
  obtain ⟨t', b', hloop, hchained, hbuckets, hsize, hswept⟩ := h.eraseWhere_spec P
  refine ⟨t', _, hloop, h.visit_spec, fun herased i hi => apart_of_sweep fun x hx => ?_, fun hapart => ?_⟩
  · -- what stays of the chain is visited
    obtain ⟨ps', hvisit, hperm⟩ := herased.visit
    have hmem : x.2 ∈ ps' := by
      rw [← Option.some_inj.mp (hchained.visit_spec.symm.trans hvisit)]
      refine List.mem_map_of_mem (Chains.mem_nodes.mpr ⟨i, hbuckets ▸ hi, ?_⟩)
      rw [hswept i hi]
      exact hx
    simpa using (List.mem_filter.mp (hperm.mem_iff.mp hmem)).2
  · have hnodes : b'.nodes t'.buckets = (b.nodes t.buckets).filter fun x => !P x.2.first := by
      rw [hbuckets, Chains.nodes, Chains.nodes, List.filter_flatMap]
      refine List.flatMap_congr fun i hi => ?_
      rw [hswept i (List.mem_range.mp hi), sweep_of_apart (hapart i (List.mem_range.mp hi))]
    refine h.erasedWhere hH ⟨hchained, ?_, ?_, hbuckets ▸ h.buckets⟩ hnodes
    · rw [hnodes]
      exact h.distinct.filter _
    · have hcount := List.length_eq_countP_add_countP (fun x : Nat × Pair K V => P x.2.first)
        (l := b.nodes t.buckets)
      rw [hsize, hnodes, h.size, hcount, targets, Nat.add_sub_cancel_left, List.countP_eq_length_filter]
      congr 2
      funext x
      simp

/-- A table with two entries in one chain. -/
def neighbours : HashTable Nat Nat where
  nodes a := if a = 0 then some ⟨⟨4, 10⟩, some 1⟩ else if a = 1 then some ⟨⟨8, 20⟩, none⟩ else none
  fresh := 2
  array := 0
  table i := if i = 0 then some 0 else none
  size := 2
  buckets := 4
  threshold := 3

theorem neighbours_rep :
    neighbours.Rep Hashing.default fun i => if i = 0 then [(0, ⟨4, 10⟩), (1, ⟨8, 20⟩)] else [] where
  segment i hi := by
    by_cases hzero : i = 0
    · subst hzero
      exact ⟨rfl, some 1, rfl, rfl, none, rfl, rfl⟩
    · rw [if_neg hzero]
      exact if_neg hzero
  nodup := by decide
  fresh := by decide
  placed i hi x hx := by
    by_cases hzero : i = 0
    · subst hzero
      revert x
      decide
    · dsimp only at hx
      rw [if_neg hzero] at hx
      cases hx
  distinct := by decide
  size := rfl
  buckets := by decide

/-- `eraseWhere_iff` on two neighbours of which one is erased. -/
theorem eraseWhere_iff_neighbours : ∃ t', neighbours.eraseWhere (fun key => key == 4) = some t' ∧
    ErasedWhere Hashing.default (fun key => key == 4) neighbours t' [⟨4, 10⟩, ⟨8, 20⟩] := by
  obtain ⟨t', ps, hloop, hvisit, hiff⟩ :=
    eraseWhere_iff Hashing.default_lawful neighbours_rep fun key => key == 4
  have hps : neighbours.visit = some [⟨4, 10⟩, ⟨8, 20⟩] := by decide
  rw [hps] at hvisit
  cases hvisit
  refine ⟨t', hloop, hiff.mpr fun i hi => ?_⟩
  by_cases hzero : i = 0
  · subst hzero
    exact List.isChain_cons_cons.mpr ⟨by decide, .singleton _⟩
  · rw [if_neg hzero]
    exact .nil

/-- Two neighbours are erased: the second one stays, in a table of size 0. -/
theorem eraseWhere_neighbours_stay : ∃ ts t', HashTable.runSteps Hashing.default
      (fun _ => (new 4 : HashTable Nat Nat)) [.on 0 (.set 4 10), .on 0 (.set 8 20)] = some (ts, [.done, .done]) ∧
    (ts 0).visit = some [⟨4, 10⟩, ⟨8, 20⟩] ∧ (ts 0).eraseWhere (fun _ => true) = some t' ∧
    t'.size = 0 ∧ t'.visit = some [⟨8, 20⟩] ∧
    ¬ ErasedWhere Hashing.default (fun _ => true) (ts 0) t' [⟨4, 10⟩, ⟨8, 20⟩] := by
  have hrun : (HashTable.runSteps Hashing.default (fun _ => (new 4 : HashTable Nat Nat))
      [.on 0 (.set 4 10), .on 0 (.set 8 20)]).bind (fun x => ((x.1 0).eraseWhere fun _ => true).map
      fun t' => ((x.2, t'.size), (x.1 0).visit, t'.visit)) =
    some (([.done, .done], 0), some [⟨4, 10⟩, ⟨8, 20⟩], some [⟨8, 20⟩]) := by decide +kernel
  obtain ⟨⟨ts, rs⟩, hsteps, hloop⟩ := Option.bind_eq_some_iff.mp hrun
  obtain ⟨t', hloop, heq⟩ := Option.map_eq_some_iff.mp hloop
  simp only [Prod.mk.injEq] at heq
  obtain ⟨⟨rfl, hsize⟩, hvisit, hvisit'⟩ := heq
  refine ⟨ts, t', hsteps, hvisit, hloop, hsize, hvisit', fun herased => ?_⟩
  obtain ⟨ps', hps', hperm⟩ := herased.visit
  rw [hvisit'] at hps'
  cases hps'
  exact absurd hperm.length_eq (by decide)

end HashTable

end Cxlmc
