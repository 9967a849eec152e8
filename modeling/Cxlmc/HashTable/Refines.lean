import Cxlmc.HashTable.Iteration
import Mathlib.Data.Finmap

/-!
# A hash table is a finite map

The maps are on keys up to `_equals`. `FiniteMap.run` and `FiniteMap.runStep` say what the operations of a
table and the steps of a program mean for them, and `hashTable_refines` that the tables do the same: `Holds`
is what can be seen of a table that holds a map.
-/

namespace Cxlmc

open Linked HashTable

/-! ## Finite maps -/

namespace Hashing

variable {K : Type} {H : Hashing K}

def Lawful.setoid (hH : H.Lawful) : Setoid K where
  r x y := H.equals x y = true
  iseqv := ⟨hH.refl, hH.symm, hH.trans⟩

/-- The keys up to `_equals`. -/
def Lawful.Key (hH : H.Lawful) : Type := Quotient hH.setoid

def Lawful.key (hH : H.Lawful) (x : K) : hH.Key := Quotient.mk hH.setoid x

theorem Lawful.key_eq (hH : H.Lawful) {x y : K} : hH.key x = hH.key y ↔ H.equals x y = true :=
  Quotient.eq (r := hH.setoid)

theorem Lawful.key_ne (hH : H.Lawful) {x y : K} : hH.key x ≠ hH.key y ↔ H.equals x y = false := by
  rw [ne_eq, hH.key_eq, Bool.not_eq_true]

instance (hH : H.Lawful) : DecidableEq hH.Key :=
  @Quotient.decidableEq K hH.setoid fun x y => inferInstanceAs (Decidable (H.equals x y = true))

end Hashing

variable {K V : Type} {H : Hashing K}

/-- The abstract map of a table. -/
abbrev FiniteMap (V : Type) (hH : H.Lawful) : Type := Finmap fun _ : hH.Key => V

namespace FiniteMap

variable {hH : H.Lawful}

/-- `q` gets the value `v`, unless it has one. -/
def insertNew (m : FiniteMap V hH) (q : hH.Key) (v : V) : FiniteMap V hH :=
  if q ∈ m then m else m.insert q v

/-- What a use of a table means; `none` where it is not defined. -/
def run [Inhabited V] (m : FiniteMap V hH) : Command K V → Option (FiniteMap V hH × Result V)
  | .get k => some (m.insertNew (hH.key k) default, .value ((m.lookup (hH.key k)).getD default))
  | .set k v => some (m.insert (hH.key k) v, .done)
  | .at_ k => (m.lookup (hH.key k)).map fun v => (m, .value v)
  | .emplace k v | .tryEmplace k v =>
      some (m.insertNew (hH.key k) v, .emplaced ((m.lookup (hH.key k)).getD v) (decide (hH.key k ∉ m)))
  | .tryEmplaceKey k =>
      some (m.insertNew (hH.key k) default,
        .emplaced ((m.lookup (hH.key k)).getD default) (decide (hH.key k ∉ m)))
  | .find k => some (m, .found (m.lookup (hH.key k)))
  | .erase k => if hH.key k ∈ m then some (m.erase (hH.key k), .done) else none
  | .clear => some (∅, .done)

/-- What a step means for the maps of the tables. -/
def runStep [Inhabited V] (ms : Nat → FiniteMap V hH) :
    Step K V → Option ((Nat → FiniteMap V hH) × Result V)
  | .on i c => ((ms i).run c).map fun x => (Function.update ms i x.1, x.2)
  | .copy dst src | .assign dst src => some (Function.update ms dst (ms src), .done)

def runSteps [Inhabited V] (ms : Nat → FiniteMap V hH) :
    List (Step K V) → Option ((Nat → FiniteMap V hH) × List (Result V))
  | [] => some (ms, [])
  | c :: cs => do
      let (ms, r) ← runStep ms c
      let (ms, rs) ← runSteps ms cs
      return (ms, r :: rs)

end FiniteMap

/-! ## Which nodes list a map -/

/-- The bindings of the map are the pairs of the nodes. -/
def Lists (hH : H.Lawful) (l : List (Nat × Pair K V)) (m : FiniteMap V hH) : Prop :=
  ∀ q v, m.lookup q = some v ↔ ∃ x ∈ l, hH.key x.2.first = q ∧ x.2.second = v

namespace Lists

variable {hH : H.Lawful} {l l' : List (Nat × Pair K V)} {m : FiniteMap V hH} {x : Nat × Pair K V} {k : K}

theorem nil : Lists hH ([] : List (Nat × Pair K V)) ∅ := by
  intro q v
  simp

theorem perm (h : Lists hH l m) (hperm : l.Perm l') : Lists hH l' m := by
  intro q v
  rw [h q v]
  simp only [hperm.mem_iff]

theorem lookup_eq (h : Lists hH l m) (hx : x ∈ l) (heq : H.equals x.2.first k = true) :
    m.lookup (hH.key k) = some x.2.second :=
  (h _ _).mpr ⟨x, hx, hH.key_eq.mpr heq, rfl⟩

theorem lookup_none (h : Lists hH l m) (hnone : ∀ x ∈ l, H.equals x.2.first k = false) :
    m.lookup (hH.key k) = none := by
  by_contra hne
  obtain ⟨v, hv⟩ := Option.ne_none_iff_exists'.mp hne
  obtain ⟨x, hx, heq, _⟩ := (h _ _).mp hv
  exact hH.key_ne.mpr (hnone x hx) heq

theorem not_mem (h : Lists hH l m) (hnone : ∀ x ∈ l, H.equals x.2.first k = false) : hH.key k ∉ m :=
  Finmap.lookup_eq_none.mp (h.lookup_none hnone)

theorem mem (h : Lists hH l m) (hx : x ∈ l) (heq : H.equals x.2.first k = true) : hH.key k ∈ m :=
  Finmap.mem_of_lookup_eq_some (h.lookup_eq hx heq)

/-- A node more, with a key that is not there. -/
theorem insert (h : Lists hH l m) (hnone : ∀ y ∈ l, H.equals y.2.first x.2.first = false) :
    Lists hH (x :: l) (m.insert (hH.key x.2.first) x.2.second) := by
  intro q v
  simp only [List.mem_cons, exists_eq_or_imp]
  by_cases hq : hH.key x.2.first = q
  · subst hq
    rw [Finmap.lookup_insert]
    constructor
    · rintro heq
      exact .inl ⟨rfl, Option.some.inj heq⟩
    · rintro (⟨_, rfl⟩ | ⟨y, hy, heq, _⟩)
      · rfl
      · exact absurd heq (hH.key_ne.mpr (hnone y hy))
  · rw [Finmap.lookup_insert_of_ne _ (Ne.symm hq), h q v]
    constructor
    · exact .inr
    · rintro (⟨heq, _⟩ | h)
      · exact absurd heq hq
      · exact h

/-- The node of a key is gone. -/
theorem erase (h : Lists hH (x :: l) m) (hnone : ∀ y ∈ l, H.equals x.2.first y.2.first = false) :
    Lists hH l (m.erase (hH.key x.2.first)) := by
  intro q v
  by_cases hq : hH.key x.2.first = q
  · subst hq
    rw [Finmap.lookup_erase]
    constructor
    · intro heq
      cases heq
    · rintro ⟨y, hy, heq, _⟩
      exact absurd heq.symm (hH.key_ne.mpr (hnone y hy))
  · rw [Finmap.lookup_erase_ne (Ne.symm hq), h q v]
    simp only [List.mem_cons, exists_eq_or_imp]
    constructor
    · rintro (⟨heq, _⟩ | h)
      · exact absurd heq hq
      · exact h
    · exact .inr

/-- The node of a key has another value. -/
theorem replace (h : Lists hH (x :: l) m) (hnone : ∀ y ∈ l, H.equals x.2.first y.2.first = false) (a : Nat)
    (v : V) : Lists hH ((a, ⟨x.2.first, v⟩) :: l) (m.insert (hH.key x.2.first) v) := by
  have hinsert := (h.erase hnone).insert (x := (a, ⟨x.2.first, v⟩))
    fun y hy => hH.symm_false (hnone y hy)
  have heq : (m.erase (hH.key x.2.first)).insert (hH.key x.2.first) v =
      m.insert (hH.key x.2.first) v := by
    refine Finmap.ext_lookup fun q => ?_
    by_cases hq : q = hH.key x.2.first
    · rw [hq, Finmap.lookup_insert, Finmap.lookup_insert]
    · rw [Finmap.lookup_insert_of_ne _ hq, Finmap.lookup_insert_of_ne _ hq, Finmap.lookup_erase_ne hq]
  rwa [heq] at hinsert

/-- A binding of the map. -/
def binding (hH : H.Lawful) (p : Pair K V) : Sigma fun _ : hH.Key => V := ⟨hH.key p.first, p.second⟩

/-- The pairs of the nodes are the bindings of the map, each of them once. -/
theorem entries_eq (h : Lists hH l m)
    (hdistinct : l.Pairwise fun x y => H.equals x.2.first y.2.first = false) :
    m.entries = ((l.map Prod.snd).map (binding hH) : List (Sigma fun _ : hH.Key => V)) := by
  have hnodup : ((l.map Prod.snd).map (binding hH)).NodupKeys := by
    rw [List.nodupKeys_iff_pairwise, List.pairwise_map, List.pairwise_map]
    exact hdistinct.imp fun hxy => hH.key_ne.mpr hxy
  have heq : m = AList.toFinmap ⟨(l.map Prod.snd).map (binding hH), hnodup⟩ := by
    refine Finmap.ext_lookup fun q => Option.ext fun v => ?_
    rw [h q v, Finmap.lookup_toFinmap, ← Option.mem_def, AList.mem_lookup_iff]
    constructor
    · rintro ⟨x, hx, rfl, rfl⟩
      exact List.mem_map_of_mem (List.mem_map_of_mem hx)
    · intro hmem
      obtain ⟨p, hp, heq⟩ := List.mem_map.mp hmem
      obtain ⟨x, hx, rfl⟩ := List.mem_map.mp hp
      cases heq
      exact ⟨x, hx, rfl, rfl⟩
  rw [heq]
  rfl

end Lists

/-! ## The operations -/

section

variable {hH : H.Lawful} {t t' : HashTable K V} {b c : Chains K V} {m : FiniteMap V hH} {k : K} {v : V}

/-- The table holds the map. -/
def Models (hH : H.Lawful) (t : HashTable K V) (m : FiniteMap V hH) : Prop :=
  ∃ b, t.Rep H b ∧ Lists hH (b.nodes t.buckets) m

theorem HashTable.Emplaced.lists {i : Nat} {pre post : List (Nat × Pair K V)} {x : Nat × Pair K V}
    {inserted : Bool} (h : Emplaced H t b k v t' c i pre post x inserted)
    (hm : Lists hH (b.nodes t.buckets) m) :
    Lists hH (c.nodes t'.buckets) (m.insertNew (hH.key k) v) ∧
      x.2.second = (m.lookup (hH.key k)).getD v ∧ inserted = decide (hH.key k ∉ m) := by
  have hx := Chained.mem_nodes h.index h.chain
  rcases h.nodes with ⟨rfl, hperm⟩ | ⟨rfl, hpair, hperm, hnone⟩
  · have hm' := hm.perm hperm.symm
    have hmem := hm'.mem hx h.equals
    rw [FiniteMap.insertNew, if_pos hmem, hm'.lookup_eq hx h.equals]
    exact ⟨hm', rfl, by simp [hmem]⟩
  · have hmem := hm.not_mem hnone
    rw [FiniteMap.insertNew, if_neg hmem, hm.lookup_none hnone]
    refine ⟨?_, by rw [hpair]; rfl, by simp [hmem]⟩
    have hinsert := hm.insert (x := x) (by rw [hpair]; exact hnone)
    rw [hpair] at hinsert
    exact hinsert.perm hperm.symm

theorem Models.assignSecond [Inhabited V] (h : Models hH t m) (k : K) (v : V) :
    ∃ t', t.assignSecond H k v = some t' ∧ Models hH t' (m.insert (hH.key k) v) := by
  obtain ⟨b, hb, hm⟩ := h
  obtain ⟨t₁, c, i, pre, post, x, inserted, hsubscript, hspec⟩ := hb.subscript_spec hH k
  obtain ⟨hlists, _, _⟩ := hspec.lists hm
  obtain ⟨t', hset, hbuckets, hrep⟩ := hspec.rep.setSecond_spec hH hspec.index hspec.chain v
  refine ⟨t', ?_, _, hrep, ?_⟩
  · rw [HashTable.assignSecond, hsubscript]
    exact hset
  · obtain ⟨rest, hold, _, hnew⟩ := nodes_replaced (n := t₁.buckets) hspec.index hspec.chain
    have hdistinct := (hold.pairwise_iff fun hxy => hH.symm_false hxy).mp hspec.rep.distinct
    have hreplace := (hlists.perm hold).replace (List.pairwise_cons.mp hdistinct).1 x.1 v
    rw [hH.key_eq.mpr hspec.equals] at hreplace
    rw [hbuckets]
    convert hreplace.perm (hnew _).symm using 1
    refine Finmap.ext_lookup fun q => ?_
    by_cases hq : q = hH.key k
    · rw [hq, Finmap.lookup_insert, Finmap.lookup_insert]
    · rw [Finmap.lookup_insert_of_ne _ hq, Finmap.lookup_insert_of_ne _ hq, FiniteMap.insertNew]
      split
      · rfl
      · rw [Finmap.lookup_insert_of_ne _ hq]

theorem Lists.unique {l : List (Nat × Pair K V)} {m' : FiniteMap V hH} (h : Lists hH l m)
    (h' : Lists hH l m') : m = m' :=
  Finmap.ext_lookup fun q => Option.ext fun v => by rw [h q v, h' q v]

/-- The loop of a copy: the pairs of `l` are inserted into a table that has none of their keys. -/
theorem Models.assignAll [Inhabited V] {l l₀ : List (Nat × Pair K V)} (h : Models hH t m)
    (hm : Lists hH l₀ m)
    (hdistinct : (l.reverse ++ l₀).Pairwise fun x y => H.equals x.2.first y.2.first = false) :
    ∃ t' m', l.foldlM (fun t x => t.assignSecond H x.2.first x.2.second) t = some t' ∧
      Models hH t' m' ∧ Lists hH (l.reverse ++ l₀) m' := by
  induction l generalizing t m l₀ with
  | nil => exact ⟨t, m, rfl, h, hm⟩
  | cons x l ih =>
      rw [List.reverse_cons, List.append_assoc, List.singleton_append] at hdistinct ⊢
      obtain ⟨hx, _⟩ := List.pairwise_cons.mp (List.pairwise_append.mp hdistinct).2.1
      obtain ⟨t₁, hassign, h₁⟩ := h.assignSecond x.2.first x.2.second
      have hm₁ := hm.insert fun y hy => hH.symm_false (hx y hy)
      obtain ⟨t', m', hloop, hmodels, hlists⟩ := ih h₁ hm₁ hdistinct
      refine ⟨t', m', ?_, hmodels, hlists⟩
      rw [List.foldlM_cons, hassign]
      exact hloop

/-- A copy into a table without entries. -/
theorem Models.copyLoop [Inhabited V] {src : HashTable K V} (h : Models hH src m)
    (ht : Models hH t ∅) :
    ∃ t', copyLoop H src src.fresh src.begin_ t = some t' ∧ Models hH t' m := by
  obtain ⟨b, hb, hm⟩ := h
  have hperm := List.reverse_perm (b.nodes src.buckets)
  obtain ⟨t', m', hloop, hmodels, hlists⟩ := ht.assignAll (l := b.nodes src.buckets) .nil (by
    rw [List.append_nil]
    exact (hperm.pairwise_iff fun hxy => hH.symm_false hxy).mpr hb.distinct)
  rw [List.append_nil] at hlists
  refine ⟨t', ?_, (hlists.perm hperm).unique hm ▸ hmodels⟩
  rw [hb.copyLoop_spec hb.begin_remains hb.length_nodes_le]
  exact hloop

/-- An `emplace` and its result. -/
theorem Models.emplaced (h : Models hH t m) (k : K) (v : V) :
    ∃ t', (t.emplace H k v >>= HashTable.emplaced) = some (t',
        .emplaced ((m.lookup (hH.key k)).getD v) (decide (hH.key k ∉ m))) ∧
      Models hH t' (m.insertNew (hH.key k) v) := by
  obtain ⟨b, hb, hm⟩ := h
  obtain ⟨t', c, i, pre, post, x, inserted, hemplace, hspec⟩ := hb.emplace_spec hH k v
  obtain ⟨hlists, hvalue, hinserted⟩ := hspec.lists hm
  obtain ⟨next, hcell, _⟩ := hspec.rep.cell hspec.index hspec.chain
  refine ⟨t', ?_, c, hspec.rep, hlists⟩
  rw [hemplace, ← hvalue, ← hinserted]
  show ((t'.nodes x.1 >>= _) >>= _) = _
  rw [hcell]
  rfl

theorem Lists.equals_false {l : List (Nat × Pair K V)} (h : Lists hH l m) (hk : m.lookup (hH.key k) = none) :
    ∀ x ∈ l, H.equals x.2.first k = false := by
  intro x hx
  by_contra hne
  rw [h.lookup_eq hx (by simpa using hne)] at hk
  cases hk

/-- `find`, `emplace` and `at` on a table that holds a map. -/
theorem Models.find_some (h : Models hH t m) (hk : m.lookup (hH.key k) = some v) :
    ∃ it p, t.find H k = some it ∧ it.eq t.end_ = false ∧ t.deref it = some p ∧ p.second = v := by
  obtain ⟨b, hb, hm⟩ := h
  rcases hb.find_spec hH k with ⟨i, pre, x, post, hi, hchain, hx, hfind⟩ | ⟨hnone, _⟩
  · obtain ⟨next, hcell, _⟩ := hb.cell hi hchain
    refine ⟨_, x.2, hfind, by simp [Iterator.eq, atNode, end_], ?_, ?_⟩
    · show (t.nodes x.1 >>= _) = _
      rw [hcell]
      rfl
    · rw [hm.lookup_eq (Chained.mem_nodes hi hchain) hx] at hk
      exact Option.some_inj.mp hk
  · rw [hm.lookup_none hnone] at hk
    cases hk

theorem Models.find_none (h : Models hH t m) (hk : m.lookup (hH.key k) = none) :
    t.find H k = some t.end_ := by
  obtain ⟨b, hb, hm⟩ := h
  rcases hb.find_spec hH k with ⟨i, pre, x, post, hi, hchain, hx, _⟩ | ⟨_, hfind⟩
  · rw [hm.lookup_eq (Chained.mem_nodes hi hchain) hx] at hk
    cases hk
  · exact hfind

theorem Models.emplace (h : Models hH t m) (k : K) (v : V) :
    ∃ t' x, t.emplace H k v = some (t', x) ∧ Models hH t' (m.insertNew (hH.key k) v) := by
  obtain ⟨b, hb, hm⟩ := h
  obtain ⟨t', c, i, pre, post, x, inserted, hemplace, hspec⟩ := hb.emplace_spec hH k v
  exact ⟨t', _, hemplace, c, hspec.rep, (hspec.lists hm).1⟩

theorem Models.at_some (h : Models hH t m) (hk : m.lookup (hH.key k) = some v) :
    ∃ t', t.at_ H k = some (t', v) ∧ Models hH t' m := by
  obtain ⟨b, hb, hm⟩ := h
  obtain ⟨x, hx, hkey, rfl⟩ := (hm _ _).mp hk
  obtain ⟨t', c, hat, hc, hperm⟩ := hb.at_spec hH hx (hH.key_eq.mp hkey)
  exact ⟨t', hat, c, hc, hm.perm hperm.symm⟩

theorem Models.at_none (h : Models hH t m) (hk : m.lookup (hH.key k) = none) : t.at_ H k = none := by
  obtain ⟨b, hb, hm⟩ := h
  exact hb.at_none hH (hm.equals_false hk)

/-- A use of a table that holds a map does to the table what it means for the map. -/
theorem Models.run [Inhabited V] (h : Models hH t m) (c : Command K V) {m' : FiniteMap V hH} {r : Result V}
    (hspec : m.run c = some (m', r)) : ∃ t', t.run H c = some (t', r) ∧ Models hH t' m' := by
  cases c with
  | get k =>
      cases hspec
      obtain ⟨b, hb, hm⟩ := h
      obtain ⟨t', c, i, pre, post, x, inserted, hsubscript, hspec⟩ := hb.subscript_spec hH k
      obtain ⟨hlists, hvalue, _⟩ := hspec.lists hm
      obtain ⟨next, hcell, _⟩ := hspec.rep.cell hspec.index hspec.chain
      refine ⟨t', ?_, c, hspec.rep, hlists⟩
      rw [HashTable.run, hsubscript, ← hvalue]
      show (t'.nodes x.1 >>= _) = _
      rw [hcell]
      rfl
  | set k v =>
      cases hspec
      obtain ⟨t', hassign, hmodels⟩ := h.assignSecond k v
      refine ⟨t', ?_, hmodels⟩
      rw [HashTable.run, hassign]
      rfl
  | at_ k =>
      obtain ⟨v, hv, heq⟩ := Option.map_eq_some_iff.mp hspec
      cases heq
      obtain ⟨t', hat, hmodels⟩ := h.at_some hv
      refine ⟨t', ?_, hmodels⟩
      rw [HashTable.run, hat]
      rfl
  | emplace k v =>
      cases hspec
      exact h.emplaced k v
  | tryEmplace k v =>
      cases hspec
      exact h.emplaced k v
  | tryEmplaceKey k =>
      cases hspec
      exact h.emplaced k default
  | find k =>
      cases hspec
      obtain ⟨b, hb, hm⟩ := h
      refine ⟨t, ?_, b, hb, hm⟩
      rcases hb.run_find hH k with ⟨x, hmem, hx, hrun⟩ | ⟨hnone, hrun⟩
      · rw [hm.lookup_eq hmem hx]
        exact hrun
      · rw [hm.lookup_none hnone]
        exact hrun
  | erase k =>
      rw [FiniteMap.run] at hspec
      split at hspec
      · next hmem =>
          cases hspec
          obtain ⟨b, hb, hm⟩ := h
          rcases hb.find_spec hH k with ⟨i, pre, x, post, hi, hchain, hx, hfind⟩ | ⟨hnone, _⟩
          · obtain ⟨t', it', herase, hbuckets, hrep⟩ := hb.erase_spec hH hi hchain
            obtain ⟨rest, hold, hnew, _⟩ := nodes_replaced (n := t.buckets) hi hchain
            have hdistinct := (hold.pairwise_iff fun hxy => hH.symm_false hxy).mp hb.distinct
            have hlists := (hm.perm hold).erase (List.pairwise_cons.mp hdistinct).1
            rw [hH.key_eq.mpr hx] at hlists
            refine ⟨t', ?_, _, hrep, ?_⟩
            · rw [HashTable.run, hfind]
              show (t.erase _ >>= _) = _
              rw [herase]
              rfl
            · rw [hbuckets]
              exact hlists.perm hnew.symm
          · exact absurd hmem (hm.not_mem hnone)
      · cases hspec
  | clear =>
      cases hspec
      obtain ⟨b, hb, _⟩ := h
      obtain ⟨t', hclear, hbuckets, hrep⟩ := hb.clear_spec
      refine ⟨t', ?_, _, hrep, ?_⟩
      · rw [HashTable.run, hclear]
        rfl
      · rw [Chains.nodes_empty]
        exact .nil

/-! ## Programs -/

theorem models_empty (htable : ∀ i < t.buckets, t.table i = none) (hsize : t.size = 0)
    (hn : 0 < t.buckets) : Models hH t ∅ := by
  refine ⟨_, rep_empty htable hsize hn, ?_⟩
  rw [Chains.nodes_empty]
  exact .nil

theorem Models.runStep [Inhabited V] {ts : Tables K V} {ms ms' : Nat → FiniteMap V hH} {r : Result V}
    (h : ∀ i, Models hH (ts i) (ms i)) (c : Step K V) (hself : ∀ i, c ≠ .assign i i)
    (hspec : FiniteMap.runStep ms c = some (ms', r)) :
    ∃ ts', HashTable.runStep H ts c = some (ts', r) ∧ ∀ i, Models hH (ts' i) (ms' i) := by
  have hupdate : ∀ {dst : Nat} {t' : HashTable K V} {m' : FiniteMap V hH}, Models hH t' m' →
      ∀ i, Models hH (Function.update ts dst t' i) (Function.update ms dst m' i) := by
    intro dst t' m' hmodels i
    rw [Function.update_apply, Function.update_apply]
    split
    · exact hmodels
    · exact h i
  cases c with
  | on i c =>
      obtain ⟨⟨m', r'⟩, hc, heq⟩ := Option.map_eq_some_iff.mp hspec
      cases heq
      obtain ⟨t', hrun, hmodels⟩ := (h i).run c hc
      refine ⟨_, ?_, hupdate hmodels⟩
      rw [HashTable.runStep, hrun]
      rfl
  | copy dst src =>
      cases hspec
      obtain ⟨b, hb, _⟩ := h src
      obtain ⟨t', hcopy, hmodels⟩ := (h src).copyLoop
        (models_empty (t := like (ts src)) (fun _ _ => rfl) rfl hb.buckets)
      refine ⟨_, ?_, hupdate hmodels⟩
      rw [HashTable.runStep, HashTable.copy, hcopy]
      rfl
  | assign dst src =>
      cases hspec
      -- the table that is read is not the one that has been cleared
      have hne : src ≠ dst := by
        rintro rfl
        exact hself src rfl
      obtain ⟨b, hb, _⟩ := h dst
      obtain ⟨bsrc, hbsrc, _⟩ := h src
      obtain ⟨cleared, hclear, _, hrep⟩ := hb.clear_spec
      have hsize : cleared.size = 0 := by
        rw [hrep.size, Chains.nodes_empty]
        rfl
      obtain ⟨t', hcopy, hmodels⟩ := (h src).copyLoop (models_empty (t := { cleared with
        buckets := (ts src).buckets
        threshold := (ts src).threshold
        array := cleared.array + 1
        table := fun _ => none }) (fun _ _ => rfl) hsize hbsrc.buckets)
      refine ⟨Function.update ts dst t', ?_, hupdate hmodels⟩
      rw [HashTable.runStep, HashTable.assign, hclear]
      dsimp only [Option.bind_eq_bind, Option.bind_some]
      rw [Function.update_of_ne hne, Function.update_of_ne hne, Function.update_self, hcopy]
      dsimp only [Option.bind_some]
      rw [Function.update_idem]
      rfl

theorem Models.runSteps [Inhabited V] {ts : Tables K V} {ms ms' : Nat → FiniteMap V hH}
    {rs : List (Result V)} (h : ∀ i, Models hH (ts i) (ms i)) (cs : List (Step K V))
    (hself : ∀ i, .assign i i ∉ cs) (hspec : FiniteMap.runSteps ms cs = some (ms', rs)) :
    ∃ ts', HashTable.runSteps H ts cs = some (ts', rs) ∧ ∀ i, Models hH (ts' i) (ms' i) := by
  induction cs generalizing ts ms rs with
  | nil =>
      cases hspec
      exact ⟨ts, rfl, h⟩
  | cons c cs ih =>
      obtain ⟨⟨ms₁, r⟩, hstep, hbind⟩ := Option.bind_eq_some_iff.mp hspec
      obtain ⟨⟨ms₂, rs₁⟩, hrest, heq⟩ := Option.bind_eq_some_iff.mp hbind
      cases heq
      obtain ⟨ts₁, hrun, h₁⟩ := Models.runStep h c
        (fun i heq => hself i (heq ▸ List.mem_cons_self)) hstep
      obtain ⟨ts₂, hruns, h₂⟩ := ih h₁ (fun i hmem => hself i (List.mem_cons_of_mem _ hmem)) hrest
      refine ⟨ts₂, ?_, h₂⟩
      rw [HashTable.runSteps, hrun]
      show (HashTable.runSteps H ts₁ cs >>= _) = _
      rw [hruns]
      rfl

/-- What can be seen of a table that holds the map: what `find` finds, `size()`, that each key is in the
bucket that its hash selects, and what a loop from `begin()` to `end()` visits. -/
structure Holds [Inhabited V] (hH : H.Lawful) (t : HashTable K V) (m : FiniteMap V hH) : Prop where
  find : ∀ k, (t.run H (.find k)).map Prod.snd = some (.found (m.lookup (hH.key k)))
  size : t.size = m.keys.card
  bucket : ∀ i < t.buckets, ∃ l, Segment t.nodes (t.table i) l none ∧
    ∀ x ∈ l, H.hash x.2.first % t.buckets = i
  visit : ∃ ps, t.visit = some ps ∧
    (ps.map (Lists.binding hH) : Multiset (Sigma fun _ : hH.Key => V)) = m.entries

theorem Models.holds [Inhabited V] (h : Models hH t m) : Holds hH t m := by
  obtain ⟨b, hb, hm⟩ := h
  have hentries := hm.entries_eq hb.distinct
  refine ⟨fun k => ?_, ?_, fun i hi => ⟨b i, hb.segment i hi, hb.placed i hi⟩, _, hb.visit_spec,
    hentries.symm⟩
  · obtain ⟨t', hrun, _⟩ := Models.run ⟨b, hb, hm⟩ (.find k) rfl
    rw [hrun]
    rfl
  · have hcard : m.keys.card = m.entries.card := Multiset.card_map _ _
    rw [hcard, hentries, Multiset.coe_card, List.length_map, List.length_map, hb.size]

/-- Hash tables are finite maps. Where a sequence of steps on tables that begin without entries is defined
for the maps, it comes back with the same results, and each table holds its map. No table is assigned to
itself. -/
theorem hashTable_refines [Inhabited V] (hH : H.Lawful) (initialBuckets : Nat → Nat)
    (hbuckets : ∀ i, 2 ≤ initialBuckets i) (cs : List (Step K V)) (hself : ∀ i, .assign i i ∉ cs)
    (ms : Nat → FiniteMap V hH) (rs : List (Result V))
    (hspec : FiniteMap.runSteps (fun _ => ∅) cs = some (ms, rs)) :
    ∃ ts, HashTable.runSteps H (fun i => new (initialBuckets i)) cs = some (ts, rs) ∧
      ∀ i, Holds hH (ts i) (ms i) := by
  have hnew : ∀ i, Models hH (new (initialBuckets i) : HashTable K V) ∅ := fun i =>
    models_empty (fun _ _ => rfl) rfl (Nat.lt_of_lt_of_le Nat.two_pos (hbuckets i))
  obtain ⟨ts, hrun, hmodels⟩ := Models.runSteps hnew cs hself hspec
  exact ⟨ts, hrun, fun i => (hmodels i).holds⟩

end

theorem Hashing.default_lawful : Hashing.default.Lawful where
  refl x := beq_self_eq_true x
  symm h := beq_iff_eq.mpr (beq_iff_eq.mp h).symm
  trans h h' := beq_iff_eq.mpr ((beq_iff_eq.mp h).trans (beq_iff_eq.mp h'))
  hash h := congrArg _ (beq_iff_eq.mp h)

/-- `hashTable_refines` on a table that grows and copies of it. -/
theorem hashTable_refines_copied : ∃ ts, HashTable.runSteps Hashing.default (fun _ => new 2)
    [.on 0 (.set 1 10), .on 0 (.emplace 2 20), .on 0 (.get 3), .copy 1 0, .on 0 (.erase 2),
      .assign 2 0, .on 1 (.find 2), .on 2 (.find 2), .on 2 (.at_ 1)] =
    some (ts, [.done, .emplaced 20 true, .value 0, .done, .done, .done, .found (some 20), .found none,
      .value 10]) ∧ (ts 1).size = 3 ∧ (ts 2).size = 2 := by
  have hspec : (FiniteMap.runSteps (fun _ => (∅ : FiniteMap Nat Hashing.default_lawful))
      [.on 0 (.set 1 10), .on 0 (.emplace 2 20), .on 0 (.get 3), .copy 1 0, .on 0 (.erase 2),
        .assign 2 0, .on 1 (.find 2), .on 2 (.find 2), .on 2 (.at_ 1)]).map
      (fun x => (x.2, (x.1 1).keys.card, (x.1 2).keys.card)) =
    some ([.done, .emplaced 20 true, .value 0, .done, .done, .done, .found (some 20), .found none,
      .value 10], 3, 2) := by decide +kernel
  obtain ⟨⟨ms, rs⟩, hspec, heq⟩ := Option.map_eq_some_iff.mp hspec
  simp only [Prod.mk.injEq] at heq
  obtain ⟨rfl, hone, htwo⟩ := heq
  obtain ⟨ts, hrun, hholds⟩ := hashTable_refines Hashing.default_lawful (fun _ => 2) (fun _ => Nat.le_refl 2)
    _ (by simp) ms _ hspec
  exact ⟨ts, hrun, (hholds 1).size.trans hone, (hholds 2).size.trans htwo⟩

/-- A table with one entry is assigned to itself, and is empty. -/
theorem hashTable_not_refines : ∃ (ms : Nat → FiniteMap Nat Hashing.default_lawful) (ts : Tables Nat Nat),
    FiniteMap.runSteps (fun _ => ∅) [.on 0 (.set 1 10), .assign 0 0] = some (ms, [.done, .done]) ∧
    HashTable.runSteps Hashing.default (fun _ => new 2) [.on 0 (.set 1 10), .assign 0 0] =
      some (ts, [.done, .done]) ∧
    (ms 0).keys.card = 1 ∧ (ts 0).size = 0 ∧ ¬ Holds Hashing.default_lawful (ts 0) (ms 0) := by
  have hspec : (FiniteMap.runSteps (fun _ => (∅ : FiniteMap Nat Hashing.default_lawful))
      [.on 0 (.set 1 10), .assign 0 0]).map (fun x => (x.2, (x.1 0).keys.card)) =
    some ([.done, .done], 1) := by decide +kernel
  have hrun : (HashTable.runSteps Hashing.default (fun _ => (new 2 : HashTable Nat Nat))
      [.on 0 (.set 1 10), .assign 0 0]).map (fun x => (x.2, (x.1 0).size)) =
    some ([.done, .done], 0) := by decide +kernel
  obtain ⟨⟨ms, rs⟩, hspec, heq⟩ := Option.map_eq_some_iff.mp hspec
  simp only [Prod.mk.injEq] at heq
  obtain ⟨rfl, hone⟩ := heq
  obtain ⟨⟨ts, rs⟩, hrun, heq⟩ := Option.map_eq_some_iff.mp hrun
  simp only [Prod.mk.injEq] at heq
  obtain ⟨rfl, hzero⟩ := heq
  refine ⟨ms, ts, hspec, hrun, hone, hzero, fun hholds => ?_⟩
  have hsize := hholds.size
  rw [hzero, hone] at hsize
  cases hsize

end Cxlmc
