import Cxlmc.Flush.AfterCrash
import Cxlmc.HashTable.Refines
import Cxlmc.Model.Storage
import Cxlmc.System.Step
import Cxlmc.Vector.CacheLineStore

/-!
# The tables implement the memory

The tables hold the lists and the intervals of a state (`Storage.Holds`): what is not in a table is an empty
list or an empty interval. A reference into a table is to the node of its key (`RefersTo`), also when the table
has grown, so a write through it changes one list or one interval. By `Implements.run` no client can tell the
tables from the functions of the state (`storage_implements`).
-/

namespace Cxlmc

open HashTable Stateful

/-! ## A reference into a table -/

section

variable {K V : Type} {H : Hashing K} {hH : H.Lawful} {t : HashTable K V} {m : FiniteMap V hH} {k : K}
  {node : Nat}

/-- The table holds the map, and the node is that of the key. -/
def RefersTo (hH : H.Lawful) (t : HashTable K V) (m : FiniteMap V hH) (k : K) (node : Nat) : Prop :=
  ∃ b i pre x post, t.Rep H b ∧ i < t.buckets ∧ b i = pre ++ x :: post ∧ x.1 = node ∧
    H.equals x.2.first k = true ∧ Lists hH (b.nodes t.buckets) m

theorem RefersTo.models (h : RefersTo hH t m k node) : Models hH t m := by
  obtain ⟨b, _, _, _, _, hb, _, _, _, _, hm⟩ := h
  exact ⟨b, hb, hm⟩

/-- `operator[]` refers to the node of the key. -/
theorem Models.subscript [Inhabited V] (h : Models hH t m) (k : K) :
    ∃ t' node, t.subscript H k = some (t', node) ∧ RefersTo hH t' (m.insertNew (hH.key k) default) k node := by
  obtain ⟨b, hb, hm⟩ := h
  obtain ⟨t', c, i, pre, post, x, inserted, hsubscript, hspec⟩ := hb.subscript_spec hH k
  obtain ⟨hlists, _, _⟩ := hspec.lists hm
  exact ⟨t', x.1, hsubscript, c, i, pre, x, post, hspec.rep, hspec.index, hspec.chain, rfl, hspec.equals, hlists⟩

theorem RefersTo.read (h : RefersTo hH t m k node) :
    ∃ c, t.nodes node = some c ∧ m.lookup (hH.key k) = some c.val.second := by
  obtain ⟨b, i, pre, x, post, hb, hi, hchain, rfl, heq, hm⟩ := h
  obtain ⟨next, hcell, _⟩ := hb.cell hi hchain
  exact ⟨_, hcell, hm.lookup_eq (Chained.mem_nodes hi hchain) heq⟩

theorem RefersTo.write (h : RefersTo hH t m k node) (v : V) :
    ∃ t', t.setSecond node v = some t' ∧ RefersTo hH t' (m.insert (hH.key k) v) k node := by
  obtain ⟨b, i, pre, x, post, hb, hi, hchain, rfl, heq, hm⟩ := h
  obtain ⟨t', hset, hbuckets, hrep⟩ := hb.setSecond_spec hH hi hchain v
  obtain ⟨rest, hold, _, hnew⟩ := nodes_replaced (n := t.buckets) hi hchain
  have hdistinct := (hold.pairwise_iff fun hxy => hH.symm_false hxy).mp hb.distinct
  have hreplace := (hm.perm hold).replace (List.pairwise_cons.mp hdistinct).1 x.1 v
  rw [hH.key_eq.mpr heq] at hreplace
  refine ⟨t', hset, _, i, pre, (x.1, ⟨x.2.first, v⟩), post, hrep, ?_, Function.update_self i _ b, rfl, heq, ?_⟩
  · rw [hbuckets]
    exact hi
  · rw [hbuckets]
    exact hreplace.perm (hnew _).symm

end

/-! ## Tables and functions -/

section

variable {V : Type} [Inhabited V] {t : HashTable Nat V} {g : Nat → V} {k node : Nat}

/-- The map gives the values of the function, where it has any. -/
def Agrees (m : FiniteMap V Hashing.default_lawful) (g : Nat → V) : Prop :=
  ∀ k, (m.lookup (Hashing.default_lawful.key k)).getD default = g k

variable {m : FiniteMap V Hashing.default_lawful}

theorem Agrees.empty : Agrees ∅ fun _ => (default : V) := by
  intro k
  rw [Finmap.lookup_empty]
  rfl

theorem Agrees.insertNew (h : Agrees m g) (k : Nat) :
    Agrees (m.insertNew (Hashing.default_lawful.key k) default) g := by
  intro k'
  rw [FiniteMap.insertNew, ← h k']
  split
  · rfl
  · next hnot =>
      by_cases hk : Hashing.default_lawful.key k' = Hashing.default_lawful.key k
      · rw [hk, Finmap.lookup_insert, Finmap.lookup_eq_none.mpr hnot]
        rfl
      · rw [Finmap.lookup_insert_of_ne _ hk]

theorem Agrees.insert (h : Agrees m g) (k : Nat) (v : V) :
    Agrees (m.insert (Hashing.default_lawful.key k) v) (Function.update g k v) := by
  intro k'
  by_cases hk : k' = k
  · rw [hk, Finmap.lookup_insert, Function.update_self]
    rfl
  · have hne : Hashing.default_lawful.key k' ≠ Hashing.default_lawful.key k := by
      rw [Hashing.default_lawful.key_ne]
      exact beq_eq_false_iff_ne.mpr hk
    rw [Finmap.lookup_insert_of_ne _ hne, Function.update_of_ne hk]
    exact h k'

/-- The table holds the function. -/
def Tabulates (t : HashTable Nat V) (g : Nat → V) : Prop :=
  ∃ m, Models Hashing.default_lawful t m ∧ Agrees m g

/-- The table holds the function, and the node is that of the key. -/
def TabulatesAt (t : HashTable Nat V) (g : Nat → V) (k node : Nat) : Prop :=
  ∃ m, RefersTo Hashing.default_lawful t m k node ∧ Agrees m g

theorem TabulatesAt.tabulates (h : TabulatesAt t g k node) : Tabulates t g := by
  obtain ⟨m, hrefers, hm⟩ := h
  exact ⟨m, hrefers.models, hm⟩

theorem TabulatesAt.read (h : TabulatesAt t g k node) : ∃ c, t.nodes node = some c ∧ c.val.second = g k := by
  obtain ⟨m, hrefers, hm⟩ := h
  obtain ⟨c, hnode, hlookup⟩ := hrefers.read
  refine ⟨c, hnode, ?_⟩
  rw [← hm k, hlookup]
  rfl

theorem TabulatesAt.write (h : TabulatesAt t g k node) (v : V) :
    ∃ t', t.setSecond node v = some t' ∧ TabulatesAt t' (Function.update g k v) k node := by
  obtain ⟨m, hrefers, hm⟩ := h
  obtain ⟨t', hset, hrefers'⟩ := hrefers.write v
  exact ⟨t', hset, _, hrefers', hm.insert k v⟩

theorem tabulates_new {n : Nat} (hn : 0 < n) : Tabulates (new n) fun _ => (default : V) :=
  ⟨∅, models_empty (fun _ _ => rfl) rfl hn, Agrees.empty⟩

theorem Tabulates.subscript (h : Tabulates t g) (k : Nat) :
    ∃ t' node, t.subscript .default k = some (t', node) ∧ TabulatesAt t' g k node := by
  obtain ⟨m, hmodels, hm⟩ := h
  obtain ⟨t', node, hsubscript, hrefers⟩ := hmodels.subscript k
  exact ⟨t', node, hsubscript, _, hrefers, hm.insertNew k⟩

/-- A value is read and written through a reference to it. -/
theorem Tabulates.modify (h : Tabulates t g) (k : Nat) (f : V → V) :
    ∃ t', t.modify .default k f = some (t', g k) ∧ Tabulates t' (Function.update g k (f (g k))) := by
  obtain ⟨t₁, node, hsubscript, hat⟩ := h.subscript k
  obtain ⟨c, hnode, hvalue⟩ := hat.read
  obtain ⟨t', hset, hat'⟩ := hat.write (f c.val.second)
  rw [← hvalue]
  refine ⟨t', ?_, hat'.tabulates⟩
  rw [HashTable.modify, hsubscript]
  show (t₁.nodes node >>= _) = _
  rw [hnode]
  show (t₁.setSecond node (f c.val.second) >>= _) = _
  rw [hset]
  rfl

theorem Tabulates.clear (h : Tabulates t g) : ∃ t', t.clear = some t' ∧ Tabulates t' fun _ => (default : V) := by
  obtain ⟨m, hmodels, _⟩ := h
  obtain ⟨t', hrun, hmodels'⟩ := hmodels.run (.clear : Command Nat V) rfl
  obtain ⟨t₁, hclear, heq⟩ := Option.bind_eq_some_iff.mp hrun
  cases heq
  exact ⟨t', hclear, ∅, hmodels', Agrees.empty⟩

/-- `find` finds a key with a value, or the function has no value there. -/
theorem Tabulates.find (h : Tabulates t g) (k : Nat) :
    ∃ it, t.find .default k = some it ∧ (it.eq t.end_ = true → g k = default) := by
  obtain ⟨m, hmodels, hm⟩ := h
  cases hlookup : m.lookup (Hashing.default_lawful.key k) with
  | none =>
      refine ⟨_, hmodels.find_none hlookup, fun _ => ?_⟩
      rw [← hm k, hlookup]
      rfl
  | some v =>
      obtain ⟨it, _, hfind, hend, _⟩ := hmodels.find_some hlookup
      refine ⟨it, hfind, fun h => ?_⟩
      rw [hend] at h
      cases h

end

/-! ## The intervals -/

namespace StoreT

variable {store : StoreT} {cls : CacheLineStore} {n pid : Nat}

/-- The store has a table with the intervals of each of the `n` processes. -/
structure Tabulates (n : Nat) (store : StoreT) (cls : CacheLineStore) : Prop where
  size : n ≤ store.size
  tables : ∀ pid < n, ∃ t, store.array pid = .made t ∧ Cxlmc.Tabulates t (cls pid)

/-- `get_cacheline` on the id of a process refers to its interval. -/
theorem Tabulates.reference (h : Tabulates n store cls) (hint : n < 2 ^ 31) (hpid : pid < n) (addr : Nat) :
    ∃ t node, store.reference pid addr = some (t, node) ∧ TabulatesAt t (cls pid) addr node := by
  obtain ⟨t, harray, ht⟩ := h.tables pid hpid
  have hsize := h.size
  have haccepts : store.Accepts pid := by
    unfold Accepts
    omega
  obtain ⟨it, hfind, hnone⟩ := ht.find addr
  obtain ⟨t', node, hsubscript, hat⟩ := ht.subscript addr
  rw [StoreT.reference, if_pos haccepts, Int.toNat_natCast, harray]
  dsimp only
  rw [hfind, Option.bind_eq_bind, Option.bind_some, hsubscript]
  dsimp only [Option.bind_eq_bind, Option.bind_some]
  split
  · next hend =>
      -- a new interval is written where there is none
      obtain ⟨t'', hset, hat'⟩ := hat.write Cacheline.new
      refine ⟨t'', node, ?_, ?_⟩
      · rw [hset]
        rfl
      · rw [Function.update_eq_self_iff.mpr (hnone hend).symm] at hat'
        exact hat'
  · exact ⟨t', node, rfl, hat⟩

theorem Tabulates.modifyCacheline (h : Tabulates n store cls) (hint : n < 2 ^ 31) (hpid : pid < n) (addr : Nat)
    (f : Cacheline → Cacheline) :
    ∃ store', store.modifyCacheline pid addr f = some (store', cls pid addr) ∧
      Tabulates n store' (cls.setCacheline pid addr (f (cls pid addr))) := by
  obtain ⟨t, node, hreference, hat⟩ := h.reference hint hpid addr
  obtain ⟨c, hnode, hvalue⟩ := hat.read
  obtain ⟨t', hset, hat'⟩ := hat.write (f c.val.second)
  refine ⟨{ store with array := Function.update store.array pid (.made t') }, ?_, h.size, ?_⟩
  · rw [StoreT.modifyCacheline, hreference]
    show (t.nodes node >>= _) = _
    rw [hnode]
    show (t.setSecond node (f c.val.second) >>= _) = _
    rw [hset, Int.toNat_natCast, ← hvalue]
    rfl
  · intro q hq
    by_cases hne : q = pid
    · subst hne
      refine ⟨t', Function.update_self _ _ _, ?_⟩
      have hrow : cls.setCacheline q addr (f (cls q addr)) q = Function.update (cls q) addr (f (cls q addr)) := by
        funext a
        rw [CacheLineStore.setCacheline_apply, Function.update_apply]
        simp
      rw [hrow, ← hvalue]
      exact hat'.tabulates
    · obtain ⟨u, harray, hu⟩ := h.tables q hq
      refine ⟨u, ?_, ?_⟩
      · show Function.update store.array pid _ q = _
        rw [Function.update_of_ne hne]
        exact harray
      · have hrow : cls.setCacheline pid addr (f (cls pid addr)) q = cls q := by
          funext a
          rw [CacheLineStore.setCacheline_apply, if_neg fun h => hne h.1]
        rw [hrow]
        exact hu

theorem tabulates_init (hpos : 1 ≤ n) (hint : n < 2 ^ 31) :
    Tabulates n (init .new n).vector fun _ _ => .new := by
  obtain ⟨hsize, htables, _⟩ := init_spec hpos hint
  refine ⟨?_, fun pid hpid => ⟨_, htables pid hpid, tabulates_new (Nat.succ_pos 15)⟩⟩
  show n ≤ (initialized n).size
  omega

end StoreT

/-! ## The clients of the tables -/

namespace Storage

variable {n : Nat} {x : Storage} {s s' : Model} {a : ModelAction}

/-- The tables hold the lists and the intervals of the state. -/
structure Holds (n : Nat) (x : Storage) (s : Model) : Prop where
  stores : Tabulates x.objToWr s.objToWr
  intervals : x.objToCl.Tabulates n s.objToCl

end Storage

/-- A use of the tables with the id of a process. -/
def TableUse.Within (n : Nat) : TableUse → Prop
  | cacheline pid _ _ => pid < n
  | _ => True

namespace Storage

variable {n : Nat} {x : Storage} {s s' : Model} {a : ModelAction}

/-- Each use of the tables does what it does to the functions. -/
theorem implements (hint : n < 2 ^ 31) : Implements (TableUse.Within n) (Holds n) Storage.run Model.use := by
  constructor
  intro c x s hc hx
  cases c with
  | storelist addr f =>
      obtain ⟨t, hmodify, ht⟩ := hx.stores.modify (alignAddress addr) f
      refine ⟨{ x with objToWr := t }, ?_, ht, hx.intervals⟩
      rw [Storage.run, hmodify]
      rfl
  | cacheline pid addr f =>
      obtain ⟨store, hmodify, hstore⟩ := hx.intervals.modifyCacheline hint hc addr f
      refine ⟨{ x with objToCl := store }, ?_, hx.stores, hstore⟩
      rw [Storage.run, hmodify]
      rfl
  | clear =>
      obtain ⟨t, hclear, ht⟩ := hx.stores.clear
      refine ⟨{ x with objToWr := t }, ?_, ht, hx.intervals⟩
      rw [Storage.run, hclear]
      rfl

theorem holds_new {cxlMapping : Nat} {memory : Nat → Nat} {mutexType : MutexId → MutexType} (hpos : 1 ≤ n)
    (hint : n < 2 ^ 31) : (Storage.new n).Holds n (Model.init n cxlMapping memory mutexType) :=
  ⟨tabulates_new (Nat.succ_pos 15), StoreT.tabulates_init hpos hint⟩

end Storage

/-! ## The code of `model.cc` -/

theorem CacheLineStore.setCacheline_self (cls : CacheLineStore) (pid : ProcessId) (addr : Nat) :
    cls.setCacheline pid addr (cls pid addr) = cls := by
  funext q a
  rw [CacheLineStore.setCacheline_apply]
  split
  · next h => rw [h.1, h.2]
  · rfl

section

variable {n seqNum addr min : Nat} {is : List ProcessId} {x : Storage} {s s' : Model} {a b : ModelAction}

theorem flushClient_eval :
    (flushClient seqNum addr is min).eval Model.use s =
      ({ s with objToCl := (flushIntervals seqNum addr is (min, s.objToCl)).2 },
        (flushIntervals seqNum addr is (min, s.objToCl)).1) := by
  induction is generalizing min s with
  | nil => rfl
  | cons i is ih =>
      rw [flushClient, Client.eval_bind, Client.eval_op, flushIntervals]
      dsimp only [Model.use, Found.getInterval]
      by_cases hle : seqNum ≤ (s.objToCl i addr).getBegin
      · simp only [if_pos hle, ih, CacheLineStore.setCacheline_self]
      · simp only [if_neg hle, ih]

theorem flushClient_within (his : ∀ i ∈ is, i < n) :
    (flushClient seqNum addr is min).Within (TableUse.Within n) := by
  induction is generalizing min with
  | nil => trivial
  | cons i is ih =>
      have htail : ∀ j ∈ is, j < n := fun j hj => his j (List.mem_cons_of_mem i hj)
      refine Client.Within.bind (.op (his i List.mem_cons_self)) fun found => ?_
      dsimp only
      split
      · exact ih htail
      · exact ih htail

end

namespace Storage

variable {n : Nat} {x : Storage} {s s' : Model} {a b : ModelAction}

theorem Holds.of_eq (h : x.Holds n s) (hstores : s'.objToWr = s.objToWr) (hintervals : s'.objToCl = s.objToCl) :
    x.Holds n s' := by
  constructor
  · rw [hstores]
    exact h.stores
  · rw [hintervals]
    exact h.intervals

theorem ensureInitialValueClient_eval :
    (ensureInitialValueClient b a).eval Model.use s =
      ({ s with
          objToWr := Function.update s.objToWr a.word (if s.objToWr a.word = [] then [b] else s.objToWr a.word) },
        ()) := by
  rw [ensureInitialValueClient, Client.eval_bind, Client.eval_op]
  dsimp only [Model.use, Model.getStorelist, Client.eval_pure]
  rw [ModelAction.word, alignAddress_alignAddress]

/-- `ensureInitialValue` on the tables. -/
theorem Holds.ensureInitialValue (hint : n < 2 ^ 31) (hx : x.Holds n s)
    (h : (ensureInitialValue a).Ends s (.ok ()) s') :
    ∃ x', (ensureInitialValueClient (s.initialValue a.word) a).run Storage.run x = some (x', ()) ∧
      x'.Holds n s' := by
  have hwithin : (ensureInitialValueClient (s.initialValue a.word) a).Within (TableUse.Within n) :=
    .bind (.op trivial) fun _ => trivial
  obtain ⟨x', hrun, hx'⟩ := (implements hint).run hwithin hx
  rw [ensureInitialValueClient_eval] at hrun hx'
  refine ⟨x', hrun, ?_⟩
  rw [ends_ensureInitialValue h]
  by_cases hempty : s.objToWr a.word = []
  · rw [if_pos hempty] at hx' ⊢
    exact hx'
  · rw [if_neg hempty, Function.update_eq_self] at hx'
    rw [if_neg hempty]
    exact hx'

/-- `evict_store` on the tables. -/
theorem Holds.evictStore (hint : n < 2 ^ 31) (hx : x.Holds n s) (h : (evictStore a).Ends s (.ok b) s') :
    ∃ x', (evictStoreClient b).run Storage.run x = some (x', ()) ∧ x'.Holds n s' := by
  have hwithin : (evictStoreClient b).Within (TableUse.Within n) := .bind (.op trivial) fun _ => trivial
  obtain ⟨x', hrun, hx'⟩ := (implements hint).run hwithin hx
  have hwrite : a.isWrite = true := by
    obtain ⟨_, _, hrequire, _⟩ := ends_bind_ok.mp h
    obtain ⟨_, ⟨hwrite, _⟩ | ⟨_, hr⟩⟩ := ends_require.mp hrequire
    · exact hwrite
    · cases hr
  obtain ⟨hb, rfl⟩ := (ends_evictStore hwrite).mp h
  cases hb
  exact ⟨x', hrun, hx'.of_eq rfl rfl⟩

end Storage

/-- A crash leaves the tables as they are. -/
theorem insertCrash_tables {pid : ProcessId} {r : Except Stop Unit} {s s' : Model}
    (h : (insertCrash pid).Ends s r s') : s'.objToWr = s.objToWr ∧ s'.objToCl = s.objToCl := by
  have hidle : ∀ {x y : Model}, x.Idle y → y.objToWr = x.objToWr ∧ y.objToCl = x.objToCl :=
    fun h => ⟨congrArg Memory.objToWr h.memory, congrArg Memory.objToCl h.memory⟩
  rw [insertCrash] at h
  rcases ends_bind.mp h with ⟨b, s₁, h₁, h₂⟩ | ⟨e, h₁, _⟩
  · obtain ⟨hstores, hintervals⟩ := hidle (ends_shouldCrash h₁).1
    cases b with
    | false =>
        obtain ⟨_, rfl⟩ := ends_pure.mp h₂
        exact ⟨hstores, hintervals⟩
    | true =>
        rw [if_pos rfl, ends_state_bind] at h₂
        split at h₂
        · rw [ends_update_bind, ends_update_bind] at h₂
          obtain ⟨_, rfl⟩ := ends_stop.mp h₂
          obtain ⟨hstores', hintervals'⟩ := hidle (.processCrash
            { s₁ with crashes := AList.insert pid s₁.nextSequenceNum s₁.crashes })
          exact ⟨hstores'.trans hstores, hintervals'.trans hintervals⟩
        · obtain ⟨_, rfl⟩ := ends_update.mp h₂
          exact ⟨hstores, hintervals⟩
  · exact absurd h₁ shouldCrash_error

theorem flushCrashLoop_tables {min : Nat} {stores : List ModelAction} {r : Except Stop Unit} {s s' : Model}
    (h : (flushCrashLoop min stores).Ends s r s') : s'.objToWr = s.objToWr ∧ s'.objToCl = s.objToCl := by
  induction stores with
  | nil =>
      obtain ⟨_, rfl⟩ := ends_pure.mp h
      exact ⟨rfl, rfl⟩
  | cons store older ih =>
      rw [flushCrashLoop, ends_state_bind] at h
      split at h
      · obtain ⟨_, rfl⟩ := ends_pure.mp h
        exact ⟨rfl, rfl⟩
      · split at h
        · exact insertCrash_tables h
        · exact ih h

theorem evictClflush_tables {a : ModelAction} {r : Except Stop ModelAction} {s s' : Model}
    (h : (evictClflush a).Ends s r s') (hfails : r ≠ .error .assertFailed) :
    s'.objToWr = s.objToWr ∧ s'.objToCl = (s.flushed (s.flushClock a) a.line).objToCl := by
  have hloop : ∀ {min : Nat} {stores : List ModelAction} {b : ModelAction} {x : Model},
      (flushCrashLoop min stores >>= fun _ => (pure b : M ModelAction)).Ends x r s' →
      s'.objToWr = x.objToWr ∧ s'.objToCl = x.objToCl := by
    intro min stores b x h
    rcases ends_bind.mp h with ⟨_, s₁, h₁, h₂⟩ | ⟨e, h₁, _⟩
    · obtain ⟨_, rfl⟩ := ends_pure.mp h₂
      exact flushCrashLoop_tables h₁
    · exact flushCrashLoop_tables h₁
  rw [Model.flushClock]
  obtain ⟨min, ⟨htype, h⟩ | ⟨htype, h⟩⟩ := ends_evictClflush h hfails
  · rw [if_pos htype]
    exact hloop h
  · rw [if_neg (by simp [htype])]
    exact hloop h

namespace Storage

variable {n : Nat} {x : Storage} {s s' : Model} {a : ModelAction}

/-- `evict_clflush` on the tables: its first part runs on them, and its second part leaves them. -/
theorem Holds.evictClflush {r : Except Stop ModelAction} (hint : n < 2 ^ 31) (hcount : s.processCount = n)
    (hx : x.Holds n s) (h : (evictClflush a).Ends s r s') (hfails : r ≠ .error .assertFailed) :
    ∃ x', (evictClflushClient a (s.flushClock a) n).run Storage.run x =
        some (x', (flushIntervals (s.flushClock a) a.line (List.range n) (s.flushClock a, s.objToCl)).1,
          s.getStorelist a.location) ∧
      x'.Holds n s' := by
  have hwithin : (evictClflushClient a (s.flushClock a) n).Within (TableUse.Within n) :=
    .bind (flushClient_within fun _ hi => List.mem_range.mp hi) fun _ => .bind (.op trivial) fun _ => trivial
  obtain ⟨x', hrun, hx'⟩ := (implements hint).run hwithin hx
  rw [evictClflushClient, Client.eval_bind, flushClient_eval, Client.eval_bind, Client.eval_op] at hrun hx'
  obtain ⟨hstores, hintervals⟩ := evictClflush_tables h hfails
  refine ⟨x', hrun, hx'.of_eq ?_ ?_⟩
  · rw [hstores]
    exact (Function.update_eq_self _ _).symm
  · rw [hintervals, ← flushIntervals_flushed s _ _ (s.flushClock a), hcount]
    rfl

end Storage

/-! ## From the new tables on -/

/-- **No client can tell the tables from the functions.** -/
theorem storage_implements {n cxlMapping : Nat} {memory : Nat → Nat} {mutexType : MutexId → MutexType} {α : Type}
    (hpos : 1 ≤ n) (hint : n < 2 ^ 31) (client : Client TableUse Found α)
    (hclient : client.Within (TableUse.Within n)) :
    ∃ x, client.run Storage.run (Storage.new n) =
        some (x, (client.eval Model.use (Model.init n cxlMapping memory mutexType)).2) ∧
      x.Holds n (client.eval Model.use (Model.init n cxlMapping memory mutexType)).1 :=
  (Storage.implements hint).run hclient (Storage.holds_new hpos hint)

/-- A store to a word, and a flush of its line. -/
def storeAndFlush (store flush : ModelAction) (n : Nat) : Client TableUse Found (Nat × List ModelAction) := do
  evictStoreClient store
  evictClflushClient flush 1 n

theorem storeAndFlush_within (store flush : ModelAction) (n : Nat) :
    (storeAndFlush store flush n).Within (TableUse.Within n) := by
  apply Client.Within.bind
  · exact .bind (.op trivial) fun _ => trivial
  · intro _
    apply Client.Within.bind
    · exact flushClient_within fun _ hi => List.mem_range.mp hi
    · exact fun _ => .bind (.op trivial) fun _ => trivial

/-- `storage_implements` for a store and a flush on two processes. -/
theorem storage_implements_storeAndFlush : ∃ x,
    (storeAndFlush { tid := 0, type := .nonatomicStore, location := 4096, size := 8 }
      { tid := 1, type := .cacheClflush, location := 4100 } 2).run Storage.run (Storage.new 2) =
        some (x, (0, [{ tid := 0, type := .nonatomicStore, location := 4096, size := 8 }])) := by
  obtain ⟨x, hrun, _⟩ := @storage_implements 2 4096 (fun _ => 0) (fun _ => .default) _ (by decide) (by decide)
    (storeAndFlush { tid := 0, type := .nonatomicStore, location := 4096, size := 8 }
      { tid := 1, type := .cacheClflush, location := 4100 } 2) (storeAndFlush_within _ _ 2)
  exact ⟨x, hrun⟩

/-- **The code that fills the memory, on the tables.** `ensureInitialValue`, `evict_store` and `evict_clflush`
leave the tables with the lists and the intervals of the state they lead to, and `evict_clflush` goes on to
its loop over the stores with the same `min` and the same stores. -/
theorem evict_on_tables {n : Nat} {x : Storage} {s : Model} (hint : n < 2 ^ 31) (hcount : s.processCount = n)
    (hx : x.Holds n s) (a : ModelAction) :
    (∀ s', (ensureInitialValue a).Ends s (.ok ()) s' →
      ∃ x', (ensureInitialValueClient (s.initialValue a.word) a).run Storage.run x = some (x', ()) ∧
        x'.Holds n s') ∧
    (∀ b s', (evictStore a).Ends s (.ok b) s' →
      ∃ x', (evictStoreClient b).run Storage.run x = some (x', ()) ∧ x'.Holds n s') ∧
    ∀ r s', (evictClflush a).Ends s r s' → r ≠ .error .assertFailed →
      ∃ x', (evictClflushClient a (s.flushClock a) n).run Storage.run x =
          some (x', (flushIntervals (s.flushClock a) a.line (List.range n) (s.flushClock a, s.objToCl)).1,
            s.getStorelist a.location) ∧
        x'.Holds n s' :=
  ⟨fun _ h => hx.ensureInitialValue hint h, fun _ _ h => hx.evictStore hint h,
    fun _ _ h hfails => hx.evictClflush hint hcount h hfails⟩

/-- `evict_on_tables` for the first store to a word on the new tables, which is recorded and evicted, and for a
flush of its line. -/
theorem evict_on_tables_storeThenFlush : ∃ x₁ x₂ x₃ b s₁ s₂ s₃ min found,
    (ensureInitialValueClient ((Model.init 2 4096 (fun _ => 0) (fun _ => .default)).initialValue 4096)
      { tid := 0, type := .nonatomicStore, location := 4096, size := 8 }).run Storage.run (Storage.new 2) =
        some (x₁, ()) ∧ x₁.Holds 2 s₁ ∧
    (evictStoreClient b).run Storage.run x₁ = some (x₂, ()) ∧ x₂.Holds 2 s₂ ∧
    (evictClflushClient { tid := 1, type := .cacheClflush, location := 4100 } 1 2).run Storage.run x₂ =
      some (x₃, min, found) ∧ x₃.Holds 2 s₃ ∧
    (s₃.objToWr 4096).length = 2 ∧ (s₃.objToCl 0 4096).getBegin = 1 := by
  obtain ⟨hinitial, _, _⟩ := evict_on_tables (s := Model.init 2 4096 (fun _ => 0) (fun _ => .default))
    (by decide : 2 < 2 ^ 31) rfl (Storage.holds_new (by decide) (by decide))
    { tid := 0, type := .nonatomicStore, location := 4096, size := 8 }
  obtain ⟨x₁, hrun₁, hx₁⟩ := hinitial _ (ends_update.mpr ⟨rfl, rfl⟩)
  obtain ⟨_, hstore, _⟩ := evict_on_tables (by decide : 2 < 2 ^ 31) rfl hx₁
    { tid := 0, type := .nonatomicStore, location := 4096, size := 8 }
  obtain ⟨x₂, hrun₂, hx₂⟩ := hstore _ _ ((ends_evictStore rfl).mpr ⟨rfl, rfl⟩)
  obtain ⟨_, _, hflush⟩ := evict_on_tables (by decide : 2 < 2 ^ 31) rfl hx₂
    { tid := 1, type := .cacheClflush, location := 4100 }
  obtain ⟨_, s₃, hends, hcheck⟩ := exists_ends_of_runWith
    (evictClflush { tid := 1, type := .cacheClflush, location := 4100 })
    (((Model.init 2 4096 (fun _ => 0) (fun _ => .default)).initialized 4096).evicted
      { tid := 0, type := .nonatomicStore, location := 4096, size := 8 }) []
    (fun _ s => decide ((s.objToWr 4096).length = 2 ∧ (s.objToCl 0 4096).getBegin = 1)) (by decide +kernel)
  obtain ⟨x₃, hrun₃, hx₃⟩ := hflush _ s₃ hends (by simp)
  obtain ⟨hlength, hbegin⟩ := of_decide_eq_true hcheck
  exact ⟨x₁, x₂, x₃, _, _, _, s₃, _, _, hrun₁, hx₁, hrun₂, hx₂, hrun₃, hx₃, hlength, hbegin⟩

end Cxlmc
