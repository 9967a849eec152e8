import Cxlmc.HashTable.Refines
import Cxlmc.Model.Pthread
import Cxlmc.Threads.Serve

/-!
# The life cycle of mutexes and condition variables

`LiveObjects` says what the calls are for: a map from addresses to the objects that live there. The tables of
the checker are such a map as long as nothing is destroyed (`lifeCycle_iff`): the tests of
`pthread_mutex_destroy` and `pthread_cond_destroy` are the wrong way round, so that both refuse an object that
is tracked and dereference `end()` where none is.
-/

namespace Cxlmc

open HashTable

/-! ## Live objects -/

structure LiveObjects where
  mutexes : ExtPtr → Option Mutex
  conds : ExtPtr → Option Unit

/-- An object of kind `O` comes to live at `ep`, unless one lives there. -/
def create {O : Type} (live : ExtPtr → Option O) (ep : ExtPtr) (o : O) : ExtPtr → Option O :=
  if (live ep).isSome then live else Function.update live ep (some o)

/-- A mutex that has just been made. -/
def Mutex.made (attr : Option MutexType) : Mutex := ⟨attr.getD .default, none, 0⟩

namespace LiveObjects

/-- Nothing lives. -/
def empty : LiveObjects := ⟨fun _ => none, fun _ => none⟩

def mutexLock (m : LiveObjects) (tid : ThreadId) (ep : ExtPtr) : Except NoReturn (Nat × LiveObjects) := do
  let mx ← ((m.mutexes ep).getD (.made none)).lock tid
  return (0, { m with mutexes := Function.update m.mutexes ep (some mx) })

def mutexUnlock (m : LiveObjects) (tid : ThreadId) (ep : ExtPtr) : Except NoReturn (Nat × LiveObjects) :=
  match m.mutexes ep with
  | none => .error .abort
  | some mx => .ok (0, { m with mutexes := Function.update m.mutexes ep (some (mx.unlock tid)) })

def mutexDestroy (m : LiveObjects) (ep : ExtPtr) : Nat × LiveObjects :=
  match m.mutexes ep with
  | none => (einval, m)
  | some mx =>
      if mx.owner.isSome then (ebusy, m)
      else (0, { m with mutexes := Function.update m.mutexes ep none })

def condDestroy (m : LiveObjects) (ep : ExtPtr) : Nat × LiveObjects :=
  match m.conds ep with
  | none => (einval, m)
  | some _ => (0, { m with conds := Function.update m.conds ep none })

/-- An object that lives is no invalid argument. -/
theorem mutexDestroy_ne (m : LiveObjects) {ep : ExtPtr} {mx : Mutex} (hlive : m.mutexes ep = some mx) :
    (m.mutexDestroy ep).1 ≠ einval := by
  rw [mutexDestroy, hlive]
  dsimp only
  split
  · show ebusy ≠ einval
    decide
  · show 0 ≠ einval
    decide

theorem condDestroy_ne (m : LiveObjects) {ep : ExtPtr} {v : Unit} (hlive : m.conds ep = some v) :
    (m.condDestroy ep).1 ≠ einval := by
  rw [condDestroy, hlive]
  show 0 ≠ einval
  decide

/-- What a call means. -/
def call (memIsCxl : Nat → Bool) (m : LiveObjects) (c : Called) : Except NoReturn (Nat × LiveObjects) :=
  match c.call with
  | .mutexInit p attr =>
      .ok (0, { m with mutexes := create m.mutexes (makeExtPtr memIsCxl c.pid p) (.made attr) })
  | .mutexLock p => m.mutexLock c.tid (makeExtPtr memIsCxl c.pid p)
  | .mutexUnlock p => m.mutexUnlock c.tid (makeExtPtr memIsCxl c.pid p)
  | .mutexDestroy p => .ok (m.mutexDestroy (makeExtPtr memIsCxl c.pid p))
  | .condInit p => .ok (0, { m with conds := create m.conds (makeExtPtr memIsCxl c.pid p) () })
  | .condDestroy p => .ok (m.condDestroy (makeExtPtr memIsCxl c.pid p))

end LiveObjects

/-- `Mutex.lock` and `Mutex.unlock` are what `execute` does with a mutex whose owner has not crashed. -/
theorem Mutex.lock_eq_ok {mx mx' : Mutex} {t : ThreadId} :
    mx.lock t = .ok mx' ↔ mx.Serves t (fun _ => False) .atomicLock 0 mx' := by
  rw [lock]
  constructor
  · intro h
    split at h
    · next howner =>
        cases h
        exact .lock howner
    · next o howner =>
        split at h
        · next hself =>
            subst hself
            split at h
            · next htype =>
                cases h
                exact .nest howner htype
            · next htype =>
                cases h
                exact .refuseLock howner htype
            · cases h
        · cases h
  · intro h
    cases h with
    | lock howner =>
        rw [howner]
        rfl
    | nest howner htype =>
        rw [howner]
        dsimp only
        rw [if_pos rfl, htype]
    | refuseLock howner htype =>
        rw [howner]
        dsimp only
        rw [if_pos rfl, htype]

theorem Mutex.serves_unlock (mx : Mutex) (t : ThreadId) (crashed : ThreadId → Prop) (v : Nat) :
    mx.Serves t crashed .atomicUnlock v (mx.unlock t) := by
  rw [unlock]
  split
  · next howner => exact .refuseUnlock howner
  · next howner =>
      have howner : mx.owner = some t := not_not.mp howner
      split
      · next hnested => exact .unnest howner hnested.1 hnested.2
      · next honce => exact .unlock howner honce

/-! ## A table of objects -/

theorem ExtPtr.hashing_lawful : ExtPtr.hashing.Lawful where
  refl _ := decide_eq_true rfl
  symm h := decide_eq_true (of_decide_eq_true h).symm
  trans h h' := decide_eq_true ((of_decide_eq_true h).trans (of_decide_eq_true h'))
  hash h := congrArg _ (of_decide_eq_true h)

abbrev ExtPtr.key (ep : ExtPtr) : ExtPtr.hashing_lawful.Key := ExtPtr.hashing_lawful.key ep

theorem ExtPtr.key_ne {ep ep' : ExtPtr} (h : ep ≠ ep') : ep.key ≠ ep'.key :=
  ExtPtr.hashing_lawful.key_ne.mpr (decide_eq_false h)

/-- The table has the address of each live object, and no other address; `ids` gives these addresses. -/
structure Tracks {O : Type} (table : HashTable ExtPtr (Option Nat)) (objects : Nat → Option O) (fresh : Nat)
    (live : ExtPtr → Option O) (m : FiniteMap (Option Nat) ExtPtr.hashing_lawful) (ids : ExtPtr → Option Nat) :
    Prop where
  models : Models ExtPtr.hashing_lawful table m
  lookup : ∀ ep, m.lookup ep.key = (ids ep).map some
  live : ∀ ep, live ep = (ids ep).bind objects
  object : ∀ ep a, ids ep = some a → ∃ o, objects a = some o
  fresh : ∀ ep a, ids ep = some a → a < fresh
  apart : ∀ ep ep' a, ids ep = some a → ids ep' = some a → ep = ep'

/-- The table represents the live objects. -/
def Represents {O : Type} (table : HashTable ExtPtr (Option Nat)) (objects : Nat → Option O) (fresh : Nat)
    (live : ExtPtr → Option O) : Prop :=
  ∃ m ids, Tracks table objects fresh live m ids

section

variable {O : Type} {table : HashTable ExtPtr (Option Nat)} {objects : Nat → Option O} {fresh fresh' : Nat}
  {live : ExtPtr → Option O} {m : FiniteMap (Option Nat) ExtPtr.hashing_lawful} {ids : ExtPtr → Option Nat}
  {ep : ExtPtr} {o : O}

theorem Represents.new (objects : Nat → Option O) (fresh : Nat) :
    Represents (.new 16) objects fresh fun _ => none := by
  refine ⟨∅, fun _ => none, models_empty (fun _ _ => rfl) rfl (by decide), fun _ => rfl, fun _ => rfl, ?_, ?_, ?_⟩
  · exact fun _ _ h => by cases h
  · exact fun _ _ h => by cases h
  · exact fun _ _ _ h => by cases h

theorem Represents.mono (h : Represents table objects fresh live) (hle : fresh ≤ fresh') :
    Represents table objects fresh' live := by
  obtain ⟨m, ids, h⟩ := h
  exact ⟨m, ids, h.models, h.lookup, h.live, h.object,
    fun ep a hids => Nat.lt_of_lt_of_le (h.fresh ep a hids) hle, h.apart⟩

theorem Tracks.ids_none (h : Tracks table objects fresh live m ids) (hlive : live ep = none) :
    ids ep = none := by
  rw [h.live ep] at hlive
  cases hids : ids ep with
  | none => rfl
  | some a =>
      obtain ⟨o, ho⟩ := h.object ep a hids
      rw [hids] at hlive
      exact absurd (ho.symm.trans hlive) (by simp)

theorem Tracks.ids_some (h : Tracks table objects fresh live m ids) (hlive : live ep = some o) :
    ∃ a, ids ep = some a ∧ objects a = some o := by
  rw [h.live ep] at hlive
  exact Option.bind_eq_some_iff.mp hlive

theorem Represents.find_none (h : Represents table objects fresh live) (hlive : live ep = none) :
    table.find ExtPtr.hashing ep = some table.end_ := by
  obtain ⟨m, ids, h⟩ := h
  refine h.models.find_none ?_
  rw [← ExtPtr.key, h.lookup, h.ids_none hlive]
  rfl

theorem Represents.find_some (h : Represents table objects fresh live) (hlive : live ep = some o) :
    ∃ it p, table.find ExtPtr.hashing ep = some it ∧ it.eq table.end_ = false ∧ table.deref it = some p ∧
      p.second.bind objects = some o := by
  obtain ⟨m, ids, h⟩ := h
  obtain ⟨a, hids, ha⟩ := h.ids_some hlive
  have hlookup := h.lookup ep
  rw [hids] at hlookup
  obtain ⟨it, p, hfind, hend, hderef, hp⟩ := h.models.find_some hlookup
  refine ⟨it, p, hfind, hend, hderef, ?_⟩
  rw [hp]
  exact ha

theorem Represents.at_none (h : Represents table objects fresh live) (hlive : live ep = none) :
    table.at_ ExtPtr.hashing ep = none := by
  obtain ⟨m, ids, h⟩ := h
  refine h.models.at_none ?_
  rw [← ExtPtr.key, h.lookup, h.ids_none hlive]
  rfl

/-- The object at `ep` is written. -/
theorem Represents.write (h : Represents table objects fresh live) (hlive : live ep = some o) :
    ∃ table' a, table.at_ ExtPtr.hashing ep = some (table', some a) ∧ objects a = some o ∧
      ∀ o', Represents table' (Function.update objects a (some o')) fresh (Function.update live ep (some o')) := by
  obtain ⟨m, ids, h⟩ := h
  obtain ⟨a, hids, ha⟩ := h.ids_some hlive
  have hlookup := h.lookup ep
  rw [hids] at hlookup
  obtain ⟨table', hat, hmodels⟩ := h.models.at_some hlookup
  refine ⟨table', a, hat, ha, fun o' => ⟨m, ids, hmodels, h.lookup, fun ep' => ?_, fun ep' a' hids' => ?_, h.fresh,
    h.apart⟩⟩
  · by_cases heq : ep' = ep
    · subst heq
      rw [Function.update_self, hids]
      show some o' = Function.update objects a (some o') a
      rw [Function.update_self]
    · rw [Function.update_of_ne heq, h.live ep']
      cases hids' : ids ep' with
      | none => rfl
      | some a' =>
          have hne : a' ≠ a := by
            rintro rfl
            exact heq (h.apart ep' ep a' hids' hids)
          exact (Function.update_of_ne hne _ _).symm
  · rw [Function.update_apply]
    split
    · exact ⟨o', rfl⟩
    · exact h.object ep' a' hids'

/-- An object is made that the table does not have. -/
theorem Tracks.alloc (h : Tracks table objects fresh live m ids) (o : O) :
    Tracks table (Function.update objects fresh (some o)) (fresh + 1) live m ids := by
  have hold : ∀ ep a, ids ep = some a → Function.update objects fresh (some o) a = objects a :=
    fun ep a hids => Function.update_of_ne (Nat.ne_of_lt (h.fresh ep a hids)) _ _
  refine ⟨h.models, h.lookup, fun ep => ?_, fun ep a hids => ?_, fun ep a hids => ?_, h.apart⟩
  · rw [h.live ep]
    cases hids : ids ep with
    | none => rfl
    | some a => exact (hold ep a hids).symm
  · rw [hold ep a hids]
    exact h.object ep a hids
  · exact Nat.lt_succ_of_lt (h.fresh ep a hids)

/-- The table gets the address of an object that it does not have. -/
theorem Tracks.insert {table' : HashTable ExtPtr (Option Nat)} {a : Nat}
    (h : Tracks table objects fresh live m ids) (ho : objects a = some o) (ha : a < fresh)
    (hnew : ∀ ep, ids ep ≠ some a)
    (hmodels : Models ExtPtr.hashing_lawful table' (m.insert ep.key (some a))) :
    Tracks table' objects fresh (Function.update live ep (some o)) (m.insert ep.key (some a))
      (Function.update ids ep (some a)) := by
  have hids : ∀ ep' a', Function.update ids ep (some a) ep' = some a' → a' = a ∨ ids ep' = some a' := by
    intro ep' a' h'
    rw [Function.update_apply] at h'
    split at h'
    · exact .inl (Option.some_inj.mp h').symm
    · exact .inr h'
  refine ⟨hmodels, fun ep' => ?_, fun ep' => ?_, fun ep' a' h' => ?_, fun ep' a' h' => ?_,
    fun ep₁ ep₂ a' h₁ h₂ => ?_⟩
  · by_cases heq : ep' = ep
    · subst heq
      rw [Function.update_self, Finmap.lookup_insert]
      rfl
    · rw [Function.update_of_ne heq, Finmap.lookup_insert_of_ne _ (ExtPtr.key_ne heq), h.lookup]
  · by_cases heq : ep' = ep
    · subst heq
      rw [Function.update_self, Function.update_self]
      exact ho.symm
    · rw [Function.update_of_ne heq, Function.update_of_ne heq]
      exact h.live ep'
  · rcases hids ep' a' h' with rfl | h'
    · exact ⟨o, ho⟩
    · exact h.object ep' a' h'
  · rcases hids ep' a' h' with rfl | h'
    · exact ha
    · exact h.fresh ep' a' h'
  · rw [Function.update_apply] at h₁ h₂
    split at h₁ <;> split at h₂
    · next heq₁ heq₂ => rw [heq₁, heq₂]
    · rw [← h₁] at h₂
      exact absurd h₂ (hnew ep₂)
    · rw [← h₂] at h₁
      exact absurd h₁ (hnew ep₁)
    · exact h.apart ep₁ ep₂ a' h₁ h₂

/-- `emplace` with an object that has just been made. -/
theorem Represents.create (h : Represents table objects fresh live) (ep : ExtPtr) (o : O) :
    ∃ table' x, table.emplace ExtPtr.hashing ep (some fresh) = some (table', x) ∧
      Represents table' (Function.update objects fresh (some o)) (fresh + 1) (Cxlmc.create live ep o) := by
  obtain ⟨m, ids, h⟩ := h
  obtain ⟨table', x, hemplace, hmodels⟩ := h.models.emplace ep (some fresh)
  refine ⟨table', x, hemplace, ?_⟩
  have halloc := h.alloc o
  have hlookup := h.lookup ep
  cases hep : live ep with
  | some o₀ =>
      -- the object stays without an entry
      obtain ⟨a, hids, _⟩ := h.ids_some hep
      rw [hids] at hlookup
      rw [FiniteMap.insertNew, if_pos (Finmap.mem_of_lookup_eq_some hlookup)] at hmodels
      rw [Cxlmc.create, hep, if_pos (by rfl)]
      exact ⟨m, ids, { halloc with models := hmodels }⟩
  | none =>
      rw [h.ids_none hep] at hlookup
      rw [FiniteMap.insertNew, if_neg (Finmap.lookup_eq_none.mp hlookup)] at hmodels
      rw [Cxlmc.create, hep, if_neg (by simp)]
      refine ⟨_, _, halloc.insert (Function.update_self _ _ _) (Nat.lt_succ_self _) (fun ep' hids => ?_) hmodels⟩
      exact absurd (h.fresh ep' fresh hids) (Nat.lt_irrefl _)

/-- What the table has for an address. -/
theorem Represents.view (h : Represents table objects fresh live) (ep : ExtPtr) :
    (do
      let iter ← table.find ExtPtr.hashing ep
      let p ← table.deref iter
      objects (← p.second)) = live ep := by
  cases hlive : live ep with
  | none =>
      rw [h.find_none hlive]
      rfl
  | some o =>
      obtain ⟨it, p, hfind, _, hderef, hp⟩ := h.find_some hlive
      rw [hfind]
      show (table.deref it >>= _) = _
      rw [hderef]
      exact hp

end

/-! ## The calls -/

namespace Trackers

variable {s : Trackers} {m : LiveObjects} {ep : ExtPtr} {mx : Mutex} {memIsCxl : Nat → Bool}

/-- The tables have the live objects. -/
structure Holds (s : Trackers) (m : LiveObjects) : Prop where
  mutexes : Represents s.mutexMap s.mutexes s.fresh m.mutexes
  conds : Represents s.condMap s.conds s.fresh m.conds

theorem holds_new : new.Holds .empty := ⟨.new _ _, .new _ _⟩

theorem Holds.mutexInit (h : s.Holds m) (ep : ExtPtr) (attr : Option MutexType) :
    ∃ s', s.pthreadMutexInit ep attr = .ok (0, s') ∧
      s'.Holds { m with mutexes := create m.mutexes ep (.made attr) } := by
  obtain ⟨mutexMap, x, hemplace, hmutexes⟩ := h.mutexes.create ep (.made attr)
  have hinit : s.pthreadMutexInit ep attr = .ok (0, { s with
      mutexMap := mutexMap
      mutexes := Function.update s.mutexes s.fresh (some (.made attr))
      fresh := s.fresh + 1 }) := by
    rw [pthreadMutexInit, hemplace]
    rfl
  exact ⟨_, hinit, hmutexes, h.conds.mono (Nat.le_succ _)⟩

theorem Holds.condInit (h : s.Holds m) (ep : ExtPtr) :
    ∃ s', s.pthreadCondInit ep = .ok (0, s') ∧ s'.Holds { m with conds := create m.conds ep () } := by
  obtain ⟨condMap, x, hemplace, hconds⟩ := h.conds.create ep ()
  have hinit : s.pthreadCondInit ep = .ok (0, { s with
      condMap := condMap
      conds := Function.update s.conds s.fresh (some ())
      fresh := s.fresh + 1 }) := by
    rw [pthreadCondInit, hemplace]
    rfl
  exact ⟨_, hinit, h.mutexes.mono (Nat.le_succ _), hconds⟩

theorem Holds.lockTracked (h : s.Holds m) (hlive : m.mutexes ep = some mx) (tid : ThreadId) :
    SameReply Holds (s.lockTracked tid ep) (m.mutexLock tid ep) := by
  obtain ⟨mutexMap, a, hat, ha, hwrite⟩ := h.mutexes.write hlive
  rw [Trackers.lockTracked, LiveObjects.mutexLock, hat, hlive]
  show SameReply Holds (orElse .fault (s.mutexes a) >>= _) (mx.lock tid >>= _)
  rw [ha]
  show SameReply Holds (mx.lock tid >>= _) _
  cases mx.lock tid with
  | error e => exact .error e
  | ok mx' => exact .ok 0 ⟨hwrite mx', h.conds⟩

theorem Holds.mutexLock (h : s.Holds m) (tid : ThreadId) (ep : ExtPtr) :
    SameReply Holds (s.pthreadMutexLock tid ep) (m.mutexLock tid ep) := by
  cases hlive : m.mutexes ep with
  | some mx =>
      obtain ⟨it, p, hfind, hend, _⟩ := h.mutexes.find_some hlive
      rw [pthreadMutexLock, hfind]
      show SameReply Holds (if it.eq s.mutexMap.end_ = true then _ else _) _
      rw [if_neg (by simp [hend])]
      exact h.lockTracked hlive tid
  | none =>
      -- the mutex is made first
      obtain ⟨s', hinit, h'⟩ := h.mutexInit ep none
      have hcreate : create m.mutexes ep (.made none) = Function.update m.mutexes ep (some (.made none)) := by
        rw [create, hlive]
        rfl
      rw [hcreate] at h'
      have hlock := h'.lockTracked (Function.update_self _ _ _) tid
      simp only [LiveObjects.mutexLock, Function.update_self, Function.update_idem] at hlock
      rw [pthreadMutexLock, h.mutexes.find_none hlive]
      show SameReply Holds (if s.mutexMap.end_.eq s.mutexMap.end_ = true then _ else _) _
      rw [if_pos (by simp [Iterator.eq]), hinit, LiveObjects.mutexLock, hlive]
      exact hlock

theorem Holds.mutexUnlock (h : s.Holds m) (tid : ThreadId) (ep : ExtPtr) :
    SameReply Holds (s.pthreadMutexUnlock tid ep) (m.mutexUnlock tid ep) := by
  cases hlive : m.mutexes ep with
  | some mx =>
      obtain ⟨mutexMap, a, hat, ha, hwrite⟩ := h.mutexes.write hlive
      rw [pthreadMutexUnlock, LiveObjects.mutexUnlock, hat, hlive]
      show SameReply Holds (orElse .fault (s.mutexes a) >>= _) _
      rw [ha]
      exact .ok 0 ⟨hwrite (mx.unlock tid), h.conds⟩
  | none =>
      rw [pthreadMutexUnlock, LiveObjects.mutexUnlock, h.mutexes.at_none hlive, hlive]
      exact .error NoReturn.abort

/-- A mutex that is tracked is refused, and the tables stay as they are. -/
theorem Holds.mutexDestroy_tracked (h : s.Holds m) (hlive : m.mutexes ep = some mx) :
    s.pthreadMutexDestroy ep = .ok (einval, s) := by
  obtain ⟨it, p, hfind, hend, _⟩ := h.mutexes.find_some hlive
  rw [pthreadMutexDestroy, hfind]
  exact if_neg (by simp [hend])

/-- Where no mutex is tracked, `iter->second` reads through a null pointer. -/
theorem Holds.mutexDestroy_untracked (h : s.Holds m) (hlive : m.mutexes ep = none) :
    s.pthreadMutexDestroy ep = .error .fault := by
  rw [pthreadMutexDestroy, h.mutexes.find_none hlive]
  exact if_pos (by simp [Iterator.eq])

theorem Holds.condDestroy_tracked {v : Unit} (h : s.Holds m) (hlive : m.conds ep = some v) :
    s.pthreadCondDestroy ep = .ok (einval, s) := by
  obtain ⟨it, p, hfind, hend, _⟩ := h.conds.find_some hlive
  rw [pthreadCondDestroy, hfind]
  exact if_neg (by simp [hend])

theorem Holds.condDestroy_untracked (h : s.Holds m) (hlive : m.conds ep = none) :
    s.pthreadCondDestroy ep = .error .fault := by
  rw [pthreadCondDestroy, h.conds.find_none hlive]
  exact if_pos (by simp [Iterator.eq])

end Trackers

/-- A `pthread_mutex_destroy` or a `pthread_cond_destroy`. -/
def Called.destroys (c : Called) : Bool :=
  match c.call with
  | .mutexDestroy _ | .condDestroy _ => true
  | .mutexInit _ _ | .mutexLock _ | .mutexUnlock _ | .condInit _ => false

namespace Trackers

variable {s : Trackers} {m : LiveObjects} {c : Called}

/-- A call that destroys nothing means the same for the tables. -/
theorem Holds.call (memIsCxl : Nat → Bool) (h : s.Holds m) (hc : c.destroys = false) :
    SameReply Holds (s.call memIsCxl c) (m.call memIsCxl c) := by
  rw [Trackers.call, LiveObjects.call]
  rw [Called.destroys] at hc
  cases hcall : c.call with
  | mutexInit p attr =>
      obtain ⟨s', hinit, h'⟩ := h.mutexInit (makeExtPtr memIsCxl c.pid p) attr
      dsimp only
      rw [hinit]
      exact .ok 0 h'
  | mutexLock p => exact h.mutexLock c.tid _
  | mutexUnlock p => exact h.mutexUnlock c.tid _
  | condInit p =>
      obtain ⟨s', hinit, h'⟩ := h.condInit (makeExtPtr memIsCxl c.pid p)
      dsimp only
      rw [hinit]
      exact .ok 0 h'
  | mutexDestroy p =>
      rw [hcall] at hc
      cases hc
  | condDestroy p =>
      rw [hcall] at hc
      cases hc

/-- A call that destroys does something else. -/
theorem Holds.call_destroys (memIsCxl : Nat → Bool) (h : s.Holds m) (hc : ¬ c.destroys = false) :
    (s.call memIsCxl c).map Prod.fst ≠ (m.call memIsCxl c).map Prod.fst := by
  rw [Trackers.call, LiveObjects.call]
  rw [Called.destroys] at hc
  cases hcall : c.call with
  | mutexDestroy p =>
      dsimp only
      cases hlive : m.mutexes (makeExtPtr memIsCxl c.pid p) with
      | none =>
          rw [h.mutexDestroy_untracked hlive]
          exact fun heq => by cases heq
      | some mx =>
          rw [h.mutexDestroy_tracked hlive]
          exact fun heq => m.mutexDestroy_ne hlive (Except.ok.inj heq).symm
  | condDestroy p =>
      dsimp only
      cases hlive : m.conds (makeExtPtr memIsCxl c.pid p) with
      | none =>
          rw [h.condDestroy_untracked hlive]
          exact fun heq => by cases heq
      | some v =>
          rw [h.condDestroy_tracked hlive]
          exact fun heq => m.condDestroy_ne hlive (Except.ok.inj heq).symm
  | _ =>
      rw [hcall] at hc
      exact absurd rfl hc

end Trackers

/-! ## Sequences of calls -/

/-- The replies of the checker to a sequence of calls, and its tables behind it. -/
def Trackers.run (memIsCxl : Nat → Bool) (cs : List Called) : List (Except NoReturn Nat) × Trackers :=
  replies (Trackers.call memIsCxl) .new cs

/-- What the sequence means. -/
def LiveObjects.run (memIsCxl : Nat → Bool) (cs : List Called) : List (Except NoReturn Nat) × LiveObjects :=
  replies (LiveObjects.call memIsCxl) .empty cs

/-- The calls up to the first one that does not return. -/
def callsMade (memIsCxl : Nat → Bool) (cs : List Called) : List Called :=
  cs.take (LiveObjects.run memIsCxl cs).1.length

/-- The calls come back with what they are meant to, and the tables have the objects that live. -/
structure LifeCycle (memIsCxl : Nat → Bool) (cs : List Called) : Prop where
  replies : (Trackers.run memIsCxl cs).1 = (LiveObjects.run memIsCxl cs).1
  mutexes : ∀ ep, (Trackers.run memIsCxl cs).2.mutex ep = (LiveObjects.run memIsCxl cs).2.mutexes ep
  conds : ∀ ep, (Trackers.run memIsCxl cs).2.cond ep = (LiveObjects.run memIsCxl cs).2.conds ep

/-- The tables are the map of live objects if and only if nothing is destroyed. -/
theorem lifeCycle_iff (memIsCxl : Nat → Bool) (cs : List Called) :
    LifeCycle memIsCxl cs ↔ ∀ c ∈ callsMade memIsCxl cs, c.destroys = false := by
  have hgood := fun s m c hc (h : Trackers.Holds s m) => h.call (c := c) memIsCxl hc
  have hbad := fun s m c hc (h : Trackers.Holds s m) => h.call_destroys (c := c) memIsCxl hc
  refine ⟨fun h => (replies_iff hgood hbad Trackers.holds_new cs).mp h.replies, fun hcs => ?_⟩
  obtain ⟨hreplies, hholds⟩ := replies_same hgood Trackers.holds_new cs hcs
  exact ⟨hreplies, hholds.mutexes.view, hholds.conds.view⟩

/-- A mutex is destroyed and made again with another type: the checker keeps the old one. A mutex that is
owned is refused with the wrong value, and an address without a mutex is read through. -/
theorem not_lifeCycle_destroy :
    (Trackers.run (fun _ => false) [⟨0, 0, .mutexInit 8 none⟩, ⟨0, 0, .mutexDestroy 8⟩,
        ⟨0, 0, .mutexInit 8 (some .recursive)⟩]).1 = [.ok 0, .ok einval, .ok 0] ∧
    (Trackers.run (fun _ => false) [⟨0, 0, .mutexInit 8 none⟩, ⟨0, 0, .mutexDestroy 8⟩,
        ⟨0, 0, .mutexInit 8 (some .recursive)⟩]).2.mutex ⟨8, some 0⟩ = some ⟨.default, none, 0⟩ ∧
    (LiveObjects.run (fun _ => false) [⟨0, 0, .mutexInit 8 none⟩, ⟨0, 0, .mutexDestroy 8⟩,
        ⟨0, 0, .mutexInit 8 (some .recursive)⟩]).2.mutexes ⟨8, some 0⟩ = some ⟨.recursive, none, 0⟩ ∧
    (Trackers.run (fun _ => false) [⟨0, 0, .mutexLock 8⟩, ⟨0, 0, .mutexDestroy 8⟩]).1 = [.ok 0, .ok einval] ∧
    (LiveObjects.run (fun _ => false) [⟨0, 0, .mutexLock 8⟩, ⟨0, 0, .mutexDestroy 8⟩]).1 = [.ok 0, .ok ebusy] ∧
    (Trackers.run (fun _ => false) [⟨0, 0, .mutexDestroy 8⟩]).1 = [.error .fault] ∧
    ¬ LifeCycle (fun _ => false) [⟨0, 0, .mutexInit 8 none⟩, ⟨0, 0, .mutexDestroy 8⟩] := by
  refine ⟨by decide +kernel, by decide +kernel, by decide +kernel, by decide +kernel, by decide +kernel,
    by decide +kernel, fun h => ?_⟩
  exact absurd h.replies (by decide +kernel)

end Cxlmc
