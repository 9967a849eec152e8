import Cxlmc.Effect.Entries

/-!
# The order of the store lists

Where a list begins with a recorded initial value, that value is of the whole word (`Model.Opened`),
and the ticks of the evicted stores of a word rise (`Model.Sorted`). So the first store that a read
finds, looking from the newest, is the newest of the run (`Model.IsNewest`).
-/

namespace Cxlmc

open Stateful

/-! ## The recorded initial value -/

theorem eq_or_cons_evictedStores (l : List ModelAction) :
    l = evictedStores l ∨ ∃ a, a.type = .atomicInit ∧ l = a :: evictedStores l := by
  cases l with
  | nil => exact .inl rfl
  | cons a rest =>
      rw [evictedStores]
      split
      · next htype => exact .inr ⟨a, htype, rfl⟩
      · exact .inl rfl

/-- An eviction to a list adds the store to those that were evicted, unless it opens the list. -/
theorem evictedStores_concat (l : List ModelAction) (b : ModelAction) :
    evictedStores (l ++ [b]) = evictedStores l ++ [b] ∨
      l = [] ∧ b.type = .atomicInit ∧ evictedStores (l ++ [b]) = [] := by
  cases l with
  | nil =>
      by_cases htype : b.type = .atomicInit
      · exact .inr ⟨rfl, htype, if_pos htype⟩
      · exact .inl (if_neg htype)
  | cons c rest =>
      left
      show evictedStores (c :: (rest ++ [b])) = evictedStores (c :: rest) ++ [b]
      rw [evictedStores, evictedStores]
      split <;> rfl

namespace Model

/-- A list that begins with an initial value begins with that of its word; no buffer holds an
`ATOMIC_INIT` that could begin one. -/
structure Opened (s : Model) : Prop where
  head : ∀ w a rest, s.objToWr w = a :: rest → a.type = .atomicInit → a.location = w ∧ a.size = 8
  buffered : ∀ t, ∀ b ∈ (s.threadMemory t).storeBuffer, b.type = .atomicInit → s.objToWr b.word ≠ []

/-- The evicted stores of each word, in the order in which their clocks were taken. -/
def Sorted (s : Model) : Prop := ∀ w, (s.storesOf w).Pairwise fun a b => a.tick < b.tick

/-- No two evicted stores have taken their clock at the same tick. -/
def ClocksUnique (s : Model) : Prop :=
  ∀ w w', ∀ a ∈ s.storesOf w, ∀ b ∈ s.storesOf w', a.tick = b.tick → a = b

theorem opened_init {n cxlMapping : Nat} {memory : Nat → Nat} {mutexType : MutexId → MutexType} :
    (Model.init n cxlMapping memory mutexType).Opened := by
  constructor
  · intro w a rest hlist
    cases hlist
  · intro t b hb
    cases hb

theorem sorted_init {n cxlMapping : Nat} {memory : Nat → Nat} {mutexType : MutexId → MutexType} :
    (Model.init n cxlMapping memory mutexType).Sorted :=
  fun _ => .nil

theorem clocksUnique_init {n cxlMapping : Nat} {memory : Nat → Nat}
    {mutexType : MutexId → MutexType} : (Model.init n cxlMapping memory mutexType).ClocksUnique := by
  intro w w' a ha
  cases ha

end Model

/-- The evicted stores of a word after an effect. -/
def Effect.storesOf (s : Model) (w : Nat) : Effect → List ModelAction
  | .popStore _ b =>
      if w = b.word then s.storesOf w ++ [{ b with tick := s.ticks }] else s.storesOf w
  | _ => s.storesOf w

section

variable {cfg : Config} {s s' : Model} {e : Effect} {P : Effect → Prop}

/-- A list is never emptied. -/
theorem MemStep.objToWr_ne_nil (hcfg : cfg.memPoison = false) (h : MemStep cfg s e s') {w : Nat}
    (hw : s.objToWr w ≠ []) : s'.objToWr w ≠ [] := by
  cases h.list hcfg w with
  | kept heq =>
      rw [heq]
      exact hw
  | evicted _ _ _ _ _ _ _ heq =>
      rw [heq]
      exact List.concat_ne_nil _ _
  | initial _ _ hempty _ => exact absurd hempty hw

theorem Goes.objToWr_ne_nil (hcfg : cfg.memPoison = false) (h : Goes (MemStep cfg) P s s') {w : Nat}
    (hw : s.objToWr w ≠ []) : s'.objToWr w ≠ [] :=
  h.invariant (I := fun a => a.objToWr w ≠ []) (fun _ _ _ _ ha hstep => hstep.objToWr_ne_nil hcfg ha) hw

/-- An `ATOMIC_INIT` may only be pushed where its word has its initial value. -/
theorem MemStep.opened (hcfg : cfg.memPoison = false) (h : MemStep cfg s e s')
    (hpush : ∀ b, e = .push b → b.type = .atomicInit → s.objToWr b.word ≠ []) (ho : s.Opened) :
    s'.Opened := by
  constructor
  · intro w a rest hlist htype
    cases h.head hcfg hlist with
    | kept rest' hold => exact ho.head w a rest' hold htype
    | evicted t b hmem _ hword hempty heq =>
        -- the store that opens the list is no `ATOMIC_INIT`
        subst hword heq
        exact absurd hempty (ho.buffered t b hmem htype)
    | initial _ heq =>
        subst heq
        exact ⟨rfl, rfl⟩
  · intro t b hb htype
    apply h.objToWr_ne_nil hcfg
    rcases h.mem_storeBuffer hcfg hb with hb | ⟨he, _⟩
    · exact ho.buffered t b hb htype
    · exact hpush b he htype

/-- The evicted stores after an effect. -/
theorem MemStep.storesOf (hcfg : cfg.memPoison = false) (h : MemStep cfg s e s') (ho : s.Opened)
    (w : Nat) : s'.storesOf w = e.storesOf s w := by
  show evictedStores (s'.objToWr w) = _
  rw [h.objToWr hcfg]
  cases h with
  | popStore t b rest hbuf _ =>
      show evictedStores (Function.update s.objToWr b.word _ w) =
        if w = b.word then s.storesOf w ++ [{ b with tick := s.ticks }] else s.storesOf w
      by_cases hword : w = b.word
      · rw [hword, Function.update_self, if_pos rfl]
        rcases evictedStores_concat (s.objToWr b.word) { b with tick := s.ticks } with
          hcat | ⟨hempty, htype, _⟩
        · exact hcat
        · exact absurd hempty (ho.buffered t b (by rw [hbuf]; exact List.mem_cons_self) htype)
      · rw [Function.update_of_ne hword, if_neg hword]
        rfl
  | initial w' _ hempty =>
      show evictedStores (Function.update s.objToWr w' _ w) = s.storesOf w
      by_cases hword : w = w'
      · rw [hword, Function.update_self, Model.storesOf, hempty]
        rfl
      · rw [Function.update_of_ne hword]
        rfl
  | _ => rfl

/-- The ticks of a list rise. -/
theorem MemStep.sorted (hcfg : cfg.memPoison = false) (h : MemStep cfg s e s') (hr : s.Recorded)
    (hs : s.Sorted) : s'.Sorted := by
  intro w
  have hw := hs w
  rw [Model.storesOf] at hw ⊢
  cases h.list hcfg w with
  | kept heq =>
      rw [heq]
      exact hw
  | evicted _ b _ _ _ _ _ heq =>
      rw [heq]
      rcases evictedStores_concat (s.objToWr w) { b with tick := s.ticks } with
        hcat | ⟨_, _, hcat⟩
      · rw [hcat]
        refine List.pairwise_append.mpr ⟨hw, List.pairwise_singleton _ _, ?_⟩
        intro x hx y hy
        rw [List.mem_singleton.mp hy]
        exact hr.clock w x hx
      · rw [hcat]
        exact .nil
  | initial _ _ _ heq =>
      rw [heq]
      exact .nil

/-- A store is evicted at a tick at which no store was evicted before. -/
theorem MemStep.clocksUnique (hcfg : cfg.memPoison = false) (h : MemStep cfg s e s')
    (hr : s.Recorded) (hu : s.ClocksUnique) : s'.ClocksUnique := by
  intro w w' a ha b hb heq
  rcases h.mem_storesOf hcfg ha with ha | ⟨t, c, rest, rfl, _, _, rfl⟩
  · have hlt := hr.clock w a ha
    rcases h.mem_storesOf hcfg hb with hb | ⟨_, _, _, _, _, _, rfl⟩
    · exact hu w w' a ha b hb heq
    · exact absurd heq (Nat.ne_of_lt hlt)
  · rcases h.mem_storesOf hcfg hb with hb | ⟨_, _, _, he, _, _, rfl⟩
    · exact absurd heq.symm (Nat.ne_of_lt (hr.clock w' b hb))
    · cases he
      rfl

theorem Goes.clocksUnique (hcfg : cfg.memPoison = false) (h : Goes (MemStep cfg) P s s')
    (hr : s.Recorded) (hu : s.ClocksUnique) : s'.ClocksUnique := by
  have hboth : s'.Recorded ∧ s'.ClocksUnique := by
    apply h.invariant (I := fun a => a.Recorded ∧ a.ClocksUnique) _ ⟨hr, hu⟩
    intro a e b _ ⟨har, hau⟩ hstep
    exact ⟨hstep.recorded hcfg har, hstep.clocksUnique hcfg har hau⟩
  exact hboth.2

theorem Goes.sorted (hcfg : cfg.memPoison = false) (h : Goes (MemStep cfg) P s s') (hr : s.Recorded)
    (hs : s.Sorted) : s'.Sorted := by
  have hboth : s'.Recorded ∧ s'.Sorted := by
    apply h.invariant (I := fun a => a.Recorded ∧ a.Sorted) _ ⟨hr, hs⟩
    intro a e b _ ⟨har, has⟩ hstep
    exact ⟨hstep.recorded hcfg har, hstep.sorted hcfg har has⟩
  exact hboth.2

end

/-! ## The newest store -/

/-- The newest evicted store that covers a byte. -/
structure Model.IsNewest (s : Model) (addr : Nat) (a : ModelAction) : Prop where
  evicted : ∃ w, a ∈ s.storesOf w
  covers : a.Covers addr
  newest : ∀ w, ∀ b ∈ s.storesOf w, b.Covers addr → b.tick ≤ a.tick

theorem Model.IsNewest.unique {s : Model} {addr : Nat} {a b : ModelAction} (hu : s.ClocksUnique)
    (ha : s.IsNewest addr a) (hb : s.IsNewest addr b) : a = b := by
  obtain ⟨w, hw⟩ := ha.evicted
  obtain ⟨w', hw'⟩ := hb.evicted
  apply hu w w' a hw b hw'
  exact Nat.le_antisymm (hb.newest w a hw ha.covers) (ha.newest w' b hw' hb.covers)

/-- The first store from the back of a sorted list that satisfies `p` is the newest that does. -/
theorem le_of_find?_reverse {l : List ModelAction} {p : ModelAction → Bool} {a : ModelAction}
    (hsorted : l.Pairwise fun a b => a.tick < b.tick) (h : l.reverse.find? p = some a) :
    ∀ b ∈ l, p b = true → b.tick ≤ a.tick := by
  obtain ⟨hp, later, older, hl, hlater⟩ := List.find?_eq_some_iff_append.mp h
  obtain rfl : l = older.reverse ++ a :: later.reverse := by
    rw [← List.reverse_reverse l, hl]
    simp
  intro b hb hpb
  rcases List.mem_append.mp hb with hb | hb
  · exact Nat.le_of_lt ((List.pairwise_append.mp hsorted).2.2 b hb a List.mem_cons_self)
  · rcases List.mem_cons.mp hb with rfl | hb
    · exact Nat.le_refl _
    · have hnot := hlater b (List.mem_reverse.mp hb)
      rw [hpb] at hnot
      cases hnot

end Cxlmc
