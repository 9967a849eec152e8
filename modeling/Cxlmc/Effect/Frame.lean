import Cxlmc.Effect.Buffers
import Cxlmc.Effect.Reads

/-!
# The memory after each effect

For each part of the memory, what it is after an effect as a function of the effect. Invariants are
proved from these and never look into `MemStep` again.
-/

namespace Cxlmc

open Stateful

namespace Effect

/-- The store lists after an effect. -/
def objToWr (s : Model) : Effect → Nat → List ModelAction
  | popStore _ a =>
      Function.update s.objToWr a.word (s.objToWr a.word ++ [{ a with tick := s.ticks }])
  | initial w => Function.update s.objToWr w [s.initialValue w]
  | _ => s.objToWr

/-- The clock after an effect. -/
def ticks (s : Model) : Effect → Nat
  | popStore _ _ | popClflush _ _ => s.ticks + 1
  | _ => s.ticks

/-- The store buffer of `u` after an effect. -/
def storeBuffer (s : Model) (u : ThreadId) : Effect → List ModelAction
  | push a =>
      if u = s.threadId then (s.threadMemory u).storeBuffer ++ [a] else (s.threadMemory u).storeBuffer
  | popStore t _ | popClflush t _ | popClflushopt t _ | popSfence t _ =>
      if u = t then (s.threadMemory u).storeBuffer.tail else (s.threadMemory u).storeBuffer
  | _ => (s.threadMemory u).storeBuffer

/-- The flush buffer of `u` after an effect. -/
def flushBuffer (s : Model) (u : ThreadId) : Effect → List ModelAction
  | popClflushopt t a =>
      if u = t then
        (s.threadMemory u).flushBuffer ++ [(s.threadMemory u).raiseEarliestEffect a]
      else (s.threadMemory u).flushBuffer
  | flush t _ =>
      if u = t then (s.threadMemory u).flushBuffer.tail else (s.threadMemory u).flushBuffer
  | _ => (s.threadMemory u).flushBuffer

/-- The entry that an effect takes out of the store buffer of a thread. -/
def taken : Effect → Option (ThreadId × ModelAction)
  | popStore t a | popClflush t a | popClflushopt t a | popSfence t a => some (t, a)
  | _ => none

end Effect

section

variable {cfg : Config} {s s' : Model} {e : Effect}

theorem MemStep.objToWr (hcfg : cfg.memPoison = false) (h : MemStep cfg s e s') :
    s'.objToWr = e.objToWr s := by
  cases h with
  | idle h => exact congrArg Memory.objToWr h.memory
  | yield h => exact congrArg Memory.objToWr h.memory
  | read action rf htid hpos hread =>
      have hmem := congrArg Memory.objToWr (buildReadFromSlots_observes hpos hcfg hread).memory
      exact hmem
  | _ => rfl

/-- What an effect does to the store list of one word. -/
inductive ListCase (s : Model) (e : Effect) (s' : Model) (w : Nat) : Prop where
  | kept (heq : s'.objToWr w = s.objToWr w)
  | evicted (t : ThreadId) (b : ModelAction) (rest : List ModelAction) (he : e = .popStore t b)
      (hbuf : (s.threadMemory t).storeBuffer = b :: rest) (hw : b.isWrite = true) (hword : w = b.word)
      (heq : s'.objToWr w = s.objToWr w ++ [{ b with tick := s.ticks }])
  | initial (he : e = .initial w) (haligned : alignAddress w = w) (hempty : s.objToWr w = [])
      (heq : s'.objToWr w = [s.initialValue w])

theorem MemStep.list (hcfg : cfg.memPoison = false) (h : MemStep cfg s e s') (w : Nat) :
    ListCase s e s' w := by
  have hlist : s'.objToWr w = e.objToWr s w := congrFun (h.objToWr hcfg) w
  cases h with
  | popStore t b rest hbuf hw =>
      rw [Effect.objToWr] at hlist
      by_cases hword : w = b.word
      · subst hword
        rw [Function.update_self] at hlist
        exact .evicted t b rest rfl hbuf hw rfl hlist
      · rw [Function.update_of_ne hword] at hlist
        exact .kept hlist
  | initial w' haligned hempty =>
      rw [Effect.objToWr] at hlist
      by_cases hword : w = w'
      · subst hword
        rw [Function.update_self] at hlist
        exact .initial rfl haligned hempty hlist
      · rw [Function.update_of_ne hword] at hlist
        exact .kept hlist
  | _ => exact .kept hlist

/-- Where the head of a list comes from. -/
inductive HeadCase (s : Model) (w : Nat) (a : ModelAction) : Prop where
  | kept (rest : List ModelAction) (hold : s.objToWr w = a :: rest)
  | evicted (t : ThreadId) (b : ModelAction) (hmem : b ∈ (s.threadMemory t).storeBuffer)
      (hw : b.isWrite = true) (hword : w = b.word) (hempty : s.objToWr w = [])
      (heq : a = { b with tick := s.ticks })
  | initial (hempty : s.objToWr w = []) (heq : a = s.initialValue w)

/-- Only a list that was empty gets a new head. -/
theorem MemStep.head {w : Nat} {a : ModelAction} {rest : List ModelAction}
    (hcfg : cfg.memPoison = false) (h : MemStep cfg s e s') (hlist : s'.objToWr w = a :: rest) :
    HeadCase s w a := by
  cases h.list hcfg w with
  | kept heq => exact .kept rest (heq ▸ hlist)
  | evicted t b _ _ hbuf hw hword heq =>
      rw [heq] at hlist
      cases hold : s.objToWr w with
      | nil =>
          rw [hold, List.nil_append] at hlist
          cases hlist
          refine .evicted t b ?_ hw hword hold rfl
          rw [hbuf]
          exact List.mem_cons_self
      | cons c rest' =>
          rw [hold, List.cons_append] at hlist
          cases hlist
          exact .kept rest' hold
  | initial _ _ hempty heq =>
      rw [heq] at hlist
      cases hlist
      exact .initial hempty rfl

theorem MemStep.ticks (hcfg : cfg.memPoison = false) (h : MemStep cfg s e s') :
    s'.ticks = e.ticks s := by
  cases h with
  | idle h => exact congrArg Memory.ticks h.memory
  | yield h => exact congrArg Memory.ticks h.memory
  | read action rf htid hpos hread =>
      have hmem := congrArg Memory.ticks (buildReadFromSlots_observes hpos hcfg hread).memory
      exact hmem
  | _ => rfl

/-- The clock never goes back. -/
theorem MemStep.ticks_le (hcfg : cfg.memPoison = false) (h : MemStep cfg s e s') : s.ticks ≤ s'.ticks := by
  rw [h.ticks hcfg]
  cases e <;> first | exact Nat.le_refl _ | exact Nat.le_succ _

theorem Goes.ticks_le {P : Effect → Prop} (hcfg : cfg.memPoison = false) (h : Goes (MemStep cfg) P s s') :
    s.ticks ≤ s'.ticks := by
  apply h.invariant (I := fun x => s.ticks ≤ x.ticks) _ (Nat.le_refl _)
  intro x e y _ hx hstep
  exact Nat.le_trans hx (hstep.ticks_le hcfg)

/-- The entry that is taken is the first of its buffer. -/
theorem MemStep.taken {t : ThreadId} {a : ModelAction} (h : MemStep cfg s e s')
    (he : e.taken = some (t, a)) :
    ∃ rest, (s.threadMemory t).storeBuffer = a :: rest := by
  cases h with
  | popStore t a rest hbuf hw =>
      cases he
      exact ⟨rest, hbuf⟩
  | popClflush t a rest hbuf htype =>
      cases he
      exact ⟨rest, hbuf⟩
  | popClflushopt t a rest hbuf htype =>
      cases he
      exact ⟨rest, hbuf⟩
  | popSfence t a rest hbuf htype =>
      cases he
      exact ⟨rest, hbuf⟩
  | _ => cases he

/-- What kind of entry is taken decides the effect. -/
theorem MemStep.taken_cases {t : ThreadId} {a : ModelAction} (h : MemStep cfg s e s')
    (he : e.taken = some (t, a)) :
    e = .popStore t a ∧ a.isWrite = true ∨ e = .popClflush t a ∧ a.type = .cacheClflush ∨
      e = .popClflushopt t a ∧ a.type = .cacheClflushopt ∨
      e = .popSfence t a ∧ a.type = .cacheSfence := by
  cases h with
  | popStore t a _ _ hw =>
      cases he
      exact .inl ⟨rfl, hw⟩
  | popClflush t a _ _ htype =>
      cases he
      exact .inr (.inl ⟨rfl, htype⟩)
  | popClflushopt t a _ _ htype =>
      cases he
      exact .inr (.inr (.inl ⟨rfl, htype⟩))
  | popSfence t a _ _ htype =>
      cases he
      exact .inr (.inr (.inr ⟨rfl, htype⟩))
  | _ => cases he

theorem MemStep.storeBuffer (hcfg : cfg.memPoison = false) (h : MemStep cfg s e s') (u : ThreadId) :
    (s'.threadMemory u).storeBuffer = e.storeBuffer s u := by
  have hsame : ∀ {m : Memory}, s'.toMemory = m → m.threadMemory = s.threadMemory →
      (s'.threadMemory u).storeBuffer = (s.threadMemory u).storeBuffer := by
    intro m hm hthread
    rw [hm, hthread]
  have hsettles : ∀ {t}, e.Settles t →
      (s'.threadMemory u).storeBuffer = (s.threadMemory u).storeBuffer :=
    fun he => h.storeBuffer_of_settles he u
  have hpops : ∀ {t a rest}, e.Pops t a → (s.threadMemory t).storeBuffer = a :: rest →
      (s'.threadMemory u).storeBuffer =
        if u = t then (s.threadMemory u).storeBuffer.tail else (s.threadMemory u).storeBuffer := by
    intro t a rest he hbuf
    rw [h.storeBuffer_of_pops he hbuf]
    split
    · next hu => rw [hu, hbuf, List.tail_cons]
    · rfl
  cases h with
  | idle h => exact hsame h.memory rfl
  | yield h => exact hsame h.memory rfl
  | read action rf htid hpos hread =>
      exact hsame (buildReadFromSlots_observes hpos hcfg hread).memory rfl
  | push a _ _ _ _ =>
      rw [Model.pushed, Model.threadMemory_setThreadMemory, Effect.storeBuffer]
      split <;> rfl
  | popStore t a rest hbuf hw => exact hpops ⟨rfl, rfl⟩ hbuf
  | popClflush t a rest hbuf htype => exact hpops ⟨rfl, rfl⟩ hbuf
  | popClflushopt t a rest hbuf htype => exact hpops ⟨rfl, rfl⟩ hbuf
  | popSfence t a rest hbuf htype => exact hpops ⟨rfl, rfl⟩ hbuf
  | flush t a rest hbuf htype => exact hsettles rfl
  | note t a hclock => exact hsettles rfl
  | sfenceDone t a _ => exact hsettles rfl
  | _ => rfl

/-- An entry that is taken leaves the rest of its buffer. -/
theorem MemStep.storeBuffer_taken {t : ThreadId} {a : ModelAction} (hcfg : cfg.memPoison = false)
    (h : MemStep cfg s e s') (he : e.taken = some (t, a)) :
    (s.threadMemory t).storeBuffer = a :: (s'.threadMemory t).storeBuffer := by
  obtain ⟨rest, hrest⟩ := h.taken he
  rw [h.storeBuffer hcfg]
  have htail : (s.threadMemory t).storeBuffer.tail = rest := by rw [hrest, List.tail_cons]
  rcases h.taken_cases he with ⟨rfl, _⟩ | ⟨rfl, _⟩ | ⟨rfl, _⟩ | ⟨rfl, _⟩ <;>
    rw [Effect.storeBuffer, if_pos rfl, htail, hrest]

/-- An effect that neither takes an entry of a thread nor pushes one leaves its store buffer. -/
theorem MemStep.storeBuffer_kept (hcfg : cfg.memPoison = false) (h : MemStep cfg s e s')
    {u : ThreadId} (htaken : ∀ a, e.taken ≠ some (u, a)) (hpush : ∀ b, e = .push b → u ≠ s.threadId) :
    (s'.threadMemory u).storeBuffer = (s.threadMemory u).storeBuffer := by
  have hother : ∀ {t a}, e.taken = some (t, a) → u ≠ t := by
    rintro t a he rfl
    exact htaken a he
  rw [h.storeBuffer hcfg]
  cases e with
  | push b => exact if_neg (hpush b rfl)
  | popStore t a => exact if_neg (hother rfl)
  | popClflush t a => exact if_neg (hother rfl)
  | popClflushopt t a => exact if_neg (hother rfl)
  | popSfence t a => exact if_neg (hother rfl)
  | _ => rfl

theorem MemStep.flushBuffer (hcfg : cfg.memPoison = false) (h : MemStep cfg s e s') (u : ThreadId) :
    (s'.threadMemory u).flushBuffer = e.flushBuffer s u := by
  have hpopped : ∀ t rest,
      ((s.popped t rest).threadMemory u).flushBuffer = (s.threadMemory u).flushBuffer :=
    fun t _ => s.setThreadMemory_keeps t u ThreadMemory.flushBuffer fun _ => rfl
  have hnoted : ∀ (m : Model) t line clock,
      ((m.noted t line clock).threadMemory u).flushBuffer = (m.threadMemory u).flushBuffer :=
    fun m t _ _ => m.setThreadMemory_keeps t u ThreadMemory.flushBuffer fun _ => rfl
  cases h with
  | idle h => rw [h.memory]; rfl
  | yield h => rw [h.memory]; rfl
  | read action rf htid hpos hread =>
      rw [(buildReadFromSlots_observes hpos hcfg hread).memory]
      rfl
  | push a _ _ _ _ => exact s.setThreadMemory_keeps s.threadId u ThreadMemory.flushBuffer fun _ => rfl
  | popStore t a rest _ _ =>
      exact (hnoted ((s.popped t rest).evicted a) t a.line _).trans (hpopped t rest)
  | popClflush t a rest _ _ => exact hpopped t rest
  | popClflushopt t a rest _ _ =>
      rw [Model.queued, Model.threadMemory_setThreadMemory, Effect.flushBuffer]
      by_cases hu : u = t
      · have hmem : (s.popped t rest).threadMemory u =
            { s.threadMemory u with storeBuffer := rest } := by
          rw [Model.popped, Model.threadMemory_setThreadMemory, if_pos hu]
        rw [if_pos hu, if_pos hu, hmem]
        rfl
      · rw [if_neg hu, if_neg hu]
        exact hpopped t rest
  | popSfence t a rest _ _ => exact hpopped t rest
  | flush t a rest hbuf _ =>
      show ((s.unqueued t rest).threadMemory u).flushBuffer = _
      rw [Model.unqueued, Model.threadMemory_setThreadMemory, Effect.flushBuffer]
      split
      · next hu => rw [hu, hbuf, List.tail_cons]
      · rfl
  | note t a _ => exact hnoted s t _ _
  | sfenceDone t a _ => exact s.setThreadMemory_keeps t u ThreadMemory.flushBuffer fun _ => rfl
  | _ => rfl

/-! ## Empty buffers -/

/-- Both buffers of a thread are empty. -/
structure Model.Emptied (s : Model) (u : ThreadId) : Prop where
  storeBuffer : (s.threadMemory u).storeBuffer = []
  flushBuffer : (s.threadMemory u).flushBuffer = []

/-- Only a push of its own fills the buffers of a thread. -/
theorem MemStep.emptied (hcfg : cfg.memPoison = false) (h : MemStep cfg s e s') {u : ThreadId}
    (hpush : ∀ b, e = .push b → u ≠ s.threadId) (hu : s.Emptied u) : s'.Emptied u := by
  have htaken : ∀ b, e.taken ≠ some (u, b) := by
    intro b he
    obtain ⟨rest, hrest⟩ := h.taken he
    rw [hu.storeBuffer] at hrest
    cases hrest
  constructor
  · rw [h.storeBuffer_kept hcfg htaken hpush]
    exact hu.storeBuffer
  · rw [h.flushBuffer hcfg]
    cases e with
    | popClflushopt t b =>
        have hne : u ≠ t := by
          rintro rfl
          exact htaken b rfl
        exact (if_neg hne).trans hu.flushBuffer
    | flush t b =>
        show (if u = t then _ else _) = _
        rw [hu.flushBuffer, List.tail_nil, ite_self]
    | _ => exact hu.flushBuffer

theorem Goes.emptied {P : Effect → Prop} (hcfg : cfg.memPoison = false)
    (h : Goes (MemStep cfg) P s s') {u : ThreadId} (hpush : ∀ b, ¬ P (.push b))
    (hu : s.Emptied u) : s'.Emptied u := by
  apply h.invariant (I := fun x => x.Emptied u) _ hu
  intro x e y he hx hstep
  exact hstep.emptied hcfg (fun b hb => absurd (hb ▸ he) (hpush b)) hx

end

end Cxlmc
