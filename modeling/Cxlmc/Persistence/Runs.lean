import Cxlmc.Flush.Exact
import Cxlmc.Persistence.Completed
import Cxlmc.Persistence.Narrows

/-!
# Persistence along the steps of a run

The flushes and reads of a run are effects inside its steps. What they do to the intervals and to the clocks
holds of the states between the steps (`IsRun.intervals`, `IsRun.clocks`, `IsRun.mustPersist_iff`), and a store
that a flush or a read has made durable is found by every load of the steps that follow
(`IsRun.durable_of_clflush`, `IsRun.durable_of_seen`).
-/

namespace Cxlmc

open Stateful Fill

section

variable {cfg : Config} {n cxlMapping : Nat} {memory : Nat → Nat} {mutexType : MutexId → MutexType}
  {tr : List (Model × Label)} {s s' : Model} {pre mid post : List (Model × Label × Model)}
  {x y z : Model × Label × Model} {a b w : ModelAction} {t : ThreadId} {S : Model → Effect → Model → Prop}

/-! ## Paths along a run -/

/-- The paths of the steps make a path of the run. -/
theorem IsRun.path (hrun : IsRun cfg n cxlMapping memory mutexType tr s')
    (hsteps : ∀ x ∈ stepsOf tr s', Goes S (fun _ => True) x.1 x.2.2) :
    (∀ x ∈ stepsOf tr s', Goes S (fun _ => True) (Model.init n cxlMapping memory mutexType) x.1) ∧
      Goes S (fun _ => True) (Model.init n cxlMapping memory mutexType) s' := by
  obtain ⟨hall, hlast⟩ := hrun.2.invariant_stepsOf
    (P := fun s => Goes S (fun _ => True) (Model.init n cxlMapping memory mutexType) s)
    (fun s l s₁ hmem hbefore _ => hbefore.trans (hsteps _ hmem)) (.refl _)
  exact ⟨fun x hx => (hall x hx).1, hlast⟩

/-- The path of the steps between two steps. -/
theorem IsRun.path_between (hrun : IsRun cfg n cxlMapping memory mutexType tr s')
    (heq : stepsOf tr s' = pre ++ x :: (mid ++ y :: post))
    (hsteps : ∀ z ∈ mid, Goes S (fun _ => True) z.1 z.2.2) : Goes S (fun _ => True) x.2.2 y.1 :=
  hrun.2.between heq (.refl _) fun z hz hbefore => hbefore.trans (hsteps z hz)

/-- A thread that has been created is one of a process of the run. -/
theorem IsRun.process_lt (hcfg : cfg.memPoison = false)
    (hrun : IsRun cfg n cxlMapping memory mutexType tr s') (hx : x ∈ stepsOf tr s')
    (ht : t < x.1.threadCount) : (x.1.threads t).processId < x.1.processCount := by
  obtain ⟨hall, _⟩ := hrun.threads hcfg (P := fun _ => True) trivial fun _ _ _ _ _ _ _ _ => trivial
  exact (hall x hx).1.peopled.process t ht

theorem IsRun.processCount (hcfg : cfg.memPoison = false)
    (hrun : IsRun cfg n cxlMapping memory mutexType tr s') (hx : x ∈ stepsOf tr s') :
    x.1.processCount = n := by
  apply ((hrun.goes hcfg).1 x hx).1.invariant (I := fun s => s.processCount = n) _ rfl
  intro a e b _ ha hab
  exact (hab.processCount hcfg).trans ha

/-! ## Intervals -/

/-- What is open after some effects was open before. -/
theorem Cacheline.Narrows.isOpen {cl cl' : Cacheline} (h : cl.Narrows cl') (hopen : cl'.IsOpen) :
    cl.IsOpen := by
  by_cases hend : cl.getEnd = 0
  · exact .inl hend
  · obtain ⟨hne, hle⟩ := h.2 hend
    have hlt := hopen.resolve_left hne
    exact .inr (Nat.lt_of_le_of_lt h.1 (Nat.lt_of_lt_of_le hlt hle))

/-- Only a read moves an `end`. -/
theorem MemStep.getEnd {e : Effect} (h : MemStep cfg s e s') (he : ∀ action rf, e ≠ .read action rf)
    (p : ProcessId) (line : Nat) : (s'.objToCl p line).getEnd = (s.objToCl p line).getEnd := by
  have hflushed : ∀ (m : Model) seqNum l, m.objToCl = s.objToCl →
      ((m.flushed seqNum l).objToCl p line).getEnd = (s.objToCl p line).getEnd := by
    intro m seqNum l hm
    rw [m.flushed_objToCl, hm]
    split <;> rfl
  cases h with
  | idle h => rw [h.memory]
  | yield h => rw [h.memory]
  | popClflush t a rest _ _ => exact hflushed (s.popped t rest).tick _ _ rfl
  | flush t a rest _ _ => exact hflushed (s.unqueued t rest) _ _ rfl
  | read action rf _ _ _ => exact absurd rfl (he action rf)
  | _ => rfl

/-- Before a load begins to read, only crashed processes have an `end`, as before its step. -/
theorem Goes.crashed_of_approaches {t : ThreadId} (hcfg : cfg.memPoison = false)
    (h : Goes (MemStep cfg) (Effect.Approaches t) s s')
    (hs : ∀ p line, (s.objToCl p line).getEnd ≠ 0 → p ∈ s.crashes) :
    ∀ p line, (s'.objToCl p line).getEnd ≠ 0 → p ∈ s'.crashes := by
  apply h.invariant (I := fun s => ∀ p line, (s.objToCl p line).getEnd ≠ 0 → p ∈ s.crashes) _ hs
  intro a e b he ha hstep p line hend
  rw [hstep.getEnd (by
    rintro action rf rfl
    cases he with
    | drains h => exact h) p line] at hend
  exact hstep.mem_crashes hcfg (ha p line hend)

/-- The stores that a read returns are those of threads that have been created. -/
theorem MemStep.tid_lt_of_read {read : ModelAction} {rf : Slots} (hcfg : cfg.memPoison = false)
    (h : MemStep cfg s (.read read rf) s') (hr : s.Recorded) (ha : some a ∈ rf) : a.tid < s.threadCount := by
  rcases h.mem_of_read hcfg ha with hmem | hmem
  · exact (hr.listed _ a hmem).1
  · obtain ⟨htid, hlt, _⟩ := hr.buffered _ a hmem
    rw [htid]
    exact hlt

/-- **The intervals of a run.** In a run no step of which empties an interval by a flush, all intervals stay
open and only narrow, and a load returns no store that was found lost in an earlier step. -/
theorem IsRun.intervals (hrun : IsRun .asBuilt n cxlMapping memory mutexType tr s')
    (hspare : ∀ x ∈ stepsOf tr s', Goes (SparingStep .asBuilt) (fun _ => True) x.1 x.2.2) :
    (∀ x ∈ stepsOf tr s', ∀ p line, (x.2.2.objToCl p line).IsOpen ∧
      (x.1.objToCl p line).Narrows (x.2.2.objToCl p line)) ∧
    ∀ pre x mid y post, stepsOf tr s' = pre ++ x :: (mid ++ y :: post) →
      ∀ read v rf, y.2.1.event = .executed read v rf → read.isLoad = true → ∀ a, some a ∈ rf →
        ¬ (x.2.2.objToCl (y.2.2.getProcessId a) a.line).Loses a.seqNum := by
  have hsteps : ∀ x ∈ stepsOf tr s', x.1.Recorded ∧ x.1.Intervals ∧ x.2.2.Intervals ∧ x.1.Narrows x.2.2 := by
    intro x hx
    obtain ⟨hr, hi, _⟩ :=
      Goes.intervals rfl ((hrun.path hspare).1 x hx) (Model.recorded_init hrun.1) Model.intervals_init
    obtain ⟨_, hi', hnarrows⟩ := Goes.intervals rfl (hspare x hx) hr hi
    exact ⟨hr, hi, hi', hnarrows⟩
  constructor
  · intro x hx p line
    obtain ⟨_, _, hi', hnarrows⟩ := hsteps x hx
    exact ⟨hi'.isOpen p line, hnarrows p line⟩
  · intro pre x mid y post heq read v rf hev hload a ha hlost
    have hx : x ∈ stepsOf tr s' := by simp [heq]
    have hy : y ∈ stepsOf tr s' := by simp [heq]
    obtain ⟨hr, hi, hi', _⟩ := hsteps y hy
    obtain ⟨hplaced, _, htid, hcase⟩ := (hrun.listed rfl).1 y hy
    rw [hev] at hcase
    obtain ⟨s₁, s₂, hbefore, hread, hcontrol, _⟩ := hcase.reads hplaced hload
    -- the intervals are open when the load begins to read, as they are after the step
    have hopen : s₁.Intervals := by
      refine ⟨?_, Goes.crashed_of_approaches rfl hbefore hi.crashed⟩
      intro p line
      have hafter := hi'.isOpen p line
      rw [hcontrol.memory] at hafter
      exact (hread.narrows rfl p line).isOpen hafter
    have hnarrows : x.2.2.Narrows s₁ := by
      have hbetween : Goes (MemStep .asBuilt) (fun _ => True) x.2.2 y.1 := by
        apply hrun.path_between heq
        intro z hz
        have hz : z ∈ stepsOf tr s' := by simp [heq, hz]
        exact ((hrun.goes rfl).1 z hz).2.mono fun _ _ => trivial
      exact (Goes.narrows rfl hbetween).trans (Goes.narrows rfl hbefore)
    have hr₁ := Goes.recorded rfl hbefore hr
    have hpid : y.2.2.getProcessId a = s₁.getProcessId a := by
      have htid : a.tid < s₂.threadCount :=
        Nat.lt_of_lt_of_le (hread.tid_lt_of_read rfl hr₁ ha) (hread.threadCount rfl).1
      exact (hcontrol.processId _ htid).trans (hread.read_getProcessId rfl a)
    cases hread with
    | read _ _ _ hpos hends =>
        obtain ⟨_, _, hslots⟩ := buildReadFromSlots_intervals rfl hpos hr₁ hopen hends
        refine hslots a ha ?_
        rw [Model.Lost, ← hpid]
        exact hlost.narrows (hnarrows _ _)

/-! ## Clocks -/

/-- **The clocks of a run.** In a run no step of which evicts a store at clock `0`, the clocks of each list
rise in every state until the clock wraps around, only the initial values have clock `0`, and a store on a line
that nothing has moved may have persisted or not. -/
theorem IsRun.clocks (hrun : IsRun .asBuilt n cxlMapping memory mutexType tr s')
    (hlater : ∀ x ∈ stepsOf tr s', Goes (LaterStep .asBuilt) (fun _ => True) x.1 x.2.2)
    (hx : x ∈ stepsOf tr s') (hticks : x.2.2.ticks < 2 ^ 32) (word : Nat) :
    (x.2.2.objToWr word).Pairwise (fun a b => a.seqNum < b.seqNum) ∧
      ∀ a ∈ x.2.2.objToWr word, IsInitialValue word a ∨ 0 < a.seqNum ∧
        (x.2.2.objToCl (x.2.2.getProcessId a) a.line = Cacheline.new →
          (x.2.2.objToCl (x.2.2.getProcessId a) a.line).MayPersist a.seqNum) := by
  obtain ⟨ht, hapart⟩ := Goes.ticksApart rfl (((hrun.path hlater).1 x hx).trans (hlater x hx))
  obtain ⟨hpair, hpos⟩ := hapart.clocks ht hticks word
  refine ⟨hpair, ?_⟩
  intro a ha
  by_cases hinit : IsInitialValue word a
  · exact .inl hinit
  · exact .inr ⟨(hpos a ha).resolve_left hinit, hapart.mayPersist ht hticks ha hinit⟩

/-! ## A `CLFLUSH` -/

/-- A `CLFLUSH` is popped, and then nothing is flushed or read. -/
theorem popFromStoreBuffer_clflush {rest : List ModelAction}
    (hbuf : (s.threadMemory t).storeBuffer = a :: rest) (htype : a.type = .cacheClflush)
    (h : (popFromStoreBuffer t).Ends s (.ok ()) s') :
    ∃ s₁, MemStep cfg s (.popClflush t a) s₁ ∧
      ∀ i line, Goes (LeavingStep cfg i line) (fun _ => True) s₁ s' := by
  refine ⟨_, .popClflush t a rest hbuf htype, ?_⟩
  intro i line
  rw [popFromStoreBuffer, ends_state_bind, hbuf] at h
  change (popAction t a).Ends (s.popped t rest) (.ok ()) s' at h
  rw [popAction, htype] at h
  obtain ⟨b, s₁, h₁, h₂⟩ := ends_bind_ok.mp h
  obtain ⟨min, ⟨_, hmin⟩ | ⟨hc, _⟩⟩ := ends_evictClflush h₁ (by simp)
  · obtain ⟨e, he⟩ | ⟨hb, hgoes⟩ := crashLoop_returns cfg hmin
    · cases he
    · cases hb
      obtain ⟨_, rfl⟩ := ends_update.mp h₂
      have hclock : s₁.ticks = s.ticks + 1 := congrArg Memory.ticks (Goes.memory_of_crashes hgoes)
      have hcrashes : Goes (LeavingStep cfg i line) (fun _ => True)
          ((s.popped t rest).tick.flushed s.nextSequenceNum a.line) s₁ := by
        apply Relation.ReflTransGen.mono _ _ _ hgoes
        rintro x y ⟨e, he, hstep⟩
        refine ⟨e, trivial, hstep, ?_⟩
        cases e with
        | popClflush t a => exact he.elim
        | flush t a => exact he.elim
        | read action rf => exact he.elim
        | _ => trivial
      exact hcrashes.trans (.single ⟨.note t _ hclock.symm, trivial⟩ trivial)
  · rw [htype] at hc
    cases hc

/-- **A `CLFLUSH` of a run is exact.** In a run a `CLFLUSH` is popped in the step `x`. Until the clock wraps
around, the process `i` crashes, the line is flushed again or another process reads a store of `i` on it, the
stores of `i` on the line that must have persisted are those that were in memory before the step. -/
theorem IsRun.mustPersist_iff {rest : List ModelAction} {i : ProcessId} (hcfg : cfg.memPoison = false)
    (hrun : IsRun cfg n cxlMapping memory mutexType tr s') (heq : stepsOf tr s' = pre ++ x :: (mid ++ y :: post))
    (hev : x.2.1.event = .popped t) (hbuf : (x.1.threadMemory t).storeBuffer = a :: rest)
    (htype : a.type = .cacheClflush) (hi : i < n)
    (hleaves : ∀ z ∈ mid, Goes (LeavingStep cfg i a.line) (fun _ => True) z.1 z.2.2)
    (hlive : y.1.isCrashed i = false) (hticks : y.1.ticks < 2 ^ 32) {word : Nat} (hb : b ∈ y.1.storesOf word) :
    b.seqNum ≤ (y.1.objToCl i a.line).getBegin ↔ b ∈ x.1.storesOf word := by
  have hx : x ∈ stepsOf tr s' := by simp [heq]
  obtain ⟨hplaced, _, _, hcase⟩ := (hrun.listed hcfg).1 x hx
  rw [hev] at hcase
  cases hcase with
  | @popped _ k v ret _ hctx hpop =>
      obtain ⟨s₁, hflush, hrest⟩ :=
        popFromStoreBuffer_clflush (s := x.1.setContext x.1.threadId (.popping t k v ret)) hbuf htype hpop
      -- the state that the round has set, with the memory of the one before it
      have hset := (Model.MovesTo.setContext x.1 (.popping t k v ret)).toControl
      have hbefore := ((hrun.goes hcfg).1 x hx).1.trans (.single (MemStep.yield hset) trivial)
      have hr := Goes.recorded hcfg hbefore (Model.recorded_init hrun.1)
      have hclocked := Goes.clocked hcfg hbefore Model.clocked_init
      have hpath := (hrest i a.line).trans (hrun.path_between heq hleaves)
      have hle : s₁.ticks ≤ y.1.ticks := Goes.ticks_le hcfg (hpath.sub fun _ _ _ hstep => hstep.1)
      have hbelow := Nat.lt_of_le_of_lt (Nat.le_trans (hflush.ticks_le hcfg) hle) hticks
      have hcount : i < x.1.processCount := by rwa [hrun.processCount hcfg hx]
      have hsplit := Goes.splitAt hcfg hpath (hflush.splitAt_popClflush hcfg hr hclocked hbelow hcount)
      apply hsplit.mustPersist_iff hticks _ hb
      rw [← Model.isCrashed_iff, hlive]
      simp

/-! ## Durable stores -/

/-- Each load of the step that wants a byte of `w` takes it from `w`, from a later store, or from the store
buffer of its thread. -/
def Finds (z : Model × Label × Model) (word place : Nat) (w : ModelAction) : Prop :=
  ∀ read v rf, z.2.1.event = .executed read v rf → read.isLoad = true → read.word = word →
    ∀ i, i < read.size → wants read w i = true → ∃ b, rf[i]? = some (some b) ∧
      (b ∈ (z.2.2.objToWr word).drop place ∨ b.tid = z.2.1.tid ∧ b.tick = 0)

/-- The loads of a run find a durable store, in all steps from the one that begins with it. -/
theorem IsRun.finds_durable {word place : Nat} (hcfg : cfg.memPoison = false)
    (hrun : IsRun cfg n cxlMapping memory mutexType tr s') (heq : stepsOf tr s' = pre ++ y :: post)
    (hlisted : y.1.ListedAt word place w) (hdurable : y.1.Durable w) (hz : z ∈ y :: post) :
    z.1.ListedAt word place w ∧ z.1.Durable w ∧ Finds z word place w := by
  have hmem : ∀ u ∈ y :: post, u ∈ stepsOf tr s' := by
    intro u hu
    rw [heq]
    exact List.mem_append_right pre hu
  have hr := ((hrun.listed hcfg).1 y (hmem y List.mem_cons_self)).2.1.recorded
  obtain ⟨⟨_, hlisted', hdurable'⟩, _⟩ := hrun.2.kept heq
    (P := fun s => s.Recorded ∧ s.ListedAt word place w ∧ s.Durable w) ⟨hr, hlisted, hdurable⟩
    (fun u hu ⟨hr, hl, hd⟩ => Goes.durable hcfg ((hrun.goes hcfg).1 u hu).2 hr hl hd) hz
  refine ⟨hlisted', hdurable', ?_⟩
  intro read v rf hev hload hword i hi hwants
  obtain ⟨hplaced, hl, htid, hcase⟩ := (hrun.listed hcfg).1 z (hmem z hz)
  rw [hev] at hcase
  subst hword
  rw [htid]
  exact hcase.readsFrom hcfg hplaced hl.recorded hload fun s₁ s₂ hbefore hread _ =>
    Goes.readsFrom hcfg hbefore hl.recorded hlisted' hdurable' hread hi hwants

/-- A `CLFLUSH` waits in a store buffer with a store of its line in memory. Once it has left the buffer the
store is durable. -/
theorem Goes.durable_of_clflush {P : Effect → Prop} {word place : Nat} {front back : List ModelAction}
    (hcfg : cfg.memPoison = false) (h : Goes (MemStep cfg) P s s') (hr : s.Recorded) (ht : s.Ticked)
    (hbuf : (s.threadMemory t).storeBuffer = front ++ a :: back) (htype : a.type = .cacheClflush)
    (hlisted : s.ListedAt word place w) (hline : w.line = a.line)
    (hwriter : s.getProcessId w < s.processCount)
    (hleft : (s'.threadMemory t).storeBuffer.length ≤ back.length) (hticks : s'.ticks < 2 ^ 32) :
    s'.Durable w := by
  have hends : s'.Recorded ∧ s'.Ticked ∧ s'.ListedAt word place w ∧
      s'.getProcessId w < s'.processCount ∧ (s'.ticks < 2 ^ 32 → s'.Durable w ∨
        ∃ front' more, (s'.threadMemory t).storeBuffer = front' ++ a :: (back ++ more)) := by
    apply h.invariant (I := fun x => x.Recorded ∧ x.Ticked ∧ x.ListedAt word place w ∧
      x.getProcessId w < x.processCount ∧ (x.ticks < 2 ^ 32 → x.Durable w ∨
        ∃ front' more, (x.threadMemory t).storeBuffer = front' ++ a :: (back ++ more))) _
      ⟨hr, ht, hlisted, hwriter, fun _ => .inr ⟨front, [], by rw [hbuf, List.append_nil]⟩⟩
    intro x e x' _ ⟨hr, ht, hlisted, hwriter, hwaits⟩ hstep
    have htid := (hr.listed word w (List.mem_of_getElem? hlisted)).1
    have hpid : x'.getProcessId w = x.getProcessId w := (hstep.threadCount hcfg).2.2 _ htid
    refine ⟨hstep.recorded hcfg hr, hstep.ticked hcfg ht, hstep.listedAt hcfg hlisted, ?_, ?_⟩
    · rw [hpid, hstep.processCount hcfg]
      exact hwriter
    · intro hticks
      have hbelow := Nat.lt_of_le_of_lt (hstep.ticks_le hcfg) hticks
      rcases hwaits hbelow with hdurable | ⟨front', more, hbuf⟩
      · exact .inl (hstep.durable hcfg htid hdurable)
      · rcases hstep.storeBuffer_moves hcfg hbuf with ⟨front₁, hbuf'⟩ | ⟨_, he⟩ | ⟨c, _, _, hbuf'⟩
        · exact .inr ⟨front₁, more, hbuf'⟩
        · left
          rcases hstep.taken_cases he with ⟨_, hw⟩ | ⟨rfl, _⟩ | ⟨_, hother⟩ | ⟨_, hother⟩
          · simp [ModelAction.isWrite, htype] at hw
          · exact hstep.durable_popClflush hcfg ht hbelow hlisted htid hwriter hline
          · rw [htype] at hother
            cases hother
          · rw [htype] at hother
            cases hother
        · exact .inr ⟨front', more ++ [c], by rw [hbuf', List.append_assoc]⟩
  obtain ⟨_, _, _, _, hwaits⟩ := hends
  rcases hwaits hticks with hdurable | ⟨front', more, hbuf'⟩
  · exact hdurable
  · rw [hbuf'] at hleft
    simp at hleft
    omega

/-- **A `CLFLUSH` of a run makes durable.** A store is in memory while a `CLFLUSH` of its line waits in a store
buffer, before the step `x`. Once that has left the buffer, before the step `y`, every load finds the store,
whoever crashes. -/
theorem IsRun.durable_of_clflush {word place : Nat} {front back : List ModelAction}
    (hcfg : cfg.memPoison = false) (hrun : IsRun cfg n cxlMapping memory mutexType tr s')
    (heq : stepsOf tr s' = pre ++ x :: (mid ++ y :: post))
    (hbuf : (x.1.threadMemory t).storeBuffer = front ++ a :: back) (htype : a.type = .cacheClflush)
    (hlisted : x.1.ListedAt word place w) (hline : w.line = a.line)
    (hleft : (y.1.threadMemory t).storeBuffer.length ≤ back.length) (hticks : y.1.ticks < 2 ^ 32)
    (hz : z ∈ y :: post) : z.1.ListedAt word place w ∧ z.1.Durable w ∧ Finds z word place w := by
  have hx : x ∈ stepsOf tr s' := by simp [heq]
  obtain ⟨_, hl, _, _⟩ := (hrun.listed hcfg).1 x hx
  have htid := (hl.recorded.listed word w (List.mem_of_getElem? hlisted)).1
  have hsteps : ∀ u ∈ stepsOf tr s', Goes (MemStep cfg) (fun _ => True) u.1 u.2.2 :=
    fun u hu => ((hrun.goes hcfg).1 u hu).2.mono fun _ _ => trivial
  have hpath : Goes (MemStep cfg) (fun _ => True) x.1 y.1 :=
    (hsteps x hx).trans (hrun.path_between heq fun u hu => hsteps u (by simp [heq, hu]))
  have hdurable := Goes.durable_of_clflush hcfg hpath hl.recorded
    (Goes.rising hcfg ((hrun.goes hcfg).1 x hx).1).1 hbuf htype hlisted hline
    (hrun.process_lt hcfg hx htid) hleft hticks
  have hfrom : stepsOf tr s' = (pre ++ x :: mid) ++ y :: post := by
    rw [heq, List.append_assoc, List.cons_append]
  have hlisted' : y.1.ListedAt word place w := by
    apply hpath.invariant (I := fun s => s.ListedAt word place w) _ hlisted
    intro _ _ _ _ hl hstep
    exact hstep.listedAt hcfg hl
  exact hrun.finds_durable hcfg hfrom hlisted' hdurable hz

theorem MemStep.read_tid {rf : Slots} (h : MemStep cfg s (.read a rf) s') : a.tid = s.threadId := by
  cases h with
  | read _ _ htid _ _ => exact htid

/-- **What a load of a run has seen is durable.** In the step `x` a load returns a store of another process,
which is not a `cxlmc_atomic_init`. Every store that its process has had in memory on the line by then, with a
number no later, is found by every load of the later steps, whoever crashes. -/
theorem IsRun.durable_of_seen {word place v : Nat} {rf : Slots} {seen : ModelAction}
    (hcfg : cfg.memPoison = false) (hrun : IsRun cfg n cxlMapping memory mutexType tr s')
    (heq : stepsOf tr s' = pre ++ x :: post) (hev : x.2.1.event = .executed seen v rf)
    (hload : seen.isLoad = true) (hreturned : some b ∈ rf)
    (hother : x.2.2.getProcessId b ≠ x.2.2.getProcessId seen) (hinit : b.type = .atomicInit → b.seqNum = 0)
    (hlisted : x.2.2.ListedAt word place w) (hpid : x.2.2.getProcessId w = x.2.2.getProcessId b)
    (hline : w.line = b.line) (hle : w.tick ≤ b.tick) (hticks : x.2.2.ticks < 2 ^ 32) (hz : z ∈ post) :
    z.1.ListedAt word place w ∧ z.1.Durable w ∧ Finds z word place w := by
  have hx : x ∈ stepsOf tr s' := by simp [heq]
  obtain ⟨s₁, s₂, hbefore, hread, hcontrol, _, _⟩ := hrun.reads hcfg hx hev hload
  have hr₁ : s₁.Recorded := Goes.recorded hcfg hbefore (Model.recorded_init hrun.1)
  have hr₂ : s₂.Recorded := hread.recorded hcfg hr₁
  -- the processes after the step are those of the read
  have hpids : ∀ c, c.tid < s₁.threadCount → x.2.2.getProcessId c = s₁.getProcessId c := by
    intro c hc
    have hlt := Nat.lt_of_lt_of_le hc (hread.threadCount hcfg).1
    exact (hcontrol.processId _ hlt).trans (hread.read_getProcessId hcfg c)
  have hbtid := hread.tid_lt_of_read hcfg hr₁ hreturned
  have hseen : seen.tid < s₁.threadCount := by
    rw [hread.read_tid]
    exact hr₁.active
  have hlists : x.2.2.objToWr = s₂.objToWr := congrArg Memory.objToWr hcontrol.memory
  have hlisted₂ : s₂.ListedAt word place w := by
    rw [Model.ListedAt, ← hlists]
    exact hlisted
  have hwtid₂ := (hr₂.listed word w (List.mem_of_getElem? hlisted₂)).1
  have hdurable : x.2.2.Durable w := by
    rw [hpids b hbtid, hpids seen hseen] at hother
    have hdurable₂ := hread.durable_read hcfg hr₁ hreturned hother hinit
    have hbelow : s₁.ticks < 2 ^ 32 := by
      rw [hcontrol.memory] at hticks
      exact Nat.lt_of_le_of_lt (hread.ticks_le hcfg) hticks
    have hclock := hread.seqNum_of_read hcfg hr₁ (Goes.rising hcfg hbefore).1 hbelow hreturned
    have hsame : s₂.getProcessId w = s₂.getProcessId b := by
      rw [← show x.2.2.getProcessId w = s₂.getProcessId w from hcontrol.processId _ hwtid₂, hpid,
        hpids b hbtid, hread.read_getProcessId hcfg]
    have hearlier : s₂.Durable w := by
      apply hdurable₂.earlier hsame hline
      rw [hclock]
      exact Nat.le_trans w.seqNum_le hle
    have hcl : x.2.2.objToCl = s₂.objToCl := congrArg Memory.objToCl hcontrol.memory
    unfold Model.Durable at hearlier ⊢
    rw [hcl, show x.2.2.getProcessId w = s₂.getProcessId w from hcontrol.processId _ hwtid₂]
    exact hearlier
  cases post with
  | nil => cases hz
  | cons y post =>
      have hnext : stepsOf tr s' = pre ++ x :: ([] ++ y :: post) := heq
      obtain ⟨hlisted', hdurable'⟩ := hrun.2.between
        (P := fun s => s.ListedAt word place w ∧ s.Durable w) hnext ⟨hlisted, hdurable⟩
        fun _ hu => absurd hu List.not_mem_nil
      have hfrom : stepsOf tr s' = (pre ++ [x]) ++ y :: post := by
        rw [heq, List.append_assoc, List.singleton_append]
      exact hrun.finds_durable hcfg hfrom hlisted' hdurable' hz

end

end Cxlmc
