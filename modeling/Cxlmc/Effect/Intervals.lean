import Cxlmc.System.Run

/-!
# The persistence intervals over a run

A read narrows an interval and never empties it, and a store that one read has found lost is lost for
every later read. A flush moves `begin` of every process, also of one that has crashed and has an `end`:
where the flush has a clock from that `end` on, the interval is empty after it. Without such flushes
the intervals stay open and the lost stores stay lost (`intervals_kept`).
-/

namespace Cxlmc

open Stateful Fill

/-! ## One interval -/

namespace Cacheline

/-- The interval is known to lie inside the old one. -/
def Narrows (cl cl' : Cacheline) : Prop :=
  cl.getBegin ≤ cl'.getBegin ∧ (cl.getEnd ≠ 0 → cl'.getEnd ≠ 0 ∧ cl'.getEnd ≤ cl.getEnd)

/-- A store with this clock was found not to have persisted. -/
def Loses (cl : Cacheline) (seqNum : Nat) : Prop := cl.getEnd ≠ 0 ∧ cl.getEnd ≤ seqNum

instance (cl : Cacheline) (seqNum : Nat) : Decidable (cl.Loses seqNum) :=
  inferInstanceAs (Decidable (_ ∧ _))

instance (cl : Cacheline) (seqNum : Nat) : Decidable (cl.MayPersist seqNum) :=
  inferInstanceAs (Decidable (_ ∧ _))

instance (cl : Cacheline) : Decidable cl.IsOpen := inferInstanceAs (Decidable (_ ∨ _))

/-- How one step may move an interval and keep it open. -/
inductive Moves (cl : Cacheline) : Cacheline → Prop where
  | same : Moves cl cl
  | raised {b : Nat} (hle : cl.getBegin ≤ b) (hopen : cl.getEnd = 0 ∨ b < cl.getEnd) :
      Moves cl (cl.setBegin b)
  | lowered {e : Nat} (h : cl.MayPersist e) : Moves cl (cl.setEnd e)

variable {cl cl' cl'' : Cacheline} {seqNum : Nat}

theorem Narrows.refl (cl : Cacheline) : cl.Narrows cl :=
  ⟨Nat.le_refl _, fun h => ⟨h, Nat.le_refl _⟩⟩

theorem Narrows.trans (h : cl.Narrows cl') (h' : cl'.Narrows cl'') : cl.Narrows cl'' := by
  refine ⟨Nat.le_trans h.1 h'.1, ?_⟩
  intro hend
  obtain ⟨hend', hle⟩ := h.2 hend
  obtain ⟨hend'', hle'⟩ := h'.2 hend'
  exact ⟨hend'', Nat.le_trans hle' hle⟩

/-- What is lost stays lost. -/
theorem Loses.narrows (h : cl.Loses seqNum) (hn : cl.Narrows cl') : cl'.Loses seqNum := by
  obtain ⟨hend, hle⟩ := hn.2 h.1
  exact ⟨hend, Nat.le_trans hle h.2⟩

/-- A lost store is past `begin`, and may not have persisted. -/
theorem Loses.not_persisted (h : cl.Loses seqNum) (hopen : cl.IsOpen) :
    cl.getBegin < seqNum ∧ ¬ cl.MayPersist seqNum := by
  obtain ⟨hend, hle⟩ := h
  have hlt := hopen.resolve_left hend
  refine ⟨Nat.lt_of_lt_of_le hlt hle, ?_⟩
  rintro ⟨_, hzero | hbefore⟩
  · exact hend hzero
  · exact absurd hle (Nat.not_le_of_lt hbefore)

theorem Moves.narrows (h : cl.Moves cl') : cl.Narrows cl' := by
  cases h with
  | same => exact .refl cl
  | raised hle hopen => exact ⟨hle, fun h => ⟨h, Nat.le_refl _⟩⟩
  | lowered h =>
      obtain ⟨hlt, hend⟩ := h
      refine ⟨Nat.le_refl _, ?_⟩
      intro hne
      exact ⟨Nat.ne_of_gt (Nat.zero_lt_of_lt hlt), Nat.le_of_lt (hend.resolve_left hne)⟩

theorem Moves.isOpen (h : cl.Moves cl') (hopen : cl.IsOpen) : cl'.IsOpen := by
  cases h with
  | same => exact hopen
  | raised hle hopen' => exact hopen'
  | lowered h => exact .inr h.1

end Cacheline

/-! ## The intervals of a state -/

namespace Model

/-- Every interval is open, and only a crashed process has an `end`. -/
structure Intervals (s : Model) : Prop where
  isOpen : ∀ p line, (s.objToCl p line).IsOpen
  crashed : ∀ p line, (s.objToCl p line).getEnd ≠ 0 → p ∈ s.crashes

/-- Every interval lies inside the old one. -/
def Narrows (s s' : Model) : Prop := ∀ p line, (s.objToCl p line).Narrows (s'.objToCl p line)

/-- The store was found not to have persisted. -/
def Lost (s : Model) (a : ModelAction) : Prop :=
  (s.objToCl (s.getProcessId a) a.line).Loses a.seqNum

/-- A flush of the line with this clock empties no interval. -/
def FlushSpares (s : Model) (seqNum line : Nat) : Prop :=
  ∀ q, q < s.processCount → (s.objToCl q line).getBegin < seqNum →
    (s.objToCl q line).getEnd = 0 ∨ seqNum < (s.objToCl q line).getEnd

end Model

section

variable {cfg : Config} {s s' s'' s₁ : Model} {e : Effect}

theorem Model.Narrows.refl (s : Model) : s.Narrows s := fun _ _ => .refl _

theorem Model.Narrows.trans (h : s.Narrows s') (h' : s'.Narrows s'') : s.Narrows s'' :=
  fun p line => (h p line).trans (h' p line)

theorem Model.Narrows.of_eq (h : s'.objToCl = s.objToCl) : s.Narrows s' := by
  intro p line
  rw [h]
  exact .refl _

theorem Model.Intervals.of_eq (hi : s.Intervals) (hcl : s'.objToCl = s.objToCl)
    (hcrashes : ∀ p, p ∈ s.crashes → p ∈ s'.crashes) : s'.Intervals := by
  constructor
  · intro p line
    rw [hcl]
    exact hi.isOpen p line
  · intro p line hend
    rw [hcl] at hend
    exact hcrashes p (hi.crashed p line hend)

/-- One interval moves. -/
theorem Model.Intervals.setCacheline {p : ProcessId} {line : Nat} {cl : Cacheline}
    (hi : s.Intervals) (hmoves : (s.objToCl p line).Moves cl)
    (hcrashed : cl.getEnd ≠ 0 → p ∈ s.crashes) :
    (s.setCacheline p line cl).Intervals ∧ s.Narrows (s.setCacheline p line cl) := by
  have hcl : ∀ q a, (s.setCacheline p line cl).objToCl q a =
      if q = p ∧ a = line then cl else s.objToCl q a := fun _ _ => rfl
  refine ⟨⟨?_, ?_⟩, ?_⟩
  · intro q a
    rw [hcl]
    split
    · next h =>
        obtain ⟨rfl, rfl⟩ := h
        exact hmoves.isOpen (hi.isOpen q a)
    · exact hi.isOpen q a
  · intro q a hend
    rw [hcl] at hend
    split at hend
    · next h =>
        rw [h.1]
        exact hcrashed hend
    · exact hi.crashed q a hend
  · intro q a
    rw [hcl]
    split
    · next h =>
        obtain ⟨rfl, rfl⟩ := h
        exact hmoves.narrows
    · exact .refl _

/-! ## Flushes -/

theorem Model.flushed_objToCl (s : Model) (seqNum line : Nat) (q : ProcessId) (a : Nat) :
    (s.flushed seqNum line).objToCl q a =
      if a = line ∧ q < s.processCount ∧ (s.objToCl q a).getBegin < seqNum then
        (s.objToCl q a).setBegin seqNum
      else s.objToCl q a := rfl

/-- A flush keeps the intervals open exactly if it spares them. -/
theorem Model.flushed_isOpen_iff (hopen : ∀ p line, (s.objToCl p line).IsOpen) (seqNum line : Nat) :
    (∀ p a, ((s.flushed seqNum line).objToCl p a).IsOpen) ↔ s.FlushSpares seqNum line := by
  constructor
  · intro h q hq hlt
    have hq' := h q line
    rw [s.flushed_objToCl, if_pos ⟨rfl, hq, hlt⟩] at hq'
    exact hq'
  · intro h p a
    rw [s.flushed_objToCl]
    split
    · next hcond =>
        obtain ⟨rfl, hq, hlt⟩ := hcond
        exact h p hq hlt
    · exact hopen p a

theorem Model.Intervals.flushed {seqNum line : Nat} (hi : s.Intervals)
    (hspare : s.FlushSpares seqNum line) :
    (s.flushed seqNum line).Intervals ∧ s.Narrows (s.flushed seqNum line) := by
  refine ⟨⟨(s.flushed_isOpen_iff hi.isOpen seqNum line).mpr hspare, ?_⟩, ?_⟩
  · intro p a hend
    apply hi.crashed p a
    rw [s.flushed_objToCl] at hend
    split at hend
    · exact hend
    · exact hend
  · intro p a
    rw [s.flushed_objToCl]
    split
    · next hcond => exact ⟨Nat.le_of_lt hcond.2.2, fun h => ⟨h, Nat.le_refl _⟩⟩
    · exact .refl _

/-! ## Reads -/

variable {read : ModelAction} {rpid : ProcessId} {store : ModelAction}
  {older ws : List ModelAction} {rf rf₁ rf' : Slots}

/-- A running process has no `end`, so its interval may always begin later. -/
theorem Model.Intervals.declineCrash (hi : s.Intervals)
    (hlive : s.isCrashed (s.getProcessId store) = false) (line : Nat) :
    (s.declineCrash store line).Intervals ∧ s.Narrows (s.declineCrash store line) := by
  unfold Model.declineCrash
  split
  · next hlt =>
      have hend : (s.objToCl (s.getProcessId store) line).getEnd = 0 := by
        by_contra hne
        have hmem := hi.crashed _ _ hne
        rw [← Model.isCrashed_iff, hlive] at hmem
        cases hmem
      apply hi.setCacheline (.raised (Nat.le_of_lt hlt) (.inl hend))
      intro hne
      exact absurd hend hne
  · exact ⟨hi, .refl s⟩

theorem Running.intervals (hi : s.Intervals) (hlive : s.isCrashed (s.getProcessId store) = false)
    (h : Running read rpid store s rf s₁ rf₁) : s₁.Intervals ∧ s.Narrows s₁ := by
  have hcount : s.countCrashPoint.Intervals := hi.of_eq rfl fun _ h => h
  cases h with
  | shadowed _ => exact ⟨hi, .refl s⟩
  | own _ _ => exact ⟨hi, .refl s⟩
  | declined _ _ _ _ => exact hcount.declineCrash hlive read.line
  | notOffered _ _ _ _ => exact hi.declineCrash hlive read.line

theorem Persist.intervals (hi : s.Intervals) (hcrashed : s.getProcessId store ∈ s.crashes)
    (h : Persist cfg read store older s rf s₁ rf₁) : s₁.Intervals ∧ s.Narrows s₁ := by
  cases h with
  | persisted _ => exact ⟨hi, .refl s⟩
  | lostBefore _ _ => exact ⟨hi, .refl s⟩
  | skipped _ => exact ⟨hi, .refl s⟩
  | shadowed _ _ _ => exact ⟨hi, .refl s⟩
  | kept hmay _ _ =>
      exact hi.setCacheline (.raised (Nat.le_of_lt hmay.1) hmay.2) fun _ => hcrashed
  | lost hmay _ _ _ _ => exact hi.setCacheline (.lowered hmay) fun _ => hcrashed

/-- A lost store fills no slot. -/
theorem Persist.of_lost (hopen : (s.objToCl (s.getProcessId store) read.line).IsOpen)
    (hlost : (s.objToCl (s.getProcessId store) read.line).Loses store.seqNum)
    (h : Persist cfg read store older s rf s₁ rf₁) : rf₁ = rf := by
  obtain ⟨hlt, hnot⟩ := hlost.not_persisted hopen
  cases h with
  | persisted h => exact absurd h (Nat.not_le_of_lt hlt)
  | kept h _ _ => exact absurd h hnot
  | _ => rfl

theorem Visit.intervals (hi : s.Intervals) (h : Visit cfg read rpid store older s rf s₁ rf₁) :
    s₁.Intervals ∧ s.Narrows s₁ := by
  cases h with
  | running hlive h => exact h.intervals hi hlive
  | crash _ h h' =>
      have hcrashed := Model.isCrashed_iff.mp h.isCrashed
      rw [h.state] at h' hcrashed
      have hi' : (s.countCrashPoint.crash (s.getProcessId store)).Intervals :=
        hi.of_eq rfl fun p hp => Crashes.mem_emplace.mpr (.inr hp)
      obtain ⟨hi₁, hnarrows⟩ := h'.intervals hi' hcrashed
      exact ⟨hi₁, hnarrows⟩
  | crashed hcrashed h => exact h.intervals hi (Model.isCrashed_iff.mp hcrashed)

/-- A round fills no slot with a store that was lost before it. -/
theorem Visit.of_lost (hi : s.Intervals) (hword : store.line = read.line) (hlost : s.Lost store)
    (h : Visit cfg read rpid store older s rf s₁ rf₁) : rf₁ = rf := by
  have hcrashed : s.isCrashed (s.getProcessId store) = true :=
    Model.isCrashed_iff.mpr (hi.crashed _ _ hlost.1)
  rw [Model.Lost, hword] at hlost
  cases h with
  | running hlive _ =>
      rw [hcrashed] at hlive
      cases hlive
  | crash hlive _ _ =>
      rw [hcrashed] at hlive
      cases hlive
  | crashed _ h => exact h.of_lost (hi.isOpen _ _) hlost

/-- The loop keeps the intervals, and takes no store that was lost before it. -/
theorem readLoop_intervals (hlen : rf.length = read.size) (hfree : countFree rf ≠ 0)
    (hline : ∀ a ∈ ws, a.line = read.line) (hi : s.Intervals)
    (h : (readLoop cfg read rpid ws rf (countFree rf)).Ends s (.ok rf') s') :
    s'.Intervals ∧ s.Narrows s' ∧ ∀ a, some a ∈ rf' → some a ∈ rf ∨ ¬ s.Lost a := by
  induction ws generalizing s rf with
  | nil => cases (ends_stop.mp h).1
  | cons store older ih =>
      obtain ⟨s₁, rf₁, hv, hrest⟩ := (ends_readLoop_cons hlen hfree).mp h
      obtain ⟨hi₁, hnarrows⟩ := hv.intervals hi
      have hpids : s₁.getProcessId = s.getProcessId := by
        have hsched := hv.observes.toScheduler
        funext a
        rw [Model.getProcessId, Model.getProcessId, hsched]
      -- the store of the round is not lost if it fills a slot
      have hfirst : ∀ a, some a ∈ rf₁ → some a ∈ rf ∨ ¬ s.Lost a := by
        intro a ha
        by_cases hlost : s.Lost store
        · rw [hv.of_lost hi (hline store List.mem_cons_self) hlost] at ha
          exact .inl ha
        · rcases hv.slots with hrf | hrf <;> rw [hrf] at ha
          · rcases mem_fill _ ha with ha | rfl
            · exact .inl ha
            · exact .inr hlost
          · exact .inl ha
      unfold LoopRest at hrest
      split at hrest
      · obtain ⟨hrf, rfl⟩ := hrest
        cases hrf
        exact ⟨hi₁, hnarrows, hfirst⟩
      · next hfull =>
          obtain ⟨hi', hnarrows', hslots⟩ := ih (hv.length_eq.trans hlen) hfull
            (fun a ha => hline a (List.mem_cons_of_mem _ ha)) hi₁ hrest
          refine ⟨hi', hnarrows.trans hnarrows', ?_⟩
          intro a ha
          rcases hslots a ha with ha | hnot
          · exact hfirst a ha
          · right
            intro hlost
            apply hnot
            rw [Model.Lost, hpids]
            exact hlost.narrows (hnarrows _ _)

theorem mem_bypassed {a : ModelAction} (h : some a ∈ bypassed s read) :
    a ∈ (s.threadMemory read.tid).storeBuffer := by
  obtain ⟨i, hi⟩ := List.mem_iff_getElem?.mp h
  rw [bypassed, getElem?_fillAll] at hi
  obtain ⟨o, ho, heq⟩ := Option.map_eq_some_iff.mp hi
  have hnone : o = none := by
    have hmem := List.mem_of_getElem? ho
    exact (List.mem_replicate.mp hmem).2
  rw [hnone, Option.none_or] at heq
  have hmem := List.mem_of_find?_eq_some heq
  exact List.mem_reverse.mp (List.mem_of_mem_filter hmem)

/-- A read keeps the intervals, and returns no store that was lost before it. -/
theorem buildReadFromSlots_intervals (hcfg : cfg.memPoison = false) (hpos : 0 < read.size)
    (hr : s.Recorded) (hi : s.Intervals) (h : (buildReadFromSlots cfg read).Ends s (.ok rf) s') :
    s'.Intervals ∧ s.Narrows s' ∧ ∀ a, some a ∈ rf → ¬ s.Lost a := by
  have hown : ∀ a, some a ∈ bypassed s read → ¬ s.Lost a := by
    intro a ha hlost
    obtain ⟨_, _, hseq⟩ := hr.buffered _ a (mem_bypassed ha)
    obtain ⟨hend, hle⟩ := hlost
    rw [ModelAction.seqNum_eq_zero hseq] at hle
    exact hend (Nat.le_zero.mp hle)
  rw [ends_buildReadFromSlots hpos hcfg, LoopRest] at h
  split at h
  · obtain ⟨hrf, rfl⟩ := h
    cases hrf
    exact ⟨hi, .refl _, hown⟩
  · next hfull =>
      have hline : ∀ a ∈ (s.getStorelist read.location).reverse, a.line = read.line := by
        intro a ha
        have hword := (hr.listed _ a (List.mem_reverse.mp ha)).2
        rw [ModelAction.line, ← getCacheID_alignAddress]
        show getCacheID a.word = read.line
        rw [hword]
        exact getCacheID_alignAddress _
      obtain ⟨hi', hnarrows, hslots⟩ := readLoop_intervals (length_bypassed s read) hfull hline hi h
      refine ⟨hi', hnarrows, ?_⟩
      intro a ha
      rcases hslots a ha with ha | hnot
      · exact hown a ha
      · exact hnot

/-! ## Every effect -/

/-- A flush that empties no interval; every other effect. -/
def Effect.Spares (s : Model) : Effect → Prop
  | .popClflush _ a => s.FlushSpares s.nextSequenceNum a.line
  | .flush _ a => s.FlushSpares a.earliestEffect a.line
  | _ => True

/-- One effect, sparing the intervals. -/
def SparingStep (cfg : Config) (s : Model) (e : Effect) (s' : Model) : Prop :=
  MemStep cfg s e s' ∧ e.Spares s

theorem MemStep.intervals (hcfg : cfg.memPoison = false) (hr : s.Recorded) (hi : s.Intervals)
    (h : MemStep cfg s e s') (hspare : e.Spares s) : s'.Intervals ∧ s.Narrows s' := by
  have hsame : s'.objToCl = s.objToCl → s'.crashes = s.crashes → s'.Intervals ∧ s.Narrows s' := by
    intro hcl hcrashes
    refine ⟨hi.of_eq hcl ?_, .of_eq hcl⟩
    intro p hp
    rw [hcrashes]
    exact hp
  have hemplace : ∀ pid, (s.crash pid).Intervals ∧ s.Narrows (s.crash pid) := by
    intro pid
    exact ⟨hi.of_eq rfl fun p hp => Crashes.mem_emplace.mpr (.inr hp), .of_eq rfl⟩
  cases h with
  | idle h => exact hsame (congrArg Memory.objToCl h.memory) (congrArg Memory.crashes h.memory)
  | yield h => exact hsame (congrArg Memory.objToCl h.memory) (congrArg Memory.crashes h.memory)
  | popClflush t a rest hbuf htype =>
      have hi' : (s.popped t rest).tick.Intervals := hi.of_eq rfl fun _ h => h
      exact hi'.flushed hspare
  | flush t a rest hbuf htype =>
      have hi' : (s.unqueued t rest).Intervals := hi.of_eq rfl fun _ h => h
      exact hi'.flushed hspare
  | crash pid _ _ _ => exact hemplace pid
  | crashSelf _ _ => exact hemplace s.processId
  | read action rf htid hpos hread =>
      obtain ⟨hi', hnarrows, _⟩ := buildReadFromSlots_intervals hcfg hpos hr hi hread
      exact ⟨hi', hnarrows⟩
  | _ => exact hsame rfl rfl

/-- A run of effects that spare the intervals. -/
theorem Goes.intervals (hcfg : cfg.memPoison = false)
    (h : Goes (SparingStep cfg) (fun _ => True) s s') (hr : s.Recorded) (hi : s.Intervals) :
    s'.Recorded ∧ s'.Intervals ∧ s.Narrows s' := by
  apply h.invariant (I := fun a => a.Recorded ∧ a.Intervals ∧ s.Narrows a) _ ⟨hr, hi, .refl s⟩
  intro a e b _ ⟨hra, hia, hnarrows⟩ ⟨hstep, hspare⟩
  obtain ⟨hib, hnarrows'⟩ := hstep.intervals hcfg hra hia hspare
  exact ⟨hstep.recorded hcfg hra, hib, hnarrows.trans hnarrows'⟩

theorem Model.intervals_init {n cxlMapping : Nat} {memory : Nat → Nat}
    {mutexType : MutexId → MutexType} : (Model.init n cxlMapping memory mutexType).Intervals :=
  ⟨fun _ _ => .inl rfl, fun _ _ h => absurd rfl h⟩

/-- In every run of effects whose flushes empty no interval, the intervals stay open and only narrow,
and no read returns a store that was found lost before. -/
theorem intervals_kept {n cxlMapping : Nat} {memory : Nat → Nat} {mutexType : MutexId → MutexType}
    {s₁ s₂ : Model} (hn : 1 ≤ n)
    (h₁ : Goes (SparingStep .asBuilt) (fun _ => True) (Model.init n cxlMapping memory mutexType) s₁)
    (h₂ : Goes (SparingStep .asBuilt) (fun _ => True) s₁ s₂) :
    (∀ p line, (s₁.objToCl p line).IsOpen) ∧
      (∀ p line, (s₁.objToCl p line).Narrows (s₂.objToCl p line)) ∧
      ∀ action rf s₃, MemStep .asBuilt s₂ (.read action rf) s₃ → ∀ a, some a ∈ rf →
        ¬ (s₁.objToCl (s₂.getProcessId a) a.line).Loses a.seqNum := by
  obtain ⟨hr₁, hi₁, _⟩ := Goes.intervals rfl h₁ (Model.recorded_init hn) Model.intervals_init
  obtain ⟨hr₂, hi₂, hnarrows⟩ := Goes.intervals rfl h₂ hr₁ hi₁
  refine ⟨hi₁.isOpen, hnarrows, ?_⟩
  intro action rf s₃ hread a ha hlost
  cases hread with
  | read _ _ _ hpos hends =>
      obtain ⟨_, _, hslots⟩ := buildReadFromSlots_intervals rfl hpos hr₂ hi₂ hends
      exact hslots a ha (hlost.narrows (hnarrows _ _))

end

/-! ## A flush after a crash -/

/-- Process 0 writes to a word three times and passes the token. Process 1 reads the word, which
crashes process 0 and finds its second store lost; then it flushes the line and reads again. -/
def flushAfterLoss : List (Input × List Nat) :=
  [({ call := .store 4096 .w64 1 }, []), ({}, []), ({}, []),
   ({ call := .store 4096 .w64 2 }, []), ({}, []), ({}, []),
   ({ call := .store 4096 .w64 3 }, []), ({ random := 2 }, []), ({}, []), ({}, []), ({}, []),
   ({ call := .schedYield }, []),
   ({ call := .load 4096 .w64 }, []), ({}, [0, 0]), ({}, []),
   ({ call := .clflush 4096 }, []), ({}, []), ({}, []), ({}, []), ({}, []), ({}, []),
   ({ call := .mfence 4096 }, []), ({}, []), ({}, []),
   ({ call := .load 4096 .w64 }, []), ({}, [])]

/-- A read of the run of `flushAfterLoss` returns a store that the read before it has found lost, and
the interval of the crashed process is empty. -/
theorem flush_empties_interval : ∃ tr s,
    IsRun .asBuilt 2 4096 (fun _ => 0) (fun _ => .default) tr s ∧
    ∃ x ∈ stepsOf tr s, ¬ (x.1.objToCl 0 4096).IsOpen ∧
      ∃ action v rf a, x.2.1.event = .executed action v rf ∧ action.isRead = true ∧ some a ∈ rf ∧
        (x.1.objToCl (x.1.getProcessId a) a.line).Loses a.seqNum := by
  obtain ⟨tr, s, hrun, hcheck⟩ := exists_run_of_replay .asBuilt
    (Model.init 2 4096 (fun _ => 0) (fun _ => .default)) flushAfterLoss
    (fun tr s => (stepsOf tr s).any fun x =>
      !decide (x.1.objToCl 0 4096).IsOpen &&
      match x.2.1.event with
      | .executed action _ rf => action.isRead && rf.any fun o => o.any fun a =>
          decide ((x.1.objToCl (x.1.getProcessId a) a.line).Loses a.seqNum)
      | _ => false)
    (by decide +kernel)
  simp only [List.any_eq_true, Bool.and_eq_true, Bool.not_eq_true', decide_eq_false_iff_not] at hcheck
  obtain ⟨x, hx, hempty, hread⟩ := hcheck
  refine ⟨tr, s, ⟨by decide, hrun⟩, x, hx, hempty, ?_⟩
  split at hread
  · next action v rf hevent =>
      simp only [Bool.and_eq_true, List.any_eq_true, Option.any_eq_true, decide_eq_true_eq] at hread
      obtain ⟨hisRead, _, ho, a, rfl, hloses⟩ := hread
      exact ⟨action, v, rf, a, hevent, hisRead, ho, hloses⟩
  · cases hread

/-! ## A store that stays lost -/

def lossStore (n : Nat) : ModelAction :=
  { tid := 0, type := .nonatomicStore, location := 4096, value := n, order := .relaxed, size := 8 }

def lossRead : ModelAction := { tid := 1, type := .nonatomicLoad, location := 4096, size := 8 }

/-- Two stores of process 0 are evicted, and process 1 has the token. -/
def lossState : Model :=
  let s₁ := (Model.init 2 4096 (fun _ => 0) (fun _ => .default)).initialized 4096
  let s₂ := (((s₁.pushed 0 (lossStore 1)).popped 0 []).evicted (lossStore 1)).noted 0 4096 0
  let s₃ := (((s₂.pushed 0 (lossStore 2)).popped 0 []).evicted (lossStore 2)).noted 0 4096 1
  { s₃ with activeThread := 1 }

theorem lossState_reached : Goes (SparingStep .asBuilt) (fun _ => True)
    (Model.init 2 4096 (fun _ => 0) (fun _ => .default)) lossState := by
  refine (Goes.single ⟨MemStep.initial 4096 rfl rfl, trivial⟩ trivial).trans ?_
  refine (Goes.single ⟨MemStep.push (lossStore 1) rfl rfl rfl rfl, trivial⟩ trivial).trans ?_
  refine (Goes.single ⟨MemStep.popStore 0 (lossStore 1) [] rfl rfl, trivial⟩ trivial).trans ?_
  refine (Goes.single ⟨MemStep.push (lossStore 2) rfl rfl rfl rfl, trivial⟩ trivial).trans ?_
  refine (Goes.single ⟨MemStep.popStore 0 (lossStore 2) [] rfl rfl, trivial⟩ trivial).trans ?_
  refine Goes.single ⟨MemStep.yield ⟨rfl, rfl, rfl, Nat.le_refl _, fun _ _ => rfl, ?_⟩, trivial⟩ trivial
  decide

/-- `intervals_kept` where a first read has crashed process 0 and found its second store lost, for a
second read. -/
theorem intervals_kept_lostStore : ∃ s₁ s₂ rf,
    Goes (SparingStep .asBuilt) (fun _ => True)
      (Model.init 2 4096 (fun _ => 0) (fun _ => .default)) s₁ ∧
    (s₁.objToCl 0 4096).Loses 1 ∧ MemStep .asBuilt s₁ (.read lossRead rf) s₂ ∧
    (∀ p line, (s₁.objToCl p line).IsOpen) ∧
    (∀ p line, (s₁.objToCl p line).Narrows (s₁.objToCl p line)) ∧
    ∀ action rf' s₃, MemStep .asBuilt s₁ (.read action rf') s₃ → ∀ a, some a ∈ rf' →
      ¬ (s₁.objToCl (s₁.getProcessId a) a.line).Loses a.seqNum := by
  obtain ⟨⟨s₁, rf⟩, s₂, hends, hloses⟩ := exists_ends_of_runWith
    (do
      let _ ← buildReadFromSlots .asBuilt lossRead
      let s ← state
      let rf ← buildReadFromSlots .asBuilt lossRead
      return (s, rf)) lossState [0, 0]
    (fun x _ => decide ((x.1.objToCl 0 4096).Loses 1)) (by decide +kernel)
  obtain ⟨rf₁, s, hfirst, hrest⟩ := ends_bind_ok.mp hends
  obtain ⟨rf₂, s', hsecond, hpure⟩ := ends_bind_ok.mp (ends_state_bind.mp hrest)
  obtain ⟨hr, hs₂⟩ := ends_pure.mp hpure
  cases hr
  subst hs₂
  have hsched : s₁.toScheduler = lossState.toScheduler :=
    (buildReadFromSlots_observes (by decide) rfl hfirst).toScheduler
  have htoken : lossRead.tid = s₁.threadId := by
    rw [Model.threadId, hsched]
    rfl
  have hpath := lossState_reached.trans
    (Goes.single ⟨MemStep.read lossRead rf₁ rfl (by decide) hfirst, trivial⟩ trivial)
  exact ⟨s₁, s₂, rf, hpath, of_decide_eq_true hloses, .read lossRead rf htoken (by decide) hsecond,
    intervals_kept (by decide) hpath (.refl s₁)⟩

end Cxlmc
