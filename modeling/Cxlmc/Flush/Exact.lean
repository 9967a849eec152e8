import Cxlmc.Effect.Begins
import Cxlmc.Flush.AfterCrash
import Cxlmc.System.Wrap

/-!
# What a `CLFLUSH` makes persistent

A `CLFLUSH` takes a tick of its own, so its clock lies after those of the stores that were evicted
before it and before those of the later ones. `begin` of its line is that clock from then on, until the
line is flushed again, the process crashes or another process reads one of its stores on the line. In
between the stores that must have persisted are exactly those evicted before the flush
(`clflush_exact`), as long as the clock has not wrapped around. A flush at a clock that has wrapped around
moves nothing (`clflush_not_exact`).
-/

namespace Cxlmc

open Stateful Fill

/-- No flush of the line, and no read of a store of `i` on the line by another process. -/
def Effect.LeavesLine (i : ProcessId) (line : Nat) (s : Model) : Effect → Prop
  | .popClflush _ a | .flush _ a => a.line ≠ line
  | .read action rf => ∀ a, some a ∈ rf → a.type ≠ .atomicInit → a.line = line →
      s.getProcessId a = i → s.getProcessId action = i
  | _ => True

/-- One effect that leaves the line alone. -/
def LeavingStep (cfg : Config) (i : ProcessId) (line : Nat) (s : Model) (e : Effect)
    (s' : Model) : Prop :=
  MemStep cfg s e s' ∧ e.LeavesLine i line s

/-- `begin` of `i` on the line is the clock of a flush, with the stores of `old` before it and all others
after it. -/
structure Model.SplitAt (i : ProcessId) (line ticks : Nat) (old : Nat → List ModelAction)
    (s : Model) : Prop where
  recorded : s.Recorded
  begins : i ∉ s.crashes → (s.objToCl i line).getBegin = modelclock ticks
  passed : ticks < s.ticks
  older : ∀ w, ∀ b ∈ old w, b.tick < ticks
  kept : ∀ w, ∀ b ∈ old w, b ∈ s.storesOf w
  newer : ∀ w, ∀ b ∈ s.storesOf w, b ∈ old w ∨ ticks < b.tick

section

variable {cfg : Config} {s s' s₁ s₂ : Model} {e : Effect} {i : ProcessId} {line ticks : Nat}
  {old : Nat → List ModelAction} {t : ThreadId} {a : ModelAction}

/-- A store stays in its list. -/
theorem MemStep.storesOf_mono (hcfg : cfg.memPoison = false) (h : MemStep cfg s e s') {w : Nat}
    {b : ModelAction} (hb : b ∈ s.storesOf w) : b ∈ s'.storesOf w := by
  rw [Model.storesOf]
  cases h.list hcfg w with
  | kept heq =>
      rw [heq]
      exact hb
  | evicted _ _ _ _ _ _ _ heq =>
      rw [heq]
      exact mem_evictedStores_of_concat hb
  | initial _ _ hempty _ =>
      rw [Model.storesOf, hempty] at hb
      cases hb

theorem Model.Recorded.line_of_mem {read : ModelAction} (hr : s.Recorded)
    (ha : a ∈ s.objToWr read.word) : a.line = read.line := by
  have hword := (hr.listed _ a ha).2
  calc a.line = getCacheID a.word := (getCacheID_alignAddress _).symm
    _ = getCacheID read.word := by rw [hword]
    _ = read.line := getCacheID_alignAddress _

/-! ## One effect -/

/-- The flush itself. -/
theorem MemStep.splitAt_popClflush (hcfg : cfg.memPoison = false) (hr : s.Recorded) (hs : s.Clocked)
    (hticks : s.ticks < 2 ^ 32) (hi : i < s.processCount) (h : MemStep cfg s (.popClflush t a) s₁) :
    s₁.SplitAt i a.line s.ticks s.storesOf := by
  constructor
  case recorded => exact h.recorded hcfg hr
  case begins =>
    intro _
    cases h with
    | popClflush _ _ rest _ _ =>
        show (((s.popped t rest).tick.flushed s.nextSequenceNum a.line).objToCl i a.line).getBegin = _
        rw [Model.flushed_objToCl]
        split
        · rfl
        · next hnot =>
            have hge : s.nextSequenceNum ≤ (s.objToCl i a.line).getBegin := by
              by_contra hlt
              exact hnot ⟨rfl, hi, Nat.lt_of_not_le hlt⟩
            have hle := hs.begins i a.line
            rw [← Memory.nextSequenceNum_of_lt hticks] at hle
            exact Nat.le_antisymm hle hge
  case passed =>
    rw [h.ticks hcfg]
    exact Nat.lt_succ_self _
  case older => exact hr.clock
  case kept =>
    intro w b hb
    exact h.storesOf_mono hcfg hb
  case newer =>
    intro w b hb
    rcases h.mem_storesOf hcfg hb with hb | ⟨_, _, _, he, _⟩
    · exact .inl hb
    · cases he

/-- An effect that leaves the line alone moves `begin` of a process only where it crashes. -/
theorem MemStep.getBegin_of_leaves (hcfg : cfg.memPoison = false) (hr : s.Recorded)
    (h : MemStep cfg s e s') (hleaves : e.LeavesLine i line s) (hlive : i ∉ s'.crashes) :
    (s'.objToCl i line).getBegin = (s.objToCl i line).getBegin := by
  rcases h.getBegin hcfg i line with heq | hbegins
  · exact heq
  · cases hbegins with
    | clflush _ _ hline _ => exact absurd hline hleaves
    | clflushopt _ _ hline _ => exact absurd hline hleaves
    | read action rf a ha hraised =>
        rcases hraised.cause with hcrashed | ⟨hinit, hother⟩
        · exact absurd hcrashed hlive
        · have hline := (hr.line_of_mem ha).trans hraised.onLine
          exact absurd (hleaves a hraised.returned hinit hline hraised.writer).symm hother

/-- Later effects that leave the line alone. -/
theorem MemStep.splitAt (hcfg : cfg.memPoison = false) (h : MemStep cfg s e s')
    (hleaves : e.LeavesLine i line s) (hs : s.SplitAt i line ticks old) :
    s'.SplitAt i line ticks old := by
  constructor
  case recorded => exact h.recorded hcfg hs.recorded
  case begins =>
    intro hlive
    rw [h.getBegin_of_leaves hcfg hs.recorded hleaves hlive]
    exact hs.begins fun hmem => hlive (h.mem_crashes hcfg hmem)
  case passed => exact Nat.lt_of_lt_of_le hs.passed (h.ticks_le hcfg)
  case older => exact hs.older
  case kept =>
    intro w b hb
    exact h.storesOf_mono hcfg (hs.kept w b hb)
  case newer =>
    intro w b hb
    rcases h.mem_storesOf hcfg hb with hb | ⟨_, c, _, _, _, _, rfl⟩
    · exact hs.newer w b hb
    · exact .inr hs.passed

/-- Below the wrap the stores that must have persisted are the older ones. -/
theorem Model.SplitAt.mustPersist_iff (hs : s.SplitAt i line ticks old) (hticks : s.ticks < 2 ^ 32)
    (hlive : i ∉ s.crashes) {w : Nat} {b : ModelAction} (hb : b ∈ s.storesOf w) :
    b.seqNum ≤ (s.objToCl i line).getBegin ↔ b ∈ old w := by
  have hclock : b.seqNum = b.tick := ModelAction.seqNum_of_lt (Nat.lt_trans (hs.recorded.clock w b hb) hticks)
  rw [hs.begins hlive, modelclock_of_lt (Nat.lt_trans hs.passed hticks), hclock]
  constructor
  · intro hle
    exact (hs.newer w b hb).resolve_right (Nat.not_lt_of_le hle)
  · intro hold
    exact Nat.le_of_lt (hs.older w b hold)

/-- A path of effects that leave the line alone. -/
theorem Goes.splitAt (hcfg : cfg.memPoison = false)
    (h : Goes (LeavingStep cfg i line) (fun _ => True) s s') (hs : s.SplitAt i line ticks old) :
    s'.SplitAt i line ticks old := by
  apply h.invariant (I := Model.SplitAt i line ticks old) _ hs
  intro x e y _ hx ⟨hstep, hleaves⟩
  exact hstep.splitAt hcfg hleaves hx

/-- A flush moves no interval of another line. -/
theorem Model.flushed_other (x : Model) (clock : Nat) {l line : Nat} (hne : l ≠ line) (p : ProcessId) :
    (x.flushed clock line).objToCl p l = x.objToCl p l := by
  rw [x.flushed_objToCl, if_neg]
  rintro ⟨rfl, _, _⟩
  exact hne rfl

/-! ## Runs -/

/-- From the eviction of a `CLFLUSH` on, as long as fewer than `2 ^ 32` numbers are taken from the clock,
process `i` has not crashed, its line is not flushed again and no other process reads a store of `i` on
it: the stores of `i` on the line that must have persisted are those that were evicted before the flush.
The flush moves no interval of another line. -/
theorem clflush_exact {n cxlMapping : Nat} {memory : Nat → Nat} {mutexType : MutexId → MutexType}
    (hcfg : cfg.memPoison = false) (hn : 1 ≤ n)
    (h₁ : Goes (MemStep cfg) (fun _ => True) (Model.init n cxlMapping memory mutexType) s)
    (hflush : MemStep cfg s (.popClflush t a) s₁) (hi : i < s.processCount)
    (h₂ : Goes (LeavingStep cfg i a.line) (fun _ => True) s₁ s₂) (hlive : s₂.isCrashed i = false)
    (hticks : s₂.ticks < 2 ^ 32) :
    (∀ w, ∀ b ∈ s₂.storesOf w, b.line = a.line → s₂.getProcessId b = i →
      (b.seqNum ≤ (s₂.objToCl i a.line).getBegin ↔ b ∈ s.storesOf w)) ∧
    (∀ w, ∀ b ∈ s.storesOf w, b ∈ s₂.storesOf w) ∧
    (∀ p line, line ≠ a.line → s₁.objToCl p line = s.objToCl p line) ∧
    ∀ x b s', (evictClflush a).Ends x (.ok b) s' → ∀ p line, line ≠ a.line →
      s'.objToCl p line = x.objToCl p line := by
  have hr : s.Recorded := Goes.recorded hcfg h₁ (Model.recorded_init hn)
  have hclocked : s.Clocked := Goes.clocked hcfg h₁ Model.clocked_init
  have hbefore : s.ticks < 2 ^ 32 := by
    have hlater : s₁.ticks ≤ s₂.ticks := Goes.ticks_le hcfg (h₂.sub fun _ _ _ hstep => hstep.1)
    exact Nat.lt_of_le_of_lt (Nat.le_trans (hflush.ticks_le hcfg) hlater) hticks
  have hsplit : s₂.SplitAt i a.line s.ticks s.storesOf :=
    Goes.splitAt hcfg h₂ (hflush.splitAt_popClflush hcfg hr hclocked hbefore hi)
  refine ⟨?_, hsplit.kept, ?_, ?_⟩
  · intro w b hb _ _
    apply hsplit.mustPersist_iff hticks _ hb
    rw [← Model.isCrashed_iff, hlive]
    nofun
  · intro p line hne
    cases hflush with
    | popClflush _ _ rest _ _ => exact (s.popped t rest).tick.flushed_other _ hne p
  · intro x b s' h p line hne
    obtain ⟨_, _, _, rfl⟩ := evictClflush_frame h
    exact x.flushed_other _ hne p

end

/-! ## A flush after the clock has wrapped around -/

/-- The flush takes number `2 ^ 32` and has clock `0`, so that it moves nothing. The store that is evicted
after it has clock `1` and counts as persisted: `begin` of the line is still the clock of the flush before. -/
theorem clflush_not_exact : ∃ tr s x s₁ b,
    IsRun .asBuilt 1 4096 (fun _ => 0) (fun _ => .default) tr s ∧ x ∈ stepsOf tr s ∧
    MemStep .asBuilt x.1 (.popClflush 0 loneFlush) s₁ ∧
    Goes (LeavingStep .asBuilt 0 loneFlush.line) (fun _ => True) s₁ s ∧ s.isCrashed 0 = false ∧
    b ∈ s.storesOf 4096 ∧ b.line = loneFlush.line ∧ s.getProcessId b = 0 ∧ b ∉ x.1.storesOf 4096 ∧
    b.seqNum ≤ (s.objToCl 0 loneFlush.line).getBegin := by
  obtain ⟨tr, s, x, s₁, hrun, _, hx, hnone, hflush, hgoes, hcrashes, hpid, hlist, hbegin⟩ :=
    exists_run_flushThenStore (2 ^ 32 - 1)
  let b : ModelAction := { loneStore.action with tick := 2 ^ 32 - 1 + 2 }
  have hb : b ∈ s.storesOf 4096 := by
    rw [hlist]
    exact List.mem_cons_self
  have hline : b.line = loneFlush.line := by decide
  refine ⟨tr, s, x, s₁, b, hrun, hx, hflush, ?_, ?_, hb, hline, hpid, ?_, ?_⟩
  · apply hgoes.preorder Goes.refl Goes.trans
    intro x e y he hstep
    refine .single ⟨hstep, ?_⟩ trivial
    cases e <;> trivial
  · rw [Model.isCrashed, hcrashes]
    rfl
  · rw [hnone]
    exact List.not_mem_nil
  · refine Nat.le_trans ?_ hbegin
    decide

/-! ## A store on each side of a flush -/

def flushedStore (value : Nat) : ModelAction :=
  { tid := 0, type := .nonatomicStore, location := 4096, value := value, order := .relaxed, size := 8 }

/-- `clflush_exact` for a store before the flush of its word and one after it. -/
theorem clflush_exact_betweenStores : ∃ (s s₂ : Model) (a b : ModelAction),
    Goes (MemStep .asBuilt) (fun _ => True) (Model.init 2 4096 (fun _ => 0) (fun _ => .default)) s ∧
    a ∈ s.storesOf 4096 ∧ s₂.storesOf 4096 = [a, b] ∧
    a.seqNum ≤ (s₂.objToCl 0 (getCacheID 4096)).getBegin ∧
    ¬ b.seqNum ≤ (s₂.objToCl 0 (getCacheID 4096)).getBegin := by
  let s₁ := (Model.init 2 4096 (fun _ => 0) (fun _ => .default)).initialized 4096
  let s₂ := (((s₁.pushed 0 (flushedStore 1)).popped 0 []).evicted (flushedStore 1)).noted 0 4096 0
  let flush : ModelAction := { tid := 0, type := .cacheClflush, location := 4096 }
  let s₃ := s₂.pushed 0 flush
  let s₄ := (s₃.popped 0 []).tick.flushed s₃.nextSequenceNum flush.line
  let s₅ := (((s₄.pushed 0 (flushedStore 2)).popped 0 []).evicted (flushedStore 2)).noted 0 4096 2
  have hbefore : Goes (MemStep .asBuilt) (fun _ => True)
      (Model.init 2 4096 (fun _ => 0) (fun _ => .default)) s₃ := by
    refine (Goes.single (MemStep.initial 4096 rfl rfl) trivial).trans ?_
    refine (Goes.single (MemStep.push (flushedStore 1) rfl rfl rfl rfl) trivial).trans ?_
    refine (Goes.single (MemStep.popStore 0 (flushedStore 1) [] rfl rfl) trivial).trans ?_
    exact Goes.single (MemStep.push flush rfl rfl rfl rfl) trivial
  have hflush : MemStep .asBuilt s₃ (.popClflush 0 flush) s₄ := .popClflush 0 flush [] rfl rfl
  have hafter : Goes (LeavingStep .asBuilt 0 flush.line) (fun _ => True) s₄ s₅ := by
    refine (Goes.single ⟨MemStep.push (flushedStore 2) rfl rfl rfl rfl, trivial⟩ trivial).trans ?_
    exact Goes.single ⟨MemStep.popStore 0 (flushedStore 2) [] rfl rfl, trivial⟩ trivial
  obtain ⟨hexact, _⟩ := clflush_exact rfl (by decide) hbefore hflush (i := 0) (by decide) hafter rfl
    (by decide)
  let first : ModelAction := { flushedStore 1 with tick := 0 }
  let second : ModelAction := { flushedStore 2 with tick := 2 }
  have hold : first ∈ s₃.storesOf 4096 := List.mem_cons_self
  have hfirst : first ∈ s₅.storesOf 4096 := List.mem_cons_self
  have hsecond : second ∈ s₅.storesOf 4096 := List.mem_cons_of_mem _ List.mem_cons_self
  refine ⟨s₃, s₅, first, second, hbefore, hold, rfl, ?_, ?_⟩
  · exact (hexact 4096 first hfirst rfl rfl).mpr hold
  · intro hle
    have hmem := (hexact 4096 second hsecond rfl rfl).mp hle
    have hlist : s₃.storesOf 4096 = [first] := rfl
    rw [hlist] at hmem
    exact absurd (List.mem_singleton.mp hmem) (by decide)

end Cxlmc
