import Cxlmc.System.CrashedThreads

/-!
# The crash budget

Crashes come from reads, from flushes and from `insert_crash`, each behind its own guard. All three
guards leave the same budget (`Model.CrashBudget`), and none of them is open to the process of a
reader (`crash_budget`).
-/

namespace Cxlmc

open Stateful Fill

/-- At most `MAX_CRASHES_PER_EXECUTION` processes have crashed, and not all of them. -/
structure Model.CrashBudget (s : Model) : Prop where
  most : s.crashes.size ≤ maxCrashesPerExecution
  oneLeft : s.crashes.size < s.processCount

/-- A crash is the first of its process or changes nothing. -/
theorem Crashes.size_emplace_le (c : Crashes) (pid : ProcessId) (clock : Nat) :
    (c.emplace pid clock).size ≤ c.size + 1 := by
  unfold Crashes.emplace
  split
  · exact Nat.le_succ _
  · next hmem =>
      show (AList.insert pid clock c).keys.length ≤ c.keys.length + 1
      rw [AList.keys_insert, List.length_cons]
      exact Nat.succ_le_succ List.length_erase_le

section

variable {cfg : Config} {read : ModelAction} {rpid : ProcessId} {store : ModelAction}
  {older ws : List ModelAction} {s s' s₁ : Model} {rf rf₁ : Slots} {e : Effect} {ev : Event}

namespace Model.CrashBudget

theorem of_eq (hb : s.CrashBudget) (hcrashes : s'.crashes = s.crashes)
    (hcount : s'.processCount = s.processCount) : s'.CrashBudget := by
  constructor
  · rw [hcrashes]
    exact hb.most
  · rw [hcrashes, hcount]
    exact hb.oneLeft

theorem marks {line : Nat} (hb : s.CrashBudget) (h : Marks line s s') : s'.CrashBudget := by
  obtain ⟨cls, n, rfl, _⟩ := h
  exact hb.of_eq rfl rfl

/-- One more crash, where the guards of the three sites let it through. -/
theorem crash (hmost : s.crashes.size < maxCrashesPerExecution)
    (hmany : s.crashes.size + 1 < s.processCount) (pid : ProcessId) : (s.crash pid).CrashBudget := by
  have hsize := s.crashes.size_emplace_le pid s.nextSequenceNum
  exact ⟨Nat.le_trans hsize hmost, Nat.lt_of_le_of_lt hsize hmany⟩

theorem crash_first (hfirst : s.crashes = ∅) (hmany : 1 < s.processCount) (pid : ProcessId) :
    (s.crash pid).CrashBudget := by
  have hzero : s.crashes.size = 0 := by
    rw [hfirst]
    rfl
  apply crash
  · rw [hzero]
    exact Nat.one_pos
  · rw [hzero]
    exact hmany

end Model.CrashBudget

/-! ## Reads -/

theorem Visit.crashBudget (h : Visit cfg read rpid store older s rf s₁ rf₁) (hb : s.CrashBudget) :
    s₁.CrashBudget := by
  cases h with
  | running _ h => exact hb.marks h.marks
  | crash _ h h' =>
      obtain ⟨_, hmost, hmany, _⟩ := h.may
      have hcrash : (s.countCrashPoint.crash (s.getProcessId store)).CrashBudget :=
        Model.CrashBudget.crash (s := s.countCrashPoint) hmost hmany _
      rw [← h.state] at hcrash
      exact hcrash.marks h'.marks
  | crashed _ h => exact hb.marks h.marks

/-- The guard is tested anew for each store of the loop. -/
theorem readLoop_crashBudget {r : Except Stop Slots} (hlen : rf.length = read.size)
    (hfree : countFree rf ≠ 0) (hb : s.CrashBudget)
    (h : (readLoop cfg read rpid ws rf (countFree rf)).Ends s r s') : s'.CrashBudget := by
  induction ws generalizing s rf with
  | nil =>
      rw [(ends_stop.mp h).2]
      exact hb
  | cons store older ih =>
      obtain ⟨s₁, rf₁, hv, hrest⟩ := (ends_readLoop_cons hlen hfree).mp h
      have hb₁ := hv.crashBudget hb
      unfold LoopRest at hrest
      split at hrest
      · rw [hrest.2]
        exact hb₁
      · next hfull => exact ih (hv.length_eq.trans hlen) hfull hb₁ hrest

theorem buildReadFromSlots_crashBudget {r : Except Stop Slots} (hpos : 0 < read.size)
    (hcfg : cfg.memPoison = false) (hb : s.CrashBudget)
    (h : (buildReadFromSlots cfg read).Ends s r s') : s'.CrashBudget := by
  rw [ends_buildReadFromSlots hpos hcfg, LoopRest] at h
  split at h
  · rw [h.2]
    exact hb
  · next hfull => exact readLoop_crashBudget (length_bypassed s read) hfull hb h

/-- A read never crashes the process of its thread. -/
theorem buildReadFromSlots_spares_own {r : Except Stop Slots} (hpos : 0 < read.size)
    (hcfg : cfg.memPoison = false) (h : (buildReadFromSlots cfg read).Ends s r s') :
    s'.isCrashed (s.getProcessId read) = s.isCrashed (s.getProcessId read) := by
  have hext := (buildReadFromSlots_observes hpos hcfg h).crashes
  rw [Bool.eq_iff_iff, Model.isCrashed_iff, Model.isCrashed_iff]
  exact ⟨hext.own_mem, hext.mem⟩

/-! ## Runs -/

theorem MemStep.crashBudget (hcfg : cfg.memPoison = false) (h : MemStep cfg s e s')
    (hb : s.CrashBudget) : s'.CrashBudget := by
  cases h with
  | idle h => exact hb.of_eq (by rw [h.memory]) h.processCount
  | yield h => exact hb.of_eq (by rw [h.memory]) h.processCount
  | crash pid _ hfirst hmany => exact .crash_first hfirst hmany pid
  | crashSelf hfirst hmany => exact .crash_first hfirst hmany _
  | read action rf _ hpos h => exact buildReadFromSlots_crashBudget hpos hcfg hb h
  | _ => exact hb.of_eq rfl rfl

theorem Goes.crashBudget {P : Effect → Prop} (hcfg : cfg.memPoison = false)
    (h : Goes (MemStep cfg) P s s') (hb : s.CrashBudget) : s'.CrashBudget := by
  apply h.invariant (I := Model.CrashBudget) _ hb
  intro a e b _ hb hstep
  exact hstep.crashBudget hcfg hb

/-- The crash budget holds in every state of a run, and a read leaves the process of the reader as it
was. -/
theorem crash_budget {n cxlMapping : Nat} {memory : Nat → Nat} {mutexType : MutexId → MutexType}
    {tr : List (Model × Label)} (hcfg : cfg.memPoison = false)
    (hrun : IsRun cfg n cxlMapping memory mutexType tr s') :
    (∀ x ∈ stepsOf tr s', x.1.CrashBudget) ∧ s'.CrashBudget ∧
    (∀ x ∈ stepsOf tr s', ∀ read v rf, x.2.1.event = .executed read v rf → read.isRead = true →
      x.2.2.isCrashed x.1.processId = x.1.isCrashed x.1.processId) ∧
    ∀ (s : Model) (read : ModelAction) (r : Except Stop Slots) (s₁ : Model), 0 < read.size →
      (buildReadFromSlots cfg read).Ends s r s₁ →
      s₁.isCrashed (s.getProcessId read) = s.isCrashed (s.getProcessId read) := by
  have hinit : (Model.init n cxlMapping memory mutexType).CrashBudget := ⟨Nat.zero_le _, hrun.1⟩
  obtain ⟨hall, _, hlast⟩ := hrun.invariant hcfg hinit (by
    intro s l s₁ _ hplaced hb _ hcase
    exact Goes.crashBudget hcfg (hcase.goes hplaced) hb)
  refine ⟨fun x hx => (hall x hx).2.1, hlast, ?_, ?_⟩
  · intro x hx read v rf hev _
    obtain ⟨hplaced, _, _, hcase⟩ := hall x hx
    rw [hev] at hcase
    exact hcase.executed_spares_own hcfg hplaced
  · intro s read r s₁ hpos h
    exact buildReadFromSlots_spares_own hpos hcfg h

/-- `crash_budget` on a run in which a read uses the budget up. -/
theorem crash_budget_spent : ∃ tr s,
    IsRun .asBuilt 2 4096 (fun _ => 0) (fun _ => .default) tr s ∧ s.crashes.size = 1 ∧
    (∀ x ∈ stepsOf tr s, x.1.CrashBudget) ∧ s.CrashBudget := by
  obtain ⟨tr, s, hrun, hcheck⟩ := exists_run_of_replay .asBuilt
    (Model.init 2 4096 (fun _ => 0) (fun _ => .default)) lockAfterCrash
    (fun _ s => decide (s.crashes.size = 1)) (by decide +kernel)
  have hrun' : IsRun .asBuilt 2 4096 (fun _ => 0) (fun _ => .default) tr s := ⟨by decide, hrun⟩
  obtain ⟨hall, hlast, _⟩ := crash_budget rfl hrun'
  exact ⟨tr, s, hrun', of_decide_eq_true hcheck, hall, hlast⟩

end

end Cxlmc
