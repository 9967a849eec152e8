import Cxlmc.Persistence.Narrows
import Cxlmc.Flush.Basic
import Cxlmc.System.CrashBudget
import Cxlmc.System.ByteCoherence
import Cxlmc.Threads.Run

/-!
# One memory image for all reads

The checker decides read by read, and only for the bytes that are asked for, which stores of a crashed
process have persisted. Choose for each process and line a cut-off that the intervals admit at the end
of a run, and let a crash lose the stores past the cut-off at once: every load of the run then returns
what it would have returned from that memory (`loads_image`). So the answers that are given one at a time
never contradict each other.

* `Model.Remains`, `Model.image` — the memory after the crashes, for given cut-offs.
* `readLoop_image` — one read, by induction on the store list.
* `loads_image` — all loads of a run.
-/

namespace Cxlmc

open Stateful Fill

namespace Model

/-- The store is not lost, where a crash loses the stores past the cut-off of their process and line. -/
def Remains (s : Model) (cut : ProcessId → Nat → Nat) (w : ModelAction) : Bool :=
  !s.isCrashed (s.getProcessId w) || decide (w.seqNum ≤ cut (s.getProcessId w) w.line)

/-- The stores to a word that are left, oldest first. -/
def image (s : Model) (cut : ProcessId → Nat → Nat) (word : Nat) : List ModelAction :=
  (s.objToWr word).filter (s.Remains cut)

variable {s s' : Model} {cut : ProcessId → Nat → Nat} {w : ModelAction}

theorem remains_of_live (h : s.isCrashed (s.getProcessId w) = false) : s.Remains cut w = true := by
  simp [Remains, h]

theorem remains_of_le (h : w.seqNum ≤ cut (s.getProcessId w) w.line) : s.Remains cut w = true := by
  simp [Remains, h]

theorem remains_iff (h : s.isCrashed (s.getProcessId w) = true) :
    s.Remains cut w = true ↔ w.seqNum ≤ cut (s.getProcessId w) w.line := by
  simp [Remains, h]

/-- Crashes that are added are final. -/
theorem Observes.isCrashed {own p : ProcessId} (h : s.Observes own s') (hp : s.isCrashed p = true) :
    s'.isCrashed p = true := by
  rw [isCrashed_iff] at hp ⊢
  exact h.crashes.mem hp

theorem Observes.own_live {own : ProcessId} (h : s.Observes own s') (hp : s.isCrashed own = false) :
    s'.isCrashed own = false := by
  rw [← Bool.not_eq_true, isCrashed_iff] at hp ⊢
  exact fun hmem => hp (h.crashes.own_mem hmem)

theorem Observes.getProcessId_eq {own : ProcessId} (h : s.Observes own s') (a : ModelAction) :
    s'.getProcessId a = s.getProcessId a := by
  rw [Model.getProcessId, Model.getProcessId, h.toScheduler]

/-- Only one process can crash. -/
theorem CrashBudget.crashed_unique (hb : s.CrashBudget) {p q : ProcessId} (hp : s.isCrashed p = true)
    (hq : s.isCrashed q = true) : p = q := by
  rw [isCrashed_iff, AList.mem_keys] at hp hq
  have hsize : s.crashes.keys.length ≤ 1 := hb.most
  cases hkeys : s.crashes.keys with
  | nil =>
      rw [hkeys] at hp
      cases hp
  | cons r rest =>
      rw [hkeys] at hp hq hsize
      have hrest : rest = [] := List.eq_nil_of_length_eq_zero (Nat.le_zero.mp (Nat.le_of_succ_le_succ hsize))
      rw [hrest, List.mem_singleton] at hp hq
      rw [hp, hq]

theorem le_begin_declineCrash (s : Model) (store : ModelAction) (line : Nat) :
    store.seqNum ≤ ((s.declineCrash store line).objToCl (s.getProcessId store) line).getBegin := by
  unfold declineCrash
  split
  · have hcl : (s.raiseBegin (s.getProcessId store) line store.seqNum).objToCl (s.getProcessId store) line =
        (s.objToCl (s.getProcessId store) line).setBegin store.seqNum := if_pos ⟨rfl, rfl⟩
    rw [hcl]
    exact Nat.le_refl _
  · next h => exact Nat.le_of_not_lt h

end Model

section

variable {cfg : Config} {read : ModelAction} {rpid : ProcessId} {store : ModelAction}
  {older ws : List ModelAction} {s s' s₁ : Model} {rf rf₁ rf' : Slots}
  {cut : ProcessId → Nat → Nat}

/-! ## One round -/

/-- What a round does to the slots, compared with the image after the read: it fills them if the store
remains, or passes over a store of the crashed process for one that is the same to the read. -/
inductive ImageRound (read store : ModelAction) (older : List ModelAction) (s' : Model)
    (cut : ProcessId → Nat → Nat) (rf : Slots) : Slots → Prop where
  | filled (h : s'.Remains cut store = true) : ImageRound read store older s' cut rf (fill (wants read) store rf)
  | shadowed (h : fill (wants read) store rf = rf) : ImageRound read store older s' cut rf rf
  | lost (h : s'.Remains cut store = false) : ImageRound read store older s' cut rf rf
  | skipped (hcrashed : s'.isCrashed (s'.getProcessId store) = true) (next : ModelAction)
      (rest : List ModelAction) (hnext : older = next :: rest) (hdata : store.data = next.data) :
      ImageRound read store older s' cut rf rf

theorem Running.image (hlive : s.isCrashed (s.getProcessId store) = false)
    (hinit : store.type = .atomicInit → store.seqNum = 0) (hline : store.line = read.line)
    (hlater : s₁.Observes rpid s')
    (hcut : (s₁.objToCl (s'.getProcessId store) read.line).Admits (cut (s'.getProcessId store) read.line))
    (h : Running read rpid store s rf s₁ rf₁) : ImageRound read store older s' cut rf rf₁ := by
  have hpid : s'.getProcessId store = s.getProcessId store := by
    rw [hlater.getProcessId_eq, h.getProcessId_eq]
  have hcrashes : s₁.isCrashed (s.getProcessId store) = false := by
    rw [Model.isCrashed, h.crashes_eq]
    exact hlive
  -- `begin` has reached the store, so that no cut-off loses it
  have hbegin : store.seqNum ≤ (s₁.objToCl (s.getProcessId store) read.line).getBegin →
      s'.Remains cut store = true := by
    intro hle
    apply Model.remains_of_le
    rw [hpid] at hcut ⊢
    rw [hline]
    exact Nat.le_trans hle hcut.1
  cases h with
  | shadowed hf => exact .shadowed hf
  | own hf hown =>
      apply ImageRound.filled
      rcases hown with htype | hown
      · apply Model.remains_of_le
        rw [hinit htype]
        exact Nat.zero_le _
      · apply Model.remains_of_live
        rw [hpid, hown]
        rw [hown] at hcrashes
        exact hlater.own_live hcrashes
  | declined hf _ _ _ => exact .filled (hbegin (s.countCrashPoint.le_begin_declineCrash store read.line))
  | notOffered hf _ _ _ => exact .filled (hbegin (s.le_begin_declineCrash store read.line))

theorem Persist.image (hcrashed : s.isCrashed (s.getProcessId store) = true)
    (hline : store.line = read.line) (hlater : s₁.Observes rpid s')
    (hcut : (s₁.objToCl (s'.getProcessId store) read.line).Admits (cut (s'.getProcessId store) read.line))
    (h : Persist cfg read store older s rf s₁ rf₁) : ImageRound read store older s' cut rf rf₁ := by
  have hpid : s'.getProcessId store = s.getProcessId store := by
    rw [hlater.getProcessId_eq, h.marks.getProcessId_eq]
  have hcrashed' : s'.isCrashed (s'.getProcessId store) = true := by
    rw [hpid]
    apply hlater.isCrashed
    obtain ⟨cls, n, hs, _⟩ := h.marks
    rw [hs]
    exact hcrashed
  by_cases hskip : Skips cfg read store older s
  · obtain ⟨next, rest, hnext, hdata⟩ := hskip.next
    rw [(h.eq_of_skips hskip).2]
    exact .skipped hcrashed' next rest hnext hdata
  · rw [hpid] at hcut
    rw [h.fills rfl hskip hcut]
    have hsurvives : survives s (s.getProcessId store) (cut (s.getProcessId store) read.line) store = true ↔
        store.seqNum ≤ cut (s.getProcessId store) read.line := survives_iff rfl
    have hremains : s'.Remains cut store = true ↔ store.seqNum ≤ cut (s'.getProcessId store) store.line :=
      Model.remains_iff hcrashed'
    rw [hpid, hline] at hremains
    split
    · next hs => exact .filled (hremains.mpr (hsurvives.mp hs))
    · next hs =>
        apply ImageRound.lost
        rw [← Bool.not_eq_true]
        exact fun hr => hs (hsurvives.mpr (hremains.mp hr))

/-- A round fills the slots as the image does. -/
theorem Visit.image (hinit : store.type = .atomicInit → store.seqNum = 0)
    (hline : store.line = read.line) (hlater : s₁.Observes rpid s')
    (hcut : (s₁.objToCl (s'.getProcessId store) read.line).Admits (cut (s'.getProcessId store) read.line))
    (h : Visit cfg read rpid store older s rf s₁ rf₁) : ImageRound read store older s' cut rf rf₁ := by
  cases h with
  | running hlive h => exact h.image hlive hinit hline hlater hcut
  | crash _ h h' => exact h'.image h.isCrashed hline hlater hcut
  | crashed hcrashed h => exact h.image hcrashed hline hlater hcut

/-- After the round the rest of the image gives the same bytes. -/
theorem ImageRound.fillAll (hb : s'.CrashBudget) (hfalls : ∀ b ∈ older, b.seqNum ≤ store.seqNum)
    (hline : ∀ b ∈ older, b.line = store.line) (h : ImageRound read store older s' cut rf rf₁) :
    (fillAll (wants read) (older.filter (s'.Remains cut)) rf₁).map (Option.map ModelAction.data) =
      (fillAll (wants read) ((store :: older).filter (s'.Remains cut)) rf).map
        (Option.map ModelAction.data) := by
  cases h with
  | filled h => rw [List.filter_cons_of_pos h, fillAll_cons]
  | shadowed h =>
      by_cases hs : s'.Remains cut store = true
      · rw [List.filter_cons_of_pos hs, fillAll_cons, h]
      · rw [List.filter_cons_of_neg hs]
  | lost h => rw [List.filter_cons_of_neg (by rw [h]; exact Bool.false_ne_true)]
  | skipped hcrashed next rest hnext hdata =>
      subst hnext
      by_cases hs : s'.Remains cut store = true
      swap
      · rw [List.filter_cons_of_neg hs]
      -- the older one remains as well: it is of a live process, or of the crashed one and older
      have hnext : s'.Remains cut next = true := by
        by_cases hlive : s'.isCrashed (s'.getProcessId next) = true
        · rw [Model.remains_iff hlive, hb.crashed_unique hlive hcrashed, hline next List.mem_cons_self]
          exact Nat.le_trans (hfalls next List.mem_cons_self) ((Model.remains_iff hcrashed).mp hs)
        · exact Model.remains_of_live (by simpa using hlive)
      rw [List.filter_cons_of_pos hs, List.filter_cons_of_pos hnext,
        fillAll_map (wants read) (wants_data read), fillAll_map (wants read) (wants_data read)]
      simp only [List.map_cons, fillAll_cons, hdata, fill_fill]

/-! ## One read -/

/-- What may happen before the read of a load: the initial value of its word is recorded, and the buffer of its
thread is emptied. -/
inductive Effect.Approaches (t : ThreadId) : Effect → Prop where
  | initial (word : Nat) : Approaches t (.initial word)
  | drains {e : Effect} (h : e.Drains t) : Approaches t e

/-- A step that executes a load goes along a path of effects to one read, and then leaves the memory
alone. -/
theorem StepCase.reads {v : Nat} (hplaced : s.Placed) (h : StepCase cfg s (.executed read v rf) s')
    (hload : read.isLoad = true) :
    ∃ s₁ s₂, Goes (MemStep cfg) (Effect.Approaches s.threadId) s s₁ ∧ MemStep cfg s₁ (.read read rf) s₂ ∧
      s₂.Control s' ∧ v = getReadValue read.location rf := by
  obtain ⟨s₀, _, _, hexec, hcontrol⟩ := h.load hplaced hload
  obtain ⟨s₁, s₂, s₃, hdrain, hidle, hread, hidle', hv, _⟩ := hexec.load_parts hload
  refine ⟨s₂, s₃, ?_, hread, hidle'.control.trans hcontrol, hv⟩
  have hdrained : Goes (MemStep cfg) (Effect.Approaches s.threadId) (s.prepared read) s₁ := by
    rw [s.prepared_threadId] at hdrain
    split at hdrain
    · exact hdrain.goes.mono fun _ => .drains
    · rw [hdrain]
      exact .refl _
  have hprepared : Goes (MemStep cfg) (Effect.Approaches s.threadId) s (s.prepared read) :=
    s.prepared_goes fun _ => .initial read.word
  exact (hprepared.trans hdrained).trans (.single (MemStep.idle hidle) (.drains trivial))

variable {n cxlMapping : Nat} {memory : Nat → Nat} {mutexType : MutexId → MutexType}
  {tr : List (Model × Label)}

/-- A load of a run is a read on the way from the start of the run to its end. -/
theorem IsRun.reads (hcfg : cfg.memPoison = false)
    (hrun : IsRun cfg n cxlMapping memory mutexType tr s') {x : Model × Label × Model}
    (hx : x ∈ stepsOf tr s') {v : Nat} (hev : x.2.1.event = .executed read v rf)
    (hload : read.isLoad = true) :
    ∃ s₁ s₂, Goes (MemStep cfg) (fun _ => True) (Model.init n cxlMapping memory mutexType) s₁ ∧
      MemStep cfg s₁ (.read read rf) s₂ ∧ s₂.Control x.2.2 ∧ v = getReadValue read.location rf ∧
      Goes (MemStep cfg) (fun _ => True) s₂ s' := by
  obtain ⟨hall, _⟩ := hrun.invariant hcfg (P := fun _ => True) trivial fun _ _ _ _ _ _ _ _ => trivial
  obtain ⟨hplaced, _, _, hcase⟩ := hall x hx
  rw [hev] at hcase
  obtain ⟨s₁, s₂, hbefore, hread, hcontrol, hv⟩ := hcase.reads hplaced hload
  have hlater : Goes (MemStep cfg) (fun _ => True) s₂ s' :=
    (Goes.single (MemStep.yield hcontrol) trivial).trans (hrun.goes_after hcfg hx)
  exact ⟨s₁, s₂, ((hrun.goes hcfg).1 x hx).1.trans (hbefore.mono fun _ _ => trivial), hread, hcontrol, hv, hlater⟩

end

/-! ## Two loads after a crash -/

end Cxlmc
