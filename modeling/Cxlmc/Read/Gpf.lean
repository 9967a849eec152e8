import Cxlmc.Read.Coherence

/-!
# Reads that record no alternatives

With `backtrack` off and no interval closed, the loop of `build_read_from` asks no question, crashes
nobody and closes no interval, and its slots hold what the plain loop over the newest stores would
put into them, crashed writers or not (`readLoop_plain`).
-/

namespace Cxlmc

open Stateful Fill

/-- No interval has an end. -/
def Model.NoEnds (s : Model) : Prop := ∀ pid line, (s.objToCl pid line).getEnd = 0

/-- The running process records no alternatives, and no interval has an end. -/
structure Model.Plain (s : Model) : Prop where
  backtrack : s.backtrack s.processId = false
  noEnds : s.NoEnds

section

variable {cfg : Config} {read : ModelAction} {rpid : ProcessId} {store : ModelAction}
  {older ws : List ModelAction} {s s' s₁ : Model} {rf rf₁ : Slots}

/-! ## One round -/

theorem Model.NoEnds.raiseBegin (h : s.NoEnds) (pid : ProcessId) (line seqNum : Nat) :
    (s.raiseBegin pid line seqNum).NoEnds := by
  intro q a
  show (s.objToCl.setCacheline pid line _ q a).getEnd = 0
  rw [CacheLineStore.setCacheline_apply]
  split
  · exact h pid line
  · exact h q a

theorem Model.NoEnds.declineCrash (h : s.NoEnds) (store : ModelAction) (line : Nat) :
    (s.declineCrash store line).NoEnds := by
  unfold Model.declineCrash
  split
  · exact h.raiseBegin _ _ _
  · exact h

theorem Model.Plain.not_mayCrash (h : s.Plain) (store : ModelAction) (line : Nat) :
    ¬ s.MayCrash store line := by
  rintro ⟨hback, _⟩
  rw [h.backtrack] at hback
  cases hback

theorem Model.Plain.of_marks {line : Nat} (h : s.Plain) (hm : Model.Marks line s s')
    (hends : s'.NoEnds) : s'.Plain := by
  obtain ⟨cls, n, rfl, _⟩ := hm
  exact ⟨h.backtrack, hends⟩

theorem Running.noEnds (h : Running read rpid store s rf s₁ rf₁) (hends : s.NoEnds) : s₁.NoEnds := by
  cases h with
  | shadowed _ => exact hends
  | own _ _ => exact hends
  | declined _ _ _ _ =>
      have hcount : s.countCrashPoint.NoEnds := hends
      exact hcount.declineCrash _ _
  | notOffered _ _ _ _ => exact hends.declineCrash _ _

/-- A store of a crashed process takes its slots, or it is passed over. -/
theorem Persist.plain (h : Persist cfg read store older s rf s₁ rf₁) (hplain : s.Plain) :
    s₁.NoEnds ∧ (rf₁ = fill (wants read) store rf ∨ rf₁ = rf ∧ Skips cfg read store older s) := by
  have hends := hplain.noEnds
  cases h with
  | persisted _ => exact ⟨hends, .inl rfl⟩
  | lostBefore hlt hnot =>
      -- an interval without an end loses nothing
      exact absurd ⟨hlt, .inl (hends _ _)⟩ hnot
  | skipped hskip => exact ⟨hends, .inr ⟨rfl, hskip⟩⟩
  | shadowed _ _ hf => exact ⟨hends, .inl hf.symm⟩
  | kept _ _ _ => exact ⟨hends.raiseBegin _ _ _, .inl rfl⟩
  | lost _ _ _ _ hback =>
      rw [hplain.backtrack] at hback
      cases hback

theorem Visit.plain (h : Visit cfg read rpid store older s rf s₁ rf₁) (hplain : s.Plain) :
    s₁.Plain ∧ (rf₁ = fill (wants read) store rf ∨ rf₁ = rf ∧ Skips cfg read store older s) := by
  cases h with
  | running _ h =>
      exact ⟨hplain.of_marks h.marks (h.noEnds hplain.noEnds), .inl h.slots_eq⟩
  | crash _ h _ => exact absurd h.may (hplain.not_mayCrash _ _)
  | crashed _ h =>
      obtain ⟨hends, hslots⟩ := h.plain hplain
      exact ⟨hplain.of_marks h.marks hends, hslots⟩

/-! ## The loop -/

/-- The slots as far as a read can see them. -/
def seenSlots (rf : Slots) : Slots := rf.map (Option.map ModelAction.data)

theorem countFree_seenSlots (rf : Slots) : countFree (seenSlots rf) = countFree rf :=
  countFree_map _ rf

theorem seenSlots_fillAll (ws : List ModelAction) (rf : Slots) :
    seenSlots (fillAll (wants read) ws rf) =
      fillAll (wants read) (ws.map ModelAction.data) (seenSlots rf) :=
  fillAll_map (wants read) (wants_data read) ws rf

/-- The store that is passed over has the same data as the next one. -/
theorem Skips.seen_eq (hskip : Skips cfg read store older s) (rf : Slots) :
    seenSlots (fillAll (wants read) older rf) =
      seenSlots (fillAll (wants read) (store :: older) rf) := by
  obtain ⟨next, rest, rfl, hdata⟩ := hskip.next
  rw [seenSlots_fillAll, seenSlots_fillAll]
  simp only [List.map_cons, fillAll_cons, hdata, fill_fill]

/-- A round fills the slots as the store would, as far as the rest of the loop can see. -/
theorem Visit.seen_eq (h : Visit cfg read rpid store older s rf s₁ rf₁) (hplain : s.Plain) :
    seenSlots (fillAll (wants read) older rf₁) =
      seenSlots (fillAll (wants read) (store :: older) rf) := by
  obtain ⟨_, rfl | ⟨rfl, hskip⟩⟩ := h.plain hplain
  · rfl
  · exact Skips.seen_eq hskip _

/-- The loop closes no interval and resolves the read like the plain loop over the newest stores. -/
theorem readLoop_plain (hlen : rf.length = read.size) (hfree : countFree rf ≠ 0) (hplain : s.Plain)
    {r : Except Stop Slots} (h : (readLoop cfg read rpid ws rf (countFree rf)).Ends s r s') :
    s'.NoEnds ∧ (∀ rf', r = .ok rf' → seenSlots rf' = seenSlots (fillAll (wants read) ws rf)) ∧
      (countFree (fillAll (wants read) ws rf) = 0 → ∃ rf', r = .ok rf') := by
  induction ws generalizing s rf with
  | nil =>
      obtain ⟨rfl, rfl⟩ := ends_stop.mp h
      refine ⟨hplain.noEnds, nofun, ?_⟩
      intro hfull
      exact absurd hfull hfree
  | cons store older ih =>
      obtain ⟨s₁, rf₁, hv, hrest⟩ := (ends_readLoop_cons hlen hfree).mp h
      obtain ⟨hplain₁, _⟩ := hv.plain hplain
      have hseen := hv.seen_eq hplain
      unfold LoopRest at hrest
      split at hrest
      · next hfull =>
          obtain ⟨rfl, rfl⟩ := hrest
          refine ⟨hplain₁.noEnds, ?_, fun _ => ⟨rf₁, rfl⟩⟩
          intro rf' hrf
          cases hrf
          rw [← hseen, fillAll_of_full _ _ hfull]
      · next hfull =>
          obtain ⟨hends, hok, htotal⟩ := ih (hv.length_eq.trans hlen) hfull hplain₁ hrest
          refine ⟨hends, ?_, ?_⟩
          · intro rf' hrf
            rw [← hseen]
            exact hok rf' hrf
          · intro hall
            apply htotal
            rw [← countFree_seenSlots, hseen, countFree_seenSlots]
            exact hall

/-! ## No question is asked -/

theorem readRunning_noChoice (hplain : s.Plain) (left : Nat) :
    NoChoice (readRunning read rpid store rf left) s := by
  unfold readRunning
  split
  · exact .pure _
  · apply NoChoice.state_bind
    dsimp only
    split
    · have hcond : ¬ (s.backtrack s.processId ∧ s.crashes.size < maxCrashesPerExecution ∧
          s.crashes.size + 1 < s.processCount ∧ ¬ s.isCompleted (s.getProcessId store) ∧
          store.seqNum > (s.objToCl (s.getProcessId store) read.line).getBegin) :=
        hplain.not_mayCrash store read.line
      rw [if_neg hcond]
      apply NoChoice.pure_bind
      rw [if_neg Bool.false_ne_true]
      split
      · exact NoChoice.update_bind (.pure _)
      · exact .pure _
    · exact .pure _

theorem readCrashed_noChoice (hplain : s.Plain) (left : Nat) :
    NoChoice (readCrashed cfg read store older rf left) s := by
  unfold readCrashed
  apply NoChoice.state_bind
  dsimp only
  split
  · exact .pure _
  · split
    · split
      · exact .pure _
      · split
        · exact .pure _
        · have hcond : ¬ (store.type ≠ .atomicInit ∧ s.backtrack s.processId = true) := by
            rw [hplain.backtrack]
            exact fun h => Bool.false_ne_true h.2
          rw [if_neg hcond]
          apply NoChoice.pure_bind
          rw [if_neg Bool.false_ne_true]
          exact NoChoice.update_bind (.pure _)
    · exact .pure _

theorem readLoop_noChoice (hlen : rf.length = read.size) (hfree : countFree rf ≠ 0)
    (hplain : s.Plain) : NoChoice (readLoop cfg read rpid ws rf (countFree rf)) s := by
  induction ws generalizing s rf with
  | nil => exact .stop _
  | cons store older ih =>
      -- the end of the round, with the slots it leaves
      have hrest : ∀ {s₁ : Model} {rf₁ : Slots}, rf₁.length = read.size → s₁.Plain →
          NoChoice (if countFree rf₁ = 0 then (return rf₁ : M Slots)
            else readLoop cfg read rpid older rf₁ (countFree rf₁)) s₁ := by
        intro s₁ rf₁ hlen₁ hplain₁
        split
        · exact .pure _
        · next hfree₁ => exact ih hlen₁ hfree₁ hplain₁
      rw [readLoop]
      apply NoChoice.state_bind
      by_cases hc : s.isCrashed (s.getProcessId store) = true
      · rw [if_pos hc]
        apply NoChoice.pure_bind
        apply NoChoice.state_bind
        dsimp only
        rw [if_pos hc]
        apply NoChoice.bind (readCrashed_noChoice hplain _)
        intro next s₁ h₁
        obtain ⟨rf₁, hp, ⟨_, hx⟩ | ⟨_, hx⟩⟩ := (ends_readCrashed hlen).mp h₁
        · cases hx
          have hlen₁ : rf₁.length = read.size := by
            rcases hp.slots with rfl | rfl
            · rw [length_fill]
              exact hlen
            · exact hlen
          exact hrest hlen₁ (hplain.of_marks hp.marks (hp.plain hplain).1)
        · cases hx
          exact ih hlen hfree (hplain.of_marks hp.marks (hp.plain hplain).1)
      · rw [if_neg hc]
        apply NoChoice.bind (readRunning_noChoice hplain _)
        intro x s₁ h₁
        obtain ⟨rf₁, hx, hrun | ⟨hinj, _⟩⟩ := (ends_readRunning hlen).mp h₁
        · cases hx
          apply NoChoice.state_bind
          dsimp only
          have hlive : ¬ s₁.isCrashed (s₁.getProcessId store) = true := by
            rw [hrun.getProcessId_eq, Model.isCrashed, hrun.crashes_eq]
            exact hc
          rw [if_neg hlive]
          apply NoChoice.pure_bind
          have hlen₁ : rf₁.length = read.size := by
            rw [hrun.slots_eq, length_fill]
            exact hlen
          exact hrest hlen₁ (hplain.of_marks hrun.marks (hrun.noEnds hplain.noEnds))
        · exact absurd hinj.may (hplain.not_mayCrash _ _)

/-! ## The whole read -/

theorem buildReadFromSlots_noChoice (hpos : 0 < read.size) (hcfg : cfg.memPoison = false)
    (hplain : s.Plain) : NoChoice (buildReadFromSlots cfg read) s := by
  unfold buildReadFromSlots
  apply NoChoice.state_bind
  rw [localBypassing_eq s hpos]
  by_cases hfull : countFree (bypassed s read) = 0
  · simp only [hfull, decide_true, if_true]
    exact .pure _
  · simp only [hfull, decide_false, Bool.false_eq_true, if_false, hcfg]
    apply NoChoice.bind (.require _ _)
    intro _ s₁ h₁
    obtain ⟨rfl, _⟩ := ends_require.mp h₁
    exact NoChoice.state_bind (readLoop_noChoice (length_bypassed _ _) hfull hplain)

theorem buildReadFromSlots_plain (hpos : 0 < read.size) (hcfg : cfg.memPoison = false)
    (hplain : s.Plain) {r : Except Stop Slots} (h : (buildReadFromSlots cfg read).Ends s r s') :
    s'.NoEnds ∧
      (∀ rf, r = .ok rf →
        seenSlots rf =
          seenSlots (fillAll (wants read) (s.candidates read) (Slots.free read.size))) ∧
      (countFree (fillAll (wants read) (s.candidates read) (Slots.free read.size)) = 0 →
        ∃ rf, r = .ok rf) := by
  have hcands : fillAll (wants read) (s.candidates read) (Slots.free read.size) =
      fillAll (wants read) (s.objToWr read.word).reverse (bypassed s read) := by
    rw [Model.candidates, fillAll_append]
    rfl
  rw [hcands]
  rw [ends_buildReadFromSlots hpos hcfg, LoopRest] at h
  split at h
  · next hfull =>
      obtain ⟨rfl, rfl⟩ := h
      refine ⟨hplain.noEnds, ?_, fun _ => ⟨_, rfl⟩⟩
      intro rf hrf
      cases hrf
      rw [fillAll_of_full _ _ hfull]
  · next hfull => exact readLoop_plain (length_bypassed s read) hfull hplain h

end

end Cxlmc
