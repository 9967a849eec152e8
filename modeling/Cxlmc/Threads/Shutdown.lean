import Cxlmc.System.Places
import Cxlmc.Threads.Processes

/-!
# What `process_shutdown` leaves

`process_shutdown` drains the buffers of every thread of its process, also of those that were done
long before, and only then is the process completed. From then on none of its threads runs, and only a
running thread adds to its own buffer, so the buffers stay empty: nothing that a completed process has
stored waits to become visible (`Model.Published`).
-/

namespace Cxlmc

open Stateful

section

variable {cfg : Config} {s s' s₁ : Model} {t : ThreadId} {b : ModelAction} {e : Event} {l : Label}

/-! ## The loop of `process_shutdown` -/

/-- Where the loop comes to its end, the buffers of the threads of the process that it has passed are
empty. -/
theorem shutdownLoop_empties (hcfg : cfg.memPoison = false) (ts : List ThreadId)
    (hlt : s.activeThread < s.threadCount) (hts : ∀ t ∈ ts, t < s.threadCount) (hstay : s.Stays s₁)
    (hseq : ∀ t, s₁.Unclocked t) (h : (shutdownLoop ts).Ends s₁ (.ok ()) s') :
    ∀ t ∈ ts, (s.threads t).processId = s.processId → s'.Emptied t := by
  induction ts generalizing s₁ with
  | nil =>
      intro t ht
      cases ht
  | cons u ts ih =>
      have hu := hts u List.mem_cons_self
      have htail : ∀ t ∈ ts, t < s.threadCount := fun t ht => hts t (List.mem_cons_of_mem u ht)
      -- the buffers of this thread are drained, and the rest of the loop leaves them empty
      have hdrain : ∀ {x : Model}, s.Stays x → (∀ t, x.Unclocked t) → (s.threads u).processId = s.processId →
          (drain u >>= fun _ => shutdownLoop ts).Ends x (.ok ()) s' →
          ∀ t ∈ u :: ts, (s.threads t).processId = s.processId → s'.Emptied t := by
        intro x hx hseq hown h
        obtain ⟨_, y, h₁, h₂⟩ := ends_bind_ok.mp h
        have hgoes : Goes (MemStep cfg) (Effect.ShutsDown s) x y := by
          have hdoes : Performs cfg (Effect.ShutsDown s) (drain u) x :=
            (drain_does cfg (hseq u)).mono fun e he => ⟨u, hu, hown, he⟩
          exact hdoes.returns h₁
        have hy : s.Stays y := hx.trans (Goes.stays hcfg (fun ⟨_, _, _, h⟩ => h) hgoes)
        have hseq' : ∀ t, y.Unclocked t := Goes.unclocked hcfg hgoes hseq
        intro t ht hproc
        rcases List.mem_cons.mp ht with rfl | ht
        · obtain ⟨hstores, hflushes⟩ := drain_empty (hseq t) h₁
          have hrest := (shutdownLoop_does hcfg ts hlt htail hy hseq').returns h₂
          refine Goes.emptied hcfg hrest ?_ ⟨hstores, hflushes⟩
          intro b hb
          obtain ⟨_, _, _, hdrains⟩ := hb
          exact hdrains
        · exact ih htail hy hseq' h₂ t ht hproc
      unfold shutdownLoop at h
      rw [ends_state_bind, hstay.processId u hu, hstay.ownProcess hlt] at h
      split at h
      · next hown =>
          split at h
          · exact hdrain hstay hseq hown h
          · rw [ends_update_bind] at h
            have hidle : s₁.Idle (s₁.setState u .completed) := .setThread s₁ u rfl rfl
            have hmem : (s₁.setState u .completed).toMemory = s₁.toMemory := hidle.memory
            apply hdrain (hstay.trans hidle.toStays) _ hown h
            intro v a ha
            rw [hmem] at ha
            exact hseq v a ha
      · next hother =>
          intro t ht hproc
          rcases List.mem_cons.mp ht with rfl | ht
          · exact absurd hproc hother
          · exact ih htail hstay hseq h t ht hproc

/-- A step from `process_shutdown` empties the buffers of its process, or the process does not complete. -/
theorem SysStep.empties (hcfg : cfg.memPoison = false) (hs : s.Underway)
    (hctx : s.contextOf s.threadId = .shutdown) (h : SysStep cfg s l s') :
    s'.completedProcs = s.completedProcs ∨
      ∀ t, t < s.threadCount → (s.threads t).processId = s.processId → s'.Emptied t := by
  obtain ⟨_, i, hends⟩ := h
  have hresume : ∀ {q : Except Stop Event} {y : Model}, (resume cfg i).Ends s q y → shutdownRest.Ends s q y := by
    intro q y h
    change (s.threads s.threadId).context = .shutdown at hctx
    rw [resume, ends_state_bind, hctx] at h
    exact h
  rcases ends_onStop.mp hends with ⟨h, _⟩ | ⟨s₁, h, hexit⟩
  · exact absurd (hresume h) not_returns_shutdown
  -- the exit handler leaves the buffers and the completed processes as they are
  suffices hrest : s₁.completedProcs = s.completedProcs ∨
      ∀ t, t < s.threadCount → (s.threads t).processId = s.processId → s₁.Emptied t by
    obtain ⟨t, _, _, rfl⟩ | ⟨_, hr, _⟩ | hr := ends_exit hexit
    · exact hrest.imp_right fun hall u hu hproc => ⟨(hall u hu hproc).storeBuffer, (hall u hu hproc).flushBuffer⟩
    · cases hr
    · cases hr
  replace h := hresume h
  rw [shutdownRest, ends_state_bind] at h
  rcases ends_bind.mp h with ⟨_, s₂, h₁, h₂⟩ | ⟨e, h₁, he⟩
  · right
    rw [ends_update_bind] at h₂
    obtain ⟨_, rfl⟩ := ends_stop.mp h₂
    intro t ht hproc
    have hempty := shutdownLoop_empties hcfg (List.range s.threadCount) hs.placed.active
      (fun t ht => List.mem_range.mp ht) (.refl s) hs.placed.unclocked h₁ t (List.mem_range.mpr ht) hproc
    exact ⟨hempty.storeBuffer, hempty.flushBuffer⟩
  · left
    cases he
    have hloop := ends_shutdownLoop (List.range s.threadCount) [] hs.recorded.attributed (.refl s)
      (by simp) (by rw [s.terminated_nil]; exact h₁)
    obtain ⟨hq, _⟩ | ⟨_, x, ts, hworks, _, hdies⟩ | ⟨_, hq, hne, _⟩ := hloop
    · cases hq
    · have hcrash : s₁.completedProcs = x.completedProcs := by
        rw [hdies.state]
        exact (Model.processCrash_sameStatus _).completedProcs
      exact hcrash.trans hworks.completedProcs
    · cases hq
      exact absurd rfl hne

/-! ## The steps of the other threads -/

end

end Cxlmc
