import Cxlmc.Effect.Basic
import Cxlmc.Read.CutOff

/-!
# What a read does to the state

A read may move intervals and crash writers of other processes, and nothing else (`Observes`). Where
it crashes nobody and nobody has crashed before it, its slots are filled from the reader's own
buffer and then from the store list, newest store first (`readLoop_crashFree`).
-/

namespace Cxlmc

open Stateful Fill

/-! ## Crashes are only added -/

/-- Crashes are added at `clock`, none of them of the process `own`. -/
structure Crashes.Extends (own : ProcessId) (clock : Nat) (c c' : Crashes) : Prop where
  kept : ∀ q n, c.lookup q = some n → c'.lookup q = some n
  new : ∀ q n, c'.lookup q = some n → c.lookup q = some n ∨ q ≠ own ∧ n = clock

namespace Crashes.Extends

variable {own : ProcessId} {clock : Nat} {c c' c'' : Crashes}

theorem refl (own : ProcessId) (clock : Nat) (c : Crashes) : c.Extends own clock c :=
  ⟨fun _ _ h => h, fun _ _ h => .inl h⟩

theorem trans (h : Extends own clock c c') (h' : Extends own clock c' c'') :
    Extends own clock c c'' := by
  refine ⟨fun q n hq => h'.kept q n (h.kept q n hq), ?_⟩
  intro q n hq
  rcases h'.new q n hq with hq | hq
  · exact h.new q n hq
  · exact .inr hq

theorem emplace {pid : ProcessId} (hpid : pid ≠ own) (clock : Nat) (c : Crashes) :
    Extends own clock c (c.emplace pid clock) := by
  unfold Crashes.emplace
  split
  · exact refl own clock c
  · next hmem =>
      constructor
      · intro q n hq
        have hne : q ≠ pid := by
          rintro rfl
          exact hmem (AList.lookup_isSome.mp (by rw [hq]; rfl))
        rw [AList.lookup_insert_ne hne]
        exact hq
      · intro q n hq
        by_cases hqp : q = pid
        · subst hqp
          rw [AList.lookup_insert] at hq
          exact .inr ⟨hpid, (Option.some.inj hq).symm⟩
        · rw [AList.lookup_insert_ne hqp] at hq
          exact .inl hq

theorem mem (h : Extends own clock c c') {q : ProcessId} (hq : q ∈ c) : q ∈ c' := by
  obtain ⟨n, hn⟩ := Option.isSome_iff_exists.mp (AList.lookup_isSome.mpr hq)
  exact AList.lookup_isSome.mp (by rw [h.kept q n hn]; rfl)

theorem own_mem (h : Extends own clock c c') (hq : own ∈ c') : own ∈ c := by
  obtain ⟨n, hn⟩ := Option.isSome_iff_exists.mp (AList.lookup_isSome.mpr hq)
  rcases h.new own n hn with hc | ⟨hne, _⟩
  · exact AList.lookup_isSome.mp (by rw [hc]; rfl)
  · exact absurd rfl hne

end Crashes.Extends

theorem Crashes.eq_empty_iff {c : Crashes} : c = ∅ ↔ ∀ q, q ∉ c := by
  constructor
  · rintro rfl q
    exact AList.notMem_empty q
  · intro h
    apply AList.ext
    cases hc : c.entries with
    | nil => rfl
    | cons e es =>
        have hmem : e.1 ∈ c := by
          rw [AList.mem_keys, AList.keys, hc]
          exact List.mem_cons_self
        exact absurd hmem (h e.1)

theorem Model.isCrashed_iff {s : Model} {pid : ProcessId} :
    s.isCrashed pid = true ↔ pid ∈ s.crashes :=
  decide_eq_true_iff

/-! ## What a read may change -/

/-- Only intervals, the count of crash points and the crashes differ. -/
structure Model.Observes (own : ProcessId) (s s' : Model) : Prop where
  frame : ∃ cls n cr, s' = { s with objToCl := cls, crashPoints := n, crashes := cr }
  crashes : s.crashes.Extends own s.nextSequenceNum s'.crashes

namespace Model.Observes

variable {own : ProcessId} {s s' s'' : Model}

theorem refl (own : ProcessId) (s : Model) : Observes own s s :=
  ⟨⟨s.objToCl, s.crashPoints, s.crashes, rfl⟩, .refl _ _ _⟩

theorem trans (h : Observes own s s') (h' : Observes own s' s'') : Observes own s s'' := by
  obtain ⟨⟨cls, n, cr, rfl⟩, hc⟩ := h
  obtain ⟨⟨cls', n', cr', rfl⟩, hc'⟩ := h'
  exact ⟨⟨cls', n', cr', rfl⟩, hc.trans hc'⟩

theorem of_marks {line : Nat} (h : Marks line s s') : Observes own s s' := by
  obtain ⟨cls, n, rfl, _⟩ := h
  exact ⟨⟨cls, n, s.crashes, rfl⟩, .refl _ _ _⟩

theorem crash {pid : ProcessId} (hpid : pid ≠ own) : Observes own s (s.countCrashPoint.crash pid) :=
  ⟨⟨s.objToCl, _, _, rfl⟩, .emplace hpid _ _⟩

theorem toScheduler (h : Observes own s s') : s'.toScheduler = s.toScheduler := by
  obtain ⟨cls, n, cr, rfl⟩ := h.frame
  rfl

theorem memory (h : Observes own s s') :
    s'.toMemory = { s.toMemory with objToCl := s'.objToCl, crashes := s'.crashes } := by
  obtain ⟨cls, n, cr, rfl⟩ := h.frame
  rfl

end Model.Observes

section

variable {cfg : Config} {read : ModelAction} {rpid : ProcessId} {store : ModelAction}
  {older ws : List ModelAction} {s s' s₁ : Model} {rf rf₁ rf' : Slots}

theorem Visit.observes (h : Visit cfg read rpid store older s rf s₁ rf₁) :
    s.Observes rpid s₁ := by
  cases h with
  | running _ h => exact .of_marks h.marks
  | crash _ h h' =>
      have hcrash := h.state ▸ Model.Observes.crash h.other
      exact hcrash.trans (.of_marks h'.marks)
  | crashed _ h => exact .of_marks h.marks

theorem readLoop_observes {r : Except Stop Slots} (hlen : rf.length = read.size)
    (hfree : countFree rf ≠ 0)
    (h : (readLoop cfg read rpid ws rf (countFree rf)).Ends s r s') : s.Observes rpid s' := by
  induction ws generalizing s rf with
  | nil =>
      rw [(ends_stop.mp h).2]
      exact .refl _ s
  | cons store older ih =>
      obtain ⟨s₁, rf₁, hv, hrest⟩ := (ends_readLoop_cons hlen hfree).mp h
      unfold LoopRest at hrest
      split at hrest
      · rw [hrest.2]
        exact hv.observes
      · next hfull => exact hv.observes.trans (ih (hv.length_eq.trans hlen) hfull hrest)

theorem buildReadFromSlots_observes {r : Except Stop Slots} (hpos : 0 < read.size)
    (hcfg : cfg.memPoison = false) (h : (buildReadFromSlots cfg read).Ends s r s') :
    s.Observes (s.getProcessId read) s' := by
  rw [ends_buildReadFromSlots hpos hcfg, LoopRest] at h
  split at h
  · rw [h.2]
    exact .refl _ s
  · next hfull => exact readLoop_observes (length_bypassed s read) hfull h

/-- The loop of a read ends with a failed assertion or with the slots. -/
theorem readLoop_error {e : Stop} (hlen : rf.length = read.size) (hfree : countFree rf ≠ 0)
    (h : (readLoop cfg read rpid ws rf (countFree rf)).Ends s (.error e) s') :
    e = .assertFailed := by
  induction ws generalizing s rf with
  | nil =>
      have he := (ends_stop.mp h).1
      cases he
      rfl
  | cons store older ih =>
      obtain ⟨s₁, rf₁, hv, hrest⟩ := (ends_readLoop_cons hlen hfree).mp h
      unfold LoopRest at hrest
      split at hrest
      · cases hrest.1
      · next hfull => exact ih (hv.length_eq.trans hlen) hfull hrest

theorem buildReadFromSlots_error (hpos : 0 < read.size) (hcfg : cfg.memPoison = false) {e : Stop}
    (h : (buildReadFromSlots cfg read).Ends s (.error e) s') : e = .assertFailed := by
  rw [ends_buildReadFromSlots hpos hcfg, LoopRest] at h
  split at h
  · cases h.1
  · next hfull => exact readLoop_error (length_bypassed s read) hfull h

/-! ## Without a crash -/

/-- Where nobody has crashed after the round, the store was one of a running process. -/
theorem Visit.running_of_crashFree (h : Visit cfg read rpid store older s rf s₁ rf₁)
    (hfree : s₁.crashes = ∅) : Running read rpid store s rf s₁ rf₁ := by
  have hnone := Crashes.eq_empty_iff.mp hfree
  cases h with
  | running _ h => exact h
  | crash _ h h' =>
      obtain ⟨cls, n, hs, _⟩ := h'.marks
      have hcrashed := h.isCrashed
      rw [hs] at hnone
      exact absurd (of_decide_eq_true hcrashed) (hnone _)
  | crashed hc h =>
      obtain ⟨cls, n, hs, _⟩ := h.marks
      rw [hs] at hnone
      exact absurd (of_decide_eq_true hc) (hnone _)

/-- Without a crash every store of the list fills the slots it wants. -/
theorem readLoop_crashFree (hlen : rf.length = read.size) (hfree : countFree rf ≠ 0)
    (hcrash : s'.crashes = ∅)
    (h : (readLoop cfg read rpid ws rf (countFree rf)).Ends s (.ok rf') s') :
    rf' = fillAll (wants read) ws rf ∧ countFree rf' = 0 := by
  induction ws generalizing s rf with
  | nil => cases (ends_stop.mp h).1
  | cons store older ih =>
      obtain ⟨s₁, rf₁, hv, hrest⟩ := (ends_readLoop_cons hlen hfree).mp h
      have hgrows : s₁.Observes rpid s' := by
        unfold LoopRest at hrest
        split at hrest
        · rw [hrest.2]
          exact .refl _ s₁
        · next hfull => exact readLoop_observes (hv.length_eq.trans hlen) hfull hrest
      have hs₁ : s₁.crashes = ∅ := by
        rw [Crashes.eq_empty_iff]
        intro q hq
        exact Crashes.eq_empty_iff.mp hcrash q (hgrows.crashes.mem hq)
      have hslots := (hv.running_of_crashFree hs₁).slots_eq
      rw [fillAll_cons, ← hslots]
      unfold LoopRest at hrest
      split at hrest
      · next hfull =>
          obtain ⟨hrf, _⟩ := hrest
          cases hrf
          exact ⟨(fillAll_of_full _ _ hfull).symm, hfull⟩
      · next hfull => exact ih (hv.length_eq.trans hlen) hfull hrest

/-- The slots of a read without a crash. -/
theorem buildReadFromSlots_crashFree (hpos : 0 < read.size) (hcfg : cfg.memPoison = false)
    (hcrash : s'.crashes = ∅) (h : (buildReadFromSlots cfg read).Ends s (.ok rf') s') :
    rf' = fillAll (wants read) (s.objToWr read.word).reverse (bypassed s read) ∧
      countFree rf' = 0 := by
  rw [ends_buildReadFromSlots hpos hcfg, LoopRest] at h
  split at h
  · next hfull =>
      cases h.1
      exact ⟨(fillAll_of_full _ _ hfull).symm, hfull⟩
  · next hfull => exact readLoop_crashFree (length_bypassed s read) hfull hcrash h

end

/-! ## What no effect changes -/

section

variable {cfg : Config} {s s' s₁ : Model} {e : Effect} {P : Effect → Prop}

theorem Model.Stays.of_eq (hsched : s'.toScheduler = s.toScheduler)
    (hcxl : s'.cxlMapping = s.cxlMapping) : s.Stays s' := by
  have hthreads : s'.threads = s.threads := by rw [hsched]
  refine ⟨by rw [hsched], hcxl, by rw [hsched], fun t _ => by rw [hthreads], by rw [hsched], ?_⟩
  intro t
  left
  rw [Model.contextOf, Model.contextOf, hthreads]

/-- Only `yield` takes the token away or moves a thread that exists. -/
theorem MemStep.stays (hcfg : cfg.memPoison = false) (h : MemStep cfg s e s')
    (he : e ≠ .yield) : s.Stays s' := by
  cases h with
  | idle h => exact h.toStays
  | yield _ => exact absurd rfl he
  | read action rf htid hpos hread =>
      have hobs := buildReadFromSlots_observes hpos hcfg hread
      obtain ⟨cls, n, cr, rfl⟩ := hobs.frame
      exact .of_eq rfl rfl
  | _ => exact .of_eq rfl rfl

theorem Goes.stays (hcfg : cfg.memPoison = false) (hP : ¬ P .yield)
    (h : Goes (MemStep cfg) P s s') : s.Stays s' := by
  apply h.preorder .refl .trans
  intro a e b he hstep
  apply hstep.stays hcfg
  rintro rfl
  exact hP he

/-- Only `crashSelf` adds the running process to the crashes. -/
theorem MemStep.crashes (hcfg : cfg.memPoison = false) (h : MemStep cfg s e s')
    (he : e ≠ .crashSelf) : s.crashes.Extends s.processId s.nextSequenceNum s'.crashes := by
  cases h with
  | idle h =>
      rw [h.memory]
      exact .refl _ _ _
  | yield h =>
      rw [h.memory]
      exact .refl _ _ _
  | crash pid hother _ _ => exact .emplace hother _ _
  | crashSelf _ _ => exact absurd rfl he
  | read action rf htid hpos hread =>
      have hobs := (buildReadFromSlots_observes hpos hcfg hread).crashes
      rw [Model.getProcessId, htid] at hobs
      exact hobs
  | _ => exact .refl _ _ _

/-- A process that has crashed stays so. -/
theorem MemStep.mem_crashes (hcfg : cfg.memPoison = false) (h : MemStep cfg s e s') {p : ProcessId}
    (hp : p ∈ s.crashes) : p ∈ s'.crashes := by
  by_cases he : e = .crashSelf
  · subst he
    cases h with
    | crashSelf _ _ => exact Crashes.mem_emplace.mpr (.inr hp)
  · exact (h.crashes hcfg he).mem hp

end

end Cxlmc
