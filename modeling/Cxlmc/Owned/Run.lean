import Cxlmc.Lib.Client
import Cxlmc.Owned.Memory
import Cxlmc.System.CrashedThreads

/-!
# A thread that has memory to itself

The stores of the region are those that its thread has executed (`StepCase.owns`), in every run and whatever
crashes besides, until the process of the thread has crashed. So what the thread reads there is what a flat
memory replies to the same accesses in program order (`own_memory`).
-/

namespace Cxlmc

open Stateful Fill

/-! ## The accesses of a thread -/

/-- An access to the region as a call of a flat memory, and what it returned. -/
def Event.accesses (region : Nat → Bool) : Event → List (FlatMemory.Call × Nat)
  | .executed a v _ =>
      if a.Touches region = true then
        if a.isLoad = true then [(.load a.location a.size, v)]
        else if a.isWrite = true then [(.store a.location a.size a.value, v)]
        else []
      else []
  | _ => []

/-- The accesses of a thread to the region in these steps, in program order. -/
def accesses (t : ThreadId) (region : Nat → Bool) (steps : List (Model × Label × Model)) :
    List (FlatMemory.Call × Nat) :=
  steps.flatMap fun x => if x.2.1.tid = t then x.2.1.event.accesses region else []

/-- The flat memory that begins as `memory`, after the accesses of a thread to the region. -/
def ownMemory (memory : Nat → Nat) (t : ThreadId) (region : Nat → Bool)
    (steps : List (Model × Label × Model)) : FlatMemory :=
  afterCalls FlatMemory.reply (accesses t region steps) fun x => UInt8.ofNat (memory x)

/-- The process of the thread has crashed. -/
def Model.Killed (s : Model) (t : ThreadId) : Prop :=
  t < s.threadCount ∧ s.isCrashed (s.threads t).processId = true

section

variable {cfg : Config} {s s' s₁ : Model} {ev : Event} {t : ThreadId} {region : Nat → Bool}
  {executed : List ModelAction} {a b : ModelAction} {v x : Nat} {rf : Slots} {memory : Nat → Nat}

/-! ## What is executed keeps to what was asked for -/

theorem ModelAction.KeepsTo.of_isControl (h : a.isControl = true) : a.KeepsTo t region := by
  obtain ⟨hwrite, hcreate⟩ := ModelAction.isWrite_of_isControl h
  refine ⟨?_, ?_, fun htype => absurd htype hcreate⟩
  · intro hw
    rw [hwrite] at hw
    cases hw
  · intro hload
    simp [ModelAction.isControl, hload] at h

theorem ModelAction.KeepsTo.stamp (s : Model) (h : a.KeepsTo t region) : (s.stamp a).KeepsTo t region := by
  unfold Model.stamp
  split
  · exact ⟨h.store, h.load, h.create⟩
  · exact h

/-- The store that an action pushes. -/
theorem ModelAction.KeepsTo.pushed (h : a.KeepsTo t region)
    (hb : b = a.copy ∨ a.type = .pthreadCreate ∧ b.location = a.location ∧ b.size = 4)
    (hwrite : b.isWrite = true) (htouches : b.Touches region = true) :
    b.tid = t ∧ b.type = .nonatomicStore ∧ b.NaturallyAligned := by
  rcases hb with rfl | ⟨htype, hloc, hsize⟩
  · exact h.store hwrite htouches
  · obtain ⟨x, ⟨hlo, hhi⟩, hin⟩ := ModelAction.touches_iff.mp htouches
    rw [hloc] at hlo hhi
    rw [hsize] at hhi
    rw [h.create htype x hlo hhi] at hin
    cases hin

theorem StepCase.readyKeeps (hcfg : cfg.memPoison = false) (hplaced : s.Placed) (h : StepCase cfg s ev s')
    (hkeeps : ev.KeepsTo t region) (hs : s.ReadyKeeps t region) : s'.ReadyKeeps t region := by
  intro u a ret hctx
  rcases h.ready hcfg hplaced hctx with hctx | ⟨_, _, rfl⟩
  · exact hs u a ret hctx
  · exact hkeeps

theorem StepCase.executed_keeps (hplaced : s.Placed) (h : StepCase cfg s (.executed a v rf) s')
    (hs : s.ReadyKeeps t region) : a.KeepsTo t region := by
  have hholds := hplaced.holds s.threadId
  generalize hev : Event.executed a v rf = e at h
  cases h with
  | executed hctx _ _ =>
      cases hev
      exact (hs _ _ _ hctx).stamp s
  | resumed hctx _ =>
      cases hev
      rw [hctx] at hholds
      exact .of_isControl (ModelAction.isControl_of_isSync hholds.1)
  | _ => cases hev

/-- A byte of the region is stored to in its own word. -/
theorem StepCase.keepsByte (hplaced : s.Placed) (h : StepCase cfg s ev s') (hs : s.ReadyKeeps t region)
    (hx : region x = true) : ev.KeepsByte s (alignAddress x) x := by
  cases ev with
  | executed a v rf =>
      have hkeeps := h.executed_keeps hplaced hs
      constructor
      · intro hwrite hcovers
        have haligned := (hkeeps.store hwrite (ModelAction.touches_iff.mpr ⟨x, hcovers, hx⟩)).2.2
        exact (haligned.alignAddress_eq hcovers).symm
      · intro htype hlo hhi
        rw [hkeeps.create htype x hlo hhi] at hx
        cases hx
  | _ => trivial

/-! ## Steps -/

theorem StepCase.killed (hcfg : cfg.memPoison = false) (hplaced : s.Placed) (h : StepCase cfg s ev s')
    (hs : s.Killed t) : s'.Killed t := by
  obtain ⟨ht, hcrashed⟩ := hs
  have hgoes := h.goes hplaced
  obtain ⟨ht', _, hpid⟩ := Goes.keepsProcess hcfg hgoes ht
  refine ⟨ht', ?_⟩
  rw [hpid]
  apply hgoes.invariant (I := fun x => x.isCrashed (s.threads t).processId = true) _ hcrashed
  intro x e y _ hx hstep
  exact Model.isCrashed_iff.mpr (hstep.mem_crashes hcfg (Model.isCrashed_iff.mp hx))

/-- A step adds its stores to those that the thread has executed, until the process of the thread crashes. -/
theorem StepCase.owns (hcfg : cfg.memPoison = false) (hplaced : s.Placed) (h : StepCase cfg s ev s')
    (hl : s.Listed) (hready : s.ReadyKeeps t region) (hs : s.Killed t ∨ s.Owns t region executed) :
    s'.Killed t ∨ s'.Owns t region (executed ++ if s.threadId = t then ev.stores s else []) := by
  rcases hs with hkilled | hs
  · exact .inl (h.killed hcfg hplaced hkilled)
  have hpushed : ∀ b, Event.Allows s s' ev (.push b) → b.isWrite = true → b.Touches region = true →
      b.tid = t ∧ b.type = .nonatomicStore ∧ b.NaturallyAligned := by
    intro b hb hwrite htouches
    obtain ⟨a, ret, hctx, _, hfrom⟩ := h.pushed_cases hplaced hb
    exact (hready _ _ _ hctx).pushed hfrom hwrite htouches
  split
  · next ht =>
      by_cases hlive : ev = .exited → s'.isCrashed s.processId = false
      · refine .inr (h.logged (I := fun l x => x.Owns t region l) hcfg hplaced ?_ ?_ hlive hl hs)
        · intro l x e y hr ho hx hstep hnone
          refine hstep.owns hcfg hr ho ?_ hx
          intro b hb hwrite
          rw [hnone b hb] at hwrite
          cases hwrite
        · intro l x b y hr ho hx hstep hb
          have hallows : Event.Allows s s' ev (.push b) := Event.allows_push hb
          have hafter := hstep.owns_push hcfg ho (hpushed b hallows) hx
          rwa [if_pos ⟨(h.push_tid hplaced hallows).trans ht, Event.isWrite_of_mem_stores hb⟩] at hafter
      · left
        push Not at hlive
        obtain ⟨hpid, hcrashed⟩ := hlive
        have hlt : t < s.threadCount := ht ▸ hplaced.active
        obtain ⟨ht', _, hproc⟩ := Goes.keepsProcess hcfg (h.goes hplaced) hlt
        refine ⟨ht', ?_⟩
        rw [hproc, ← ht]
        exact Bool.eq_true_of_not_eq_false hcrashed
  · next ht =>
      right
      rw [List.append_nil]
      refine h.others (J := fun x => x.Owns t region executed) hcfg hplaced ?_ hl hs
      intro x e y hr ho hx hstep hpush
      refine hstep.owns hcfg hr ho ?_ hx
      intro b hb hwrite
      obtain ⟨htid, hallows⟩ := hpush b hb
      have hother : b.tid ≠ t := fun heq => ht (htid.symm.trans heq)
      exact ⟨hother, Bool.eq_false_iff.mpr fun htouches => hother (hpushed b hallows hwrite htouches).1⟩

/-! ## Loads -/

/-- What happens before the read leaves the stores where they are, and the bytes of the region. -/
theorem MemStep.owns_of_approaches {e : Effect} {u : ThreadId} (hcfg : cfg.memPoison = false)
    (h : MemStep cfg s e s') (he : e.Approaches u) (hr : s.Recorded) (ho : s.Opened)
    (hs : s.Owns t region executed)
    (hkept : ∀ x, region x = true → s.ByteKept memory (alignAddress x) x) :
    s'.Recorded ∧ s'.Opened ∧ s'.Owns t region executed ∧
      ∀ x, region x = true → s'.ByteKept memory (alignAddress x) x := by
  have hnone : e.StoresNone := by
    cases he with
    | initial word => exact fun _ hb => by cases hb
    | drains h => exact h.storesNone
  refine ⟨h.recorded hcfg hr, h.opened_of_storesNone hcfg hnone ho, ?_, ?_⟩
  · refine h.owns hcfg hr ho ?_ hs
    intro b hb hwrite
    rw [hnone b hb] at hwrite
    cases hwrite
  · intro x hx
    refine h.byteKept hcfg (by unfold alignAddress; omega) (by unfold alignAddress; omega) ?_ ho (hkept x hx)
    rintro loc size rfl
    cases he with
    | drains h => exact h.elim

/-- A load inside the region returns what a flat memory holds after the stores of the thread. -/
theorem StepCase.load_owned {read : ModelAction} (hcfg : cfg.memPoison = false) (hplaced : s.Placed)
    (h : StepCase cfg s (.executed read v rf) s') (hload : read.isLoad = true) (ht : s.threadId = t)
    (hread : read.NaturallyAligned) (hinside : ∀ x, read.Covers x → region x = true)
    (hlive : s.isCrashed s.processId = false) (hl : s.Listed) (hs : s.Owns t region executed)
    (hkept : ∀ x, region x = true → s.ByteKept memory (alignAddress x) x) :
    v = (storedMemory memory executed).load read.location read.size := by
  obtain ⟨_, hself, _, _, _⟩ := h.load hplaced hload
  obtain ⟨s₁, s₂, hbefore, hstep, hcontrol, hv⟩ := h.reads hplaced hload
  obtain ⟨hr₁, _, hs₁, hkept₁⟩ : s₁.Recorded ∧ s₁.Opened ∧ s₁.Owns t region executed ∧
      ∀ x, region x = true → s₁.ByteKept memory (alignAddress x) x := by
    apply hbefore.invariant (I := fun x => x.Recorded ∧ x.Opened ∧ x.Owns t region executed ∧
      ∀ y, region y = true → x.ByteKept memory (alignAddress y) y) _ ⟨hl.recorded, hl.opened, hs, hkept⟩
    intro x e y he hx hxy
    obtain ⟨hr, ho, hs, hkept⟩ := hx
    exact hxy.owns_of_approaches hcfg he hr ho hs hkept
  -- the load does not crash its own process
  have hlive₂ : s₂.isCrashed (s₂.threads t).processId = false := by
    have hgoes : Goes (MemStep cfg) (fun _ => True) s s₂ :=
      (hbefore.mono fun _ _ => trivial).trans (.single hstep trivial)
    have hpid := (Goes.keepsProcess hcfg hgoes (t := s.threadId) hplaced.active).2.2
    have hafter := (h.executed_spares_own hcfg hplaced).trans hlive
    have hcrashes : s'.crashes = s₂.crashes := congrArg Memory.crashes hcontrol.memory
    rw [Model.isCrashed, hcrashes] at hafter
    rw [Model.isCrashed, ← ht, hpid]
    exact hafter
  rw [hv]
  apply hstep.value_owned hcfg hs₁ hr₁ (hself.trans ht) hread hinside hlive₂
  intro i hi
  have hcovers : read.Covers (read.location + i) := ModelAction.covers_of_lt hi
  rw [← hread.alignAddress_eq hcovers]
  exact hkept₁ _ (hinside _ hcovers)

/-! ## The stores to the region -/

theorem executedStores_concat (t : ThreadId) (steps : List (Model × Label × Model)) (x : Model × Label × Model) :
    executedStores t (steps ++ [x]) =
      executedStores t steps ++ if x.2.1.tid = t then x.2.1.event.stores x.1 else [] := by
  rw [executedStores, List.flatMap_append, List.flatMap_singleton]
  rfl

theorem covering_touches (hx : region x = true) (stores : List ModelAction) :
    covering x (stores.filter fun a => a.Touches region) = covering x stores := by
  unfold covering
  rw [List.filter_filter]
  apply List.filter_congr
  intro a _
  by_cases hcovers : a.Covers x
  · simp [hcovers, ModelAction.touches_iff.mpr ⟨x, hcovers, hx⟩]
  · simp [hcovers]

/-- A load inside the region needs only the stores that touch it. -/
theorem load_storedMemory {read : ModelAction} (hinside : ∀ x, read.Covers x → region x = true)
    (stores : List ModelAction) :
    (storedMemory memory (stores.filter fun a => a.Touches region)).load read.location read.size =
      (storedMemory memory stores).load read.location read.size := by
  apply FlatMemory.load_congr
  intro j hj
  have hcovers : read.Covers (read.location + j) := ModelAction.covers_of_lt hj
  rw [storedMemory_apply, storedMemory_apply, covering_touches (hinside _ hcovers)]

/-- What is stored is what the store returns. -/
theorem StepCase.value_of_isWrite (hplaced : s.Placed) (h : StepCase cfg s (.executed a v rf) s')
    (hwrite : a.isWrite = true) : v = a.value := by
  have hholds := hplaced.holds s.threadId
  generalize hev : Event.executed a v rf = e at h
  cases h with
  | executed _ h _ =>
      cases hev
      cases h with
      | control _ hcontrol _ =>
          rw [(ModelAction.isWrite_of_isControl hcontrol).1] at hwrite
          cases hwrite
      | load hload _ _ _ _ _ =>
          rw [(ModelAction.isWrite_of_isLoad hload).1] at hwrite
          cases hwrite
      | _ => rfl
  | resumed hctx _ =>
      cases hev
      rw [hctx] at hholds
      rw [(ModelAction.isWrite_of_isControl (ModelAction.isControl_of_isSync hholds.1)).1] at hwrite
      cases hwrite
  | _ => cases hev

/-- The stores of an execution to the region. -/
theorem ModelAction.KeepsTo.stores (h : a.KeepsTo t region) :
    ((Event.executed a v rf).stores s).filter (fun b => b.Touches region) =
      if a.isWrite = true ∧ a.Touches region = true then [a.copy] else [] := by
  rw [Event.stores]
  by_cases hwrite : a.isWrite = true
  · have hcopy : a.copy.Touches region = a.Touches region := rfl
    by_cases htouches : a.Touches region = true <;> simp [hwrite, hcopy, htouches]
  · have hentry : a.type = .pthreadCreate → (s.createEntry a).Touches region = false := by
      intro hcreate
      rw [Bool.eq_false_iff]
      intro htouches
      obtain ⟨x, hcovers, hin⟩ := ModelAction.touches_iff.mp htouches
      rw [h.create hcreate x hcovers.1 hcovers.2] at hin
      cases hin
    by_cases hcreate : a.type = .pthreadCreate
    · simp [hwrite, hcreate, hentry hcreate]
    · simp [hwrite, hcreate]

/-- The accesses of a step to the region store what the step stores there. -/
theorem Event.afterCalls_accesses (hkeeps : ∀ a v rf, ev = .executed a v rf → a.KeepsTo t region)
    (stores : List ModelAction) :
    storedMemory memory (stores ++ (ev.stores s).filter fun a => a.Touches region) =
      afterCalls FlatMemory.reply (ev.accesses region) (storedMemory memory stores) := by
  cases ev with
  | executed a v rf =>
      rw [(hkeeps a v rf rfl).stores, Event.accesses]
      by_cases htouches : a.Touches region = true
      · by_cases hload : a.isLoad = true
        · rw [if_neg (by simp [(ModelAction.isWrite_of_isLoad hload).1]), if_pos htouches, if_pos hload,
            List.append_nil]
          rfl
        · by_cases hwrite : a.isWrite = true
          · rw [if_pos ⟨hwrite, htouches⟩, if_pos htouches, if_neg hload, if_pos hwrite, storedMemory_concat]
            rfl
          · rw [if_neg fun h => hwrite h.1, if_pos htouches, if_neg hload, if_neg hwrite, List.append_nil]
            rfl
      · rw [if_neg fun h => htouches h.2, if_neg htouches, List.append_nil]
        rfl
  | _ => exact congrArg (storedMemory memory) (List.append_nil _)

end

/-! ## Runs -/

section

variable {cfg : Config} {n cxlMapping : Nat} {memory : Nat → Nat} {mutexType : MutexId → MutexType}
  {tr : List (Model × Label)} {s' : Model} {t : ThreadId} {region : Nat → Bool}

theorem Model.owns_init : (Model.init n cxlMapping memory mutexType).Owns t region [] where
  head w a rest hlist := by cases hlist
  evicted w a ha := by cases ha
  others u _ b hb := by cases hb
  own b hb := by cases hb
  order x _ := rfl

/-- Before each step the stores of the region are those of the thread, unless its process has crashed. -/
theorem IsRun.owned (hcfg : cfg.memPoison = false) (hrun : IsRun cfg n cxlMapping memory mutexType tr s')
    (hkeeps : ∀ x ∈ stepsOf tr s', x.2.1.event.KeepsTo t region) :
    ∀ pre x post, stepsOf tr s' = pre ++ x :: post → x.1.ReadyKeeps t region ∧
      (x.1.Killed t ∨ x.1.Owns t region (executedStores t pre)) := by
  obtain ⟨hlisted, _⟩ := hrun.listed hcfg
  apply (hrun.2.history (P := fun done s => s.ReadyKeeps t region ∧
    (s.Killed t ∨ s.Owns t region (executedStores t done))) [] _ _).1
  · intro done x hx hp
    obtain ⟨hready, howns⟩ := hp
    obtain ⟨hplaced, hl, htid, hcase⟩ := hlisted x hx
    refine ⟨hcase.readyKeeps hcfg hplaced (hkeeps x hx) hready, ?_⟩
    rw [executedStores_concat, htid]
    exact hcase.owns hcfg hplaced hl hready howns
  · refine ⟨?_, .inr Model.owns_init⟩
    intro u a ret hctx
    cases hctx

/-- A load of the thread inside the region returns what it has stored there. -/
theorem IsRun.load_owned (hcfg : cfg.memPoison = false) (hrun : IsRun cfg n cxlMapping memory mutexType tr s')
    (hkeeps : ∀ x ∈ stepsOf tr s', x.2.1.event.KeepsTo t region) {pre post : List (Model × Label × Model)}
    {x : Model × Label × Model} (heq : stepsOf tr s' = pre ++ x :: post) (ht : x.2.1.tid = t)
    {a : ModelAction} {v : Nat} {rf : Slots} (hev : x.2.1.event = .executed a v rf) (hload : a.isLoad = true)
    (htouches : a.Touches region = true) (hlive : x.1.isCrashed x.1.processId = false) :
    (∀ y, a.Covers y → region y = true) ∧
      v = (storedMemory memory (executedStores t pre)).load a.location a.size := by
  have hx : x ∈ stepsOf tr s' := by simp [heq]
  obtain ⟨hlisted, _⟩ := hrun.listed hcfg
  have howned := hrun.owned hcfg hkeeps
  obtain ⟨hplaced, hl, htid, hcase⟩ := hlisted x hx
  obtain ⟨hready, howns⟩ := howned pre x post heq
  rw [hev] at hcase
  have hself : x.1.threadId = t := htid.symm.trans ht
  obtain ⟨_, hatid, _, _, _⟩ := hcase.load hplaced hload
  obtain ⟨haligned, hinside⟩ := (hcase.executed_keeps hplaced hready).load hload (hatid.trans hself) htouches
  have howns : x.1.Owns t region (executedStores t pre) := by
    rcases howns with hkilled | howns
    · have hcrashed := hkilled.2
      rw [← hself] at hcrashed
      exact absurd (hlive.symm.trans hcrashed) Bool.false_ne_true
    · exact howns
  -- what the region held at the start is still there, or in the lists
  have hkept : ∀ y, region y = true → x.1.ByteKept memory (alignAddress y) y := by
    intro y hy
    refine (hrun.byteKept hcfg (by unfold alignAddress; omega) (by unfold alignAddress; omega) ?_).1 x hx
    intro z hz
    obtain ⟨before, after, hsplit⟩ := List.append_of_mem hz
    obtain ⟨hplaced', _, _, hcase'⟩ := hlisted z hz
    exact hcase'.keepsByte hplaced' (howned before z after hsplit).1 hy
  exact ⟨hinside, hcase.load_owned hcfg hplaced hload hself haligned hinside hlive hl howns hkept⟩

/-- A step of the thread gets from a flat memory what it gets. -/
theorem IsRun.replies_step (hcfg : cfg.memPoison = false) (hrun : IsRun cfg n cxlMapping memory mutexType tr s')
    (hkeeps : ∀ x ∈ stepsOf tr s', x.2.1.event.KeepsTo t region) {pre post : List (Model × Label × Model)}
    {x : Model × Label × Model} (heq : stepsOf tr s' = pre ++ x :: post) (ht : x.2.1.tid = t)
    (hlive : x.2.1.event.accesses region ≠ [] → x.1.isCrashed x.1.processId = false) :
    Replies FlatMemory.reply (x.2.1.event.accesses region)
      (storedMemory memory ((executedStores t pre).filter fun a => a.Touches region)) := by
  obtain ⟨hplaced, _, _, hcase⟩ := (hrun.listed hcfg).1 x (by simp [heq])
  cases hev : x.2.1.event with
  | executed a v rf =>
      rw [hev] at hcase hlive
      rw [Event.accesses] at hlive ⊢
      split
      · next htouches =>
          rw [if_pos htouches] at hlive
          split
          · next hload =>
              rw [if_pos hload] at hlive
              obtain ⟨hinside, hv⟩ := hrun.load_owned hcfg hkeeps heq ht hev hload htouches
                (hlive (List.cons_ne_nil _ _))
              refine ⟨?_, trivial⟩
              rw [hv]
              exact load_storedMemory hinside _
          · split
            · next hwrite => exact ⟨(hcase.value_of_isWrite hplaced hwrite).symm, trivial⟩
            · trivial
      · trivial
  | _ => trivial

/-- The accesses of the thread over a run, as those of a flat memory. -/
theorem IsRun.replies (hcfg : cfg.memPoison = false) (hrun : IsRun cfg n cxlMapping memory mutexType tr s')
    (hkeeps : ∀ x ∈ stepsOf tr s', x.2.1.event.KeepsTo t region)
    (hlive : ∀ x ∈ stepsOf tr s', x.2.1.tid = t → x.2.1.event.accesses region ≠ [] →
      x.1.isCrashed x.1.processId = false) :
    Replies FlatMemory.reply (accesses t region (stepsOf tr s')) fun x => UInt8.ofNat (memory x) := by
  have howned := hrun.owned hcfg hkeeps
  refine (replies_flatMap (f := fun x => if x.2.1.tid = t then x.2.1.event.accesses region else [])
    (m := fun steps => storedMemory memory ((executedStores t steps).filter fun a => a.Touches region))
    ?_).1
  intro pre x post heq
  have hx : x ∈ stepsOf tr s' := by simp [heq]
  obtain ⟨hplaced, _, _, hcase⟩ := (hrun.listed hcfg).1 x hx
  rw [executedStores_concat, List.filter_append]
  split
  · next ht =>
      refine ⟨hrun.replies_step hcfg hkeeps heq ht (hlive x hx ht), ?_⟩
      apply Event.afterCalls_accesses
      intro a v rf hev
      rw [hev] at hcase
      exact hcase.executed_keeps hplaced (howned pre x post heq).1
  · exact ⟨trivial, by simp⟩

/-- **Memory that one thread has to itself is flat.** In every run, whatever the other threads do and whichever
processes crash, the accesses of the thread to the region return what a flat memory replies to them in program
order. -/
theorem own_memory (hcfg : cfg.memPoison = false) (hrun : IsRun cfg n cxlMapping memory mutexType tr s')
    (hkeeps : ∀ x ∈ stepsOf tr s', x.2.1.event.KeepsTo t region)
    (hlive : ∀ x ∈ stepsOf tr s', x.2.1.tid = t → x.2.1.event.accesses region ≠ [] →
      x.1.isCrashed x.1.processId = false) :
    Replies FlatMemory.reply (accesses t region (stepsOf tr s')) fun x => UInt8.ofNat (memory x) :=
  hrun.replies hcfg hkeeps hlive

end

/-- Thread 0 stores to a word and to its upper half, process 1 stores to another word, a load of thread 0 there
crashes process 1, and then thread 0 loads its own word. -/
def ownWord : List (Input × List Nat) :=
  [({ call := .store 8192 .w64 7 }, []), ({}, []), ({}, []),
   ({ call := .store 8196 .w32 1 }, []), ({}, []), ({}, []),
   ({ call := .schedYield }, []),
   ({ call := .store 4096 .w64 1 }, []), ({}, []), ({}, []),
   ({ call := .store 4096 .w64 2 }, []), ({}, []), ({}, []),
   ({ call := .store 4096 .w64 3 }, []), ({ rand := 1, random := 2 }, []), ({}, []), ({}, []), ({}, []),
   ({ call := .schedYield }, []), ({}, []), ({}, []),
   ({ call := .load 4096 .w64 }, []), ({}, [0, 1]), ({}, []),
   ({ call := .load 8192 .w64 }, []), ({}, [])]

/-- The word of thread 0 in `ownWord`. -/
def ownRegion (x : Nat) : Bool := decide (8192 ≤ x ∧ x < 8200)

/-- The process of the thread is running when it accesses the region. -/
def livesThrough (t : ThreadId) (region : Nat → Bool) (steps : List (Model × Label × Model)) : Bool :=
  steps.all fun x => decide (x.2.1.tid = t → x.2.1.event.accesses region ≠ [] →
    x.1.isCrashed x.1.processId = false)

/-- `own_memory` on the run of `ownWord`, in which process 1 has crashed. -/
theorem own_memory_ownWord : ∃ tr s,
    IsRun .asBuilt 2 4096 (fun _ => 0) (fun _ => .default) tr s ∧ s.isCrashed 1 = true ∧
    accesses 0 ownRegion (stepsOf tr s) =
      [(.store 8192 8 7, 7), (.store 8196 4 1, 1), (.load 8192 8, 7 + 2 ^ 32)] ∧
    Replies FlatMemory.reply (accesses 0 ownRegion (stepsOf tr s)) fun _ => 0 := by
  obtain ⟨tr, s, hrun, hcheck⟩ := exists_run_of_replay .asBuilt
    (Model.init 2 4096 (fun _ => 0) (fun _ => .default)) ownWord
    (fun tr s => s.isCrashed 1 && livesThrough 0 ownRegion (stepsOf tr s) &&
      decide (accesses 0 ownRegion (stepsOf tr s) =
        [(.store 8192 8 7, 7), (.store 8196 4 1, 1), (.load 8192 8, 7 + 2 ^ 32)]) &&
      (stepsOf tr s).all fun x => decide (x.2.1.event.KeepsTo 0 ownRegion)) (by decide +kernel)
  simp only [Bool.and_eq_true, List.all_eq_true, decide_eq_true_eq, livesThrough] at hcheck
  obtain ⟨⟨⟨hcrashed, hlives⟩, haccesses⟩, hkeeps⟩ := hcheck
  have hrun' : IsRun .asBuilt 2 4096 (fun _ => 0) (fun _ => .default) tr s := ⟨by decide, hrun⟩
  exact ⟨tr, s, hrun', hcrashed, haccesses, own_memory rfl hrun' hkeeps hlives⟩

end Cxlmc
