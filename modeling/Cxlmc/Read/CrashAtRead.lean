import Cxlmc.Read.LazyPersistence

/-!
# Crash injection at a read

A read before any crash returns the newest value, or crashes one of the processes whose stores it is
about to return and then reads what a cut-off for that process leaves. The processes it may crash
are those with a store that contributes a byte to the newest value and is not known to be persistent
(`CrashCandidate`); nothing else is returned, and all of this is (`crash_at_read`).

The loop decides on the way, when it has filled some of the slots and raised the interval of every
writer it has declined to crash. `Offered` is the candidate condition for what is left of the loop,
and `Offered.of_running` and `Offered.running` carry it through a round in both directions.
-/

namespace Cxlmc

open Stateful Fill

/-- The processes that a read may crash. -/
def CrashCandidate (s : Model) (read : ModelAction) (p : ProcessId) : Prop :=
  p ≠ s.getProcessId read ∧ s.isLive p = true ∧
    ∃ i w, i < read.size ∧
      newestStore (fun _ => true) (s.objToWr read.word) (read.location + i) = some w ∧
      s.getProcessId w = p ∧ (s.objToCl p read.line).getBegin < w.seqNum

/-! ## Before the crash -/

/-- No process has crashed and no interval of the line has an end. -/
structure BeforeCrash (line : Nat) (s : Model) : Prop where
  noCrash : s.crashes.keys = []
  backtrack : ∀ q, s.backtrack q = true
  processes : 2 ≤ s.processCount
  noEnd : ∀ q, (s.objToCl q line).getEnd = 0

/-- The processes that the rest of the loop may crash, from the slots `rf` on. -/
def Offered (read : ModelAction) (rpid : ProcessId) (s : Model) (ws : List ModelAction) (rf : Slots)
    (p : ProcessId) : Prop :=
  p ≠ rpid ∧ s.isCompleted p = false ∧
    ∃ (i : Nat) (w : ModelAction), rf[i]? = some none ∧ (ws.find? fun w => wants read w i) = some w ∧
      s.getProcessId w = p ∧ (s.objToCl p read.line).getBegin < w.seqNum

section

variable {read : ModelAction} {rpid p : ProcessId} {store : ModelAction} {s s₁ : Model}
  {older ws : List ModelAction} {rf rf₁ : Slots} {line t : Nat}

theorem BeforeCrash.isCrashed (h : BeforeCrash line s) (q : ProcessId) : s.isCrashed q = false := by
  unfold Model.isCrashed
  rw [decide_eq_false_iff_not, AList.mem_keys, h.noCrash]
  exact List.not_mem_nil

/-- Declining a crash leaves the ends alone and raises only the writer's begin. -/
theorem declineCrash_objToCl (s : Model) (store : ModelAction) (line : Nat) (q : ProcessId) :
    ((s.declineCrash store line).objToCl q line).getEnd = (s.objToCl q line).getEnd ∧
    (s.objToCl q line).getBegin ≤ ((s.declineCrash store line).objToCl q line).getBegin ∧
    (s.getProcessId store = q →
      store.seqNum ≤ ((s.declineCrash store line).objToCl q line).getBegin) := by
  unfold Model.declineCrash
  split
  · next h =>
      by_cases hq : s.getProcessId store = q
      · subst hq
        simp only [Model.raiseBegin, Model.setCacheline, CacheLineStore.setCacheline_apply,
          and_self, if_true, Cacheline.getEnd_setBegin, Cacheline.getBegin_setBegin]
        exact ⟨trivial, Nat.le_of_lt h, fun _ => Nat.le_refl _⟩
      · have hcl : (s.raiseBegin (s.getProcessId store) line store.seqNum).objToCl q line =
            s.objToCl q line := if_neg fun h => hq h.1.symm
        rw [hcl]
        exact ⟨rfl, Nat.le_refl _, fun h => absurd h hq⟩
  · next h => exact ⟨rfl, Nat.le_refl _, fun hq => hq ▸ Nat.le_of_not_lt h⟩

/-- What a round without a crash does to the intervals of the line. -/
theorem Running.objToCl (h : Running read rpid store s rf s₁ rf₁) (q : ProcessId) :
    (s₁.objToCl q read.line).getEnd = (s.objToCl q read.line).getEnd ∧
    (s.objToCl q read.line).getBegin ≤ (s₁.objToCl q read.line).getBegin ∧
    (s.getProcessId store = q → q ≠ rpid → store.type ≠ .atomicInit → rf₁ ≠ rf →
      store.seqNum ≤ (s₁.objToCl q read.line).getBegin) := by
  cases h with
  | shadowed _ => exact ⟨rfl, Nat.le_refl _, fun _ _ _ h => absurd rfl h⟩
  | own _ hown =>
      refine ⟨rfl, Nat.le_refl _, ?_⟩
      intro hq hne hinit
      rcases hown with h | h
      · exact absurd h hinit
      · exact absurd (hq.symm.trans h) hne
  | declined _ _ _ _ =>
      obtain ⟨h₁, h₂, h₃⟩ := declineCrash_objToCl s.countCrashPoint store read.line q
      exact ⟨h₁, h₂, fun hq _ _ _ => h₃ hq⟩
  | notOffered _ _ _ _ =>
      obtain ⟨h₁, h₂, h₃⟩ := declineCrash_objToCl s store read.line q
      exact ⟨h₁, h₂, fun hq _ _ _ => h₃ hq⟩

theorem Model.Marks.isCompleted_eq {s' : Model} (hm : Model.Marks line s s') :
    s'.isCompleted = s.isCompleted := by
  obtain ⟨cls, n, rfl, _⟩ := hm
  rfl

theorem BeforeCrash.running (hb : BeforeCrash read.line s)
    (h : Running read rpid store s rf s₁ rf₁) : BeforeCrash read.line s₁ := by
  have hcl := h.objToCl
  have hcrashes := h.crashes_eq
  obtain ⟨cls, n, rfl, _⟩ := h.marks
  refine ⟨hb.noCrash, hb.backtrack, hb.processes, ?_⟩
  intro q
  rw [(hcl q).1]
  exact hb.noEnd q

/-- A candidate that is left after a round was one before it. -/
theorem Offered.of_running (h : Running read rpid store s rf s₁ rf₁)
    (ho : Offered read rpid s₁ older rf₁ p) : Offered read rpid s (store :: older) rf p := by
  obtain ⟨hp, hcomp, i, w, hfree, hfind, hproc, hbegin⟩ := ho
  rw [h.marks.isCompleted_eq] at hcomp
  rw [h.getProcessId_eq] at hproc
  rw [h.slots_eq, getElem?_fill, Option.map_eq_some_iff] at hfree
  obtain ⟨o, hrf, ho⟩ := hfree
  -- the slot was free before, and the store did not want it
  have hfree : o = none ∧ wants read store i = false := by
    cases o with
    | none => cases hw : wants read store i <;> simp [hw] at ho ⊢
    | some v => simp at ho
  refine ⟨hp, hcomp, i, w, hfree.1 ▸ hrf, ?_, hproc, ?_⟩
  · rw [List.find?_cons, hfree.2]
    exact hfind
  · exact Nat.lt_of_le_of_lt (h.objToCl p).2.1 hbegin

/-- The writer of the store is the candidate now. -/
def OfferedNow (read : ModelAction) (rpid : ProcessId) (s : Model) (store : ModelAction) (rf : Slots)
    (p : ProcessId) : Prop :=
  s.getProcessId store = p ∧ p ≠ rpid ∧ s.isCompleted p = false ∧
    fill (wants read) store rf ≠ rf ∧ (s.objToCl p read.line).getBegin < store.seqNum

/-- A candidate is offered in this round or is left after it. -/
theorem Offered.running (hfall : ∀ b ∈ older, b.seqNum < store.seqNum)
    (h : Running read rpid store s rf s₁ rf₁)
    (ho : Offered read rpid s (store :: older) rf p) (hnow : ¬ OfferedNow read rpid s store rf p) :
    Offered read rpid s₁ older rf₁ p ∧
      (s₁.objToCl p read.line).getBegin = (s.objToCl p read.line).getBegin ∧
      (s.getProcessId store = p → rf₁ = rf) := by
  obtain ⟨hp, hcomp, i, w, hfree, hfind, hproc, hbegin⟩ := ho
  -- a slot that the store would fill were offered now
  have hwants : wants read store i = false := by
    rw [← Bool.not_eq_true]
    intro hw
    rw [List.find?_cons, hw] at hfind
    cases hfind
    apply hnow
    refine ⟨hproc, hp, hcomp, ?_, hbegin⟩
    rw [Ne, fill_eq_self_iff]
    intro hall
    rw [hall i hfree] at hw
    cases hw
  rw [List.find?_cons, hwants] at hfind
  have hshadowed : s.getProcessId store = p → rf₁ = rf ∧ s₁ = s := by
    intro hs
    by_cases hf : fill (wants read) store rf = rf
    · cases h with
      | shadowed _ => exact ⟨rfl, rfl⟩
      | own h _ => exact absurd hf h
      | declined h _ _ _ => exact absurd hf h
      | notOffered h _ _ _ => exact absurd hf h
    · -- the store fills a slot, so its clock is covered, and so is the one of the older `w`
      have hle : store.seqNum ≤ (s.objToCl p read.line).getBegin := by
        apply Nat.le_of_not_lt
        intro hlt
        exact hnow ⟨hs, hp, hcomp, hf, hlt⟩
      have := hfall w (List.mem_of_find?_eq_some hfind)
      omega
  have hbegin_eq : (s₁.objToCl p read.line).getBegin = (s.objToCl p read.line).getBegin := by
    by_cases hs : s.getProcessId store = p
    · rw [(hshadowed hs).2]
    · rw [h.objToCl_other hs]
  refine ⟨⟨hp, ?_, i, w, ?_, hfind, ?_, ?_⟩, hbegin_eq, fun hs => (hshadowed hs).1⟩
  · rw [h.marks.isCompleted_eq]
    exact hcomp
  · rw [h.slots_eq, getElem?_fill, hfree, hwants]
    rfl
  · rw [h.getProcessId_eq]
    exact hproc
  · rw [hbegin_eq]
    exact hbegin

/-! ## The crash -/

/-- After the crash of the writer the round goes on as if the process had crashed before. -/
theorem ends_crash_iff {cfg : Config} {r : Except Stop Slots} {s' : Model}
    (hlen : rf.length = read.size) (hfree : countFree rf ≠ 0)
    (hcrashed : s₁.isCrashed (s₁.getProcessId store) = true) :
    (readLoop cfg read rpid (store :: older) rf (countFree rf)).Ends s₁ r s' ↔
      ∃ s₂ rf₂, Persist cfg read store older s₁ rf s₂ rf₂ ∧
        LoopRest cfg read rpid older s₂ rf₂ r s' := by
  rw [ends_readLoop_cons hlen hfree]
  constructor
  · rintro ⟨s₂, rf₂, hv, hrest⟩
    cases hv with
    | running h _ => simp [hcrashed] at h
    | crash h _ _ => simp [hcrashed] at h
    | crashed _ h => exact ⟨s₂, rf₂, h, hrest⟩
  · rintro ⟨s₂, rf₂, h, hrest⟩
    exact ⟨s₂, rf₂, .crashed hcrashed h, hrest⟩

theorem BeforeCrash.crash (hb : BeforeCrash read.line s) (p : ProcessId) :
    AfterCrash p (s.countCrashPoint.crash p) ∧
      ((s.countCrashPoint.crash p).objToCl p read.line).IsOpen := by
  have hmem : p ∉ s.crashes := by
    rw [AList.mem_keys, hb.noCrash]
    exact List.not_mem_nil
  refine ⟨⟨?_, hb.backtrack _⟩, .inl (hb.noEnd p)⟩
  show (s.crashes.emplace p s.nextSequenceNum).keys = [p]
  rw [Crashes.emplace, if_neg hmem, AList.keys_insert, hb.noCrash]
  rfl

theorem BeforeCrash.mayCrash (hb : BeforeCrash read.line s) (hnow : OfferedNow read rpid s store rf p) :
    s.MayCrash store read.line := by
  obtain ⟨rfl, _, hcomp, _, hbegin⟩ := hnow
  have hsize : s.crashes.size = 0 := by
    rw [Crashes.size, hb.noCrash]
    rfl
  have := hb.processes
  refine ⟨hb.backtrack _, ?_, ?_, ?_, hbegin⟩
  · rw [hsize]
    exact Nat.one_pos
  · omega
  · rw [hcomp]
    exact Bool.false_ne_true

/-! ## The loop -/

theorem WordChain.falls {word : Nat} (h : WordChain word (store :: older)) :
    ∀ b ∈ older, b.seqNum < store.seqNum := by
  intro b hb
  cases h with
  | init _ _ _ _ => cases hb
  | store _ _ _ hseq _ => exact hseq b hb

theorem WordChain.seqNum_of_init {word : Nat} (h : WordChain word (store :: older))
    (htype : store.type = .atomicInit) : store.seqNum = 0 := by
  cases h with
  | init _ _ _ hseq => exact hseq
  | store _ hne _ _ _ => exact absurd htype hne

/-- Unless the round fills all slots, there are older stores. -/
theorem WordChain.tail (hr : read.NaturallyAligned) (h : WordChain read.word (store :: older))
    (hlen : rf.length = read.size) (hfull : countFree (fill (wants read) store rf) ≠ 0) :
    WordChain read.word older := by
  cases h with
  | init _ hloc hsize _ => exact absurd (countFree_fill_init ⟨hloc, hsize⟩ hr hlen) hfull
  | store _ _ _ _ htail => exact htail

/-- A cut-off that the declined writer's interval admits keeps the store that was filled in. -/
theorem running_fillAll {q : ProcessId} (h : Running read rpid store s rf s₁ rf₁)
    (hinit : store.type = .atomicInit → store.seqNum = 0) (hq : q ≠ rpid)
    (ht : (s₁.objToCl q read.line).getBegin ≤ t) :
    fillAll (wants read) (older.filter (survives s q t)) rf₁ =
      fillAll (wants read) ((store :: older).filter (survives s q t)) rf := by
  by_cases hs : survives s q t store = true
  · rw [List.filter_cons_of_pos hs, fillAll_cons, h.slots_eq]
  · rw [List.filter_cons_of_neg hs]
    by_cases hrf : rf₁ = rf
    · rw [hrf]
    · exfalso
      have hproc : s.getProcessId store = q := by
        by_contra hne
        exact hs (survives_of_other hne)
      apply hs
      rw [survives_iff hproc]
      by_cases htype : store.type = .atomicInit
      · rw [hinit htype]
        exact Nat.zero_le t
      · exact Nat.le_trans ((h.objToCl q).2.2 hproc hq htype hrf) ht

/-- The loop returns the newest value, or what a cut-off leaves of a candidate it has crashed. -/
theorem crashLoop_sound {cfg : Config} (hr : read.NaturallyAligned)
    (hchain : WordChain read.word ws) (hb : BeforeCrash read.line s) (hlen : rf.length = read.size)
    (hfree : countFree rf ≠ 0) {r : Except Stop Slots} {s' : Model}
    (h : (readLoop cfg read rpid ws rf (countFree rf)).Ends s r s') :
    ∃ rf', r = .ok rf' ∧ (rf' = fillAll (wants read) ws rf ∨
      ∃ p t, Offered read rpid s ws rf p ∧ (s.objToCl p read.line).getBegin ≤ t ∧
        rf'.map (Option.map ModelAction.data) =
          (fillAll (wants read) (ws.filter (survives s p t)) rf).map
            (Option.map ModelAction.data)) := by
  induction ws generalizing s rf with
  | nil => cases hchain
  | cons store older ih =>
      obtain ⟨s₁, rf₁, hv, hrest⟩ := (ends_readLoop_cons hlen hfree).mp h
      cases hv with
      | crashed hc _ =>
          rw [hb.isCrashed] at hc
          cases hc
      | running _ hrun =>
          by_cases hfull : countFree rf₁ = 0
          · rw [LoopRest, if_pos hfull] at hrest
            obtain ⟨rfl, rfl⟩ := hrest
            refine ⟨rf₁, rfl, .inl ?_⟩
            rw [fillAll_cons, ← hrun.slots_eq, fillAll_of_full _ _ hfull]
          · rw [LoopRest, if_neg hfull] at hrest
            have htail := hchain.tail hr hlen (hrun.slots_eq ▸ hfull)
            have hlen₁ : rf₁.length = read.size := by rw [hrun.slots_eq, length_fill, hlen]
            obtain ⟨rf', hr', hrf | ⟨p, t, ho, ht, hrf⟩⟩ :=
              ih htail (hb.running hrun) hlen₁ hfull hrest
            · refine ⟨rf', hr', .inl ?_⟩
              rw [hrf, fillAll_cons, hrun.slots_eq]
            · refine ⟨rf', hr', .inr ⟨p, t, ho.of_running hrun, ?_, ?_⟩⟩
              · exact Nat.le_trans (hrun.objToCl p).2.1 ht
              · rw [hrf, hrun.marks.survives_eq,
                  running_fillAll hrun hchain.seqNum_of_init ho.1 ht]
      | @crash s₀ _ _ _ hinj hpers =>
          -- from the crash on, the loop is the one after a crash
          obtain ⟨hphase, hopen⟩ := hb.crash (s.getProcessId store)
          rw [← hinj.state] at hphase hopen
          have hends := (ends_crash_iff hlen hfree hinj.isCrashed).mpr ⟨_, _, hpers, hrest⟩
          obtain ⟨rf', hr', _, hopen', hall⟩ :=
            cutOff_sound hr (hchain.storeChain _ _) hphase hopen hlen hfree hends
          obtain ⟨ht, hrf⟩ := hall _ hopen'.admits
          refine ⟨rf', hr', .inr ⟨s.getProcessId store,
            (s'.objToCl (s.getProcessId store) read.line).getBegin, ?_, ?_, ?_⟩⟩
          · have hne := hinj.changes
            rw [Ne, fill_eq_self_iff] at hne
            push Not at hne
            obtain ⟨i, hi, hw⟩ := hne
            refine ⟨hinj.other, by simpa using hinj.may.2.2.2.1, i, store, hi, ?_, rfl, ?_⟩
            · rw [List.find?_cons]
              simp [hw]
            · exact hinj.may.2.2.2.2
          · have := ht.1
            rw [hinj.state] at this
            exact this
          · rw [hrf, hinj.state]
            rfl

/-- Declining every crash returns the newest value. -/
theorem crashLoop_newest (cfg : Config) (rpid : ProcessId) (hr : read.NaturallyAligned)
    (hchain : WordChain read.word ws) (hb : BeforeCrash read.line s) (hlen : rf.length = read.size)
    (hfree : countFree rf ≠ 0) :
    ∃ s', (readLoop cfg read rpid ws rf (countFree rf)).Ends s
      (.ok (fillAll (wants read) ws rf)) s' := by
  induction ws generalizing s rf with
  | nil => cases hchain
  | cons store older ih =>
      obtain ⟨s₁, hrun⟩ := Running.exists read rpid store s rf
      have hv : Visit cfg read rpid store older s rf s₁ (fill (wants read) store rf) :=
        .running (hb.isCrashed _) hrun
      by_cases hfull : countFree (fill (wants read) store rf) = 0
      · refine ⟨s₁, (ends_readLoop_cons hlen hfree).mpr ⟨s₁, _, hv, ?_⟩⟩
        rw [LoopRest, if_pos hfull, fillAll_cons, fillAll_of_full _ _ hfull]
        exact ⟨rfl, rfl⟩
      · obtain ⟨s', hends⟩ := ih (hchain.tail hr hlen hfull) (hb.running hrun)
          (by rw [length_fill, hlen]) hfull
        refine ⟨s', (ends_readLoop_cons hlen hfree).mpr ⟨s₁, _, hv, ?_⟩⟩
        rw [LoopRest, if_neg hfull]
        exact hends

/-- Every candidate can be crashed, with every cut-off. -/
theorem crashLoop_complete (cfg : Config) (hr : read.NaturallyAligned)
    (hchain : WordChain read.word ws) (hb : BeforeCrash read.line s) (hlen : rf.length = read.size)
    (hfree : countFree rf ≠ 0) (ho : Offered read rpid s ws rf p)
    (ht : (s.objToCl p read.line).getBegin ≤ t) :
    ∃ rf' s', (readLoop cfg read rpid ws rf (countFree rf)).Ends s (.ok rf') s' ∧
      rf'.map (Option.map ModelAction.data) =
        (fillAll (wants read) (ws.filter (survives s p t)) rf).map (Option.map ModelAction.data) := by
  induction ws generalizing s rf with
  | nil => cases hchain
  | cons store older ih =>
      by_cases hnow : OfferedNow read rpid s store rf p
      · -- crash it here
        obtain ⟨hphase, hopen⟩ := hb.crash p
        have hadm : ((s.countCrashPoint.crash p).objToCl p read.line).Admits t :=
          ⟨ht, .inl (hb.noEnd p)⟩
        have hcrashed : (s.countCrashPoint.crash p).isCrashed
            ((s.countCrashPoint.crash p).getProcessId store) = true := by
          rw [hphase.isCrashed_iff]
          exact hnow.1
        have hinj : Crashes.Injected read rpid store s rf (s.countCrashPoint.crash p) := by
          have hmay := hb.mayCrash hnow
          obtain ⟨rfl, hp, _, hf, hbegin⟩ := hnow
          refine ⟨hf, ?_, hp, hmay, rfl⟩
          intro htype
          rw [hchain.seqNum_of_init htype] at hbegin
          exact absurd hbegin (Nat.not_lt_zero _)
        obtain ⟨rf', s', hends, hadm'⟩ :=
          cutOff_complete cfg rpid hr (hchain.storeChain _ _) hphase hopen hlen
            hfree hadm
        obtain ⟨_, hok, _, _, hall⟩ :=
          cutOff_sound hr (hchain.storeChain _ _) hphase hopen hlen hfree hends
        cases hok
        refine ⟨rf', s', ?_, (hall t hadm').2⟩
        obtain ⟨s₂, rf₂, hpers, hrest⟩ := (ends_crash_iff hlen hfree hcrashed).mp hends
        exact (ends_readLoop_cons hlen hfree).mpr
          ⟨s₂, rf₂, .crash (hb.isCrashed _) hinj hpers, hrest⟩
      · -- the crash comes at an older store
        obtain ⟨s₁, hrun⟩ := Running.exists read rpid store s rf
        have hv : Visit cfg read rpid store older s rf s₁ (fill (wants read) store rf) :=
          .running (hb.isCrashed _) hrun
        obtain ⟨ho₁, hbegin, _⟩ := ho.running hchain.falls hrun hnow
        have hfull : countFree (fill (wants read) store rf) ≠ 0 := by
          obtain ⟨_, _, i, _, hi, _⟩ := ho₁
          intro hfull
          exact countFree_eq_zero.mp hfull none (List.mem_of_getElem? hi) rfl
        obtain ⟨rf', s', hends, hrf⟩ := ih (hchain.tail hr hlen hfull) (hb.running hrun)
          (by rw [length_fill, hlen]) hfull ho₁ (hbegin ▸ ht)
        refine ⟨rf', s', (ends_readLoop_cons hlen hfree).mpr ⟨s₁, _, hv, ?_⟩, ?_⟩
        · rw [LoopRest, if_neg hfull]
          exact hends
        · rw [hrf, hrun.marks.survives_eq,
            running_fillAll hrun hchain.seqNum_of_init ho.1 (hbegin ▸ ht)]

/-! ## The read -/

/-- The candidates of the whole read are those the loop starts with. -/
theorem offered_free_iff (hr : read.NaturallyAligned) (hnone : s.crashes.keys = [])
    (haligned : ∀ a ∈ s.objToWr read.word, a.NaturallyAligned) :
    Offered read (s.getProcessId read) s (s.objToWr read.word).reverse (Slots.free read.size) p ↔
      CrashCandidate s read p := by
  have hlive : s.isLive p = true ↔ s.isCompleted p = false := by
    have : s.isCrashed p = false := by
      unfold Model.isCrashed
      rw [decide_eq_false_iff_not, AList.mem_keys, hnone]
      exact List.not_mem_nil
    simp [Model.isLive, this]
  have hfind : ∀ i, i < read.size →
      ((s.objToWr read.word).reverse.find? fun w => wants read w i) =
        newestStore (fun _ => true) (s.objToWr read.word) (read.location + i) := by
    intro i hi
    unfold newestStore
    apply List.find?_congr
    intro w hw
    rw [Bool.true_and, Bool.eq_iff_iff, decide_eq_true_iff]
    exact wants_iff_covers hr (haligned w (List.mem_reverse.mp hw)) hi
  unfold Offered CrashCandidate
  rw [hlive]
  constructor
  · rintro ⟨hp, hcomp, i, w, hfree, hw, hproc, hbegin⟩
    have hi : i < read.size := by
      obtain ⟨hi, _⟩ := List.getElem?_eq_some_iff.mp hfree
      rwa [length_free] at hi
    exact ⟨hp, hcomp, i, w, hi, hfind i hi ▸ hw, hproc, hbegin⟩
  · rintro ⟨hp, hcomp, i, w, hi, hw, hproc, hbegin⟩
    exact ⟨hp, hcomp, i, w, List.getElem?_replicate_of_lt hi, hfind i hi ▸ hw, hproc, hbegin⟩

/-- Before any crash a read by `r` returns the newest value, or the value that a cut-off leaves of
one of the processes it may crash; and it can return all of these. -/
theorem crash_at_read (hr : read.NaturallyAligned) (hnone : s.crashes.keys = [])
    (hprocesses : 2 ≤ s.processCount) (hbacktrack : ∀ q, s.backtrack q = true)
    (hends : ∀ q line, (s.objToCl q line).getEnd = 0)
    (hword : IsWordList read.word (s.objToWr read.word))
    (hbuf : (s.threadMemory read.tid).storeBuffer = []) :
    (∀ r s', (buildReadFrom .asBuilt read).Ends s r s' → ∃ v, r = .ok v) ∧
    {v | ∃ s', (buildReadFrom .asBuilt read).Ends s (.ok v) s'} =
      {resolve (fun _ => true) (s.objToWr read.word) read} ∪
      {v | ∃ p t, CrashCandidate s read p ∧ (s.objToCl p read.line).getBegin ≤ t ∧
        v = resolve (fun w => s.getProcessId w ≠ p || w.seqNum ≤ t) (s.objToWr read.word) read} := by
  have hb : BeforeCrash read.line s := ⟨hnone, hbacktrack, hprocesses, fun q => hends q _⟩
  have hchain := hword.wordChain
  have haligned : ∀ a ∈ s.objToWr read.word, a.NaturallyAligned :=
    fun a ha => hword.aligned (word_mod read) ha
  have hlen := length_free read.size
  have hfree : countFree (Slots.free read.size) ≠ 0 := by
    have := hr.size_pos
    rw [countFree_free]
    omega
  have hoffered : ∀ p, Offered read (s.getProcessId read) s (s.objToWr read.word).reverse
      (Slots.free read.size) p ↔ CrashCandidate s read p :=
    fun p => offered_free_iff hr hnone haligned
  have hloop : ∀ (r' : Except Stop Slots) (s' : Model),
      (buildReadFromSlots .asBuilt read).Ends s r' s' ↔ _ :=
    fun r' s' => ends_buildReadFromSlots_of_empty hr.size_pos rfl hbuf
  -- without a crash the read gets the newest store to each byte
  have hnewest : resolve (fun _ => true) (s.objToWr read.word) read =
      getReadValue read.location
        (fillAll (wants read) (s.objToWr read.word).reverse (Slots.free read.size)) := by
    rw [resolve_eq hr haligned, List.filter_true]
  -- with a crash it gets what the process has persisted up to `t`, and all of the others
  have hcut : ∀ (p : ProcessId) (t : Nat) (rf : Slots), rf.map (Option.map ModelAction.data) =
      (fillAll (wants read) ((s.objToWr read.word).reverse.filter (survives s p t))
        (Slots.free read.size)).map (Option.map ModelAction.data) →
      getReadValue read.location rf =
        resolve (fun w => s.getProcessId w ≠ p || w.seqNum ≤ t) (s.objToWr read.word) read := by
    intro p t rf hrf
    rw [resolve_eq hr haligned, ← getReadValue_map_data, hrf, getReadValue_map_data]
    rfl
  constructor
  · intro r s' he
    obtain ⟨r', he', rfl⟩ := ends_buildReadFrom.mp he
    obtain ⟨rf, rfl, _⟩ := crashLoop_sound hr hchain hb hlen hfree ((hloop _ _).mp he')
    exact ⟨_, rfl⟩
  apply Set.eq_of_subset_of_subset
  · rintro v ⟨s', he⟩
    obtain ⟨r', he', hv⟩ := ends_buildReadFrom.mp he
    obtain ⟨rf, rfl, hrf | ⟨p, t, ho, ht, hrf⟩⟩ :=
      crashLoop_sound hr hchain hb hlen hfree ((hloop _ _).mp he')
    · left
      cases hv
      rw [Set.mem_singleton_iff, hnewest, hrf]
    · right
      cases hv
      exact ⟨p, t, (hoffered p).mp ho, ht, hcut p t rf hrf⟩
  · rintro v (hv | ⟨p, t, hc, ht, rfl⟩)
    · rw [Set.mem_singleton_iff.mp hv, hnewest]
      obtain ⟨s', hends'⟩ := crashLoop_newest .asBuilt (s.getProcessId read) hr
        hchain hb hlen hfree
      exact ⟨s', ends_buildReadFrom.mpr ⟨_, (hloop _ _).mpr hends', rfl⟩⟩
    · obtain ⟨rf, s', hends', hrf⟩ := crashLoop_complete .asBuilt hr hchain hb hlen hfree
        ((hoffered p).mpr hc) ht
      refine ⟨s', ends_buildReadFrom.mpr ⟨_, (hloop _ _).mpr hends', ?_⟩⟩
      rw [← hcut p t rf hrf]
      rfl

end

/-- Two processes have written the halves of a word, and none has crashed. -/
def twoWriters : Model := { writerCrashed with crashes := ∅ }

/-- Process 1 reads the word. -/
def readBoth : ModelAction := { tid := 1, type := .nonatomicLoad, location := 4096, size := 8 }

theorem crash_at_read_twoWriters :
    (∀ r s', (buildReadFrom .asBuilt readBoth).Ends twoWriters r s' → ∃ v, r = .ok v) ∧
    {v | ∃ s', (buildReadFrom .asBuilt readBoth).Ends twoWriters (.ok v) s'} =
      {resolve (fun _ => true) (twoWriters.objToWr readBoth.word) readBoth} ∪
      {v | ∃ p t, CrashCandidate twoWriters readBoth p ∧
        (twoWriters.objToCl p readBoth.line).getBegin ≤ t ∧
        v = resolve (fun w => twoWriters.getProcessId w ≠ p || w.seqNum ≤ t)
          (twoWriters.objToWr readBoth.word) readBoth} :=
  crash_at_read (by decide) rfl (by decide) (fun _ => rfl) (fun _ _ => rfl)
    ⟨_, _, rfl, rfl, rfl, rfl, rfl, by decide, by decide⟩ rfl

end Cxlmc
