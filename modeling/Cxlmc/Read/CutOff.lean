import Cxlmc.Read.Resolve

/-!
# Reads after a crash: lazy answers and a cut-off

With one process `p` crashed and no further crash possible, the loop of `build_read_from` only
narrows the interval of `p` and the line. Whatever it answers, the stores it has used are those that
a cut-off in the interval it leaves would use (`cutOff_sound`), and each cut-off in the interval it
starts from survives some answers (`cutOff_complete`).
-/

namespace Cxlmc

open Stateful Fill

namespace Cacheline

/-- The clock `t` lies in the interval. -/
def Admits (cl : Cacheline) (t : Nat) : Prop := cl.getBegin ≤ t ∧ (cl.getEnd = 0 ∨ t < cl.getEnd)

/-- The interval is not empty. -/
def IsOpen (cl : Cacheline) : Prop := cl.getEnd = 0 ∨ cl.getBegin < cl.getEnd

theorem IsOpen.admits {cl : Cacheline} (h : cl.IsOpen) : cl.Admits cl.getBegin :=
  ⟨Nat.le_refl _, h⟩

end Cacheline

/-! ## What a round leaves alone -/

namespace Model

/-- Only intervals of `line` and the count of crash points differ. -/
def Marks (line : Nat) (s s' : Model) : Prop :=
  ∃ cls n, s' = { s with objToCl := cls, crashPoints := n } ∧
    ∀ q a, a ≠ line → cls q a = s.objToCl q a

namespace Marks

variable {line : Nat} {s s' s'' : Model}

theorem refl (line : Nat) (s : Model) : Marks line s s := ⟨s.objToCl, s.crashPoints, rfl, by simp⟩

theorem trans (h : Marks line s s') (h' : Marks line s' s'') : Marks line s s'' := by
  obtain ⟨cls, n, rfl, hcls⟩ := h
  obtain ⟨cls', n', rfl, hcls'⟩ := h'
  refine ⟨cls', n', rfl, ?_⟩
  intro q a ha
  rw [hcls' q a ha]
  exact hcls q a ha

theorem setCacheline (pid : ProcessId) (line : Nat) (cl : Cacheline) (s : Model) :
    Marks line s (s.setCacheline pid line cl) := by
  refine ⟨_, s.crashPoints, rfl, ?_⟩
  intro q a ha
  rw [CacheLineStore.setCacheline_apply, if_neg fun h => ha h.2]

theorem countCrashPoint (line : Nat) (s : Model) : Marks line s s.countCrashPoint :=
  ⟨s.objToCl, s.crashPoints + 1, rfl, by simp⟩

theorem declineCrash (store : ModelAction) (line : Nat) (s : Model) :
    Marks line s (s.declineCrash store line) := by
  unfold Model.declineCrash
  split
  · exact setCacheline _ _ _ s
  · exact refl line s

end Marks

end Model

section

variable {cfg : Config} {read : ModelAction} {rpid : ProcessId} {store : ModelAction}
  {older : List ModelAction} {s s' s₁ : Model} {rf rf₁ : Slots}

theorem Running.marks (h : Running read rpid store s rf s₁ rf₁) : Model.Marks read.line s s₁ := by
  cases h with
  | shadowed _ => exact .refl _ _
  | own _ _ => exact .refl _ _
  | declined _ _ _ _ => exact (Model.Marks.countCrashPoint _ _).trans (.declineCrash _ _ _)
  | notOffered _ _ _ _ => exact .declineCrash _ _ _

theorem Persist.marks (h : Persist cfg read store older s rf s₁ rf₁) :
    Model.Marks read.line s s₁ := by
  cases h with
  | persisted _ => exact .refl _ _
  | lostBefore _ _ => exact .refl _ _
  | skipped _ => exact .refl _ _
  | shadowed _ _ _ => exact .refl _ _
  | kept _ _ _ => exact .setCacheline _ _ _ _
  | lost _ _ _ _ _ => exact .setCacheline _ _ _ _

/-- A round for a running writer leaves the intervals of the other processes alone. -/
theorem Running.objToCl_other (h : Running read rpid store s rf s₁ rf₁) {q : ProcessId}
    (hq : s.getProcessId store ≠ q) (line : Nat) : s₁.objToCl q line = s.objToCl q line := by
  have hdecline : ∀ s : Model, s.getProcessId store ≠ q →
      (s.declineCrash store read.line).objToCl q line = s.objToCl q line := by
    intro s hq
    unfold Model.declineCrash
    split
    · exact if_neg fun h => hq h.1.symm
    · rfl
  cases h with
  | shadowed _ => rfl
  | own _ _ => rfl
  | declined _ _ _ _ => exact hdecline s.countCrashPoint hq
  | notOffered _ _ _ _ => exact hdecline s hq

/-- A running writer need not crash. -/
theorem Running.exists (read : ModelAction) (rpid : ProcessId) (store : ModelAction) (s : Model)
    (rf : Slots) : ∃ s₁, Running read rpid store s rf s₁ (fill (wants read) store rf) := by
  by_cases hf : fill (wants read) store rf = rf
  · rw [hf]
    exact ⟨s, .shadowed hf⟩
  · by_cases hown : store.type = .atomicInit ∨ s.getProcessId store = rpid
    · exact ⟨s, .own hf hown⟩
    · rw [not_or] at hown
      by_cases hmay : s.MayCrash store read.line
      · exact ⟨_, .declined hf hown.1 hown.2 hmay⟩
      · exact ⟨_, .notOffered hf hown.1 hown.2 hmay⟩

end

/-! ## The stores of a word -/

/-- The store list of a word: the initial value first, then stores with rising clocks. -/
def IsWordList (word : Nat) (stores : List ModelAction) : Prop :=
  ∃ init rest, stores = init :: rest ∧
    init.type = .atomicInit ∧ init.location = word ∧ init.size = 8 ∧ init.seqNum = 0 ∧
    (∀ a ∈ rest, a.NaturallyAligned ∧ a.type ≠ .atomicInit ∧ 0 < a.seqNum) ∧
    rest.Pairwise fun a b => a.seqNum < b.seqNum

theorem IsWordList.aligned {word : Nat} {stores : List ModelAction} (h : IsWordList word stores)
    (hword : word % 8 = 0) {a : ModelAction} (ha : a ∈ stores) : a.NaturallyAligned := by
  obtain ⟨init, rest, rfl, _, hloc, hsize, _, hrest, _⟩ := h
  rcases List.mem_cons.mp ha with rfl | ha
  · refine ⟨.inr (.inr (.inr hsize)), ?_⟩
    rw [hloc, hsize]
    exact hword
  · exact (hrest a ha).1

/-- A store list from its newest store down to the initial value. -/
inductive WordChain (word : Nat) : List ModelAction → Prop where
  | init {a : ModelAction} (htype : a.type = .atomicInit) (hloc : a.location = word)
      (hsize : a.size = 8) (hseq : a.seqNum = 0) : WordChain word [a]
  | store {a : ModelAction} {ws : List ModelAction} (haligned : a.NaturallyAligned)
      (htype : a.type ≠ .atomicInit) (hpos : 0 < a.seqNum)
      (hseq : ∀ b ∈ ws, b.seqNum < a.seqNum) (h : WordChain word ws) : WordChain word (a :: ws)

theorem IsWordList.wordChain {word : Nat} {stores : List ModelAction} (h : IsWordList word stores) :
    WordChain word stores.reverse := by
  obtain ⟨init, rest, rfl, htype, hloc, hsize, hseq, hrest, hpair⟩ := h
  induction rest using List.reverseRecOn with
  | nil => exact .init htype hloc hsize hseq
  | append_singleton rest a ih =>
      have ha := hrest a (by simp)
      rw [← List.cons_append, List.reverse_append]
      refine .store ha.1 ha.2.1 ha.2.2 ?_ ?_
      · intro b hb
        rcases List.mem_cons.mp (List.mem_reverse.mp hb) with rfl | hb
        · rw [hseq]
          exact ha.2.2
        · exact (List.pairwise_append.mp hpair).2.2 b hb a (by simp)
      · exact ih (fun b hb => hrest b (by simp [hb])) (List.pairwise_append.mp hpair).1

/-- What the stores of `p` need for the loop to decide about them: they go down to the initial value
with falling clocks. The other stores may come in any order. -/
inductive StoreChain (proc : ModelAction → ProcessId) (p : ProcessId) (word : Nat) :
    List ModelAction → Prop where
  | init {a : ModelAction} (htype : a.type = .atomicInit) (hloc : a.location = word)
      (hsize : a.size = 8) (hseq : a.seqNum = 0) : StoreChain proc p word [a]
  | store {a : ModelAction} {ws : List ModelAction} (htype : proc a = p → a.type ≠ .atomicInit)
      (hseq : proc a = p → 0 < a.seqNum ∧ ∀ b ∈ ws, proc b = p → b.seqNum < a.seqNum)
      (h : StoreChain proc p word ws) : StoreChain proc p word (a :: ws)

theorem WordChain.storeChain {word : Nat} {ws : List ModelAction} (h : WordChain word ws)
    (proc : ModelAction → ProcessId) (p : ProcessId) : StoreChain proc p word ws := by
  induction h with
  | init htype hloc hsize hseq => exact .init htype hloc hsize hseq
  | store _ htype hpos hseq _ ih =>
      exact .store (fun _ => htype) (fun _ => ⟨hpos, fun b hb _ => hseq b hb⟩) ih

/-- The stores that survive a crash of `p` with cut-off `t`. -/
def survives (s : Model) (p : ProcessId) (t : Nat) (store : ModelAction) : Bool :=
  s.getProcessId store ≠ p || store.seqNum ≤ t

/-- Exactly `p` has crashed, and the reader records alternatives. -/
structure AfterCrash (p : ProcessId) (s : Model) : Prop where
  crashed : s.crashes.keys = [p]
  backtrack : s.backtrack s.processId = true

section

variable {cfg : Config} {read : ModelAction} {rpid p : ProcessId} {store : ModelAction}
  {older ws : List ModelAction} {s s' s₁ : Model} {rf rf₁ : Slots} {t : Nat}

theorem AfterCrash.isCrashed_iff (h : AfterCrash p s) (q : ProcessId) :
    s.isCrashed q = true ↔ q = p := by
  unfold Model.isCrashed
  rw [decide_eq_true_iff, AList.mem_keys, h.crashed, List.mem_singleton]

theorem AfterCrash.not_mayCrash (h : AfterCrash p s) (store : ModelAction) (line : Nat) :
    ¬ s.MayCrash store line := by
  rintro ⟨_, hlt, _⟩
  rw [Crashes.size, h.crashed] at hlt
  exact absurd hlt (Nat.lt_irrefl 1)

theorem AfterCrash.of_marks {line : Nat} (h : AfterCrash p s) (hm : Model.Marks line s s') :
    AfterCrash p s' := by
  obtain ⟨cls, n, rfl, _⟩ := hm
  exact ⟨h.crashed, h.backtrack⟩

theorem Model.Marks.survives_eq {line : Nat} (hm : Model.Marks line s s') (p : ProcessId) (t : Nat) :
    survives s' p t = survives s p t := by
  obtain ⟨cls, n, rfl, _⟩ := hm
  rfl

theorem Model.Marks.getProcessId_eq {line : Nat} (hm : Model.Marks line s s') :
    s'.getProcessId = s.getProcessId := by
  obtain ⟨cls, n, rfl, _⟩ := hm
  rfl

theorem survives_of_other (h : s.getProcessId store ≠ p) : survives s p t store = true := by
  simp [survives, h]

theorem survives_iff (h : s.getProcessId store = p) :
    survives s p t store = true ↔ store.seqNum ≤ t := by
  simp [survives, h]

/-- After the crash of `p` a round either meets a store of `p` or one that nobody crashes. -/
theorem AfterCrash.visit_iff (h : AfterCrash p s) :
    Visit cfg read rpid store older s rf s₁ rf₁ ↔
      (s.getProcessId store ≠ p ∧ Running read rpid store s rf s₁ rf₁) ∨
        (s.getProcessId store = p ∧ Persist cfg read store older s rf s₁ rf₁) := by
  constructor
  · intro hv
    cases hv with
    | running hlive hr =>
        left
        refine ⟨?_, hr⟩
        intro hp
        rw [(h.isCrashed_iff _).mpr hp] at hlive
        cases hlive
    | crash _ hc _ => exact absurd hc.may (h.not_mayCrash _ _)
    | crashed hc hp => exact .inr ⟨(h.isCrashed_iff _).mp hc, hp⟩
  · rintro (⟨hp, hr⟩ | ⟨hp, hr⟩)
    · refine .running ?_ hr
      rw [← Bool.not_eq_true, h.isCrashed_iff]
      exact hp
    · exact .crashed ((h.isCrashed_iff _).mpr hp) hr

/-! ## One round -/

/-- A round for a store of `p` keeps the interval open and inside what it was. -/
theorem Persist.interval (h : Persist cfg read store older s rf s₁ rf₁)
    (hp : s.getProcessId store = p) (hopen : (s.objToCl p read.line).IsOpen) :
    (s₁.objToCl p read.line).IsOpen ∧
      ∀ t, (s₁.objToCl p read.line).Admits t → (s.objToCl p read.line).Admits t := by
  cases h with
  | persisted _ => exact ⟨hopen, fun _ ht => ht⟩
  | lostBefore _ _ => exact ⟨hopen, fun _ ht => ht⟩
  | skipped _ => exact ⟨hopen, fun _ ht => ht⟩
  | shadowed _ _ _ => exact ⟨hopen, fun _ ht => ht⟩
  | kept hmay _ _ =>
      rw [hp] at hmay ⊢
      simp only [Model.raiseBegin, Model.setCacheline, CacheLineStore.setCacheline_apply,
        and_self, if_true]
      refine ⟨hmay.2, ?_⟩
      intro t ht
      exact ⟨Nat.le_trans (Nat.le_of_lt hmay.1) ht.1, ht.2⟩
  | lost hmay _ _ _ _ =>
      rw [hp] at hmay ⊢
      simp only [Model.lowerEnd, Model.setCacheline, CacheLineStore.setCacheline_apply,
        and_self, if_true]
      refine ⟨.inr hmay.1, ?_⟩
      intro t ht
      have hpos : 0 < store.seqNum := Nat.lt_of_le_of_lt (Nat.zero_le _) hmay.1
      have hlt : t < store.seqNum := ht.2.resolve_left (Nat.ne_of_gt hpos)
      refine ⟨ht.1, ?_⟩
      rcases hmay.2 with he | he
      · exact .inl he
      · exact .inr (Nat.lt_trans hlt he)

/-- Unless the store was passed over, its slots are filled exactly by the cut-offs it survives. -/
theorem Persist.fills (h : Persist cfg read store older s rf s₁ rf₁)
    (hp : s.getProcessId store = p) (hskip : ¬ Skips cfg read store older s)
    (ht : (s₁.objToCl p read.line).Admits t) :
    rf₁ = if survives s p t store then fill (wants read) store rf else rf := by
  simp only [survives_iff hp]
  cases h with
  | persisted h =>
      rw [hp] at h
      rw [if_pos (Nat.le_trans h ht.1)]
  | lostBefore hlt h =>
      rw [hp] at hlt h
      rw [if_neg]
      intro hle
      apply h
      refine ⟨hlt, ht.2.imp id ?_⟩
      exact Nat.lt_of_le_of_lt hle
  | skipped h => exact absurd h hskip
  | shadowed _ _ hf => rw [hf, ite_self]
  | kept _ _ _ =>
      simp only [hp, Model.raiseBegin, Model.setCacheline, CacheLineStore.setCacheline_apply,
        and_self, if_true] at ht
      have hle : store.seqNum ≤ t := ht.1
      rw [if_pos hle]
  | lost hmay _ _ _ _ =>
      simp only [hp, Model.lowerEnd, Model.setCacheline, CacheLineStore.setCacheline_apply,
        and_self, if_true] at ht
      have hpos : 0 < store.seqNum := Nat.lt_of_le_of_lt (Nat.zero_le _) hmay.1
      have hlt : t < store.seqNum := ht.2.resolve_left (Nat.ne_of_gt hpos)
      rw [if_neg (Nat.not_le_of_lt hlt)]

/-- A store that was passed over may as well be used, where its older equivalent survives. -/
theorem Skips.data_eq (hskip : Skips cfg read store older s)
    (hp : s.getProcessId store = p)
    (hseq : ∀ b ∈ older, s.getProcessId b = p → b.seqNum < store.seqNum) (rf : Slots) :
    (fillAll (wants read) (older.filter (survives s p t)) rf).map (Option.map ModelAction.data) =
      (fillAll (wants read) ((store :: older).filter (survives s p t)) rf).map
        (Option.map ModelAction.data) := by
  obtain ⟨next, rest, rfl, hdata⟩ := hskip.next
  by_cases hs : survives s p t store = true
  · -- the older one survives as well: it is not of `p`, or older than `store`
    have hnext : survives s p t next = true := by
      by_cases hnp : s.getProcessId next = p
      · rw [survives_iff hp] at hs
        rw [survives_iff hnp]
        exact Nat.le_trans (Nat.le_of_lt (hseq next (by simp) hnp)) hs
      · exact survives_of_other hnp
    rw [List.filter_cons_of_pos hs, List.filter_cons_of_pos hnext,
      fillAll_map (wants read) (wants_data read), fillAll_map (wants read) (wants_data read)]
    simp only [List.map_cons, fillAll_cons, hdata, fill_fill]
  · rw [List.filter_cons_of_neg hs]

/-! ## The loop -/

theorem wants_init (h : store.location = read.word ∧ store.size = 8) (hr : read.NaturallyAligned) {i : Nat}
    (hi : i < read.size) : wants read store i = true := by
  apply wants_of_covers hi
  have := hr.inWord
  unfold ModelAction.Covers
  rw [h.1, h.2]
  omega

/-- The initial value of the word fills every slot. -/
theorem countFree_fill_init (h : store.location = read.word ∧ store.size = 8)
    (hr : read.NaturallyAligned) (hlen : rf.length = read.size) :
    countFree (fill (wants read) store rf) = 0 := by
  rw [countFree_eq_zero]
  intro o ho
  obtain ⟨i, hi, rfl⟩ := List.getElem_of_mem ho
  have hget := getElem?_fill (wants read) store rf i
  rw [length_fill] at hi
  rw [List.getElem?_eq_getElem (by rw [length_fill]; exact hi), List.getElem?_eq_getElem hi,
    wants_init h hr (by omega)] at hget
  intro hnone
  rw [hnone] at hget
  cases hrf : rf[i] <;> simp [hrf] at hget

/-- One round after the crash of `p`. -/
theorem AfterCrash.round (hphase : AfterCrash p s) (hopen : (s.objToCl p read.line).IsOpen)
    (hv : Visit cfg read rpid store older s rf s₁ rf₁) :
    Model.Marks read.line s s₁ ∧ (s₁.objToCl p read.line).IsOpen ∧
      ∀ t, (s₁.objToCl p read.line).Admits t →
        (s.objToCl p read.line).Admits t ∧
        (rf₁ = (if survives s p t store then fill (wants read) store rf else rf) ∨
          s.getProcessId store = p ∧ Skips cfg read store older s ∧ rf₁ = rf) := by
  rcases hphase.visit_iff.mp hv with ⟨hp, hrun⟩ | ⟨hp, hpers⟩
  · have hcl : s₁.objToCl p read.line = s.objToCl p read.line := hrun.objToCl_other hp _
    rw [hcl]
    refine ⟨hrun.marks, hopen, ?_⟩
    intro t ht
    rw [hrun.slots_eq, if_pos (survives_of_other hp)]
    exact ⟨ht, .inl rfl⟩
  · obtain ⟨hopen₁, hsub⟩ := hpers.interval hp hopen
    refine ⟨hpers.marks, hopen₁, ?_⟩
    intro t ht
    refine ⟨hsub t ht, ?_⟩
    by_cases hskip : Skips cfg read store older s
    · exact .inr ⟨hp, hskip, (hpers.eq_of_skips hskip).2⟩
    · exact .inl (hpers.fills hp hskip ht)

/-- A round does not change what a cut-off makes of the stores that are left. -/
theorem round_fillAll (hchain : StoreChain s.getProcessId p read.word (store :: older))
    (h : rf₁ = (if survives s p t store then fill (wants read) store rf else rf) ∨
      s.getProcessId store = p ∧ Skips cfg read store older s ∧ rf₁ = rf) :
    (fillAll (wants read) (older.filter (survives s p t)) rf₁).map (Option.map ModelAction.data) =
      (fillAll (wants read) ((store :: older).filter (survives s p t)) rf).map
        (Option.map ModelAction.data) := by
  rcases h with rfl | ⟨hp, hskip, rfl⟩
  · split
    · next hs => rw [List.filter_cons_of_pos hs, fillAll_cons]
    · next hs => rw [List.filter_cons_of_neg hs]
  · apply hskip.data_eq hp
    intro b hb hbp
    cases hchain with
    | init _ _ _ _ => cases hb
    | store _ hseq _ => exact (hseq hp).2 b hb hbp

/-- The round for the initial value ends the loop. -/
theorem round_init (hloc : store.location = read.word) (hsize : store.size = 8)
    (hseq : store.seqNum = 0) (hr : read.NaturallyAligned) (hlen : rf.length = read.size)
    (h : rf₁ = (if survives s p t store then fill (wants read) store rf else rf) ∨
      s.getProcessId store = p ∧ Skips cfg read store [] s ∧ rf₁ = rf) :
    countFree rf₁ = 0 := by
  have hs : survives s p t store = true := by simp [survives, hseq]
  rcases h with rfl | ⟨_, ⟨_, _, h⟩, _⟩
  · rw [if_pos hs]
    exact countFree_fill_init ⟨hloc, hsize⟩ hr hlen
  · simp at h

/-- Whatever the loop answers, a cut-off in the interval it leaves gives the same value. -/
theorem cutOff_sound (hr : read.NaturallyAligned)
    (hchain : StoreChain s.getProcessId p read.word ws) (hphase : AfterCrash p s)
    (hopen : (s.objToCl p read.line).IsOpen) (hlen : rf.length = read.size)
    (hfree : countFree rf ≠ 0) {r : Except Stop Slots}
    (h : (readLoop cfg read rpid ws rf (countFree rf)).Ends s r s') :
    ∃ rf', r = .ok rf' ∧ Model.Marks read.line s s' ∧ (s'.objToCl p read.line).IsOpen ∧
      ∀ t, (s'.objToCl p read.line).Admits t →
        (s.objToCl p read.line).Admits t ∧
        rf'.map (Option.map ModelAction.data) =
          (fillAll (wants read) (ws.filter (survives s p t)) rf).map
            (Option.map ModelAction.data) := by
  induction ws generalizing s rf with
  | nil => cases hchain
  | cons store older ih =>
      obtain ⟨s₁, rf₁, hv, hrest⟩ := (ends_readLoop_cons hlen hfree).mp h
      obtain ⟨hmarks, hopen₁, hround⟩ := hphase.round hopen hv
      by_cases hfull : countFree rf₁ = 0
      · rw [LoopRest, if_pos hfull] at hrest
        obtain ⟨rfl, rfl⟩ := hrest
        refine ⟨rf₁, rfl, hmarks, hopen₁, ?_⟩
        intro t ht
        obtain ⟨ht₀, hrf⟩ := hround t ht
        refine ⟨ht₀, ?_⟩
        rw [← round_fillAll hchain hrf, fillAll_of_full _ _ hfull]
      · rw [LoopRest, if_neg hfull] at hrest
        cases hchain with
        | init _ hloc hsize hseq =>
            obtain ⟨_, hrf⟩ := hround _ hopen₁.admits
            exact absurd (round_init hloc hsize hseq hr hlen hrf) hfull
        | store htype hseq htail =>
            obtain ⟨rf', hr', hmarks', hopen', hall⟩ :=
              ih (hmarks.getProcessId_eq ▸ htail) (hphase.of_marks hmarks) hopen₁
                (hv.length_eq.trans hlen) hfull hrest
            refine ⟨rf', hr', hmarks.trans hmarks', hopen', ?_⟩
            intro t ht
            obtain ⟨ht₁, hrf'⟩ := hall t ht
            obtain ⟨ht₀, hrf⟩ := hround t ht₁
            refine ⟨ht₀, ?_⟩
            rw [hrf', hmarks.survives_eq,
              round_fillAll (.store htype hseq htail) hrf]

variable (cfg rpid older) in
/-- Some round after the crash keeps a given cut-off in the interval. -/
theorem AfterCrash.exists_round (hphase : AfterCrash p s)
    (ht : (s.objToCl p read.line).Admits t)
    (hinit : s.getProcessId store = p → store.type = .atomicInit → store.seqNum = 0) (rf : Slots) :
    ∃ s₁ rf₁, Visit cfg read rpid store older s rf s₁ rf₁ ∧ (s₁.objToCl p read.line).Admits t := by
  by_cases hp : s.getProcessId store = p
  swap
  · obtain ⟨s₁, hrun⟩ := Running.exists read rpid store s rf
    refine ⟨s₁, _, hphase.visit_iff.mpr (.inl ⟨hp, hrun⟩), ?_⟩
    rw [hrun.objToCl_other hp]
    exact ht
  suffices h : ∃ s₁ rf₁, Persist cfg read store older s rf s₁ rf₁ ∧
      (s₁.objToCl p read.line).Admits t by
    obtain ⟨s₁, rf₁, hpers, ht₁⟩ := h
    exact ⟨s₁, rf₁, hphase.visit_iff.mpr (.inr ⟨hp, hpers⟩), ht₁⟩
  by_cases hpers : store.seqNum ≤ (s.objToCl p read.line).getBegin
  · exact ⟨s, _, .persisted (by rw [hp]; exact hpers), ht⟩
  have hlt := Nat.lt_of_not_le hpers
  by_cases hmay : (s.objToCl p read.line).MayPersist store.seqNum
  swap
  · exact ⟨s, rf, .lostBefore (by rw [hp]; exact hlt) (by rw [hp]; exact hmay), ht⟩
  by_cases hskip : Skips cfg read store older s
  · exact ⟨s, rf, .skipped hskip, ht⟩
  by_cases hf : fill (wants read) store rf = rf
  · exact ⟨s, rf, .shadowed (by rw [hp]; exact hmay) hskip hf, ht⟩
  by_cases hle : store.seqNum ≤ t
  · refine ⟨_, _, .kept (by rw [hp]; exact hmay) hskip hf, ?_⟩
    simp only [hp, Model.raiseBegin, Model.setCacheline, CacheLineStore.setCacheline_apply,
      and_self, if_true]
    exact ⟨hle, ht.2⟩
  · have hnot : store.type ≠ .atomicInit := by
      intro h
      rw [hinit hp h] at hlt
      exact absurd hlt (Nat.not_lt_zero _)
    refine ⟨_, _, .lost (by rw [hp]; exact hmay) hskip hf hnot hphase.backtrack, ?_⟩
    simp only [hp, Model.lowerEnd, Model.setCacheline, CacheLineStore.setCacheline_apply,
      and_self, if_true]
    exact ⟨ht.1, .inr (Nat.lt_of_not_le hle)⟩

variable (cfg rpid) in
/-- Each cut-off in the interval survives some answers of the loop. -/
theorem cutOff_complete (hr : read.NaturallyAligned)
    (hchain : StoreChain s.getProcessId p read.word ws) (hphase : AfterCrash p s)
    (hopen : (s.objToCl p read.line).IsOpen) (hlen : rf.length = read.size)
    (hfree : countFree rf ≠ 0) (ht : (s.objToCl p read.line).Admits t) :
    ∃ rf' s', (readLoop cfg read rpid ws rf (countFree rf)).Ends s (.ok rf') s' ∧
      (s'.objToCl p read.line).Admits t := by
  induction ws generalizing s rf with
  | nil => cases hchain
  | cons store older ih =>
      have hinit : s.getProcessId store = p → store.type = .atomicInit → store.seqNum = 0 := by
        intro hp htype
        cases hchain with
        | init _ _ _ hseq => exact hseq
        | store hne _ _ => exact absurd htype (hne hp)
      obtain ⟨s₁, rf₁, hv, ht₁⟩ :=
        hphase.exists_round cfg rpid older ht hinit rf
      obtain ⟨hmarks, hopen₁, hround⟩ := hphase.round hopen hv
      by_cases hfull : countFree rf₁ = 0
      · refine ⟨rf₁, s₁, (ends_readLoop_cons hlen hfree).mpr ⟨s₁, rf₁, hv, ?_⟩, ht₁⟩
        rw [LoopRest, if_pos hfull]
        exact ⟨rfl, rfl⟩
      · cases hchain with
        | init _ hloc hsize hseq =>
            obtain ⟨_, hrf⟩ := hround _ ht₁
            exact absurd (round_init hloc hsize hseq hr hlen hrf) hfull
        | store _ _ htail =>
            obtain ⟨rf', s', hends, ht'⟩ :=
              ih (hmarks.getProcessId_eq ▸ htail) (hphase.of_marks hmarks) hopen₁
                (hv.length_eq.trans hlen) hfull ht₁
            refine ⟨rf', s', (ends_readLoop_cons hlen hfree).mpr ⟨s₁, rf₁, hv, ?_⟩, ht'⟩
            rw [LoopRest, if_neg hfull]
            exact hends

end

end Cxlmc
