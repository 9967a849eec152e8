import Cxlmc.Read.Gpf
import Cxlmc.System.ByteCoherence

/-!
# `GPF_ALWAYS_SUCCEEDS`

Every read runs with `backtrack` off. So no interval is ever closed, a read asks no question, and it
returns the newest evicted stores whether their writers have crashed or not (`gpf_plain`).
-/

namespace Cxlmc

open Stateful Fill

section

variable {cfg : Config} {s s' s₁ : Model} {read : ModelAction} {e : Event} {P : Effect → Prop}

/-! ## No interval is closed -/

theorem MemStep.noEnds {ef : Effect} (hcfg : cfg.memPoison = false) (h : MemStep cfg s ef s')
    (hread : ∀ a rf, ef = .read a rf → s.backtrack s.processId = false) (hs : s.NoEnds) :
    s'.NoEnds := by
  have hflushed : ∀ {x : Model} (seqNum line : Nat), x.NoEnds → (x.flushed seqNum line).NoEnds := by
    intro x seqNum line hx q a
    show (if a = line ∧ q < x.processCount ∧ (x.objToCl q a).getBegin < seqNum then
      (x.objToCl q a).setBegin seqNum else x.objToCl q a).getEnd = 0
    split <;> exact hx q a
  have hsame : s'.objToCl = s.objToCl → s'.NoEnds := by
    intro h pid line
    rw [h]
    exact hs pid line
  cases h with
  | idle h => exact hsame (congrArg Memory.objToCl h.memory)
  | yield h => exact hsame (congrArg Memory.objToCl h.memory)
  | popClflush t entry rest _ _ => exact hflushed _ _ fun pid line => hs pid line
  | flush t entry rest _ _ => exact hflushed _ _ fun pid line => hs pid line
  | read action rf _ hpos hends =>
      exact (buildReadFromSlots_plain hpos hcfg ⟨hread action rf rfl, hs⟩ hends).1
  | _ => exact hsame rfl

theorem Goes.noEnds (hcfg : cfg.memPoison = false) (hP : ∀ a rf, ¬ P (.read a rf))
    (h : Goes (MemStep cfg) P s s') (hs : s.NoEnds) : s'.NoEnds := by
  apply h.invariant (I := Model.NoEnds) _ hs
  intro x ef y hef hx hstep
  apply hstep.noEnds hcfg _ hx
  rintro a rf rfl
  exact absurd hef (hP a rf)

theorem Drained.noEnds {t : ThreadId} (hcfg : cfg.memPoison = false) (h : Drained cfg t s s')
    (hs : s.NoEnds) : s'.NoEnds :=
  Goes.noEnds hcfg (fun _ _ hfalse => hfalse) h.goes hs

theorem Model.prepared_noEnds (s : Model) (hs : s.NoEnds) (a : ModelAction) : (s.prepared a).NoEnds := by
  unfold Model.prepared
  split <;> exact hs

/-- A load is resolved with `backtrack` off. -/
theorem Executed.noEnds {v : Nat} {rf : Slots} (hcfg : cfg.memPoison = false)
    (hgpf : cfg.gpfAlwaysSucceeds = true) (htid : read.tid = s.threadId) (hseq : read.tick = 0)
    (h : Executed cfg read s v rf s') (hs : s.NoEnds) : s'.NoEnds := by
  have hgoes := h.goes htid hseq
  by_cases hload : read.isLoad = true
  · obtain ⟨s₁, s₂, s₃, hdrain, hidle, hread, hidle', _, hback⟩ := h.load_parts hload
    have hfirst : s₁.NoEnds := by
      split at hdrain
      · exact hdrain.noEnds hcfg hs
      · rw [hdrain]
        exact hs
    have hstep : MemStep cfg s₁ .idle s₂ := .idle hidle
    have hstep' : MemStep cfg s₃ .idle s' := .idle hidle'
    have hresolved := hread.noEnds hcfg (fun _ _ _ => hback hgpf) (hstep.noEnds hcfg nofun hfirst)
    exact hstep'.noEnds hcfg nofun hresolved
  · refine Goes.noEnds hcfg ?_ hgoes hs
    intro a rf' hread
    cases hread with
    | drains _ hfalse => exact hfalse
    | read h => exact hload h

theorem StepCase.noEnds (hcfg : cfg.memPoison = false) (hgpf : cfg.gpfAlwaysSucceeds = true)
    (hplaced : s.Placed) (h : StepCase cfg s e s') (hs : s.NoEnds) : s'.NoEnds := by
  have hgoes := h.goes hplaced
  have hholds := hplaced.holds s.threadId
  cases h with
  | @executed b ret v n rf t s₁ _ hctx h h' =>
      rw [hctx] at hholds
      obtain ⟨htid, hseq⟩ := Issued.stamped (s := s) hholds
      have hexec := h.noEnds hcfg hgpf htid hseq (s.prepared_noEnds hs b)
      have hstep : MemStep cfg s₁ .yield s' := .yield h'.toControl
      exact hstep.noEnds hcfg nofun hexec
  | resumed _ h =>
      have hstep : MemStep cfg s .yield s' := .yield h.toControl
      exact hstep.noEnds hcfg nofun hs
  | _ =>
      refine Goes.noEnds hcfg ?_ hgoes hs
      intro a rf hread
      cases hread <;> simp_all [Effect.Drains, Effect.ShutsDown]

end

/-! ## What a read returns -/

/-- The list that the read looks at holds every byte of it, or is still to get the initial value of
the word; `pthread_create` begins a list without one. -/
def Model.Fills (s : Model) (read : ModelAction) : Prop :=
  s.objToWr read.word = [] ∨
    ∀ i, i < read.size → ∃ c ∈ s.objToWr read.word, c.Covers (read.location + i)

instance (s : Model) (read : ModelAction) : Decidable (s.Fills read) :=
  inferInstanceAs (Decidable (_ ∨ _))

section

variable {cfg : Config} {s s' s₁ : Model} {read : ModelAction} {rf : Slots}

theorem Model.prepared_fills (hread : read.isRead = true) (haligned : read.NaturallyAligned)
    (h : s.Fills read) {i : Nat} (hi : i < read.size) :
    ∃ c ∈ (s.prepared read).objToWr read.word, c.Covers (read.location + i) := by
  unfold Model.prepared
  by_cases hempty : s.objToWr read.word = []
  · rw [if_pos ⟨by simp [hread], hempty⟩]
    refine ⟨s.initialValue read.word, ?_, ?_⟩
    · show _ ∈ Function.update s.objToWr read.word [s.initialValue read.word] read.word
      simp
    · -- the initial value covers its word
      have hin := haligned.inWord
      show alignAddress read.location ≤ _ ∧ _ < alignAddress read.location + 8
      unfold ModelAction.word alignAddress at hin
      unfold alignAddress
      omega
  · rw [if_neg fun h => hempty h.2]
    rcases h with h | h
    · exact absurd h hempty
    · exact h i hi

/-- With `backtrack` off, each byte of a read is that of the first candidate which takes its slot. -/
theorem byteOf_read_plain (hpos : 0 < read.size) (hcfg : cfg.memPoison = false) (hplain : s.Plain)
    (h : (buildReadFromSlots cfg read).Ends s (.ok rf) s') {i : Nat} (hi : i < read.size)
    {x : ModelAction} (hx : (s.candidates read).find? (fun w => wants read w i) = some x) :
    byteOf (getReadValue read.location rf) i = x.byteAt (read.location + i) := by
  have hseen := (buildReadFromSlots_plain hpos hcfg hplain h).2.1 rf rfl
  have hfilled : (fillAll (wants read) (s.candidates read) (Slots.free read.size))[i]? =
      some (some x) := by
    rw [getElem?_fillAll, Slots.free, List.getElem?_replicate_of_lt hi, hx]
    rfl
  have hslot : rf[i]?.map (Option.map ModelAction.data) = some (some x.data) := by
    rw [← List.getElem?_map]
    show (seenSlots rf)[i]? = _
    rw [hseen, seenSlots, List.getElem?_map, hfilled]
    rfl
  obtain ⟨o, ho, hdata⟩ := Option.map_eq_some_iff.mp hslot
  rw [byteOf_getReadValue _ ho, ← slotByte_map_data, hdata]
  rfl

/-- A load with an empty store buffer is resolved at once, to what its list holds. -/
theorem resolveLoad_plain (hcfg : cfg.memPoison = false) (hgpf : cfg.gpfAlwaysSucceeds = true)
    (hpos : 0 < read.size) (hends : s.NoEnds) (hbuf : (s.threadMemory read.tid).storeBuffer = [])
    (hfills : ∀ i, i < read.size → ∃ c ∈ s.objToWr read.word, c.Covers (read.location + i)) :
    ∃ v rf s', resolveLoad cfg read s = .done (.ok (.done v rf), s') ∧
      ∀ i, i < read.size → ∃ x,
        (s.objToWr read.word).reverse.find? (fun w => wants read w i) = some x ∧
          byteOf v i = x.byteAt (read.location + i) := by
  -- the load is made with backtracking switched off for its process
  let s₀ : Model := { s with backtrack := Function.update s.backtrack s.processId false }
  have hplain : s₀.Plain := by
    refine ⟨?_, hends⟩
    show Function.update s.backtrack s.processId false s.processId = false
    rw [Function.update_self]
  have hcands : s₀.candidates read = (s.objToWr read.word).reverse := by
    show ((s.threadMemory read.tid).storeBuffer.reverse.filter _) ++ _ = _
    rw [hbuf]
    rfl
  have hfind : ∀ i, i < read.size → ∃ x,
      (s.objToWr read.word).reverse.find? (fun w => wants read w i) = some x := by
    intro i hi
    obtain ⟨c, hc, hcovers⟩ := hfills i hi
    apply Option.isSome_iff_exists.mp
    rw [List.find?_isSome]
    exact ⟨c, List.mem_reverse.mpr hc, wants_of_covers hi hcovers⟩
  have hnoChoice := buildReadFromSlots_noChoice hpos hcfg hplain
  obtain ⟨r, s₁, h⟩ := hnoChoice.ends
  obtain ⟨rf, rfl⟩ : ∃ rf, r = .ok rf := by
    -- every byte has a candidate, so that no slot stays free
    apply (buildReadFromSlots_plain hpos hcfg hplain h).2.2
    rw [countFree_eq_zero, hcands]
    intro o ho
    obtain ⟨i, hi⟩ := List.getElem?_of_mem ho
    have hlt : i < read.size := by
      have hlen := (List.getElem?_eq_some_iff.mp hi).1
      rw [length_fillAll] at hlen
      simpa [Slots.free] using hlen
    rw [getElem?_fillAll, Slots.free, List.getElem?_replicate_of_lt hlt] at hi
    obtain ⟨x, hx⟩ := hfind i hlt
    rw [hx] at hi
    cases hi
    simp
  refine ⟨getReadValue read.location rf, rf, { s₁ with
    backtrack := Function.update s₁.backtrack s.processId (s.backtrack s.processId) }, ?_, ?_⟩
  · have hdone : buildReadFromSlots cfg read s₀ = .done (.ok rf, s₁) := hnoChoice.eq_done h
    have hbind : resolveLoad cfg read s = (buildReadFromSlots cfg read >>= fun rf => do
        update fun s' => { s' with
          backtrack := Function.update s'.backtrack s.processId (s.backtrack s.processId) }
        return .done (getReadValue read.location rf) rf : M Flow) s₀ := by
      unfold resolveLoad
      simp only [hgpf, if_true]
      rfl
    rw [hbind]
    show ((buildReadFromSlots cfg read s₀).bind _) = _
    rw [hdone]
    rfl
  · intro i hi
    obtain ⟨x, hx⟩ := hfind i hi
    refine ⟨x, hx, byteOf_read_plain hpos hcfg hplain h hi ?_⟩
    rw [hcands]
    exact hx

end

/-! ## Runs -/

section

variable {cfg : Config} {n cxlMapping : Nat} {memory : Nat → Nat} {mutexType : MutexId → MutexType}
  {tr : List (Model × Label)} {s s₁ : Model} {a : ModelAction} {ret : Ret}

theorem IsRun.noEnds (hcfg : cfg.memPoison = false) (hgpf : cfg.gpfAlwaysSucceeds = true)
    (hrun : IsRun cfg n cxlMapping memory mutexType tr s) : s.NoEnds := by
  have hinit : (Model.init n cxlMapping memory mutexType).NoEnds := fun _ _ => rfl
  obtain ⟨_, _, hlast⟩ := hrun.invariant hcfg (P := Model.NoEnds) hinit (by
    intro x l y _ hplaced hx _ hcase
    exact hcase.noEnds hcfg hgpf hplaced hx)
  exact hlast

/-- What the fence of a load leaves, where the store buffer is empty. -/
theorem ends_fenceOfLoad (hcfg : cfg.memPoison = false) (hends : s.NoEnds)
    (hbuf : (s.threadMemory a.tid).storeBuffer = [])
    (h : (fenceOfLoad a).Ends s (.ok ()) s₁) :
    s₁.NoEnds ∧ s₁.objToWr = s.objToWr ∧ (s₁.threadMemory a.tid).storeBuffer = [] := by
  unfold fenceOfLoad at h
  split at h
  · have hseq : s.Unclocked a.tid := by
      rw [Model.Unclocked, hbuf]
      nofun
    have hgoes : Goes (MemStep cfg) (Effect.Drains a.tid) s s₁ := (drain_does cfg hseq).returns h
    obtain ⟨hlists, hempty⟩ := Goes.objToWr_of_drains hcfg hgoes hbuf
    exact ⟨Goes.noEnds hcfg (fun _ _ hfalse => hfalse) hgoes hends, hlists, hempty⟩
  · obtain ⟨_, rfl⟩ := ends_pure.mp h
    exact ⟨hends, rfl, hbuf⟩

/-- With `GPF_ALWAYS_SUCCEEDS`, in every state that a run reaches, no interval is closed, and a
naturally aligned load by a thread with an empty store buffer makes no decision and returns the
newest evicted stores byte by byte, if its list has what it needs. -/
theorem gpf_plain (hcfg : cfg.memPoison = false) (hgpf : cfg.gpfAlwaysSucceeds = true)
    (hrun : IsRun cfg n cxlMapping memory mutexType tr s) :
    s.NoEnds ∧ ∀ a ret, s.contextOf s.threadId = .ready a ret → a.isLoad = true →
      a.NaturallyAligned → (s.threadMemory s.threadId).storeBuffer = [] →
      s.Reaches a → s.Fills a →
      execute cfg a ret = (fenceOfLoad a >>= fun _ => resolveLoad cfg a) ∧
      ∀ s₁, (fenceOfLoad a).Ends (s.prepared a) (.ok ()) s₁ →
        ∃ v rf s₂, resolveLoad cfg a s₁ = .done (.ok (.done v rf), s₂) ∧
          ∀ i, i < a.size → ∀ c, s.IsNewest (a.location + i) c →
            byteOf v i = c.byteAt (a.location + i) := by
  have hends := hrun.noEnds hcfg hgpf
  refine ⟨hends, ?_⟩
  intro a ret hctx hload haligned hbuf hreaches hfills
  refine ⟨execute_load cfg ret hload, ?_⟩
  intro s₁ hfence
  obtain ⟨hplaced, hl⟩ := (hrun.listed hcfg).2
  have hissued : Issued s.threadId a ret := by
    have hholds := hplaced.holds s.threadId
    rw [hctx] at hholds
    exact hholds
  have hread : a.isRead = true := by
    simp only [ModelAction.isLoad, Bool.or_eq_true, decide_eq_true_eq] at hload
    rcases hload with (h | h) | h <;> simp [ModelAction.isRead, h]
  rw [← hissued.tid_eq.1] at hbuf
  have hbuf₀ : ((s.prepared a).threadMemory a.tid).storeBuffer = [] := by
    rw [(s.prepared_memory a).2]
    exact hbuf
  obtain ⟨hends₁, hlists, hbuf₁⟩ :=
    ends_fenceOfLoad hcfg (s.prepared_noEnds hends a) hbuf₀ hfence
  obtain ⟨v, rf, s₂, hdone, hbytes⟩ := resolveLoad_plain hcfg hgpf haligned.size_pos hends₁ hbuf₁ (by
    intro i hi
    rw [hlists]
    exact s.prepared_fills hread haligned hfills hi)
  refine ⟨v, rf, s₂, hdone, ?_⟩
  intro i hi c hc
  obtain ⟨x, hx, hbyte⟩ := hbytes i hi
  rw [hlists] at hx
  have hsame := s.prepared_storesOf a
  have hsorted : (s.prepared a).Sorted := by
    intro w
    rw [hsame w]
    exact hl.sorted w
  rw [hbyte]
  rcases (hreaches.of_storesOf hsame).find hsorted hi hx with hnew | ⟨hnone, _⟩
  · have hnew : s.IsNewest (a.location + i) x := hnew.of_storesOf fun w => (hsame w).symm
    rw [hnew.unique hl.clocksUnique hc]
  · obtain ⟨w, hw⟩ := hc.evicted
    rw [← hsame w] at hw
    exact absurd hc.covers (hnone w c hw)

end

/-! ## A store of a crashed writer, and a store across the end of a word -/

/-- A thread is about to load the newest store of 4096, whose process has crashed. -/
def loadsCrashedStore (s : Model) : Bool :=
  match s.contextOf s.threadId, s.objToWr 4096 with
  | .ready a _, [_, c] =>
      decide (a.type = .nonatomicLoad ∧ a.NaturallyAligned ∧ a.size = 8 ∧ a.location = 4096 ∧
        (s.threadMemory s.threadId).storeBuffer.isEmpty ∧ s.Fills a ∧ c ∈ s.storesOf 4096 ∧
        c.Covers 4096 ∧ c.tick + 1 = s.ticks ∧ c.value = 7 ∧
        s.isCrashed (s.getProcessId c) = true)
  | _, _ => false

/-- `gpf_plain` for a load of what a crashed process has stored. -/
theorem gpf_plain_crashed : ∃ tr s a ret c v rf s₂,
    IsRun ⟨true, true, false⟩ 2 4096 (fun _ => 0) (fun _ => .default) tr s ∧
    s.contextOf s.threadId = .ready a ret ∧ a.isLoad = true ∧ a.size = 8 ∧
    s.IsNewest a.location c ∧ s.isCrashed (s.getProcessId c) = true ∧ c.value = 7 ∧
    resolveLoad ⟨true, true, false⟩ a (s.prepared a) = .done (.ok (.done v rf), s₂) ∧
    byteOf v 0 = c.byteAt a.location := by
  obtain ⟨tr, s, hrun, hcheck⟩ := exists_run_of_replay ⟨true, true, false⟩
    (Model.init 2 4096 (fun _ => 0) (fun _ => .default))
    [({ call := .store 4096 .w64 7 }, []), ({}, []), ({}, []), ({ call := .mfence 4096 }, []),
      ({ call := .schedYield }, []), ({}, []), ({}, []), ({ call := .insertCrash }, [0]), ({}, []),
      ({}, []), ({ call := .load 4096 .w64 }, [])]
    (fun tr s => (stepsOf tr s).all (fun x => decide x.2.1.event.Aligned) && loadsCrashedStore s)
    (by decide +kernel)
  simp only [Bool.and_eq_true, List.all_eq_true, decide_eq_true_eq] at hcheck
  obtain ⟨hall, hcheck⟩ := hcheck
  have hrun' : IsRun ⟨true, true, false⟩ 2 4096 (fun _ => 0) (fun _ => .default) tr s :=
    ⟨by decide, hrun⟩
  unfold loadsCrashedStore at hcheck
  split at hcheck
  · next a ret b c hctx hlist =>
      simp only [decide_eq_true_eq, List.isEmpty_iff] at hcheck
      obtain ⟨htype, haligned, hsize, hloc, hbuf, hfills, hmem, hcovers, hseq, hvalue, hcrashed⟩ :=
        hcheck
      have hload : a.isLoad = true := by simp [ModelAction.isLoad, htype]
      have hlisted := (hrun'.listed rfl).2.2
      have hnewest : s.IsNewest (a.location + 0) c := by
        rw [hloc]
        refine ⟨⟨4096, hmem⟩, hcovers, ?_⟩
        intro w d hd _
        have hlt := hlisted.recorded.clock w d hd
        omega
      have hstores := (hrun'.storesAligned rfl hall).2
      obtain ⟨_, hresolved⟩ := (gpf_plain rfl rfl hrun').2 a ret hctx hload haligned hbuf
        (hstores.reaches hlisted.recorded haligned) hfills
      have hfence : (fenceOfLoad a).Ends (s.prepared a) (.ok ()) (s.prepared a) := by
        rw [fenceOfLoad, if_neg (by simp [htype])]
        exact ends_pure.mpr ⟨rfl, rfl⟩
      obtain ⟨v, rf, s₂, hdone, hbytes⟩ := hresolved _ hfence
      exact ⟨tr, s, a, ret, c, v, rf, s₂, hrun', hctx, hload, hsize, hnewest, hcrashed, hvalue, hdone,
        hbytes 0 (by omega) c hnewest⟩
  · cases hcheck

/-- Nor does a load see a store across the end of the word before its own. -/
theorem gpf_not_plain : ∃ tr s x a v rf c,
    IsRun ⟨true, true, false⟩ 1 4096 (fun _ => 0) (fun _ => .default) tr s ∧
    x ∈ stepsOf tr s ∧ x.2.1.event = .executed a v rf ∧ a.isLoad = true ∧ a.NaturallyAligned ∧
    (x.1.threadMemory x.2.1.tid).storeBuffer = [] ∧
    x.1.IsNewest a.location c ∧ byteOf v 0 ≠ c.byteAt a.location := by
  obtain ⟨tr, s, x, a, v, rf, c, hrun, _, hx, hev, hload, haligned, hbuf, _, hnew, hne⟩ :=
    crossing_not_seen true
  exact ⟨tr, s, x, a, v, rf, c, hrun, hx, hev, hload, haligned, hbuf, hnew, hne⟩

end Cxlmc
