import Cxlmc.Effect.Clocks
import Cxlmc.System.StoreLists

/-!
# Reads resolve

`build_read_from` goes down the store list of a word until every slot is filled, and asserts that it
never comes to the end. What fills the last slots is the initial value at the head of the list, which
`ensureInitialValue` records at the first read or write of the word. `PTHREAD_CREATE` is neither, and
pushes the id of the new thread all the same. Of a word to which no thread id is stored before its
initial value was recorded every read resolves (`reads_resolve`).
-/

namespace Cxlmc

open Stateful Fill

/-- A thread is created with its id in the word only where the list of the word has begun. -/
def Event.RecordsWord (s : Model) (word : Nat) : Event → Prop
  | .executed a _ _ => a.type = .pthreadCreate → a.word = word → s.objToWr word ≠ []
  | _ => True

instance (s : Model) (word : Nat) : (e : Event) → Decidable (e.RecordsWord s word)
  | .executed _ _ _ => inferInstanceAs (Decidable (_ → _ → _ ≠ _))
  | .called _ | .blocked _ | .finished _ | .popped _ | .returned _ | .noAction | .exited =>
      .isTrue trivial

namespace Model

/-- The list of the word begins with its initial value, and has begun before a store of the word is
buffered. -/
structure Headed (word : Nat) (s : Model) : Prop where
  head : ∀ a rest, s.objToWr word = a :: rest → IsInitialValue word a
  buffered : ∀ t, ∀ b ∈ (s.threadMemory t).storeBuffer, b.isWrite = true → b.word = word →
    s.objToWr word ≠ []

/-- If the list of the word is not empty, it begins with the initial value of all of its bytes; and
whatever processes have crashed and whatever is decided, a read of the word fills its slots. -/
structure Resolves (cfg : Config) (word : Nat) (s : Model) : Prop where
  head : ∀ a rest, s.objToWr word = a :: rest → IsInitialValue word a
  reads : ∀ (read : ModelAction) (crashes : Crashes) (r : Except Stop Slots) (s' : Model),
    read.NaturallyAligned → read.word = word →
    (do ensureInitialValue read; buildReadFromSlots cfg read).Ends { s with crashes := crashes } r s' →
    ∃ rf, r = .ok rf ∧ countFree rf = 0

end Model

/-! ## One read -/

section

variable {cfg : Config} {read : ModelAction} {rpid : ProcessId} {store : ModelAction}
  {older : List ModelAction} {s s' s₁ : Model} {rf rf₁ : Slots} {word : Nat}

/-- The initial value has a byte for every slot of an aligned read of the word. -/
theorem countFree_fill_initialValue (hinit : IsInitialValue word store) (ha : read.NaturallyAligned)
    (hword : read.word = word) (hlen : rf.length = read.size) :
    countFree (fill (wants read) store rf) = 0 := by
  apply countFree_fill_of_wants
  intro i hi
  rw [hlen] at hi
  apply wants_of_covers hi
  obtain ⟨_, hloc, hsize, _⟩ := hinit
  obtain ⟨hlo, hhi⟩ := ha.inWord
  rw [hword] at hlo hhi
  unfold ModelAction.Covers
  rw [hloc, hsize]
  omega

/-- A round offers the slots to an initial value: it is never crash-tested, and it has persisted. -/
theorem Visit.of_initialValue (hinit : IsInitialValue word store)
    (h : Visit cfg read rpid store older s rf s₁ rf₁) : rf₁ = fill (wants read) store rf := by
  obtain ⟨htype, _, _, hseq⟩ := hinit
  cases h with
  | running _ h => exact h.slots_eq
  | crash _ h _ => exact absurd htype h.notInit
  | crashed _ h =>
      have hnot : ∀ cl : Cacheline, ¬ cl.getBegin < store.seqNum := by
        intro cl
        rw [ModelAction.seqNum_eq_zero hseq]
        exact Nat.not_lt_zero _
      cases h with
      | persisted _ => rfl
      | lostBefore hlt _ => exact absurd hlt (hnot _)
      | skipped hskip => exact absurd hskip.1.1 (hnot _)
      | shadowed hmay _ _ => exact absurd hmay.1 (hnot _)
      | kept _ _ _ => rfl
      | lost hmay _ _ _ _ => exact absurd hmay.1 (hnot _)

/-- A loop over stores behind which the initial value comes last fills the slots. -/
theorem readLoop_resolves (newer : List ModelAction) (hinit : IsInitialValue word store)
    (ha : read.NaturallyAligned) (hword : read.word = word) (hlen : rf.length = read.size)
    (hfree : countFree rf ≠ 0) {r : Except Stop Slots}
    (h : (readLoop cfg read rpid (newer ++ [store]) rf (countFree rf)).Ends s r s') :
    ∃ rf', r = .ok rf' ∧ countFree rf' = 0 := by
  induction newer generalizing s rf with
  | nil =>
      obtain ⟨s₁, rf₁, hv, hrest⟩ := (ends_readLoop_cons hlen hfree).mp h
      have hfull : countFree rf₁ = 0 := by
        rw [hv.of_initialValue hinit]
        exact countFree_fill_initialValue hinit ha hword hlen
      rw [LoopRest, if_pos hfull] at hrest
      exact ⟨rf₁, hrest.1, hfull⟩
  | cons a newer ih =>
      obtain ⟨s₁, rf₁, hv, hrest⟩ := (ends_readLoop_cons hlen hfree).mp h
      unfold LoopRest at hrest
      split at hrest
      · next hfull => exact ⟨rf₁, hrest.1, hfull⟩
      · next hfull => exact ih (hv.length_eq.trans hlen) hfull hrest

theorem buildReadFromSlots_resolves {a : ModelAction} {rest : List ModelAction}
    (hcfg : cfg.memPoison = false) (hlist : s.objToWr read.word = a :: rest)
    (hinit : IsInitialValue read.word a) (ha : read.NaturallyAligned) {r : Except Stop Slots}
    (h : (buildReadFromSlots cfg read).Ends s r s') : ∃ rf, r = .ok rf ∧ countFree rf = 0 := by
  rw [ends_buildReadFromSlots ha.size_pos hcfg, LoopRest] at h
  split at h
  · next hfull => exact ⟨_, h.1, hfull⟩
  · next hfree =>
      have hrev : (s.getStorelist read.location).reverse = rest.reverse ++ [a] := by
        show (s.objToWr read.word).reverse = _
        rw [hlist, List.reverse_cons]
      rw [hrev] at h
      exact readLoop_resolves _ hinit ha rfl (length_bypassed s read) hfree h

/-- A read of the word, with the initial value recorded where that is still to be done. -/
theorem Model.Headed.read_resolves (hcfg : cfg.memPoison = false) (hs : s.Headed word)
    (ha : read.NaturallyAligned) (hword : read.word = word) {r : Except Stop Slots}
    (h : (do ensureInitialValue read; buildReadFromSlots cfg read).Ends s r s') :
    ∃ rf, r = .ok rf ∧ countFree rf = 0 := by
  subst hword
  rcases ends_bind.mp h with ⟨_, s₁, h₁, h₂⟩ | ⟨e, h₁, _⟩
  · rw [ends_ensureInitialValue h₁] at h₂
    cases hlist : s.objToWr read.word with
    | nil =>
        rw [if_pos hlist] at h₂
        have hnew : (s.initialized read.word).objToWr read.word = [s.initialValue read.word] := by
          show Function.update s.objToWr read.word _ read.word = _
          rw [Function.update_self]
        exact buildReadFromSlots_resolves hcfg hnew ⟨rfl, rfl, rfl, rfl⟩ ha h₂
    | cons a rest =>
        have hne : s.objToWr read.word ≠ [] := by
          rw [hlist]
          exact List.cons_ne_nil _ _
        rw [if_neg hne] at h₂
        exact buildReadFromSlots_resolves hcfg hlist (hs.head a rest hlist) ha h₂
  · cases (ends_update.mp h₁).1

theorem Model.Headed.resolves (hcfg : cfg.memPoison = false) (hs : s.Headed word) :
    s.Resolves cfg word := by
  refine ⟨hs.head, ?_⟩
  intro read crashes r s' ha hword h
  have hcrashed : ({ s with crashes := crashes } : Model).Headed word := ⟨hs.head, hs.buffered⟩
  exact hcrashed.read_resolves hcfg ha hword h

end

/-! ## Runs -/

section

variable {cfg : Config} {s s' : Model} {e : Event} {word : Nat}

/-- A store may only be pushed where the list of its word has begun. -/
theorem MemStep.headed {ef : Effect} (hcfg : cfg.memPoison = false) (h : MemStep cfg s ef s')
    (hpush : ∀ b, ef = .push b → b.isWrite = true ∧ b.word = word → s.objToWr b.word ≠ [])
    (hs : s.Headed word) : s'.Headed word := by
  constructor
  · intro a rest hlist
    cases h.head hcfg hlist with
    | kept rest' hold => exact hs.head a rest' hold
    | evicted t b hmem hw hword hempty _ =>
        subst hword
        exact absurd hempty (hs.buffered t b hmem hw rfl)
    | initial _ heq =>
        subst heq
        exact ⟨rfl, rfl, rfl, rfl⟩
  · intro t b hb hw hword
    apply h.objToWr_ne_nil hcfg
    rcases h.mem_storeBuffer hcfg hb with hb | ⟨rfl, _⟩
    · exact hs.buffered t b hb hw hword
    · rw [← hword]
      exact hpush b rfl ⟨hw, hword⟩

theorem StepCase.headed (hcfg : cfg.memPoison = false) (hplaced : s.Placed)
    (h : StepCase cfg s e s') (hrecords : e.RecordsWord s word) (hs : s.Headed word) :
    s'.Headed word := by
  have hcreate : e.CreatesBegun (fun b => b.isWrite = true ∧ b.word = word) s := by
    cases e with
    | executed a v rf =>
        rintro htype b ⟨_, hword⟩ _ hb
        have hloc : a.word = word := hb.symm.trans hword
        rw [hloc]
        exact hrecords htype hloc
    | _ => trivial
  have hacc : ∀ c : ModelAction, c.isWrite = true ∧ c.word = word →
      (c.isRead || c.isWrite) = true := by
    rintro c ⟨hw, _⟩
    rw [hw, Bool.or_true]
  apply (h.begun hcfg hacc hcreate hplaced).invariant (I := Model.Headed word) _ hs
  rintro x ef y _ hx ⟨hstep, hpush⟩
  exact hstep.headed hcfg hpush hx

/-- In every run that stores no thread id to a word before the initial value of the word was recorded,
and in every state of it: the list of the word begins with the initial value, and every naturally
aligned read of the word fills its slots. -/
theorem reads_resolve {n cxlMapping : Nat} {memory : Nat → Nat} {mutexType : MutexId → MutexType}
    {tr : List (Model × Label)} (hcfg : cfg.memPoison = false)
    (hrun : IsRun cfg n cxlMapping memory mutexType tr s)
    (hrecords : ∀ x ∈ stepsOf tr s, x.2.1.event.RecordsWord x.1 word) :
    (∀ x ∈ stepsOf tr s, x.1.Resolves cfg word) ∧ s.Resolves cfg word := by
  have hinit : (Model.init n cxlMapping memory mutexType).Headed word := ⟨nofun, nofun⟩
  obtain ⟨hall, _, hlast⟩ := hrun.invariant hcfg hinit (by
    intro x l y hmem hplaced hx _ hcase
    exact hcase.headed hcfg hplaced (hrecords _ hmem) hx)
  refine ⟨?_, hlast.resolves hcfg⟩
  intro x hx
  exact (hall x hx).2.1.resolves hcfg

end

/-! ## A thread id in a word that nothing has accessed -/

/-- A thread is created with its id at 4096, a fence evicts the id, and the word is loaded. -/
def createThenLoad : List (Input × List Nat) :=
  [({ call := .pthreadCreate 4096 }, []), ({}, []), ({}, []),
   ({ call := .mfence 8192 }, []), ({}, []), ({}, []), ({}, []),
   ({ call := .load 4096 .w64 }, [])]

def createdLoad : ModelAction :=
  { tid := 0, type := .nonatomicLoad, location := 4096, value := valueNone, order := .relaxed,
    size := 8 }

/-- `reads_resolve` for the run of `createThenLoad` with a load of the word before it. -/
theorem reads_resolve_createAfterLoad : ∃ tr s,
    IsRun .asBuilt 1 4096 (fun _ => 0) (fun _ => .default) tr s ∧
    (s.objToWr 4096).length = 2 ∧ s.Resolves .asBuilt 4096 := by
  obtain ⟨tr, s, hrun, hcheck⟩ := exists_run_of_replay .asBuilt
    (Model.init 1 4096 (fun _ => 0) (fun _ => .default))
    (({ call := .load 4096 .w64 }, []) :: ({}, []) :: ({}, []) :: createThenLoad)
    (fun tr s => decide ((s.objToWr 4096).length = 2) &&
      (stepsOf tr s).all fun x => decide (x.2.1.event.RecordsWord x.1 4096))
    (by decide +kernel)
  simp only [Bool.and_eq_true, List.all_eq_true, decide_eq_true_eq] at hcheck
  obtain ⟨hlength, hrecords⟩ := hcheck
  have hrun' : IsRun .asBuilt 1 4096 (fun _ => 0) (fun _ => .default) tr s := ⟨by decide, hrun⟩
  exact ⟨tr, s, hrun', hlength, (reads_resolve rfl hrun' hrecords).2⟩

/-- At the end of the run of `createThenLoad` the list of the word begins with the thread id, and the
load that is about to be executed ends in the failed assertion. -/
theorem reads_not_resolve : ∃ tr s,
    IsRun .asBuilt 1 4096 (fun _ => 0) (fun _ => .default) tr s ∧
    s.contextOf s.threadId = .ready createdLoad .toUser ∧ createdLoad.NaturallyAligned ∧
    (∃ a, s.objToWr createdLoad.word = [a] ∧ ¬ IsInitialValue createdLoad.word a) ∧
    ∃ s₁, (do ensureInitialValue createdLoad; buildReadFromSlots .asBuilt createdLoad).Ends s
      (.error .assertFailed) s₁ := by
  obtain ⟨tr, s, hrun, hcheck⟩ := exists_run_of_replay .asBuilt
    (Model.init 1 4096 (fun _ => 0) (fun _ => .default)) createThenLoad
    (fun _ s => decide (s.contextOf s.threadId = .ready createdLoad .toUser) &&
      decide ((s.objToWr createdLoad.word).map ModelAction.type = [.nonatomicStore]) &&
      (((do ensureInitialValue createdLoad; buildReadFromSlots .asBuilt createdLoad : M Slots)
        s).runWith []).any fun x => x.1 matches .error .assertFailed)
    (by decide +kernel)
  simp only [Bool.and_eq_true, decide_eq_true_eq, Option.any_eq_true] at hcheck
  obtain ⟨⟨hctx, htypes⟩, ⟨r, s₁⟩, hends, hr⟩ := hcheck
  refine ⟨tr, s, ⟨by decide, hrun⟩, hctx, by decide, ?_, s₁, ?_⟩
  · obtain ⟨a, hlist, htype⟩ := List.map_eq_singleton_iff.mp htypes
    refine ⟨a, hlist, ?_⟩
    rintro ⟨hinit, _⟩
    rw [htype] at hinit
    cases hinit
  · dsimp only at hr
    split at hr
    · exact ends_of_runWith [] hends
    · cases hr

end Cxlmc
