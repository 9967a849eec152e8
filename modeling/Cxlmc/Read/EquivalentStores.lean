import Cxlmc.Read.LazyPersistence

/-!
# `EQUIV_STORE_SKIP` loses nothing

With `EQUIV_STORE_SKIP` a read passes over a store that may have persisted if the next older store is
equivalent, and leaves the interval of the writer open where the plain loop splits it in two. Both
loops answer with the cut-offs that the intervals admit, so over any sequence of reads and evictions
they return the same values.
-/

namespace Cxlmc

open Stateful

/-- `config.h` without `EQUIV_STORE_SKIP`. -/
def Config.withoutSkip : Config := { Config.asBuilt with equivStoreSkip := false }

section

variable {p : ProcessId} {s : Model} {xs : List Access}

/-- After the crash of `p`, reads and evictions end in the same ways with `EQUIV_STORE_SKIP` and
without it. -/
theorem equivStoreSkip_eq (hcrashed : s.crashes.keys = [p]) (hbacktrack : ∀ q, s.backtrack q = true)
    (hwords : ∀ w, w % 8 = 0 → IsWordList w (s.objToWr w))
    (hintervals : ∀ line, (s.objToCl p line).getEnd = 0 ∨
      (s.objToCl p line).getBegin < (s.objToCl p line).getEnd)
    (hxs : ∀ x ∈ xs, x.Live s p) :
    {r | ∃ s', (runAccesses .asBuilt xs).Ends s r s'} =
      {r | ∃ s', (runAccesses .withoutSkip xs).Ends s r s'} := by
  have hrec : Recovering p s := .of_wordLists hcrashed hbacktrack hwords hintervals
  ext r
  show (∃ s', _) ↔ ∃ s', _
  rw [ends_runAccesses_iff rfl hrec hxs, ends_runAccesses_iff rfl hrec hxs]

end

/-- Process 0 has crashed after two equal writes to a word and an older one. -/
def equalStores : Model :=
  { Model.init 2 4096 (fun _ => 0) (fun _ => .default) with
    activeThread := 1
    ticks := 4
    objToWr := fun w =>
      { tid := 1, type := .atomicInit, location := w, size := 8 } ::
        if w = 4096 then
          [{ tid := 0, type := .nonatomicStore, location := 4096, value := 5, tick := 1, size := 8 },
            { tid := 0, type := .nonatomicStore, location := 4096, value := 7, tick := 2, size := 8 },
            { tid := 0, type := .nonatomicStore, location := 4096, value := 7, tick := 3, size := 8 }]
        else []
    crashes := AList.insert 0 4 ∅ }

/-- Process 1 reads the word, writes across the border to the next word and reads again. -/
def readTwice : List Access :=
  [.read { tid := 1, type := .nonatomicLoad, location := 4096, size := 8 },
    .evict { tid := 1, type := .nonatomicStore, location := 4102, value := 1, size := 4 },
    .read { tid := 1, type := .nonatomicLoad, location := 4100, size := 4 }]

theorem equivStoreSkip_equalStores :
    {r | ∃ s', (runAccesses .asBuilt readTwice).Ends equalStores r s'} =
      {r | ∃ s', (runAccesses .withoutSkip readTwice).Ends equalStores r s'} := by
  refine equivStoreSkip_eq (p := 0) rfl (fun _ => rfl) ?_ (fun _ => .inl rfl) ?_
  · intro w _
    refine ⟨_, _, rfl, rfl, rfl, rfl, rfl, ?_, ?_⟩
    · intro a ha
      split at ha
      · revert a
        decide
      · cases ha
    · split <;> decide
  · intro x hx
    rcases hx with _ | ⟨_, _ | ⟨_, _ | ⟨_, hx⟩⟩⟩
    · exact ⟨by decide, by decide, rfl⟩
    · exact ⟨by decide, rfl⟩
    · exact ⟨by decide, by decide, rfl⟩
    · cases hx

end Cxlmc
