import Cxlmc.Model.System

/-!
# What `check_memory_poisoning` looks at

The loop adds `i`, not `8 * i`, to the address of the line, so all its rounds look at the first word of
the line, and of that list it takes the oldest entry. A store that may be lost is noticed only where it
is that entry (`poison_noticed`).
-/

namespace Cxlmc

open Stateful

/-- One of the eight words of the line of `read` has a store of a crashed process that is later than the
interval of the process begins, where that interval has no end. -/
def Model.HasPoison (s : Model) (read : ModelAction) : Prop :=
  ∃ j, j < 8 ∧ ∃ store ∈ s.objToWr (read.line + 8 * j), s.isCrashed (s.getProcessId store) = true ∧
    (s.objToCl (s.getProcessId store) read.line).getBegin < store.seqNum ∧
    (s.objToCl (s.getProcessId store) read.line).getEnd = 0

/-- `check_memory_poisoning` offers the poison decision or reports poison. -/
def Model.PoisonNoticed (s : Model) (read : ModelAction) : Prop :=
  (∃ next, checkMemoryPoisoning read s = .choose 2 next) ∨
    ∃ s', checkMemoryPoisoning read s = .done (.error .poison, s')

/-- The oldest store of the first word of the line is one of a crashed process, and it is later than the
interval of the process begins or the read is later than the interval ends. -/
def Model.OldestShows (s : Model) (read : ModelAction) : Prop :=
  ∃ head older, s.objToWr read.line = head :: older ∧ s.isCrashed (s.getProcessId head) = true ∧
    (((s.objToCl (s.getProcessId head) read.line).getEnd ≠ 0 ∧
        (s.objToCl (s.getProcessId head) read.line).getEnd < read.seqNum) ∨
      (s.objToCl (s.getProcessId head) read.line).getBegin < head.seqNum)

/-- The clock and the process of the poison so far, after a look at `head`. -/
def Model.raisePoison (s : Model) (read head : ModelAction) (acc : Nat × ProcessId) : Nat × ProcessId :=
  if head.seqNum > (s.objToCl (s.getProcessId head) read.line).getBegin ∧ head.seqNum > acc.1 then
    (head.seqNum, s.getProcessId head)
  else acc

section

variable {s : Model} {read head : ModelAction} {older : List ModelAction} {is : List Nat} {i : Nat}
  {acc : Nat × ProcessId}

/-- Every round of the loop looks at the first word of the line. -/
theorem getStorelist_line (s : Model) (read : ModelAction) (hi : i < 8) :
    s.getStorelist (read.line + i) = s.objToWr read.line := by
  have hword : alignAddress (read.line + i) = read.line := by
    simp only [ModelAction.line, alignAddress, getCacheID, cachelineSize]
    omega
  rw [Model.getStorelist, hword]

/-- Where the word has no store, or its oldest one is not of a crashed process, a round does nothing. -/
theorem checkPoisonLoop_passes
    (hpass : ∀ head older, s.objToWr read.line = head :: older →
      s.isCrashed (s.getProcessId head) = false)
    (his : ∀ i ∈ is, i < 8) : checkPoisonLoop read is acc s = .done (.ok acc, s) := by
  induction is with
  | nil => rfl
  | cons i is ih =>
      have hround : checkPoisonLoop read (i :: is) acc s = checkPoisonLoop read is acc s := by
        rw [checkPoisonLoop, bind_state_apply, getStorelist_line s read (his i List.mem_cons_self)]
        cases hlist : s.objToWr read.line with
        | nil => rfl
        | cons head older =>
            dsimp only
            rw [hpass head older hlist]
            rfl
      rw [hround]
      exact ih fun j hj => his j (List.mem_cons_of_mem i hj)

/-- A round, where the oldest store of the word is one of a crashed process. -/
theorem checkPoisonLoop_cons (hlist : s.objToWr read.line = head :: older)
    (hcrashed : s.isCrashed (s.getProcessId head) = true) (hi : i < 8) :
    checkPoisonLoop read (i :: is) acc s =
      if (s.objToCl (s.getProcessId head) read.line).getEnd ≠ 0 ∧
          read.seqNum > (s.objToCl (s.getProcessId head) read.line).getEnd then
        .done (.error .poison, s)
      else checkPoisonLoop read is (s.raisePoison read head acc) s := by
  rw [checkPoisonLoop, bind_state_apply, getStorelist_line s read hi, hlist]
  dsimp only
  rw [if_pos hcrashed]
  split
  · rfl
  · rw [Model.raisePoison]
    split <;> rfl

theorem Model.raisePoison_raisePoison :
    s.raisePoison read head (s.raisePoison read head acc) = s.raisePoison read head acc := by
  unfold raisePoison
  split_ifs with h h'
  · rfl
  · rfl
  · rfl

/-- All rounds together are one. -/
theorem checkPoisonLoop_raises (hlist : s.objToWr read.line = head :: older)
    (hcrashed : s.isCrashed (s.getProcessId head) = true)
    (hend : ¬ ((s.objToCl (s.getProcessId head) read.line).getEnd ≠ 0 ∧
      read.seqNum > (s.objToCl (s.getProcessId head) read.line).getEnd))
    (his : ∀ j ∈ i :: is, j < 8) :
    checkPoisonLoop read (i :: is) acc s = .done (.ok (s.raisePoison read head acc), s) := by
  induction is generalizing i acc with
  | nil =>
      rw [checkPoisonLoop_cons hlist hcrashed (his i List.mem_cons_self), if_neg hend]
      rfl
  | cons j is ih =>
      rw [checkPoisonLoop_cons hlist hcrashed (his i List.mem_cons_self), if_neg hend,
        ih fun k hk => his k (List.mem_cons_of_mem i hk), Model.raisePoison_raisePoison]

/-- After the loop the check goes on with the poison it has found. -/
theorem poisonNoticed_of_loop {poison : Nat × ProcessId}
    (h : checkPoisonLoop read (List.range (cachelineSize / 8)) (0, 0) s = .done (.ok poison, s)) :
    s.PoisonNoticed read ↔ poison.1 ≠ 0 := by
  have hrest : checkMemoryPoisoning read s =
      (if poison.1 ≠ 0 then do
        let c ← decisionPoint 2
        if c = 0 then do
          update fun s => s.setCacheline poison.2 read.line
            ((s.objToCl poison.2 read.line).setEnd poison.1)
          stop .poison
        else
          update fun s => s.setCacheline poison.2 read.line
            ((s.objToCl poison.2 read.line).setBegin poison.1)
      else pure () : M Unit) s := by
    show (checkPoisonLoop read (List.range (cachelineSize / 8)) (0, 0) s).bind _ = _
    rw [h]
    rfl
  rw [Model.PoisonNoticed, hrest]
  by_cases hpoison : poison.1 ≠ 0
  · rw [if_pos hpoison]
    exact ⟨fun _ => hpoison, fun _ => .inl ⟨_, rfl⟩⟩
  · rw [if_neg hpoison]
    refine ⟨?_, fun h => absurd h hpoison⟩
    rintro (⟨next, hnext⟩ | ⟨s', hs'⟩)
    · cases hnext
    · cases hs'

/-- The check notices something exactly where the oldest store of the first word shows it. -/
theorem poisonNoticed_iff_oldestShows : s.PoisonNoticed read ↔ s.OldestShows read := by
  have hrange : ∀ i ∈ List.range (cachelineSize / 8), i < 8 := fun i hi => List.mem_range.mp hi
  by_cases hpass : ∀ head older, s.objToWr read.line = head :: older →
      s.isCrashed (s.getProcessId head) = false
  · rw [poisonNoticed_of_loop (checkPoisonLoop_passes hpass hrange)]
    refine ⟨fun h => absurd rfl h, ?_⟩
    rintro ⟨head, older, hlist, hcrashed, _⟩
    rw [hpass head older hlist] at hcrashed
    cases hcrashed
  · push Not at hpass
    obtain ⟨head, older, hlist, hcrashed⟩ := hpass
    replace hcrashed := Bool.ne_false_iff.mp hcrashed
    by_cases hend : (s.objToCl (s.getProcessId head) read.line).getEnd ≠ 0 ∧
        read.seqNum > (s.objToCl (s.getProcessId head) read.line).getEnd
    · -- the first round reports the poison
      have hstop : checkPoisonLoop read (List.range (cachelineSize / 8)) (0, 0) s =
          .done (.error .poison, s) := by
        rw [show List.range (cachelineSize / 8) = 0 :: (List.range (cachelineSize / 8)).tail from rfl,
          checkPoisonLoop_cons hlist hcrashed (by decide), if_pos hend]
      refine ⟨fun _ => ⟨head, older, hlist, hcrashed, .inl hend⟩, fun _ => .inr ⟨s, ?_⟩⟩
      show (checkPoisonLoop read (List.range (cachelineSize / 8)) (0, 0) s).bind _ = _
      rw [hstop]
      rfl
    · rw [poisonNoticed_of_loop (checkPoisonLoop_raises hlist hcrashed hend hrange)]
      rw [Model.raisePoison]
      constructor
      · intro hpoison
        refine ⟨head, older, hlist, hcrashed, .inr ?_⟩
        by_contra hle
        rw [if_neg fun h => hle h.1] at hpoison
        exact hpoison rfl
      · rintro ⟨head', older', hlist', _, hshows⟩
        rw [hlist] at hlist'
        cases hlist'
        rcases hshows with hshows | hshows
        · exact absurd hshows hend
        · rw [if_pos ⟨hshows, Nat.zero_lt_of_lt hshows⟩]
          exact Nat.ne_of_gt (Nat.zero_lt_of_lt hshows)

end

/-- Poison of the line is noticed exactly where it shows in the oldest store of its first word. -/
theorem poison_noticed (s : Model) (read : ModelAction) :
    (s.HasPoison read → s.PoisonNoticed read) ↔ (s.HasPoison read → s.OldestShows read) := by
  rw [poisonNoticed_iff_oldestShows]

/-- Process 1 stores twice to the second word of a line and crashes after a fence. -/
def poisonSecondWord : List (Input × List Nat) :=
  [({ call := .schedYield }, []),
   ({ call := .store 4104 .w64 1 }, []), ({}, []), ({}, []),
   ({ call := .store 4104 .w64 2 }, []), ({}, []), ({}, []),
   ({ call := .mfence 0 }, []), ({}, []), ({}, []), ({ call := .schedYield }, []), ({}, []), ({}, []),
   ({ call := .insertCrash }, [0]), ({}, []), ({}, [])]

/-- The store that may be lost is the last of its list. -/
def lastIsPoison (s : Model) (read : ModelAction) : Bool :=
  (s.objToWr read.word).getLast?.any fun store =>
    s.isCrashed (s.getProcessId store) &&
      decide ((s.objToCl (s.getProcessId store) read.line).getBegin < store.seqNum) &&
      decide ((s.objToCl (s.getProcessId store) read.line).getEnd = 0)

/-- After `poisonSecondWord` a read of the word is not offered the poison. -/
theorem poison_not_noticed : ∃ tr s,
    IsRun { Config.asBuilt with memPoison := true } 2 4096 (fun _ => 0) (fun _ => .default) tr s ∧
    ∃ read : ModelAction, read.NaturallyAligned ∧ s.HasPoison read ∧ ¬ s.PoisonNoticed read := by
  obtain ⟨tr, s, hrun, hcheck⟩ := exists_run_of_replay { Config.asBuilt with memPoison := true }
    (Model.init 2 4096 (fun _ => 0) (fun _ => .default)) poisonSecondWord
    (fun _ s => lastIsPoison s { tid := 0, type := .nonatomicLoad, location := 4104, size := 8 } &&
      decide (s.objToWr 4096 = []))
    (by decide +kernel)
  simp only [Bool.and_eq_true, decide_eq_true_eq, lastIsPoison, Option.any_eq_true] at hcheck
  obtain ⟨⟨store, hlast, ⟨hcrashed, hbegin⟩, hend⟩, hfirst⟩ := hcheck
  refine ⟨tr, s, ⟨by decide, hrun⟩, { tid := 0, type := .nonatomicLoad, location := 4104, size := 8 },
    by decide, ?_, ?_⟩
  · exact ⟨1, by decide, store, List.mem_of_getLast? hlast, hcrashed, hbegin, hend⟩
  · rw [poisonNoticed_iff_oldestShows]
    rintro ⟨head, older, hlist, _⟩
    have hline : s.objToWr 4096 = head :: older := hlist
    rw [hfirst] at hline
    cases hline

end Cxlmc
