import Cxlmc.Effect.Begins

/-!
# Every effect narrows the intervals

An interval that a flush empties after a crash is no longer open, but like every other it lies inside
the old one: `begin` only rises, and a nonzero `end` only falls. So a cut-off that the intervals admit
at the end of a run was admitted all the time before (`Goes.admits`).
-/

namespace Cxlmc

open Stateful Fill

/-! ## One interval -/

namespace Cacheline

variable {cl cl' : Cacheline} {t : Nat}

theorem Narrows.setBegin {b : Nat} (hle : cl.getBegin ≤ b) : cl.Narrows (cl.setBegin b) :=
  ⟨hle, fun h => ⟨h, Nat.le_refl _⟩⟩

theorem Narrows.setEnd {e : Nat} (h : cl.MayPersist e) : cl.Narrows (cl.setEnd e) :=
  (Moves.lowered h).narrows

/-- A clock in the new interval was in the old one. -/
theorem Narrows.admits (h : cl.Narrows cl') (ht : cl'.Admits t) : cl.Admits t := by
  refine ⟨Nat.le_trans h.1 ht.1, ?_⟩
  by_cases hend : cl.getEnd = 0
  · exact .inl hend
  · obtain ⟨hne, hle⟩ := h.2 hend
    exact .inr (Nat.lt_of_lt_of_le (ht.2.resolve_left hne) hle)

end Cacheline

section

variable {cfg : Config} {read : ModelAction} {rpid : ProcessId} {store : ModelAction}
  {older ws : List ModelAction} {s s' s₁ : Model} {rf rf₁ rf' : Slots} {e : Effect} {P : Effect → Prop}

theorem Model.Narrows.setCacheline {p : ProcessId} {line : Nat} {cl : Cacheline}
    (h : (s.objToCl p line).Narrows cl) : s.Narrows (s.setCacheline p line cl) := by
  intro q a
  have hcl : (s.setCacheline p line cl).objToCl q a =
      if q = p ∧ a = line then cl else s.objToCl q a := rfl
  rw [hcl]
  split
  · next heq =>
      obtain ⟨rfl, rfl⟩ := heq
      exact h
  · exact .refl _

theorem Model.Narrows.flushed (s : Model) (seqNum line : Nat) : s.Narrows (s.flushed seqNum line) := by
  intro q a
  rw [s.flushed_objToCl]
  split
  · next h => exact .setBegin (Nat.le_of_lt h.2.2)
  · exact .refl _

theorem Model.Narrows.declineCrash (s : Model) (store : ModelAction) (line : Nat) :
    s.Narrows (s.declineCrash store line) := by
  unfold Model.declineCrash
  split
  · next h => exact .setCacheline (.setBegin (Nat.le_of_lt h))
  · exact .refl s

/-! ## Reads -/

theorem Running.narrows (h : Running read rpid store s rf s₁ rf₁) : s.Narrows s₁ := by
  cases h with
  | shadowed _ => exact .refl s
  | own _ _ => exact .refl s
  | declined _ _ _ _ => exact Model.Narrows.declineCrash s.countCrashPoint store read.line
  | notOffered _ _ _ _ => exact .declineCrash s store read.line

theorem Persist.narrows (h : Persist cfg read store older s rf s₁ rf₁) : s.Narrows s₁ := by
  cases h with
  | kept hmay _ _ => exact .setCacheline (.setBegin (Nat.le_of_lt hmay.1))
  | lost hmay _ _ _ _ => exact .setCacheline (.setEnd hmay)
  | _ => exact .refl s

theorem Visit.narrows (h : Visit cfg read rpid store older s rf s₁ rf₁) : s.Narrows s₁ := by
  cases h with
  | running _ h => exact h.narrows
  | crash _ h h' =>
      have hnarrows := h'.narrows
      rw [h.state] at hnarrows
      exact hnarrows
  | crashed _ h => exact h.narrows

theorem readLoop_narrows (hlen : rf.length = read.size) (hfree : countFree rf ≠ 0)
    (h : (readLoop cfg read rpid ws rf (countFree rf)).Ends s (.ok rf') s') : s.Narrows s' := by
  induction ws generalizing s rf with
  | nil => cases (ends_stop.mp h).1
  | cons store older ih =>
      obtain ⟨s₁, rf₁, hv, hrest⟩ := (ends_readLoop_cons hlen hfree).mp h
      unfold LoopRest at hrest
      split at hrest
      · rw [hrest.2]
        exact hv.narrows
      · next hfull => exact hv.narrows.trans (ih (hv.length_eq.trans hlen) hfull hrest)

theorem buildReadFromSlots_narrows (hpos : 0 < read.size) (hcfg : cfg.memPoison = false)
    (h : (buildReadFromSlots cfg read).Ends s (.ok rf) s') : s.Narrows s' := by
  rw [ends_buildReadFromSlots hpos hcfg, LoopRest] at h
  split at h
  · rw [h.2]
    exact .refl s
  · next hfull => exact readLoop_narrows (length_bypassed s read) hfull h

/-! ## Every effect -/

theorem MemStep.narrows (hcfg : cfg.memPoison = false) (h : MemStep cfg s e s') : s.Narrows s' := by
  cases h with
  | idle h => exact .of_eq (congrArg Memory.objToCl h.memory)
  | yield h => exact .of_eq (congrArg Memory.objToCl h.memory)
  | popClflush t a rest _ _ => exact Model.Narrows.flushed (s.popped t rest).tick s.nextSequenceNum a.line
  | flush t a rest _ _ => exact Model.Narrows.flushed (s.unqueued t rest) a.earliestEffect a.line
  | read action rf _ hpos hread => exact buildReadFromSlots_narrows hpos hcfg hread
  | _ => exact .refl s

theorem Goes.narrows (hcfg : cfg.memPoison = false) (h : Goes (MemStep cfg) P s s') : s.Narrows s' := by
  apply h.preorder Model.Narrows.refl Model.Narrows.trans
  intro a e b _ hstep
  exact hstep.narrows hcfg

/-- What the intervals admit after some effects they have admitted before. -/
theorem Goes.admits (hcfg : cfg.memPoison = false) (h : Goes (MemStep cfg) P s s') {p : ProcessId}
    {line t : Nat} (ht : (s'.objToCl p line).Admits t) : (s.objToCl p line).Admits t :=
  (Goes.narrows hcfg h p line).admits ht

end

end Cxlmc
