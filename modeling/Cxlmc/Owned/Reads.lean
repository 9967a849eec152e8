import Cxlmc.Persistence.Durable
import Cxlmc.Read.Coherence

/-!
# The first store that answers a byte

A read looks at the stores from the newest to the oldest. Where the first one that wants a slot cannot be
lost, the slot is filled from it, whatever crashes during the read and whatever is decided for the others
(`MemStep.slot_first`). `byteOf_read` says the same for a read without a crash.
-/

namespace Cxlmc

open Stateful Fill

namespace Model

/-- No crash takes the store from a read that goes from `s` to `s'`: its process is running after it, or
the store has persisted before it. -/
def Holds (s s' : Model) (line : Nat) (w : ModelAction) : Prop :=
  s'.isCrashed (s'.getProcessId w) = false ∨ w.line = line ∧ s.Durable w

end Model

section

variable {cfg : Config} {read : ModelAction} {rpid : ProcessId} {store w : ModelAction}
  {older ws : List ModelAction} {s s' s₁ : Model} {rf rf₁ rf' : Slots} {i : Nat}

/-- A store that cannot be lost fills all slots it wants. -/
theorem Visit.of_holds (hlater : s₁.Observes rpid s') (hholds : s.Holds s' read.line store)
    (h : Visit cfg read rpid store older s rf s₁ rf₁) : rf₁ = fill (wants read) store rf := by
  rcases hholds with hlive | ⟨hline, hdurable⟩
  · apply h.of_uncrashed
    rw [hlater.getProcessId_eq, Bool.eq_false_iff] at hlive
    exact Bool.eq_false_iff.mpr fun hcrashed => hlive (hlater.isCrashed hcrashed)
  · exact h.of_durable hline hdurable

theorem Visit.holds (hholds : s.Holds s' read.line w) (h : Visit cfg read rpid store older s rf s₁ rf₁) :
    s₁.Holds s' read.line w := by
  refine hholds.imp_right ?_
  rintro ⟨hline, hdurable⟩
  refine ⟨hline, ?_⟩
  unfold Model.Durable at hdurable ⊢
  rw [h.observes.getProcessId_eq]
  exact Nat.le_trans hdurable h.getBegin_le

/-- A round leaves a slot free that its store does not want. -/
theorem Visit.slot_free (h : Visit cfg read rpid store older s rf s₁ rf₁) (hfree : rf[i]? = some none)
    (hnot : wants read store i = false) : rf₁[i]? = some none := by
  rcases h.slots with rfl | rfl
  · rw [getElem?_fill, hfree]
    simp [hnot]
  · exact hfree

/-- The loop fills a free slot from the first store that wants it, if this one cannot be lost. -/
theorem readLoop_first (hlen : rf.length = read.size) (hfree : countFree rf ≠ 0) (hslot : rf[i]? = some none)
    (hholds : ∀ w, ws.find? (fun w => wants read w i) = some w → s.Holds s' read.line w)
    (h : (readLoop cfg read rpid ws rf (countFree rf)).Ends s (.ok rf') s') :
    ∃ w, ws.find? (fun w => wants read w i) = some w ∧ rf'[i]? = some (some w) := by
  induction ws generalizing s rf with
  | nil => cases (ends_stop.mp h).1
  | cons store older ih =>
      obtain ⟨s₁, rf₁, hv, hrest⟩ := (ends_readLoop_cons hlen hfree).mp h
      have hlen₁ := hv.length_eq.trans hlen
      have hlater : s₁.Observes rpid s' := by
        unfold LoopRest at hrest
        split at hrest
        · rw [hrest.2]
          exact .refl _ _
        · next hfull => exact readLoop_observes hlen₁ hfull hrest
      cases hwants : wants read store i with
      | true =>
          have hfirst : (store :: older).find? (fun w => wants read w i) = some store :=
            List.find?_cons_of_pos hwants
          refine ⟨store, hfirst, ?_⟩
          have hfilled : rf₁[i]? = some (some store) := by
            rw [hv.of_holds hlater (hholds store hfirst), getElem?_fill, hslot]
            simp [hwants]
          unfold LoopRest at hrest
          split at hrest
          · cases hrest.1
            exact hfilled
          · next hfull => exact readLoop_filled hlen₁ hfull hrest hfilled
      | false =>
          have hrestfind : (store :: older).find? (fun w => wants read w i) =
              older.find? (fun w => wants read w i) := List.find?_cons_of_neg (by simp [hwants])
          rw [hrestfind] at hholds ⊢
          have hslot₁ := hv.slot_free hslot hwants
          have hfree₁ : countFree rf₁ ≠ 0 := by
            rw [Ne, countFree_eq_zero]
            exact fun hfull => hfull _ (List.mem_of_getElem? hslot₁) rfl
          rw [LoopRest, if_neg hfree₁] at hrest
          exact ih hlen₁ hfree₁ hslot₁ (fun w hw => hv.holds (hholds w hw)) hrest

/-- Each slot of a read is filled from the first candidate that wants it, if this one cannot be lost. The
stores of the own buffer never can. -/
theorem MemStep.slot_first (hcfg : cfg.memPoison = false) (h : MemStep cfg s (.read read rf) s')
    (hi : i < read.size)
    (hholds : ∀ w, (s.objToWr read.word).reverse.find? (fun w => wants read w i) = some w →
      s.Holds s' read.line w) :
    ∃ w, (s.candidates read).find? (fun w => wants read w i) = some w ∧ rf[i]? = some (some w) := by
  have hslot : (bypassed s read)[i]? = some (((s.threadMemory read.tid).storeBuffer.reverse.filter
      fun w => w.type = .nonatomicStore).find? fun w => wants read w i) := by
    rw [bypassed, getElem?_fillAll, Slots.free, List.getElem?_replicate_of_lt hi]
    rfl
  rw [Model.candidates, List.find?_append]
  cases h with
  | read _ _ _ hpos hends =>
      rw [ends_buildReadFromSlots hpos hcfg, LoopRest] at hends
      split at hends
      · next hfull =>
          cases hends.1
          obtain ⟨w, hw⟩ := Option.ne_none_iff_exists'.mp
            (countFree_eq_zero.mp hfull _ (List.mem_of_getElem? hslot))
          rw [hw] at hslot
          rw [hw]
          exact ⟨w, rfl, hslot⟩
      · next hfull =>
          cases hfind : ((s.threadMemory read.tid).storeBuffer.reverse.filter
              fun w => w.type = .nonatomicStore).find? fun w => wants read w i with
          | some w =>
              rw [hfind] at hslot
              exact ⟨w, rfl, readLoop_filled (length_bypassed s read) hfull hends hslot⟩
          | none =>
              rw [hfind] at hslot
              exact readLoop_first (length_bypassed s read) hfull hslot hholds hends

theorem readLoop_length (hlen : rf.length = read.size) (hfree : countFree rf ≠ 0)
    (h : (readLoop cfg read rpid ws rf (countFree rf)).Ends s (.ok rf') s') : rf'.length = read.size := by
  induction ws generalizing s rf with
  | nil => cases (ends_stop.mp h).1
  | cons store older ih =>
      obtain ⟨s₁, rf₁, hv, hrest⟩ := (ends_readLoop_cons hlen hfree).mp h
      have hlen₁ := hv.length_eq.trans hlen
      unfold LoopRest at hrest
      split at hrest
      · cases hrest.1
        exact hlen₁
      · next hfull => exact ih hlen₁ hfull hrest

/-- A read ends with a slot for each of its bytes. -/
theorem MemStep.length_slots (hcfg : cfg.memPoison = false) (h : MemStep cfg s (.read read rf) s') :
    rf.length = read.size := by
  cases h with
  | read _ _ _ hpos hends =>
      rw [ends_buildReadFromSlots hpos hcfg, LoopRest] at hends
      split at hends
      · cases hends.1
        exact length_bypassed s read
      · next hfull => exact readLoop_length (length_bypassed s read) hfull hends

end

end Cxlmc
