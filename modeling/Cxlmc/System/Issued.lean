import Cxlmc.Model.System
import Cxlmc.Effect.Execute

/-!
# The actions that threads are suspended with

`Issued` are the actions that the interface hands to `Model::action`, with what is left to do after
each of them. A suspended thread holds one of them (`Context.Holds`).
-/

namespace Cxlmc

open Stateful

/-- The actions of thread `tid`, with what is left to do after them. -/
inductive Issued (tid : ThreadId) : ModelAction → Ret → Prop where
  | call {c : Call} {req : Request} (h : c.request tid = some req) : Issued tid req.action req.ret
  | secondHalf {a : ModelAction} {r : Rmw} (old : Nat) (h : Issued tid a (.rmw r)) :
      Issued tid (r.secondHalf tid old).1 (r.secondHalf tid old).2
  | lock (m : MutexId) : Issued tid { tid := tid, type := .atomicLock, location := m } .toUser

namespace Issued

variable {tid : ThreadId} {a : ModelAction} {ret : Ret}

theorem width_pos (w : Width) : 0 < w.bytes := by
  cases w <;> decide

/-- What every action of the interface has. -/
theorem tid_eq (h : Issued tid a ret) : a.tid = tid ∧ a.tick = 0 ∧ a.earliestEffect = 0 := by
  cases h with
  | @call c req h =>
      cases c <;> simp only [Call.request, Option.some.injEq, reduceCtorEq] at h <;>
        subst h <;> exact ⟨rfl, rfl, rfl⟩
  | secondHalf old _ =>
      unfold Rmw.secondHalf
      split <;> exact ⟨rfl, rfl, rfl⟩
  | lock m => exact ⟨rfl, rfl, rfl⟩

/-- Only the first half of a read-modify-write has a second half. -/
theorem rmwr {r : Rmw} (h : Issued tid a (.rmw r)) :
    a.type = .atomicRmwr ∧ a.location = r.addr ∧ a.size = r.size ∧ 0 < r.size := by
  generalize hret : Ret.rmw r = ret at h
  cases h with
  | @call c req h =>
      cases c <;> simp only [Call.request, Option.some.injEq, reduceCtorEq] at h <;>
        subst h <;>
        simp only [Request.loadOf, Request.storeOf, Ret.rmw.injEq, reduceCtorEq] at hret
      subst hret
      exact ⟨rfl, rfl, rfl, width_pos _⟩
  | secondHalf old _ =>
      unfold Rmw.secondHalf at hret
      split at hret
      · cases hret
      · dsimp only at hret
        split at hret <;> cases hret
  | lock m => cases hret

theorem secondHalf_size (r : Rmw) (old : Nat) : (r.secondHalf tid old).1.size = r.size := by
  unfold Rmw.secondHalf
  split <;> rfl

theorem size_pos (h : Issued tid a ret) (ha : a.isRead = true ∨ a.isWrite = true) : 0 < a.size := by
  cases h with
  | @call c req h =>
      cases c <;> simp only [Call.request, Option.some.injEq, reduceCtorEq] at h <;>
        subst h <;>
          first | exact width_pos _ | simp [ModelAction.isRead, ModelAction.isWrite, ModelAction.plain] at ha
  | secondHalf old h =>
      rw [secondHalf_size]
      exact h.rmwr.2.2.2
  | lock m => exact Nat.one_pos

/-- What is written to the mapping itself are the bytes of the store. -/
theorem rawStore {loc size val : Nat} (h : Issued tid a (.rawStore loc size val)) :
    a.isWrite = true ∧ a.location = loc ∧ a.size = size ∧ a.value = val := by
  generalize hret : Ret.rawStore loc size val = ret at h
  cases h with
  | @call c req h =>
      cases c <;> simp only [Call.request, Option.some.injEq, reduceCtorEq] at h <;>
        subst h <;>
        simp only [Request.loadOf, Request.storeOf, Ret.rawStore.injEq, reduceCtorEq] at hret
      all_goals
        obtain ⟨rfl, rfl, rfl⟩ := hret
        exact ⟨rfl, rfl, rfl, rfl⟩
  | secondHalf old _ =>
      unfold Rmw.secondHalf at hret ⊢
      split at hret
      · cases hret
      · dsimp only at hret ⊢
        split at hret
        · simp only [Ret.rawStore.injEq] at hret
          obtain ⟨rfl, rfl, rfl⟩ := hret
          exact ⟨rfl, rfl, rfl, rfl⟩
        · cases hret
  | lock m => cases hret

/-- A condition wait locks its mutex again. -/
theorem wait (h : Issued tid a ret) (htype : a.type = .atomicWait) : ret = .lock a.value := by
  cases h with
  | @call c req h =>
      cases c <;> simp only [Call.request, Option.some.injEq, reduceCtorEq] at h <;>
        subst h <;>
        simp only [Request.loadOf, Request.storeOf, ModelAction.plain, reduceCtorEq] at htype ⊢
  | secondHalf old _ =>
      unfold Rmw.secondHalf at htype
      split at htype <;> cases htype
  | lock m => cases htype

/-- Only the condition waits lock a mutex afterwards. -/
theorem type_of_lock {m : MutexId} (h : Issued tid a (.lock m)) :
    a.type = .atomicWait ∨ a.type = .atomicTimedwait := by
  generalize hret : Ret.lock m = ret at h
  cases h with
  | @call c req h =>
      cases c <;> simp only [Call.request, Option.some.injEq, reduceCtorEq] at h <;>
        subst h <;>
        simp only [Request.loadOf, Request.storeOf, reduceCtorEq, true_or, or_true] at hret ⊢
  | secondHalf old _ =>
      unfold Rmw.secondHalf at hret
      split at hret
      · cases hret
      · dsimp only at hret
        split at hret <;> cases hret
  | lock m => cases hret

end Issued

/-- A suspended thread holds an action of its own. -/
def Context.Holds (t : ThreadId) : Context → Prop
  | .ready a ret => Issued t a ret
  | .waiting a ret => a.isSync = true ∧ Issued t a ret
  | .popping _ _ _ ret => ∃ a, Issued t a ret
  | .user | .shutdown | .exited => True

/-- Where the threads are suspended. -/
structure Model.Seated (s : Model) : Prop where
  active : s.activeThread < s.threadCount
  holds : ∀ t, (s.contextOf t).Holds t

/-- The threads are suspended at their places, and no entry of their buffers has a clock. -/
structure Model.Placed (s : Model) : Prop extends Seated s where
  unclocked : ∀ t, s.Unclocked t

/-- `pop_from_store_buffer` where `process_store_buffer` calls it. -/
theorem Model.Placed.pop_does (cfg : Config) {s : Model} (h : s.Placed) (c : Context)
    (mem : ThreadId) :
    Performs cfg (Effect.Drains mem) (popFromStoreBuffer mem) (s.setContext s.threadId c) :=
  popFromStoreBuffer_does cfg (s := s.setContext s.threadId c) (h.unclocked mem)

end Cxlmc
