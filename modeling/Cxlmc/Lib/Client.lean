import Mathlib.Data.List.Induction

/-!
# Code that uses an object through its operations

A client calls operations of an object and goes on with what they reply. It can be run on an implementation,
whose operations may fail, and on a specification, whose operations are functions. Where each operation of the
implementation does what the specification says (`Implements`), no client can tell them apart, whatever it calls
next after what it has seen (`Implements.run`).

Where only the calls and their replies are known, they can be compared with the specification too (`Replies`),
and a client that follows such a log computes what it computes there (`Client.follow_eval`).

* `Client`, `Client.run`, `Client.eval` — clients and the two ways to run them.
* `Client.Within` — a client that only makes calls of a kind.
* `Implements` — the relation between the two objects that every operation keeps.
* `Replies`, `afterCalls` — a log of calls and what the specification says to it.
* `Client.follow` — a client that makes the calls of a log.
-/

namespace Cxlmc

/-- A client with calls `C`, replies `R` and a result. -/
inductive Client (C R α : Type) where
  | done (a : α)
  | call (c : C) (next : R → Client C R α)

namespace Client

variable {C R σ τ α β : Type}

/-- A client, and then one that takes its result. -/
def bind : Client C R α → (α → Client C R β) → Client C R β
  | done a, k => k a
  | call c next, k => call c fun r => (next r).bind k

instance : Monad (Client C R) where
  pure := done
  bind := bind

/-- A single call. -/
def op (c : C) : Client C R R := call c done

/-- The client on an implementation; `none` where an operation fails. -/
def run (impl : C → σ → Option (σ × R)) : Client C R α → σ → Option (σ × α)
  | done a, s => some (s, a)
  | call c next, s => (impl c s).bind fun x => (next x.2).run impl x.1

/-- The client on a specification. -/
def eval (spec : C → τ → τ × R) : Client C R α → τ → τ × α
  | done a, t => (t, a)
  | call c next, t => (next (spec c t).2).eval spec (spec c t).1

/-- All calls of the client are of a kind. -/
def Within (P : C → Prop) : Client C R α → Prop
  | done _ => True
  | call c next => P c ∧ ∀ r, (next r).Within P

variable {P : C → Prop} {impl : C → σ → Option (σ × R)} {spec : C → τ → τ × R} {m : Client C R α}
  {k : α → Client C R β}

@[simp] theorem eval_pure (a : α) (t : τ) : (pure a : Client C R α).eval spec t = (t, a) := rfl

@[simp] theorem eval_op (c : C) (t : τ) : (op c : Client C R R).eval spec t = spec c t := rfl

@[simp] theorem eval_bind (m : Client C R α) (k : α → Client C R β) (t : τ) :
    (m >>= k).eval spec t = (k (m.eval spec t).2).eval spec (m.eval spec t).1 := by
  induction m generalizing t with
  | done a => rfl
  | call c next ih => exact ih (spec c t).2 (spec c t).1

theorem Within.op {c : C} (hc : P c) : (op c : Client C R R).Within P := ⟨hc, fun _ => trivial⟩

theorem Within.bind (hm : m.Within P) (hk : ∀ a, (k a).Within P) : (m >>= k).Within P := by
  induction m with
  | done a => exact hk a
  | call c next ih => exact ⟨hm.1, fun r => ih r (hm.2 r)⟩

end Client

section

variable {C R σ τ α : Type} {P : C → Prop} {Rel : σ → τ → Prop} {impl : C → σ → Option (σ × R)}
  {spec : C → τ → τ × R} {s : σ} {t : τ}

/-- Each operation of a kind succeeds on the implementation, replies what the specification replies, and
keeps the relation between the two. -/
structure Implements (P : C → Prop) (Rel : σ → τ → Prop) (impl : C → σ → Option (σ × R))
    (spec : C → τ → τ × R) : Prop where
  step : ∀ {c : C} {s : σ} {t : τ}, P c → Rel s t →
    ∃ s', impl c s = some (s', (spec c t).2) ∧ Rel s' (spec c t).1

/-- So does every client that makes only calls of this kind. -/
theorem Implements.run (h : Implements P Rel impl spec) {m : Client C R α} (hm : m.Within P) (hrel : Rel s t) :
    ∃ s', m.run impl s = some (s', (m.eval spec t).2) ∧ Rel s' (m.eval spec t).1 := by
  induction m generalizing s t with
  | done a => exact ⟨s, rfl, hrel⟩
  | call c next ih =>
      obtain ⟨hc, hnext⟩ := hm
      obtain ⟨s₁, hstep, hrel₁⟩ := h.step hc hrel
      obtain ⟨s', hrun, hrel'⟩ := ih (spec c t).2 (hnext _) hrel₁
      refine ⟨s', ?_, hrel'⟩
      rw [Client.run, hstep]
      exact hrun

end

/-! ## Logs of calls and replies -/

/-- The specification replies to each call of a log what is logged. -/
def Replies (spec : C → τ → τ × R) : List (C × R) → τ → Prop
  | [], _ => True
  | (c, r) :: log, t => (spec c t).2 = r ∧ Replies spec log (spec c t).1

/-- The object after the calls of a log. -/
def afterCalls (spec : C → τ → τ × R) (log : List (C × R)) (t : τ) : τ :=
  log.foldl (fun t x => (spec x.1 t).1) t

section

variable {C R τ α β : Type} {spec : C → τ → τ × R} {log log' : List (C × R)} {t : τ}

@[simp] theorem afterCalls_nil (t : τ) : afterCalls spec [] t = t := rfl

@[simp] theorem afterCalls_cons (c : C) (r : R) (log : List (C × R)) (t : τ) :
    afterCalls spec ((c, r) :: log) t = afterCalls spec log (spec c t).1 := rfl

@[simp] theorem afterCalls_append (log log' : List (C × R)) (t : τ) :
    afterCalls spec (log ++ log') t = afterCalls spec log' (afterCalls spec log t) := List.foldl_append

theorem replies_append :
    Replies spec (log ++ log') t ↔ Replies spec log t ∧ Replies spec log' (afterCalls spec log t) := by
  induction log generalizing t with
  | nil => simp [Replies]
  | cons x log ih =>
      obtain ⟨c, r⟩ := x
      simp [Replies, ih, and_assoc]

/-- A log that is collected from a history, where the object is known after each part of it. -/
theorem replies_flatMap {f : α → List (C × R)} {steps : List α} {m : List α → τ}
    (h : ∀ pre x post, steps = pre ++ x :: post →
      Replies spec (f x) (m pre) ∧ m (pre ++ [x]) = afterCalls spec (f x) (m pre)) :
    Replies spec (steps.flatMap f) (m []) ∧ m steps = afterCalls spec (steps.flatMap f) (m []) := by
  induction steps using List.reverseRecOn with
  | nil => exact ⟨trivial, rfl⟩
  | append_singleton steps x ih =>
      obtain ⟨hreplies, hafter⟩ := ih fun pre y post heq => h pre y (post ++ [x]) (by simp [heq])
      obtain ⟨hlast, hm⟩ := h steps x [] rfl
      rw [hafter] at hlast hm
      rw [List.flatMap_append, List.flatMap_singleton]
      refine ⟨replies_append.mpr ⟨hreplies, hlast⟩, ?_⟩
      rw [hm, afterCalls_append]

/-- What the client ends with if it makes the calls of the log, in this order, and is told the replies there. -/
def Client.follow [DecidableEq C] : Client C R α → List (C × R) → Option α
  | done a, [] => some a
  | call c next, (c', r) :: log => if c = c' then (next r).follow log else none
  | _, _ => none

/-- A client that is told what the specification replies computes what it computes there. -/
theorem Client.follow_eval [DecidableEq C] {m : Client C R α} {a : α} (h : m.follow log = some a)
    (hr : Replies spec log t) : m.eval spec t = (afterCalls spec log t, a) := by
  induction m generalizing log t with
  | done b =>
      cases log with
      | nil =>
          rw [Client.eval, Option.some.inj h]
          rfl
      | cons x log => cases h
  | call c next ih =>
      cases log with
      | nil => cases h
      | cons x log =>
          obtain ⟨c', r⟩ := x
          obtain ⟨hreply, hrest⟩ := hr
          rw [Client.follow] at h
          split at h
          · next heq =>
              subst heq
              rw [Client.eval, hreply]
              exact ih r h hrest
          · cases h

end

end Cxlmc
