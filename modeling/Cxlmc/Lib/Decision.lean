import Mathlib.Data.Set.Basic

/-!
# Decision trees

A computation that asks an outside agent for choices: it is either done, or it names how many
choices there are and goes on with the answer. Nothing here is about the checker; the checker's
`decision_point` is one such question, and a search over executions is a walk over such a tree.

* `outcomes` — the results over all answers.
* `runWith` — the result for one list of answers, so that a tree can be evaluated.
* `Stateful` — state passing with early exit on top of decision trees, with one inversion lemma for
  each way of building a computation.
* `NoChoice` — the computations that ask nothing.
* `Avoids` — the computations that never stop in one way.
-/

/-- A computation that asks for choices before it returns an `α`. -/
inductive Decision (α : Type) where
  | done (a : α)
  | choose (numchoices : Nat) (next : Nat → Decision α)

namespace Decision

variable {α β : Type}

/-- Sequencing: graft `f` onto every leaf. -/
def bind : Decision α → (α → Decision β) → Decision β
  | done a, f => f a
  | choose n k, f => choose n fun c => (k c).bind f

/-- The results over all answers, each answer below the number of choices asked for. -/
def outcomes : Decision α → Set α
  | done a => {a}
  | choose n k => {a | ∃ c, c < n ∧ a ∈ (k c).outcomes}

/-- The result for the given answers, if they are answers to exactly the questions asked. -/
def runWith : Decision α → List Nat → Option α
  | done a, [] => some a
  | done _, _ :: _ => none
  | choose _ _, [] => none
  | choose n k, c :: cs => if c < n then (k c).runWith cs else none

@[simp] theorem bind_done (a : α) (f : α → Decision β) : (done a).bind f = f a := rfl

@[simp] theorem bind_choose (n : Nat) (k : Nat → Decision α) (f : α → Decision β) :
    (choose n k).bind f = choose n fun c => (k c).bind f := rfl

@[simp] theorem mem_outcomes_done {a b : α} : b ∈ (done a).outcomes ↔ b = a := Iff.rfl

@[simp] theorem mem_outcomes_choose {n : Nat} {k : Nat → Decision α} {a : α} :
    a ∈ (choose n k).outcomes ↔ ∃ c, c < n ∧ a ∈ (k c).outcomes := Iff.rfl

@[simp] theorem mem_outcomes_bind {t : Decision α} {f : α → Decision β} {b : β} :
    b ∈ (t.bind f).outcomes ↔ ∃ a, a ∈ t.outcomes ∧ b ∈ (f a).outcomes := by
  induction t with
  | done a => simp
  | choose n k ih =>
      simp only [bind_choose, mem_outcomes_choose, ih]
      constructor
      · rintro ⟨c, hc, a, ha, hb⟩
        exact ⟨a, ⟨c, hc, ha⟩, hb⟩
      · rintro ⟨a, ⟨c, hc, ha⟩, hb⟩
        exact ⟨c, hc, a, ha, hb⟩

/-- An evaluated path is an outcome. -/
theorem mem_outcomes_of_runWith {t : Decision α} {cs : List Nat} {a : α}
    (h : t.runWith cs = some a) : a ∈ t.outcomes := by
  induction t generalizing cs with
  | done b =>
      cases cs with
      | nil => simpa [runWith, eq_comm] using h
      | cons c cs => simp [runWith] at h
  | choose n k ih =>
      cases cs with
      | nil => simp [runWith] at h
      | cons c cs =>
          simp only [runWith] at h
          split at h
          · next hc => exact ⟨c, hc, ih c h⟩
          · simp at h

end Decision

/-! ## State passing with early exit -/

/-- A computation over a state `σ` that asks for choices and may stop early with an `ε`. -/
def Stateful (σ ε α : Type) : Type := σ → Decision (Except ε α × σ)

namespace Stateful

variable {σ ε α β : Type}

instance : Monad (Stateful σ ε) where
  pure a := fun s => .done (.ok a, s)
  bind m f := fun s => (m s).bind fun
    | (.ok a, s') => f a s'
    | (.error e, s') => .done (.error e, s')

/-- The current state. -/
def state : Stateful σ ε σ := fun s => .done (.ok s, s)

theorem bind_state_apply (f : σ → Stateful σ ε β) (s : σ) : (state >>= f) s = f s s := rfl

/-- What comes after a computation that asks nothing and returns. -/
theorem bind_of_done {m : Stateful σ ε α} {f : α → Stateful σ ε β} {a : α} {s s' : σ}
    (h : m s = .done (.ok a, s')) : (m >>= f) s = f a s' := by
  show (m s).bind _ = _
  rw [h]
  rfl

theorem bind_congr_apply {m : Stateful σ ε α} {f f' : α → Stateful σ ε β} {s : σ}
    (hf : ∀ a s, f a s = f' a s) : (m >>= f) s = (m >>= f') s := by
  have heq : f = f' := funext fun a => funext fun s => hf a s
  rw [heq]

/-- A branch on the state, and what comes after it. -/
theorem bind_state_ite {p : σ → Prop} [DecidablePred p] {m n : σ → Stateful σ ε α}
    {f : α → Stateful σ ε β} {s : σ} :
    ((state >>= fun s => if p s then m s else n s) >>= f) s =
      (if p s then m s >>= f else n s >>= f) s := by
  show ((if p s then m s else n s) >>= f) s = _
  split <;> rfl

/-- Change the state. -/
def update (f : σ → σ) : Stateful σ ε Unit := fun s => .done (.ok (), f s)

/-- Leave the computation. -/
def stop (e : ε) : Stateful σ ε α := fun s => .done (.error e, s)

/-- Ask for one of `n` choices. -/
def choose (n : Nat) : Stateful σ ε Nat := fun s => .choose n fun c => .done (.ok c, s)

/-- Leave the computation unless `p` holds. -/
def require (p : Prop) [Decidable p] (e : ε) : Stateful σ ε Unit :=
  if p then pure () else stop e

/-- Go on with `h` where `m` stops with the exit `e`. -/
def onStop [DecidableEq ε] (m : Stateful σ ε α) (e : ε) (h : Stateful σ ε α) : Stateful σ ε α :=
  fun s => (m s).bind fun
    | (.ok a, s') => .done (.ok a, s')
    | (.error e', s') => if e' = e then h s' else .done (.error e', s')

/-- `m` can end with the result `r` and the state `s'` when it is started in `s`. -/
def Ends (m : Stateful σ ε α) (s : σ) (r : Except ε α) (s' : σ) : Prop :=
  (r, s') ∈ (m s).outcomes

/-- An evaluated path is one of the ways in which a computation can end. -/
theorem ends_of_runWith {m : Stateful σ ε α} {s s' : σ} {r : Except ε α} (cs : List Nat)
    (h : (m s).runWith cs = some (r, s')) : m.Ends s r s' :=
  Decision.mem_outcomes_of_runWith h

/-- A path that ends with a value and passes a check is such a way to end. -/
theorem exists_ends_of_runWith (m : Stateful σ ε α) (s : σ) (cs : List Nat) (check : α → σ → Bool)
    (h : ((m s).runWith cs).any (fun x => x.1.toOption.any fun a => check a x.2) = true) :
    ∃ a s', m.Ends s (.ok a) s' ∧ check a s' = true := by
  cases hr : (m s).runWith cs with
  | none => rw [hr] at h; cases h
  | some x =>
      obtain ⟨r, s'⟩ := x
      rw [hr] at h
      cases r with
      | error e => cases h
      | ok a => exact ⟨a, s', ends_of_runWith cs hr, h⟩

section Ends

variable {s s' : σ} {m : Stateful σ ε α}

@[simp] theorem ends_pure {a : α} {r : Except ε α} :
    (pure a : Stateful σ ε α).Ends s r s' ↔ r = .ok a ∧ s' = s := by
  simp only [Ends, pure, Decision.mem_outcomes_done, Prod.mk.injEq]

theorem ends_bind {f : α → Stateful σ ε β} {r : Except ε β} :
    (m >>= f).Ends s r s' ↔
      (∃ a s₁, m.Ends s (.ok a) s₁ ∧ (f a).Ends s₁ r s') ∨
      (∃ e, m.Ends s (.error e) s' ∧ r = .error e) := by
  simp only [Ends, Bind.bind, Decision.mem_outcomes_bind]
  constructor
  · rintro ⟨⟨r₁, s₁⟩, h₁, h₂⟩
    cases r₁ with
    | ok a => exact .inl ⟨a, s₁, h₁, h₂⟩
    | error e =>
        cases Decision.mem_outcomes_done.mp h₂
        exact .inr ⟨e, h₁, rfl⟩
  · rintro (⟨a, s₁, h₁, h₂⟩ | ⟨e, h₁, rfl⟩)
    · exact ⟨(.ok a, s₁), h₁, h₂⟩
    · exact ⟨(.error e, s'), h₁, rfl⟩

/-- A computation that returns has returned from each of its parts. -/
theorem ends_bind_ok {f : α → Stateful σ ε β} {b : β} :
    (m >>= f).Ends s (.ok b) s' ↔ ∃ a s₁, m.Ends s (.ok a) s₁ ∧ (f a).Ends s₁ (.ok b) s' := by
  simp [ends_bind]

@[simp] theorem ends_state {r : Except ε σ} :
    (state : Stateful σ ε σ).Ends s r s' ↔ r = .ok s ∧ s' = s := by
  simp only [Ends, state, Decision.mem_outcomes_done, Prod.mk.injEq]

@[simp] theorem ends_update {f : σ → σ} {r : Except ε Unit} :
    (update f : Stateful σ ε Unit).Ends s r s' ↔ r = .ok () ∧ s' = f s := by
  simp only [Ends, update, Decision.mem_outcomes_done, Prod.mk.injEq]

@[simp] theorem ends_stop {e : ε} {r : Except ε α} :
    (stop e : Stateful σ ε α).Ends s r s' ↔ r = .error e ∧ s' = s := by
  simp only [Ends, stop, Decision.mem_outcomes_done, Prod.mk.injEq]

@[simp] theorem ends_choose {n : Nat} {r : Except ε Nat} :
    (choose n : Stateful σ ε Nat).Ends s r s' ↔ ∃ c, c < n ∧ r = .ok c ∧ s' = s := by
  simp only [Ends, choose, Decision.mem_outcomes_choose, Decision.mem_outcomes_done,
    Prod.mk.injEq]

@[simp] theorem ends_require {p : Prop} [Decidable p] {e : ε} {r : Except ε Unit} :
    (require p e : Stateful σ ε Unit).Ends s r s' ↔
      s' = s ∧ ((p ∧ r = .ok ()) ∨ (¬ p ∧ r = .error e)) := by
  unfold require
  split <;> simp_all [and_comm]

/-- A check, and what comes after it. -/
theorem ends_require_bind {p : Prop} [Decidable p] {e : ε} {f : Unit → Stateful σ ε β} {r : Except ε β} :
    ((require p e : Stateful σ ε Unit) >>= f).Ends s r s' ↔
      p ∧ (f ()).Ends s r s' ∨ ¬ p ∧ r = .error e ∧ s' = s := by
  unfold require
  split
  · next hp =>
      show (f ()).Ends s r s' ↔ _
      simp only [hp, true_and, not_true_eq_false, false_and, or_false]
  · next hp =>
      show (stop e : Stateful σ ε β).Ends s r s' ↔ _
      simp only [hp, ends_stop, false_and, not_false_eq_true, true_and, false_or]

theorem ends_state_bind {f : σ → Stateful σ ε β} {r : Except ε β} :
    ((state : Stateful σ ε σ) >>= f).Ends s r s' ↔ (f s).Ends s r s' := Iff.rfl

theorem ends_update_bind {g : σ → σ} {f : Unit → Stateful σ ε β} {r : Except ε β} :
    ((update g : Stateful σ ε Unit) >>= f).Ends s r s' ↔ (f ()).Ends (g s) r s' := Iff.rfl

theorem ends_pure_bind {a : α} {f : α → Stateful σ ε β} {r : Except ε β} :
    ((pure a : Stateful σ ε α) >>= f).Ends s r s' ↔ (f a).Ends s r s' := Iff.rfl

theorem ends_choose_bind {n : Nat} {f : Nat → Stateful σ ε β} {r : Except ε β} :
    ((choose n : Stateful σ ε Nat) >>= f).Ends s r s' ↔ ∃ c, c < n ∧ (f c).Ends s r s' := Iff.rfl

theorem ends_bind_assoc {γ : Type} {f : α → Stateful σ ε β} {g : β → Stateful σ ε γ}
    {r : Except ε γ} :
    ((m >>= f) >>= g).Ends s r s' ↔ (m >>= fun a => f a >>= g).Ends s r s' := by
  simp only [ends_bind]
  constructor
  · rintro (⟨b, s₂, ⟨a, s₁, h₁, h₂⟩ | ⟨e, _, he⟩, h₃⟩ | ⟨e, ⟨a, s₁, h₁, h₂⟩ | ⟨e', h₁, he⟩, rfl⟩)
    · exact .inl ⟨a, s₁, h₁, .inl ⟨b, s₂, h₂, h₃⟩⟩
    · cases he
    · exact .inl ⟨a, s₁, h₁, .inr ⟨e, h₂, rfl⟩⟩
    · cases he
      exact .inr ⟨_, h₁, rfl⟩
  · rintro (⟨a, s₁, h₁, ⟨b, s₂, h₂, h₃⟩ | ⟨e, h₂, rfl⟩⟩ | ⟨e, h₁, rfl⟩)
    · exact .inl ⟨b, s₂, .inl ⟨a, s₁, h₁, h₂⟩, h₃⟩
    · exact .inr ⟨e, .inl ⟨a, s₁, h₁, h₂⟩, rfl⟩
    · exact .inr ⟨e, .inr ⟨e, h₁, rfl⟩, rfl⟩

/-- A choice of two, looked at as whether the first was taken. -/
theorem ends_choose_two {f : Bool → Stateful σ ε β} {r : Except ε β} :
    ((choose 2 : Stateful σ ε Nat) >>= fun c => pure (decide (c = 0)) >>= f).Ends s r s' ↔
      (f true).Ends s r s' ∨ (f false).Ends s r s' := by
  rw [ends_choose_bind]
  constructor
  · rintro ⟨c, hc, h⟩
    rcases Nat.lt_succ_iff_lt_or_eq.mp hc with h' | rfl
    · obtain rfl : c = 0 := by omega
      exact .inl h
    · exact .inr h
  · rintro (h | h)
    · exact ⟨0, by decide, h⟩
    · exact ⟨1, by decide, h⟩

theorem ends_onStop [DecidableEq ε] {e : ε} {h : Stateful σ ε α} {r : Except ε α} :
    (m.onStop e h).Ends s r s' ↔
      (m.Ends s r s' ∧ r ≠ .error e) ∨ ∃ s₁, m.Ends s (.error e) s₁ ∧ h.Ends s₁ r s' := by
  simp only [Ends, onStop, Decision.mem_outcomes_bind]
  constructor
  · rintro ⟨⟨r₁, s₁⟩, h₁, h₂⟩
    cases r₁ with
    | ok a =>
        cases Decision.mem_outcomes_done.mp h₂
        exact .inl ⟨h₁, by simp⟩
    | error e' =>
        simp only at h₂
        split at h₂
        · next he => exact .inr ⟨s₁, he ▸ h₁, h₂⟩
        · next he =>
            cases Decision.mem_outcomes_done.mp h₂
            exact .inl ⟨h₁, by simpa using he⟩
  · rintro (⟨h₁, hr⟩ | ⟨s₁, h₁, h₂⟩)
    · refine ⟨(r, s'), h₁, ?_⟩
      cases r with
      | ok a => rfl
      | error e' =>
          have : e' ≠ e := by simpa using hr
          simp [this]
    · exact ⟨(.error e, s₁), h₁, by simpa using h₂⟩

end Ends

/-! ## Computations without choices -/

/-- `m` asks for no choice when it is started in `s`. -/
def NoChoice (m : Stateful σ ε α) (s : σ) : Prop := ∃ x, m s = .done x

namespace NoChoice

variable {m : Stateful σ ε α} {f : α → Stateful σ ε β} {s s' : σ}

/-- There is only one way for it to end. -/
theorem eq_done (h : NoChoice m s) {r : Except ε α} (hm : m.Ends s r s') : m s = .done (r, s') := by
  obtain ⟨x, hx⟩ := h
  rw [Ends, hx, Decision.mem_outcomes_done] at hm
  rw [hx, hm]

theorem ends (h : NoChoice m s) : ∃ r s', m.Ends s r s' := by
  obtain ⟨⟨r, s'⟩, hx⟩ := h
  refine ⟨r, s', ?_⟩
  rw [Ends, hx, Decision.mem_outcomes_done]

protected theorem pure (a : α) : NoChoice (pure a : Stateful σ ε α) s := ⟨_, rfl⟩

protected theorem stop (e : ε) : NoChoice (stop e : Stateful σ ε α) s := ⟨_, rfl⟩

protected theorem bind (hm : NoChoice m s)
    (hf : ∀ a s₁, m.Ends s (.ok a) s₁ → NoChoice (f a) s₁) : NoChoice (m >>= f) s := by
  obtain ⟨⟨r, s₁⟩, hx⟩ := hm
  have hends : m.Ends s r s₁ := by
    rw [Ends, hx, Decision.mem_outcomes_done]
  have hbind : (m >>= f) s = ((m s).bind fun
    | (.ok a, s') => f a s'
    | (.error e, s') => .done (.error e, s')) := rfl
  rw [NoChoice, hbind, hx, Decision.bind_done]
  cases r with
  | ok a => exact hf a s₁ hends
  | error e => exact ⟨_, rfl⟩

theorem state_bind {f : σ → Stateful σ ε β} (h : NoChoice (f s) s) :
    NoChoice ((state : Stateful σ ε σ) >>= f) s :=
  h

theorem update_bind {g : σ → σ} {f : Unit → Stateful σ ε β} (h : NoChoice (f ()) (g s)) :
    NoChoice ((Stateful.update g : Stateful σ ε Unit) >>= f) s :=
  h

theorem pure_bind {a : α} (h : NoChoice (f a) s) :
    NoChoice ((Pure.pure a : Stateful σ ε α) >>= f) s :=
  h

protected theorem require (p : Prop) [Decidable p] (e : ε) :
    NoChoice (Stateful.require p e : Stateful σ ε Unit) s := by
  unfold Stateful.require
  split
  · exact .pure ()
  · exact .stop e

end NoChoice

/-! ## Computations that never end in one way -/

/-- No path of `m` stops with `e`. -/
def Avoids (e : ε) (m : Stateful σ ε α) : Prop := ∀ s s', ¬ m.Ends s (.error e) s'

namespace Avoids

variable {e : ε} {m : Stateful σ ε α}

protected theorem pure (a : α) : Avoids e (pure a : Stateful σ ε α) := by
  intro s s' h
  cases (ends_pure.mp h).1

protected theorem stop {e' : ε} (h : e' ≠ e) : Avoids e (stop e' : Stateful σ ε α) := by
  intro s s' hends
  have he := (ends_stop.mp hends).1
  cases he
  exact h rfl

protected theorem update (g : σ → σ) : Avoids e (Stateful.update g : Stateful σ ε Unit) := by
  intro s s' h
  cases (ends_update.mp h).1

protected theorem require (p : Prop) [Decidable p] {e' : ε} (h : e' ≠ e) :
    Avoids e (Stateful.require p e' : Stateful σ ε Unit) := by
  unfold Stateful.require
  split
  · exact .pure ()
  · exact .stop h

protected theorem bind {f : α → Stateful σ ε β} (hm : Avoids e m) (hf : ∀ a, Avoids e (f a)) :
    Avoids e (m >>= f) := by
  intro s s' h
  rcases ends_bind.mp h with ⟨a, s₁, _, h₂⟩ | ⟨e', h₁, he⟩
  · exact hf a s₁ s' h₂
  · cases he
    exact hm s s' h₁

theorem state_bind {f : σ → Stateful σ ε β} (hf : ∀ s, Avoids e (f s)) :
    Avoids e ((state : Stateful σ ε σ) >>= f) := by
  intro s s' h
  exact hf s s s' h

theorem choose_bind {n : Nat} {f : Nat → Stateful σ ε β} (hf : ∀ c, Avoids e (f c)) :
    Avoids e ((choose n : Stateful σ ε Nat) >>= f) := by
  intro s s' h
  obtain ⟨c, _, hc⟩ := ends_choose_bind.mp h
  exact hf c s s' hc

end Avoids

end Stateful
