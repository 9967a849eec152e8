import Cxlmc.Lib.Decision
import Cxlmc.Lib.Choices

/-!
# Decision trees as programs of choices

A decision tree asks one question after the other, so it is a program that is told the answers given
so far and names the next number of choices. Its leaves are the answers for which the tree has a
result.

* `answers` — the leaves in order, with their results.
* `Asks` — what is asked, how it stops and what it keeps; with one rule for each way of building a
  computation.
* `program` — the tree as a program of choices: the same leaves, and finite.
-/

namespace Decision

variable {α β : Type}

/-! ## Evaluation -/

theorem mem_outcomes_iff {t : Decision α} {a : α} : a ∈ t.outcomes ↔ ∃ cs, t.runWith cs = some a := by
  constructor
  · intro h
    induction t with
    | done b => exact ⟨[], by simpa [runWith] using h.symm⟩
    | choose n k ih =>
        obtain ⟨c, hc, ha⟩ := h
        obtain ⟨cs, hcs⟩ := ih c ha
        exact ⟨c :: cs, by simpa [runWith, hc] using hcs⟩
  · intro h
    obtain ⟨cs, hcs⟩ := h
    exact mem_outcomes_of_runWith hcs

/-- The answers for which there is a result, in order, with the results. -/
def answers : Decision α → List (List Nat × α)
  | done a => [([], a)]
  | choose n k => (List.range n).flatMap fun c => (k c).answers.map fun x => (c :: x.1, x.2)

theorem mem_answers_iff {t : Decision α} {cs : List Nat} {a : α} :
    (cs, a) ∈ t.answers ↔ t.runWith cs = some a := by
  induction t generalizing cs with
  | done b => cases cs <;> simp [answers, runWith, eq_comm]
  | choose n k ih =>
      simp only [answers, List.mem_flatMap, List.mem_range, List.mem_map, Prod.mk.injEq, Prod.exists]
      cases cs with
      | nil => simp [runWith]
      | cons c cs =>
          rw [runWith]
          constructor
          · intro h
            obtain ⟨d, hd, ds, b, hb, hcons, hab⟩ := h
            obtain ⟨rfl, rfl⟩ := List.cons.inj hcons
            subst hab
            rw [if_pos hd]
            exact (ih d).mp hb
          · intro h
            split at h
            · next hc => exact ⟨c, hc, cs, a, (ih c).mpr h, rfl, rfl⟩
            · cases h

/-- The answers are in lexicographic order. -/
theorem answers_pairwise (t : Decision α) : t.answers.Pairwise fun x y => x.1 < y.1 := by
  induction t with
  | done a => exact List.pairwise_singleton _ _
  | choose n k ih =>
      rw [answers, List.pairwise_flatMap]
      constructor
      · intro c _
        rw [List.pairwise_map]
        apply (ih c).imp
        intro x y hxy
        exact List.cons_lt_cons_iff.mpr (.inr ⟨rfl, hxy⟩)
      · apply List.pairwise_lt_range.imp
        intro c d hcd x hx y hy
        obtain ⟨_, _, rfl⟩ := List.mem_map.mp hx
        obtain ⟨_, _, rfl⟩ := List.mem_map.mp hy
        exact List.cons_lt_cons_iff.mpr (.inl hcd)

/-! ## What is asked -/

/-- Every question offers a number of choices in `p`, and every result is in `q`. -/
def Asks (p : Nat → Prop) (q : α → Prop) : Decision α → Prop
  | done a => q a
  | choose n k => p n ∧ ∀ c, (k c).Asks p q

variable {p p' : Nat → Prop} {q q' : α → Prop}

theorem Asks.mono (hp : ∀ n, p n → p' n) (hq : ∀ a, q a → q' a) {t : Decision α} (h : t.Asks p q) :
    t.Asks p' q' := by
  induction t with
  | done a => exact hq a h
  | choose n k ih => exact ⟨hp n h.1, fun c => ih c (h.2 c)⟩

theorem Asks.bind {q₂ : β → Prop} {t : Decision α} {f : α → Decision β} (h : t.Asks p q)
    (hf : ∀ a, q a → (f a).Asks p q₂) : (t.bind f).Asks p q₂ := by
  induction t with
  | done a => exact hf a h
  | choose n k ih => exact ⟨h.1, fun c => ih c (h.2 c)⟩

theorem Asks.of_mem {t : Decision α} (h : t.Asks p q) {a : α} (ha : a ∈ t.outcomes) : q a := by
  induction t with
  | done b =>
      cases ha
      exact h
  | choose n k ih =>
      obtain ⟨c, _, hc⟩ := ha
      exact ih c (h.2 c) hc

/-! ## The tree as a program -/

/-- The next question after the answers given so far. -/
def program : Decision α → List Nat → Option Nat
  | done _, _ => none
  | choose n _, [] => some n
  | choose _ k, c :: cs => (k c).program cs

theorem program_cons (n : Nat) (k : Nat → Decision α) (c : Nat) (cs : List Nat) :
    (choose n k).program (c :: cs) = (k c).program cs := by
  rw [program]

theorem isPathFrom_program {t : Decision α} {P : ChoiceProgram} {pre : List Nat}
    (h : ∀ cs, P (pre ++ cs) = t.program cs) {cs : List Nat} :
    P.IsPathFrom pre cs ↔ ChoiceProgram.IsPathFrom t.program [] cs := by
  induction cs generalizing t P pre with
  | nil => exact Iff.rfl
  | cons c cs ih =>
      have hnil := h []
      rw [List.append_nil] at hnil
      cases t with
      | done a => simp [ChoiceProgram.IsPathFrom, hnil, program]
      | choose n k =>
          have hl : ∀ cs, P ((pre ++ [c]) ++ cs) = (k c).program cs := by
            intro cs
            simpa [program] using h (c :: cs)
          have hr : ∀ cs, (choose n k).program (([] ++ [c]) ++ cs) = (k c).program cs :=
            program_cons n k c
          simp only [ChoiceProgram.IsPathFrom, hnil, ih hl, ih hr]

/-- The leaves are the answers for which there is a result. -/
theorem isLeafFrom_program {t : Decision α} {P : ChoiceProgram} {pre : List Nat}
    (h : ∀ cs, P (pre ++ cs) = t.program cs) {cs : List Nat} :
    P.IsLeafFrom pre cs ↔ ∃ a, t.runWith cs = some a := by
  induction cs generalizing t P pre with
  | nil =>
      have hnil := h []
      rw [List.append_nil] at hnil
      cases t with
      | done a => simp [ChoiceProgram.IsLeafFrom, hnil, program, runWith]
      | choose n k => simp [ChoiceProgram.IsLeafFrom, hnil, program, runWith]
  | cons c cs ih =>
      have hnil := h []
      rw [List.append_nil] at hnil
      cases t with
      | done a => simp [ChoiceProgram.IsLeafFrom, hnil, program, runWith]
      | choose n k =>
          have hl : ∀ cs, P ((pre ++ [c]) ++ cs) = (k c).program cs := by
            intro cs
            simpa [program] using h (c :: cs)
          simp only [ChoiceProgram.IsLeafFrom, hnil, ih hl, program, runWith, Option.some.injEq,
            exists_eq_left']
          by_cases hc : c < n <;> simp [hc]

theorem isLeaf_program {t : Decision α} {cs : List Nat} :
    ChoiceProgram.IsLeaf t.program cs ↔ ∃ a, t.runWith cs = some a :=
  isLeafFrom_program fun _ => rfl

theorem finite_program (t : Decision α) : {cs | ChoiceProgram.IsPathFrom t.program [] cs}.Finite := by
  induction t with
  | done a =>
      apply (Set.finite_singleton []).subset
      intro cs hcs
      cases cs with
      | nil => rfl
      | cons c cs =>
          obtain ⟨n, hn, _⟩ := hcs
          simp [program] at hn
  | choose n k ih =>
      have hfin : (⋃ c ∈ {c | c < n}, (c :: ·) '' {cs | ChoiceProgram.IsPathFrom (k c).program [] cs}).Finite :=
        (Set.finite_lt_nat n).biUnion fun c _ => (ih c).image _
      apply (hfin.insert []).subset
      intro cs hcs
      cases cs with
      | nil => exact Set.mem_insert _ _
      | cons c cs =>
          obtain ⟨m, hm, hc, hpath⟩ := hcs
          obtain rfl : n = m := by simpa [program] using hm
          have hk : ChoiceProgram.IsPathFrom (k c).program [] cs :=
            (isPathFrom_program (program_cons n k c)).mp hpath
          apply Set.mem_insert_of_mem
          exact Set.mem_biUnion hc (Set.mem_image_of_mem _ hk)

theorem Asks.program_eq {t : Decision α} (h : t.Asks p q) {cs : List Nat} {n : Nat}
    (hn : t.program cs = some n) : p n := by
  induction t generalizing cs with
  | done a => simp [program] at hn
  | choose m k ih =>
      cases cs with
      | nil =>
          obtain rfl : m = n := by simpa [program] using hn
          exact h.1
      | cons c cs =>
          rw [program_cons] at hn
          exact ih c (h.2 c) hn

/-- A tree that never asks for one of no choices is a finite program. -/
theorem Asks.isFinite {t : Decision α} (h : t.Asks p q) (hp : ∀ n, p n → 1 ≤ n) :
    ChoiceProgram.IsFinite t.program where
  finite := t.finite_program
  pos := fun _ n hn => hp n (h.program_eq hn)

end Decision

/-! ## Computations with a state -/

namespace Stateful

variable {σ τ ε α β : Type}

/-- Every question of `m` offers a number of choices in `p`, where it stops it stops with an exit in
`q`, and what `f` sees of the state is the same before and after. -/
def Asks (p : Nat → Prop) (q : ε → Prop) (f : σ → τ) (m : Stateful σ ε α) : Prop :=
  ∀ s, (m s).Asks p fun x => f x.2 = f s ∧ ∀ e, x.1 = .error e → q e

namespace Asks

variable {p : Nat → Prop} {q q' : ε → Prop} {f : σ → τ} {m : Stateful σ ε α}

theorem exit (h : Asks p q f m) {s s' : σ} {e : ε} (hm : m.Ends s (.error e) s') : q e :=
  ((h s).of_mem hm).2 e rfl

theorem keeps (h : Asks p q f m) {s s' : σ} {r : Except ε α} (hm : m.Ends s r s') : f s' = f s :=
  ((h s).of_mem hm).1

theorem mono (hq : ∀ e, q e → q' e) (h : Asks p q f m) : Asks p q' f m :=
  fun s => (h s).mono (fun _ hp => hp) fun _ hx => ⟨hx.1, fun e he => hq e (hx.2 e he)⟩

protected theorem pure (a : α) : Asks p q f (pure a : Stateful σ ε α) :=
  fun _ => ⟨rfl, fun _ he => nomatch he⟩

protected theorem stop {e : ε} (h : q e) : Asks p q f (stop e : Stateful σ ε α) := by
  intro s
  refine ⟨rfl, ?_⟩
  intro e' he
  cases he
  exact h

protected theorem state : Asks p q f (state : Stateful σ ε σ) :=
  fun _ => ⟨rfl, fun _ he => nomatch he⟩

protected theorem update {g : σ → σ} (h : ∀ s, f (g s) = f s) :
    Asks p q f (Stateful.update g : Stateful σ ε Unit) :=
  fun s => ⟨h s, fun _ he => nomatch he⟩

protected theorem choose {n : Nat} (h : p n) : Asks p q f (choose n : Stateful σ ε Nat) :=
  fun _ => ⟨h, fun _ => ⟨rfl, fun _ he => nomatch he⟩⟩

protected theorem require (P : Prop) [Decidable P] {e : ε} (h : q e) :
    Asks p q f (require P e : Stateful σ ε Unit) := by
  unfold Stateful.require
  split
  · exact .pure ()
  · exact .stop h

protected theorem bind {k : α → Stateful σ ε β} (hm : Asks p q f m) (hk : ∀ a, Asks p q f (k a)) :
    Asks p q f (m >>= k) := by
  intro s
  apply (hm s).bind
  intro x hx
  match x, hx with
  | (.ok a, s'), hx =>
      apply (hk a s').mono (fun _ hp => hp)
      intro y hy
      exact ⟨hy.1.trans hx.1, hy.2⟩
  | (.error e, s'), hx =>
      refine ⟨hx.1, ?_⟩
      intro e' he
      cases he
      exact hx.2 e rfl

/-- A branch whose second part goes on as the first one does. -/
theorem ite_join {c : Prop} [Decidable c] {k : α → Stateful σ ε β} {m' : Stateful σ ε β}
    (hk : ∀ a, Asks p q f (k a)) (hm' : (∀ a, Asks p q f (k a)) → Asks p q f m')
    (hm : Asks p q f m) : Asks p q f (if c then m' else m >>= k) := by
  split
  · exact hm' hk
  · exact .bind hm hk

/-- A branch whose first part goes on as the second one does. -/
theorem ite_join' {c : Prop} [Decidable c] {k : α → Stateful σ ε β} {m' : Stateful σ ε β}
    (hk : ∀ a, Asks p q f (k a)) (hm : Asks p q f m)
    (hm' : (∀ a, Asks p q f (k a)) → Asks p q f m') : Asks p q f (if c then m >>= k else m') := by
  split
  · exact .bind hm hk
  · exact hm' hk

/-- Where the exit `e` is dealt with, the rest has to stop in `q'`. -/
protected theorem onStop [DecidableEq ε] {e : ε} {h : Stateful σ ε α} (hm : Asks p q f m)
    (hh : q e → Asks p q' f h) (hq : ∀ e', e' ≠ e → q e' → q' e') : Asks p q' f (m.onStop e h) := by
  intro s
  apply (hm s).bind
  intro x hx
  match x, hx with
  | (.ok a, s'), hx => exact ⟨hx.1, fun e' he => nomatch he⟩
  | (.error e', s'), hx =>
      show Decision.Asks p _ (if e' = e then h s' else .done (.error e', s'))
      split
      · next heq =>
          apply (hh (hx.2 e (by rw [heq])) s').mono (fun _ hp => hp)
          intro y hy
          exact ⟨hy.1.trans hx.1, hy.2⟩
      · next hne =>
          refine ⟨hx.1, ?_⟩
          intro e'' he
          cases he
          exact hq _ hne (hx.2 _ rfl)

end Asks

end Stateful
