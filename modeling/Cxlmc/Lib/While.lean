import Mathlib.Order.Nat

/-!
# Loops by the number of their rounds

`whileLoop cond body k s` is what `while (cond) body` makes of `s` in `k` rounds, or in fewer if it has
come to its end by then. The rules for loops are those of an invariant (`whileLoop_invariant`), of a
bound on the rounds that are left (`exists_loopEnds`) and of a loop that has no end (`not_loopEnds`).
-/

section

variable {σ : Type} (cond : σ → Bool) (body : σ → σ)

def whileLoop : Nat → σ → σ
  | 0, s => s
  | k + 1, s => if cond s then whileLoop k (body s) else s

/-- The loop from `s` comes to its end in `s'`. -/
def LoopEnds (s s' : σ) : Prop := cond s' = false ∧ ∃ k, whileLoop cond body k s = s'

variable {cond body} {s s' s'' : σ}

theorem whileLoop_of_end (h : cond s = false) (k : Nat) : whileLoop cond body k s = s := by
  cases k with
  | zero => rfl
  | succ k => rw [whileLoop, if_neg (by rw [h]; exact Bool.noConfusion)]

/-- The last round of a loop. -/
theorem whileLoop_succ (k : Nat) (s : σ) :
    whileLoop cond body (k + 1) s =
      if cond (whileLoop cond body k s) then body (whileLoop cond body k s)
      else whileLoop cond body k s := by
  induction k generalizing s with
  | zero => rfl
  | succ k ih =>
      rw [whileLoop]
      split
      · next hc =>
          rw [ih]
          simp only [whileLoop, hc, if_true]
      · next hc =>
          have hend : cond s = false := by simpa using hc
          rw [whileLoop_of_end hend, if_neg hc]

/-- More rounds do not change where a loop has come to its end. -/
theorem whileLoop_of_le {k k' : Nat} (h : cond (whileLoop cond body k s) = false) (hle : k ≤ k') :
    whileLoop cond body k' s = whileLoop cond body k s := by
  induction hle with
  | refl => rfl
  | step _ ih =>
      rw [whileLoop_succ, ih, h]
      exact if_neg Bool.false_ne_true

/-- What a round keeps holds after any number of rounds. -/
theorem whileLoop_invariant {I : σ → Prop} (hstep : ∀ s, cond s = true → I s → I (body s)) (hs : I s)
    (k : Nat) : I (whileLoop cond body k s) := by
  induction k generalizing s with
  | zero => exact hs
  | succ k ih =>
      rw [whileLoop]
      split
      · next hc => exact ih (hstep s hc hs)
      · exact hs

/-- A loop with an invariant that makes less of `μ` in each round comes to its end. -/
theorem exists_loopEnds {I : σ → Prop} (μ : σ → Nat)
    (hstep : ∀ s, cond s = true → I s → I (body s) ∧ μ (body s) < μ s) (hs : I s) :
    ∃ s', LoopEnds cond body s s' ∧ I s' := by
  induction hμ : μ s using Nat.strongRecOn generalizing s with
  | _ m ih =>
      cases hc : cond s with
      | false => exact ⟨s, ⟨hc, 0, rfl⟩, hs⟩
      | true =>
          obtain ⟨hbody, hlt⟩ := hstep s hc hs
          obtain ⟨s', ⟨hend, k, hk⟩, hs'⟩ := ih (μ (body s)) (hμ ▸ hlt) hbody rfl
          refine ⟨s', ⟨hend, k + 1, ?_⟩, hs'⟩
          rw [whileLoop, if_pos hc]
          exact hk

/-- A loop whose invariant implies its condition has no end. -/
theorem not_loopEnds {I : σ → Prop} (hstep : ∀ s, cond s = true → I s → I (body s))
    (hcond : ∀ s, I s → cond s = true) (hs : I s) : ¬ LoopEnds cond body s s' := by
  rintro ⟨hend, k, rfl⟩
  rw [hcond _ (whileLoop_invariant hstep hs k)] at hend
  cases hend

end
