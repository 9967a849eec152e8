import Mathlib.Logic.Basic

/-!
# Properties of every step of a run

`Always step P s cs` says that `P` holds of each command of `cs` in the state in which it is run.
`always_iff` compares two such properties: where they agree in the states of an invariant, and one of them
keeps it, they agree on every run.
-/

section

variable {σ C : Type}

def Always (step : σ → C → σ) (P : σ → C → Prop) : σ → List C → Prop
  | _, [] => True
  | s, c :: cs => P s c ∧ Always step P (step s c) cs

variable {step : σ → C → σ} {P Q Pre : σ → C → Prop} {I : σ → Prop} {s : σ} {c : C} {cs : List C}

@[simp] theorem always_nil : Always step P s [] ↔ True := Iff.rfl

@[simp] theorem always_cons : Always step P s (c :: cs) ↔ P s c ∧ Always step P (step s c) cs := Iff.rfl

instance Always.decidable [∀ s c, Decidable (P s c)] : (s : σ) → (cs : List C) → Decidable (Always step P s cs)
  | _, [] => inferInstanceAs (Decidable True)
  | s, c :: cs =>
      @instDecidableAnd (P s c) (Always step P (step s c) cs) inferInstance (Always.decidable (step s c) cs)

/-- Two properties that are the same in the states of an invariant, on a run whose commands meet `Pre`. -/
theorem always_iff (hiff : ∀ s c, I s → Pre s c → (P s c ↔ Q s c))
    (hkeeps : ∀ s c, I s → Pre s c → P s c → I (step s c)) (hs : I s) (hpre : Always step Pre s cs) :
    Always step P s cs ↔ Always step Q s cs := by
  induction cs generalizing s with
  | nil => exact Iff.rfl
  | cons c cs ih =>
      obtain ⟨hc, hcs⟩ := hpre
      rw [always_cons, always_cons, hiff s c hs hc]
      exact and_congr_right fun hQ => ih (hkeeps s c hs hc ((hiff s c hs hc).mpr hQ)) hcs

end
