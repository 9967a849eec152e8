import Mathlib.Logic.Relation
import Cxlmc.Lib.Decision

/-!
# Computations as paths of a transition relation

`Goes R P` relates two states that a path of labelled steps connects, all labels in `P`. A
computation `Does` such a path when it can end only where the path can, followed by a last move of
`X` if it leaves through the exit `e`. The rules follow the way the computation is built, so that
the effect of a whole program is put together from those of its parts.
-/

/-- A path of steps of `R` with labels in `P`. -/
def Goes {σ L : Type} (R : σ → L → σ → Prop) (P : L → Prop) : σ → σ → Prop :=
  Relation.ReflTransGen fun s s' => ∃ l, P l ∧ R s l s'

namespace Goes

variable {σ L : Type} {R : σ → L → σ → Prop} {P Q : L → Prop} {s s' s'' : σ}

theorem refl (s : σ) : Goes R P s s := Relation.ReflTransGen.refl

theorem trans (h : Goes R P s s') (h' : Goes R P s' s'') : Goes R P s s'' :=
  Relation.ReflTransGen.trans h h'

theorem single {l : L} (h : R s l s') (hl : P l) : Goes R P s s' :=
  Relation.ReflTransGen.single ⟨l, hl, h⟩

theorem mono (hPQ : ∀ l, P l → Q l) (h : Goes R P s s') : Goes R Q s s' := by
  apply Relation.ReflTransGen.mono _ _ _ h
  rintro a b ⟨l, hl, hstep⟩
  exact ⟨l, hPQ l hl, hstep⟩

/-- A path of a smaller relation. -/
theorem sub {R' : σ → L → σ → Prop} (h : Goes R P s s') (hR : ∀ s l s', R s l s' → R' s l s') :
    Goes R' P s s' := by
  apply Relation.ReflTransGen.mono _ _ _ h
  rintro a b ⟨l, hl, hstep⟩
  exact ⟨l, hl, hR a l b hstep⟩

/-- What every step of the path preserves holds at its end. -/
theorem invariant {I : σ → Prop} (h : Goes R P s s')
    (hstep : ∀ s l s', P l → I s → R s l s' → I s') (hs : I s) : I s' := by
  induction h with
  | refl => exact hs
  | tail _ hlast ih =>
      obtain ⟨l, hl, hstep'⟩ := hlast
      exact hstep _ l _ hl ih hstep'

/-- A preorder that contains every step contains the path. -/
theorem preorder {I : σ → σ → Prop} (h : Goes R P s s') (hrefl : ∀ s, I s s)
    (htrans : ∀ {a b c}, I a b → I b c → I a c) (hstep : ∀ s l s', P l → R s l s' → I s s') :
    I s s' :=
  h.invariant (I := I s) (fun a l b hl ha hab => htrans ha (hstep a l b hl hab)) (hrefl s)

end Goes

namespace Stateful

variable {σ ε α β L : Type}

/-- What `m` does from `s` is a path of `R` with labels in `P`; where it leaves through `e`, a move of
`X` follows. Its other exits are not bounded. -/
def Does (R : σ → L → σ → Prop) (P : L → Prop) (e : ε) (X : σ → σ → Prop) (m : Stateful σ ε α)
    (s : σ) : Prop :=
  ∀ r s', m.Ends s r s' →
    (∀ a, r = .ok a → Goes R P s s') ∧ (r = .error e → ∃ s₁, Goes R P s s₁ ∧ X s₁ s')

namespace Does

variable {R : σ → L → σ → Prop} {e : ε} {P P' : L → Prop} {X : σ → σ → Prop}
  {m : Stateful σ ε α} {s s₁ : σ} {f : α → Stateful σ ε β}

theorem returns {a : α} {s' : σ} (h : Does R P e X m s) (hm : m.Ends s (.ok a) s') :
    Goes R P s s' :=
  (h _ _ hm).1 a rfl

theorem leaves {s' : σ} (h : Does R P e X m s) (hm : m.Ends s (.error e) s') :
    ∃ s₁, Goes R P s s₁ ∧ X s₁ s' :=
  (h _ _ hm).2 rfl

theorem mono (hP : ∀ l, P l → P' l) (h : Does R P e X m s) : Does R P' e X m s := by
  intro r s' hm
  refine ⟨fun a hr => ((h r s' hm).1 a hr).mono hP, ?_⟩
  intro hr
  obtain ⟨s₁, hgoes, hx⟩ := (h r s' hm).2 hr
  exact ⟨s₁, hgoes.mono hP, hx⟩

protected theorem pure (a : α) : Does R P e X (pure a : Stateful σ ε α) s := by
  intro r s' hm
  obtain ⟨rfl, rfl⟩ := ends_pure.mp hm
  exact ⟨fun _ _ => .refl _, nofun⟩

protected theorem stop {e' : ε} (h : e' ≠ e) : Does R P e X (stop e' : Stateful σ ε α) s := by
  intro r s' hm
  obtain ⟨rfl, rfl⟩ := ends_stop.mp hm
  refine ⟨nofun, ?_⟩
  intro he
  cases he
  exact absurd rfl h

protected theorem update {g : σ → σ} {l : L} (hstep : R s l (g s)) (hl : P l) :
    Does R P e X (Stateful.update g : Stateful σ ε Unit) s := by
  intro r s' hm
  obtain ⟨rfl, rfl⟩ := ends_update.mp hm
  exact ⟨fun _ _ => .single hstep hl, nofun⟩

/-- A path that has been gone already goes in front. -/
theorem of_goes {r : Except ε α} {s' : σ} (h : Goes R P s s₁)
    (hm : (∀ a, r = .ok a → Goes R P s₁ s') ∧
      (r = .error e → ∃ s₂, Goes R P s₁ s₂ ∧ X s₂ s')) :
    (∀ a, r = .ok a → Goes R P s s') ∧ (r = .error e → ∃ s₂, Goes R P s s₂ ∧ X s₂ s') := by
  refine ⟨fun a hr => h.trans (hm.1 a hr), ?_⟩
  intro hr
  obtain ⟨s₂, hgoes, hx⟩ := hm.2 hr
  exact ⟨s₂, h.trans hgoes, hx⟩

protected theorem bind (hm : Does R P e X m s)
    (hf : ∀ a s₁, m.Ends s (.ok a) s₁ → Does R P e X (f a) s₁) : Does R P e X (m >>= f) s := by
  intro r s' h
  rcases ends_bind.mp h with ⟨a, s₁, h₁, h₂⟩ | ⟨e', h₁, rfl⟩
  · exact of_goes (hm.returns h₁) (hf a s₁ h₁ r s' h₂)
  · refine ⟨nofun, ?_⟩
    intro he
    cases he
    exact hm.leaves h₁

theorem state_bind {f : σ → Stateful σ ε β} (h : Does R P e X (f s) s) :
    Does R P e X ((state : Stateful σ ε σ) >>= f) s :=
  h

theorem update_bind {g : σ → σ} {f : Unit → Stateful σ ε β} {l : L}
    (hstep : R s l (g s)) (hl : P l) (h : Does R P e X (f ()) (g s)) :
    Does R P e X ((Stateful.update g : Stateful σ ε Unit) >>= f) s := by
  intro r s' hm
  exact of_goes (.single hstep hl) (h r s' hm)

theorem choose_bind {n : Nat} {f : Nat → Stateful σ ε β} (h : ∀ c, Does R P e X (f c) s) :
    Does R P e X ((choose n : Stateful σ ε Nat) >>= f) s := by
  intro r s' hm
  obtain ⟨c, _, hc⟩ := ends_choose_bind.mp hm
  exact h c r s' hc

theorem require_bind {p : Prop} [Decidable p] {e' : ε} {f : Unit → Stateful σ ε β} (he : e' ≠ e)
    (h : p → Does R P e X (f ()) s) :
    Does R P e X ((require p e' : Stateful σ ε Unit) >>= f) s := by
  unfold require
  split
  · next hp => exact h hp
  · exact Does.stop he

end Does

end Stateful
