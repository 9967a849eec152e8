import Mathlib.Data.List.Destutter
import Mathlib.Data.Finset.Card
import Mathlib.Data.Finset.Range

/-!
# Round robin

`n` parties take turns. The one that is active looks at the others in a circle and passes the turn to the
first that is ready (`others`). As long as a party `t` is ready the turn only moves towards it
(`before_of_find?`), so that until `t` has the turn nobody gets it back, and fewer than `n` have it
(`turns_nodup`, `turns_length_lt`). Parties may join on the way.
-/

namespace RoundRobin

/-- The others in the order in which `a` looks at them. -/
def others (n a : Nat) : List Nat := (List.range (n - 1)).map fun i => (a + (i + 1)) % n

/-- On the way round to `t` one comes to `u` before `v`. -/
def Before (t u v : Nat) : Prop := if t < u then v ≤ t ∨ u < v else v ≤ t ∧ u < v

/-- The turn stays, or it moves towards `t`. -/
def Advances (t u v : Nat) : Prop := v = u ∨ Before t u v

/-- Who has the turn, one after the other. -/
def turns (l : List Nat) : List Nat := l.destutter (· ≠ ·)

variable {n a t u v w : Nat} {l : List Nat}

theorem Before.ne (h : Before t u v) : u ≠ v := by
  unfold Before at h
  split at h <;> omega

theorem Before.trans (h : Before t u v) (h' : Before t v w) : Before t u w := by
  unfold Before at h h' ⊢
  split_ifs at h h' ⊢ <;> omega

/-! ## One turn -/

/-- Places that are not after that of `t` are on the way to `t`. -/
theorem before_of_le {i j : Nat} (ha : a < n) (hj : j < n - 1) (hle : i ≤ j) :
    Before ((a + (j + 1)) % n) a ((a + (i + 1)) % n) := by
  have hmod : ∀ k, k < n - 1 → (a + (k + 1)) % n = if a + (k + 1) < n then a + (k + 1) else a + (k + 1) - n := by
    intro k hk
    split
    · next hlt => exact Nat.mod_eq_of_lt hlt
    · next hge =>
        rw [Nat.mod_eq_sub_mod (Nat.le_of_not_lt hge), Nat.mod_eq_of_lt]
        omega
  rw [hmod i (by omega), hmod j hj]
  unfold Before
  split_ifs <;> omega

theorem before_of_find? {p : Nat → Bool} (ha : a < n) (ht : t ∈ others n a) (hready : p t = true)
    (h : (others n a).find? p = some u) : Before t a u := by
  obtain ⟨j, hj, rfl⟩ := List.mem_map.mp ht
  rw [others, List.find?_map] at h
  obtain ⟨i, hi, rfl⟩ := Option.map_eq_some_iff.mp h
  obtain ⟨_, _, hfirst⟩ := List.find?_range_eq_some.mp hi
  apply before_of_le ha (List.mem_range.mp hj)
  -- `t` is ready, so the search stops at its place at the latest
  apply Nat.le_of_not_lt
  intro hlt
  have hnot := hfirst j hlt
  simp [hready] at hnot

/-! ## Many turns -/

theorem mem_turns (h : u ∈ turns l) : u ∈ l := (List.destutter_sublist _ l).subset h

theorem pairwise_turns (h : l.IsChain (Advances t)) : (turns l).Pairwise (Before t) := by
  have hcons : ∀ (l : List Nat) (a : Nat), (a :: l).IsChain (Advances t) →
      (l.destutter' (· ≠ ·) a).Pairwise (Before t) ∧
        ∀ c ∈ l.destutter' (· ≠ ·) a, Advances t a c := by
    intro l
    induction l with
    | nil =>
        intro a _
        simp [Advances]
    | cons b l ih =>
        intro a h
        obtain ⟨hab, hrest⟩ := List.isChain_cons_cons.mp h
        obtain ⟨hpair, hafter⟩ := ih b hrest
        by_cases heq : a = b
        · subst heq
          rw [List.destutter'_cons_neg _ (not_not_intro rfl)]
          exact ⟨hpair, hafter⟩
        · rw [List.destutter'_cons_pos _ heq]
          have hbefore : Before t a b := hab.resolve_left (Ne.symm heq)
          have hlater : ∀ c ∈ l.destutter' (· ≠ ·) b, Before t a c := by
            intro c hc
            rcases hafter c hc with rfl | hbc
            · exact hbefore
            · exact hbefore.trans hbc
          refine ⟨List.pairwise_cons.mpr ⟨hlater, hpair⟩, ?_⟩
          intro c hc
          rcases List.mem_cons.mp hc with rfl | hc
          · exact .inl rfl
          · exact .inr (hlater c hc)
  cases l with
  | nil => exact .nil
  | cons a l => exact (hcons l a h).1

/-- Nobody gets the turn back. -/
theorem turns_nodup (h : l.IsChain (Advances t)) : (turns l).Nodup :=
  (pairwise_turns h).imp Before.ne

/-- Fewer than `n` have the turn before `t` has it. -/
theorem turns_length_lt (h : l.IsChain (Advances t)) (ht : t < n) (hother : ∀ u ∈ l, u < n ∧ u ≠ t) :
    (turns l).length < n := by
  have hnodup : (t :: turns l).Nodup := by
    refine List.nodup_cons.mpr ⟨?_, turns_nodup h⟩
    intro hmem
    exact (hother t (mem_turns hmem)).2 rfl
  have hsub : (t :: turns l).toFinset ⊆ Finset.range n := by
    intro u hu
    rw [List.mem_toFinset] at hu
    rw [Finset.mem_range]
    rcases List.mem_cons.mp hu with rfl | hu
    · exact ht
    · exact (hother u (mem_turns hu)).1
  have hcard := Finset.card_le_card hsub
  rw [List.toFinset_card_of_nodup hnodup, Finset.card_range, List.length_cons] at hcard
  exact hcard

end RoundRobin
