import Mathlib.Data.Nat.Bits
import Cxlmc.Model.Memapi

/-!
# The loops over chunks

Which width a round takes (`chunkWidth_dvd`, `le_chunkWidth`), and a rule for loops whose counter does
not wrap around (`chunkLoop_rule`). The test `(i + 8) <= n` is computed with 32 bits: where `i + 8`
does not fit, it succeeds, the access leaves its range and `i` starts over. The loops come to an end
inside their ranges exactly where that cannot happen (`chunk_loops_end`).
-/

namespace Cxlmc

/-! ## The width of a round -/

def IsWidth (w : Nat) : Prop := w = 1 ∨ w = 2 ∨ w = 4 ∨ w = 8

/-- No access of more than one byte that the alignment allows ends past the counter. -/
def FitsCounter (addrs : List Nat) (n : Nat) : Prop :=
  n < 2 ^ 32 ∧ ∀ i w, i < n → (w = 2 ∨ w = 4 ∨ w = 8) → (∀ a ∈ addrs, w ∣ a + i) → i + w < 2 ^ 32

section

variable {addrs : List Nat} {n i w : Nat}

theorem and_mask_eq_zero (k a : Nat) : a &&& (2 ^ k - 1) = 0 ↔ 2 ^ k ∣ a := by
  rw [Nat.and_two_pow_sub_one_eq_mod, Nat.dvd_iff_mod_eq_zero]

/-- The width, with the tests as divisibilities. -/
theorem chunkWidth_eq (addrs : List Nat) (n i : Nat) :
    chunkWidth addrs n i =
      if (∀ a ∈ addrs, 8 ∣ a + i) ∧ (i + 8) % 2 ^ 32 ≤ n then 8
      else if (∀ a ∈ addrs, 4 ∣ a + i) ∧ (i + 4) % 2 ^ 32 ≤ n then 4
      else if (∀ a ∈ addrs, 2 ∣ a + i) ∧ (i + 2) % 2 ^ 32 ≤ n then 2
      else 1 := by
  unfold chunkWidth
  have h8 : ∀ a, a &&& 7 = 0 ↔ 8 ∣ a := and_mask_eq_zero 3
  have h4 : ∀ a, a &&& 3 = 0 ↔ 4 ∣ a := and_mask_eq_zero 2
  have h2 : ∀ a, a &&& 1 = 0 ↔ 2 ∣ a := and_mask_eq_zero 1
  simp only [h8, h4, h2]

theorem isWidth_chunkWidth (addrs : List Nat) (n i : Nat) : IsWidth (chunkWidth addrs n i) := by
  rw [chunkWidth_eq]
  unfold IsWidth
  split_ifs <;> simp

theorem chunkWidth_dvd {a : Nat} (ha : a ∈ addrs) : chunkWidth addrs n i ∣ a + i := by
  rw [chunkWidth_eq]
  split_ifs with h8 h4 h2
  · exact h8.1 a ha
  · exact h4.1 a ha
  · exact h2.1 a ha
  · exact Nat.one_dvd _

/-- The test that the chosen width has passed. -/
theorem chunkWidth_le (addrs : List Nat) (n i : Nat) :
    chunkWidth addrs n i = 1 ∨ (i + chunkWidth addrs n i) % 2 ^ 32 ≤ n := by
  rw [chunkWidth_eq]
  split_ifs with h8 h4 h2
  · exact .inr h8.2
  · exact .inr h4.2
  · exact .inr h2.2
  · exact .inl rfl

/-- The width is the largest that passes its test. -/
theorem le_chunkWidth (hw : w = 2 ∨ w = 4 ∨ w = 8) (hdvd : ∀ a ∈ addrs, w ∣ a + i)
    (hle : (i + w) % 2 ^ 32 ≤ n) : w ≤ chunkWidth addrs n i := by
  rw [chunkWidth_eq]
  rcases hw with rfl | rfl | rfl
  · split_ifs with h8 h4 h2
    · decide
    · decide
    · decide
    · exact absurd ⟨hdvd, hle⟩ h2
  · split_ifs with h8 h4 h2
    · decide
    · decide
    · exact absurd ⟨hdvd, hle⟩ h4
    · exact absurd ⟨hdvd, hle⟩ h4
  · rw [if_pos ⟨hdvd, hle⟩]

/-- A round of a loop whose counter does not wrap around stays in its range. -/
theorem FitsCounter.width_le (h : FitsCounter addrs n) (hi : i < n) :
    i + chunkWidth addrs n i ≤ n := by
  rcases chunkWidth_le addrs n i with hone | hle
  · rw [hone]
    exact hi
  · rcases isWidth_chunkWidth addrs n i with hw | hw
    · rw [hw]
      exact hi
    · have hlt := h.2 i _ hi hw fun a ha => chunkWidth_dvd ha
      rw [Nat.mod_eq_of_lt hlt] at hle
      exact hle

/-- A range that ends before the last 8 values of the counter. -/
theorem FitsCounter.of_le (hn : n ≤ 2 ^ 32 - 8) : FitsCounter addrs n := by
  refine ⟨by omega, ?_⟩
  intro i w hi hw _
  rcases hw with rfl | rfl | rfl <;> omega

end

/-! ## The rule for loops -/

/-- The function returns, with the state `s`. -/
def Returns (n : Nat) (f : Nat → LoopState) (s : LoopState) : Prop := n ≤ s.i ∧ ∃ k, f k = s

section

variable {addrs : List Nat} {access : Nat → LoopState → LoopState} {n : Nat} {s s' : LoopState}

theorem returns_iff :
    Returns n (fun k => chunkLoop addrs access n k s) s' ↔
      LoopEnds (fun s => decide (s.i < n)) (chunkRound addrs access n) s s' := by
  unfold Returns LoopEnds
  rw [decide_eq_false_iff_not, Nat.not_lt]
  rfl

/-- What the accesses keep holds throughout a loop whose counter does not wrap around, and the loop comes
to its end. -/
theorem chunkLoop_rule {P : LoopState → Prop} (hfits : FitsCounter addrs n)
    (hstep : ∀ s, s.i < n → s.i + chunkWidth addrs n s.i ≤ n → P s →
      P { access (chunkWidth addrs n s.i) s with i := s.i + chunkWidth addrs n s.i })
    (hle : s.i ≤ n) (hs : P s) :
    (∃ s', Returns n (fun k => chunkLoop addrs access n k s) s' ∧ s'.i = n ∧ P s') ∧
      ∀ k, P (chunkLoop addrs access n k s) := by
  have hround : ∀ s : LoopState, decide (s.i < n) = true → s.i ≤ n ∧ P s →
      (chunkRound addrs access n s).i = s.i + chunkWidth addrs n s.i ∧
        s.i + chunkWidth addrs n s.i ≤ n ∧ P (chunkRound addrs access n s) := by
    intro s hc ⟨_, hs⟩
    have hlt := of_decide_eq_true hc
    have hbound := hfits.width_le hlt
    have hmod : (s.i + chunkWidth addrs n s.i) % 2 ^ 32 = s.i + chunkWidth addrs n s.i :=
      Nat.mod_eq_of_lt (Nat.lt_of_le_of_lt hbound hfits.1)
    refine ⟨hmod, hbound, ?_⟩
    rw [chunkRound, hmod]
    exact hstep s hlt hbound hs
  constructor
  · obtain ⟨s', hends, hbound, hs'⟩ := exists_loopEnds (I := fun s => s.i ≤ n ∧ P s)
      (fun s => n - s.i) (by
        intro s hc hs
        obtain ⟨hi, hbound, hround⟩ := hround s hc hs
        have hlt := of_decide_eq_true hc
        have hpos : 0 < chunkWidth addrs n s.i := by
          rcases isWidth_chunkWidth addrs n s.i with hw | hw | hw | hw <;> omega
        rw [hi]
        refine ⟨⟨hbound, hround⟩, ?_⟩
        omega) ⟨hle, hs⟩
    have hret := returns_iff.mpr hends
    exact ⟨s', hret, Nat.le_antisymm hbound hret.1, hs'⟩
  · intro k
    have hboth : (chunkLoop addrs access n k s).i ≤ n ∧ P (chunkLoop addrs access n k s) := by
      refine whileLoop_invariant (I := fun s => s.i ≤ n ∧ P s) ?_ ⟨hle, hs⟩ k
      intro s hc hs
      obtain ⟨hi, hbound, hround⟩ := hround s hc hs
      rw [hi]
      exact ⟨hbound, hround⟩
    exact hboth.2

end

/-! ## Inside the ranges -/

/-- A load stays in `[src, src + n)`, and a store in `[dst, dst + n)`. -/
def MemAccess.Within (dst src n : Nat) (a : MemAccess) : Prop :=
  (if a.isStore then dst else src) ≤ a.addr ∧
    a.addr + a.width ≤ (if a.isStore then dst else src) + n

/-- The loop comes to an end, and all of its accesses are inside the ranges. -/
def EndsInRange (dst src n : Nat) (f : Nat → LoopState) : Prop :=
  (∃ s, Returns n f s) ∧ ∀ k, ∀ a ∈ (f k).accesses, a.Within dst src n

/-- A round stores with its width at `dst + i`, and may load at `src + i` before. -/
structure Issues (dst src : Nat) (access : Nat → LoopState → LoopState) : Prop where
  store : ∀ w s, ⟨true, dst + s.i, w⟩ ∈ (access w s).accesses
  only : ∀ w s, ∀ a ∈ (access w s).accesses,
    a ∈ s.accesses ∨ a = ⟨true, dst + s.i, w⟩ ∨ a = ⟨false, src + s.i, w⟩

theorem issues_copyAccess (dst src : Nat) : Issues dst src (copyAccess dst src) where
  store w s := by simp [copyAccess]
  only w s a ha := by
    simp only [copyAccess, List.mem_append, List.mem_cons, List.not_mem_nil, or_false] at ha
    rcases ha with ha | ha | ha
    · exact .inl ha
    · exact .inr (.inr ha)
    · exact .inr (.inl ha)

theorem issues_setAccess (dst : Nat) (val : Nat → Nat) : Issues dst dst (setAccess dst val) where
  store w s := by simp [setAccess]
  only w s a ha := by
    simp only [setAccess, List.mem_append, List.mem_cons, List.not_mem_nil, or_false] at ha
    exact ha.imp_right .inl

section

variable {addrs : List Nat} {access : Nat → LoopState → LoopState} {dst src n i i₀ w w₀ : Nat}
  {memory : FlatMemory}

/-- Where a chunk of `w₀` bytes at `i₀` is aligned, a smaller offset is not moved past it by a chunk
that ends before the chunk of `w₀` bytes does. -/
theorem add_le_of_aligned {a : Nat} (hw : IsWidth w) (hw₀ : w₀ = 2 ∨ w₀ = 4 ∨ w₀ = 8)
    (hdvd : w ∣ a + i) (hdvd₀ : w₀ ∣ a + i₀) (hlt : i < i₀) (hend : i + w < i₀ + w₀) : i + w ≤ i₀ := by
  unfold IsWidth at hw
  rcases hw with rfl | rfl | rfl | rfl <;> rcases hw₀ with rfl | rfl | rfl <;> omega

/-- With a range as long as the counter has values the loop has no end. -/
theorem not_returns_of_full {s : LoopState} :
    ¬ Returns (2 ^ 32) (fun k => chunkLoop addrs access (2 ^ 32) k (.start memory)) s := by
  rw [returns_iff]
  apply not_loopEnds (I := fun s : LoopState => s.i < 2 ^ 32)
  · intro s _ _
    exact Nat.mod_lt _ (by decide)
  · intro s hs
    exact decide_eq_true hs
  · show 0 < 2 ^ 32
    decide

/-- As long as all accesses are in the range, a loop whose counter can wrap around does not get past the
offset at which it would. -/
theorem chunkLoop_stuck (hdst : dst ∈ addrs) (hissues : Issues dst src access)
    (hrange : ∀ k, ∀ a ∈ (chunkLoop addrs access n k (.start memory)).accesses, a.Within dst src n)
    (hn : n < 2 ^ 32) (hi₀ : i₀ < n) (hw₀ : w₀ = 2 ∨ w₀ = 4 ∨ w₀ = 8)
    (hdvd₀ : ∀ a ∈ addrs, w₀ ∣ a + i₀) (hwrap : 2 ^ 32 ≤ i₀ + w₀) (k : Nat) :
    (chunkLoop addrs access n k (.start memory)).i ≤ i₀ := by
  induction k with
  | zero => exact Nat.zero_le _
  | succ k ih =>
      have hin := hrange (k + 1)
      unfold chunkLoop at ih hin ⊢
      rw [whileLoop_succ] at hin ⊢
      generalize whileLoop _ _ k _ = s at ih hin ⊢
      split at hin
      swap
      · next hc =>
          rw [if_neg hc]
          exact ih
      next hc =>
      rw [if_pos hc]
      -- the store of this round is in the range, so the counter goes up by its width
      have hstore := (hin _ (hissues.store (chunkWidth addrs n s.i) s)).2
      have hbound : s.i + chunkWidth addrs n s.i ≤ n := by
        simp only [if_true] at hstore
        omega
      show (s.i + chunkWidth addrs n s.i) % 2 ^ 32 ≤ i₀
      rw [Nat.mod_eq_of_lt (Nat.lt_of_le_of_lt hbound hn)]
      rcases Nat.lt_or_ge s.i i₀ with hlt | hge
      · exact add_le_of_aligned (isWidth_chunkWidth addrs n s.i) hw₀ (chunkWidth_dvd hdst)
          (hdvd₀ dst hdst) hlt (by omega)
      · have heq : s.i = i₀ := Nat.le_antisymm ih hge
        have hmod : (i₀ + w₀) % 2 ^ 32 ≤ n := by
          rcases hw₀ with rfl | rfl | rfl <;> omega
        have hwide := le_chunkWidth hw₀ hdvd₀ hmod
        rw [heq] at hbound
        omega

/-- The loop comes to its end inside its ranges exactly where its counter cannot wrap around. -/
theorem endsInRange_iff (hdst : dst ∈ addrs) (hissues : Issues dst src access) (hn : n ≤ 2 ^ 32) :
    EndsInRange dst src n (fun k => chunkLoop addrs access n k (.start memory)) ↔
      FitsCounter addrs n := by
  constructor
  · intro ⟨⟨s, hret⟩, hrange⟩
    have hlt : n < 2 ^ 32 := by
      apply Nat.lt_of_le_of_ne hn
      rintro rfl
      exact not_returns_of_full hret
    refine ⟨hlt, ?_⟩
    intro i w hi hw hdvd
    by_contra hwrap
    obtain ⟨hge, k, rfl⟩ := hret
    have hstuck := chunkLoop_stuck hdst hissues hrange hlt hi hw hdvd (Nat.le_of_not_lt hwrap) k
    exact absurd (Nat.le_trans hge hstuck) (Nat.not_le_of_lt hi)
  · intro hfits
    have hstart : ∀ a ∈ (LoopState.start memory).accesses, a.Within dst src n := nofun
    obtain ⟨⟨s, hret, _⟩, hall⟩ := @chunkLoop_rule addrs access n (.start memory)
      (fun s => ∀ a ∈ s.accesses, a.Within dst src n) hfits (by
        intro s _ hbound hs a ha
        rcases hissues.only _ s a ha with ha | rfl | rfl
        · exact hs a ha
        · simp only [MemAccess.Within, if_true]
          omega
        · simp only [MemAccess.Within, Bool.false_eq_true, if_false]
          omega) (Nat.zero_le n) hstart
    exact ⟨⟨s, hret⟩, hall⟩

/-- For every size up to that of the CXL region: the loops of the string functions come to an end with
all accesses in their ranges, if and only if `n` fits into the counter and no access of more than one
byte that the alignment allows ends past the largest value of the counter. -/
theorem chunk_loops_end (dst src : Nat) (hn : n ≤ 2 ^ 32) (memory : FlatMemory) :
    (EndsInRange dst src n (cxlmcMemcpy dst src n memory) ↔ FitsCounter [src, dst] n) ∧
    (EndsInRange dst src n (cxlmcMemmove dst src n memory) ↔ FitsCounter [src, dst] n) ∧
    (∀ c, EndsInRange dst dst n (cxlmcMemset dst c n memory) ↔ FitsCounter [dst] n) ∧
    (EndsInRange dst dst n (bzero dst n memory) ↔ FitsCounter [dst] n) := by
  have hcopy : EndsInRange dst src n
      (fun k => chunkLoop [src, dst] (copyAccess dst src) n k (.start memory)) ↔
      FitsCounter [src, dst] n :=
    endsInRange_iff (List.mem_cons_of_mem _ List.mem_cons_self) (issues_copyAccess dst src) hn
  have hset : ∀ val, EndsInRange dst dst n
      (fun k => chunkLoop [dst] (setAccess dst val) n k (.start memory)) ↔ FitsCounter [dst] n :=
    fun val => endsInRange_iff List.mem_cons_self (issues_setAccess dst val) hn
  exact ⟨hcopy, hcopy, fun c => hset _, hset _⟩

end

/-- `chunk_loops_end` for 21 bytes at addresses of different alignment. -/
theorem chunk_loops_end_short :
    EndsInRange 8195 4096 21 (cxlmcMemcpy 8195 4096 21 fun _ => 0) ∧
    EndsInRange 8195 8195 21 (bzero 8195 21 fun _ => 0) := by
  obtain ⟨hcopy, _, _, hzero⟩ := chunk_loops_end (n := 21) 8195 4096 (by decide) fun _ => 0
  exact ⟨hcopy.mpr (.of_le (by decide)), hzero.mpr (.of_le (by decide))⟩

/-- Over the whole CXL region none of the functions returns. -/
theorem chunk_loops_not_end :
    ¬ EndsInRange 4096 8192 (2 ^ 32) (cxlmcMemcpy 4096 8192 (2 ^ 32) fun _ => 0) ∧
    ¬ EndsInRange 4096 8192 (2 ^ 32) (cxlmcMemmove 4096 8192 (2 ^ 32) fun _ => 0) ∧
    ¬ EndsInRange 4096 4096 (2 ^ 32) (cxlmcMemset 4096 0 (2 ^ 32) fun _ => 0) ∧
    ¬ EndsInRange 4096 4096 (2 ^ 32) (bzero 4096 (2 ^ 32) fun _ => 0) := by
  refine ⟨?_, ?_, ?_, ?_⟩
  all_goals
    rintro ⟨⟨s, hret⟩, _⟩
    exact not_returns_of_full hret

end Cxlmc
