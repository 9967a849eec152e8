import Cxlmc.Memapi.Copy

/-!
# `strcpy` leaves out the end of the string

Both paths copy the bytes in front of the NUL, and neither writes a NUL: what is read back from `dst` is
the source only where a NUL was there before (`strcpy_copies`).
-/

namespace Cxlmc

/-- A C string of length `n` at `addr`. -/
structure StringAt (memory : FlatMemory) (addr n : Nat) : Prop where
  nul : memory (addr + n) = 0
  bytes : ∀ j, j < n → memory (addr + j) ≠ 0

/-- `dst` holds the `n` bytes of the string at `src` and a NUL, and nothing else has changed. -/
structure StringCopied (dst src n : Nat) (memory memory' : FlatMemory) : Prop where
  bytes : ∀ j, j < n → memory' (dst + j) = memory (src + j)
  nul : memory' (dst + n) = 0
  rest : ∀ x, x < dst ∨ dst + n < x → memory' x = memory x

section

variable {dst src n rounds : Nat} {memory memory' : FlatMemory} {s : LoopState}

/-- The string that is read back is the source. -/
theorem StringCopied.stringAt (h : StringCopied dst src n memory memory')
    (hsrc : StringAt memory src n) : StringAt memory' dst n := by
  refine ⟨h.nul, ?_⟩
  intro j hj
  rw [h.bytes j hj]
  exact hsrc.bytes j hj

/-! ## The loops -/

/-- In `rounds` rounds the scan gets as far as it can. -/
theorem scan_eq (hsrc : StringAt memory src n) (k : Nat) (hk : k ≤ n) :
    whileLoop (fun n => decide (memory (src + n) ≠ 0)) (· + 1) rounds k = min (k + rounds) n := by
  induction rounds generalizing k with
  | zero =>
      rw [whileLoop]
      omega
  | succ rounds ih =>
      rw [whileLoop]
      rcases Nat.lt_or_eq_of_le hk with hlt | rfl
      · rw [if_pos (decide_eq_true (hsrc.bytes k hlt)), ih (k + 1) hlt]
        omega
      · rw [if_neg (by simp [hsrc.nul])]
        omega

theorem scanString_eq (hsrc : StringAt memory src n) :
    scanString src memory rounds = if n ≤ rounds then some n else none := by
  unfold scanString
  rw [scan_eq hsrc 0 (Nat.zero_le n), Nat.zero_add]
  split
  · next hle =>
      rw [Nat.min_eq_right hle]
      dsimp only
      rw [if_pos hsrc.nul]
  · next hle =>
      rw [Nat.min_eq_left (Nat.le_of_not_le hle)]
      exact if_neg (hsrc.bytes rounds (Nat.lt_of_not_le hle))

variable (dst src memory) in
/-- What the byte loop has done after any number of rounds, and that it comes to its end. -/
theorem byteLoop_copies (hn : n < 2 ^ 32) :
    (∃ k, n ≤ (byteLoop dst src n k (.start memory)).i) ∧
      ∀ k, (byteLoop dst src n k (.start memory)).i ≤ n ∧
        CopiedTo dst src memory (byteLoop dst src n k (.start memory)) := by
  have hround : ∀ s : LoopState, decide (s.i < n) = true →
      s.i ≤ n ∧ CopiedTo dst src memory s →
      (byteRound dst src s).i = s.i + 1 ∧ (byteRound dst src s).i ≤ n ∧
        CopiedTo dst src memory (byteRound dst src s) := by
    intro s hc ⟨_, hs⟩
    have hlt := of_decide_eq_true hc
    have hmod : (byteRound dst src s).i = s.i + 1 := Nat.mod_eq_of_lt (by omega)
    have hafter := hs.access (Nat.one_dvd _) (Nat.one_dvd _)
    refine ⟨hmod, by omega, ?_, hafter.below, ?_⟩
    · intro j hj
      exact hafter.copied j (hmod ▸ hj)
    · intro x hx
      exact hafter.above x (hmod ▸ hx)
  have hstart : (LoopState.start memory).i ≤ n ∧ CopiedTo dst src memory (.start memory) :=
    ⟨Nat.zero_le n, copiedTo_start⟩
  constructor
  · obtain ⟨s, ⟨hend, k, hk⟩, _⟩ := exists_loopEnds (I := fun s => s.i ≤ n ∧ CopiedTo dst src memory s)
      (fun s => n - s.i) (by
        intro s hc hs
        obtain ⟨hi, hle, hcopied⟩ := hround s hc hs
        have hlt := of_decide_eq_true hc
        refine ⟨⟨hle, hcopied⟩, ?_⟩
        omega) hstart
    refine ⟨k, ?_⟩
    rw [byteLoop, hk]
    exact Nat.le_of_not_lt (of_decide_eq_false hend)
  · intro k
    exact whileLoop_invariant (I := fun s => s.i ≤ n ∧ CopiedTo dst src memory s)
      (fun s hc hs => (hround s hc hs).2) hstart k

/-- A loop that has come to its end is at its end after more rounds as well. -/
theorem whileLoop_ge {body : LoopState → LoopState} {k k' : Nat}
    (h : n ≤ (whileLoop (fun s => decide (s.i < n)) body k s).i) (hle : k ≤ k') :
    n ≤ (whileLoop (fun s => decide (s.i < n)) body k' s).i := by
  have hend : decide ((whileLoop (fun s => decide (s.i < n)) body k s).i < n) = false :=
    decide_eq_false (Nat.not_lt.mpr h)
  rw [whileLoop_of_le hend hle]
  exact h

variable (dst src memory) in
/-- What the chunk loop has done after any number of rounds, and that it comes to its end. -/
theorem chunkLoop_string (hn : n ≤ 2 ^ 32 - 8) :
    (∃ k, n ≤ (chunkLoop [src, dst] (copyAccess dst src) n k (.start memory)).i) ∧
      ∀ k, (chunkLoop [src, dst] (copyAccess dst src) n k (.start memory)).i ≤ n ∧
        CopiedTo dst src memory (chunkLoop [src, dst] (copyAccess dst src) n k (.start memory)) := by
  have hround : ∀ s : LoopState, s.i < n →
      s.i + chunkWidth [src, dst] n s.i ≤ n → s.i ≤ n ∧ CopiedTo dst src memory s →
      s.i + chunkWidth [src, dst] n s.i ≤ n ∧ CopiedTo dst src memory
        { copyAccess dst src (chunkWidth [src, dst] n s.i) s with
          i := s.i + chunkWidth [src, dst] n s.i } := by
    intro s _ hbound ⟨_, hs⟩
    exact ⟨hbound, hs.access (chunkWidth_dvd List.mem_cons_self)
      (chunkWidth_dvd (List.mem_cons_of_mem _ List.mem_cons_self))⟩
  obtain ⟨⟨_, ⟨hge, k, rfl⟩, _⟩, hall⟩ :=
    chunkLoop_rule (P := fun s => s.i ≤ n ∧ CopiedTo dst src memory s) (.of_le hn) hround
      (Nat.zero_le n) ⟨Nat.zero_le n, copiedTo_start⟩
  exact ⟨⟨k, hge⟩, hall⟩

/-! ## The string at `dst` -/

/-- The loops leave the byte after the copied ones as it was. -/
theorem CopiedTo.stringCopied_iff (hs : CopiedTo dst src memory s) (hi : s.i = n)
    (hdisjoint : src + n < dst ∨ dst + n < src) :
    StringCopied dst src n memory s.memory ↔ memory (dst + n) = 0 := by
  have hafter : s.memory (dst + n) = memory (dst + n) := hs.above _ (by omega)
  constructor
  · intro h
    rw [← hafter]
    exact h.nul
  · intro hnul
    refine ⟨?_, hafter.trans hnul, ?_⟩
    · intro j hj
      rw [hs.copied j (by omega), copiedFrom_of_lt fun _ => by omega]
    · rintro x (hx | hx)
      · exact hs.below x hx
      · exact hs.above x (by omega)

/-- For every source string of length below `2 ^ 31` and every `dst` that does not overlap it, on the path
for CXL memory and on the fallback path: `strcpy` returns, and it has copied the string if and only if
there was a NUL behind it before. -/
theorem strcpy_copies (memIsCxl : Nat → Bool) (strcpyReal : Option (Nat → Nat → FlatMemory → FlatMemory))
    (hpath : memIsCxl dst = true ∨ strcpyReal = none) (hn : n < 2 ^ 31)
    (hsrc : StringAt memory src n) (hdisjoint : src + n < dst ∨ dst + n < src) :
    (∃ rounds memory', strcpy memIsCxl strcpyReal dst src memory rounds = some memory') ∧
    ∀ rounds memory', strcpy memIsCxl strcpyReal dst src memory rounds = some memory' →
      (StringCopied dst src n memory memory' ↔ memory (dst + n) = 0) := by
  obtain ⟨⟨k₁, hk₁⟩, hchunks⟩ := chunkLoop_string dst src memory (n := n) (by omega)
  obtain ⟨⟨k₂, hk₂⟩, hbytes⟩ := byteLoop_copies dst src memory (n := n) (by omega)
  unfold strcpy
  simp only [scanString_eq hsrc]
  by_cases hcxl : memIsCxl dst = true
  · simp only [if_pos hcxl]
    constructor
    · refine ⟨max n k₁,
        (chunkLoop [src, dst] (copyAccess dst src) n (max n k₁) (.start memory)).memory, ?_⟩
      rw [if_pos (Nat.le_max_left n k₁)]
      exact if_pos (whileLoop_ge hk₁ (Nat.le_max_right n k₁))
    · intro rounds memory' h
      split at h
      swap
      · cases h
      obtain ⟨hge, heq⟩ := Option.ite_none_right_eq_some.mp h
      cases heq
      obtain ⟨hle, hs⟩ := hchunks rounds
      exact hs.stringCopied_iff (Nat.le_antisymm hle hge) hdisjoint
  · obtain rfl : strcpyReal = none := hpath.resolve_left hcxl
    simp only [if_neg hcxl]
    constructor
    · refine ⟨max n k₂, (byteLoop dst src n (max n k₂) (.start memory)).memory, ?_⟩
      rw [if_pos (Nat.le_max_left n k₂)]
      exact if_pos (whileLoop_ge hk₂ (Nat.le_max_right n k₂))
    · intro rounds memory' h
      split at h
      swap
      · cases h
      obtain ⟨hge, heq⟩ := Option.ite_none_right_eq_some.mp h
      cases heq
      obtain ⟨hle, hs⟩ := hbytes rounds
      exact hs.stringCopied_iff (Nat.le_antisymm hle hge) hdisjoint

end

/-- The string "ab" at 8195, in memory that is `fill` elsewhere. -/
def shortString (fill : UInt8) : FlatMemory :=
  fun x => if x = 8195 then 97 else if x = 8196 then 98 else if x = 8197 then 0 else fill

theorem stringAt_shortString (fill : UInt8) : StringAt (shortString fill) 8195 2 := by
  refine ⟨rfl, ?_⟩
  intro j hj
  obtain rfl | rfl : j = 0 ∨ j = 1 := by omega
  · exact (by decide : (97 : UInt8) ≠ 0)
  · exact (by decide : (98 : UInt8) ≠ 0)

/-- `strcpy_copies` where the memory at `dst` is zero. -/
theorem strcpy_copies_zeroed : ∃ rounds memory',
    strcpy (fun _ => true) none 4096 8195 (shortString 0) rounds = some memory' ∧
    StringCopied 4096 8195 2 (shortString 0) memory' := by
  obtain ⟨⟨rounds, memory', h⟩, hiff⟩ := @strcpy_copies 4096 8195 2 (shortString 0) (fun _ => true) none
    (.inl rfl) (by decide) (stringAt_shortString 0) (.inr (by decide))
  exact ⟨rounds, memory', h, (hiff rounds memory' h).mpr rfl⟩

/-- Where another byte stands behind the copy, `dst` holds a longer string afterwards, on both paths. -/
theorem strcpy_not_copies :
    (∃ rounds memory', strcpy (fun _ => true) none 4096 8195 (shortString 7) rounds = some memory' ∧
      ¬ StringCopied 4096 8195 2 (shortString 7) memory') ∧
    ∃ rounds memory', strcpy (fun _ => false) none 4096 8195 (shortString 7) rounds = some memory' ∧
      ¬ StringCopied 4096 8195 2 (shortString 7) memory' := by
  constructor
  · refine ⟨2, _, rfl, ?_⟩
    intro h
    exact absurd h.nul (by decide)
  · refine ⟨2, _, rfl, ?_⟩
    intro h
    exact absurd h.nul (by decide)

end Cxlmc
