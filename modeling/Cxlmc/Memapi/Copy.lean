import Cxlmc.Lib.Tiling
import Cxlmc.Memapi.Chunks

/-!
# What the copies leave behind

`cxlmc_memcpy` and `cxlmc_memmove` are the same loop, from low addresses to high ones. An access is no
wider than the distance of the ranges, so the loop does what copying byte after byte would do: where
`dst` lies above `src` by less than `n`, it copies bytes that it has already overwritten
(`chunkLoop_copies`). `cxlmc_memmove` tolerates such an overlap only for bytes that repeat with that
distance (`memmove_overlap`).
-/

namespace Cxlmc

/-- `[dst, dst + n)` holds what `[src, src + n)` held before, and nothing else has changed. -/
def Moved (dst src n : Nat) (memory memory' : FlatMemory) : Prop :=
  ∀ x, memory' x = if dst ≤ x ∧ x < dst + n then memory (src + (x - dst)) else memory x

/-- The offset of the byte that the loop copies to the offset `j`: it has copied the first bytes of the
source again and again if `dst` lies above `src`. -/
def copiedFrom (dst src j : Nat) : Nat := if src < dst then j % (dst - src) else j

/-- What the loop has done up to its counter. -/
structure CopiedTo (dst src : Nat) (memory : FlatMemory) (s : LoopState) : Prop where
  copied : ∀ j, j < s.i → s.memory (dst + j) = memory (src + copiedFrom dst src j)
  below : ∀ x, x < dst → s.memory x = memory x
  above : ∀ x, dst + s.i ≤ x → s.memory x = memory x

section

variable {dst src n : Nat} {memory : FlatMemory} {s : LoopState}

theorem copiedFrom_of_lt {j : Nat} (h : src < dst → j < dst - src) : copiedFrom dst src j = j := by
  unfold copiedFrom
  split
  · next hlt => exact Nat.mod_eq_of_lt (h hlt)
  · rfl

theorem copiedFrom_add {j : Nat} (h : src < dst) :
    copiedFrom dst src (j + (dst - src)) = copiedFrom dst src j := by
  unfold copiedFrom
  rw [if_pos h, if_pos h, Nat.add_mod_right]

/-- An access is no wider than the distance of the ranges. -/
theorem width_le_distance {w : Nat} (h : src < dst) (hsrc : w ∣ src + s.i) (hdst : w ∣ dst + s.i) :
    w ≤ dst - src := by
  have hdvd : w ∣ (dst + s.i) - (src + s.i) := Nat.dvd_sub hdst hsrc
  rw [Nat.add_sub_add_right] at hdvd
  exact Nat.le_of_dvd (Nat.sub_pos_of_lt h) hdvd

/-- What an access of the loop reads is the source, or a byte that the loop has copied there. -/
theorem CopiedTo.source {w j : Nat} (hs : CopiedTo dst src memory s) (hsrc : w ∣ src + s.i)
    (hdst : w ∣ dst + s.i) (hj : j < w) :
    s.memory (src + (s.i + j)) = memory (src + copiedFrom dst src (s.i + j)) := by
  by_cases hlt : src < dst
  · have hle := width_le_distance hlt hsrc hdst
    by_cases hover : dst - src ≤ s.i + j
    · obtain ⟨j', hj'⟩ := Nat.exists_eq_add_of_le' hover
      rw [hj', copiedFrom_add hlt, ← hs.copied j' (by omega)]
      congr 1
      omega
    · rw [copiedFrom_of_lt fun _ => Nat.lt_of_not_le hover]
      exact hs.below _ (by omega)
  · rw [copiedFrom_of_lt fun h => absurd h hlt]
    by_cases hbelow : src + (s.i + j) < dst
    · exact hs.below _ hbelow
    · exact hs.above _ (by omega)

theorem CopiedTo.access {w : Nat} (hs : CopiedTo dst src memory s) (hsrc : w ∣ src + s.i)
    (hdst : w ∣ dst + s.i) :
    CopiedTo dst src memory { copyAccess dst src w s with i := s.i + w } := by
  constructor
  · intro j hj
    show s.memory.store (dst + s.i) w _ (dst + j) = _
    by_cases hold : j < s.i
    · rw [FlatMemory.store_of_lt (by omega)]
      exact hs.copied j hold
    · obtain ⟨t, rfl⟩ := Nat.exists_eq_add_of_le (Nat.le_of_not_lt hold)
      have ht : t < w := by
        have hlt : s.i + t < s.i + w := hj
        omega
      rw [← Nat.add_assoc, FlatMemory.store_load ht, Nat.add_assoc]
      exact hs.source hsrc hdst ht
  · intro x hx
    show s.memory.store (dst + s.i) w _ x = _
    rw [FlatMemory.store_of_lt (by omega)]
    exact hs.below x hx
  · intro x hx
    have hx : dst + (s.i + w) ≤ x := hx
    show s.memory.store (dst + s.i) w _ x = _
    rw [FlatMemory.store_of_ge (by omega)]
    exact hs.above x (by omega)

theorem copiedTo_start : CopiedTo dst src memory (.start memory) :=
  ⟨nofun, fun _ _ => rfl, fun _ _ => rfl⟩

/-- What the loop of the copies leaves behind. -/
theorem chunkLoop_copies (hfits : FitsCounter [src, dst] n) :
    ∃ s, Returns n (fun k => chunkLoop [src, dst] (copyAccess dst src) n k (.start memory)) s ∧
      s.i = n ∧ CopiedTo dst src memory s := by
  refine (chunkLoop_rule hfits ?_ (Nat.zero_le n) copiedTo_start).1
  intro s _ _ hs
  exact hs.access (chunkWidth_dvd List.mem_cons_self)
    (chunkWidth_dvd (List.mem_cons_of_mem _ List.mem_cons_self))

theorem CopiedTo.moved_iff (hs : CopiedTo dst src memory s) (hi : s.i = n) :
    Moved dst src n memory s.memory ↔
      ∀ j, j < n → memory (src + copiedFrom dst src j) = memory (src + j) := by
  constructor
  · intro hmoved j hj
    rw [← hs.copied j (by omega), hmoved, if_pos ⟨Nat.le_add_right .., Nat.add_lt_add_left hj _⟩,
      Nat.add_sub_cancel_left]
  · intro hcopied x
    split
    · next hx =>
        obtain ⟨j, rfl⟩ := Nat.exists_eq_add_of_le hx.1
        have hj : j < n := by omega
        rw [hs.copied j (by omega), Nat.add_sub_cancel_left]
        exact hcopied j hj
    · next hx =>
        rcases Nat.lt_or_ge x dst with hlt | hge
        · exact hs.below x hlt
        · apply hs.above
          rw [hi]
          exact Nat.le_of_not_lt fun h => hx ⟨hge, h⟩

/-- Bytes copied again and again from the first of the source are those of the source if these repeat. -/
theorem copiedFrom_iff_repeats (dst src n : Nat) (memory : FlatMemory) :
    (∀ j, j < n → memory (src + copiedFrom dst src j) = memory (src + j)) ↔
      (src < dst → ∀ j, j + (dst - src) < n →
        memory (src + j) = memory (src + (j + (dst - src)))) := by
  constructor
  · intro h hlt j hj
    rw [← h (j + (dst - src)) hj, copiedFrom_add hlt]
    exact (h j (Nat.lt_of_le_of_lt (Nat.le_add_right ..) hj)).symm
  · intro h j hj
    induction j using Nat.strongRecOn with
    | ind j ih =>
        by_cases hover : src < dst ∧ dst - src ≤ j
        · obtain ⟨hlt, hle⟩ := hover
          obtain ⟨j', rfl⟩ := Nat.exists_eq_add_of_le' hle
          rw [copiedFrom_add hlt, ih j' (by omega) (by omega)]
          exact h hlt j' hj
        · rw [copiedFrom_of_lt]
          intro hlt
          exact Nat.lt_of_not_le fun hle => hover ⟨hlt, hle⟩

/-- `cxlmc_memmove` returns, and it has moved the bytes if and only if `dst` does not lie above `src` or
the bytes of the source repeat with the distance of the two. -/
theorem memmove_overlap (dst src : Nat) (hn : n < 2 ^ 31) (memory : FlatMemory) :
    ∃ s, Returns n (cxlmcMemmove dst src n memory) s ∧
      (Moved dst src n memory s.memory ↔
        (src < dst → ∀ j, j + (dst - src) < n →
          memory (src + j) = memory (src + (j + (dst - src))))) := by
  have hfits : FitsCounter [src, dst] n := .of_le (by omega)
  obtain ⟨s, hret, hi, hs⟩ := @chunkLoop_copies dst src n memory hfits
  exact ⟨s, hret, (hs.moved_iff hi).trans (copiedFrom_iff_repeats dst src n memory)⟩

/-! ## The accesses -/

/-- The load and the store of a chunk. -/
def copyOf (dst src : Nat) (c : Chunk) : List MemAccess :=
  [⟨false, src + c.offset, c.width⟩, ⟨true, dst + c.offset, c.width⟩]

/-- The accesses so far are those of chunks that follow each other up to the counter, aligned in both
ranges. -/
def TiledTo (dst src : Nat) (s : LoopState) : Prop :=
  ∃ cs, Tiles 0 cs s.i ∧ s.accesses = cs.flatMap (copyOf dst src) ∧
    ∀ c ∈ cs, IsWidth c.width ∧ c.width ∣ src + c.offset ∧ c.width ∣ dst + c.offset

theorem TiledTo.access {w : Nat} (hs : TiledTo dst src s) (hw : IsWidth w) (hsrc : w ∣ src + s.i)
    (hdst : w ∣ dst + s.i) : TiledTo dst src { copyAccess dst src w s with i := s.i + w } := by
  obtain ⟨cs, htiles, haccesses, haligned⟩ := hs
  have hpos : 0 < w := by
    rcases hw with rfl | rfl | rfl | rfl <;> decide
  refine ⟨cs ++ [⟨s.i, w⟩], htiles.concat hpos, ?_, ?_⟩
  · rw [List.flatMap_append, ← haccesses]
    rfl
  · intro c hc
    rcases List.mem_append.mp hc with hc | hc
    · exact haligned c hc
    · rw [List.mem_singleton.mp hc]
      exact ⟨hw, hsrc, hdst⟩

/-- An aligned access stays inside an 8-byte word. -/
theorem IsWidth.inWord {w addr : Nat} (hw : IsWidth w) (hdvd : w ∣ addr) : addr % 8 + w ≤ 8 := by
  rcases hw with rfl | rfl | rfl | rfl <;> omega

/-- `cxlmc_memcpy` returns; its accesses are a load and a store for each of a list of chunks that
partition `[0, n)` in increasing order, each access is at a multiple of its width and inside a word, and
between ranges that do not overlap the bytes are copied. -/
theorem memcpy_tiles (dst src : Nat) (hn : n ≤ 2 ^ 32 - 8) (memory : FlatMemory) :
    ∃ s, Returns n (cxlmcMemcpy dst src n memory) s ∧
      (∃ cs, Tiles 0 cs n ∧ s.accesses = cs.flatMap (copyOf dst src) ∧
        ∀ x, x < n → ∃ c ∈ cs, x ∈ c ∧ ∀ c' ∈ cs, x ∈ c' → c' = c) ∧
      (∀ a ∈ s.accesses, IsWidth a.width ∧ a.width ∣ a.addr ∧ a.addr % 8 + a.width ≤ 8) ∧
      (src + n ≤ dst ∨ dst + n ≤ src → Moved dst src n memory s.memory) := by
  have hfits : FitsCounter [src, dst] n := .of_le hn
  obtain ⟨⟨s, hret, hi, hs, hcs⟩, _⟩ := chunkLoop_rule
    (P := fun s => CopiedTo dst src memory s ∧ TiledTo dst src s) hfits (by
      intro s _ _ ⟨hs, htiled⟩
      have hsrc : chunkWidth [src, dst] n s.i ∣ src + s.i := chunkWidth_dvd List.mem_cons_self
      have hdst : chunkWidth [src, dst] n s.i ∣ dst + s.i :=
        chunkWidth_dvd (List.mem_cons_of_mem _ List.mem_cons_self)
      exact ⟨hs.access hsrc hdst, htiled.access (isWidth_chunkWidth _ n s.i) hsrc hdst⟩)
    (Nat.zero_le n) ⟨copiedTo_start, [], .nil 0, rfl, nofun⟩
  obtain ⟨cs, htiles, haccesses, haligned⟩ := hcs
  rw [hi] at htiles
  refine ⟨s, hret, ⟨cs, htiles, haccesses, ?_⟩, ?_, ?_⟩
  · intro x hx
    exact htiles.partition (Nat.zero_le x) hx
  · intro a ha
    rw [haccesses] at ha
    obtain ⟨c, hc, ha⟩ := List.mem_flatMap.mp ha
    obtain ⟨hw, hsrc, hdst⟩ := haligned c hc
    rcases List.mem_cons.mp ha with rfl | ha
    · exact ⟨hw, hsrc, hw.inWord hsrc⟩
    · rw [List.mem_singleton.mp ha]
      exact ⟨hw, hdst, hw.inWord hdst⟩
  · intro hdisjoint
    rw [hs.moved_iff hi]
    intro j hj
    rw [copiedFrom_of_lt]
    intro hlt
    omega

end

/-! ## Overlapping ranges -/

/-- The low byte of each address. -/
def countingBytes : FlatMemory := fun x => UInt8.ofNat x

/-- `memmove_overlap` for a move to lower addresses. -/
theorem memmove_overlap_down : ∃ s, Returns 21 (cxlmcMemmove 4096 4099 21 countingBytes) s ∧
    Moved 4096 4099 21 countingBytes s.memory := by
  obtain ⟨s, hret, hiff⟩ := memmove_overlap (n := 21) 4096 4099 (by decide) countingBytes
  exact ⟨s, hret, hiff.mpr fun h => absurd h (by decide)⟩

/-- 16 bytes moved up by 8: the second word that is stored is the first again. -/
theorem memmove_not_overlap : ∃ s, Returns 16 (cxlmcMemmove 4104 4096 16 countingBytes) s ∧
    ¬ Moved 4104 4096 16 countingBytes s.memory := by
  refine ⟨cxlmcMemmove 4104 4096 16 countingBytes 2, ⟨by decide, 2, rfl⟩, ?_⟩
  intro hmoved
  exact absurd (hmoved 4112) (by decide)

/-- `memcpy_tiles` for 21 bytes at addresses of different alignment. -/
theorem memcpy_tiles_short : ∃ s, Returns 21 (cxlmcMemcpy 8195 4097 21 countingBytes) s ∧
    Moved 8195 4097 21 countingBytes s.memory := by
  obtain ⟨s, hret, _, _, hmoved⟩ := memcpy_tiles (n := 21) 8195 4097 (by decide) countingBytes
  exact ⟨s, hret, hmoved (.inl (by decide))⟩

end Cxlmc
