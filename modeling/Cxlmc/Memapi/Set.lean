import Cxlmc.Memapi.Chunks

/-!
# What `cxlmc_memset` leaves behind

The patterns of 1, 2 and 4 bytes repeat the byte. That of 8 bytes goes through `cs3`, where the 32 bits
of an `int` are extended by their sign: from `0x80` on its upper half is `0xff` (`toBytes_memsetCs4`), and
so is that of every aligned chunk of 8 bytes in the range (`memset_fills`).
-/

namespace Cxlmc

open Bytes

/-- `[dst, dst + n)` holds `b` everywhere, and nothing else has changed. -/
def Filled (dst n : Nat) (b : UInt8) (memory memory' : FlatMemory) : Prop :=
  ∀ x, memory' x = if dst ≤ x ∧ x < dst + n then b else memory x

/-- `c & 0xff`. -/
def lowByte (c : BitVec 32) : UInt8 := UInt8.ofNat (c &&& 0xff).toNat

/-! ## The patterns -/

theorem toBytes_memsetCs2 (cs : BitVec 8) :
    toBytes 2 (memsetCs2 cs).toNat = List.replicate 2 (UInt8.ofBitVec cs) := by
  revert cs
  decide +kernel

theorem toBytes_memsetInt (cs : BitVec 8) :
    toBytes 4 (memsetInt cs).toNat = List.replicate 4 (UInt8.ofBitVec cs) := by
  revert cs
  decide +kernel

/-- The upper half of the pattern of 8 bytes is that of the extension by the sign. -/
theorem toBytes_memsetCs4 (cs : BitVec 8) :
    toBytes 8 (memsetCs4 cs).toNat = List.replicate 4 (UInt8.ofBitVec cs) ++
      List.replicate 4 (if 128 ≤ cs.toNat then 255 else UInt8.ofBitVec cs) := by
  revert cs
  decide +kernel

section

variable {dst n i w j : Nat} {c : BitVec 32} {memory : FlatMemory} {s : LoopState}

theorem toNat_memsetCs (c : BitVec 32) : (memsetCs c).toNat = (c &&& 0xff).toNat := by
  have hle : (c &&& 0xff).toNat ≤ 255 := by
    rw [BitVec.toNat_and]
    exact Nat.and_le_right
  rw [memsetCs, BitVec.toNat_setWidth]
  exact Nat.mod_eq_of_lt (Nat.lt_succ_of_le hle)

theorem ofBitVec_memsetCs (c : BitVec 32) : UInt8.ofBitVec (memsetCs c) = lowByte c := by
  apply UInt8.toNat_inj.mp
  rw [lowByte, UInt8.toNat_ofNat', ← toNat_memsetCs]
  exact (Nat.mod_eq_of_lt (memsetCs c).isLt).symm

/-- The byte `j` of the pattern of `w` bytes. -/
theorem byte_memsetValue (c : BitVec 32) (hw : IsWidth w) (hj : j < w) :
    (toBytes w (memsetValue c w))[j]?.getD 0 =
      if 128 ≤ (c &&& 0xff).toNat ∧ w = 8 ∧ 4 ≤ j then 255 else lowByte c := by
  rw [← toNat_memsetCs, ← ofBitVec_memsetCs]
  rcases hw with rfl | rfl | rfl | rfl
  · obtain rfl : j = 0 := by omega
    simp [memsetValue, toBytes]
  · rw [memsetValue, toBytes_memsetCs2, List.getElem?_replicate_of_lt hj]
    simp
  · rw [memsetValue, toBytes_memsetInt, List.getElem?_replicate_of_lt hj]
    simp
  · rw [memsetValue, toBytes_memsetCs4]
    rcases Nat.lt_or_ge j 4 with hlow | hhigh
    · rw [List.getElem?_append_left (by simpa using hlow), List.getElem?_replicate_of_lt hlow]
      simp [Nat.not_le_of_lt hlow]
    · rw [List.getElem?_append_right (by simpa using hhigh), List.length_replicate,
        List.getElem?_replicate_of_lt (by omega)]
      simp [hhigh]

/-! ## The loop -/

/-- The offset `j` is in the upper half of an aligned chunk of 8 bytes that lies in the range. -/
def InUpperHalf (dst n j : Nat) : Prop :=
  4 ≤ (dst + j) % 8 ∧ dst ≤ (dst + j) / 8 * 8 ∧ (dst + j) / 8 * 8 + 8 ≤ dst + n

instance : Decidable (InUpperHalf dst n j) :=
  inferInstanceAs (Decidable (_ ∧ _ ∧ _))

/-- What the loop has done up to its counter, which does not stand inside an aligned chunk of 8 bytes of
the range. -/
structure SetTo (dst n : Nat) (c : BitVec 32) (memory : FlatMemory) (s : LoopState) : Prop where
  written : ∀ j, j < s.i → s.memory (dst + j) =
    if 128 ≤ (c &&& 0xff).toNat ∧ InUpperHalf dst n j then 255 else lowByte c
  below : ∀ x, x < dst → s.memory x = memory x
  above : ∀ x, dst + s.i ≤ x → s.memory x = memory x
  between : ∀ i, i + 8 ≤ n → 8 ∣ dst + i → s.i ≤ i ∨ i + 8 ≤ s.i

theorem setTo_start : SetTo dst n c memory (.start memory) where
  written := nofun
  below _ _ := rfl
  above _ _ := rfl
  between i _ _ := .inl (Nat.zero_le i)

/-- Where no aligned chunk of 8 bytes begins, an access lies in none. -/
theorem inUpperHalf_iff (hw : IsWidth w) (hdvd : w ∣ dst + i) (hle : i + w ≤ n)
    (hwide : 8 ∣ dst + i → i + 8 ≤ n → 8 ≤ w)
    (hbetween : ∀ i', i' + 8 ≤ n → 8 ∣ dst + i' → i ≤ i' ∨ i' + 8 ≤ i) (hj : j < w) :
    InUpperHalf dst n (i + j) ↔ w = 8 ∧ 4 ≤ j := by
  unfold InUpperHalf
  constructor
  · intro ⟨hhigh, hdst, hend⟩
    -- the chunk of 8 bytes that the byte is in, by its offset
    obtain ⟨i', hi'⟩ := Nat.exists_eq_add_of_le hdst
    have haligned : 8 ∣ dst + i' := by omega
    have hout := hbetween i' (by omega) haligned
    rcases hw with rfl | rfl | rfl | rfl <;> omega
  · rintro ⟨rfl, hj⟩
    omega

theorem SetTo.access (hs : SetTo dst n c memory s) (hw : IsWidth w) (hdvd : w ∣ dst + s.i)
    (hle : s.i + w ≤ n) (hwide : 8 ∣ dst + s.i → s.i + 8 ≤ n → 8 ≤ w) :
    SetTo dst n c memory { setAccess dst (memsetValue c) w s with i := s.i + w } where
  written j hj := by
    have hj : j < s.i + w := hj
    show s.memory.store (dst + s.i) w (memsetValue c w) (dst + j) = _
    by_cases hold : j < s.i
    · rw [FlatMemory.store_of_lt (by omega)]
      exact hs.written j hold
    · obtain ⟨t, rfl⟩ := Nat.exists_eq_add_of_le (Nat.le_of_not_lt hold)
      have ht : t < w := by omega
      rw [← Nat.add_assoc, FlatMemory.store_inside ht, byte_memsetValue c hw ht]
      simp only [inUpperHalf_iff hw hdvd hle hwide hs.between ht]
  below x hx := by
    show s.memory.store (dst + s.i) w _ x = _
    rw [FlatMemory.store_of_lt (by omega)]
    exact hs.below x hx
  above x hx := by
    have hx : dst + (s.i + w) ≤ x := hx
    show s.memory.store (dst + s.i) w _ x = _
    rw [FlatMemory.store_of_ge (by omega)]
    exact hs.above x (by omega)
  between i hi haligned := by
    show s.i + w ≤ i ∨ i + 8 ≤ s.i + w
    have hout := hs.between i hi haligned
    rcases hw with rfl | rfl | rfl | rfl <;> omega

/-- What the loop of `cxlmc_memset` leaves behind. -/
theorem memset_sets (dst : Nat) (c : BitVec 32) (hfits : FitsCounter [dst] n) (memory : FlatMemory) :
    ∃ s, Returns n (cxlmcMemset dst c n memory) s ∧ s.i = n ∧ SetTo dst n c memory s := by
  refine (chunkLoop_rule hfits ?_ (Nat.zero_le n) setTo_start).1
  intro s _ hle hs
  have hdvd : chunkWidth [dst] n s.i ∣ dst + s.i := chunkWidth_dvd List.mem_cons_self
  apply hs.access (isWidth_chunkWidth _ n s.i) hdvd hle
  intro haligned hroom
  apply le_chunkWidth (.inr (.inr rfl))
  · intro a ha
    rw [List.mem_singleton.mp ha]
    exact haligned
  · exact Nat.le_trans (Nat.mod_le ..) hroom

theorem SetTo.filled_iff (hs : SetTo dst n c memory s) (hi : s.i = n) :
    Filled dst n (lowByte c) memory s.memory ↔
      ∀ j, j < n → 128 ≤ (c &&& 0xff).toNat → InUpperHalf dst n j → lowByte c = 255 := by
  constructor
  · intro hfilled j hj hneg hupper
    have hbyte := hs.written j (by omega)
    rw [if_pos ⟨hneg, hupper⟩, hfilled, if_pos ⟨Nat.le_add_right .., Nat.add_lt_add_left hj _⟩]
      at hbyte
    exact hbyte
  · intro hbytes x
    split
    · next hx =>
        obtain ⟨j, rfl⟩ := Nat.exists_eq_add_of_le hx.1
        have hj : j < n := by omega
        rw [hs.written j (by omega)]
        split
        · next hupper => exact (hbytes j hj hupper.1 hupper.2).symm
        · rfl
    · next hx =>
        rcases Nat.lt_or_ge x dst with hlt | hge
        · exact hs.below x hlt
        · apply hs.above
          rw [hi]
          exact Nat.le_of_not_lt fun h => hx ⟨hge, h⟩

theorem lowByte_eq_255 : lowByte c = 255 ↔ (c &&& 0xff).toNat = 255 := by
  have hlt : (c &&& 0xff).toNat < 256 := by
    rw [← toNat_memsetCs]
    exact (memsetCs c).isLt
  rw [← UInt8.toNat_inj, lowByte, UInt8.toNat_ofNat', Nat.mod_eq_of_lt hlt]
  rfl

/-- `cxlmc_memset` returns, and it has filled its range with the byte if and only if this is below
`0x80`, or `0xff`, or no aligned chunk of 8 bytes lies in the range. -/
theorem memset_fills (dst : Nat) (c : BitVec 32) (hn : n < 2 ^ 31) (memory : FlatMemory) :
    ∃ s, Returns n (cxlmcMemset dst c n memory) s ∧
      (Filled dst n (lowByte c) memory s.memory ↔
        (c &&& 0xff).toNat < 0x80 ∨ (c &&& 0xff).toNat = 0xff ∨
          ∀ i, i + 8 ≤ n → ¬ 8 ∣ dst + i) := by
  obtain ⟨s, hret, hi, hs⟩ := @memset_sets n dst c (.of_le (by omega)) memory
  refine ⟨s, hret, ?_⟩
  rw [hs.filled_iff hi, lowByte_eq_255]
  constructor
  · intro hbytes
    by_cases hneg : 128 ≤ (c &&& 0xff).toNat
    · by_cases hones : (c &&& 0xff).toNat = 255
      · exact .inr (.inl hones)
      · refine .inr (.inr ?_)
        intro i hroom haligned
        -- the fifth byte of the chunk
        refine hones (hbytes (i + 4) (by omega) hneg ⟨?_, ?_, ?_⟩) <;> omega
    · exact .inl (Nat.lt_of_not_le hneg)
  · intro hcond j hj hneg ⟨_, hdst, hend⟩
    rcases hcond with hpos | hones | hnone
    · exact absurd hpos (Nat.not_lt_of_le hneg)
    · exact hones
    · obtain ⟨i, hi⟩ := Nat.exists_eq_add_of_le hdst
      exact absurd (by omega) (hnone i (by omega))

end

/-- `memset_fills` for 21 bytes of the letter `A`. -/
theorem memset_fills_letter : ∃ s, Returns 21 (cxlmcMemset 4099 0x41 21 fun _ => 0) s ∧
    Filled 4099 21 0x41 (fun _ => 0) s.memory := by
  obtain ⟨s, hret, hiff⟩ := memset_fills (n := 21) 4099 0x41 (by decide) fun _ => 0
  exact ⟨s, hret, hiff.mpr (.inl (by decide))⟩

/-- One word of `0x80`: its upper half becomes `0xff`. -/
theorem memset_not_fills : ∃ s, Returns 8 (cxlmcMemset 4096 0x80 8 fun _ => 0) s ∧
    ¬ Filled 4096 8 (lowByte 0x80) (fun _ => 0) s.memory := by
  refine ⟨cxlmcMemset 4096 0x80 8 (fun _ => 0) 1, ⟨by decide, 1, rfl⟩, ?_⟩
  intro hfilled
  exact absurd (hfilled 4100) (by decide)

end Cxlmc
