import Mathlib.Data.Nat.Digits.Defs


/-!
# Numbers as little-endian bytes

`toBytes k n` are the `k` low bytes of `n`, the lowest first, and `ofBytes` reads them back.
-/

namespace Bytes

/-- The `k` low bytes of `n`. -/
def toBytes : (k : Nat) → Nat → List UInt8
  | 0, _ => []
  | k + 1, n => UInt8.ofNat n :: toBytes k (n / 256)

def ofBytes : List UInt8 → Nat
  | [] => 0
  | b :: bs => b.toNat + 256 * ofBytes bs

@[simp] theorem length_toBytes (k n : Nat) : (toBytes k n).length = k := by
  induction k generalizing n with
  | zero => rfl
  | succ k ih =>
      show (toBytes k (n / 256)).length + 1 = k + 1
      rw [ih]

/-- The first bytes are those of the number. -/
theorem take_toBytes (k n : Nat) (bs : List UInt8) : (toBytes k n ++ bs).take k = toBytes k n :=
  List.take_left' (length_toBytes k n)

/-- What stands behind the bytes of a number. -/
theorem drop_toBytes (k n : Nat) (bs : List UInt8) : (toBytes k n ++ bs).drop k = bs :=
  List.drop_left' (length_toBytes k n)

/-- Reading back what was written gives the number, as far as it fits. -/
theorem ofBytes_toBytes (k n : Nat) : ofBytes (toBytes k n) = n % 256 ^ k := by
  induction k generalizing n with
  | zero => exact (Nat.mod_one n).symm
  | succ k ih =>
      have hlow : (UInt8.ofNat n).toNat = n % 256 := UInt8.toNat_ofNat'
      show (UInt8.ofNat n).toNat + 256 * ofBytes (toBytes k (n / 256)) = n % 256 ^ (k + 1)
      rw [ih, hlow, Nat.pow_succ', Nat.mod_mul]

/-- The bytes of a number that was read from bytes. -/
theorem toBytes_ofBytes {k : Nat} {bs : List UInt8} (hlen : bs.length = k) :
    toBytes k (ofBytes bs) = bs := by
  induction bs generalizing k with
  | nil =>
      subst hlen
      rfl
  | cons b bs ih =>
      subst hlen
      have hlt := b.toNat_lt
      have hlow : UInt8.ofNat (b.toNat + 256 * ofBytes bs) = b := by
        apply UInt8.toNat_inj.mp
        rw [UInt8.toNat_ofNat', Nat.add_mul_mod_self_left, Nat.mod_eq_of_lt hlt]
      have hhigh : (b.toNat + 256 * ofBytes bs) / 256 = ofBytes bs := by omega
      show UInt8.ofNat (b.toNat + 256 * ofBytes bs) ::
        toBytes bs.length ((b.toNat + 256 * ofBytes bs) / 256) = b :: bs
      rw [hlow, hhigh, ih rfl]

/-- Each byte of a number. -/
theorem getElem?_toBytes {k j : Nat} (n : Nat) (hj : j < k) :
    (toBytes k n)[j]? = some (UInt8.ofNat (n / 256 ^ j)) := by
  induction k generalizing n j with
  | zero => exact absurd hj (Nat.not_lt_zero j)
  | succ k ih =>
      cases j with
      | zero =>
          rw [toBytes, List.getElem?_cons_zero, Nat.pow_zero, Nat.div_one]
      | succ j =>
          rw [toBytes, List.getElem?_cons_succ, ih _ (Nat.lt_of_succ_lt_succ hj), Nat.div_div_eq_div_mul,
            Nat.pow_succ']

/-- Bytes that are all zero. -/
theorem ofBytes_eq_zero {bs : List UInt8} (h : ∀ b ∈ bs, b = 0) : ofBytes bs = 0 := by
  induction bs with
  | nil => rfl
  | cons b bs ih =>
      obtain ⟨rfl, hbs⟩ := List.forall_mem_cons.mp h
      rw [ofBytes, ih hbs]
      rfl

theorem ofBytes_eq_ofDigits (bs : List UInt8) : ofBytes bs = Nat.ofDigits 256 (bs.map UInt8.toNat) := by
  induction bs with
  | nil => rfl
  | cons b bs ih => rw [ofBytes, List.map_cons, Nat.ofDigits_cons, ih]

theorem ofBytes_lt {k : Nat} {bs : List UInt8} (hlen : bs.length = k) : ofBytes bs < 256 ^ k := by
  rw [← toBytes_ofBytes hlen, ofBytes_toBytes]
  exact Nat.mod_lt _ (Nat.pow_pos (by decide))

end Bytes
