import GarlicRouting.Octets
import Mathlib

/-! Big-endian numbers and octet strings determine each other, and fields of joined strings. -/
namespace GarlicRouting

/-- Writing a number in `width` octets keeps it modulo `256 ^ width`. -/
theorem ofBigEndian_bigEndian (width value : Nat) :
    ofBigEndian (bigEndian width value) = value % 256 ^ width := by
  induction width generalizing value with
  | zero => simp [bigEndian, ofBigEndian, Nat.mod_one]
  | succ width ih =>
    have octet : (UInt8.ofNat value).toNat = value % 256 := by simp
    rw [bigEndian, ofBigEndian_append_singleton, ih, octet, Nat.pow_succ,
      Nat.mul_comm (256 ^ width) 256, Nat.mod_mul]
    omega

theorem ofBigEndian_lt (bs : Bytes) : ofBigEndian bs < 256 ^ bs.length := by
  induction bs using List.reverseRecOn with
  | nil => simp [ofBigEndian]
  | append_singleton bs b ih =>
    have octet := b.toNat_lt
    rw [ofBigEndian_append_singleton, List.length_append, List.length_singleton, Nat.pow_succ]
    omega

theorem bigEndian_ofBigEndian (bs : Bytes) : bigEndian bs.length (ofBigEndian bs) = bs := by
  induction bs using List.reverseRecOn with
  | nil => rfl
  | append_singleton bs b ih =>
    have octet := b.toNat_lt
    have high : (256 * ofBigEndian bs + b.toNat) / 256 = ofBigEndian bs := by omega
    have low : UInt8.ofNat (256 * ofBigEndian bs + b.toNat) = b := by
      apply UInt8.toNat_inj.mp
      rw [UInt8.toNat_ofNat']
      omega
    rw [ofBigEndian_append_singleton, List.length_append, List.length_singleton, bigEndian, high,
      low, ih]

theorem uint16_ofBigEndian (n : UInt16) : UInt16.ofNat (ofBigEndian (bigEndian 2 n.toNat)) = n := by
  rw [ofBigEndian_bigEndian, Nat.mod_eq_of_lt (by have := n.toNat_lt; omega), UInt16.ofNat_toNat]

theorem uint32_ofBigEndian (n : UInt32) : UInt32.ofNat (ofBigEndian (bigEndian 4 n.toNat)) = n := by
  rw [ofBigEndian_bigEndian, Nat.mod_eq_of_lt (by have := n.toNat_lt; omega), UInt32.ofNat_toNat]

theorem uint64_ofBigEndian (n : UInt64) : UInt64.ofNat (ofBigEndian (bigEndian 8 n.toNat)) = n := by
  rw [ofBigEndian_bigEndian, Nat.mod_eq_of_lt (by have := n.toNat_lt; omega), UInt64.ofNat_toNat]

namespace Octets

variable {m n : Nat}

@[simp] theorem toList_append (a : Octets m) (b : Octets n) :
    (a ++ b).toList = a.toList ++ b.toList := rfl

@[simp] theorem toList_ofNat (n value : Nat) : (ofNat n value).toList = bigEndian n value := rfl

@[simp] theorem toList_slice (a : Octets n) (start len : Nat) (h : start + len ≤ n) :
    (a.slice start len h).toList = (a.toList.drop start).take len := rfl

theorem toNat_lt (a : Octets n) : a.toNat < 256 ^ n := by
  simpa [toNat] using ofBigEndian_lt a.toList

theorem toNat_ofNat (n value : Nat) (h : value < 256 ^ n) : (ofNat n value).toNat = value := by
  rw [toNat, toList_ofNat, ofBigEndian_bigEndian, Nat.mod_eq_of_lt h]

@[simp] theorem ofNat_toNat (a : Octets n) : ofNat n a.toNat = a := by
  apply ext
  have h := bigEndian_ofBigEndian a.toList
  rwa [a.length_toList] at h

theorem ofList?_eq_some_iff {n : Nat} {bs : Bytes} {a : Octets n} :
    ofList? n bs = some a ↔ bs = a.toList := by
  unfold ofList?
  split_ifs with h
  · rw [Option.some.injEq]
    exact ⟨fun e => by rw [← e], fun e => ext e⟩
  · simp only [false_iff]
    rintro rfl
    exact h a.length_toList

instance : Std.LawfulEqOrd (Octets n) where
  compare_self := (inferInstance : Std.ReflCmp (compareOn (toList (n := n)))).compare_self
  eq_of_compare h := ext (Std.LawfulEqOrd.eq_of_compare h)

instance : Std.TransOrd (Octets n) := inferInstanceAs (Std.TransCmp (compareOn toList))

end Octets

end GarlicRouting
