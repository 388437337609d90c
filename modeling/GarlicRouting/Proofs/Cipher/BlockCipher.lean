import GarlicRouting.Cipher.Chaining
import Mathlib

/-! The inverse cipher undoes the cipher, block by block and for whole messages in chaining mode. -/
namespace GarlicRouting.Aes

theorem unsubstitute_substitute (x : UInt8) : unsubstitute (substitute x) = x := by
  have table : ∀ n : Fin 256,
      unsubstitute (substitute (.ofNat n.val)) = UInt8.ofNat n.val := by decide +kernel
  simpa using table ⟨x.toNat, x.toNat_lt⟩

private theorem xor_xor_self_right (x y : UInt8) : x ^^^ y ^^^ y = x := by
  rw [UInt8.xor_assoc, UInt8.xor_self, UInt8.xor_zero]

private theorem xor_left_comm (x y z : UInt8) : x ^^^ (y ^^^ z) = y ^^^ (x ^^^ z) := by
  rw [← UInt8.xor_assoc, UInt8.xor_comm x, UInt8.xor_assoc]

private theorem lt_iff_msb (x : UInt8) : x < 128 ↔ x.toBitVec.msb = false := by
  rw [BitVec.msb_eq_decide, decide_eq_false_iff_not, UInt8.lt_iff_toNat_lt]
  simp

/-- Multiplication by the field element `x` is additive. -/
theorem double_xor (x y : UInt8) : double (x ^^^ y) = double x ^^^ double y := by
  have shift : (x ^^^ y) <<< 1 = x <<< 1 ^^^ y <<< 1 := by
    apply UInt8.eq_of_toBitVec_eq
    simp [BitVec.shiftLeft_xor_distrib]
  have high : x ^^^ y < 128 ↔ (x < 128 ↔ y < 128) := by
    simp only [lt_iff_msb, UInt8.toBitVec_xor, BitVec.msb_xor]
    cases x.toBitVec.msb <;> cases y.toBitVec.msb <;> simp
  by_cases hx : x < 128 <;> by_cases hy : y < 128 <;>
    simp only [double, shift, high, hx, hy, iff_true, iff_false, if_true, if_false,
      not_true_eq_false, UInt8.xor_zero]
  · rw [UInt8.xor_assoc]
  · rw [UInt8.xor_assoc, UInt8.xor_assoc, UInt8.xor_comm 0x1b]
  · rw [UInt8.xor_comm (y <<< 1), ← UInt8.xor_assoc, xor_xor_self_right]

namespace Column

/-- Twice the matrix of `mix` is the circulant one with first row 5, 0, 4, 0. -/
theorem mix_mix (w : Column) :
    w.mix.mix =
      let u := double (double (w.a ^^^ w.c))
      let v := double (double (w.b ^^^ w.d))
      ⟨w.a ^^^ u, w.b ^^^ v, w.c ^^^ u, w.d ^^^ v⟩ := by
  simp only [mix, double_xor, mk.injEq]
  generalize double (double w.a) = a₂, double (double w.b) = b₂, double (double w.c) = c₂,
    double (double w.d) = d₂
  generalize double w.a = a₁, double w.b = b₁, double w.c = c₁, double w.d = d₁
  refine ⟨?_, ?_, ?_, ?_⟩ <;> simp [UInt8.xor_comm, xor_left_comm]

theorem unmix_eq_mix (w : Column) : w.unmix = w.mix.mix.mix := by
  rw [mix_mix w]
  rfl

theorem unmix_mix (w : Column) : w.mix.unmix = w := by
  have shared (x y u : UInt8) : (x ^^^ u) ^^^ (y ^^^ u) = x ^^^ y := by
    rw [UInt8.xor_comm y, ← UInt8.xor_assoc, xor_xor_self_right]
  rw [unmix_eq_mix, mix_mix w, mix_mix]
  simp only [shared, xor_xor_self_right]

theorem map_unsubstitute_substitute (w : Column) : (w.map substitute).map unsubstitute = w := by
  simp only [map, unsubstitute_substitute]

theorem xor_xor_self (v w : Column) : (v.xor w).xor w = v := by
  simp only [xor, xor_xor_self_right]

end Column

namespace Block

theorem xor_xor_self (b c : Block) : (b.xor c).xor c = b := by
  simp only [xor, Column.xor_xor_self]

theorem map_unmix_mix (b : Block) : (b.map Column.mix).map Column.unmix = b := by
  simp only [map, Column.unmix_mix]

theorem unshiftSubstitute_substituteShift (b : Block) : b.substituteShift.unshiftSubstitute = b := by
  have rows (c : Block) : c.shiftRows.unshiftRows = c := rfl
  rw [unshiftSubstitute, substituteShift, rows]
  simp only [map, Column.map_unsubstitute_substitute]

@[simp] theorem length_toList (b : Block) : b.toList.length = 16 := rfl

private theorem splitOnto_append (acc : List Block) (b : Block) (bs : Bytes) :
    splitOnto acc (b.toList ++ bs) = splitOnto (b :: acc) bs := rfl

private theorem splitOnto_flatMap (acc bs : List Block) :
    splitOnto acc (bs.flatMap toList) = acc.reverse ++ bs := by
  induction bs generalizing acc with
  | nil => simp [splitOnto]
  | cons b bs ih => rw [List.flatMap_cons, splitOnto_append, ih]; simp

theorem split_flatMap (bs : List Block) : split (bs.flatMap toList) = bs := splitOnto_flatMap [] bs

private theorem exists_toList_eq (bs : Bytes) (h : bs.length = 16) : ∃ b : Block, b.toList = bs := by
  match bs, h with
  | [a₀, a₁, a₂, a₃, b₀, b₁, b₂, b₃, c₀, c₁, c₂, c₃, d₀, d₁, d₂, d₃], _ =>
    exact ⟨⟨⟨a₀, a₁, a₂, a₃⟩, ⟨b₀, b₁, b₂, b₃⟩, ⟨c₀, c₁, c₂, c₃⟩, ⟨d₀, d₁, d₂, d₃⟩⟩, rfl⟩

theorem exists_flatMap_eq (n : Nat) (bs : Bytes) (h : bs.length = 16 * n) :
    ∃ blocks : List Block, blocks.length = n ∧ blocks.flatMap toList = bs := by
  induction n generalizing bs with
  | zero => exact ⟨[], rfl, by simp [List.length_eq_zero_iff.mp h]⟩
  | succ n ih =>
    obtain ⟨b, hb⟩ := exists_toList_eq (bs.take 16) (by simp; omega)
    obtain ⟨blocks, hn, hblocks⟩ := ih (bs.drop 16) (by simp; omega)
    exact ⟨b :: blocks, by simp [hn], by simp [hb, hblocks]⟩

end Block

private theorem unrounds_rounds_singleton (k b : Block) :
    unrounds [k] (rounds [k] b) = ((b.substituteShift.xor k).xor k).unshiftSubstitute := rfl

private theorem rounds_cons_cons (k k' : Block) (ks : List Block) (b : Block) :
    rounds (k :: k' :: ks) b = rounds (k' :: ks) ((b.substituteShift.map Column.mix).xor k) := rfl

private theorem unrounds_cons_cons (k k' : Block) (ks : List Block) (b : Block) :
    unrounds (k :: k' :: ks) b =
      (((unrounds (k' :: ks) b).xor k).map Column.unmix).unshiftSubstitute := rfl

/-- The rounds are undone in the opposite order. -/
theorem unrounds_rounds (keys : List Block) (b : Block) : unrounds keys (rounds keys b) = b := by
  induction keys generalizing b with
  | nil => rfl
  | cons k ks ih =>
    cases ks with
    | nil =>
      rw [unrounds_rounds_singleton, Block.xor_xor_self, Block.unshiftSubstitute_substituteShift]
    | cons k' ks =>
      rw [rounds_cons_cons, unrounds_cons_cons, ih, Block.xor_xor_self, Block.map_unmix_mix,
        Block.unshiftSubstitute_substituteShift]

theorem decryptBlock_encryptBlock (keys : List Block) (b : Block) :
    decryptBlock keys (encryptBlock keys b) = b := by
  cases keys with
  | nil => rfl
  | cons k ks => rw [encryptBlock, decryptBlock, unrounds_rounds, Block.xor_xor_self]

end GarlicRouting.Aes

namespace GarlicRouting.Chaining

open Aes

/-- The ciphertext of one block after the other, each chained to the one before. -/
private def chain (cipher : Block → Block) : Block → List Block → List Block
  | _, [] => []
  | prev, b :: bs =>
    let c := cipher (b.xor prev)
    c :: chain cipher c bs

private theorem encryptBlocks_eq_chain (cipher : Block → Block) (iv : Block) (bs : List Block) :
    encryptBlocks cipher iv bs = chain cipher iv bs := by
  suffices ∀ (prev : Block) (acc : List Block),
      (bs.foldl (fun p b => (cipher (b.xor p.1), cipher (b.xor p.1) :: p.2))
        (prev, acc)).2.reverse = acc.reverse ++ chain cipher prev bs from this iv []
  induction bs with
  | nil => simp [chain]
  | cons b bs ih => intro prev acc; simp [chain, ih]

@[simp] theorem length_encryptBlocks (cipher : Block → Block) (iv : Block) (bs : List Block) :
    (encryptBlocks cipher iv bs).length = bs.length := by
  rw [encryptBlocks_eq_chain]
  induction bs generalizing iv with
  | nil => rfl
  | cons b bs ih => simp [chain, ih]

theorem decryptBlocks_encryptBlocks (encipher decipher : Block → Block)
    (inverse : ∀ b, decipher (encipher b) = b) (iv : Block) (bs : List Block) :
    decryptBlocks decipher iv (encryptBlocks encipher iv bs) = bs := by
  rw [encryptBlocks_eq_chain]
  induction bs generalizing iv with
  | nil => rfl
  | cons b bs ih =>
    have tail := ih (encipher (b.xor iv))
    simp only [decryptBlocks] at tail
    simp only [decryptBlocks, chain, List.zipWith_cons_cons, inverse, Block.xor_xor_self, tail]

theorem length_of_encrypt {key : Octets 32} {iv : Octets 16} {data ciphertext : Bytes}
    (h : encrypt key iv data = .ok ciphertext) :
    data.length % 16 = 0 ∧ ciphertext.length = data.length := by
  unfold encrypt overBlocks at h
  split_ifs at h with aligned
  cases h
  obtain ⟨blocks, hn, rfl⟩ := Block.exists_flatMap_eq (data.length / 16) data (by omega)
  refine ⟨aligned, ?_⟩
  rw [Block.split_flatMap]
  simp [List.length_flatMap]

theorem encrypt_of_aligned (key : Octets 32) (iv : Octets 16) {data : Bytes}
    (aligned : data.length % 16 = 0) : ∃ ciphertext, encrypt key iv data = .ok ciphertext :=
  ⟨_, by rw [encrypt, overBlocks, if_pos aligned]⟩

/-- Decryption inverts encryption on whole blocks. -/
theorem decrypt_encrypt {key : Octets 32} {iv : Octets 16} {data ciphertext : Bytes}
    (h : encrypt key iv data = .ok ciphertext) : decrypt key iv ciphertext = .ok data := by
  obtain ⟨aligned, hlength⟩ := length_of_encrypt h
  unfold encrypt overBlocks at h
  rw [if_pos aligned] at h
  cases h
  obtain ⟨blocks, hn, rfl⟩ := Block.exists_flatMap_eq (data.length / 16) data (by omega)
  rw [decrypt, overBlocks, if_pos (by rw [hlength]; exact aligned), Block.split_flatMap,
    Block.split_flatMap,
    decryptBlocks_encryptBlocks _ _ (decryptBlock_encryptBlock (roundKeys key))]

end GarlicRouting.Chaining
