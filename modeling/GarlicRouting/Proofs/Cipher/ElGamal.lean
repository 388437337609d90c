import GarlicRouting.Cipher.ElGamal
import GarlicRouting.Proofs.Octets
import Mathlib

/-! Powers modulo a number, and the handshake block: the private key opens what the public key of
its pair has closed. -/
namespace GarlicRouting

/-- One squaring takes the exponent from its leading bits to one bit more. -/
private theorem powMod_step (modulus base exponent k : Nat) :
    let square := (base ^ (exponent >>> (k + 1)) % modulus) *
      (base ^ (exponent >>> (k + 1)) % modulus) % modulus
    (if exponent.testBit k then square * base % modulus else square) =
      base ^ (exponent >>> k) % modulus := by
  intro square
  have hsquare : square = base ^ (2 * (exponent >>> (k + 1))) % modulus := by
    rw [two_mul, pow_add, Nat.mul_mod]
  have hbits : exponent >>> k = 2 * (exponent >>> (k + 1)) + (exponent.testBit k).toNat := by
    have hdiv : exponent >>> (k + 1) = (exponent >>> k) / 2 := by
      rw [Nat.shiftRight_succ]
    have hmod : (exponent.testBit k).toNat = (exponent >>> k) % 2 := by
      rw [Nat.toNat_testBit, Nat.shiftRight_eq_div_pow]
    omega
  cases hbit : exponent.testBit k with
  | false =>
    rw [hbit] at hbits
    simpa [hbits] using hsquare
  | true =>
    rw [hbit] at hbits
    rw [hbits, Bool.toNat_true, pow_succ, if_pos rfl, hsquare, Nat.mod_mul_mod]

theorem powMod_eq (modulus base exponent : Nat) :
    powMod modulus base exponent = base ^ exponent % modulus := by
  have leading : ∀ k, ((List.range k).reverse.map exponent.testBit).foldl
      (fun acc bit =>
        let square := acc * acc % modulus
        if bit then square * base % modulus else square)
      (base ^ (exponent >>> k) % modulus) = base ^ exponent % modulus := by
    intro k
    induction k with
    | zero => rfl
    | succ k ih =>
      rw [List.range_succ, List.reverse_append, List.reverse_singleton, List.singleton_append,
        List.map_cons, List.foldl_cons]
      rw [powMod_step]
      exact ih
  have none : exponent >>> (exponent.log2 + 1) = 0 := by
    rw [Nat.shiftRight_eq_div_pow]
    exact Nat.div_eq_of_lt Nat.lt_log2_self
  have h := leading (exponent.log2 + 1)
  rw [none, pow_zero] at h
  exact h

namespace ElGamal

/-- The order of the generator divides `prime - 1`. -/
theorem generator_pow_prime_sub_one : generator ^ (prime - 1) % prime = 1 := by
  rw [← powMod_eq]
  decide +kernel

theorem prime_bounds : 256 ^ 255 ≤ prime ∧ prime < 256 ^ 256 := by decide +kernel

theorem publicValue_lt (x : Nat) : publicValue x < prime := by
  rw [publicValue, powMod_eq]
  exact Nat.mod_lt _ (by decide +kernel)

/-- The private exponent takes off what the public value has put on. -/
private theorem mask_cancels (p g x k m : Nat) (one : g ^ (p - 1) % p = 1) (hx : x ≤ p - 1)
    (hm : m < p) :
    ((g ^ x % p) ^ k % p * m % p) * ((g ^ k % p) ^ (p - 1 - x) % p) % p = m := by
  have total : k * (p - 1) = x * k + k * (p - 1 - x) := by
    obtain ⟨y, hy⟩ := Nat.exists_eq_add_of_le hx
    rw [hy, Nat.add_sub_cancel_left]
    ring
  have unit : g ^ (k * (p - 1)) ≡ 1 [MOD p] := by
    have h : g ^ (p - 1) ≡ 1 [MOD p] := by
      have hp : 1 < p := by
        by_contra hp
        have : p = 0 ∨ p = 1 := by omega
        rcases this with rfl | rfl <;> simp at one hm
      rw [Nat.ModEq, one, Nat.mod_eq_of_lt hp]
    rw [mul_comm, pow_mul]
    simpa using h.pow k
  have product : ((g ^ x % p) ^ k % p * m % p) * ((g ^ k % p) ^ (p - 1 - x) % p) ≡
      g ^ (k * (p - 1)) * m [MOD p] := by
    calc
      _ ≡ ((g ^ x) ^ k * m) * (g ^ k) ^ (p - 1 - x) [MOD p] := by
        refine Nat.ModEq.mul ((Nat.mod_modEq _ _).trans ?_) ?_
        · exact ((Nat.mod_modEq _ _).trans ((Nat.mod_modEq _ _).pow k)).mul_right m
        · exact (Nat.mod_modEq _ _).trans ((Nat.mod_modEq _ _).pow _)
      _ = g ^ (k * (p - 1)) * m := by
        rw [← pow_mul, ← pow_mul, total, pow_add]
        ring
  have result := product.trans (unit.mul_right m)
  rw [one_mul] at result
  exact Nat.mod_eq_of_modEq result hm

/-- The plaintext that is put into a block passes the checks on the way out. -/
theorem verify_plaintext (data : Octets 222) : verify (plaintext data) = .ok data := by
  have parts : (plaintext data).toList = 0xff :: ((sha256 data.toList).toList ++ data.toList) := rfl
  have hdata : (plaintext data).slice 33 222 = data := by
    apply Octets.ext
    simp [parts]
  have hdigest : (plaintext data).slice 1 32 = sha256 data.toList := by
    apply Octets.ext
    simp [parts]
  have hmarker : (plaintext data).head = 0xff := rfl
  unfold verify
  rw [hdata, hdigest, hmarker]
  simp

private theorem block_parts (a b : Nat) (rest : Bytes) :
    let block := ((⟨[0], rfl⟩ : Octets 1) ++ Octets.ofNat 256 a ++ (⟨[0], rfl⟩ : Octets 1) ++
      Octets.ofNat 256 b : Octets 514).toList ++ rest
    514 ≤ block.length ∧ (block.drop 1).take 256 = bigEndian 256 a ∧
      (block.drop 258).take 256 = bigEndian 256 b := by
  intro block
  have parts : block = [0] ++ bigEndian 256 a ++ [0] ++ bigEndian 256 b ++ rest := rfl
  have second : [0] ++ bigEndian 256 a ++ [0] ++ bigEndian 256 b ++ rest =
      ([0] ++ bigEndian 256 a ++ [0]) ++ (bigEndian 256 b ++ rest) := by simp
  rw [parts]
  refine ⟨by simp; omega, by simp, ?_⟩
  rw [second, List.drop_left' (by simp), List.take_left' (by simp)]

theorem decrypt_encrypt (x k : Nat) (hx : x < prime - 1) (data : Octets 222) (rest : Bytes) :
    decrypt (KeyPair.ofExponent x).privateKey
      ((encrypt (KeyPair.ofExponent x).publicKey k data).toList ++ rest) = .ok data := by
  obtain ⟨hlo, hhi⟩ := prime_bounds
  have positive : 0 < prime := by omega
  have hm : (plaintext data).toNat < 256 ^ 255 := Octets.toNat_lt _
  have hprivate : (KeyPair.ofExponent x).privateKey.octets.toNat = x :=
    Octets.toNat_ofNat 256 x (by omega)
  have hpublic : (KeyPair.ofExponent x).publicKey.octets.toNat = generator ^ x % prime := by
    rw [← powMod_eq]
    exact Octets.toNat_ofNat 256 _ (lt_trans (publicValue_lt x) hhi)
  obtain ⟨hlength, hfirst, hsecond⟩ := block_parts (powMod prime generator k)
    (powMod prime (KeyPair.ofExponent x).publicKey.octets.toNat k * (plaintext data).toNat % prime)
    rest
  have ha : powMod prime generator k < prime := by
    rw [powMod_eq]
    exact Nat.mod_lt _ positive
  have hb (n : Nat) : n % prime < prime := Nat.mod_lt _ positive
  unfold decrypt encrypt
  dsimp only
  rw [if_neg (not_lt.mpr hlength), hfirst, hsecond, ofBigEndian_bigEndian, ofBigEndian_bigEndian,
    Nat.mod_eq_of_lt (ha.trans hhi), Nat.mod_eq_of_lt ((hb _).trans hhi), hprivate, hpublic,
    if_neg (by simp only [not_or, not_le]; exact ⟨ha, hb _⟩), if_neg (not_le.mpr hx)]
  rw [powMod_eq, powMod_eq, powMod_eq,
    mask_cancels prime generator x k _ generator_pow_prime_sub_one hx.le (hm.trans_le hlo),
    Nat.pow_eq, if_neg (not_le.mpr hm), Octets.ofNat_toNat, verify_plaintext]

/-- Only the two components of a block are looked at, not what stands before each of them or after the
block. -/
theorem decrypt_congr (key : PrivateKey) {block other : Bytes} (length : 514 ≤ block.length)
    (length' : 514 ≤ other.length)
    (first : (other.drop 1).take 256 = (block.drop 1).take 256)
    (second : (other.drop 258).take 256 = (block.drop 258).take 256) :
    decrypt key other = decrypt key block := by
  unfold decrypt
  rw [if_neg (not_lt.mpr length), if_neg (not_lt.mpr length'), first, second]

/-- An octet outside of a slice can be changed. -/
private theorem slice_set {i start : Nat} (bs : Bytes) (b : UInt8)
    (outside : i < start ∨ start + 256 ≤ i) :
    ((bs.set i b).drop start).take 256 = (bs.drop start).take 256 := by
  rw [List.drop_set]
  split_ifs with before
  · rfl
  · rw [List.take_set, List.set_eq_of_length_le]
    rw [List.length_take]
    omega

theorem decrypt_overlooks (key : PrivateKey) {block : Bytes} (length : 514 ≤ block.length)
    (first second : UInt8) (rest : Bytes) :
    decrypt key ((block.set 0 first).set 257 second ++ rest) = decrypt key block := by
  have size : ((block.set 0 first).set 257 second).length = block.length := by simp
  have slice {start : Nat} (inside : start + 256 ≤ block.length) :
      (((block.set 0 first).set 257 second ++ rest).drop start).take 256 =
        (((block.set 0 first).set 257 second).drop start).take 256 := by
    rw [List.drop_append_of_le_length (by omega), List.take_append_of_le_length]
    rw [List.length_drop]
    omega
  refine decrypt_congr key length (by rw [List.length_append]; omega) ?_ ?_
  · rw [slice (by omega), slice_set _ _ (by omega), slice_set _ _ (by omega)]
  · rw [slice (by omega), slice_set _ _ (by omega), slice_set _ _ (by omega)]

/-- Every private exponent opens every block that is made with its public value, whichever exponent
the block was made with. The octets before the two components, and all that follow the block, can be
anything. -/
theorem opens_every_block (x k : Nat) (hx : x < prime - 1) (data : Octets 222)
    (first second : UInt8) (rest : Bytes) :
    let block := encrypt ⟨.ofNat 256 (generator ^ x % prime)⟩ k data
    decrypt ⟨.ofNat 256 x⟩ block.toList = .ok data ∧
      decrypt ⟨.ofNat 256 x⟩ ((block.toList.set 0 first).set 257 second ++ rest) = .ok data := by
  intro block
  have pair : (KeyPair.ofExponent x).publicKey = ⟨.ofNat 256 (generator ^ x % prime)⟩ := by
    rw [KeyPair.ofExponent, publicValue, powMod_eq]
  have opened : decrypt ⟨.ofNat 256 x⟩ block.toList = .ok data := by
    have h := decrypt_encrypt x k hx data []
    rwa [List.append_nil, pair] at h
  refine ⟨opened, ?_⟩
  rw [decrypt_overlooks _ (by rw [block.length_toList]), opened]

/-- The shortest exponents there are, and data with leading zeros. -/
theorem opens_every_block_shortest :
    let data : Octets 222 := .ofNat 222 1
    let block := encrypt ⟨.ofNat 256 (generator ^ 0 % prime)⟩ 1 data
    0 < prime - 1 ∧ decrypt ⟨.ofNat 256 0⟩ block.toList = .ok data ∧
      decrypt ⟨.ofNat 256 0⟩ ((block.toList.set 0 7).set 257 9 ++ [1, 2, 3]) = .ok data := by
  have positive : 0 < prime - 1 := by decide +kernel
  exact ⟨positive, opens_every_block 0 1 positive (.ofNat 222 1) 7 9 [1, 2, 3]⟩

end ElGamal

end GarlicRouting
