import GarlicRouting.TagBlock
import GarlicRouting.Proofs.Cipher.BlockCipher
import GarlicRouting.Proofs.Decoder
import Mathlib

/-! The encrypted block: decryption under the same key and seed gives back what was encrypted. -/
namespace GarlicRouting.TagBlock

open Decoder

/-- The limits of the block's length fields. -/
structure Fits (b : TagBlock) : Prop where
  tags : b.tags.length ≤ 65535
  payload : b.payload.length ≤ 4294967295

/-- The octets of a block that fits, without the filling. -/
def octets (b : TagBlock) : Bytes :=
  bigEndian 2 b.tags.length ++ (b.tags.flatMap fun t => t.octets.toList) ++
    bigEndian 4 b.payload.length ++ (sha256 b.payload).toList ++
    (b.newKey.elim [0] fun k => 1 :: k.octets.toList) ++ b.payload

theorem encodeUnpadded_eq_ok_iff {b : TagBlock} {bs : Bytes} :
    b.encodeUnpadded = .ok bs ↔ b.Fits ∧ bs = b.octets := by
  unfold encodeUnpadded
  split_ifs with htags hpayload
  · simp only [false_iff]
    intro hh
    obtain ⟨⟨h, _⟩, _⟩ := hh
    omega
  · simp only [false_iff]
    intro hh
    obtain ⟨⟨_, h⟩, _⟩ := hh
    omega
  · have fits : b.Fits := ⟨not_lt.mp htags, not_lt.mp hpayload⟩
    rw [Except.ok.injEq]
    exact ⟨fun h => ⟨fits, h.symm⟩, fun h => h.2.symm⟩

private theorem rewrap (b : TagBlock) (payload : Bytes) :
    (⟨(b.tags.map SessionTag.octets).map .mk, (b.newKey.map SessionKey.octets).map .mk,
      payload⟩ : TagBlock) = { b with payload } := by
  obtain ⟨_, k, _⟩ := b
  cases k <;> simp [Function.comp_def]

/-- All that stands before the payload. -/
def header (b : TagBlock) : Bytes :=
  bigEndian 2 b.tags.length ++ (b.tags.flatMap fun t => t.octets.toList) ++
    bigEndian 4 b.payload.length ++ (sha256 b.payload).toList ++
    (b.newKey.elim [0] fun k => 1 :: k.octets.toList)

theorem octets_eq (b : TagBlock) : b.octets = b.header ++ b.payload := rfl

theorem length_octets (b : TagBlock) : b.octets.length = b.unpaddedLength := by
  have tags : (b.tags.flatMap fun t => t.octets.toList).length = 32 * b.tags.length := by
    simp [List.length_flatMap]
    omega
  cases hk : b.newKey <;> simp [octets, unpaddedLength, tags, hk] <;> omega

/-- The payload that follows the header counts only if it has the digest in the header. -/
theorem decode_header {b : TagBlock} (fits : b.Fits) {payload : Bytes}
    (same : payload.length = b.payload.length) (rest : Bytes) :
    decode (b.header ++ (payload ++ rest)) =
      if sha256 payload = sha256 b.payload then .ok ({ b with payload }, rest)
      else .error (.digest (sha256 payload) (sha256 b.payload)) := by
  have hcount : (UInt16.ofNat b.tags.length).toNat = b.tags.length :=
    UInt16.toNat_ofNat_of_lt (by have := fits.tags; simp [UInt16.size]; omega)
  have hsize : (UInt32.ofNat b.payload.length).toNat = payload.length := by
    rw [same]
    exact UInt32.toNat_ofNat_of_lt (by have := fits.payload; simp [UInt32.size]; omega)
  let flag : UInt8 := if b.newKey.isSome then 1 else 0
  have hbit : ∀ k : Bool, decide (((if k then 1 else 0) : UInt8) &&& 1 ≠ 0) = k := by decide
  have hflag : decide (flag &&& 1 ≠ 0) = b.newKey.isSome := hbit _
  have tags : Reads (repeated (UInt16.ofNat b.tags.length).toNat (Decoder.octets 32 .sessionTags))
      ((b.tags.map SessionTag.octets).flatMap Octets.toList) (b.tags.map SessionTag.octets) :=
    repeated_reads (by rw [hcount, List.length_map]) fun _ _ => octets_reads _ _
  have newKey : Reads (optional (decide (flag &&& 1 ≠ 0)) (Decoder.octets 32 .newSessionKey))
      ((b.newKey.map SessionKey.octets).elim [] Octets.toList) (b.newKey.map SessionKey.octets) :=
    optional_reads (octets_reads _) (by rw [hflag, Option.isSome_map])
  have body := bytes_reads .blockPayload payload
  rw [← hsize] at body
  have parts : b.header ++ (payload ++ rest) = bigEndian 2 b.tags.length ++
      ((b.tags.map SessionTag.octets).flatMap Octets.toList ++ (bigEndian 4 b.payload.length ++
        ((sha256 b.payload).toList ++ ([flag] ++
          ((b.newKey.map SessionKey.octets).elim [] Octets.toList ++ (payload ++ rest)))))) := by
    cases hk : b.newKey <;> simp [header, flag, hk, List.flatMap_map]
  rw [parts, decode, (uint16_reads_ofNat _ fits.tags).bind_eq, bind_apply,
    require_apply]
  · refine (tags.bind_eq _ _).trans (((uint32_reads_ofNat _ fits.payload).bind_eq _ _).trans
      (((octets_reads _ _).bind_eq _ _).trans (((uint8_reads _ _).bind_eq _ _).trans
        ((newKey.bind_eq _ _).trans ((body.bind_eq _ _).trans ?_)))))
    by_cases equal : sha256 payload = sha256 b.payload
    · simp only [equal, ne_eq, not_true_eq_false, if_false, if_true, rewrap]
      rfl
    · simp only [equal, ne_eq, not_false_eq_true, if_false, if_true]
      rfl
  · rw [hcount]
    simp [List.flatMap_map, List.length_flatMap]
    omega

theorem decode_reads {b : TagBlock} (fits : b.Fits) : Reads decode b.octets b := by
  intro rest
  rw [octets_eq, List.append_assoc, decode_header fits rfl, if_pos rfl]

theorem decode_selfDelimiting : SelfDelimiting decode := by
  refine (uint16_selfDelimiting _).bind fun count => ?_
  have least : Takes (repeated count.toNat (Decoder.octets 32 .sessionTags))
      fun _ => 32 * count.toNat := by
    intro bs tags rest h
    obtain ⟨length, total⟩ := (octets_takes 32 _).repeated h
    rw [List.map_const', List.sum_replicate, smul_eq_mul, length, Nat.mul_comm] at total
    exact total
  refine ((octets_selfDelimiting 32 _).repeated _).require least (fun _ => ?_) _
  exact (uint32_selfDelimiting _).bind fun _ => (octets_selfDelimiting 32 _).bind fun _ =>
    (uint8_selfDelimiting _).bind fun _ => ((octets_selfDelimiting 32 _).optional _).bind fun _ =>
      (bytes_selfDelimiting _ _).bind fun _ => (selfDelimiting_throw _).ite (selfDelimiting_pure _)

/-- A block is filled up to whole cipher blocks. -/
theorem encode_eq_ok {b : TagBlock} {filler : Octets 15} {bs : Bytes}
    (h : b.encode filler = .ok bs) :
    b.Fits ∧ bs.length % 16 = 0 ∧ bs.length ≤ b.octets.length + 15 ∧
      ∃ padding, bs = b.octets ++ padding := by
  unfold encode at h
  cases hu : b.encodeUnpadded with
  | error e => rw [hu] at h; cases h
  | ok unpadded =>
    obtain ⟨fits, rfl⟩ := encodeUnpadded_eq_ok_iff.mp hu
    rw [hu] at h
    cases h
    refine ⟨fits, ?_, ?_, _, rfl⟩
    · rw [List.length_append, List.length_take, filler.length_toList]
      omega
    · rw [List.length_append, List.length_take, filler.length_toList]
      omega

theorem encode_of_fits {b : TagBlock} (fits : b.Fits) (filler : Octets 15) :
    ∃ bs, b.encode filler = .ok bs := by
  rw [encode, encodeUnpadded_eq_ok_iff.mpr ⟨fits, rfl⟩]
  exact ⟨_, rfl⟩

/-- A block can be encrypted exactly when it fits. -/
theorem exists_encrypt_eq_ok_iff {b : TagBlock} {key : SessionKey} {seed : Octets 32}
    {filler : Octets 15} : (∃ bs, b.encrypt key seed filler = .ok bs) ↔ b.Fits := by
  constructor
  · intro hh
    obtain ⟨bs, h⟩ := hh
    unfold encrypt at h
    cases he : b.encode filler with
    | error e => rw [he] at h; cases h
    | ok plain => exact (encode_eq_ok he).1
  · intro fits
    obtain ⟨plain, he⟩ := encode_of_fits fits filler
    obtain ⟨_, aligned, _⟩ := encode_eq_ok he
    rw [encrypt, he]
    exact Chaining.encrypt_of_aligned _ _ aligned

/-- A block whose payload fits can only have too many tags. -/
theorem encrypt_eq_error_iff {b : TagBlock} {key : SessionKey} {seed : Octets 32} {filler : Octets 15}
    {fault : Fault} (payload : b.payload.length ≤ 4294967295) :
    b.encrypt key seed filler = .error fault ↔
      65535 < b.tags.length ∧ fault = .tooLarge .tagCount b.tags.length := by
  by_cases many : 65535 < b.tags.length
  · have stop : b.encrypt key seed filler = .error (.tooLarge .tagCount b.tags.length) := by
      rw [encrypt, encode, encodeUnpadded, if_pos many]
      rfl
    rw [stop, Except.error.injEq, eq_comm]
    simp only [many, true_and]
  · have fits : b.Fits := ⟨not_lt.mp many, payload⟩
    obtain ⟨bs, h⟩ := (@exists_encrypt_eq_ok_iff b key seed filler).mpr fits
    rw [h]
    simp only [many, false_and, reduceCtorEq]

theorem decrypt_encrypt {b : TagBlock} {key : SessionKey} {seed : Octets 32} {filler : Octets 15}
    {ciphertext : Bytes} (h : b.encrypt key seed filler = .ok ciphertext) :
    decrypt key seed ciphertext = .ok b ∧ ciphertext.length ≤ b.octets.length + 15 := by
  unfold encrypt at h
  cases he : b.encode filler with
  | error e => rw [he] at h; cases h
  | ok plain =>
    rw [he] at h
    have chained : Chaining.encrypt key.octets (deriveIv seed) plain = .ok ciphertext := h
    obtain ⟨fits, _, hlength, padding, rfl⟩ := encode_eq_ok he
    have opened := Chaining.decrypt_encrypt chained
    refine ⟨?_, (Chaining.length_of_encrypt chained).2.trans_le hlength⟩
    rw [decrypt, opened]
    simp only [Bind.bind, Except.bind]
    exact (decode_reads fits).front padding

theorem decrypt_of_unaligned (key : SessionKey) (seed : Octets 32) {ciphertext : Bytes}
    (h : ciphertext.length % 16 ≠ 0) :
    decrypt key seed ciphertext = .error (.unaligned ciphertext.length) := by
  rw [decrypt, Chaining.decrypt, Chaining.overBlocks, if_neg h]
  rfl

/-- The octets are a faithful writing of the block. -/
structure Faithful (b : TagBlock) (bs : Bytes) : Prop where
  aligned : bs.length % 16 = 0
  covers : b.unpaddedLength ≤ bs.length
  least : ∀ n, n % 16 = 0 → b.unpaddedLength ≤ n → bs.length ≤ n
  /-- What fills the last cipher block up can be anything. -/
  reads : Reads decode (bs.take b.unpaddedLength) b
  short : ∀ n < b.unpaddedLength, EndsEarly decode (bs.take n)
  /-- After the same header another payload is refused, unless the digests collide. -/
  digest : ∀ cs, b.unpaddedLength ≤ cs.length →
    let start := b.unpaddedLength - b.payload.length
    let payload := (cs.drop start).take b.payload.length
    cs.take start = bs.take start →
      decode cs = if sha256 payload = sha256 b.payload
        then .ok ({ b with payload }, cs.drop b.unpaddedLength)
        else .error (.digest (sha256 payload) (sha256 b.payload))

theorem faithful_of_encode {b : TagBlock} {filler : Octets 15} {bs : Bytes}
    (h : b.encode filler = .ok bs) : b.Faithful bs := by
  obtain ⟨fits, aligned, atMost, padding, rfl⟩ := encode_eq_ok h
  have front : (b.octets ++ padding).take b.unpaddedLength = b.octets :=
    List.take_left' b.length_octets
  have reads : Reads decode b.octets b := decode_reads fits
  have covers : b.unpaddedLength ≤ (b.octets ++ padding).length := by
    rw [List.length_append, b.length_octets]
    omega
  rw [b.length_octets] at atMost
  refine ⟨aligned, covers, fun n multiple enough => by omega, by rwa [front], ?_, ?_⟩
  · intro n hn
    rw [← b.length_octets] at hn
    obtain ⟨used, split, -, short⟩ := decode_selfDelimiting (reads [])
    obtain rfl : b.octets = used := by simpa using split
    rw [List.take_append_of_le_length hn.le]
    exact (short n hn).endsEarly
  · intro cs enough start payload same
    have total : b.header.length + b.payload.length = b.unpaddedLength := by
      rw [← b.length_octets, octets_eq, List.length_append]
    have before : b.header.length = start := Nat.eq_sub_of_add_eq total
    have head : cs.take start = b.header := by
      rw [same, octets_eq, List.append_assoc]
      exact List.take_left' before
    have size : payload.length = b.payload.length := by
      rw [List.length_take, List.length_drop, ← before]
      omega
    have split : cs = b.header ++ (payload ++ cs.drop b.unpaddedLength) := by
      have next : (cs.drop start).drop b.payload.length = cs.drop b.unpaddedLength := by
        rw [List.drop_drop, ← before, total]
      rw [← head, ← next, List.take_append_drop, List.take_append_drop]
    exact (congrArg decode split).trans (decode_header fits size _)

/-- Every block within the limits of its length fields is written faithfully, whatever fills it up; it
comes back from encryption under the same key and seed; and what is not made of whole cipher blocks is
refused. -/
theorem integrity (b : TagBlock) (tags : b.tags.length ≤ 65535)
    (payload : b.payload.length < 4294967296) (filler : Octets 15) :
    (∃ bs, b.encode filler = .ok bs ∧ b.Faithful bs) ∧
      (∀ key seed, ∃ ciphertext, b.encrypt key seed filler = .ok ciphertext ∧
        decrypt key seed ciphertext = .ok b) ∧
      ∀ key seed ciphertext, ciphertext.length % 16 ≠ 0 →
        decrypt key seed ciphertext = .error (.unaligned ciphertext.length) := by
  have fits : b.Fits := ⟨tags, Nat.le_of_lt_succ payload⟩
  refine ⟨?_, ?_, ?_⟩
  · obtain ⟨bs, h⟩ := encode_of_fits fits filler
    exact ⟨bs, h, faithful_of_encode h⟩
  · intro key seed
    obtain ⟨ciphertext, h⟩ := exists_encrypt_eq_ok_iff.mpr fits
    exact ⟨ciphertext, h, (decrypt_encrypt h).1⟩
  · intro key seed ciphertext unaligned
    exact decrypt_of_unaligned key seed unaligned

theorem integrity_oneTag :
    let b : TagBlock := ⟨[⟨.ofNat 32 7⟩], some ⟨.ofNat 32 8⟩, [1, 2, 3]⟩
    let key : SessionKey := ⟨.ofNat 32 9⟩
    let seed : Octets 32 := .ofNat 32 10
    let filler : Octets 15 := .ofNat 15 11
    (b.tags.length ≤ 65535 ∧ b.payload.length < 4294967296) ∧
      (∃ bs, b.encode filler = .ok bs ∧ b.Faithful bs ∧ EndsEarly decode (bs.take 105)) ∧
      (∃ ciphertext, b.encrypt key seed filler = .ok ciphertext ∧
        decrypt key seed ciphertext = .ok b) ∧
      decrypt key seed [0] = .error (.unaligned 1) := by
  intro b key seed filler
  have tags : b.tags.length ≤ 65535 := by decide
  have payload : b.payload.length < 4294967296 := by decide
  obtain ⟨⟨bs, h, faithful⟩, sealed, refused⟩ := integrity b tags payload filler
  refine ⟨⟨tags, payload⟩, ⟨bs, h, faithful, faithful.short 105 (by decide)⟩, sealed key seed, ?_⟩
  exact refused key seed [0] (by decide)

end GarlicRouting.TagBlock
