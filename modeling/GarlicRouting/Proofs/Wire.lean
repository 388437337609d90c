import GarlicRouting.Garlic
import GarlicRouting.Proofs.Decoder
import Mathlib

/-! Cleartext formats: what is written is read back, whatever follows it, and when it can be
written at all. -/
namespace GarlicRouting

open Decoder

namespace Target

theorem decode_reads (t : Target) : Reads (decode t.code) t.encode t := by
  cases t with
  | here => exact pure_reads _
  | destination identity =>
    exact (octets_reads _ identity.octets).map fun o => Target.destination ⟨o⟩
  | router identity => exact (octets_reads _ identity.octets).map fun o => Target.router ⟨o⟩
  | tunnel gateway id =>
    refine Reads.bind (octets_reads _ gateway.octets) ?_
    exact (uint32_reads _ id.number).map fun n => Target.tunnel gateway ⟨n⟩

end Target

namespace Instruction

private theorem flag_fields : ∀ (code : Fin 4) (key delay : Bool),
    let flag : UInt8 := (UInt8.ofNat code.val <<< 5) ||| (if key then 0x80 else 0) |||
      (if delay then 0x10 else 0)
    decide (flag &&& 0x80 ≠ 0) = key ∧ (flag >>> 5) &&& 3 = .ofNat code.val ∧
      decide (flag &&& 0x10 ≠ 0) = delay := by decide

private theorem flag_bits (i : Instruction) :
    decide (i.flag &&& 0x80 ≠ 0) = i.key.isSome ∧ (i.flag >>> 5) &&& 3 = i.target.code ∧
      decide (i.flag &&& 0x10 ≠ 0) = i.delay.isSome := by
  have small : ∃ code : Fin 4, i.target.code = .ofNat code.val := by
    cases i.target with
    | here => exact ⟨0, rfl⟩
    | destination _ => exact ⟨1, rfl⟩
    | router _ => exact ⟨2, rfl⟩
    | tunnel _ _ => exact ⟨3, rfl⟩
  obtain ⟨code, hcode⟩ := small
  rw [flag, hcode]
  exact flag_fields code i.key.isSome i.delay.isSome

theorem decode_reads (i : Instruction) : Reads decode i.encode i := by
  obtain ⟨hkey, htarget, hdelay⟩ := i.flag_bits
  have key : Reads (optional (decide (i.flag &&& 0x80 ≠ 0)) (octets 32 .instructionKey))
      ((i.key.map SessionKey.octets).elim [] Octets.toList) (i.key.map SessionKey.octets) :=
    optional_reads (octets_reads _) (by rw [hkey, Option.isSome_map])
  have target : Reads (Target.decode ((i.flag >>> 5) &&& 3)) i.target.encode i.target := by
    rw [htarget]
    exact i.target.decode_reads
  have delay : Reads (optional (decide (i.flag &&& 0x10 ≠ 0)) (uint32 .instructionDelay))
      (i.delay.elim [] fun d => bigEndian 4 d.toNat) i.delay :=
    optional_reads (uint32_reads _) hdelay
  have parts : i.encode = [i.flag] ++ ((i.key.map SessionKey.octets).elim [] Octets.toList ++
      (i.target.encode ++ ((i.delay.elim [] fun d => bigEndian 4 d.toNat) ++ []))) := by
    cases hk : i.key <;> simp [encode, hk]
  have rebuilt : (⟨i.target, (i.key.map SessionKey.octets).map .mk, i.delay⟩ : Instruction) = i := by
    obtain ⟨_, k, _⟩ := i
    cases k <;> rfl
  have last := pure_reads i
  rw [parts]
  refine Reads.bind (uint8_reads _ _) (key.bind (target.bind (delay.bind ?_)))
  rw [rebuilt]
  exact last

theorem length_encode (i : Instruction) : i.encode.length = i.encodedLength := by
  have target : i.target.encode.length = i.target.encodedLength := by
    cases i.target <;> simp [Target.encode, Target.encodedLength]
  obtain ⟨t, k, d⟩ := i
  cases k <;> cases d <;> simp_all [encode, encodedLength] <;> omega

end Instruction

namespace Payload

/-- An untyped payload does not carry the number of a typed one. -/
def Proper : Payload → Prop
  | other type _ => type ≠ 10 ∧ type ≠ 11 ∧ type ≠ 20
  | _ => True

instance : DecidablePred Proper
  | status .. | garlic _ | data _ => inferInstanceAs (Decidable True)
  | other .. => inferInstanceAs (Decidable (_ ∧ _))

theorem length_encode (p : Payload) : p.encode.length = p.encodedLength := by
  cases p <;> simp [encode, encodedLength]

private theorem prefixed_reads (bs : Bytes) (h : bs.length ≤ 65535) :
    Reads prefixed (bigEndian 4 bs.length ++ bs) bs := by
  have hn : (UInt32.ofNat bs.length).toNat = bs.length :=
    UInt32.toNat_ofNat_of_lt (by simp [UInt32.size]; omega)
  refine (uint32_reads_ofNat _ (by omega)).bind ?_
  rw [hn]
  exact bytes_reads _ bs

theorem decode_encode {p : Payload} (proper : p.Proper) (fits : p.encodedLength ≤ 65535) :
    decode p.type p.encode = .ok p := by
  cases p with
  | status id timestamp =>
    have h : Reads (do
        let id ← uint32 .statusId
        let timestamp ← uint64 .statusTimestamp
        return .status id timestamp) (encode (.status id timestamp)) (status id timestamp) :=
      Reads.bind (uint32_reads _ id) ((uint64_reads _ timestamp).map (status id))
    have hf := h.front []
    rwa [List.append_nil] at hf
  | garlic bs =>
    have h := (prefixed_reads bs (by simp only [encodedLength] at fits; omega)).front []
    rw [List.append_nil] at h
    simp [decode, type, encode, h, Except.map]
  | data bs =>
    have h := (prefixed_reads bs (by simp only [encodedLength] at fits; omega)).front []
    rw [List.append_nil] at h
    simp [decode, type, encode, h, Except.map]
  | other type bs =>
    obtain ⟨h₁, h₂, h₃⟩ := proper
    simp [decode, Payload.type, encode, h₁, h₂, h₃]

theorem proper_of_decode {type : UInt8} {body : Bytes} {p : Payload}
    (h : decode type body = .ok p) : p.Proper := by
  unfold decode at h
  split_ifs at h with status garlic data
  · rw [front_eq_ok_iff] at h
    obtain ⟨rest, h⟩ := h
    obtain ⟨id, mid, _, h⟩ := bind_eq_ok_iff.mp h
    obtain ⟨timestamp, last, _, h⟩ := bind_eq_ok_iff.mp h
    cases h
    trivial
  · obtain ⟨bs, -, rfl⟩ := map_eq_ok_iff.mp h
    trivial
  · obtain ⟨bs, -, rfl⟩ := map_eq_ok_iff.mp h
    trivial
  · cases h
    exact ⟨status, garlic, data⟩

end Payload

namespace Message

/-- The octets of a message whose payload fits. -/
def octets (m : Message) : Bytes :=
  m.payload.type :: bigEndian 4 m.id.toNat ++ bigEndian 8 m.expiration.toNat ++
    bigEndian 2 m.payload.encodedLength ++ checkOctet m.payload.encode :: m.payload.encode

theorem encode_eq (m : Message) :
    m.encode = if 65535 < m.payload.encodedLength then
      .error (.tooLarge .messagePayload m.payload.encodedLength) else .ok m.octets := rfl

theorem decode_reads {m : Message} (proper : m.payload.Proper)
    (fits : m.payload.encodedLength ≤ 65535) : Reads decode m.octets m := by
  have hn : (UInt16.ofNat m.payload.encodedLength).toNat = m.payload.encode.length := by
    rw [m.payload.length_encode]
    exact UInt16.toNat_ofNat_of_lt (by simp [UInt16.size]; omega)
  have parts : m.octets = [m.payload.type] ++ (bigEndian 4 m.id.toNat ++
      (bigEndian 8 m.expiration.toNat ++ (bigEndian 2 m.payload.encodedLength ++
        ([checkOctet m.payload.encode] ++ (m.payload.encode ++ []))))) := by simp [octets]
  have body := bytes_reads .messagePayload m.payload.encode
  rw [← hn] at body
  rw [parts]
  refine Reads.bind (uint8_reads _ _) (Reads.bind (uint32_reads _ _) (Reads.bind (uint64_reads _ _)
    (Reads.bind (uint16_reads_ofNat _ fits) (Reads.bind (uint8_reads _ _) (body.bind ?_)))))
  intro rest
  simp only [ne_eq, not_true_eq_false, if_false, Payload.decode_encode proper fits]
  rfl

/-- A message that is read has a header and a body that holds its payload. -/
theorem decode_cases {bs rest : Bytes} {m : Message} (h : decode bs = .ok (m, rest)) :
    ∃ type body, Payload.decode type body = .ok m.payload ∧ body.length ≤ 65535 ∧
      16 + body.length + rest.length ≤ bs.length := by
  unfold decode at h
  obtain ⟨type, bs₁, htype, h⟩ := bind_eq_ok_iff.mp h
  obtain ⟨id, bs₂, hid, h⟩ := bind_eq_ok_iff.mp h
  obtain ⟨expiration, bs₃, hexpiration, h⟩ := bind_eq_ok_iff.mp h
  obtain ⟨size, bs₄, hsize, h⟩ := bind_eq_ok_iff.mp h
  obtain ⟨header, bs₅, hheader, h⟩ := bind_eq_ok_iff.mp h
  obtain ⟨body, bs₆, hbody, h⟩ := bind_eq_ok_iff.mp h
  have small : body.length ≤ 65535 := by
    have bound := size.toNat_lt
    rw [length_of_bytes hbody]
    omega
  have total : 16 + body.length + bs₆.length ≤ bs.length := by
    have : 1 + bs₁.length ≤ bs.length := uint8_takes _ htype
    have : 4 + bs₂.length ≤ bs₁.length := uint32_takes _ hid
    have : 8 + bs₃.length ≤ bs₂.length := uint64_takes _ hexpiration
    have : 2 + bs₄.length ≤ bs₃.length := uint16_takes _ hsize
    have : 1 + bs₅.length ≤ bs₄.length := uint8_takes _ hheader
    have : body.length + bs₆.length ≤ bs₅.length := bytes_takes _ _ hbody
    omega
  split_ifs at h with checksum
  · cases h
  · cases hp : Payload.decode type body with
    | error e =>
      rw [hp] at h
      cases h
    | ok p =>
      rw [hp] at h
      cases h
      exact ⟨type, body, hp, small, total⟩

theorem proper_of_decode {bs rest : Bytes} {m : Message} (h : decode bs = .ok (m, rest)) :
    m.payload.Proper := by
  obtain ⟨type, body, hp, -⟩ := decode_cases h
  exact Payload.proper_of_decode hp

theorem length_octets (m : Message) : m.octets.length = m.encodedLength := by
  simp [octets, encodedLength, Payload.length_encode]
  omega

end Message

theorem skipCertificate_reads : Reads skipCertificate nullCertificate () :=
  Reads.bind (uint8_reads _ 0) (Reads.bind (uint16_reads _ 0)
    ((bytes_reads .certificateBody []).map fun _ => ()))

theorem skipCertificate_takes : Takes skipCertificate fun _ => 3 := by
  intro bs _ rest h
  obtain ⟨type, bs₁, htype, h⟩ := bind_eq_ok_iff.mp h
  obtain ⟨length, bs₂, hlength, h⟩ := bind_eq_ok_iff.mp h
  obtain ⟨body, bs₃, hbody, h⟩ := bind_eq_ok_iff.mp h
  cases h
  have : 1 + bs₁.length ≤ bs.length := uint8_takes _ htype
  have : 2 + bs₂.length ≤ bs₁.length := uint16_takes _ hlength
  have : body.length + rest.length ≤ bs₂.length := bytes_takes _ _ hbody
  show 3 + rest.length ≤ bs.length
  omega

namespace Clove

def octets (c : Clove) : Bytes :=
  c.instruction.encode ++ c.message.octets ++ bigEndian 4 c.id.toNat ++
    bigEndian 8 c.expiration.toNat ++ nullCertificate

theorem encode_eq (c : Clove) :
    c.encode = if 65535 < c.message.payload.encodedLength then
      .error (.tooLarge .messagePayload c.message.payload.encodedLength) else .ok c.octets := by
  rw [encode, Message.encode_eq]
  split_ifs <;> rfl

theorem decode_reads {c : Clove} (proper : c.message.payload.Proper)
    (fits : c.message.payload.encodedLength ≤ 65535) : Reads decode c.octets c := by
  have parts : c.octets = c.instruction.encode ++ (c.message.octets ++ (bigEndian 4 c.id.toNat ++
      (bigEndian 8 c.expiration.toNat ++ (nullCertificate ++ [])))) := by simp [octets]
  rw [parts]
  exact c.instruction.decode_reads.bind ((Message.decode_reads proper fits).bind
    (Reads.bind (uint32_reads _ _) (Reads.bind (uint64_reads _ _)
      (skipCertificate_reads.bind (pure_reads c)))))

/-- After its message a clove has an id, an expiration and a certificate of at least three octets. -/
theorem decode_cases {bs rest : Bytes} {c : Clove} (h : decode bs = .ok (c, rest)) :
    ∃ bs₁ bs₂, Instruction.decode bs = .ok (c.instruction, bs₁) ∧
      Message.decode bs₁ = .ok (c.message, bs₂) ∧ 15 + rest.length ≤ bs₂.length := by
  unfold decode at h
  obtain ⟨instruction, bs₁, hinstruction, h⟩ := bind_eq_ok_iff.mp h
  obtain ⟨message, bs₂, hmessage, h⟩ := bind_eq_ok_iff.mp h
  obtain ⟨id, bs₃, hid, h⟩ := bind_eq_ok_iff.mp h
  obtain ⟨expiration, bs₄, hexpiration, h⟩ := bind_eq_ok_iff.mp h
  obtain ⟨_, bs₅, hcertificate, h⟩ := bind_eq_ok_iff.mp h
  cases h
  have : 4 + bs₃.length ≤ bs₂.length := uint32_takes _ hid
  have : 8 + bs₄.length ≤ bs₃.length := uint64_takes _ hexpiration
  have : 3 + rest.length ≤ bs₄.length := skipCertificate_takes hcertificate
  exact ⟨bs₁, bs₂, hinstruction, hmessage, by omega⟩

theorem proper_of_decode {bs rest : Bytes} {c : Clove} (h : decode bs = .ok (c, rest)) :
    c.message.payload.Proper := by
  obtain ⟨bs₁, bs₂, -, hmessage, -⟩ := decode_cases h
  exact Message.proper_of_decode hmessage

theorem length_octets (c : Clove) : c.octets.length = c.encodedLength := by
  simp [octets, encodedLength, Message.length_octets, Instruction.length_encode, nullCertificate]
  omega

end Clove

namespace Garlic

/-- The size limits of the format: at most 255 cloves, and payloads of at most 65535 octets. -/
@[mk_iff]
structure Fits (g : Garlic) : Prop where
  count : g.cloves.length ≤ 255
  payloads : ∀ c ∈ g.cloves, c.message.payload.encodedLength ≤ 65535

def octets (g : Garlic) : Bytes :=
  .ofNat g.cloves.length :: g.cloves.flatMap Clove.octets ++ nullCertificate ++
    bigEndian 4 g.id.toNat ++ bigEndian 8 g.expiration.toNat

private theorem mapM_encode (cs : List Clove) :
    (∃ bss, cs.mapM Clove.encode = .ok bss) ↔
      ∀ c ∈ cs, c.message.payload.encodedLength ≤ 65535 := by
  induction cs with
  | nil => simp [pure, Except.pure]
  | cons c cs ih =>
    rw [List.mapM_cons, Clove.encode_eq, List.forall_mem_cons, ← ih]
    split_ifs with h
    · simp only [Bind.bind, Except.bind]
      constructor
      · intro hh
        obtain ⟨_, h⟩ := hh
        cases h
      · intro hh
        obtain ⟨h', _⟩ := hh
        omega
    · cases hcs : cs.mapM Clove.encode with
      | error e => simp [Bind.bind, Except.bind]
      | ok bss => simp [Bind.bind, Except.bind, pure, Except.pure, not_lt.mp h]

private theorem mapM_encode_eq {cs : List Clove} {bss : List Bytes}
    (h : cs.mapM Clove.encode = .ok bss) : bss.flatten = cs.flatMap Clove.octets := by
  induction cs generalizing bss with
  | nil => cases h; rfl
  | cons c cs ih =>
    rw [List.mapM_cons, Clove.encode_eq] at h
    split_ifs at h
    · cases h
    · cases hcs : cs.mapM Clove.encode with
      | error e => rw [hcs] at h; cases h
      | ok rest =>
        rw [hcs] at h
        cases h
        rw [List.flatten_cons, ih hcs, List.flatMap_cons]

/-- A garlic can be written exactly when it fits, and then its octets are these. -/
theorem encode_eq_ok_iff {g : Garlic} {bs : Bytes} :
    g.encode = .ok bs ↔ g.Fits ∧ bs = g.octets := by
  unfold encode
  by_cases hcount : 255 < g.cloves.length
  · rw [if_pos hcount]
    constructor
    · intro h
      cases h
    · intro hh
      obtain ⟨⟨h, _⟩, _⟩ := hh
      omega
  · rw [if_neg hcount]
    cases hcs : g.cloves.mapM Clove.encode with
    | error e =>
      have none := mapM_encode g.cloves
      rw [hcs] at none
      constructor
      · intro h
        cases h
      · intro hh
        obtain ⟨⟨_, h⟩, _⟩ := hh
        obtain ⟨_, h⟩ := none.mpr h
        cases h
    | ok bss =>
      have fits : g.Fits := ⟨not_lt.mp hcount, (mapM_encode g.cloves).mp ⟨bss, hcs⟩⟩
      simp only [fits, true_and, octets, ← mapM_encode_eq hcs]
      constructor
      · intro h
        cases h
        rfl
      · rintro rfl
        rfl

private theorem mapM_encode_error {cs : List Clove} {fault : Fault}
    (h : cs.mapM Clove.encode = .error fault) : ∃ c ∈ cs,
      65535 < c.message.payload.encodedLength ∧
        fault = .tooLarge .messagePayload c.message.payload.encodedLength := by
  induction cs with
  | nil => cases h
  | cons c cs ih =>
    rw [List.mapM_cons, Clove.encode_eq] at h
    split_ifs at h with long
    · cases h
      exact ⟨c, List.mem_cons_self, long, rfl⟩
    · cases hcs : cs.mapM Clove.encode with
      | error e =>
        rw [hcs] at h
        cases h
        obtain ⟨c', member, found⟩ := ih hcs
        exact ⟨c', List.mem_cons_of_mem c member, found⟩
      | ok bss => rw [hcs] at h; cases h

/-- The fault of a garlic that cannot be written tells the number of its cloves, or the length of a
payload. -/
theorem encode_eq_error {g : Garlic} {fault : Fault} (h : g.encode = .error fault) :
    fault = .tooLarge .cloveCount g.cloves.length ∨ ∃ c ∈ g.cloves,
      fault = .tooLarge .messagePayload c.message.payload.encodedLength := by
  unfold encode at h
  split_ifs at h
  · cases h
    exact .inl rfl
  · cases hcs : g.cloves.mapM Clove.encode with
    | error e =>
      rw [hcs] at h
      cases h
      obtain ⟨c, member, -, long⟩ := mapM_encode_error hcs
      exact .inr ⟨c, member, long⟩
    | ok bss => rw [hcs] at h; cases h

theorem decode_reads {g : Garlic} (fits : g.Fits) (proper : ∀ c ∈ g.cloves, c.message.payload.Proper) :
    Reads decode g.octets g := by
  have hn : (UInt8.ofNat g.cloves.length).toNat = g.cloves.length :=
    UInt8.toNat_ofNat_of_lt (by have := fits.count; simp [UInt8.size]; omega)
  have cloves : Reads (repeated (UInt8.ofNat g.cloves.length).toNat Clove.decode)
      (g.cloves.flatMap Clove.octets) g.cloves :=
    repeated_reads hn fun c hc => Clove.decode_reads (proper c hc) (fits.payloads c hc)
  have parts : g.octets = [.ofNat g.cloves.length] ++ (g.cloves.flatMap Clove.octets ++
      (nullCertificate ++ (bigEndian 4 g.id.toNat ++ (bigEndian 8 g.expiration.toNat ++ [])))) := by
    simp [octets]
  rw [parts]
  exact Reads.bind (uint8_reads _ _) (cloves.bind (skipCertificate_reads.bind
    (Reads.bind (uint32_reads _ _) (Reads.bind (uint64_reads _ _) (pure_reads g)))))

/-- A garlic that is read has at most 255 cloves, and after them a certificate of at least three
octets, an id and an expiration. -/
theorem decode_cases {bs rest : Bytes} {g : Garlic} (h : decode bs = .ok (g, rest)) :
    ∃ count bs₁ bs₂, count ≤ 255 ∧ repeated count Clove.decode bs₁ = .ok (g.cloves, bs₂) ∧
      1 + bs₁.length ≤ bs.length ∧ 15 + rest.length ≤ bs₂.length := by
  unfold decode at h
  obtain ⟨count, bs₁, hcount, h⟩ := bind_eq_ok_iff.mp h
  obtain ⟨cloves, bs₂, hcloves, h⟩ := bind_eq_ok_iff.mp h
  obtain ⟨_, bs₃, hcertificate, h⟩ := bind_eq_ok_iff.mp h
  obtain ⟨id, bs₄, hid, h⟩ := bind_eq_ok_iff.mp h
  obtain ⟨expiration, bs₅, hexpiration, h⟩ := bind_eq_ok_iff.mp h
  cases h
  have bound := count.toNat_lt
  have : 3 + bs₃.length ≤ bs₂.length := skipCertificate_takes hcertificate
  have : 4 + bs₄.length ≤ bs₃.length := uint32_takes _ hid
  have : 8 + rest.length ≤ bs₄.length := uint64_takes _ hexpiration
  exact ⟨count.toNat, bs₁, bs₂, by omega, hcloves, uint8_takes _ hcount, by omega⟩

/-- Only payloads under their own type are read, so nothing improper is read back. -/
theorem proper_of_decode {bs rest : Bytes} {g : Garlic} (h : decode bs = .ok (g, rest)) :
    ∀ c ∈ g.cloves, c.message.payload.Proper := by
  obtain ⟨count, bs₁, bs₂, -, hcloves, -⟩ := decode_cases h
  exact forall_of_repeated (fun bs c rest hc => Clove.proper_of_decode hc) hcloves

theorem length_octets (g : Garlic) : g.octets.length = g.encodedLength := by
  have cloves : (g.cloves.flatMap Clove.octets).length =
      g.cloves.foldr (fun c n => c.encodedLength + n) 0 := by
    induction g.cloves with
    | nil => rfl
    | cons c cs ih => rw [List.flatMap_cons, List.length_append, ih, c.length_octets, List.foldr_cons]
  simp [octets, encodedLength, cloves, nullCertificate]
  omega

/-- A garlic is refused exactly when it has too many cloves or too long a payload. Otherwise the
octets are as many as announced, and they are read back in front of anything exactly when no
payload carries the type of another kind. -/
theorem round_trip (g : Garlic) :
    ((∃ fault, g.encode = .error fault) ↔ 255 < g.cloves.length ∨
      ∃ c ∈ g.cloves, 65535 < c.message.payload.encode.length) ∧
    ∀ bs, g.encode = .ok bs → bs.length = g.encodedLength ∧
      ((∀ rest, decode (bs ++ rest) = .ok (g, rest)) ↔
        ∀ c ∈ g.cloves, c.message.payload.Proper) := by
  constructor
  · have refused : (∃ fault, g.encode = .error fault) ↔ ¬ g.Fits := by
      constructor
      · intro hh fits
        obtain ⟨fault, h⟩ := hh
        have written := encode_eq_ok_iff.mpr ⟨fits, rfl⟩
        rw [h] at written
        cases written
      · intro unfit
        cases h : g.encode with
        | error fault => exact ⟨fault, rfl⟩
        | ok bs => exact absurd (encode_eq_ok_iff.mp h).1 unfit
    rw [refused, fits_iff, not_and_or, not_le]
    simp only [Payload.length_encode, not_forall, not_le, exists_prop]
  · intro bs h
    obtain ⟨fits, rfl⟩ := encode_eq_ok_iff.mp h
    refine ⟨g.length_octets, ?_⟩
    constructor
    · intro reads
      have read := reads []
      exact proper_of_decode read
    · intro proper rest
      exact decode_reads fits proper rest

/-- What fits into a garlic fits into the block that it is encrypted in. -/
theorem Fits.length_octets_le {g : Garlic} (fits : g.Fits) : g.octets.length ≤ 4294967295 := by
  have clove : ∀ c ∈ g.cloves, c.encodedLength ≤ 65639 := by
    intro c hc
    have payload := fits.payloads c hc
    have instruction : c.instruction.encodedLength ≤ 73 := by
      unfold Instruction.encodedLength
      have : c.instruction.target.encodedLength ≤ 36 := by
        cases c.instruction.target <;> simp [Target.encodedLength]
      split_ifs <;> omega
    simp only [Clove.encodedLength, Message.encodedLength]
    omega
  have total (cs : List Clove) (hcs : ∀ c ∈ cs, c.encodedLength ≤ 65639) :
      cs.foldr (fun c n => c.encodedLength + n) 0 ≤ 65639 * cs.length := by
    induction cs with
    | nil => simp
    | cons c cs ih =>
      have head := hcs c List.mem_cons_self
      have tail := ih fun c hc => hcs c (List.mem_cons_of_mem _ hc)
      simp only [List.foldr_cons, List.length_cons]
      omega
  have count := fits.count
  have sum := total g.cloves clove
  rw [length_octets, encodedLength]
  omega

end Garlic

end GarlicRouting
