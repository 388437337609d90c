import GarlicRouting.Proofs.Wire
import Mathlib

/-! Octets that decode, whoever wrote them: how many a value takes, and that it can be written again,
in no more octets, and is then read back. -/
namespace GarlicRouting

open Decoder

namespace Target

theorem decode_selfDelimiting (code : UInt8) : SelfDelimiting (decode code) := by
  unfold decode
  refine (selfDelimiting_pure _).ite ((octets_selfDelimiting 32 _).bind fun hash => ?_)
  refine (selfDelimiting_pure _).ite ((selfDelimiting_pure _).ite ?_)
  exact (uint32_selfDelimiting _).map fun n => Target.tunnel ⟨hash⟩ ⟨n⟩

theorem decode_takes (code : UInt8) : Takes (decode code) encodedLength := by
  intro bs t rest h
  unfold decode at h
  split_ifs at h with here destination router
  · cases h
    exact (Nat.zero_add _).le
  · obtain ⟨hash, bs₁, hhash, h⟩ := bind_eq_ok_iff.mp h
    cases h
    exact octets_takes _ _ hhash
  · obtain ⟨hash, bs₁, hhash, h⟩ := bind_eq_ok_iff.mp h
    cases h
    exact octets_takes _ _ hhash
  · obtain ⟨hash, bs₁, hhash, h⟩ := bind_eq_ok_iff.mp h
    obtain ⟨id, bs₂, hid, h⟩ := bind_eq_ok_iff.mp h
    cases h
    have : 32 + bs₁.length ≤ bs.length := octets_takes _ _ hhash
    have : 4 + rest.length ≤ bs₁.length := uint32_takes _ hid
    show 36 + rest.length ≤ bs.length
    omega

end Target

namespace Instruction

theorem decode_selfDelimiting : SelfDelimiting decode :=
  (uint8_selfDelimiting _).bind fun _ =>
    ((octets_selfDelimiting 32 _).optional _).bind fun _ =>
      (Target.decode_selfDelimiting _).bind fun _ =>
        ((uint32_selfDelimiting _).optional _).bind fun _ => selfDelimiting_pure _

theorem decode_takes : Takes decode encodedLength := by
  intro bs i rest h
  obtain ⟨flag, bs₁, hflag, h⟩ := bind_eq_ok_iff.mp h
  obtain ⟨key, bs₂, hkey, h⟩ := bind_eq_ok_iff.mp h
  obtain ⟨target, bs₃, htarget, h⟩ := bind_eq_ok_iff.mp h
  obtain ⟨delay, bs₄, hdelay, h⟩ := bind_eq_ok_iff.mp h
  cases h
  have : 1 + bs₁.length ≤ bs.length := uint8_takes _ hflag
  have : (if key.isSome then 32 else 0) + bs₂.length ≤ bs₁.length :=
    (octets_takes 32 _).optional _ hkey
  have : target.encodedLength + bs₃.length ≤ bs₂.length := Target.decode_takes _ htarget
  have : (if delay.isSome then 4 else 0) + rest.length ≤ bs₃.length :=
    (uint32_takes _).optional _ hdelay
  simp only [encodedLength, Option.isSome_map]
  omega

end Instruction

namespace Payload

/-- A payload is no longer than the body it was read from, of which the end may be dropped. -/
theorem encodedLength_le {type : UInt8} {body : Bytes} {p : Payload}
    (h : decode type body = .ok p) : p.encodedLength ≤ body.length := by
  have prefixed_takes {bs : Bytes} (hbs : prefixed.front body = .ok bs) :
      4 + bs.length ≤ body.length := by
    obtain ⟨rest, hbs⟩ := front_eq_ok_iff.mp hbs
    obtain ⟨length, body₁, hlength, hbs⟩ := bind_eq_ok_iff.mp hbs
    have : 4 + body₁.length ≤ body.length := uint32_takes _ hlength
    have : bs.length + rest.length ≤ body₁.length := bytes_takes _ _ hbs
    omega
  unfold decode at h
  split_ifs at h with status garlic data
  · obtain ⟨rest, h⟩ := front_eq_ok_iff.mp h
    obtain ⟨id, body₁, hid, h⟩ := bind_eq_ok_iff.mp h
    obtain ⟨timestamp, body₂, htimestamp, h⟩ := bind_eq_ok_iff.mp h
    cases h
    have : 4 + body₁.length ≤ body.length := uint32_takes _ hid
    have : 8 + rest.length ≤ body₁.length := uint64_takes _ htimestamp
    show 12 ≤ body.length
    omega
  · obtain ⟨bs, hbs, rfl⟩ := map_eq_ok_iff.mp h
    exact prefixed_takes hbs
  · obtain ⟨bs, hbs, rfl⟩ := map_eq_ok_iff.mp h
    exact prefixed_takes hbs
  · cases h
    exact le_rfl

end Payload

namespace Message

theorem decode_selfDelimiting : SelfDelimiting decode := by
  refine (uint8_selfDelimiting _).bind fun type => (uint32_selfDelimiting _).bind fun id =>
    (uint64_selfDelimiting _).bind fun expiration => (uint16_selfDelimiting _).bind fun size =>
      (uint8_selfDelimiting _).bind fun header => (bytes_selfDelimiting _ _).bind fun body => ?_
  exact (selfDelimiting_throw _).ite ((selfDelimiting_lift _).bind fun _ => selfDelimiting_pure _)

theorem decode_takes : Takes decode encodedLength := by
  intro bs m rest h
  obtain ⟨type, body, hp, -, total⟩ := decode_cases h
  have : m.payload.encodedLength ≤ body.length := Payload.encodedLength_le hp
  rw [encodedLength]
  omega

theorem fits_of_decode {bs rest : Bytes} {m : Message} (h : decode bs = .ok (m, rest)) :
    m.payload.encodedLength ≤ 65535 := by
  obtain ⟨type, body, hp, small, -⟩ := decode_cases h
  exact (Payload.encodedLength_le hp).trans small

end Message

theorem skipCertificate_selfDelimiting : SelfDelimiting skipCertificate :=
  (uint8_selfDelimiting _).bind fun _ => (uint16_selfDelimiting _).bind fun _ =>
    (bytes_selfDelimiting _ _).map fun _ => ()

namespace Clove

theorem decode_selfDelimiting : SelfDelimiting decode :=
  Instruction.decode_selfDelimiting.bind fun _ => Message.decode_selfDelimiting.bind fun _ =>
    (uint32_selfDelimiting _).bind fun _ => (uint64_selfDelimiting _).bind fun _ =>
      skipCertificate_selfDelimiting.bind fun _ => selfDelimiting_pure _

theorem decode_takes : Takes decode encodedLength := by
  intro bs c rest h
  obtain ⟨bs₁, bs₂, hinstruction, hmessage, end_takes⟩ := decode_cases h
  have : c.instruction.encodedLength + bs₁.length ≤ bs.length :=
    Instruction.decode_takes hinstruction
  have : c.message.encodedLength + bs₂.length ≤ bs₁.length := Message.decode_takes hmessage
  rw [encodedLength]
  omega

theorem fits_of_decode {bs rest : Bytes} {c : Clove} (h : decode bs = .ok (c, rest)) :
    c.message.payload.encodedLength ≤ 65535 := by
  obtain ⟨bs₁, bs₂, -, hmessage, -⟩ := decode_cases h
  exact Message.fits_of_decode hmessage

end Clove

namespace Garlic

theorem decode_selfDelimiting : SelfDelimiting decode :=
  (uint8_selfDelimiting _).bind fun _ => (Clove.decode_selfDelimiting.repeated _).bind fun _ =>
    skipCertificate_selfDelimiting.bind fun _ => (uint32_selfDelimiting _).bind fun _ =>
      (uint64_selfDelimiting _).bind fun _ => selfDelimiting_pure _

theorem encodedLength_eq (g : Garlic) :
    g.encodedLength = 16 + (g.cloves.map Clove.encodedLength).sum := by
  rw [encodedLength, List.sum_eq_foldr, List.foldr_map]
  omega

theorem decode_takes : Takes decode encodedLength := by
  intro bs g rest h
  obtain ⟨count, bs₁, bs₂, -, hcloves, first_takes, end_takes⟩ := decode_cases h
  have : (g.cloves.map Clove.encodedLength).sum + bs₂.length ≤ bs₁.length :=
    (Clove.decode_takes.repeated hcloves).2
  rw [encodedLength_eq]
  omega

theorem fits_of_decode {bs rest : Bytes} {g : Garlic} (h : decode bs = .ok (g, rest)) :
    g.Fits := by
  obtain ⟨count, bs₁, bs₂, small, hcloves, -⟩ := decode_cases h
  refine ⟨?_, forall_of_repeated (fun bs c rest hc => Clove.fits_of_decode hc) hcloves⟩
  rwa [(Clove.decode_takes.repeated hcloves).1]

/-- Whatever is read can be written, as long as it announces and no longer than what it was read from,
and what is written is read as the same. -/
theorem normal_form {bs rest : Bytes} {g : Garlic} (h : decode bs = .ok (g, rest)) :
    ∃ used, bs = used ++ rest ∧ ∃ written, g.encode = .ok written ∧
      written.length = g.encodedLength ∧ written.length ≤ used.length ∧
      ∀ more, decode (written ++ more) = .ok (g, more) := by
  obtain ⟨used, rfl, -⟩ := decode_selfDelimiting h
  have fits := fits_of_decode h
  have shorter : g.encodedLength ≤ used.length := by
    have := decode_takes h
    rw [List.length_append] at this
    omega
  refine ⟨used, rfl, g.octets, encode_eq_ok_iff.mpr ⟨fits, rfl⟩, g.length_octets, ?_, ?_⟩
  · rwa [g.length_octets]
  · exact decode_reads fits (proper_of_decode h)

/-- A status with an octet too many, data with more octets than its prefix tells, flags with unused bits
set, and certificates that are not null. -/
def padded : Bytes :=
  [2,
    0x0f, 10, 0, 0, 0, 3, 0, 0, 0, 0, 0, 0, 0, 4, 0, 13, 131,
      0, 0, 0, 7, 0, 0, 0, 0, 0, 0, 0, 9, 0xaa,
      0, 0, 0, 5, 0, 0, 0, 0, 0, 0, 0, 6, 5, 0, 2, 1, 2,
    0x08, 20, 0, 0, 0, 8, 0, 0, 0, 0, 0, 0, 0, 1, 0, 6, 223,
      0, 0, 0, 1, 5, 6,
      0, 0, 0, 9, 0, 0, 0, 0, 0, 0, 0, 6, 0, 0, 0,
    4, 0, 1, 9, 0, 0, 0, 1, 0, 0, 0, 0, 0, 0, 0, 2,
    7]

theorem normal_form_padded :
    let g : Garlic :=
      ⟨[⟨⟨.here, none, none⟩, ⟨3, 4, .status 7 9⟩, 5, 6⟩, ⟨⟨.here, none, none⟩, ⟨8, 1, .data [5]⟩, 9, 6⟩],
        1, 2⟩
    decode padded = .ok (g, [7]) ∧ ∃ used, padded = used ++ [7] ∧ ∃ written, g.encode = .ok written ∧
      written.length = g.encodedLength ∧ written.length ≤ used.length ∧
      ∀ more, decode (written ++ more) = .ok (g, more) := by
  intro g
  have read : decode padded = .ok (g, [7]) := by decide +kernel
  exact ⟨read, normal_form read⟩

end Garlic

/-- Garlics, messages and instructions tell their own end. What is read is in the first octets of a
string, whatever follows them; a string that is cut off before their end breaks off in a field, and
that field would lie within them too. So nothing is looked at that is not there, and no digest is
compared before all of its octets are there. -/
theorem consumes_of_decode (bs rest : Bytes) :
    (∀ g, Garlic.decode bs = .ok (g, rest) → ∃ used, Consumes Garlic.decode bs g rest used) ∧
    (∀ m, Message.decode bs = .ok (m, rest) → ∃ used, Consumes Message.decode bs m rest used) ∧
    ∀ i, Instruction.decode bs = .ok (i, rest) → ∃ used, Consumes Instruction.decode bs i rest used :=
  ⟨fun _ h => Garlic.decode_selfDelimiting.consumes h,
    fun _ h => Message.decode_selfDelimiting.consumes h,
    fun _ h => Instruction.decode_selfDelimiting.consumes h⟩

/-- The octets of a garlic, of the message in its second clove and of the instruction before that. -/
theorem consumes_of_decode_padded :
    (∃ g used, Consumes Garlic.decode Garlic.padded g [7] used) ∧
    (∃ m used, Consumes Message.decode (Garlic.padded.drop 49) m (Garlic.padded.drop 71) used) ∧
    ∃ i used, Consumes Instruction.decode (Garlic.padded.drop 48) i (Garlic.padded.drop 49) used := by
  have garlic : ∃ g, Garlic.decode Garlic.padded = .ok (g, [7]) := by
    refine ⟨⟨[⟨⟨.here, none, none⟩, ⟨3, 4, .status 7 9⟩, 5, 6⟩,
      ⟨⟨.here, none, none⟩, ⟨8, 1, .data [5]⟩, 9, 6⟩], 1, 2⟩, by decide +kernel⟩
  have message : Message.decode (Garlic.padded.drop 49) =
      .ok (⟨8, 1, .data [5]⟩, Garlic.padded.drop 71) := by decide +kernel
  have instruction : Instruction.decode (Garlic.padded.drop 48) =
      .ok (⟨.here, none, none⟩, Garlic.padded.drop 49) := by decide +kernel
  obtain ⟨g, garlic⟩ := garlic
  exact ⟨⟨g, (consumes_of_decode _ _).1 g garlic⟩, ⟨_, (consumes_of_decode _ _).2.1 _ message⟩,
    ⟨_, (consumes_of_decode _ _).2.2 _ instruction⟩⟩

end GarlicRouting
