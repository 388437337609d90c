import GarlicRouting.Proofs.Session.Receiver
import GarlicRouting.Proofs.Session.Sender
import GarlicRouting.Proofs.Wire
import Mathlib

/-! Messages on the wire: what a sender puts into them, and that the receiver finds it there. -/
namespace GarlicRouting

open Sender

section Wires

variable {key : SessionKey} {tag : SessionTag} {block : TagBlock} {d : Draw} {wire : Bytes}

theorem exists_tagWire_iff : (∃ wire, tagWire key tag block d = .ok wire) ↔ block.Fits := by
  rw [← @TagBlock.exists_encrypt_eq_ok_iff block key tag.octets d.filler, tagWire]
  cases block.encrypt key tag.octets d.filler <;> simp [bind, Except.bind, pure, Except.pure]

theorem exists_handshakeWire_iff {remoteKey : ElGamal.PublicKey} :
    (∃ wire, handshakeWire remoteKey key block d = .ok wire) ↔ block.Fits := by
  rw [← @TagBlock.exists_encrypt_eq_ok_iff block key d.preIv d.filler, handshakeWire]
  cases block.encrypt key d.preIv d.filler <;> simp [bind, Except.bind, pure, Except.pure]

theorem tagWire_eq_error_iff {fault : Fault} (payload : block.payload.length ≤ 4294967295) :
    tagWire key tag block d = .error fault ↔
      65535 < block.tags.length ∧ fault = .tooLarge .tagCount block.tags.length := by
  rw [← @TagBlock.encrypt_eq_error_iff block key tag.octets d.filler fault payload, tagWire]
  cases block.encrypt key tag.octets d.filler <;> simp [bind, Except.bind, pure, Except.pure]

theorem handshakeWire_eq_error_iff {remoteKey : ElGamal.PublicKey} {fault : Fault}
    (payload : block.payload.length ≤ 4294967295) :
    handshakeWire remoteKey key block d = .error fault ↔
      65535 < block.tags.length ∧ fault = .tooLarge .tagCount block.tags.length := by
  rw [← @TagBlock.encrypt_eq_error_iff block key d.preIv d.filler fault payload, handshakeWire]
  cases block.encrypt key d.preIv d.filler <;> simp [bind, Except.bind, pure, Except.pure]

theorem begins_tagWire (h : tagWire key tag block d = .ok wire) :
    tag.Begins wire ∧ TagBlock.decrypt key tag.octets (wire.drop 32) = .ok block := by
  unfold tagWire at h
  cases hb : block.encrypt key tag.octets d.filler with
  | error e => rw [hb] at h; cases h
  | ok ciphertext =>
    rw [hb] at h
    cases h
    have front : (tag.octets.toList ++ ciphertext).drop 32 = ciphertext :=
      List.drop_left' tag.octets.length_toList
    refine ⟨tag.begins_append ciphertext, ?_⟩
    rw [front]
    exact (TagBlock.decrypt_encrypt hb).1

theorem decrypt_handshakeWire {remoteKey : ElGamal.PublicKey}
    (h : handshakeWire remoteKey key block d = .ok wire) :
    TagBlock.decrypt key d.preIv (wire.drop 514) = .ok block := by
  unfold handshakeWire at h
  cases hb : block.encrypt key d.preIv d.filler with
  | error e => rw [hb] at h; cases h
  | ok ciphertext =>
    rw [hb] at h
    cases h
    rw [List.drop_left' (Octets.length_toList _)]
    exact (TagBlock.decrypt_encrypt hb).1

theorem opened?_handshakeWire {x : Nat} (hx : x < ElGamal.prime - 1)
    (h : handshakeWire (ElGamal.KeyPair.ofExponent x).publicKey key block d = .ok wire) :
    Receiver.opened? (ElGamal.KeyPair.ofExponent x).privateKey wire = some (block, key) := by
  have body := decrypt_handshakeWire h
  unfold handshakeWire at h
  cases hb : block.encrypt key d.preIv d.filler with
  | error e => rw [hb] at h; cases h
  | ok ciphertext =>
    rw [hb] at h
    cases h
    have parts : (key.octets ++ d.preIv ++ d.noise : Octets 222).toList =
        key.octets.toList ++ (d.preIv.toList ++ d.noise.toList) := List.append_assoc _ _ _
    have hkey : (key.octets ++ d.preIv ++ d.noise : Octets 222).slice 0 32 = key.octets := by
      apply Octets.ext
      rw [Octets.toList_slice, parts, List.drop_zero, List.take_left' key.octets.length_toList]
    have hseed : (key.octets ++ d.preIv ++ d.noise : Octets 222).slice 32 32 = d.preIv := by
      apply Octets.ext
      rw [Octets.toList_slice, parts, List.drop_left' key.octets.length_toList,
        List.take_left' d.preIv.length_toList]
    rw [Receiver.opened?, ElGamal.decrypt_encrypt x _ hx]
    simp only [hkey, hseed, body]
    rfl

/-- The octets tell the peer a session key, and the block is in them: the key opens it, and whoever
holds the private key finds both. -/
structure Sender.Handshaken (remoteKey : ElGamal.PublicKey) (key : SessionKey) (block : TagBlock)
    (d : Draw) (wire : Bytes) : Prop where
  made : handshakeWire remoteKey key block d = .ok wire
  body : TagBlock.decrypt key d.preIv (wire.drop 514) = .ok block
  opens : ∀ x < ElGamal.prime - 1, remoteKey = (ElGamal.KeyPair.ofExponent x).publicKey →
    ∀ r : Receiver, r.privateKey = (ElGamal.KeyPair.ofExponent x).privateKey →
      (r.decryptHandshake wire).1 = some (block, key)

/-- The octets begin with a tag, and its key opens the block in the rest of them. -/
structure Sender.Tagged (key : SessionKey) (tag : SessionTag) (block : TagBlock) (d : Draw)
    (wire : Bytes) : Prop where
  made : tagWire key tag block d = .ok wire
  front : tag.Begins wire
  opens : TagBlock.decrypt key tag.octets (wire.drop 32) = .ok block

theorem handshaken_of_wire {remoteKey : ElGamal.PublicKey}
    (h : handshakeWire remoteKey key block d = .ok wire) :
    Handshaken remoteKey key block d wire where
  made := h
  body := decrypt_handshakeWire h
  opens x hx same r hr := by
    rw [same] at h
    rw [Receiver.decryptHandshake_fst, hr]
    exact opened?_handshakeWire hx h

theorem tagged_of_wire (h : tagWire key tag block d = .ok wire) : Tagged key tag block d wire :=
  ⟨h, (begins_tagWire h).1, (begins_tagWire h).2⟩

end Wires

/-- A message with what it was made from. -/
structure Letter where
  message : Sealed
  moment : Moment
  draw : Draw
  reply : Option ReplyTunnel
  cloves : List Clove
  /-- The tags that were minted with it. -/
  tags : List SessionTag
  /-- The session key right after it was made. -/
  key : Option SessionKey

namespace Letter

/-- The letter of a message that leaves the sender in this state. -/
def ofMessage (t : Sender) (m : Sealed) (moment : Moment) (d : Draw) (reply : Option ReplyTunnel)
    (cloves : List Clove) : Letter where
  message := m
  moment := moment
  draw := d
  reply := reply
  cloves := cloves
  tags := if m.refreshAckId.isSome then d.batch t.settings.refillBatch else []
  key := t.key

/-- The clove that asks for an acknowledgment. -/
def asks (L : Letter) (ids : CloveIds) (ackId : Option UInt32) : List Clove :=
  match L.reply, ackId with
  | some reply, some ackId => [ackClove L.moment.clock reply ids ackId]
  | _, _ => []

/-- All cloves in the message: the caller's, then the one that asks for the acknowledgment of new
tags, then the one that asks for an explicit acknowledgment. -/
def content (L : Letter) : List Clove :=
  L.cloves ++ L.asks L.draw.refreshIds L.message.refreshAckId ++
    if L.message.ackId = L.message.refreshAckId then [] else
      L.asks L.draw.explicitIds L.message.ackId

def garlic (L : Letter) : Garlic := ⟨L.content, L.draw.garlicId, defaultExpiration L.moment.clock⟩

def block (L : Letter) : TagBlock := ⟨L.tags, none, L.garlic.octets⟩

/-- The octets are made from the block, with the key of the letter. Without a tag they are a
handshake. -/
structure Written (remoteKey : ElGamal.PublicKey) (L : Letter) (tag? : Option SessionTag)
    (key : SessionKey) : Prop where
  kept : L.key = some key
  fits : L.garlic.Fits
  path : L.message.path = tag?.elim .handshake fun _ => .tag
  wire : (tag?.elim (handshakeWire remoteKey key L.block L.draw) fun t =>
    tagWire key t L.block L.draw) = .ok L.message.wire

/-- The cleartext that the letter tells of is the one that is encrypted. -/
private theorem garlic_ofMessage {s : Sender} (t : Sender) (m : Sealed) {moment : Moment} {d : Draw}
    {reply : Option ReplyTunnel} {mint explicit : Bool} (cloves : List Clove) {acks : AckRequest}
    (other : d.refreshAck ≠ d.explicitAck)
    (asked : s.requestAcks moment.clock d reply mint explicit = .ok acks)
    (ack : m.ackId = acks.ack) (refresh : m.refreshAckId = acks.refresh) :
    (ofMessage t m moment d reply cloves).garlic =
      ⟨cloves ++ acks.cloves, d.garlicId, defaultExpiration moment.clock⟩ := by
  unfold garlic content ofMessage asks
  simp only [ack, refresh]
  rcases (requestAcks_eq_ok asked).2 with rfl | ⟨r, rfl, rfl⟩
  · simp
  · unfold ackRequest
    cases mint <;> split_ifs <;> simp_all

/-- A message that could be made has all of its content in its octets. A tag at the front was usable
before. -/
theorem written_of_encrypt {s t : Sender} (sound : s.usable.Sound) {moment : Moment} {d : Draw}
    {reply : Option ReplyTunnel} {explicit : Bool} {trackingId : UInt32} {cloves : List Clove}
    {m : Sealed} (other : d.refreshAck ≠ d.explicitAck)
    (he : s.encrypt moment d reply explicit trackingId cloves = (.ok m, t)) :
    (m.refreshAckId = none ∨ m.refreshAckId = some d.refreshAck) ∧
      ∃ tag? key, (ofMessage t m moment d reply cloves).Written s.remoteKey tag? key ∧
          ∀ tag, tag? = some tag → s.key = some key ∧ ∃ e,
            s.usable.stored? tag = some e ∧ s.usable.isLive moment.instant e ∧
              t.usable.stored? tag = none := by
  have settings : t.settings = s.settings := (frame_encrypt sound he).settings
  cases sending_of_encrypt sound he with
  | spent acks payload tag key usable wire _ path asked written picked known hwire after =>
    obtain ⟨fits, rfl⟩ := Garlic.encode_eq_ok_iff.mp written
    obtain ⟨-, ⟨e, he, live⟩, gone⟩ := picked_expire sound picked
    have refresh := (requestAcks_eq_ok asked).1
    have tags : (ofMessage t (t.describe moment.instant .tag acks trackingId cloves wire) moment d
        reply cloves).tags = (s.expire moment.instant).minted moment.instant d := by
      cases mint : (s.expire moment.instant).mintsTags moment.instant <;>
        simp [ofMessage, describe, refresh, settings, minted, mint]
    have same := garlic_ofMessage t (t.describe moment.instant .tag acks trackingId cloves wire) cloves
      other asked rfl rfl
    refine ⟨?_, some tag, key, ⟨?_, ?_, rfl, ?_⟩, ?_⟩
    · rw [describe, refresh]
      split_ifs
      · exact .inr rfl
      · exact .inl rfl
    · rw [ofMessage, after, key_keepPending]
      exact known
    · rwa [same]
    · rw [Option.elim_some, block, tags, same]
      exact hwire
    · intro u hu
      obtain rfl := Option.some.inj hu
      refine ⟨known, e, he, live, ?_⟩
      rw [after, usable_keepPending, gone, if_pos rfl]
  | opened acks payload key wire s₁ _ path asked written agreed hwire after =>
    obtain ⟨fits, rfl⟩ := Garlic.encode_eq_ok_iff.mp written
    have refresh := (requestAcks_eq_ok asked).1
    rw [if_pos rfl] at refresh
    have tags : (ofMessage t (t.describe moment.instant .handshake acks trackingId cloves wire) moment
        d reply cloves).tags = d.batch s.settings.refillBatch := by
      simp [ofMessage, describe, refresh, settings]
    have same := garlic_ofMessage t
      (t.describe moment.instant .handshake acks trackingId cloves wire) cloves other asked rfl rfl
    refine ⟨.inr refresh, none, key, ⟨?_, ?_, rfl, ?_⟩, fun tag h => ?_⟩
    · rw [ofMessage, after, key_keepPending]
      exact key_of_handshakeKey agreed
    · rwa [same]
    · rw [Option.elim_none, block, tags, same]
      exact hwire
    · cases h

theorem refreshAck_of_encrypt {s t : Sender} (sound : s.usable.Sound) {moment : Moment} {d : Draw}
    {reply : Option ReplyTunnel} {explicit : Bool} {trackingId ackId : UInt32} {cloves : List Clove}
    {m : Sealed} (other : d.refreshAck ≠ d.explicitAck)
    (he : s.encrypt moment d reply explicit trackingId cloves = (.ok m, t))
    (hid : m.refreshAckId = some ackId) : ackId = d.refreshAck := by
  rcases (written_of_encrypt sound other he).1 with none | some
  · rw [none] at hid
    cases hid
  · rw [some, Option.some.injEq] at hid
    exact hid.symm

section Opening

variable {x : Nat} {r : Receiver} {now : Nat} {L : Letter} {tag? : Option SessionTag}
  {key : SessionKey}

/-- A tag at the front of a letter that the receiver knows with the right key, or else a handshake
that is not taken for something else, opens the block. -/
theorem Written.block? (hx : x < ElGamal.prime - 1)
    (w : L.Written (ElGamal.KeyPair.ofExponent x).publicKey tag? key)
    (hr : r.privateKey = (ElGamal.KeyPair.ofExponent x).privateKey)
    (spent : r.spent? now L.message.wire = tag?.map (·, key)) :
    r.block? now L.message.wire = some (L.block, key) := by
  have wire := w.wire
  unfold Receiver.block?
  rw [spent]
  cases tag? with
  | none =>
    rw [Option.elim_none] at wire
    rw [Option.map_none, hr]
    exact opened?_handshakeWire hx wire
  | some t =>
    rw [Option.elim_some] at wire
    simp only [Option.map_some, (begins_tagWire wire).2]
    rfl

theorem proper_content (proper : ∀ c ∈ L.cloves, c.message.payload.Proper) :
    ∀ c ∈ L.content, c.message.payload.Proper := by
  have asked (ids : CloveIds) (ackId : Option UInt32) :
      ∀ c ∈ L.asks ids ackId, c.message.payload.Proper := by
    intro c hc
    unfold asks at hc
    split at hc
    · rw [List.mem_singleton] at hc
      rw [hc]
      trivial
    · cases hc
  intro c hc
  rw [content, List.mem_append, List.mem_append] at hc
  rcases hc with (hc | hc) | hc
  · exact proper c hc
  · exact asked _ _ c hc
  · split_ifs at hc
    · cases hc
    · exact asked _ _ c hc

theorem Written.decrypt {remoteKey : ElGamal.PublicKey} (w : L.Written remoteKey tag? key)
    (proper : ∀ c ∈ L.cloves, c.message.payload.Proper)
    (opened : r.block? now L.message.wire = some (L.block, key)) :
    (r.decrypt now L.message.wire).1 = some L.garlic := by
  have read := (Garlic.decode_reads w.fits (proper_content proper)).front []
  rw [List.append_nil] at read
  rw [Receiver.decrypt_fst, opened, Option.bind_some, block, read]
  rfl

end Opening

end Letter

end GarlicRouting
