import GarlicRouting.Proofs.Session.Barrier
import GarlicRouting.Proofs.Session.Confirmation
import GarlicRouting.Proofs.Session.Index
import Mathlib

/-! What the messages hold that an outbox hands over: the caller's cloves, and cloves that ask for the
confirmations it waits for. -/
namespace GarlicRouting

/-- The status id that a clove sends. -/
def Clove.statusId? (c : Clove) : Option UInt32 :=
  match c.message.payload with
  | .status id _ => some id
  | _ => none

namespace Sealed

/-- The cloves of a message in their order, and after them cloves that send its confirmations and
nothing else. -/
structure Content (m : Sealed) (g : Garlic) : Prop where
  fits : g.Fits
  cloves : ∃ (asking : List Clove) (ids : List UInt32), g.cloves = m.cloves ++ asking ∧
    asking.map Clove.statusId? = ids.map some ∧ ∀ id, id ∈ ids ↔ id ∈ m.confirmations

/-- The octets of a message are its content, encrypted with this key for the peer: what the peer opens
them to is read as the content again. -/
def WrittenUnder (remoteKey : ElGamal.PublicKey) (key : SessionKey) (m : Sealed) : Prop :=
  ∃ g tags d, m.Content g ∧
    ((∀ c ∈ m.cloves, c.message.payload.Proper) → Garlic.decode.front g.octets = .ok g) ∧
    let block : TagBlock := ⟨tags, none, g.octets⟩
    (m.path = .handshake ∧ Sender.Handshaken remoteKey key block d m.wire ∨
      m.path = .tag ∧ ∃ tag, Sender.Tagged key tag block d m.wire)

def Written (remoteKey : ElGamal.PublicKey) (m : Sealed) : Prop := ∃ key, m.WrittenUnder remoteKey key

theorem Content.read {m : Sealed} {g : Garlic} (h : m.Content g)
    (proper : ∀ c ∈ m.cloves, c.message.payload.Proper) : Garlic.decode.front g.octets = .ok g := by
  obtain ⟨asking, ids, parts, sends, -⟩ := h.cloves
  have all : ∀ c ∈ g.cloves, c.message.payload.Proper := by
    intro c mem
    rw [parts, List.mem_append] at mem
    rcases mem with own | asks
    · exact proper c own
    · have sent : c.statusId? ∈ ids.map some := sends ▸ List.mem_map_of_mem asks
      obtain ⟨id, -, status⟩ := List.mem_map.mp sent
      unfold Clove.statusId? at status
      cases payload : c.message.payload with
      | status => trivial
      | garlic | data | other => simp [payload] at status
  have read := (Garlic.decode_reads h.fits all).front []
  rwa [List.append_nil] at read

structure Carries (remoteKey : ElGamal.PublicKey) (trackingId : UInt32) (cloves : List Clove)
    (m : Sealed) : Prop where
  trackingId : m.trackingId = trackingId
  cloves : m.cloves = cloves
  written : m.Written remoteKey

theorem mem_confirmations {m : Sealed} {id : UInt32} :
    id ∈ m.confirmations ↔ m.ackId = some id ∨ m.refreshAckId = some id := by
  unfold confirmations
  split_ifs with same
  · simp [same]
  · simp

end Sealed

namespace Sender

section Requests

variable {s : Sender} {clock : UInt64} {d : Draw} {reply : Option ReplyTunnel} {mint explicit : Bool}
  {acks : AckRequest}

theorem asking_requestAcks (asked : s.requestAcks clock d reply mint explicit = .ok acks) :
    ∃ ids : List UInt32, acks.cloves.map Clove.statusId? = ids.map some ∧
      ∀ id, id ∈ ids ↔ acks.ack = some id ∨ acks.refresh = some id := by
  rcases (requestAcks_eq_ok asked).2 with rfl | ⟨r, -, rfl⟩
  · exact ⟨[], rfl, by simp⟩
  · have sends (ids : CloveIds) (ackId : UInt32) :
        (ackClove clock r ids ackId).statusId? = some ackId := rfl
    obtain ⟨refresh, ack⟩ := ids_ackRequest s clock d r mint explicit
    rw [refresh, ack, ackRequest]
    cases mint with
    | true =>
      cases explicit && (s.settings.explicitAckClove || !true) with
      | true => exact ⟨[d.refreshAck, d.explicitAck], by simp [sends], by simp [or_comm, eq_comm]⟩
      | false => exact ⟨[d.refreshAck], by simp [sends], by simp [eq_comm]⟩
    | false =>
      cases explicit && (s.settings.explicitAckClove || !false) with
      | true => exact ⟨[d.explicitAck], by simp [sends], by simp [eq_comm]⟩
      | false => exact ⟨[], rfl, by simp⟩

/-- The clove for new tags comes first, and one for the message follows if it has an id of its own. -/
theorem statusIds_requestAcks (other : d.refreshAck ≠ d.explicitAck)
    (asked : s.requestAcks clock d reply mint explicit = .ok acks) :
    acks.cloves.map Clove.statusId? =
      (acks.refresh.toList ++ if acks.ack = acks.refresh then [] else acks.ack.toList).map some := by
  rcases (requestAcks_eq_ok asked).2 with rfl | ⟨r, -, rfl⟩
  · rfl
  · have sends (ids : CloveIds) (ackId : UInt32) :
        (ackClove clock r ids ackId).statusId? = some ackId := rfl
    obtain ⟨refresh, ack⟩ := ids_ackRequest s clock d r mint explicit
    rw [refresh, ack, ackRequest]
    cases mint with
    | true =>
      cases explicit && (s.settings.explicitAckClove || !true) <;> simp [sends, other.symm]
    | false => cases explicit && (s.settings.explicitAckClove || !false) <;> simp [sends]

/-- An id is told when an acknowledgment is asked for, of the message or of new tags. -/
theorem isSome_ack_iff (asked : s.requestAcks clock d reply mint explicit = .ok acks) :
    acks.ack.isSome ↔ explicit ∨ mint := by
  unfold requestAcks at asked
  split_ifs at asked with wanted
  · cases reply with
    | none => cases asked
    | some r =>
      obtain rfl := Except.ok.inj asked
      rw [(ids_ackRequest s clock d r mint explicit).2]
      cases mint <;> cases explicit <;> simp_all
      split_ifs <;> rfl
  · obtain rfl := Except.ok.inj asked
    simpa [or_comm] using wanted

end Requests

section Encrypt

variable {s t : Sender} {moment : Moment} {d : Draw} {reply : Option ReplyTunnel} {explicit : Bool}
  {trackingId : UInt32} {cloves : List Clove} {m : Sealed}

private theorem content_describe {u : Sender} {now : Nat} {path : Path} {mint : Bool}
    {acks : AckRequest} {wire payload : Bytes}
    (asked : s.requestAcks moment.clock d reply mint explicit = .ok acks)
    (written : Garlic.encode ⟨cloves ++ acks.cloves, d.garlicId, defaultExpiration moment.clock⟩ =
      .ok payload) :
    ∃ g, (u.describe now path acks trackingId cloves wire).Content g ∧ payload = g.octets := by
  obtain ⟨fits, rfl⟩ := Garlic.encode_eq_ok_iff.mp written
  obtain ⟨ids, asking, named⟩ := asking_requestAcks asked
  refine ⟨_, ⟨fits, acks.cloves, ids, rfl, asking, fun id => ?_⟩, rfl⟩
  rw [named, Sealed.mem_confirmations]
  rfl

/-- A message is encrypted with the key that the session has afterwards. -/
theorem writtenUnder_encrypt (sound : s.usable.Sound)
    (he : s.encrypt moment d reply explicit trackingId cloves = (.ok m, t)) :
    m.trackingId = trackingId ∧ m.cloves = cloves ∧
      ∃ key, t.key = some key ∧ m.WrittenUnder s.remoteKey key := by
  cases sending_of_encrypt sound he with
  | spent _ _ tag key _ _ _ _ asked written _ known sealed after =>
    obtain ⟨g, content, rfl⟩ := content_describe asked written
    refine ⟨rfl, rfl, key, ?_, g, _, d, content, content.read, .inr ⟨rfl, tag, tagged_of_wire sealed⟩⟩
    rw [after, key_keepPending]
    exact known
  | opened _ _ key _ _ _ _ asked written agreed sealed after =>
    obtain ⟨g, content, rfl⟩ := content_describe asked written
    refine ⟨rfl, rfl, key, ?_, g, _, d, content, content.read, .inl ⟨rfl, handshaken_of_wire sealed⟩⟩
    rw [after, key_keepPending]
    exact key_of_handshakeKey agreed

theorem carries_encrypt (sound : s.usable.Sound)
    (he : s.encrypt moment d reply explicit trackingId cloves = (.ok m, t)) :
    m.Carries s.remoteKey trackingId cloves := by
  obtain ⟨own, same, key, -, written⟩ := writtenUnder_encrypt sound he
  exact ⟨own, same, key, written⟩

/-- The session makes the message in one of these steps, with the key that it has then. -/
def Makes (s : Sender) (given : List Event) (m : Sealed) : Prop :=
  ∃ before moment d reply explicit rest,
    given = before ++ .encrypt moment d reply explicit m.trackingId m.cloves :: rest ∧
    ∃ t key, (s.run before).encrypt moment d reply explicit m.trackingId m.cloves = (.ok m, t) ∧
      t.key = some key ∧ m.WrittenUnder s.remoteKey key

theorem makes_encrypt (sound : s.usable.Sound)
    (he : s.encrypt moment d reply explicit trackingId cloves = (.ok m, t)) (rest : List Event) :
    s.Makes (.encrypt moment d reply explicit trackingId cloves :: rest) m := by
  obtain ⟨rfl, rfl, key, known, written⟩ := writtenUnder_encrypt sound he
  exact ⟨[], moment, d, reply, explicit, rest, rfl, t, key, he, known, written⟩

theorem Makes.append {given : List Event} (h : s.Makes given m) (more : List Event) :
    s.Makes (given ++ more) m := by
  obtain ⟨before, moment, d, reply, explicit, rest, rfl, made⟩ := h
  refine ⟨before, moment, d, reply, explicit, rest ++ more, ?_, made⟩
  rw [List.append_assoc, List.cons_append]

/-- What is made later on is made in the whole. -/
theorem Makes.prepend (sound : s.usable.Sound) {earlier given : List Event}
    (h : (s.run earlier).Makes given m) : s.Makes (earlier ++ given) m := by
  obtain ⟨before, moment, d, reply, explicit, rest, rfl, t, key, made, known, written⟩ := h
  rw [(frame_run sound earlier).1.remoteKey] at written
  rw [← run_append] at made
  refine ⟨earlier ++ before, moment, d, reply, explicit, rest, ?_, t, key, made, known, written⟩
  rw [List.append_assoc]

/-- A message that was asked to be acknowledged, and every handshake, can be confirmed. -/
theorem confirmations_ne_nil (sound : s.usable.Sound)
    (he : s.encrypt moment d reply explicit trackingId cloves = (.ok m, t))
    (wanted : explicit ∨ m.path = .handshake) : m.confirmations ≠ [] := by
  have named : m.ackId.isSome := by
    cases sending_of_encrypt sound he with
    | spent _ _ _ _ _ _ _ _ asked =>
      have explicit : explicit = true := by
        rcases wanted with explicit | handshake
        · exact explicit
        · cases handshake
      exact (isSome_ack_iff asked).mpr (.inl explicit)
    | opened _ _ _ _ _ _ _ asked => exact (isSome_ack_iff asked).mpr (.inr rfl)
  obtain ⟨id, hid⟩ := Option.isSome_iff_exists.mp named
  exact List.ne_nil_of_mem (Sealed.mem_confirmations.mpr (.inl hid))

/-- A send that is tracked can be confirmed: while a barrier is up every message is a handshake. -/
theorem Guarded.confirmations_ne_nil {keys : List SessionKey} (h : Guarded keys s)
    (he : s.encrypt moment d reply explicit trackingId cloves = (.ok m, t))
    (tracked : Outbox.needsTracking explicit m) : m.confirmations ≠ [] := by
  apply Sender.confirmations_ne_nil h.sound he
  have path := (h.encrypt_ok he).1
  simp only [Outbox.needsTracking, Bool.or_eq_true, decide_eq_true_eq] at tracked
  rcases tracked with (explicit | handshake) | barrier
  · exact .inl explicit
  · exact .inr handshake
  · exact .inr (path.mp barrier)

end Encrypt

end Sender

/-- The tunnel layer took what it was handed. -/
def Handoff.accepted (h : Handoff) : Bool := h.receipt.result.isOk

namespace Outbox

section Handoffs

variable {o : Outbox}

theorem sender_frame_perform (sound : o.sender.usable.Sound) (steps : List Step) :
    Sender.Frame o.sender (o.perform steps).sender ∧ (o.perform steps).sender.usable.Sound := by
  rw [sender_perform]
  exact Sender.frame_run sound _

theorem attempt_cases (moment : Moment) (layer : TunnelLayer) (r : Round) (e : Outstanding) :
    (attempt moment layer r e).handoffs = r.handoffs ∧
        (attempt moment layer r e).resent = r.resent ∨
      ∃ m s h, r.outbox.sender.encrypt moment r.supply.next.1 (layer.reply e.trackingId) e.explicit
          e.trackingId e.cloves = (.ok m, s) ∧ h.shipment.message = m ∧
        (attempt moment layer r e).handoffs = h :: r.handoffs ∧
        (attempt moment layer r e).resent =
          (if h.accepted then e.trackingId :: r.resent else r.resent) ∧
        (attempt moment layer r e).outbox =
          ({ r.outbox with sender := s }.registerAcks e.trackingId m.confirmations).perform
            (handOffSteps layer ⟨r.outbox.leases, m⟩) := by
  unfold attempt
  cases he : r.outbox.sender.encrypt moment r.supply.next.1 (layer.reply e.trackingId) e.explicit
    e.trackingId e.cloves with
  | mk result s =>
    cases result with
    | error f =>
      simp [he]
    | ok m =>
      simp only [he]
      have carried := handOff_snd ({ r.outbox with sender := s }.registerAcks e.trackingId
        m.confirmations) layer m
      rw [leases_registerAcks] at carried
      refine .inr ⟨m, s, ({ r.outbox with sender := s }.registerAcks e.trackingId
        m.confirmations |>.handOff layer m).1, rfl, rfl, ?_⟩
      rw [← carried, Handoff.accepted]
      split <;> rename_i hr <;> simp [hr, Except.isOk, Except.toBool]

theorem mem_handoffs_round (moment : Moment) (layer : TunnelLayer) {r : Round}
    (sound : r.outbox.sender.usable.Sound) {es : List Outstanding} {h : Handoff}
    (mem : h ∈ (es.foldl (attempt moment layer) r).handoffs) :
    h ∈ r.handoffs ∨ ∃ x ∈ es,
      h.shipment.message.Carries r.outbox.sender.remoteKey x.trackingId x.cloves := by
  induction es generalizing r with
  | nil => exact .inl mem
  | cons e es ih =>
    obtain ⟨frame, next⟩ := sender_frame_perform sound
      (attemptSteps moment layer r.outbox r.supply.next.1 e)
    rw [← attempt_eq_perform] at frame next
    rcases ih next mem with before | ⟨x, hx, carries⟩
    · rcases attempt_cases moment layer r e with ⟨same, -⟩ | ⟨m, s, new, he, made, grown, -⟩
      · rw [same] at before
        exact .inl before
      · rw [grown, List.mem_cons] at before
        rcases before with rfl | before
        · refine .inr ⟨e, List.mem_cons_self, ?_⟩
          rw [made]
          exact Sender.carries_encrypt sound he
        · exact .inl before
    · rw [frame.remoteKey] at carries
      exact .inr ⟨x, List.mem_cons_of_mem e hx, carries⟩

theorem shipment_send {moment : Moment} {d : Draw} {layer : TunnelLayer} {explicit : Bool}
    {cloves : List Clove} {h : Handoff}
    (mem : h ∈ o.handoffs (.send moment d layer explicit cloves)) :
    ∃ s, o.sender.encrypt moment d (layer.reply o.nextId) explicit o.nextId cloves =
      (.ok h.shipment.message, s) := by
  rw [handoffs, Option.mem_toList, send] at mem
  cases he : o.sender.encrypt moment d (layer.reply o.nextId) explicit o.nextId cloves with
  | mk result s =>
    cases result with
    | error f => simp [he] at mem
    | ok m =>
      simp only [he] at mem
      split at mem <;> rw [← Option.some.inj mem] <;> exact ⟨s, rfl⟩

/-- Whatever is handed over is an encryption of a new send, or of one that is due. -/
theorem handoff_cases (sound : o.sender.usable.Sound) {e : Event} {h : Handoff}
    (mem : h ∈ o.handoffs e) :
    (∃ moment d layer explicit cloves, e = .send moment d layer explicit cloves ∧
      h.shipment.message.Carries o.sender.remoteKey o.nextId cloves) ∨
    ∃ moment supply layer, e = .maintain moment supply layer ∧ ∃ x ∈ o.due moment.instant,
      h.shipment.message.Carries o.sender.remoteKey x.trackingId x.cloves := by
  cases e with
  | send moment d layer explicit cloves =>
    obtain ⟨s, he⟩ := shipment_send mem
    exact .inl ⟨moment, d, layer, explicit, cloves, rfl, Sender.carries_encrypt sound he⟩
  | maintain moment supply layer =>
    refine .inr ⟨moment, supply, layer, rfl, ?_⟩
    obtain ⟨frame, opened⟩ := sender_frame_perform sound (o.beginSteps moment.instant)
    rw [← o.opening_eq_perform supply] at frame opened
    rw [handoffs, maintain_eq, List.mem_reverse] at mem
    rcases mem_handoffs_round moment layer opened mem with none | ⟨x, hx, carries⟩
    · cases none
    · rw [frame.remoteKey] at carries
      exact ⟨x, hx, carries⟩
  | status | leases | clear | session | front => cases mem

end Handoffs

end Outbox

end GarlicRouting
