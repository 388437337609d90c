import GarlicRouting.Proofs.Session.Upkeep
import Mathlib

/-! A send that fails: what it leaves in the window, and that nothing is heard of it again. -/
namespace GarlicRouting.Outbox

section Undone

variable {o : Outbox} {moment : Moment} {d : Draw} {layer : TunnelLayer} {explicit : Bool}
  {cloves : List Clove}

/-- A send whose place and status ids are all new leaves no trace once it is forgotten. -/
theorem forget_track {e : Outstanding} (absent : o.entries.find? e.trackingId = none)
    (new : ∀ id ∈ e.ackIds, o.acks.find? id = none) : (o.track e).forget e.trackingId = o := by
  have there : (o.track e).entries.find? e.trackingId = some e := by
    rw [find?_entries_track, if_pos rfl]
  have entries : (o.track e).entries.erase e.trackingId = o.entries := by
    apply Table.foldl_erase_foldl_insert o.entries [e.trackingId] e
    intro k mem
    rwa [List.mem_singleton.mp mem]
  have acks : e.ackIds.foldl Table.erase (o.track e).acks = o.acks :=
    Table.foldl_erase_foldl_insert o.acks e.ackIds e.trackingId new
  rw [forget_eq _ there, entries, acks]
  rfl

theorem confirmations_subset_asked (sound : o.sender.usable.Sound) {m : Sealed} {s : Sender}
    (made : o.sender.encrypt moment d (layer.reply o.nextId) explicit o.nextId cloves = (.ok m, s)) :
    m.confirmations ⊆ o.asked (.send moment d layer explicit cloves) := by
  have first := (Sender.confirmations_sublist sound made).subset
  intro id named
  rw [asked, steps, sendSteps, List.flatMap_cons, List.flatMap_cons]
  exact List.mem_append_left _ (first named)

/-- If no status comes in meanwhile, a send that fails uses up its tracking id and leaves the session as
the encryption left it. -/
theorem send_of_error (mute : layer.Mute) (absent : o.entries.find? o.nextId = none)
    (new : ∀ m s, o.sender.encrypt moment d (layer.reply o.nextId) explicit o.nextId cloves =
      (.ok m, s) → ∀ id ∈ m.confirmations, o.acks.find? id = none) {f : SendFault}
    (failed : (o.send moment d layer explicit cloves).1 = .error f) :
    o.after (.send moment d layer explicit cloves) =
      { o with
        nextId := o.nextId + 1
        sender := (o.sender.encrypt moment d (layer.reply o.nextId) explicit o.nextId cloves).2 } := by
  rw [after]
  unfold send at failed ⊢
  cases he : o.sender.encrypt moment d (layer.reply o.nextId) explicit o.nextId cloves with
  | mk result s =>
    cases result with
    | error e => simp only [he]
    | ok m =>
      have silent : (layer.carry ⟨o.leases, m⟩).reported = [] := mute _
      -- The send is entered before it is handed over, and the refusal takes it out again.
      let undone : Outbox := { o with nextId := o.nextId + 1, sender := s }
      have forgotten : (undone.track (entryOf o.nextId moment explicit cloves m)).forget o.nextId =
          undone := forget_track (o := undone) absent (new m s he)
      cases refused : (layer.carry ⟨o.leases, m⟩).result with
      | ok _ =>
        cases tracked : needsTracking explicit m <;> simp [he, tracked, handOff, refused] at failed
      | error e =>
        cases tracked : needsTracking explicit m with
        | false => simp [he, tracked, handOff, refused, silent, deliveryStatuses]
        | true =>
          simp only [he, tracked, if_true, handOff, leases_track, refused, silent, deliveryStatuses]
          exact forgotten

end Undone

section Gone

variable {o : Outbox} {T : UInt32}

theorem Keyed.not_acknowledged (h : o.Keyed) (gone : o.entries.find? T = none) (id : UInt32) :
    (o.deliveryStatus id).1.trackingId ≠ some T := by
  rw [deliveryStatus_fst]
  intro confirmed
  obtain ⟨e, found, same⟩ := Option.map_eq_some_iff.mp confirmed
  obtain ⟨U, -, there⟩ := Option.bind_eq_some_iff.mp found
  rw [← h.keyed U e there, same, gone] at there
  cases there

/-- A send that has gone, and whose tracking id has been given out, has gone for good: no run brings it
back into the window, and none confirms it. -/
theorem Numbered.gone_run {n : Nat} (h : o.Numbered n) {es : List Event}
    (few : n + es.countP Event.isSend < 2 ^ 32) (old : T.toNat ≤ n) (gone : o.entries.find? T = none) :
    (o.run es).entries.find? T = none ∧ .confirmed T ∉ o.signsIn es := by
  induction es generalizing o n with
  | nil => exact ⟨gone, List.not_mem_nil⟩
  | cons e es ih =>
    have count := countP_isSend_cons e es
    have other : e.isSend → T ≠ o.nextId := h.ne_nextId (by omega) old
    have left := h.toKeyed.absent_after gone other
    obtain ⟨gone', silent⟩ := ih (h.after e) (by omega) (by omega) left
    constructor
    · exact gone'
    · rw [signsIn, List.mem_append, not_or]
      constructor
      · intro confirmed
        rcases (h.confirmed_after confirmed).1 with there | ⟨send, same⟩
        · exact there gone
        · exact other send same
      · exact silent

theorem handed_mem_signsIn {es : List Event} {h : Handoff} (mem : h ∈ o.handoffsIn es) :
    .handed h.shipment.message.trackingId ∈ o.signsIn es := by
  induction es generalizing o with
  | nil => cases mem
  | cons e es ih =>
    rw [signsIn, List.mem_append]
    rcases List.mem_append.mp mem with now | later
    · left
      have shown : o.signs e = (o.handoffs e).flatMap Handoff.signs := by
        cases e with
        | status ackId => cases now
        | _ => rfl
      rw [shown]
      exact List.mem_flatMap.mpr ⟨h, now, List.mem_cons_self⟩
    · right
      exact ih later

end Gone

section Run

variable (remote : Identity) (remoteKey : ElGamal.PublicKey) (settings : Settings)

/-- A send that fails is forgotten, in every reachable window and whatever it fails of, as long as no
status comes in meanwhile. The tables of sends and of status ids are what they were before, and all that
is different afterwards is the next tracking id and the session. However the run goes on, the failed
send is never handed over, and no status id is ever taken for its confirmation. -/
theorem failed_send_forgotten (past rest : List Event) (moment : Moment) (d : Draw)
    (layer : TunnelLayer) (mute : layer.Mute) (explicit : Bool) (cloves : List Clove)
    (few : (past ++ .send moment d layer explicit cloves :: rest).countP Event.isSend < 2 ^ 32)
    (fresh : ((Outbox.new (.new remote remoteKey settings)).askedIn
      (past ++ [.send moment d layer explicit cloves])).Nodup) (f : SendFault) :
    let o := (Outbox.new (.new remote remoteKey settings)).run past
    let T := o.nextId
    let after := o.after (.send moment d layer explicit cloves)
    (o.send moment d layer explicit cloves).1 = .error f →
      after.entries = o.entries ∧ after.acks = o.acks ∧
      after = { o with
        nextId := T + 1
        sender := (o.sender.encrypt moment d (layer.reply T) explicit T cloves).2 } ∧
      (∀ h ∈ after.handoffsIn rest, h.shipment.message.trackingId ≠ T) ∧
      .confirmed T ∉ after.signsIn rest ∧
      ∀ id, ((after.run rest).deliveryStatus id).1.trackingId ≠ some T := by
  intro o T after failed
  let failing := Event.send moment d layer explicit cloves
  have numbered : o.Numbered (past.countP Event.isSend) := numbered_run _ past
  have one : [failing].countP Event.isSend = 1 := rfl
  rw [List.countP_append, countP_isSend_cons, one] at few
  have absent : o.entries.find? T = none := numbered.absent_nextId (by omega)
  have new : ∀ m s, o.sender.encrypt moment d (layer.reply T) explicit T cloves = (.ok m, s) →
      ∀ id ∈ m.confirmations, o.acks.find? id = none := by
    intro m s made id named
    rw [askedIn_concat] at fresh
    obtain ⟨before, -, -⟩ := List.nodup_append.mp fresh
    have linked := linked_run remote remoteKey settings (by omega) before
    obtain ⟨-, sound⟩ := sender_frame_run remote remoteKey settings past
    have asked : id ∈ o.asked failing := confirmations_subset_asked sound made named
    apply Option.eq_none_iff_forall_ne_some.mpr
    intro U mapped
    exact List.disjoint_of_nodup_append fresh (linked.mapped id U mapped) asked
  have undone : after = _ := send_of_error mute absent new failed
  have next : after.Numbered (past.countP Event.isSend + 1) := numbered.after failing
  have given : T.toNat ≤ past.countP Event.isSend + 1 := (numbered.toNat_nextId (by omega)).le
  have entries : after.entries = o.entries := by simp only [undone]
  have acks : after.acks = o.acks := by simp only [undone]
  have gone : after.entries.find? T = none := by
    rw [entries]
    exact absent
  have few : past.countP Event.isSend + 1 + rest.countP Event.isSend < 2 ^ 32 := by omega
  obtain ⟨left, silent⟩ := next.gone_run few given gone
  refine ⟨entries, acks, undone, ?_, silent, ?_⟩
  · intro h mem same
    apply next.not_handed few given gone
    rw [← same]
    exact handed_mem_signsIn mem
  · exact (next.run rest).toKeyed.not_acknowledged left

end Run

def closedLayer : TunnelLayer := ⟨openLayer.reply, fun _ => ⟨.error .noOutboundTunnel, []⟩⟩

/-- A status that a refused message asked for, a round of maintenance, and another send. -/
def afterRefusal : List Event :=
  [.status 4,
    .maintain ⟨16000000000, 0⟩ ⟨fun n => .numbered (n + 2), 0⟩ openLayer,
    .send ⟨17000000000, 0⟩ (.numbered 3) openLayer true []]

theorem failed_send_forgotten_refused :
    let start := Outbox.new (.new ⟨.ofNat 32 1⟩ ⟨.ofNat 256 2⟩ {})
    let refused := Event.send ⟨1000000000, 0⟩ (.numbered 1) closedLayer true []
    let o := start.run oneSend
    let after := o.after refused
    closedLayer.Mute ∧ (oneSend ++ refused :: afterRefusal).countP Event.isSend < 2 ^ 32 ∧
      (start.askedIn (oneSend ++ [refused])).Nodup ∧
      (o.send ⟨1000000000, 0⟩ (.numbered 1) closedLayer true []).1 =
        .error (.tunnel .noOutboundTunnel) ∧
      o.nextId = 2 ∧ o.acks.toList = [(1, 1)] ∧ after.acks = o.acks ∧
      (after.handoffsIn afterRefusal).map (·.shipment.message.trackingId) = [1, 3] ∧
      (∀ h ∈ after.handoffsIn afterRefusal, h.shipment.message.trackingId ≠ 2) ∧
      ∀ id, ((after.run afterRefusal).deliveryStatus id).1.trackingId ≠ some 2 := by
  have mute : closedLayer.Mute := fun _ => rfl
  have fresh : ((Outbox.new (.new ⟨.ofNat 32 1⟩ ⟨.ofNat 256 2⟩ {})).askedIn
      (oneSend ++ [.send ⟨1000000000, 0⟩ (.numbered 1) closedLayer true []])).Nodup := by decide +kernel
  have failed : (((Outbox.new (.new ⟨.ofNat 32 1⟩ ⟨.ofNat 256 2⟩ {})).run oneSend).send ⟨1000000000, 0⟩
      (.numbered 1) closedLayer true []).1 = .error (.tunnel .noOutboundTunnel) := by decide +kernel
  have next : ((Outbox.new (.new ⟨.ofNat 32 1⟩ ⟨.ofNat 256 2⟩ {})).run oneSend).nextId = 2 := by
    decide +kernel
  obtain ⟨-, acks, -, handed, -, acknowledged⟩ := failed_send_forgotten ⟨.ofNat 32 1⟩ ⟨.ofNat 256 2⟩
    {} oneSend afterRefusal ⟨1000000000, 0⟩ (.numbered 1) closedLayer mute true [] (by decide)
    fresh _ failed
  rw [next] at handed acknowledged
  exact ⟨mute, by decide, fresh, failed, next, by decide +kernel, acks,
    by decide +kernel, handed, acknowledged⟩

end GarlicRouting.Outbox
