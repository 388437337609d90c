import GarlicRouting.Session.Outbox
import GarlicRouting.Proofs.Session.Sender
import GarlicRouting.Proofs.Table
import Mathlib

/-! Every operation on an outbox as a sequence of small steps, and what each step does to the tables
of sends and of status ids. -/
namespace GarlicRouting.Outbox

section Parts

variable (o : Outbox) (trackingId : UInt32) (ackIds : List UInt32) (e : Outstanding)

theorem find?_acks_mapAcks (id : UInt32) : (o.mapAcks trackingId ackIds).acks.find? id =
    if id ∈ ackIds then some trackingId else o.acks.find? id :=
  Table.find?_foldl_insert _ _ _ _

@[simp] theorem leases_track : (o.track e).leases = o.leases := rfl

theorem find?_entries_track (id : UInt32) :
    (o.track e).entries.find? id = if id = e.trackingId then some e else o.entries.find? id :=
  Table.find?_insert _ _ _ _

theorem find?_acks_track (id : UInt32) :
    (o.track e).acks.find? id = if id ∈ e.ackIds then some e.trackingId else o.acks.find? id :=
  Table.find?_foldl_insert _ _ _ _

/-- A send that is not there has no status ids to drop. -/
theorem forget_eq_self {trackingId : UInt32} (h : o.entries.find? trackingId = none) :
    o.forget trackingId = o := by
  rw [forget, h]

theorem forget_eq {trackingId : UInt32} {e : Outstanding} (h : o.entries.find? trackingId = some e) :
    o.forget trackingId =
      { o with
        entries := o.entries.erase trackingId
        acks := e.ackIds.foldl Table.erase o.acks } := by
  rw [forget, h]

@[simp] theorem sender_forget : (o.forget trackingId).sender = o.sender := by
  unfold forget
  split <;> rfl

theorem find?_entries_forget (id : UInt32) :
    (o.forget trackingId).entries.find? id = if id = trackingId then none else o.entries.find? id := by
  cases h : o.entries.find? trackingId with
  | none =>
    rw [forget_eq_self o h]
    split_ifs with hid
    · rw [hid, h]
    · rfl
  | some e =>
    rw [forget_eq o h]
    exact Table.find?_erase _ _ _

theorem find?_acks_forget (id : UInt32) : (o.forget trackingId).acks.find? id =
    if ∃ e, o.entries.find? trackingId = some e ∧ id ∈ e.ackIds then none else o.acks.find? id := by
  cases h : o.entries.find? trackingId with
  | none =>
    rw [forget_eq_self o h]
    simp
  | some e =>
    rw [forget_eq o h]
    simp only [Table.find?_foldl_erase, Option.some.injEq, exists_eq_left']

theorem registerAcks_eq_self {trackingId : UInt32} (h : o.entries.find? trackingId = none) :
    o.registerAcks trackingId ackIds = o := by
  rw [registerAcks, Table.contains, h]
  rfl

@[simp] theorem sender_registerAcks : (o.registerAcks trackingId ackIds).sender = o.sender := by
  unfold registerAcks
  split_ifs <;> rfl

@[simp] theorem leases_registerAcks : (o.registerAcks trackingId ackIds).leases = o.leases := by
  unfold registerAcks
  split_ifs <;> rfl

theorem find?_entries_registerAcks (id : UInt32) :
    (o.registerAcks trackingId ackIds).entries.find? id =
      if id = trackingId then
        (o.entries.find? id).map fun e => { e with ackIds := e.ackIds ++ ackIds }
      else o.entries.find? id := by
  cases h : o.entries.find? trackingId with
  | none =>
    rw [registerAcks_eq_self o ackIds h]
    split_ifs with hid
    · rw [hid, h]
      rfl
    · rfl
  | some e =>
    rw [registerAcks, Table.contains, h]
    exact Table.find?_modify _ _ _ _

theorem find?_acks_registerAcks (id : UInt32) : (o.registerAcks trackingId ackIds).acks.find? id =
    if o.entries.contains trackingId ∧ id ∈ ackIds then some trackingId else o.acks.find? id := by
  unfold registerAcks
  split_ifs with there both both
  · exact (find?_acks_mapAcks o trackingId ackIds id).trans (if_pos both.2)
  · exact (find?_acks_mapAcks o trackingId ackIds id).trans (if_neg fun h => both ⟨there, h⟩)
  · exact absurd both.1 there
  · rfl

theorem find?_entries_settle (now : Nat) (resent : List UInt32) (id : UInt32) :
    (o.settle now resent e).entries.find? id =
      if id = e.trackingId then
        (o.entries.find? id).map fun e =>
          { e with
            lastSend := now
            resends := if resent.contains e.trackingId then e.resends + 1 else e.resends }
      else o.entries.find? id :=
  Table.find?_modify _ _ _ _

section Origin

variable {o trackingId ackIds e} {T : UInt32} {e' : Outstanding}

/-- What `forget` leaves was there. -/
theorem entry_of_forget (h : (o.forget trackingId).entries.find? T = some e') :
    o.entries.find? T = some e' := by
  rw [find?_entries_forget] at h
  split_ifs at h
  exact h

/-- New ids change nothing else of a send. -/
theorem entry_of_registerAcks (h : (o.registerAcks trackingId ackIds).entries.find? T = some e') :
    ∃ old ids, o.entries.find? T = some old ∧ e' = { old with ackIds := ids } := by
  rw [find?_entries_registerAcks] at h
  split_ifs at h
  · obtain ⟨old, there, rfl⟩ := Option.map_eq_some_iff.mp h
    exact ⟨old, _, there, rfl⟩
  · exact ⟨e', _, h, rfl⟩

/-- An attempt changes nothing else of a send. -/
theorem entry_of_settle {now : Nat} {resent : List UInt32}
    (h : (o.settle now resent e).entries.find? T = some e') :
    ∃ old lastSend resends, o.entries.find? T = some old ∧ e' = { old with lastSend, resends } := by
  rw [find?_entries_settle] at h
  split_ifs at h
  · obtain ⟨old, there, rfl⟩ := Option.map_eq_some_iff.mp h
    exact ⟨old, _, _, there, rfl⟩
  · exact ⟨e', _, _, h, rfl⟩

end Origin

/-- The send that a status id confirms. -/
def confirmed? (ackId : UInt32) : Option Outstanding := (o.acks.find? ackId).bind o.entries.find?

theorem deliveryStatus_eq (ackId : UInt32) : o.deliveryStatus ackId =
    (⟨(o.confirmed? ackId).map Outstanding.trackingId, (o.sender.acknowledge ackId).1⟩,
      (o.acks.find? ackId).elim { o with sender := (o.sender.acknowledge ackId).2 }
        { o with sender := (o.sender.acknowledge ackId).2 }.forget) := by
  unfold deliveryStatus confirmed?
  cases h : o.acks.find? ackId with
  | none => simp only [h, Option.bind_none, Option.map_none, Option.elim_none]
  | some trackingId => simp only [h, Option.bind_some, Option.elim_some]

theorem deliveryStatus_fst (ackId : UInt32) : (o.deliveryStatus ackId).1 =
    ⟨(o.confirmed? ackId).map Outstanding.trackingId, (o.sender.acknowledge ackId).1⟩ := by
  rw [deliveryStatus_eq]

@[simp] theorem sender_deliveryStatus (ackId : UInt32) :
    (o.deliveryStatus ackId).2.sender = (o.sender.acknowledge ackId).2 := by
  rw [deliveryStatus_eq]
  cases o.acks.find? ackId with
  | none => rfl
  | some trackingId => exact sender_forget _ trackingId

theorem find?_entries_deliveryStatus (ackId id : UInt32) :
    (o.deliveryStatus ackId).2.entries.find? id =
      if o.acks.find? ackId = some id then none else o.entries.find? id := by
  rw [deliveryStatus_eq]
  cases h : o.acks.find? ackId with
  | none => simp
  | some trackingId =>
    refine (find?_entries_forget _ trackingId id).trans ?_
    simp only [Option.some.injEq, eq_comm]

theorem find?_acks_deliveryStatus (ackId id : UInt32) :
    (o.deliveryStatus ackId).2.acks.find? id =
      if ∃ e, o.confirmed? ackId = some e ∧ id ∈ e.ackIds then none else o.acks.find? id := by
  rw [deliveryStatus_eq, confirmed?]
  cases h : o.acks.find? ackId with
  | none => simp
  | some trackingId => exact find?_acks_forget _ trackingId id

end Parts

/-- What operations on an outbox are made of. -/
inductive Step where
  /-- A tracking id is given out. -/
  | number
  | session (e : Sender.Event)
  | track (e : Outstanding)
  | register (trackingId : UInt32) (ackIds : List UInt32)
  /-- The tunnel layer gets a shipment. -/
  | carry (shipment : Shipment)
  | status (ackId : UInt32)
  | forget (trackingId : UInt32)
  | settle (now : Nat) (resent : List UInt32) (e : Outstanding)
  | tally (resends resets : Nat)
  | leases (leases : LeaseSet)
  /-- Forgets all sends. -/
  | empty
  /-- The tables show their contents in no particular order. -/
  | front (i : Nat)

def act (o : Outbox) : Step → Outbox
  | .number => { o with nextId := o.nextId + 1 }
  | .session e => { o with sender := o.sender.after e }
  | .track e => o.track e
  | .register trackingId ackIds => o.registerAcks trackingId ackIds
  | .carry _ => o
  | .status ackId => (o.deliveryStatus ackId).2
  | .forget trackingId => o.forget trackingId
  | .settle now resent e => o.settle now resent e
  | .tally resends resets =>
    { o with resends := o.resends + resends, resets := o.resets + resets }
  | .leases leases => { o with leases := some leases }
  | .empty => { o with entries := .empty, acks := .empty }
  | .front i => { o with entries := o.entries.front i }

def perform (o : Outbox) (steps : List Step) : Outbox := steps.foldl act o

theorem perform_append (o : Outbox) (steps more : List Step) :
    o.perform (steps ++ more) = (o.perform steps).perform more := List.foldl_append

theorem perform_cons (o : Outbox) (step : Step) (steps : List Step) :
    o.perform (step :: steps) = (o.act step).perform steps := rfl

@[simp] theorem act_register (o : Outbox) (trackingId : UInt32) (ackIds : List UInt32) :
    o.act (.register trackingId ackIds) = o.registerAcks trackingId ackIds := rfl

theorem act_session {o : Outbox} {e : Sender.Event} {s : Sender} (h : o.sender.after e = s) :
    o.act (.session e) = { o with sender := s } := by
  rw [← h]
  rfl

section Numbered

variable (o : Outbox) (e : Sender.Event) (x : Outstanding)

/-- A send that has its tracking id and is encrypted has no place yet. -/
theorem entries_numbered : (o.perform [.number, .session e]).entries = o.entries := rfl

theorem nextId_numbered : (o.perform [.number, .session e]).nextId = o.nextId + 1 := rfl

theorem find?_entries_entered (T : UInt32) :
    (o.perform [.number, .session e, .track x]).entries.find? T =
      if T = x.trackingId then some x else o.entries.find? T :=
  find?_entries_track _ x T

theorem nextId_entered : (o.perform [.number, .session e, .track x]).nextId = o.nextId + 1 := rfl

end Numbered

/-- Every send is in its own place. -/
structure Keyed (o : Outbox) : Prop where
  distinct : o.entries.Distinct
  keyed : ∀ T e, o.entries.find? T = some e → e.trackingId = T

namespace Keyed

variable {o p : Outbox}

theorem new (s : Sender) : (Outbox.new s).Keyed where
  distinct := Table.distinct_empty
  keyed T e h := by cases h

theorem of_le (h : o.Keyed) (distinct : p.entries.Distinct)
    (entries : ∀ T e, p.entries.find? T = some e →
      ∃ e', o.entries.find? T = some e' ∧ e.trackingId = e'.trackingId) : p.Keyed where
  distinct := distinct
  keyed T e he := by
    obtain ⟨e', he', same⟩ := entries T e he
    exact same.trans (h.keyed T e' he')

theorem forget (h : o.Keyed) (trackingId : UInt32) : (o.forget trackingId).Keyed := by
  refine h.of_le ?_ fun T e he => ⟨e, entry_of_forget he, rfl⟩
  unfold Outbox.forget
  split
  · exact h.distinct
  · exact h.distinct.erase trackingId

theorem track (h : o.Keyed) (e : Outstanding) : (o.track e).Keyed where
  distinct := h.distinct.insert e.trackingId e
  keyed T e' he := by
    rw [find?_entries_track] at he
    split_ifs at he with hT
    · rw [← Option.some.inj he, hT]
    · exact h.keyed T e' he

theorem register (h : o.Keyed) (trackingId : UInt32) (ackIds : List UInt32) :
    (o.registerAcks trackingId ackIds).Keyed := by
  refine h.of_le ?_ fun T e he => ?_
  · unfold registerAcks
    split_ifs
    · exact h.distinct.modify _ _
    · exact h.distinct
  · obtain ⟨old, ids, there, rfl⟩ := entry_of_registerAcks he
    exact ⟨old, there, rfl⟩

theorem settle (h : o.Keyed) (now : Nat) (resent : List UInt32) (e : Outstanding) :
    (o.settle now resent e).Keyed := by
  refine h.of_le (h.distinct.modify _ _) fun T e' he => ?_
  obtain ⟨old, _, _, there, rfl⟩ := entry_of_settle he
  exact ⟨old, there, rfl⟩

theorem act (h : o.Keyed) (step : Step) : (o.act step).Keyed := by
  cases step with
  | number | session | carry | tally | leases => exact ⟨h.distinct, h.keyed⟩
  | track e => exact h.track e
  | register trackingId ackIds => exact h.register trackingId ackIds
  | status ackId =>
    rw [Outbox.act, deliveryStatus_eq]
    have same : Keyed { o with sender := (o.sender.acknowledge ackId).2 } := ⟨h.distinct, h.keyed⟩
    cases o.acks.find? ackId with
    | none => exact same
    | some trackingId => exact same.forget trackingId
  | forget trackingId => exact h.forget trackingId
  | settle now resent e => exact h.settle now resent e
  | empty => exact h.of_le Table.distinct_empty fun _ _ he => by cases he
  | front i =>
    exact h.of_le (h.distinct.front i) fun T e he => ⟨e, by rwa [← h.distinct.find?_front i], rfl⟩

theorem perform (h : o.Keyed) (steps : List Step) : (o.perform steps).Keyed := by
  induction steps generalizing o with
  | nil => exact h
  | cons step steps ih => exact ih (h.act step)

theorem mem_values_iff (h : o.Keyed) {e : Outstanding} :
    e ∈ o.entries.values ↔ o.entries.find? e.trackingId = some e := by
  rw [Table.values, List.mem_map]
  constructor
  · rintro ⟨⟨T, e⟩, hp, rfl⟩
    have found := h.distinct.mem_iff.mp hp
    rwa [h.keyed T e found]
  · intro found
    exact ⟨_, Table.mem_of_find? found, rfl⟩

/-- The sends in the window have distinct tracking ids. -/
theorem nodup_trackingIds (h : o.Keyed) : (o.entries.values.map Outstanding.trackingId).Nodup := by
  have keys : o.entries.values.map Outstanding.trackingId = o.entries.toList.map Prod.fst := by
    rw [Table.values, List.map_map]
    refine List.map_congr_left fun p hp => h.keyed p.1 p.2 (h.distinct.mem_iff.mp hp)
  rw [keys]
  exact h.distinct

end Keyed

/-- What a step leaves of a send: all of it, the send with more status ids, or the send after an
attempt. -/
inductive Step.Leaves : Step → Outstanding → Outstanding → Prop
  | same (step : Step) (e : Outstanding) : Leaves step e e
  | registered (e : Outstanding) (ackIds : List UInt32) :
      Leaves (.register e.trackingId ackIds) e { e with ackIds := e.ackIds ++ ackIds }
  | settled (e x : Outstanding) (now : Nat) (resent : List UInt32) : Leaves (.settle now resent x) e
      { e with
        lastSend := now
        resends := if resent.contains e.trackingId then e.resends + 1 else e.resends }

/-- A send that is there after a step was there before, or is entered by the step. -/
theorem Keyed.entry_of_act {o : Outbox} (h : o.Keyed) {step : Step} {T : UInt32} {e : Outstanding}
    (he : (o.act step).entries.find? T = some e) :
    step = .track e ∨ ∃ old, o.entries.find? T = some old ∧ step.Leaves old e := by
  cases step with
  | number | session | carry | tally | leases => exact .inr ⟨e, he, .same _ e⟩
  | track x =>
    rw [Outbox.act, find?_entries_track] at he
    split_ifs at he
    · obtain rfl := Option.some.inj he
      exact .inl rfl
    · exact .inr ⟨e, he, .same _ e⟩
  | register trackingId ackIds =>
    rw [Outbox.act, find?_entries_registerAcks] at he
    split_ifs at he with hT
    · obtain ⟨old, there, rfl⟩ := Option.map_eq_some_iff.mp he
      obtain rfl := (h.keyed T old there).trans hT
      exact .inr ⟨old, there, .registered old ackIds⟩
    · exact .inr ⟨e, he, .same _ e⟩
  | status ackId =>
    rw [Outbox.act, find?_entries_deliveryStatus] at he
    split_ifs at he
    exact .inr ⟨e, he, .same _ e⟩
  | forget trackingId => exact .inr ⟨e, entry_of_forget he, .same _ e⟩
  | settle now resent x =>
    rw [Outbox.act, find?_entries_settle] at he
    split_ifs at he
    · obtain ⟨old, there, rfl⟩ := Option.map_eq_some_iff.mp he
      exact .inr ⟨old, there, .settled old x now resent⟩
    · exact .inr ⟨e, he, .same _ e⟩
  | empty => cases he
  | front i => exact .inr ⟨e, by rwa [← h.distinct.find?_front i], .same _ e⟩

/-- What a hand-over is made of. -/
def handOffSteps (layer : TunnelLayer) (shipment : Shipment) : List Step :=
  .carry shipment :: (layer.carry shipment).reported.map .status

theorem deliveryStatuses_cons (o : Outbox) (a : UInt32) (xs : List UInt32) :
    o.deliveryStatuses (a :: xs) =
      ((o.deliveryStatus a).1 :: ((o.deliveryStatus a).2.deliveryStatuses xs).1,
        ((o.deliveryStatus a).2.deliveryStatuses xs).2) := rfl

theorem deliveryStatuses_snd (o : Outbox) (ids : List UInt32) :
    (o.deliveryStatuses ids).2 = o.perform (ids.map .status) := by
  induction ids generalizing o with
  | nil => rfl
  | cons id ids ih => exact ih (o.deliveryStatus id).2

theorem handOff_snd (o : Outbox) (layer : TunnelLayer) (m : Sealed) :
    (o.handOff layer m).2 = o.perform (handOffSteps layer ⟨o.leases, m⟩) :=
  deliveryStatuses_snd o _

/-- The entry for a send that is tracked. -/
def entryOf (trackingId : UInt32) (moment : Moment) (explicit : Bool) (cloves : List Clove)
    (m : Sealed) : Outstanding where
  trackingId := trackingId
  cloves := cloves
  explicit := explicit
  path := m.path
  ackIds := m.confirmations
  created := moment.instant
  lastSend := moment.instant

section Send

variable (o : Outbox) (moment : Moment) (d : Draw) (layer : TunnelLayer) (explicit : Bool)
  (cloves : List Clove)

/-- The encryption of a send. -/
def sending : Sender.Event :=
  .encrypt moment d (layer.reply o.nextId) explicit o.nextId cloves

/-- What is left of a send once its message is made. -/
def dispatchSteps (m : Sealed) : List Step :=
  let tracked := needsTracking explicit m
  (if tracked then [.track (entryOf o.nextId moment explicit cloves m)] else []) ++
    handOffSteps layer ⟨o.leases, m⟩ ++
    match (layer.carry ⟨o.leases, m⟩).result with
    | .ok () => []
    | .error _ => if tracked then [.forget o.nextId] else []

def sendSteps : List Step :=
  .number :: .session (o.sending moment d layer explicit cloves) ::
    match o.sender.encrypt moment d (layer.reply o.nextId) explicit o.nextId cloves with
    | (.ok m, _) => o.dispatchSteps moment layer explicit cloves m
    | (.error _, _) => []

theorem act_sending {result : Except SendFault Sealed} {s : Sender}
    (he : o.sender.encrypt moment d (layer.reply o.nextId) explicit o.nextId cloves = (result, s)) :
    (o.act .number).act (.session (o.sending moment d layer explicit cloves)) =
      { o with nextId := o.nextId + 1, sender := s } := by
  refine act_session ?_
  rw [sending, Sender.after, act, he]

theorem send_eq_perform : (o.send moment d layer explicit cloves).2.2 =
    o.perform (o.sendSteps moment d layer explicit cloves) := by
  unfold send sendSteps
  cases he : o.sender.encrypt moment d (layer.reply o.nextId) explicit o.nextId cloves with
  | mk result s =>
    have made := o.act_sending moment d layer explicit cloves he
    cases result with
    | error e =>
      simp only [he, perform_cons, made]
      rfl
    | ok m =>
      simp only [he, perform_cons, made]
      rw [dispatchSteps, perform_append, perform_append]
      cases hr : (layer.carry ⟨o.leases, m⟩).result <;>
        cases tracked : needsTracking explicit m <;>
          simp [handOff, deliveryStatuses_snd, perform, act, handOffSteps, hr, entryOf]

end Send

section Maintain

variable (moment : Moment) (layer : TunnelLayer)

def resending (d : Draw) (e : Outstanding) : Sender.Event :=
  .encrypt moment d (layer.reply e.trackingId) e.explicit e.trackingId e.cloves

def attemptSteps (o : Outbox) (d : Draw) (e : Outstanding) : List Step :=
  .session (resending moment layer d e) ::
    match o.sender.encrypt moment d (layer.reply e.trackingId) e.explicit e.trackingId e.cloves with
    | (.ok m, _) => .register e.trackingId m.confirmations :: handOffSteps layer ⟨o.leases, m⟩
    | (.error _, _) => []

def roundSteps (r : Round) : List Outstanding → List Step
  | [] => []
  | e :: es =>
    attemptSteps moment layer r.outbox r.supply.next.1 e ++ roundSteps (attempt moment layer r e) es

theorem act_resending {o : Outbox} {d : Draw} {e : Outstanding} {result : Except SendFault Sealed}
    {s : Sender} (he : o.sender.encrypt moment d (layer.reply e.trackingId) e.explicit e.trackingId
      e.cloves = (result, s)) :
    o.act (.session (resending moment layer d e)) = { o with sender := s } := by
  refine act_session ?_
  rw [resending, Sender.after, he]

theorem attempt_eq_perform (r : Round) (e : Outstanding) : (attempt moment layer r e).outbox =
    r.outbox.perform (attemptSteps moment layer r.outbox r.supply.next.1 e) := by
  obtain ⟨o, supply, handoffs, resent, failures⟩ := r
  unfold attempt attemptSteps
  cases he : o.sender.encrypt moment supply.next.1 (layer.reply e.trackingId) e.explicit
    e.trackingId e.cloves with
  | mk result s =>
    have made := act_resending moment layer he
    cases result with
    | error e =>
      simp only [he, perform_cons, made]
      rfl
    | ok m =>
      have carried := handOff_snd ({ o with sender := s }.registerAcks e.trackingId m.confirmations)
        layer m
      rw [leases_registerAcks] at carried
      simp only [he, perform_cons, made, act_register, ← carried]
      split <;> rfl

theorem round_eq_perform (r : Round) (es : List Outstanding) :
    (es.foldl (attempt moment layer) r).outbox =
      r.outbox.perform (roundSteps moment layer r es) := by
  induction es generalizing r with
  | nil => rfl
  | cons e es ih =>
    rw [List.foldl_cons, ih, roundSteps, perform_append, attempt_eq_perform]

variable (o : Outbox) (supply : Supply)

/-- Whether a round gives a handshake up. -/
def stuck (now : Nat) : Bool :=
  (o.sender.resetIfStuck now o.sender.settings.resendSpan.nanoseconds).1

/-- The outbox once a handshake without answer is given up. -/
def renewed (now : Nat) : Outbox :=
  { o with
    sender := (o.sender.resetIfStuck now o.sender.settings.resendSpan.nanoseconds).2
    resets := if o.stuck now then o.resets + 1 else o.resets }

/-- Whether a handshake is under way, or has been given up in this round. -/
def handshaking (now : Nat) : Bool := o.stuck now || (o.renewed now).sender.barrier.isSome

def expired (now : Nat) : List Outstanding := o.entries.values.filter (o.isExpired now)

/-- The outbox without the sends that are too old. -/
def pruned (now : Nat) : Outbox :=
  (o.expired now).foldl (fun o e => o.forget e.trackingId) (o.renewed now)

def stale (now : Nat) : List Outstanding := (o.pruned now).entries.values.filter (o.isStale now)

def due (now : Nat) : List Outstanding :=
  (o.stale now).filter fun e => e.explicit || o.handshaking now

def dropped (now : Nat) : List Outstanding :=
  (o.stale now).filter fun e => !(e.explicit || o.handshaking now)

/-- The round of attempts, as it begins. -/
def opening (now : Nat) : Round :=
  { outbox := (o.dropped now).foldl (fun o e => o.forget e.trackingId) (o.pruned now), supply }

def attempted : Round := (o.due moment.instant).foldl (attempt moment layer) (o.opening supply moment.instant)

theorem sender_foldl_forget (es : List Outstanding) :
    (es.foldl (fun o e => o.forget e.trackingId) o).sender = o.sender := by
  induction es generalizing o with
  | nil => rfl
  | cons e es ih => exact (ih (o.forget e.trackingId)).trans (sender_forget o e.trackingId)

theorem settings_renewed (now : Nat) : (o.renewed now).sender.settings = o.sender.settings := by
  rw [renewed]
  rcases o.sender.resetIfStuck_cases now o.sender.settings.resendSpan.nanoseconds with ⟨-, h⟩ | ⟨-, h⟩ <;>
    rw [h]
  rfl

theorem sender_pruned (now : Nat) : (o.pruned now).sender = (o.renewed now).sender :=
  sender_foldl_forget _ _

private theorem expired_eq (now : Nat) :
    o.expired now = o.entries.values.filter ((o.renewed now).isExpired now) := by
  refine congrArg (List.filter · o.entries.values) (funext fun e => ?_)
  rw [isExpired, isExpired, settings_renewed]

private theorem stale_eq (now : Nat) :
    o.stale now = (o.pruned now).entries.values.filter ((o.pruned now).isStale now) := by
  refine congrArg (List.filter · (o.pruned now).entries.values) (funext fun e => ?_)
  rw [isStale, isStale, sender_pruned, settings_renewed]

theorem maintain_eq : o.maintain moment supply layer =
    let now := moment.instant
    let round := o.attempted moment layer supply
    ({ resent := round.resent.length
       failures := round.failures
       expired := (o.expired now).length
       dropped := (o.dropped now).length
       reset := o.stuck now },
      round.handoffs.reverse, round.supply,
      { (o.due now).foldl (settle now round.resent) round.outbox with
        resends := ((o.due now).foldl (settle now round.resent) round.outbox).resends +
          round.resent.length }) := by
  unfold maintain attempted opening due dropped
  simp only [List.partition_eq_filter_filter, stale_eq, pruned, expired_eq]
  rfl

/-- What comes before the attempts of a round. -/
def beginSteps (now : Nat) : List Step :=
  [Step.session (.resetIfStuck now o.sender.settings.resendSpan.nanoseconds),
    Step.tally 0 (if o.stuck now then 1 else 0)] ++
  ((o.expired now).map (fun e => Step.forget e.trackingId) ++
    (o.dropped now).map (fun e => Step.forget e.trackingId))

/-- What comes after them. -/
def endSteps (now : Nat) (resent : List UInt32) : List Step :=
  (o.due now).map (Step.settle now resent) ++ [Step.tally resent.length 0]

def maintainSteps : List Step :=
  o.beginSteps moment.instant ++
    (roundSteps moment layer (o.opening supply moment.instant) (o.due moment.instant) ++
      o.endSteps moment.instant (o.attempted moment layer supply).resent)

theorem foldl_forget_eq_perform (es : List Outstanding) :
    es.foldl (fun o e => o.forget e.trackingId) o =
      o.perform (es.map fun e => Step.forget e.trackingId) := by
  rw [perform, List.foldl_map]
  rfl

theorem foldl_settle_eq_perform (es : List Outstanding) (now : Nat) (resent : List UInt32) :
    es.foldl (settle now resent) o = o.perform (es.map (Step.settle now resent)) := by
  rw [perform, List.foldl_map]
  rfl

theorem opening_eq_perform (now : Nat) :
    (o.opening supply now).outbox = o.perform (o.beginSteps now) := by
  have renewed : o.perform [Step.session (.resetIfStuck now o.sender.settings.resendSpan.nanoseconds),
      Step.tally 0 (if o.stuck now then 1 else 0)] = o.renewed now := by
    rw [Outbox.renewed]
    split_ifs <;> rfl
  rw [beginSteps, perform_append, renewed, perform_append, ← foldl_forget_eq_perform,
    ← foldl_forget_eq_perform]
  rfl

theorem maintain_eq_perform : (o.maintain moment supply layer).2.2.2 =
    o.perform (o.maintainSteps moment layer supply) := by
  rw [maintain_eq, maintainSteps, perform_append, ← opening_eq_perform, perform_append,
    ← round_eq_perform, endSteps, perform_append, ← foldl_settle_eq_perform]
  rfl

end Maintain

inductive Event where
  | send (moment : Moment) (draw : Draw) (layer : TunnelLayer) (explicit : Bool) (cloves : List Clove)
  | maintain (moment : Moment) (supply : Supply) (layer : TunnelLayer)
  | status (ackId : UInt32)
  | leases (leases : LeaseSet)
  | clear
  /-- The session is used without the outbox. -/
  | session (e : Sender.Event)
  /-- The sends show in another order. -/
  | front (i : Nat)

def after (o : Outbox) : Event → Outbox
  | .send moment d layer explicit cloves => (o.send moment d layer explicit cloves).2.2
  | .maintain moment supply layer => (o.maintain moment supply layer).2.2.2
  | .status ackId => (o.deliveryStatus ackId).2
  | .leases leases => { o with leases := some leases }
  | .clear => o.clear
  | .session e => { o with sender := o.sender.after e }
  | .front i => { o with entries := o.entries.front i }

/-- What an event hands over. -/
def handoffs (o : Outbox) : Event → List Handoff
  | .send moment d layer explicit cloves => (o.send moment d layer explicit cloves).2.1.toList
  | .maintain moment supply layer => (o.maintain moment supply layer).2.1
  | .leases _ | .front _ | .status _ | .clear | .session _ => []

def run (o : Outbox) (es : List Event) : Outbox := es.foldl after o

def steps (o : Outbox) : Event → List Step
  | .send moment d layer explicit cloves => o.sendSteps moment d layer explicit cloves
  | .maintain moment supply layer => o.maintainSteps moment layer supply
  | .status ackId => [.status ackId]
  | .leases leases => [.leases leases]
  | .clear => [.empty, .session .reset]
  | .session e => [.session e]
  | .front i => [.front i]

theorem after_eq_perform (o : Outbox) (e : Event) : o.after e = o.perform (o.steps e) := by
  cases e with
  | send moment d layer explicit cloves => exact o.send_eq_perform moment d layer explicit cloves
  | maintain moment supply layer => exact o.maintain_eq_perform moment layer supply
  | status | leases | clear | session | front => rfl

theorem run_cons (o : Outbox) (e : Event) (es : List Event) : o.run (e :: es) = (o.after e).run es := rfl

theorem run_append (o : Outbox) (es fs : List Event) : o.run (es ++ fs) = (o.run es).run fs :=
  List.foldl_append

theorem run_concat (o : Outbox) (es : List Event) (e : Event) :
    o.run (es ++ [e]) = (o.run es).after e := by
  rw [run_append, run_cons]
  rfl

end GarlicRouting.Outbox
