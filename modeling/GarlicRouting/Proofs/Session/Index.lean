import GarlicRouting.Proofs.Session.Outbox
import GarlicRouting.Proofs.Session.Tags
import Mathlib

/-! The status ids of an outbox: those it has drawn, and that each of them confirms one send. -/
namespace GarlicRouting

namespace Sender

/-- The status ids that an encryption draws. -/
def asked (s : Sender) : Event → List UInt32
  | .encrypt moment d reply explicit _ _ =>
    let s := s.expire moment.instant
    let mint := s.mintsTags moment.instant
    if reply.isSome then
      (if explicit && (s.settings.explicitAckClove || !mint) then [d.explicitAck] else []) ++
        if mint then [d.refreshAck] else []
    else []
  | _ => []

section Asked

variable {s t : Sender} {moment : Moment} {d : Draw} {reply : Option ReplyTunnel} {explicit : Bool}
  {trackingId : UInt32} {cloves : List Clove} {result : Except SendFault Sealed} {m : Sealed}

theorem ids_ackRequest (s : Sender) (clock : UInt64) (d : Draw) (r : ReplyTunnel)
    (mint explicit : Bool) :
    (s.ackRequest clock d r mint explicit).refresh = (if mint then some d.refreshAck else none) ∧
      (s.ackRequest clock d r mint explicit).ack =
        if explicit && (s.settings.explicitAckClove || !mint) then some d.explicitAck
        else if mint then some d.refreshAck else none := by
  unfold ackRequest
  cases mint <;> split_ifs <;> exact ⟨rfl, rfl⟩

private theorem asked_eq {acks : AckRequest} (asked : (s.expire moment.instant).requestAcks moment.clock d
    reply ((s.expire moment.instant).mintsTags moment.instant) explicit = .ok acks) :
    (if acks.ack = acks.refresh then acks.ack.toList else acks.ack.toList ++ acks.refresh.toList).Sublist
        (s.asked (.encrypt moment d reply explicit trackingId cloves)) ∧
      acks.refresh.toList ⊆ s.asked (.encrypt moment d reply explicit trackingId cloves) := by
  rcases (requestAcks_eq_ok asked).2 with rfl | ⟨r, rfl, rfl⟩
  · simp
  · obtain ⟨refresh, ack⟩ := ids_ackRequest (s.expire moment.instant) moment.clock d r
      ((s.expire moment.instant).mintsTags moment.instant) explicit
    rw [refresh, ack]
    simp only [Sender.asked, Option.isSome_some, if_true]
    generalize (s.expire moment.instant).mintsTags moment.instant = mint
    generalize (explicit && ((s.expire moment.instant).settings.explicitAckClove || !mint)) = own
    cases own <;> cases mint <;> simp
    split_ifs with same <;> simp [same]

/-- A message names only ids that were drawn for it. -/
theorem confirmations_sublist (sound : s.usable.Sound)
    (he : s.encrypt moment d reply explicit trackingId cloves = (.ok m, t)) :
    m.confirmations.Sublist (s.asked (.encrypt moment d reply explicit trackingId cloves)) := by
  cases sending_of_encrypt sound he with
  | spent _ _ _ _ _ _ _ _ asked => exact (asked_eq asked).1
  | opened _ _ _ _ _ _ path asked =>
    rw [← mintsTags_of_handshake path] at asked
    exact (asked_eq asked).1

theorem asked_of_pending (sound : s.usable.Sound)
    (he : s.encrypt moment d reply explicit trackingId cloves = (result, t)) {p : UInt32 × Batch}
    (hp : p ∈ t.pending.toList) : p ∈ s.pending.toList ∨
      p.1 ∈ s.asked (.encrypt moment d reply explicit trackingId cloves) := by
  have old {p : UInt32 × Batch} (hp : p ∈ (s.expire moment.instant).pending.toList) :
      p ∈ s.pending.toList := ((s.mem_pending_expire moment.instant).mp hp).1
  cases encrypt_cases sound he with
  | refused | unspent => exact .inl (old hp)
  | spent acks _ _ _ _ _ _ asked _ _ _ after =>
    rw [after] at hp
    rcases mem_pending_keepPending hp with hp | ⟨ackId, hack, rfl⟩
    · exact .inl (old hp)
    · exact .inr ((asked_eq asked).2 (by simp [hack]))
  | opened acks _ _ s₁ _ path asked _ agreed after =>
    rw [after] at hp
    rcases mem_pending_keepPending hp with hp | ⟨ackId, hack, rfl⟩
    · rcases handshakeKey_cases agreed with ⟨-, -, rfl⟩ | ⟨-, -, rfl⟩ <;> exact .inl (old hp)
    · have refresh := (requestAcks_eq_ok asked).1
      rw [← mintsTags_of_handshake path] at asked
      obtain rfl := Option.some.inj hack
      exact .inr ((asked_eq asked).2 (by simp [refresh]))

end Asked

/-- The status ids that a run draws. -/
def askedIn (s : Sender) : List Event → List UInt32
  | [] => []
  | e :: es => s.asked e ++ (s.after e).askedIn es

theorem askedIn_append (s : Sender) (es fs : List Event) :
    s.askedIn (es ++ fs) = s.askedIn es ++ (s.run es).askedIn fs := by
  induction es generalizing s with
  | nil => rfl
  | cons e es ih => rw [List.cons_append, askedIn, askedIn, ih, List.append_assoc]; rfl

/-- All that waits has an id that was drawn, and no tag is in more places than it was drawn for. -/
structure Accounted (s : Sender) (ids : List UInt32) (tags : List SessionTag) : Prop where
  sound : s.usable.Sound
  distinct : s.pending.Distinct
  waits : ∀ p ∈ s.pending.toList, p.1 ∈ ids
  places : ∀ tag, s.places tag ≤ tags.count tag

namespace Accounted

variable {s : Sender} {ids : List UInt32} {tags : List SessionTag}

theorem new (remote : Identity) (remoteKey : ElGamal.PublicKey) (settings : Settings) :
    (Sender.new remote remoteKey settings).Accounted [] [] where
  sound := sound_new remote remoteKey settings
  distinct := Table.distinct_empty
  waits p hp := by cases hp
  places tag := Nat.le_refl 0

theorem mono (h : s.Accounted ids tags) {moreIds : List UInt32} {moreTags : List SessionTag}
    (subIds : ids ⊆ moreIds) (subTags : tags.Sublist moreTags) : s.Accounted moreIds moreTags where
  sound := h.sound
  distinct := h.distinct
  waits p hp := subIds (h.waits p hp)
  places tag := (h.places tag).trans (subTags.count_le tag)

theorem after (h : s.Accounted ids tags) (e : Event) :
    (s.after e).Accounted (ids ++ s.asked e) (tags ++ drawnTags s.settings.refillBatch [e]) where
  sound := sound_after h.sound e
  distinct := distinct_after h.sound h.distinct e
  waits p hp := by
    cases e with
    | encrypt =>
      rcases asked_of_pending h.sound (Prod.mk.eta).symm hp with hp | drawn
      · exact List.mem_append_left _ (h.waits p hp)
      · exact List.mem_append_right _ drawn
    | acknowledge ackId => exact List.mem_append_left _ (h.waits p (pending_acknowledge hp).1)
    | resetIfStuck now timeout =>
      rw [Sender.after] at hp
      rcases resetIfStuck_cases s now timeout with ⟨-, ht⟩ | ⟨-, ht⟩ <;> rw [ht] at hp
      · cases hp
      · exact List.mem_append_left _ (h.waits p hp)
    | reset => cases hp
  places tag := by
    have step := places_after h.sound h.distinct e tag
    have before := h.places tag
    rw [List.count_append]
    omega

theorem run (h : s.Accounted ids tags) (es : List Event) :
    (s.run es).Accounted (ids ++ s.askedIn es) (tags ++ drawnTags s.settings.refillBatch es) := by
  induction es generalizing s ids tags with
  | nil =>
    rw [askedIn, show drawnTags s.settings.refillBatch [] = [] from rfl, List.append_nil, List.append_nil]
    exact h
  | cons e es ih =>
    have rest := ih (h.after e)
    have drawn : drawnTags s.settings.refillBatch (e :: es) =
        drawnTags s.settings.refillBatch [e] ++ drawnTags s.settings.refillBatch es :=
      drawnTags_append s.settings.refillBatch [e] es
    rw [(frame_after h.sound e).settings] at rest
    rw [askedIn, drawn, ← List.append_assoc, ← List.append_assoc]
    exact rest

end Accounted

end Sender

namespace Outbox

/-- What a step does to the session. -/
def Step.events : Step → List Sender.Event
  | .session e => [e]
  | .status ackId => [.acknowledge ackId]
  | _ => []

/-- The status ids that a step enters into the tables. -/
def Step.given : Step → List UInt32
  | .track e => e.ackIds
  | .register _ ackIds => ackIds
  | _ => []

theorem sender_act (o : Outbox) (step : Step) : (o.act step).sender = o.sender.run step.events := by
  cases step with
  | number | session | track | carry | settle | tally | leases | empty | front => rfl
  | register trackingId ackIds => exact sender_registerAcks o trackingId ackIds
  | status ackId => exact sender_deliveryStatus o ackId
  | forget trackingId => exact sender_forget o trackingId

/-- A run of an outbox is a run of its session. -/
theorem sender_perform (o : Outbox) (steps : List Step) :
    (o.perform steps).sender = o.sender.run (steps.flatMap Step.events) := by
  induction steps generalizing o with
  | nil => rfl
  | cons step steps ih =>
    rw [List.flatMap_cons, Sender.run_append, ← sender_act]
    exact ih (o.act step)

/-- Every send is in its place, no status id belongs to two of them, and all ids in the tables have
been drawn. -/
structure Indexed (o : Outbox) (ids : List UInt32) : Prop extends Keyed o where
  owned : ∀ T e id U, o.entries.find? T = some e → id ∈ e.ackIds → o.acks.find? id = some U → U = T
  listed : ∀ T e id, o.entries.find? T = some e → id ∈ e.ackIds → id ∈ ids
  mapped : ∀ id T, o.acks.find? id = some T → id ∈ ids

namespace Indexed

variable {o p : Outbox} {ids : List UInt32}

theorem new (s : Sender) : (Outbox.new s).Indexed [] where
  toKeyed := .new s
  owned T e id U h := by cases h
  listed T e id h := by cases h
  mapped id T h := by cases h

theorem mono (h : o.Indexed ids) {more : List UInt32} (sub : ids ⊆ more) : o.Indexed more where
  toKeyed := h.toKeyed
  owned := h.owned
  listed T e id he hid := sub (h.listed T e id he hid)
  mapped id T hid := sub (h.mapped id T hid)

/-- Sends and ids may go, and what is left of a send may change but for its ids. -/
theorem of_le (h : o.Indexed ids) (keyed : p.Keyed)
    (entries : ∀ T e, p.entries.find? T = some e →
      ∃ e', o.entries.find? T = some e' ∧ e.ackIds = e'.ackIds)
    (acks : ∀ id T, p.acks.find? id = some T → o.acks.find? id = some T) : p.Indexed ids where
  toKeyed := keyed
  owned T e id U he hid hU := by
    obtain ⟨e', he', same⟩ := entries T e he
    exact h.owned T e' id U he' (same ▸ hid) (acks id U hU)
  listed T e id he hid := by
    obtain ⟨e', he', same⟩ := entries T e he
    exact h.listed T e' id he' (same ▸ hid)
  mapped id T hid := h.mapped id T (acks id T hid)

theorem forget (h : o.Indexed ids) (trackingId : UInt32) : (o.forget trackingId).Indexed ids := by
  refine h.of_le (h.toKeyed.forget trackingId) (fun T e he => ⟨e, entry_of_forget he, rfl⟩)
    fun id T hid => ?_
  rw [find?_acks_forget] at hid
  split_ifs at hid
  exact hid

theorem deliveryStatus (h : o.Indexed ids) (ackId : UInt32) : (o.deliveryStatus ackId).2.Indexed ids := by
  rw [deliveryStatus_eq]
  have same : Indexed { o with sender := (o.sender.acknowledge ackId).2 } ids :=
    ⟨⟨h.distinct, h.keyed⟩, h.owned, h.listed, h.mapped⟩
  cases o.acks.find? ackId with
  | none => exact same
  | some trackingId => exact same.forget trackingId

theorem track (h : o.Indexed ids) (e : Outstanding) (fresh : ids.Disjoint e.ackIds) :
    (o.track e).Indexed (ids ++ e.ackIds) where
  toKeyed := h.toKeyed.track e
  owned T e' id U he hid hU := by
    rw [find?_entries_track] at he
    rw [find?_acks_track] at hU
    split_ifs at he hU with hT new new
    · rw [hT, Option.some.inj hU]
    · rw [Option.some.inj he] at new
      exact absurd hid new
    · exact absurd new (fresh (h.listed T e' id he hid))
    · exact h.owned T e' id U he hid hU
  listed T e' id he hid := by
    rw [find?_entries_track] at he
    split_ifs at he with hT
    · obtain rfl := Option.some.inj he
      exact List.mem_append_right _ hid
    · exact List.mem_append_left _ (h.listed T e' id he hid)
  mapped id T hid := by
    rw [find?_acks_track] at hid
    split_ifs at hid with new
    · exact List.mem_append_right _ new
    · exact List.mem_append_left _ (h.mapped id T hid)

theorem register (h : o.Indexed ids) (trackingId : UInt32) (ackIds : List UInt32)
    (fresh : ids.Disjoint ackIds) : (o.registerAcks trackingId ackIds).Indexed (ids ++ ackIds) := by
  cases hthere : o.entries.find? trackingId with
  | none =>
    rw [registerAcks_eq_self o ackIds hthere]
    exact h.mono (List.subset_append_left _ _)
  | some e₀ =>
    have there : o.entries.contains trackingId := by rw [Table.contains, hthere]; rfl
    refine ⟨h.toKeyed.register trackingId ackIds, fun T e id U he hid hU => ?_,
      fun T e id he hid => ?_, fun id T hid => ?_⟩
    · rw [find?_entries_registerAcks] at he
      rw [find?_acks_registerAcks] at hU
      split_ifs at he hU with hT new new
      · rw [hT, Option.some.inj hU]
      · obtain ⟨e', he', rfl⟩ := Option.map_eq_some_iff.mp he
        rcases List.mem_append.mp hid with hid | hid
        · exact h.owned T e' id U he' hid hU
        · exact absurd ⟨there, hid⟩ new
      · exact absurd new.2 (fresh (h.listed T e id he hid))
      · exact h.owned T e id U he hid hU
    · rw [find?_entries_registerAcks] at he
      split_ifs at he with hT
      · obtain ⟨e', he', rfl⟩ := Option.map_eq_some_iff.mp he
        rcases List.mem_append.mp hid with hid | hid
        · exact List.mem_append_left _ (h.listed T e' id he' hid)
        · exact List.mem_append_right _ hid
      · exact List.mem_append_left _ (h.listed T e id he hid)
    · rw [find?_acks_registerAcks] at hid
      split_ifs at hid with new
      · exact List.mem_append_right _ new.2
      · exact List.mem_append_left _ (h.mapped id T hid)

theorem settle (h : o.Indexed ids) (now : Nat) (resent : List UInt32) (e : Outstanding) :
    (o.settle now resent e).Indexed ids := by
  refine h.of_le (h.toKeyed.settle now resent e) (fun T e' he => ?_) (fun id T hid => hid)
  obtain ⟨old, _, _, there, rfl⟩ := entry_of_settle he
  exact ⟨old, there, rfl⟩

theorem front (h : o.Indexed ids) (i : Nat) : (o.act (.front i)).Indexed ids :=
  h.of_le (h.toKeyed.act (.front i))
    (fun T e he => ⟨e, by rwa [← h.distinct.find?_front i], rfl⟩) (fun id T hid => hid)

theorem act (h : o.Indexed ids) (step : Step) (fresh : ids.Disjoint step.given) :
    (o.act step).Indexed (ids ++ step.given) := by
  have same {p : Outbox} (hp : p.Indexed ids) : p.Indexed (ids ++ []) := by rwa [List.append_nil]
  cases step with
  | number | session | carry | tally | leases =>
    exact same ⟨⟨h.distinct, h.keyed⟩, h.owned, h.listed, h.mapped⟩
  | track e => exact h.track e fresh
  | register trackingId ackIds => exact h.register trackingId ackIds fresh
  | status ackId => exact same (h.deliveryStatus ackId)
  | forget trackingId => exact same (h.forget trackingId)
  | settle now resent e => exact same (h.settle now resent e)
  | empty =>
    exact same (h.of_le (h.toKeyed.act .empty) (fun _ _ he => by cases he) fun _ _ hid => by cases hid)
  | front i => exact same (h.front i)

theorem perform (h : o.Indexed ids) (steps : List Step)
    (fresh : (ids ++ steps.flatMap Step.given).Nodup) :
    (o.perform steps).Indexed (ids ++ steps.flatMap Step.given) := by
  induction steps generalizing o ids with
  | nil => simpa [Outbox.perform] using h
  | cons step steps ih =>
    rw [List.flatMap_cons, ← List.append_assoc] at fresh ⊢
    have first : ids.Disjoint step.given :=
      List.disjoint_of_nodup_append (List.nodup_append.mp fresh).1
    exact ih (h.act step first) fresh

end Indexed

section Drawn

/-- Whatever the steps enter into the tables has been drawn on the way. -/
def Drawn (s : Sender) (steps : List Step) : Prop :=
  (steps.flatMap Step.given).Sublist (s.askedIn (steps.flatMap Step.events))

theorem Drawn.append {s : Sender} {steps more : List Step} (h : Drawn s steps)
    (g : Drawn (s.run (steps.flatMap Step.events)) more) : Drawn s (steps ++ more) := by
  rw [Drawn, List.flatMap_append, List.flatMap_append, Sender.askedIn_append]
  exact List.Sublist.append h g

theorem drawn_of_given_eq_nil (s : Sender) {steps : List Step} (none : steps.flatMap Step.given = []) :
    Drawn s steps := by
  rw [Drawn, none]
  exact List.nil_sublist _

theorem given_handOffSteps (layer : TunnelLayer) (shipment : Shipment) :
    (handOffSteps layer shipment).flatMap Step.given = [] := by
  simp [handOffSteps, Step.given, List.flatMap_map]

variable {o : Outbox} (moment : Moment) (layer : TunnelLayer)

theorem drawn_sendSteps (sound : o.sender.usable.Sound) (d : Draw) (explicit : Bool)
    (cloves : List Clove) : Drawn o.sender (o.sendSteps moment d layer explicit cloves) := by
  unfold sendSteps
  cases he : o.sender.encrypt moment d (layer.reply o.nextId) explicit o.nextId cloves with
  | mk result s =>
    cases result with
    | error e => exact drawn_of_given_eq_nil _ rfl
    | ok m =>
      have named := Sender.confirmations_sublist sound he
      have given : (o.dispatchSteps moment layer explicit cloves m).flatMap Step.given =
          if needsTracking explicit m then m.confirmations else [] := by
        rw [dispatchSteps, List.flatMap_append, List.flatMap_append, given_handOffSteps]
        cases (layer.carry ⟨o.leases, m⟩).result <;> cases needsTracking explicit m <;>
          simp [Step.given, entryOf]
      show ((o.dispatchSteps moment layer explicit cloves m).flatMap Step.given).Sublist
        (o.sender.asked _ ++ _)
      rw [given]
      refine List.Sublist.trans ?_ (List.sublist_append_left _ _)
      split_ifs
      · exact named
      · exact List.nil_sublist _

theorem drawn_attemptSteps (sound : o.sender.usable.Sound) (d : Draw) (e : Outstanding) :
    Drawn o.sender (attemptSteps moment layer o d e) := by
  unfold attemptSteps
  cases he : o.sender.encrypt moment d (layer.reply e.trackingId) e.explicit e.trackingId e.cloves with
  | mk result s =>
    cases result with
    | error e => exact drawn_of_given_eq_nil _ rfl
    | ok m =>
      have named := Sender.confirmations_sublist sound he
      show (m.confirmations ++ (handOffSteps layer ⟨o.leases, m⟩).flatMap Step.given).Sublist
        (o.sender.asked _ ++ _)
      rw [given_handOffSteps, List.append_nil]
      exact named.trans (List.sublist_append_left _ _)

theorem drawn_roundSteps {r : Round} (sound : r.outbox.sender.usable.Sound) (es : List Outstanding) :
    Drawn r.outbox.sender (roundSteps moment layer r es) := by
  induction es generalizing r with
  | nil => exact drawn_of_given_eq_nil _ rfl
  | cons e es ih =>
    have next : (attempt moment layer r e).outbox.sender = r.outbox.sender.run
        ((attemptSteps moment layer r.outbox r.supply.next.1 e).flatMap Step.events) := by
      rw [attempt_eq_perform, sender_perform]
    have rest := ih (r := attempt moment layer r e) (by
      rw [next]
      exact (Sender.frame_run sound _).2)
    rw [next] at rest
    exact (drawn_attemptSteps moment layer sound r.supply.next.1 e).append rest

theorem drawn_maintainSteps (sound : o.sender.usable.Sound) (supply : Supply) :
    Drawn o.sender (o.maintainSteps moment layer supply) := by
  have opened : (o.opening supply moment.instant).outbox.sender =
      o.sender.run ((o.beginSteps moment.instant).flatMap Step.events) := by
    rw [opening_eq_perform, sender_perform]
  refine Drawn.append (drawn_of_given_eq_nil _ ?_) (Drawn.append ?_ (drawn_of_given_eq_nil _ ?_))
  · simp [beginSteps, List.flatMap_map, Step.given]
  · rw [← opened]
    refine drawn_roundSteps moment layer ?_ (o.due moment.instant)
    rw [opened]
    exact (Sender.frame_run sound _).2
  · simp [endSteps, List.flatMap_map, Step.given]

theorem drawn_steps (sound : o.sender.usable.Sound) (e : Event) : Drawn o.sender (o.steps e) := by
  cases e with
  | send moment d layer explicit cloves => exact drawn_sendSteps moment layer sound d explicit cloves
  | maintain moment supply layer => exact drawn_maintainSteps moment layer sound supply
  | status | leases | clear | session | front => exact drawn_of_given_eq_nil _ rfl

end Drawn

/-- The status ids that an event draws. -/
def asked (o : Outbox) (e : Event) : List UInt32 :=
  o.sender.askedIn ((o.steps e).flatMap Step.events)

/-- The tags that an event draws. -/
def drawn (o : Outbox) (e : Event) : List SessionTag :=
  Sender.drawnTags o.sender.settings.refillBatch ((o.steps e).flatMap Step.events)

/-- The tables and the session of an outbox that has drawn these ids and tags. -/
structure Tidy (o : Outbox) (ids : List UInt32) (tags : List SessionTag) : Prop where
  indexed : o.Indexed ids
  accounted : o.sender.Accounted ids tags

namespace Tidy

variable {o : Outbox} {ids : List UInt32} {tags : List SessionTag}

theorem new (remote : Identity) (remoteKey : ElGamal.PublicKey) (settings : Settings) :
    (Outbox.new (.new remote remoteKey settings)).Tidy [] [] :=
  ⟨.new _, .new remote remoteKey settings⟩

theorem mono (h : o.Tidy ids tags) {moreIds : List UInt32} {moreTags : List SessionTag}
    (subIds : ids ⊆ moreIds) (subTags : tags.Sublist moreTags) : o.Tidy moreIds moreTags :=
  ⟨h.indexed.mono subIds, h.accounted.mono subIds subTags⟩

theorem after (h : o.Tidy ids tags) (e : Event) (fresh : (ids ++ o.asked e).Nodup) :
    (o.after e).Tidy (ids ++ o.asked e) (tags ++ o.drawn e) := by
  have entered := drawn_steps h.accounted.sound e
  rw [after_eq_perform]
  constructor
  · have once : (ids ++ (o.steps e).flatMap Step.given).Nodup :=
      fresh.sublist (List.Sublist.append_left entered ids)
    refine (h.indexed.perform (o.steps e) once).mono fun id hid => ?_
    rcases List.mem_append.mp hid with old | new
    · exact List.mem_append_left _ old
    · exact List.mem_append_right _ (entered.subset new)
  · rw [sender_perform]
    exact h.accounted.run _

theorem deliveryStatus (h : o.Tidy ids tags) (ackId : UInt32) : (o.deliveryStatus ackId).2.Tidy ids tags := by
  refine ⟨h.indexed.deliveryStatus ackId, ?_⟩
  have step := h.accounted.after (.acknowledge ackId)
  rw [show o.sender.asked (.acknowledge ackId) = [] from rfl, List.append_nil,
    show Sender.drawnTags o.sender.settings.refillBatch [.acknowledge ackId] = [] from rfl,
    List.append_nil] at step
  rw [sender_deliveryStatus]
  exact step

/-- A status id that matches has been drawn before. -/
theorem mem_of_matched (h : o.Tidy ids tags) {ackId : UInt32}
    (matched : (o.deliveryStatus ackId).1.matched) : ackId ∈ ids := by
  rw [deliveryStatus_fst, StatusOutcome.matched, Bool.or_eq_true, Option.isSome_map] at matched
  rcases matched with sent | tags
  · obtain ⟨e, he⟩ := Option.isSome_iff_exists.mp sent
    obtain ⟨T, hT, -⟩ := Option.bind_eq_some_iff.mp he
    exact h.indexed.mapped ackId T hT
  · cases found : o.sender.pending.find? ackId with
    | none =>
      rw [Sender.acknowledge, found] at tags
      cases tags
    | some b => exact h.accounted.waits _ (Table.mem_of_find? found)

end Tidy

/-- A status id that matches nothing leaves all as it is. -/
theorem deliveryStatus_of_unmatched {o : Outbox} {ackId : UInt32}
    (unmatched : ¬ (o.deliveryStatus ackId).1.matched) : (o.deliveryStatus ackId).2 = o := by
  rw [deliveryStatus_fst, StatusOutcome.matched, Bool.or_eq_true, Option.isSome_map, not_or,
    Option.not_isSome_iff_eq_none, Option.not_isSome_iff_eq_none] at unmatched
  obtain ⟨sent, tags⟩ := unmatched
  have session : (o.sender.acknowledge ackId).2 = o.sender := by
    unfold Sender.acknowledge at tags ⊢
    cases found : o.sender.pending.find? ackId with
    | none => rfl
    | some b =>
      rw [found] at tags
      by_cases hkey : o.sender.key = some b.key <;> simp [hkey] at tags
  rw [deliveryStatus_eq, session]
  cases hack : o.acks.find? ackId with
  | none => rfl
  | some T =>
    rw [confirmed?, hack, Option.bind_some] at sent
    exact forget_eq_self o sent

end Outbox

end GarlicRouting
