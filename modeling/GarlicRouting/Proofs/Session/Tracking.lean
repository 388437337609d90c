import GarlicRouting.Proofs.Session.Contents
import Mathlib

/-! The two tables of an outbox, by tracking id and by status id: each is the inverse of the other,
and whatever is handed over for a send can confirm it. -/
namespace GarlicRouting.Outbox

/-- A status id stands for a send exactly when the send lists it. -/
structure Linked (o : Outbox) (ids : List UInt32) : Prop extends Indexed o ids where
  linked : ∀ id T, o.acks.find? id = some T ↔ ∃ e, o.entries.find? T = some e ∧ id ∈ e.ackIds

namespace Linked

variable {o p : Outbox} {ids : List UInt32}

theorem new (s : Sender) : (Outbox.new s).Linked [] where
  toIndexed := .new s
  linked id T := by
    constructor
    · intro h
      cases h
    · intro hh
      obtain ⟨e, he, _⟩ := hh
      cases he

theorem mono (h : o.Linked ids) {more : List UInt32} (sub : ids ⊆ more) : o.Linked more :=
  ⟨h.toIndexed.mono sub, h.linked⟩

/-- The tables may change in all but the status ids. -/
theorem of_same (h : o.Linked ids) (indexed : p.Indexed ids)
    (entries : ∀ T, (p.entries.find? T).map Outstanding.ackIds =
      (o.entries.find? T).map Outstanding.ackIds)
    (acks : ∀ id, p.acks.find? id = o.acks.find? id) : p.Linked ids where
  toIndexed := indexed
  linked id T := by
    have listed (q : Outbox) : (∃ e, q.entries.find? T = some e ∧ id ∈ e.ackIds) ↔
        ∃ l, (q.entries.find? T).map Outstanding.ackIds = some l ∧ id ∈ l := by
      cases q.entries.find? T <;> simp
    rw [acks, h.linked, listed, listed, entries]

theorem forget (h : o.Linked ids) (trackingId : UInt32) : (o.forget trackingId).Linked ids where
  toIndexed := h.toIndexed.forget trackingId
  linked id T := by
    rw [find?_acks_forget, find?_entries_forget]
    constructor
    · intro found
      split_ifs at found with own
      obtain ⟨e, he, hid⟩ := (h.linked id T).mp found
      have other : T ≠ trackingId := fun same => own ⟨e, same ▸ he, hid⟩
      exact ⟨e, by rwa [if_neg other], hid⟩
    · intro hh
      obtain ⟨e, he, hid⟩ := hh
      split_ifs at he with other
      have found := (h.linked id T).mpr ⟨e, he, hid⟩
      rw [if_neg, found]
      intro own
      have mapped := (h.linked id trackingId).mpr own
      rw [found] at mapped
      exact other (Option.some.inj mapped)

theorem status (h : o.Linked ids) (ackId : UInt32) : (o.deliveryStatus ackId).2.Linked ids := by
  rw [deliveryStatus_eq]
  have same : Linked { o with sender := (o.sender.acknowledge ackId).2 } ids :=
    ⟨⟨⟨h.distinct, h.keyed⟩, h.owned, h.listed, h.mapped⟩, h.linked⟩
  cases o.acks.find? ackId with
  | none => exact same
  | some trackingId => exact same.forget trackingId

/-- New ids go to one send, which has no other place. -/
theorem track (h : o.Linked ids) (e : Outstanding) (absent : o.entries.find? e.trackingId = none)
    (fresh : ids.Disjoint e.ackIds) : (o.track e).Linked (ids ++ e.ackIds) where
  toIndexed := h.toIndexed.track e fresh
  linked id T := by
    rw [find?_acks_track, find?_entries_track]
    by_cases own : id ∈ e.ackIds
    · rw [if_pos own]
      constructor
      · intro same
        obtain rfl := Option.some.inj same
        exact ⟨e, if_pos rfl, own⟩
      · intro hh
        obtain ⟨e', he, hid⟩ := hh
        split_ifs at he with hT
        · rw [hT]
        · exact absurd own (fresh (h.listed T e' id he hid))
    · rw [if_neg own, h.linked]
      constructor
      · intro hh
        obtain ⟨e', he, hid⟩ := hh
        have other : T ≠ e.trackingId := fun same => by
          rw [same, absent] at he
          cases he
        exact ⟨e', by rwa [if_neg other], hid⟩
      · intro hh
        obtain ⟨e', he, hid⟩ := hh
        split_ifs at he with hT
        · obtain rfl := Option.some.inj he
          exact absurd hid own
        · exact ⟨e', he, hid⟩

theorem register (h : o.Linked ids) (trackingId : UInt32) (ackIds : List UInt32)
    (fresh : ids.Disjoint ackIds) : (o.registerAcks trackingId ackIds).Linked (ids ++ ackIds) := by
  have indexed := h.toIndexed.register trackingId ackIds fresh
  cases hthere : o.entries.find? trackingId with
  | none =>
    rw [registerAcks_eq_self o ackIds hthere] at indexed ⊢
    exact ⟨indexed, h.linked⟩
  | some e₀ =>
    have there : o.entries.contains trackingId := by
      rw [Table.contains, hthere]
      rfl
    apply Linked.mk indexed
    intro id T
    rw [find?_acks_registerAcks, find?_entries_registerAcks]
    by_cases own : id ∈ ackIds
    · rw [if_pos ⟨there, own⟩]
      constructor
      · intro same
        obtain rfl := Option.some.inj same
        rw [if_pos rfl, hthere]
        exact ⟨_, rfl, List.mem_append_right _ own⟩
      · intro hh
        obtain ⟨e, he, hid⟩ := hh
        split_ifs at he with hT
        · rw [hT]
        · exact absurd own (fresh (h.listed T e id he hid))
    · rw [if_neg fun both => own both.2, h.linked]
      constructor
      · intro hh
        obtain ⟨e, he, hid⟩ := hh
        rw [he]
        split_ifs
        · exact ⟨_, rfl, List.mem_append_left _ hid⟩
        · exact ⟨e, rfl, hid⟩
      · intro hh
        obtain ⟨e, he, hid⟩ := hh
        split_ifs at he with hT
        · obtain ⟨old, ho, rfl⟩ := Option.map_eq_some_iff.mp he
          rcases List.mem_append.mp hid with old' | new
          · exact ⟨old, ho, old'⟩
          · exact absurd new own
        · exact ⟨e, he, hid⟩

theorem act (h : o.Linked ids) {step : Step} (fresh : ids.Disjoint step.given)
    (absent : ∀ e, step = .track e → o.entries.find? e.trackingId = none) :
    (o.act step).Linked (ids ++ step.given) := by
  have indexed := h.toIndexed.act step fresh
  have none {q : Outbox} (hq : q.Linked ids) : q.Linked (ids ++ []) := by rwa [List.append_nil]
  cases step with
  | number | session | carry | tally | leases => exact ⟨indexed, h.linked⟩
  | track e => exact h.track e (absent e rfl) fresh
  | register trackingId ackIds => exact h.register trackingId ackIds fresh
  | status ackId => exact none (h.status ackId)
  | forget trackingId => exact none (h.forget trackingId)
  | settle now resent e =>
    have listed (T : UInt32) : ((o.settle now resent e).entries.find? T).map Outstanding.ackIds =
        (o.entries.find? T).map Outstanding.ackIds := by
      rw [find?_entries_settle]
      split_ifs
      · rw [Option.map_map]
        rfl
      · rfl
    exact none (h.of_same (h.toIndexed.settle now resent e) listed fun _ => rfl)
  | empty =>
    apply Linked.mk indexed
    intro id T
    constructor
    · intro found
      cases found
    · intro hh
      obtain ⟨e, he, _⟩ := hh
      cases he
  | front i =>
    have listed (T : UInt32) : ((o.entries.front i).find? T).map Outstanding.ackIds =
        (o.entries.find? T).map Outstanding.ackIds := by rw [h.distinct.find?_front]
    exact none (h.of_same (h.toIndexed.front i) listed fun _ => rfl)

theorem perform (h : o.Linked ids) {steps : List Step} (old : ∀ e, .track e ∉ steps)
    (fresh : (ids ++ steps.flatMap Step.given).Nodup) :
    (o.perform steps).Linked (ids ++ steps.flatMap Step.given) := by
  induction steps generalizing o ids with
  | nil => simpa [Outbox.perform] using h
  | cons step steps ih =>
    rw [List.flatMap_cons, ← List.append_assoc] at fresh ⊢
    have apart : ids.Disjoint step.given :=
      List.disjoint_of_nodup_append (List.nodup_append.mp fresh).1
    have first : (o.act step).Linked (ids ++ step.given) := h.act apart fun e same =>
      absurd (same ▸ List.mem_cons_self) (old e)
    exact ih first (fun e later => old e (List.mem_cons_of_mem step later)) fresh

/-- One send enters on the way, and it has no place before. -/
theorem perform_track (h : o.Linked ids) (front : List Step) {rest : List Step} {e : Outstanding}
    (oldFront : ∀ e, .track e ∉ front) (oldRest : ∀ e, .track e ∉ rest)
    (absent : (o.perform front).entries.find? e.trackingId = none)
    (fresh : (ids ++ (front ++ .track e :: rest).flatMap Step.given).Nodup) :
    (o.perform (front ++ .track e :: rest)).Linked
      (ids ++ (front ++ .track e :: rest).flatMap Step.given) := by
  rw [List.flatMap_append, List.flatMap_cons, ← List.append_assoc, ← List.append_assoc] at fresh ⊢
  obtain ⟨before, -, -⟩ := List.nodup_append.mp fresh
  obtain ⟨first, -, -⟩ := List.nodup_append.mp before
  have apart := List.disjoint_of_nodup_append before
  rw [perform_append, perform_cons]
  exact ((h.perform oldFront first).track e absent apart).perform oldRest fresh

end Linked

section Events

variable {o : Outbox} {ids : List UInt32}

/-- What a run of the outbox does to the session. -/
def sessionIn (o : Outbox) : List Event → List Sender.Event
  | [] => []
  | e :: es => (o.steps e).flatMap Step.events ++ (o.after e).sessionIn es

theorem sessionIn_concat (o : Outbox) (es : List Event) (e : Event) :
    o.sessionIn (es ++ [e]) = o.sessionIn es ++ ((o.run es).steps e).flatMap Step.events := by
  induction es generalizing o with
  | nil => exact List.append_nil _
  | cons f es ih => rw [List.cons_append, sessionIn, sessionIn, ih, List.append_assoc, run_cons]

theorem sender_run (o : Outbox) (es : List Event) :
    (o.run es).sender = o.sender.run (o.sessionIn es) := by
  induction es using List.reverseRecOn with
  | nil => rfl
  | append_singleton es e ih =>
    rw [run_concat, sessionIn_concat, Sender.run_append, after_eq_perform, sender_perform, ih]

/-- The status ids that a run draws. -/
def askedIn (o : Outbox) (es : List Event) : List UInt32 := o.sender.askedIn (o.sessionIn es)

theorem askedIn_concat (o : Outbox) (es : List Event) (e : Event) :
    o.askedIn (es ++ [e]) = o.askedIn es ++ (o.run es).asked e := by
  rw [askedIn, sessionIn_concat, Sender.askedIn_append, ← sender_run]
  rfl

/-- A new send has no place yet. -/
theorem Numbered.absent_nextId {n : Nat} (h : o.Numbered n) (few : n + 1 < 2 ^ 32) :
    o.entries.find? o.nextId = none := by
  by_contra there
  have old := h.past o.nextId there
  rw [h.toNat_nextId few] at old
  omega

theorem Linked.after (h : o.Linked ids) (sound : o.sender.usable.Sound) (e : Event)
    (absent : e.isSend → o.entries.find? o.nextId = none) (fresh : (ids ++ o.asked e).Nodup) :
    (o.after e).Linked (ids ++ o.asked e) := by
  have entered := drawn_steps sound e
  have once : (ids ++ (o.steps e).flatMap Step.given).Nodup :=
    fresh.sublist (List.Sublist.append_left entered ids)
  have drawn : ids ++ (o.steps e).flatMap Step.given ⊆ ids ++ o.asked e := fun id hid => by
    rcases List.mem_append.mp hid with old | new
    · exact List.mem_append_left _ old
    · exact List.mem_append_right _ (entered.subset new)
  have run : (o.perform (o.steps e)).Linked (ids ++ (o.steps e).flatMap Step.given) := by
    cases e with
    | send moment d layer explicit cloves =>
      obtain ⟨rest, handed, parts | ⟨m, s, -, -, parts⟩⟩ :=
        o.sendSteps_cases moment d layer explicit cloves
      · rw [steps, parts] at once ⊢
        apply h.perform _ once
        intro e mem
        rcases List.mem_append.mp mem with mem | mem
        · simp at mem
        · exact handed _ mem
      · rw [steps, parts] at once ⊢
        apply h.perform_track [_, _] (by simp) (fun e mem => handed _ mem) _ once
        rw [entries_numbered]
        exact absent rfl
    | maintain moment supply layer =>
      exact h.perform (fun e mem => o.entersNone_maintainSteps moment supply layer _ mem) once
    | status | leases | clear | session | front =>
      apply h.perform _ once
      simp [steps]
  rw [after_eq_perform]
  exact run.mono drawn

end Events

section Covers

variable {o : Outbox} {m : Sealed} {steps : List Step}

/-- The send of a message, if it is still tracked, lists all that confirms the message. -/
def Covers (o : Outbox) (m : Sealed) : Prop :=
  ∀ e, o.entries.find? m.trackingId = some e → m.confirmations ⊆ e.ackIds

theorem Step.Leaves.ackIds_subset {step : Step} {old e : Outstanding} (h : step.Leaves old e) :
    old.ackIds ⊆ e.ackIds := by
  cases h with
  | same | settled => exact List.Subset.refl _
  | registered => exact List.subset_append_left _ _

theorem Keyed.covers_perform (h : o.Keyed) (covers : o.Covers m) (old : ∀ e, .track e ∉ steps) :
    (o.perform steps).Covers m := by
  induction steps generalizing o with
  | nil => exact covers
  | cons step steps ih =>
    have first : (o.act step).Covers m := by
      intro e he
      rcases h.entry_of_act he with rfl | ⟨before, there, leaves⟩
      · exact absurd List.mem_cons_self (old e)
      · exact List.Subset.trans (covers before there) leaves.ackIds_subset
    exact ih (h.act step) first fun e later => old e (List.mem_cons_of_mem step later)

theorem Keyed.covers_after (h : o.Keyed) (covers : o.Covers m) {e : Event}
    (other : e.isSend → m.trackingId ≠ o.nextId) : (o.after e).Covers m := by
  obtain ⟨front, rest, parts, -, old, -, same⟩ := o.steps_split e
  rw [after_eq_perform, parts, perform_append]
  have first : (o.perform front).Covers m := fun x hx => covers x ((same _ other).symm.trans hx)
  exact (h.perform front).covers_perform first fun x mem => old _ mem

/-- New ids are registered before the message is handed over. -/
theorem covers_registerAcks (o : Outbox) {T : UInt32} (made : m.trackingId = T) :
    (o.registerAcks T m.confirmations).Covers m := by
  intro e he
  rw [made, find?_entries_registerAcks, if_pos rfl] at he
  obtain ⟨old, -, rfl⟩ := Option.map_eq_some_iff.mp he
  exact List.subset_append_right _ _

theorem Keyed.covers_round {r : Round} (moment : Moment) (layer : TunnelLayer)
    (h : r.outbox.Keyed) (covers : ∀ x ∈ r.handoffs, r.outbox.Covers x.shipment.message)
    (es : List Outstanding) : ∀ x ∈ (es.foldl (attempt moment layer) r).handoffs,
      (es.foldl (attempt moment layer) r).outbox.Covers x.shipment.message := by
  induction es generalizing r with
  | nil => exact covers
  | cons e es ih =>
    have steps := attempt_eq_perform moment layer r e
    have old (x : Outstanding) :
        .track x ∉ attemptSteps moment layer r.outbox r.supply.next.1 e := fun mem =>
      keeps_roundSteps moment layer r [e] _ (List.mem_append_left _ mem)
    have kept {m : Sealed} (hm : r.outbox.Covers m) :
        (attempt moment layer r e).outbox.Covers m := by
      rw [steps]
      exact h.covers_perform hm old
    have keyed : (attempt moment layer r e).outbox.Keyed := by
      rw [steps]
      exact h.perform _
    apply ih keyed
    intro x hx
    rcases attempt_cases moment layer r e with ⟨same, -⟩ | ⟨m, s, new, he, made, grown, -, outbox⟩
    · rw [same] at hx
      exact kept (covers x hx)
    · rw [grown] at hx
      rcases List.mem_cons.mp hx with rfl | before
      · rw [outbox, made]
        have keyed : ({ r.outbox with sender := s } : Outbox).Keyed := ⟨h.distinct, h.keyed⟩
        have registered := keyed.register e.trackingId m.confirmations
        apply registered.covers_perform (covers_registerAcks _ (trackingId_encrypt he))
        intro x mem
        exact keeps_handOffSteps _ _ _ mem
      · exact kept (covers x before)

/-- Whatever an event hands over can confirm its send, if it is still there after the event. -/
theorem Keyed.covers_handoffs (h : o.Keyed) {e : Event}
    (absent : e.isSend → o.entries.find? o.nextId = none) :
    ∀ x ∈ o.handoffs e, (o.after e).Covers x.shipment.message := by
  intro x hx
  cases e with
  | send moment d layer explicit cloves =>
    obtain ⟨s, he⟩ := shipment_send hx
    have id := trackingId_encrypt he
    rw [after_eq_perform, steps]
    obtain ⟨rest, handed, parts | ⟨m, s', he', -, parts⟩⟩ :=
      o.sendSteps_cases moment d layer explicit cloves
    · rw [parts, perform_append]
      apply (h.perform _).covers_perform _ fun y mem => handed _ mem
      intro y hy
      rw [id, entries_numbered, absent rfl] at hy
      cases hy
    · obtain rfl : m = x.shipment.message := by
        rw [he] at he'
        exact (Except.ok.inj (Prod.mk.inj he').1).symm
      rw [parts, perform_append]
      apply (h.perform _).covers_perform _ fun y mem => handed _ mem
      intro y hy
      let entry := entryOf o.nextId moment explicit cloves x.shipment.message
      have entered : (o.perform [.number, .session (o.sending moment d layer explicit cloves),
          .track entry]).entries.find? o.nextId = some entry :=
        (find?_entries_entered ..).trans (if_pos rfl)
      rw [id, entered] at hy
      obtain rfl := Option.some.inj hy
      exact List.Subset.refl _
  | maintain moment supply layer =>
    have opened : (o.opening supply moment.instant).outbox.Keyed := by
      rw [opening_eq_perform]
      exact h.perform _
    have round := opened.covers_round moment layer (fun y hy => by cases hy) (o.due moment.instant)
    have during : (o.attempted moment layer supply).outbox.Keyed := by
      rw [attempted, round_eq_perform]
      exact opened.perform _
    rw [handoffs, maintain_eq, List.mem_reverse] at hx
    rw [after_eq_perform, steps, maintainSteps, perform_append, ← o.opening_eq_perform supply,
      perform_append, ← round_eq_perform]
    apply during.covers_perform (round x hx)
    intro y mem
    exact o.entersNone_maintainSteps moment supply layer _
      (List.mem_append_right _ (List.mem_append_right _ mem))
  | status | leases | clear | session | front => cases hx

end Covers

section Confirmable

variable {o : Outbox}

/-- Every send in the window can be confirmed. -/
def Confirmable (o : Outbox) : Prop := ∀ T e, o.entries.find? T = some e → e.ackIds ≠ []

theorem Keyed.confirmable_perform (h : o.Keyed) (confirmable : o.Confirmable) {steps : List Step}
    (new : ∀ e, .track e ∈ steps → e.ackIds ≠ []) : (o.perform steps).Confirmable := by
  induction steps generalizing o with
  | nil => exact confirmable
  | cons step steps ih =>
    have first : (o.act step).Confirmable := by
      intro T e he
      rcases h.entry_of_act he with rfl | ⟨old, there, leaves⟩
      · exact new e List.mem_cons_self
      · intro none
        have before := leaves.ackIds_subset
        rw [none] at before
        exact confirmable T old there (List.subset_nil.mp before)
    exact ih (h.act step) first fun e later => new e (List.mem_cons_of_mem step later)

/-- A send is only tracked if its message can be confirmed, while a single barrier guards the
handshakes of the session. -/
theorem Keyed.confirmable_after (h : o.Keyed) (confirmable : o.Confirmable) {keys : List SessionKey}
    (guarded : o.sender.Guarded keys) (e : Event) : (o.after e).Confirmable := by
  rw [after_eq_perform]
  apply h.confirmable_perform confirmable
  intro x mem
  cases e with
  | send moment d layer explicit cloves =>
    obtain ⟨rest, handed, parts | ⟨m, s, he, tracked, parts⟩⟩ :=
      o.sendSteps_cases moment d layer explicit cloves
    · rw [steps, parts] at mem
      rcases List.mem_append.mp mem with mem | mem
      · simp at mem
      · exact (handed _ mem).elim
    · rw [steps, parts] at mem
      rcases List.mem_append.mp mem with mem | mem
      · have same : x = entryOf o.nextId moment explicit cloves m := by simpa using mem
        rw [same]
        exact guarded.confirmations_ne_nil he tracked
      · exact (handed _ mem).elim
  | maintain moment supply layer =>
    exact (o.entersNone_maintainSteps moment supply layer _ mem).elim
  | status | leases | clear | session | front => simp [steps] at mem

end Confirmable

section Run

variable (remote : Identity) (remoteKey : ElGamal.PublicKey) (settings : Settings)

theorem sender_frame_run (es : List Event) :
    let o := (Outbox.new (.new remote remoteKey settings)).run es
    Sender.Frame (.new remote remoteKey settings) o.sender ∧ o.sender.usable.Sound := by
  intro o
  rw [sender_run]
  exact Sender.frame_run (Sender.sound_new remote remoteKey settings) _

theorem linked_run {es : List Event} (few : es.countP Event.isSend < 2 ^ 32)
    (fresh : ((Outbox.new (.new remote remoteKey settings)).askedIn es).Nodup) :
    let start := Outbox.new (.new remote remoteKey settings)
    (start.run es).Linked (start.askedIn es) := by
  intro start
  induction es using List.reverseRecOn with
  | nil => exact .new _
  | append_singleton es e ih =>
    have numbered : (start.run es).Numbered (es.countP Event.isSend) := numbered_run _ es
    rw [List.countP_append] at few
    rw [askedIn_concat] at fresh ⊢
    have before := ih (by omega) (List.nodup_append.mp fresh).1
    have sound := (sender_frame_run remote remoteKey settings es).2
    rw [run_concat]
    apply before.after sound e _ fresh
    intro send
    apply numbered.absent_nextId
    have one : [e].countP Event.isSend = 1 := by simp [send]
    omega

theorem confirmable_run {es : List Event}
    (keys : Sender.DistinctKeys ((Outbox.new (.new remote remoteKey settings)).sessionIn es)) :
    ((Outbox.new (.new remote remoteKey settings)).run es).Confirmable := by
  induction es using List.reverseRecOn with
  | nil =>
    intro T e he
    cases he
  | append_singleton es e ih =>
    rw [sessionIn_concat] at keys
    have numbered := numbered_run (.new remote remoteKey settings) es
    rw [run_concat]
    apply numbered.toKeyed.confirmable_after (ih keys.of_append)
    rw [sender_run]
    exact Sender.guarded_run keys.of_append

/-- Whatever was handed over under a tracking id that has been given out is what it seems to be, and
confirms its send for as long as the send is tracked. -/
theorem handed_run {es : List Event} (few : es.countP Event.isSend < 2 ^ 32) :
    let start := Outbox.new (.new remote remoteKey settings)
    ∀ h ∈ start.handoffsIn es, let m := h.shipment.message
      m.Written remoteKey ∧ m.trackingId.toNat ≤ es.countP Event.isSend ∧ (start.run es).Covers m := by
  intro start
  induction es using List.reverseRecOn with
  | nil =>
    intro h mem
    cases mem
  | append_singleton es e ih =>
    intro h mem
    have numbered : (start.run es).Numbered (es.countP Event.isSend) := numbered_run _ es
    obtain ⟨frame, sound⟩ := sender_frame_run remote remoteKey settings es
    have key : (start.run es).sender.remoteKey = remoteKey := frame.remoteKey
    have one (send : e.isSend) : [e].countP Event.isSend = 1 := by simp [send]
    rw [List.countP_append] at few
    rw [handoffsIn_concat, List.mem_append] at mem
    simp only [run_concat, List.countP_append]
    rcases mem with old | new
    · obtain ⟨written, past, covers⟩ := ih (by omega) h old
      have other : e.isSend → h.shipment.message.trackingId ≠ (start.run es).nextId :=
        numbered.ne_nextId (by omega) (by omega)
      exact ⟨written, by omega, numbered.toKeyed.covers_after covers other⟩
    · have covers := numbered.toKeyed.covers_handoffs
        (fun send => numbered.absent_nextId (by have := one send; omega)) h new
      rw [← key]
      rcases handoff_cases sound new with ⟨_, _, _, _, _, rfl, carries⟩ |
        ⟨_, _, _, rfl, x, due, carries⟩
      · have next := numbered.toNat_nextId (by have := one rfl; omega)
        refine ⟨carries.written, ?_, covers⟩
        rw [carries.trackingId, next, one rfl]
      · have there := (numbered.toKeyed.entry_of_due due).1
        have past := numbered.past x.trackingId (by simp [there])
        refine ⟨carries.written, ?_, covers⟩
        rw [carries.trackingId]
        omega

/-- The two tables of every reachable outbox. Each send is in its place; a status id stands for a send
exactly when the send lists it; and if no session key is drawn twice, every send lists one. Whatever
has been handed over holds the confirmations that it is said to ask for, and as long as its send is
tracked each of them stands for that send and takes exactly that send and its ids away. -/
theorem tables_agree (es : List Event) (few : es.countP Event.isSend < 2 ^ 32)
    (fresh : ((Outbox.new (.new remote remoteKey settings)).askedIn es).Nodup) :
    let start := Outbox.new (.new remote remoteKey settings)
    let o := start.run es
    (o.entries.Distinct ∧ ∀ T e, o.entries.find? T = some e → e.trackingId = T) ∧
    (∀ id T, o.acks.find? id = some T ↔ ∃ e, o.entries.find? T = some e ∧ id ∈ e.ackIds) ∧
    (Sender.DistinctKeys (start.sessionIn es) → ∀ T e, o.entries.find? T = some e → e.ackIds ≠ []) ∧
    ∀ h ∈ start.handoffsIn es, let m := h.shipment.message
      m.Written remoteKey ∧ ∀ e, o.entries.find? m.trackingId = some e → ∀ id ∈ m.confirmations,
        let result := o.deliveryStatus id
        o.acks.find? id = some m.trackingId ∧ result.1.trackingId = some m.trackingId ∧
        (∀ T, result.2.entries.find? T = if T = m.trackingId then none else o.entries.find? T) ∧
        ∀ j, result.2.acks.find? j = if j ∈ e.ackIds then none else o.acks.find? j := by
  intro start o
  have linked : o.Linked _ := linked_run remote remoteKey settings few fresh
  have handed := handed_run remote remoteKey settings few
  refine ⟨⟨linked.distinct, linked.keyed⟩, linked.linked,
    fun keys => confirmable_run remote remoteKey settings keys, fun h mem => ?_⟩
  obtain ⟨written, -, covers⟩ := handed h mem
  refine ⟨written, fun e he id named => ?_⟩
  have mapped : o.acks.find? id = some h.shipment.message.trackingId :=
    (linked.linked id _).mpr ⟨e, he, covers e he named⟩
  have confirmed : o.confirmed? id = some e := by
    rw [confirmed?, mapped, Option.bind_some, he]
  refine ⟨mapped, ?_, fun T => ?_, fun j => ?_⟩
  · rw [deliveryStatus_fst, confirmed, Option.map_some, linked.keyed _ e he]
  · rw [find?_entries_deliveryStatus, mapped]
    simp only [Option.some.injEq, eq_comm]
  · rw [find?_acks_deliveryStatus, confirmed]
    simp only [Option.some.injEq, exists_eq_left']

end Run

/-- A send that goes again when its interval has passed, and another one. -/
def resentSend : List Event :=
  [.send ⟨0, 0⟩ (.numbered 0) openLayer false [],
    .maintain ⟨15000000000, 0⟩ ⟨fun _ => .numbered 1, 0⟩ openLayer,
    .send ⟨16000000000, 0⟩ (.numbered 2) openLayer true []]

theorem tables_agree_resentSend :
    let start := Outbox.new (.new ⟨.ofNat 32 1⟩ ⟨.ofNat 256 2⟩ {})
    let o := start.run resentSend
    resentSend.countP Event.isSend < 2 ^ 32 ∧ (start.askedIn resentSend).Nodup ∧
      Sender.DistinctKeys (start.sessionIn resentSend) ∧
      (start.handoffsIn resentSend).map (fun h => h.shipment.message.confirmations) =
        [[1], [3], [6, 5]] ∧
      (∀ T e, o.entries.find? T = some e → e.ackIds ≠ []) ∧
      ∀ h ∈ start.handoffsIn resentSend, ∀ id ∈ h.shipment.message.confirmations,
        o.acks.find? id = some h.shipment.message.trackingId := by
  intro start o
  have fresh : (start.askedIn resentSend).Nodup := by decide +kernel
  have keys : Sender.DistinctKeys (start.sessionIn resentSend) := by decide +kernel
  have there : ∀ h ∈ start.handoffsIn resentSend,
      (o.entries.find? h.shipment.message.trackingId).isSome := by decide +kernel
  obtain ⟨-, -, confirmable, handed⟩ := tables_agree ⟨.ofNat 32 1⟩ ⟨.ofNat 256 2⟩ {} resentSend
    (by decide) fresh
  refine ⟨by decide, fresh, keys, by decide +kernel, confirmable keys, fun h mem id named => ?_⟩
  obtain ⟨e, he⟩ := Option.isSome_iff_exists.mp (there h mem)
  exact ((handed h mem).2 e he id named).1

end GarlicRouting.Outbox
