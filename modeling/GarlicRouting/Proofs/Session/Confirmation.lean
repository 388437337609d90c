import GarlicRouting.Proofs.Session.Retry
import Mathlib

/-! A send that has been confirmed: whether it can be handed over once more. -/
namespace GarlicRouting

/-- What the tunnel layer and the caller get to see of a send. -/
inductive Sign where
  | handed (trackingId : UInt32)
  | confirmed (trackingId : UInt32)
deriving DecidableEq

def Sign.handed? : Sign → Option UInt32
  | handed trackingId => some trackingId
  | confirmed _ => none

/-- A message is handed over before the ids are passed on. -/
def Handoff.signs (h : Handoff) : List Sign :=
  .handed h.shipment.message.trackingId ::
    (h.outcomes.filterMap StatusOutcome.trackingId).map .confirmed

namespace Outbox

/-- What an event shows, in order. -/
def signs (o : Outbox) : Event → List Sign
  | .status ackId => (o.deliveryStatus ackId).1.trackingId.toList.map .confirmed
  | e => (o.handoffs e).flatMap Handoff.signs

def signsIn (o : Outbox) : List Event → List Sign
  | [] => []
  | e :: es => o.signs e ++ (o.after e).signsIn es

section Steps

/-- What a step shows. -/
def sign? (o : Outbox) : Step → Option Sign
  | .carry shipment => some (.handed shipment.message.trackingId)
  | .status ackId => (o.confirmed? ackId).map fun e => .confirmed e.trackingId
  | _ => none

def signed (o : Outbox) : List Step → List Sign
  | [] => []
  | step :: steps => (o.sign? step).toList ++ (o.act step).signed steps

theorem signed_append (o : Outbox) (steps more : List Step) :
    o.signed (steps ++ more) = o.signed steps ++ (o.perform steps).signed more := by
  induction steps generalizing o with
  | nil => rfl
  | cons step steps ih =>
    rw [List.cons_append, signed, signed, ih, List.append_assoc, perform_cons]

theorem signed_statuses (o : Outbox) (ids : List UInt32) : o.signed (ids.map .status) =
    ((o.deliveryStatuses ids).1.filterMap StatusOutcome.trackingId).map .confirmed := by
  induction ids generalizing o with
  | nil => rfl
  | cons id ids ih =>
    rw [List.map_cons, signed, ih, sign?, act, deliveryStatuses_cons, deliveryStatus_fst]
    cases o.confirmed? id <;> simp

theorem signed_handOff (o : Outbox) (layer : TunnelLayer) (m : Sealed) :
    o.signed (handOffSteps layer ⟨o.leases, m⟩) = (o.handOff layer m).1.signs := by
  rw [handOffSteps, signed, act, signed_statuses]
  rfl

/-- The steps that show nothing. -/
def Step.Silent : Step → Prop
  | .carry _ | .status _ => False
  | _ => True

theorem signed_of_silent (o : Outbox) {steps : List Step} (silent : ∀ step ∈ steps, step.Silent) :
    o.signed steps = [] := by
  induction steps generalizing o with
  | nil => rfl
  | cons step steps ih =>
    obtain ⟨first, rest⟩ := List.forall_mem_cons.mp silent
    rw [signed, ih _ rest]
    cases step <;> first | rfl | exact first.elim

variable (o : Outbox) (moment : Moment) (layer : TunnelLayer)

theorem signs_send (d : Draw) (explicit : Bool) (cloves : List Clove) :
    o.signs (.send moment d layer explicit cloves) =
      o.signed (o.sendSteps moment d layer explicit cloves) := by
  show (o.send moment d layer explicit cloves).2.1.toList.flatMap Handoff.signs = _
  unfold send sendSteps
  cases he : o.sender.encrypt moment d (layer.reply o.nextId) explicit o.nextId cloves with
  | mk result s =>
    have made := o.act_sending moment d layer explicit cloves he
    cases result with
    | error e =>
      simp only [he]
      rfl
    | ok m =>
      simp only [he, signed, made, dispatchSteps]
      rw [signed_append, signed_append]
      cases hr : (layer.carry ⟨o.leases, m⟩).result <;>
        cases tracked : needsTracking explicit m <;>
          simp [handOff, signed, signed_statuses, perform, act, handOffSteps, hr, entryOf, sign?,
            Handoff.signs]

theorem signs_attempt (r : Round) (e : Outstanding) :
    (attempt moment layer r e).handoffs.reverse.flatMap Handoff.signs =
      r.handoffs.reverse.flatMap Handoff.signs ++
        r.outbox.signed (attemptSteps moment layer r.outbox r.supply.next.1 e) := by
  obtain ⟨o, supply, handoffs, resent, failures⟩ := r
  unfold attempt attemptSteps
  cases he : o.sender.encrypt moment supply.next.1 (layer.reply e.trackingId) e.explicit
    e.trackingId e.cloves with
  | mk result s =>
    have made := act_resending moment layer he
    cases result with
    | error e =>
      simp only [he]
      exact (List.append_nil _).symm
    | ok m =>
      have carried := signed_handOff
        ({ o with sender := s }.registerAcks e.trackingId m.confirmations) layer m
      rw [leases_registerAcks] at carried
      simp only [he, signed, sign?, made, act_register, Option.toList_none, List.nil_append, carried]
      split <;> simp

theorem signs_round (r : Round) (es : List Outstanding) :
    (es.foldl (attempt moment layer) r).handoffs.reverse.flatMap Handoff.signs =
      r.handoffs.reverse.flatMap Handoff.signs ++ r.outbox.signed (roundSteps moment layer r es) := by
  induction es generalizing r with
  | nil => exact (List.append_nil _).symm
  | cons e es ih =>
    rw [List.foldl_cons, ih, signs_attempt, roundSteps, signed_append, attempt_eq_perform,
      List.append_assoc]

theorem silent_beginSteps (now : Nat) : ∀ step ∈ o.beginSteps now, step.Silent := by
  intro step h
  simp only [beginSteps, List.mem_append, List.mem_cons, List.not_mem_nil, List.mem_map] at h
  obtain (rfl | rfl | h) | ⟨e, -, rfl⟩ | ⟨e, -, rfl⟩ := h <;> first | exact h.elim | trivial

theorem silent_endSteps (now : Nat) (resent : List UInt32) :
    ∀ step ∈ o.endSteps now resent, step.Silent := by
  intro step h
  simp only [endSteps, List.mem_append, List.mem_singleton, List.mem_map] at h
  obtain ⟨e, -, rfl⟩ | rfl := h <;> trivial

theorem signs_maintain (supply : Supply) :
    o.signs (.maintain moment supply layer) = o.signed (o.maintainSteps moment layer supply) := by
  have round := signs_round moment layer (o.opening supply moment.instant) (o.due moment.instant)
  have handoffs : (o.maintain moment supply layer).2.1 =
      (o.attempted moment layer supply).handoffs.reverse := by rw [maintain_eq]
  rw [maintainSteps, signed_append, signed_append, ← o.opening_eq_perform supply,
    signed_of_silent o (o.silent_beginSteps _), signed_of_silent _ (o.silent_endSteps _ _),
    List.append_nil, List.nil_append]
  show (o.maintain moment supply layer).2.1.flatMap Handoff.signs = _
  rw [handoffs]
  exact round

/-- What an event shows is what its steps show. -/
theorem signs_eq_signed (e : Event) : o.signs e = o.signed (o.steps e) := by
  cases e with
  | send moment d layer explicit cloves => exact o.signs_send moment layer d explicit cloves
  | maintain moment supply layer => exact o.signs_maintain moment layer supply
  | status ackId =>
    show (o.deliveryStatus ackId).1.trackingId.toList.map .confirmed = o.signed [.status ackId]
    rw [signed, sign?, deliveryStatus_fst]
    cases o.confirmed? ackId <;> rfl
  | leases | clear | session | front => rfl

end Steps

section Gone

/-- The steps that neither number a send nor enter one. -/
def Step.EntersNone : Step → Prop
  | .number | .track _ => False
  | _ => True

/-- The steps that moreover leave all of a send but its status ids. -/
def Step.Keeps : Step → Prop
  | .number | .track _ | .settle .. => False
  | _ => True

theorem Step.Keeps.entersNone {step : Step} (h : step.Keeps) : step.EntersNone := by
  cases step <;> trivial

variable {o : Outbox} {T : UInt32} {steps : List Step}

theorem nextId_forget (o : Outbox) (trackingId : UInt32) : (o.forget trackingId).nextId = o.nextId := by
  unfold forget
  split <;> rfl

theorem nextId_act {step : Step} (old : step.EntersNone) : (o.act step).nextId = o.nextId := by
  cases step with
  | number | track => exact old.elim
  | session | carry | settle | tally | leases | empty | front => rfl
  | register trackingId ackIds =>
    rw [act_register, registerAcks]
    split_ifs <;> rfl
  | forget trackingId => exact nextId_forget o trackingId
  | status ackId =>
    rw [act, deliveryStatus_eq]
    cases o.acks.find? ackId with
    | none => rfl
    | some trackingId => exact nextId_forget _ trackingId

theorem nextId_perform (old : ∀ step ∈ steps, step.EntersNone) :
    (o.perform steps).nextId = o.nextId := by
  induction steps generalizing o with
  | nil => rfl
  | cons step steps ih =>
    obtain ⟨first, rest⟩ := List.forall_mem_cons.mp old
    rw [perform_cons, ih rest, nextId_act first]

theorem Keyed.absent_act (h : o.Keyed) {step : Step} (old : step.EntersNone)
    (gone : o.entries.find? T = none) : (o.act step).entries.find? T = none := by
  cases step with
  | number | track => exact old.elim
  | session | carry | tally | leases => exact gone
  | register trackingId ackIds =>
    rw [act_register, find?_entries_registerAcks, gone]
    simp
  | status ackId => rw [Outbox.act, find?_entries_deliveryStatus, gone, ite_self]
  | forget trackingId => rw [Outbox.act, find?_entries_forget, gone, ite_self]
  | settle now resent e =>
    rw [Outbox.act, find?_entries_settle, gone]
    simp
  | empty => rfl
  | front i => exact (h.distinct.find?_front i T).trans gone

theorem Keyed.absent_perform (h : o.Keyed) (old : ∀ step ∈ steps, step.EntersNone)
    (gone : o.entries.find? T = none) : (o.perform steps).entries.find? T = none := by
  induction steps generalizing o with
  | nil => exact gone
  | cons step steps ih =>
    obtain ⟨first, rest⟩ := List.forall_mem_cons.mp old
    exact ih (h.act step) rest (h.absent_act first gone)

/-- A send that is confirmed was there, and is forgotten at once. -/
theorem Keyed.confirmed_cases (h : o.Keyed) {step : Step}
    (confirmed : o.sign? step = some (.confirmed T)) :
    o.entries.find? T ≠ none ∧ (o.act step).entries.find? T = none := by
  cases step with
  | status ackId =>
    obtain ⟨e, he, same⟩ := Option.map_eq_some_iff.mp confirmed
    obtain ⟨U, mapped, found⟩ := Option.bind_eq_some_iff.mp he
    obtain rfl := h.keyed U e found
    obtain rfl := Sign.confirmed.inj same
    rw [found, Outbox.act, find?_entries_deliveryStatus, if_pos mapped]
    exact ⟨Option.some_ne_none e, rfl⟩
  | _ => cases confirmed

theorem Keyed.confirmed_perform (h : o.Keyed) (old : ∀ step ∈ steps, step.EntersNone)
    (confirmed : .confirmed T ∈ o.signed steps) :
    o.entries.find? T ≠ none ∧ (o.perform steps).entries.find? T = none := by
  induction steps generalizing o with
  | nil => cases confirmed
  | cons step steps ih =>
    obtain ⟨first, rest⟩ := List.forall_mem_cons.mp old
    rw [signed, List.mem_append, Option.mem_toList] at confirmed
    rcases confirmed with now | later
    · obtain ⟨there, gone⟩ := h.confirmed_cases now
      exact ⟨there, (h.act step).absent_perform rest gone⟩
    · obtain ⟨there, gone⟩ := ih (h.act step) rest later
      exact ⟨fun absent => there (h.absent_act first absent), gone⟩

theorem keeps_handOffSteps (layer : TunnelLayer) (shipment : Shipment) :
    ∀ step ∈ handOffSteps layer shipment, step.Keeps := by
  intro step h
  simp only [handOffSteps, List.mem_cons, List.mem_map] at h
  obtain rfl | ⟨id, -, rfl⟩ := h <;> trivial

theorem keeps_roundSteps (moment : Moment) (layer : TunnelLayer) (r : Round)
    (es : List Outstanding) : ∀ step ∈ roundSteps moment layer r es, step.Keeps := by
  induction es generalizing r with
  | nil => exact fun step h => (List.not_mem_nil h).elim
  | cons e es ih =>
    intro step h
    rw [roundSteps, List.mem_append, attemptSteps, List.mem_cons] at h
    rcases h with (rfl | h) | h
    · trivial
    · split at h
      · rcases List.mem_cons.mp h with rfl | h
        · trivial
        · exact keeps_handOffSteps _ _ step h
      · cases h
    · exact ih _ step h

theorem keeps_beginSteps (o : Outbox) (now : Nat) : ∀ step ∈ o.beginSteps now, step.Keeps := by
  intro step h
  simp only [beginSteps, List.mem_append, List.mem_cons, List.not_mem_nil, List.mem_map] at h
  obtain (rfl | rfl | h) | ⟨e, -, rfl⟩ | ⟨e, -, rfl⟩ := h <;> first | exact h.elim | trivial

theorem entersNone_maintainSteps (o : Outbox) (moment : Moment) (supply : Supply)
    (layer : TunnelLayer) : ∀ step ∈ o.maintainSteps moment layer supply, step.EntersNone := by
  intro step h
  simp only [maintainSteps, endSteps, List.mem_append, List.mem_singleton, List.mem_map] at h
  rcases h with h | h | ⟨e, -, rfl⟩ | rfl
  · exact (o.keeps_beginSteps _ step h).entersNone
  · exact (keeps_roundSteps _ _ _ _ step h).entersNone
  · trivial
  · trivial

/-- The steps of a hand-over. -/
def Step.HandsOver : Step → Prop
  | .carry _ | .status _ | .forget _ => True
  | _ => False

theorem Step.HandsOver.keeps {step : Step} (h : step.HandsOver) : step.Keeps := by
  cases step <;> trivial

theorem handsOver_dispatch (layer : TunnelLayer) (shipment : Shipment) (T : UInt32) (refused : Bool) :
    ∀ step ∈ handOffSteps layer shipment ++ (if refused then [Step.forget T] else []),
      step.HandsOver := by
  intro step h
  simp only [handOffSteps, List.cons_append, List.mem_cons, List.mem_append, List.mem_map] at h
  rcases h with rfl | ⟨id, -, rfl⟩ | h
  · trivial
  · trivial
  · split_ifs at h
    · rw [List.mem_singleton.mp h]
      trivial
    · cases h

/-- A send that is tracked enters itself before anything is handed over. -/
theorem sendSteps_cases (o : Outbox) (moment : Moment) (d : Draw) (layer : TunnelLayer)
    (explicit : Bool) (cloves : List Clove) :
    ∃ rest, (∀ step ∈ rest, step.HandsOver) ∧
      (o.sendSteps moment d layer explicit cloves =
          [.number, .session (o.sending moment d layer explicit cloves)] ++ rest ∨
      ∃ m s, o.sender.encrypt moment d (layer.reply o.nextId) explicit o.nextId cloves = (.ok m, s) ∧
        needsTracking explicit m ∧
        o.sendSteps moment d layer explicit cloves =
          [.number, .session (o.sending moment d layer explicit cloves),
            .track (entryOf o.nextId moment explicit cloves m)] ++ rest) := by
  rw [sendSteps]
  cases he : o.sender.encrypt moment d (layer.reply o.nextId) explicit o.nextId cloves with
  | mk result s =>
    cases result with
    | error e => exact ⟨[], by simp, .inl rfl⟩
    | ok m =>
      let refused := !(layer.carry ⟨o.leases, m⟩).result.isOk && needsTracking explicit m
      refine ⟨_, handsOver_dispatch layer ⟨o.leases, m⟩ o.nextId refused, ?_⟩
      cases tracked : needsTracking explicit m with
      | false =>
        left
        cases hr : (layer.carry ⟨o.leases, m⟩).result <;> simp [dispatchSteps, refused, tracked, hr]
      | true =>
        refine .inr ⟨m, s, rfl, tracked, ?_⟩
        cases hr : (layer.carry ⟨o.leases, m⟩).result <;>
          simp [dispatchSteps, refused, tracked, hr, Except.isOk, Except.toBool]

/-- A send enters at most itself, and does so before anything is handed over. -/
theorem sendSteps_split (o : Outbox) (moment : Moment) (d : Draw) (layer : TunnelLayer)
    (explicit : Bool) (cloves : List Clove) :
    ∃ front rest, o.sendSteps moment d layer explicit cloves = front ++ rest ∧
      (∀ step ∈ front, step.Silent) ∧ (∀ step ∈ rest, step.EntersNone) ∧
      (o.perform front).nextId = o.nextId + 1 ∧
      ∀ T, T ≠ o.nextId → (o.perform front).entries.find? T = o.entries.find? T := by
  obtain ⟨rest, handed, parts | ⟨m, s, -, -, parts⟩⟩ :=
    o.sendSteps_cases moment d layer explicit cloves
  · refine ⟨_, rest, parts, by simp [Step.Silent], fun step h => (handed step h).keeps.entersNone,
      nextId_numbered _ _, fun T _ => ?_⟩
    rw [entries_numbered]
  · refine ⟨_, rest, parts, by simp [Step.Silent], fun step h => (handed step h).keeps.entersNone,
      nextId_entered _ _ _, fun T hT => ?_⟩
    exact (find?_entries_entered ..).trans (if_neg hT)

/-- Whether an event is a send of the outbox. -/
def Event.isSend : Event → Bool
  | .send .. => true
  | _ => false

theorem countP_isSend_cons (e : Event) (es : List Event) :
    (e :: es).countP Event.isSend = [e].countP Event.isSend + es.countP Event.isSend := by
  rw [← List.countP_append, List.singleton_append]

theorem steps_split (o : Outbox) (e : Event) :
    ∃ front rest, o.steps e = front ++ rest ∧ (∀ step ∈ front, step.Silent) ∧
      (∀ step ∈ rest, step.EntersNone) ∧
      (o.perform front).nextId = (if e.isSend then o.nextId + 1 else o.nextId) ∧
      ∀ T, (e.isSend → T ≠ o.nextId) → (o.perform front).entries.find? T = o.entries.find? T := by
  have whole (old : ∀ step ∈ o.steps e, step.EntersNone) (quiet : e.isSend = false) :
      ∃ front rest, o.steps e = front ++ rest ∧ (∀ step ∈ front, step.Silent) ∧
        (∀ step ∈ rest, step.EntersNone) ∧
        (o.perform front).nextId = (if e.isSend then o.nextId + 1 else o.nextId) ∧
        ∀ T, (e.isSend → T ≠ o.nextId) → (o.perform front).entries.find? T = o.entries.find? T := by
    refine ⟨[], o.steps e, rfl, by simp, old, ?_, fun _ _ => rfl⟩
    rw [quiet]
    rfl
  cases e with
  | send moment d layer explicit cloves =>
    obtain ⟨front, rest, parts, silent, old, nextId, same⟩ :=
      o.sendSteps_split moment d layer explicit cloves
    exact ⟨front, rest, parts, silent, old, nextId, fun T other => same T (other rfl)⟩
  | maintain moment supply layer => exact whole (o.entersNone_maintainSteps moment supply layer) rfl
  | status | leases | clear | session | front => exact whole (by simp [steps, Step.EntersNone]) rfl

end Gone

section Handed

variable {o : Outbox} {T : UInt32}

theorem trackingId_encrypt {s t : Sender} {moment : Moment} {d : Draw} {reply : Option ReplyTunnel}
    {explicit : Bool} {trackingId : UInt32} {cloves : List Clove} {m : Sealed}
    (h : s.encrypt moment d reply explicit trackingId cloves = (.ok m, t)) :
    m.trackingId = trackingId := by
  simp only [Sender.encrypt] at h
  split at h
  · cases h
  · split at h
    · cases h
    · split at h
      · cases h
      · cases h
        rfl

/-- The tracking id of what a step hands over. -/
def Step.handed? : Step → Option UInt32
  | .carry shipment => some shipment.message.trackingId
  | _ => none

theorem handed_signed (o : Outbox) (steps : List Step) :
    (o.signed steps).filterMap Sign.handed? = steps.filterMap Step.handed? := by
  induction steps generalizing o with
  | nil => rfl
  | cons step steps ih =>
    rw [signed, List.filterMap_append, ih, List.filterMap_cons]
    cases step with
    | status ackId =>
      rw [sign?]
      cases o.confirmed? ackId <;> rfl
    | _ => rfl

theorem handed_of_silent {steps : List Step} (silent : ∀ step ∈ steps, step.Silent) :
    steps.filterMap Step.handed? = [] := by
  refine List.filterMap_eq_nil_iff.mpr fun step h => ?_
  have silent := silent step h
  cases step <;> first | rfl | exact silent.elim

theorem handed_handOffSteps (layer : TunnelLayer) (shipment : Shipment) :
    (handOffSteps layer shipment).filterMap Step.handed? = [shipment.message.trackingId] := by
  have reported : ((layer.carry shipment).reported.map Step.status).filterMap Step.handed? = [] := by
    simp [List.filterMap_map, Function.comp_def, Step.handed?]
  rw [handOffSteps, List.filterMap_cons, reported]
  rfl

/-- A round hands each of its sends over at most once, in their order. -/
theorem handed_roundSteps (moment : Moment) (layer : TunnelLayer) (r : Round)
    (es : List Outstanding) : ((roundSteps moment layer r es).filterMap Step.handed?).Sublist
      (es.map Outstanding.trackingId) := by
  induction es generalizing r with
  | nil => exact List.Sublist.refl _
  | cons e es ih =>
    rw [roundSteps, List.filterMap_append, List.map_cons, ← List.singleton_append]
    refine List.Sublist.append ?_ (ih _)
    rw [attemptSteps, List.filterMap_cons]
    cases he : r.outbox.sender.encrypt moment r.supply.next.1 (layer.reply e.trackingId) e.explicit
      e.trackingId e.cloves with
    | mk result s =>
      cases result with
      | error f => exact List.nil_sublist _
      | ok m =>
        simp only [Step.handed?, List.filterMap_cons]
        rw [handed_handOffSteps, trackingId_encrypt he]

theorem handed_maintainSteps (o : Outbox) (moment : Moment) (supply : Supply) (layer : TunnelLayer) :
    ((o.maintainSteps moment layer supply).filterMap Step.handed?).Sublist
      ((o.due moment.instant).map Outstanding.trackingId) := by
  rw [maintainSteps, List.filterMap_append, List.filterMap_append,
    handed_of_silent (o.silent_beginSteps _), handed_of_silent (o.silent_endSteps _ _),
    List.nil_append, List.append_nil]
  exact handed_roundSteps moment layer _ _

theorem handed_sendSteps (o : Outbox) (moment : Moment) (d : Draw) (layer : TunnelLayer)
    (explicit : Bool) (cloves : List Clove) :
    ((o.sendSteps moment d layer explicit cloves).filterMap Step.handed?).Sublist [o.nextId] := by
  rw [sendSteps, List.filterMap_cons, List.filterMap_cons]
  cases he : o.sender.encrypt moment d (layer.reply o.nextId) explicit o.nextId cloves with
  | mk result s =>
    cases result with
    | error e => exact List.nil_sublist _
    | ok m =>
      have once : (o.dispatchSteps moment layer explicit cloves m).filterMap Step.handed? =
          [m.trackingId] := by
        cases hr : (layer.carry ⟨o.leases, m⟩).result <;> cases ht : needsTracking explicit m <;>
          simp only [dispatchSteps, hr, ht, List.filterMap_append, handed_handOffSteps] <;> rfl
      simp only [Step.handed?, once, trackingId_encrypt he]
      exact List.Sublist.refl _

/-- Only a new send and sends that are due are handed over. -/
theorem handed_cases {e : Event} (h : .handed T ∈ o.signs e) :
    e.isSend ∧ T = o.nextId ∨ ∃ moment supply layer, e = .maintain moment supply layer ∧
      T ∈ (o.due moment.instant).map Outstanding.trackingId := by
  rw [signs_eq_signed] at h
  have mem : T ∈ (o.steps e).filterMap Step.handed? := by
    rw [← handed_signed o]
    exact List.mem_filterMap.mpr ⟨_, h, rfl⟩
  cases e with
  | send moment d layer explicit cloves =>
    exact .inl ⟨rfl, List.mem_singleton.mp ((handed_sendSteps ..).subset mem)⟩
  | maintain moment supply layer =>
    exact .inr ⟨moment, supply, layer, rfl, (handed_maintainSteps ..).subset mem⟩
  | status | leases | clear | session | front => simp [steps, Step.handed?] at mem

end Handed

section Events

variable {o : Outbox} {T : UInt32}

theorem Keyed.after (h : o.Keyed) (e : Event) : (o.after e).Keyed := by
  rw [after_eq_perform]
  exact h.perform _

theorem nextId_after (o : Outbox) (e : Event) :
    (o.after e).nextId = if e.isSend then o.nextId + 1 else o.nextId := by
  obtain ⟨front, rest, parts, -, old, nextId, -⟩ := o.steps_split e
  rw [after_eq_perform, parts, perform_append, nextId_perform old, nextId]

/-- A send that is not there comes in only with its own send. -/
theorem Keyed.absent_after (h : o.Keyed) (gone : o.entries.find? T = none) {e : Event}
    (other : e.isSend → T ≠ o.nextId) : (o.after e).entries.find? T = none := by
  obtain ⟨front, rest, parts, -, old, -, same⟩ := o.steps_split e
  rw [after_eq_perform, parts, perform_append]
  exact (h.perform front).absent_perform old ((same T other).trans gone)

/-- What an event confirms was there or is its own send, and is gone after it. -/
theorem Keyed.confirmed_after (h : o.Keyed) {e : Event} (confirmed : .confirmed T ∈ o.signs e) :
    (o.entries.find? T ≠ none ∨ e.isSend ∧ T = o.nextId) ∧ (o.after e).entries.find? T = none := by
  obtain ⟨front, rest, parts, silent, old, -, same⟩ := o.steps_split e
  rw [signs_eq_signed, parts, signed_append, signed_of_silent o silent, List.nil_append] at confirmed
  rw [after_eq_perform, parts, perform_append]
  obtain ⟨there, gone⟩ := (h.perform front).confirmed_perform old confirmed
  refine ⟨?_, gone⟩
  by_cases own : e.isSend ∧ T = o.nextId
  · exact .inr own
  · exact .inl (same T (not_and.mp own) ▸ there)

end Events

section Run

variable {o : Outbox} {T : UInt32}

/-- `n` sends have been made: the tracking ids up to `n` are used up. -/
structure Numbered (o : Outbox) (n : Nat) : Prop extends Keyed o where
  nextId : o.nextId = .ofNat (n + 1)
  past : ∀ T, o.entries.find? T ≠ none → T.toNat ≤ n

namespace Numbered

variable {n : Nat}

theorem new (s : Sender) : (Outbox.new s).Numbered 0 where
  toKeyed := .new s
  nextId := rfl
  past _ h := absurd rfl h

theorem toNat_nextId (h : o.Numbered n) (few : n + 1 < 2 ^ 32) : o.nextId.toNat = n + 1 := by
  rw [h.nextId]
  exact UInt32.toNat_ofNat_of_lt few

/-- A tracking id that has been given out is not given out again. -/
theorem ne_nextId (h : o.Numbered n) {e : Event} (few : n + [e].countP Event.isSend < 2 ^ 32)
    (past : T.toNat ≤ n) : e.isSend → T ≠ o.nextId := by
  intro send same
  have one : [e].countP Event.isSend = 1 := by simp [send]
  have next := h.toNat_nextId (by omega)
  rw [← same] at next
  omega

theorem after (h : o.Numbered n) (e : Event) :
    (o.after e).Numbered (n + [e].countP Event.isSend) where
  toKeyed := h.toKeyed.after e
  nextId := by
    rw [nextId_after, h.nextId]
    cases he : e.isSend with
    | false => simp [he]
    | true => simp [he]
  past T hT := by
    by_contra late
    refine hT (h.toKeyed.absent_after ?_ fun send same => ?_)
    · by_contra there
      have := h.past T there
      omega
    · have wrapped : T.toNat ≤ n + 1 := by
        rw [same, h.nextId, UInt32.toNat_ofNat']
        exact Nat.mod_le _ _
      simp [send] at late
      omega

theorem toNat_of_confirmed (h : o.Numbered n) {e : Event} (confirmed : .confirmed T ∈ o.signs e) :
    T.toNat ≤ n + [e].countP Event.isSend := by
  obtain ⟨there | ⟨send, rfl⟩, -⟩ := h.confirmed_after confirmed
  · exact (h.past T there).trans (Nat.le_add_right _ _)
  · have one : [e].countP Event.isSend = 1 := by simp [send]
    rw [one, h.nextId, UInt32.toNat_ofNat']
    exact Nat.mod_le _ _

theorem run (h : o.Numbered n) (es : List Event) :
    (o.run es).Numbered (n + es.countP Event.isSend) := by
  induction es generalizing o n with
  | nil => exact h
  | cons e es ih =>
    have next := ih (h.after e)
    rwa [Nat.add_assoc, ← List.countP_append] at next

/-- A send that has gone is not handed over again. -/
theorem not_handed (h : o.Numbered n) {es : List Event} (few : n + es.countP Event.isSend < 2 ^ 32)
    (old : T.toNat ≤ n) (gone : o.entries.find? T = none) : .handed T ∉ o.signsIn es := by
  induction es generalizing o n with
  | nil => exact List.not_mem_nil
  | cons e es ih =>
    have count := countP_isSend_cons e es
    have other : e.isSend → T ≠ o.nextId := h.ne_nextId (by omega) old
    rw [signsIn, List.mem_append, not_or]
    refine ⟨fun handed => ?_, ih (h.after e) (by omega) (by omega) (h.toKeyed.absent_after gone other)⟩
    rcases handed_cases handed with ⟨send, same⟩ | ⟨moment, supply, layer, -, due⟩
    · exact other send same
    · obtain ⟨x, hx, rfl⟩ := List.mem_map.mp due
      rw [h.toKeyed.due_eq_fated] at hx
      rw [h.mem_values_iff.mp (mem_fated.mp hx).1] at gone
      cases gone

end Numbered

theorem numbered_run (s : Sender) (es : List Event) :
    ((Outbox.new s).run es).Numbered (es.countP Event.isSend) := by
  have run := (Numbered.new s).run es
  rwa [Nat.zero_add] at run

theorem count_handed (l : List Sign) :
    l.count (.handed T) = (l.filterMap Sign.handed?).count T := by
  induction l with
  | nil => rfl
  | cons sign l ih =>
    cases sign with
    | handed U => simp [Sign.handed?, List.count_cons, ih]
    | confirmed U => simp [Sign.handed?, List.filterMap_cons, ih]

/-- An event hands a send over at most once. -/
theorem Keyed.count_handed_le (h : o.Keyed) (e : Event) : (o.signs e).count (.handed T) ≤ 1 := by
  rw [signs_eq_signed, count_handed, handed_signed]
  cases e with
  | send moment d layer explicit cloves =>
    exact ((handed_sendSteps o moment d layer explicit cloves).count_le T).trans
      (List.nodup_iff_count_le_one.mp (List.nodup_singleton _) T)
  | maintain moment supply layer =>
    exact ((handed_maintainSteps o moment supply layer).count_le T).trans
      (List.nodup_iff_count_le_one.mp (h.nodup_due moment.instant) T)
  | status | leases | clear | session | front => exact Nat.zero_le 1

/-- A message is handed over before any of its own ids can come back. -/
theorem not_handed_of_handoff {h : Handoff} {xs ys : List Sign}
    (split : h.signs = xs ++ .confirmed T :: ys) (U : UInt32) : .handed U ∉ ys := by
  intro mem
  cases xs with
  | nil => cases (List.cons.inj split).1
  | cons x xs =>
    have tail := (List.cons.inj split).2
    have : Sign.handed U ∈ (h.outcomes.filterMap StatusOutcome.trackingId).map Sign.confirmed := by
      rw [tail]
      exact List.mem_append_right _ (List.mem_cons_of_mem _ mem)
    obtain ⟨_, -, absurd⟩ := List.mem_map.mp this
    cases absurd

/-- Once a send is confirmed it is handed over at most once more: in the same round of maintenance, if
the round began with the send due and the tunnel layer passed the id on before its turn came. -/
theorem confirmed_send (remote : Identity) (remoteKey : ElGamal.PublicKey) (settings : Settings)
    (past : List Event) (e : Event) (rest : List Event)
    (few : (past ++ e :: rest).countP Event.isSend < 2 ^ 32) (T : UInt32) (xs ys : List Sign) :
    let o := (Outbox.new (.new remote remoteKey settings)).run past
    o.signs e = xs ++ .confirmed T :: ys →
      .handed T ∉ (o.after e).signsIn rest ∧ (o.signs e).count (.handed T) ≤ 1 ∧
        (.handed T ∈ ys → ∃ moment supply layer, e = .maintain moment supply layer ∧
          T ∈ (o.fated moment.instant .goesAgain).map Outstanding.trackingId) := by
  intro o shown
  have numbered : o.Numbered (past.countP Event.isSend) := numbered_run _ past
  have confirmed : .confirmed T ∈ o.signs e := by simp [shown]
  have few : past.countP Event.isSend + [e].countP Event.isSend + rest.countP Event.isSend < 2 ^ 32 := by
    rw [List.countP_append, countP_isSend_cons] at few
    omega
  refine ⟨(numbered.after e).not_handed few (numbered.toNat_of_confirmed confirmed)
    (numbered.confirmed_after confirmed).2, numbered.count_handed_le e, fun again => ?_⟩
  have handed : .handed T ∈ o.signs e := by simp [shown, again]
  rcases handed_cases handed with ⟨send, -⟩ | ⟨moment, supply, layer, rfl, due⟩
  · cases e with
    | send moment d layer explicit cloves =>
      change (o.send moment d layer explicit cloves).2.1.toList.flatMap Handoff.signs = _ at shown
      cases hh : (o.send moment d layer explicit cloves).2.1 with
      | none => simp [hh] at shown
      | some h =>
        rw [hh, Option.toList_some, List.flatMap_singleton] at shown
        exact absurd again (not_handed_of_handoff shown T)
    | _ => cases send
  · exact ⟨moment, supply, layer, rfl, numbered.toKeyed.due_eq_fated moment.instant ▸ due⟩

-- The tunnel layer passes the id of the second send on while it carries the first.
example :
    let carry (shipment : Shipment) : Receipt :=
      ⟨.ok (), if shipment.message.trackingId = 1 then [3] else []⟩
    let o := (Outbox.new (.new ⟨.ofNat 32 1⟩ ⟨.ofNat 256 2⟩ {})).run
      [.send ⟨0, 0⟩ (.numbered 0) openLayer false [], .send ⟨0, 0⟩ (.numbered 1) openLayer false []]
    o.signs (.maintain ⟨15000000000, 0⟩ ⟨fun n => .numbered (n + 2), 0⟩ ⟨openLayer.reply, carry⟩) =
      [.handed 1, .confirmed 2, .handed 2] := by
  decide +kernel

end Run

end Outbox

end GarlicRouting
