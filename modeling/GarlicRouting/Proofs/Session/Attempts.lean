import GarlicRouting.Proofs.Session.Tracking
import Mathlib

/-! The attempts at a send: how far apart they are, how many there can be, and what they hand over. -/
namespace GarlicRouting.Outbox

section Entries

variable {o : Outbox} {T : UInt32} {e : Outstanding}

/-- Steps that are no attempts change nothing of a send but its status ids. -/
theorem Keyed.entry_of_keeps (h : o.Keyed) {steps : List Step} (keeps : ∀ step ∈ steps, step.Keeps)
    (he : (o.perform steps).entries.find? T = some e) :
    ∃ old ackIds, o.entries.find? T = some old ∧ e = { old with ackIds } := by
  induction steps generalizing o with
  | nil => exact ⟨e, e.ackIds, he, rfl⟩
  | cons step steps ih =>
    obtain ⟨first, rest⟩ := List.forall_mem_cons.mp keeps
    obtain ⟨mid, ackIds, hmid, rfl⟩ := ih (h.act step) rest he
    rcases h.entry_of_act hmid with rfl | ⟨old, there, leaves⟩
    · exact first.elim
    · cases leaves with
      | same => exact ⟨mid, ackIds, there, rfl⟩
      | registered => exact ⟨old, ackIds, there, rfl⟩
      | settled => exact first.elim

/-- What is there after a send was there before it, or is the new send. -/
theorem Keyed.entry_of_send (h : o.Keyed) (moment : Moment) (d : Draw) (layer : TunnelLayer)
    (explicit : Bool) (cloves : List Clove)
    (he : (o.after (.send moment d layer explicit cloves)).entries.find? T = some e) :
    ∃ old ackIds, e = { old with ackIds } ∧ (o.entries.find? T = some old ∨
      T = o.nextId ∧ ∃ m, old = entryOf o.nextId moment explicit cloves m) := by
  rw [after_eq_perform, steps] at he
  obtain ⟨rest, handed, parts⟩ := o.sendSteps_cases moment d layer explicit cloves
  have keeps : ∀ step ∈ rest, step.Keeps := fun step mem => (handed step mem).keeps
  rcases parts with parts | ⟨m, s, -, -, parts⟩
  · rw [parts, perform_append] at he
    obtain ⟨old, ackIds, there, same⟩ := (h.perform _).entry_of_keeps keeps he
    rw [entries_numbered] at there
    exact ⟨old, ackIds, same, .inl there⟩
  · rw [parts, perform_append] at he
    obtain ⟨old, ackIds, there, same⟩ := (h.perform _).entry_of_keeps keeps he
    rw [find?_entries_entered] at there
    split_ifs at there with own
    · exact ⟨old, ackIds, same, .inr ⟨own, m, (Option.some.inj there).symm⟩⟩
    · exact ⟨old, ackIds, same, .inl there⟩

/-- A round of maintenance settles the attempts that it makes. -/
theorem Keyed.entry_of_maintain (h : o.Keyed) (moment : Moment) (layer : TunnelLayer)
    (supply : Supply) (he : (o.maintain moment supply layer).2.2.2.entries.find? T = some e) :
    ∃ old ackIds, o.entries.find? T = some old ∧
      e = if T ∈ (o.due moment.instant).map Outstanding.trackingId then
        { old with
          ackIds
          lastSend := moment.instant
          resends := old.resends + if T ∈ (o.attempted moment layer supply).resent then 1 else 0 }
      else { old with ackIds } := by
  have during : (o.attempted moment layer supply).outbox =
      o.perform (o.beginSteps moment.instant ++ roundSteps moment layer
        (o.opening supply moment.instant) (o.due moment.instant)) := by
    rw [perform_append, ← o.opening_eq_perform supply, ← round_eq_perform]
    rfl
  have keyed : (o.attempted moment layer supply).outbox.Keyed := by
    rw [during]
    exact h.perform _
  have kept {x : Outstanding} (hx : (o.attempted moment layer supply).outbox.entries.find? T = some x) :
      ∃ old ackIds, o.entries.find? T = some old ∧ x = { old with ackIds } := by
    rw [during] at hx
    apply h.entry_of_keeps _ hx
    intro step mem
    rcases List.mem_append.mp mem with mem | mem
    · exact o.keeps_beginSteps _ step mem
    · exact keeps_roundSteps _ _ _ _ step mem
  rw [maintain_eq] at he
  have settled := (find?_entries_foldl_settle keyed moment.instant
    (o.attempted moment layer supply).resent (h.nodup_due moment.instant) T).symm.trans he
  by_cases due : T ∈ (o.due moment.instant).map Outstanding.trackingId
  · rw [if_pos due] at settled
    obtain ⟨x, hx, rfl⟩ := Option.map_eq_some_iff.mp settled
    obtain ⟨old, ackIds, there, rfl⟩ := kept hx
    refine ⟨old, ackIds, there, ?_⟩
    rw [if_pos due]
    by_cases resent : T ∈ (o.attempted moment layer supply).resent <;> simp [resent]
  · rw [if_neg due] at settled
    simp only [if_neg due]
    exact kept settled

end Entries

section Attempts

variable {o : Outbox} {T : UInt32}

/-- The tracking id and the time of an encryption. -/
def encryption? : Sender.Event → Option (UInt32 × Nat)
  | .encrypt moment _ _ _ trackingId _ => some (trackingId, moment.instant)
  | _ => none

def Step.attempt? : Step → Option (UInt32 × Nat)
  | .session e => encryption? e
  | _ => none

theorem encryptions_events (steps : List Step) :
    (steps.flatMap Step.events).filterMap encryption? = steps.filterMap Step.attempt? := by
  induction steps with
  | nil => rfl
  | cons step steps ih =>
    rw [List.flatMap_cons, List.filterMap_append, ih, List.filterMap_cons]
    cases step with
    | session e =>
      simp only [Step.events, Step.attempt?, List.filterMap_cons, List.filterMap_nil]
      cases encryption? e <;> rfl
    | number | track | register | carry | status | forget | settle | tally | leases | empty
    | front => rfl

/-- The encryptions that an event of the outbox attempts, in order. -/
def attempts (o : Outbox) : Event → List (UInt32 × Nat)
  | .session _ => []
  | e => (o.steps e).filterMap Step.attempt?

def attemptsIn (o : Outbox) : List Event → List (UInt32 × Nat)
  | [] => []
  | e :: es => o.attempts e ++ (o.after e).attemptsIn es

theorem attempts_of_handsOver {steps : List Step} (handed : ∀ step ∈ steps, step.HandsOver) :
    steps.filterMap Step.attempt? = [] := by
  apply List.filterMap_eq_nil_iff.mpr
  intro step mem
  have handsOver := handed step mem
  cases step <;> first | rfl | exact handsOver.elim

theorem attempts_send (o : Outbox) (moment : Moment) (d : Draw) (layer : TunnelLayer) (explicit : Bool)
    (cloves : List Clove) :
    o.attempts (.send moment d layer explicit cloves) = [(o.nextId, moment.instant)] := by
  show (o.sendSteps moment d layer explicit cloves).filterMap Step.attempt? = _
  obtain ⟨rest, handed, parts | ⟨m, s, -, -, parts⟩⟩ :=
    o.sendSteps_cases moment d layer explicit cloves
  · rw [parts, List.filterMap_append, attempts_of_handsOver handed]
    rfl
  · rw [parts, List.filterMap_append, attempts_of_handsOver handed]
    rfl

theorem attempts_roundSteps (moment : Moment) (layer : TunnelLayer) (r : Round)
    (es : List Outstanding) : (roundSteps moment layer r es).filterMap Step.attempt? =
      es.map fun e => (e.trackingId, moment.instant) := by
  induction es generalizing r with
  | nil => rfl
  | cons e es ih =>
    have once : (attemptSteps moment layer r.outbox r.supply.next.1 e).filterMap Step.attempt? =
        [(e.trackingId, moment.instant)] := by
      rw [attemptSteps, resending, List.filterMap_cons]
      cases r.outbox.sender.encrypt moment r.supply.next.1 (layer.reply e.trackingId) e.explicit
        e.trackingId e.cloves with
      | mk result s =>
        cases result with
        | error f => rfl
        | ok m =>
          have handed : (handOffSteps layer ⟨r.outbox.leases, m⟩).filterMap Step.attempt? = [] := by
            simp [handOffSteps, Step.attempt?]
          simp only [Step.attempt?, encryption?, List.filterMap_cons, handed]
    rw [roundSteps, List.filterMap_append, once, ih]
    rfl

theorem attempts_maintain (o : Outbox) (moment : Moment) (supply : Supply) (layer : TunnelLayer) :
    o.attempts (.maintain moment supply layer) =
      (o.due moment.instant).map fun e => (e.trackingId, moment.instant) := by
  have first : (o.beginSteps moment.instant).filterMap Step.attempt? = [] := by
    apply List.filterMap_eq_nil_iff.mpr
    intro step mem
    simp only [beginSteps, List.mem_append, List.mem_cons, List.not_mem_nil, List.mem_map] at mem
    rcases mem with (rfl | rfl | none) | ⟨e, -, rfl⟩ | ⟨e, -, rfl⟩ <;> first | rfl | exact none.elim
  have last (resent : List UInt32) :
      (o.endSteps moment.instant resent).filterMap Step.attempt? = [] := by
    apply List.filterMap_eq_nil_iff.mpr
    intro step mem
    simp only [endSteps, List.mem_append, List.mem_singleton, List.mem_map] at mem
    rcases mem with ⟨e, -, rfl⟩ | rfl <;> rfl
  show (o.maintainSteps moment layer supply).filterMap Step.attempt? = _
  rw [maintainSteps, List.filterMap_append, List.filterMap_append, first, last, List.append_nil,
    List.nil_append, attempts_roundSteps]

theorem attemptsIn_append (o : Outbox) (es fs : List Event) :
    o.attemptsIn (es ++ fs) = o.attemptsIn es ++ (o.run es).attemptsIn fs := by
  induction es generalizing o with
  | nil => rfl
  | cons e es ih => rw [List.cons_append, attemptsIn, attemptsIn, ih, List.append_assoc, run_cons]

/-- The times of the attempts at one send. -/
def timesOf (T : UInt32) (attempts : List (UInt32 × Nat)) : List Nat :=
  (attempts.filter (·.1 = T)).map Prod.snd

theorem timesOf_append (T : UInt32) (l r : List (UInt32 × Nat)) :
    timesOf T (l ++ r) = timesOf T l ++ timesOf T r := by
  rw [timesOf, List.filter_append, List.map_append]
  rfl

theorem timesOf_eq_nil {l : List (UInt32 × Nat)} (none : T ∉ l.map Prod.fst) : timesOf T l = [] := by
  rw [timesOf, List.map_eq_nil_iff, List.filter_eq_nil_iff]
  intro p mem
  have other : p.1 ≠ T := fun same => none (same ▸ List.mem_map_of_mem mem)
  simpa using other

/-- What is attempted at one time is attempted at that time only. -/
theorem timesOf_map (es : List Outstanding) (now : Nat) :
    timesOf T (es.map fun e => (e.trackingId, now)) =
      List.replicate ((es.map Outstanding.trackingId).count T) now := by
  induction es with
  | nil => rfl
  | cons e es ih =>
    rw [timesOf] at ih ⊢
    rw [List.map_cons, List.map_cons, List.filter_cons, List.count_cons]
    by_cases same : e.trackingId = T <;> simp [same, ih, List.replicate_succ]

/-- The tracking ids of messages that were taken, in order. -/
def delivered (hs : List Handoff) : List UInt32 :=
  (hs.filter Handoff.accepted).map fun h => h.shipment.message.trackingId

theorem delivered_append (l r : List Handoff) : delivered (l ++ r) = delivered l ++ delivered r := by
  rw [delivered, List.filter_append, List.map_append]
  rfl

/-- Nothing is handed over but in an attempt. -/
theorem handed_sublist (o : Outbox) (e : Event) :
    ((o.handoffs e).map fun h => h.shipment.message.trackingId).Sublist
      ((o.attempts e).map Prod.fst) := by
  have shown (hs : List Handoff) : (hs.flatMap Handoff.signs).filterMap Sign.handed? =
      hs.map fun h => h.shipment.message.trackingId := by
    induction hs with
    | nil => rfl
    | cons h hs ih =>
      rw [List.flatMap_cons, List.filterMap_append, ih]
      simp [Handoff.signs, Sign.handed?]
  cases e with
  | send moment d layer explicit cloves =>
    have all := (shown (o.handoffs (.send moment d layer explicit cloves))).symm.trans
      (congrArg (List.filterMap Sign.handed?) (o.signs_send moment layer d explicit cloves))
    rw [all, handed_signed, attempts_send]
    exact o.handed_sendSteps moment d layer explicit cloves
  | maintain moment supply layer =>
    have all := (shown (o.handoffs (.maintain moment supply layer))).symm.trans
      (congrArg (List.filterMap Sign.handed?) (o.signs_maintain moment layer supply))
    rw [all, handed_signed, attempts_maintain, List.map_map]
    exact o.handed_maintainSteps moment supply layer
  | status | leases | clear | session | front => exact List.nil_sublist _

theorem delivered_sublist (o : Outbox) (e : Event) :
    (delivered (o.handoffs e)).Sublist ((o.attempts e).map Prod.fst) :=
  (List.filter_sublist.map _).trans (o.handed_sublist e)

/-- A round counts the sends whose messages were taken. -/
theorem resent_round (moment : Moment) (layer : TunnelLayer) {r : Round}
    (before : r.resent = delivered r.handoffs) (es : List Outstanding) :
    (es.foldl (attempt moment layer) r).resent =
      delivered (es.foldl (attempt moment layer) r).handoffs := by
  induction es generalizing r with
  | nil => exact before
  | cons e es ih =>
    apply ih
    rcases attempt_cases moment layer r e with ⟨same, resent⟩ | ⟨m, s, h, he, made, grown, resent, -⟩
    · rw [same, resent, before]
    · rw [grown, resent, delivered, List.filter_cons]
      split_ifs with accepted
      · rw [List.map_cons, made, trackingId_encrypt he, before]
        rfl
      · exact before

theorem delivered_maintain (o : Outbox) (moment : Moment) (supply : Supply) (layer : TunnelLayer) :
    delivered (o.handoffs (.maintain moment supply layer)) =
      (o.attempted moment layer supply).resent.reverse := by
  have resent := resent_round moment layer (r := o.opening supply moment.instant) rfl
    (o.due moment.instant)
  rw [handoffs, maintain_eq, attempted, resent, delivered, delivered, List.filter_reverse,
    List.map_reverse]

/-- An attempt takes one draw, and comes out as taken or as a failure. -/
theorem count_attempt (moment : Moment) (layer : TunnelLayer) (r : Round) (e : Outstanding) :
    (attempt moment layer r e).supply = r.supply.next.2 ∧
      (attempt moment layer r e).resent.length + (attempt moment layer r e).failures =
        r.resent.length + r.failures + 1 := by
  unfold attempt
  cases he : r.outbox.sender.encrypt moment r.supply.next.1 (layer.reply e.trackingId) e.explicit
    e.trackingId e.cloves with
  | mk result s =>
    cases result with
    | error f =>
      simp only [he, true_and]
      exact (Nat.add_assoc _ _ 1).symm
    | ok m =>
      simp only [he]
      split
      · exact ⟨rfl, Nat.add_right_comm _ _ _⟩
      · exact ⟨rfl, rfl⟩

theorem count_round (moment : Moment) (layer : TunnelLayer) (r : Round) (es : List Outstanding) :
    (es.foldl (attempt moment layer) r).supply =
        { r.supply with used := r.supply.used + es.length } ∧
      (es.foldl (attempt moment layer) r).resent.length +
          (es.foldl (attempt moment layer) r).failures =
        r.resent.length + r.failures + es.length := by
  induction es generalizing r with
  | nil => exact ⟨rfl, rfl⟩
  | cons e es ih =>
    obtain ⟨supply, counted⟩ := count_attempt moment layer r e
    obtain ⟨left, total⟩ := ih (attempt moment layer r e)
    rw [supply] at left
    rw [counted] at total
    have one : r.supply.used + 1 + es.length = r.supply.used + (es.length + 1) := by omega
    rw [List.foldl_cons, List.length_cons, left, total, Supply.next, one]
    exact ⟨rfl, by omega⟩

/-- What a round of maintenance gives back bears these attempts out. It takes a draw for each, reports
each, as resent if its message was taken and as a failure otherwise, and leaves the time of its last
attempt with every send. -/
structure RoundAttested (o : Outbox) (moment : Moment) (supply : Supply) (layer : TunnelLayer)
    (attempts : List (UInt32 × Nat)) : Prop where
  times : ∀ a ∈ attempts, a.2 = moment.instant
  draws : (o.maintain moment supply layer).2.2.1 =
    { supply with used := supply.used + attempts.length }
  taken : (o.maintain moment supply layer).1.resent =
    (delivered (o.maintain moment supply layer).2.1).length
  reported : (o.maintain moment supply layer).1.resent + (o.maintain moment supply layer).1.failures =
    attempts.length
  stamped : ∀ T e, (o.maintain moment supply layer).2.2.2.entries.find? T = some e →
    ∃ old, o.entries.find? T = some old ∧
      e.lastSend = if T ∈ attempts.map Prod.fst then moment.instant else old.lastSend

/-- A round hands over only what the session makes in it. -/
theorem makes_round (moment : Moment) (layer : TunnelLayer) {r : Round}
    (sound : r.outbox.sender.usable.Sound) {es : List Outstanding} {h : Handoff}
    (mem : h ∈ (es.foldl (attempt moment layer) r).handoffs) :
    h ∈ r.handoffs ∨ r.outbox.sender.Makes
      ((roundSteps moment layer r es).flatMap Step.events) h.shipment.message := by
  induction es generalizing r with
  | nil => exact .inl mem
  | cons e es ih =>
    have after : (attempt moment layer r e).outbox.sender = r.outbox.sender.run
        ((attemptSteps moment layer r.outbox r.supply.next.1 e).flatMap Step.events) := by
      rw [attempt_eq_perform, sender_perform]
    have next : (attempt moment layer r e).outbox.sender.usable.Sound := by
      rw [after]
      exact (Sender.frame_run sound _).2
    rw [roundSteps, List.flatMap_append]
    rcases ih next mem with before | later
    · rcases attempt_cases moment layer r e with ⟨same, -⟩ | ⟨m, s, new, he, made, grown, -⟩
      · rw [same] at before
        exact .inl before
      · rw [grown, List.mem_cons] at before
        rcases before with rfl | before
        · right
          apply Sender.Makes.append
          rw [made]
          exact Sender.makes_encrypt sound he _
        · exact .inl before
    · rw [after] at later
      exact .inr (later.prepend sound)

theorem makes_handoffs (sound : o.sender.usable.Sound) {e : Event} {h : Handoff}
    (mem : h ∈ o.handoffs e) :
    o.sender.Makes ((o.steps e).flatMap Step.events) h.shipment.message := by
  cases e with
  | send moment d layer explicit cloves =>
    obtain ⟨s, he⟩ := shipment_send mem
    exact Sender.makes_encrypt sound he _
  | maintain moment supply layer =>
    have opened : (o.opening supply moment.instant).outbox.sender =
        o.sender.run ((o.beginSteps moment.instant).flatMap Step.events) := by
      rw [opening_eq_perform, sender_perform]
    have still : (o.opening supply moment.instant).outbox.sender.usable.Sound := by
      rw [opened]
      exact (Sender.frame_run sound _).2
    rw [handoffs, maintain_eq, List.mem_reverse] at mem
    rcases makes_round moment layer still mem with none | made
    · cases none
    · rw [opened] at made
      rw [steps, maintainSteps, List.flatMap_append, List.flatMap_append]
      exact (made.append _).prepend sound
  | status | leases | clear | session | front => cases mem

/-- What an event leaves behind bears its attempts out: the session goes through these encryptions and
no others, and makes all messages that are handed over in them. -/
structure Attested (o : Outbox) (e : Event) : Prop where
  session : (∀ given, e ≠ .session given) → ∃ given,
    (o.after e).sender = o.sender.run given ∧ given.filterMap encryption? = o.attempts e ∧
      ∀ h ∈ o.handoffs e, o.sender.Makes given h.shipment.message
  handed : ((o.handoffs e).map fun h => h.shipment.message.trackingId).Sublist
    ((o.attempts e).map Prod.fst)
  round : ∀ moment supply layer, e = .maintain moment supply layer →
    o.RoundAttested moment supply layer (o.attempts e)

theorem Keyed.roundAttested (h : o.Keyed) (moment : Moment) (supply : Supply) (layer : TunnelLayer) :
    o.RoundAttested moment supply layer (o.attempts (.maintain moment supply layer)) := by
  obtain ⟨supplied, counted⟩ := count_round moment layer (o.opening supply moment.instant)
    (o.due moment.instant)
  have resent := congrArg List.length (o.delivered_maintain moment supply layer)
  rw [attempts_maintain]
  constructor
  case times =>
    intro a mem
    obtain ⟨e, -, rfl⟩ := List.mem_map.mp mem
    rfl
  case draws =>
    rw [List.length_map, maintain_eq]
    exact supplied
  case taken =>
    rw [List.length_reverse] at resent
    rw [show (o.maintain moment supply layer).2.1 = o.handoffs (.maintain moment supply layer) from rfl,
      resent, maintain_eq]
  case reported =>
    rw [List.length_map, maintain_eq]
    exact counted.trans (Nat.zero_add _)
  case stamped =>
    intro T e he
    obtain ⟨old, ackIds, there, rfl⟩ := h.entry_of_maintain moment layer supply he
    refine ⟨old, there, ?_⟩
    rw [List.map_map, show Prod.fst ∘ (fun e : Outstanding => (e.trackingId, moment.instant)) =
      Outstanding.trackingId from rfl]
    split_ifs <;> rfl

theorem Keyed.attested (h : o.Keyed) (sound : o.sender.usable.Sound) (e : Event) : o.Attested e := by
  constructor
  case session =>
    intro own
    refine ⟨(o.steps e).flatMap Step.events, ?_, ?_, fun _ mem => makes_handoffs sound mem⟩
    · rw [after_eq_perform, sender_perform]
    · rw [encryptions_events]
      cases e with
      | session given => exact absurd rfl (own given)
      | send | maintain | status | leases | clear | front => rfl
  case handed => exact o.handed_sublist e
  case round =>
    rintro moment supply layer rfl
    exact h.roundAttested moment supply layer

end Attempts

section Events

variable {o : Outbox} {T : UInt32}

/-- What an event does to a send: nothing but to its status ids, or it is an attempt, at a send whose
window is open and whose last attempt was an interval ago. -/
theorem Keyed.send_cases (h : o.Keyed) {e : Event} (other : e.isSend → T ≠ o.nextId) :
    timesOf T (o.attempts e) = [] ∧ (delivered (o.handoffs e)).count T = 0 ∧
        (∀ x, (o.after e).entries.find? T = some x →
          ∃ old ackIds, o.entries.find? T = some old ∧ x = { old with ackIds }) ∨
      ∃ now old, timesOf T (o.attempts e) = [now] ∧ o.entries.find? T = some old ∧
        ¬ o.isExpired now old ∧ o.isStale now old ∧
        ∀ x, (o.after e).entries.find? T = some x → ∃ ackIds, x =
          { old with
            ackIds
            lastSend := now
            resends := old.resends + (delivered (o.handoffs e)).count T } := by
  have idle (none : T ∉ (o.attempts e).map Prod.fst) : (delivered (o.handoffs e)).count T = 0 := by
    apply List.count_eq_zero_of_not_mem
    intro mem
    exact none ((o.delivered_sublist e).subset mem)
  cases e with
  | send moment d layer explicit cloves =>
    have none : T ∉ (o.attempts (.send moment d layer explicit cloves)).map Prod.fst := by
      rw [attempts_send]
      simpa using other rfl
    left
    refine ⟨timesOf_eq_nil none, idle none, ?_⟩
    intro x hx
    obtain ⟨old, ackIds, rfl, there | ⟨own, -⟩⟩ := h.entry_of_send moment d layer explicit cloves hx
    · exact ⟨old, ackIds, there, rfl⟩
    · exact absurd own (other rfl)
  | maintain moment supply layer =>
    have ids : (o.attempts (.maintain moment supply layer)).map Prod.fst =
        (o.due moment.instant).map Outstanding.trackingId := by
      rw [attempts_maintain, List.map_map]
      rfl
    by_cases due : T ∈ (o.due moment.instant).map Outstanding.trackingId
    · obtain ⟨old, hold, rfl⟩ := List.mem_map.mp due
      obtain ⟨there, unexpired, stale⟩ := h.entry_of_due hold
      have distinct := h.nodup_due moment.instant
      have once : timesOf old.trackingId (o.attempts (.maintain moment supply layer)) =
          [moment.instant] := by
        rw [attempts_maintain, timesOf_map, distinct.count, if_pos due]
        rfl
      have counted : (delivered (o.handoffs (.maintain moment supply layer))).count old.trackingId =
          if old.trackingId ∈ (o.attempted moment layer supply).resent then 1 else 0 := by
        have single := o.delivered_sublist (.maintain moment supply layer)
        rw [ids] at single
        rw [(distinct.sublist single).count, delivered_maintain]
        simp only [List.mem_reverse]
      right
      refine ⟨moment.instant, old, once, there, unexpired, stale, ?_⟩
      intro x hx
      obtain ⟨same, ackIds, there', rfl⟩ := h.entry_of_maintain moment layer supply hx
      obtain rfl := Option.some.inj (there.symm.trans there')
      rw [if_pos due, counted]
      exact ⟨ackIds, rfl⟩
    · have none : T ∉ (o.attempts (.maintain moment supply layer)).map Prod.fst := by rwa [ids]
      left
      refine ⟨timesOf_eq_nil none, idle none, ?_⟩
      intro x hx
      obtain ⟨old, ackIds, there, rfl⟩ := h.entry_of_maintain moment layer supply hx
      exact ⟨old, ackIds, there, if_neg due⟩
  | status | leases | clear | session | front =>
    left
    refine ⟨rfl, rfl, ?_⟩
    intro x hx
    rw [after_eq_perform] at hx
    apply h.entry_of_keeps _ hx
    simp [steps, Step.Keeps]

end Events

section Spacing

variable {span bound created : Nat}

private theorem add_mul_le {t : Nat} {ts : List Nat}
    (apart : (created :: (ts ++ [t])).Pairwise fun a b => a + span ≤ b) :
    created + (ts.length + 1) * span ≤ t := by
  induction ts generalizing created with
  | nil => simpa using apart
  | cons b ts ih =>
    obtain ⟨first, rest⟩ := List.pairwise_cons.mp apart
    have next : created + span ≤ b := first b List.mem_cons_self
    have later : b + (ts.length + 1) * span ≤ t := ih rest
    rw [List.length_cons, Nat.add_one_mul (ts.length + 1)]
    omega

/-- No more times than fit are apart by a span and within a bound. -/
theorem length_mul_le_of_apart {ts : List Nat}
    (apart : (created :: ts).Pairwise fun a b => a + span ≤ b)
    (within : ∀ t ∈ ts, t ≤ created + bound) : ts.length * span ≤ bound := by
  rcases List.eq_nil_or_concat' ts with rfl | ⟨ts, t, rfl⟩
  · simp
  · have last := add_mul_le apart
    have late := within t (List.mem_append_right _ (List.mem_singleton_self t))
    rw [List.length_append, List.length_singleton]
    omega

end Spacing

section Paced

variable {o : Outbox} {settings : Settings} {T : UInt32} {cloves : List Clove} {created resends n : Nat}
  {again : List Nat}

/-- The attempts at a send so far, the first one at `created` and the others at the times `again`, and
what the window knows of them. -/
structure Paced (o : Outbox) (settings : Settings) (T : UInt32) (cloves : List Clove) (created : Nat)
    (again : List Nat) (resends : Nat) : Prop where
  apart : (created :: again).Pairwise fun a b => a + settings.resendSpan.nanoseconds ≤ b
  within : ∀ t ∈ again, t ≤ created + settings.windowSpan.nanoseconds
  kept : ∀ e, o.entries.find? T = some e → e.created = created ∧ e.cloves = cloves ∧
    e.resends = resends ∧ ∀ t ∈ created :: again, t ≤ e.lastSend

theorem Numbered.paced_send (h : o.Numbered n) (few : n + 1 < 2 ^ 32) (settings : Settings)
    (moment : Moment) (d : Draw) (layer : TunnelLayer) (explicit : Bool) (cloves : List Clove) :
    (o.after (.send moment d layer explicit cloves)).Paced settings o.nextId cloves moment.instant
      [] 0 where
  apart := List.pairwise_singleton _ _
  within t mem := absurd mem List.not_mem_nil
  kept e he := by
    have absent := h.absent_nextId few
    obtain ⟨old, ackIds, rfl, there | ⟨-, m, rfl⟩⟩ :=
      h.toKeyed.entry_of_send moment d layer explicit cloves he
    · rw [absent] at there
      cases there
    · have first : ∀ t ∈ [moment.instant], t ≤ moment.instant := by simp
      exact ⟨rfl, rfl, rfl, first⟩

/-- An attempt comes an interval after all those before it, while the window is open. -/
theorem Paced.after (h : o.Paced settings T cloves created again resends) (keyed : o.Keyed)
    (same : o.sender.settings = settings) (interval : 0 < settings.resendInterval) {e : Event}
    (other : e.isSend → T ≠ o.nextId) :
    (o.after e).Paced settings T cloves created (again ++ timesOf T (o.attempts e))
      (resends + (delivered (o.handoffs e)).count T) := by
  rcases keyed.send_cases other with ⟨none, uncounted, left⟩ |
    ⟨now, old, once, there, unexpired, stale, left⟩
  · rw [none, uncounted, List.append_nil, Nat.add_zero]
    apply Paced.mk h.apart h.within
    intro x hx
    obtain ⟨old, ackIds, there, rfl⟩ := left x hx
    exact h.kept old there
  · obtain ⟨start, same', counted, past⟩ := h.kept old there
    have span : 0 < settings.resendSpan.nanoseconds := by
      simp only [Settings.resendSpan, Span.ofSeconds, Span.nanoseconds]
      omega
    -- Ages are cut off at zero; only because the interval is positive is a stale send in the past.
    have late : old.lastSend + settings.resendSpan.nanoseconds ≤ now := by
      rw [isStale, same, decide_eq_true_eq] at stale
      omega
    have early : now ≤ created + settings.windowSpan.nanoseconds := by
      rw [isExpired, same, decide_eq_true_eq, start] at unexpired
      omega
    rw [once]
    constructor
    case apart =>
      rw [← List.cons_append, List.pairwise_append]
      refine ⟨h.apart, List.pairwise_singleton _ _, ?_⟩
      intro t mem u hu
      have before := past t mem
      have last : u = now := List.mem_singleton.mp hu
      omega
    case within =>
      intro t mem
      rcases List.mem_append.mp mem with before | last
      · exact h.within t before
      · obtain rfl := List.mem_singleton.mp last
        exact early
    case kept =>
      intro x hx
      obtain ⟨ackIds, rfl⟩ := left x hx
      refine ⟨start, same', by rw [counted], ?_⟩
      intro t mem
      rw [← List.cons_append, List.mem_append, List.mem_singleton] at mem
      rcases mem with before | rfl
      · have old : t ≤ old.lastSend := past t before
        exact old.trans ((Nat.le_add_right _ _).trans late)
      · exact Nat.le_refl _

/-- A run goes on with a send as it has begun, and all that it hands over for the send is made from the
cloves of the send. -/
theorem Paced.run (h : o.Paced settings T cloves created again resends) (numbered : o.Numbered n)
    (sound : o.sender.usable.Sound) (same : o.sender.settings = settings)
    (interval : 0 < settings.resendInterval) (past : T.toNat ≤ n) {es : List Event}
    (few : n + es.countP Event.isSend < 2 ^ 32) :
    (o.run es).Paced settings T cloves created (again ++ timesOf T (o.attemptsIn es))
        (resends + (delivered (o.handoffsIn es)).count T) ∧
      ∀ x ∈ o.handoffsIn es, x.shipment.message.trackingId = T →
        x.shipment.message.Carries o.sender.remoteKey T cloves := by
  induction es generalizing o again resends n with
  | nil =>
    constructor
    · rwa [attemptsIn, handoffsIn, timesOf_eq_nil (by simp), List.append_nil]
    · intro x mem
      cases mem
  | cons e es ih =>
    have count := countP_isSend_cons e es
    have other : e.isSend → T ≠ o.nextId := numbered.ne_nextId (by omega) past
    obtain ⟨frame, opened⟩ := sender_frame_perform sound (o.steps e)
    rw [← after_eq_perform] at frame opened
    obtain ⟨paced, carry⟩ := ih (h.after numbered.toKeyed same interval other) (numbered.after e) opened
      (frame.settings.trans same) (by omega) (by omega)
    constructor
    · rw [attemptsIn, handoffsIn, timesOf_append, delivered_append, List.count_append,
        ← List.append_assoc, ← Nat.add_assoc]
      exact paced
    · intro x mem own
      rw [handoffsIn, List.mem_append] at mem
      rcases mem with now | later
      · rcases handoff_cases sound now with ⟨_, _, _, _, _, rfl, carries⟩ |
          ⟨_, _, _, rfl, y, due, carries⟩
        · exact absurd (own.symm.trans carries.trackingId) (other rfl)
        · have tracked : y.trackingId = T := carries.trackingId.symm.trans own
          have there := (numbered.toKeyed.entry_of_due due).1
          rw [tracked] at there
          rwa [tracked, (h.kept y there).2.1] at carries
      · rw [← frame.remoteKey]
        exact carry x later own

end Paced

section Run

/-- Only sends that have been numbered are attempted. -/
theorem Numbered.toNat_of_attempted {o : Outbox} {n : Nat} (h : o.Numbered n) {es : List Event}
    (few : n + es.countP Event.isSend < 2 ^ 32) :
    ∀ T ∈ (o.attemptsIn es).map Prod.fst, T.toNat ≤ n + es.countP Event.isSend := by
  induction es generalizing o n with
  | nil =>
    intro T mem
    cases mem
  | cons e es ih =>
    intro T mem
    have count := countP_isSend_cons e es
    rw [attemptsIn, List.map_append, List.mem_append] at mem
    rcases mem with now | later
    · cases e with
      | send moment d layer explicit cloves =>
        have own : T = o.nextId := by simpa [attempts_send] using now
        have one : [Event.send moment d layer explicit cloves].countP Event.isSend = 1 := rfl
        have next := h.toNat_nextId (by omega)
        rw [own, next]
        omega
      | maintain moment supply layer =>
        rw [attempts_maintain, List.map_map] at now
        obtain ⟨x, due, rfl⟩ := List.mem_map.mp now
        have there := (h.toKeyed.entry_of_due due).1
        have past := h.past x.trackingId (by simp [there])
        exact past.trans (Nat.le_add_right _ _)
      | status | leases | clear | session | front => cases now
    · have := ih (h.after e) (by omega) T later
      omega

/-- A new send and what a run makes of it. -/
theorem Numbered.paced_run {o : Outbox} {n : Nat} (h : o.Numbered n) (sound : o.sender.usable.Sound)
    (interval : 0 < o.sender.settings.resendInterval) (moment : Moment) (d : Draw) (layer : TunnelLayer)
    (explicit : Bool) (cloves : List Clove) (rest : List Event)
    (few : n + 1 + rest.countP Event.isSend < 2 ^ 32) :
    let sent := o.after (.send moment d layer explicit cloves)
    (sent.run rest).Paced o.sender.settings o.nextId cloves moment.instant
        (timesOf o.nextId (sent.attemptsIn rest)) ((delivered (sent.handoffsIn rest)).count o.nextId) ∧
      ∀ x ∈ o.handoffsIn (.send moment d layer explicit cloves :: rest),
        x.shipment.message.trackingId = o.nextId →
          x.shipment.message.Carries o.sender.remoteKey o.nextId cloves := by
  have next : o.nextId.toNat = n + 1 := h.toNat_nextId (by omega)
  have numbered : (o.after (.send moment d layer explicit cloves)).Numbered (n + 1) :=
    h.after (.send moment d layer explicit cloves)
  have begun := h.paced_send (by omega) o.sender.settings moment d layer explicit cloves
  obtain ⟨frame, opened⟩ := sender_frame_perform sound (o.steps (.send moment d layer explicit cloves))
  rw [← after_eq_perform] at frame opened
  rw [handoffsIn]
  -- From here on it does not matter how the send has left the outbox.
  generalize o.after (.send moment d layer explicit cloves) = sent at numbered begun frame opened ⊢
  obtain ⟨paced, carry⟩ := begun.run numbered opened frame.settings interval next.le few
  rw [List.nil_append, Nat.zero_add] at paced
  refine ⟨paced, ?_⟩
  intro x mem own
  rcases List.mem_append.mp mem with now | later
  · obtain ⟨s, he⟩ := shipment_send now
    exact Sender.carries_encrypt sound he
  · rw [← frame.remoteKey]
    exact carry x later own

/-- The attempts at a send, in every run. The first is the send itself. Each later one comes at least an
interval after all those before it and while the window is open, so there are no more of them than
intervals fit into the window. The send counts those of them whose message was taken, and whatever is
handed over for it in any attempt is an encryption of its cloves, in their order. The attempts are the
encryptions that the session goes through, under the key it has then; each round takes a draw for each of
its attempts and reports it. -/
theorem bounded_retry (remote : Identity) (remoteKey : ElGamal.PublicKey) (settings : Settings)
    (interval : 0 < settings.resendInterval) (past rest : List Event) (moment : Moment) (d : Draw)
    (layer : TunnelLayer) (explicit : Bool) (cloves : List Clove)
    (few : (past ++ .send moment d layer explicit cloves :: rest).countP Event.isSend < 2 ^ 32) :
    let start := Outbox.new (.new remote remoteKey settings)
    let es := past ++ .send moment d layer explicit cloves :: rest
    let T := (start.run past).nextId
    let sent := (start.run past).after (.send moment d layer explicit cloves)
    let again := timesOf T (sent.attemptsIn rest)
    timesOf T (start.attemptsIn es) = moment.instant :: again ∧
    (moment.instant :: again).Pairwise (fun a b => a + settings.resendSpan.nanoseconds ≤ b) ∧
    again.length ≤ settings.windowLifetime / settings.resendInterval ∧
    (∀ t ∈ again, t ≤ moment.instant + settings.windowSpan.nanoseconds) ∧
    (∀ e, (start.run es).entries.find? T = some e → e.created = moment.instant ∧ e.cloves = cloves ∧
      e.resends = (delivered (sent.handoffsIn rest)).count T) ∧
    (∀ h ∈ start.handoffsIn es, h.shipment.message.trackingId = T →
      h.shipment.message.Carries remoteKey T cloves) ∧
    ∀ before e after, es = before ++ e :: after → (start.run before).Attested e := by
  intro start es T sent again
  rw [List.countP_append, List.countP_cons_of_pos rfl] at few
  have numbered : (start.run past).Numbered (past.countP Event.isSend) := numbered_run _ past
  have next : T.toNat = past.countP Event.isSend + 1 := numbered.toNat_nextId (by omega)
  obtain ⟨frame, sound⟩ := sender_frame_run remote remoteKey settings past
  have same : (start.run past).sender.settings = settings := frame.settings
  have key : (start.run past).sender.remoteKey = remoteKey := frame.remoteKey
  obtain ⟨paced, carry⟩ := numbered.paced_run sound (by rwa [same]) moment d layer explicit cloves
    rest (by omega)
  rw [same] at paced
  rw [key] at carry
  have times : timesOf T (start.attemptsIn es) = moment.instant :: again := by
    have early : T ∉ (start.attemptsIn past).map Prod.fst := by
      intro mem
      have given := (Numbered.new (.new remote remoteKey settings)).toNat_of_attempted (by omega) T mem
      omega
    have first : timesOf T [(T, moment.instant)] = [moment.instant] := by simp [timesOf]
    rw [attemptsIn_append, attemptsIn, attempts_send, timesOf_append, timesOf_append,
      timesOf_eq_nil early, first]
    rfl
  have number : again.length ≤ settings.windowLifetime / settings.resendInterval := by
    have fits : again.length * (1000000000 * settings.resendInterval) ≤
        1000000000 * settings.windowLifetime := length_mul_le_of_apart paced.apart paced.within
    rw [Nat.mul_left_comm] at fits
    rw [Nat.le_div_iff_mul_le interval]
    exact Nat.le_of_mul_le_mul_left fits (by decide)
  refine ⟨times, paced.apart, number, paced.within, ?_, ?_, ?_⟩
  · intro e he
    rw [run_append, run_cons] at he
    obtain ⟨created, same, counted, -⟩ := paced.kept e he
    exact ⟨created, same, counted⟩
  · intro h mem own
    rw [handoffsIn_append, List.mem_append] at mem
    rcases mem with before | now
    · obtain ⟨-, given, -⟩ := handed_run remote remoteKey settings (by omega) h before
      rw [own] at given
      omega
    · exact carry h now own
  · intro before e after _
    exact (numbered_run _ before).toKeyed.attested
      (sender_frame_run remote remoteKey settings before).2 e

def refusing : TunnelLayer := ⟨openLayer.reply, fun _ => ⟨.error .noOutboundTunnel, []⟩⟩

/-- Maintenance for a minute. The second attempt of three is refused. -/
def minute : List Event :=
  [.maintain ⟨15000000000, 0⟩ ⟨fun _ => .numbered 1, 0⟩ openLayer,
    .maintain ⟨29000000000, 0⟩ ⟨fun _ => .numbered 2, 0⟩ openLayer,
    .maintain ⟨30000000000, 0⟩ ⟨fun _ => .numbered 3, 0⟩ refusing,
    .maintain ⟨45000000000, 0⟩ ⟨fun _ => .numbered 4, 0⟩ openLayer]

theorem bounded_retry_minute :
    let start := Outbox.new (.new ⟨.ofNat 32 1⟩ ⟨.ofNat 256 2⟩ {})
    let es := Event.send ⟨0, 0⟩ (.numbered 0) openLayer true [] :: minute
    es.countP Event.isSend < 2 ^ 32 ∧
      timesOf 1 (start.attemptsIn es) = [0, 15000000000, 30000000000, 45000000000] ∧
      (∃ e, (start.run es).entries.find? 1 = some e ∧ e.created = 0 ∧ e.cloves = [] ∧ e.resends = 2) ∧
      (start.handoffsIn es).map (·.shipment.message.trackingId) = [1, 1, 1, 1] ∧
      (∀ h ∈ start.handoffsIn es, h.shipment.message.trackingId = 1 →
        h.shipment.message.Carries ⟨.ofNat 256 2⟩ 1 []) ∧
      (start.run (es.take 3)).RoundAttested ⟨30000000000, 0⟩ ⟨fun _ => .numbered 3, 0⟩ refusing
        [(1, 30000000000)] := by
  intro start es
  obtain ⟨times, -, -, -, kept, carry, attested⟩ := bounded_retry ⟨.ofNat 32 1⟩ ⟨.ofNat 256 2⟩ {}
    (by decide) [] minute ⟨0, 0⟩ (.numbered 0) openLayer true [] (by decide)
  have once : (start.run (es.take 3)).attempts (.maintain ⟨30000000000, 0⟩
      ⟨fun _ => .numbered 3, 0⟩ refusing) = [(1, 30000000000)] := by decide +kernel
  have round := (attested (es.take 3) (.maintain ⟨30000000000, 0⟩ ⟨fun _ => .numbered 3, 0⟩ refusing)
    (es.drop 4) rfl).round _ _ _ rfl
  obtain ⟨again, tracked, handed⟩ : start.attemptsIn es =
        [(1, 0), (1, 15000000000), (1, 30000000000), (1, 45000000000)] ∧
      ((start.run es).entries.find? 1).isSome ∧
      (start.handoffsIn es).map (·.shipment.message.trackingId) = [1, 1, 1, 1] := by decide +kernel
  obtain ⟨e, he⟩ := Option.isSome_iff_exists.mp tracked
  obtain ⟨created, cloves, resends⟩ := kept e he
  refine ⟨by decide, ?_, ⟨e, he, created, cloves, resends.trans ?_⟩, handed, carry, once ▸ round⟩
  · rw [again]
    rfl
  · decide +kernel

end Run

end GarlicRouting.Outbox
