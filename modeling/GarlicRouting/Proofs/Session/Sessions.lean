import GarlicRouting.Session.Sessions
import GarlicRouting.Proofs.Session.Statuses
import Mathlib

/-! Runs of all the sessions of an identity, and status ids that are offered to one peer after the
other. -/
namespace GarlicRouting.Sessions

inductive Event where
  | peer (directory : Directory) (remote : Identity)
  | send (directory : Directory) (moment : Moment) (draw : Draw) (layer : TunnelLayer)
    (remote : Identity) (explicit : Bool) (cloves : List Clove)
  | updateLeases (directory : Directory) (leases : LeaseSet)
  | status (ackId : UInt32)
  | maintain (moment : Moment) (supply : Supply) (layer : TunnelLayer)
  | shutdown
  /-- The session with one peer is used directly. -/
  | within (remote : Identity) (e : Outbox.Event)
  /-- The peers show in another order. -/
  | front (i : Nat)

/-- Uses the session with one peer, if there is one. -/
def within (s : Sessions) (remote : Identity) (e : Outbox.Event) : Sessions :=
  { s with peers := s.peers.modify remote fun o => o.after e }

def after (s : Sessions) : Event → Sessions
  | .peer directory remote => (s.peer directory remote).2
  | .send directory moment d layer remote explicit cloves =>
    (s.send directory moment d layer remote explicit cloves).2.2
  | .updateLeases directory leases => (s.updateLeases directory leases).2
  | .status ackId => (s.deliveryStatus ackId).2.2
  | .maintain moment supply layer => (s.maintain moment supply layer).2.2.2.2
  | .shutdown => s.shutdown.2
  | .within remote e => s.within remote e
  | .front i => { s with peers := s.peers.front i }

def run (s : Sessions) (es : List Event) : Sessions := es.foldl after s

/-- What events are made of. -/
inductive Step where
  | peer (directory : Directory) (remote : Identity)
  | within (remote : Identity) (e : Outbox.Event)
  | status (ackId : UInt32)
  | shutdown
  | front (i : Nat)

def act (s : Sessions) : Step → Sessions
  | .peer directory remote => (s.peer directory remote).2
  | .within remote e => s.within remote e
  | .status ackId => (s.deliveryStatus ackId).2.2
  | .shutdown => s.shutdown.2
  | .front i => { s with peers := s.peers.front i }

def perform (s : Sessions) (steps : List Step) : Sessions := steps.foldl act s

theorem perform_append (s : Sessions) (steps more : List Step) :
    s.perform (steps ++ more) = (s.perform steps).perform more := List.foldl_append

/-- Maintenance of one peer after the other. -/
def maintainSteps (moment : Moment) (layer : TunnelLayer) : Supply → List (Identity × Outbox) → List Step
  | _, [] => []
  | supply, (remote, o) :: ps =>
    .within remote (.maintain moment supply layer) ::
      maintainSteps moment layer (o.maintain moment supply layer).2.2.1 ps

def steps (s : Sessions) : Event → List Step
  | .peer directory remote => [.peer directory remote]
  | .send directory moment d layer remote explicit cloves =>
    match (s.peer directory remote).1 with
    | .ok _ => [.peer directory remote, .within remote (.send moment d layer explicit cloves)]
    | .error _ => []
  | .updateLeases directory leases =>
    match (s.peer directory leases.destination).1 with
    | .ok _ => [.peer directory leases.destination, .within leases.destination (.leases leases)]
    | .error _ => []
  | .status ackId => [.status ackId]
  | .maintain moment supply layer =>
    if s.closed then [] else maintainSteps moment layer supply s.peers.toList
  | .shutdown => [.shutdown]
  | .within remote e => [.within remote e]
  | .front i => [.front i]

section Steps

variable {s : Sessions}

/-- The ways to come by the session with a peer. -/
theorem peer_cases (s : Sessions) (directory : Directory) (remote : Identity) :
    (∃ e, s.peer directory remote = (.error e, s)) ∨
      (∃ o, s.peers.find? remote = some o ∧ s.peer directory remote = (.ok o, s)) ∨
        ∃ key, s.peers.find? remote = none ∧ s.closed = false ∧
          let o := Outbox.new (.new remote key s.settings)
          s.peer directory remote = (.ok o, { s with peers := s.peers.insert remote o }) := by
  unfold peer
  by_cases closed : s.closed = true
  · exact .inl ⟨_, by rw [if_pos closed]⟩
  · rw [if_neg closed]
    cases found : s.peers.find? remote with
    | some o => exact .inr (.inl ⟨o, rfl, rfl⟩)
    | none =>
      cases known : directory remote with
      | none => exact .inl ⟨_, rfl⟩
      | some key => exact .inr (.inr ⟨key, rfl, Bool.not_eq_true _ ▸ closed, rfl⟩)

theorem distinct_peer (distinct : s.peers.Distinct) (directory : Directory) (remote : Identity) :
    (s.peer directory remote).2.peers.Distinct := by
  rcases s.peer_cases directory remote with ⟨e, h⟩ | ⟨o, -, h⟩ | ⟨key, -, -, h⟩ <;> rw [h]
  · exact distinct
  · exact distinct
  · exact distinct.insert _ _

theorem find?_peer {directory : Directory} {remote : Identity} {o : Outbox} {t : Sessions}
    (h : s.peer directory remote = (.ok o, t)) : t.peers.find? remote = some o := by
  rcases s.peer_cases directory remote with ⟨e, h'⟩ | ⟨o', found, h'⟩ | ⟨key, -, -, h'⟩ <;>
    rw [h'] at h <;> cases h
  · exact found
  · rw [Table.find?_insert, if_pos rfl]

theorem eq_of_peer_error {directory : Directory} {remote : Identity} {e : SendFault} {t : Sessions}
    (h : s.peer directory remote = (.error e, t)) : t = s := by
  rcases s.peer_cases directory remote with ⟨e, h'⟩ | ⟨o, -, h'⟩ | ⟨key, -, -, h'⟩ <;>
    rw [h'] at h <;> cases h
  rfl

/-- Putting back what has been used is using it in place. -/
theorem put_eq_within (distinct : s.peers.Distinct) {remote : Identity} {o : Outbox}
    (found : s.peers.find? remote = some o) (e : Outbox.Event) :
    s.put remote (o.after e) = s.within remote e := by
  rw [put, within, distinct.modify_eq found fun o => o.after e]

/-- The steps of an event of one outbox, once the session with its peer is there. -/
theorem put_eq_perform (distinct : s.peers.Distinct) {directory : Directory} {remote : Identity}
    {o : Outbox} {t : Sessions} (h : s.peer directory remote = (.ok o, t)) (e : Outbox.Event) :
    t.put remote (o.after e) = s.perform [.peer directory remote, .within remote e] := by
  have same := distinct_peer distinct directory remote
  rw [h] at same
  show _ = (s.peer directory remote).2.within remote e
  rw [put_eq_within same (find?_peer h), h]

private theorem maintain_peers {own : Identity} {settings : Settings} {closed : Bool} (moment : Moment)
    (layer : TunnelLayer) (ps : List (Identity × Outbox)) (r : Round)
    (distinct : (⟨r.peers ++ ps⟩ : Table Identity Outbox).Distinct) :
    (⟨own, settings, ⟨(ps.foldl (maintainPeer moment layer) r).peers⟩, closed⟩ : Sessions) =
      (⟨own, settings, ⟨r.peers ++ ps⟩, closed⟩ : Sessions).perform
        (maintainSteps moment layer r.supply ps) := by
  induction ps generalizing r with
  | nil => rw [List.append_nil]; rfl
  | cons p ps ih =>
    obtain ⟨remote, o⟩ := p
    have used : (⟨own, settings, ⟨r.peers ++ (remote, o) :: ps⟩, closed⟩ : Sessions).within remote
        (.maintain moment r.supply layer) = ⟨own, settings,
          ⟨(maintainPeer moment layer r (remote, o)).peers ++ ps⟩, closed⟩ := by
      rw [within, Table.modify_middle distinct, maintainPeer, List.append_assoc]
      rfl
    have keys : (⟨(maintainPeer moment layer r (remote, o)).peers ++ ps⟩ :
        Table Identity Outbox).Distinct := by
      simpa [Table.Distinct, maintainPeer] using distinct
    rw [List.foldl_cons, ih _ keys, ← used]
    rfl

theorem after_eq_perform (distinct : s.peers.Distinct) (e : Event) : s.after e = s.perform (s.steps e) := by
  cases e with
  | peer | status | shutdown | within | front => rfl
  | send directory moment d layer remote explicit cloves =>
    rw [after, steps, send]
    cases h : s.peer directory remote with
    | mk result t =>
      cases result with
      | error e => exact eq_of_peer_error h
      | ok o =>
        have used : o.after (.send moment d layer explicit cloves) =
            (o.send moment d layer explicit cloves).2.2 := rfl
        rw [← put_eq_perform distinct h, used]
  | updateLeases directory leases =>
    rw [after, steps, updateLeases]
    cases h : s.peer directory leases.destination with
    | mk result t =>
      cases result with
      | error e => exact eq_of_peer_error h
      | ok o => exact put_eq_perform distinct h (.leases leases)
  | maintain moment supply layer =>
    rw [after, steps, maintain]
    by_cases closed : s.closed = true
    · rw [if_pos closed, if_pos closed]
      rfl
    · rw [if_neg closed, if_neg closed]
      exact maintain_peers moment layer s.peers.toList { supply } distinct

end Steps

/-- The status ids that a step draws, each with the peer it is drawn for. -/
def asked (s : Sessions) : Step → List (Identity × UInt32)
  | .within remote e => ((s.peers.find? remote).elim [] fun o => o.asked e).map (remote, ·)
  | _ => []

/-- The tags that a step draws. -/
def drawn (s : Sessions) : Step → List SessionTag
  | .within remote e => (s.peers.find? remote).elim [] fun o => o.drawn e
  | _ => []

def askedIn (s : Sessions) : List Step → List (Identity × UInt32)
  | [] => []
  | step :: steps => s.asked step ++ (s.act step).askedIn steps

def drawnIn (s : Sessions) : List Step → List SessionTag
  | [] => []
  | step :: steps => s.drawn step ++ (s.act step).drawnIn steps

/-- The steps of a run. -/
def history (s : Sessions) : List Event → List Step
  | [] => []
  | e :: es => s.steps e ++ (s.after e).history es

/-- The ids that were drawn for one peer. -/
def idsOf (remote : Identity) (log : List (Identity × UInt32)) : List UInt32 :=
  (log.filter fun p => p.1 = remote).map Prod.snd

section Log

variable {remote other : Identity} {log : List (Identity × UInt32)}

theorem idsOf_append (remote : Identity) (log more : List (Identity × UInt32)) :
    idsOf remote (log ++ more) = idsOf remote log ++ idsOf remote more := by
  rw [idsOf, List.filter_append, List.map_append, idsOf, idsOf]

theorem idsOf_map_self (remote : Identity) (ids : List UInt32) : idsOf remote (ids.map (remote, ·)) = ids := by
  simp [idsOf, List.filter_map, Function.comp_def]

theorem idsOf_map_other (h : other ≠ remote) (ids : List UInt32) :
    idsOf remote (ids.map (other, ·)) = [] := by
  simp [idsOf, List.filter_map, Function.comp_def, h]

theorem idsOf_sublist (remote : Identity) (log : List (Identity × UInt32)) :
    (idsOf remote log).Sublist (log.map Prod.snd) := List.filter_sublist.map _

theorem mem_idsOf {id : UInt32} : id ∈ idsOf remote log ↔ (remote, id) ∈ log := by
  simp [idsOf]

end Log

/-- Every outbox is tidy, and has its own share of the ids that were drawn. -/
structure Kept (s : Sessions) (log : List (Identity × UInt32)) (tags : List SessionTag) : Prop where
  distinct : s.peers.Distinct
  tidy : ∀ remote o, s.peers.find? remote = some o → o.Tidy (idsOf remote log) tags

section Offer

variable {ackId : UInt32} {ps : List (Identity × Outbox)}

theorem keys_offer (ackId : UInt32) (ps : List (Identity × Outbox)) :
    (offer ackId ps).2.map Prod.fst = ps.map Prod.fst := by
  induction ps with
  | nil => rfl
  | cons p ps ih =>
    obtain ⟨remote, o⟩ := p
    simp only [offer]
    split_ifs
    · rfl
    · rw [List.map_cons, ih, List.map_cons]

theorem distinct_deliveryStatus {s : Sessions} (distinct : s.peers.Distinct) (ackId : UInt32) :
    (s.deliveryStatus ackId).2.2.peers.Distinct := by
  show ((offer ackId s.peers.toList).2.map Prod.fst).Nodup
  rw [keys_offer]
  exact distinct

theorem mem_offer {p : Identity × Outbox} (h : p ∈ (offer ackId ps).2) :
    ∃ o, (p.1, o) ∈ ps ∧ (p.2 = o ∨ p.2 = (o.deliveryStatus ackId).2) := by
  induction ps with
  | nil => cases h
  | cons q ps ih =>
    obtain ⟨remote, o⟩ := q
    simp only [offer] at h
    split_ifs at h
    all_goals
      rcases List.mem_cons.mp h with rfl | h
      · exact ⟨o, List.mem_cons_self, .inr rfl⟩
    · exact ⟨p.2, List.mem_cons_of_mem _ h, .inl rfl⟩
    · obtain ⟨o', member, used⟩ := ih h
      exact ⟨o', List.mem_cons_of_mem _ member, used⟩

/-- At most one of the peers knows the status id. -/
def Alone (ackId : UInt32) (ps : List (Identity × Outbox)) : Prop :=
  (ps.map Prod.fst).Nodup ∧ ∀ p ∈ ps, ∀ q ∈ ps, (p.2.deliveryStatus ackId).1.matched →
    (q.2.deliveryStatus ackId).1.matched → p.1 = q.1

private theorem Alone.tail {p : Identity × Outbox} (h : Alone ackId (p :: ps)) : Alone ackId ps :=
  ⟨(List.nodup_cons.mp h.1).2, fun q hq r hr =>
    h.2 q (List.mem_cons_of_mem p hq) r (List.mem_cons_of_mem p hr)⟩

private theorem Alone.unmatched {first remote : Identity} {o p : Outbox}
    (h : Alone ackId ((first, o) :: ps)) (matched : (o.deliveryStatus ackId).1.matched)
    (hp : (remote, p) ∈ ps) : ¬ (p.deliveryStatus ackId).1.matched := by
  intro hm
  have same : first = remote :=
    h.2 (first, o) List.mem_cons_self (remote, p) (List.mem_cons_of_mem _ hp) matched hm
  refine (List.nodup_cons.mp h.1).1 ?_
  rw [same]
  exact List.mem_map.mpr ⟨(remote, p), hp, rfl⟩

/-- To stop at the first peer that knows the id is to tell it to all of them. -/
theorem offer_snd (alone : Alone ackId ps) :
    (offer ackId ps).2 = ps.map fun p => (p.1, (p.2.deliveryStatus ackId).2) := by
  induction ps with
  | nil => rfl
  | cons p ps ih =>
    obtain ⟨remote, o⟩ := p
    simp only [offer]
    split_ifs with matched
    · have rest : (ps.map fun p => (p.1, (p.2.deliveryStatus ackId).2)) = ps := by
        refine (List.map_congr_left fun q hq => ?_).trans ps.map_id
        rw [Outbox.deliveryStatus_of_unmatched (alone.unmatched matched hq)]
        rfl
      rw [List.map_cons, rest]
    · rw [ih alone.tail, List.map_cons]

theorem offer_fst (alone : Alone ackId ps) {remote : Identity} {r : StatusOutcome} :
    (offer ackId ps).1 = some (remote, r) ↔
      ∃ o, (remote, o) ∈ ps ∧ (o.deliveryStatus ackId).1 = r ∧ r.matched := by
  induction ps with
  | nil => simp [offer]
  | cons p ps ih =>
    obtain ⟨first, o⟩ := p
    simp only [offer]
    split_ifs with matched
    · constructor
      · intro h
        obtain ⟨rfl, rfl⟩ := Prod.mk.inj (Option.some.inj h)
        exact ⟨o, List.mem_cons_self, rfl, matched⟩
      · rintro ⟨o', member, rfl, hm⟩
        rcases List.mem_cons.mp member with same | member
        · obtain ⟨rfl, rfl⟩ := Prod.mk.inj same
          rfl
        · exact absurd hm (alone.unmatched matched member)
    · rw [ih alone.tail]
      constructor
      · rintro ⟨o', member, rest⟩
        exact ⟨o', List.mem_cons_of_mem _ member, rest⟩
      · rintro ⟨o', member, rfl, hm⟩
        rcases List.mem_cons.mp member with same | member
        · obtain ⟨rfl, rfl⟩ := Prod.mk.inj same
          exact absurd hm matched
        · exact ⟨o', member, rfl, hm⟩

end Offer

namespace Kept

variable {s : Sessions} {log : List (Identity × UInt32)} {tags : List SessionTag}

theorem new (own : Identity) (settings : Settings) : Kept { own, settings } [] [] where
  distinct := Table.distinct_empty
  tidy remote o h := by cases h

theorem peer (h : s.Kept log tags) (directory : Directory) (remote : Identity) :
    (s.peer directory remote).2.Kept log tags := by
  refine ⟨distinct_peer h.distinct directory remote, fun r o found => ?_⟩
  rcases s.peer_cases directory remote with ⟨e, hs⟩ | ⟨o', -, hs⟩ | ⟨key, -, -, hs⟩ <;>
    rw [hs] at found
  · exact h.tidy r o found
  · exact h.tidy r o found
  · rw [Table.find?_insert] at found
    split_ifs at found
    · obtain rfl := Option.some.inj found
      exact (Outbox.Tidy.new remote key s.settings).mono (List.nil_subset _) (List.nil_sublist _)
    · exact h.tidy r o found

theorem within (h : s.Kept log tags) (remote : Identity) (e : Outbox.Event)
    (fresh : ((log ++ s.asked (.within remote e)).map Prod.snd).Nodup) :
    (s.within remote e).Kept (log ++ s.asked (.within remote e)) (tags ++ s.drawn (.within remote e)) := by
  refine ⟨h.distinct.modify remote _, fun r o' found => ?_⟩
  rw [Sessions.within, Table.find?_modify] at found
  rw [asked, drawn] at *
  split_ifs at found with same
  · obtain ⟨o, here, rfl⟩ := Option.map_eq_some_iff.mp found
    rw [same] at here ⊢
    have once := fresh.sublist (idsOf_sublist remote _)
    rw [here, Option.elim_some, idsOf_append, idsOf_map_self] at once
    rw [here, Option.elim_some, Option.elim_some, idsOf_append, idsOf_map_self]
    exact (h.tidy remote o here).after e once
  · rw [idsOf_append, idsOf_map_other (Ne.symm same), List.append_nil]
    exact (h.tidy r o' found).mono (List.Subset.refl _) (List.sublist_append_left _ _)

theorem deliveryStatus (h : s.Kept log tags) (ackId : UInt32) :
    (s.deliveryStatus ackId).2.2.Kept log tags := by
  refine ⟨distinct_deliveryStatus h.distinct ackId, fun remote o' found => ?_⟩
  obtain ⟨o, member, used⟩ := mem_offer (Table.mem_of_find? found)
  have tidy := h.tidy remote o (h.distinct.mem_iff.mp member)
  rcases used with rfl | rfl
  · exact tidy
  · exact tidy.deliveryStatus ackId

theorem front (h : s.Kept log tags) (positions : List Nat) :
    Kept { s with peers := positions.foldl Table.front s.peers } log tags where
  distinct := (h.distinct.foldl_front positions).1
  tidy remote o found := h.tidy remote o (by rwa [← (h.distinct.foldl_front positions).2])

theorem act (h : s.Kept log tags) (step : Step)
    (fresh : ((log ++ s.asked step).map Prod.snd).Nodup) :
    (s.act step).Kept (log ++ s.asked step) (tags ++ s.drawn step) := by
  have silent {t : Sessions} (ht : t.Kept log tags) : t.Kept (log ++ []) (tags ++ []) := by
    rwa [List.append_nil, List.append_nil]
  cases step with
  | peer directory remote => exact silent (h.peer directory remote)
  | within remote e => exact h.within remote e fresh
  | status ackId => exact silent (h.deliveryStatus ackId)
  | shutdown => exact ⟨Table.distinct_empty, fun remote o found => by cases found⟩
  | front i => exact silent (h.front [i])

theorem perform (h : s.Kept log tags) (steps : List Step)
    (fresh : ((log ++ s.askedIn steps).map Prod.snd).Nodup) :
    (s.perform steps).Kept (log ++ s.askedIn steps) (tags ++ s.drawnIn steps) := by
  induction steps generalizing s log tags with
  | nil => simpa [askedIn, drawnIn, Sessions.perform] using h
  | cons step steps ih =>
    rw [askedIn, ← List.append_assoc] at fresh
    rw [askedIn, drawnIn, ← List.append_assoc, ← List.append_assoc]
    have first : ((log ++ s.asked step).map Prod.snd).Nodup :=
      fresh.sublist ((List.sublist_append_left _ _).map _)
    exact ih (h.act step first) fresh

end Kept

/-- A status id that comes in, and the peers that are brought to the front, one after the other, before
it is offered to them: this gives any order. -/
structure Notice where
  ackId : UInt32
  front : List Nat
deriving DecidableEq

/-- Handles a status id. -/
def receive (s : Sessions) (n : Notice) : Option (Identity × StatusOutcome) × Sessions :=
  let r := { s with peers := n.front.foldl Table.front s.peers }.deliveryStatus n.ackId
  (r.1, r.2.2)

/-- Handles status ids in turn; tells what they matched. -/
def receiveAll (s : Sessions) : List Notice → List (Identity × StatusOutcome) × Sessions
  | [] => ([], s)
  | n :: ns =>
    ((s.receive n).1.toList ++ ((s.receive n).2.receiveAll ns).1, ((s.receive n).2.receiveAll ns).2)

/-- The sends that were confirmed, each with its peer. -/
def acknowledged (rs : List (Identity × StatusOutcome)) : List (Identity × UInt32) :=
  rs.filterMap fun r => r.2.trackingId.map (r.1, ·)

/-- The outcomes for one peer. -/
def outcomesOf (remote : Identity) (rs : List (Identity × StatusOutcome)) : List StatusOutcome :=
  (rs.filter fun r => r.1 = remote).map Prod.snd

/-- How many tags became usable with one peer. -/
def addedTags (remote : Identity) (rs : List (Identity × StatusOutcome)) : Nat :=
  ((outcomesOf remote rs).map fun r => r.tags.elim 0 TagAck.added).sum

/-- The same peers, with the same outboxes. -/
structure Same (s t : Sessions) : Prop where
  own : t.own = s.own
  settings : t.settings = s.settings
  closed : t.closed = s.closed
  peers : ∀ remote, Option.Rel Outbox.Same (s.peers.find? remote) (t.peers.find? remote)

section Receive

variable {s : Sessions} {log : List (Identity × UInt32)} {tags : List SessionTag}

theorem Kept.alone (h : s.Kept log tags) (fresh : (log.map Prod.snd).Nodup) (ackId : UInt32) :
    Alone ackId s.peers.toList := by
  refine ⟨h.distinct, fun p hp q hq matchedP matchedQ => ?_⟩
  have known (r : Identity × Outbox) (hr : r ∈ s.peers.toList)
      (matched : (r.2.deliveryStatus ackId).1.matched) : (r.1, ackId) ∈ log :=
    mem_idsOf.mp ((h.tidy r.1 r.2 (h.distinct.mem_iff.mp hr)).mem_of_matched matched)
  have same := List.inj_on_of_nodup_map fresh (known p hp matchedP) (known q hq matchedQ) rfl
  exact (Prod.mk.inj same).1

/-- What a status id does to every peer, in whatever order they are asked. -/
structure Received (s : Sessions) (ids : List UInt32) (rs : List (Identity × StatusOutcome))
    (t : Sessions) : Prop where
  own : t.own = s.own
  settings : t.settings = s.settings
  closed : t.closed = s.closed
  peers : ∀ remote, t.peers.find? remote =
    (s.peers.find? remote).map fun o => (o.deliveryStatuses ids).2
  outcomes : ∀ remote, outcomesOf remote rs = (s.peers.find? remote).elim [] fun o =>
    (o.deliveryStatuses ids).1.filter StatusOutcome.matched

theorem outcomesOf_offer (distinct : s.peers.Distinct) {ackId : UInt32}
    (alone : Alone ackId s.peers.toList) (remote : Identity) :
    outcomesOf remote (offer ackId s.peers.toList).1.toList =
      (s.peers.find? remote).elim [] fun o =>
        (o.deliveryStatuses [ackId]).1.filter StatusOutcome.matched := by
  have matched {o : Outbox} (found : s.peers.find? remote = some o)
      (hm : (o.deliveryStatus ackId).1.matched) :
      (offer ackId s.peers.toList).1 = some (remote, (o.deliveryStatus ackId).1) :=
    (offer_fst alone).mpr ⟨o, Table.mem_of_find? found, rfl, hm⟩
  have outcome (o : Outbox) : (o.deliveryStatuses [ackId]).1.filter StatusOutcome.matched =
      if (o.deliveryStatus ackId).1.matched then [(o.deliveryStatus ackId).1] else [] := by
    rw [Outbox.deliveryStatuses_cons, List.filter_cons]
    rfl
  cases hoffer : (offer ackId s.peers.toList).1 with
  | none =>
    cases found : s.peers.find? remote with
    | none => rfl
    | some o =>
      rw [Option.elim_some, outcome, if_neg fun hm => by rw [matched found hm] at hoffer; cases hoffer]
      rfl
  | some p =>
    obtain ⟨first, r⟩ := p
    obtain ⟨o, member, rfl, hm⟩ := (offer_fst alone).mp hoffer
    by_cases same : first = remote
    · obtain rfl := same
      rw [distinct.mem_iff.mp member, Option.elim_some, outcome, if_pos hm]
      simp [outcomesOf]
    · have none : outcomesOf remote (some (first, (o.deliveryStatus ackId).1)).toList = [] := by
        simp [outcomesOf, same]
      rw [none]
      cases found : s.peers.find? remote with
      | none => rfl
      | some o' =>
        rw [Option.elim_some, outcome, if_neg fun hm => ?_]
        rw [matched found hm] at hoffer
        exact same (Prod.mk.inj (Option.some.inj hoffer)).1.symm

theorem Kept.received_status (h : s.Kept log tags) (fresh : (log.map Prod.snd).Nodup) (ackId : UInt32) :
    Received s [ackId] (s.deliveryStatus ackId).1.toList (s.deliveryStatus ackId).2.2 where
  own := rfl
  settings := rfl
  closed := rfl
  peers remote := by
    show Table.find? ⟨(offer ackId _).2⟩ remote = _
    rw [offer_snd (h.alone fresh ackId)]
    exact Table.find?_map_snd s.peers (fun o : Outbox => (o.deliveryStatus ackId).2) remote
  outcomes := outcomesOf_offer h.distinct (h.alone fresh ackId)

theorem Kept.receive (h : s.Kept log tags) (fresh : (log.map Prod.snd).Nodup) (n : Notice) :
    (s.receive n).2.Kept log tags ∧
      Received s [n.ackId] (s.receive n).1.toList (s.receive n).2 := by
  have moved := h.front n.front
  have same := (h.distinct.foldl_front n.front).2
  have received := moved.received_status fresh n.ackId
  refine ⟨moved.deliveryStatus n.ackId, received.own, received.settings, received.closed,
    fun remote => ?_, fun remote => ?_⟩
  · rw [← same]
    exact received.peers remote
  · rw [← same]
    exact received.outcomes remote

theorem Received.append {t u : Sessions} {ids more : List UInt32}
    {rs qs : List (Identity × StatusOutcome)} (h : Received s ids rs t) (g : Received t more qs u) :
    Received s (ids ++ more) (rs ++ qs) u where
  own := g.own.trans h.own
  settings := g.settings.trans h.settings
  closed := g.closed.trans h.closed
  peers remote := by
    rw [g.peers, h.peers, Option.map_map]
    refine congrArg (Option.map · _) (funext fun o => ?_)
    rw [Function.comp_apply, Outbox.deliveryStatuses_append]
  outcomes remote := by
    have split : outcomesOf remote (rs ++ qs) = outcomesOf remote rs ++ outcomesOf remote qs := by
      rw [outcomesOf, List.filter_append, List.map_append, outcomesOf, outcomesOf]
    rw [split, h.outcomes, g.outcomes, h.peers]
    cases s.peers.find? remote with
    | none => rfl
    | some o =>
      simp only [Option.map_some, Option.elim_some, Outbox.deliveryStatuses_append, List.filter_append]

theorem Kept.receiveAll (h : s.Kept log tags) (fresh : (log.map Prod.snd).Nodup) (ns : List Notice) :
    (s.receiveAll ns).2.Kept log tags ∧
      Received s (ns.map Notice.ackId) (s.receiveAll ns).1 (s.receiveAll ns).2 := by
  induction ns generalizing s with
  | nil =>
    refine ⟨h, rfl, rfl, rfl, fun remote => ?_, fun remote => ?_⟩ <;>
      cases hfound : s.peers.find? remote <;> simp [Sessions.receiveAll, hfound, Outbox.deliveryStatuses,
        outcomesOf]
  | cons n ns ih =>
    obtain ⟨kept, first⟩ := h.receive fresh n
    obtain ⟨last, rest⟩ := ih kept
    exact ⟨last, first.append rest⟩

/-- How often a send with a peer is confirmed is told by the outcomes for that peer. -/
theorem count_acknowledged (rs : List (Identity × StatusOutcome)) (remote : Identity) (T : UInt32) :
    (acknowledged rs).count (remote, T) =
      ((outcomesOf remote rs).filterMap StatusOutcome.trackingId).count T := by
  induction rs with
  | nil => rfl
  | cons r rs ih =>
    obtain ⟨first, ⟨sent, tags⟩⟩ := r
    unfold acknowledged outcomesOf at *
    by_cases same : first = remote <;> cases sent <;>
      simp_all [List.count_cons]

private theorem filterMap_matched (rs : List StatusOutcome) :
    (rs.filter StatusOutcome.matched).filterMap StatusOutcome.trackingId =
      rs.filterMap StatusOutcome.trackingId := by
  rw [List.filterMap_filter]
  refine List.filterMap_congr fun r _ => ?_
  unfold StatusOutcome.matched
  cases r.trackingId <;> cases r.tags <;> rfl

private theorem sum_matched (rs : List StatusOutcome) :
    ((rs.filter StatusOutcome.matched).map fun r => r.tags.elim 0 TagAck.added).sum =
      (rs.map fun r => r.tags.elim 0 TagAck.added).sum := by
  induction rs with
  | nil => rfl
  | cons r rs ih =>
    obtain ⟨sent, tags⟩ := r
    cases sent <;> cases tags <;> simp_all [StatusOutcome.matched]

/-- The peer that an id was drawn for. -/
def ownerIn (log : List (Identity × UInt32)) (ackId : UInt32) : Option Identity :=
  (log.find? fun p => p.2 = ackId).map Prod.fst

theorem ownerIn_of_mem (fresh : (log.map Prod.snd).Nodup) {remote : Identity} {ackId : UInt32}
    (h : (remote, ackId) ∈ log) : ownerIn log ackId = some remote := by
  unfold ownerIn
  cases found : log.find? fun p => p.2 = ackId with
  | none => simpa using List.find?_eq_none.mp found _ h
  | some p =>
    have same : p.2 = ackId := by simpa using List.find?_some found
    have one : p = (remote, ackId) :=
      List.inj_on_of_nodup_map fresh (List.mem_of_find?_eq_some found) h same
    rw [one]
    rfl

/-- An id changes the outbox of its owner only. -/
theorem Kept.receive_other (h : s.Kept log tags) (fresh : (log.map Prod.snd).Nodup) (n : Notice)
    {remote : Identity} (other : ownerIn log n.ackId ≠ some remote) :
    (s.receive n).2.peers.find? remote = s.peers.find? remote := by
  rw [(h.receive fresh n).2.peers]
  cases found : s.peers.find? remote with
  | none => rfl
  | some o =>
    have unmatched : ¬ (o.deliveryStatus n.ackId).1.matched := fun hm =>
      other (ownerIn_of_mem fresh (mem_idsOf.mp ((h.tidy remote o found).mem_of_matched hm)))
    exact congrArg some (Outbox.deliveryStatus_of_unmatched unmatched)

/-- From any tidy state the outcome is settled by which ids come in. -/
theorem Kept.same_receiveAll (h : s.Kept log tags) (freshIds : (log.map Prod.snd).Nodup)
    (freshTags : tags.Nodup) {ns ms : List Notice}
    (hids : ∀ id, id ∈ ns.map Notice.ackId ↔ id ∈ ms.map Notice.ackId) :
    Same (s.receiveAll ns).2 (s.receiveAll ms).2 ∧
      (acknowledged (s.receiveAll ns).1).Perm (acknowledged (s.receiveAll ms).1) ∧
      ∀ remote, addedTags remote (s.receiveAll ns).1 = addedTags remote (s.receiveAll ms).1 := by
  have left := (h.receiveAll freshIds ns).2
  have right := (h.receiveAll freshIds ms).2
  have each {remote : Identity} {o : Outbox} (found : s.peers.find? remote = some o) :=
    Outbox.same_deliveryStatuses (h.tidy remote o found).indexed (h.tidy remote o found).accounted
      freshTags hids
  refine ⟨⟨right.own.trans left.own.symm, right.settings.trans left.settings.symm,
    right.closed.trans left.closed.symm, fun remote => ?_⟩, List.perm_iff_count.mpr fun p => ?_,
    fun remote => ?_⟩
  · rw [left.peers, right.peers]
    cases found : s.peers.find? remote with
    | none => exact .none
    | some o => exact .some (each found).1
  · obtain ⟨remote, T⟩ := p
    rw [count_acknowledged, count_acknowledged, left.outcomes, right.outcomes]
    cases found : s.peers.find? remote with
    | none => rfl
    | some o =>
      rw [Option.elim_some, Option.elim_some, filterMap_matched, filterMap_matched]
      exact (each found).2.1.count_eq T
  · rw [addedTags, addedTags, left.outcomes, right.outcomes]
    cases found : s.peers.find? remote with
    | none => rfl
    | some o =>
      rw [Option.elim_some, Option.elim_some, sum_matched, sum_matched]
      exact (each found).2.2

end Receive

section Run

variable {s : Sessions}

theorem distinct_act (distinct : s.peers.Distinct) (step : Step) : (s.act step).peers.Distinct := by
  cases step with
  | peer directory remote => exact distinct_peer distinct directory remote
  | within remote e => exact distinct.modify remote _
  | status ackId => exact distinct_deliveryStatus distinct ackId
  | shutdown => exact Table.distinct_empty
  | front i => exact distinct.front i

theorem distinct_perform (distinct : s.peers.Distinct) (steps : List Step) :
    (s.perform steps).peers.Distinct := by
  induction steps generalizing s with
  | nil => exact distinct
  | cons step steps ih => exact ih (distinct_act distinct step)

/-- A run is what its history tells. -/
theorem run_eq_perform (distinct : s.peers.Distinct) (es : List Event) :
    s.run es = s.perform (s.history es) := by
  induction es generalizing s with
  | nil => rfl
  | cons e es ih =>
    have next : (s.after e).peers.Distinct := by
      rw [after_eq_perform distinct]
      exact distinct_perform distinct _
    rw [history, perform_append, ← after_eq_perform distinct]
    exact ih next

/-- Status ids can come in any order, any number of times and through any order of the peers. On every
reachable state, with all ids and tags that were drawn distinct, two sequences of the same ids leave the
same state of every peer, confirm the same sends and make as many tags of each peer usable; and only one
peer is ever changed by an id. -/
theorem statuses_commute (own : Identity) (settings : Settings) (es : List Event)
    (freshIds : ((askedIn { own, settings } (history { own, settings } es)).map Prod.snd).Nodup)
    (freshTags : (drawnIn { own, settings } (history { own, settings } es)).Nodup) :
    let s := run { own, settings } es
    (∀ ns ms : List Notice, (∀ id, id ∈ ns.map Notice.ackId ↔ id ∈ ms.map Notice.ackId) →
      Same (s.receiveAll ns).2 (s.receiveAll ms).2 ∧
      (acknowledged (s.receiveAll ns).1).Perm (acknowledged (s.receiveAll ms).1) ∧
      ∀ remote, addedTags remote (s.receiveAll ns).1 = addedTags remote (s.receiveAll ms).1) ∧
    ∃ owner : UInt32 → Option Identity, ∀ ns n remote, owner n.ackId ≠ some remote →
      ((s.receiveAll ns).2.receive n).2.peers.find? remote =
        (s.receiveAll ns).2.peers.find? remote := by
  intro s
  have kept := (Kept.new own settings).perform (history { own, settings } es) freshIds
  rw [← run_eq_perform Table.distinct_empty] at kept
  refine ⟨fun ns ms hids => kept.same_receiveAll freshIds freshTags hids,
    ownerIn (askedIn { own, settings } (history { own, settings } es)), fun ns n remote other => ?_⟩
  exact (kept.receiveAll freshIds ns).1.receive_other freshIds n other

/-- One send that asks for an explicit acknowledgment, to each of two peers. -/
def twoSends : List Event :=
  let directory : Directory := fun _ => some ⟨.ofNat 256 2⟩
  let layer : TunnelLayer := ⟨fun _ => some ⟨⟨.ofNat 32 9⟩, ⟨4⟩⟩, fun _ => ⟨.ok (), []⟩⟩
  [.send directory ⟨0, 0⟩ (.numbered 0) layer ⟨.ofNat 32 5⟩ true [],
    .send directory ⟨1, 0⟩ (.numbered 1) layer ⟨.ofNat 32 6⟩ true []]

theorem statuses_commute_twoSends :
    let start : Sessions := { own := ⟨.ofNat 32 1⟩, settings := {} }
    let s := start.run twoSends
    let ns : List Notice := [⟨2, []⟩, ⟨3, [1]⟩, ⟨1, []⟩]
    let ms : List Notice := [⟨1, [1]⟩, ⟨2, []⟩, ⟨3, []⟩, ⟨2, [1]⟩]
    ((start.askedIn (start.history twoSends)).map Prod.snd).Nodup ∧
      (start.drawnIn (start.history twoSends)).Nodup ∧
      (∀ id, id ∈ ns.map Notice.ackId ↔ id ∈ ms.map Notice.ackId) ∧
      acknowledged (s.receiveAll ns).1 = [(⟨.ofNat 32 5⟩, 1), (⟨.ofNat 32 6⟩, 1)] ∧
      Same (s.receiveAll ns).2 (s.receiveAll ms).2 := by
  have hids (id : UInt32) : id ∈ [2, 3, 1] ↔ id ∈ [1, 2, 3, 2] := by
    simp only [List.mem_cons, List.not_mem_nil, or_false]
    tauto
  intro start s ns ms
  have freshIds : ((start.askedIn (start.history twoSends)).map Prod.snd).Nodup := by decide +kernel
  have freshTags : (start.drawnIn (start.history twoSends)).Nodup := by decide +kernel
  refine ⟨freshIds, freshTags, hids, by decide +kernel, ?_⟩
  exact ((statuses_commute ⟨.ofNat 32 1⟩ {} twoSends freshIds freshTags).1 ns ms hids).1

end Run

end GarlicRouting.Sessions
