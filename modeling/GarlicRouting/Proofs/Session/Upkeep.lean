import GarlicRouting.Proofs.Session.Attempts
import Mathlib

/-! What a round of maintenance makes of every send in the window, whatever its attempts meet with. -/
namespace GarlicRouting

/-- No status comes in while the tunnel layer carries a message. -/
def TunnelLayer.Mute (layer : TunnelLayer) : Prop := ∀ shipment, (layer.carry shipment).reported = []

namespace Outbox

structure Attempt where
  entry : Outstanding
  result : Except SendFault Sealed

namespace Attempt

variable (a : Attempt) (layer : TunnelLayer) (leases : Option LeaseSet)

def confirmations : List UInt32 := a.result.toOption.elim [] Sealed.confirmations

/-- The hand-over of the message, if there is one, while no status comes in. -/
def handoff? : Option Handoff :=
  a.result.toOption.map fun m => ⟨⟨leases, m⟩, layer.carry ⟨leases, m⟩, []⟩

def succeeds : Bool := (a.handoff? layer leases).any Handoff.accepted

/-- The send after the attempt: it waits for the new status ids too, and for a whole interval. -/
def settled (now : Nat) : Outstanding :=
  { a.entry with
    ackIds := a.entry.ackIds ++ a.confirmations
    lastSend := now
    resends := if a.succeeds layer leases then a.entry.resends + 1 else a.entry.resends }

end Attempt

/-- Sends encrypted again one after the other, with a draw for each, and the session after them. -/
def encryptAgain (moment : Moment) (layer : TunnelLayer) :
    Sender → Supply → List Outstanding → List Attempt × Sender
  | s, _, [] => ([], s)
  | s, supply, e :: es =>
    let (result, s) := s.encrypt moment supply.next.1 (layer.reply e.trackingId) e.explicit
      e.trackingId e.cloves
    let (attempts, s) := encryptAgain moment layer s supply.next.2 es
    (⟨e, result⟩ :: attempts, s)

/-- The send whose message was the last to name a status id. -/
def lastNaming (id : UInt32) (hs : List Handoff) : Option UInt32 :=
  hs.reverse.findSome? fun h =>
    if id ∈ h.shipment.message.confirmations then some h.shipment.message.trackingId else none

/-- Nothing has changed but the session and the tables. -/
structure Frame (o p : Outbox) : Prop where
  leases : p.leases = o.leases
  nextId : p.nextId = o.nextId
  resends : p.resends = o.resends
  resets : p.resets = o.resets

namespace Frame

variable {o p q : Outbox}

theorem refl (o : Outbox) : Frame o o := ⟨rfl, rfl, rfl, rfl⟩

theorem trans (h : Frame o p) (g : Frame p q) : Frame o q where
  leases := g.leases.trans h.leases
  nextId := g.nextId.trans h.nextId
  resends := g.resends.trans h.resends
  resets := g.resets.trans h.resets

theorem foldl {f : Outbox → Outstanding → Outbox} (step : ∀ o e, Frame o (f o e)) (o : Outbox)
    (es : List Outstanding) : Frame o (es.foldl f o) := by
  induction es generalizing o with
  | nil => exact refl o
  | cons e es ih => exact (step o e).trans (ih (f o e))

theorem forget (o : Outbox) (T : UInt32) : Frame o (o.forget T) := by
  unfold Outbox.forget
  split
  · exact refl o
  · exact ⟨rfl, rfl, rfl, rfl⟩

theorem registerAcks (o : Outbox) (T : UInt32) (ackIds : List UInt32) :
    Frame o (o.registerAcks T ackIds) := by
  unfold Outbox.registerAcks
  split_ifs
  · exact ⟨rfl, rfl, rfl, rfl⟩
  · exact refl o

theorem settle (now : Nat) (resent : List UInt32) (o : Outbox) (e : Outstanding) :
    Frame o (o.settle now resent e) := ⟨rfl, rfl, rfl, rfl⟩

end Frame

section Round

variable {layer : TunnelLayer}

theorem lastNaming_append (id : UInt32) (hs more : List Handoff) :
    lastNaming id (hs ++ more) = (lastNaming id more).or (lastNaming id hs) := by
  rw [lastNaming, List.reverse_append, List.findSome?_append]
  rfl

theorem entries_encryptAgain (moment : Moment) (s : Sender) (supply : Supply)
    (es : List Outstanding) : (encryptAgain moment layer s supply es).1.map Attempt.entry = es := by
  induction es generalizing s supply with
  | nil => rfl
  | cons e es ih => rw [encryptAgain, List.map_cons, ih]

theorem registerAcks_nil (o : Outbox) (T : UInt32) : o.registerAcks T [] = o := by
  have same : (o.entries.modify T fun e => { e with ackIds := e.ackIds ++ [] }) = o.entries := by
    rw [Table.modify]
    simp
  rw [registerAcks, same]
  split_ifs <;> rfl

/-- What an attempt makes of a round if no status comes in meanwhile. -/
theorem attempt_of_mute (mute : layer.Mute) (moment : Moment) (r : Round) (e : Outstanding)
    {result : Except SendFault Sealed} {s : Sender}
    (encrypted : r.outbox.sender.encrypt moment r.supply.next.1 (layer.reply e.trackingId) e.explicit
      e.trackingId e.cloves = (result, s)) :
    let a : Attempt := ⟨e, result⟩
    attempt moment layer r e =
      { outbox := { r.outbox with sender := s }.registerAcks e.trackingId a.confirmations
        supply := r.supply.next.2
        handoffs := (a.handoff? layer r.outbox.leases).toList ++ r.handoffs
        resent := if a.succeeds layer r.outbox.leases then e.trackingId :: r.resent else r.resent
        failures := r.failures + if a.succeeds layer r.outbox.leases then 0 else 1 } := by
  intro a
  unfold attempt
  cases result with
  | error f =>
    simp only [encrypted]
    rw [show a.confirmations = [] from rfl, registerAcks_nil]
    rfl
  | ok m =>
    have silent : (layer.carry ⟨r.outbox.leases, m⟩).reported = [] := mute _
    simp only [encrypted, handOff, leases_registerAcks, silent, deliveryStatuses]
    have accepted : a.succeeds layer r.outbox.leases =
        (layer.carry ⟨r.outbox.leases, m⟩).result.isOk := rfl
    rw [accepted]
    cases (layer.carry ⟨r.outbox.leases, m⟩).result <;> rfl

/-- What a round of attempts leads to if no status comes in meanwhile. -/
structure Tallied (layer : TunnelLayer) (r : Round) (attempts : List Attempt) (r' : Round) : Prop where
  keyed : r'.outbox.Keyed
  tried : ∀ a ∈ attempts, r'.outbox.entries.find? a.entry.trackingId =
    some { a.entry with ackIds := a.entry.ackIds ++ a.confirmations }
  others : ∀ T ∉ attempts.map (·.entry.trackingId),
    r'.outbox.entries.find? T = r.outbox.entries.find? T
  acks : ∀ id, r'.outbox.acks.find? id =
    (lastNaming id (attempts.filterMap (·.handoff? layer r.outbox.leases))).or
      (r.outbox.acks.find? id)
  frame : Frame r.outbox r'.outbox
  handoffs : r'.handoffs =
    (attempts.filterMap (·.handoff? layer r.outbox.leases)).reverse ++ r.handoffs
  resent : r'.resent = ((attempts.filter (·.succeeds layer r.outbox.leases)).map
    (·.entry.trackingId)).reverse ++ r.resent
  failures : r'.failures = r.failures + attempts.countP (!·.succeeds layer r.outbox.leases)

theorem tallied_attempt (mute : layer.Mute) (moment : Moment) {r : Round} (keyed : r.outbox.Keyed)
    {e : Outstanding} (there : r.outbox.entries.find? e.trackingId = some e)
    {result : Except SendFault Sealed} {s : Sender}
    (encrypted : r.outbox.sender.encrypt moment r.supply.next.1 (layer.reply e.trackingId) e.explicit
      e.trackingId e.cloves = (result, s)) :
    Tallied layer r [⟨e, result⟩] (attempt moment layer r e) := by
  rw [attempt_of_mute mute moment r e encrypted]
  constructor
  case keyed =>
    have same : Keyed { r.outbox with sender := s } := ⟨keyed.distinct, keyed.keyed⟩
    exact same.register _ _
  case tried =>
    intro a mem
    obtain rfl := List.mem_singleton.mp mem
    rw [find?_entries_registerAcks, if_pos rfl]
    exact congrArg _ there
  case others =>
    intro T other
    have apart : T ≠ e.trackingId := by simpa using other
    rw [find?_entries_registerAcks, if_neg apart]
  case acks =>
    intro id
    have present : r.outbox.entries.contains e.trackingId := by
      rw [Table.contains, there]
      rfl
    rw [find?_acks_registerAcks]
    cases result with
    | error f => simp [Attempt.confirmations, Attempt.handoff?, Except.toOption, lastNaming]
    | ok m =>
      have own : m.trackingId = e.trackingId := trackingId_encrypt encrypted
      have handed : [(⟨e, .ok m⟩ : Attempt)].filterMap (·.handoff? layer r.outbox.leases) =
          [⟨⟨r.outbox.leases, m⟩, layer.carry ⟨r.outbox.leases, m⟩, []⟩] := rfl
      rw [handed, lastNaming, List.reverse_singleton, List.findSome?_singleton, own]
      by_cases named : id ∈ m.confirmations
      · rw [if_pos ⟨present, named⟩, if_pos named]
        rfl
      · rw [if_neg fun both => named both.2, if_neg named]
        rfl
  case frame =>
    have same : Frame r.outbox { r.outbox with sender := s } := ⟨rfl, rfl, rfl, rfl⟩
    exact same.trans (.registerAcks _ _ _)
  case handoffs => cases result <;> rfl
  case resent =>
    rw [List.filter_singleton]
    cases (⟨e, result⟩ : Attempt).succeeds layer r.outbox.leases <;> rfl
  case failures =>
    rw [List.countP_singleton]
    cases (⟨e, result⟩ : Attempt).succeeds layer r.outbox.leases <;> rfl

theorem Tallied.cons {r r' r'' : Round} {a : Attempt} {as : List Attempt}
    (first : Tallied layer r [a] r') (rest : Tallied layer r' as r'')
    (alone : a.entry.trackingId ∉ as.map (·.entry.trackingId)) : Tallied layer r (a :: as) r'' := by
  obtain ⟨-, tried, others, acks, frame, handoffs, resent, failures⟩ := first
  rw [List.map_singleton] at others
  constructor
  case keyed => exact rest.keyed
  case tried =>
    intro b mem
    rcases List.mem_cons.mp mem with rfl | later
    · rw [rest.others _ alone]
      exact tried b (List.mem_singleton_self b)
    · exact rest.tried b later
  case others =>
    intro T other
    rw [List.map_cons, List.mem_cons, not_or] at other
    have apart : T ∉ [a.entry.trackingId] := by simpa using other.1
    rw [rest.others T other.2, others T apart]
  case acks =>
    intro id
    rw [← List.singleton_append, List.filterMap_append, lastNaming_append, rest.acks, acks,
      frame.leases, Option.or_assoc]
  case frame => exact frame.trans rest.frame
  case handoffs =>
    rw [← List.singleton_append, List.filterMap_append, rest.handoffs, handoffs,
      frame.leases, List.reverse_append, List.append_assoc]
  case resent =>
    rw [← List.singleton_append, List.filter_append, List.map_append, rest.resent, resent,
      frame.leases, List.reverse_append, List.append_assoc]
  case failures =>
    rw [← List.singleton_append, List.countP_append, rest.failures, failures, frame.leases,
      Nat.add_assoc]

theorem round_of_mute (mute : layer.Mute) (moment : Moment) {r : Round} (keyed : r.outbox.Keyed)
    {es : List Outstanding} (distinct : (es.map Outstanding.trackingId).Nodup)
    (there : ∀ e ∈ es, r.outbox.entries.find? e.trackingId = some e) :
    let again := encryptAgain moment layer r.outbox.sender r.supply es
    let r' := es.foldl (attempt moment layer) r
    Tallied layer r again.1 r' ∧ r'.outbox.sender = again.2 ∧
      r'.supply = { r.supply with used := r.supply.used + es.length } := by
  induction es generalizing r with
  | nil =>
    refine ⟨⟨keyed, ?_, fun _ _ => rfl, fun _ => rfl, .refl _, rfl, rfl, rfl⟩, rfl, rfl⟩
    intro a mem
    cases mem
  | cons e es ih =>
    obtain ⟨alone, distinct⟩ := List.nodup_cons.mp distinct
    obtain ⟨here, there⟩ := List.forall_mem_cons.mp there
    cases encrypted : r.outbox.sender.encrypt moment r.supply.next.1 (layer.reply e.trackingId)
      e.explicit e.trackingId e.cloves with
    | mk result s =>
      -- The first attempt touches no other send, so the rest of the round finds them all as they were.
      have first := tallied_attempt mute moment keyed here encrypted
      have made := attempt_of_mute mute moment r e encrypted
      have sender : (attempt moment layer r e).outbox.sender = s := by
        rw [made]
        exact sender_registerAcks _ _ _
      have supply : (attempt moment layer r e).supply = r.supply.next.2 := by rw [made]
      have still : ∀ x ∈ es,
          (attempt moment layer r e).outbox.entries.find? x.trackingId = some x := by
        intro x mem
        have apart : x.trackingId ∉ [(⟨e, result⟩ : Attempt)].map (·.entry.trackingId) := by
          rw [List.map_singleton, List.mem_singleton]
          intro same
          exact alone (same ▸ List.mem_map_of_mem mem)
        rw [first.others x.trackingId apart]
        exact there x mem
      obtain ⟨rest, session, left⟩ := ih first.keyed distinct still
      rw [sender, supply] at rest session
      rw [supply] at left
      let again := (encryptAgain moment layer s r.supply.next.2 es).1
      have entries : again.map Attempt.entry = es := entries_encryptAgain moment _ _ es
      have ids : again.map (·.entry.trackingId) = es.map Outstanding.trackingId := by
        conv_rhs => rw [← entries]
        rw [List.map_map]
        rfl
      have count : r.supply.next.2.used + es.length = r.supply.used + (es.length + 1) := by
        show r.supply.used + 1 + es.length = r.supply.used + (es.length + 1)
        omega
      rw [count] at left
      rw [← ids] at alone
      simp only [encryptAgain, encrypted, List.foldl_cons, List.length_cons]
      exact ⟨first.cons rest alone, session, left⟩

end Round

section Window

variable {o : Outbox}

/-- Sends that go take their status ids with them. -/
theorem Keyed.find?_acks_foldl_forget (h : o.Keyed) {es : List Outstanding}
    (distinct : (es.map Outstanding.trackingId).Nodup)
    (there : ∀ e ∈ es, o.entries.find? e.trackingId = some e) (id : UInt32) :
    (es.foldl (fun o e => o.forget e.trackingId) o).acks.find? id =
      if ∃ e ∈ es, id ∈ e.ackIds then none else o.acks.find? id := by
  induction es generalizing o with
  | nil => simp
  | cons e es ih =>
    obtain ⟨alone, distinct⟩ := List.nodup_cons.mp distinct
    obtain ⟨here, there⟩ := List.forall_mem_cons.mp there
    have still : ∀ x ∈ es, (o.forget e.trackingId).entries.find? x.trackingId = some x := by
      intro x mem
      have apart : x.trackingId ≠ e.trackingId := by
        intro same
        exact alone (same ▸ List.mem_map_of_mem mem)
      rw [find?_entries_forget, if_neg apart]
      exact there x mem
    rw [List.foldl_cons, ih (h.forget e.trackingId) distinct still, find?_acks_forget, here]
    simp only [Option.some.injEq, exists_eq_left', List.mem_cons, exists_eq_or_imp]
    by_cases own : id ∈ e.ackIds <;> simp [own]

def surviving (o : Outbox) (now : Nat) : List Outstanding :=
  o.entries.values.filter fun e => o.fate now e = .waits ∨ o.fate now e = .goesAgain

/-- Every send survives, or expires, or is dropped. -/
theorem length_surviving (o : Outbox) (now : Nat) :
    o.entries.size =
      (o.surviving now).length + (o.fated now .expires).length + (o.fated now .dropped).length := by
  have size : o.entries.size = o.entries.values.length := (List.length_map _).symm
  rw [size, surviving, fated, fated]
  induction o.entries.values with
  | nil => rfl
  | cons e es ih =>
    rw [List.length_cons, ih, List.filter_cons, List.filter_cons, List.filter_cons]
    cases o.fate now e <;> simp <;> omega

theorem mem_surviving {now : Nat} {e : Outstanding} : e ∈ o.surviving now ↔
    e ∈ o.entries.values ∧ (o.fate now e = .waits ∨ o.fate now e = .goesAgain) := by
  simp [surviving]

theorem Keyed.mem_trackingIds_iff (h : o.Keyed) {T : UInt32} :
    T ∈ o.entries.values.map Outstanding.trackingId ↔ o.entries.find? T ≠ none := by
  rw [List.mem_map]
  constructor
  · intro there
    obtain ⟨e, mem, rfl⟩ := there
    rw [h.mem_values_iff.mp mem]
    exact Option.some_ne_none e
  · intro there
    obtain ⟨e, found⟩ := Option.ne_none_iff_exists'.mp there
    obtain rfl := h.keyed T e found
    exact ⟨e, h.mem_values_iff.mpr found, rfl⟩

theorem Keyed.opened (h : o.Keyed) (supply : Supply) (now : Nat) :
    let p := (o.opening supply now).outbox
    p.Keyed ∧ Frame (o.renewed now) p ∧ p.sender = (o.renewed now).sender ∧
      (∀ e, p.entries.find? e.trackingId = some e ↔ e ∈ o.surviving now) ∧
      ∀ id, p.acks.find? id =
        if ∃ e ∈ o.entries.values,
            (o.fate now e = .expires ∨ o.fate now e = .dropped) ∧ id ∈ e.ackIds then
          none
        else o.acks.find? id := by
  intro p
  have pruned := h.pruned now
  have keyed : p.Keyed := pruned.foldl_forget _
  refine ⟨keyed, ?_, (sender_foldl_forget _ _).trans (o.sender_pruned now), ?_, ?_⟩
  · have first : Frame (o.renewed now) (o.pruned now) := .foldl (fun o e => .forget o e.trackingId) _ _
    exact first.trans (.foldl (fun o e => .forget o e.trackingId) _ _)
  · intro e
    rw [← keyed.mem_values_iff, mem_surviving]
    exact h.mem_opening supply now
  · intro id
    have gone {u : Outbox} (hu : u.Keyed) {es : List Outstanding} (sub : es.Sublist u.entries.values) :
        (es.foldl (fun o e => o.forget e.trackingId) u).acks.find? id =
          if ∃ e ∈ es, id ∈ e.ackIds then none else u.acks.find? id := by
      apply hu.find?_acks_foldl_forget (hu.nodup_trackingIds.sublist (sub.map _))
      intro e mem
      exact hu.mem_values_iff.mp (sub.subset mem)
    have first : (o.pruned now).acks.find? id =
        if ∃ e ∈ o.expired now, id ∈ e.ackIds then none else o.acks.find? id :=
      gone (h.renewed now) List.filter_sublist
    have second : p.acks.find? id =
        if ∃ e ∈ o.dropped now, id ∈ e.ackIds then none else (o.pruned now).acks.find? id :=
      gone pruned (List.filter_sublist.trans List.filter_sublist)
    rw [second, first, expired_eq_fated, h.dropped_eq_fated]
    have either : (∃ e ∈ o.entries.values,
        (o.fate now e = .expires ∨ o.fate now e = .dropped) ∧ id ∈ e.ackIds) ↔
          (∃ e ∈ o.fated now .dropped, id ∈ e.ackIds) ∨ ∃ e ∈ o.fated now .expires, id ∈ e.ackIds := by
      simp only [mem_fated]
      grind
    rw [if_congr either rfl rfl, ite_or]

/-- What a round of maintenance makes of the sends in the window. -/
structure Upkeep (o : Outbox) (now : Nat) (layer : TunnelLayer) (attempts : List Attempt)
    (after : Outbox) : Prop where
  keyed : after.Keyed
  tried : ∀ a ∈ attempts,
    after.entries.find? a.entry.trackingId = some (a.settled layer o.leases now)
  waits : ∀ e ∈ o.fated now .waits, after.entries.find? e.trackingId = some e
  gone : ∀ T, after.entries.find? T ≠ none → ∃ e ∈ o.surviving now, e.trackingId = T
  acks : ∀ id, after.acks.find? id =
    (lastNaming id (attempts.filterMap (·.handoff? layer o.leases))).or
      (if ∃ e ∈ o.entries.values,
          (o.fate now e = .expires ∨ o.fate now e = .dropped) ∧ id ∈ e.ackIds then
        none
      else o.acks.find? id)

theorem mem_resent_iff {as : List Attempt} (distinct : (as.map (·.entry.trackingId)).Nodup)
    {q : Attempt → Bool} {a : Attempt} (mem : a ∈ as) :
    a.entry.trackingId ∈ (as.filter q).map (·.entry.trackingId) ↔ q a := by
  constructor
  · intro counted
    obtain ⟨b, hb, same⟩ := List.mem_map.mp counted
    obtain ⟨there, passed⟩ := List.mem_filter.mp hb
    rwa [← List.inj_on_of_nodup_map distinct there mem same]
  · intro passed
    exact List.mem_map_of_mem (List.mem_filter.mpr ⟨mem, passed⟩)

theorem acks_foldl_settle (o : Outbox) (now : Nat) (resent : List UInt32) (es : List Outstanding) :
    (es.foldl (settle now resent) o).acks = o.acks := by
  induction es generalizing o with
  | nil => rfl
  | cons e es ih => exact ih (o.settle now resent e)

/-- The attempts of a round settled, after the round has found its sends as they were. -/
theorem Keyed.settled (h : o.Keyed) {layer : TunnelLayer} {supply : Supply} {now : Nat}
    {attempts : List Attempt} {r : Round} (again : attempts.map Attempt.entry = o.fated now .goesAgain)
    (round : Tallied layer (o.opening supply now) attempts r) :
    Upkeep o now layer attempts
      ((o.fated now .goesAgain).foldl (Outbox.settle now r.resent) r.outbox) := by
  obtain ⟨keyed, frame, -, there, acks⟩ := h.opened supply now
  have leases : (o.opening supply now).outbox.leases = o.leases := frame.leases
  have distinct : ((o.fated now .goesAgain).map Outstanding.trackingId).Nodup :=
    h.due_eq_fated now ▸ h.nodup_due now
  have ids : attempts.map (·.entry.trackingId) =
      (o.fated now .goesAgain).map Outstanding.trackingId := by
    rw [← again, List.map_map]
    rfl
  have find? := find?_entries_foldl_settle round.keyed now r.resent distinct
  constructor
  case keyed =>
    rw [foldl_settle_eq_perform]
    exact round.keyed.perform _
  case tried =>
    intro a mem
    have due : a.entry.trackingId ∈ (o.fated now .goesAgain).map Outstanding.trackingId :=
      ids ▸ List.mem_map_of_mem mem
    have counted : r.resent.contains a.entry.trackingId = a.succeeds layer o.leases := by
      rw [round.resent, leases, Bool.eq_iff_iff, List.contains_iff_mem, List.mem_append,
        List.mem_reverse, mem_resent_iff (ids ▸ distinct) mem]
      exact or_iff_left List.not_mem_nil
    rw [find?, if_pos due, round.tried a mem, counted]
    rfl
  case waits =>
    intro e mem
    obtain ⟨mem, fate⟩ := mem_fated.mp mem
    have other : e.trackingId ∉ (o.fated now .goesAgain).map Outstanding.trackingId := by
      intro due
      have again := of_decide_eq_true ((h.mem_ids_filter mem).mp due)
      rw [fate] at again
      cases again
    rw [find?, if_neg other, round.others _ (ids ▸ other)]
    exact (there e).mpr (mem_surviving.mpr ⟨mem, .inl fate⟩)
  case gone =>
    intro T present
    by_cases due : T ∈ (o.fated now .goesAgain).map Outstanding.trackingId
    · obtain ⟨e, mem, rfl⟩ := List.mem_map.mp due
      obtain ⟨mem, fate⟩ := mem_fated.mp mem
      exact ⟨e, mem_surviving.mpr ⟨mem, .inr fate⟩, rfl⟩
    · rw [find?, if_neg due, round.others T (ids ▸ due)] at present
      obtain ⟨e, found⟩ := Option.ne_none_iff_exists'.mp present
      obtain rfl := keyed.keyed T e found
      exact ⟨e, (there e).mp found, rfl⟩
  case acks =>
    intro id
    rw [acks_foldl_settle, round.acks, leases, acks]

theorem Keyed.upkeep (h : o.Keyed) {layer : TunnelLayer} (mute : layer.Mute) (moment : Moment)
    (supply : Supply) :
    let now := moment.instant
    let again := encryptAgain moment layer (o.renewed now).sender supply (o.fated now .goesAgain)
    let result := o.maintain moment supply layer
    let after := result.2.2.2
    Upkeep o now layer again.1 after ∧
      result.1 = {
        resent := again.1.countP (·.succeeds layer o.leases)
        failures := again.1.countP (!·.succeeds layer o.leases)
        expired := (o.fated now .expires).length
        dropped := (o.fated now .dropped).length
        reset := o.stuck now } ∧
      result.2.1 = again.1.filterMap (·.handoff? layer o.leases) ∧
      result.2.2.1 = { supply with used := supply.used + (o.fated now .goesAgain).length } ∧
      after.sender = again.2 ∧ after.leases = o.leases ∧ after.nextId = o.nextId ∧
      after.resends = o.resends + result.1.resent ∧
      after.resets = o.resets + if o.stuck now then 1 else 0 := by
  intro now again result after
  obtain ⟨keyed, frame, sender, there, -⟩ := h.opened supply now
  have leases : (o.opening supply now).outbox.leases = o.leases := frame.leases
  have due : o.due now = o.fated now .goesAgain := h.due_eq_fated now
  have present : ∀ e ∈ o.fated now .goesAgain,
      (o.opening supply now).outbox.entries.find? e.trackingId = some e := by
    intro e mem
    obtain ⟨mem, fate⟩ := mem_fated.mp mem
    exact (there e).mpr (mem_surviving.mpr ⟨mem, .inr fate⟩)
  let during := (o.fated now .goesAgain).foldl (attempt moment layer) (o.opening supply now)
  let closing := (o.fated now .goesAgain).foldl (Outbox.settle now during.resent) during.outbox
  obtain ⟨round, session, left⟩ : Tallied layer (o.opening supply now) again.1 during ∧
      during.outbox.sender = again.2 ∧ during.supply = _ := by
    have round := round_of_mute mute moment keyed (due ▸ h.nodup_due now) present
    rwa [sender] at round
  have closed : Frame during.outbox closing := .foldl (.settle now during.resent) _ _
  have whole := round.frame.trans closed
  have upkeep : Upkeep o now layer again.1 closing :=
    h.settled (entries_encryptAgain moment _ _ _) round
  have resent : during.resent.length = again.1.countP (·.succeeds layer o.leases) := by
    rw [round.resent, leases, List.length_append, List.length_reverse, List.length_map,
      ← List.countP_eq_length_filter]
    rfl
  have failures : during.failures = again.1.countP (!·.succeeds layer o.leases) := by
    rw [round.failures, leases]
    exact Nat.zero_add _
  have handoffs : during.handoffs.reverse = again.1.filterMap (·.handoff? layer o.leases) := by
    rw [round.handoffs, leases, List.reverse_append, List.reverse_reverse]
    rfl
  have made : result = (⟨during.resent.length, during.failures, (o.expired now).length,
      (o.dropped now).length, o.stuck now⟩, during.handoffs.reverse, during.supply,
      { closing with resends := closing.resends + during.resent.length }) := by
    show o.maintain moment supply layer = _
    rw [maintain_eq]
    simp only [attempted, show o.due moment.instant = _ from due]
    rfl
  have resets : closing.resets = o.resets + if o.stuck now then 1 else 0 := by
    rw [whole.resets, frame.resets, Outbox.renewed]
    split_ifs <;> rfl
  have resends : closing.resends = o.resends := whole.resends.trans frame.resends
  have sender : closing.sender = again.2 := (sender_foldl_settle _ _ _ _).trans session
  have now' : after = { closing with resends := closing.resends + during.resent.length } := by
    show result.2.2.2 = _
    rw [made]
  rw [now', made, resent, failures, expired_eq_fated, h.dropped_eq_fated, resends]
  exact ⟨⟨⟨upkeep.keyed.distinct, upkeep.keyed.keyed⟩, upkeep.tried, upkeep.waits, upkeep.gone,
    upkeep.acks⟩, rfl, handoffs, left, sender, whole.leases.trans leases,
    whole.nextId.trans frame.nextId, rfl, resets⟩

theorem Keyed.size_upkeep (h : o.Keyed) {layer : TunnelLayer} {now : Nat} {attempts : List Attempt}
    {after : Outbox} (again : attempts.map Attempt.entry = o.fated now .goesAgain)
    (upkeep : Upkeep o now layer attempts after) : after.entries.size = (o.surviving now).length := by
  have distinct : ((o.surviving now).map Outstanding.trackingId).Nodup :=
    h.nodup_trackingIds.sublist (List.filter_sublist.map _)
  have left (T : UInt32) : T ∈ after.entries.values.map Outstanding.trackingId ↔
      T ∈ (o.surviving now).map Outstanding.trackingId := by
    rw [upkeep.keyed.mem_trackingIds_iff, List.mem_map]
    constructor
    · exact upkeep.gone T
    · intro survives
      obtain ⟨e, mem, rfl⟩ := survives
      obtain ⟨there, waits | goesAgain⟩ := mem_surviving.mp mem
      · rw [upkeep.waits e (mem_fated.mpr ⟨there, waits⟩)]
        exact Option.some_ne_none e
      · have due : e ∈ attempts.map Attempt.entry := again ▸ mem_fated.mpr ⟨there, goesAgain⟩
        obtain ⟨a, tried, rfl⟩ := List.mem_map.mp due
        rw [upkeep.tried a tried]
        exact Option.some_ne_none _
  -- Neither list names a send twice, so they are of one length.
  have perm := (List.perm_ext_iff_of_nodup upkeep.keyed.nodup_trackingIds distinct).mpr left
  have size : after.entries.size = (after.entries.values.map Outstanding.trackingId).length := by
    rw [List.length_map, Table.values, List.length_map]
    rfl
  rw [size, perm.length_eq, List.length_map]

/-- The four fates of a send exclude each other. -/
theorem fate_iff (o : Outbox) (now : Nat) (e : Outstanding) :
    (o.fate now e = .expires ↔ o.isExpired now e) ∧
    (o.fate now e = .waits ↔ ¬ o.isExpired now e ∧ ¬ o.isStale now e) ∧
    (o.fate now e = .goesAgain ↔ ¬ o.isExpired now e ∧ o.isStale now e ∧
      (e.explicit ∨ o.sender.barrier.isSome)) ∧
    (o.fate now e = .dropped ↔ ¬ o.isExpired now e ∧ o.isStale now e ∧
      ¬ (e.explicit ∨ o.sender.barrier.isSome)) := by
  unfold fate
  cases o.isExpired now e <;> cases o.isStale now e <;> cases e.explicit <;>
    cases o.sender.barrier <;> simp

/-- What a round has left has nothing to wait for but time. -/
theorem Upkeep.fate_eq_waits {layer : TunnelLayer} {now : Nat} {attempts : List Attempt}
    {after : Outbox} (upkeep : Upkeep o now layer attempts after)
    (again : attempts.map Attempt.entry = o.fated now .goesAgain)
    (settings : after.sender.settings = o.sender.settings)
    (interval : 0 < o.sender.settings.resendSpan.nanoseconds) {e : Outstanding}
    (there : e ∈ after.entries.values) : after.fate now e = .waits := by
  have found := upkeep.keyed.mem_values_iff.mp there
  have expired : after.isExpired now e = o.isExpired now e := by rw [isExpired, isExpired, settings]
  have stale : after.isStale now e = o.isStale now e := by rw [isStale, isStale, settings]
  rw [(after.fate_iff now e).2.1, expired, stale]
  obtain ⟨old, mem, same⟩ := upkeep.gone e.trackingId (by simp [found])
  obtain ⟨there, waits | goesAgain⟩ := mem_surviving.mp mem
  · have kept := upkeep.waits old (mem_fated.mpr ⟨there, waits⟩)
    rw [same, found] at kept
    obtain rfl := Option.some.inj kept
    exact (o.fate_iff now e).2.1.mp waits
  · have due : old ∈ attempts.map Attempt.entry := again ▸ mem_fated.mpr ⟨there, goesAgain⟩
    obtain ⟨a, tried, rfl⟩ := List.mem_map.mp due
    -- An attempt is made at the time of the round, whatever came of it.
    have settled := upkeep.tried a tried
    rw [same, found] at settled
    obtain rfl := Option.some.inj settled
    obtain ⟨open_, -⟩ := (o.fate_iff now a.entry).2.2.1.mp goesAgain
    have fresh : ¬ o.sender.settings.resendSpan.nanoseconds ≤ now - now := by omega
    exact ⟨open_, by simpa [isStale, Attempt.settled] using fresh⟩

end Window

section Run

variable (remote : Identity) (remoteKey : ElGamal.PublicKey) (settings : Settings)

/-- A round of maintenance accounts for every send, in every reachable window and whatever its attempts
meet with, as long as no status comes in meanwhile. Each send has one of four fates. Those whose window
has closed and those that nothing waits for leave the window, with their status ids; those that wait
stay as they are; each of the others is encrypted once, with a draw of its own, and stays in the window
whether or not its message is taken. The report counts them all, and afterwards none is left for which
there is anything to do at that time. -/
theorem sends_accounted_for (es : List Event) (moment : Moment) (supply : Supply)
    (layer : TunnelLayer) (mute : layer.Mute) :
    let o := (Outbox.new (.new remote remoteKey settings)).run es
    let now := moment.instant
    let check := o.sender.resetIfStuck now settings.resendSpan.nanoseconds
    let again := o.fated now .goesAgain
    let encrypted := encryptAgain moment layer check.2 supply again
    let attempts := encrypted.1
    let result := o.maintain moment supply layer
    let report := result.1
    let after := result.2.2.2
    (∀ e,
      let expired := settings.windowSpan.nanoseconds < now - e.created
      let stale := settings.resendSpan.nanoseconds ≤ now - e.lastSend
      let awaited := e.explicit ∨ check.1 ∨ check.2.barrier.isSome
      (o.fate now e = .expires ↔ expired) ∧
      (o.fate now e = .waits ↔ ¬ expired ∧ ¬ stale) ∧
      (o.fate now e = .goesAgain ↔ ¬ expired ∧ stale ∧ awaited) ∧
      (o.fate now e = .dropped ↔ ¬ expired ∧ stale ∧ ¬ awaited)) ∧
    report = {
      resent := attempts.countP (·.succeeds layer o.leases)
      failures := attempts.countP (!·.succeeds layer o.leases)
      expired := (o.fated now .expires).length
      dropped := (o.fated now .dropped).length
      reset := check.1 } ∧
    o.entries.size = after.entries.size + report.expired + report.dropped ∧
    report.resent + report.failures = again.length ∧
    attempts.map Attempt.entry = again ∧
    result.2.2.1 = { supply with used := supply.used + again.length } ∧
    result.2.1 = attempts.filterMap (·.handoff? layer o.leases) ∧
    (∀ a ∈ attempts,
      after.entries.find? a.entry.trackingId = some (a.settled layer o.leases now)) ∧
    (∀ e ∈ o.fated now .waits, after.entries.find? e.trackingId = some e) ∧
    (∀ T, after.entries.find? T ≠ none → ∃ e ∈ o.surviving now, e.trackingId = T) ∧
    (∀ id, after.acks.find? id = (lastNaming id result.2.1).or
      (if ∃ e ∈ o.entries.values,
          (o.fate now e = .expires ∨ o.fate now e = .dropped) ∧ id ∈ e.ackIds then
        none
      else o.acks.find? id)) ∧
    after.resends = o.resends + report.resent ∧
    after.resets = o.resets + (if report.reset then 1 else 0) ∧
    after.sender = encrypted.2 ∧ after.leases = o.leases ∧ after.nextId = o.nextId ∧
    (0 < settings.resendInterval → ∀ e ∈ after.entries.values, after.fate now e = .waits) := by
  intro o now check again encrypted attempts result report after
  have keyed : o.Keyed := (numbered_run _ es).toKeyed
  obtain ⟨frame, sound⟩ := sender_frame_run remote remoteKey settings es
  have same : o.sender.settings = settings := frame.settings
  have renewed : (o.renewed now).sender = check.2 := by
    show (o.sender.resetIfStuck now o.sender.settings.resendSpan.nanoseconds).2 = _
    rw [same]
  have stuck : o.stuck now = check.1 := by rw [stuck, same]
  obtain ⟨upkeep, counts, handoffs, left, sender, leases, nextId, resends, resets⟩ :=
    keyed.upkeep mute moment supply
  rw [renewed] at upkeep counts handoffs sender
  rw [stuck] at counts resets
  have entries : attempts.map Attempt.entry = again := entries_encryptAgain moment _ _ _
  have size := (keyed.size_upkeep entries upkeep).symm
  have total := o.length_surviving now
  refine ⟨?_, counts, ?_, ?_, entries, left, handoffs, upkeep.tried, upkeep.waits, upkeep.gone, ?_,
    resends, ?_, sender, leases, nextId, ?_⟩
  · intro e expired stale awaited
    have late : o.isExpired now e ↔ expired := by rw [isExpired, same, decide_eq_true_eq]
    have due : o.isStale now e ↔ stale := by rw [isStale, same, decide_eq_true_eq]
    have wanted : (e.explicit ∨ o.sender.barrier.isSome) ↔ awaited := by
      rw [← o.handshaking_eq now, handshaking, renewed, stuck, Bool.or_eq_true]
    rw [← late, ← due, ← wanted]
    exact o.fate_iff now e
  · have expired : report.expired = (o.fated now .expires).length := congrArg Report.expired counts
    have dropped : report.dropped = (o.fated now .dropped).length := congrArg Report.dropped counts
    rw [expired, dropped, total, ← size]
  · have resent : report.resent = attempts.countP (·.succeeds layer o.leases) :=
      congrArg Report.resent counts
    have failures : report.failures = attempts.countP (!·.succeeds layer o.leases) :=
      congrArg Report.failures counts
    have parts := List.length_eq_countP_add_countP (l := attempts) (Attempt.succeeds · layer o.leases)
    simp only [decide_not, Bool.decide_eq_true] at parts
    rw [resent, failures, ← entries, List.length_map, parts]
  · rw [handoffs]
    exact upkeep.acks
  · have reset : report.reset = check.1 := congrArg Report.reset counts
    rw [reset]
    exact resets
  · intro interval e there
    have settled : after.sender.settings = o.sender.settings := by
      have steps := (sender_frame_perform sound (o.steps (.maintain moment supply layer))).1
      rw [← after_eq_perform] at steps
      exact steps.settings
    have span : 0 < o.sender.settings.resendSpan.nanoseconds := by
      rw [same]
      simp only [Settings.resendSpan, Span.ofSeconds, Span.nanoseconds]
      omega
    exact upkeep.fate_eq_waits entries settled span there

/-- Seven sends, of which the third ends the handshake of the first. -/
def sevenSends : List Event :=
  [.send ⟨0, 0⟩ (.numbered 0) openLayer true [],
    .send ⟨100000000000, 0⟩ (.numbered 1) openLayer false [],
    .send ⟨100000000000, 0⟩ (.numbered 2) openLayer false [],
    .status 5,
    .send ⟨101000000000, 0⟩ (.numbered 3) openLayer true [],
    .send ⟨101000000000, 0⟩ (.numbered 4) openLayer true [],
    .send ⟨101000000000, 0⟩ (.numbered 5) openLayer true [],
    .send ⟨110000000000, 0⟩ (.numbered 6) openLayer true []]

/-- The fifth send is refused, and the sixth finds no reply tunnel. -/
def oneTaken : TunnelLayer where
  reply id := if id = 6 then none else openLayer.reply id
  carry shipment :=
    ⟨if shipment.message.trackingId = 5 then .error .noOutboundTunnel else .ok (), []⟩

theorem sends_accounted_for_fourFates :
    let moment : Moment := ⟨121000000000, 0⟩
    let o := (Outbox.new (.new ⟨.ofNat 32 1⟩ ⟨.ofNat 256 2⟩ {})).run sevenSends
    let result := o.maintain moment ⟨fun n => .numbered (n + 7), 0⟩ oneTaken
    let after := result.2.2.2
    oneTaken.Mute ∧ o.entries.values.map Outstanding.trackingId = [1, 2, 4, 5, 6, 7] ∧
      result.1 = { resent := 1, failures := 2, expired := 1, dropped := 1 } ∧
      after.entries.size = 4 ∧ result.2.2.1.used = 3 ∧
      (∀ T, after.entries.find? T ≠ none → T ∈ [4, 5, 6, 7].map UInt32.ofNat) ∧
      ∀ e ∈ after.entries.values, after.fate moment.instant e = .waits := by
  have mute : oneTaken.Mute := fun _ => rfl
  obtain ⟨-, counts, size, -, -, left, -, -, -, gone, -, -, -, -, -, -, waits⟩ := sends_accounted_for
    ⟨.ofNat 32 1⟩ ⟨.ofNat 256 2⟩ {} sevenSends ⟨121000000000, 0⟩ ⟨fun n => .numbered (n + 7), 0⟩
    oneTaken mute
  refine ⟨mute, by decide +kernel, counts.trans (by decide +kernel), ?_, ?_, ?_, waits (by decide)⟩
  · rw [counts] at size
    exact Nat.add_right_cancel (Nat.add_right_cancel (size.symm.trans (by decide +kernel)))
  · rw [left]
    decide +kernel
  · intro T present
    obtain ⟨e, mem, rfl⟩ := gone T present
    clear present
    revert e
    decide +kernel

end Run

end Outbox

end GarlicRouting
