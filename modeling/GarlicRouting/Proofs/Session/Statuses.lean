import GarlicRouting.Proofs.Session.Index
import Mathlib

/-! Status ids that come in one after the other: what they leave of an outbox depends on which ids
they are, and neither on their order nor on how often each comes. -/
namespace GarlicRouting

namespace Sender

/-- The batch that an acknowledgment makes usable. -/
def accepted? (s : Sender) (ackId : UInt32) : Option Batch :=
  (s.pending.find? ackId).filter fun b => s.key = some b.key

/-- The batch takes the barrier down, when it is acknowledged with this id. -/
def lifts (s : Sender) (ackId : UInt32) : Bool :=
  (s.accepted? ackId).any fun batch => s.barrier.any fun b => batch.handshake || b.ackId = ackId

section Acknowledge

variable (s : Sender) (ackId : UInt32)

theorem find?_pending_acknowledge (id : UInt32) : (s.acknowledge ackId).2.pending.find? id =
    if id = ackId then none else s.pending.find? id := by
  rcases acknowledge_cases s ackId with ⟨absent, h⟩ | ⟨_, -, ⟨-, h⟩ | ⟨-, h⟩⟩ <;> rw [h]
  · split_ifs with hid
    · rw [hid, absent]
    · rfl
  · exact Table.find?_erase _ _ _
  · exact Table.find?_erase _ _ _

theorem accepted?_acknowledge (id : UInt32) :
    (s.acknowledge ackId).2.accepted? id = if id = ackId then none else s.accepted? id := by
  rw [accepted?, find?_pending_acknowledge, key_acknowledge]
  split_ifs <;> rfl

theorem added_acknowledge : (s.acknowledge ackId).1.elim 0 TagAck.added =
    (s.accepted? ackId).elim 0 fun b => b.tags.length := by
  unfold acknowledge accepted?
  cases s.pending.find? ackId with
  | none => rfl
  | some batch =>
    by_cases hkey : s.key = some batch.key <;> simp [hkey, Option.filter_some]

theorem barrier_acknowledge :
    (s.acknowledge ackId).2.barrier = if s.lifts ackId then none else s.barrier := by
  unfold lifts accepted?
  rcases acknowledge_cases s ackId with ⟨absent, h⟩ | ⟨batch, found, ⟨other, h⟩ | ⟨same, h⟩⟩ <;> rw [h]
  · simp [absent]
  · simp [found, Option.filter_some, other]
  · simp [found, Option.filter_some, same]

theorem frame_acknowledge : Frame s (s.acknowledge ackId).2 := by
  rcases acknowledge_cases s ackId with ⟨-, h⟩ | ⟨_, -, ⟨-, h⟩ | ⟨-, h⟩⟩ <;> rw [h] <;>
    exact ⟨rfl, rfl, rfl⟩

variable {s}

theorem stored?_acknowledge (sound : s.usable.Sound) (t : SessionTag) :
    (s.acknowledge ackId).2.usable.stored? t =
      ((s.accepted? ackId).filter fun b => t ∈ b.tags).elim (s.usable.stored? t) fun b =>
        some ⟨t, (), b.created⟩ := by
  unfold accepted?
  rcases acknowledge_cases s ackId with ⟨absent, h⟩ | ⟨batch, found, ⟨other, h⟩ | ⟨same, h⟩⟩ <;> rw [h]
  · simp [absent]
  · simp [found, Option.filter_some, other]
  · simp only [sound.stored?_foldl_insert, found, Option.filter_some, same, decide_true, if_true,
      decide_eq_true_eq]
    split_ifs <;> rfl

end Acknowledge

section Places

variable {s : Sender} {t : SessionTag} {id : UInt32} {b : Batch}

private theorem mem_waiting (h : s.pending.find? id = some b) (ht : t ∈ b.tags) : t ∈ s.waiting :=
  List.mem_flatMap.mpr ⟨(id, b), Table.mem_of_find? h, ht⟩

/-- A tag that waits is not usable yet. -/
theorem stored?_of_waits (sound : s.usable.Sound) (once : ∀ tag, s.places tag ≤ 1)
    (h : s.pending.find? id = some b) (ht : t ∈ b.tags) : s.usable.stored? t = none := by
  have waits := List.count_pos_iff.mpr (mem_waiting h ht)
  have total := once t
  unfold places at total
  by_contra stored
  obtain ⟨e, he⟩ := Option.ne_none_iff_exists'.mp stored
  have usable := List.count_pos_iff.mpr ((mem_available sound).mpr ⟨e, he⟩)
  omega

theorem once_acknowledge (sound : s.usable.Sound) (distinct : s.pending.Distinct)
    (once : ∀ tag, s.places tag ≤ 1) (ackId : UInt32) (tag : SessionTag) :
    (s.acknowledge ackId).2.places tag ≤ 1 :=
  (places_acknowledge sound distinct ackId tag).trans (once tag)

end Places

/-- The session after acknowledgments one after the other. -/
def acknowledged (s : Sender) (ids : List UInt32) : Sender := s.run (ids.map .acknowledge)

section Acknowledged

variable {s : Sender} (ids : List UInt32)

theorem acknowledged_cons (s : Sender) (id : UInt32) (ids : List UInt32) :
    s.acknowledged (id :: ids) = (s.acknowledge id).2.acknowledged ids := rfl

theorem key_acknowledged : (s.acknowledged ids).key = s.key := by
  induction ids generalizing s with
  | nil => rfl
  | cons id ids ih => rw [acknowledged_cons, ih, key_acknowledge]

theorem frame_acknowledged : Frame s (s.acknowledged ids) := by
  induction ids generalizing s with
  | nil => exact .refl s
  | cons id ids ih => exact (frame_acknowledge s id).trans ih

theorem lifetime_acknowledged : (s.acknowledged ids).usable.lifetime = s.usable.lifetime := by
  induction ids generalizing s with
  | nil => rfl
  | cons id ids ih => rw [acknowledged_cons, ih, lifetime_acknowledge]

theorem find?_pending_acknowledged (id : UInt32) :
    (s.acknowledged ids).pending.find? id = if id ∈ ids then none else s.pending.find? id := by
  induction ids generalizing s with
  | nil => rfl
  | cons a ids ih =>
    rw [acknowledged_cons, ih, find?_pending_acknowledge]
    by_cases hid : id = a <;> simp [hid]

/-- The barrier is down as soon as one of the ids has lifted it. -/
theorem barrier_acknowledged :
    (s.acknowledged ids).barrier = if ∃ id ∈ ids, s.lifts id then none else s.barrier := by
  induction ids generalizing s with
  | nil => rfl
  | cons a ids ih =>
    rw [acknowledged_cons, ih, barrier_acknowledge]
    by_cases first : s.lifts a = true
    · simp [first]
    · have same (id : UInt32) (other : id ≠ a) : (s.acknowledge a).2.lifts id = s.lifts id := by
        rw [lifts, lifts, accepted?_acknowledge, if_neg other, barrier_acknowledge, if_neg first]
      have gone : (s.acknowledge a).2.lifts a = false := by
        rw [lifts, accepted?_acknowledge, if_pos rfl]
        rfl
      have later : (∃ id ∈ ids, (s.acknowledge a).2.lifts id = true) ↔
          ∃ id ∈ a :: ids, s.lifts id = true := by
        constructor
        · rintro ⟨id, hid, lifts⟩
          by_cases other : id = a
          · rw [other, gone] at lifts
            cases lifts
          · exact ⟨id, List.mem_cons_of_mem a hid, same id other ▸ lifts⟩
        · rintro ⟨id, hid, lifts⟩
          have other : id ≠ a := fun h => first (h ▸ lifts)
          exact ⟨id, List.mem_of_ne_of_mem other hid, (same id other).symm ▸ lifts⟩
      rw [if_neg first]
      simp only [later]

/-- The usable tags are those from before and those of the batches that the ids make usable. -/
theorem stored?_acknowledged (sound : s.usable.Sound) (distinct : s.pending.Distinct)
    (once : ∀ tag, s.places tag ≤ 1) (t : SessionTag) (e : PoolEntry SessionTag Unit) :
    (s.acknowledged ids).usable.stored? t = some e ↔ s.usable.stored? t = some e ∨
      ∃ id ∈ ids, ∃ b, s.accepted? id = some b ∧ t ∈ b.tags ∧ e = ⟨t, (), b.created⟩ := by
  induction ids generalizing s with
  | nil => simp [acknowledged, run]
  | cons a ids ih =>
    have step : (s.acknowledge a).2.usable.stored? t = some e ↔ s.usable.stored? t = some e ∨
        ∃ b, s.accepted? a = some b ∧ t ∈ b.tags ∧ e = ⟨t, (), b.created⟩ := by
      rw [stored?_acknowledge a sound]
      cases found : s.accepted? a with
      | none => simp
      | some b =>
        by_cases ht : t ∈ b.tags
        · have absent := stored?_of_waits sound once (Option.filter_eq_some_iff.mp found).1 ht
          simp [Option.filter_some, ht, absent, eq_comm]
        · simp [Option.filter_some, ht]
    rw [acknowledged_cons, ih (sound_acknowledge sound a) (distinct_acknowledge distinct a)
      (once_acknowledge sound distinct once a), step]
    simp only [accepted?_acknowledge]
    constructor
    · rintro ((old | first) | ⟨id, hid, b, hb, later⟩)
      · exact .inl old
      · exact .inr ⟨a, List.mem_cons_self, first⟩
      · split_ifs at hb
        exact .inr ⟨id, List.mem_cons_of_mem a hid, b, hb, later⟩
    · rintro (old | ⟨id, hid, b, hb, rest⟩)
      · exact .inl (.inl old)
      · by_cases other : id = a
        · exact .inl (.inr ⟨b, other ▸ hb, rest⟩)
        · exact .inr ⟨id, List.mem_of_ne_of_mem other hid, b, by rwa [if_neg other], rest⟩

/-- How many tags acknowledgments make usable. -/
def added (s : Sender) : List UInt32 → Nat
  | [] => 0
  | id :: ids => (s.acknowledge id).1.elim 0 TagAck.added + (s.acknowledge id).2.added ids

/-- Each batch counts once. -/
theorem added_eq (distinct : s.pending.Distinct) : s.added ids =
    ((s.pending.toList.filter fun p => p.1 ∈ ids ∧ s.key = some p.2.key).map fun p =>
      p.2.tags.length).sum := by
  induction ids generalizing s with
  | nil => simp [added]
  | cons a ids ih =>
    have rest (u : Table UInt32 Batch) (away : ∀ p ∈ u.toList, p.1 ≠ a) :
        (u.toList.filter fun p => p.1 ∈ a :: ids ∧ s.key = some p.2.key) =
          u.toList.filter fun p => p.1 ∈ ids ∧ s.key = some p.2.key := by
      refine List.filter_congr fun p hp => ?_
      simp [away p hp]
    rw [added, ih (distinct_acknowledge distinct a), added_acknowledge, key_acknowledge, accepted?]
    rcases acknowledge_cases s a with ⟨absent, h⟩ | ⟨batch, found, next⟩
    · rw [h, absent, rest s.pending (Table.find?_eq_none_iff.mp absent)]
      simp
    · have pending : (s.acknowledge a).2.pending = s.pending.erase a := by
        rcases next with ⟨-, h⟩ | ⟨-, h⟩ <;> rw [h]
      have one := (((distinct.perm_erase found).filter fun p =>
        p.1 ∈ a :: ids ∧ s.key = some p.2.key).map fun p => p.2.tags.length).sum_nat
      rw [one, List.filter_cons, rest (s.pending.erase a) fun p hp => (Table.mem_erase.mp hp).2, pending,
        found]
      by_cases same : s.key = some batch.key <;> simp [same, Option.filter_some]

end Acknowledged

end Sender

namespace Outbox

section Confirmed

variable {o : Outbox} {ids : List UInt32}

theorem find?_entries_of_confirmed? (h : o.Indexed ids) {id : UInt32} {e : Outstanding}
    (he : o.confirmed? id = some e) :
    o.acks.find? id = some e.trackingId ∧ o.entries.find? e.trackingId = some e := by
  obtain ⟨T, hT, he⟩ := Option.bind_eq_some_iff.mp he
  obtain rfl := h.keyed T e he
  exact ⟨hT, he⟩

/-- A status id still confirms its send, unless another one of the same send was there before. -/
theorem confirmed?_deliveryStatus (h : o.Indexed ids) (a id : UInt32) (e : Outstanding) :
    (o.deliveryStatus a).2.confirmed? id = some e ↔
      o.confirmed? id = some e ∧ o.acks.find? a ≠ some e.trackingId := by
  constructor
  · intro he
    obtain ⟨hid, he⟩ := find?_entries_of_confirmed? (h.deliveryStatus a) he
    rw [find?_acks_deliveryStatus] at hid
    rw [find?_entries_deliveryStatus] at he
    split_ifs at hid he with _ other
    rw [confirmed?, hid]
    exact ⟨he, other⟩
  · rintro ⟨he, other⟩
    obtain ⟨hid, he⟩ := find?_entries_of_confirmed? h he
    have kept : ¬ ∃ e', o.confirmed? a = some e' ∧ id ∈ e'.ackIds := by
      rintro ⟨e', he', member⟩
      obtain ⟨ha, he'⟩ := find?_entries_of_confirmed? h he'
      rw [h.owned e'.trackingId e' id e.trackingId he' member hid] at other
      exact other ha
    rw [confirmed?, find?_acks_deliveryStatus, if_neg kept, hid, Option.bind_some,
      find?_entries_deliveryStatus, if_neg other, he]

theorem sender_deliveryStatuses (ids : List UInt32) :
    (o.deliveryStatuses ids).2.sender = o.sender.acknowledged ids := by
  rw [deliveryStatuses_snd, sender_perform, Sender.acknowledged, List.flatMap_map, List.map_eq_flatMap]
  rfl

theorem deliveryStatuses_append (o : Outbox) (xs ys : List UInt32) :
    o.deliveryStatuses (xs ++ ys) =
      ((o.deliveryStatuses xs).1 ++ ((o.deliveryStatuses xs).2.deliveryStatuses ys).1,
        ((o.deliveryStatuses xs).2.deliveryStatuses ys).2) := by
  induction xs generalizing o with
  | nil => rfl
  | cons a xs ih => rw [List.cons_append, deliveryStatuses_cons, ih, deliveryStatuses_cons, List.cons_append]

/-- A send is gone once one of its status ids has come in. -/
theorem find?_entries_deliveryStatuses (h : o.Indexed ids) (xs : List UInt32) (T : UInt32) :
    (o.deliveryStatuses xs).2.entries.find? T =
      if ∃ id ∈ xs, o.acks.find? id = some T then none else o.entries.find? T := by
  induction xs generalizing o with
  | nil => simp [deliveryStatuses]
  | cons a xs ih =>
    rw [deliveryStatuses_cons, ih (h.deliveryStatus a), find?_entries_deliveryStatus]
    cases he : o.entries.find? T with
    | none => simp
    | some e =>
      by_cases first : o.acks.find? a = some T
      · simp [first]
      · have same (id : UInt32) : (o.deliveryStatus a).2.acks.find? id = some T ↔
            o.acks.find? id = some T := by
          rw [find?_acks_deliveryStatus]
          refine ⟨fun hid => ?_, fun hid => ?_⟩
          · split_ifs at hid
            exact hid
          · rw [if_neg, hid]
            rintro ⟨e', he', member⟩
            obtain ⟨ha, he'⟩ := find?_entries_of_confirmed? h he'
            exact first (h.owned e'.trackingId e' id T he' member hid ▸ ha)
        simp [same, first]

/-- The ids of a confirmed send are gone with it. -/
theorem find?_acks_deliveryStatuses (h : o.Indexed ids) (xs : List UInt32) (j : UInt32) :
    (o.deliveryStatuses xs).2.acks.find? j =
      if ∃ id ∈ xs, ∃ e, o.confirmed? id = some e ∧ j ∈ e.ackIds then none else o.acks.find? j := by
  induction xs generalizing o with
  | nil => simp [deliveryStatuses]
  | cons a xs ih =>
    rw [deliveryStatuses_cons, ih (h.deliveryStatus a), find?_acks_deliveryStatus]
    by_cases first : ∃ e, o.confirmed? a = some e ∧ j ∈ e.ackIds
    · rw [if_pos first, ite_self, if_pos ⟨a, List.mem_cons_self, first⟩]
    · have later : (∃ id ∈ xs, ∃ e, (o.deliveryStatus a).2.confirmed? id = some e ∧ j ∈ e.ackIds) ↔
          ∃ id ∈ a :: xs, ∃ e, o.confirmed? id = some e ∧ j ∈ e.ackIds := by
        constructor
        · rintro ⟨id, hid, e, he, member⟩
          have he := ((confirmed?_deliveryStatus h a id e).mp he).1
          exact ⟨id, List.mem_cons_of_mem a hid, e, he, member⟩
        · rintro ⟨id, hid, e, he, member⟩
          have other : id ≠ a := fun hid => first ⟨e, hid ▸ he, member⟩
          refine ⟨id, List.mem_of_ne_of_mem other hid, e, ?_, member⟩
          refine (confirmed?_deliveryStatus h a id e).mpr ⟨he, fun ha => first ⟨e, ?_, member⟩⟩
          rw [confirmed?, ha]
          exact (find?_entries_of_confirmed? h he).2
      rw [if_neg first, if_congr later rfl rfl]

/-- The sends that status ids confirm, in order. -/
def answered (o : Outbox) (xs : List UInt32) : List UInt32 :=
  (o.deliveryStatuses xs).1.filterMap StatusOutcome.trackingId

theorem answered_cons (a : UInt32) (xs : List UInt32) : o.answered (a :: xs) =
    ((o.confirmed? a).map Outstanding.trackingId).toList ++ (o.deliveryStatus a).2.answered xs := by
  rw [answered, deliveryStatuses_cons, deliveryStatus_fst, answered]
  cases o.confirmed? a <;> rfl

theorem mem_answered (h : o.Indexed ids) (xs : List UInt32) (T : UInt32) :
    T ∈ o.answered xs ↔ ∃ id ∈ xs, ∃ e, o.confirmed? id = some e ∧ e.trackingId = T := by
  induction xs generalizing o with
  | nil => simp [answered, deliveryStatuses]
  | cons a xs ih =>
    rw [answered_cons, List.mem_append, ih (h.deliveryStatus a)]
    simp only [confirmed?_deliveryStatus h, Option.mem_toList, Option.map_eq_some_iff]
    constructor
    · rintro (⟨e, he, hT⟩ | ⟨id, hid, e, ⟨he, -⟩, hT⟩)
      · exact ⟨a, List.mem_cons_self, e, he, hT⟩
      · exact ⟨id, List.mem_cons_of_mem a hid, e, he, hT⟩
    · rintro ⟨id, hid, e, he, hT⟩
      by_cases ha : o.acks.find? a = some e.trackingId
      · refine .inl ⟨e, ?_, hT⟩
        rw [confirmed?, ha]
        exact (find?_entries_of_confirmed? h he).2
      · have other : id ≠ a := fun hid => ha (hid ▸ (find?_entries_of_confirmed? h he).1)
        exact .inr ⟨id, List.mem_of_ne_of_mem other hid, e, ⟨he, ha⟩, hT⟩

/-- A send is confirmed at most once. -/
theorem nodup_answered (h : o.Indexed ids) (xs : List UInt32) : (o.answered xs).Nodup := by
  induction xs generalizing o with
  | nil => exact List.nodup_nil
  | cons a xs ih =>
    rw [answered_cons]
    refine List.nodup_append.mpr ⟨?_, ih (h.deliveryStatus a), ?_⟩
    · cases (o.confirmed? a).map Outstanding.trackingId <;> simp
    · rintro T hT _ later rfl
      obtain ⟨e, he, rfl⟩ := Option.map_eq_some_iff.mp (Option.mem_toList.mp hT)
      obtain ⟨id, -, e', he', same⟩ := (mem_answered (h.deliveryStatus a) xs _).mp later
      have gone := ((confirmed?_deliveryStatus h a id e').mp he').2
      rw [same] at gone
      exact gone (find?_entries_of_confirmed? h he).1

/-- How many tags status ids make usable. -/
def confirmedTags (o : Outbox) (xs : List UInt32) : Nat :=
  ((o.deliveryStatuses xs).1.map fun r => r.tags.elim 0 TagAck.added).sum

theorem confirmedTags_eq (xs : List UInt32) : o.confirmedTags xs = o.sender.added xs := by
  induction xs generalizing o with
  | nil => rfl
  | cons a xs ih =>
    have rest := ih (o := (o.deliveryStatus a).2)
    rw [sender_deliveryStatus] at rest
    rw [confirmedTags, deliveryStatuses_cons, List.map_cons, List.sum_cons, deliveryStatus_fst,
      Sender.added, ← rest]
    rfl

end Confirmed

/-- Two outboxes with the same contents: their pools may differ in layout, and their tables in order. -/
structure Same (o p : Outbox) : Prop where
  frame : Sender.Frame o.sender p.sender
  key : p.sender.key = o.sender.key
  barrier : p.sender.barrier = o.sender.barrier
  pending : ∀ id, p.sender.pending.find? id = o.sender.pending.find? id
  lifetime : p.sender.usable.lifetime = o.sender.usable.lifetime
  usable : ∀ t, p.sender.usable.stored? t = o.sender.usable.stored? t
  entries : ∀ T, p.entries.find? T = o.entries.find? T
  acks : ∀ id, p.acks.find? id = o.acks.find? id
  leases : p.leases = o.leases
  nextId : p.nextId = o.nextId
  resends : p.resends = o.resends
  resets : p.resets = o.resets

section Same

variable {o : Outbox} {ids xs ys : List UInt32} {tags : List SessionTag}

private theorem unmoved_deliveryStatus (a : UInt32) :
    (o.deliveryStatus a).2.leases = o.leases ∧ (o.deliveryStatus a).2.nextId = o.nextId ∧
      (o.deliveryStatus a).2.resends = o.resends ∧ (o.deliveryStatus a).2.resets = o.resets := by
  rw [deliveryStatus_eq]
  cases o.acks.find? a with
  | none => exact ⟨rfl, rfl, rfl, rfl⟩
  | some T =>
    simp only [Option.elim_some, forget]
    split <;> exact ⟨rfl, rfl, rfl, rfl⟩

private theorem unmoved_deliveryStatuses (xs : List UInt32) :
    (o.deliveryStatuses xs).2.leases = o.leases ∧ (o.deliveryStatuses xs).2.nextId = o.nextId ∧
      (o.deliveryStatuses xs).2.resends = o.resends ∧ (o.deliveryStatuses xs).2.resets = o.resets := by
  induction xs generalizing o with
  | nil => exact ⟨rfl, rfl, rfl, rfl⟩
  | cons a xs ih =>
    obtain ⟨l, n, s, t⟩ := unmoved_deliveryStatus (o := o) a
    obtain ⟨l', n', s', t'⟩ := ih (o := (o.deliveryStatus a).2)
    exact ⟨l'.trans l, n'.trans n, s'.trans s, t'.trans t⟩

/-- The same ids leave the same outbox, confirm the same sends and make as many tags usable, in any
order and however often they come. -/
theorem same_deliveryStatuses (indexed : o.Indexed ids) (accounted : o.sender.Accounted ids tags)
    (fresh : tags.Nodup) (hids : ∀ id, id ∈ xs ↔ id ∈ ys) :
    Same (o.deliveryStatuses xs).2 (o.deliveryStatuses ys).2 ∧
      (o.answered xs).Perm (o.answered ys) ∧ o.confirmedTags xs = o.confirmedTags ys := by
  have once (tag : SessionTag) : o.sender.places tag ≤ 1 :=
    (accounted.places tag).trans (List.nodup_iff_count_le_one.mp fresh tag)
  obtain ⟨lx, nx, sx, tx⟩ := unmoved_deliveryStatuses (o := o) xs
  obtain ⟨ly, ny, sy, ty⟩ := unmoved_deliveryStatuses (o := o) ys
  refine ⟨⟨?_, ?_, ?_, fun id => ?_, ?_, fun t => ?_, fun T => ?_, fun id => ?_, ly.trans lx.symm,
    ny.trans nx.symm, sy.trans sx.symm, ty.trans tx.symm⟩, ?_, ?_⟩
  · rw [sender_deliveryStatuses, sender_deliveryStatuses]
    have fx := Sender.frame_acknowledged (s := o.sender) xs
    have fy := Sender.frame_acknowledged (s := o.sender) ys
    exact ⟨fy.remote.trans fx.remote.symm, fy.remoteKey.trans fx.remoteKey.symm,
      fy.settings.trans fx.settings.symm⟩
  · rw [sender_deliveryStatuses, sender_deliveryStatuses, Sender.key_acknowledged,
      Sender.key_acknowledged]
  · rw [sender_deliveryStatuses, sender_deliveryStatuses, Sender.barrier_acknowledged,
      Sender.barrier_acknowledged]
    simp only [hids]
  · rw [sender_deliveryStatuses, sender_deliveryStatuses, Sender.find?_pending_acknowledged,
      Sender.find?_pending_acknowledged]
    simp only [hids]
  · rw [sender_deliveryStatuses, sender_deliveryStatuses, Sender.lifetime_acknowledged,
      Sender.lifetime_acknowledged]
  · rw [sender_deliveryStatuses, sender_deliveryStatuses]
    refine Option.ext fun e => ?_
    rw [Sender.stored?_acknowledged ys accounted.sound accounted.distinct once,
      Sender.stored?_acknowledged xs accounted.sound accounted.distinct once]
    simp only [hids]
  · rw [find?_entries_deliveryStatuses indexed, find?_entries_deliveryStatuses indexed]
    simp only [hids]
  · rw [find?_acks_deliveryStatuses indexed, find?_acks_deliveryStatuses indexed]
    simp only [hids]
  · refine (List.perm_ext_iff_of_nodup (nodup_answered indexed xs) (nodup_answered indexed ys)).mpr
      fun T => ?_
    rw [mem_answered indexed, mem_answered indexed]
    simp only [hids]
  · rw [confirmedTags_eq, confirmedTags_eq, Sender.added_eq xs accounted.distinct,
      Sender.added_eq ys accounted.distinct]
    simp only [hids]

end Same

end Outbox

end GarlicRouting
