import GarlicRouting.Proofs.Session.Outbox
import GarlicRouting.Proofs.Session.Sealed
import Mathlib

/-! Sends that nobody answers: which of them a round of maintenance sends again, which it drops. -/
namespace GarlicRouting

namespace Sender

/-- The limits that a send must keep for its handshakes to be written, at whatever time. -/
structure Writable (settings : Settings) (explicit : Bool) (cloves : List Clove) : Prop where
  tags : settings.refillBatch ≤ 65535
  count : cloves.length + (if explicit && settings.explicitAckClove then 2 else 1) ≤ 255
  payloads : ∀ c ∈ cloves, c.message.payload.encodedLength ≤ 65535

section Handshake

variable {s t : Sender} {moment : Moment} {d : Draw} {reply : ReplyTunnel} {explicit : Bool}
  {trackingId : UInt32} {cloves : List Clove} {result : Except SendFault Sealed}

theorem usable_expire_of_unused (unused : s.usable.entries = #[]) (now : Nat) :
    (s.expire now).usable.entries = #[] := by
  apply Array.eq_empty_iff_forall_not_mem.mpr
  intro e he
  have := ((s.usable.mem_purge now e).mp he).1
  rw [unused] at this
  exact Array.not_mem_empty e this

private theorem length_ackRequest (clock : UInt64) :
    (s.ackRequest clock d reply true explicit).cloves.length =
      if explicit && s.settings.explicitAckClove then 2 else 1 := by
  cases explicit <;> cases h : s.settings.explicitAckClove <;> simp [ackRequest, h]

private theorem payload_ackRequest {clock : UInt64} {c : Clove}
    (hc : c ∈ (s.ackRequest clock d reply true explicit).cloves) :
    c.message.payload.encodedLength = 12 := by
  have one (ids : CloveIds) (ackId : UInt32) :
      (ackClove clock reply ids ackId).message.payload.encodedLength = 12 := rfl
  unfold ackRequest at hc
  split_ifs at hc <;> simp at hc
  · rcases hc with rfl | rfl <;> exact one _ _
  · exact hc ▸ one _ _
  · exact hc ▸ one _ _

private theorem fits_iff (clock : UInt64) (id : UInt32) (expiration : UInt64)
    (tags : s.settings.refillBatch ≤ 65535) :
    (⟨cloves ++ (s.ackRequest clock d reply true explicit).cloves, id, expiration⟩ : Garlic).Fits ↔
      Writable s.settings explicit cloves := by
  have total : (cloves ++ (s.ackRequest clock d reply true explicit).cloves).length =
      cloves.length + if explicit && s.settings.explicitAckClove then 2 else 1 := by
    rw [List.length_append, length_ackRequest]
  constructor
  · intro ⟨count, payloads⟩
    exact ⟨tags, total ▸ count, fun c hc => payloads c (List.mem_append_left _ hc)⟩
  · intro h
    refine ⟨(total ▸ h.count :), fun c hc => ?_⟩
    rcases List.mem_append.mp hc with hc | hc
    · exact h.payloads c hc
    · rw [payload_ackRequest hc]
      decide

/-- Without a tag to spend every message is a handshake, and it goes out if it can be written. -/
theorem encrypt_of_unused (unused : s.usable.entries = #[])
    (he : s.encrypt moment d (some reply) explicit trackingId cloves = (result, t)) :
    t.usable.entries = #[] ∧ t.settings = s.settings ∧
      (Writable s.settings explicit cloves ∧ t.barrier.isSome ∧
          (∃ m, result = .ok m ∧ m.trackingId = trackingId ∧ m.cloves = cloves ∧
            m.path = .handshake) ∨
        ¬ Writable s.settings explicit cloves ∧ (∃ e, result = .error e) ∧
          (s.settings.refillBatch ≤ 65535 → t.barrier = s.barrier)) := by
  have empty := usable_expire_of_unused unused moment.instant
  have path := (s.path_expire_eq_handshake_iff moment.instant).mpr empty
  let acks := (s.expire moment.instant).ackRequest moment.clock d reply true explicit
  have asked : (s.expire moment.instant).requestAcks moment.clock d (some reply) true explicit =
      .ok acks := by simp [requestAcks, acks]
  have refresh : acks.refresh = some d.refreshAck := (requestAcks_eq_ok asked).1
  let garlic : Garlic := ⟨cloves ++ acks.cloves, d.garlicId, defaultExpiration moment.clock⟩
  have fits (tags : s.settings.refillBatch ≤ 65535) :
      garlic.Fits ↔ Writable s.settings explicit cloves :=
    fits_iff (s := s.expire moment.instant) moment.clock _ _ tags
  obtain ⟨key, s₁, agreed⟩ : ∃ key s₁, (s.expire moment.instant).handshakeKey d = (key, s₁) :=
    ⟨_, _, Prod.mk.eta.symm⟩
  have kept : s₁.usable.entries = #[] ∧ s₁.settings = s.settings := by
    rcases handshakeKey_cases agreed with ⟨-, -, rfl⟩ | ⟨-, -, rfl⟩
    · exact ⟨empty, rfl⟩
    · exact ⟨rfl, rfl⟩
  unfold encrypt at he
  simp only [path, mintsTags_of_handshake path, asked, commit, refresh, agreed, if_true,
    settings_expire] at he
  cases written : garlic.encode with
  | error e =>
    have none : ¬ Writable s.settings explicit cloves := fun h => by
      rw [Garlic.encode_eq_ok_iff.mpr ⟨(fits h.tags).mpr h, rfl⟩] at written
      cases written
    rw [written] at he
    obtain ⟨rfl, rfl⟩ := Prod.mk.inj he
    exact ⟨empty, rfl, .inr ⟨none, ⟨_, rfl⟩, fun _ => rfl⟩⟩
  | ok payload =>
    obtain ⟨fit, rfl⟩ := Garlic.encode_eq_ok_iff.mp written
    rw [written] at he
    have sealed : (∃ wire, handshakeWire s₁.remoteKey key
        ⟨d.batch s.settings.refillBatch, none, garlic.octets⟩ d = .ok wire) ↔
          s.settings.refillBatch ≤ 65535 := by
      rw [exists_handshakeWire_iff]
      have count := d.length_batch s.settings.refillBatch
      exact ⟨fun h => count ▸ h.tags, fun h => ⟨(count.symm ▸ h :), fit.length_octets_le⟩⟩
    by_cases tags : s.settings.refillBatch ≤ 65535
    · obtain ⟨wire, hwire⟩ := sealed.mpr tags
      simp only [hwire, Except.mapError] at he
      obtain ⟨rfl, rfl⟩ := Prod.mk.inj he
      refine ⟨?_, ?_, .inl ⟨(fits tags).mp fit, ?_, _, rfl, rfl, rfl, rfl⟩⟩
      · rw [usable_keepPending]
        exact kept.1
      · exact kept.2
      · rw [barrier_keepPending_handshake]
        rfl
    · cases hwire : handshakeWire s₁.remoteKey key
        ⟨d.batch s.settings.refillBatch, none, garlic.octets⟩ d with
      | ok wire => exact absurd (sealed.mp ⟨wire, hwire⟩) tags
      | error e =>
        simp only [hwire, Except.mapError] at he
        obtain ⟨rfl, rfl⟩ := Prod.mk.inj he
        refine ⟨?_, kept.2, .inr ⟨fun h => tags h.tags, ⟨_, rfl⟩, fun h => absurd h tags⟩⟩
        rw [usable_keepPending]
        exact kept.1

end Handshake

end Sender

/-- Every message is taken, every send has a reply tunnel, and no status comes in. -/
structure TunnelLayer.Quiet (layer : TunnelLayer) : Prop where
  reply : ∀ trackingId, (layer.reply trackingId).isSome
  carry : ∀ shipment, layer.carry shipment = ⟨.ok (), []⟩

namespace Outbox

section Values

variable {o : Outbox}

/-- The sends that are left. -/
theorem Keyed.values_forget (h : o.Keyed) (trackingId : UInt32) :
    (o.forget trackingId).entries.values = o.entries.values.filter (·.trackingId ≠ trackingId) := by
  have erased : (o.entries.erase trackingId).values =
      o.entries.values.filter (·.trackingId ≠ trackingId) := by
    rw [Table.values, Table.values, Table.erase, List.filter_map]
    refine congrArg _ (List.filter_congr fun p hp => ?_)
    rw [Function.comp_apply, h.keyed p.1 p.2 (h.distinct.mem_iff.mp hp)]
  cases hthere : o.entries.find? trackingId with
  | none =>
    rw [forget_eq_self o hthere]
    refine (List.filter_eq_self.mpr fun e he => ?_).symm
    simp only [ne_eq, decide_not, Bool.not_eq_true', decide_eq_false_iff_not]
    rintro rfl
    rw [h.mem_values_iff.mp he] at hthere
    cases hthere
  | some e =>
    rw [forget_eq o hthere]
    exact erased

theorem Keyed.foldl_forget (h : o.Keyed) (es : List Outstanding) :
    (es.foldl (fun o e => o.forget e.trackingId) o).Keyed := by
  rw [foldl_forget_eq_perform]
  exact h.perform _

theorem Keyed.values_foldl_forget (h : o.Keyed) (es : List Outstanding) :
    (es.foldl (fun o e => o.forget e.trackingId) o).entries.values =
      o.entries.values.filter fun e => e.trackingId ∉ es.map Outstanding.trackingId := by
  induction es generalizing o with
  | nil => simp
  | cons e es ih =>
    rw [List.foldl_cons, ih (h.forget e.trackingId), h.values_forget, List.filter_filter]
    refine List.filter_congr fun x _ => ?_
    simp only [List.map_cons, List.mem_cons, not_or]
    grind

/-- Sends that are chosen among those in the window are known by their tracking ids. -/
theorem Keyed.mem_ids_filter (h : o.Keyed) {q : Outstanding → Bool} {e : Outstanding}
    (he : e ∈ o.entries.values) :
    e.trackingId ∈ (o.entries.values.filter q).map Outstanding.trackingId ↔ q e := by
  constructor
  · intro hmem
    obtain ⟨e', he', same⟩ := List.mem_map.mp hmem
    obtain ⟨he', hq⟩ := List.mem_filter.mp he'
    rwa [← List.inj_on_of_nodup_map h.nodup_trackingIds he' he same]
  · intro hq
    exact List.mem_map_of_mem (List.mem_filter.mpr ⟨he, hq⟩)

theorem Keyed.values_foldl_forget_filter (h : o.Keyed) (q : Outstanding → Bool) :
    ((o.entries.values.filter q).foldl (fun o e => o.forget e.trackingId) o).entries.values =
      o.entries.values.filter (!q ·) := by
  rw [h.values_foldl_forget]
  refine List.filter_congr fun e he => ?_
  simp only [h.mem_ids_filter he]
  cases q e <;> rfl

end Values

/-- What a round of maintenance does with a send. -/
inductive Fate where
  /-- Its window has closed. -/
  | expires
  /-- Its last attempt was less than an interval ago. -/
  | waits
  | goesAgain
  | dropped
deriving DecidableEq

/-- A send without an explicit acknowledgment goes again only while a handshake is under way. -/
def fate (o : Outbox) (now : Nat) (e : Outstanding) : Fate :=
  if o.isExpired now e then .expires
  else if !o.isStale now e then .waits
  else if e.explicit || o.sender.barrier.isSome then .goesAgain
  else .dropped

/-- The sends in the window that have a fate. -/
def fated (o : Outbox) (now : Nat) (fate : Fate) : List Outstanding :=
  o.entries.values.filter (o.fate now · = fate)

section Fates

variable (o : Outbox) (now : Nat)

theorem barrier_of_stuck (h : o.stuck now) : o.sender.barrier.isSome := by
  cases hb : o.sender.barrier with
  | none => simp [stuck, Sender.resetIfStuck, hb] at h
  | some b => rfl

theorem barrier_renewed :
    (o.renewed now).sender.barrier = if o.stuck now then none else o.sender.barrier := by
  unfold renewed stuck
  rcases o.sender.resetIfStuck_cases now o.sender.settings.resendSpan.nanoseconds with
    ⟨late, h⟩ | ⟨early, h⟩
  · simp only [late, h, if_true]
    rfl
  · simp [early, h]

/-- A handshake that this round gives up still counts as one under way. -/
theorem handshaking_eq : o.handshaking now = o.sender.barrier.isSome := by
  rw [handshaking, barrier_renewed]
  by_cases h : o.stuck now
  · rw [h, o.barrier_of_stuck now h]
    rfl
  · rw [if_neg h, Bool.eq_false_of_not_eq_true h, Bool.false_or]

theorem expired_eq_fated : o.expired now = o.fated now .expires := by
  refine List.filter_congr fun e _ => ?_
  unfold fate
  split_ifs <;> simp_all

variable {o}

theorem fate_eq_dropped_iff {now : Nat} {e : Outstanding} : o.fate now e = .dropped ↔
    ¬ o.isExpired now e ∧ o.isStale now e ∧ ¬ e.explicit ∧ o.sender.barrier = none := by
  unfold fate
  cases o.isExpired now e <;> cases o.isStale now e <;> cases e.explicit <;>
    cases o.sender.barrier <;> simp

theorem Keyed.renewed (h : o.Keyed) : (o.renewed now).Keyed := ⟨h.distinct, h.keyed⟩

theorem Keyed.pruned (h : o.Keyed) : (o.pruned now).Keyed := (h.renewed now).foldl_forget _

theorem Keyed.values_pruned (h : o.Keyed) :
    (o.pruned now).entries.values = o.entries.values.filter (!o.isExpired now ·) :=
  (h.renewed now).values_foldl_forget_filter (o.isExpired now)

theorem Keyed.due_eq_fated (h : o.Keyed) : o.due now = o.fated now .goesAgain := by
  rw [due, stale, h.values_pruned, List.filter_filter, List.filter_filter]
  refine List.filter_congr fun e _ => ?_
  rw [handshaking_eq, fate]
  cases o.isExpired now e <;> cases o.isStale now e <;> cases e.explicit || o.sender.barrier.isSome <;> rfl

theorem Keyed.nodup_due (h : o.Keyed) : ((o.due now).map Outstanding.trackingId).Nodup := by
  rw [h.due_eq_fated]
  exact h.nodup_trackingIds.sublist (List.filter_sublist.map _)

theorem Keyed.dropped_eq_fated (h : o.Keyed) : o.dropped now = o.fated now .dropped := by
  rw [dropped, stale, h.values_pruned, List.filter_filter, List.filter_filter]
  refine List.filter_congr fun e _ => ?_
  rw [handshaking_eq, fate]
  cases o.isExpired now e <;> cases o.isStale now e <;> cases e.explicit || o.sender.barrier.isSome <;> rfl

end Fates

/-- There is no tag to spend, and every send in the window can be written whenever it is its turn. -/
structure Unanswered (o : Outbox) : Prop extends Keyed o where
  unused : o.sender.usable.entries = #[]
  writable : ∀ T e, o.entries.find? T = some e →
    Sender.Writable o.sender.settings e.explicit e.cloves

namespace Unanswered

variable {o p : Outbox}

theorem new (remote : Identity) (remoteKey : ElGamal.PublicKey) (settings : Settings) :
    (Outbox.new (.new remote remoteKey settings)).Unanswered where
  toKeyed := .new _
  unused := rfl
  writable T e h := by cases h

theorem of_le (h : o.Unanswered) (keyed : p.Keyed) (unused : p.sender.usable.entries = #[])
    (settings : p.sender.settings = o.sender.settings)
    (entries : ∀ T e, p.entries.find? T = some e →
      ∃ e', o.entries.find? T = some e' ∧ e.explicit = e'.explicit ∧ e.cloves = e'.cloves) :
    p.Unanswered where
  toKeyed := keyed
  unused := unused
  writable T e he := by
    obtain ⟨e', he', explicit, cloves⟩ := entries T e he
    rw [settings, explicit, cloves]
    exact h.writable T e' he'

theorem forget (h : o.Unanswered) (trackingId : UInt32) : (o.forget trackingId).Unanswered := by
  refine h.of_le (h.toKeyed.forget trackingId) ?_ ?_ fun T e he => ⟨e, entry_of_forget he, rfl, rfl⟩
  · rw [sender_forget]
    exact h.unused
  · rw [sender_forget]

theorem register (h : o.Unanswered) (trackingId : UInt32) (ackIds : List UInt32) :
    (o.registerAcks trackingId ackIds).Unanswered := by
  refine h.of_le (h.toKeyed.register trackingId ackIds) ?_ ?_ fun T e he => ?_
  · rw [sender_registerAcks]
    exact h.unused
  · rw [sender_registerAcks]
  · obtain ⟨old, ids, there, rfl⟩ := entry_of_registerAcks he
    exact ⟨old, there, rfl, rfl⟩

theorem settle (h : o.Unanswered) (now : Nat) (resent : List UInt32) (e : Outstanding) :
    (o.settle now resent e).Unanswered := by
  refine h.of_le (h.toKeyed.settle now resent e) h.unused rfl fun T e' he => ?_
  obtain ⟨old, _, _, there, rfl⟩ := entry_of_settle he
  exact ⟨old, there, rfl, rfl⟩

theorem session (h : o.Unanswered) {s : Sender} (unused : s.usable.entries = #[])
    (settings : s.settings = o.sender.settings) : Unanswered { o with sender := s } :=
  h.of_le ⟨h.distinct, h.keyed⟩ unused settings fun _ e he => ⟨e, he, rfl, rfl⟩

theorem renewed (h : o.Unanswered) (now : Nat) : (o.renewed now).Unanswered := by
  refine h.of_le (h.toKeyed.renewed now) ?_ (o.settings_renewed now) fun _ e he => ⟨e, he, rfl, rfl⟩
  rw [Outbox.renewed]
  rcases o.sender.resetIfStuck_cases now o.sender.settings.resendSpan.nanoseconds with
    ⟨-, hs⟩ | ⟨-, hs⟩ <;> rw [hs]
  · rfl
  · exact h.unused

theorem foldl_forget (h : o.Unanswered) (es : List Outstanding) :
    (es.foldl (fun o e => o.forget e.trackingId) o).Unanswered := by
  induction es generalizing o with
  | nil => exact h
  | cons e es ih => exact ih (h.forget e.trackingId)

theorem foldl_settle (h : o.Unanswered) (now : Nat) (resent : List UInt32) (es : List Outstanding) :
    (es.foldl (Outbox.settle now resent) o).Unanswered := by
  induction es generalizing o with
  | nil => exact h
  | cons e es ih => exact ih (h.settle now resent e)

end Unanswered

section Round

variable {layer : TunnelLayer}

/-- A message that is taken, with the lease set that goes with it. -/
def taken (leases : Option LeaseSet) (m : Sealed) : Handoff := ⟨⟨leases, m⟩, ⟨.ok (), []⟩, []⟩

/-- What a round of attempts at the sends `es` leads to if their messages `ms` are taken. -/
structure Carried (r : Round) (es : List Outstanding) (ms : List Sealed) (r' : Round) : Prop where
  unanswered : r'.outbox.Unanswered
  again : List.Forall₂ (fun e m => m.trackingId = e.trackingId ∧ m.cloves = e.cloves ∧
    r'.outbox.entries.find? e.trackingId = some { e with ackIds := e.ackIds ++ m.confirmations }) es ms
  others : ∀ T ∉ es.map Outstanding.trackingId,
    r'.outbox.entries.find? T = r.outbox.entries.find? T
  handoffs : r'.handoffs = (ms.map (taken r.outbox.leases)).reverse ++ r.handoffs
  resent : r'.resent = (es.map Outstanding.trackingId).reverse ++ r.resent
  failures : r'.failures = r.failures
  leases : r'.outbox.leases = r.outbox.leases
  barrier : if es = [] then r'.outbox.sender = r.outbox.sender else r'.outbox.sender.barrier.isSome

theorem attempt_of_quiet (moment : Moment) (quiet : layer.Quiet) {r : Round} (h : r.outbox.Unanswered)
    {e : Outstanding} (he : r.outbox.entries.find? e.trackingId = some e) :
    ∃ m, Carried r [e] [m] (attempt moment layer r e) := by
  obtain ⟨reply, hreply⟩ := Option.isSome_iff_exists.mp (quiet.reply e.trackingId)
  obtain ⟨result, t, encrypted⟩ : ∃ result t, r.outbox.sender.encrypt moment r.supply.next.1
      (layer.reply e.trackingId) e.explicit e.trackingId e.cloves = (result, t) :=
    ⟨_, _, Prod.mk.eta.symm⟩
  have encrypted' := encrypted
  rw [hreply] at encrypted'
  obtain ⟨unused, settings, ⟨-, up, m, rfl, id, cloves, -⟩ | ⟨none, -⟩⟩ :=
    Sender.encrypt_of_unused h.unused encrypted'
  · have attempted : attempt moment layer r e =
        { outbox := { r.outbox with sender := t }.registerAcks e.trackingId m.confirmations
          supply := r.supply.next.2
          handoffs := taken r.outbox.leases m :: r.handoffs
          resent := e.trackingId :: r.resent
          failures := r.failures } := by
      unfold attempt handOff
      simp only [encrypted, quiet.carry, deliveryStatuses, leases_registerAcks]
      rfl
    rw [attempted]
    refine ⟨m, (h.session unused settings).register _ _, .cons ⟨id, cloves, ?_⟩ .nil,
      fun T hT => ?_, rfl, rfl, rfl, leases_registerAcks _ _ _, ?_⟩
    · rw [find?_entries_registerAcks, if_pos rfl]
      exact congrArg _ he
    · rw [find?_entries_registerAcks, if_neg (by simpa using hT)]
    · simpa using up
  · exact absurd (h.writable _ _ he) none

theorem Carried.cons {r r' r'' : Round} {e : Outstanding} {m : Sealed} {es : List Outstanding}
    {ms : List Sealed} (first : Carried r [e] [m] r') (rest : Carried r' es ms r'')
    (alone : e.trackingId ∉ es.map Outstanding.trackingId) : Carried r (e :: es) (m :: ms) r'' where
  unanswered := rest.unanswered
  again := by
    obtain ⟨id, cloves, kept⟩ := (List.forall₂_cons.mp first.again).1
    exact .cons ⟨id, cloves, (rest.others _ alone).trans kept⟩ rest.again
  others T hT := by
    rw [List.map_cons, List.mem_cons, not_or] at hT
    rw [rest.others T hT.2, first.others T (by simpa using hT.1)]
  handoffs := by
    rw [rest.handoffs, first.handoffs, first.leases]
    simp
  resent := by
    rw [rest.resent, first.resent]
    simp
  failures := rest.failures.trans first.failures
  leases := rest.leases.trans first.leases
  barrier := by
    have up := first.barrier
    have last := rest.barrier
    rw [if_neg (List.cons_ne_nil e _)] at up ⊢
    split_ifs at last
    · rwa [last]
    · exact last

theorem round_of_quiet (moment : Moment) (quiet : layer.Quiet) {r : Round} (h : r.outbox.Unanswered)
    {es : List Outstanding} (distinct : (es.map Outstanding.trackingId).Nodup)
    (there : ∀ e ∈ es, r.outbox.entries.find? e.trackingId = some e) :
    ∃ ms, Carried r es ms (es.foldl (attempt moment layer) r) := by
  induction es generalizing r with
  | nil => exact ⟨[], h, .nil, fun _ _ => rfl, rfl, rfl, rfl, rfl, rfl⟩
  | cons e es ih =>
    obtain ⟨alone, distinct⟩ := List.nodup_cons.mp distinct
    obtain ⟨m, first⟩ := attempt_of_quiet moment quiet h (there e List.mem_cons_self)
    have still (e' : Outstanding) (he' : e' ∈ es) :
        (attempt moment layer r e).outbox.entries.find? e'.trackingId = some e' := by
      have apart : e'.trackingId ≠ e.trackingId := fun same => alone (same ▸ List.mem_map_of_mem he')
      rw [first.others e'.trackingId (by simpa using apart)]
      exact there e' (List.mem_cons_of_mem _ he')
    obtain ⟨ms, rest⟩ := ih first.unanswered distinct still
    rw [List.foldl_cons]
    exact ⟨m :: ms, first.cons rest alone⟩

/-- A send after it has gone again: it waits for a whole interval, for its old ids and the new ones. -/
structure Retried (now : Nat) (after : Outbox) (e : Outstanding) (h : Handoff) : Prop where
  trackingId : h.shipment.message.trackingId = e.trackingId
  cloves : h.shipment.message.cloves = e.cloves
  result : h.receipt.result = .ok ()
  kept : after.entries.find? e.trackingId = some { e with
    ackIds := e.ackIds ++ h.shipment.message.confirmations
    lastSend := now
    resends := e.resends + 1 }

variable {o : Outbox}

theorem find?_entries_foldl_settle (h : o.Keyed) (now : Nat) (resent : List UInt32)
    {es : List Outstanding} (distinct : (es.map Outstanding.trackingId).Nodup) (T : UInt32) :
    (es.foldl (settle now resent) o).entries.find? T =
      if T ∈ es.map Outstanding.trackingId then
        (o.entries.find? T).map fun e =>
          { e with
            lastSend := now
            resends := if resent.contains T then e.resends + 1 else e.resends }
      else o.entries.find? T := by
  induction es generalizing o with
  | nil => rfl
  | cons e es ih =>
    obtain ⟨alone, distinct⟩ := List.nodup_cons.mp distinct
    rw [List.foldl_cons, ih (h.settle now resent e) distinct, find?_entries_settle]
    by_cases hT : T = e.trackingId
    · rw [hT, if_neg alone, if_pos rfl, if_pos (by simp)]
      refine Option.map_congr fun e' he' => ?_
      rw [h.keyed _ _ he']
    · simp only [hT, List.map_cons, List.mem_cons, false_or, if_false]

/-- What is left when the attempts begin. -/
theorem Keyed.mem_opening (h : o.Keyed) (supply : Supply) (now : Nat) {e : Outstanding} :
    e ∈ (o.opening supply now).outbox.entries.values ↔
      e ∈ o.entries.values ∧ (o.fate now e = .waits ∨ o.fate now e = .goesAgain) := by
  simp only [opening, dropped, stale, List.filter_filter]
  rw [(h.pruned now).values_foldl_forget_filter, h.values_pruned, List.filter_filter, List.mem_filter,
    handshaking_eq, fate]
  refine and_congr_right fun _ => ?_
  cases o.isExpired now e <;> cases o.isStale now e <;>
    cases e.explicit || o.sender.barrier.isSome <;> simp

/-- What a round of maintenance does if every message is taken: each send meets its fate. -/
structure Maintained (o : Outbox) (now : Nat) (report : Report) (handoffs : List Handoff)
    (after : Outbox) : Prop where
  unanswered : after.Unanswered
  report : report = {
    resent := (o.fated now .goesAgain).length
    failures := 0
    expired := (o.fated now .expires).length
    dropped := (o.fated now .dropped).length
    reset := o.stuck now }
  again : List.Forall₂ (Retried now after) (o.fated now .goesAgain) handoffs
  waits : ∀ e ∈ o.fated now .waits, after.entries.find? e.trackingId = some e
  gone : ∀ T, after.entries.find? T ≠ none → ∃ e, o.entries.find? T = some e ∧
    (o.fate now e = .waits ∨ o.fate now e = .goesAgain)
  barrier : if o.fated now .goesAgain = [] then
      after.sender.barrier = if o.stuck now then none else o.sender.barrier
    else after.sender.barrier.isSome

theorem mem_fated {now : Nat} {e : Outstanding} {fate : Fate} :
    e ∈ o.fated now fate ↔ e ∈ o.entries.values ∧ o.fate now e = fate := by
  simp [fated]

/-- What is due is in the window, which is still open for it, and its last attempt was an interval
ago. -/
theorem Keyed.entry_of_due (h : o.Keyed) {now : Nat} {e : Outstanding} (due : e ∈ o.due now) :
    o.entries.find? e.trackingId = some e ∧ ¬ o.isExpired now e ∧ o.isStale now e := by
  rw [h.due_eq_fated] at due
  obtain ⟨there, again⟩ := mem_fated.mp due
  refine ⟨h.mem_values_iff.mp there, ?_⟩
  unfold fate at again
  split_ifs at again with expired fresh
  exact ⟨expired, by simpa using fresh⟩

theorem sender_foldl_settle (o : Outbox) (now : Nat) (resent : List UInt32) (es : List Outstanding) :
    (es.foldl (settle now resent) o).sender = o.sender := by
  induction es generalizing o with
  | nil => rfl
  | cons e es ih => exact ih (o.settle now resent e)

theorem maintain_of_quiet (moment : Moment) (quiet : layer.Quiet) (h : o.Unanswered) (supply : Supply) :
    Maintained o moment.instant (o.maintain moment supply layer).1
      (o.maintain moment supply layer).2.1 (o.maintain moment supply layer).2.2.2 := by
  let now := moment.instant
  let during := o.attempted moment layer supply
  let after := (o.due now).foldl (settle now during.resent) during.outbox
  have due : o.due now = o.fated now .goesAgain := h.toKeyed.due_eq_fated now
  have distinct : ((o.due now).map Outstanding.trackingId).Nodup := h.toKeyed.nodup_due now
  have opening : (o.opening supply now).outbox.Unanswered :=
    ((h.renewed now).foldl_forget _).foldl_forget _
  have there (e : Outstanding) (he : e ∈ o.entries.values)
      (fate : o.fate now e = .waits ∨ o.fate now e = .goesAgain) :
      (o.opening supply now).outbox.entries.find? e.trackingId = some e :=
    opening.mem_values_iff.mp ((h.toKeyed.mem_opening supply now).mpr ⟨he, fate⟩)
  obtain ⟨ms, round⟩ : ∃ ms, Carried (o.opening supply now) (o.due now) ms during :=
    round_of_quiet moment quiet opening distinct fun e he =>
      have := mem_fated.mp (due ▸ he)
      there e this.1 (.inr this.2)
  have resent : during.resent = ((o.due now).map Outstanding.trackingId).reverse :=
    round.resent.trans (List.append_nil _)
  have handoffs : during.handoffs.reverse = ms.map (taken (o.opening supply now).outbox.leases) := by
    rw [round.handoffs]
    exact (List.append_nil _).symm ▸ List.reverse_reverse _
  have find? (T : UInt32) : after.entries.find? T = _ :=
    find?_entries_foldl_settle round.unanswered.toKeyed now during.resent distinct T
  have settled : after.Unanswered := round.unanswered.foldl_settle now during.resent (o.due now)
  rw [maintain_eq]
  show Maintained o now ⟨during.resent.length, during.failures, (o.expired now).length,
    (o.dropped now).length, o.stuck now⟩ during.handoffs.reverse { after with resends := _ }
  constructor
  case unanswered => exact ⟨⟨settled.distinct, settled.keyed⟩, settled.unused, settled.writable⟩
  case report =>
    have count : during.resent.length = (o.fated now .goesAgain).length := by
      rw [resent, due, List.length_reverse, List.length_map]
    have failures : during.failures = 0 := round.failures
    rw [← expired_eq_fated, ← h.toKeyed.dropped_eq_fated, ← count, ← failures]
  case again =>
    obtain ⟨count, each⟩ := List.forall₂_iff_zip.mp round.again
    rw [← due, handoffs, List.forall₂_map_right_iff]
    refine List.forall₂_iff_zip.mpr ⟨count, fun {e m} hz => ?_⟩
    obtain ⟨id, cloves, kept⟩ := each hz
    have mem := List.mem_map_of_mem (f := Outstanding.trackingId) (List.of_mem_zip hz).1
    refine ⟨id, cloves, rfl, (find? e.trackingId).trans ?_⟩
    rw [if_pos mem, kept, resent]
    simp [mem, taken]
  case waits =>
    intro e he
    obtain ⟨he, fate⟩ := mem_fated.mp he
    have other : e.trackingId ∉ (o.due now).map Outstanding.trackingId := fun hmem => by
      have again := (h.toKeyed.mem_ids_filter he).mp (due ▸ hmem)
      rw [fate] at again
      cases again
    refine (find? e.trackingId).trans ?_
    rw [if_neg other, round.others _ other]
    exact there e he (.inl fate)
  case gone =>
    intro T hT
    by_cases mem : T ∈ (o.due now).map Outstanding.trackingId
    · obtain ⟨e, he, rfl⟩ := List.mem_map.mp mem
      obtain ⟨he, fate⟩ := mem_fated.mp (due ▸ he)
      exact ⟨e, h.mem_values_iff.mp he, .inr fate⟩
    · obtain ⟨e, he⟩ := Option.ne_none_iff_exists'.mp hT
      rw [show Table.find? _ T = _ from find? T, if_neg mem, round.others T mem] at he
      obtain rfl := opening.keyed T e he
      obtain ⟨he, fate⟩ := (h.toKeyed.mem_opening supply now).mp (opening.mem_values_iff.mpr he)
      exact ⟨e, h.mem_values_iff.mp he, fate⟩
  case barrier =>
    have settle : after.sender = during.outbox.sender := sender_foldl_settle _ _ _ _
    have forget : (o.opening supply now).outbox.sender = (o.renewed now).sender :=
      (sender_foldl_forget _ _).trans (o.sender_pruned now)
    have during := round.barrier
    rw [due, forget] at during
    rw [show Outbox.sender _ = _ from settle, ← barrier_renewed]
    split_ifs at during ⊢
    · rw [during]
    · exact during

/-- A send goes out and is under way in a handshake, or it cannot be written and nothing is sent. -/
theorem send_of_quiet (moment : Moment) (quiet : layer.Quiet) (h : o.Unanswered) (d : Draw)
    (explicit : Bool) (cloves : List Clove) :
    (o.send moment d layer explicit cloves).2.2.Unanswered ∧
      ((o.send moment d layer explicit cloves).2.1.isSome ∧
          (o.send moment d layer explicit cloves).2.2.sender.barrier.isSome ∨
        (o.send moment d layer explicit cloves).2.1 = none ∧
          (o.send moment d layer explicit cloves).2.2.entries = o.entries ∧
          (o.sender.settings.refillBatch ≤ 65535 →
            (o.send moment d layer explicit cloves).2.2.sender.barrier = o.sender.barrier)) := by
  obtain ⟨reply, hreply⟩ := Option.isSome_iff_exists.mp (quiet.reply o.nextId)
  obtain ⟨result, t, encrypted⟩ : ∃ result t, o.sender.encrypt moment d (layer.reply o.nextId) explicit
      o.nextId cloves = (result, t) := ⟨_, _, Prod.mk.eta.symm⟩
  have encrypted' := encrypted
  rw [hreply] at encrypted'
  obtain ⟨unused, settings, ⟨writable, up, m, rfl, -, -, path⟩ | ⟨-, ⟨e, rfl⟩, same⟩⟩ :=
    Sender.encrypt_of_unused h.unused encrypted'
  · have tracked : needsTracking explicit m = true := by simp [needsTracking, path]
    have sent : o.send moment d layer explicit cloves = (.ok m, some (taken o.leases m),
        { o with nextId := o.nextId + 1, sender := t }.track
          (entryOf o.nextId moment explicit cloves m)) := by
      unfold send
      simp only [encrypted, tracked, handOff, quiet.carry, deliveryStatuses]
      rfl
    have keyed : Keyed { o with nextId := o.nextId + 1, sender := t } := ⟨h.distinct, h.keyed⟩
    rw [sent]
    refine ⟨⟨keyed.track _, unused, fun T e he => ?_⟩, .inl ⟨rfl, up⟩⟩
    rw [find?_entries_track] at he
    split_ifs at he
    · obtain rfl := Option.some.inj he
      exact settings ▸ writable
    · exact settings ▸ h.writable T e he
  · have sent : o.send moment d layer explicit cloves =
        (.error e, none, { o with nextId := o.nextId + 1, sender := t }) := by
      unfold send
      simp only [encrypted]
    rw [sent]
    exact ⟨h.of_le ⟨h.distinct, h.keyed⟩ unused settings fun _ e he => ⟨e, he, rfl, rfl⟩,
      .inr ⟨rfl, rfl, same⟩⟩

end Round

section Run

/-- The sends of the window and its maintenance, while every message is taken and nobody answers. -/
def Event.Quiet : Event → Prop
  | .send _ _ layer _ _ | .maintain _ _ layer => layer.Quiet
  | .leases _ | .front _ => True
  | .status _ | .clear | .session _ => False

/-- What a run hands over. -/
def handoffsIn (o : Outbox) : List Event → List Handoff
  | [] => []
  | e :: es => o.handoffs e ++ (o.after e).handoffsIn es

theorem handoffsIn_append (o : Outbox) (es fs : List Event) :
    o.handoffsIn (es ++ fs) = o.handoffsIn es ++ (o.run es).handoffsIn fs := by
  induction es generalizing o with
  | nil => rfl
  | cons e es ih => rw [List.cons_append, handoffsIn, handoffsIn, ih, List.append_assoc, run_cons]

theorem handoffsIn_concat (o : Outbox) (es : List Event) (e : Event) :
    o.handoffsIn (es ++ [e]) = o.handoffsIn es ++ (o.run es).handoffs e := by
  rw [handoffsIn_append, handoffsIn, handoffsIn, List.append_nil]

/-- Whether an event is a round of maintenance that gives the handshake up. -/
def givesUp (o : Outbox) : Event → Bool
  | .maintain moment supply layer => (o.maintain moment supply layer).1.reset
  | _ => false

/-- A handshake was given up, and neither in that round nor since has anything been handed over. -/
def Abandoned (o : Outbox) (es : List Event) : Prop :=
  ∃ past e since, es = past ++ e :: since ∧ (o.run past).givesUp e ∧
    (o.run past).handoffsIn (e :: since) = []

theorem abandoned_concat {o : Outbox} {es : List Event} {e : Event} :
    o.Abandoned (es ++ [e]) ↔
      (o.run es).handoffs e = [] ∧ (o.Abandoned es ∨ (o.run es).givesUp e) := by
  have ended (past since : List Event) (f : Event) :
      (o.run past).handoffsIn (f :: (since ++ [e])) =
        (o.run past).handoffsIn (f :: since) ++ (o.run (past ++ f :: since)).handoffs e := by
    rw [← List.cons_append, handoffsIn_concat, run, run, run, List.foldl_append]
  constructor
  · rintro ⟨past, f, since, split, gaveUp, none⟩
    rcases List.eq_nil_or_concat' since with rfl | ⟨since, g, rfl⟩
    · obtain ⟨rfl, same⟩ := List.append_inj' split rfl
      obtain rfl := List.singleton_inj.mp same
      exact ⟨(List.append_nil _).symm.trans none, .inr gaveUp⟩
    · rw [← List.cons_append, ← List.append_assoc] at split
      obtain ⟨rfl, same⟩ := List.append_inj' split rfl
      obtain rfl := List.singleton_inj.mp same
      rw [ended, List.append_eq_nil_iff] at none
      exact ⟨none.2, .inl ⟨past, f, since, rfl, gaveUp, none.1⟩⟩
  · rintro ⟨none, ⟨past, f, since, rfl, gaveUp, before⟩ | gaveUp⟩
    · exact ⟨past, f, since ++ [e], by simp, gaveUp, by rw [ended, before, none]; rfl⟩
    · exact ⟨es, e, [], rfl, gaveUp, (List.append_nil _).trans none⟩

/-- One more event. A hand-over leaves a handshake under way; without one, the barrier is down if it
was down or is given up. -/
theorem after_of_quiet {o : Outbox} {e : Event} (quiet : e.Quiet) (h : o.Unanswered) :
    (o.after e).Unanswered ∧ ∀ T, (o.after e).entries.find? T ≠ none →
      if o.handoffs e = [] then
        o.entries.find? T ≠ none ∧
          ((o.after e).sender.barrier = none ↔ o.sender.barrier = none ∨ o.givesUp e)
      else (o.after e).sender.barrier.isSome := by
  cases e with
  | send moment d layer explicit cloves =>
    obtain ⟨after, ⟨sent, up⟩ | ⟨sent, entries, barrier⟩⟩ :=
      send_of_quiet moment quiet h d explicit cloves
    · obtain ⟨handoff, sent⟩ := Option.isSome_iff_exists.mp sent
      refine ⟨after, fun T _ => ?_⟩
      rw [handoffs, sent, if_neg (by simp), Outbox.after]
      exact up
    · refine ⟨after, fun T hT => ?_⟩
      rw [handoffs, sent, Option.toList_none, if_pos rfl, Outbox.after]
      rw [Outbox.after, entries] at hT
      obtain ⟨e, he⟩ := Option.ne_none_iff_exists'.mp hT
      rw [barrier (h.writable T e he).tags]
      exact ⟨hT, by simp [givesUp]⟩
  | maintain moment supply layer =>
    have round := maintain_of_quiet moment quiet h supply
    refine ⟨round.unanswered, fun T hT => ?_⟩
    have nothing : o.handoffs (.maintain moment supply layer) = [] ↔
        o.fated moment.instant .goesAgain = [] := by
      rw [handoffs, ← List.length_eq_zero_iff, ← round.again.length_eq, List.length_eq_zero_iff]
    have barrier := round.barrier
    simp only [nothing, Outbox.after, givesUp, round.report]
    split_ifs at barrier ⊢ with none stuck
    · obtain ⟨e, he, -⟩ := round.gone T hT
      simp [barrier, stuck, he]
    · obtain ⟨e, he, -⟩ := round.gone T hT
      simp [barrier, stuck, he]
    · exact barrier
  | leases leases =>
    exact ⟨h.of_le ⟨h.distinct, h.keyed⟩ h.unused rfl fun _ e he => ⟨e, he, rfl, rfl⟩, fun T hT =>
      ⟨hT, by simp [Outbox.after, givesUp]⟩⟩
  | front i =>
    have same (T : UInt32) := h.distinct.find?_front i T
    refine ⟨h.of_le (h.toKeyed.act (.front i)) h.unused rfl fun T e he =>
      ⟨e, same T ▸ he, rfl, rfl⟩, fun T hT => ⟨same T ▸ hT, ?_⟩⟩
    simp [Outbox.after, givesUp]
  | status | clear | session => exact quiet.elim

theorem unanswered_run (remote : Identity) (remoteKey : ElGamal.PublicKey) (settings : Settings)
    {es : List Event} (quiet : ∀ e ∈ es, e.Quiet) :
    let new := Outbox.new (.new remote remoteKey settings)
    (new.run es).Unanswered ∧ ∀ T, (new.run es).entries.find? T ≠ none →
      ((new.run es).sender.barrier = none ↔ new.Abandoned es) := by
  intro new
  induction es using List.reverseRecOn with
  | nil => exact ⟨.new remote remoteKey settings, fun T hT => absurd rfl hT⟩
  | append_singleton es e ih =>
    obtain ⟨h, before⟩ := ih fun e he => quiet e (List.mem_append_left _ he)
    have quiet := quiet e (List.mem_append_right _ (List.mem_singleton_self e))
    obtain ⟨after, step⟩ := after_of_quiet quiet h
    rw [run_concat, abandoned_concat]
    refine ⟨after, fun T hT => ?_⟩
    have step := step T hT
    split_ifs at step with nothing
    · rw [step.2, before T step.1]
      simp [nothing]
    · simp [nothing, Option.isSome_iff_ne_none.mp step]

/-- Sends that nobody answers. In every run in which every message is taken and no status comes in, a
round of maintenance hands over again, once and in the order of the window, the sends that are due, and
they stay; sends whose window has closed are forgotten; and the others wait. But a stale send without an
explicit acknowledgment is dropped, although its window is open, exactly if the handshake was given up
before and nothing has been handed over in that round or since. -/
theorem unanswered_sends (remote : Identity) (remoteKey : ElGamal.PublicKey) (settings : Settings)
    (es : List Event) (quiet : ∀ e ∈ es, e.Quiet) (moment : Moment) (supply : Supply)
    (layer : TunnelLayer) (taken : layer.Quiet) :
    let new := Outbox.new (.new remote remoteKey settings)
    let o := new.run es
    let now := moment.instant
    let result := o.maintain moment supply layer
    let after := result.2.2.2
    result.1 = {
      resent := (o.fated now .goesAgain).length
      failures := 0
      expired := (o.fated now .expires).length
      dropped := (o.fated now .dropped).length
      reset := o.stuck now } ∧
    List.Forall₂ (Retried now after) (o.fated now .goesAgain) result.2.1 ∧
    (∀ e ∈ o.fated now .waits, after.entries.find? e.trackingId = some e) ∧
    (∀ T, after.entries.find? T ≠ none → ∃ e, o.entries.find? T = some e ∧
      (o.fate now e = .waits ∨ o.fate now e = .goesAgain)) ∧
    ∀ e ∈ o.entries.values, o.fate now e = .dropped ↔
      ¬ o.isExpired now e ∧ o.isStale now e ∧ ¬ e.explicit ∧ new.Abandoned es := by
  intro new o now result after
  obtain ⟨h, lapsed⟩ := unanswered_run remote remoteKey settings quiet
  have round := maintain_of_quiet moment taken h supply
  refine ⟨round.report, round.again, round.waits, round.gone, fun e he => ?_⟩
  have found := h.mem_values_iff.mp he
  rw [← lapsed e.trackingId (by simp [found])]
  exact fate_eq_dropped_iff

/-- All messages are taken, and there is one reply tunnel. -/
def openLayer : TunnelLayer := ⟨fun _ => some ⟨⟨.ofNat 32 9⟩, ⟨4⟩⟩, fun _ => ⟨.ok (), []⟩⟩

theorem quiet_openLayer : openLayer.Quiet := ⟨fun _ => rfl, fun _ => rfl⟩

/-- A send without cloves. -/
def oneSend : List Event := [.send ⟨0, 0⟩ (.numbered 0) openLayer false []]

theorem quiet_oneSend : ∀ e ∈ oneSend, e.Quiet := List.forall_mem_singleton.mpr quiet_openLayer

theorem unanswered_sends_oneSend :
    let moment : Moment := ⟨15000000000, 0⟩
    let o := (Outbox.new (.new ⟨.ofNat 32 1⟩ ⟨.ofNat 256 2⟩ {})).run oneSend
    let result := o.maintain moment ⟨fun _ => .numbered 1, 0⟩ openLayer
    (∀ e ∈ oneSend, e.Quiet) ∧ openLayer.Quiet ∧
      (o.fated moment.instant .goesAgain).map Outstanding.trackingId = [1] ∧
      List.Forall₂ (Retried moment.instant result.2.2.2) (o.fated moment.instant .goesAgain)
        result.2.1 := by
  have main := unanswered_sends ⟨.ofNat 32 1⟩ ⟨.ofNat 256 2⟩ {} oneSend quiet_oneSend ⟨15000000000, 0⟩
    ⟨fun _ => .numbered 1, 0⟩ openLayer quiet_openLayer
  dsimp only at main ⊢
  exact ⟨quiet_oneSend, quiet_openLayer, by decide +kernel, main.2.1⟩

/-- The send goes again when the resend interval of fifteen seconds has passed. A second later the
handshake is given up, but the send is not due. -/
def givenUp : List Event :=
  oneSend ++
    [.maintain ⟨15000000000, 0⟩ ⟨fun _ => .numbered 1, 0⟩ openLayer,
      .maintain ⟨16000000000, 0⟩ ⟨fun _ => .numbered 2, 0⟩ openLayer]

/-- When it is due, thirty seconds after it was first sent, it is dropped, and nothing is handed over. -/
theorem open_send_dropped :
    let o := (Outbox.new (.new ⟨.ofNat 32 1⟩ ⟨.ofNat 256 2⟩ {})).run givenUp
    let now := 30000000000
    let result := o.maintain ⟨now, 0⟩ ⟨fun _ => .numbered 3, 0⟩ openLayer
    Settings.validate {} = .ok () ∧ (∀ e ∈ givenUp, e.Quiet) ∧ openLayer.Quiet ∧
      (o.entries.values.map fun e => (e.trackingId, o.isExpired now e, o.isStale now e)) =
        [(1, false, true)] ∧
      result.1 = { dropped := 1 } ∧ result.2.1.length = 0 ∧ result.2.2.2.entries.size = 0 := by
  intro o now result
  have quiet : ∀ e ∈ givenUp, e.Quiet := by
    simp only [givenUp, oneSend, List.singleton_append, List.forall_mem_cons, Event.Quiet,
      quiet_openLayer, List.not_mem_nil, false_implies, implies_true, and_self]
  have dropped : (o.entries.values.map fun e => (e.trackingId, o.isExpired now e, o.isStale now e)) =
        [(1, false, true)] ∧
      result.1 = { dropped := 1 } ∧ result.2.1.length = 0 ∧ result.2.2.2.entries.size = 0 := by
    decide +kernel
  exact ⟨rfl, quiet, quiet_openLayer, dropped⟩

end Run

end Outbox

end GarlicRouting
