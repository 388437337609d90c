import GarlicRouting.Proofs.Session.Sealed
import Mathlib

/-! The way of a tag on the sending side: minted with a batch, made usable by the acknowledgment of
that batch, spent by one message. It is never in two places, and goes with the key of its batch. -/
namespace GarlicRouting.Sender

namespace Event

def time? : Event → Option Nat
  | encrypt moment .. => some moment.instant
  | resetIfStuck now _ => some now
  | _ => none

def times (es : List Event) : List Nat := es.filterMap time?

@[simp] theorem times_append (es fs : List Event) : times (es ++ fs) = times es ++ times fs :=
  List.filterMap_append

end Event

/-- The tags of the batches that wait for their acknowledgment. -/
def waiting (s : Sender) : List SessionTag := s.pending.toList.flatMap fun p => p.2.tags

/-- The tags in the usable pool. -/
def available (s : Sender) : List SessionTag := s.usable.entries.toList.map PoolEntry.key

/-- The tags that a step spends: live before an encryption, and no longer there after it. -/
def spent (s : Sender) (e : Event) : List SessionTag :=
  match e with
  | .encrypt moment .. => s.available.filter fun t =>
      s.usable.contains t moment.instant && !(s.after e).usable.contains t moment.instant
  | _ => []

/-- The tags that a run spends, in order. -/
def spentTags (s : Sender) : List Event → List SessionTag
  | [] => []
  | e :: es => s.spent e ++ (s.after e).spentTags es

def message? (s : Sender) : Event → Option Sealed
  | .encrypt moment d reply explicit trackingId cloves =>
    (s.encrypt moment d reply explicit trackingId cloves).1.toOption
  | _ => none

/-- The messages that come out of a run, in order. -/
def messages (s : Sender) : List Event → List Sealed
  | [] => []
  | e :: es => (s.message? e).toList ++ (s.after e).messages es

/-- The tags that a run draws. -/
def drawnTags (count : Nat) (es : List Event) : List SessionTag :=
  (Event.draws es).flatMap fun d => d.batch count

theorem drawnTags_append (count : Nat) (es fs : List Event) :
    drawnTags count (es ++ fs) = drawnTags count es ++ drawnTags count fs := by
  rw [drawnTags, Event.draws_append, List.flatMap_append]
  rfl

/-- In how many places among the batches and the pool a tag is. -/
def places (s : Sender) (t : SessionTag) : Nat := s.waiting.count t + s.available.count t

section Lists

variable {s : Sender}

theorem mem_available (sound : s.usable.Sound) {t : SessionTag} :
    t ∈ s.available ↔ ∃ e, s.usable.stored? t = some e := by
  simp only [available, List.mem_map, Array.mem_toList_iff, sound.stored?_eq_some_iff]

theorem nodup_available (sound : s.usable.Sound) : s.available.Nodup := sound.nodup_keys

theorem mem_spent (sound : s.usable.Sound) {moment : Moment} {d : Draw} {reply : Option ReplyTunnel}
    {explicit : Bool} {trackingId : UInt32} {cloves : List Clove} {t : SessionTag} :
    t ∈ s.spent (.encrypt moment d reply explicit trackingId cloves) ↔
      s.usable.contains t moment.instant ∧
        ¬ (s.encrypt moment d reply explicit trackingId cloves).2.usable.contains t moment.instant := by
  simp only [spent, after, List.mem_filter, mem_available sound, Bool.and_eq_true, Bool.not_eq_true',
    Bool.not_eq_true]
  constructor
  · exact fun h => h.2
  · intro h
    obtain ⟨e, he, -⟩ := Pool.contains_iff.mp h.1
    exact ⟨⟨e, he⟩, h⟩

theorem nodup_spent (sound : s.usable.Sound) (e : Event) : (s.spent e).Nodup := by
  cases e with
  | encrypt => exact (nodup_available sound).filter _
  | acknowledge | resetIfStuck | reset => exact List.nodup_nil

end Lists

section Encrypt

variable {s t : Sender} {moment : Moment} {d : Draw} {reply : Option ReplyTunnel} {explicit : Bool}
  {trackingId : UInt32} {cloves : List Clove} {result : Except SendFault Sealed}

/-- What an encryption leaves in the pool is live. -/
theorem contains_of_encrypt (sound : s.usable.Sound)
    (he : s.encrypt moment d reply explicit trackingId cloves = (result, t)) {tag : SessionTag}
    {e : PoolEntry SessionTag Unit} (h : t.usable.stored? tag = some e) :
    t.usable.contains tag moment.instant := by
  refine Pool.contains_iff.mpr ⟨e, h, ?_⟩
  have expired {a : SessionTag} (ha : (s.expire moment.instant).usable.stored? a = some e) :
      s.usable.isLive moment.instant e := by
    rw [expire, sound.stored?_purge, Option.filter_eq_some_iff] at ha
    exact ha.2
  have live : s.usable.isLive moment.instant e := by
    cases encrypt_cases sound he with
    | refused => exact expired h
    | unspent _ _ _ picked =>
      rw [(picked_expire sound picked).2.2] at h
      split_ifs at h
      exact expired h
    | spent _ _ _ _ _ _ _ _ _ picked _ after =>
      rw [after, usable_keepPending, (picked_expire sound picked).2.2] at h
      split_ifs at h
      exact expired h
    | opened _ _ _ s₁ _ _ _ _ agreed after =>
      rw [after, usable_keepPending] at h
      rcases handshakeKey_cases agreed with ⟨-, -, rfl⟩ | ⟨-, -, rfl⟩
      · exact expired h
      · rw [Pool.stored?_clear] at h
        cases h
  rw [Pool.isLive, lifetime_encrypt sound he]
  exact live

/-- A tag in the pool is either spent by an encryption or stays, but not both. -/
theorem count_available_encrypt (sound : s.usable.Sound)
    (he : s.encrypt moment d reply explicit trackingId cloves = (result, t)) (tag : SessionTag) :
    t.available.count tag +
        (s.spent (.encrypt moment d reply explicit trackingId cloves)).count tag ≤
      s.available.count tag := by
  have apart : (t.available ++
      s.spent (.encrypt moment d reply explicit trackingId cloves)).Nodup := by
    refine List.nodup_append.mpr
      ⟨nodup_available (sound_encrypt sound he), nodup_spent sound _, ?_⟩
    rintro a kept _ gone rfl
    obtain ⟨e, h⟩ := (mem_available (sound_encrypt sound he)).mp kept
    refine ((mem_spent sound).mp gone).2 ?_
    rw [he]
    exact contains_of_encrypt sound he h
  have before : t.available ++ s.spent (.encrypt moment d reply explicit trackingId cloves) ⊆
      s.available := by
    intro a ha
    rcases List.mem_append.mp ha with kept | gone
    · obtain ⟨e, h⟩ := (mem_available (sound_encrypt sound he)).mp kept
      exact (mem_available sound).mpr ⟨e, (usable_encrypt sound he h).1⟩
    · exact List.mem_of_mem_filter gone
  rw [← List.count_append]
  exact (List.subperm_of_subset apart before).count_le tag

theorem distinct_keepPending (distinct : s.pending.Distinct) (now : Nat) (path : Path)
    (key : SessionKey) (tags : List SessionTag) (refresh : Option UInt32) :
    (s.keepPending now path key tags refresh).pending.Distinct := by
  cases refresh with
  | none => exact distinct
  | some ackId => exact distinct.insert ackId _

theorem count_waiting_keepPending (distinct : s.pending.Distinct) (now : Nat) (path : Path)
    (key : SessionKey) (tags : List SessionTag) (refresh : Option UInt32) (tag : SessionTag) :
    (s.keepPending now path key tags refresh).waiting.count tag ≤
      tags.count tag + s.waiting.count tag := by
  cases refresh with
  | none => exact Nat.le_add_left _ _
  | some ackId =>
    have inserted := (distinct.perm_insert ackId ⟨tags, key, now, path = .handshake⟩).flatMap_right
      fun p => p.2.tags
    rw [List.flatMap_cons] at inserted
    show List.count tag (List.flatMap _ (s.pending.insert ackId _).toList) ≤ _
    rw [inserted.count_eq, List.count_append]
    exact Nat.add_le_add_left ((List.filter_sublist.flatMap _).count_le tag) _

theorem distinct_encrypt (sound : s.usable.Sound) (distinct : s.pending.Distinct)
    (he : s.encrypt moment d reply explicit trackingId cloves = (result, t)) :
    t.pending.Distinct := by
  have expired : (s.expire moment.instant).pending.Distinct := distinct.filter _
  cases encrypt_cases sound he with
  | refused | unspent => exact expired
  | spent _ _ _ _ _ _ _ _ _ _ _ after =>
    rw [after]
    refine distinct_keepPending ?_ _ _ _ _ _
    exact expired
  | opened _ _ _ s₁ _ _ _ _ agreed after =>
    rw [after]
    refine distinct_keepPending ?_ _ _ _ _ _
    rcases handshakeKey_cases agreed with ⟨-, -, rfl⟩ | ⟨-, -, rfl⟩ <;> exact expired

/-- Only the new batch can add to the tags that wait. -/
theorem count_waiting_encrypt (sound : s.usable.Sound) (distinct : s.pending.Distinct)
    (he : s.encrypt moment d reply explicit trackingId cloves = (result, t)) (tag : SessionTag) :
    t.waiting.count tag ≤ (d.batch s.settings.refillBatch).count tag + s.waiting.count tag := by
  have expired : (s.expire moment.instant).pending.Distinct := distinct.filter _
  have old : (s.expire moment.instant).waiting.count tag ≤ s.waiting.count tag :=
    (List.filter_sublist.flatMap _).count_le tag
  cases encrypt_cases sound he with
  | refused | unspent => exact old.trans (Nat.le_add_left _ _)
  | spent acks _ _ key usable _ _ _ _ _ _ after =>
    have kept := count_waiting_keepPending (s := { s.expire moment.instant with usable }) expired
      moment.instant .tag key ((s.expire moment.instant).minted moment.instant d) acks.refresh tag
    have minted : ((s.expire moment.instant).minted moment.instant d).count tag ≤
        (d.batch s.settings.refillBatch).count tag := by
      unfold minted
      split_ifs
      · exact le_rfl
      · exact Nat.zero_le _
    rw [after]
    exact kept.trans (Nat.add_le_add minted old)
  | opened _ _ key s₁ _ _ _ _ agreed after =>
    have same : s₁.pending = (s.expire moment.instant).pending := by
      rcases handshakeKey_cases agreed with ⟨-, -, rfl⟩ | ⟨-, -, rfl⟩ <;> rfl
    have kept := count_waiting_keepPending (same ▸ expired) moment.instant .handshake key
      (d.batch s.settings.refillBatch) (some d.refreshAck) tag
    rw [after]
    refine kept.trans (Nat.add_le_add_left ?_ _)
    rw [waiting, same]
    exact old

end Encrypt

section Acknowledge

variable {s : Sender}

theorem distinct_acknowledge (distinct : s.pending.Distinct) (ackId : UInt32) :
    (s.acknowledge ackId).2.pending.Distinct := by
  rcases acknowledge_cases s ackId with ⟨-, h⟩ | ⟨_, -, ⟨-, h⟩ | ⟨-, h⟩⟩ <;> rw [h]
  · exact distinct
  · exact distinct.erase ackId
  · exact distinct.erase ackId

/-- An acknowledgment moves tags, at most. -/
theorem places_acknowledge (sound : s.usable.Sound) (distinct : s.pending.Distinct)
    (ackId : UInt32) (tag : SessionTag) : (s.acknowledge ackId).2.places tag ≤ s.places tag := by
  have erased : List.Sublist (s.pending.erase ackId).toList s.pending.toList := List.filter_sublist
  unfold places
  rcases acknowledge_cases s ackId with ⟨-, h⟩ | ⟨batch, found, ⟨-, h⟩ | ⟨-, h⟩⟩ <;> rw [h]
  · exact Nat.add_le_add_right ((erased.flatMap _).count_le tag) _
  · have waited := ((distinct.perm_erase found).flatMap_right fun p => p.2.tags).count_eq tag
    rw [List.flatMap_cons, List.count_append] at waited
    have pooled : (available { s with
        usable := batch.tags.foldl (fun p t => p.insert t () batch.created) s.usable }).count tag ≤
        batch.tags.count tag + s.available.count tag := by
      have sound' := sound.foldl_insert batch.tags () batch.created
      rw [← List.count_append]
      refine (List.subperm_of_subset (nodup_available sound') fun a ha => ?_).count_le tag
      obtain ⟨e, he⟩ := (mem_available sound').mp ha
      rw [sound.stored?_foldl_insert] at he
      split_ifs at he with hb
      · exact List.mem_append_left _ hb
      · exact List.mem_append_right _ ((mem_available sound).mpr ⟨e, he⟩)
    unfold waiting available at *
    simp only at waited pooled ⊢
    omega

end Acknowledge

section Run

variable {s : Sender}

theorem distinct_after (sound : s.usable.Sound) (distinct : s.pending.Distinct) (e : Event) :
    (s.after e).pending.Distinct := by
  cases e with
  | encrypt => exact distinct_encrypt sound distinct (Prod.mk.eta).symm
  | acknowledge ackId => exact distinct_acknowledge distinct ackId
  | resetIfStuck now timeout =>
    rw [after]
    rcases resetIfStuck_cases s now timeout with ⟨-, h⟩ | ⟨-, h⟩ <;> rw [h]
    · exact Table.distinct_empty
    · exact distinct
  | reset => exact Table.distinct_empty

/-- Conservation of tags: a step spends tags of the pool, moves others into it, and makes none but
those it draws. -/
theorem places_after (sound : s.usable.Sound) (distinct : s.pending.Distinct) (e : Event)
    (tag : SessionTag) :
    (s.after e).places tag + (s.spent e).count tag ≤
      (drawnTags s.settings.refillBatch [e]).count tag + s.places tag := by
  cases e with
  | encrypt moment d reply explicit trackingId cloves =>
    obtain ⟨⟨result, t⟩, he⟩ : ∃ r, s.encrypt moment d reply explicit trackingId cloves = r :=
      ⟨_, rfl⟩
    have waited := count_waiting_encrypt sound distinct he tag
    have pooled := count_available_encrypt sound he tag
    have drawn : drawnTags s.settings.refillBatch
        [.encrypt moment d reply explicit trackingId cloves] = d.batch s.settings.refillBatch :=
      List.append_nil _
    rw [after, he, drawn]
    show t.waiting.count tag + t.available.count tag + _ ≤ _ + (_ + _)
    omega
  | acknowledge ackId =>
    exact (places_acknowledge sound distinct ackId tag).trans (Nat.le_add_left _ _)
  | resetIfStuck now timeout =>
    rw [after]
    rcases resetIfStuck_cases s now timeout with ⟨-, h⟩ | ⟨-, h⟩ <;> rw [h]
    · exact Nat.zero_le _
    · exact Nat.le_add_left _ _
  | reset => exact Nat.zero_le _

theorem places_run (sound : s.usable.Sound) (distinct : s.pending.Distinct) (es : List Event)
    (tag : SessionTag) :
    (s.run es).places tag + (s.spentTags es).count tag ≤
      (drawnTags s.settings.refillBatch es).count tag + s.places tag := by
  induction es generalizing s with
  | nil => exact Nat.le_add_left _ _
  | cons e es ih =>
    have step := places_after sound distinct e tag
    have rest := ih (sound_after sound e) (distinct_after sound distinct e)
    have drawn : drawnTags s.settings.refillBatch (e :: es) =
        drawnTags s.settings.refillBatch [e] ++ drawnTags s.settings.refillBatch es :=
      drawnTags_append s.settings.refillBatch [e] es
    rw [(frame_after sound e).settings] at rest
    rw [drawn, spentTags, List.count_append, List.count_append]
    show ((s.after e).run es).places tag + _ ≤ _
    omega

theorem lifetime_after (sound : s.usable.Sound) (e : Event) :
    (s.after e).usable.lifetime = s.usable.lifetime := by
  cases e with
  | encrypt => exact lifetime_encrypt sound (Prod.mk.eta).symm
  | acknowledge ackId => exact lifetime_acknowledge s ackId
  | resetIfStuck now timeout =>
    rw [after]
    rcases resetIfStuck_cases s now timeout with ⟨-, h⟩ | ⟨-, h⟩ <;> rw [h]
    rfl
  | reset => rfl

theorem lifetime_run (sound : s.usable.Sound) (es : List Event) :
    (s.run es).usable.lifetime = s.usable.lifetime := by
  induction es using List.reverseRecOn with
  | nil => rfl
  | append_singleton es e ih =>
    rw [run_concat, lifetime_after (frame_run sound es).2, ih]

end Run

section Message

variable {s t : Sender} {moment : Moment} {d : Draw} {reply : Option ReplyTunnel} {explicit : Bool}
  {trackingId : UInt32} {cloves : List Clove} {result : Except SendFault Sealed} {m : Sealed}

theorem handshake_of_no_tag (sound : s.usable.Sound) {now : Nat}
    (path : (s.expire now).path now = .handshake) (tag : SessionTag) :
    ¬ s.usable.contains tag now := by
  rw [path_expire_eq_handshake_iff] at path
  intro live
  obtain ⟨e, he, live⟩ := Pool.contains_iff.mp live
  have kept := (s.usable.mem_purge now e).mpr ⟨(sound.stored?_eq_some_iff.mp he).1, live⟩
  rw [show (s.usable.purge now).2.entries = #[] from path] at kept
  exact Array.not_mem_empty e kept

/-- A message spends a tag exactly when it takes the path of tags, and then the tag is at its front
and it is encrypted with the key of the session. -/
theorem spent_encrypt (sound : s.usable.Sound)
    (he : s.encrypt moment d reply explicit trackingId cloves = (.ok m, t)) :
    m.path = .handshake ∧ s.spent (.encrypt moment d reply explicit trackingId cloves) = [] ∨
      m.path = .tag ∧ ∃ tag key block, s.key = some key ∧ Tagged key tag block d m.wire ∧
        ∀ a, a ∈ s.spent (.encrypt moment d reply explicit trackingId cloves) ↔ a = tag := by
  have members (a : SessionTag) := @mem_spent s sound moment d reply explicit trackingId cloves a
  rw [he] at members
  cases sending_of_encrypt sound he with
  | spent _ _ tag key usable _ _ _ _ _ picked known sealed after =>
    refine .inr ⟨rfl, tag, key, _, known, tagged_of_wire sealed, fun a => ?_⟩
    obtain ⟨-, ⟨e, held, live⟩, left⟩ := picked_expire sound picked
    have gone : t.usable.stored? a =
        if tag = a then none else (s.usable.stored? a).filter (s.usable.isLive moment.instant) := by
      rw [after, usable_keepPending, left a, expire, sound.stored?_purge]
    have same : t.usable.isLive moment.instant = s.usable.isLive moment.instant :=
      Pool.isLive_congr (lifetime_encrypt sound he) moment.instant
    rw [members, Pool.contains_iff, Pool.contains_iff, gone, same]
    constructor
    · intro hh
      obtain ⟨⟨e, he, live⟩, absent⟩ := hh
      by_contra other
      refine absent ⟨e, ?_, live⟩
      rw [if_neg (Ne.symm other), he, Option.filter_some, if_pos live]
    · rintro rfl
      refine ⟨⟨e, held, live⟩, fun hh => ?_⟩
      obtain ⟨_, h, _⟩ := hh
      rw [if_pos rfl] at h
      cases h
  | opened _ _ _ _ _ _ path =>
    refine .inl ⟨rfl, List.eq_nil_iff_forall_not_mem.mpr fun a ha => ?_⟩
    exact handshake_of_no_tag sound path a ((members a).mp ha).1

/-- Each message that goes with a tag begins with one that is spent in its turn. -/
theorem heads_sublist (sound : s.usable.Sound) (es : List Event) :
    (((s.messages es).filter fun m => m.path = .tag).map fun m => m.wire.take 32).Sublist
      ((s.spentTags es).map fun t => t.octets.toList) := by
  induction es generalizing s with
  | nil => exact List.Sublist.refl _
  | cons e es ih =>
    rw [messages, spentTags, List.filter_append, List.map_append, List.map_append]
    refine List.Sublist.append ?_ (ih (sound_after sound e))
    cases e with
    | acknowledge | resetIfStuck | reset => exact List.nil_sublist _
    | encrypt moment d reply explicit trackingId cloves =>
      rw [message?]
      cases he : s.encrypt moment d reply explicit trackingId cloves with
      | mk result t =>
        cases result with
        | error e => exact List.nil_sublist _
        | ok m =>
          rcases spent_encrypt sound he with ⟨path, -⟩ | ⟨path, tag, key, block, -, tagged, spent⟩
          · simp [Except.toOption, path]
          · have front : m.wire.take 32 = tag.octets.toList := tagged.front
            have member := (spent tag).mpr rfl
            simp only [Except.toOption, Option.toList_some, List.filter_cons, path, decide_true,
              if_true, List.filter_nil, List.map_cons, List.map_nil, front]
            exact List.singleton_sublist.mpr (List.mem_map_of_mem member)

end Message

/-- An encryption makes a batch: the batch then waits, and the message, which is only missing if the
tags are too many for it, carries the tags under the key of the batch. -/
structure Mints (s : Sender) (moment : Moment) (d : Draw) (result : Except SendFault Sealed)
    (t : Sender) (b : Batch) : Prop where
  tags : b.tags = d.batch s.settings.refillBatch
  created : b.created = moment.instant
  key : t.key = some b.key
  waits : t.pending.find? d.refreshAck = some b
  carried : ∀ m, result = .ok m → m.refreshAckId = some d.refreshAck ∧ ∃ payload,
    m.path = .handshake ∧ Handshaken s.remoteKey b.key ⟨b.tags, none, payload⟩ d m.wire ∨
      m.path = .tag ∧ ∃ tag, Tagged b.key tag ⟨b.tags, none, payload⟩ d m.wire
  sent : b.tags.length ≤ 65535 → ∃ m, result = .ok m

section Mint

variable {s t : Sender} {moment : Moment} {d : Draw} {reply : Option ReplyTunnel} {explicit : Bool}
  {trackingId : UInt32} {cloves : List Clove} {result : Except SendFault Sealed}

/-- Whatever waits after an encryption has waited before, or was made by it. -/
theorem mints_of_pending (sound : s.usable.Sound) (distinct : s.pending.Distinct)
    (he : s.encrypt moment d reply explicit trackingId cloves = (result, t)) {p : UInt32 × Batch}
    (hp : p ∈ t.pending.toList) :
    p ∈ s.pending.toList ∨ p.1 = d.refreshAck ∧ s.Mints moment d result t p.2 := by
  have old {p : UInt32 × Batch} (hp : p ∈ (s.expire moment.instant).pending.toList) :
      p ∈ s.pending.toList := ((s.mem_pending_expire moment.instant).mp hp).1
  have waits : t.pending.find? p.1 = some p.2 := (distinct_encrypt sound distinct he).mem_iff.mp hp
  cases encrypt_cases sound he with
  | refused | unspent => exact .inl (old hp)
  | spent acks payload tag key _ _ _ asked written _ known after =>
    rw [after] at hp
    rcases mem_pending_keepPending hp with hp | ⟨ackId, hack, rfl⟩
    · exact .inl (old hp)
    · have refresh := (requestAcks_eq_ok asked).1
      rw [hack] at refresh
      split_ifs at refresh with mint
      have same : (s.expire moment.instant).minted moment.instant d = d.batch s.settings.refillBatch :=
        if_pos mint
      obtain ⟨fits, rfl⟩ := Garlic.encode_eq_ok_iff.mp written
      obtain rfl := Option.some.inj refresh
      refine .inr ⟨rfl, same, rfl, ?_, waits, fun m hm => ?_, fun few => ?_⟩
      · rw [after, key_keepPending]
        exact known
      · obtain ⟨wire, hwire, rfl⟩ := described_eq_ok.mp hm
        exact ⟨hack, _, .inr ⟨rfl, tag, tagged_of_wire hwire⟩⟩
      · obtain ⟨wire, hwire⟩ := (@exists_tagWire_iff key tag ⟨_, none, _⟩ d).mpr
          ⟨few, fits.length_octets_le⟩
        exact ⟨_, described_eq_ok.mpr ⟨wire, hwire, rfl⟩⟩
  | opened acks payload key s₁ _ _ asked written agreed after =>
    rw [after] at hp
    rcases mem_pending_keepPending hp with hp | ⟨ackId, hack, rfl⟩
    · rcases handshakeKey_cases agreed with ⟨-, -, rfl⟩ | ⟨-, -, rfl⟩ <;> exact .inl (old hp)
    · obtain rfl := Option.some.inj hack
      obtain ⟨fits, rfl⟩ := Garlic.encode_eq_ok_iff.mp written
      refine .inr ⟨rfl, rfl, rfl, ?_, waits, fun m hm => ?_, fun few => ?_⟩
      · rw [after, key_keepPending]
        exact key_of_handshakeKey agreed
      · obtain ⟨wire, hwire, rfl⟩ := described_eq_ok.mp hm
        exact ⟨(requestAcks_eq_ok asked).1, _, .inl ⟨rfl, handshaken_of_wire hwire⟩⟩
      · obtain ⟨wire, hwire⟩ := (@exists_handshakeWire_iff key ⟨_, none, _⟩ d s.remoteKey).mpr
          ⟨few, fits.length_octets_le⟩
        exact ⟨_, described_eq_ok.mpr ⟨wire, hwire, rfl⟩⟩

end Mint

section Origin

variable {s : Sender} {es since : List Event} {ackId : UInt32} {b : Batch}

/-- An encryption of the run made the batch, whose acknowledgment has this id. -/
def Minted (s : Sender) (es : List Event) (ackId : UInt32) (b : Batch) (since : List Event) : Prop :=
  ∃ before moment d reply explicit trackingId cloves,
    es = before ++ .encrypt moment d reply explicit trackingId cloves :: since ∧
      ackId = d.refreshAck ∧ (s.run before).Mints moment d
        ((s.run before).encrypt moment d reply explicit trackingId cloves).1
        ((s.run before).encrypt moment d reply explicit trackingId cloves).2 b

/-- The batch was acknowledged some time after it was made. -/
def Confirmed (s : Sender) (es : List Event) (b : Batch) : Prop :=
  ∃ ackId since, s.Minted es ackId b since ∧ .acknowledge ackId ∈ since

theorem Minted.concat (h : s.Minted es ackId b since) (e : Event) :
    s.Minted (es ++ [e]) ackId b (since ++ [e]) := by
  obtain ⟨before, moment, d, reply, explicit, trackingId, cloves, rfl, hid, mints⟩ := h
  refine ⟨before, moment, d, reply, explicit, trackingId, cloves, ?_, hid, mints⟩
  rw [List.append_assoc, List.cons_append]

theorem Confirmed.concat (h : s.Confirmed es b) (e : Event) : s.Confirmed (es ++ [e]) b := by
  obtain ⟨ackId, since, minted, mem⟩ := h
  exact ⟨ackId, since ++ [e], minted.concat e, List.mem_append_left _ mem⟩

/-- Where all batches and tags of a session come from: a usable tag goes with the key of the session,
from a batch that was acknowledged. -/
structure Traced (s : Sender) (es : List Event) : Prop where
  sound : (s.run es).usable.Sound
  distinct : (s.run es).pending.Distinct
  pending : ∀ p ∈ (s.run es).pending.toList, ∃ since, s.Minted es p.1 p.2 since
  usable : ∀ t e, (s.run es).usable.stored? t = some e → ∃ b, s.Confirmed es b ∧ t ∈ b.tags ∧
    e.created = b.created ∧ (s.run es).key = some b.key

namespace Traced

theorem encrypt (h : s.Traced es) (moment : Moment) (d : Draw) (reply : Option ReplyTunnel)
    (explicit : Bool) (trackingId : UInt32) (cloves : List Clove) :
    s.Traced (es ++ [.encrypt moment d reply explicit trackingId cloves]) := by
  have he : (s.run es).encrypt moment d reply explicit trackingId cloves = (_, _) := Prod.mk.eta.symm
  refine ⟨?_, ?_, ?_, ?_⟩ <;> rw [run_concat, after]
  · exact sound_encrypt h.sound he
  · exact distinct_encrypt h.sound h.distinct he
  · intro p hp
    rcases mints_of_pending h.sound h.distinct he hp with hp | ⟨hid, mints⟩
    · obtain ⟨since, minted⟩ := h.pending p hp
      exact ⟨_, minted.concat _⟩
    · exact ⟨[], es, moment, d, reply, explicit, trackingId, cloves, rfl, hid, mints⟩
  · intro t e ht
    obtain ⟨ht, key⟩ := usable_encrypt h.sound he ht
    obtain ⟨b, confirmed, ht, created, known⟩ := h.usable t e ht
    exact ⟨b, confirmed.concat _, ht, created, key.trans known⟩

theorem acknowledge (h : s.Traced es) (ackId : UInt32) : s.Traced (es ++ [.acknowledge ackId]) := by
  refine ⟨?_, ?_, ?_, ?_⟩ <;> rw [run_concat, after]
  · exact sound_acknowledge h.sound ackId
  · exact distinct_acknowledge h.distinct ackId
  · intro p hp
    obtain ⟨since, minted⟩ := h.pending p (pending_acknowledge hp).1
    exact ⟨_, minted.concat _⟩
  · intro t e ht
    rw [key_acknowledge]
    rcases usable_acknowledge h.sound ht with ht | ⟨b, waits, known, ht, created⟩
    · obtain ⟨b, confirmed, ht, created, known⟩ := h.usable t e ht
      exact ⟨b, confirmed.concat _, ht, created, known⟩
    · obtain ⟨since, minted⟩ := h.pending _ waits
      exact ⟨b, ⟨ackId, _, minted.concat _, List.mem_append_right _ (List.mem_singleton_self _)⟩,
        ht, created, known⟩

theorem of_reset {e : Event} (he : (s.run es).after e = (s.run es).reset) : s.Traced (es ++ [e]) := by
  refine ⟨?_, ?_, ?_, ?_⟩ <;> rw [run_concat, he]
  · exact Pool.sound_clear _
  · exact Table.distinct_empty
  · intro p hp
    cases hp
  · intro t e ht
    rw [reset, Pool.stored?_clear] at ht
    cases ht

theorem of_unchanged (h : s.Traced es) {e : Event} (he : (s.run es).after e = s.run es) :
    s.Traced (es ++ [e]) := by
  refine ⟨?_, ?_, ?_, ?_⟩ <;> rw [run_concat, he]
  · exact h.sound
  · exact h.distinct
  · intro p hp
    obtain ⟨since, minted⟩ := h.pending p hp
    exact ⟨_, minted.concat e⟩
  · intro t e ht
    obtain ⟨b, confirmed, rest⟩ := h.usable t e ht
    exact ⟨b, confirmed.concat _, rest⟩

end Traced

theorem traced_run (remote : Identity) (remoteKey : ElGamal.PublicKey) (settings : Settings)
    (es : List Event) : (new remote remoteKey settings).Traced es := by
  induction es using List.reverseRecOn with
  | nil =>
    refine ⟨sound_new remote remoteKey settings, Table.distinct_empty, fun p hp => ?_,
      fun t e ht => ?_⟩
    · cases hp
    · obtain ⟨he, -⟩ := (sound_new remote remoteKey settings).stored?_eq_some_iff.mp ht
      exact absurd he (Array.not_mem_empty e)
  | append_singleton es e ih =>
    cases e with
    | encrypt moment d reply explicit trackingId cloves =>
      exact ih.encrypt moment d reply explicit trackingId cloves
    | acknowledge ackId => exact ih.acknowledge ackId
    | resetIfStuck now timeout =>
      rcases resetIfStuck_cases ((new remote remoteKey settings).run es) now timeout with
        ⟨-, h⟩ | ⟨-, h⟩
      · exact .of_reset h
      · exact ih.of_unchanged h
    | reset => exact .of_reset rfl

end Origin

section Discipline

variable {remote : Identity} {remoteKey : ElGamal.PublicKey} {settings : Settings}

/-- A batch of a run with ordered times is not from the future. -/
theorem Confirmed.created_le {s : Sender} {es : List Event} {b : Batch} (h : s.Confirmed es b)
    {now : Nat} (ordered : ∀ t ∈ Event.times es, t ≤ now) : b.created ≤ now := by
  obtain ⟨_, since, ⟨before, moment, d, _, _, _, _, rfl, -, mints⟩, -⟩ := h
  rw [mints.created]
  exact ordered _ (by simp [Event.times, Event.time?])

theorem nodup_places {es : List Event} (fresh : (drawnTags settings.refillBatch es).Nodup) :
    let start := new remote remoteKey settings
    ((start.run es).waiting ++ (start.run es).available ++ start.spentTags es).Nodup := by
  intro start
  refine List.nodup_iff_count_le_one.mpr fun tag => ?_
  have conserved := places_run (sound_new remote remoteKey settings) Table.distinct_empty es tag
  have none : start.places tag = 0 := rfl
  have once := List.nodup_iff_count_le_one.mp fresh tag
  rw [List.count_append, List.count_append]
  exact (conserved.trans (by rw [none]; exact le_rfl)).trans once

/-- Tags are used once and with their own key: on a run with fresh tags no tag is ever in two places
among the pending batches, the usable pool and the tags that are spent, and no two messages begin with
the same one. A tag that a message spends comes from a batch that was acknowledged before, was minted
no longer ago than the lifetime of usable tags, and the message is encrypted with the key of the
message that carried the batch. -/
theorem tag_discipline (remote : Identity) (remoteKey : ElGamal.PublicKey) (settings : Settings)
    (es : List Event) (fresh : (drawnTags settings.refillBatch es).Nodup)
    (ordered : (Event.times es).Pairwise (· ≤ ·)) :
    let start := new remote remoteKey settings
    let s := start.run es
    (s.waiting ++ s.available ++ start.spentTags es).Nodup ∧
    (((start.messages es).filter fun m => m.path = .tag).map fun m => m.wire.take 32).Nodup ∧
    ∀ before moment d reply explicit trackingId cloves after,
      es = before ++ .encrypt moment d reply explicit trackingId cloves :: after →
      ∀ tag ∈ (start.run before).spent (.encrypt moment d reply explicit trackingId cloves),
        ∃ b, start.Confirmed before b ∧ tag ∈ b.tags ∧
          b.created ≤ moment.instant ∧
          moment.instant - b.created ≤ settings.usableTagSpan.nanoseconds ∧
          (start.run before).key = some b.key ∧
          ∀ m t, (start.run before).encrypt moment d reply explicit trackingId cloves = (.ok m, t) →
            m.path = .tag ∧ ∃ block, Tagged b.key tag block d m.wire := by
  intro start s
  have apart : (s.waiting ++ s.available ++ start.spentTags es).Nodup := nodup_places fresh
  refine ⟨apart, ?_, ?_⟩
  · have once : ((start.spentTags es).map fun t => t.octets.toList).Nodup := by
      refine (List.nodup_append.mp apart).2.1.map ?_
      rintro ⟨a⟩ ⟨b⟩ same
      exact congrArg SessionTag.mk (Octets.ext same)
    exact once.sublist (heads_sublist (sound_new remote remoteKey settings) es)
  · rintro before moment d reply explicit trackingId cloves after rfl tag spent
    have traced := traced_run remote remoteKey settings before
    have earlier : ∀ t ∈ Event.times before, t ≤ moment.instant := by
      rw [Event.times_append] at ordered
      exact fun t ht => (List.pairwise_append.mp ordered).2.2 t ht _ (by simp [Event.times, Event.time?])
    obtain ⟨e, stored, live⟩ := Pool.contains_iff.mp ((mem_spent traced.sound).mp spent).1
    obtain ⟨b, confirmed, member, created, known⟩ := traced.usable tag e stored
    refine ⟨b, confirmed, member, confirmed.created_le earlier, ?_, known, fun m t he => ?_⟩
    · rw [Pool.isLive, decide_eq_true_eq, created,
        lifetime_run (sound_new remote remoteKey settings)] at live
      exact live
    · rcases spent_encrypt traced.sound he with ⟨-, none⟩ | ⟨path, tag', key, block, key', tagged, only⟩
      · rw [none] at spent
        cases spent
      · obtain rfl := (only tag).mp spent
        obtain rfl := Option.some.inj (key'.symm.trans known)
        exact ⟨path, block, tagged⟩

/-- A handshake, the acknowledgment of its tags, and a message that spends one of them. -/
def oneTagSpent : List Event :=
  let reply : ReplyTunnel := ⟨⟨.ofNat 32 9⟩, ⟨4⟩⟩
  [.encrypt ⟨0, 0⟩ (.numbered 0) (some reply) false 1 [], .acknowledge 1,
    .encrypt ⟨5, 0⟩ (.numbered 1) (some reply) true 2 []]

theorem tag_discipline_oneTagSpent :
    let start := new ⟨.ofNat 32 9⟩ (ElGamal.KeyPair.ofExponent 5).publicKey {}
    let s := start.run oneTagSpent
    let before := oneTagSpent.take 2
    (drawnTags 15 oneTagSpent).Nodup ∧ (Event.times oneTagSpent).Pairwise (· ≤ ·) ∧
      (start.spentTags oneTagSpent).length = 1 ∧
      (s.waiting ++ s.available ++ start.spentTags oneTagSpent).Nodup ∧
      ((start.messages oneTagSpent).filter fun m => m.path = .tag).length = 1 ∧
      (((start.messages oneTagSpent).filter fun m => m.path = .tag).map fun m => m.wire.take 32).Nodup ∧
      ∃ tag b m t block, start.Confirmed before b ∧ tag ∈ b.tags ∧
        5 - b.created ≤ ({} : Settings).usableTagSpan.nanoseconds ∧
        (start.run before).encrypt ⟨5, 0⟩ (.numbered 1) (some ⟨⟨.ofNat 32 9⟩, ⟨4⟩⟩) true 2 [] =
          (.ok m, t) ∧
        tag.Begins m.wire ∧ TagBlock.decrypt b.key tag.octets (m.wire.drop 32) = .ok block := by
  intro start s before
  have fresh : (drawnTags 15 oneTagSpent).Nodup := by decide +kernel
  have ordered : (Event.times oneTagSpent).Pairwise (· ≤ ·) := by decide
  obtain ⟨apart, heads, each⟩ := tag_discipline ⟨.ofNat 32 9⟩ (ElGamal.KeyPair.ofExponent 5).publicKey
    {} oneTagSpent fresh ordered
  have spends : (start.run before).spent
      (.encrypt ⟨5, 0⟩ (.numbered 1) (some ⟨⟨.ofNat 32 9⟩, ⟨4⟩⟩) true 2 []) ≠ [] := by decide +kernel
  have sends : ((start.run before).encrypt ⟨5, 0⟩ (.numbered 1) (some ⟨⟨.ofNat 32 9⟩, ⟨4⟩⟩) true 2
      []).1.isOk := by decide +kernel
  obtain ⟨tag, spent⟩ := List.exists_mem_of_ne_nil _ spends
  obtain ⟨b, confirmed, member, -, young, -, message⟩ := each before _ _ _ _ _ _ [] rfl tag spent
  obtain ⟨m, t, made⟩ := exists_of_isOk sends
  obtain ⟨-, block, tagged⟩ := message m t made
  exact ⟨fresh, ordered, by decide +kernel, apart, by decide +kernel, heads, tag, b, m, t, block,
    confirmed, member, young, made, tagged.front, tagged.opens⟩

end Discipline

end GarlicRouting.Sender
