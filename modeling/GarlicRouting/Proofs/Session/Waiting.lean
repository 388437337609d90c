import GarlicRouting.Proofs.Session.Statuses
import Mathlib

/-! How long minted tags wait for their acknowledgment. An acknowledgment does not tell the time:
what it finds depends on the steps that came before it, and only an encryption looks at the age of
what waits. -/
namespace GarlicRouting.Sender

/-- The batch is older at a time than tags may wait. -/
def overdue (s : Sender) (b : Batch) (now : Nat) : Bool :=
  s.settings.pendingTagSpan.nanoseconds < now - b.created

/-- The step ends the wait of a batch for the acknowledgment with an id. -/
def ends (s : Sender) (ackId : UInt32) (b : Batch) : Event → Bool
  | .encrypt moment .. => s.overdue b moment.instant
  | .acknowledge id => id = ackId
  | .resetIfStuck now timeout => (s.resetIfStuck now timeout).1
  | .reset => true

def waits (s : Sender) (ackId : UInt32) (b : Batch) : List Event → Bool
  | [] => true
  | e :: es => !s.ends ackId b e && (s.after e).waits ackId b es

section Steps

variable {s : Sender} {ackId : UInt32}

theorem find?_pending_encrypt (sound : s.usable.Sound) (distinct : s.pending.Distinct)
    {t : Sender} {moment : Moment} {d : Draw} {reply : Option ReplyTunnel} {explicit : Bool}
    {trackingId : UInt32} {cloves : List Clove} {result : Except SendFault Sealed}
    (he : s.encrypt moment d reply explicit trackingId cloves = (result, t))
    (other : d.refreshAck ≠ ackId) :
    t.pending.find? ackId =
      (s.pending.find? ackId).filter fun b => !s.overdue b moment.instant := by
  have expired : (s.expire moment.instant).pending.find? ackId =
      (s.pending.find? ackId).filter fun b => !s.overdue b moment.instant := by
    rw [expire, distinct.find?_filter]
    congr 1
    funext b
    rw [overdue, ← decide_not, decide_eq_decide, not_lt]
  have kept {u : Sender} {path : Path} {key : SessionKey} {tags : List SessionTag}
      {refresh : Option UInt32} (same : u.pending = (s.expire moment.instant).pending)
      (asked : ∀ id, refresh = some id → id = d.refreshAck) :
      (u.keepPending moment.instant path key tags refresh).pending.find? ackId =
        (s.expire moment.instant).pending.find? ackId := by
    have apart : refresh ≠ some ackId := fun h => other (asked ackId h).symm
    rw [find?_keepPending, if_neg apart, same]
  rw [← expired]
  cases encrypt_cases sound he with
  | refused | unspent => rfl
  | spent acks _ _ _ _ _ _ asked _ _ _ after =>
    rw [after]
    apply kept
    · rfl
    · intro id hid
      have refresh := (requestAcks_eq_ok asked).1
      rw [hid] at refresh
      split_ifs at refresh
      exact Option.some.inj refresh
  | opened _ _ _ s₁ _ _ _ _ agreed after =>
    rw [after]
    apply kept
    · rcases handshakeKey_cases agreed with ⟨-, -, rfl⟩ | ⟨-, -, rfl⟩ <;> rfl
    · intro id hid
      exact (Option.some.inj hid).symm

/-- What waits under an id that is not drawn again goes on waiting, unless the step ends that. -/
theorem find?_pending_after (sound : s.usable.Sound) (distinct : s.pending.Distinct) {e : Event}
    (other : ∀ d, e.draw? = some d → d.refreshAck ≠ ackId) :
    (s.after e).pending.find? ackId =
      (s.pending.find? ackId).filter fun b => !s.ends ackId b e := by
  have all (o : Option Batch) : (o.filter fun _ => true) = o := by cases o <;> rfl
  have none (o : Option Batch) : (o.filter fun _ => false) = .none := by cases o <;> rfl
  cases e with
  | encrypt moment d reply explicit trackingId cloves =>
    exact find?_pending_encrypt sound distinct Prod.mk.eta.symm (other d rfl)
  | acknowledge id =>
    rw [after, find?_pending_acknowledge]
    by_cases same : ackId = id
    · simp [ends, same, none]
    · simp [ends, same, Ne.symm same, all]
  | resetIfStuck now timeout =>
    rw [after]
    rcases resetIfStuck_cases s now timeout with ⟨late, h⟩ | ⟨early, h⟩ <;> rw [h]
    · simp only [ends, late, Bool.not_true, none]
      rfl
    · simp only [ends, early, Bool.not_false, all]
  | reset =>
    simp only [ends, Bool.not_true, none]
    rfl

/-- A batch is still there at the end of a run exactly when no step has ended its wait. -/
theorem find?_pending_run (sound : s.usable.Sound) (distinct : s.pending.Distinct)
    {es : List Event} (other : ∀ d ∈ Event.draws es, d.refreshAck ≠ ackId) :
    (s.run es).pending.find? ackId = (s.pending.find? ackId).filter fun b => s.waits ackId b es := by
  induction es generalizing s with
  | nil =>
    rw [run, List.foldl_nil]
    cases s.pending.find? ackId <;> rfl
  | cons e es ih =>
    rw [Event.draws_cons] at other
    have first := find?_pending_after sound distinct fun d hd =>
      other d (List.mem_append_left _ (Option.mem_toList.mpr hd))
    have rest := ih (sound_after sound e) (distinct_after sound distinct e) fun d hd =>
      other d (List.mem_append_right _ hd)
    rw [run, List.foldl_cons]
    show ((s.after e).run es).pending.find? ackId = _
    rw [rest, first, Option.filter_filter]
    rfl

end Steps

section Acknowledge

variable {s : Sender} {ackId : UInt32}

theorem acknowledge_of_absent (absent : s.pending.find? ackId = none) :
    s.acknowledge ackId = (none, s) := by
  rw [acknowledge, absent]

theorem acknowledge_fst {b : Batch} (found : s.pending.find? ackId = some b) :
    (s.acknowledge ackId).1 =
      some ⟨if s.key = some b.key then b.tags.length else 0, s.lifts ackId⟩ := by
  rw [acknowledge, found, lifts, accepted?, found]
  by_cases same : s.key = some b.key <;> simp [same, Option.filter_some]

end Acknowledge

/-- Tags that wait are taken in by their acknowledgment, be it ever so late, unless a step before it
ended their wait. Of the steps only an encryption looks at how long they have waited: once it has
found them overdue, the acknowledgment does nothing. -/
theorem late_acknowledgment (remote : Identity) (remoteKey : ElGamal.PublicKey) (settings : Settings)
    (es since : List Event) (ackId : UInt32) (b : Batch)
    (found : ((new remote remoteKey settings).run es).pending.find? ackId = some b)
    (other : ∀ d ∈ Event.draws since, d.refreshAck ≠ ackId) :
    let s := (new remote remoteKey settings).run es
    let t := s.run since
    (s.waits ackId b since →
      (t.acknowledge ackId).1 =
        some ⟨if t.key = some b.key then b.tags.length else 0, t.lifts ackId⟩ ∧
      (t.acknowledge ackId).2.barrier = (if t.lifts ackId then none else t.barrier) ∧
      ∀ tag, (t.acknowledge ackId).2.usable.stored? tag =
        if t.key = some b.key ∧ tag ∈ b.tags then some ⟨tag, (), b.created⟩
        else t.usable.stored? tag) ∧
    (¬ s.waits ackId b since → t.acknowledge ackId = (none, t)) ∧
    ∀ moment d reply explicit trackingId cloves,
      settings.pendingTagSpan.nanoseconds < moment.instant - b.created → d.refreshAck ≠ ackId →
        let u := (t.encrypt moment d reply explicit trackingId cloves).2
        u.acknowledge ackId = (none, u) := by
  intro s t
  have traced := traced_run remote remoteKey settings es
  have sound : t.usable.Sound := (frame_run traced.sound since).2
  have distinct : t.pending.Distinct := by
    have all := (traced_run remote remoteKey settings (es ++ since)).distinct
    rwa [run_append] at all
  have same : t.settings = settings :=
    (frame_run traced.sound since).1.settings.trans
      (frame_run (sound_new remote remoteKey settings) es).1.settings
  have there : t.pending.find? ackId = if s.waits ackId b since then some b else none := by
    rw [find?_pending_run traced.sound traced.distinct other, found, Option.filter_some]
  refine ⟨fun waits => ?_, fun ended => ?_, fun moment d reply explicit trackingId cloves late fresh => ?_⟩
  · rw [if_pos waits] at there
    refine ⟨acknowledge_fst there, barrier_acknowledge t ackId, fun tag => ?_⟩
    rw [stored?_acknowledge ackId sound, accepted?, there]
    by_cases known : t.key = some b.key <;> by_cases ht : tag ∈ b.tags <;>
      simp [known, ht, Option.filter_some]
  · rw [if_neg ended] at there
    exact acknowledge_of_absent there
  · intro u
    have left : u.pending.find? ackId = _ :=
      find?_pending_encrypt sound distinct Prod.mk.eta.symm fresh
    apply acknowledge_of_absent
    rw [left, there]
    split_ifs
    · have overdue : t.overdue b moment.instant = true := by
        rw [overdue, same]
        exact decide_eq_true late
      simp [Option.filter_some, overdue]
    · rfl

def oneHandshake : List Event :=
  [.encrypt ⟨0, 0⟩ (.numbered 0) (some ⟨⟨.ofNat 32 9⟩, ⟨4⟩⟩) false 7 []]

def firstBatch : Batch := ⟨(Draw.numbered 0).batch 15, (Draw.numbered 0).sessionKey, 0, true⟩

theorem late_acknowledgment_oneHandshake :
    let s := (new ⟨.ofNat 32 9⟩ ⟨.ofNat 256 2⟩ {}).run oneHandshake
    let since : List Event := [.acknowledge 5, .resetIfStuck 121000000000 200000000000]
    s.pending.find? 1 = some firstBatch ∧ s.waits 1 firstBatch since ∧
      ((s.run since).acknowledge 1).1 = some ⟨15, true⟩ := by
  intro s since
  have found : s.pending.find? 1 = some firstBatch := by decide +kernel
  have waits : s.waits 1 firstBatch since := by decide +kernel
  have key : (s.run since).key = some firstBatch.key := by decide +kernel
  have lifts : (s.run since).lifts 1 = true := by decide +kernel
  have undrawn : ∀ d ∈ Event.draws since, d.refreshAck ≠ 1 := fun d hd => by cases hd
  obtain ⟨taken, -, -⟩ := late_acknowledgment ⟨.ofNat 32 9⟩ ⟨.ofNat 256 2⟩ {} oneHandshake since 1
    firstBatch found undrawn
  obtain ⟨told, -⟩ := taken waits
  have size : firstBatch.tags.length = 15 := by decide
  rw [if_pos key, size, lifts] at told
  exact ⟨found, waits, told⟩

/-- After two minutes the first encryption drops the tags that wait. Without it the acknowledgment
takes them in at that time, and the handshake is over. -/
theorem overdue_tags_taken_in :
    let s := (new ⟨.ofNat 32 9⟩ ⟨.ofNat 256 2⟩ {}).run oneHandshake
    let now : Nat := 121000000000
    let t := s.after (.encrypt ⟨now, 0⟩ (.numbered 1) none false 8 [])
    s.pending.find? 1 = some firstBatch ∧ s.overdue firstBatch now ∧ s.barrier = some ⟨1, 0⟩ ∧
      (s.acknowledge 1).1 = some ⟨15, true⟩ ∧ (s.acknowledge 1).2.barrier = none ∧
      (s.acknowledge 1).2.usableTags now = 15 ∧
      (t.acknowledge 1).1 = none ∧ (t.acknowledge 1).2.barrier = some ⟨1, 0⟩ ∧
      (t.acknowledge 1).2.usableTags now = 0 := by
  decide +kernel

end GarlicRouting.Sender
