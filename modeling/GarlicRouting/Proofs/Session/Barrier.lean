import GarlicRouting.Proofs.Session.Sealed
import Mathlib

/-! The barrier of a handshake: while it is up no tag is usable, every message is a handshake with
the same key, and only an acknowledgment of that key or a reset takes it down. -/
namespace GarlicRouting.Sender

/-- There is a key, no tag is usable, and all that waits under the key came with a handshake. -/
structure Closed (s : Sender) : Prop where
  key : s.key.isSome
  usable : s.usable.entries = #[]
  pending : ∀ p ∈ s.pending.toList, s.key = some p.2.key → p.2.handshake

/-- The session is closed behind its barrier, and all its keys are among those drawn so far. -/
structure Guarded (keys : List SessionKey) (s : Sender) : Prop where
  sound : s.usable.Sound
  key : ∀ k, s.key = some k → k ∈ keys
  pending : ∀ p ∈ s.pending.toList, p.2.key ∈ keys
  closed : s.barrier.isSome → Closed s

namespace Guarded

variable {keys : List SessionKey} {s : Sender}

theorem new (remote : Identity) (remoteKey : ElGamal.PublicKey) (settings : Settings) :
    Guarded [] (Sender.new remote remoteKey settings) where
  sound := sound_new remote remoteKey settings
  key _ h := by cases h
  pending _ h := by cases h
  closed h := by cases h

theorem mono (h : Guarded keys s) {more : List SessionKey} (sub : keys ⊆ more) : Guarded more s where
  sound := h.sound
  key k hk := sub (h.key k hk)
  pending p hp := sub (h.pending p hp)
  closed := h.closed

theorem of_open (sound : s.usable.Sound) (key : ∀ k, s.key = some k → k ∈ keys)
    (pending : ∀ p ∈ s.pending.toList, p.2.key ∈ keys) (opened : s.barrier = none) :
    Guarded keys s where
  sound := sound
  key := key
  pending := pending
  closed hb := by
    rw [opened] at hb
    cases hb

theorem expire (h : Guarded keys s) (now : Nat) : Guarded keys (s.expire now) where
  sound := h.sound.purge now
  key := h.key
  pending p hp := h.pending p ((s.mem_pending_expire now).mp hp).1
  closed hb := by
    obtain ⟨key, usable, pending⟩ := h.closed hb
    refine ⟨key, ?_, fun p hp => pending p ((s.mem_pending_expire now).mp hp).1⟩
    apply Array.eq_empty_iff_forall_not_mem.mpr
    intro e he
    have := ((s.usable.mem_purge now e).mp he).1
    rw [usable] at this
    exact Array.not_mem_empty e this

theorem barrier_of_tag (h : Guarded keys s) {now : Nat}
    (path : (s.expire now).path now = .tag) : s.barrier = none := by
  cases hb : s.barrier with
  | none => rfl
  | some b =>
    have closed := (h.expire now).closed (by rw [barrier_expire, hb]; rfl)
    rw [(s.path_expire_eq_handshake_iff now).mpr closed.usable] at path
    cases path

/-- While the barrier is up a handshake keeps the key, and otherwise the key is new. -/
theorem handshakeKey (h : Guarded keys s) {d : Draw} {key : SessionKey} {s₁ : Sender}
    (agreed : s.handshakeKey d = (key, s₁)) :
    s.barrier.isSome ∧ s.key = some key ∧ s₁ = s ∨
      s.barrier = none ∧ key = d.sessionKey ∧
        s₁ = { s with key := some d.sessionKey, usable := s.usable.clear } := by
  rcases handshakeKey_cases agreed with same | ⟨missing, hkey, hs⟩
  · exact .inl same
  · refine .inr ⟨?_, hkey, hs⟩
    rcases missing with none | none
    · exact none
    · cases hb : s.barrier with
      | none => rfl
      | some b =>
        have known := (h.closed (by rw [hb]; rfl)).key
        rw [none] at known
        cases known

theorem encrypt (h : Guarded keys s) {t : Sender} {moment : Moment} {d : Draw}
    {reply : Option ReplyTunnel} {explicit : Bool} {trackingId : UInt32} {cloves : List Clove}
    {result : Except SendFault Sealed} (fresh : d.sessionKey ∉ keys)
    (he : s.encrypt moment d reply explicit trackingId cloves = (result, t)) :
    Guarded (keys ++ [d.sessionKey]) t := by
  have expired := h.expire moment.instant
  have grown : keys ⊆ keys ++ [d.sessionKey] := List.subset_append_left keys _
  cases encrypt_cases h.sound he with
  | refused => exact expired.mono grown
  | unspent tag usable path picked known =>
    have none := h.barrier_of_tag path
    have left := (expired.sound.pickWithin_some picked).sound
    refine Guarded.mono ?_ grown
    exact of_open left expired.key expired.pending none
  | spent acks payload tag key usable _ path asked written picked known after =>
    have none := h.barrier_of_tag path
    have left := (expired.sound.pickWithin_some picked).sound
    refine Guarded.mono (of_open ?_ ?_ ?_ ?_) grown
    · rw [after, usable_keepPending]
      exact left
    · rw [after, key_keepPending]
      exact h.key
    · intro p hp
      rw [after] at hp
      rcases mem_pending_keepPending hp with hp | ⟨_, -, rfl⟩
      · exact expired.pending p hp
      · exact h.key key known
    · rw [after, barrier_keepPending_tag]
      exact none
  | opened acks payload key s₁ _ path asked written agreed after =>
    rw [after]
    rcases expired.handshakeKey agreed with ⟨up, known, rfl⟩ | ⟨down, rfl, rfl⟩
    · -- the batch is one more of the handshake under way
      obtain ⟨hkey, usable, pending⟩ := expired.closed up
      refine Guarded.mono ?_ grown
      refine ⟨expired.sound, expired.key, fun p hp => ?_, fun _ =>
        ⟨hkey, usable, fun p hp same => ?_⟩⟩
      · rcases mem_pending_keepPending hp with hp | ⟨_, -, rfl⟩
        · exact expired.pending p hp
        · exact expired.key key known
      · rcases mem_pending_keepPending hp with hp | ⟨_, -, rfl⟩
        · exact pending p hp same
        · rfl
    · refine ⟨Pool.sound_clear _, fun k hk => ?_, fun p hp => ?_, fun _ =>
        ⟨rfl, rfl, fun p hp same => ?_⟩⟩
      · cases hk
        exact List.mem_append_right keys (List.mem_singleton_self _)
      · rcases mem_pending_keepPending hp with hp | ⟨_, -, rfl⟩
        · exact grown (expired.pending p hp)
        · exact List.mem_append_right keys (List.mem_singleton_self _)
      · -- what was pending before waits under another key
        rcases mem_pending_keepPending hp with hp | ⟨_, -, rfl⟩
        · have old := expired.pending p hp
          rw [← Option.some.inj same] at old
          exact absurd old fresh
        · rfl

theorem acknowledge (h : Guarded keys s) (ackId : UInt32) : Guarded keys (s.acknowledge ackId).2 := by
  have erased : ∀ p ∈ (s.pending.erase ackId).toList, p ∈ s.pending.toList := fun p hp =>
    (Table.mem_erase.mp hp).1
  rcases acknowledge_cases s ackId with ⟨-, ht⟩ | ⟨batch, found, ⟨other, ht⟩ | ⟨same, ht⟩⟩ <;> rw [ht]
  · exact h
  · exact ⟨h.sound, h.key, fun p hp => h.pending p (erased p hp), fun hb =>
      ⟨(h.closed hb).key, (h.closed hb).usable, fun p hp => (h.closed hb).pending p (erased p hp)⟩⟩
  · refine of_open (h.sound.foldl_insert _ _ _) h.key (fun p hp => h.pending p (erased p hp)) ?_
    cases hb : s.barrier with
    | none => rfl
    | some b =>
      have first := (h.closed (by rw [hb]; rfl)).pending _ (Table.mem_of_find? found) same
      simp only at first
      simp [first]

theorem reset (keys : List SessionKey) (s : Sender) : Guarded keys s.reset :=
  of_open (Pool.sound_clear _) (fun _ hk => by cases hk) (fun _ hp => by cases hp) rfl

theorem after (h : Guarded keys s) (e : Event) (fresh : ∀ d, e.draw? = some d → d.sessionKey ∉ keys) :
    Guarded (keys ++ (Event.draws [e]).map Draw.sessionKey) (s.after e) := by
  cases e with
  | encrypt moment d reply explicit trackingId cloves => exact h.encrypt (fresh d rfl) (Prod.mk.eta).symm
  | acknowledge ackId => exact (h.acknowledge ackId).mono (List.subset_append_left _ _)
  | resetIfStuck now timeout =>
    refine Guarded.mono ?_ (List.subset_append_left _ _)
    rw [Sender.after]
    rcases resetIfStuck_cases s now timeout with ⟨-, ht⟩ | ⟨-, ht⟩ <;> rw [ht]
    · exact reset keys s
    · exact h
  | reset => exact (reset keys s).mono (List.subset_append_left _ _)

/-- While a barrier is up, an encryption leaves it there, and its message is a handshake with the key
of the session. -/
theorem encrypt_of_barrier (h : Guarded keys s) (up : s.barrier.isSome) {t : Sender} {moment : Moment}
    {d : Draw} {reply : Option ReplyTunnel} {explicit : Bool} {trackingId : UInt32}
    {cloves : List Clove} {result : Except SendFault Sealed}
    (he : s.encrypt moment d reply explicit trackingId cloves = (result, t)) :
    t.barrier = s.barrier ∧ t.key = s.key ∧ ∀ m, result = .ok m →
      m.path = .handshake ∧ m.handshakeAckId = s.barrier.map Barrier.ackId ∧
        ∃ key block, s.key = some key ∧ Handshaken s.remoteKey key block d m.wire := by
  have expired := h.expire moment.instant
  cases encrypt_cases h.sound he with
  | refused e =>
    refine ⟨rfl, rfl, fun m hm => ?_⟩
    cases hm
  | unspent _ _ path | spent _ _ _ _ _ _ path =>
    rw [h.barrier_of_tag path] at up
    cases up
  | opened acks payload key s₁ _ path asked written agreed after =>
    rcases expired.handshakeKey agreed with ⟨-, known, rfl⟩ | ⟨down, -⟩
    · have same : t.barrier = s.barrier := by
        obtain ⟨b, hb⟩ := Option.isSome_iff_exists.mp up
        rw [after, barrier_keepPending_handshake, barrier_expire, hb, Option.getD_some]
      refine ⟨same, by rw [after, key_keepPending, key_expire], fun m hm => ?_⟩
      obtain ⟨wire, hwire, rfl⟩ := described_eq_ok.mp hm
      refine ⟨rfl, ?_, key, _, known, handshaken_of_wire hwire⟩
      rw [describe, same]
    · rw [barrier_expire] at down
      rw [down] at up
      cases up

/-- Exactly after a handshake a barrier is up: a message names its acknowledgment, and a handshake
carries the key that the session keeps. -/
theorem encrypt_ok (h : Guarded keys s) {t : Sender} {moment : Moment} {d : Draw}
    {reply : Option ReplyTunnel} {explicit : Bool} {trackingId : UInt32} {cloves : List Clove}
    {m : Sealed} (he : s.encrypt moment d reply explicit trackingId cloves = (.ok m, t)) :
    (m.handshakeAckId.isSome ↔ m.path = .handshake) ∧
      m.handshakeAckId = t.barrier.map Barrier.ackId ∧
      (m.path = .handshake →
        ∃ key block, t.key = some key ∧ Handshaken s.remoteKey key block d m.wire) := by
  cases sending_of_encrypt h.sound he with
  | spent _ _ _ _ _ _ _ path _ _ _ _ _ after =>
    have none : t.barrier = none := by
      rw [after, barrier_keepPending_tag]
      exact h.barrier_of_tag path
    refine ⟨by simp [describe, none], rfl, fun handshake => ?_⟩
    cases handshake
  | opened _ _ key _ _ _ _ _ _ agreed sealed after =>
    refine ⟨by simp [describe, after, barrier_keepPending_handshake], rfl, fun _ =>
      ⟨key, _, ?_, handshaken_of_wire sealed⟩⟩
    rw [after, key_keepPending]
    exact key_of_handshakeKey agreed

end Guarded

inductive Clears (s : Sender) : Event → Prop
  | reset : Clears s .reset
  | stuck (now timeout : Nat) (late : (s.resetIfStuck now timeout).1) :
      Clears s (.resetIfStuck now timeout)
  /-- The acknowledged tags went out in a handshake with the key of the session. -/
  | confirmed (ackId : UInt32) (batch : Batch) (found : s.pending.find? ackId = some batch)
      (first : batch.handshake) (same : s.key = some batch.key) : Clears s (.acknowledge ackId)

/-- A step leaves a barrier and the key behind it alone, or is one that may take it down. -/
theorem Guarded.kept_or_cleared {keys : List SessionKey} {s : Sender} (h : Guarded keys s)
    (up : s.barrier.isSome) (e : Event) :
    (s.after e).barrier = s.barrier ∧ (s.after e).key = s.key ∨
      (s.after e).barrier = none ∧ Clears s e := by
  cases e with
  | encrypt moment d reply explicit trackingId cloves =>
    obtain ⟨barrier, key, -⟩ := h.encrypt_of_barrier up (Prod.mk.eta).symm
    exact .inl ⟨barrier, key⟩
  | acknowledge ackId =>
    rw [Sender.after]
    rcases acknowledge_cases s ackId with ⟨-, ht⟩ | ⟨batch, found, ⟨-, ht⟩ | ⟨same, ht⟩⟩ <;> rw [ht]
    · exact .inl ⟨rfl, rfl⟩
    · exact .inl ⟨rfl, rfl⟩
    · have first := (h.closed up).pending _ (Table.mem_of_find? found) same
      refine .inr ⟨?_, .confirmed ackId batch found first same⟩
      obtain ⟨b, hb⟩ := Option.isSome_iff_exists.mp up
      simp only at first
      simp [hb, first]
  | resetIfStuck now timeout =>
    rw [Sender.after]
    rcases resetIfStuck_cases s now timeout with ⟨late, ht⟩ | ⟨-, ht⟩ <;> rw [ht]
    · exact .inr ⟨rfl, .stuck now timeout late⟩
    · exact .inl ⟨rfl, rfl⟩
  | reset => exact .inr ⟨rfl, .reset⟩

section Run

variable {remote : Identity} {remoteKey : ElGamal.PublicKey} {settings : Settings}

/-- No session key is drawn twice. -/
def DistinctKeys (es : List Event) : Prop := ((Event.draws es).map Draw.sessionKey).Nodup

instance : DecidablePred DistinctKeys := fun _ => inferInstanceAs (Decidable (List.Nodup _))

theorem DistinctKeys.of_append {es fs : List Event} (h : DistinctKeys (es ++ fs)) : DistinctKeys es := by
  rw [DistinctKeys, Event.draws_append, List.map_append] at h
  exact (List.nodup_append.mp h).1

theorem DistinctKeys.fresh {es : List Event} {e : Event} (h : DistinctKeys (es ++ [e])) {d : Draw}
    (hd : e.draw? = some d) : d.sessionKey ∉ (Event.draws es).map Draw.sessionKey := by
  rw [DistinctKeys, Event.draws_append, List.map_append] at h
  intro old
  refine (List.nodup_append.mp h).2.2 _ old d.sessionKey ?_ rfl
  simp [Event.draws, hd]

theorem guarded_run {es : List Event} (distinct : DistinctKeys es) :
    Guarded ((Event.draws es).map Draw.sessionKey) ((new remote remoteKey settings).run es) := by
  induction es using List.reverseRecOn with
  | nil => exact .new remote remoteKey settings
  | append_singleton es e ih =>
    rw [run_concat, Event.draws_append, List.map_append]
    exact (ih distinct.of_append).after e fun d hd => distinct.fresh hd

/-- As long as a barrier stays up it is the same one, with the same key behind it. -/
theorem barrier_run {es since : List Event} (distinct : DistinctKeys (es ++ since))
    (up : ∀ p, p <+: since → ((new remote remoteKey settings).run (es ++ p)).barrier.isSome) :
    let s := (new remote remoteKey settings).run es
    let t := (new remote remoteKey settings).run (es ++ since)
    t.barrier = s.barrier ∧ t.key = s.key := by
  induction since using List.reverseRecOn with
  | nil => simp
  | append_singleton since e ih =>
    rw [← List.append_assoc] at distinct
    obtain ⟨barrier, key⟩ := ih distinct.of_append fun p hp =>
      up p (hp.trans (List.prefix_append since [e]))
    have before := up since (List.prefix_append since [e])
    have now := up (since ++ [e]) (List.prefix_refl _)
    rw [← List.append_assoc, run_concat] at now ⊢
    rcases (guarded_run distinct.of_append).kept_or_cleared before e with ⟨hb, hk⟩ | ⟨down, -⟩
    · exact ⟨hb.trans barrier, hk.trans key⟩
    · rw [down] at now
      cases now

end Run

/-- A single barrier guards each handshake, in every reachable session. While it is up the session is
closed; it is taken down only by a reset or by an acknowledgment of the handshake's own tags; from
then on until that time every message is a handshake that tells the peer the same key and names the
same acknowledgment. -/
theorem single_barrier (remote : Identity) (remoteKey : ElGamal.PublicKey) (settings : Settings)
    (es : List Event) (distinct : DistinctKeys es) :
    let reached := fun es => (new remote remoteKey settings).run es
    let s := reached es
    (s.barrier.isSome → Closed s) ∧
    (∀ e, s.barrier.isSome → (s.after e).barrier ≠ s.barrier →
      (s.after e).barrier = none ∧ Clears s e) ∧
    (∀ moment d reply explicit trackingId cloves m t,
      s.encrypt moment d reply explicit trackingId cloves = (.ok m, t) →
        (m.handshakeAckId.isSome ↔ m.path = .handshake) ∧
        m.handshakeAckId = t.barrier.map Barrier.ackId ∧
        (m.path = .handshake →
          ∃ key block, t.key = some key ∧ Handshaken remoteKey key block d m.wire)) ∧
    ∀ before since, es = before ++ since → (∀ p, p <+: since → (reached (before ++ p)).barrier.isSome) →
      s.barrier = (reached before).barrier ∧ s.key = (reached before).key ∧
      ∀ moment d reply explicit trackingId cloves m t,
        s.encrypt moment d reply explicit trackingId cloves = (.ok m, t) →
          m.path = .handshake ∧ t.barrier = (reached before).barrier ∧
          m.handshakeAckId = (reached before).barrier.map Barrier.ackId ∧
          t.key = (reached before).key ∧
          ∃ key block, (reached before).key = some key ∧
            Handshaken remoteKey key block d m.wire := by
  intro reached s
  have guarded : Guarded _ s := guarded_run distinct
  have frame : s.remoteKey = remoteKey :=
    (frame_run (sound_new remote remoteKey settings) es).1.remoteKey
  refine ⟨guarded.closed, fun e up changed => ?_, fun moment d reply explicit trackingId cloves m t
    he => ?_, ?_⟩
  · rcases guarded.kept_or_cleared up e with ⟨same, -⟩ | cleared
    · exact absurd same changed
    · exact cleared
  · have message := guarded.encrypt_ok he
    rwa [frame] at message
  · rintro before since rfl up
    obtain ⟨barrier, key⟩ := barrier_run distinct up
    refine ⟨barrier, key, fun moment d reply explicit trackingId cloves m t he => ?_⟩
    obtain ⟨hb, hk, message⟩ :=
      guarded.encrypt_of_barrier (up since (List.prefix_refl _)) he
    obtain ⟨path, ackId, k, block, known, wire⟩ := message m rfl
    rw [frame] at wire
    exact ⟨path, hb.trans barrier, ackId.trans (congrArg _ barrier), hk.trans key, k, block,
      key.symm.trans known, wire⟩

/-- Two messages before any acknowledgment arrives but a stray one. -/
def twoHandshakes : List Event :=
  let reply : ReplyTunnel := ⟨⟨.ofNat 32 9⟩, ⟨4⟩⟩
  [.encrypt ⟨0, 0⟩ (.numbered 0) (some reply) false 7 [], .acknowledge 5,
    .encrypt ⟨1, 0⟩ (.numbered 1) (some reply) true 8 []]

theorem single_barrier_twoHandshakes :
    let start := new ⟨.ofNat 32 9⟩ (ElGamal.KeyPair.ofExponent 5).publicKey {}
    let s := start.run twoHandshakes
    DistinctKeys twoHandshakes ∧ s.barrier = some ⟨1, 0⟩ ∧ s.pending.size = 2 ∧ Closed s ∧
      (s.after (.acknowledge 1)).barrier = none ∧ Clears s (.acknowledge 1) ∧
      ∃ m t, s.encrypt ⟨2, 0⟩ (.numbered 2) (some ⟨⟨.ofNat 32 9⟩, ⟨4⟩⟩) false 9 [] = (.ok m, t) ∧
        m.path = .handshake ∧ m.handshakeAckId = some 1 ∧ t.barrier = some ⟨1, 0⟩ ∧
        ∃ key block, (start.run (twoHandshakes.take 1)).key = some key ∧ t.key = some key ∧
          ((Receiver.new (ElGamal.KeyPair.ofExponent 5).privateKey {}).decryptHandshake m.wire).1 =
            some (block, key) := by
  intro start s
  have up : s.barrier = some ⟨1, 0⟩ := by decide +kernel
  have first : (start.run (twoHandshakes.take 1)).barrier = some ⟨1, 0⟩ := by decide +kernel
  have distinct : DistinctKeys twoHandshakes := by decide +kernel
  obtain ⟨closed, cleared, -, since⟩ := single_barrier ⟨.ofNat 32 9⟩
    (ElGamal.KeyPair.ofExponent 5).publicKey {} twoHandshakes distinct
  have down : (s.after (.acknowledge 1)).barrier = none := by decide +kernel
  have changed : (s.after (.acknowledge 1)).barrier ≠ s.barrier := by
    rw [down, up]
    exact nofun
  have sends : (s.encrypt ⟨2, 0⟩ (.numbered 2) (some ⟨⟨.ofNat 32 9⟩, ⟨4⟩⟩) false 9 []).1.isOk := by
    decide +kernel
  have stays : ∀ p ∈ (twoHandshakes.drop 1).inits,
      (start.run (twoHandshakes.take 1 ++ p)).barrier.isSome := by decide +kernel
  obtain ⟨-, -, message⟩ := since (twoHandshakes.take 1) (twoHandshakes.drop 1) rfl
    fun p hp => stays p ((List.mem_inits p _).mpr hp)
  obtain ⟨m, t, made⟩ := exists_of_isOk sends
  obtain ⟨path, barrier, ackId, key, k, block, known, opened⟩ := message _ _ _ _ _ _ m t made
  refine ⟨distinct, up, by decide +kernel, closed (by rw [up]; rfl), down,
    (cleared (.acknowledge 1) (by rw [up]; rfl) changed).2, m, t, made, path, ?_,
    barrier.trans first, k, block, known, key.trans known, ?_⟩
  · rw [ackId, first]
    rfl
  · exact opened.opens 5 (by decide +kernel) rfl _ rfl

end GarlicRouting.Sender
