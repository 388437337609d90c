import GarlicRouting.Proofs.Session.Link
import Mathlib

/-! A link whose channel delivers every message at once and only once: whether the receiver still
knows the tag that the sender spends is a matter of the tag's age alone. -/
namespace GarlicRouting

namespace Receiver

variable {r : Receiver} {clock now created : Nat} {t : SessionTag} {raw : Bytes}

/-- A tag from this time is still known, unless it is too old by now. -/
structure Holds (r : Receiver) (clock : Nat) (t : SessionTag) (created : Nat) : Prop where
  known : ∀ e, r.tags.stored? t = some e → e.created = created
  gone : r.tags.stored? t = none → r.tags.lifetime < clock - created

theorem Holds.contains_iff (h : Holds r clock t created) (later : clock ≤ now) :
    r.tags.contains t now ↔ now - created ≤ r.tags.lifetime := by
  rw [Pool.contains_iff]
  cases he : r.tags.stored? t with
  | none =>
    have old := h.gone he
    constructor
    · intro hh
      obtain ⟨_, he, _⟩ := hh
      cases he
    · intro young
      omega
  | some e =>
    have same := h.known e he
    simp only [Option.some.injEq, exists_eq_left', Pool.isLive, same, decide_eq_true_eq]

theorem Holds.mono (h : Holds r clock t created) (later : clock ≤ now) : Holds r now t created where
  known := h.known
  gone none := (h.gone none).trans_le (Nat.sub_le_sub_right later created)

/-- Other messages leave the tag alone. -/
theorem Holds.decrypt (h : Holds r clock t created) (sound : r.tags.Sound) (later : clock ≤ now)
    (front : ¬ t.Begins raw) (absent : t ∉ r.carried now raw) :
    Holds (r.decrypt now raw).2 now t created := by
  have entry := stored?_of_not_carried sound absent
  rw [if_neg front] at entry
  constructor
  · intro e he
    rw [entry, Option.filter_eq_some_iff] at he
    exact h.known e he.1
  · intro none
    rw [lifetime_decrypt]
    rw [entry, Option.filter_eq_none_iff] at none
    cases he : r.tags.stored? t with
    | none =>
      have old := h.gone he
      omega
    | some e =>
      have stale := none e he
      rw [Pool.isLive, h.known e he, decide_eq_true_eq, not_le] at stale
      exact stale

theorem holds_of_carried (sound : r.tags.Sound) (brought : t ∈ r.carried now raw) :
    Holds (r.decrypt now raw).2 now t now := by
  obtain ⟨b, -, -, entry⟩ := stored?_of_carried sound brought
  constructor
  · intro e he
    rw [entry] at he
    cases he
    rfl
  · intro none
    rw [entry] at none
    cases none

end Receiver

namespace Link

/-- A step of a link that delivers at once. -/
inductive Turn where
  | exchange (moment : Moment) (draw : Draw) (reply : Option ReplyTunnel) (explicit : Bool)
    (trackingId : UInt32) (cloves : List Clove)
  | acknowledge (ackId : UInt32)
  | resetIfStuck (now timeout : Nat)
  | reset

namespace Turn

/-- The steps of both halves, after `count` messages. -/
def events (count : Nat) : Turn → List Event
  | exchange moment d reply explicit trackingId cloves =>
    [.send moment d reply explicit trackingId cloves, .deliver count moment.instant]
  | acknowledge ackId => [.acknowledge ackId]
  | resetIfStuck now timeout => [.resetIfStuck now timeout]
  | reset => [.reset]

def draw? : Turn → Option Draw
  | exchange _ d .. => some d
  | _ => none

def time? : Turn → Option Nat
  | exchange moment .. => some moment.instant
  | _ => none

def draws (us : List Turn) : List Draw := us.filterMap draw?

def times (us : List Turn) : List Nat := us.filterMap time?

@[simp] theorem draws_append (us vs : List Turn) : draws (us ++ vs) = draws us ++ draws vs :=
  List.filterMap_append

@[simp] theorem times_append (us vs : List Turn) : times (us ++ vs) = times us ++ times vs :=
  List.filterMap_append

end Turn

variable {ℓ : Link}

def turn (ℓ : Link) (u : Turn) : Link := ℓ.run (u.events ℓ.sent.length)

def play (ℓ : Link) (us : List Turn) : Link := us.foldl turn ℓ

theorem turn_exchange (moment : Moment) (d : Draw) (reply : Option ReplyTunnel) (explicit : Bool)
    (trackingId : UInt32) (cloves : List Clove) :
    ℓ.turn (.exchange moment d reply explicit trackingId cloves) =
      (ℓ.send moment d reply explicit trackingId cloves).after
        (.deliver ℓ.sent.length moment.instant) := by
  rw [turn, Turn.events, run, List.foldl_cons, List.foldl_cons, List.foldl_nil]
  rw [after]

theorem play_concat (us : List Turn) (u : Turn) : ℓ.play (us ++ [u]) = (ℓ.play us).turn u :=
  List.foldl_append

/-- The sender will not use the tag, now or after an acknowledgment. -/
structure Idle (ℓ : Link) (t : SessionTag) : Prop where
  usable : ℓ.sender.usable.stored? t = none
  pending : ∀ p ∈ ℓ.sender.pending.toList, p.1 ∈ ℓ.accepted → t ∉ p.2.tags

/-- The receiver holds every tag that the sender may use, from the time when it was minted. -/
structure Retains (x : Nat) (s : Settings) (ds : List Draw) (clock : Nat) (ℓ : Link) : Prop where
  agrees : Agrees x s.refillBatch ds ℓ
  usableSpan : ℓ.sender.usable.lifetime = s.usableTagSpan.nanoseconds
  knownSpan : ℓ.receiver.tags.lifetime = s.receivedTagSpan.nanoseconds
  drawn : ∀ p ∈ ℓ.sender.pending.toList,
    ∃ d ∈ ds, p.1 = d.refreshAck ∧ p.2.tags = d.batch s.refillBatch
  /-- No usable tag is in a batch that waits. -/
  apart : ∀ t e, ℓ.sender.usable.stored? t = some e →
    ∃ d ∈ ds, t ∈ d.batch s.refillBatch ∧ ∀ p ∈ ℓ.sender.pending.toList, p.1 ≠ d.refreshAck
  since : ∀ t e, ℓ.sender.usable.stored? t = some e →
    ∃ L ∈ ℓ.sent, t ∈ L.tags ∧ e.created = L.moment.instant
  sincePending : ∀ p ∈ ℓ.sender.pending.toList, ∀ L ∈ ℓ.sent, L.message.refreshAckId = some p.1 →
    p.2.created = L.moment.instant
  usable : ∀ t e, ℓ.sender.usable.stored? t = some e → ℓ.receiver.Holds clock t e.created
  accepted : ∀ p ∈ ℓ.sender.pending.toList, p.1 ∈ ℓ.accepted → ∀ t ∈ p.2.tags,
    ℓ.receiver.Holds clock t p.2.created

namespace Retains

variable {x clock : Nat} {s : Settings} {ds : List Draw}

theorem acknowledge (h : Retains x s ds clock ℓ) {ackId : UInt32} (hid : ackId ∈ ℓ.accepted) :
    Retains x s ds clock (ℓ.acknowledge ackId) where
  agrees := h.agrees.acknowledge hid
  usableSpan := (Sender.lifetime_acknowledge _ _).trans h.usableSpan
  knownSpan := h.knownSpan
  drawn p hp := h.drawn p (Sender.pending_acknowledge hp).1
  apart t e he := by
    rcases Sender.usable_acknowledge h.agrees.soundUsable he with he | ⟨batch, hp, -, ht, -⟩
    · obtain ⟨d, hd, ht, other⟩ := h.apart t e he
      exact ⟨d, hd, ht, fun p hp => other p (Sender.pending_acknowledge hp).1⟩
    · obtain ⟨d, hd, hid, tags⟩ := h.drawn _ hp
      refine ⟨d, hd, tags ▸ ht, fun p hp => ?_⟩
      rw [← hid]
      exact (Sender.pending_acknowledge hp).2
  since t e he := by
    rcases Sender.usable_acknowledge h.agrees.soundUsable he with he | ⟨batch, hp, -, ht, created⟩
    · exact h.since t e he
    · obtain ⟨L, hL, refresh, -⟩ := h.agrees.accepted ackId hid
      obtain ⟨tags, -⟩ := h.agrees.pending _ hp L hL refresh
      rw [tags] at ht
      exact ⟨L, hL, ht, created.trans (h.sincePending _ hp L hL refresh)⟩
  sincePending p hp := h.sincePending p (Sender.pending_acknowledge hp).1
  usable t e he := by
    rcases Sender.usable_acknowledge h.agrees.soundUsable he with he | ⟨batch, hp, -, ht, created⟩
    · exact h.usable t e he
    · rw [created]
      exact h.accepted _ hp hid t ht
  accepted p hp := h.accepted p (Sender.pending_acknowledge hp).1

theorem reset (h : Retains x s ds clock ℓ) :
    Retains x s ds clock { ℓ with sender := ℓ.sender.reset } := by
  have none (t : SessionTag) : ℓ.sender.reset.usable.stored? t = none := Pool.stored?_clear _ _
  have unusable {P : Prop} {t : SessionTag} {e : PoolEntry SessionTag Unit}
      (he : ℓ.sender.reset.usable.stored? t = some e) : P := by
    rw [none] at he
    cases he
  exact ⟨h.agrees.reset, h.usableSpan, h.knownSpan, fun _ hp => (by cases hp),
    fun _ _ he => unusable he, fun _ _ he => unusable he, fun _ hp => (by cases hp), fun _ _ he => unusable he,
    fun _ hp => (by cases hp)⟩

section Send

variable {moment : Moment} {d : Draw} {reply : Option ReplyTunnel} {explicit : Bool}
  {trackingId : UInt32} {cloves : List Clove} {t : Sender}

theorem notMem_accepted (h : Retains x s ds clock ℓ) (fresh : Link.Fresh s.refillBatch (ds ++ [d])) :
    d.refreshAck ∉ ℓ.accepted := by
  intro hid
  obtain ⟨L, hL, refresh, -⟩ := h.agrees.accepted _ hid
  exact fresh.refreshAck_notMem (h.agrees.kept.ids L hL _ refresh)

theorem encrypt (h : Retains x s ds clock ℓ) (fresh : Link.Fresh s.refillBatch (ds ++ [d]))
    {result : Except SendFault Sealed}
    (he : ℓ.sender.encrypt moment d reply explicit trackingId cloves = (result, t)) :
    Retains x s (ds ++ [d]) clock { ℓ with sender := t } where
  agrees := h.agrees.encrypt fresh he
  usableSpan := (Sender.lifetime_encrypt h.agrees.soundUsable he).trans h.usableSpan
  knownSpan := h.knownSpan
  drawn p hp := by
    rcases Sender.pending_encrypt h.agrees.soundUsable he hp with hp | ⟨hid, tags, -⟩
    · obtain ⟨e, hmem, same⟩ := h.drawn p hp
      exact ⟨e, List.mem_append_left _ hmem, same⟩
    · exact ⟨d, by simp, hid, h.agrees.batch ▸ tags⟩
  apart u e hu := by
    obtain ⟨old, -⟩ := Sender.usable_encrypt h.agrees.soundUsable he hu
    obtain ⟨f, hmem, minted, other⟩ := h.apart u e old
    refine ⟨f, List.mem_append_left _ hmem, minted, fun p hp => ?_⟩
    rcases Sender.pending_encrypt h.agrees.soundUsable he hp with hp | ⟨hid, -⟩
    · exact other p hp
    · intro same
      rw [hid] at same
      exact fresh.refreshAck_notMem (same ▸ List.mem_map_of_mem hmem)
  since u e hu := h.since u e (Sender.usable_encrypt h.agrees.soundUsable he hu).1
  sincePending p hp L hL refresh := by
    rcases Sender.pending_encrypt h.agrees.soundUsable he hp with hp | ⟨hid, -⟩
    · exact h.sincePending p hp L hL refresh
    · rw [hid] at refresh
      exact absurd (h.agrees.kept.ids L hL _ refresh) fresh.refreshAck_notMem
  usable u e hu := h.usable u e (Sender.usable_encrypt h.agrees.soundUsable he hu).1
  accepted p hp hacc := by
    rcases Sender.pending_encrypt h.agrees.soundUsable he hp with hp | ⟨hid, -⟩
    · exact h.accepted p hp hacc
    · rw [hid] at hacc
      exact absurd hacc (h.notMem_accepted fresh)

theorem send (h : Retains x s ds clock ℓ) (fresh : Link.Fresh s.refillBatch (ds ++ [d])) {m : Sealed}
    (he : ℓ.sender.encrypt moment d reply explicit trackingId cloves = (.ok m, t)) :
    Retains x s (ds ++ [d]) clock
      { ℓ with sender := t, sent := ℓ.sent ++ [.ofMessage t m moment d reply cloves] } := by
  have before := h.encrypt fresh he
  have agrees : Agrees x s.refillBatch (ds ++ [d])
      (ℓ.send moment d reply explicit trackingId cloves) := h.agrees.send fresh
  rw [Link.send, he] at agrees
  refine { before with
    agrees := agrees
    since := fun u e hu => ?_
    sincePending := fun p hp L hL refresh => ?_ }
  · obtain ⟨L, hL, minted⟩ := before.since u e hu
    exact ⟨L, List.mem_append_left _ hL, minted⟩
  · rcases List.mem_append.mp hL with hL | hL
    · exact before.sincePending p hp L hL refresh
    · obtain rfl := List.mem_singleton.mp hL
      rcases Sender.pending_encrypt h.agrees.soundUsable he hp with hp | ⟨-, -, created, -⟩
      · have old := h.agrees.pendingIds p hp
        rw [Letter.refreshAck_of_encrypt h.agrees.soundUsable fresh.other he refresh] at old
        exact absurd old fresh.refreshAck_notMem
      · exact created

/-- What waits and has been accepted has waited before. -/
theorem waiting_of_encrypt (h : Retains x s ds clock ℓ) (fresh : Link.Fresh s.refillBatch (ds ++ [d]))
    {result : Except SendFault Sealed}
    (he : ℓ.sender.encrypt moment d reply explicit trackingId cloves = (result, t))
    {p : UInt32 × Batch} (hp : p ∈ t.pending.toList) (hid : p.1 ∈ ℓ.accepted) :
    p ∈ ℓ.sender.pending.toList := by
  rcases Sender.pending_encrypt h.agrees.soundUsable he hp with hp | ⟨new, -⟩
  · exact hp
  · rw [new] at hid
    exact absurd hid (h.notMem_accepted fresh)

/-- The sender has no more use for the tag at the front of a message. -/
theorem idle_of_begins (h : Retains x s ds clock ℓ) (hx : x < ElGamal.prime - 1)
    (fresh : Link.Fresh s.refillBatch (ds ++ [d])) {m : Sealed}
    (he : ℓ.sender.encrypt moment d reply explicit trackingId cloves = (.ok m, t))
    (clear : Distinguishable (ElGamal.KeyPair.ofExponent x).privateKey
      (ℓ.sent ++ [.ofMessage t m moment d reply cloves])) {u : SessionTag} (begins : u.Begins m.wire) :
    Link.Idle { ℓ with sender := t, sent := ℓ.sent ++ [.ofMessage t m moment d reply cloves] } u := by
  have sound := h.agrees.soundUsable
  obtain ⟨-, tag?, key, w, front⟩ := Letter.written_of_encrypt sound fresh.other he
  have wire := w.wire
  cases tag? with
  | none =>
    -- no tag that came with a letter is at the front of a handshake
    rw [Option.elim_none, h.agrees.publicKey] at wire
    have unminted (M : Letter) (hM : M ∈ ℓ.sent) : u ∉ M.tags := by
      intro hu
      have none := clear.opened?_eq_none (List.mem_append_right _ (List.mem_singleton_self _))
        (List.mem_append_left _ hM) hu begins
      rw [opened?_handshakeWire hx wire] at none
      cases none
    constructor
    · rw [Option.eq_none_iff_forall_ne_some]
      intro e hu
      obtain ⟨M, hM, minted, -⟩ := h.agrees.usable u e (Sender.usable_encrypt sound he hu).1
      exact unminted M hM minted
    · intro p hp hid hu
      obtain ⟨M, hM, refresh, -⟩ := h.agrees.accepted p.1 hid
      obtain ⟨tags, -⟩ := h.agrees.pending p (h.waiting_of_encrypt fresh he hp hid) M hM refresh
      exact unminted M hM (tags ▸ hu)
  | some tag =>
    rw [Option.elim_some] at wire
    obtain rfl := begins.eq (begins_tagWire wire).1
    obtain ⟨-, e, hu, -, gone⟩ := front u rfl
    refine ⟨gone, fun p hp hid hu' => ?_⟩
    have waiting := h.waiting_of_encrypt fresh he hp hid
    obtain ⟨f, hf, minted, other⟩ := h.apart u e hu
    obtain ⟨g, hg, same, tags⟩ := h.drawn p waiting
    rw [tags] at hu'
    obtain rfl := eq_of_mem_flatMap fresh.of_append.tags hf hg minted hu'
    exact other p waiting same

/-- It has no use yet for the tags that a message brings. -/
theorem idle_of_minted (h : Retains x s ds clock ℓ) (fresh : Link.Fresh s.refillBatch (ds ++ [d]))
    {m : Sealed} (he : ℓ.sender.encrypt moment d reply explicit trackingId cloves = (.ok m, t))
    {u : SessionTag} (brought : u ∈ (Letter.ofMessage t m moment d reply cloves).tags) :
    Link.Idle { ℓ with sender := t, sent := ℓ.sent ++ [.ofMessage t m moment d reply cloves] } u := by
  have new : u ∈ d.batch s.refillBatch := by
    rw [Letter.ofMessage, (h.encrypt fresh he).agrees.batch] at brought
    split_ifs at brought
    · exact brought
    · cases brought
  constructor
  · rw [Option.eq_none_iff_forall_ne_some]
    intro e hu
    obtain ⟨f, hf, minted, -⟩ := h.apart u e (Sender.usable_encrypt h.agrees.soundUsable he hu).1
    exact fresh.tag_notMem hf minted new
  · intro p hp hid hu
    obtain ⟨f, hf, -, tags⟩ := h.drawn p (h.waiting_of_encrypt fresh he hp hid)
    exact fresh.tag_notMem hf (tags ▸ hu) new

end Send

/-- A message arrives when it has just been made: neither the tag at its front nor those it brings are
for the sender to use. -/
theorem deliver (h : Retains x s ds clock ℓ) (hx : x < ElGamal.prime - 1)
    (fresh : Link.Fresh s.refillBatch ds)
    (clear : Distinguishable (ElGamal.KeyPair.ofExponent x).privateKey ℓ.sent) {L : Letter}
    (hL : L ∈ ℓ.sent) (later : clock ≤ L.moment.instant)
    (idle : ∀ t : SessionTag, t.Begins L.message.wire ∨ t ∈ L.tags → ℓ.Idle t) :
    Retains x s ds L.moment.instant (ℓ.deliver L.moment.instant L) := by
  obtain ⟨all, nothing⟩ := h.agrees.carried hx fresh clear hL L.moment.instant
  have brought : ℓ.receiver.carried L.moment.instant L.message.wire ⊆ L.tags := by
    by_cases hr : ℓ.Readable L.moment.instant L
    · rw [all hr]
      exact List.Subset.refl _
    · rw [nothing hr]
      exact List.nil_subset _
  have left {t : SessionTag} {created : Nat} (busy : ¬ ℓ.Idle t)
      (holds : ℓ.receiver.Holds clock t created) :
      (ℓ.deliver L.moment.instant L).receiver.Holds L.moment.instant t created :=
    holds.decrypt h.agrees.soundTags later (fun begins => busy (idle t (.inl begins)))
      fun carried => busy (idle t (.inr (brought carried)))
  refine ⟨h.agrees.deliver hx fresh clear hL _, h.usableSpan,
    (Receiver.lifetime_decrypt _ _).trans h.knownSpan, h.drawn, h.apart, h.since, h.sincePending,
    fun t e he => left (fun idle => ?_) (h.usable t e he), fun p hp hid t ht => ?_⟩
  · have none := idle.usable
    rw [show ℓ.sender.usable.stored? t = some e from he] at none
    cases none
  · rcases List.mem_append.mp hid with hid | hid
    · -- the batch went out with this very message
      split_ifs at hid with got
      · rw [Option.mem_toList] at hid
        have hr := h.agrees.readable hx fresh clear hL got
        obtain ⟨tags, -⟩ := h.agrees.pending p hp L hL hid
        rw [h.sincePending p hp L hL hid]
        refine Receiver.holds_of_carried h.agrees.soundTags ?_
        rwa [all hr, ← tags]
      · cases hid
    · exact left (fun idle => idle.pending p hp hid ht) (h.accepted p hp hid t ht)

theorem mono (h : Retains x s ds clock ℓ) {now : Nat} (later : clock ≤ now) :
    Retains x s ds now ℓ :=
  { h with
    usable := fun t e he => (h.usable t e he).mono later
    accepted := fun p hp hid t ht => (h.accepted p hp hid t ht).mono later }

theorem new (x : Nat) (remote : Identity) (s : Settings) :
    Retains x s [] 0 (.new remote (.ofExponent x) s s) where
  agrees := .new x remote s s
  usableSpan := rfl
  knownSpan := rfl
  drawn _ hp := by cases hp
  apart _ _ he := by cases he
  since _ _ he := by cases he
  sincePending _ hp := by cases hp
  usable _ _ he := by cases he
  accepted _ hp := by cases hp

theorem turn (h : Retains x s ds clock ℓ) (hx : x < ElGamal.prime - 1) {u : Turn}
    (fresh : Link.Fresh s.refillBatch (ds ++ Turn.draws [u]))
    (later : ∀ now, u.time? = some now → clock ≤ now)
    (clear : Distinguishable (ElGamal.KeyPair.ofExponent x).privateKey (ℓ.turn u).sent) :
    Retains x s (ds ++ Turn.draws [u]) (u.time?.getD clock) (ℓ.turn u) := by
  cases u with
  | exchange moment d reply explicit trackingId cloves =>
    have later := later moment.instant rfl
    rw [turn_exchange, Link.send] at clear ⊢
    cases he : ℓ.sender.encrypt moment d reply explicit trackingId cloves with
    | mk result t =>
      cases result with
      | error e =>
        have missing : ℓ.sent[ℓ.sent.length]? = none := List.getElem?_eq_none le_rfl
        simp only [Link.after, missing, Option.elim_none]
        exact (h.encrypt fresh he).mono later
      | ok m =>
        rw [he] at clear
        have arrived : (ℓ.sent ++ [Letter.ofMessage t m moment d reply cloves])[ℓ.sent.length]? =
            some (.ofMessage t m moment d reply cloves) := List.getElem?_concat_length
        simp only [Link.after, arrived, Option.elim_some] at clear ⊢
        exact (h.send fresh he).deliver hx fresh clear
          (List.mem_append_right _ (List.mem_singleton_self _)) later fun u hu =>
            hu.elim (h.idle_of_begins hx fresh he clear) (h.idle_of_minted fresh he)
  | acknowledge ackId =>
    show Retains x s (ds ++ []) clock (ℓ.after (.acknowledge ackId))
    rw [List.append_nil, Link.after]
    split_ifs with hid
    · exact h.acknowledge hid
    · exact h
  | resetIfStuck now timeout =>
    show Retains x s (ds ++ []) clock (ℓ.after (.resetIfStuck now timeout))
    rw [List.append_nil, Link.after]
    rcases ℓ.sender.resetIfStuck_cases now timeout with ⟨-, ht⟩ | ⟨-, ht⟩ <;> rw [ht]
    · exact h.reset
    · exact h
  | reset =>
    show Retains x s (ds ++ []) clock (ℓ.after .reset)
    rw [List.append_nil]
    exact h.reset

/-- The next message is read exactly when it is a handshake, or its tag was minted within the
receiver's span. -/
theorem decrypt_isSome_iff (h : Retains x s ds clock ℓ) (hx : x < ElGamal.prime - 1)
    {moment : Moment} {d : Draw} {reply : Option ReplyTunnel} {explicit : Bool}
    {trackingId : UInt32} {cloves : List Clove} {m : Sealed} {t : Sender}
    (fresh : Link.Fresh s.refillBatch (ds ++ [d])) (later : clock ≤ moment.instant)
    (proper : ∀ c ∈ cloves, c.message.payload.Proper)
    (he : ℓ.sender.encrypt moment d reply explicit trackingId cloves = (.ok m, t))
    (clear : Distinguishable (ElGamal.KeyPair.ofExponent x).privateKey
      (ℓ.sent ++ [.ofMessage t m moment d reply cloves])) :
    ((ℓ.receiver.decrypt moment.instant m.wire).1.isSome ↔
      m.path = .handshake ∨ ∃ L ∈ ℓ.sent, ∃ tag ∈ L.tags, tag.Begins m.wire ∧
        moment.instant - L.moment.instant ≤ s.receivedTagSpan.nanoseconds) ∧
    (m.path = .tag → ∃ L ∈ ℓ.sent, ∃ tag ∈ L.tags, tag.Begins m.wire ∧
      moment.instant - L.moment.instant ≤ s.usableTagSpan.nanoseconds) := by
  have sound := h.agrees.soundUsable
  obtain ⟨-, tag?, key, w, front⟩ := Letter.written_of_encrypt sound fresh.other he
  have path := w.path
  have wire := w.wire
  have sent := h.send fresh he
  have last : Letter.ofMessage t m moment d reply cloves ∈
      ℓ.sent ++ [.ofMessage t m moment d reply cloves] := by simp
  have readable := sent.agrees.isSome_iff hx fresh clear last proper moment.instant
  have isSome_iff : (ℓ.receiver.decrypt moment.instant m.wire).1.isSome ↔ m.path = .handshake ∨
      ∃ u : SessionTag, u.Begins m.wire ∧ ℓ.receiver.tags.contains u moment.instant := readable
  rw [isSome_iff]
  cases tag? with
  | none =>
    have path : m.path = .handshake := path
    refine ⟨⟨fun _ => .inl path, fun _ => .inl path⟩, fun tagged => ?_⟩
    rw [path] at tagged
    cases tagged
  | some tag =>
    rw [Option.elim_some] at path wire
    have begins : tag.Begins m.wire := (begins_tagWire wire).1
    obtain ⟨-, e, hu, live, -⟩ := front tag rfl
    obtain ⟨L, hL, minted, created⟩ := h.since tag e hu
    have known := (h.usable tag e hu).contains_iff later
    rw [h.knownSpan, created] at known
    rw [Pool.isLive, decide_eq_true_eq, h.usableSpan, created] at live
    refine ⟨or_congr_right ⟨?_, ?_⟩, fun _ => ⟨L, hL, tag, minted, begins, live⟩⟩
    · intro hh
      obtain ⟨u, hu, live⟩ := hh
      obtain rfl := hu.eq begins
      exact ⟨L, hL, u, minted, begins, known.mp live⟩
    · intro hh
      obtain ⟨M, hM, u, hM', front, young⟩ := hh
      obtain rfl := front.eq begins
      rw [h.agrees.kept.eq_of_mem fresh.of_append hM hL hM' minted] at young
      exact ⟨u, begins, known.mpr young⟩

end Retains

section Play

variable {x : Nat} {remote : Identity} {s : Settings}

/-- Every reachable link retains its tags, as of a time when the last message was made. -/
theorem retains_play (hx : x < ElGamal.prime - 1) {us : List Turn}
    (ordered : (Turn.times us).Pairwise (· ≤ ·)) (fresh : Fresh s.refillBatch (Turn.draws us))
    (clear : Distinguishable (ElGamal.KeyPair.ofExponent x).privateKey
      ((new remote (.ofExponent x) s s).play us).sent) :
    ∃ clock, (∀ now, (∀ time ∈ Turn.times us, time ≤ now) → clock ≤ now) ∧
      Retains x s (Turn.draws us) clock ((new remote (.ofExponent x) s s).play us) := by
  induction us using List.reverseRecOn with
  | nil => exact ⟨0, fun _ _ => Nat.zero_le _, .new x remote s⟩
  | append_singleton us u ih =>
    rw [play_concat] at clear ⊢
    rw [Turn.draws_append] at fresh ⊢
    rw [Turn.times_append, List.pairwise_append] at ordered
    obtain ⟨before, -, between⟩ := ordered
    obtain ⟨clock, bound, retains⟩ := ih before fresh.of_append (clear.mono (sent_run _ _).subset)
    have later (now : Nat) (hnow : u.time? = some now) : clock ≤ now :=
      bound now fun time ht => between time ht now (by simp [Turn.times, hnow])
    refine ⟨u.time?.getD clock, fun now hnow => ?_, retains.turn hx fresh later clear⟩
    cases hu : u.time? with
    | none => exact bound now fun time ht => hnow time (by simp [ht])
    | some time => exact hnow time (by simp [Turn.times, hu])

section Next

variable {us : List Turn} {moment : Moment} {d : Draw} {reply : Option ReplyTunnel} {explicit : Bool}
  {trackingId : UInt32} {cloves : List Clove}

/-- The link before a message that is delivered at once, and what becomes of the message. -/
theorem retains_exchange (hx : x < ElGamal.prime - 1)
    (ordered : (Turn.times (us ++ [.exchange moment d reply explicit trackingId cloves])).Pairwise
      (· ≤ ·))
    (fresh : Fresh s.refillBatch
      (Turn.draws (us ++ [.exchange moment d reply explicit trackingId cloves])))
    (clear : Distinguishable (ElGamal.KeyPair.ofExponent x).privateKey
      ((new remote (.ofExponent x) s s).play
        (us ++ [.exchange moment d reply explicit trackingId cloves])).sent)
    (proper : ∀ c ∈ cloves, c.message.payload.Proper) :
    ∃ clock ≤ moment.instant,
      Retains x s (Turn.draws us) clock ((new remote (.ofExponent x) s s).play us) ∧
      ∀ m t, ((new remote (.ofExponent x) s s).play us).sender.encrypt moment d reply explicit
          trackingId cloves = (.ok m, t) →
        ((((new remote (.ofExponent x) s s).play us).receiver.decrypt moment.instant m.wire).1.isSome ↔
          m.path = .handshake ∨ ∃ L ∈ ((new remote (.ofExponent x) s s).play us).sent,
            ∃ tag ∈ L.tags, tag.Begins m.wire ∧
              moment.instant - L.moment.instant ≤ s.receivedTagSpan.nanoseconds) ∧
        (m.path = .tag → ∃ L ∈ ((new remote (.ofExponent x) s s).play us).sent,
          ∃ tag ∈ L.tags, tag.Begins m.wire ∧
            moment.instant - L.moment.instant ≤ s.usableTagSpan.nanoseconds) := by
  rw [play_concat] at clear
  rw [Turn.draws_append] at fresh
  rw [Turn.times_append, List.pairwise_append] at ordered
  obtain ⟨before, -, between⟩ := ordered
  obtain ⟨clock, bound, retains⟩ :=
    retains_play hx before fresh.of_append (clear.mono (sent_run _ _).subset)
  have later : clock ≤ moment.instant :=
    bound moment.instant fun time ht =>
      between time ht moment.instant (by simp [Turn.times, Turn.time?])
  refine ⟨clock, later, retains, fun m t he => ?_⟩
  rw [turn_exchange, sent_deliver, Link.send, he] at clear
  exact retains.decrypt_isSome_iff hx fresh later proper he clear

end Next

/-- Whether the receiver reads a message that is delivered at once is a matter of the age of its tag.
The sender's usable tags are those the receiver knows, as long as they are within the receiver's span.
If the sender's span is no longer than that, every message is read. -/
theorem exchange_read_iff (x : Nat) (hx : x < ElGamal.prime - 1) (remote : Identity) (s : Settings)
    (us : List Turn) (moment : Moment) (d : Draw) (reply : Option ReplyTunnel) (explicit : Bool)
    (trackingId : UInt32) (cloves : List Clove)
    (ordered : (Turn.times (us ++ [.exchange moment d reply explicit trackingId cloves])).Pairwise
      (· ≤ ·))
    (fresh : Fresh s.refillBatch
      (Turn.draws (us ++ [.exchange moment d reply explicit trackingId cloves])))
    (clear : Distinguishable (ElGamal.KeyPair.ofExponent x).privateKey
      ((new remote (.ofExponent x) s s).play
        (us ++ [.exchange moment d reply explicit trackingId cloves])).sent)
    (proper : ∀ c ∈ cloves, c.message.payload.Proper) :
    let ℓ := (new remote (.ofExponent x) s s).play us
    (∀ e ∈ ℓ.sender.usable.entries, ℓ.receiver.tags.contains e.key moment.instant ↔
      moment.instant - e.created ≤ s.receivedTagSpan.nanoseconds) ∧
    ∀ m t, ℓ.sender.encrypt moment d reply explicit trackingId cloves = (.ok m, t) →
      ((ℓ.receiver.decrypt moment.instant m.wire).1.isSome ↔
        m.path = .handshake ∨ ∃ L ∈ ℓ.sent, ∃ tag ∈ L.tags, tag.Begins m.wire ∧
          moment.instant - L.moment.instant ≤ s.receivedTagSpan.nanoseconds) ∧
      (s.usableTagSpan.nanoseconds ≤ s.receivedTagSpan.nanoseconds →
        (ℓ.receiver.decrypt moment.instant m.wire).1.isSome) := by
  intro ℓ
  obtain ⟨clock, later, retains, each⟩ := retains_exchange hx ordered fresh clear proper
  constructor
  · intro e he
    have holds := retains.usable e.key e (retains.agrees.soundUsable.stored?_of_mem he)
    rw [holds.contains_iff later, retains.knownSpan]
  · intro m t he
    obtain ⟨read, spent⟩ := each m t he
    refine ⟨read, fun shorter => read.mpr ?_⟩
    cases path : m.path with
    | handshake => exact .inl rfl
    | tag =>
      obtain ⟨L, hL, tag, minted, front, young⟩ := spent path
      exact .inr ⟨L, hL, tag, minted, front, young.trans shorter⟩

end Play

section Trial

def opening : List Turn :=
  [.exchange ⟨0, 0⟩ (.numbered 0) (some ⟨⟨.ofNat 32 9⟩, ⟨4⟩⟩) false 1 [], .acknowledge 1]

theorem play_opening :
    (trial.play opening).sender = ((trial.run [greeting []]).acknowledge 1).sender ∧
      (trial.play opening).sent = ((trial.run [greeting []]).acknowledge 1).sent := by
  have steps (ℓ : Link) (moment : Moment) (d : Draw) (reply : Option ReplyTunnel) (explicit : Bool)
      (trackingId ackId : UInt32) (cloves : List Clove) :
      ℓ.play [.exchange moment d reply explicit trackingId cloves, .acknowledge ackId] =
        ((ℓ.run [.send moment d reply explicit trackingId cloves]).after
          (.deliver ℓ.sent.length moment.instant)).after (.acknowledge ackId) := by
    rw [play, List.foldl_cons, List.foldl_cons, List.foldl_nil, turn_exchange, turn, Turn.events]
    rw [run, List.foldl_cons, List.foldl_nil, run, List.foldl_cons, List.foldl_nil]
    rw [after.eq_1]
  have first : trial.sent.length = 0 := rfl
  rw [opening, steps, first, ← greeting]
  exact after_deliver_acknowledge accepted_greeting

theorem sent_next (now : Nat) : (trial.play (opening ++ [.exchange ⟨now, 0⟩ (.numbered 1)
    (some ⟨⟨.ofNat 32 9⟩, ⟨4⟩⟩) false 2 []])).sent =
      (((trial.run [greeting []]).acknowledge 1).after (followUp now)).sent := by
  obtain ⟨sender, sent⟩ := play_opening
  rw [play_concat, turn_exchange, sent_deliver]
  exact sent_after_congr sender sent (followUp now)

theorem next_encrypt (now : Nat)
    (made : (((trial.run [greeting []]).acknowledge 1).sender.encrypt ⟨now, 0⟩ (.numbered 1)
      (some ⟨⟨.ofNat 32 9⟩, ⟨4⟩⟩) false 2 []).1.toOption.map Sealed.path = some .tag) :
    ∃ m t, (trial.play opening).sender.encrypt ⟨now, 0⟩ (.numbered 1)
      (some ⟨⟨.ofNat 32 9⟩, ⟨4⟩⟩) false 2 [] = (.ok m, t) ∧ m.path = .tag := by
  rw [← play_opening.1] at made
  generalize (trial.play opening).sender.encrypt ⟨now, 0⟩ (.numbered 1)
    (some ⟨⟨.ofNat 32 9⟩, ⟨4⟩⟩) false 2 [] = outcome at made ⊢
  obtain ⟨_ | m, t⟩ := outcome
  · cases made
  · exact ⟨m, t, rfl, Option.some.inj made⟩

theorem exchange_read_iff_opening :
    let us := opening ++ [.exchange ⟨5, 0⟩ (.numbered 1) (some ⟨⟨.ofNat 32 9⟩, ⟨4⟩⟩) false 2 []]
    (Turn.times us).Pairwise (· ≤ ·) ∧ Fresh 15 (Turn.draws us) ∧
      Distinguishable (ElGamal.KeyPair.ofExponent 5).privateKey (trial.play us).sent ∧
      ∃ m t, (trial.play opening).sender.encrypt ⟨5, 0⟩ (.numbered 1)
          (some ⟨⟨.ofNat 32 9⟩, ⟨4⟩⟩) false 2 [] = (.ok m, t) ∧ m.path = .tag ∧
        (((trial.play opening).receiver.decrypt 5 m.wire).1.isSome ↔
          m.path = .handshake ∨ ∃ L ∈ (trial.play opening).sent, ∃ tag ∈ L.tags,
            tag.Begins m.wire ∧ 5 - L.moment.instant ≤ 1020 * 1000000000) := by
  intro us
  have ordered : (Turn.times us).Pairwise (· ≤ ·) := by decide
  have fresh : Fresh 15 (Turn.draws us) := by decide +kernel
  have clear : Distinguishable (ElGamal.KeyPair.ofExponent 5).privateKey (trial.play us).sent := by
    rw [sent_next, ← (run_followUp 5).2]
    exact distinguishable_followUp
  obtain ⟨m, t, made, path⟩ := next_encrypt 5 (by decide +kernel)
  have read := (exchange_read_iff 5 (by decide +kernel) ⟨.ofNat 32 9⟩ {} opening ⟨5, 0⟩ (.numbered 1)
    (some ⟨⟨.ofNat 32 9⟩, ⟨4⟩⟩) false 2 [] ordered fresh clear (by simp)).2 m t made
  exact ⟨ordered, fresh, clear, m, t, made, path, read.1⟩

/-- Settings that pass the check, and a tag that the sender still uses when the receiver has already
dropped it. -/
theorem aged_tag_unread :
    let now := 1021 * 1000000000
    let us := opening ++ [.exchange ⟨now, 0⟩ (.numbered 1) (some ⟨⟨.ofNat 32 9⟩, ⟨4⟩⟩) false 2 []]
    Settings.validate {} = .ok () ∧
      (Turn.times us).Pairwise (· ≤ ·) ∧ Fresh 15 (Turn.draws us) ∧
      Distinguishable (ElGamal.KeyPair.ofExponent 5).privateKey (trial.play us).sent ∧
      ∃ m t, (trial.play opening).sender.encrypt ⟨now, 0⟩ (.numbered 1)
          (some ⟨⟨.ofNat 32 9⟩, ⟨4⟩⟩) false 2 [] = (.ok m, t) ∧ m.path = .tag ∧
        ((trial.play opening).receiver.decrypt now m.wire).1 = none := by
  intro now us
  have ordered : (Turn.times us).Pairwise (· ≤ ·) := by decide
  have fresh : Fresh 15 (Turn.draws us) := by decide +kernel
  have sent : (trial.play us).sent =
      (((trial.run [greeting []]).acknowledge 1).after (followUp now)).sent := sent_next now
  have clear : Distinguishable (ElGamal.KeyPair.ofExponent 5).privateKey (trial.play us).sent := by
    rw [sent]
    exact distinguishable_of_heads (by decide +kernel) (by decide +kernel)
  obtain ⟨m, t, made, path⟩ := next_encrypt now (by decide +kernel)
  refine ⟨by decide, ordered, fresh, clear, m, t, made, path, ?_⟩
  have old : ∀ L ∈ (trial.play opening).sent, L.moment.instant = 0 := by
    rw [play_opening.2]
    decide +kernel
  obtain ⟨-, -, -, each⟩ := @retains_exchange 5 ⟨.ofNat 32 9⟩ {} opening ⟨now, 0⟩ (.numbered 1)
    (some ⟨⟨.ofNat 32 9⟩, ⟨4⟩⟩) false 2 [] (by decide +kernel) ordered fresh clear (by simp)
  obtain ⟨read, -⟩ := each m t made
  rw [← Option.not_isSome_iff_eq_none]
  intro got
  rcases read.mp got with handshake | ⟨L, hL, -, -, -, young⟩
  · rw [path] at handshake
    cases handshake
  · rw [old L hL] at young
    exact absurd young (by decide)

end Trial
end Link

end GarlicRouting
