import GarlicRouting.Session.Sender
import GarlicRouting.Proofs.Session.Pool
import GarlicRouting.Proofs.Table
import Mathlib

/-! What one step does to the sending half of a session, and runs of such steps. -/
namespace GarlicRouting

/-- A draw that tells its number, for runs with fixed values. -/
def Draw.numbered (n : Nat) : Draw where
  sessionKey := ⟨.ofNat 32 n⟩
  tags i := ⟨.ofNat 32 (256 ^ 31 + 256 * n + i)⟩
  refreshAck := .ofNat (2 * n + 1)
  explicitAck := .ofNat (2 * n + 2)
  refreshIds := ⟨.ofNat n, .ofNat n⟩
  explicitIds := ⟨.ofNat n, .ofNat n⟩
  dataIds := ⟨.ofNat n, .ofNat n⟩
  garlicId := .ofNat n
  picks _ := n
  preIv := .ofNat 32 n
  noise := .ofNat 158 n
  exponent := n
  filler := .ofNat 15 n

theorem Draw.length_batch (d : Draw) (count : Nat) : (d.batch count).length = count := by
  rw [batch, List.length_map, List.length_range]

namespace Sender

/-- An encryption that succeeds has a message and a session after it. -/
theorem exists_of_isOk {made : Except SendFault Sealed × Sender} (ok : made.1.isOk) :
    ∃ m t, made = (.ok m, t) := by
  obtain ⟨_ | m, t⟩ := made
  · cases ok
  · exact ⟨m, t, rfl⟩

section Parts

variable (s : Sender) (now : Nat)

@[simp] theorem key_expire : (s.expire now).key = s.key := rfl

@[simp] theorem barrier_expire : (s.expire now).barrier = s.barrier := rfl

@[simp] theorem remoteKey_expire : (s.expire now).remoteKey = s.remoteKey := rfl

@[simp] theorem settings_expire : (s.expire now).settings = s.settings := rfl

theorem mem_pending_expire {p : UInt32 × Batch} :
    p ∈ (s.expire now).pending.toList ↔
      p ∈ s.pending.toList ∧ now - p.2.created ≤ s.settings.pendingTagSpan.nanoseconds := by
  rw [expire, Table.mem_filter, decide_eq_true_eq]

@[simp] theorem usableTags_expire : (s.expire now).usableTags now = s.usableTags now :=
  s.usable.count_purge now

@[simp] theorem path_expire : (s.expire now).path now = s.path now := by
  rw [path, usableTags_expire, path]

@[simp] theorem mintsTags_expire : (s.expire now).mintsTags now = s.mintsTags now := by
  rw [mintsTags, path_expire, usableTags_expire, settings_expire, mintsTags]

theorem path_eq_handshake_iff : s.path now = .handshake ↔ s.usableTags now = 0 := by
  unfold path
  split_ifs with h
  · exact ⟨fun _ => h, fun _ => rfl⟩
  · exact ⟨fun e => absurd e (by decide), fun e => absurd e h⟩

theorem path_expire_eq_handshake_iff :
    (s.expire now).path now = .handshake ↔ (s.expire now).usable.entries = #[] := by
  rw [path_eq_handshake_iff]
  exact Pool.count_purge_eq_zero_iff

/-- The tags that go with a message. -/
def minted (d : Draw) : List SessionTag :=
  if s.mintsTags now then d.batch s.settings.refillBatch else []

variable {s now}

theorem mintsTags_of_handshake (h : s.path now = .handshake) : s.mintsTags now := by
  simp [mintsTags, h]

/-- The ids and cloves of the acknowledgments that are asked for. -/
theorem requestAcks_eq_ok {clock : UInt64} {d : Draw} {reply : Option ReplyTunnel}
    {mint explicit : Bool} {acks : AckRequest}
    (h : s.requestAcks clock d reply mint explicit = .ok acks) :
    acks.refresh = (if mint then some d.refreshAck else none) ∧
      (acks = {} ∨ ∃ r, reply = some r ∧ acks = s.ackRequest clock d r mint explicit) := by
  unfold requestAcks at h
  split_ifs at h with asked
  · cases reply with
    | none => cases h
    | some r =>
      rw [Except.ok.injEq] at h
      refine ⟨?_, .inr ⟨r, rfl, h.symm⟩⟩
      rw [← h, ackRequest]
      cases mint <;> split_ifs <;> rfl
  · rw [Except.ok.injEq] at h
    have none : mint = false ∧ explicit = false := by simpa using asked
    exact ⟨by rw [← h, none.1]; rfl, .inl h.symm⟩

/-- Acknowledgments are refused only for want of a tunnel that brings them back. -/
theorem requestAcks_eq_error_iff {clock : UInt64} {d : Draw} {reply : Option ReplyTunnel}
    {mint explicit : Bool} {e : SendFault} :
    s.requestAcks clock d reply mint explicit = .error e ↔
      (mint ∨ explicit) ∧ reply = none ∧ e = .noReplyTunnel := by
  unfold requestAcks
  cases mint <;> cases explicit <;> cases reply <;> simp [eq_comm]

end Parts

/-- A handshake goes on with the key of the one under way, or begins with a new key. -/
theorem handshakeKey_cases {s s₁ : Sender} {d : Draw} {key : SessionKey}
    (h : s.handshakeKey d = (key, s₁)) :
    s.barrier.isSome ∧ s.key = some key ∧ s₁ = s ∨
      (s.barrier = none ∨ s.key = none) ∧ key = d.sessionKey ∧
        s₁ = { s with key := some d.sessionKey, usable := s.usable.clear } := by
  unfold handshakeKey at h
  split at h
  · rename_i b k hbarrier hkey
    cases h
    exact .inl ⟨by rw [hbarrier]; rfl, hkey, rfl⟩
  · rename_i incomplete
    cases h
    refine .inr ⟨?_, rfl, rfl⟩
    cases hbarrier : s.barrier with
    | none => exact .inl rfl
    | some b =>
      cases hkey : s.key with
      | none => exact .inr rfl
      | some k => exact (incomplete b k hbarrier hkey).elim

theorem key_of_handshakeKey {s s₁ : Sender} {d : Draw} {key : SessionKey}
    (h : s.handshakeKey d = (key, s₁)) : s₁.key = some key := by
  rcases handshakeKey_cases h with ⟨-, known, rfl⟩ | ⟨-, rfl, rfl⟩
  · exact known
  · rfl

/-- Once stale tags are gone, a pick takes a live tag and leaves all others. -/
theorem picked_expire {s : Sender} (sound : s.usable.Sound) {now : Nat} {picks : Nat → Nat}
    {tag : SessionTag} {usable : Pool SessionTag Unit}
    (picked : (s.expire now).usable.pick now picks = (some (tag, ()), usable)) :
    usable.Sound ∧ (∃ e, s.usable.stored? tag = some e ∧ s.usable.isLive now e) ∧
      ∀ a, usable.stored? a = if tag = a then none else (s.expire now).usable.stored? a := by
  have taken := (sound.purge now).pickWithin_some picked
  have same : (s.usable.purge now).2.isLive now = s.usable.isLive now :=
    Pool.isLive_congr (Pool.lifetime_purge _ _) now
  have live (a : SessionTag) (e : PoolEntry SessionTag Unit)
      (he : (s.usable.purge now).2.stored? a = some e) :
      s.usable.stored? a = some e ∧ s.usable.isLive now e := by
    rwa [sound.stored?_purge, Option.filter_eq_some_iff] at he
  obtain ⟨e, he, -, -⟩ := taken.live
  refine ⟨taken.sound, ⟨e, live tag e he⟩, taken.stored? fun a e he => ?_⟩
  rw [same]
  exact (live a e he).2

/-- What an encryption hands over besides the octets. -/
def describe (s : Sender) (now : Nat) (path : Path) (acks : AckRequest) (trackingId : UInt32)
    (cloves : List Clove) (wire : Bytes) : Sealed where
  destination := s.remote
  cloves := cloves
  wire := wire
  path := path
  tagsRemaining := s.usableTags now
  trackingId := trackingId
  ackId := acks.ack
  refreshAckId := acks.refresh
  handshakeAckId := s.barrier.map Barrier.ackId

/-- Why an encryption does not begin: an acknowledgment that it needs has no way back, or its cleartext
cannot be written. -/
inductive Refusal (s : Sender) (moment : Moment) (d : Draw) (reply : Option ReplyTunnel)
    (explicit : Bool) (cloves : List Clove) : SendFault → Prop
  | unanswerable (e : SendFault)
      (asked : s.requestAcks moment.clock d reply (s.mintsTags moment.instant) explicit = .error e) :
      Refusal s moment d reply explicit cloves e
  | unwritable (acks : AckRequest) (fault : Fault)
      (asked : s.requestAcks moment.clock d reply (s.mintsTags moment.instant) explicit = .ok acks)
      (written : Garlic.encode ⟨cloves ++ acks.cloves, d.garlicId, defaultExpiration moment.clock⟩ =
        .error fault) :
      Refusal s moment d reply explicit cloves (.codec fault)

/-- The four ways an encryption can go once what is too old has been dropped: its result and the
session afterwards. -/
inductive Encryption (s : Sender) (moment : Moment) (d : Draw) (reply : Option ReplyTunnel)
    (explicit : Bool) (trackingId : UInt32) (cloves : List Clove) :
    Except SendFault Sealed → Sender → Prop
  /-- There is no reply tunnel, or the cloves cannot be written. -/
  | refused (e : SendFault) (reason : s.Refusal moment d reply explicit cloves e) :
      Encryption s moment d reply explicit trackingId cloves (.error e) s
  /-- There is a tag, but no key that goes with it. -/
  | unspent (tag : SessionTag) (usable : Pool SessionTag Unit)
      (path : s.path moment.instant = .tag)
      (picked : s.usable.pick moment.instant d.picks = (some (tag, ()), usable))
      (key : s.key = none) :
      Encryption s moment d reply explicit trackingId cloves
        (.error .noUsableTag) { s with usable }
  | spent (acks : AckRequest) (payload : Bytes) (tag : SessionTag) (key : SessionKey)
      (usable : Pool SessionTag Unit) (s' : Sender)
      (path : s.path moment.instant = .tag)
      (asked : s.requestAcks moment.clock d reply (s.mintsTags moment.instant) explicit = .ok acks)
      (written : Garlic.encode ⟨cloves ++ acks.cloves, d.garlicId, defaultExpiration moment.clock⟩ =
        .ok payload)
      (picked : s.usable.pick moment.instant d.picks = (some (tag, ()), usable))
      (known : s.key = some key)
      (after : s' = { s with usable }.keepPending moment.instant .tag key
        (s.minted moment.instant d) acks.refresh) :
      Encryption s moment d reply explicit trackingId cloves
        (((tagWire key tag ⟨s.minted moment.instant d, none, payload⟩ d).mapError .codec).map
          (s'.describe moment.instant .tag acks trackingId cloves)) s'
  | opened (acks : AckRequest) (payload : Bytes) (key : SessionKey) (s₁ s' : Sender)
      (path : s.path moment.instant = .handshake)
      (asked : s.requestAcks moment.clock d reply true explicit = .ok acks)
      (written : Garlic.encode ⟨cloves ++ acks.cloves, d.garlicId, defaultExpiration moment.clock⟩ =
        .ok payload)
      (agreed : s.handshakeKey d = (key, s₁))
      (after : s' = s₁.keepPending moment.instant .handshake key (d.batch s.settings.refillBatch)
        (some d.refreshAck)) :
      Encryption s moment d reply explicit trackingId cloves
        (((handshakeWire s.remoteKey key ⟨d.batch s.settings.refillBatch, none, payload⟩ d).mapError
          .codec).map (s'.describe moment.instant .handshake acks trackingId cloves)) s'

private theorem exists_pick {s : Sender} (sound : s.usable.Sound) {now : Nat} (picks : Nat → Nat)
    (path : s.path now = .tag) :
    ∃ tag usable, s.usable.pick now picks = (some (tag, ()), usable) := by
  cases hp : s.usable.pick now picks with
  | mk picked usable =>
    cases picked with
    | some t => exact ⟨t.1, usable, rfl⟩
    | none =>
      obtain ⟨-, -, -, stale⟩ := sound.pickWithin_none le_rfl hp
      rw [Sender.path, usableTags, if_pos (Pool.count_eq_zero_iff.mpr stale)] at path
      cases path

private theorem remoteKey_handshakeKey (s : Sender) (d : Draw) :
    (s.handshakeKey d).2.remoteKey = s.remoteKey := by
  unfold handshakeKey
  split <;> rfl

private theorem commit_unspent {s : Sender} {now : Nat} {d : Draw} {tag : SessionTag}
    {usable : Pool SessionTag Unit} (picked : s.usable.pick now d.picks = (some (tag, ()), usable))
    (key : s.key = none) (tags : List SessionTag) (refresh : Option UInt32) (payload : Bytes) :
    s.commit now d .tag tags refresh payload = (.error .noUsableTag, { s with usable }) := by
  simp only [commit, spendTag, picked, key]

private theorem commit_spent {s : Sender} {now : Nat} {d : Draw} {tag : SessionTag}
    {usable : Pool SessionTag Unit} (picked : s.usable.pick now d.picks = (some (tag, ()), usable))
    {key : SessionKey} (known : s.key = some key) (tags : List SessionTag) (refresh : Option UInt32)
    (payload : Bytes) :
    s.commit now d .tag tags refresh payload =
      ((tagWire key tag ⟨tags, none, payload⟩ d).mapError .codec,
        { s with usable }.keepPending now .tag key tags refresh) := by
  simp only [commit, spendTag, picked, known]

theorem encrypt_cases {s t : Sender} (sound : s.usable.Sound) {moment : Moment} {d : Draw}
    {reply : Option ReplyTunnel} {explicit : Bool} {trackingId : UInt32} {cloves : List Clove}
    {result : Except SendFault Sealed}
    (h : s.encrypt moment d reply explicit trackingId cloves = (result, t)) :
    Encryption (s.expire moment.instant) moment d reply explicit trackingId cloves result t := by
  rw [show result = (s.encrypt moment d reply explicit trackingId cloves).1 by rw [h],
    show t = (s.encrypt moment d reply explicit trackingId cloves).2 by rw [h]]
  clear h
  have sound : (s.expire moment.instant).usable.Sound := sound.purge moment.instant
  unfold encrypt
  simp only
  generalize s.expire moment.instant = s at sound ⊢
  cases hacks : s.requestAcks moment.clock d reply (s.mintsTags moment.instant) explicit with
  | error e => exact .refused e (.unanswerable e hacks)
  | ok acks =>
    simp only
    cases hwritten : Garlic.encode
        ⟨cloves ++ acks.cloves, d.garlicId, defaultExpiration moment.clock⟩ with
    | error fault => exact .refused _ (.unwritable acks fault hacks hwritten)
    | ok payload =>
      simp only
      have settled (c : Except SendFault Bytes × Sender)
          (hc : s.commit moment.instant d (s.path moment.instant) (s.minted moment.instant d)
            acks.refresh payload = c) :
          Encryption s moment d reply explicit trackingId cloves (c.1.map
            (c.2.describe moment.instant (s.path moment.instant) acks trackingId cloves)) c.2 := by
        rw [← hc]
        cases hpath : s.path moment.instant with
        | tag =>
          obtain ⟨tag, usable, picked⟩ := exists_pick sound d.picks hpath
          rcases hkey : s.key with _ | key
          · rw [commit_unspent picked hkey]
            exact .unspent tag usable hpath picked hkey
          · rw [commit_spent picked hkey]
            exact .spent acks payload tag key usable _ hpath hacks hwritten picked hkey rfl
        | handshake =>
          have mint := mintsTags_of_handshake hpath
          rw [mint] at hacks
          have refresh := (requestAcks_eq_ok hacks).1
          have h : Encryption s moment d reply explicit trackingId cloves _ _ :=
            .opened acks payload _ _ _ hpath hacks hwritten Prod.mk.eta.symm rfl
          rw [minted, mint, refresh]
          rwa [← remoteKey_handshakeKey s d] at h
      obtain ⟨⟨_ | _, _⟩, hc⟩ : ∃ c, s.commit moment.instant d (s.path moment.instant)
          (s.minted moment.instant d) acks.refresh payload = c := ⟨_, rfl⟩
      all_goals
        have step := settled _ hc
        rw [minted] at hc
        rw [hc]
        exact step

theorem described_eq_ok {x : Except Fault Bytes} {f : Bytes → Sealed} {m : Sealed} :
    (x.mapError SendFault.codec).map f = .ok m ↔ ∃ wire, x = .ok wire ∧ f wire = m := by
  cases x with
  | error e =>
    constructor
    · intro h
      cases h
    · intro hh
      obtain ⟨_, h, _⟩ := hh
      cases h
  | ok wire =>
    constructor
    · intro h
      exact ⟨wire, rfl, Except.ok.inj h⟩
    · intro hh
      obtain ⟨_, h, rfl⟩ := hh
      cases h
      rfl

/-- The two ways a message comes out of an encryption once what is too old has been dropped. -/
inductive Sending (s : Sender) (moment : Moment) (d : Draw) (reply : Option ReplyTunnel)
    (explicit : Bool) (trackingId : UInt32) (cloves : List Clove) : Sealed → Sender → Prop
  | spent (acks : AckRequest) (payload : Bytes) (tag : SessionTag) (key : SessionKey)
      (usable : Pool SessionTag Unit) (wire : Bytes) (s' : Sender)
      (path : s.path moment.instant = .tag)
      (asked : s.requestAcks moment.clock d reply (s.mintsTags moment.instant) explicit = .ok acks)
      (written : Garlic.encode ⟨cloves ++ acks.cloves, d.garlicId, defaultExpiration moment.clock⟩ =
        .ok payload)
      (picked : s.usable.pick moment.instant d.picks = (some (tag, ()), usable))
      (known : s.key = some key)
      (sealed : tagWire key tag ⟨s.minted moment.instant d, none, payload⟩ d = .ok wire)
      (after : s' = { s with usable }.keepPending moment.instant .tag key
        (s.minted moment.instant d) acks.refresh) :
      Sending s moment d reply explicit trackingId cloves
        (s'.describe moment.instant .tag acks trackingId cloves wire) s'
  | opened (acks : AckRequest) (payload : Bytes) (key : SessionKey) (wire : Bytes) (s₁ s' : Sender)
      (path : s.path moment.instant = .handshake)
      (asked : s.requestAcks moment.clock d reply true explicit = .ok acks)
      (written : Garlic.encode ⟨cloves ++ acks.cloves, d.garlicId, defaultExpiration moment.clock⟩ =
        .ok payload)
      (agreed : s.handshakeKey d = (key, s₁))
      (sealed : handshakeWire s.remoteKey key ⟨d.batch s.settings.refillBatch, none, payload⟩ d =
        .ok wire)
      (after : s' = s₁.keepPending moment.instant .handshake key (d.batch s.settings.refillBatch)
        (some d.refreshAck)) :
      Sending s moment d reply explicit trackingId cloves
        (s'.describe moment.instant .handshake acks trackingId cloves wire) s'

theorem sending_of_encrypt {s t : Sender} (sound : s.usable.Sound) {moment : Moment} {d : Draw}
    {reply : Option ReplyTunnel} {explicit : Bool} {trackingId : UInt32} {cloves : List Clove}
    {m : Sealed} (h : s.encrypt moment d reply explicit trackingId cloves = (.ok m, t)) :
    (s.expire moment.instant).Sending moment d reply explicit trackingId cloves m t := by
  obtain ⟨result, hresult⟩ : ∃ result : Except SendFault Sealed, result = .ok m := ⟨_, rfl⟩
  rw [← hresult] at h
  cases encrypt_cases sound h with
  | refused | unspent => cases hresult
  | spent acks payload tag key usable s' path asked written picked known after =>
    obtain ⟨wire, sealed, rfl⟩ := described_eq_ok.mp hresult
    exact .spent acks payload tag key usable wire t path asked written picked known sealed after
  | opened acks payload key s₁ s' path asked written agreed after =>
    obtain ⟨wire, sealed, rfl⟩ := described_eq_ok.mp hresult
    exact .opened acks payload key wire s₁ t path asked written agreed sealed after

theorem described_eq_error {x : Except Fault Bytes} {f : Bytes → Sealed} {e : SendFault} :
    (x.mapError SendFault.codec).map f = .error e ↔ ∃ fault, x = .error fault ∧ e = .codec fault := by
  cases x with
  | error fault =>
    constructor
    · intro h
      cases h
      exact ⟨fault, rfl, rfl⟩
    · rintro ⟨_, h, rfl⟩
      cases h
      rfl
  | ok wire =>
    constructor
    · intro h
      cases h
    · rintro ⟨_, h, -⟩
      cases h

section KeepPending

variable (s : Sender) (now : Nat) (path : Path) (key : SessionKey) (tags : List SessionTag)
  (refresh : Option UInt32)

@[simp] theorem usable_keepPending : (s.keepPending now path key tags refresh).usable = s.usable := by
  cases refresh <;> rfl

@[simp] theorem key_keepPending : (s.keepPending now path key tags refresh).key = s.key := by
  cases refresh <;> rfl

@[simp] theorem barrier_keepPending_tag :
    (s.keepPending now .tag key tags refresh).barrier = s.barrier := by
  cases refresh <;> rfl

/-- After a handshake a barrier is up: the one before it, or its own. -/
theorem barrier_keepPending_handshake (ackId : UInt32) :
    (s.keepPending now .handshake key tags (some ackId)).barrier =
      some (s.barrier.getD ⟨ackId, now⟩) := by
  unfold keepPending
  cases s.barrier <;> rfl

theorem find?_keepPending (id : UInt32) :
    (s.keepPending now path key tags refresh).pending.find? id =
      if refresh = some id then some ⟨tags, key, now, path = .handshake⟩ else s.pending.find? id := by
  cases refresh with
  | none => rfl
  | some ackId =>
    rw [keepPending, Table.find?_insert]
    simp only [Option.some.injEq, eq_comm]

end KeepPending

theorem mem_pending_keepPending {s : Sender} {now : Nat} {path : Path} {key : SessionKey}
    {tags : List SessionTag} {refresh : Option UInt32} {p : UInt32 × Batch}
    (h : p ∈ (s.keepPending now path key tags refresh).pending.toList) :
    p ∈ s.pending.toList ∨
      ∃ ackId, refresh = some ackId ∧ p = (ackId, ⟨tags, key, now, path = .handshake⟩) := by
  cases refresh with
  | none => exact .inl h
  | some ackId =>
    rcases Table.mem_insert h with rfl | ⟨h, -⟩
    · exact .inr ⟨ackId, rfl, rfl⟩
    · exact .inl h

inductive Event where
  | encrypt (moment : Moment) (draw : Draw) (reply : Option ReplyTunnel) (explicit : Bool)
    (trackingId : UInt32) (cloves : List Clove)
  | acknowledge (ackId : UInt32)
  | resetIfStuck (now timeout : Nat)
  | reset

namespace Event

def draw? : Event → Option Draw
  | encrypt _ d .. => some d
  | _ => none

def draws (es : List Event) : List Draw := es.filterMap draw?

theorem draws_cons (e : Event) (es : List Event) : draws (e :: es) = e.draw?.toList ++ draws es := by
  rw [draws, List.filterMap_cons]
  cases e.draw? <;> rfl

@[simp] theorem draws_append (es fs : List Event) : draws (es ++ fs) = draws es ++ draws fs :=
  List.filterMap_append

end Event

def after (s : Sender) : Event → Sender
  | .encrypt moment d reply explicit trackingId cloves =>
    (s.encrypt moment d reply explicit trackingId cloves).2
  | .acknowledge ackId => (s.acknowledge ackId).2
  | .resetIfStuck now timeout => (s.resetIfStuck now timeout).2
  | .reset => s.reset

def run (s : Sender) (es : List Event) : Sender := es.foldl after s

section Steps

variable {s : Sender}

theorem run_append (es fs : List Event) : s.run (es ++ fs) = (s.run es).run fs := List.foldl_append

theorem run_concat (es : List Event) (e : Event) : s.run (es ++ [e]) = (s.run es).after e := by
  rw [run_append]
  rfl

/-- The three ways an acknowledgment can go. -/
theorem acknowledge_cases (s : Sender) (ackId : UInt32) :
    s.pending.find? ackId = none ∧ (s.acknowledge ackId).2 = s ∨
      ∃ batch, s.pending.find? ackId = some batch ∧
        (s.key ≠ some batch.key ∧
            (s.acknowledge ackId).2 = { s with pending := s.pending.erase ackId } ∨
          s.key = some batch.key ∧ (s.acknowledge ackId).2 =
            { s with
              pending := s.pending.erase ackId
              usable := batch.tags.foldl (fun p t => p.insert t () batch.created) s.usable
              barrier := if s.barrier.any fun b => batch.handshake || b.ackId = ackId then none
                else s.barrier }) := by
  unfold acknowledge
  cases hfind : s.pending.find? ackId with
  | none => exact .inl ⟨rfl, rfl⟩
  | some batch =>
    refine .inr ⟨batch, rfl, ?_⟩
    by_cases hkey : s.key = some batch.key
    · exact .inr ⟨hkey, by simp only [hkey, ne_eq, not_true_eq_false, if_false]⟩
    · exact .inl ⟨hkey, by simp only [ne_eq, hkey, not_false_eq_true, if_true]⟩

theorem resetIfStuck_cases (s : Sender) (now timeout : Nat) :
    (s.resetIfStuck now timeout).1 = true ∧ (s.resetIfStuck now timeout).2 = s.reset ∨
      (s.resetIfStuck now timeout).1 = false ∧ (s.resetIfStuck now timeout).2 = s := by
  unfold resetIfStuck
  split_ifs
  · exact .inl ⟨rfl, rfl⟩
  · exact .inr ⟨rfl, rfl⟩

structure Frame (s t : Sender) : Prop where
  remote : t.remote = s.remote
  remoteKey : t.remoteKey = s.remoteKey
  settings : t.settings = s.settings

theorem Frame.refl (s : Sender) : Frame s s := ⟨rfl, rfl, rfl⟩

theorem Frame.trans {s t u : Sender} (h : Frame s t) (g : Frame t u) : Frame s u :=
  ⟨g.remote.trans h.remote, g.remoteKey.trans h.remoteKey, g.settings.trans h.settings⟩

theorem frame_keepPending (s : Sender) (now : Nat) (path : Path) (key : SessionKey)
    (tags : List SessionTag) (refresh : Option UInt32) :
    Frame s (s.keepPending now path key tags refresh) := by
  cases refresh <;> exact ⟨rfl, rfl, rfl⟩

section Encrypt

variable {t : Sender} {moment : Moment} {d : Draw} {reply : Option ReplyTunnel} {explicit : Bool}
  {trackingId : UInt32} {cloves : List Clove} {result : Except SendFault Sealed}

theorem frame_encrypt (sound : s.usable.Sound)
    (he : s.encrypt moment d reply explicit trackingId cloves = (result, t)) : Frame s t := by
  cases encrypt_cases sound he with
  | refused | unspent => exact ⟨rfl, rfl, rfl⟩
  | spent _ _ _ _ _ _ _ _ _ _ _ after =>
    rw [after]
    refine Frame.trans ?_ (frame_keepPending _ _ _ _ _ _)
    exact ⟨rfl, rfl, rfl⟩
  | opened _ _ _ s₁ _ _ _ _ agreed after =>
    rw [after]
    refine Frame.trans ?_ (frame_keepPending _ _ _ _ _ _)
    rcases handshakeKey_cases agreed with ⟨-, -, rfl⟩ | ⟨-, -, rfl⟩ <;> exact ⟨rfl, rfl, rfl⟩

theorem sound_encrypt (sound : s.usable.Sound)
    (he : s.encrypt moment d reply explicit trackingId cloves = (result, t)) : t.usable.Sound := by
  cases encrypt_cases sound he with
  | refused => exact sound.purge moment.instant
  | unspent _ _ _ picked => exact (picked_expire sound picked).1
  | spent _ _ _ _ _ _ _ _ _ picked _ after =>
    rw [after, usable_keepPending]
    exact (picked_expire sound picked).1
  | opened _ _ _ s₁ _ _ _ _ agreed after =>
    rw [after, usable_keepPending]
    rcases handshakeKey_cases agreed with ⟨-, -, rfl⟩ | ⟨-, -, rfl⟩
    · exact sound.purge moment.instant
    · exact Pool.sound_clear _

private theorem stored?_of_expire {now : Nat} (sound : s.usable.Sound) {k : SessionTag}
    {e : PoolEntry SessionTag Unit} (h : (s.expire now).usable.stored? k = some e) :
    s.usable.stored? k = some e := by
  rw [expire, sound.stored?_purge, Option.filter_eq_some_iff] at h
  exact h.1

/-- No tag becomes usable by an encryption, and those that stay go with the same key. -/
theorem usable_encrypt (sound : s.usable.Sound)
    (he : s.encrypt moment d reply explicit trackingId cloves = (result, t)) {k : SessionTag}
    {e : PoolEntry SessionTag Unit} (h : t.usable.stored? k = some e) :
    s.usable.stored? k = some e ∧ t.key = s.key := by
  cases encrypt_cases sound he with
  | refused => exact ⟨stored?_of_expire sound h, rfl⟩
  | unspent tag _ _ picked =>
    obtain ⟨-, -, left⟩ := picked_expire sound picked
    rw [left] at h
    split_ifs at h
    exact ⟨stored?_of_expire sound h, rfl⟩
  | spent _ _ tag _ _ _ _ _ _ picked _ after =>
    obtain ⟨-, -, left⟩ := picked_expire sound picked
    rw [after, usable_keepPending, left] at h
    split_ifs at h
    exact ⟨stored?_of_expire sound h, by rw [after, key_keepPending]; rfl⟩
  | opened _ _ _ s₁ _ _ _ _ agreed after =>
    rw [after, usable_keepPending] at h
    rw [after, key_keepPending]
    rcases handshakeKey_cases agreed with ⟨-, -, rfl⟩ | ⟨-, -, rfl⟩
    · exact ⟨stored?_of_expire sound h, rfl⟩
    · rw [Pool.stored?_clear] at h
      cases h

theorem lifetime_encrypt (sound : s.usable.Sound)
    (he : s.encrypt moment d reply explicit trackingId cloves = (result, t)) :
    t.usable.lifetime = s.usable.lifetime := by
  have expired : (s.expire moment.instant).usable.lifetime = s.usable.lifetime :=
    Pool.lifetime_purge _ _
  have picked {tag : SessionTag} {usable : Pool SessionTag Unit} (hp :
      (s.expire moment.instant).usable.pick moment.instant d.picks = (some (tag, ()), usable)) :
      usable.lifetime = s.usable.lifetime :=
    ((sound.purge moment.instant).pickWithin_some hp).lifetime.trans expired
  cases encrypt_cases sound he with
  | refused => exact expired
  | unspent _ _ _ hp => exact picked hp
  | spent _ _ _ _ _ _ _ _ _ hp _ after =>
    rw [after, usable_keepPending]
    exact picked hp
  | opened _ _ _ s₁ _ _ _ _ agreed after =>
    rw [after, usable_keepPending]
    rcases handshakeKey_cases agreed with ⟨-, -, rfl⟩ | ⟨-, -, rfl⟩ <;> exact expired

/-- Whatever waits after an encryption has waited before, or is the new batch. -/
theorem pending_encrypt (sound : s.usable.Sound)
    (he : s.encrypt moment d reply explicit trackingId cloves = (result, t)) {p : UInt32 × Batch}
    (hp : p ∈ t.pending.toList) : p ∈ s.pending.toList ∨
      p.1 = d.refreshAck ∧ p.2.tags = d.batch s.settings.refillBatch ∧
        p.2.created = moment.instant ∧ t.key = some p.2.key := by
  have old {p : UInt32 × Batch} (hp : p ∈ (s.expire moment.instant).pending.toList) :
      p ∈ s.pending.toList := ((s.mem_pending_expire moment.instant).mp hp).1
  cases encrypt_cases sound he with
  | refused => exact .inl (old hp)
  | unspent => exact .inl (old hp)
  | spent acks _ _ key _ _ _ asked _ _ known after =>
    rw [after] at hp
    rcases mem_pending_keepPending hp with hp | ⟨ackId, hack, rfl⟩
    · exact .inl (old hp)
    · have refresh := (requestAcks_eq_ok asked).1
      rw [hack] at refresh
      split_ifs at refresh with mint
      refine .inr ⟨Option.some.inj refresh, if_pos mint, rfl, ?_⟩
      rw [after, key_keepPending]
      exact known
  | opened _ _ key s₁ _ _ _ _ agreed after =>
    rw [after] at hp
    rcases mem_pending_keepPending hp with hp | ⟨ackId, hack, rfl⟩
    · rcases handshakeKey_cases agreed with ⟨-, -, rfl⟩ | ⟨-, -, rfl⟩ <;> exact .inl (old hp)
    · refine .inr ⟨(Option.some.inj hack).symm, rfl, rfl, ?_⟩
      rw [after, key_keepPending]
      exact key_of_handshakeKey agreed

end Encrypt

section Acknowledge

variable {ackId : UInt32}

@[simp] theorem key_acknowledge (s : Sender) (ackId : UInt32) : (s.acknowledge ackId).2.key = s.key := by
  rcases acknowledge_cases s ackId with ⟨-, h⟩ | ⟨_, -, ⟨-, h⟩ | ⟨-, h⟩⟩ <;> rw [h]

theorem lifetime_acknowledge (s : Sender) (ackId : UInt32) :
    (s.acknowledge ackId).2.usable.lifetime = s.usable.lifetime := by
  rcases acknowledge_cases s ackId with ⟨-, h⟩ | ⟨_, -, ⟨-, h⟩ | ⟨-, h⟩⟩ <;> rw [h]
  exact Pool.lifetime_foldl_insert _ _ _ _

/-- The tags of the acknowledged batch become usable, if they go with the key. -/
theorem usable_acknowledge (sound : s.usable.Sound) {k : SessionTag} {e : PoolEntry SessionTag Unit}
    (h : (s.acknowledge ackId).2.usable.stored? k = some e) : s.usable.stored? k = some e ∨
      ∃ batch, (ackId, batch) ∈ s.pending.toList ∧ s.key = some batch.key ∧ k ∈ batch.tags ∧
        e.created = batch.created := by
  rcases acknowledge_cases s ackId with ⟨-, ht⟩ | ⟨batch, found, ⟨-, ht⟩ | ⟨same, ht⟩⟩ <;> rw [ht] at h
  · exact .inl h
  · exact .inl h
  · simp only [sound.stored?_foldl_insert] at h
    split_ifs at h with hk
    · cases h
      exact .inr ⟨batch, Table.mem_of_find? found, same, hk, rfl⟩
    · exact .inl h

theorem pending_acknowledge {p : UInt32 × Batch}
    (hp : p ∈ (s.acknowledge ackId).2.pending.toList) : p ∈ s.pending.toList ∧ p.1 ≠ ackId := by
  rcases acknowledge_cases s ackId with ⟨absent, ht⟩ | ⟨batch, -, ⟨-, ht⟩ | ⟨-, ht⟩⟩ <;> rw [ht] at hp
  · exact ⟨hp, Table.find?_eq_none_iff.mp absent p hp⟩
  · exact Table.mem_erase.mp hp
  · exact Table.mem_erase.mp hp

end Acknowledge

theorem frame_after (sound : s.usable.Sound) (e : Event) : Frame s (s.after e) := by
  cases e with
  | encrypt => exact frame_encrypt sound (Prod.mk.eta).symm
  | acknowledge ackId =>
    rw [after]
    rcases acknowledge_cases s ackId with ⟨-, h⟩ | ⟨_, -, ⟨-, h⟩ | ⟨-, h⟩⟩ <;> rw [h] <;>
      exact ⟨rfl, rfl, rfl⟩
  | resetIfStuck now timeout =>
    rw [after]
    rcases resetIfStuck_cases s now timeout with ⟨-, h⟩ | ⟨-, h⟩ <;> rw [h] <;>
      exact ⟨rfl, rfl, rfl⟩
  | reset => exact ⟨rfl, rfl, rfl⟩

theorem sound_acknowledge (sound : s.usable.Sound) (ackId : UInt32) :
    (s.acknowledge ackId).2.usable.Sound := by
  rcases acknowledge_cases s ackId with ⟨-, h⟩ | ⟨_, -, ⟨-, h⟩ | ⟨-, h⟩⟩ <;> rw [h]
  · exact sound
  · exact sound
  · exact sound.foldl_insert _ _ _

theorem sound_after (sound : s.usable.Sound) (e : Event) : (s.after e).usable.Sound := by
  cases e with
  | encrypt => exact sound_encrypt sound (Prod.mk.eta).symm
  | acknowledge ackId => exact sound_acknowledge sound ackId
  | resetIfStuck now timeout =>
    rw [after]
    rcases resetIfStuck_cases s now timeout with ⟨-, h⟩ | ⟨-, h⟩ <;> rw [h]
    · exact Pool.sound_clear _
    · exact sound
  | reset => exact Pool.sound_clear _

theorem frame_run (sound : s.usable.Sound) (es : List Event) :
    Frame s (s.run es) ∧ (s.run es).usable.Sound := by
  induction es using List.reverseRecOn with
  | nil => exact ⟨.refl s, sound⟩
  | append_singleton es e ih =>
    rw [run_concat]
    exact ⟨ih.1.trans (frame_after ih.2 e), sound_after ih.2 e⟩

theorem sound_new (remote : Identity) (remoteKey : ElGamal.PublicKey) (settings : Settings) :
    (new remote remoteKey settings).usable.Sound := Pool.sound_of_empty rfl rfl

end Steps

end Sender

end GarlicRouting
