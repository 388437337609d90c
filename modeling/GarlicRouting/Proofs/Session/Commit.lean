import GarlicRouting.Proofs.Session.Contents
import GarlicRouting.Proofs.Session.Waiting
import Mathlib

/-! What an encryption settles. The number of live tags decides on the path and on new tags before a
tag is picked and before any octets are written. What is taken from the pool, what waits afterwards and
what the message tells all follow that decision. -/
namespace GarlicRouting.Sender

/-- The octets of a message, which begin with the tag that it spends or else with a handshake. -/
def wireOf (remoteKey : ElGamal.PublicKey) (tag? : Option SessionTag) (key : SessionKey)
    (block : TagBlock) (d : Draw) : Except Fault Bytes :=
  tag?.elim (handshakeWire remoteKey key block d) fun tag => tagWire key tag block d

/-- What the key of a message makes of the octets behind the tag or the handshake. -/
def blockOf (tag? : Option SessionTag) (key : SessionKey) (d : Draw) (wire : Bytes) :
    Except Fault TagBlock :=
  TagBlock.decrypt key (tag?.elim d.preIv SessionTag.octets) (wire.drop (tag?.elim 514 fun _ => 32))

/-- What is settled once the cleartext of a message stands, be it with octets or not: which tag is
spent, the key, the tags in the message, and the session afterwards. -/
structure Commits (s : Sender) (now : Nat) (d : Draw) (tag? : Option SessionTag) (key : SessionKey)
    (tags : List SessionTag) (refresh : Option UInt32) (t : Sender) : Prop where
  path : tag?.isSome ↔ 0 < s.usableTags now
  live : ∀ tag, tag? = some tag → s.usable.contains tag now
  usable : ∀ a, t.usable.contains a now = (s.usable.contains a now && decide (tag? ≠ some a))
  remaining : t.usableTags now = s.usableTags now - 1
  known : t.key = some key
  mints : refresh = if tag? = none ∨ t.usableTags now ≤ s.settings.lowWatermark
    then some d.refreshAck else none
  batch : tags = if refresh.isSome then d.batch s.settings.refillBatch else []
  waits : refresh.isSome → t.pending.find? d.refreshAck = some ⟨tags, key, now, tag? = none⟩
  others : ∀ id, refresh ≠ some id → t.pending.find? id = (s.expire now).pending.find? id
  barrier : t.barrier = if tag? = none then some (s.barrier.getD ⟨d.refreshAck, now⟩) else s.barrier

/-- The two ways an encryption can go on a session whose tags have their key. It stops before
anything is settled, or settles everything before the octets are written. -/
inductive Outcome (s : Sender) (moment : Moment) (d : Draw) (reply : Option ReplyTunnel)
    (explicit : Bool) (trackingId : UInt32) (cloves : List Clove) :
    Except SendFault Sealed → Sender → Prop
  | stopped (e : SendFault)
      (reason : (s.expire moment.instant).Refusal moment d reply explicit cloves e) :
      Outcome s moment d reply explicit trackingId cloves (.error e) (s.expire moment.instant)
  | settled (acks : AckRequest) (tag? : Option SessionTag) (key : SessionKey) (block : TagBlock)
      (t : Sender)
      (asked : (s.expire moment.instant).requestAcks moment.clock d reply
        ((s.expire moment.instant).mintsTags moment.instant) explicit = .ok acks)
      (written : Garlic.encode ⟨cloves ++ acks.cloves, d.garlicId, defaultExpiration moment.clock⟩ =
        .ok block.payload)
      (commits : s.Commits moment.instant d tag? key block.tags acks.refresh t) :
      Outcome s moment d reply explicit trackingId cloves
        (((wireOf s.remoteKey tag? key block d).mapError .codec).map (t.describe moment.instant
          (tag?.elim .handshake fun _ => .tag) acks trackingId cloves)) t

namespace Commits

variable {s t : Sender} {now : Nat} {d : Draw} {tag? : Option SessionTag} {key : SessionKey}
  {tags : List SessionTag} {refresh : Option UInt32}

theorem isSome_refresh (h : s.Commits now d tag? key tags refresh t) :
    refresh.isSome ↔ tag? = none ∨ t.usableTags now ≤ s.settings.lowWatermark := by
  rw [h.mints]
  split_ifs with mints <;> simp only [mints, Option.isSome_some, Option.isSome_none, Bool.false_eq_true]

theorem refresh_eq (h : s.Commits now d tag? key tags refresh t) (minted : refresh.isSome) :
    refresh = some d.refreshAck := h.mints.trans (if_pos (h.isSome_refresh.mp minted))

end Commits

section Wires

variable {remoteKey : ElGamal.PublicKey} {tag? : Option SessionTag} {key : SessionKey}
  {block : TagBlock} {d : Draw}

theorem blockOf_wireOf {wire : Bytes} (h : wireOf remoteKey tag? key block d = .ok wire) :
    blockOf tag? key d wire = .ok block := by
  cases tag? with
  | none => exact decrypt_handshakeWire h
  | some tag => exact (begins_tagWire h).2

/-- Octets are missing only if the tags are too many for their length field. -/
theorem wireOf_eq_error_iff {fault : Fault} (payload : block.payload.length ≤ 4294967295) :
    wireOf remoteKey tag? key block d = .error fault ↔
      65535 < block.tags.length ∧ fault = .tooLarge .tagCount block.tags.length := by
  cases tag? with
  | none => exact handshakeWire_eq_error_iff payload
  | some tag => exact tagWire_eq_error_iff payload

end Wires

section Pools

variable {s : Sender} {now : Nat}

theorem contains_expire (sound : s.usable.Sound) (a : SessionTag) :
    (s.expire now).usable.contains a now = s.usable.contains a now := sound.contains_purge now a

theorem contains_picked (sound : s.usable.Sound) {picks : Nat → Nat} {tag : SessionTag}
    {usable : Pool SessionTag Unit}
    (picked : (s.expire now).usable.pick now picks = (some (tag, ()), usable)) (a : SessionTag) :
    usable.contains a now = (s.usable.contains a now && decide (some tag ≠ some a)) := by
  obtain ⟨-, -, left⟩ := picked_expire sound picked
  have same : usable.isLive now = (s.expire now).usable.isLive now :=
    Pool.isLive_congr ((sound.purge now).pickWithin_some picked).lifetime now
  rw [← contains_expire sound, Bool.eq_iff_iff, Bool.and_eq_true, decide_eq_true_eq,
    Pool.contains_iff, Pool.contains_iff, same, left a]
  by_cases other : tag = a <;> simp [other]

theorem count_picked (sound : s.usable.Sound) {picks : Nat → Nat} {tag : SessionTag}
    {usable : Pool SessionTag Unit}
    (picked : (s.expire now).usable.pick now picks = (some (tag, ()), usable)) :
    s.usableTags now = usable.count now + 1 := by
  have counted := ((sound.purge now).pickWithin_some picked).count_eq (sound.purge now)
  rwa [Pool.count_purge] at counted

end Pools

section Settle

variable {s t : Sender} {moment : Moment} {d : Draw} {reply : Option ReplyTunnel} {explicit : Bool}
  {acks : AckRequest} {key : SessionKey}

theorem commits_spent (sound : s.usable.Sound) {tag : SessionTag} {usable : Pool SessionTag Unit}
    (path : (s.expire moment.instant).path moment.instant = .tag)
    (asked : (s.expire moment.instant).requestAcks moment.clock d reply
      ((s.expire moment.instant).mintsTags moment.instant) explicit = .ok acks)
    (picked : (s.expire moment.instant).usable.pick moment.instant d.picks = (some (tag, ()), usable))
    (known : s.key = some key)
    (after : t = { s.expire moment.instant with usable }.keepPending moment.instant .tag key
      ((s.expire moment.instant).minted moment.instant d) acks.refresh) :
    s.Commits moment.instant d (some tag) key ((s.expire moment.instant).minted moment.instant d)
      acks.refresh t := by
  have count := count_picked sound picked
  have left : t.usable = usable := by rw [after, usable_keepPending]
  have remaining : t.usableTags moment.instant = s.usableTags moment.instant - 1 := by
    rw [usableTags, left, count, Nat.add_sub_cancel]
  have mint : (s.expire moment.instant).mintsTags moment.instant =
      decide (t.usableTags moment.instant ≤ s.settings.lowWatermark) := by
    rw [mintsTags, path, usableTags_expire, remaining]
    rfl
  have refresh := (requestAcks_eq_ok asked).1
  constructor
  case path =>
    rw [count]
    simp only [Option.isSome_some, Nat.succ_pos]
  case live =>
    intro a ha
    obtain rfl := Option.some.inj ha
    obtain ⟨-, live, -⟩ := picked_expire sound picked
    exact Pool.contains_iff.mpr live
  case usable =>
    rw [left]
    exact contains_picked sound picked
  case remaining => exact remaining
  case known =>
    rw [after, key_keepPending]
    exact known
  case mints =>
    rw [refresh, mint]
    simp only [decide_eq_true_eq, reduceCtorEq, false_or]
  case batch =>
    rw [minted, refresh]
    cases (s.expire moment.instant).mintsTags moment.instant <;> rfl
  case waits =>
    intro wanted
    rw [refresh] at wanted after
    split_ifs at wanted after
    · rw [after, find?_keepPending, if_pos rfl]
      rfl
    · cases wanted
  case others =>
    intro id other
    rw [after, find?_keepPending, if_neg other]
  case barrier =>
    rw [after, barrier_keepPending_tag]
    rfl

/-- When no tag is live, the beginning of a handshake changes nothing but keys. -/
private theorem handshakeKey_of_no_tag (sound : s.usable.Sound) {now : Nat} {s₁ : Sender}
    (path : (s.expire now).path now = .handshake)
    (agreed : (s.expire now).handshakeKey d = (key, s₁)) :
    (∀ a, s₁.usable.contains a now = s.usable.contains a now) ∧
      s₁.usableTags now = s.usableTags now ∧ s₁.pending = (s.expire now).pending ∧
      s₁.barrier = s.barrier := by
  rcases handshakeKey_cases agreed with ⟨-, -, rfl⟩ | ⟨-, -, rfl⟩
  · exact ⟨contains_expire sound, usableTags_expire s now, rfl, rfl⟩
  · have empty : s.usableTags now = 0 := by
      rwa [path_expire, path_eq_handshake_iff] at path
    refine ⟨fun a => ?_, empty.symm, rfl, rfl⟩
    rw [Bool.eq_false_iff.mpr (handshake_of_no_tag sound path a)]
    refine Bool.eq_false_iff.mpr fun live => ?_
    obtain ⟨e, stored, -⟩ := Pool.contains_iff.mp live
    rw [Pool.stored?_clear] at stored
    cases stored

theorem commits_opened (sound : s.usable.Sound) {s₁ : Sender}
    (path : (s.expire moment.instant).path moment.instant = .handshake)
    (agreed : (s.expire moment.instant).handshakeKey d = (key, s₁))
    (after : t = s₁.keepPending moment.instant .handshake key (d.batch s.settings.refillBatch)
      (some d.refreshAck)) :
    s.Commits moment.instant d none key (d.batch s.settings.refillBatch) (some d.refreshAck) t := by
  obtain ⟨same, count, pending, barrier⟩ := handshakeKey_of_no_tag sound path agreed
  have empty : s.usableTags moment.instant = 0 := by
    rwa [path_expire, path_eq_handshake_iff] at path
  have left : t.usable = s₁.usable := by rw [after, usable_keepPending]
  constructor
  case path =>
    rw [empty]
    simp only [Option.isSome_none, Bool.false_eq_true, lt_self_iff_false]
  case live =>
    intro tag h
    cases h
  case usable =>
    intro a
    rw [left, same]
    simp only [ne_eq, reduceCtorEq, not_false_eq_true, decide_true, Bool.and_true]
  case remaining =>
    rw [usableTags, left, empty]
    exact count.trans empty
  case known =>
    rw [after, key_keepPending]
    exact key_of_handshakeKey agreed
  case mints => rw [if_pos (.inl rfl)]
  case batch => rfl
  case waits =>
    intro _
    rw [after, find?_keepPending, if_pos rfl]
    rfl
  case others =>
    intro id other
    rw [after, find?_keepPending, if_neg other, pending]
  case barrier => rw [after, barrier_keepPending_handshake, barrier, if_pos rfl]

end Settle

section Outcomes

variable {s : Sender} {es : List Event} {t : Sender} {moment : Moment} {d : Draw}
  {reply : Option ReplyTunnel} {explicit : Bool} {trackingId : UInt32} {cloves : List Clove}
  {result : Except SendFault Sealed}

/-- On a run every usable tag goes with the key of the session, so no tag is picked in vain. -/
theorem Traced.outcome (h : s.Traced es)
    (he : (s.run es).encrypt moment d reply explicit trackingId cloves = (result, t)) :
    (s.run es).Outcome moment d reply explicit trackingId cloves result t := by
  cases encrypt_cases h.sound he with
  | refused e reason => exact .stopped e reason
  | unspent tag usable path picked key =>
    obtain ⟨-, ⟨e, stored, -⟩, -⟩ := picked_expire h.sound picked
    obtain ⟨b, -, -, -, known⟩ := h.usable tag e stored
    rw [key_expire, known] at key
    cases key
  | spent acks payload tag key usable _ path asked written picked known after =>
    have commits := commits_spent h.sound path asked picked known after
    generalize ((s.run es).expire moment.instant).minted moment.instant d = tags at commits ⊢
    exact .settled acks (some tag) key ⟨tags, none, payload⟩ t asked written commits
  | opened acks payload key s₁ _ path asked written agreed after =>
    have refresh := (requestAcks_eq_ok asked).1
    have commits := commits_opened h.sound path agreed after
    rw [← mintsTags_of_handshake path] at asked
    rw [if_pos rfl] at refresh
    rw [← refresh] at commits
    exact .settled acks none key ⟨_, none, payload⟩ t asked written commits

theorem Refusal.ne {e : SendFault} (h : s.Refusal moment d reply explicit cloves e) :
    e ≠ .noUsableTag ∧ ∀ n, e ≠ .codec (.tooLarge .tagCount n) := by
  cases h with
  | unanswerable _ asked =>
    obtain ⟨-, -, rfl⟩ := requestAcks_eq_error_iff.mp asked
    exact ⟨nofun, nofun⟩
  | unwritable _ fault _ written =>
    rcases Garlic.encode_eq_error written with rfl | ⟨c, -, rfl⟩ <;> exact ⟨nofun, nofun⟩

theorem Outcome.ne_noUsableTag (h : s.Outcome moment d reply explicit trackingId cloves result t) :
    result ≠ .error .noUsableTag := by
  cases h with
  | stopped e reason => exact fun same => reason.ne.1 (Except.error.inj same)
  | settled =>
    intro failed
    obtain ⟨fault, -, codec⟩ := described_eq_error.mp failed
    cases codec

end Outcomes

section Failure

/-- Nothing that counts at a time has changed: the key, the handshake under way, the live tags, and
the batches that may still wait. -/
structure Untouched (s : Sender) (now : Nat) (t : Sender) : Prop where
  key : t.key = s.key
  barrier : t.barrier = s.barrier
  usable : ∀ tag, t.usable.contains tag now = s.usable.contains tag now
  pending : ∀ p, ¬ s.overdue p.2 now → (p ∈ t.pending.toList ↔ p ∈ s.pending.toList)

variable {s t : Sender} {now : Nat} {d : Draw}

theorem untouched_expire (sound : s.usable.Sound) (now : Nat) : s.Untouched now (s.expire now) := by
  refine ⟨rfl, rfl, contains_expire sound, fun p young => ?_⟩
  rw [mem_pending_expire]
  simp only [overdue, decide_eq_true_eq, not_lt] at young
  exact and_iff_left young

/-- A new batch is a trace. -/
theorem Commits.not_untouched {tag? : Option SessionTag} {key : SessionKey} {tags : List SessionTag}
    {refresh : Option UInt32} (h : s.Commits now d tag? key tags refresh t) (minted : refresh.isSome)
    (fresh : s.pending.find? d.refreshAck = none) : ¬ s.Untouched now t := by
  intro untouched
  have waits := Table.mem_of_find? (h.waits minted)
  have young : ¬ s.overdue ⟨tags, key, now, tag? = none⟩ now := by
    simp [overdue]
  exact Table.find?_eq_none_iff.mp fresh _ ((untouched.pending _ young).mp waits) rfl

/-- A failed encryption leaves no trace, unless there are more new tags than a message can hold. That
is found only after all is settled, so what was settled stays behind a message that was never made. -/
theorem trace_of_failure (remote : Identity) (remoteKey : ElGamal.PublicKey) (settings : Settings)
    (es : List Event) (moment : Moment) (d : Draw) (reply : Option ReplyTunnel) (explicit : Bool)
    (trackingId : UInt32) (cloves : List Clove) (e : SendFault) (t : Sender)
    (fresh : ((new remote remoteKey settings).run es).pending.find? d.refreshAck = none)
    (failed : ((new remote remoteKey settings).run es).encrypt moment d reply explicit trackingId
      cloves = (.error e, t)) :
    let s := (new remote remoteKey settings).run es
    (s.Untouched moment.instant t ↔ e ≠ .codec (.tooLarge .tagCount settings.refillBatch)) ∧
      (e = .codec (.tooLarge .tagCount settings.refillBatch) → 65535 < settings.refillBatch ∧
        ∃ tag? key, s.Commits moment.instant d tag? key (d.batch settings.refillBatch)
          (some d.refreshAck) t) := by
  intro s
  have traced := traced_run remote remoteKey settings es
  have same : s.settings = settings :=
    (frame_run (sound_new remote remoteKey settings) es).1.settings
  obtain ⟨result, hresult⟩ : ∃ result : Except SendFault Sealed, result = .error e := ⟨_, rfl⟩
  rw [← hresult] at failed
  cases traced.outcome failed with
  | stopped e' reason =>
    obtain rfl := Except.error.inj hresult
    have other := reason.ne.2 settings.refillBatch
    exact ⟨iff_of_true (untouched_expire traced.sound moment.instant) other, fun h => absurd h other⟩
  | settled acks tag? key block _ _ written commits =>
    obtain ⟨fault, missing, rfl⟩ := described_eq_error.mp hresult
    obtain ⟨fits, payload⟩ := Garlic.encode_eq_ok_iff.mp written
    obtain ⟨many, rfl⟩ := (wireOf_eq_error_iff (payload ▸ fits.length_octets_le)).mp missing
    have minted : acks.refresh.isSome := by
      by_contra none
      rw [commits.batch, if_neg none] at many
      cases many
    have tags : block.tags = d.batch settings.refillBatch := by
      rw [commits.batch, if_pos minted, same]
    have length : block.tags.length = settings.refillBatch := by
      rw [tags, Draw.length_batch]
    rw [length] at many ⊢
    refine ⟨iff_of_false (commits.not_untouched minted fresh) (not_not_intro rfl), fun _ => ⟨many, ?_⟩⟩
    rw [tags, commits.refresh_eq minted] at commits
    exact ⟨tag?, key, commits⟩

/-- A handshake and the acknowledgment of its tags. -/
def tagsAtHand : List Event := oneHandshake ++ [.acknowledge 1]

theorem trace_of_failure_noTunnel :
    let s := (new ⟨.ofNat 32 9⟩ ⟨.ofNat 256 2⟩ {}).run tagsAtHand
    let made := s.encrypt ⟨5, 0⟩ (.numbered 1) none true 8 []
    s.usableTags 5 = 15 ∧ s.pending.find? (Draw.numbered 1).refreshAck = none ∧
      made.1 = .error .noReplyTunnel ∧ s.Untouched 5 made.2 := by
  intro s made
  obtain ⟨tags, fresh, failed⟩ : s.usableTags 5 = 15 ∧
      s.pending.find? (Draw.numbered 1).refreshAck = none ∧ made.1 = .error .noReplyTunnel := by
    decide +kernel
  have whole : made = (made.1, made.2) := Prod.mk.eta.symm
  rw [failed] at whole
  obtain ⟨untouched, -⟩ := trace_of_failure ⟨.ofNat 32 9⟩ ⟨.ofNat 256 2⟩ {}
    tagsAtHand ⟨5, 0⟩ (.numbered 1) none true 8 [] .noReplyTunnel made.2 fresh whole
  exact ⟨tags, fresh, failed, untouched.mpr nofun⟩

/-- Settings with a batch of 65536 tags are valid. With them the very first encryption fails, and yet
a handshake is under way afterwards, under a new key, and the batch waits. -/
theorem oversize_batch_waits :
    let settings : Settings := { refillBatch := 65536 }
    let s := (new ⟨.ofNat 32 9⟩ ⟨.ofNat 256 2⟩ settings).run []
    let made := s.encrypt ⟨0, 0⟩ (.numbered 0) (some ⟨⟨.ofNat 32 9⟩, ⟨4⟩⟩) false 1 []
    settings.validate = .ok () ∧ made.1 = .error (.codec (.tooLarge .tagCount 65536)) ∧
      ¬ s.Untouched 0 made.2 ∧ s.key = none ∧ made.2.key.isSome ∧ s.barrier = none ∧
      made.2.barrier = some ⟨1, 0⟩ ∧ s.pending.find? 1 = none ∧
      ∃ b, made.2.pending.find? 1 = some b ∧ b.tags.length = 65536 := by
  intro settings s made
  let acks : AckRequest :=
    (s.expire 0).ackRequest 0 (.numbered 0) ⟨⟨.ofNat 32 9⟩, ⟨4⟩⟩ true false
  have mint : (s.expire 0).mintsTags 0 = true := by decide +kernel
  have writable : (Garlic.encode ⟨[] ++ acks.cloves, (Draw.numbered 0).garlicId,
      defaultExpiration 0⟩).isOk := by decide +kernel
  have whole : made = (made.1, made.2) := Prod.mk.eta.symm
  generalize made.1 = result, made.2 = t at whole ⊢
  cases (traced_run ⟨.ofNat 32 9⟩ ⟨.ofNat 256 2⟩ settings []).outcome whole with
  | stopped e reason =>
    exfalso
    cases reason with
    | unanswerable _ asked =>
      obtain ⟨-, none, -⟩ := requestAcks_eq_error_iff.mp asked
      cases none
    | unwritable acks' fault asked written =>
      rw [mint] at asked
      obtain rfl : acks = acks' := Except.ok.inj asked
      rw [written] at writable
      cases writable
  | settled acks' tag? key block t asked written commits =>
    have none : tag? = none := by
      rw [← Option.not_isSome_iff_eq_none, commits.path]
      decide +kernel
    have refresh : acks'.refresh = some 1 := by
      rw [commits.mints, if_pos (.inl none)]
      rfl
    have length : block.tags.length = 65536 := by
      rw [commits.batch, refresh, Option.isSome_some, if_pos rfl, Draw.length_batch]
      rfl
    have waits := commits.waits (by rw [refresh]; rfl)
    obtain ⟨fits, payload⟩ := Garlic.encode_eq_ok_iff.mp written
    have missing : wireOf s.remoteKey tag? key block (.numbered 0) =
        .error (.tooLarge .tagCount block.tags.length) :=
      (wireOf_eq_error_iff (payload ▸ fits.length_octets_le)).mpr ⟨by rw [length]; decide, rfl⟩
    refine ⟨rfl, ?_, commits.not_untouched (by rw [refresh]; rfl) rfl, rfl, ?_, rfl, ?_, rfl, _, waits,
      length⟩
    · rw [missing, length]
      rfl
    · rw [commits.known]
      rfl
    · rw [commits.barrier, if_pos none]
      rfl

end Failure

section Success

/-- A message, what was settled with it, and what it tells of that all follow one decision: with live
tags it spends one of them, and new tags go with a handshake or when few are left. -/
structure Agrees (s : Sender) (now : Nat) (d : Draw) (explicit : Bool) (cloves : List Clove)
    (tag? : Option SessionTag) (key : SessionKey) (block : TagBlock) (m : Sealed) (t : Sender) :
    Prop where
  commits : s.Commits now d tag? key block.tags m.refreshAckId t
  path : m.path = .tag ↔ 0 < s.usableTags now
  spends : m.path = .tag ↔ tag?.isSome
  remaining : m.tagsRemaining = t.usableTags now
  refreshes : m.refreshAckId.isSome ↔ m.path = .handshake ∨ m.tagsRemaining ≤ s.settings.lowWatermark
  acknowledges : m.ackId.isSome ↔ explicit ∨ m.refreshAckId.isSome
  wire : wireOf s.remoteKey tag? key block d = .ok m.wire
  opens : blockOf tag? key d m.wire = .ok block
  asks : ∃ g asking, Garlic.encode g = .ok block.payload ∧ g.cloves = cloves ++ asking ∧
    asking.map Clove.statusId? =
      (m.refreshAckId.toList ++ if m.ackId = m.refreshAckId then [] else m.ackId.toList).map some

theorem Outcome.agrees {s t : Sender} {moment : Moment} {d : Draw} {reply : Option ReplyTunnel}
    {explicit : Bool} {trackingId : UInt32} {cloves : List Clove} {m : Sealed}
    (h : s.Outcome moment d reply explicit trackingId cloves (.ok m) t)
    (other : d.refreshAck ≠ d.explicitAck) :
    ∃ tag? key block, s.Agrees moment.instant d explicit cloves tag? key block m t := by
  obtain ⟨result, hresult⟩ : ∃ result : Except SendFault Sealed, result = .ok m := ⟨_, rfl⟩
  rw [← hresult] at h
  cases h with
  | stopped => cases hresult
  | settled acks tag? key block _ asked written commits =>
    obtain ⟨wire, hwire, rfl⟩ := described_eq_ok.mp hresult
    have spends : (tag?.elim Path.handshake fun _ => .tag) = .tag ↔ tag?.isSome := by
      cases tag? <;> simp
    have begins : (tag?.elim Path.handshake fun _ => .tag) = .handshake ↔ tag? = none := by
      cases tag? <;> simp
    have minted : acks.refresh.isSome ↔ (s.expire moment.instant).mintsTags moment.instant := by
      rw [(requestAcks_eq_ok asked).1]
      split_ifs with mint <;> simp only [mint, Option.isSome_some, Option.isSome_none, Bool.false_eq_true]
    refine ⟨tag?, key, block, ?_⟩
    constructor
    case commits => exact commits
    case path => exact spends.trans commits.path
    case spends => exact spends
    case remaining => rfl
    case refreshes => exact commits.isSome_refresh.trans (or_congr_left begins.symm)
    case acknowledges => exact (isSome_ack_iff asked).trans (or_congr_right minted.symm)
    case wire => exact hwire
    case opens => exact blockOf_wireOf hwire
    case asks => exact ⟨_, acks.cloves, written, rfl, statusIds_requestAcks other asked⟩

/-- The path that is decided on agrees with what is settled: no encryption fails for want of a tag,
and a message that comes out spends a tag exactly when one was live, tells the number of those that are
left, and has the tags in it wait under the id that it tells, with the key of its block. -/
theorem decision_agrees (remote : Identity) (remoteKey : ElGamal.PublicKey) (settings : Settings)
    (es : List Event) (moment : Moment) (d : Draw) (reply : Option ReplyTunnel) (explicit : Bool)
    (trackingId : UInt32) (cloves : List Clove) (other : d.refreshAck ≠ d.explicitAck) :
    let s := (new remote remoteKey settings).run es
    let made := s.encrypt moment d reply explicit trackingId cloves
    made.1 ≠ .error .noUsableTag ∧ ∀ m, made.1 = .ok m →
      ∃ tag? key block, s.Agrees moment.instant d explicit cloves tag? key block m made.2 := by
  intro s made
  have outcome : s.Outcome moment d reply explicit trackingId cloves made.1 made.2 :=
    (traced_run remote remoteKey settings es).outcome Prod.mk.eta.symm
  refine ⟨fun failed => ?_, fun m sent => ?_⟩
  · rw [failed] at outcome
    exact outcome.ne_noUsableTag rfl
  · rw [sent] at outcome
    exact outcome.agrees other

/-- One of fifteen tags is spent. That leaves few enough for new ones, and the message has an id of
its own beside theirs. -/
theorem decision_agrees_refresh :
    let s := (new ⟨.ofNat 32 9⟩ ⟨.ofNat 256 2⟩ { lowWatermark := 14 }).run tagsAtHand
    let d := Draw.numbered 1
    let made := s.encrypt ⟨5, 0⟩ d (some ⟨⟨.ofNat 32 9⟩, ⟨4⟩⟩) true 8 []
    d.refreshAck ≠ d.explicitAck ∧ ∃ m tag? key block, made.1 = .ok m ∧ tag?.isSome ∧
      m.tagsRemaining = 14 ∧ m.refreshAckId = some 3 ∧ m.ackId = some 4 ∧
      s.Agrees 5 d true [] tag? key block m made.2 := by
  intro s d made
  have other : d.refreshAck ≠ d.explicitAck := by decide
  have told : made.1.toOption.any fun m =>
      m.tagsRemaining = 14 && m.refreshAckId = some 3 && m.ackId = some 4 && m.path = .tag := by
    decide +kernel
  obtain ⟨m, sent, remaining, refresh, ack, path⟩ : ∃ m, made.1 = .ok m ∧ m.tagsRemaining = 14 ∧
      m.refreshAckId = some 3 ∧ m.ackId = some 4 ∧ m.path = .tag := by
    cases sent : made.1 with
    | error e => rw [sent] at told; cases told
    | ok m =>
      rw [sent] at told
      exact ⟨m, rfl, by simpa [Except.toOption, and_assoc] using told⟩
  obtain ⟨-, agreed⟩ := decision_agrees ⟨.ofNat 32 9⟩ ⟨.ofNat 256 2⟩ { lowWatermark := 14 } tagsAtHand
    ⟨5, 0⟩ d (some ⟨⟨.ofNat 32 9⟩, ⟨4⟩⟩) true 8 [] other
  obtain ⟨tag?, key, block, agrees⟩ := agreed m sent
  exact ⟨other, m, tag?, key, block, sent, agrees.spends.mp path, remaining, refresh, ack, agrees⟩

end Success

end GarlicRouting.Sender
