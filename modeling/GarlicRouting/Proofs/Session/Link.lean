import GarlicRouting.Proofs.Session.Sealed
import Mathlib

/-! A sender and the receiver it writes to, with a channel between them that may lose, repeat and
reorder messages: both halves agree on the key of every tag. -/
namespace GarlicRouting

structure Link where
  sender : Sender
  receiver : Receiver
  /-- Every message made so far. -/
  sent : List Letter := []
  /-- Acknowledgment ids for the tags of messages that the receiver could read. -/
  accepted : List UInt32 := []
  /-- The tags of each delivery that were in the receiver's pool right after it, with their keys. -/
  harvested : List (SessionTag × SessionKey) := []

namespace Link

def new (remote : Identity) (keys : ElGamal.KeyPair) (sending receiving : Settings) : Link where
  sender := .new remote keys.publicKey sending
  receiver := .new keys.privateKey receiving

/-- A step of either half. The channel is in the choice of the messages that are delivered. -/
inductive Event where
  | send (moment : Moment) (draw : Draw) (reply : Option ReplyTunnel) (explicit : Bool)
    (trackingId : UInt32) (cloves : List Clove)
  /-- One of the messages made so far arrives. -/
  | deliver (index now : Nat)
  | acknowledge (ackId : UInt32)
  | resetIfStuck (now timeout : Nat)
  | reset
  /-- The receiver forgets its tags. -/
  | clear

namespace Event

def draw? : Event → Option Draw
  | send _ d .. => some d
  | _ => none

def draws (es : List Event) : List Draw := es.filterMap draw?

@[simp] theorem draws_append (es fs : List Event) : draws (es ++ fs) = draws es ++ draws fs :=
  List.filterMap_append

end Event

variable {ℓ : Link}

def send (ℓ : Link) (moment : Moment) (d : Draw) (reply : Option ReplyTunnel) (explicit : Bool)
    (trackingId : UInt32) (cloves : List Clove) : Link :=
  match ℓ.sender.encrypt moment d reply explicit trackingId cloves with
  | (.error _, t) => { ℓ with sender := t }
  | (.ok m, t) =>
    { ℓ with sender := t, sent := ℓ.sent ++ [.ofMessage t m moment d reply cloves] }

def deliver (ℓ : Link) (now : Nat) (L : Letter) : Link :=
  let result := ℓ.receiver.decrypt now L.message.wire
  { ℓ with
    receiver := result.2
    accepted := (if result.1.isSome then L.message.refreshAckId.toList else []) ++ ℓ.accepted
    harvested := (ℓ.receiver.carried now L.message.wire).filterMap
      (fun t => (result.2.tags.stored? t).map (t, ·.value)) ++ ℓ.harvested }

def acknowledge (ℓ : Link) (ackId : UInt32) : Link :=
  { ℓ with sender := (ℓ.sender.acknowledge ackId).2 }

/-- Only what the receiver has accepted is ever acknowledged. -/
def after (ℓ : Link) : Event → Link
  | .send moment d reply explicit trackingId cloves =>
    ℓ.send moment d reply explicit trackingId cloves
  | .deliver index now => (ℓ.sent[index]?).elim ℓ (ℓ.deliver now)
  | .acknowledge ackId =>
    if ackId ∈ ℓ.accepted then ℓ.acknowledge ackId else ℓ
  | .resetIfStuck now timeout => { ℓ with sender := (ℓ.sender.resetIfStuck now timeout).2 }
  | .reset => { ℓ with sender := ℓ.sender.reset }
  | .clear => { ℓ with receiver := ℓ.receiver.clear }

def run (ℓ : Link) (es : List Event) : Link := es.foldl after ℓ

theorem run_concat (es : List Event) (e : Event) : ℓ.run (es ++ [e]) = (ℓ.run es).after e :=
  List.foldl_append

/-- No tag and no acknowledgment id is drawn twice. -/
structure Fresh (n : Nat) (ds : List Draw) : Prop where
  tags : (ds.flatMap fun d => d.batch n).Nodup
  ids : (ds.flatMap fun d => [d.refreshAck, d.explicitAck]).Nodup

instance (n : Nat) : DecidablePred (Fresh n) := fun _ =>
  decidable_of_iff (_ ∧ _) ⟨fun h => ⟨h.1, h.2⟩, fun h => ⟨h.tags, h.ids⟩⟩

namespace Fresh

variable {n : Nat} {ds : List Draw} {d : Draw}

theorem of_append {es : List Draw} (h : Fresh n (ds ++ es)) : Fresh n ds where
  tags := (List.nodup_append.mp (List.flatMap_append ▸ h.tags)).1
  ids := (List.nodup_append.mp (List.flatMap_append ▸ h.ids)).1

theorem other (h : Fresh n (ds ++ [d])) : d.refreshAck ≠ d.explicitAck := by
  have ids := h.ids
  simp only [List.flatMap_append, List.flatMap_cons, List.flatMap_nil, List.append_nil] at ids
  have own := (List.nodup_append.mp ids).2.1
  intro same
  simp [same] at own

theorem tag_notMem (h : Fresh n (ds ++ [d])) {e : Draw} (he : e ∈ ds) {t : SessionTag}
    (ht : t ∈ e.batch n) : t ∉ d.batch n := by
  have tags := h.tags
  rw [List.flatMap_append, List.flatMap_singleton] at tags
  intro new
  exact (List.nodup_append.mp tags).2.2 t (List.mem_flatMap.mpr ⟨e, he, ht⟩) t new rfl

theorem refreshAck_notMem (h : Fresh n (ds ++ [d])) : d.refreshAck ∉ ds.map Draw.refreshAck := by
  have ids := h.ids
  simp only [List.flatMap_append, List.flatMap_cons, List.flatMap_nil, List.append_nil] at ids
  intro old
  obtain ⟨e, he, same⟩ := List.mem_map.mp old
  exact (List.nodup_append.mp ids).2.2 _ (List.mem_flatMap.mpr ⟨e, he, List.mem_cons_self⟩) _
    List.mem_cons_self same

end Fresh

/-- No message with a minted tag at the front can be taken for a handshake. -/
def Distinguishable (k : ElGamal.PrivateKey) (sent : List Letter) : Prop :=
  ∀ L ∈ sent, ∀ M ∈ sent, ∀ t ∈ M.tags, t.Begins L.message.wire →
    ∀ data, ElGamal.decrypt k L.message.wire ≠ .ok data

theorem Distinguishable.mono {k : ElGamal.PrivateKey} {sent more : List Letter}
    (h : Distinguishable k more) (sub : sent ⊆ more) : Distinguishable k sent :=
  fun L hL M hM => h L (sub hL) M (sub hM)

/-- It is so when no tag begins with the zero of a handshake, and other messages are too short for
one. -/
theorem distinguishable_of_heads {k : ElGamal.PrivateKey} {sent : List Letter}
    (tags : ∀ M ∈ sent, ∀ t ∈ M.tags, t.octets.toList.head? ≠ some 0)
    (wires : ∀ L ∈ sent, L.message.wire.head? = some 0 ∨ L.message.wire.length < 514) :
    Distinguishable k sent := by
  intro L hL M hM t ht begins data opened
  rcases wires L hL with zero | short
  · apply tags M hM t ht
    rw [← begins, List.head?_take, if_neg (by decide), zero]
  · rw [ElGamal.decrypt, if_pos short] at opened
    cases opened

/-- Letters with what goes into them, and the draws that their tags and ids are from. -/
structure Kept (x n : Nat) (ds : List Draw) (sent : List Letter) : Prop where
  /-- A tag at the front was minted with a letter of the same key. -/
  written : ∀ L ∈ sent, ∃ tag? key,
    L.Written (ElGamal.KeyPair.ofExponent x).publicKey tag? key ∧
      ∀ t, tag? = some t → ∃ M ∈ sent, t ∈ M.tags ∧ M.key = some key
  minted : (sent.flatMap Letter.tags).Sublist (ds.flatMap fun d => d.batch n)
  ids : ∀ L ∈ sent, ∀ ackId, L.message.refreshAckId = some ackId → ackId ∈ ds.map Draw.refreshAck

/-- The two halves agree: each tag that either knows goes with the key of the letter it came with. -/
structure Agrees (x n : Nat) (ds : List Draw) (ℓ : Link) : Prop where
  soundUsable : ℓ.sender.usable.Sound
  soundTags : ℓ.receiver.tags.Sound
  publicKey : ℓ.sender.remoteKey = (ElGamal.KeyPair.ofExponent x).publicKey
  privateKey : ℓ.receiver.privateKey = (ElGamal.KeyPair.ofExponent x).privateKey
  batch : ℓ.sender.settings.refillBatch = n
  kept : Kept x n ds ℓ.sent
  pendingIds : ∀ p ∈ ℓ.sender.pending.toList, p.1 ∈ ds.map Draw.refreshAck
  pending : ∀ p ∈ ℓ.sender.pending.toList, ∀ L ∈ ℓ.sent, L.message.refreshAckId = some p.1 →
    p.2.tags = L.tags ∧ L.key = some p.2.key
  usable : ∀ t e, ℓ.sender.usable.stored? t = some e → ∃ L ∈ ℓ.sent, t ∈ L.tags ∧
    ℓ.sender.key = L.key ∧ ∃ key, L.key = some key ∧ (t, key) ∈ ℓ.harvested
  known : ∀ t e, ℓ.receiver.tags.stored? t = some e →
    ∃ L ∈ ℓ.sent, t ∈ L.tags ∧ L.key = some e.value
  accepted : ∀ ackId ∈ ℓ.accepted, ∃ L ∈ ℓ.sent, L.message.refreshAckId = some ackId ∧
    ∃ key, L.key = some key ∧ ∀ t ∈ L.tags, (t, key) ∈ ℓ.harvested

theorem eq_of_mem_flatMap {α β : Type} {l : List α} {f : α → List β} (h : (l.flatMap f).Nodup)
    {a b : α} (ha : a ∈ l) (hb : b ∈ l) {y : β} (hya : y ∈ f a) (hyb : y ∈ f b) : a = b := by
  by_contra other
  have symm : Std.Symm (Function.onFun List.Disjoint f) := ⟨fun _ _ h => h.symm⟩
  exact (List.nodup_flatMap.mp h).2.forall ha hb other hya hyb

theorem Kept.eq_of_mem {x n : Nat} {ds : List Draw} {sent : List Letter} (h : Kept x n ds sent)
    (fresh : Fresh n ds) {L M : Letter} (hL : L ∈ sent) (hM : M ∈ sent) {t : SessionTag}
    (htL : t ∈ L.tags) (htM : t ∈ M.tags) : L = M :=
  eq_of_mem_flatMap (fresh.tags.sublist h.minted) hL hM htL htM

/-- A handshake, or a message whose tag the receiver knows. -/
def Readable (ℓ : Link) (now : Nat) (L : Letter) : Prop :=
  L.message.path = .handshake ∨
    ∃ t : SessionTag, t.Begins L.message.wire ∧ ℓ.receiver.tags.contains t now

section Open

variable {x n : Nat} {ds : List Draw} {L : Letter} {now : Nat}

theorem Distinguishable.opened?_eq_none {k : ElGamal.PrivateKey} {sent : List Letter}
    (h : Distinguishable k sent) (hL : L ∈ sent) {M : Letter} (hM : M ∈ sent) {t : SessionTag}
    (ht : t ∈ M.tags) (begins : t.Begins L.message.wire) :
    Receiver.opened? k L.message.wire = none := by
  unfold Receiver.opened?
  cases hd : ElGamal.decrypt k L.message.wire with
  | error e => rfl
  | ok data => exact absurd hd (h L hL M hM t ht begins data)

variable (h : Agrees x n ds ℓ) (hx : x < ElGamal.prime - 1) (fresh : Fresh n ds)
  (clear : Distinguishable (ElGamal.KeyPair.ofExponent x).privateKey ℓ.sent) (hL : L ∈ ℓ.sent)
include h hx fresh clear hL

/-- A letter can be opened when it is readable, and otherwise nothing comes of it. -/
theorem Agrees.block? (now : Nat) :
    ∃ tag? key, L.Written (ElGamal.KeyPair.ofExponent x).publicKey tag? key ∧
      (ℓ.Readable now L →
        ℓ.receiver.block? now L.message.wire = some (L.block, key)) ∧
      (¬ ℓ.Readable now L → ℓ.receiver.block? now L.message.wire = none) := by
  obtain ⟨tag?, key, w, front⟩ := h.kept.written L hL
  refine ⟨tag?, key, w, ?_⟩
  have path := w.path
  have wire := w.wire
  have taken (t : SessionTag) (k : SessionKey) :
      ℓ.receiver.spent? now L.message.wire = some (t, k) ↔ t.Begins L.message.wire ∧
        ∃ e, ℓ.receiver.tags.stored? t = some e ∧ ℓ.receiver.tags.isLive now e ∧ e.value = k :=
    Receiver.spent?_eq_some_iff h.soundTags
  cases tag? with
  | none =>
    refine ⟨fun _ => w.block? hx h.privateKey ?_, fun neither => absurd (.inl path) neither⟩
    -- a known tag at the front would be a minted one
    rw [Option.map_none, Option.eq_none_iff_forall_ne_some]
    rintro ⟨t, k⟩ spent
    obtain ⟨begins, e, he, -, -⟩ := (taken t k).mp spent
    obtain ⟨M, hM, ht, -⟩ := h.known t e he
    have none := clear.opened?_eq_none hL hM ht begins
    rw [opened?_handshakeWire hx wire] at none
    cases none
  | some t =>
    obtain ⟨M, hM, htM, hkey⟩ := front t rfl
    have begins : t.Begins L.message.wire := (begins_tagWire wire).1
    constructor
    · intro hh
      rcases hh with handshake | ⟨u, hu, live⟩
      · rw [path] at handshake
        cases handshake
      · obtain rfl := hu.eq begins
        obtain ⟨e, he, live⟩ := Pool.contains_iff.mp live
        obtain ⟨N, hN, htN, hvalue⟩ := h.known u e he
        rw [h.kept.eq_of_mem fresh hN hM htN htM, hkey, Option.some.injEq] at hvalue
        exact w.block? hx h.privateKey ((taken u key).mpr ⟨begins, e, he, live, hvalue.symm⟩)
    · intro neither
      have unspent : ℓ.receiver.spent? now L.message.wire = none := by
        rw [Option.eq_none_iff_forall_ne_some]
        rintro ⟨u, k⟩ spent
        obtain ⟨hu, e, he, live, -⟩ := (taken u k).mp spent
        exact neither (.inr ⟨u, hu, Pool.contains_iff.mpr ⟨e, he, live⟩⟩)
      rw [Receiver.block?, unspent, h.privateKey]
      exact clear.opened?_eq_none hL hM htM begins

theorem Agrees.carried (now : Nat) :
    (ℓ.Readable now L → ℓ.receiver.carried now L.message.wire = L.tags) ∧
    (¬ ℓ.Readable now L → ℓ.receiver.carried now L.message.wire = []) := by
  obtain ⟨tag?, key, -, readable, unreadable⟩ := h.block? hx fresh clear hL now
  unfold Receiver.carried
  constructor
  · intro hr
    rw [readable hr]
    rfl
  · intro hr
    rw [unreadable hr]
    rfl

/-- The tags of a readable letter are in the pool after it, under the key of the letter. -/
theorem Agrees.stores (now : Nat) (hr : ℓ.Readable now L) : ∃ key, L.key = some key ∧
    ∀ t ∈ L.tags, (ℓ.receiver.decrypt now L.message.wire).2.tags.stored? t = some ⟨t, key, now⟩ := by
  obtain ⟨tag?, key, w, readable, -⟩ := h.block? hx fresh clear hL now
  refine ⟨key, w.kept, fun t ht => ?_⟩
  have brought : t ∈ ℓ.receiver.carried now L.message.wire := by
    rwa [(h.carried hx fresh clear hL now).1 hr]
  obtain ⟨b, found, -, entry⟩ := Receiver.stored?_of_carried h.soundTags brought
  rw [readable hr, Option.some.injEq] at found
  rw [entry, ← found]
  rfl

/-- The receiver gets the whole content of a readable letter, and nothing from another one. -/
theorem Agrees.decrypt (proper : ∀ c ∈ L.cloves, c.message.payload.Proper) (now : Nat) :
    (ℓ.Readable now L → (ℓ.receiver.decrypt now L.message.wire).1 = some L.garlic) ∧
    (¬ ℓ.Readable now L → (ℓ.receiver.decrypt now L.message.wire).1 = none) := by
  obtain ⟨tag?, key, w, readable, unreadable⟩ := h.block? hx fresh clear hL now
  refine ⟨fun hr => w.decrypt proper (readable hr), fun hr => ?_⟩
  rw [Receiver.decrypt_fst, unreadable hr, Option.bind_none]

theorem Agrees.readable (got : (ℓ.receiver.decrypt now L.message.wire).1.isSome) :
    ℓ.Readable now L := by
  obtain ⟨tag?, key, -, -, unreadable⟩ := h.block? hx fresh clear hL now
  by_contra hr
  rw [Receiver.decrypt_fst, unreadable hr] at got
  cases got

/-- A delivery comes to something exactly when the letter is readable. -/
theorem Agrees.isSome_iff (proper : ∀ c ∈ L.cloves, c.message.payload.Proper) (now : Nat) :
    (ℓ.receiver.decrypt now L.message.wire).1.isSome ↔ ℓ.Readable now L := by
  refine ⟨h.readable hx fresh clear hL, fun hr => ?_⟩
  rw [(h.decrypt hx fresh clear hL proper now).1 hr]
  rfl

end Open

section Steps

variable {x n : Nat} {ds : List Draw}

theorem Agrees.new (x : Nat) (remote : Identity) (sending receiving : Settings) :
    Agrees x sending.refillBatch [] (.new remote (.ofExponent x) sending receiving) where
  soundUsable := Sender.sound_new _ _ _
  soundTags := Pool.sound_of_empty rfl rfl
  publicKey := rfl
  privateKey := rfl
  batch := rfl
  kept := ⟨fun _ hL => (by cases hL), List.Sublist.refl _, fun _ hL => (by cases hL)⟩
  pendingIds _ hp := by cases hp
  pending _ hp := by cases hp
  usable _ _ he := by cases he
  known _ _ he := by cases he
  accepted _ hid := by cases hid

theorem Kept.mono {sent : List Letter} (h : Kept x n ds sent) (es : List Draw) :
    Kept x n (ds ++ es) sent where
  written := h.written
  minted := by
    rw [List.flatMap_append]
    exact h.minted.trans (List.sublist_append_left _ _)
  ids L hL ackId hid := by
    rw [List.map_append]
    exact List.mem_append_left _ (h.ids L hL ackId hid)

section Send

variable {moment : Moment} {d : Draw} {reply : Option ReplyTunnel} {explicit : Bool}
  {trackingId : UInt32} {cloves : List Clove}

/-- Whatever an encryption comes to, nothing is known to the sender that was not before but the new
batch. -/
theorem Agrees.encrypt (h : Agrees x n ds ℓ) (fresh : Fresh n (ds ++ [d])) {t : Sender}
    {result : Except SendFault Sealed}
    (he : ℓ.sender.encrypt moment d reply explicit trackingId cloves = (result, t)) :
    Agrees x n (ds ++ [d]) { ℓ with sender := t } := by
  have frame := Sender.frame_encrypt h.soundUsable he
  refine { h with
    soundUsable := Sender.sound_encrypt h.soundUsable he
    publicKey := frame.remoteKey.trans h.publicKey
    batch := by
      show t.settings.refillBatch = n
      rw [frame.settings, h.batch]
    kept := h.kept.mono [d]
    pendingIds := fun p hp => ?_
    pending := fun p hp L hL hid => ?_
    usable := fun u e hu => ?_ }
  · rw [List.map_append]
    rcases Sender.pending_encrypt h.soundUsable he hp with hp | ⟨hid, -⟩
    · exact List.mem_append_left _ (h.pendingIds p hp)
    · exact List.mem_append_right _ (by simp [hid])
  · rcases Sender.pending_encrypt h.soundUsable he hp with hp | ⟨hnew, -⟩
    · exact h.pending p hp L hL hid
    · -- no letter has asked with an id that is drawn only now
      rw [hnew] at hid
      exact absurd (h.kept.ids L hL _ hid) fresh.refreshAck_notMem
  · obtain ⟨old, key⟩ := Sender.usable_encrypt h.soundUsable he hu
    obtain ⟨L, hL, ht, hkey, harvested⟩ := h.usable u e old
    exact ⟨L, hL, ht, key.trans hkey, harvested⟩

/-- A new letter comes with tags of the new draw, and goes with a tag of a letter before it. -/
theorem Agrees.kept_send (h : Agrees x n ds ℓ) (fresh : Fresh n (ds ++ [d])) {m : Sealed} {t : Sender}
    (he : ℓ.sender.encrypt moment d reply explicit trackingId cloves = (.ok m, t)) :
    Kept x n (ds ++ [d]) (ℓ.sent ++ [.ofMessage t m moment d reply cloves]) := by
  have agrees := h.encrypt fresh he
  obtain ⟨-, tag?, key, w, front⟩ := Letter.written_of_encrypt h.soundUsable fresh.other he
  rw [h.publicKey] at w
  refine ⟨fun L hL => ?_, ?_, fun L hL ackId hid => ?_⟩
  · rcases List.mem_append.mp hL with hL | hL
    · obtain ⟨tag?, key, w, front⟩ := h.kept.written L hL
      refine ⟨tag?, key, w, fun t ht => ?_⟩
      obtain ⟨M, hM, minted⟩ := front t ht
      exact ⟨M, List.mem_append_left _ hM, minted⟩
    · obtain rfl := List.mem_singleton.mp hL
      refine ⟨tag?, key, w, fun t ht => ?_⟩
      obtain ⟨known, e, he, -⟩ := front t ht
      obtain ⟨M, hM, htM, hkey, -⟩ := h.usable t e he
      exact ⟨M, List.mem_append_left _ hM, htM, hkey.symm.trans known⟩
  · rw [List.flatMap_append, List.flatMap_append, List.flatMap_singleton, List.flatMap_singleton]
    refine h.kept.minted.append ?_
    rw [Letter.ofMessage, agrees.batch]
    split_ifs
    · exact List.Sublist.refl _
    · exact List.nil_sublist _
  · rcases List.mem_append.mp hL with hL | hL
    · exact agrees.kept.ids L hL ackId hid
    · obtain rfl := List.mem_singleton.mp hL
      rw [List.map_append, Letter.refreshAck_of_encrypt h.soundUsable fresh.other he hid]
      exact List.mem_append_right _ List.mem_cons_self

theorem Agrees.send (h : Agrees x n ds ℓ) (fresh : Fresh n (ds ++ [d])) :
    Agrees x n (ds ++ [d]) (ℓ.send moment d reply explicit trackingId cloves) := by
  unfold Link.send
  cases he : ℓ.sender.encrypt moment d reply explicit trackingId cloves with
  | mk result t =>
    have agrees := h.encrypt fresh he
    cases result with
    | error e => exact agrees
    | ok m =>
      have old : ℓ.sent ⊆ ℓ.sent ++ [.ofMessage t m moment d reply cloves] :=
        List.subset_append_left _ _
      refine { agrees with
        kept := h.kept_send fresh he
        pending := fun p hp L hL hid => ?_
        usable := fun u e hu => ?_
        known := fun u e hu => ?_
        accepted := fun ackId hid => ?_ }
      · rcases List.mem_append.mp hL with hL | hL
        · exact agrees.pending p hp L hL hid
        · obtain rfl := List.mem_singleton.mp hL
          rcases Sender.pending_encrypt h.soundUsable he hp with hp | ⟨-, tags, -, hkey⟩
          · have drawn := h.pendingIds p hp
            rw [Letter.refreshAck_of_encrypt h.soundUsable fresh.other he hid] at drawn
            exact absurd drawn fresh.refreshAck_notMem
          · have minted : m.refreshAckId.isSome := Option.isSome_of_eq_some hid
            refine ⟨?_, hkey⟩
            rw [tags, h.batch, Letter.ofMessage, if_pos minted, agrees.batch]
      · obtain ⟨L, hL, ht⟩ := agrees.usable u e hu
        exact ⟨L, old hL, ht⟩
      · obtain ⟨L, hL, ht⟩ := agrees.known u e hu
        exact ⟨L, old hL, ht⟩
      · obtain ⟨L, hL, hL'⟩ := agrees.accepted ackId hid
        exact ⟨L, old hL, hL'⟩

end Send

theorem Agrees.deliver (h : Agrees x n ds ℓ) (hx : x < ElGamal.prime - 1) (fresh : Fresh n ds)
    (clear : Distinguishable (ElGamal.KeyPair.ofExponent x).privateKey ℓ.sent) {L : Letter}
    (hL : L ∈ ℓ.sent) (now : Nat) : Agrees x n ds (ℓ.deliver now L) := by
  obtain ⟨tag?, key, w, readable, unreadable⟩ := h.block? hx fresh clear hL now
  -- the block that comes out, if any, is the one that went in
  have block {b : TagBlock × SessionKey} (hb : ℓ.receiver.block? now L.message.wire = some b) :
      b = (L.block, key) := by
    by_cases hr : ℓ.Readable now L
    · rw [readable hr, Option.some.injEq] at hb
      exact hb.symm
    · rw [unreadable hr] at hb
      cases hb
  refine { h with
    soundTags := Receiver.sound_decrypt h.soundTags now _
    privateKey := (Receiver.privateKey_decrypt now _).trans h.privateKey
    usable := fun t e he => ?_
    known := fun t e he => ?_
    accepted := fun ackId hid => ?_ }
  · obtain ⟨M, hM, ht, same, k, hkey, harvested⟩ := h.usable t e he
    exact ⟨M, hM, ht, same, k, hkey, List.mem_append_right _ harvested⟩
  · replace he : (ℓ.receiver.decrypt now L.message.wire).2.tags.stored? t = some e := he
    by_cases brought : t ∈ ℓ.receiver.carried now L.message.wire
    · obtain ⟨b, found, carried, entry⟩ := Receiver.stored?_of_carried h.soundTags brought
      obtain rfl := block found
      rw [entry] at he
      cases he
      exact ⟨L, hL, carried, w.kept⟩
    · rw [Receiver.stored?_of_not_carried h.soundTags brought] at he
      split_ifs at he
      exact h.known t e (Option.filter_eq_some_iff.mp he).1
  · rcases List.mem_append.mp hid with hid | hid
    · split_ifs at hid with got
      · rw [Option.mem_toList] at hid
        have hr := h.readable hx fresh clear hL got
        obtain ⟨k, hkey, entries⟩ := h.stores hx fresh clear hL now hr
        refine ⟨L, hL, hid, k, hkey, fun t ht => List.mem_append_left _ ?_⟩
        rw [(h.carried hx fresh clear hL now).1 hr]
        exact List.mem_filterMap.mpr ⟨t, ht, by rw [entries t ht]; rfl⟩
      · cases hid
    · obtain ⟨M, hM, refresh, k, hkey, harvested⟩ := h.accepted ackId hid
      exact ⟨M, hM, refresh, k, hkey, fun t ht => List.mem_append_right _ (harvested t ht)⟩

theorem Agrees.acknowledge (h : Agrees x n ds ℓ) {ackId : UInt32} (hid : ackId ∈ ℓ.accepted) :
    Agrees x n ds (ℓ.acknowledge ackId) := by
  have frame := Sender.frame_after h.soundUsable (.acknowledge ackId)
  refine { h with
    soundUsable := Sender.sound_acknowledge h.soundUsable ackId
    publicKey := frame.remoteKey.trans h.publicKey
    batch := (congrArg Settings.refillBatch frame.settings).trans h.batch
    pendingIds := fun p hp => h.pendingIds p (Sender.pending_acknowledge hp).1
    pending := fun p hp => h.pending p (Sender.pending_acknowledge hp).1
    usable := fun t e he => ?_ }
  rw [Link.acknowledge, Sender.key_acknowledge]
  rcases Sender.usable_acknowledge h.soundUsable he with he | ⟨batch, hp, same, ht, -⟩
  · exact h.usable t e he
  · -- the batch is that of the letter whose tags the receiver has kept
    obtain ⟨L, hL, refresh, k, hkey, harvested⟩ := h.accepted ackId hid
    obtain ⟨tags, key⟩ := h.pending _ hp L hL refresh
    rw [tags] at ht
    exact ⟨L, hL, ht, same.trans key.symm, k, hkey, harvested t ht⟩

theorem Agrees.reset (h : Agrees x n ds ℓ) : Agrees x n ds { ℓ with sender := ℓ.sender.reset } :=
  { h with
    soundUsable := Pool.sound_clear _
    pendingIds := fun _ hp => by cases hp
    pending := fun _ hp => by cases hp
    usable := fun t e he => by
      rw [show ℓ.sender.reset.usable.stored? t = none from Pool.stored?_clear _ _] at he
      cases he }

theorem Agrees.restart (h : Agrees x n ds ℓ) {r : Receiver}
    (key : r.privateKey = (ElGamal.KeyPair.ofExponent x).privateKey) (sound : r.tags.Sound)
    (empty : ∀ t, r.tags.stored? t = none) : Agrees x n ds { ℓ with receiver := r } :=
  { h with
    soundTags := sound
    privateKey := key
    known := fun t e he => by
      have none := empty t
      rw [show r.tags.stored? t = some e from he] at none
      cases none }

theorem Agrees.clear (h : Agrees x n ds ℓ) : Agrees x n ds { ℓ with receiver := ℓ.receiver.clear } :=
  h.restart h.privateKey (Pool.sound_clear _) fun t => Pool.stored?_clear _ t

theorem Agrees.after (h : Agrees x n ds ℓ) (hx : x < ElGamal.prime - 1) {e : Event}
    (fresh : Fresh n (ds ++ Event.draws [e]))
    (clear : Distinguishable (ElGamal.KeyPair.ofExponent x).privateKey ℓ.sent) :
    Agrees x n (ds ++ Event.draws [e]) (ℓ.after e) := by
  have same : Fresh n ds := fresh.of_append
  cases e with
  | send moment d reply explicit trackingId cloves => exact h.send fresh
  | deliver index now =>
    show Agrees x n (ds ++ []) _
    rw [List.append_nil, Link.after]
    cases hL : ℓ.sent[index]? with
    | none => exact h
    | some L => exact h.deliver hx same clear (List.mem_of_getElem? hL) now
  | acknowledge ackId =>
    show Agrees x n (ds ++ []) _
    rw [List.append_nil, Link.after]
    split_ifs with hid
    · exact h.acknowledge hid
    · exact h
  | resetIfStuck now timeout =>
    show Agrees x n (ds ++ []) _
    rw [List.append_nil, Link.after]
    rcases ℓ.sender.resetIfStuck_cases now timeout with ⟨-, ht⟩ | ⟨-, ht⟩ <;> rw [ht]
    · exact h.reset
    · exact h
  | reset =>
    show Agrees x n (ds ++ []) _
    rw [List.append_nil]
    exact h.reset
  | clear =>
    show Agrees x n (ds ++ []) _
    rw [List.append_nil]
    exact h.clear

@[simp] theorem sent_deliver (ℓ : Link) (index now : Nat) :
    (ℓ.after (.deliver index now)).sent = ℓ.sent := by
  rw [Link.after]
  cases ℓ.sent[index]? <;> rfl

theorem sent_after (ℓ : Link) (e : Event) : ℓ.sent <+: (ℓ.after e).sent := by
  cases e with
  | send moment d reply explicit trackingId cloves =>
    rw [Link.after, Link.send]
    rcases ℓ.sender.encrypt moment d reply explicit trackingId cloves with ⟨_ | m, t⟩
    · exact List.prefix_refl _
    · exact List.prefix_append _ _
  | deliver index now => rw [sent_deliver]
  | acknowledge ackId =>
    rw [Link.after]
    split_ifs <;> exact List.prefix_refl _
  | resetIfStuck | reset | clear => exact List.prefix_refl _

theorem sent_run (ℓ : Link) (es : List Event) : ℓ.sent <+: (ℓ.run es).sent := by
  induction es using List.reverseRecOn with
  | nil => exact List.prefix_refl _
  | append_singleton es e ih =>
    rw [run_concat]
    exact ih.trans (sent_after _ e)

/-- Right after a delivery of the run the receiver's pool has the tag, under this key. -/
def Harvests (ℓ : Link) (es : List Event) (t : SessionTag) (key : SessionKey) : Prop :=
  ∃ before index now since, es = before ++ .deliver index now :: since ∧
    ∃ e, (ℓ.run (before ++ [.deliver index now])).receiver.tags.stored? t = some e ∧ e.value = key

theorem harvested_after {e : Event} {t : SessionTag} {key : SessionKey}
    (mem : (t, key) ∈ (ℓ.after e).harvested) : (t, key) ∈ ℓ.harvested ∨ ∃ index now,
      e = .deliver index now ∧
        ∃ f, (ℓ.after e).receiver.tags.stored? t = some f ∧ f.value = key := by
  cases e with
  | send moment d reply explicit trackingId cloves =>
    have same : (ℓ.send moment d reply explicit trackingId cloves).harvested = ℓ.harvested := by
      rw [Link.send]
      rcases ℓ.sender.encrypt moment d reply explicit trackingId cloves with ⟨_ | m, t⟩ <;> rfl
    left
    rwa [Link.after, same] at mem
  | deliver index now =>
    rw [Link.after] at mem ⊢
    cases hL : ℓ.sent[index]? with
    | none =>
      rw [hL] at mem
      exact .inl mem
    | some L =>
      rw [hL] at mem
      rcases List.mem_append.mp mem with new | old
      · obtain ⟨u, -, found⟩ := List.mem_filterMap.mp new
        obtain ⟨f, stored, same⟩ := Option.map_eq_some_iff.mp found
        obtain ⟨rfl, value⟩ := Prod.mk.inj same
        exact .inr ⟨index, now, rfl, f, stored, value⟩
      · exact .inl old
  | acknowledge ackId =>
    left
    rw [Link.after] at mem
    split_ifs at mem <;> exact mem
  | resetIfStuck | reset | clear => exact .inl mem

/-- What the list of harvested tags tells has happened in the run. -/
theorem harvests_of_mem (none : ℓ.harvested = []) {es : List Event} {t : SessionTag}
    {key : SessionKey} (mem : (t, key) ∈ (ℓ.run es).harvested) : ℓ.Harvests es t key := by
  induction es using List.reverseRecOn with
  | nil =>
    rw [show ℓ.run [] = ℓ from rfl, none] at mem
    cases mem
  | append_singleton es e ih =>
    rw [run_concat] at mem
    rcases harvested_after mem with old | ⟨index, now, rfl, stored⟩
    · obtain ⟨before, index, now, since, rfl, stored⟩ := ih old
      refine ⟨before, index, now, since ++ [e], ?_, stored⟩
      rw [List.append_assoc, List.cons_append]
    · refine ⟨es, index, now, [], rfl, ?_⟩
      rwa [run_concat]

end Steps

section Run

variable {x : Nat} {remote : Identity} {sending receiving : Settings}

theorem agrees_run (hx : x < ElGamal.prime - 1) {es : List Event}
    (fresh : Fresh sending.refillBatch (Event.draws es))
    (clear : Distinguishable (ElGamal.KeyPair.ofExponent x).privateKey
      ((new remote (.ofExponent x) sending receiving).run es).sent) :
    Agrees x sending.refillBatch (Event.draws es)
      ((new remote (.ofExponent x) sending receiving).run es) := by
  induction es using List.reverseRecOn with
  | nil => exact .new x remote sending receiving
  | append_singleton es e ih =>
    rw [run_concat] at clear ⊢
    rw [Event.draws_append] at fresh ⊢
    have before := clear.mono (sent_after _ e).subset
    exact (ih fresh.of_append before).after hx fresh before

/-- Session agreement. After any run, each tag the sender may use was in the receiver's pool after some
delivery, under the key of the session, and the receiver keeps it under no other key; and each message
that is a handshake or begins with a tag the receiver knows gives the caller's cloves and then those
that ask for acknowledgments. -/
theorem session_agreement (x : Nat) (hx : x < ElGamal.prime - 1) (remote : Identity)
    (sending receiving : Settings) (es : List Event)
    (fresh : Fresh sending.refillBatch (Event.draws es))
    (clear : Distinguishable (ElGamal.KeyPair.ofExponent x).privateKey
      ((new remote (.ofExponent x) sending receiving).run es).sent) :
    let start := new remote (.ofExponent x) sending receiving
    let ℓ := start.run es
    (∀ e ∈ ℓ.sender.usable.entries, ∃ key, ℓ.sender.key = some key ∧ start.Harvests es e.key key ∧
      ∀ f, ℓ.receiver.tags.stored? e.key = some f → f.value = key) ∧
    ∀ L ∈ ℓ.sent, (∀ c ∈ L.cloves, c.message.payload.Proper) → ∀ now, ℓ.Readable now L →
      ∃ g, (ℓ.receiver.decrypt now L.message.wire).1 = some g ∧ g.cloves = L.content := by
  intro start ℓ
  have agrees : Agrees x sending.refillBatch (Event.draws es) ℓ := agrees_run hx fresh clear
  constructor
  · intro e he
    obtain ⟨L, hL, htL, hkey, key, known, harvested⟩ :=
      agrees.usable e.key e (agrees.soundUsable.stored?_of_mem he)
    refine ⟨key, hkey.trans known, harvests_of_mem rfl harvested, fun f hf => ?_⟩
    obtain ⟨M, hM, htM, hvalue⟩ := agrees.known e.key f hf
    rw [← agrees.kept.eq_of_mem fresh hL hM htL htM, known, Option.some.injEq] at hvalue
    exact hvalue.symm
  · intro L hL proper now readable
    exact ⟨L.garlic, (agrees.decrypt hx fresh clear hL proper now).1 readable, rfl⟩

end Run

section Trial

theorem after_deliver_acknowledge {index now : Nat} {ackId : UInt32}
    (accepted : ackId ∈ (ℓ.after (.deliver index now)).accepted) :
    ((ℓ.after (.deliver index now)).after (.acknowledge ackId)).sender =
        (ℓ.acknowledge ackId).sender ∧
      ((ℓ.after (.deliver index now)).after (.acknowledge ackId)).sent =
        (ℓ.acknowledge ackId).sent := by
  have sender : (ℓ.after (.deliver index now)).sender = ℓ.sender := by
    rw [after]
    cases ℓ.sent[index]? <;> rfl
  have sent := sent_deliver ℓ index now
  generalize ℓ.after (.deliver index now) = k at accepted sender sent ⊢
  rw [after, if_pos accepted, acknowledge, acknowledge, sender]
  exact ⟨rfl, sent⟩

/-- What is sent is no matter of the receiver. -/
theorem sent_after_congr {k : Link} (sender : ℓ.sender = k.sender) (sent : ℓ.sent = k.sent)
    (e : Event) : (ℓ.after e).sent = (k.after e).sent := by
  cases e with
  | send moment d reply explicit trackingId cloves =>
    rw [after, after, send, send, sender]
    rcases k.sender.encrypt moment d reply explicit trackingId cloves with ⟨_ | _, _⟩ <;>
      simp only [sent]
  | deliver index now => rw [sent_deliver, sent_deliver, sent]
  | acknowledge ackId =>
    rw [after, after]
    split_ifs <;> exact sent
  | resetIfStuck | reset | clear => exact sent

theorem sender_after_congr {k : Link} (sender : ℓ.sender = k.sender) {e : Event}
    (draws : e.draw?.isSome) : (ℓ.after e).sender = (k.after e).sender := by
  cases e with
  | send moment d reply explicit trackingId cloves =>
    rw [after, after, send, send, sender]
    rcases k.sender.encrypt moment d reply explicit trackingId cloves with ⟨_ | _, _⟩ <;> rfl
  | deliver | acknowledge | resetIfStuck | reset | clear => cases draws

/-- A link with default settings, for runs with fixed values. -/
def trial : Link := .new ⟨.ofNat 32 9⟩ (.ofExponent 5) {} {}

/-- A first message, and one that comes later. -/
def greeting (cloves : List Clove) : Event :=
  .send ⟨0, 0⟩ (.numbered 0) (some ⟨⟨.ofNat 32 9⟩, ⟨4⟩⟩) false 1 cloves

def followUp (now : Nat) : Event :=
  .send ⟨now, 0⟩ (.numbered 1) (some ⟨⟨.ofNat 32 9⟩, ⟨4⟩⟩) false 2 []

theorem distinguishable_greeting : Distinguishable (ElGamal.KeyPair.ofExponent 5).privateKey
    (trial.run [greeting []]).sent :=
  distinguishable_of_heads (by decide +kernel) (by decide +kernel)

theorem accepted_greeting : 1 ∈ ((trial.run [greeting []]).after (.deliver 0 0)).accepted := by
  have clear := distinguishable_greeting
  have fresh : Fresh 15 (Event.draws [greeting []]) := by decide +kernel
  have agrees := @agrees_run 5 ⟨.ofNat 32 9⟩ {} {} (by decide +kernel) [greeting []] fresh clear
  have sent : (trial.run [greeting []]).sent.map (fun L =>
      (L.message.path, L.message.refreshAckId, L.cloves)) = [(.handshake, some 1, [])] := by
    decide +kernel
  obtain ⟨L, hL, hread⟩ := List.map_eq_singleton_iff.mp sent
  simp only [Prod.mk.injEq] at hread
  obtain ⟨path, refresh, cloves⟩ := hread
  have mem : L ∈ (trial.run [greeting []]).sent := by
    rw [hL]
    exact List.mem_singleton_self L
  have read : ((trial.run [greeting []]).receiver.decrypt 0 L.message.wire).1 = some L.garlic :=
    (agrees.decrypt (by decide +kernel) fresh clear mem (by simp [cloves]) 0).1 (.inl path)
  rw [after, hL]
  refine List.mem_append_left _ ?_
  simp only [read, refresh, Option.isSome_some, if_true, Option.toList_some, List.mem_singleton]

theorem run_followUp (now : Nat) :
    (trial.run [greeting [], .deliver 0 0, .acknowledge 1, followUp now]).sender =
        (((trial.run [greeting []]).acknowledge 1).after (followUp now)).sender ∧
      (trial.run [greeting [], .deliver 0 0, .acknowledge 1, followUp now]).sent =
        (((trial.run [greeting []]).acknowledge 1).after (followUp now)).sent := by
  have steps (ℓ : Link) (a b c d : Event) :
      ℓ.run [a, b, c, d] = (((ℓ.run [a]).after b).after c).after d := rfl
  obtain ⟨sender, sent⟩ := after_deliver_acknowledge accepted_greeting
  rw [steps]
  exact ⟨sender_after_congr sender rfl, sent_after_congr sender sent _⟩

theorem distinguishable_followUp : Distinguishable (ElGamal.KeyPair.ofExponent 5).privateKey
    (trial.run [greeting [], .deliver 0 0, .acknowledge 1, followUp 5]).sent := by
  rw [(run_followUp 5).2]
  exact distinguishable_of_heads (by decide +kernel) (by decide +kernel)

theorem session_agreement_followUp :
    let es := [greeting [], .deliver 0 0, .acknowledge 1, followUp 5]
    let ℓ := trial.run es
    Fresh 15 (Event.draws es) ∧
      Distinguishable (ElGamal.KeyPair.ofExponent 5).privateKey ℓ.sent ∧
      ℓ.sender.usable.entries.size = 14 ∧
      (∀ e ∈ ℓ.sender.usable.entries, ∃ key, ℓ.sender.key = some key ∧ trial.Harvests es e.key key ∧
        ∀ f, ℓ.receiver.tags.stored? e.key = some f → f.value = key) ∧
      ℓ.sent.map (fun L => L.message.path) = [.handshake, .tag] ∧
      ∀ L ∈ ℓ.sent, (∀ c ∈ L.cloves, c.message.payload.Proper) → ∀ now, ℓ.Readable now L →
        ∃ g, (ℓ.receiver.decrypt now L.message.wire).1 = some g ∧ g.cloves = L.content := by
  have fresh : Fresh 15 (Event.draws [greeting [], .deliver 0 0, .acknowledge 1, followUp 5]) := by
    decide +kernel
  have clear : Distinguishable (ElGamal.KeyPair.ofExponent 5).privateKey
      (trial.run [greeting [], .deliver 0 0, .acknowledge 1, followUp 5]).sent :=
    distinguishable_followUp
  have agreement := session_agreement 5 (by decide +kernel) ⟨.ofNat 32 9⟩ {} {}
    [greeting [], .deliver 0 0, .acknowledge 1, followUp 5] fresh clear
  have start : new ⟨.ofNat 32 9⟩ (.ofExponent 5) {} {} = trial := rfl
  have harvested := agreement.1
  rw [start] at harvested
  obtain ⟨sender, sent⟩ := run_followUp 5
  refine ⟨fresh, clear, ?_, harvested, ?_, agreement.2⟩
  · rw [sender]
    decide +kernel
  · rw [sent]
    decide +kernel

/-- A status that is written as an untyped payload, and without its octets. -/
def mistyped : Clove := .fresh 1 0 { target := .here } (.fresh 1 0 (.other 10 []))

theorem mistyped_clove_lost :
    let ℓ := trial.run [greeting [mistyped]]
    Fresh 15 (Event.draws [greeting [mistyped]]) ∧
      Distinguishable (ElGamal.KeyPair.ofExponent 5).privateKey ℓ.sent ∧
      ∃ L ∈ ℓ.sent, ℓ.Readable 0 L ∧ (ℓ.receiver.decrypt 0 L.message.wire).1 = none := by
  intro ℓ
  have fresh : Fresh 15 (Event.draws [greeting [mistyped]]) := by decide +kernel
  have clear : Distinguishable (ElGamal.KeyPair.ofExponent 5).privateKey ℓ.sent :=
    distinguishable_of_heads (by decide +kernel) (by decide +kernel)
  have agrees : Agrees 5 15 _ ℓ :=
    @agrees_run 5 ⟨.ofNat 32 9⟩ {} {} (by decide +kernel) [greeting [mistyped]] fresh clear
  have sent : ℓ.sent.map (fun L =>
      (L.message.path, (Garlic.decode.front L.garlic.octets).toOption)) = [(.handshake, none)] := by
    decide +kernel
  obtain ⟨L, hL, hread⟩ := List.map_eq_singleton_iff.mp sent
  obtain ⟨path, unread⟩ := Prod.mk.inj hread
  have mem : L ∈ ℓ.sent := by rw [hL]; exact List.mem_singleton_self L
  have readable : ℓ.Readable 0 L := .inl path
  refine ⟨fresh, clear, L, mem, readable, ?_⟩
  obtain ⟨tag?, key, -, opened, -⟩ := agrees.block? (by decide +kernel) fresh clear mem 0
  rw [Receiver.decrypt_fst, opened readable, Option.bind_some, Letter.block, unread]

end Trial

end Link

end GarlicRouting
