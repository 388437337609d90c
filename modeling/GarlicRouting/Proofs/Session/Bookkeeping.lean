import GarlicRouting.Proofs.Session.Replay
import Mathlib

/-! The counts of the receiving half, over whatever comes in: every message is read or dropped, none
is read that no tag or handshake opened, and no tag is known or was taken that was not received. -/
namespace GarlicRouting.Receiver

inductive Operation where
  | decrypt (arrival : Arrival)
  | clear

def perform (r : Receiver) : Operation → Receiver
  | .decrypt c => r.after c
  | .clear => r.clear

def performAll (r : Receiver) (os : List Operation) : Receiver := os.foldl perform r

def arrivals : List Operation → List Arrival
  | [] => []
  | .decrypt c :: os => c :: arrivals os
  | .clear :: os => arrivals os

/-- What every message is read as. -/
def answers (r : Receiver) : List Operation → List (Option Garlic)
  | [] => []
  | .decrypt c :: os => (r.decrypt c.now c.raw).1 :: (r.after c).answers os
  | .clear :: os => r.clear.answers os

variable {r : Receiver} {now : Nat} {raw : Bytes}

section Counts

theorem stats_takeTag (r : Receiver) (now : Nat) (raw : Bytes) :
    (r.takeTag now raw).2.stats = r.stats := by
  unfold takeTag
  cases Octets.ofList? 32 (raw.take 32) <;> rfl

/-- A tag that is taken is gone. -/
theorem size_takeTag (r : Receiver) (now : Nat) (raw : Bytes) :
    (r.takeTag now raw).2.tags.size + (r.takeTag now raw).1.toList.length ≤ r.tags.size := by
  unfold takeTag
  cases Octets.ofList? 32 (raw.take 32) with
  | none => exact le_rfl
  | some octets =>
    have fewer := r.tags.size_remove ⟨octets⟩ now
    rwa [← List.length_map, ← Option.toList_map] at fewer

/-- How a message moves the counts: if it is `read`, then a tag or a handshake has opened it, and
never both; and the tags that are stored or taken grow by no more than those that are received. -/
structure Counted (r q : Receiver) (read : Bool) : Prop where
  read : r.stats.tagHits + r.stats.handshakes + read.toNat ≤ q.stats.tagHits + q.stats.handshakes
  once : q.stats.tagHits + q.stats.handshakes ≤ r.stats.tagHits + r.stats.handshakes + 1
  size : q.tags.size + q.stats.tagHits + r.stats.tagsReceived ≤
    r.tags.size + r.stats.tagHits + q.stats.tagsReceived

theorem counted_decryptHandshake (r : Receiver) (raw : Bytes) :
    r.Counted (r.decryptHandshake raw).2 (r.decryptHandshake raw).1.isSome ∧
      (r.decryptHandshake raw).2.stats.dropped = r.stats.dropped := by
  unfold decryptHandshake
  cases ElGamal.decrypt r.privateKey raw with
  | error => exact ⟨⟨le_rfl, Nat.le_succ _, le_rfl⟩, rfl⟩
  | ok data =>
    refine ⟨⟨?_, le_rfl, le_rfl⟩, rfl⟩
    exact Nat.add_le_add_left (Bool.toNat_le _) _

theorem counted_decryptBlock (r : Receiver) (now : Nat) (raw : Bytes) :
    r.Counted (r.decryptBlock now raw).2 (r.decryptBlock now raw).1.isSome ∧
      (r.decryptBlock now raw).2.stats.dropped = r.stats.dropped := by
  have live : (r.expire now).tags.size ≤ r.tags.size := r.tags.size_purge_le now
  have stats : ((r.expire now).takeTag now raw).2.stats = r.stats := stats_takeTag _ now raw
  have fewer := size_takeTag (r.expire now) now raw
  cases ht : (r.expire now).takeTag now raw with
  | mk taken r₁ =>
    rw [ht] at stats fewer
    simp only at stats fewer
    cases taken with
    | some t =>
      rw [Option.toList_some, List.length_singleton] at fewer
      rw [decryptBlock_of_tag ht]
      -- The hit counts whether or not there is a block behind the tag.
      generalize (TagBlock.decrypt t.2 t.1.octets (raw.drop 32)).toOption.map (·, t.2) = found
      have once := Bool.toNat_le found.isSome
      simp only [stats, and_true]
      constructor <;> simp only <;> omega
    | none =>
      rw [Option.toList_none, List.length_nil] at fewer
      obtain ⟨⟨read, once, size⟩, dropped⟩ := r₁.counted_decryptHandshake raw
      rw [stats] at read once size dropped
      rw [decryptBlock_of_no_tag ht]
      exact ⟨⟨read, once, by omega⟩, dropped⟩

theorem size_harvest_le (r : Receiver) (now : Nat) (block : TagBlock) (key : SessionKey) :
    (r.harvest now block key).tags.size + r.stats.tagsReceived ≤
      r.tags.size + (r.harvest now block key).stats.tagsReceived := by
  have size := r.tags.size_foldl_insert_le block.tags (block.newKey.getD key) now
  rw [harvest]
  simp only
  omega

theorem counted_decrypt (r : Receiver) (now : Nat) (raw : Bytes) :
    r.Counted (r.decrypt now raw).2 (r.decrypt now raw).1.isSome ∧
      (r.decrypt now raw).2.stats.dropped + (r.decrypt now raw).1.isSome.toNat =
        r.stats.dropped + 1 := by
  obtain ⟨⟨read, once, size⟩, dropped⟩ := r.counted_decryptBlock now raw
  cases hb : r.decryptBlock now raw with
  | mk found r₁ =>
    rw [hb] at read once size dropped
    simp only at read once size dropped
    cases found with
    | none =>
      rw [decrypt_of_unopened hb]
      exact ⟨⟨read, once, size⟩, congrArg Nat.succ dropped⟩
    | some b =>
      obtain ⟨block, key⟩ := b
      have stored : (r₁.harvest now block key).tags.size + r₁.stats.tagHits + r.stats.tagsReceived ≤
          r.tags.size + r.stats.tagHits + (r₁.harvest now block key).stats.tagsReceived := by
        have brought := r₁.size_harvest_le now block key
        omega
      -- The tags are kept before it is known whether the garlic can be read.
      cases hg : (Garlic.decode.front block.payload).toOption with
      | none =>
        rw [decrypt_of_unread hb hg]
        exact ⟨⟨(Nat.le_add_right _ 1).trans read, once, stored⟩, congrArg Nat.succ dropped⟩
      | some g =>
        rw [decrypt_of_read hb hg]
        exact ⟨⟨read, once, stored⟩, congrArg Nat.succ dropped⟩

end Counts

/-- The counts of a receiving half after so many messages of which so many were read. -/
structure Balanced (r : Receiver) (messages read : Nat) : Prop where
  answered : messages = read + r.stats.dropped
  read : read ≤ r.stats.tagHits + r.stats.handshakes
  opened : r.stats.tagHits + r.stats.handshakes ≤ messages
  stored : r.tags.size + r.stats.tagHits ≤ r.stats.tagsReceived

theorem balanced_new (k : ElGamal.PrivateKey) (s : Settings) : (new k s).Balanced 0 0 :=
  ⟨rfl, le_rfl, le_rfl, le_rfl⟩

theorem Balanced.decrypt {messages read : Nat} (h : r.Balanced messages read) (c : Arrival) :
    (r.after c).Balanced (messages + 1) (read + (r.decrypt c.now c.raw).1.isSome.toNat) := by
  obtain ⟨⟨once_read, once, size⟩, dropped⟩ := r.counted_decrypt c.now c.raw
  obtain ⟨answered, was_read, opened, stored⟩ := h
  constructor <;> rw [after] <;> omega

theorem Balanced.clear {messages read : Nat} (h : r.Balanced messages read) :
    r.clear.Balanced messages read := by
  obtain ⟨answered, was_read, opened, stored⟩ := h
  exact ⟨answered, was_read, opened, (Nat.add_le_add_right (Nat.zero_le _) _).trans stored⟩

theorem Balanced.performAll {messages read : Nat} (h : r.Balanced messages read)
    (os : List Operation) : (r.performAll os).Balanced (messages + (arrivals os).length)
      (read + (r.answers os).countP Option.isSome) := by
  induction os generalizing r messages read with
  | nil => exact h
  | cons o os ih =>
    cases o with
    | decrypt c =>
      have rest := ih (h.decrypt c)
      rw [Bool.toNat, Bool.cond_eq_ite, Nat.add_assoc, Nat.add_assoc, Nat.add_comm 1,
        Nat.add_comm (ite _ _ _)] at rest
      rwa [answers, List.countP_cons, arrivals, List.length_cons]
    | clear => exact ih h.clear

section Unopened

theorem sound_performAll (sound : r.tags.Sound) (os : List Operation) :
    (r.performAll os).tags.Sound := by
  induction os generalizing r with
  | nil => exact sound
  | cons o os ih =>
    cases o with
    | decrypt c => exact ih (sound_decrypt sound c.now c.raw)
    | clear => exact ih (Pool.sound_clear r.tags)

/-- A message that is not opened takes out the tag at its front and the stale ones, and no other. -/
theorem perm_of_unopened (sound : r.tags.Sound) (unopened : (r.decryptBlock now raw).1 = none) :
    (r.decrypt now raw).2.tags.entries.toList.Perm
      (r.tags.entries.toList.filter fun e => r.tags.isLive now e ∧ ¬ e.key.Begins raw) := by
  have nothing : r.carried now raw = [] := by
    rw [carried, ← (r.decryptBlock_eq now raw).1, unopened, Option.elim_none]
  refine sound.perm_filter (sound_decrypt sound now raw) fun t => ?_
  rw [stored?_of_not_carried sound (by rw [nothing]; exact List.not_mem_nil)]
  cases he : r.tags.stored? t with
  | none =>
    split_ifs <;> rfl
  | some e =>
    obtain rfl : e.key = t := (sound.stored?_eq_some_iff.mp he).2
    by_cases begins : e.key.Begins raw
    · rw [if_pos begins, Option.filter_some, if_neg (by simp [begins])]
    · rw [if_neg begins, Option.filter_some, Option.filter_some]
      simp only [begins, not_false_eq_true, and_true, Bool.decide_eq_true]

/-- Every message is read or dropped, and what is read was opened by a tag or a handshake. The tags
that are stored and those that were taken are no more than those that were received. A message that is
not opened takes out stale tags and the one it begins with; it adds none and changes none. -/
theorem counts_balance (k : ElGamal.PrivateKey) (s : Settings) (os : List Operation) :
    let r := (new k s).performAll os
    let read := ((new k s).answers os).countP Option.isSome
    (arrivals os).length = read + r.stats.dropped ∧
      read ≤ r.stats.tagHits + r.stats.handshakes ∧
      r.stats.tagHits + r.stats.handshakes ≤ (arrivals os).length ∧
      r.tags.size + r.stats.tagHits ≤ r.stats.tagsReceived ∧
      ∀ now raw, (r.decryptBlock now raw).1 = none →
        (r.decrypt now raw).1 = none ∧
          (r.decrypt now raw).2.tags.entries.toList.Perm
            (r.tags.entries.toList.filter fun e => r.tags.isLive now e ∧ ¬ e.key.Begins raw) := by
  intro r read
  have balanced := (balanced_new k s).performAll os
  rw [Nat.zero_add, Nat.zero_add] at balanced
  obtain ⟨answered, was_read, opened, stored⟩ := balanced
  refine ⟨answered, was_read, opened, stored, fun now raw unopened => ⟨?_, ?_⟩⟩
  · exact congrArg Prod.fst (decrypt_of_unopened (Prod.ext unopened rfl))
  · exact perm_of_unopened (sound_performAll (Pool.sound_of_empty rfl rfl) os) unopened

end Unopened

section Trial

open Link

/-- A message with a tag that a handshake has brought and one octet more takes the tag, and is not
opened. -/
theorem counts_balance_spoiled :
    ∃ L ∈ (trial.run twoMessages).sent, ∃ t ∈ L.tags,
      let os : List Operation := [.decrypt ⟨0, L.message.wire⟩]
      let r := (new (ElGamal.KeyPair.ofExponent 5).privateKey {}).performAll os
      let raw := t.octets.toList ++ [7]
      r.tags.size + r.stats.tagHits ≤ r.stats.tagsReceived ∧ r.tags.contains t 5 ∧
        (r.decryptBlock 5 raw).1 = none ∧
        (r.decrypt 5 raw).2.tags.entries.toList.Perm
          (r.tags.entries.toList.filter fun e => r.tags.isLive 5 e ∧ ¬ e.key.Begins raw) := by
  obtain ⟨L, hL, M, hM, t, ht, handshake, begins, cloves⟩ := letters_twoMessages
  obtain ⟨⟨spent, -⟩, -⟩ := replay_twoMessages hL hM ht handshake begins cloves
  refine ⟨L, hL, t, ht, ?_⟩
  intro os r raw
  obtain ⟨-, -, -, stored, unopened⟩ :=
    counts_balance (ElGamal.KeyPair.ofExponent 5).privateKey {} os
  have sound : r.tags.Sound := sound_performAll (Pool.sound_of_empty rfl rfl) os
  have known : r.tags.contains t 5 := ((spends_iff sound).mp spent).2
  have front : t.Begins raw := t.begins_append [7]
  obtain ⟨e, he, live⟩ := Pool.contains_iff.mp known
  have taken : r.spent? 5 raw = some (t, e.value) :=
    (spent?_eq_some_iff sound).mpr ⟨front, e, he, live, rfl⟩
  have short : (raw.drop 32).length % 16 ≠ 0 := by simp [raw]
  have failed : (r.decryptBlock 5 raw).1 = none := by
    rw [(r.decryptBlock_eq 5 raw).1, block?, taken]
    simp only [TagBlock.decrypt_of_unaligned _ _ short]
    rfl
  exact ⟨stored, known, failed, (unopened 5 raw failed).2⟩

end Trial

end GarlicRouting.Receiver
