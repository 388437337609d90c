import GarlicRouting.Session.Receiver
import GarlicRouting.Proofs.Cipher.ElGamal
import GarlicRouting.Proofs.Session.Pool
import GarlicRouting.Proofs.TagBlock
import Mathlib

/-! What a message does to the receiving half: the tag it takes, the block it opens, and the tags that
are known afterwards. -/
namespace GarlicRouting

/-- The first octets of a message are a tag. -/
def SessionTag.Begins (t : SessionTag) (raw : Bytes) : Prop := raw.take 32 = t.octets.toList

instance (t : SessionTag) (raw : Bytes) : Decidable (t.Begins raw) :=
  inferInstanceAs (Decidable (_ = _))

theorem SessionTag.Begins.eq {t u : SessionTag} {raw : Bytes} (ht : t.Begins raw)
    (hu : u.Begins raw) : t = u := by
  obtain ⟨_⟩ := t
  obtain ⟨_⟩ := u
  exact congrArg SessionTag.mk (Octets.ext (ht.symm.trans hu))

theorem SessionTag.begins_append (t : SessionTag) (rest : Bytes) :
    t.Begins (t.octets.toList ++ rest) :=
  List.take_left' t.octets.length_toList

namespace Receiver

variable {r : Receiver}

def expire (r : Receiver) (now : Nat) : Receiver := { r with tags := (r.tags.purge now).2 }

/-- The tag that a message takes, and its key. -/
def spent? (r : Receiver) (now : Nat) (raw : Bytes) : Option (SessionTag × SessionKey) :=
  ((r.expire now).takeTag now raw).1

theorem key_fits : 0 + 32 ≤ 222 := by decide

theorem seed_fits : 32 + 32 ≤ 222 := by decide

/-- The block in a handshake, and its key. -/
def opened? (k : ElGamal.PrivateKey) (raw : Bytes) : Option (TagBlock × SessionKey) :=
  match ElGamal.decrypt k raw with
  | .error _ => none
  | .ok data =>
    let key : SessionKey := ⟨data.slice 0 32 key_fits⟩
    (TagBlock.decrypt key (data.slice 32 32 seed_fits) (raw.drop 514)).toOption.map (·, key)

/-- The block in a message, and its key. -/
def block? (r : Receiver) (now : Nat) (raw : Bytes) : Option (TagBlock × SessionKey) :=
  match r.spent? now raw with
  | some (t, key) => (TagBlock.decrypt key t.octets (raw.drop 32)).toOption.map (·, key)
  | none => opened? r.privateKey raw

section Take

theorem privateKey_takeTag (now : Nat) (raw : Bytes) :
    (r.takeTag now raw).2.privateKey = r.privateKey := by
  unfold takeTag
  cases Octets.ofList? 32 (raw.take 32) <;> rfl

theorem lifetime_takeTag (now : Nat) (raw : Bytes) :
    (r.takeTag now raw).2.tags.lifetime = r.tags.lifetime := by
  unfold takeTag
  cases Octets.ofList? 32 (raw.take 32) with
  | none => rfl
  | some octets => exact Pool.lifetime_remove _ _ _

theorem sound_takeTag (sound : r.tags.Sound) (now : Nat) (raw : Bytes) :
    (r.takeTag now raw).2.tags.Sound := by
  unfold takeTag
  cases Octets.ofList? 32 (raw.take 32) with
  | none => exact sound
  | some octets => exact sound.remove _ _

theorem stored?_takeTag (sound : r.tags.Sound) (now : Nat) (raw : Bytes) (a : SessionTag) :
    (r.takeTag now raw).2.tags.stored? a = if a.Begins raw then none else r.tags.stored? a := by
  unfold takeTag
  cases ho : Octets.ofList? 32 (raw.take 32) with
  | none =>
    have other : ¬ a.Begins raw := fun h => by
      rw [Octets.ofList?_eq_some_iff.mpr h] at ho
      cases ho
    simp only [other, if_false]
  | some octets =>
    have first : (⟨octets⟩ : SessionTag).Begins raw := Octets.ofList?_eq_some_iff.mp ho
    simp only [sound.stored?_remove]
    by_cases ha : a.Begins raw
    · rw [if_pos ha, if_pos (first.eq ha)]
    · rw [if_neg ha, if_neg fun h : _ = a => ha (h ▸ first)]

theorem takeTag_fst_eq_some_iff (sound : r.tags.Sound) {now : Nat} {raw : Bytes} {t : SessionTag}
    {key : SessionKey} : (r.takeTag now raw).1 = some (t, key) ↔
      t.Begins raw ∧ ∃ e, r.tags.stored? t = some e ∧ r.tags.isLive now e ∧ e.value = key := by
  unfold takeTag
  cases ho : Octets.ofList? 32 (raw.take 32) with
  | none =>
    constructor
    · intro h
      cases h
    · intro hh
      obtain ⟨begins, -⟩ := hh
      rw [Octets.ofList?_eq_some_iff.mpr begins] at ho
      cases ho
  | some octets =>
    have first : (⟨octets⟩ : SessionTag).Begins raw := Octets.ofList?_eq_some_iff.mp ho
    simp only [sound.remove_fst, Option.map_eq_some_iff, Option.bind_eq_some_iff, Prod.mk.injEq,
      Option.ite_none_right_eq_some, Option.some.injEq]
    constructor
    · intro hh
      obtain ⟨_, ⟨e, he, live, hvalue⟩, rfl, rfl⟩ := hh
      exact ⟨first, e, he, live, hvalue⟩
    · intro hh
      obtain ⟨begins, e, he, live, hvalue⟩ := hh
      obtain rfl := first.eq begins
      exact ⟨key, ⟨e, he, live, hvalue⟩, rfl, rfl⟩

end Take

section Expire

theorem sound_expire (sound : r.tags.Sound) (now : Nat) : (r.expire now).tags.Sound :=
  sound.purge now

@[simp] theorem privateKey_expire (now : Nat) : (r.expire now).privateKey = r.privateKey := rfl

@[simp] theorem lifetime_expire (now : Nat) : (r.expire now).tags.lifetime = r.tags.lifetime :=
  Pool.lifetime_purge _ _

/-- The tag is at the front, and it is known and not too old. -/
theorem spent?_eq_some_iff (sound : r.tags.Sound) {now : Nat} {raw : Bytes} {t : SessionTag}
    {key : SessionKey} : r.spent? now raw = some (t, key) ↔
      t.Begins raw ∧ ∃ e, r.tags.stored? t = some e ∧ r.tags.isLive now e ∧ e.value = key := by
  have same : (r.expire now).tags.isLive now = r.tags.isLive now :=
    Pool.isLive_congr (lifetime_expire now) now
  rw [spent?, takeTag_fst_eq_some_iff (sound_expire sound now), same]
  simp only [expire, sound.stored?_purge, Option.filter_eq_some_iff]
  refine and_congr_right fun _ => exists_congr fun e => ?_
  constructor
  · intro hh
    obtain ⟨⟨he, live⟩, -, hvalue⟩ := hh
    exact ⟨he, live, hvalue⟩
  · intro hh
    obtain ⟨he, live, hvalue⟩ := hh
    exact ⟨⟨he, live⟩, live, hvalue⟩

end Expire

section Block

/-- The tags that a message brings. -/
def carried (r : Receiver) (now : Nat) (raw : Bytes) : List SessionTag :=
  (r.block? now raw).elim [] fun b => b.1.tags

theorem decryptHandshake_fst (raw : Bytes) :
    (r.decryptHandshake raw).1 = opened? r.privateKey raw := by
  unfold decryptHandshake opened?
  cases ElGamal.decrypt r.privateKey raw <;> rfl

theorem decryptHandshake_snd (raw : Bytes) :
    (r.decryptHandshake raw).2.tags = r.tags ∧
      (r.decryptHandshake raw).2.privateKey = r.privateKey := by
  unfold decryptHandshake
  cases ElGamal.decrypt r.privateKey raw <;> exact ⟨rfl, rfl⟩

theorem decryptBlock_of_tag {r₁ : Receiver} {now : Nat} {raw : Bytes} {t : SessionTag}
    {key : SessionKey} (ht : (r.expire now).takeTag now raw = (some (t, key), r₁)) :
    r.decryptBlock now raw =
      ((TagBlock.decrypt key t.octets (raw.drop 32)).toOption.map (·, key),
        { r₁ with stats := { r₁.stats with tagHits := r₁.stats.tagHits + 1 } }) := by
  unfold decryptBlock
  rw [expire] at ht
  simp only [ht]

theorem decryptBlock_of_no_tag {r₁ : Receiver} {now : Nat} {raw : Bytes}
    (ht : (r.expire now).takeTag now raw = (none, r₁)) :
    r.decryptBlock now raw = r₁.decryptHandshake raw := by
  unfold decryptBlock
  rw [expire] at ht
  simp only [ht]

theorem decryptBlock_eq (now : Nat) (raw : Bytes) :
    (r.decryptBlock now raw).1 = r.block? now raw ∧
      (r.decryptBlock now raw).2.tags = ((r.expire now).takeTag now raw).2.tags ∧
      (r.decryptBlock now raw).2.privateKey = r.privateKey := by
  have same := privateKey_takeTag (r := r.expire now) now raw
  unfold block? spent?
  cases ht : (r.expire now).takeTag now raw with
  | mk taken r₁ =>
    rw [ht, privateKey_expire] at same
    cases taken with
    | some t =>
      rw [decryptBlock_of_tag ht]
      exact ⟨rfl, rfl, same⟩
    | none =>
      obtain ⟨tags, key⟩ := r₁.decryptHandshake_snd raw
      rw [decryptBlock_of_no_tag ht, decryptHandshake_fst, same]
      exact ⟨rfl, tags, key.trans same⟩

theorem decrypt_of_unopened {r₁ : Receiver} {now : Nat} {raw : Bytes}
    (hb : r.decryptBlock now raw = (none, r₁)) : r.decrypt now raw =
      (none, { r₁ with stats := { r₁.stats with dropped := r₁.stats.dropped + 1 } }) := by
  unfold decrypt
  simp only [hb, Option.isSome_none, Bool.false_eq_true, if_false]

theorem decrypt_of_unread {r₁ : Receiver} {now : Nat} {raw : Bytes} {block : TagBlock}
    {key : SessionKey} (hb : r.decryptBlock now raw = (some (block, key), r₁))
    (hg : (Garlic.decode.front block.payload).toOption = none) :
    let q := r₁.harvest now block key
    r.decrypt now raw =
      (none, { q with stats := { q.stats with dropped := q.stats.dropped + 1 } }) := by
  unfold decrypt
  simp only [hb, hg, Option.isSome_none, Bool.false_eq_true, if_false]

theorem decrypt_of_read {r₁ : Receiver} {now : Nat} {raw : Bytes} {block : TagBlock}
    {key : SessionKey} {g : Garlic} (hb : r.decryptBlock now raw = (some (block, key), r₁))
    (hg : (Garlic.decode.front block.payload).toOption = some g) :
    r.decrypt now raw = (some g, r₁.harvest now block key) := by
  unfold decrypt
  simp only [hb, hg, Option.isSome_some, if_true]

theorem decrypt_eq (now : Nat) (raw : Bytes) :
    (r.decrypt now raw).1 =
        (r.block? now raw).bind (fun b => (Garlic.decode.front b.1.payload).toOption) ∧
      (r.decrypt now raw).2.tags =
        (r.block? now raw).elim ((r.expire now).takeTag now raw).2.tags (fun b =>
          b.1.tags.foldl (fun p t => p.insert t (b.1.newKey.getD b.2) now)
            ((r.expire now).takeTag now raw).2.tags) ∧
      (r.decrypt now raw).2.privateKey = r.privateKey := by
  obtain ⟨block, tags, key⟩ := r.decryptBlock_eq now raw
  rw [← block, ← tags, ← key]
  cases hb : r.decryptBlock now raw with
  | mk found r₁ =>
    cases found with
    | none =>
      rw [decrypt_of_unopened hb]
      exact ⟨rfl, rfl, rfl⟩
    | some b =>
      rw [Option.bind_some, Option.elim_some]
      cases hg : (Garlic.decode.front b.1.payload).toOption with
      | none =>
        rw [decrypt_of_unread hb hg]
        exact ⟨rfl, rfl, rfl⟩
      | some g =>
        rw [decrypt_of_read hb hg]
        exact ⟨rfl, rfl, rfl⟩

theorem decrypt_fst (now : Nat) (raw : Bytes) : (r.decrypt now raw).1 =
    (r.block? now raw).bind fun b => (Garlic.decode.front b.1.payload).toOption :=
  (r.decrypt_eq now raw).1

@[simp] theorem privateKey_decrypt (now : Nat) (raw : Bytes) :
    (r.decrypt now raw).2.privateKey = r.privateKey := (r.decrypt_eq now raw).2.2

@[simp] theorem lifetime_decrypt (now : Nat) (raw : Bytes) :
    (r.decrypt now raw).2.tags.lifetime = r.tags.lifetime := by
  rw [(r.decrypt_eq now raw).2.1]
  cases r.block? now raw with
  | none => rw [Option.elim_none, lifetime_takeTag, lifetime_expire]
  | some b => rw [Option.elim_some, Pool.lifetime_foldl_insert, lifetime_takeTag, lifetime_expire]

theorem sound_decrypt (sound : r.tags.Sound) (now : Nat) (raw : Bytes) :
    (r.decrypt now raw).2.tags.Sound := by
  rw [(r.decrypt_eq now raw).2.1]
  have taken := sound_takeTag (sound_expire sound now) now raw
  cases r.block? now raw with
  | none => exact taken
  | some b => exact taken.foldl_insert _ _ _

theorem stored?_of_carried (sound : r.tags.Sound) {now : Nat} {raw : Bytes} {t : SessionTag}
    (ht : t ∈ r.carried now raw) : ∃ b, r.block? now raw = some b ∧ t ∈ b.1.tags ∧
      (r.decrypt now raw).2.tags.stored? t = some ⟨t, b.1.newKey.getD b.2, now⟩ := by
  have taken := sound_takeTag (sound_expire sound now) now raw
  unfold carried at ht
  rw [(r.decrypt_eq now raw).2.1]
  cases hb : r.block? now raw with
  | none =>
    rw [hb] at ht
    cases ht
  | some b =>
    rw [hb, Option.elim_some] at ht
    refine ⟨b, rfl, ht, ?_⟩
    rw [Option.elim_some, taken.stored?_foldl_insert, if_pos ht]

/-- Of the others, the one at the front of the message and the stale ones are gone. -/
theorem stored?_of_not_carried (sound : r.tags.Sound) {now : Nat} {raw : Bytes} {t : SessionTag}
    (ht : t ∉ r.carried now raw) : (r.decrypt now raw).2.tags.stored? t =
      if t.Begins raw then none else (r.tags.stored? t).filter (r.tags.isLive now) := by
  have taken := sound_takeTag (sound_expire sound now) now raw
  have rest := stored?_takeTag (sound_expire sound now) now raw t
  rw [expire, sound.stored?_purge] at rest
  unfold carried at ht
  rw [(r.decrypt_eq now raw).2.1]
  cases hb : r.block? now raw with
  | none => exact rest
  | some b =>
    rw [hb, Option.elim_some] at ht
    rw [Option.elim_some, taken.stored?_foldl_insert, if_neg ht]
    exact rest

end Block

end Receiver

end GarlicRouting
