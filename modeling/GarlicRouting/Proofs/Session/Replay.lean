import GarlicRouting.Proofs.Session.Link
import Mathlib

/-! Messages that arrive more than once: the receiver takes a tag again exactly when a message has
brought it again. -/
namespace GarlicRouting

structure Arrival where
  now : Nat
  raw : Bytes

namespace Receiver

variable {r : Receiver} {cs : List Arrival} {c d : Arrival} {t : SessionTag} {now created : Nat}

def after (r : Receiver) (c : Arrival) : Receiver := (r.decrypt c.now c.raw).2

def run (r : Receiver) (cs : List Arrival) : Receiver := cs.foldl after r

theorem run_concat (cs : List Arrival) (d : Arrival) : r.run (cs ++ [d]) = (r.run cs).after d :=
  List.foldl_append

theorem run_append (bs cs : List Arrival) : r.run (bs ++ cs) = (r.run bs).run cs :=
  List.foldl_append

theorem sound_run (sound : r.tags.Sound) (cs : List Arrival) : (r.run cs).tags.Sound := by
  induction cs using List.reverseRecOn with
  | nil => exact sound
  | append_singleton cs d ih =>
    rw [run_concat]
    exact sound_decrypt ih d.now d.raw

theorem lifetime_run (cs : List Arrival) : (r.run cs).tags.lifetime = r.tags.lifetime := by
  induction cs using List.reverseRecOn with
  | nil => rfl
  | append_singleton cs d ih =>
    rw [run_concat]
    exact (lifetime_decrypt d.now d.raw).trans ih

/-- The message takes the tag. -/
def Spends (r : Receiver) (c : Arrival) (t : SessionTag) : Prop :=
  ∃ key, r.spent? c.now c.raw = some (t, key)

theorem spends_iff (sound : r.tags.Sound) :
    r.Spends c t ↔ t.Begins c.raw ∧ r.tags.contains t c.now := by
  rw [Pool.contains_iff]
  constructor
  · intro hh
    obtain ⟨key, spent⟩ := hh
    obtain ⟨begins, e, he, live, -⟩ := (spent?_eq_some_iff sound).mp spent
    exact ⟨begins, e, he, live⟩
  · intro hh
    obtain ⟨begins, e, he, live⟩ := hh
    exact ⟨e.value, (spent?_eq_some_iff sound).mpr ⟨begins, e, he, live, rfl⟩⟩

/-- A message from this time has brought the tag, and none has begun with it since. -/
def Brought (r : Receiver) (cs : List Arrival) (t : SessionTag) (created : Nat) : Prop :=
  ∃ before h since, cs = before ++ h :: since ∧ h.now = created ∧
    t ∈ (r.run before).carried h.now h.raw ∧ ∀ d ∈ since, ¬ t.Begins d.raw

theorem not_brought_nil : ¬ r.Brought [] t created := by
  intro hh
  obtain ⟨before, h, since, split, -⟩ := hh
  simp at split

theorem brought_concat_iff : r.Brought (cs ++ [d]) t created ↔
    (d.now = created ∧ t ∈ (r.run cs).carried d.now d.raw) ∨
      (r.Brought cs t created ∧ ¬ t.Begins d.raw) := by
  constructor
  · intro hh
    obtain ⟨before, h, since, split, time, brings, alone⟩ := hh
    rcases List.eq_nil_or_concat since with rfl | ⟨since, e, rfl⟩
    · obtain ⟨rfl, same⟩ := List.append_inj' split rfl
      obtain rfl := List.singleton_inj.mp same
      exact .inl ⟨time, brings⟩
    · rw [List.concat_eq_append, ← List.cons_append, ← List.append_assoc] at split
      obtain ⟨rfl, same⟩ := List.append_inj' split rfl
      obtain rfl := List.singleton_inj.mp same
      exact .inr ⟨⟨before, h, since, rfl, time, brings, fun f hf => alone f (by simp [hf])⟩,
        alone d (by simp)⟩
  · intro hh
    rcases hh with ⟨time, brings⟩ | ⟨⟨before, h, since, rfl, time, brings, alone⟩, other⟩
    · exact ⟨cs, d, [], rfl, time, brings, by simp⟩
    · refine ⟨before, h, since ++ [d], by simp, time, brings, fun f hf => ?_⟩
      rcases List.mem_append.mp hf with hf | hf
      · exact alone f hf
      · rwa [List.mem_singleton.mp hf]

/-- What was brought before a message that begins with the tag does not matter after it. -/
theorem brought_append_iff {bs : List Arrival} (begins : t.Begins c.raw) :
    r.Brought (bs ++ c :: cs) t created ↔ (r.run bs).Brought (c :: cs) t created := by
  constructor
  · intro hh
    obtain ⟨before, h, since, split, time, brings, alone⟩ := hh
    rcases List.append_eq_append_iff.mp split with ⟨early, rfl, tail⟩ | ⟨late, rfl, tail⟩
    · rw [run_append] at brings
      exact ⟨early, h, since, tail, time, brings, alone⟩
    · cases late with
      | nil =>
        rw [List.nil_append] at tail
        rw [List.append_nil]
        exact ⟨[], h, since, tail.symm, time, brings, alone⟩
      | cons e late =>
        obtain ⟨-, rfl⟩ := List.cons_eq_cons.mp tail
        exact absurd begins (alone c (by simp))
  · intro hh
    obtain ⟨before, h, since, split, time, brings, alone⟩ := hh
    rw [← run_append] at brings
    exact ⟨bs ++ before, h, since, by rw [split, List.append_assoc], time, brings, alone⟩

theorem brought_of_stored? (sound : r.tags.Sound) (fresh : r.tags.stored? t = none)
    {e : PoolEntry SessionTag SessionKey} (he : (r.run cs).tags.stored? t = some e) :
    r.Brought cs t e.created := by
  induction cs using List.reverseRecOn generalizing e with
  | nil =>
    rw [show (r.run []).tags.stored? t = none from fresh] at he
    cases he
  | append_singleton cs d ih =>
    rw [brought_concat_iff]
    rw [run_concat] at he
    have sound := sound_run sound cs
    by_cases brings : t ∈ (r.run cs).carried d.now d.raw
    · obtain ⟨b, -, -, entry⟩ := stored?_of_carried sound brings
      rw [after, entry] at he
      cases he
      exact .inl ⟨rfl, brings⟩
    · rw [after, stored?_of_not_carried sound brings] at he
      split_ifs at he with begins
      exact .inr ⟨ih (Option.filter_eq_some_iff.mp he).1, begins⟩

/-- A tag that was brought within the lifetime is known, from then on or later. -/
theorem stored?_of_brought (sound : r.tags.Sound)
    (ordered : (cs.map Arrival.now).Pairwise (· ≤ ·)) (bound : ∀ d ∈ cs, d.now ≤ now)
    (young : now - created ≤ r.tags.lifetime) (h : r.Brought cs t created) :
    ∃ e, (r.run cs).tags.stored? t = some e ∧ created ≤ e.created := by
  induction cs using List.reverseRecOn with
  | nil => exact absurd h not_brought_nil
  | append_singleton cs d ih =>
    rw [List.map_append, List.pairwise_append] at ordered
    obtain ⟨before, -, between⟩ := ordered
    have last : d.now ≤ now := bound d (by simp)
    rw [run_concat, after]
    have sound := sound_run sound cs
    by_cases brings : t ∈ (r.run cs).carried d.now d.raw
    · obtain ⟨b, -, -, entry⟩ := stored?_of_carried sound brings
      refine ⟨_, entry, ?_⟩
      rcases brought_concat_iff.mp h with ⟨time, -⟩ | ⟨⟨_, f, _, rfl, rfl, -⟩, -⟩
      · exact time.ge
      · exact between f.now (by simp) d.now (by simp)
    · rcases brought_concat_iff.mp h with ⟨-, here⟩ | ⟨h, other⟩
      · exact absurd here brings
      · obtain ⟨e, he, since⟩ := ih before (fun f hf => bound f (by simp [hf])) h
        refine ⟨e, ?_, since⟩
        -- the entry is not too old for the last message either
        have live : (r.run cs).tags.isLive d.now e := by
          rw [Pool.isLive, decide_eq_true_eq, lifetime_run]
          omega
        rw [stored?_of_not_carried sound brings, if_neg other, he, Option.filter_some, if_pos live]

/-- A message takes the tag at its front when that was brought, not too long ago. -/
theorem spends_iff_brought (sound : r.tags.Sound) (fresh : r.tags.stored? t = none)
    (ordered : ((cs ++ [c]).map Arrival.now).Pairwise (· ≤ ·)) :
    (r.run cs).Spends c t ↔
      t.Begins c.raw ∧ ∃ created, r.Brought cs t created ∧ c.now - created ≤ r.tags.lifetime := by
  rw [List.map_append, List.pairwise_append] at ordered
  obtain ⟨before, -, between⟩ := ordered
  rw [spends_iff (sound_run sound cs), Pool.contains_iff]
  refine and_congr_right fun _ => ⟨?_, ?_⟩
  · intro hh
    obtain ⟨e, he, live⟩ := hh
    rw [Pool.isLive, decide_eq_true_eq, lifetime_run] at live
    exact ⟨e.created, brought_of_stored? sound fresh he, live⟩
  · intro hh
    obtain ⟨created, brought, young⟩ := hh
    have bound (d : Arrival) (hd : d ∈ cs) : d.now ≤ c.now :=
      between d.now (List.mem_map_of_mem hd) c.now (by simp)
    obtain ⟨e, he, since⟩ := stored?_of_brought sound before bound young brought
    refine ⟨e, he, ?_⟩
    rw [Pool.isLive, decide_eq_true_eq, lifetime_run]
    omega

/-- After a message has taken a tag, another one takes it again exactly when one that arrived from
the first on has brought it again, not too long ago, and none has begun with it since. -/
theorem spends_again_iff (k : ElGamal.PrivateKey) (s : Settings) (first between : List Arrival)
    (a c : Arrival) (t : SessionTag)
    (ordered : ((first ++ a :: between ++ [c]).map Arrival.now).Pairwise (· ≤ ·))
    (spent : ((new k s).run first).Spends a t) :
    ((new k s).run (first ++ a :: between)).Spends c t ↔
      t.Begins c.raw ∧ ∃ created, ((new k s).run first).Brought (a :: between) t created ∧
        c.now - created ≤ s.receivedTagSpan.nanoseconds := by
  have sound : (new k s).tags.Sound := Pool.sound_of_empty rfl rfl
  have begins := ((spends_iff (sound_run sound first)).mp spent).1
  rw [spends_iff_brought sound rfl ordered]
  simp only [brought_append_iff begins]
  rfl

end Receiver

namespace Link

variable {ℓ : Link}

section Replay

variable {x n : Nat} {ds : List Draw} {L M : Letter} {t : SessionTag}

/-- Each time that a handshake arrives, a message with one of its tags takes that tag and is read,
whether or not the tag was taken before. -/
theorem Agrees.spends_of_handshake (h : Agrees x n ds ℓ) (hx : x < ElGamal.prime - 1)
    (fresh : Fresh n ds)
    (clear : Distinguishable (ElGamal.KeyPair.ofExponent x).privateKey ℓ.sent) (hL : L ∈ ℓ.sent)
    (handshake : L.message.path = .handshake) (ht : t ∈ L.tags) (hM : M ∈ ℓ.sent)
    (begins : t.Begins M.message.wire) (proper : ∀ c ∈ M.cloves, c.message.payload.Proper)
    {now later : Nat} (young : later - now ≤ ℓ.receiver.tags.lifetime) :
    (ℓ.deliver now L).receiver.Spends ⟨later, M.message.wire⟩ t ∧
      ((ℓ.deliver now L).receiver.decrypt later M.message.wire).1 = some M.garlic := by
  obtain ⟨key, -, entries⟩ := h.stores hx fresh clear hL now (.inl handshake)
  have entry := entries t ht
  have known : (ℓ.deliver now L).receiver.tags.contains t later := by
    refine Pool.contains_iff.mpr ⟨_, entry, ?_⟩
    rw [Pool.isLive, decide_eq_true_eq, Link.deliver, Receiver.lifetime_decrypt]
    exact young
  have after := h.deliver hx fresh clear hL now
  exact ⟨(Receiver.spends_iff after.soundTags).mpr ⟨begins, known⟩,
    (after.decrypt hx fresh clear hM proper later).1 (.inr ⟨t, begins, known⟩)⟩

/-- A receiver that is still to get any message reads one twice when the handshake that brings its tag
arrives twice. -/
theorem Agrees.replay (h : Agrees x n ds ℓ) (hx : x < ElGamal.prime - 1) (fresh : Fresh n ds)
    (clear : Distinguishable (ElGamal.KeyPair.ofExponent x).privateKey ℓ.sent) (hL : L ∈ ℓ.sent)
    (handshake : L.message.path = .handshake) (ht : t ∈ L.tags) (hM : M ∈ ℓ.sent)
    (begins : t.Begins M.message.wire) (proper : ∀ c ∈ M.cloves, c.message.payload.Proper)
    {s : Settings} {now later : Nat} (young : later - now ≤ s.receivedTagSpan.nanoseconds) :
    let r : Receiver := .new (ElGamal.KeyPair.ofExponent x).privateKey s
    let l : Arrival := ⟨now, L.message.wire⟩
    let m : Arrival := ⟨later, M.message.wire⟩
    ((r.run [l]).Spends m t ∧ ((r.run [l]).decrypt m.now m.raw).1.isSome) ∧
      (r.run [l, m, { l with now := later }]).Spends m t ∧
        ((r.run [l, m, { l with now := later }]).decrypt m.now m.raw).1.isSome := by
  intro r l m
  have unread := h.restart (r := r) rfl (Pool.sound_of_empty rfl rfl) fun _ => rfl
  have once := unread.deliver hx fresh clear hL now
  have taken := once.deliver hx fresh clear hM later
  obtain ⟨first, read⟩ :=
    unread.spends_of_handshake hx fresh clear hL handshake ht hM begins proper young
  have immediately : later - later ≤
      ((({ ℓ with receiver := r }).deliver now L).deliver later M).receiver.tags.lifetime := by
    rw [Nat.sub_self]
    exact Nat.zero_le _
  obtain ⟨again, readAgain⟩ :=
    taken.spends_of_handshake hx fresh clear hL handshake ht hM begins proper immediately
  exact ⟨⟨first, Option.isSome_of_eq_some read⟩, again, Option.isSome_of_eq_some readAgain⟩

end Replay

section Trial

/-- A first message, its acknowledgment, and a message with one of the tags. -/
def twoMessages : List Event := [greeting [], .deliver 0 0, .acknowledge 1, followUp 5]

theorem fresh_twoMessages : Fresh 15 (Event.draws twoMessages) := by decide +kernel

theorem distinguishable_twoMessages : Distinguishable (ElGamal.KeyPair.ofExponent 5).privateKey
    (trial.run twoMessages).sent := distinguishable_followUp

theorem letters_twoMessages :
    ∃ L ∈ (trial.run twoMessages).sent, ∃ M ∈ (trial.run twoMessages).sent, ∃ t ∈ L.tags,
      L.message.path = .handshake ∧ t.Begins M.message.wire ∧ M.cloves = [] := by
  rw [twoMessages, (run_followUp 5).2]
  decide +kernel

theorem replay_twoMessages {L M : Letter} {t : SessionTag} (hL : L ∈ (trial.run twoMessages).sent)
    (hM : M ∈ (trial.run twoMessages).sent) (ht : t ∈ L.tags)
    (handshake : L.message.path = .handshake) (begins : t.Begins M.message.wire)
    (cloves : M.cloves = []) :
    let r : Receiver := .new (ElGamal.KeyPair.ofExponent 5).privateKey {}
    let l : Arrival := ⟨0, L.message.wire⟩
    let m : Arrival := ⟨5, M.message.wire⟩
    ((r.run [l]).Spends m t ∧ ((r.run [l]).decrypt m.now m.raw).1.isSome) ∧
      (r.run [l, m, { l with now := 5 }]).Spends m t ∧
        ((r.run [l, m, { l with now := 5 }]).decrypt m.now m.raw).1.isSome := by
  have agrees := @agrees_run 5 ⟨.ofNat 32 9⟩ {} {} (by decide +kernel) twoMessages fresh_twoMessages
    distinguishable_twoMessages
  exact agrees.replay (by decide +kernel) fresh_twoMessages distinguishable_twoMessages hL handshake
    ht hM begins (by simp [cloves]) (by decide)

theorem spends_again_iff_twoMessages :
    let r : Receiver := .new (ElGamal.KeyPair.ofExponent 5).privateKey {}
    ∃ L ∈ (trial.run twoMessages).sent, ∃ M ∈ (trial.run twoMessages).sent, ∃ t,
      let l : Arrival := ⟨0, L.message.wire⟩
      let m : Arrival := ⟨5, M.message.wire⟩
      (([l] ++ m :: [{ l with now := 5 }] ++ [m]).map Arrival.now).Pairwise (· ≤ ·) ∧
        (r.run [l]).Spends m t ∧
        ((r.run ([l] ++ m :: [{ l with now := 5 }])).Spends m t ↔
          t.Begins m.raw ∧ ∃ created, (r.run [l]).Brought (m :: [{ l with now := 5 }]) t created ∧
            5 - created ≤ ({} : Settings).receivedTagSpan.nanoseconds) := by
  intro r
  obtain ⟨L, hL, M, hM, t, ht, handshake, begins, cloves⟩ := letters_twoMessages
  obtain ⟨⟨spent, -⟩, -⟩ := replay_twoMessages hL hM ht handshake begins cloves
  have ordered : (([⟨0, L.message.wire⟩] ++ (⟨5, M.message.wire⟩ : Arrival) ::
      [⟨5, L.message.wire⟩] ++ [⟨5, M.message.wire⟩] : List Arrival).map Arrival.now).Pairwise (· ≤ ·) := by
    show ([0, 5, 5, 5] : List Nat).Pairwise (· ≤ ·)
    decide
  refine ⟨L, hL, M, hM, t, ?_⟩
  intro l m
  refine ⟨ordered, spent, ?_⟩
  exact Receiver.spends_again_iff _ {} [l] [{ l with now := 5 }] m m t ordered spent

/-- The same tag is taken twice, and what it goes with is read twice, when the handshake arrives
again. -/
theorem tag_taken_twice :
    let r : Receiver := .new (ElGamal.KeyPair.ofExponent 5).privateKey {}
    Fresh 15 (Event.draws twoMessages) ∧
      Distinguishable (ElGamal.KeyPair.ofExponent 5).privateKey (trial.run twoMessages).sent ∧
      ∃ L ∈ (trial.run twoMessages).sent, ∃ M ∈ (trial.run twoMessages).sent, ∃ t,
        let l : Arrival := ⟨0, L.message.wire⟩
        let m : Arrival := ⟨5, M.message.wire⟩
        ((r.run [l]).Spends m t ∧ ((r.run [l]).decrypt m.now m.raw).1.isSome) ∧
          (r.run [l, m, { l with now := 5 }]).Spends m t ∧
            ((r.run [l, m, { l with now := 5 }]).decrypt m.now m.raw).1.isSome := by
  intro r
  obtain ⟨L, hL, M, hM, t, ht, handshake, begins, cloves⟩ := letters_twoMessages
  exact ⟨fresh_twoMessages, distinguishable_twoMessages, L, hL, M, hM, t,
    replay_twoMessages hL hM ht handshake begins cloves⟩

end Trial

end Link

end GarlicRouting
