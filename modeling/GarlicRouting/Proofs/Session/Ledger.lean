import GarlicRouting.Proofs.Session.Pool
import GarlicRouting.Proofs.Table
import Mathlib

/-! Runs of a pool. Whoever uses it sees a table of all that was put in and not taken out, and of
that the part that is live at the time; where entries stand and when stale ones go does not show. -/
namespace GarlicRouting

namespace Pool

inductive Operation (κ α : Type) where
  | insert (key : κ) (value : α) (created : Nat)
  | remove (key : κ) (now : Nat)
  | contains (key : κ) (now : Nat)
  | pick (now : Nat)
  | count (now : Nat)
  | purge (now : Nat)
  | clear

inductive Answer (κ α : Type) where
  | done
  | removed (value : Option α)
  | contained (known : Bool)
  | picked (entry : Option (κ × α))
  | counted (live : Nat)

/-- The time that an operation looks at; an insertion brings its own and looks at none. -/
def Operation.time? {κ α : Type} : Operation κ α → Option Nat
  | remove _ now | contains _ now | pick now | count now | purge now => some now
  | insert .. | clear => none

def times {κ α : Type} (os : List (Operation κ α)) : List Nat := os.filterMap Operation.time?

/-- An operation, and the random choices that a pick makes. -/
structure Turn (κ α : Type) where
  operation : Operation κ α
  picks : Nat → Nat

/-- An operation and its answer. -/
abbrev Exchange (κ α : Type) := Operation κ α × Answer κ α

variable {κ α : Type} [Ord κ]

/-- How many entries a purge takes out is left out: it tells which stale ones have gone before. -/
def perform (p : Pool κ α) (t : Turn κ α) : Answer κ α × Pool κ α :=
  match t.operation with
  | .insert key value created => (.done, p.insert key value created)
  | .remove key now => (.removed (p.remove key now).1, (p.remove key now).2)
  | .contains key now => (.contained (p.contains key now), p)
  | .pick now => (.picked (p.pick now t.picks).1, (p.pick now t.picks).2)
  | .count now => (.counted (p.count now), p)
  | .purge now => (.done, (p.purge now).2)
  | .clear => (.done, p.clear)

def exchange (p : Pool κ α) (t : Turn κ α) : Exchange κ α := (t.operation, (p.perform t).1)

def after (p : Pool κ α) (t : Turn κ α) : Pool κ α := (p.perform t).2

def run (p : Pool κ α) (ts : List (Turn κ α)) : Pool κ α := ts.foldl after p

def exchanges (p : Pool κ α) : List (Turn κ α) → List (Exchange κ α)
  | [] => []
  | t :: ts => p.exchange t :: (p.after t).exchanges ts

/-- The answers to picks one after the other at one time. -/
def drain (p : Pool κ α) (now : Nat) (choices : List (Nat → Nat)) : List (Answer κ α) :=
  (p.exchanges (choices.map (Turn.mk (.pick now)))).map Prod.snd

/-- Some choices lead to these exchanges. -/
def Gives (p : Pool κ α) (xs : List (Exchange κ α)) : Prop := ∃ ts, p.exchanges ts = xs

end Pool

/-- What was put in and neither taken out nor replaced: under its key the value and when it was
created. -/
abbrev Ledger (κ α : Type) := Table κ (α × Nat)

namespace Ledger

open Pool

variable {κ α : Type}

def live (m : Ledger κ α) (lifetime now : Nat) : Ledger κ α :=
  m.filter fun e => now - e.2 ≤ lifetime

/-- The keys with their values. -/
def items (m : Ledger κ α) : List (κ × α) := m.toList.map fun e => (e.1, e.2.1)

variable [DecidableEq κ]

/-- The answers that can be given: one to each operation but a pick, to which it is any live entry,
or none if none is live. -/
def Allows (m : Ledger κ α) (lifetime : Nat) : Exchange κ α → Prop
  | (.remove key now, a) => a = .removed (((m.live lifetime now).find? key).map Prod.fst)
  | (.contains key now, a) => a = .contained ((m.live lifetime now).contains key)
  | (.pick now, a) => ((m.live lifetime now).size = 0 ∧ a = .picked none) ∨
      ∃ key e, (m.live lifetime now).find? key = some e ∧ a = .picked (some (key, e.1))
  | (.count now, a) => a = .counted (m.live lifetime now).size
  | (.insert .., a) | (.purge _, a) | (.clear, a) => a = .done

def after (m : Ledger κ α) : Exchange κ α → Ledger κ α
  | (.insert key value created, _) => m.insert key (value, created)
  | (.remove key _, _) | (.pick _, .picked (some (key, _))) => m.erase key
  | (.clear, _) => .empty
  | _ => m

def run (m : Ledger κ α) (xs : List (Exchange κ α)) : Ledger κ α := xs.foldl after m

def AllowsAll (m : Ledger κ α) (lifetime : Nat) : List (Exchange κ α) → Prop
  | [] => True
  | x :: xs => m.Allows lifetime x ∧ (m.after x).AllowsAll lifetime xs

section Picks

variable {m : Ledger κ α} {lifetime now : Nat}

theorem live_erase (m : Ledger κ α) (lifetime now : Nat) (k : κ) :
    live (m.erase k) lifetime now = (m.live lifetime now).erase k :=
  congrArg Table.mk (List.filter_comm _ _ _)

/-- Picks at one time answer with every live entry once, in some order, and with none afterwards. -/
theorem AllowsAll.picks {answers : List (Answer κ α)} (distinct : m.Distinct)
    (allowed : m.AllowsAll lifetime (answers.map (.pick now, ·)))
    (enough : (m.live lifetime now).size ≤ answers.length) :
    ∃ picked : List (κ × α),
      picked.Perm (m.live lifetime now).items ∧
      answers = picked.map (fun e => .picked (some e)) ++
        List.replicate (answers.length - picked.length) (.picked none) := by
  induction answers generalizing m with
  | nil =>
    have none_live := List.length_eq_zero_iff.mp (Nat.le_zero.mp enough)
    exact ⟨[], by rw [items, none_live]; rfl, rfl⟩
  | cons answer answers ih =>
    -- Once nothing is live the ledger stays as it is; before that each pick makes it one shorter.
    obtain ⟨⟨none_live, rfl⟩ | ⟨k, e, found, rfl⟩, others⟩ := allowed
    · obtain ⟨picked, perm, rest⟩ := ih distinct others (none_live ▸ Nat.zero_le _)
      have nothing : picked = [] := by
        rw [items, List.length_eq_zero_iff.mp none_live] at perm
        exact perm.eq_nil
      subst nothing
      refine ⟨[], perm, ?_⟩
      rw [rest]
      simp [List.replicate_succ]
    · have first := (distinct.filter _).perm_erase found
      have fewer := first.length_eq
      rw [← live, ← live_erase] at first fewer
      have enough : (live (m.erase k) lifetime now).size ≤ answers.length := by
        rw [Table.size, List.length_cons] at *
        omega
      have items : (m.live lifetime now).items.Perm
          ((k, e.1) :: (live (m.erase k) lifetime now).items) := first.map _
      obtain ⟨picked, perm, rest⟩ := ih (distinct.erase k) others enough
      refine ⟨(k, e.1) :: picked, (perm.cons _).trans items.symm, ?_⟩
      rw [List.map_cons, List.cons_append, List.length_cons, List.length_cons,
        Nat.add_sub_add_right, ← rest]

end Picks

end Ledger

namespace Pool

variable {κ α : Type} [Ord κ] [DecidableEq κ]

/-- The entry of a pool for what a ledger has under a key. -/
def entryOf (x : κ × α × Nat) : PoolEntry κ α := ⟨x.1, x.2.1, x.2.2⟩

/-- Pool and ledger agree on all that is live at the time. -/
structure Represents (p : Pool κ α) (m : Ledger κ α) (now : Nat) : Prop where
  sound : p.Sound
  distinct : m.Distinct
  same : ∀ k, (p.stored? k).filter (p.isLive now) =
    ((m.find? k).map fun e => entryOf (k, e)).filter (p.isLive now)

section View

variable {p : Pool κ α} {m : Ledger κ α} {now next : Nat}

omit [DecidableEq κ] in
/-- What is not live at a time is not live later. -/
theorem filter_isLive_later (order : now ≤ next) (o : Option (PoolEntry κ α)) :
    (o.filter (p.isLive now)).filter (p.isLive next) = o.filter (p.isLive next) := by
  have earlier (e : PoolEntry κ α) (h : p.isLive next e) : p.isLive now e := by
    rw [isLive, decide_eq_true_eq] at h ⊢
    omega
  rw [Option.filter_filter]
  congr 1
  funext e
  rw [Bool.eq_iff_iff, Bool.and_eq_true]
  exact ⟨And.right, fun h => ⟨earlier e h, h⟩⟩

theorem Represents.later (h : p.Represents m now) (order : now ≤ next) : p.Represents m next where
  sound := h.sound
  distinct := h.distinct
  same k := by
    rw [← filter_isLive_later order, h.same, filter_isLive_later order]

theorem Represents.live_eq (h : p.Represents m now) (k : κ) :
    (p.stored? k).filter (p.isLive now) =
      ((m.live p.lifetime now).find? k).map fun e => entryOf (k, e) := by
  rw [h.same, Ledger.live, h.distinct.find?_filter]
  cases m.find? k with
  | none => rfl
  | some e =>
    have same : p.isLive now (entryOf (k, e)) = decide (now - e.2 ≤ p.lifetime) := rfl
    rw [Option.map_some, Option.filter_some, Option.filter_some, same]
    cases decide (now - e.2 ≤ p.lifetime) <;> rfl

theorem Represents.perm (h : p.Represents m now) :
    (p.entries.toList.filter (p.isLive now)).Perm
      ((m.live p.lifetime now).toList.map entryOf) := by
  have nodup : (p.entries.toList.filter (p.isLive now)).Nodup := h.sound.nodup.filter _
  have distinct : (m.live p.lifetime now).Distinct := h.distinct.filter _
  have injective : Function.Injective (entryOf : κ × α × Nat → PoolEntry κ α) := by
    intro x y hxy
    obtain ⟨hk, hv, hc⟩ := PoolEntry.mk.inj hxy
    exact Prod.ext hk (Prod.ext hv hc)
  refine (List.perm_ext_iff_of_nodup nodup (distinct.nodup.map injective)).mpr fun e => ?_
  rw [List.mem_filter, Array.mem_toList_iff, List.mem_map]
  have stored : (e ∈ p.entries ∧ p.isLive now e) ↔
      (p.stored? e.key).filter (p.isLive now) = some e := by
    rw [Option.filter_eq_some_iff, h.sound.stored?_eq_some_iff]
    simp only [and_true]
  rw [stored, h.live_eq, Option.map_eq_some_iff]
  constructor
  · intro hh
    obtain ⟨x, found, hx⟩ := hh
    exact ⟨_, distinct.mem_iff.mpr found, hx⟩
  · intro hh
    obtain ⟨⟨k, x⟩, hmem, rfl⟩ := hh
    exact ⟨x, distinct.mem_iff.mp hmem, rfl⟩

theorem Represents.count_eq (h : p.Represents m now) :
    p.count now = (m.live p.lifetime now).size := by
  rw [count, ← Array.countP_toList, List.countP_eq_length_filter, h.perm.length_eq,
    List.length_map, Table.size]

theorem Represents.remove_fst (h : p.Represents m now) (k : κ) :
    (p.remove k now).1 = ((m.live p.lifetime now).find? k).map Prod.fst := by
  have value : (p.remove k now).1 = ((p.stored? k).filter (p.isLive now)).map PoolEntry.value := by
    rw [h.sound.remove_fst]
    cases p.stored? k with
    | none => rfl
    | some e =>
      rw [Option.bind_some, Option.filter_some]
      split_ifs <;> rfl
  rw [value, h.live_eq, Option.map_map]
  rfl

theorem Represents.contains_eq (h : p.Represents m now) (k : κ) :
    p.contains k now = (m.live p.lifetime now).contains k := by
  have known : p.contains k now = ((p.stored? k).filter (p.isLive now)).isSome := by
    rw [Bool.eq_iff_iff, contains_iff, Option.isSome_iff_exists]
    simp only [Option.filter_eq_some_iff]
  rw [known, h.live_eq, Option.isSome_map, Table.contains]

/-- Only a key goes, and maybe what is not live. -/
theorem Represents.erase (h : p.Represents m now) {q : Pool κ α} {k : κ} (sound : q.Sound)
    (lifetime : q.lifetime = p.lifetime) (kept : ∀ a, (q.stored? a).filter (p.isLive now) =
      if k = a then none else (p.stored? a).filter (p.isLive now)) :
    q.Represents (m.erase k) now where
  sound := sound
  distinct := h.distinct.erase k
  same a := by
    rw [isLive_congr lifetime, kept, Table.find?_erase]
    by_cases ha : k = a
    · rw [if_pos ha, if_pos ha.symm]
      rfl
    · rw [if_neg ha, if_neg (Ne.symm ha)]
      exact h.same a

theorem Represents.picked_none (h : p.Represents m now) {q : Pool κ α} (empty : q.entries = #[])
    (sound : q.Sound) (lifetime : q.lifetime = p.lifetime)
    (stale : ∀ e ∈ p.entries, ¬ p.isLive now e) : q.Represents m now where
  sound := sound
  distinct := h.distinct
  same k := by
    have gone : q.stored? k = none := by
      rw [Option.eq_none_iff_forall_ne_some]
      intro e he
      have here := (sound.stored?_eq_some_iff.mp he).1
      simp [empty] at here
    have none_live : (p.stored? k).filter (p.isLive now) = none := by
      rw [Option.filter_eq_none_iff]
      intro e he
      exact stale e (h.sound.stored?_eq_some_iff.mp he).1
    rw [isLive_congr lifetime, gone, ← h.same, none_live, Option.filter_none]

end View

section Step

variable [Std.TransOrd κ] [Std.LawfulEqOrd κ] {p : Pool κ α} {m : Ledger κ α} {now : Nat}

omit [Std.LawfulEqOrd κ] in
theorem represents_empty {p : Pool κ α} (entries : p.entries = #[]) (index : p.index = ∅)
    (now : Nat) : p.Represents .empty now where
  sound := sound_of_empty entries index
  distinct := Table.distinct_empty
  same k := by simp [stored?, index, Table.find?, Table.empty]

theorem Represents.insert (h : p.Represents m now) (k : κ) (v : α) (created : Nat) :
    (p.insert k v created).Represents (m.insert k (v, created)) now where
  sound := h.sound.insert k v created
  distinct := h.distinct.insert k (v, created)
  same a := by
    rw [isLive_congr (lifetime_insert p k v created), h.sound.stored?_insert, Table.find?_insert]
    split_ifs with ha
    · rw [ha]
      rfl
    · exact h.same a

theorem Represents.remove (h : p.Represents m now) (k : κ) :
    (p.remove k now).2.Represents (m.erase k) now := by
  refine h.erase (h.sound.remove k now) (lifetime_remove p k now) fun a => ?_
  rw [h.sound.stored?_remove]
  split_ifs <;> rfl

theorem Represents.purge (h : p.Represents m now) : (p.purge now).2.Represents m now where
  sound := h.sound.purge now
  distinct := h.distinct
  same k := by
    rw [isLive_congr (lifetime_purge p now), h.sound.stored?_purge, filter_isLive_later le_rfl,
      h.same]

end Step

section Run

variable [Std.TransOrd κ] [Std.LawfulEqOrd κ] {p : Pool κ α} {m : Ledger κ α} {now : Nat}

/-- The time at which a turn leaves the pool. -/
def Turn.next (t : Turn κ α) (now : Nat) : Nat := t.operation.time?.getD now

theorem lifetime_pick (h : p.Sound) (now : Nat) (picks : Nat → Nat) :
    (p.pick now picks).2.lifetime = p.lifetime := by
  cases hp : p.pick now picks with
  | mk result q =>
    cases result with
    | none => exact (h.pickWithin_none le_rfl hp).2.1
    | some x => exact (h.pickWithin_some hp).lifetime

theorem lifetime_after (h : p.Sound) (t : Turn κ α) : (p.after t).lifetime = p.lifetime := by
  obtain ⟨operation, picks⟩ := t
  cases operation with
  | insert key value created => exact lifetime_insert p key value created
  | remove key now => exact lifetime_remove p key now
  | pick now => exact lifetime_pick h now picks
  | purge now => exact lifetime_purge p now
  | contains | count | clear => rfl

/-- A pick answers with a live entry, or else none is live. -/
theorem Represents.pick (h : p.Represents m now) (picks : Nat → Nat) :
    let x : Exchange κ α := (.pick now, .picked (p.pick now picks).1)
    m.Allows p.lifetime x ∧ (p.pick now picks).2.Represents (Ledger.after m x) now := by
  intro x
  cases hp : p.pick now picks with
  | mk result q =>
    cases result with
    | none =>
      obtain ⟨empty, lifetime, sound, stale⟩ := h.sound.pickWithin_none le_rfl hp
      have none_live : p.count now = 0 := count_eq_zero_iff.mpr stale
      rw [h.count_eq] at none_live
      simp only [x, hp]
      exact ⟨.inl ⟨none_live, rfl⟩, h.picked_none empty sound lifetime stale⟩
    | some kv =>
      obtain ⟨k, v⟩ := kv
      have taken := h.sound.pickWithin_some hp
      obtain ⟨e, he, live, value⟩ := taken.live
      have found := h.live_eq k
      rw [he, Option.filter_some, if_pos live] at found
      obtain ⟨y, hy, rfl⟩ := Option.map_eq_some_iff.mp found.symm
      simp only [x, hp]
      exact ⟨.inr ⟨k, y, hy, by rw [← value]; rfl⟩, h.erase taken.sound taken.lifetime taken.kept⟩

theorem Represents.turn (h : p.Represents m now) (t : Turn κ α) (order : now ≤ t.next now) :
    m.Allows p.lifetime (p.exchange t) ∧
      (p.after t).Represents (Ledger.after m (p.exchange t)) (t.next now) := by
  obtain ⟨operation, picks⟩ := t
  cases operation with
  | insert key value created => exact ⟨rfl, h.insert key value created⟩
  | remove key now =>
    have h := h.later order
    exact ⟨congrArg Answer.removed (h.remove_fst key), h.remove key⟩
  | contains key now =>
    have h := h.later order
    exact ⟨congrArg Answer.contained (h.contains_eq key), h⟩
  | pick now => exact (h.later order).pick picks
  | count now =>
    have h := h.later order
    exact ⟨congrArg Answer.counted h.count_eq, h⟩
  | purge now => exact ⟨rfl, (h.later order).purge⟩
  | clear => exact ⟨rfl, represents_empty rfl rfl _⟩

omit [Ord κ] [DecidableEq κ] [Std.TransOrd κ] [Std.LawfulEqOrd κ] in
theorem ordered_cons {o : Operation κ α} {os : List (Operation κ α)}
    (order : (now :: times (o :: os)).Pairwise (· ≤ ·)) :
    now ≤ o.time?.getD now ∧ (o.time?.getD now :: times os).Pairwise (· ≤ ·) := by
  rw [times, List.filterMap_cons] at order
  cases ht : o.time? with
  | none =>
    rw [ht] at order
    exact ⟨le_rfl, order⟩
  | some t =>
    rw [ht] at order
    obtain ⟨first, rest⟩ := List.pairwise_cons.mp order
    exact ⟨first t List.mem_cons_self, rest⟩

omit [DecidableEq κ] [Std.TransOrd κ] [Std.LawfulEqOrd κ] in
theorem fst_exchanges (p : Pool κ α) (ts : List (Turn κ α)) :
    (p.exchanges ts).map Prod.fst = ts.map Turn.operation := by
  induction ts generalizing p with
  | nil => rfl
  | cons t ts ih => rw [exchanges, List.map_cons, ih, List.map_cons, exchange]

omit [Ord κ] [DecidableEq κ] [Std.TransOrd κ] [Std.LawfulEqOrd κ] in
/-- The last time of the operations after one. -/
theorem getLastD_times (o : Operation κ α) (os : List (Operation κ α)) (now : Nat) :
    (times os).getLastD (o.time?.getD now) = (times (o :: os)).getLastD now := by
  rw [times, times, List.filterMap_cons]
  cases o.time? with
  | none => rfl
  | some t => rw [List.getLastD_cons]; rfl

theorem Represents.run (h : p.Represents m now) {ts : List (Turn κ α)}
    (order : (now :: times (ts.map Turn.operation)).Pairwise (· ≤ ·)) :
    m.AllowsAll p.lifetime (p.exchanges ts) ∧ (p.run ts).lifetime = p.lifetime ∧
      (p.run ts).Represents (Ledger.run m (p.exchanges ts))
        ((times (ts.map Turn.operation)).getLastD now) := by
  induction ts generalizing p m now with
  | nil => exact ⟨trivial, rfl, h⟩
  | cons t ts ih =>
    obtain ⟨first, rest⟩ := ordered_cons order
    obtain ⟨allowed, represents⟩ := h.turn t first
    have lifetime := lifetime_after h.sound t
    obtain ⟨others, lifetime', represents'⟩ := ih represents rest
    rw [lifetime] at others lifetime'
    rw [Turn.next, getLastD_times] at represents'
    exact ⟨⟨allowed, others⟩, lifetime', represents'⟩

omit [Std.TransOrd κ] [Std.LawfulEqOrd κ] in
theorem Represents.exists_pick (h : p.Represents m now) {k : κ} {e : α × Nat}
    (found : (m.live p.lifetime now).find? k = some e) :
    ∃ picks, (p.pick now picks).1 = some (k, e.1) := by
  have here := h.live_eq k
  rw [found, Option.map_some, Option.filter_eq_some_iff, h.sound.stored?_eq_some_iff] at here
  obtain ⟨⟨mem, -⟩, live⟩ := here
  obtain ⟨i, hi, at_i⟩ := Array.mem_iff_getElem.mp mem
  refine ⟨fun _ => i, ?_⟩
  rw [p.pick_of_live hi (by rwa [at_i]), at_i]
  rfl

/-- To every exchange that the ledger allows some choices lead. -/
theorem Represents.exists_turn (h : p.Represents m now) {x : Exchange κ α}
    (order : now ≤ x.1.time?.getD now) (allowed : m.Allows p.lifetime x) :
    ∃ t : Turn κ α, t.operation = x.1 ∧ p.exchange t = x := by
  obtain ⟨operation, answer⟩ := x
  cases operation with
  | pick now =>
    have h := h.later order
    rcases allowed with ⟨none_live, rfl⟩ | ⟨k, e, found, rfl⟩
    · -- Any choices will do, as the pool cannot answer with an entry.
      refine ⟨⟨.pick now, id⟩, rfl, Prod.ext rfl ?_⟩
      rcases (h.pick id).1 with ⟨-, answer⟩ | ⟨k, e, found, -⟩
      · exact answer
      · exact absurd none_live (List.length_pos_of_mem (Table.mem_of_find? found)).ne'
    · obtain ⟨picks, hp⟩ := h.exists_pick found
      exact ⟨⟨.pick now, picks⟩, rfl, Prod.ext rfl (congrArg Answer.picked hp)⟩
  | insert | remove | contains | count | purge | clear =>
    -- The ledger allows one answer, and the pool gives one that it allows.
    exact ⟨⟨_, id⟩, rfl, Prod.ext rfl ((h.turn ⟨_, id⟩ order).1.trans allowed.symm)⟩

/-- The pool answers as the ledger allows, and in every way that it allows. -/
theorem Represents.gives_iff (h : p.Represents m now) {xs : List (Exchange κ α)}
    (order : (now :: times (xs.map Prod.fst)).Pairwise (· ≤ ·)) :
    p.Gives xs ↔ m.AllowsAll p.lifetime xs := by
  constructor
  · intro hh
    obtain ⟨ts, rfl⟩ := hh
    rw [fst_exchanges] at order
    exact (h.run order).1
  · intro allowed
    induction xs generalizing p m now with
    | nil => exact ⟨[], rfl⟩
    | cons x xs ih =>
      obtain ⟨first, rest⟩ := ordered_cons order
      obtain ⟨t, operation, exchanged⟩ := h.exists_turn first allowed.1
      have represents := (h.turn t (by rwa [Turn.next, operation])).2
      rw [exchanged, Turn.next, operation] at represents
      have others : (Ledger.after m x).AllowsAll (p.after t).lifetime xs := by
        rw [lifetime_after h.sound]
        exact allowed.2
      obtain ⟨ts, hts⟩ := ih represents rest others
      exact ⟨t :: ts, by rw [exchanges, exchanged, hts]⟩

omit [DecidableEq κ] [Std.TransOrd κ] [Std.LawfulEqOrd κ] in
theorem exchanges_picks (p : Pool κ α) (now : Nat) (choices : List (Nat → Nat)) :
    p.exchanges (choices.map (Turn.mk (.pick now))) = (p.drain now choices).map (.pick now, ·) := by
  unfold drain
  induction choices generalizing p with
  | nil => rfl
  | cons picks choices ih =>
    rw [List.map_cons, exchanges, List.map_cons, List.map_cons, ← ih]
    rfl

omit [DecidableEq κ] [Std.TransOrd κ] [Std.LawfulEqOrd κ] in
theorem length_drain (p : Pool κ α) (now : Nat) (choices : List (Nat → Nat)) :
    (p.drain now choices).length = choices.length := by
  have operations := congrArg List.length (fst_exchanges p (choices.map (Turn.mk (.pick now))))
  rwa [List.length_map, List.length_map, List.length_map, ← List.length_map Prod.snd] at operations

omit [Ord κ] [DecidableEq κ] [Std.TransOrd κ] [Std.LawfulEqOrd κ] in
theorem ordered_picks (now : Nat) (choices : List (Nat → Nat)) :
    (now :: times ((choices.map (Turn.mk (.pick now))).map
      (Turn.operation : Turn κ α → _))).Pairwise (· ≤ ·) := by
  have same : times ((choices.map (Turn.mk (.pick now))).map (Turn.operation : Turn κ α → _)) =
      List.replicate choices.length now := by
    induction choices with
    | nil => rfl
    | cons picks choices ih => exact congrArg (List.cons now) ih
  rw [same, ← List.replicate_succ, List.pairwise_replicate]
  exact .inr le_rfl

theorem Represents.drain (h : p.Represents m now) (choices : List (Nat → Nat))
    (enough : (m.live p.lifetime now).size ≤ choices.length) :
    ∃ picked : List (κ × α), picked.Perm (m.live p.lifetime now).items ∧
      p.drain now choices = picked.map (fun e => .picked (some e)) ++
        List.replicate (choices.length - picked.length) (.picked none) := by
  have allowed := (h.run (ordered_picks now choices)).1
  rw [exchanges_picks] at allowed
  rw [← length_drain p now] at enough ⊢
  exact allowed.picks h.distinct enough

/-- A pool that was empty keeps every key once and an exact index, and answers as the ledger of its
exchanges allows. Picks at one time give all that is live; a purge takes all that is not, and no
later answer tells that it was made. -/
theorem answers_of_ledger (lifetime : Nat) (turns : List (Turn κ α))
    (ordered : (times (turns.map Turn.operation)).Pairwise (· ≤ ·)) :
    let fresh : Pool κ α := { lifetime }
    let p := fresh.run turns
    let m := Ledger.run .empty (fresh.exchanges turns)
    (p.entries.toList.map PoolEntry.key).Nodup ∧ p.Sound ∧ m.Distinct ∧
      Ledger.AllowsAll .empty lifetime (fresh.exchanges turns) ∧
      ∀ now, (∀ t ∈ times (turns.map Turn.operation), t ≤ now) →
        (∀ choices : List (Nat → Nat), (m.live lifetime now).size ≤ choices.length →
          ∃ picked : List (κ × α), picked.Perm (m.live lifetime now).items ∧
            p.drain now choices = picked.map (fun e => .picked (some e)) ++
              List.replicate (choices.length - picked.length) (.picked none)) ∧
        (p.purge now).1 = p.entries.countP (fun e => !p.isLive now e) ∧
        (p.purge now).2.entries = p.entries.filter (p.isLive now) ∧
        ∀ xs : List (Exchange κ α), (now :: times (xs.map Prod.fst)).Pairwise (· ≤ ·) →
          (p.Gives xs ↔ m.AllowsAll lifetime xs) ∧ ((p.purge now).2.Gives xs ↔ p.Gives xs) := by
  intro fresh p m
  have start : fresh.Represents .empty 0 := represents_empty rfl rfl 0
  have order : (0 :: times (turns.map Turn.operation)).Pairwise (· ≤ ·) :=
    List.pairwise_cons.mpr ⟨fun t _ => Nat.zero_le t, ordered⟩
  obtain ⟨allowed, same, represents⟩ := start.run order
  refine ⟨represents.sound.nodup_keys, represents.sound, represents.distinct, allowed,
    fun now last => ?_⟩
  have h : p.Represents m now := by
    refine represents.later ?_
    rcases List.mem_cons.mp List.getLastD_mem_cons with first | here
    · rw [first]
      exact Nat.zero_le now
    · exact last _ here
  have same : p.lifetime = lifetime := same
  rw [← same]
  refine ⟨h.drain, p.purge_fst now, p.entries_purge now, fun xs later => ?_⟩
  have purged := h.purge.gives_iff later
  rw [lifetime_purge] at purged
  exact ⟨h.gives_iff later, purged.trans (h.gives_iff later).symm⟩

/-- Of three keys one is replaced, one taken out when it is stale and one left to go stale: a pick
then finds the first and leaves nothing. -/
theorem answers_of_ledger_threeKeys :
    let turns : List (Turn Nat Nat) := [⟨.insert 1 10 0, id⟩, ⟨.insert 2 20 5, id⟩,
      ⟨.insert 3 30 20, id⟩, ⟨.insert 2 21 40, id⟩, ⟨.remove 1 70, id⟩, ⟨.count 70, id⟩]
    let p : Pool Nat Nat := ({ lifetime := 60 } : Pool Nat Nat).run turns
    (times (turns.map Turn.operation)).Pairwise (· ≤ ·) ∧ p.Sound ∧ (p.purge 95).1 = 1 ∧
      p.Gives [(.contains 3 95, .contained false), (.pick 95, .picked (some (2, 21))),
        (.count 95, .counted 0), (.pick 96, .picked none)] := by
  intro turns p
  have ordered : (times (turns.map Turn.operation)).Pairwise (· ≤ ·) := by decide
  obtain ⟨-, sound, -, -, later⟩ := answers_of_ledger 60 turns ordered
  obtain ⟨-, purged, -, answers⟩ := later 95 (by decide)
  refine ⟨ordered, sound, purged.trans (by decide +kernel), (answers _ (by decide)).1.mpr ?_⟩
  exact ⟨congrArg Answer.contained (by decide +kernel),
    .inr ⟨2, (21, 40), by decide +kernel, rfl⟩, congrArg Answer.counted (by decide +kernel),
    .inl ⟨by decide +kernel, rfl⟩, trivial⟩

end Run

end Pool

end GarlicRouting
