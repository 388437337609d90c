import GarlicRouting.Identity
import GarlicRouting.Session.Pool
import GarlicRouting.Proofs.Octets
import Mathlib

/-! Pools as maps from keys to entries: the index tells the position of every key, and each
operation has one equation for the map. -/
namespace GarlicRouting.Pool

variable {κ α : Type} [Ord κ]

def keyAt (p : Pool κ α) (i : Nat) : Option κ := p.entries[i]?.map PoolEntry.key

/-- The index tells exactly where every key is. -/
def Sound (p : Pool κ α) : Prop := ∀ (k : κ) (i : Nat), p.index[k]? = some i ↔ p.keyAt i = some k

/-- The entry of a key, stale or not. -/
def stored? (p : Pool κ α) (k : κ) : Option (PoolEntry κ α) := p.index[k]?.bind (p.entries[·]?)

theorem isLive_congr {p q : Pool κ α} (h : q.lifetime = p.lifetime) (now : Nat) :
    q.isLive now = p.isLive now := by
  funext e
  rw [isLive, h, isLive]

section Lookup

variable {p : Pool κ α}

theorem keyAt_eq_some_iff {k : κ} {i : Nat} :
    p.keyAt i = some k ↔ ∃ e, p.entries[i]? = some e ∧ e.key = k := Option.map_eq_some_iff

theorem keyAt_eq_none_iff {i : Nat} : p.keyAt i = none ↔ p.entries.size ≤ i := by
  rw [keyAt, Option.map_eq_none_iff, Array.getElem?_eq_none_iff]

theorem lt_size_of_keyAt {k : κ} {i : Nat} (h : p.keyAt i = some k) : i < p.entries.size := by
  by_contra hi
  rw [keyAt_eq_none_iff.mpr (not_lt.mp hi)] at h
  cases h

theorem Sound.stored?_eq_some_iff (h : p.Sound) {k : κ} {e : PoolEntry κ α} :
    p.stored? k = some e ↔ e ∈ p.entries ∧ e.key = k := by
  rw [stored?, Option.bind_eq_some_iff, Array.mem_iff_getElem?]
  constructor
  · intro hh
    obtain ⟨i, hi, he⟩ := hh
    obtain ⟨f, hf, rfl⟩ := keyAt_eq_some_iff.mp ((h k i).mp hi)
    rw [he, Option.some.injEq] at hf
    exact ⟨⟨i, he⟩, by rw [hf]⟩
  · intro hh
    obtain ⟨⟨i, he⟩, rfl⟩ := hh
    exact ⟨i, (h e.key i).mpr (keyAt_eq_some_iff.mpr ⟨e, he, rfl⟩), he⟩

theorem Sound.stored?_of_mem (h : p.Sound) {e : PoolEntry κ α} (he : e ∈ p.entries) :
    p.stored? e.key = some e := h.stored?_eq_some_iff.mpr ⟨he, rfl⟩

theorem Sound.keyAt_inj (h : p.Sound) {i j : Nat} {k : κ} (hi : p.keyAt i = some k)
    (hj : p.keyAt j = some k) : i = j := by
  have hij := (h k i).mpr hi
  rw [(h k j).mpr hj, Option.some.injEq] at hij
  exact hij.symm

theorem Sound.stored?_ext (h : p.Sound) {f : κ → Option (PoolEntry κ α)}
    (hf : ∀ k e, f k = some e ↔ e ∈ p.entries ∧ e.key = k) (k : κ) : p.stored? k = f k := by
  apply Option.ext
  intro e
  rw [h.stored?_eq_some_iff, hf]

theorem Sound.nodup_keys (h : p.Sound) : (p.entries.toList.map PoolEntry.key).Nodup := by
  rw [List.nodup_iff_getElem?_ne_getElem?]
  intro i j hij hj heq
  have hj' : j < p.entries.size := by simpa using hj
  have at_i : p.keyAt i = some p.entries[i].key := by simp [keyAt, hij.trans hj']
  have at_j : p.keyAt j = some p.entries[j].key := by simp [keyAt, hj']
  have key : p.entries[i].key = p.entries[j].key := by simpa [hij.trans hj', hj'] using heq
  rw [key] at at_i
  exact hij.ne (h.keyAt_inj at_i at_j)

theorem Sound.nodup (h : p.Sound) : p.entries.toList.Nodup :=
  List.Nodup.of_map PoolEntry.key h.nodup_keys

/-- A pool that has what another one keeps of every key. -/
theorem Sound.perm_filter (h : p.Sound) {q : Pool κ α} (hq : q.Sound) {keep : PoolEntry κ α → Bool}
    (same : ∀ k, q.stored? k = (p.stored? k).filter keep) :
    q.entries.toList.Perm (p.entries.toList.filter keep) := by
  refine (List.perm_ext_iff_of_nodup hq.nodup (h.nodup.filter _)).mpr fun e => ?_
  have here : e ∈ q.entries ↔ q.stored? e.key = some e := by simp [hq.stored?_eq_some_iff]
  rw [List.mem_filter, Array.mem_toList_iff, Array.mem_toList_iff, here, same,
    Option.filter_eq_some_iff, h.stored?_eq_some_iff]
  simp only [and_true]

end Lookup

private theorem keyAt_insert (p : Pool κ α) (k : κ) (v : α) (created i : Nat) (h : p.Sound) :
    (p.insert k v created).keyAt i =
      if p.index[k]? = none ∧ i = p.entries.size then some k else p.keyAt i := by
  unfold Pool.insert keyAt
  cases hk : p.index[k]? with
  | some j =>
    have hj := (h k j).mp hk
    have := lt_size_of_keyAt hj
    simp only [keyAt] at hj
    simp only [Array.getElem?_setIfInBounds]
    grind
  | none =>
    simp only [Array.getElem?_push]
    grind

/-- The last entry moves to the position that becomes free. -/
theorem getElem?_removeAt (p : Pool κ α) (i : Nat) (hi : i < p.entries.size) (j : Nat) :
    (p.removeAt i hi).2.entries[j]? =
      if j < p.entries.size - 1 then
        (if j = i then p.entries[p.entries.size - 1]? else p.entries[j]?) else none := by
  unfold removeAt
  simp only [Array.getElem?_pop, Array.getElem?_swap, Array.size_swap]
  grind

theorem size_removeAt (p : Pool κ α) (i : Nat) (hi : i < p.entries.size) :
    (p.removeAt i hi).2.entries.size = p.entries.size - 1 := by
  simp [removeAt]

theorem size_remove (p : Pool κ α) (k : κ) (now : Nat) :
    (p.remove k now).2.size + (p.remove k now).1.toList.length ≤ p.size := by
  unfold Pool.remove size
  cases p.index[k]? with
  | none => exact le_rfl
  | some i =>
    by_cases hi : i < p.entries.size
    · have fewer := size_removeAt p i hi
      simp only [hi, dif_pos, fewer]
      split_ifs <;> simp only [Option.toList_some, Option.toList_none, List.length_singleton,
        List.length_nil] <;> omega
    · simp only [hi, dif_neg, not_false_eq_true]
      exact le_rfl

theorem Sound.remove_fst {p : Pool κ α} (h : p.Sound) (k : κ) (now : Nat) :
    (p.remove k now).1 =
      (p.stored? k).bind fun e => if p.isLive now e then some e.value else none := by
  unfold Pool.remove stored?
  cases hk : p.index[k]? with
  | none => rfl
  | some i =>
    have hi := lt_size_of_keyAt ((h k i).mp hk)
    simp only [hi, dif_pos, Option.bind_some, Array.getElem?_eq_getElem hi]
    rfl

theorem lifetime_remove (p : Pool κ α) (k : κ) (now : Nat) :
    (p.remove k now).2.lifetime = p.lifetime := by
  unfold Pool.remove
  cases p.index[k]? with
  | none => rfl
  | some i =>
    by_cases hi : i < p.entries.size
    · simp only [hi, dif_pos]
      rfl
    · simp only [hi, dif_neg, not_false_eq_true]

theorem entries_purge (p : Pool κ α) (now : Nat) :
    (p.purge now).2.entries = p.entries.filter (p.isLive now) := by
  unfold purge
  simp only
  split_ifs with hsize
  · exact (Array.filter_eq_self.mpr (Array.filter_size_eq_size.mp hsize)).symm
  · rfl

theorem purge_fst (p : Pool κ α) (now : Nat) :
    (p.purge now).1 = p.entries.countP fun e => !p.isLive now e := by
  have whole : p.entries.size = p.entries.countP (p.isLive now) +
      p.entries.countP fun e => !p.isLive now e := by
    simpa using Array.size_eq_countP_add_countP (p := p.isLive now)
  rw [Array.countP_eq_size_filter] at whole
  unfold purge
  simp only
  split_ifs with hsize
  · omega
  · omega

theorem mem_purge (p : Pool κ α) (now : Nat) (e : PoolEntry κ α) :
    e ∈ (p.purge now).2.entries ↔ e ∈ p.entries ∧ p.isLive now e := by
  rw [entries_purge, Array.mem_filter]

theorem lifetime_purge (p : Pool κ α) (now : Nat) : (p.purge now).2.lifetime = p.lifetime := by
  unfold Pool.purge
  simp only
  split_ifs <;> rfl

theorem lifetime_insert (p : Pool κ α) (k : κ) (v : α) (created : Nat) :
    (p.insert k v created).lifetime = p.lifetime := by
  unfold Pool.insert
  cases p.index[k]? <;> rfl

theorem size_purge_le (p : Pool κ α) (now : Nat) : (p.purge now).2.size ≤ p.size := by
  rw [size, entries_purge]
  exact Array.size_filter_le

theorem size_insert_le (p : Pool κ α) (k : κ) (v : α) (created : Nat) :
    (p.insert k v created).size ≤ p.size + 1 := by
  unfold Pool.insert size
  cases p.index[k]? <;> simp

theorem size_foldl_insert_le (p : Pool κ α) (ks : List κ) (v : α) (created : Nat) :
    (ks.foldl (fun p k => p.insert k v created) p).size ≤ p.size + ks.length := by
  induction ks generalizing p with
  | nil => exact le_rfl
  | cons k ks ih =>
    have first := size_insert_le p k v created
    have rest := ih (p.insert k v created)
    rw [List.foldl_cons, List.length_cons]
    omega

theorem contains_iff {p : Pool κ α} {k : κ} {now : Nat} :
    p.contains k now ↔ ∃ e, p.stored? k = some e ∧ p.isLive now e := by
  unfold Pool.contains stored?
  cases p.index[k]? with
  | none => simp
  | some i => simp [Option.any_eq_true]

variable [Std.TransOrd κ] [Std.LawfulEqOrd κ] [DecidableEq κ]

private theorem getElem?_insert (t : Std.TreeMap κ Nat) (k a : κ) (i : Nat) :
    (t.insert k i)[a]? = if k = a then some i else t[a]? := by
  rw [Std.TreeMap.getElem?_insert]
  simp only [Std.LawfulEqOrd.compare_eq_iff_eq]

private theorem getElem?_erase (t : Std.TreeMap κ Nat) (k a : κ) :
    (t.erase k)[a]? = if k = a then none else t[a]? := by
  rw [Std.TreeMap.getElem?_erase]
  simp only [Std.LawfulEqOrd.compare_eq_iff_eq]

omit [Std.LawfulEqOrd κ] [DecidableEq κ] in
theorem sound_of_empty {p : Pool κ α} (entries : p.entries = #[]) (index : p.index = ∅) :
    p.Sound := by
  intro k i
  simp [keyAt, entries, index]

section Insert

variable {p : Pool κ α}

theorem Sound.insert (h : p.Sound) (k : κ) (v : α) (created : Nat) :
    (p.insert k v created).Sound := by
  intro a i
  rw [keyAt_insert p k v created i h]
  have ha := h a i
  have beyond : p.keyAt p.entries.size = none := keyAt_eq_none_iff.mpr le_rfl
  unfold Pool.insert
  cases hk : p.index[k]? with
  | some j => simpa using ha
  | none =>
    have absent := h k i
    simp only [getElem?_insert]
    grind

theorem Sound.stored?_insert (h : p.Sound) (k : κ) (v : α) (created : Nat) (a : κ) :
    (p.insert k v created).stored? a = if a = k then some ⟨k, v, created⟩ else p.stored? a := by
  have at_k (j : Nat) := h k j
  have at_a (j : Nat) := h a j
  have bound (k : κ) (j : Nat) := lt_size_of_keyAt (p := p) (k := k) (i := j)
  unfold Pool.insert stored?
  cases hk : p.index[k]? with
  | some i =>
    simp only
    cases ha : p.index[a]? with
    | none => grind
    | some j =>
      simp only [Option.bind_some, Array.getElem?_setIfInBounds]
      grind
  | none =>
    simp only [getElem?_insert]
    split_ifs with hka ha ha
    · simp [hka]
    · exact absurd hka.symm ha
    · exact absurd ha.symm hka
    · cases ha : p.index[a]? with
      | none => rfl
      | some j =>
        simp only [Option.bind_some, Array.getElem?_push]
        grind

theorem Sound.foldl_insert (h : p.Sound) (ks : List κ) (v : α) (created : Nat) :
    (ks.foldl (fun p k => p.insert k v created) p).Sound := by
  induction ks generalizing p with
  | nil => exact h
  | cons k ks ih => exact ih (h.insert k v created)

omit [Std.TransOrd κ] [Std.LawfulEqOrd κ] [DecidableEq κ] in
theorem lifetime_foldl_insert (p : Pool κ α) (ks : List κ) (v : α) (created : Nat) :
    (ks.foldl (fun p k => p.insert k v created) p).lifetime = p.lifetime := by
  induction ks generalizing p with
  | nil => rfl
  | cons k ks ih => rw [List.foldl_cons, ih, lifetime_insert]

theorem Sound.stored?_foldl_insert (h : p.Sound) (ks : List κ) (v : α) (created : Nat) (a : κ) :
    (ks.foldl (fun p k => p.insert k v created) p).stored? a =
      if a ∈ ks then some ⟨a, v, created⟩ else p.stored? a := by
  induction ks generalizing p with
  | nil => rw [List.foldl_nil, if_neg List.not_mem_nil]
  | cons k ks ih =>
    rw [List.foldl_cons, ih (h.insert k v created), h.stored?_insert]
    by_cases hks : a ∈ ks
    · rw [if_pos hks, if_pos (List.mem_cons_of_mem k hks)]
    · rw [if_neg hks]
      by_cases hk : a = k
      · rw [if_pos hk, if_pos (hk ▸ List.mem_cons_self), hk]
      · rw [if_neg hk, if_neg (by simp [hk, hks])]

end Insert

section Clear

variable {p : Pool κ α}

omit [Std.LawfulEqOrd κ] [DecidableEq κ] in
theorem sound_clear (p : Pool κ α) : p.clear.Sound := sound_of_empty rfl rfl

omit [Std.LawfulEqOrd κ] [DecidableEq κ] in
@[simp] theorem stored?_clear (p : Pool κ α) (k : κ) : p.clear.stored? k = none := by
  simp [stored?, clear]

end Clear

section Remove

variable {p : Pool κ α}

private theorem index_removeAt (p : Pool κ α) (i : Nat) (hi : i < p.entries.size) (k : κ) :
    (p.removeAt i hi).2.index[k]? =
      if i < p.entries.size - 1 ∧ p.keyAt (p.entries.size - 1) = some k then some i
      else if p.keyAt i = some k then none else p.index[k]? := by
  have moved := getElem?_removeAt p i hi i
  have first : p.keyAt i = some p.entries[i].key := by simp [keyAt, hi]
  have last : p.entries.size - 1 < p.entries.size := by omega
  have final : p.keyAt (p.entries.size - 1) = some p.entries[p.entries.size - 1].key := by
    simp [keyAt, last]
  rw [if_pos rfl, Array.getElem?_eq_getElem last] at moved
  simp only [first, final, Option.some.injEq]
  unfold removeAt at moved ⊢
  simp only at moved ⊢
  rw [moved]
  by_cases hend : i < p.entries.size - 1
  · simp only [hend, if_true, true_and, getElem?_insert, getElem?_erase]
  · simp only [hend, if_false, false_and, getElem?_erase]

theorem Sound.removeAt (h : p.Sound) (i : Nat) (hi : i < p.entries.size) :
    (p.removeAt i hi).2.Sound := by
  intro k j
  have inj (i j : Nat) (k : κ) := h.keyAt_inj (i := i) (j := j) (k := k)
  have bound (j : Nat) := lt_size_of_keyAt (p := p) (k := k) (i := j)
  have hk := h k
  have after : (p.removeAt i hi).2.keyAt j = if j < p.entries.size - 1 then
      (if j = i then p.keyAt (p.entries.size - 1) else p.keyAt j) else none := by
    rw [keyAt, getElem?_removeAt]
    split_ifs <;> rfl
  rw [after, index_removeAt]
  grind

theorem Sound.stored?_removeAt (h : p.Sound) (i : Nat) (hi : i < p.entries.size) (k : κ) :
    (p.removeAt i hi).2.stored? k = if p.entries[i].key = k then none else p.stored? k := by
  have inj (i j : Nat) (k : κ) := h.keyAt_inj (i := i) (j := j) (k := k)
  have bound (j : Nat) := lt_size_of_keyAt (p := p) (k := k) (i := j)
  have hk := h k
  have first : p.keyAt i = some p.entries[i].key := by simp [keyAt, hi]
  unfold stored?
  rw [index_removeAt]
  cases hkj : p.index[k]? with
  | none =>
    simp only [hkj, reduceCtorEq, false_iff] at hk
    simp [hk]
  | some j =>
    have hj := (hk j).mp hkj
    split_ifs with hlast hkey hkey hkey <;>
      simp only [Option.bind_some, Option.bind_none, getElem?_removeAt] <;> grind

theorem Sound.remove (h : p.Sound) (k : κ) (now : Nat) : (p.remove k now).2.Sound := by
  unfold Pool.remove
  cases p.index[k]? with
  | none => exact h
  | some i =>
    by_cases hi : i < p.entries.size
    · simp only [hi, dif_pos]
      exact h.removeAt i hi
    · simp only [hi, dif_neg, not_false_eq_true]
      exact h

theorem Sound.stored?_remove (h : p.Sound) (k : κ) (now : Nat) (a : κ) :
    (p.remove k now).2.stored? a = if k = a then none else p.stored? a := by
  unfold Pool.remove
  cases hk : p.index[k]? with
  | none =>
    split_ifs with ha
    · simp [stored?, ← ha, hk]
    · rfl
  | some i =>
    have hkey := (h k i).mp hk
    have hi := lt_size_of_keyAt hkey
    simp only [keyAt, Array.getElem?_eq_getElem hi, Option.map_some, Option.some.injEq] at hkey
    simp only [hi, dif_pos, h.stored?_removeAt i hi a, hkey]

end Remove

section Purge

variable {p : Pool κ α}

private theorem indexOf_push (entries : Array (PoolEntry κ α)) (e : PoolEntry κ α) (k : κ) :
    (indexOf (entries.push e))[k]? =
      if e.key = k then some entries.size else (indexOf entries)[k]? := by
  have counted : ∀ es : Array (PoolEntry κ α),
      (es.foldl (fun p e => (p.1 + 1, p.2.insert e.key p.1))
        ((0, ∅) : Nat × Std.TreeMap κ Nat)).1 = es.size := by
    intro es
    rw [← Array.foldl_toList, ← Array.length_toList]
    induction es.toList using List.reverseRecOn with
    | nil => rfl
    | append_singleton es e ih => simp [List.foldl_append, ih]
  rw [indexOf, Array.foldl_push, getElem?_insert, counted]
  rfl

private theorem sound_indexOf {es : List (PoolEntry κ α)} (distinct : (es.map PoolEntry.key).Nodup)
    (lifetime : Nat) : (⟨lifetime, es.toArray, indexOf es.toArray⟩ : Pool κ α).Sound := by
  induction es using List.reverseRecOn with
  | nil => exact sound_of_empty rfl (by simp [indexOf])
  | append_singleton es e ih =>
    rw [List.map_append, List.nodup_append] at distinct
    obtain ⟨hes, -, hnew⟩ := distinct
    intro k i
    have old := ih hes k
    simp only [keyAt, List.getElem?_toArray] at old
    have fresh : ∀ f ∈ es, f.key ≠ e.key := fun f hf =>
      hnew _ (List.mem_map_of_mem hf) _ (by simp)
    have absent : ∀ j : Nat, es[j]?.map PoolEntry.key ≠ some e.key := by
      intro j hj
      obtain ⟨f, hf, hkey⟩ := Option.map_eq_some_iff.mp hj
      exact fresh f (List.mem_of_getElem? hf) hkey
    have snoc : (es ++ [e]).toArray = es.toArray.push e := by simp
    simp only [keyAt, snoc, indexOf_push, Array.getElem?_push, List.size_toArray,
      List.getElem?_toArray]
    grind

theorem Sound.purge (h : p.Sound) (now : Nat) : (p.purge now).2.Sound := by
  unfold Pool.purge
  simp only
  split_ifs with hsize
  · exact h
  · have distinct : ((p.entries.filter (p.isLive now)).toList.map PoolEntry.key).Nodup := by
      rw [Array.toList_filter]
      exact h.nodup_keys.sublist (List.filter_sublist.map _)
    exact sound_indexOf distinct p.lifetime

theorem Sound.stored?_purge (h : p.Sound) (now : Nat) (k : κ) :
    (p.purge now).2.stored? k = (p.stored? k).filter (p.isLive now) := by
  refine (h.purge now).stored?_ext (f := fun k => (p.stored? k).filter (p.isLive now))
    (fun k e => ?_) k
  rw [mem_purge, Option.filter_eq_some_iff, h.stored?_eq_some_iff]
  tauto

theorem Sound.contains_purge (h : p.Sound) (now : Nat) (k : κ) :
    (p.purge now).2.contains k now = p.contains k now := by
  rw [Bool.eq_iff_iff, contains_iff, contains_iff, isLive_congr (lifetime_purge p now) now,
    h.stored?_purge]
  simp only [Option.filter_eq_some_iff, and_assoc, and_self]

end Purge

section Pick

variable {p : Pool κ α}

/-- What a successful pick leaves: the live entries but the one that is picked, and nothing new. -/
structure Picked (p : Pool κ α) (now : Nat) (k : κ) (v : α) (q : Pool κ α) : Prop where
  sound : q.Sound
  lifetime : q.lifetime = p.lifetime
  live : ∃ e, p.stored? k = some e ∧ p.isLive now e ∧ e.value = v
  kept : ∀ a, (q.stored? a).filter (p.isLive now) =
    if k = a then none else (p.stored? a).filter (p.isLive now)
  old : ∀ a e, q.stored? a = some e → p.stored? a = some e

private theorem picked_of_live (h : p.Sound) {now i : Nat} (hi : i < p.entries.size)
    (live : p.isLive now p.entries[i]) :
    p.Picked now p.entries[i].key p.entries[i].value (p.removeAt i hi).2 where
  sound := h.removeAt i hi
  lifetime := rfl
  live := ⟨_, h.stored?_of_mem (Array.getElem_mem hi), live, rfl⟩
  kept a := by
    rw [h.stored?_removeAt i hi a]
    split_ifs <;> rfl
  old a e he := by
    rw [h.stored?_removeAt i hi a] at he
    split_ifs at he
    exact he

private theorem picked_of_stale (h : p.Sound) {now i : Nat} (hi : i < p.entries.size)
    (stale : ¬ p.isLive now p.entries[i]) {k : κ} {v : α} {q : Pool κ α}
    (rest : (p.removeAt i hi).2.Picked now k v q) : p.Picked now k v q := by
  have before := h.stored?_removeAt i hi
  obtain ⟨sound, lifetime, ⟨e, he, live, value⟩, kept, old⟩ := rest
  have sub : ∀ a e, (p.removeAt i hi).2.stored? a = some e → p.stored? a = some e := by
    intro a e he
    rw [before] at he
    split_ifs at he
    exact he
  refine ⟨sound, lifetime, ⟨e, sub k e he, live, value⟩, fun a => ?_, fun a e he =>
    sub a e (old a e he)⟩
  have same : (p.removeAt i hi).2.isLive now = p.isLive now := rfl
  have hkept := kept a
  rw [same, before] at hkept
  rw [hkept]
  by_cases ha : p.entries[i].key = a
  · have gone : (p.stored? a).filter (p.isLive now) = none := by
      rw [← ha, h.stored?_of_mem (Array.getElem_mem hi), Option.filter_some, if_neg stale]
    rw [if_pos ha, gone]
    split_ifs <;> rfl
  · rw [if_neg ha]

omit [Std.TransOrd κ] [Std.LawfulEqOrd κ] [DecidableEq κ] in
private theorem pickWithin_succ (p : Pool κ α) (now tries : Nat) (picks : Nat → Nat)
    (hsize : 0 < p.entries.size) :
    let i := picks tries % p.entries.size
    have hi : i < p.entries.size := Nat.mod_lt _ hsize
    p.pickWithin now picks (tries + 1) =
      if p.isLive now p.entries[i] then
        (some (p.entries[i].key, p.entries[i].value), (p.removeAt i hi).2)
      else (p.removeAt i hi).2.pickWithin now picks tries := by
  rw [Pool.pickWithin, dif_pos hsize]
  rfl

omit [Std.TransOrd κ] [Std.LawfulEqOrd κ] [DecidableEq κ] in
/-- Every live entry can be picked. -/
theorem pick_of_live (p : Pool κ α) {now i : Nat} (hi : i < p.entries.size)
    (live : p.isLive now p.entries[i]) :
    (p.pick now fun _ => i).1 = some (p.entries[i].key, p.entries[i].value) := by
  obtain ⟨tries, hsize⟩ := Nat.exists_eq_succ_of_ne_zero (Nat.ne_zero_of_lt hi)
  have first : i % p.entries.size = i := Nat.mod_eq_of_lt hi
  rw [pick, hsize, pickWithin_succ p now tries _ (Nat.zero_lt_of_lt hi)]
  simp only [first, live, if_true]

theorem Sound.pickWithin_some (h : p.Sound) {now tries : Nat} {picks : Nat → Nat} {k : κ} {v : α}
    {q : Pool κ α} (hp : p.pickWithin now picks tries = (some (k, v), q)) : p.Picked now k v q := by
  induction tries generalizing p with
  | zero => cases hp
  | succ tries ih =>
    by_cases hsize : 0 < p.entries.size
    · rw [pickWithin_succ p now tries picks hsize] at hp
      have hi := Nat.mod_lt (picks tries) hsize
      by_cases live : p.isLive now p.entries[picks tries % p.entries.size]
      · rw [if_pos live] at hp
        obtain ⟨⟨rfl, rfl⟩, rfl⟩ : (_ = k ∧ _ = v) ∧ _ = q := by simpa using hp
        exact picked_of_live h hi live
      · rw [if_neg live] at hp
        exact picked_of_stale h hi live (ih (h.removeAt _ hi) hp)
    · unfold Pool.pickWithin at hp
      rw [dif_neg hsize] at hp
      cases hp

/-- A pick fails only when no entry is live, and then all are gone. -/
theorem Sound.pickWithin_none (h : p.Sound) {now tries : Nat} {picks : Nat → Nat} {q : Pool κ α}
    (enough : p.entries.size ≤ tries) (hp : p.pickWithin now picks tries = (none, q)) :
    q.entries = #[] ∧ q.lifetime = p.lifetime ∧ q.Sound ∧ ∀ e ∈ p.entries, ¬ p.isLive now e := by
  induction tries generalizing p with
  | zero =>
    have empty : p.entries = #[] := Array.eq_empty_of_size_eq_zero (Nat.le_zero.mp enough)
    cases hp
    exact ⟨empty, rfl, h, by simp [empty]⟩
  | succ tries ih =>
    by_cases hsize : 0 < p.entries.size
    · rw [pickWithin_succ p now tries picks hsize] at hp
      have hi := Nat.mod_lt (picks tries) hsize
      by_cases live : p.isLive now p.entries[picks tries % p.entries.size]
      · rw [if_pos live] at hp
        cases hp
      · rw [if_neg live] at hp
        obtain ⟨gone, lifetime, sound, stale⟩ :=
          ih (h.removeAt _ hi) (by rw [size_removeAt]; omega) hp
        refine ⟨gone, lifetime, sound, fun e he => ?_⟩
        by_cases first : p.entries[picks tries % p.entries.size].key = e.key
        · have same := h.stored?_of_mem he
          rw [← first, h.stored?_of_mem (Array.getElem_mem hi), Option.some.injEq] at same
          rwa [← same]
        · refine stale e (((h.removeAt _ hi).stored?_eq_some_iff (k := e.key)).mp ?_).1
          rw [h.stored?_removeAt _ hi, if_neg first]
          exact h.stored?_of_mem he
    · have empty : p.entries = #[] := Array.eq_empty_of_size_eq_zero (by omega)
      unfold Pool.pickWithin at hp
      rw [dif_neg hsize] at hp
      cases hp
      exact ⟨empty, rfl, h, by simp [empty]⟩

omit [Std.TransOrd κ] [Std.LawfulEqOrd κ] in
/-- Among live entries a pick takes just the one it returns. -/
theorem Picked.stored? {q : Pool κ α} {now : Nat} {k : κ} {v : α} (h : p.Picked now k v q)
    (live : ∀ a e, p.stored? a = some e → p.isLive now e) (a : κ) :
    q.stored? a = if k = a then none else p.stored? a := by
  have all {o : Option (PoolEntry κ α)} (ho : ∀ e, o = some e → p.isLive now e) :
      o.filter (p.isLive now) = o := by
    cases o with
    | none => rfl
    | some e => rw [Option.filter_some, if_pos (ho e rfl)]
  have kept := h.kept a
  rwa [all fun e he => live a e (h.old a e he), all (live a)] at kept

end Pick

section Count

variable {p : Pool κ α}

omit [Std.TransOrd κ] [Std.LawfulEqOrd κ] [DecidableEq κ] in
theorem count_eq_zero_iff {now : Nat} : p.count now = 0 ↔ ∀ e ∈ p.entries, ¬ p.isLive now e := by
  rw [count, Array.countP_eq_zero]

omit [Std.TransOrd κ] [Std.LawfulEqOrd κ] [DecidableEq κ] in
theorem count_purge_eq_zero_iff {now : Nat} :
    (p.purge now).2.count now = 0 ↔ (p.purge now).2.entries = #[] := by
  have same : (p.purge now).2.isLive now = p.isLive now := isLive_congr (lifetime_purge p now) now
  rw [count_eq_zero_iff, same, Array.eq_empty_iff_forall_not_mem]
  exact forall_congr' fun e => ⟨fun h he => h he ((mem_purge p now e).mp he).2,
    fun h he => absurd he h⟩

omit [Std.TransOrd κ] [Std.LawfulEqOrd κ] [DecidableEq κ] in
theorem count_purge (p : Pool κ α) (now : Nat) : (p.purge now).2.count now = p.count now := by
  rw [count, count, entries_purge, isLive_congr (lifetime_purge p now) now, Array.countP_filter]
  simp only [Bool.and_self]

omit [Std.TransOrd κ] [Std.LawfulEqOrd κ] in
/-- A pick takes one of the live entries. -/
theorem Picked.count_eq {q : Pool κ α} {now : Nat} {k : κ} {v : α} (sound : p.Sound)
    (h : p.Picked now k v q) : p.count now = q.count now + 1 := by
  obtain ⟨e, stored, live, -⟩ := h.live
  have key : e.key = k := (sound.stored?_eq_some_iff.mp stored).2
  have listed {r : Pool κ α} (hr : r.Sound) (f : PoolEntry κ α) :
      f ∈ r.entries.toList.filter (p.isLive now) ↔
        (r.stored? f.key).filter (p.isLive now) = some f := by
    simp [hr.stored?_eq_some_iff]
  have perm : (p.entries.toList.filter (p.isLive now)).Perm
      (e :: q.entries.toList.filter (p.isLive now)) := by
    refine (List.perm_ext_iff_of_nodup (sound.nodup.filter _)
      (List.nodup_cons.mpr ⟨?_, h.sound.nodup.filter _⟩)).mpr fun f => ?_
    · rw [listed h.sound, h.kept, if_pos key.symm]
      exact nofun
    · rw [List.mem_cons, listed sound, listed h.sound, h.kept]
      by_cases same : k = f.key
      · rw [if_pos same, ← same, stored, Option.filter_some, if_pos live, Option.some.injEq]
        simp [eq_comm]
      · have other : f ≠ e := fun equal => same (by rw [equal, key])
        simp [same, other]
  have counted (r : Pool κ α) (hr : r.isLive now = p.isLive now) :
      r.count now = (r.entries.toList.filter (p.isLive now)).length := by
    rw [count, hr, ← Array.countP_toList, List.countP_eq_length_filter]
  rw [counted p rfl, counted q (isLive_congr h.lifetime now), perm.length_eq, List.length_cons]

end Count

end GarlicRouting.Pool

namespace GarlicRouting

instance : Std.LawfulEqOrd SessionTag where
  compare_self := (inferInstance : Std.ReflCmp (compareOn SessionTag.octets)).compare_self
  eq_of_compare {a b} h := by
    obtain ⟨_⟩ := a
    obtain ⟨_⟩ := b
    exact congrArg SessionTag.mk (Std.LawfulEqOrd.eq_of_compare h)

instance : Std.TransOrd SessionTag := inferInstanceAs (Std.TransCmp (compareOn SessionTag.octets))

end GarlicRouting
