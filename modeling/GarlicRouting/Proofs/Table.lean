import GarlicRouting.Table
import Mathlib

/-! Tables as sets of pairs and as maps: what each operation does to the value of every key. -/
namespace GarlicRouting.Table

variable {κ α : Type} [DecidableEq κ] {t : Table κ α}

theorem mem_of_find? {k : κ} {a : α} (h : t.find? k = some a) : (k, a) ∈ t.toList := by
  obtain ⟨⟨j, b⟩, hfind, rfl⟩ := Option.map_eq_some_iff.mp h
  obtain rfl : j = k := by simpa using List.find?_some hfind
  exact List.mem_of_find?_eq_some hfind

theorem find?_eq_none_iff {k : κ} : t.find? k = none ↔ ∀ p ∈ t.toList, p.1 ≠ k := by
  rw [find?, Option.map_eq_none_iff, List.find?_eq_none]
  simp only [decide_eq_true_eq, ne_eq]

theorem mem_insert {k : κ} {a : α} {p : κ × α} (h : p ∈ (t.insert k a).toList) :
    p = (k, a) ∨ p ∈ t.toList ∧ p.1 ≠ k := by
  unfold insert at h
  split_ifs at h with hk
  · obtain ⟨q, hq, hp⟩ := List.mem_map.mp h
    split_ifs at hp with hqk
    · exact .inl hp.symm
    · rw [← hp]
      exact .inr ⟨hq, hqk⟩
  · rw [contains, Option.not_isSome_iff_eq_none, find?_eq_none_iff] at hk
    rcases List.mem_append.mp h with h | h
    · exact .inr ⟨h, hk p h⟩
    · exact .inl (List.mem_singleton.mp h)

theorem mem_erase {k : κ} {p : κ × α} : p ∈ (t.erase k).toList ↔ p ∈ t.toList ∧ p.1 ≠ k := by
  simp [erase]

omit [DecidableEq κ] in
theorem mem_filter {keep : α → Bool} {p : κ × α} :
    p ∈ (t.filter keep).toList ↔ p ∈ t.toList ∧ keep p.2 := by
  simp [filter]

section Find

theorem find?_erase (t : Table κ α) (k j : κ) :
    (t.erase k).find? j = if j = k then none else t.find? j := by
  unfold find? erase
  induction t.toList with
  | nil => simp
  | cons p l ih =>
    simp only [List.filter_cons, List.find?_cons]
    by_cases hk : p.1 = k <;> by_cases hj : p.1 = j <;> simp_all

theorem find?_modify (t : Table κ α) (k : κ) (f : α → α) (j : κ) :
    (t.modify k f).find? j = if j = k then (t.find? j).map f else t.find? j := by
  unfold find? modify
  induction t.toList with
  | nil => simp
  | cons p l ih =>
    simp only [List.map_cons, List.find?_cons]
    by_cases hj : p.1 = j
    · subst hj
      by_cases hk : p.1 = k <;> simp [hk]
    · by_cases hk : p.1 = k <;> simp only [hk, if_true, if_false] <;> grind

theorem find?_map_snd {β : Type} (t : Table κ α) (f : α → β) (k : κ) :
    (⟨t.toList.map fun p => (p.1, f p.2)⟩ : Table κ β).find? k = (t.find? k).map f := by
  unfold find?
  induction t.toList with
  | nil => rfl
  | cons p l ih =>
    rw [List.map_cons, List.find?_cons, List.find?_cons]
    by_cases hk : p.1 = k <;> simp_all

/-- A key that is there gets the new value, and any other one comes last. -/
theorem insert_eq (t : Table κ α) (k : κ) (a : α) :
    t.insert k a = if t.contains k then t.modify k fun _ => a else ⟨t.toList ++ [(k, a)]⟩ := by
  unfold insert modify
  split_ifs
  · congr 1
    apply List.map_congr_left
    intro p _
    split_ifs with h
    · rw [h]
    · rfl
  · rfl

theorem find?_insert (t : Table κ α) (k : κ) (a : α) (j : κ) :
    (t.insert k a).find? j = if j = k then some a else t.find? j := by
  rw [insert_eq]
  split_ifs with hk hj hj
  · obtain ⟨b, hb⟩ := Option.isSome_iff_exists.mp hk
    rw [find?_modify, if_pos hj, hj, hb, Option.map_some]
  · rw [find?_modify, if_neg hj]
  · have absent : t.find? k = none := Option.not_isSome_iff_eq_none.mp hk
    rw [find?, Option.map_eq_none_iff] at absent
    rw [find?, List.find?_append, hj, absent]
    simp
  · rw [find?, List.find?_append, List.find?_singleton, find?]
    simp [Ne.symm hj]

theorem find?_foldl_insert (t : Table κ α) (ks : List κ) (a : α) (j : κ) :
    (ks.foldl (fun t k => t.insert k a) t).find? j = if j ∈ ks then some a else t.find? j := by
  induction ks generalizing t with
  | nil => simp
  | cons k ks ih =>
    rw [List.foldl_cons, ih, find?_insert]
    by_cases hk : j = k <;> simp [hk]

theorem find?_foldl_erase (t : Table κ α) (ks : List κ) (j : κ) :
    (ks.foldl erase t).find? j = if j ∈ ks then none else t.find? j := by
  induction ks generalizing t with
  | nil => simp
  | cons k ks ih =>
    rw [List.foldl_cons, ih, find?_erase]
    by_cases hk : j = k <;> simp [hk]

/-- A set of keys goes in one pass. -/
theorem foldl_erase_eq (t : Table κ α) (ks : List κ) :
    ks.foldl erase t = ⟨t.toList.filter fun p => p.1 ∉ ks⟩ := by
  induction ks generalizing t with
  | nil => simp
  | cons k ks ih =>
    rw [List.foldl_cons, ih, erase, List.filter_filter]
    congr 1
    apply List.filter_congr
    intro p _
    simp only [List.mem_cons, not_or, Bool.decide_and, Bool.and_comm]

/-- What is put under a key does not show where the key is left out. -/
theorem filter_insert (t : Table κ α) {k : κ} {ks : List κ} (mem : k ∈ ks) (a : α) :
    (t.insert k a).toList.filter (fun p => p.1 ∉ ks) = t.toList.filter fun p => p.1 ∉ ks := by
  rw [insert_eq]
  split_ifs
  · rw [modify]
    induction t.toList with
    | nil => rfl
    | cons p l ih =>
      rw [List.map_cons, List.filter_cons, List.filter_cons, ih]
      split_ifs <;> simp_all
  · rw [List.filter_append, List.filter_singleton]
    simp [mem]

/-- New keys go without a trace. -/
theorem foldl_erase_foldl_insert (t : Table κ α) (ks : List κ) (a : α)
    (new : ∀ k ∈ ks, t.find? k = none) :
    ks.foldl erase (ks.foldl (fun t k => t.insert k a) t) = t := by
  have inserted (js : List κ) (sub : js ⊆ ks) (t : Table κ α) :
      (js.foldl (fun t k => t.insert k a) t).toList.filter (fun p => p.1 ∉ ks) =
        t.toList.filter fun p => p.1 ∉ ks := by
    induction js generalizing t with
    | nil => rfl
    | cons j js ih =>
      obtain ⟨mem, sub⟩ := List.cons_subset.mp sub
      rw [List.foldl_cons, ih sub, filter_insert t mem]
  have others : t.toList.filter (fun p => p.1 ∉ ks) = t.toList := by
    apply List.filter_eq_self.mpr
    intro p hp
    apply decide_eq_true
    intro mem
    exact find?_eq_none_iff.mp (new p.1 mem) p hp rfl
  rw [foldl_erase_eq, inserted ks (List.Subset.refl ks), others]

end Find

section Distinct

/-- No key is there twice. -/
def Distinct (t : Table κ α) : Prop := (t.toList.map Prod.fst).Nodup

omit [DecidableEq κ] in
theorem distinct_empty : (empty : Table κ α).Distinct := List.nodup_nil

omit [DecidableEq κ] in
theorem Distinct.sublist (h : t.Distinct) {l : List (κ × α)} (sub : l.Sublist t.toList) :
    (⟨l⟩ : Table κ α).Distinct := List.Nodup.sublist (sub.map Prod.fst) h

theorem Distinct.erase (h : t.Distinct) (k : κ) : (t.erase k).Distinct :=
  h.sublist List.filter_sublist

omit [DecidableEq κ] in
theorem Distinct.filter (h : t.Distinct) (keep : α → Bool) : (t.filter keep).Distinct :=
  h.sublist List.filter_sublist

theorem Distinct.modify (h : t.Distinct) (k : κ) (f : α → α) : (t.modify k f).Distinct := by
  have keys : (t.modify k f).toList.map Prod.fst = t.toList.map Prod.fst := by
    rw [Table.modify, List.map_map]
    apply List.map_congr_left
    intro p _
    show (if p.1 = k then (p.1, f p.2) else p).1 = p.1
    split_ifs <;> rfl
  rw [Distinct, keys]
  exact h

theorem Distinct.insert (h : t.Distinct) (k : κ) (a : α) : (t.insert k a).Distinct := by
  rw [insert_eq]
  split_ifs with hk
  · exact h.modify k _
  · have absent := find?_eq_none_iff.mp (Option.not_isSome_iff_eq_none.mp hk)
    rw [Distinct, List.map_append]
    refine List.nodup_append.mpr ⟨h, List.nodup_singleton k, ?_⟩
    rintro _ hx _ hy rfl
    obtain ⟨p, hp, rfl⟩ := List.mem_map.mp hx
    exact absent p hp (List.mem_singleton.mp hy)

theorem Distinct.mem_iff (h : t.Distinct) {k : κ} {a : α} :
    (k, a) ∈ t.toList ↔ t.find? k = some a := by
  refine ⟨fun hp => ?_, mem_of_find?⟩
  cases hb : t.find? k with
  | none => exact absurd rfl (find?_eq_none_iff.mp hb _ hp)
  | some b =>
    have same : (k, a) = (k, b) := List.inj_on_of_nodup_map h hp (mem_of_find? hb) rfl
    rw [(Prod.mk.inj same).2]

/-- The value under a key is kept or not, as there is no other one to take its place. -/
theorem Distinct.find?_filter (h : t.Distinct) (keep : α → Bool) (k : κ) :
    (t.filter keep).find? k = (t.find? k).filter keep := by
  refine Option.ext fun a => ?_
  rw [← (h.filter keep).mem_iff, mem_filter, h.mem_iff, Option.filter_eq_some_iff]

/-- Only one value changes. -/
theorem Distinct.modify_eq (h : t.Distinct) {k : κ} {a : α} (hk : t.find? k = some a) (f : α → α) :
    t.modify k f = t.modify k fun _ => f a := by
  refine congrArg Table.mk (List.map_congr_left fun p hp => ?_)
  split_ifs with same
  · obtain ⟨j, b⟩ := p
    obtain rfl : j = k := same
    rw [Option.some.inj (hk.symm.trans (h.mem_iff.mp hp))]
  · rfl

theorem modify_middle {l r : List (κ × α)} {k : κ} {a : α}
    (h : (⟨l ++ (k, a) :: r⟩ : Table κ α).Distinct) (f : α → α) :
    (⟨l ++ (k, a) :: r⟩ : Table κ α).modify k f = ⟨l ++ (k, f a) :: r⟩ := by
  have away (l : List (κ × α)) (hl : k ∉ l.map Prod.fst) :
      (l.map fun p => if p.1 = k then (p.1, f p.2) else p) = l := by
    refine (List.map_congr_left fun p hp => if_neg ?_).trans l.map_id
    rintro rfl
    exact hl (List.mem_map_of_mem hp)
  rw [Distinct, List.map_append, List.map_cons] at h
  obtain ⟨-, tail, apart⟩ := List.nodup_append.mp h
  rw [modify, List.map_append, List.map_cons, if_pos rfl,
    away l fun hk => apart k hk k List.mem_cons_self rfl, away r (List.nodup_cons.mp tail).1]

omit [DecidableEq κ] in
theorem Distinct.nodup (h : t.Distinct) : t.toList.Nodup := List.Nodup.of_map Prod.fst h

/-- A table that has one key more than another without that key. -/
private theorem Distinct.perm_cons_erase (h : t.Distinct) {s : Table κ α} (hs : s.Distinct) {k : κ}
    {a : α} (hk : ∀ j, s.find? j = if j = k then some a else t.find? j) :
    s.toList.Perm ((k, a) :: (t.erase k).toList) := by
  have absent : (k, a) ∉ (t.erase k).toList := fun hp => (mem_erase.mp hp).2 rfl
  refine (List.perm_ext_iff_of_nodup hs.nodup
    (List.nodup_cons.mpr ⟨absent, (h.erase k).nodup⟩)).mpr ?_
  rintro ⟨j, b⟩
  rw [hs.mem_iff, hk, List.mem_cons, Prod.mk.injEq, (h.erase k).mem_iff, find?_erase]
  by_cases hj : j = k
  · simp [hj, eq_comm]
  · simp [hj]

/-- The value of a key that is there can be put first. -/
theorem Distinct.perm_erase (h : t.Distinct) {k : κ} {a : α} (hk : t.find? k = some a) :
    t.toList.Perm ((k, a) :: (t.erase k).toList) := by
  refine h.perm_cons_erase h fun j => ?_
  split_ifs with hj
  · rw [hj, hk]
  · rfl

theorem Distinct.perm_insert (h : t.Distinct) (k : κ) (a : α) :
    (t.insert k a).toList.Perm ((k, a) :: (t.erase k).toList) :=
  h.perm_cons_erase (h.insert k a) (find?_insert t k a)

end Distinct

section Order

omit [DecidableEq κ] in
/-- The table with the pair at a position moved to the front: repeated, it gives every order. -/
def front (t : Table κ α) (i : Nat) : Table κ α := ⟨t.toList[i]?.toList ++ t.toList.eraseIdx i⟩

omit [DecidableEq κ] in
theorem perm_front (t : Table κ α) (i : Nat) : (t.front i).toList.Perm t.toList := by
  unfold front
  by_cases hi : i < t.toList.length
  · rw [List.getElem?_eq_getElem hi]
    exact List.getElem_cons_eraseIdx_perm hi
  · rw [List.getElem?_eq_none (not_lt.mp hi), List.eraseIdx_of_length_le (not_lt.mp hi)]
    exact List.Perm.refl _

omit [DecidableEq κ] in
theorem Distinct.front (h : t.Distinct) (i : Nat) : (t.front i).Distinct :=
  ((t.perm_front i).map Prod.fst).nodup_iff.mpr h

/-- The order of distinct keys does not matter. -/
theorem Distinct.find?_front (h : t.Distinct) (i : Nat) (k : κ) : (t.front i).find? k = t.find? k := by
  refine Option.ext fun a => ?_
  rw [← (h.front i).mem_iff, ← h.mem_iff, (t.perm_front i).mem_iff]

theorem Distinct.foldl_front (h : t.Distinct) (positions : List Nat) :
    (positions.foldl Table.front t).Distinct ∧
      ∀ k, (positions.foldl Table.front t).find? k = t.find? k := by
  induction positions generalizing t with
  | nil => exact ⟨h, fun _ => rfl⟩
  | cons i positions ih =>
    obtain ⟨distinct, same⟩ := ih (h.front i)
    exact ⟨distinct, fun k => (same k).trans (h.find?_front i k)⟩

end Order

end GarlicRouting.Table
