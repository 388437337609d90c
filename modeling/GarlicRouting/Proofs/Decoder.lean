import GarlicRouting.Decoder
import GarlicRouting.Proofs.Octets
import Mathlib

/-! Decoders that read one value back from its encoding, whatever follows it. -/
namespace GarlicRouting.Decoder

variable {α β : Type}

/-- The decoder reads the value from the string and leaves all that follows. -/
def Reads (d : Decoder α) (bs : Bytes) (a : α) : Prop := ∀ rest, d (bs ++ rest) = .ok (a, rest)

/-- The string ends inside a field. -/
def EndsEarly (d : Decoder α) (bs : Bytes) : Prop :=
  ∃ field needed available, d bs = .error (.truncated field needed available)

theorem bind_apply (d : Decoder α) (f : α → Decoder β) (bs : Bytes) :
    (d >>= f) bs = (d bs).bind fun p => f p.1 p.2 := rfl

theorem bind_eq_ok_iff {d : Decoder α} {f : α → Decoder β} {bs rest : Bytes} {b : β} :
    (d >>= f) bs = .ok (b, rest) ↔ ∃ a mid, d bs = .ok (a, mid) ∧ f a mid = .ok (b, rest) := by
  rw [bind_apply]
  constructor
  · intro h
    cases hd : d bs with
    | error e =>
      rw [hd] at h
      cases h
    | ok p =>
      rw [hd] at h
      exact ⟨p.1, p.2, rfl, h⟩
  · intro hh
    obtain ⟨a, mid, hd, hf⟩ := hh
    rw [hd]
    exact hf

theorem pure_reads (a : α) : Reads (pure a) [] a := fun _ => rfl

theorem Reads.bind_eq {d : Decoder α} {bs : Bytes} {a : α} (h : Reads d bs a)
    (f : α → Decoder β) (rest : Bytes) : (d >>= f) (bs ++ rest) = f a rest := by
  rw [bind_apply, h]
  rfl

theorem Reads.bind {d : Decoder α} {f : α → Decoder β} {bs cs : Bytes} {a : α} {b : β}
    (hd : Reads d bs a) (hf : Reads (f a) cs b) : Reads (d >>= f) (bs ++ cs) b := by
  intro rest
  rw [List.append_assoc, hd.bind_eq]
  exact hf rest

theorem Reads.map {d : Decoder α} {bs : Bytes} {a : α} (hd : Reads d bs a) (f : α → β) :
    Reads (do let x ← d; return f x) bs (f a) := by
  have h := hd.bind (f := fun x => pure (f x)) (pure_reads (f a))
  rwa [List.append_nil] at h

theorem Reads.front {d : Decoder α} {bs : Bytes} {a : α} (hd : Reads d bs a) (rest : Bytes) :
    Decoder.front d (bs ++ rest) = .ok a := by
  rw [Decoder.front, hd]
  rfl

theorem front_eq_ok_iff {d : Decoder α} {bs : Bytes} {a : α} :
    Decoder.front d bs = .ok a ↔ ∃ rest, d bs = .ok (a, rest) := by
  unfold Decoder.front
  cases d bs with
  | error e => simp [Except.map]
  | ok p => simp [Except.map, Prod.ext_iff]

theorem map_eq_ok_iff {r : Except Fault α} {f : α → β} {b : β} :
    r.map f = .ok b ↔ ∃ a, r = .ok a ∧ f a = b := by
  cases r <;> simp [Except.map]

theorem octets_reads {n : Nat} (field : Field) (a : Octets n) :
    Reads (octets n field) a.toList a := by
  intro rest
  have htake : (a.toList ++ rest).take n = a.toList := List.take_left' a.length_toList
  have hdrop : (a.toList ++ rest).drop n = rest := List.drop_left' a.length_toList
  have hlength : ((a.toList ++ rest).take n).length = n := by rw [htake, a.length_toList]
  unfold octets
  rw [dif_pos hlength, hdrop]
  simp only [htake]

theorem bytes_reads (field : Field) (bs : Bytes) : Reads (bytes bs.length field) bs bs :=
  (octets_reads field (⟨bs, rfl⟩ : Octets bs.length)).map Octets.toList

theorem uint8_reads (field : Field) (b : UInt8) : Reads (uint8 field) [b] b :=
  (octets_reads field (⟨[b], rfl⟩ : Octets 1)).map Octets.head

theorem uint16_reads (field : Field) (n : UInt16) :
    Reads (uint16 field) (bigEndian 2 n.toNat) n := by
  have h := (octets_reads field (Octets.ofNat 2 n.toNat)).map fun a => UInt16.ofNat a.toNat
  rwa [Octets.toNat, Octets.toList_ofNat, uint16_ofBigEndian] at h

theorem uint32_reads (field : Field) (n : UInt32) :
    Reads (uint32 field) (bigEndian 4 n.toNat) n := by
  have h := (octets_reads field (Octets.ofNat 4 n.toNat)).map fun a => UInt32.ofNat a.toNat
  rwa [Octets.toNat, Octets.toList_ofNat, uint32_ofBigEndian] at h

theorem uint64_reads (field : Field) (n : UInt64) :
    Reads (uint64 field) (bigEndian 8 n.toNat) n := by
  have h := (octets_reads field (Octets.ofNat 8 n.toNat)).map fun a => UInt64.ofNat a.toNat
  rwa [Octets.toNat, Octets.toList_ofNat, uint64_ofBigEndian] at h

theorem uint16_reads_ofNat (field : Field) {n : Nat} (h : n ≤ 65535) :
    Reads (uint16 field) (bigEndian 2 n) (.ofNat n) := by
  have hn : (UInt16.ofNat n).toNat = n := UInt16.toNat_ofNat_of_lt (by simp [UInt16.size]; omega)
  have hr := uint16_reads field (.ofNat n)
  rwa [hn] at hr

theorem uint32_reads_ofNat (field : Field) {n : Nat} (h : n ≤ 4294967295) :
    Reads (uint32 field) (bigEndian 4 n) (.ofNat n) := by
  have hn : (UInt32.ofNat n).toNat = n := UInt32.toNat_ofNat_of_lt (by simp [UInt32.size]; omega)
  have hr := uint32_reads field (.ofNat n)
  rwa [hn] at hr

theorem optional_reads {d : Decoder α} {encode : α → Bytes} (hd : ∀ a, Reads d (encode a) a)
    {condition : Bool} {a : Option α} (h : condition = a.isSome) :
    Reads (optional condition d) (a.elim [] encode) a := by
  cases a with
  | none => rw [h]; exact pure_reads none
  | some a => rw [h]; exact (hd a).map some

private theorem repeatOnto_reads {d : Decoder α} {encode : α → Bytes} (as acc : List α)
    (hd : ∀ a ∈ as, Reads d (encode a) a) :
    Reads (repeatOnto d acc as.length) (as.flatMap encode) (acc.reverse ++ as) := by
  induction as generalizing acc with
  | nil => intro rest; simp [repeatOnto]
  | cons a as ih =>
    intro rest
    have first := hd a (by simp) (as.flatMap encode ++ rest)
    have others := ih (a :: acc) (fun x hx => hd x (by simp [hx])) rest
    rw [List.flatMap_cons, List.append_assoc, List.length_cons, repeatOnto, first]
    simpa using others

/-- Values one after the other are read back when each of them is. -/
theorem repeated_reads {d : Decoder α} {encode : α → Bytes} {as : List α} {count : Nat}
    (hcount : count = as.length) (hd : ∀ a ∈ as, Reads d (encode a) a) :
    Reads (repeated count d) (as.flatMap encode) as := by
  rw [hcount]
  exact repeatOnto_reads as [] hd

private theorem forall_of_repeatOnto {d : Decoder α} {P : α → Prop}
    (each : ∀ bs a rest, d bs = .ok (a, rest) → P a) {acc as : List α} {count : Nat}
    {bs rest : Bytes} (before : ∀ a ∈ acc, P a) (h : repeatOnto d acc count bs = .ok (as, rest)) :
    ∀ a ∈ as, P a := by
  induction count generalizing acc bs with
  | zero =>
    cases h
    intro a ha
    exact before a (List.mem_reverse.mp ha)
  | succ count ih =>
    rw [repeatOnto] at h
    cases hd : d bs with
    | error e =>
      rw [hd] at h
      cases h
    | ok p =>
      rw [hd] at h
      have first := each bs p.1 p.2 hd
      exact ih (List.forall_mem_cons.mpr ⟨first, before⟩) h

/-- What holds of every value that is read holds of all that are read one after the other. -/
theorem forall_of_repeated {d : Decoder α} {P : α → Prop}
    (each : ∀ bs a rest, d bs = .ok (a, rest) → P a) {as : List α} {count : Nat} {bs rest : Bytes}
    (h : repeated count d bs = .ok (as, rest)) : ∀ a ∈ as, P a :=
  forall_of_repeatOnto each (fun _ ha => absurd ha List.not_mem_nil) h

theorem require_apply {n : Nat} (field : Field) {bs : Bytes} (h : n ≤ bs.length) :
    require n field bs = .ok ((), bs) := by
  rw [require, if_pos (by rw [List.length_take]; omega)]

theorem Reads.require {d : Decoder α} {bs : Bytes} {a : α} (h : Reads d bs a) {n : Nat}
    (hn : n ≤ bs.length) (field : Field) : Reads (do Decoder.require n field; d) bs a := by
  intro rest
  rw [bind_apply, require_apply field (by rw [List.length_append]; omega)]
  exact h rest

section Takes

/-- A value takes at least so many octets. -/
def Takes (d : Decoder α) (size : α → Nat) : Prop :=
  ∀ ⦃bs a rest⦄, d bs = .ok (a, rest) → size a + rest.length ≤ bs.length

theorem Takes.map {d : Decoder α} {n : Nat} (hd : Takes d fun _ => n) (f : α → β) :
    Takes (do let x ← d; return f x) fun _ => n := by
  intro bs b rest h
  obtain ⟨a, mid, first, second⟩ := bind_eq_ok_iff.mp h
  cases second
  exact hd first

theorem octets_eq_ok {n : Nat} {field : Field} {bs rest : Bytes} {a : Octets n}
    (h : octets n field bs = .ok (a, rest)) : bs = a.toList ++ rest := by
  unfold octets at h
  split_ifs at h
  cases h
  exact (List.take_append_drop n bs).symm

theorem octets_takes (n : Nat) (field : Field) : Takes (octets n field) fun _ => n := by
  intro bs a rest h
  rw [octets_eq_ok h, List.length_append, a.length_toList]

theorem bytes_takes (n : Nat) (field : Field) : Takes (bytes n field) List.length := by
  intro bs cs rest h
  obtain ⟨a, mid, first, second⟩ := bind_eq_ok_iff.mp h
  cases second
  rw [octets_eq_ok first, List.length_append]

theorem length_of_bytes {n : Nat} {field : Field} {bs cs rest : Bytes}
    (h : bytes n field bs = .ok (cs, rest)) : cs.length = n := by
  obtain ⟨a, mid, first, second⟩ := bind_eq_ok_iff.mp h
  cases second
  exact a.length_toList

theorem uint8_takes (field : Field) : Takes (uint8 field) fun _ => 1 :=
  (octets_takes 1 field).map Octets.head

theorem uint16_takes (field : Field) : Takes (uint16 field) fun _ => 2 :=
  (octets_takes 2 field).map fun a => UInt16.ofNat a.toNat

theorem uint32_takes (field : Field) : Takes (uint32 field) fun _ => 4 :=
  (octets_takes 4 field).map fun a => UInt32.ofNat a.toNat

theorem uint64_takes (field : Field) : Takes (uint64 field) fun _ => 8 :=
  (octets_takes 8 field).map fun a => UInt64.ofNat a.toNat

theorem Takes.optional {d : Decoder α} {n : Nat} (hd : Takes d fun _ => n) (condition : Bool) :
    Takes (Decoder.optional condition d) fun o => if o.isSome then n else 0 := by
  intro bs o rest h
  unfold Decoder.optional at h
  split_ifs at h
  · obtain ⟨a, mid, first, second⟩ := bind_eq_ok_iff.mp h
    cases second
    exact hd first
  · cases h
    simp

private theorem repeatOnto_succ (d : Decoder α) (acc : List α) (count : Nat) :
    repeatOnto d acc (count + 1) = d >>= fun a => repeatOnto d (a :: acc) count := by
  funext bs
  rw [bind_apply, repeatOnto]
  cases d bs <;> rfl

private theorem Takes.repeatOnto {d : Decoder α} {size : α → Nat} (hd : Takes d size)
    {acc as : List α} {count : Nat} {bs rest : Bytes}
    (h : Decoder.repeatOnto d acc count bs = .ok (as, rest)) :
    ∃ read, as = acc.reverse ++ read ∧ read.length = count ∧
      (read.map size).sum + rest.length ≤ bs.length := by
  induction count generalizing acc bs with
  | zero =>
    cases h
    exact ⟨[], by simp, rfl, by simp⟩
  | succ count ih =>
    rw [repeatOnto_succ] at h
    obtain ⟨a, mid, first, others⟩ := bind_eq_ok_iff.mp h
    obtain ⟨read, rfl, length, sum⟩ := ih others
    have least := hd first
    refine ⟨a :: read, by simp, by rw [List.length_cons, length], ?_⟩
    rw [List.map_cons, List.sum_cons]
    omega

theorem Takes.repeated {d : Decoder α} {size : α → Nat} (hd : Takes d size) {as : List α}
    {count : Nat} {bs rest : Bytes} (h : Decoder.repeated count d bs = .ok (as, rest)) :
    as.length = count ∧ (as.map size).sum + rest.length ≤ bs.length := by
  obtain ⟨read, rfl, length, sum⟩ := hd.repeatOnto h
  exact ⟨length, sum⟩

end Takes

section Delimited

/-- The string ends inside a field: it has fewer octets of the field than there should be, and with
all of them it would be no longer than `whole`. -/
def BreaksOff (d : Decoder α) (bs : Bytes) (whole : Nat) : Prop :=
  ∃ field needed available, d bs = .error (.truncated field needed available) ∧
    available < needed ∧ available ≤ bs.length ∧ bs.length - available + needed ≤ whole

/-- The string holds the value and no more: it is read whatever follows, and every shorter part of
it breaks off in one of its fields. -/
structure Delimits (d : Decoder α) (used : Bytes) (a : α) : Prop where
  reads : Reads d used a
  short : ∀ n < used.length, BreaksOff d (used.take n) used.length

/-- Whatever is read is delimited by the octets that it takes. -/
def SelfDelimiting (d : Decoder α) : Prop :=
  ∀ ⦃bs a rest⦄, d bs = .ok (a, rest) → ∃ used, bs = used ++ rest ∧ Delimits d used a

theorem BreaksOff.endsEarly {d : Decoder α} {bs : Bytes} {whole : Nat} (h : BreaksOff d bs whole) :
    EndsEarly d bs := by
  obtain ⟨field, needed, available, h, -⟩ := h
  exact ⟨field, needed, available, h⟩

theorem BreaksOff.bind {d : Decoder α} {bs : Bytes} {whole more : Nat} (h : BreaksOff d bs whole)
    (f : α → Decoder β) (le : whole ≤ more) : BreaksOff (d >>= f) bs more := by
  obtain ⟨field, needed, available, h, missing, left, within⟩ := h
  exact ⟨field, needed, available, by rw [bind_apply, h]; rfl, missing, left, within.trans le⟩

theorem require_of_lt {n whole : Nat} (field : Field) {bs : Bytes} (h : bs.length < n)
    (le : n ≤ whole) : BreaksOff (require n field) bs whole :=
  ⟨field, n, bs.length, by rw [require, if_neg (by rw [List.length_take]; omega)], h, le_rfl, by omega⟩

theorem Reads.breaksOff {d : Decoder α} {bs cs : Bytes} {a : α} (h : Reads d bs a)
    {f : α → Decoder β} {whole : Nat} (hf : BreaksOff (f a) cs whole) :
    BreaksOff (d >>= f) (bs ++ cs) (bs.length + whole) := by
  obtain ⟨field, needed, available, hf, missing, left, within⟩ := hf
  refine ⟨field, needed, available, (h.bind_eq f cs).trans hf, missing, ?_, ?_⟩
  · rw [List.length_append]
    omega
  · rw [List.length_append]
    omega

theorem Delimits.bind {d : Decoder α} {f : α → Decoder β} {bs cs : Bytes} {a : α} {b : β}
    (hd : Delimits d bs a) (hf : Delimits (f a) cs b) : Delimits (d >>= f) (bs ++ cs) b where
  reads := hd.reads.bind hf.reads
  short n hn := by
    rw [List.length_append] at hn ⊢
    by_cases first : n < bs.length
    · rw [List.take_append_of_le_length first.le]
      exact (hd.short n first).bind f (Nat.le_add_right _ _)
    · have second : n - bs.length < cs.length := by omega
      rw [List.take_append, List.take_of_length_le (not_lt.mp first)]
      exact hd.reads.breaksOff (hf.short _ second)

theorem SelfDelimiting.bind {d : Decoder α} {f : α → Decoder β} (hd : SelfDelimiting d)
    (hf : ∀ a, SelfDelimiting (f a)) : SelfDelimiting (d >>= f) := by
  intro bs b rest h
  obtain ⟨a, mid, first, second⟩ := bind_eq_ok_iff.mp h
  obtain ⟨used, rfl, delimits⟩ := hd first
  obtain ⟨more, rfl, delimits'⟩ := hf a second
  exact ⟨used ++ more, (List.append_assoc _ _ _).symm, delimits.bind delimits'⟩

/-- What is read from a string is in its first octets, and in no fewer of them. -/
structure Consumes (d : Decoder α) (bs : Bytes) (a : α) (rest : Bytes) (used : Nat) : Prop where
  within : used ≤ bs.length
  left : rest = bs.drop used
  reads : ∀ more, d (bs.take used ++ more) = .ok (a, more)
  short : ∀ n < used, BreaksOff d (bs.take n) used

theorem SelfDelimiting.consumes {d : Decoder α} (hd : SelfDelimiting d) {bs rest : Bytes} {a : α}
    (h : d bs = .ok (a, rest)) : ∃ used, Consumes d bs a rest used := by
  obtain ⟨used, rfl, reads, short⟩ := hd h
  refine ⟨used.length, ?_, ?_, ?_, fun n hn => ?_⟩
  · rw [List.length_append]
    exact Nat.le_add_right _ _
  · exact (List.drop_left' rfl).symm
  · rwa [List.take_left' rfl]
  · rw [List.take_append_of_le_length hn.le]
    exact short n hn

/-- A decoder that takes nothing. -/
theorem selfDelimiting_of_idle {d : Decoder α}
    (idle : ∀ ⦃bs a rest⦄, d bs = .ok (a, rest) → rest = bs ∧ Reads d [] a) : SelfDelimiting d := by
  intro bs a rest h
  obtain ⟨rfl, reads⟩ := idle h
  exact ⟨[], rfl, reads, fun n hn => absurd hn (Nat.not_lt_zero n)⟩

theorem selfDelimiting_lift (r : Except Fault α) : SelfDelimiting (liftM r : Decoder α) := by
  refine selfDelimiting_of_idle fun bs a rest h => ?_
  cases r with
  | error e => cases h
  | ok x =>
    cases h
    exact ⟨rfl, pure_reads a⟩

theorem selfDelimiting_pure (a : α) : SelfDelimiting (pure a : Decoder α) :=
  selfDelimiting_lift (.ok a)

theorem selfDelimiting_throw (e : Fault) : SelfDelimiting (throw e : Decoder α) :=
  selfDelimiting_lift (.error e)

theorem SelfDelimiting.ite {c : Prop} [Decidable c] {d e : Decoder α} (hd : SelfDelimiting d)
    (he : SelfDelimiting e) : SelfDelimiting (if c then d else e) := by
  split_ifs
  · exact hd
  · exact he

theorem SelfDelimiting.map {d : Decoder α} (hd : SelfDelimiting d) (f : α → β) :
    SelfDelimiting (do let x ← d; return f x) :=
  hd.bind fun a => selfDelimiting_pure (f a)

theorem octets_selfDelimiting (n : Nat) (field : Field) : SelfDelimiting (octets n field) := by
  intro bs a rest h
  refine ⟨a.toList, octets_eq_ok h, octets_reads field a, fun k hk => ?_⟩
  rw [a.length_toList] at hk ⊢
  have length : (a.toList.take k).length = k := by
    rw [List.length_take, a.length_toList]
    omega
  refine ⟨field, n, (a.toList.take k).length, ?_, by omega, le_rfl, by omega⟩
  rw [octets, dif_neg]
  rw [List.length_take, length]
  omega

theorem bytes_selfDelimiting (n : Nat) (field : Field) : SelfDelimiting (bytes n field) :=
  (octets_selfDelimiting n field).map Octets.toList

theorem uint8_selfDelimiting (field : Field) : SelfDelimiting (uint8 field) :=
  (octets_selfDelimiting 1 field).map Octets.head

theorem uint16_selfDelimiting (field : Field) : SelfDelimiting (uint16 field) :=
  (octets_selfDelimiting 2 field).map fun a => UInt16.ofNat a.toNat

theorem uint32_selfDelimiting (field : Field) : SelfDelimiting (uint32 field) :=
  (octets_selfDelimiting 4 field).map fun a => UInt32.ofNat a.toNat

theorem uint64_selfDelimiting (field : Field) : SelfDelimiting (uint64 field) :=
  (octets_selfDelimiting 8 field).map fun a => UInt64.ofNat a.toNat

theorem SelfDelimiting.optional {d : Decoder α} (hd : SelfDelimiting d) (condition : Bool) :
    SelfDelimiting (Decoder.optional condition d) :=
  (hd.map some).ite (selfDelimiting_pure none)

private theorem SelfDelimiting.repeatOnto {d : Decoder α} (hd : SelfDelimiting d) (acc : List α)
    (count : Nat) : SelfDelimiting (Decoder.repeatOnto d acc count) := by
  induction count generalizing acc with
  | zero => exact selfDelimiting_pure acc.reverse
  | succ count ih =>
    rw [repeatOnto_succ]
    exact hd.bind fun a => ih (a :: acc)

theorem SelfDelimiting.repeated {d : Decoder α} (hd : SelfDelimiting d) (count : Nat) :
    SelfDelimiting (Decoder.repeated count d) := hd.repeatOnto [] count

/-- Asking first for octets that are taken anyway changes nothing but the error. -/
theorem SelfDelimiting.require {d : Decoder α} {f : α → Decoder β} {n : Nat}
    (hd : SelfDelimiting d) (least : Takes d fun _ => n) (hf : ∀ a, SelfDelimiting (f a))
    (field : Field) : SelfDelimiting (do Decoder.require n field; let a ← d; f a) := by
  intro bs b rest h
  have taken : (d >>= f) bs = .ok (b, rest) := by
    obtain ⟨_, mid, passed, h⟩ := bind_eq_ok_iff.mp h
    unfold Decoder.require at passed
    split_ifs at passed
    cases passed
    exact h
  obtain ⟨used, rfl, reads, short⟩ := hd.bind hf taken
  have enough : n ≤ used.length := by
    obtain ⟨a, mid, first, -⟩ := bind_eq_ok_iff.mp (reads [])
    have here : n + mid.length ≤ (used ++ []).length := least first
    rw [List.append_nil] at here
    omega
  refine ⟨used, rfl, reads.require enough field, fun k hk => ?_⟩
  by_cases checked : n ≤ (used.take k).length
  · obtain ⟨early, needed, available, fails, rest⟩ := short k hk
    refine ⟨early, needed, available, ?_, rest⟩
    rw [bind_apply, require_apply field checked]
    exact fails
  · exact (require_of_lt field (not_le.mp checked) enough).bind (fun _ => d >>= f) le_rfl

end Delimited

end GarlicRouting.Decoder
