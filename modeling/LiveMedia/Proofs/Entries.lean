import LiveMedia.Entries
import Mathlib.Data.List.Dedup
import Mathlib.Data.List.Induction

/-!
# Entries as sorted finite maps

`Entries.insert` and `Entries.modify` keep the numbers in strictly ascending order, and in that order
looking a number up and being a member say the same. Everything that is proved about a table of entries
goes through `Ascending` and membership; no later proof opens the recursion of the table again.
-/

namespace LiveMedia.Entries

variable {α : Type}

/-- The numbers ascend strictly. -/
def Ascending (es : Entries α) : Prop := es.Pairwise fun a b => a.1 < b.1

theorem ascending_nil : Ascending ([] : Entries α) := List.Pairwise.nil

theorem ascending_cons {k : Nat} {v : α} {es : Entries α} :
    Ascending ((k, v) :: es) ↔ (∀ e ∈ es, k < e.1) ∧ Ascending es := List.pairwise_cons

theorem ascending_iff_map_fst {es : Entries α} :
    Ascending es ↔ (es.map Prod.fst).Pairwise (· < ·) := List.pairwise_map.symm

/-- No number comes twice. -/
theorem Ascending.nodup {es : Entries α} (hs : Ascending es) : (es.map Prod.fst).Nodup :=
  (ascending_iff_map_fst.mp hs).imp Nat.ne_of_lt

-- ── looking up ──────────────────────────────────────────────────────

/-- What is found under a number is an entry. -/
theorem mem_of_find? {k : Nat} {v : α} {es : Entries α} (h : es.find? k = some v) :
    (k, v) ∈ es := by
  induction es with
  | nil => simp [find?] at h
  | cons e rest ih =>
      obtain ⟨other, old⟩ := e
      simp only [find?] at h
      by_cases hk : other = k
      · rw [if_pos hk] at h
        obtain rfl := Option.some.inj h
        subst hk
        exact List.mem_cons_self
      · rw [if_neg hk] at h
        exact List.mem_cons_of_mem _ (ih h)

/-- In ascending order no entry hides another one. -/
theorem find?_of_mem {k : Nat} {v : α} {es : Entries α} (hs : Ascending es) (h : (k, v) ∈ es) :
    es.find? k = some v := by
  induction es with
  | nil => exact absurd h List.not_mem_nil
  | cons e rest ih =>
      obtain ⟨other, old⟩ := e
      obtain ⟨hlt, hrest⟩ := ascending_cons.mp hs
      simp only [find?]
      rcases List.mem_cons.mp h with heq | hmem
      · obtain ⟨rfl, rfl⟩ := Prod.mk.inj heq
        rw [if_pos rfl]
      · have hne : other ≠ k := Nat.ne_of_lt (hlt _ hmem)
        rw [if_neg hne]
        exact ih hrest hmem

theorem find?_eq_some_iff {k : Nat} {v : α} {es : Entries α} (hs : Ascending es) :
    es.find? k = some v ↔ (k, v) ∈ es := ⟨mem_of_find?, find?_of_mem hs⟩

theorem find?_eq_none_iff {k : Nat} {es : Entries α} (hs : Ascending es) :
    es.find? k = none ↔ ∀ v, (k, v) ∉ es := by
  constructor
  · intro h v hv
    rw [find?_of_mem hs hv] at h
    exact absurd h (by simp)
  · intro h
    cases hf : es.find? k with
    | none => rfl
    | some v => exact absurd (mem_of_find? hf) (h v)

-- ── inserting ───────────────────────────────────────────────────────

/-- An entry of the table after an insertion is the new one or an old one. -/
theorem mem_insert {k : Nat} {v : α} {e : Nat × α} {es : Entries α} (h : e ∈ es.insert k v) :
    e = (k, v) ∨ e ∈ es := by
  induction es with
  | nil => exact Or.inl (List.mem_singleton.mp h)
  | cons hd rest ih =>
      obtain ⟨other, old⟩ := hd
      simp only [insert] at h
      split at h
      · exact List.mem_cons.mp h
      · split at h
        · rcases List.mem_cons.mp h with h | h
          · exact Or.inl h
          · exact Or.inr (List.mem_cons_of_mem _ h)
        · rcases List.mem_cons.mp h with h | h
          · exact Or.inr (h ▸ List.mem_cons_self)
          · rcases ih h with h | h
            · exact Or.inl h
            · exact Or.inr (List.mem_cons_of_mem _ h)

theorem ascending_insert (k : Nat) (v : α) {es : Entries α} (hs : Ascending es) :
    Ascending (es.insert k v) := by
  induction es with
  | nil => exact ascending_cons.mpr ⟨by simp, ascending_nil⟩
  | cons hd rest ih =>
      obtain ⟨other, old⟩ := hd
      obtain ⟨hlt, hrest⟩ := ascending_cons.mp hs
      simp only [insert]
      split
      · next hk =>
        refine ascending_cons.mpr ⟨?_, hs⟩
        intro e he
        rcases List.mem_cons.mp he with rfl | he
        · exact hk
        · exact Nat.lt_trans hk (hlt e he)
      · split
        · next hk => exact ascending_cons.mpr ⟨hk ▸ hlt, hrest⟩
        · next hnlt hne =>
          refine ascending_cons.mpr ⟨?_, ih hrest⟩
          intro e he
          rcases mem_insert he with rfl | he
          · show other < k
            omega
          · exact hlt e he

/-- After an insertion the number has the new value and the other numbers have their old ones. -/
theorem mem_insert_iff {k : Nat} {v : α} {es : Entries α} (hs : Ascending es) (e : Nat × α) :
    e ∈ es.insert k v ↔ e = (k, v) ∨ (e.1 ≠ k ∧ e ∈ es) := by
  obtain ⟨n, w⟩ := e
  rw [← find?_eq_some_iff (ascending_insert k v hs)]
  by_cases hn : n = k
  · subst hn
    simp [eq_comm]
  · rw [find?_insert_of_ne hn, find?_eq_some_iff hs]
    simp [hn]

/-- An insertion adds its key and takes no key away. -/
theorem mem_map_fst_insert {k n : Nat} {v : α} {es : Entries α} (hs : Ascending es) :
    n ∈ (es.insert k v).map Prod.fst ↔ n = k ∨ n ∈ es.map Prod.fst := by
  simp only [List.mem_map]
  constructor
  · rintro ⟨e, he, rfl⟩
    rcases mem_insert he with rfl | he
    · exact Or.inl rfl
    · exact Or.inr ⟨e, he, rfl⟩
  · intro h
    by_cases hn : n = k
    · exact ⟨(k, v), (mem_insert_iff hs _).mpr (Or.inl rfl), hn.symm⟩
    · obtain ⟨e, he, rfl⟩ := h.resolve_left hn
      exact ⟨e, (mem_insert_iff hs e).mpr (Or.inr ⟨hn, he⟩), rfl⟩

-- ── inserting entries in any order ──────────────────────────────────

/-- Puts in entries one after the other. -/
def insertAll (es more : Entries α) : Entries α := more.foldl (fun es e => es.insert e.1 e.2) es

/-- The numbers of the new entries differ from each other and from those that are there. -/
def Fresh (es more : Entries α) : Prop := ((more ++ es).map Prod.fst).Nodup

theorem perm_insert {k : Nat} (v : α) {es : Entries α} (h : es.find? k = none) :
    (es.insert k v).Perm ((k, v) :: es) := by
  induction es with
  | nil => exact .refl _
  | cons hd rest ih =>
      obtain ⟨other, old⟩ := hd
      by_cases hne : other = k
      · rw [find?, if_pos hne] at h
        cases h
      · rw [find?, if_neg hne] at h
        simp only [insert, if_neg (Ne.symm hne)]
        split
        · exact .refl _
        · exact ((ih h).cons (other, old)).trans (.swap (k, v) (other, old) rest)

namespace Fresh

variable {es more : Entries α} {e : Nat × α}

theorem find?_eq_none (h : Fresh es (e :: more)) : es.find? e.1 = none := by
  cases hfound : es.find? e.1 with
  | none => rfl
  | some v =>
      have hmem : e.1 ∈ (more ++ es).map Prod.fst :=
        List.mem_map.mpr ⟨(e.1, v), List.mem_append_right more (mem_of_find? hfound), rfl⟩
      exact absurd hmem (List.nodup_cons.mp h).1

theorem perm_insert (h : Fresh es (e :: more)) :
    (more ++ es.insert e.1 e.2).Perm (e :: more ++ es) :=
  ((Entries.perm_insert e.2 h.find?_eq_none).append_left more).trans List.perm_middle

theorem insert (h : Fresh es (e :: more)) : Fresh (es.insert e.1 e.2) more :=
  (h.perm_insert.map Prod.fst).nodup_iff.mpr h

theorem perm_insertAll (h : Fresh es more) : (es.insertAll more).Perm (more ++ es) := by
  induction more generalizing es with
  | nil => exact .refl es
  | cons e more ih => exact (ih h.insert).trans h.perm_insert

end Fresh

/-- Whatever is inserted, and in whatever order, the table stays sorted. -/
theorem ascending_insertAll {es : Entries α} (hs : Ascending es) (more : Entries α) :
    Ascending (es.insertAll more) := by
  induction more generalizing es with
  | nil => exact hs
  | cons e more ih => exact ih (ascending_insert e.1 e.2 hs)

/-- The entries of a table in another order have their keys once each. -/
theorem fresh_of_perm {es more : Entries α} (hs : Ascending es) (hperm : more.Perm es) :
    Fresh [] more := by
  rw [Fresh, List.append_nil]
  exact (hperm.map Prod.fst).nodup_iff.mpr hs.nodup

/-- Tables with the same members are equal. -/
theorem eq_of_mem_iff {es es' : Entries α} (hs : Ascending es) (hs' : Ascending es')
    (h : ∀ e, e ∈ es ↔ e ∈ es') : es = es' := by
  have hne : ∀ {a b : Nat × α}, a.1 < b.1 → a ≠ b := fun hlt heq => Nat.ne_of_lt hlt (heq ▸ rfl)
  have hperm : es.Perm es' := (List.perm_ext_iff_of_nodup (hs.imp hne) (hs'.imp hne)).mpr h
  exact hperm.eq_of_pairwise (fun _ _ _ _ hlt hgt => absurd hgt (Nat.lt_asymm hlt)) hs hs'

/-- Tables that answer every lookup alike are equal. -/
theorem eq_of_find?_eq {es es' : Entries α} (hs : Ascending es) (hs' : Ascending es')
    (h : ∀ k, es.find? k = es'.find? k) : es = es' := by
  refine eq_of_mem_iff hs hs' fun e => ?_
  rw [← find?_eq_some_iff hs, h e.1, find?_eq_some_iff hs']

/-- **Whatever the order in which its entries are put in**, the table is the same. -/
theorem insertAll_of_perm {es more : Entries α} (hs : Ascending es) (hperm : more.Perm es) :
    insertAll [] more = es := by
  have hsame : (insertAll [] more).Perm es := by
    have hall := (fresh_of_perm hs hperm).perm_insertAll
    rw [List.append_nil] at hall
    exact hall.trans hperm
  refine List.Perm.eq_of_pairwise ?_ (ascending_insertAll ascending_nil more) hs hsame
  exact fun _ _ _ _ hlt hgt => absurd hgt (Nat.lt_asymm hlt)

-- ── what was put in last ────────────────────────────────────────────

/-- The value that was put in last under a number. -/
def last? (k : Nat) (puts : List (Nat × α)) : Option α := puts.reverse.lookup k

/-- The last value put under a key is that of the last put, if it is under the key. -/
theorem last?_concat (k : Nat) (puts : List (Nat × α)) (put : Nat × α) :
    last? k (puts ++ [put]) = if put.1 = k then some put.2 else last? k puts := by
  rw [last?, List.reverse_append, List.reverse_singleton, List.singleton_append, List.lookup_cons, last?]
  by_cases hk : put.1 = k
  · rw [if_pos hk, hk, beq_self_eq_true]
  · have hne : (k == put.1) = false := beq_eq_false_iff_ne.mpr (Ne.symm hk)
    rw [if_neg hk, hne]

theorem insertAll_concat (es : Entries α) (puts : List (Nat × α)) (put : Nat × α) :
    es.insertAll (puts ++ [put]) = (es.insertAll puts).insert put.1 put.2 := by
  rw [insertAll, List.foldl_append]
  rfl

/-- **A lookup finds what was put in last.** -/
theorem find?_insertAll (k : Nat) (puts : List (Nat × α)) : (insertAll [] puts).find? k = last? k puts := by
  induction puts using List.reverseRecOn with
  | nil => rfl
  | append_singleton puts put ih =>
      rw [insertAll_concat, last?_concat]
      by_cases hk : put.1 = k
      · rw [if_pos hk, ← hk, find?_insert_self]
      · rw [if_neg hk, find?_insert_of_ne (Ne.symm hk), ih]

/-- The keys of a table that is built by insertions are the keys that were put in. -/
theorem mem_map_fst_insertAll (n : Nat) (puts : List (Nat × α)) :
    n ∈ (insertAll [] puts).map Prod.fst ↔ n ∈ puts.map Prod.fst := by
  induction puts using List.reverseRecOn with
  | nil => exact .rfl
  | append_singleton puts put ih =>
      rw [insertAll_concat, mem_map_fst_insert (ascending_insertAll ascending_nil puts), ih,
        List.map_append, List.mem_append, List.map_singleton, List.mem_singleton, or_comm]

/-- A table has one entry for each number that was put in. -/
theorem length_insertAll (puts : List (Nat × α)) :
    (insertAll [] puts).length = (puts.map Prod.fst).dedup.length := by
  have hperm : ((insertAll [] puts).map Prod.fst).Perm (puts.map Prod.fst).dedup := by
    refine (List.perm_ext_iff_of_nodup (ascending_insertAll ascending_nil puts).nodup
      (List.nodup_dedup _)).mpr fun n => ?_
    rw [mem_map_fst_insertAll, List.mem_dedup]
  rw [← hperm.length_eq, List.length_map]

-- ── changing a value ────────────────────────────────────────────────

@[simp] theorem map_fst_modify (k : Nat) (f : α → α) (es : Entries α) :
    (es.modify k f).map Prod.fst = es.map Prod.fst := by
  induction es with
  | nil => rfl
  | cons hd rest ih =>
      obtain ⟨other, old⟩ := hd
      simp only [modify]
      split
      · rfl
      · simp only [List.map_cons, ih]

theorem ascending_modify (k : Nat) (f : α → α) {es : Entries α} (hs : Ascending es) :
    Ascending (es.modify k f) := by
  rw [ascending_iff_map_fst, map_fst_modify]
  exact ascending_iff_map_fst.mp hs

/-- A change reaches the value under its number and no other. -/
theorem mem_modify_iff {k : Nat} {f : α → α} {es : Entries α} (hs : Ascending es) (e : Nat × α) :
    e ∈ es.modify k f ↔ (e.1 ≠ k ∧ e ∈ es) ∨ ∃ v, (k, v) ∈ es ∧ e = (k, f v) := by
  induction es with
  | nil => simp [modify]
  | cons hd rest ih =>
      obtain ⟨other, old⟩ := hd
      obtain ⟨hlt, hrest⟩ := ascending_cons.mp hs
      simp only [modify]
      by_cases hk : other = k
      · -- the entry that changes; behind it every number is larger
        subst hk
        have hne : ∀ e' ∈ rest, e'.1 ≠ other := fun e' he => Nat.ne_of_gt (hlt e' he)
        rw [if_pos rfl]
        constructor
        · intro h
          rcases List.mem_cons.mp h with rfl | h
          · exact Or.inr ⟨old, List.mem_cons_self, rfl⟩
          · exact Or.inl ⟨hne e h, List.mem_cons_of_mem _ h⟩
        · rintro (⟨h1, h2⟩ | ⟨v, hv, rfl⟩)
          · rcases List.mem_cons.mp h2 with rfl | h2
            · exact absurd rfl h1
            · exact List.mem_cons_of_mem _ h2
          · rcases List.mem_cons.mp hv with hv | hv
            · rw [(Prod.mk.inj hv).2]
              exact List.mem_cons_self
            · exact absurd rfl (hne _ hv)
      · rw [if_neg hk, List.mem_cons, ih hrest]
        constructor
        · rintro (rfl | ⟨h1, h2⟩ | ⟨v, hv, rfl⟩)
          · exact Or.inl ⟨hk, List.mem_cons_self⟩
          · exact Or.inl ⟨h1, List.mem_cons_of_mem _ h2⟩
          · exact Or.inr ⟨v, List.mem_cons_of_mem _ hv, rfl⟩
        · rintro (⟨h1, h2⟩ | ⟨v, hv, rfl⟩)
          · rcases List.mem_cons.mp h2 with rfl | h2
            · exact Or.inl rfl
            · exact Or.inr (Or.inl ⟨h1, h2⟩)
          · rcases List.mem_cons.mp hv with hv | hv
            · exact absurd (Prod.mk.inj hv).1.symm hk
            · exact Or.inr (Or.inr ⟨v, hv, rfl⟩)

end LiveMedia.Entries
