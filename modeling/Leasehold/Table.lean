/-!
# Table — finite maps that remember the order of insertion

A table is a list of pairs in which a key occurs once. Putting a value under a
key that is there replaces it where it stands; a new key goes to the end. The
view of a table is `get?`; one equation for each operation says what the
operation does to it.
-/

namespace Leasehold

/-- A finite map from keys to values, oldest key first. -/
structure Table (κ α : Type) where
  /-- The pairs, in the order in which their keys were first put. -/
  entries : List (κ × α)
  /-- A key occurs at most once. -/
  nodup : (entries.map Prod.fst).Nodup

namespace Table

variable {κ α β : Type} [DecidableEq κ]

/-- The table with no key. -/
def empty : Table κ α := ⟨[], List.nodup_nil⟩

instance : Inhabited (Table κ α) := ⟨empty⟩

/-- The keys, oldest first. -/
def keys (t : Table κ α) : List κ := t.entries.map Prod.fst

/-- The values, oldest key first. -/
def values (t : Table κ α) : List α := t.entries.map Prod.snd

def size (t : Table κ α) : Nat := t.entries.length

def isEmpty (t : Table κ α) : Bool := t.entries.isEmpty

/-- The value under a key. -/
def get? (t : Table κ α) (k : κ) : Option α :=
  (t.entries.find? (·.1 = k)).map Prod.snd

/-- Whether a key is there. -/
def contains (t : Table κ α) (k : κ) : Bool := t.entries.any (·.1 = k)

/-- Replaces the value of the first pair with this key, or adds the pair at the end. -/
def insertPair (k : κ) (v : α) : List (κ × α) → List (κ × α)
  | [] => [(k, v)]
  | p :: rest => if p.1 = k then (k, v) :: rest else p :: insertPair k v rest

theorem map_fst_insertPair (k : κ) (v : α) (ps : List (κ × α)) :
    (insertPair k v ps).map Prod.fst =
      if k ∈ ps.map Prod.fst then ps.map Prod.fst else ps.map Prod.fst ++ [k] := by
  induction ps with
  | nil => simp [insertPair]
  | cons p rest ih =>
    by_cases h : p.1 = k
    · simp [insertPair, h]
    · have h' : ¬ k = p.1 := fun e => h e.symm
      simp only [insertPair, if_neg h, List.map_cons, ih, List.mem_cons, h', false_or]
      split <;> simp_all

/-- Puts a value under a key. -/
def insert (t : Table κ α) (k : κ) (v : α) : Table κ α where
  entries := insertPair k v t.entries
  nodup := by
    rw [map_fst_insertPair]
    split
    · exact t.nodup
    · rename_i h
      exact List.nodup_append.2 ⟨t.nodup, by simp, by
        intro a ha b hb
        simp only [List.mem_singleton] at hb
        exact fun e => h (hb ▸ e ▸ ha)⟩

/-- Forgets a key. -/
def erase (t : Table κ α) (k : κ) : Table κ α where
  entries := t.entries.filter (fun p => ¬ p.1 = k)
  nodup := t.nodup.sublist (List.filter_sublist.map Prod.fst)

/-- Puts a value under a key that has none; a value already there stays. -/
def insertNew (t : Table κ α) (k : κ) (v : α) : Table κ α :=
  if t.contains k then t else t.insert k v

@[simp] theorem get?_empty (k : κ) : (empty : Table κ α).get? k = none := rfl

theorem get?_insert (t : Table κ α) (k : κ) (v : α) (j : κ) :
    (t.insert k v).get? j = if k = j then some v else t.get? j := by
  simp only [get?, insert]
  induction t.entries with
  | nil => by_cases h : k = j <;> simp [insertPair, h]
  | cons p rest ih =>
    by_cases hp : p.1 = k
    · by_cases hj : k = j <;> simp [insertPair, hp, hj]
    · by_cases hpj : p.1 = j
      · have hkj : ¬ k = j := fun e => hp (hpj.trans e.symm)
        have hjk : ¬ j = k := fun e => hkj e.symm
        simp [insertPair, hpj, hkj, hjk]
      · simp only [insertPair, if_neg hp, List.find?_cons, hpj, decide_false]
        exact ih

theorem get?_erase (t : Table κ α) (k j : κ) :
    (t.erase k).get? j = if k = j then none else t.get? j := by
  simp only [get?, erase]
  induction t.entries with
  | nil => simp
  | cons p rest ih =>
    by_cases hp : p.1 = k
    · simp only [List.filter_cons, hp, not_true_eq_false, decide_false, Bool.false_eq_true,
        if_false, ih]
      by_cases hj : k = j <;> simp [hp, hj]
    · simp only [List.filter_cons, hp, not_false_eq_true, decide_true, if_true, List.find?_cons]
      by_cases hpj : p.1 = j
      · have : ¬ k = j := fun e => hp (hpj.trans e.symm)
        simp [hpj, this]
      · simpa only [hpj, decide_false] using ih

theorem mem_entries_of_get? {t : Table κ α} {k : κ} {v : α} (h : t.get? k = some v) :
    (k, v) ∈ t.entries := by
  simp only [get?, Option.map_eq_some_iff] at h
  obtain ⟨p, hp, rfl⟩ := h
  have hk := List.find?_some hp
  simp only [decide_eq_true_eq] at hk
  exact hk ▸ List.mem_of_find?_eq_some hp

/-- A key occurs once, so what is found under it is the pair that stands there. -/
theorem get?_of_mem_entries (t : Table κ α) {k : κ} {v : α} (h : (k, v) ∈ t.entries) :
    t.get? k = some v := by
  have hnodup := t.nodup
  simp only [get?]
  generalize t.entries = ps at h hnodup
  induction ps with
  | nil => cases h
  | cons p rest ih =>
    rw [List.map_cons, List.nodup_cons] at hnodup
    rcases List.mem_cons.1 h with rfl | hrest
    · simp
    · have hne : ¬ p.1 = k := fun hk => hnodup.1 (List.mem_map.2 ⟨(k, v), hrest, hk.symm⟩)
      simpa [List.find?_cons, hne] using ih hrest hnodup.2

theorem mem_values_iff {t : Table κ α} {v : α} : v ∈ t.values ↔ ∃ k, t.get? k = some v := by
  unfold values
  rw [List.mem_map]
  constructor
  · rintro ⟨⟨k, _⟩, hmem, rfl⟩
    exact ⟨k, t.get?_of_mem_entries hmem⟩
  · rintro ⟨k, hk⟩
    exact ⟨(k, v), mem_entries_of_get? hk, rfl⟩

theorem contains_iff {t : Table κ α} {k : κ} : t.contains k = true ↔ ∃ v, t.get? k = some v := by
  unfold contains
  rw [List.any_eq_true]
  constructor
  · rintro ⟨⟨j, v⟩, hmem, hj⟩
    simp only [decide_eq_true_eq] at hj
    exact ⟨v, t.get?_of_mem_entries (hj ▸ hmem)⟩
  · rintro ⟨v, hv⟩
    exact ⟨(k, v), mem_entries_of_get? hv, by simp⟩

theorem contains_insert (t : Table κ α) (k : κ) (v : α) (j : κ) :
    (t.insert k v).contains j = (decide (k = j) || t.contains j) := by
  rw [Bool.eq_iff_iff, Bool.or_eq_true, contains_iff, contains_iff, get?_insert]
  by_cases h : k = j
  · simp [h]
  · simp [h]

theorem contains_erase (t : Table κ α) (k j : κ) :
    (t.erase k).contains j = (!decide (k = j) && t.contains j) := by
  rw [Bool.eq_iff_iff, Bool.and_eq_true, contains_iff, contains_iff, get?_erase]
  by_cases h : k = j
  · simp [h]
  · simp [h]

theorem get?_eq_none_iff {t : Table κ α} {k : κ} : t.get? k = none ↔ t.contains k = false := by
  rw [Option.eq_none_iff_forall_ne_some, ← Bool.not_eq_true, contains_iff, not_exists]

theorem get?_insertNew (t : Table κ α) (k : κ) (v : α) (j : κ) :
    (t.insertNew k v).get? j = (t.get? j).or (if k = j then some v else none) := by
  unfold insertNew
  split
  · rename_i hk
    split
    · rename_i hkj
      obtain ⟨w, hw⟩ := contains_iff.1 hk
      rw [← hkj, hw]
      rfl
    · exact Option.or_none.symm
  · rename_i hk
    rw [get?_insert]
    split
    · rename_i hkj
      rw [← hkj, get?_eq_none_iff.2 (Bool.not_eq_true _ ▸ hk)]
      rfl
    · exact Option.or_none.symm

theorem contains_insertNew (t : Table κ α) (k : κ) (v : α) (j : κ) :
    (t.insertNew k v).contains j = (decide (k = j) || t.contains j) := by
  unfold insertNew
  split
  · rename_i hk
    by_cases h : k = j
    · simp [← h, hk]
    · simp [h]
  · exact t.contains_insert k v j

theorem isEmpty_eq_false_iff {t : Table κ α} : t.isEmpty = false ↔ ∃ k, t.contains k = true := by
  unfold isEmpty contains
  cases t.entries with
  | nil => simp
  | cons p rest => simp

end Table

end Leasehold
