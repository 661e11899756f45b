/- # OrderedMap -- maps that remember the order of arrival

A map is the list of its entries, with each key once. A new key goes to the end;
writing to a key that is present replaces its value and moves nothing.
-/

namespace ArchiveRecord

/-- Entries in the order in which their keys first arrived. -/
structure OrderedMap (κ : Type) (α : Type) where
  entries : List (κ × α)
  distinct : (entries.map Prod.fst).Nodup

namespace OrderedMap

variable {κ α : Type}

/-- The map without entries. -/
def empty : OrderedMap κ α := ⟨[], List.nodup_nil⟩

instance : EmptyCollection (OrderedMap κ α) := ⟨empty⟩

instance : Inhabited (OrderedMap κ α) := ⟨empty⟩

@[ext] theorem ext {m n : OrderedMap κ α} (h : m.entries = n.entries) : m = n := by
  cases m
  cases n
  cases h
  rfl

/-- The keys in order. -/
def keys (m : OrderedMap κ α) : List κ := m.entries.map Prod.fst

variable [DecidableEq κ]

instance [DecidableEq α] : DecidableEq (OrderedMap κ α) := fun m n =>
  if h : m.entries = n.entries then isTrue (ext h) else isFalse fun e => h (e ▸ rfl)

/-- The value that entries give a key. -/
def find (key : κ) : List (κ × α) → Option α
  | [] => none
  | entry :: rest => if entry.1 = key then some entry.2 else find key rest

/-- The value of a key. -/
def get? (m : OrderedMap κ α) (key : κ) : Option α := find key m.entries

/-- Entries with a value written to a key. -/
def write (key : κ) (value : α) : List (κ × α) → List (κ × α)
  | [] => [(key, value)]
  | entry :: rest => if entry.1 = key then (key, value) :: rest else entry :: write key value rest

theorem mem_keys_write {key k : κ} {value : α} {entries : List (κ × α)} :
    k ∈ (write key value entries).map Prod.fst ↔ k = key ∨ k ∈ entries.map Prod.fst := by
  induction entries with
  | nil => simp [write]
  | cons entry rest ih =>
    by_cases h : entry.1 = key
    · simp [write, h]
    · simp only [write, h, if_false, List.map_cons, List.mem_cons, ih]
      exact or_left_comm

theorem nodup_write {key : κ} {value : α} {entries : List (κ × α)}
    (h : (entries.map Prod.fst).Nodup) : ((write key value entries).map Prod.fst).Nodup := by
  induction entries with
  | nil => simp [write]
  | cons entry rest ih =>
    obtain ⟨fresh, apart⟩ := List.nodup_cons.mp h
    by_cases hk : entry.1 = key
    · rw [write, if_pos hk, List.map_cons, List.nodup_cons]
      exact ⟨hk ▸ fresh, apart⟩
    · rw [write, if_neg hk, List.map_cons, List.nodup_cons, mem_keys_write, not_or]
      exact ⟨⟨hk, fresh⟩, ih apart⟩

/-- The map with a value written to a key. -/
def insert (m : OrderedMap κ α) (key : κ) (value : α) : OrderedMap κ α :=
  ⟨write key value m.entries, nodup_write m.distinct⟩

/-- The map without a key. -/
def erase (m : OrderedMap κ α) (key : κ) : OrderedMap κ α :=
  ⟨m.entries.filter fun entry => entry.1 ≠ key,
    m.distinct.sublist (List.Sublist.map _ List.filter_sublist)⟩

/-- The map of a list of entries, written one after the other. -/
def ofList (entries : List (κ × α)) : OrderedMap κ α :=
  entries.foldl (fun m entry => m.insert entry.1 entry.2) empty

theorem mem_keys_insert {m : OrderedMap κ α} {key k : κ} {value : α} :
    k ∈ (m.insert key value).keys ↔ k = key ∨ k ∈ m.keys :=
  mem_keys_write

theorem find_write {key k : κ} {value : α} {entries : List (κ × α)} :
    find k (write key value entries) = if k = key then some value else find k entries := by
  induction entries with
  | nil => by_cases h : k = key <;> simp [write, find, h, Ne.symm]
  | cons entry rest ih =>
    by_cases hk : entry.1 = key
    · by_cases h : k = key
      · simp [write, find, hk, h]
      · have hne : entry.1 ≠ k := fun e => h (e ▸ hk)
        have hne' : key ≠ k := fun e => h e.symm
        simp [write, find, hk, h, hne']
    · by_cases h : k = key
      · subst h
        simp [write, find, hk, ih]
      · simp [write, find, hk, ih, h]

/-- Writing to a key changes the value of that key and of no other. -/
theorem get?_insert {m : OrderedMap κ α} {key k : κ} {value : α} :
    (m.insert key value).get? k = if k = key then some value else m.get? k :=
  find_write

theorem mem_keys_of_find {key : κ} {value : α} {entries : List (κ × α)}
    (h : find key entries = some value) : key ∈ entries.map Prod.fst := by
  induction entries with
  | nil => cases h
  | cons entry rest ih =>
      rw [find] at h
      split at h
      next hkey => exact hkey ▸ List.mem_cons_self
      next => exact List.mem_cons_of_mem _ (ih h)

/-- A key that has a value is there. -/
theorem mem_keys_of_get? {m : OrderedMap κ α} {key : κ} {value : α} (h : m.get? key = some value) :
    key ∈ m.keys :=
  mem_keys_of_find h

theorem write_of_find {key : κ} {value : α} {entries : List (κ × α)}
    (h : find key entries = some value) : write key value entries = entries := by
  induction entries with
  | nil => cases h
  | cons entry rest ih =>
      rw [find] at h
      split at h
      next hkey =>
        obtain rfl := Option.some.inj h
        rw [write, if_pos hkey, ← hkey]
      next hkey => rw [write, if_neg hkey, ih h]

/-- Writing the value that a key has changes nothing. -/
theorem insert_of_get? {m : OrderedMap κ α} {key : κ} {value : α} (h : m.get? key = some value) :
    m.insert key value = m :=
  ext (write_of_find h)

/-- A new key goes to the end. -/
theorem write_of_notMem {key : κ} {value : α} {entries : List (κ × α)}
    (h : key ∉ entries.map Prod.fst) : write key value entries = entries ++ [(key, value)] := by
  induction entries with
  | nil => rfl
  | cons entry rest ih =>
      rw [List.map_cons, List.mem_cons, not_or] at h
      rw [write, if_neg (Ne.symm h.1), ih h.2, List.cons_append]

/-! ## Entries written one after the other -/

/-- The map with entries written one after the other. -/
def insertAll (m : OrderedMap κ α) (entries : List (κ × α)) : OrderedMap κ α :=
  entries.foldl (fun m entry => m.insert entry.1 entry.2) m

theorem insertAll_cons (m : OrderedMap κ α) (entry : κ × α) (entries : List (κ × α)) :
    m.insertAll (entry :: entries) = (m.insert entry.1 entry.2).insertAll entries := rfl

theorem entries_insertAll {m : OrderedMap κ α} {entries : List (κ × α)}
    (h : ((m.entries ++ entries).map Prod.fst).Nodup) :
    (m.insertAll entries).entries = m.entries ++ entries := by
  induction entries generalizing m with
  | nil => rw [List.append_nil]; rfl
  | cons entry rest ih =>
      have hfresh : entry.1 ∉ m.entries.map Prod.fst := by
        rw [List.map_append, List.map_cons] at h
        intro hmem
        exact (List.nodup_append.mp h).2.2 entry.1 hmem entry.1 List.mem_cons_self rfl
      have hinsert : (m.insert entry.1 entry.2).entries = m.entries ++ [entry] :=
        write_of_notMem hfresh
      rw [insertAll_cons, ih (by rwa [hinsert, List.append_assoc]), hinsert, List.append_assoc]
      rfl

/-- A map is that of its entries, written in their order. -/
theorem ofList_entries (m : OrderedMap κ α) : ofList m.entries = m := by
  have h : (((empty : OrderedMap κ α).entries ++ m.entries).map Prod.fst).Nodup := m.distinct
  exact ext (entries_insertAll h)

theorem keys_write (key : κ) (value : α) (entries : List (κ × α)) :
    (write key value entries).map Prod.fst
      = if key ∈ entries.map Prod.fst then entries.map Prod.fst
        else entries.map Prod.fst ++ [key] := by
  induction entries with
  | nil => simp [write]
  | cons entry rest ih =>
      by_cases hkey : entry.1 = key
      · simp [write, hkey]
      · rw [write, if_neg hkey, List.map_cons, ih]
        by_cases hmem : key ∈ rest.map Prod.fst
        · simp [hmem]
        · rw [if_neg hmem, List.map_cons, if_neg (by simp [hmem, Ne.symm hkey]), List.cons_append]

/-- **Keys keep the place of their first arrival:** those of the map come first, then the others in
the order in which they first occur. -/
theorem keys_insertAll (m : OrderedMap κ α) (entries : List (κ × α)) :
    (m.insertAll entries).keys
      = m.keys ++ ((entries.map Prod.fst).removeAll m.keys).eraseDups := by
  induction entries generalizing m with
  | nil => simp [insertAll, List.removeAll]
  | cons entry rest ih =>
      have hkeys : (m.insert entry.1 entry.2).keys
          = if entry.1 ∈ m.keys then m.keys else m.keys ++ [entry.1] :=
        keys_write entry.1 entry.2 m.entries
      rw [insertAll_cons, ih, hkeys]
      by_cases hmem : entry.1 ∈ m.keys
      · simp [hmem, List.removeAll]
      · -- A new key is the first of the others, and none behind it is the same.
        have hfirst : (entry.1 :: rest.map Prod.fst).removeAll m.keys
            = entry.1 :: (rest.map Prod.fst).removeAll m.keys := by
          simp [List.removeAll, hmem]
        have hothers : (rest.map Prod.fst).removeAll (m.keys ++ [entry.1])
            = ((rest.map Prod.fst).removeAll m.keys).filter fun key => !key == entry.1 := by
          rw [List.removeAll, List.removeAll, List.filter_filter]
          exact List.filter_congr fun key _ => by rw [Bool.eq_iff_iff]; simp [and_comm]
        rw [if_neg hmem, hothers, List.map_cons, hfirst, List.eraseDups_cons, List.append_assoc,
          List.singleton_append]

/-- **The last value of a key counts,** and a key that is not written keeps its value. -/
theorem get?_insertAll (m : OrderedMap κ α) (entries : List (κ × α)) (key : κ) :
    (m.insertAll entries).get? key
      = (((entries.filter fun entry => entry.1 = key).map Prod.snd).getLast?).or (m.get? key) := by
  induction entries generalizing m with
  | nil => rfl
  | cons entry rest ih =>
      rw [insertAll_cons, ih, get?_insert]
      by_cases hkey : entry.1 = key
      · simp [hkey, List.getLast?_cons]
      · simp [hkey, Ne.symm hkey]

end OrderedMap

end ArchiveRecord
