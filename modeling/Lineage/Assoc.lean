/-!
# Entries in order of first insertion

Object properties, bindings and the arguments of a log are all looked up by
name and listed in the order in which their names first appeared. Writing a
name again keeps its place and replaces what it holds.
-/

namespace Lineage

/-- A finite map from names that remembers the order of first insertion. -/
structure Assoc (α : Type u) where
  /-- The entries, oldest name first. -/
  entries : List (String × α) := []
  deriving DecidableEq, Repr, Inhabited

namespace Assoc

variable {α : Type u} {β : Type v}

/-- No entries. -/
def empty : Assoc α := ⟨[]⟩

/-- What `key` holds. -/
def find? (m : Assoc α) (key : String) : Option α := m.entries.lookup key

/-- Whether `key` has an entry. -/
def contains (m : Assoc α) (key : String) : Bool := (m.find? key).isSome

/-- Replaces the entry of `key`, or adds one at the end. -/
def insertEntry (key : String) (a : α) : List (String × α) → List (String × α)
  | [] => [(key, a)]
  | (k, b) :: rest => if k = key then (k, a) :: rest else (k, b) :: insertEntry key a rest

/-- The map with `key` holding `a`. -/
def insert (m : Assoc α) (key : String) (a : α) : Assoc α := ⟨insertEntry key a m.entries⟩

/-- The map with what `key` holds changed, if it holds anything. -/
def modify (m : Assoc α) (key : String) (f : α → α) : Assoc α :=
  ⟨m.entries.map fun entry => if entry.1 = key then (entry.1, f entry.2) else entry⟩

/-- The map without the entry of `key`. -/
def erase (m : Assoc α) (key : String) : Assoc α := ⟨m.entries.filter (·.1 ≠ key)⟩

/-- The names, oldest first. -/
def keys (m : Assoc α) : List String := m.entries.map Prod.fst

/-- Every entry changed, names and order kept. -/
def mapValues (m : Assoc α) (f : α → β) : Assoc β :=
  ⟨m.entries.map fun entry => (entry.1, f entry.2)⟩

/-- Inserts a list of entries one after the other. -/
def ofList (entries : List (String × α)) : Assoc α :=
  entries.foldl (fun m entry => m.insert entry.1 entry.2) empty

/-- Whether there is no entry. -/
def isEmpty (m : Assoc α) : Bool := m.entries.isEmpty

/-! ## What a write does to a look-up -/

theorem lookup_insertEntry_self (key : String) (a : α) (es : List (String × α)) :
    (insertEntry key a es).lookup key = some a := by
  induction es with
  | nil => simp [insertEntry]
  | cons e es ih =>
    obtain ⟨k, b⟩ := e
    by_cases h : k = key
    · simp [insertEntry, h]
    · have h' : (key == k) = false := by simpa using fun h' => h h'.symm
      simp [insertEntry, h, List.lookup_cons, h', ih]

theorem lookup_insertEntry_of_ne {key other : String} (h : other ≠ key) (a : α)
    (es : List (String × α)) :
    (insertEntry key a es).lookup other = es.lookup other := by
  have h' : (other == key) = false := by simpa using h
  induction es with
  | nil => simp [insertEntry, List.lookup_cons, h']
  | cons e es ih =>
    obtain ⟨k, b⟩ := e
    by_cases hk : k = key
    · subst hk; simp [insertEntry, List.lookup_cons, h']
    · simp [insertEntry, hk, List.lookup_cons, ih]

/-- A write is read back. -/
@[simp] theorem find?_insert_self (m : Assoc α) (key : String) (a : α) :
    (m.insert key a).find? key = some a :=
  lookup_insertEntry_self key a m.entries

/-- A write leaves every other name alone. -/
theorem find?_insert_of_ne (m : Assoc α) {key other : String} (h : other ≠ key) (a : α) :
    (m.insert key a).find? other = m.find? other :=
  lookup_insertEntry_of_ne h a m.entries

theorem find?_insert (m : Assoc α) (key other : String) (a : α) :
    (m.insert key a).find? other = if other = key then some a else m.find? other := by
  split
  · rename_i h; subst h; exact m.find?_insert_self _ a
  · rename_i h; exact m.find?_insert_of_ne h a

@[simp] theorem find?_empty (key : String) : (empty : Assoc α).find? key = none := rfl

theorem find?_modify (m : Assoc α) (key other : String) (f : α → α) :
    (m.modify key f).find? other =
      if other = key then (m.find? other).map f else m.find? other := by
  obtain ⟨es⟩ := m
  unfold find? modify
  induction es with
  | nil => simp
  | cons e es ih =>
    obtain ⟨k, a⟩ := e
    by_cases hk : k = key
    · by_cases ho : other = k
      · simp [hk, ho]
      · have h' : (other == k) = false := by simpa using ho
        simp only [List.map_cons, hk, ↓reduceIte, List.lookup_cons] at ih h' ⊢
        rw [h']; exact ih
    · by_cases ho : other = k
      · have hne : other ≠ key := fun h => hk (ho ▸ h)
        simp [hk, ho]
      · have h' : (other == k) = false := by simpa using ho
        simp only [List.map_cons, hk, ↓reduceIte, List.lookup_cons, h'] at ih ⊢
        exact ih

theorem find?_mapValues (m : Assoc α) (f : α → β) (key : String) :
    (m.mapValues f).find? key = (m.find? key).map f := by
  obtain ⟨es⟩ := m
  unfold find? mapValues
  induction es with
  | nil => rfl
  | cons e es ih =>
    obtain ⟨k, a⟩ := e
    simp only [List.map_cons, List.lookup_cons]
    split
    · rfl
    · exact ih

/-! ## What a look-up finds is an entry -/

theorem mem_of_find? {m : Assoc α} {key : String} {a : α} (h : m.find? key = some a) :
    (key, a) ∈ m.entries := by
  obtain ⟨es⟩ := m
  unfold find? at h
  induction es with
  | nil => simp at h
  | cons e es ih =>
    obtain ⟨k, b⟩ := e
    simp only [List.lookup_cons] at h
    split at h
    · rename_i hk
      have hk : key = k := by simpa using hk
      simp_all
    · exact List.mem_cons_of_mem _ (ih h)

theorem mem_insert {m : Assoc α} {key : String} {a : α} {e : String × α}
    (h : e ∈ (m.insert key a).entries) : e = (key, a) ∨ e ∈ m.entries := by
  obtain ⟨es⟩ := m
  unfold insert at h
  induction es with
  | nil => exact .inl (by simpa [insertEntry] using h)
  | cons e' es ih =>
    obtain ⟨k, b⟩ := e'
    by_cases hk : k = key
    · simp only [insertEntry, hk, ↓reduceIte, List.mem_cons] at h ⊢
      rcases h with h | h
      · exact .inl h
      · exact .inr (.inr h)
    · simp only [insertEntry, hk, ↓reduceIte, List.mem_cons] at h ⊢
      rcases h with h | h
      · exact .inr (.inl h)
      · exact (ih h).imp_right .inr

end Assoc

end Lineage
