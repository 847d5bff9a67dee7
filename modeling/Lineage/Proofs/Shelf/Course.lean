import Lineage.Proofs.Origin.Memory
import Lineage.Proofs.Shelf.Alive

/-!
# The property table over the life of objects

A shelf is used act by act: objects and arrays are made, get further names and
lose them, their properties are written, and the table of the writes is swept,
on demand and by every 256th write. The place of an object may be given to a
new one, but only once it is dead and the table has no entry for it.

Over all of that the table is exact for what is alive. Which writes a look-up
must find is said by the acts alone. What a sweep removes is said by who is
alive, and nobody who is dead comes back to life or is written to, so a dead
entry lasts only until the table is swept, which takes no more than 256 writes.
-/

namespace Lineage

/-! ## What writes and sweeps leave of the table -/

namespace PropertyTable

variable {table : PropertyTable} {alive : Ref → Bool} {written : Value} {key : String}
  {log : LogId} {ref r : Ref}

theorem getElem?_sweep (table : PropertyTable) (alive : Ref → Bool) (r : Ref) :
    (table.sweep alive).entries[r]? = if alive r then table.entries[r]? else none := by
  unfold sweep
  rw [Std.TreeMap.getElem?_filter]
  simp only [Std.TreeMap.getKey_eq, Option.pfilter_eq_filter]
  cases table.entries[r]? with
  | none => split <;> rfl
  | some written => rw [Option.filter_some]

/-- A sweep is due, or one more write is counted. -/
theorem countWrite_cases (table : PropertyTable) (alive : Ref → Bool) :
    table.countWrite alive = table.sweep alive ∨
      table.countWrite alive = { table with writes := table.writes + 1 } ∧
        table.writes + 1 < sweepInterval := by
  unfold countWrite
  dsimp only
  split
  · exact .inl rfl
  · rename_i hdue
    exact .inr ⟨rfl, Nat.lt_of_not_le hdue⟩

theorem getElem?_countWrite (halive : alive r) :
    (table.countWrite alive).entries[r]? = table.entries[r]? := by
  rcases table.countWrite_cases alive with h | ⟨h, -⟩
  · rw [h, getElem?_sweep, if_pos halive]
  · rw [h]

theorem writes_countWrite_lt (table : PropertyTable) (alive : Ref → Bool) :
    (table.countWrite alive).writes < sweepInterval := by
  rcases table.countWrite_cases alive with h | ⟨h, hlt⟩
  · rw [h]
    exact Nat.zero_lt_succ 255
  · rw [h]
    exact hlt

theorem insert_of_none (href : written.ref? = none) :
    table.insert alive written key log = table := by
  rw [insert, href]

theorem writes_insert (href : written.ref? = some ref) :
    (table.insert alive written key log).writes = (table.countWrite alive).writes := by
  rw [insert, href]

theorem getElem?_insert (href : written.ref? = some ref) (r : Ref) :
    (table.insert alive written key log).entries[r]? =
      if r = ref then some (((table.countWrite alive).entries[ref]?.getD .empty).insert key log)
      else (table.countWrite alive).entries[r]? := by
  rw [insert, href]
  dsimp only
  rw [Std.TreeMap.getElem?_alter]
  by_cases hr : r = ref
  · subst hr
    simp
  · simp [hr, Ne.symm hr]

end PropertyTable

/-! ## Acts -/

namespace Heap

/-- The heap with an object at a place, new or not. -/
def putObject (h : Heap) (id : ObjectId) (cells : Cells) : Heap :=
  if id = h.objects.size then (h.newObject cells).2 else h.modifyCells id fun _ => cells

/-- The heap with an array at a place, new or not. -/
def putArray (h : Heap) (id : ArrayId) (elements : Array Value) : Heap :=
  if id = h.arrays.size then (h.newArray elements).2 else h.modifyElements id fun _ => elements

end Heap

namespace Shelf

/-- One use of a shelf. -/
inductive Act where
  /-- A name for a new object at a place, with values under keys. -/
  | object (name : String) (id : ObjectId) (contents : Assoc Value)
  /-- A name for a new array at a place. -/
  | array (name : String) (id : ArrayId) (contents : Array Value)
  /-- A name for a value. -/
  | bind (name : String) (value : Value)
  | drop (name : String)
  /-- A write of a property. -/
  | write (value : Value) (key : String) (log : LogId)
  | sweep

/-- The shelf after an act. -/
def act (shelf : Shelf) : Act → Shelf
  | .object name id contents =>
    { shelf with heap := shelf.heap.putObject id (contents.mapValues .data) }.bind name (.object id)
  | .array name id contents =>
    { shelf with heap := shelf.heap.putArray id contents }.bind name (.array id)
  | .bind name value => shelf.bind name value
  | .drop name => (shelf.drop name).2
  | .write value key log => shelf.write value key log 1
  | .sweep => shelf.sweep

/-- The shelf after several acts. -/
def acts (shelf : Shelf) (as : List Act) : Shelf := as.foldl act shelf

/-- A place for a new object or array: nothing there is alive or has an entry in the table. -/
def IsFree (shelf : Shelf) (r : Ref) : Prop := ¬shelf.Alive r ∧ shelf.table.entries[r]? = none

/--
What can be done with a shelf: new objects and arrays come to free places, and
what they hold, what gets a name and what is written to is in hand.
-/
def Admits (shelf : Shelf) : Act → Prop
  | .object _ id contents => id ≤ shelf.heap.objects.size ∧ shelf.IsFree (.object id) ∧
    ∀ entry ∈ contents.entries, shelf.InHand entry.2
  | .array _ id contents => id ≤ shelf.heap.arrays.size ∧ shelf.IsFree (.array id) ∧
    ∀ value ∈ contents, shelf.InHand value
  | .bind _ value | .write value _ _ => shelf.InHand value
  | .drop _ | .sweep => True

/-- Acts that can be done one after the other. -/
def AdmitsAll (shelf : Shelf) : List Act → Prop
  | [] => True
  | a :: as => shelf.Admits a ∧ (shelf.act a).AdmitsAll as

namespace Act

/-- The object or array that an act makes. -/
def made? : Act → Option Ref
  | object _ id _ => some (.object id)
  | array _ id _ => some (.array id)
  | _ => none

/-- Whether an act writes to an object or array. -/
def isWrite : Act → Bool
  | write value _ _ => value.ref?.isSome
  | _ => false

/-- The log of the latest write of a property after an act, from the one before it. -/
def latest (r : Ref) (key : String) (before : Option LogId) (a : Act) : Option LogId :=
  if a.made? = some r then none
  else match a with
    | write value written log => if value.ref? = some r ∧ key = written then some log else before
    | _ => before

theorem latest_of_made {r : Ref} {key : String} {before : Option LogId} {a : Act}
    (hmade : a.made? = some r) : latest r key before a = none := if_pos hmade

end Act

/--
The log of the latest write of a property in a list of acts, since the object or
array was made.
-/
def latest (r : Ref) (key : String) (as : List Act) : Option LogId :=
  as.foldl (Act.latest r key) none

/-- What a property table is to its shelf after some acts on an empty one. -/
structure Exact (as : List Act) (shelf : Shelf) : Prop where
  /-- A look-up finds the latest write, whatever the value in hand is called or held by. -/
  reads : ∀ v key, shelf.InHand v →
    shelf.table.find? v key = v.ref?.bind fun r => latest r key as
  /-- Neither a sweep nor the sweep of a write removes an entry of what is alive. -/
  keeps : ∀ r, shelf.Alive r → shelf.sweep.table.entries[r]? = shelf.table.entries[r]? ∧
    (shelf.table.countWrite shelf.isAlive).entries[r]? = shelf.table.entries[r]?
  /-- No fewer have an entry than are alive and written to. -/
  counts : ∀ rs : List Ref, rs.Nodup →
    (∀ r ∈ rs, shelf.Alive r ∧ ∃ key log, latest r key as = some log) →
    rs.length ≤ shelf.table.size
  /-- The entry of what is dead is gone after at most 256 writes. -/
  forgets : ∀ before after r, as = before ++ after → ¬(acts {} before).Alive r →
    (∀ a ∈ after, a.made? ≠ some r) → PropertyTable.sweepInterval ≤ after.countP Act.isWrite →
    shelf.table.entries[r]? = none

variable {shelf : Shelf} {a : Act} {as before after : List Act} {r : Ref} {v : Value}
  {key : String} {name : String} {log : LogId}

@[simp] theorem acts_nil : shelf.acts [] = shelf := rfl

@[simp] theorem acts_cons : shelf.acts (a :: as) = (shelf.act a).acts as := rfl

theorem acts_append (shelf : Shelf) (before after : List Act) :
    shelf.acts (before ++ after) = (shelf.acts before).acts after := List.foldl_append

/-- Writing several times is as many acts. -/
theorem acts_replicate_write (shelf : Shelf) (v : Value) (key : String) (log : LogId)
    (times : Nat) : shelf.acts (.replicate times (.write v key log)) = shelf.write v key log times := by
  induction times generalizing shelf with
  | zero => rfl
  | succ times ih => exact ih _

theorem admitsAll_append : shelf.AdmitsAll (before ++ after) ↔
    shelf.AdmitsAll before ∧ (shelf.acts before).AdmitsAll after := by
  induction before generalizing shelf with
  | nil => simp [AdmitsAll]
  | cons a before ih => simp [AdmitsAll, ih, and_assoc]

/-! ## Nothing comes back to life -/

theorem parts_putObject {h : Heap} {id : ObjectId} (hid : id ≤ h.objects.size)
    (contents : Assoc Value) (v : Value) :
    (h.putObject id (contents.mapValues .data)).parts v =
      if v.ref? = some (.object id) then contents.entries.map Prod.snd else h.parts v := by
  have hcells (other : ObjectId) : (h.putObject id (contents.mapValues .data)).cells other =
      if other = id then contents.mapValues .data else h.cells other := by
    unfold Heap.putObject
    split
    · rename_i hnew
      rw [Heap.cells_newObject, hnew]
    · rename_i hold
      have hlt : id < h.objects.size := Nat.lt_of_le_of_ne hid hold
      rw [Heap.cells_modifyCells]
      grind
  have helements : (h.putObject id (contents.mapValues .data)).elements = h.elements := by
    unfold Heap.putObject
    split <;> rfl
  cases v with
  | object other =>
      simp only [Heap.parts, hcells, Value.ref?, Option.some.injEq, Ref.object.injEq]
      split
      · simp [Assoc.mapValues, List.filterMap_map]
      · rfl
  | array other => simp [Heap.parts, helements, Value.ref?]
  | _ => rfl

theorem parts_putArray {h : Heap} {id : ArrayId} (hid : id ≤ h.arrays.size)
    (contents : Array Value) (v : Value) :
    (h.putArray id contents).parts v =
      if v.ref? = some (.array id) then contents.toList else h.parts v := by
  have helements (other : ArrayId) : (h.putArray id contents).elements other =
      if other = id then contents else h.elements other := by
    unfold Heap.putArray
    split
    · rename_i hnew
      rw [Heap.elements_newArray, hnew]
    · rename_i hold
      have hlt : id < h.arrays.size := Nat.lt_of_le_of_ne hid hold
      rw [Heap.elements_modifyElements]
      grind
  have hcells : (h.putArray id contents).cells = h.cells := by
    unfold Heap.putArray
    split <;> rfl
  cases v with
  | object other => simp [Heap.parts, hcells, Value.ref?]
  | array other =>
      simp only [Heap.parts, helements, Value.ref?, Option.some.injEq, Ref.array.injEq]
      split <;> rfl
  | _ => rfl

/-- What something holds after an act is in hand if the act made it, and else what it held. -/
theorem part_of_act (hadmits : shelf.Admits a) {part : Value}
    (hpart : part ∈ (shelf.act a).heap.parts v) :
    if v.ref? = a.made? then shelf.InHand part else part ∈ shelf.heap.parts v := by
  cases a with
  | object name id contents =>
      obtain ⟨hid, -, hcontents⟩ := hadmits
      rw [act, bind, parts_putObject hid] at hpart
      change if v.ref? = some (.object id) then _ else _
      split at hpart
      · rename_i hv
        obtain ⟨entry, hentry, rfl⟩ := List.mem_map.mp hpart
        rw [if_pos hv]
        exact hcontents entry hentry
      · rename_i hv
        rwa [if_neg hv]
  | array name id contents =>
      obtain ⟨hid, -, hcontents⟩ := hadmits
      rw [act, bind, parts_putArray hid] at hpart
      change if v.ref? = some (.array id) then _ else _
      split at hpart
      · rename_i hv
        rw [if_pos hv]
        exact hcontents part (Array.mem_toList_iff.mp hpart)
      · rename_i hv
        rwa [if_neg hv]
  | _ =>
      -- the heap stays as it is, and nothing is made
      obtain ⟨r, -, hr⟩ := Heap.exists_ref_of_part hpart
      rw [hr, if_neg nofun]
      exact hpart

theorem name_of_act (hadmits : shelf.Admits a) (hname : (shelf.act a).find? name = some v)
    (hr : v.ref? = some r) : a.made? = some r ∨ shelf.Alive r := by
  have hbind (heap : Heap) {made : Value} {bound : String}
      (hname : ({ shelf with heap := heap }.bind bound made).find? name = some v) :
      v = made ∨ shelf.Alive r := by
    rw [find?, bind, Assoc.find?_insert] at hname
    split at hname
    · exact .inl (Option.some.inj hname).symm
    · exact .inr (.named hname hr)
  cases a with
  | object name id contents =>
      rcases hbind _ hname with rfl | halive
      · exact .inl hr
      · exact .inr halive
  | array name id contents =>
      rcases hbind _ hname with rfl | halive
      · exact .inl hr
      · exact .inr halive
  | bind bound value =>
      rcases hbind shelf.heap hname with rfl | halive
      · exact .inr (hadmits r hr)
      · exact .inr halive
  | drop dropped =>
      have hname : (shelf.named.erase dropped).find? name = some v := hname
      rw [Assoc.find?_erase] at hname
      split at hname
      · cases hname
      · exact .inr (.named hname hr)
  | write value key log => exact .inr (.named hname hr)
  | sweep => exact .inr (.named hname hr)

/-- **Whatever is alive after an act was alive, or the act made it.** -/
theorem alive_of_act (hadmits : shelf.Admits a) (halive : (shelf.act a).Alive r) :
    a.made? = some r ∨ shelf.Alive r := by
  induction halive with
  | named hname hr => exact name_of_act hadmits hname hr
  | held _ hv hpart hr ih =>
      have hpart := part_of_act hadmits hpart
      rw [hv] at hpart
      -- what is new holds what was in hand; everything else holds what it held
      split at hpart
      · exact .inr (hpart _ hr)
      · rename_i hmade
        rcases ih with hmade' | halive
        · exact absurd hmade'.symm hmade
        · exact .inr (.held halive hv hpart hr)

theorem nodup_names_act (hnames : shelf.named.keys.Nodup) (a : Act) :
    (shelf.act a).named.keys.Nodup := by
  cases a with
  | object => exact Assoc.nodup_keys_insert hnames
  | array => exact Assoc.nodup_keys_insert hnames
  | bind => exact Assoc.nodup_keys_insert hnames
  | drop => exact Assoc.nodup_keys_erase hnames
  | write | sweep => exact hnames

theorem isFree_iff (hnames : shelf.named.keys.Nodup) :
    shelf.IsFree r ↔ shelf.isAlive r = false ∧ shelf.table.entries[r]? = none :=
  and_congr_left' (by rw [← isAlive_iff hnames, Bool.not_eq_true])

/-! ## What an act does to the table -/

/-- What the table knows of a property. -/
def known (shelf : Shelf) (r : Ref) (key : String) : Option LogId :=
  shelf.table.entries[r]?.bind (·.find? key)

theorem find?_eq_known (href : v.ref? = some r) : shelf.table.find? v key = shelf.known r key := by
  rw [PropertyTable.find?, href]
  rfl

theorem table_write (shelf : Shelf) (v : Value) (key : String) (log : LogId) :
    (shelf.act (.write v key log)).table = shelf.table.insert shelf.isAlive v key log := rfl

/-- A table that knows the latest writes of what is alive knows them after one more act. -/
theorem known_act (hnames : shelf.named.keys.Nodup) (hadmits : shelf.Admits a)
    (hr : a.made? = some r ∨ shelf.Alive r) :
    (shelf.act a).known r key = Act.latest r key (shelf.known r key) a := by
  -- what is made is made at a free place, so nothing is known of it
  have hmade {r' : Ref} (hfree : shelf.IsFree r') :
      shelf.known r key = if some r' = some r then none else shelf.known r key := by
    split
    · rename_i heq
      rw [known, ← Option.some.inj heq, hfree.2]
      rfl
    · rfl
  cases a with
  | object name id contents => exact hmade hadmits.2.1
  | array name id contents => exact hmade hadmits.2.1
  | bind | drop => rfl
  | write value written log =>
      have halive : shelf.isAlive r := (isAlive_iff hnames).mpr (hr.resolve_left nofun)
      simp only [Act.latest, Act.made?, reduceCtorEq, ↓reduceIte]
      cases href : value.ref? with
      | none =>
          rw [if_neg (by simp), known, table_write, PropertyTable.insert_of_none href]
          rfl
      | some ref =>
          rw [known, table_write, PropertyTable.getElem?_insert href]
          by_cases heq : r = ref
          · subst heq
            rw [if_pos rfl, PropertyTable.getElem?_countWrite halive, Option.bind_some,
              Assoc.find?_insert, known]
            cases shelf.table.entries[r]? <;> simp [Assoc.find?_empty]
          · rw [if_neg heq, PropertyTable.getElem?_countWrite halive,
              if_neg fun h => heq (Option.some.inj h.1).symm]
            rfl
  | sweep =>
      have halive : shelf.isAlive r := (isAlive_iff hnames).mpr (hr.resolve_left nofun)
      rw [known, act, sweep, PropertyTable.getElem?_sweep, if_pos halive]
      rfl

theorem writes_act_lt (hwrites : shelf.table.writes < PropertyTable.sweepInterval) (a : Act) :
    (shelf.act a).table.writes < PropertyTable.sweepInterval := by
  cases a with
  | write value key log =>
      rw [table_write]
      cases href : value.ref? with
      | none => rwa [PropertyTable.insert_of_none href]
      | some ref =>
          rw [PropertyTable.writes_insert href]
          exact PropertyTable.writes_countWrite_lt _ _
  | sweep => exact Nat.zero_lt_succ 255
  | _ => exact hwrites

/-! ## What is dead -/

/-- Something dead after so many writes: it has no entry, or they are all still counted. -/
structure Fades (shelf : Shelf) (r : Ref) (writes : Nat) : Prop where
  dead : ¬shelf.Alive r
  entry : shelf.table.entries[r]? = none ∨ writes ≤ shelf.table.writes

/-- A write or a sweep in which something dead is not swept away counts one more write. -/
theorem Fades.act {writes : Nat} (h : shelf.Fades r writes) (hnames : shelf.named.keys.Nodup)
    (hadmits : shelf.Admits a) (hmade : a.made? ≠ some r) :
    (shelf.act a).Fades r (writes + if a.isWrite then 1 else 0) := by
  have hdead : shelf.isAlive r = false :=
    Bool.eq_false_iff.mpr fun halive => h.dead ((isAlive_iff hnames).mp halive)
  have hswept : (shelf.table.sweep shelf.isAlive).entries[r]? = none := by
    rw [PropertyTable.getElem?_sweep, if_neg (by simp [hdead])]
  refine ⟨fun halive => (alive_of_act hadmits halive).elim hmade h.dead, ?_⟩
  cases a with
  | write value key log =>
      rw [table_write]
      cases href : value.ref? with
      | none =>
          rw [PropertyTable.insert_of_none href]
          simpa [Act.isWrite, href] using h.entry
      | some ref =>
          -- only what is alive is written to
          have hother : r ≠ ref := by
            rintro rfl
            exact h.dead (hadmits r href)
          rw [PropertyTable.getElem?_insert href, if_neg hother, PropertyTable.writes_insert href]
          rcases shelf.table.countWrite_cases shelf.isAlive with hcount | ⟨hcount, -⟩
          · rw [hcount]
            exact .inl hswept
          · rw [hcount]
            refine h.entry.imp_right fun hle => ?_
            simpa [Act.isWrite, href] using hle
  | sweep => exact .inl hswept
  | _ => exact h.entry

theorem Fades.acts {writes : Nat} (h : shelf.Fades r writes) (hnames : shelf.named.keys.Nodup)
    (hadmits : shelf.AdmitsAll as) (hmade : ∀ a ∈ as, a.made? ≠ some r) :
    (shelf.acts as).Fades r (writes + as.countP Act.isWrite) := by
  induction as generalizing shelf writes with
  | nil => exact h
  | cons a as ih =>
      have hact := h.act hnames hadmits.1 (hmade a List.mem_cons_self)
      rw [List.countP_cons, Nat.add_comm (as.countP _), ← Nat.add_assoc]
      exact ih hact (nodup_names_act hnames a) hadmits.2
        fun b hb => hmade b (List.mem_cons_of_mem a hb)

/-! ## Over all acts -/

/-- What stays true from the empty shelf on. -/
structure Noted (as : List Act) (shelf : Shelf) : Prop where
  names : shelf.named.keys.Nodup
  writes : shelf.table.writes < PropertyTable.sweepInterval
  known : ∀ r key, shelf.Alive r → shelf.known r key = latest r key as

theorem noted_nil : Noted [] {} where
  names := List.nodup_nil
  writes := Nat.zero_lt_succ 255
  known _ _ _ := rfl

theorem latest_append_singleton (r : Ref) (key : String) (as : List Act) (a : Act) :
    latest r key (as ++ [a]) = Act.latest r key (latest r key as) a := by
  rw [latest, List.foldl_append]
  rfl

theorem Noted.act (h : Noted as shelf) (hadmits : shelf.Admits a) :
    Noted (as ++ [a]) (shelf.act a) where
  names := nodup_names_act h.names a
  writes := writes_act_lt h.writes a
  known r key halive := by
    have hr := alive_of_act hadmits halive
    rw [known_act h.names hadmits hr, latest_append_singleton]
    -- what was alive before is known by induction, and what is made has no past
    rcases hr with hmade | halive
    · rw [Act.latest_of_made hmade, Act.latest_of_made hmade]
    · rw [h.known r key halive]

theorem Noted.acts (h : Noted before shelf) (hadmits : shelf.AdmitsAll after) :
    Noted (before ++ after) (shelf.acts after) := by
  induction after generalizing before shelf with
  | nil => simpa using h
  | cons a after ih => simpa using ih (h.act hadmits.1) hadmits.2

/-- What is alive and written to has an entry. -/
theorem Noted.mem_keys (h : Noted as shelf) (halive : shelf.Alive r)
    (hlatest : latest r key as = some log) : r ∈ shelf.table.entries.keys := by
  rw [← h.known r key halive, Shelf.known] at hlatest
  obtain ⟨written, hentry, -⟩ := Option.bind_eq_some_iff.mp hlatest
  rw [Std.TreeMap.mem_keys, Std.TreeMap.mem_iff_isSome_getElem?, hentry]
  rfl

/--
**The property table is exact for what is alive, and forgets what is dead in time.**
-/
theorem exact_acts (hadmits : AdmitsAll {} as) : Exact as (acts {} as) where
  reads v key hhand := by
    have hnoted := noted_nil.acts hadmits
    cases href : v.ref? with
    | none => rw [PropertyTable.find?, href]; rfl
    | some r => exact (find?_eq_known href).trans (hnoted.known r key (hhand r href))
  keeps r halive := by
    have halive := (isAlive_iff (noted_nil.acts hadmits).names).mpr halive
    refine ⟨?_, PropertyTable.getElem?_countWrite halive⟩
    rw [sweep, PropertyTable.getElem?_sweep, if_pos halive]
  counts rs hnodup hrs := by
    have hnoted := noted_nil.acts hadmits
    have hsub : rs ⊆ (acts {} as).table.entries.keys := by
      intro r hr
      obtain ⟨halive, key, log, hlatest⟩ := hrs r hr
      exact hnoted.mem_keys halive hlatest
    rw [PropertyTable.size, ← Std.TreeMap.length_keys]
    exact hnodup.length_le_of_subset hsub
  forgets before after r heq hdead hmade hwrites := by
    subst heq
    obtain ⟨hbefore, hafter⟩ := admitsAll_append.mp hadmits
    have hnames := (noted_nil.acts hbefore).names
    have hfades := Fades.acts ⟨hdead, .inr (Nat.zero_le _)⟩ hnames hafter hmade
    have hlt := (noted_nil.acts hadmits).writes
    rw [acts_append] at hlt ⊢
    -- a table is swept before it has counted that many writes
    exact hfades.entry.resolve_right fun hle => by omega

/--
An object is written to, loses its name, is still in an array when the table is
swept and it is written to again, dies with the array, and its place is given away.
-/
def reused : List Act :=
  [.object "a" 0 .empty, .write (.object 0) "k" 7, .array "box" 0 #[.object 0], .drop "a", .sweep,
    .write (.object 0) "k" 8, .drop "box", .sweep, .object "b" 0 .empty]

theorem admitsAll_reused : AdmitsAll {} reused := by
  refine ⟨⟨?_, ?_, ?_⟩, ?_, ⟨?_, ?_, ?_⟩, trivial, trivial, ?_, trivial, trivial, ⟨?_, ?_, ?_⟩,
    trivial⟩
  · exact Nat.le_refl 0
  · exact (isFree_iff (by decide)).mpr (by decide +kernel)
  · exact List.forall_mem_nil _
  · exact (inHand_iff (by decide)).mpr (by decide +kernel)
  · exact Nat.le_refl 0
  · exact (isFree_iff (by decide)).mpr (by decide +kernel)
  · intro value h
    obtain rfl : value = .object 0 := by simpa using h
    exact (inHand_iff (by decide)).mpr (by decide +kernel)
  · exact (inHand_iff (by decide)).mpr (by decide +kernel)
  · decide +kernel
  · exact (isFree_iff (by decide)).mpr (by decide +kernel)
  · exact List.forall_mem_nil _

theorem exact_acts_reused : AdmitsAll {} reused ∧ Exact reused (acts {} reused) :=
  ⟨admitsAll_reused, exact_acts admitsAll_reused⟩

end Shelf

end Lineage
