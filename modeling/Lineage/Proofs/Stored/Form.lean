import Lineage.Proofs.Stored.Value
import Lineage.Record.Form

/-!
# Logs read back from their stored form

What is stored of a log is one form, and the reader tries the forms that it
knows in order. For what a log is stored as, the first that fits is always the
right one: a double that is stored as a word is no number, and an argument that
is a list is no single value, since what it is stored as begins with a whole
snapshot where a single value begins with a type.
-/

namespace Lineage

/-! ## Doubles that are no numbers -/

namespace Number

/-- A double is given by its bits. -/
theorem eq_of_toBits {x y : Float} (h : x.toBits.toNat = y.toBits.toNat) : x = y := by
  have hbits : x.toModel.toBits = y.toModel.toBits := UInt64.toNat.inj h
  obtain ⟨⟨b, hb⟩⟩ := x
  obtain ⟨⟨c, hc⟩⟩ := y
  obtain rfl : b = c := hbits
  rfl

/-- There is only one double that is not a number. -/
theorem eq_nan {x : Float} (h : shape x = .nan) : x = nan := by
  have hfields : (x.toBits.toNat >>> 52) % (1 <<< 11) = 2047 ∧
      x.toBits.toNat % (1 <<< 52) ≠ 0 := by
    simp only [shape] at h
    split at h
    · split at h
      · cases h
      · rename_i hexponent hfraction
        exact ⟨hexponent, hfraction⟩
    · split at h <;> cases h
  have hexponent : @Float.Model.UnpackedFloat.unpackExponent .binary64
      x.toModel.toBits.toBitVec = -1#_ := by
    apply BitVec.eq_of_toNat_eq
    simp only [Float.Model.UnpackedFloat.unpackExponent, BitVec.toNat_cast, BitVec.extractLsb_toNat]
    exact hfields.1
  have hmantissa : @Float.Model.UnpackedFloat.unpackMantissa .binary64
      x.toModel.toBits.toBitVec ≠ 0#_ := by
    intro hzero
    have hzero := congrArg BitVec.toNat hzero
    simp only [Float.Model.UnpackedFloat.unpackMantissa, BitVec.toNat_cast,
      BitVec.extractLsb_toNat] at hzero
    exact hfields.2 hzero
  have hbits : x.toBits.toNat = 0x7ff8000000000000 :=
    congrArg BitVec.toNat (x.toModel.valid.eq_packedNaN hexponent hmantissa)
  have hnan : nan.toBits.toNat = 0x7ff8000000000000 := by decide +kernel
  exact eq_of_toBits (hbits.trans hnan.symm)

/-- There are only two infinities. -/
theorem eq_infinity {x : Float} {negative : Bool} (h : shape x = .infinite negative) :
    x = if negative then -infinity else infinity := by
  have hbits : x.toBits.toNat =
      if negative then 0xfff0000000000000 else 0x7ff0000000000000 := by
    have hlt : x.toBits.toNat < 2 ^ 64 := x.toBits.toNat_lt
    simp only [shape] at h
    split at h
    · split at h
      · rename_i hexponent hfraction
        cases h
        rw [Nat.shiftRight_eq_div_pow] at hexponent
        simp only [Nat.shiftLeft_eq, decide_eq_true_eq] at hexponent hfraction ⊢
        split <;> omega
      · cases h
    · split at h <;> cases h
  have hplus : infinity.toBits.toNat = 0x7ff0000000000000 := by decide +kernel
  have hminus : (-infinity).toBits.toNat = 0xfff0000000000000 := by decide +kernel
  refine eq_of_toBits (hbits.trans ?_)
  cases negative
  · exact hplus.symm
  · exact hminus.symm

end Number

/-! ## Fields and tables -/

namespace Assoc

theorem insertEntry_of_not_mem {key : String} {a : α} {entries : List (String × α)}
    (h : key ∉ entries.map Prod.fst) : insertEntry key a entries = entries ++ [(key, a)] := by
  induction entries with
  | nil => rfl
  | cons e entries ih =>
      obtain ⟨k, b⟩ := e
      simp only [List.map_cons, List.mem_cons, not_or] at h
      rw [insertEntry, if_neg fun hk => h.1 hk.symm, ih h.2]
      rfl

/-- Entries with names of their own are inserted in order. -/
theorem ofList_entries {m : Assoc α} (h : m.keys.Nodup) : ofList m.entries = m := by
  have hfold (done more : List (String × α)) (h : ((done ++ more).map Prod.fst).Nodup) :
      more.foldl (fun m entry => m.insert entry.1 entry.2) (⟨done⟩ : Assoc α) = ⟨done ++ more⟩ := by
    induction more generalizing done with
    | nil => simp
    | cons e more ih =>
        have hnot : e.1 ∉ done.map Prod.fst := by
          rw [List.map_append, List.map_cons] at h
          intro hmem
          exact (List.nodup_append.mp h).2.2 _ hmem _ List.mem_cons_self rfl
        have hinsert : (⟨done⟩ : Assoc α).insert e.1 e.2 = ⟨done ++ [e]⟩ :=
          congrArg Assoc.mk (insertEntry_of_not_mem hnot)
        rw [List.foldl_cons, hinsert, ih (done ++ [e]) (by simpa using h)]
        simp
  exact hfold [] m.entries h

end Assoc

namespace Json

/-- A table whose values read back, with names of their own, reads back. -/
theorem table?_mapValues {toJson : α → Json} {ofJson? : Json → Option α} {m : Assoc α}
    (hkeys : m.keys.Nodup) (h : ∀ e ∈ m.entries, ofJson? (toJson e.2) = some e.2) :
    table? ofJson? (.object (m.mapValues toJson).entries) = some m := by
  have hmap (entries : List (String × α)) (h : ∀ e ∈ entries, ofJson? (toJson e.2) = some e.2) :
      (entries.map fun e => (e.1, toJson e.2)).mapM
        (fun e => (ofJson? e.2).map fun a => (e.1, a)) = some entries := by
    induction entries with
    | nil => rfl
    | cons e entries ih =>
        rw [List.map_cons, List.mapM_cons, h e List.mem_cons_self,
          ih fun e' he' => h e' (List.mem_cons_of_mem _ he')]
        rfl
  rw [table?, Assoc.mapValues, hmap m.entries h, Option.map_some, Assoc.ofList_entries hkeys]

/-- A list whose elements read back reads back. -/
theorem list?_map {toJson : α → Json} {ofJson? : Json → Option α} {as : List α}
    (h : ∀ a ∈ as, ofJson? (toJson a) = some a) :
    list? ofJson? (.array (as.map toJson)) = some as := by
  induction as with
  | nil => rfl
  | cons a as ih =>
      have hrest := ih fun b hb => h b (List.mem_cons_of_mem _ hb)
      rw [list?] at hrest ⊢
      rw [List.map_cons, List.mapM_cons, h a List.mem_cons_self, hrest]
      rfl

/-- An object without other names or repetitions has the fields of its members. -/
theorem record?_object {names : List String} (least : Nat) {members : List (String × Json)}
    (hnames : ∀ m ∈ members, m.1 ∈ names) (hnodup : (members.map Prod.fst).Nodup) :
    record? names least (.object members) = some ⟨members⟩ := by
  have hfilter : members.filter (fun m => names.contains m.1) = members :=
    List.filter_eq_self.mpr fun m hm => List.contains_iff_mem.mpr (hnames m hm)
  simp only [record?, hfilter, hnodup, ↓reduceIte]

theorem nat?_integer {n : Nat} (h : n < UInt64.size) : nat? (.integer n) = some n := if_pos h

end Json

/-! ## Places, kinds and snapshots -/

/-- The line and column fit into 64 bits. -/
structure Location.Storable (loc : Location) : Prop where
  line : loc.line < UInt64.size
  column : loc.column < UInt64.size

theorem Location.Storable.legible {loc : Location} (h : loc.Storable) :
    Json.Legible 1 loc.toJson := by
  refine .object ?_
  simp only [List.forall_mem_cons]
  exact ⟨.integer h.line, .integer h.column, nofun⟩

theorem Location.ofJson?_toJson {loc : Location} (h : loc.Storable) :
    ofJson? loc.toJson = some loc := by
  have hfields : Json.record? ["line", "column"] 2 loc.toJson =
      some ⟨[("line", .integer loc.line), ("column", .integer loc.column)]⟩ :=
    Json.record?_object 2 (by simp) (by simp)
  rw [ofJson?, hfields]
  simp [Assoc.required?, Assoc.find?, List.lookup_cons, Json.nat?_integer h.line,
    Json.nat?_integer h.column]

theorem Kind.ofJson?_toJson (kind : Kind) : ofJson? kind.toJson = some kind := by
  cases kind <;> rfl

namespace Recorded

/-- A finite number reads back from its text. -/
def Storable : Recorded → Prop
  | number x => ∀ p, Number.shape x = .finite p → Json.ReadsBack x
  | _ => True

theorem legible_numberToJson {x : Float} (h : (number x).Storable) :
    Json.Legible 0 (numberToJson x) := by
  unfold numberToJson
  split
  · rename_i p hshape
    exact .float (h p hshape)
  · exact .string _

theorem Storable.legible {r : Recorded} (h : r.Storable) : Json.Legible 1 r.toJson := by
  cases r <;> refine .object ?_ <;> simp only [List.forall_mem_cons]
  case undefined | null => exact ⟨.string _, nofun⟩
  case bool b => exact ⟨.string _, .bool b, nofun⟩
  case number x => exact ⟨.string _, legible_numberToJson h, nofun⟩
  case string s | object s | array s | function s => exact ⟨.string _, .string s, nofun⟩

theorem numberOfJson?_numberToJson (x : Float) : numberOfJson? (numberToJson x) = some x := by
  unfold numberToJson Number.toText
  cases hshape : Number.shape x with
  | finite p => rfl
  | nan => rw [Number.eq_nan hshape]; rfl
  | infinite negative =>
      rw [Number.eq_infinity hshape]
      cases negative <;> rfl

theorem ofJson?_toJson (r : Recorded) : ofJson? r.toJson = some r := by
  cases r with
  | number x =>
      have hcontent : contentOfJson? "number" (some (numberToJson x)) = some (number x) := by
        simp [contentOfJson?, numberOfJson?_numberToJson]
      exact hcontent
  | _ => rfl

theorem isUsable_toJson (r : Recorded) : r.toJson.isUsable = true := by
  cases r with
  | number x =>
      have hnumber : (numberToJson x).isUsable = true := by
        unfold numberToJson
        split <;> rfl
      simp [toJson, Json.isUsable, Json.areUsableMembers, hnumber]
  | _ => rfl

end Recorded

/-! ## Arguments and constants -/

/-- The snapshot can be stored, and its origin fits into 64 bits. -/
structure Traced.Storable (t : Traced) : Prop where
  value : t.value.Storable
  origin : ∀ id ∈ t.origin, id < UInt64.size

namespace Traced

/-- The stored form of an origin. -/
def originToJson : Option LogId → Json
  | some id => .integer id
  | none => .null

theorem toJson_eq (t : Traced) :
    t.toJson = .object [("value", t.value.toJson), ("origin", originToJson t.origin)] := by
  cases ho : t.origin <;> simp [toJson, originToJson, ho]

theorem Storable.legible {t : Traced} (h : t.Storable) : Json.Legible 2 t.toJson := by
  rw [toJson_eq]
  refine .object ?_
  simp only [List.forall_mem_cons]
  refine ⟨h.value.legible, ?_, nofun⟩
  cases ho : t.origin with
  | none => exact .null
  | some id => exact .integer (h.origin id ho)

theorem ofJson?_toJson {t : Traced} (h : t.Storable) : ofJson? t.toJson = some t := by
  have hfields : Json.record? ["value", "origin"] 2 t.toJson =
      some ⟨[("value", t.value.toJson), ("origin", originToJson t.origin)]⟩ := by
    rw [toJson_eq]
    exact Json.record?_object 2 (by simp) (by simp)
  have horigin : Assoc.optional? ⟨[("value", t.value.toJson), ("origin", originToJson t.origin)]⟩
      "origin" Json.nat? = some t.origin := by
    cases ho : t.origin with
    | none => rfl
    | some id =>
        simp [Assoc.optional?, Assoc.find?, List.lookup_cons, originToJson,
          Json.nat?_integer (h.origin id ho)]
  rw [ofJson?, hfields]
  simp [Assoc.required?, Assoc.find?, Recorded.ofJson?_toJson, horigin]

theorem isUsable_toJson (t : Traced) : t.toJson.isUsable = true := by
  have horigin : (originToJson t.origin).isUsable = true := by cases t.origin <;> rfl
  simp [toJson_eq, Json.isUsable, Json.areUsableMembers, Recorded.isUsable_toJson, horigin]

end Traced

namespace Argument

/-- Every value of the argument can be stored. -/
def Storable : Argument → Prop
  | single value => value.Storable
  | list values => ∀ t ∈ values, t.Storable

theorem Storable.legible {a : Argument} (h : a.Storable) : Json.Legible 3 a.toJson := by
  cases a with
  | single t => exact (Traced.Storable.legible h).mono (by decide)
  | list ts =>
      refine .array fun j hj => ?_
      obtain ⟨t, ht, rfl⟩ := List.mem_map.mp hj
      exact (h t ht).legible

theorem isUsable_toJson (a : Argument) : a.toJson.isUsable = true := by
  cases a with
  | single t => exact t.isUsable_toJson
  | list ts =>
      show Json.areUsable (ts.map Traced.toJson) = true
      induction ts with
      | nil => rfl
      | cons t ts ih => simp [Json.areUsable, Traced.isUsable_toJson, ih]

/--
A list of values is not read as one value, not even a list of two: as the fields
of one value, its first element would be a snapshot, but it has no type.
-/
theorem traced_ofJson?_list (ts : List Traced) :
    Traced.ofJson? (.array (ts.map Traced.toJson)) = none := by
  by_cases htwo : ts.length = 2
  · obtain ⟨t, u, rfl⟩ := List.length_eq_two.mp htwo
    have hvalue : Recorded.ofJson? t.toJson = none := by
      rw [Traced.toJson_eq]
      rfl
    have hfields : Json.record? ["value", "origin"] 2 (.array ([t, u].map Traced.toJson)) =
        some ⟨[("value", t.toJson), ("origin", u.toJson)]⟩ := rfl
    rw [Traced.ofJson?, hfields]
    simp [Assoc.required?, Assoc.find?, hvalue]
  · have hlength : ¬(2 ≤ ts.length ∧ ts.length ≤ 2) := by omega
    simp [Traced.ofJson?, Json.record?, hlength]

theorem ofJson?_toJson {a : Argument} (h : a.Storable) : ofJson? a.toJson = some a := by
  rw [ofJson?, if_pos a.isUsable_toJson]
  cases a with
  | single t => simp [toJson, Traced.ofJson?_toJson h]
  | list ts =>
      have hlist : Json.list? Traced.ofJson? (.array (ts.map Traced.toJson)) = some ts :=
        Json.list?_map fun t ht => Traced.ofJson?_toJson (h t ht)
      simp [toJson, traced_ofJson?_list, hlist]

end Argument

namespace Static

theorem legible_toJson (s : Static) : Json.Legible 1 s.toJson := by
  cases s with
  | text s => exact .string s
  | list ss =>
      refine .array fun j hj => ?_
      obtain ⟨s, -, rfl⟩ := List.mem_map.mp hj
      exact .string s

theorem ofJson?_toJson (s : Static) : ofJson? s.toJson = some s := by
  cases s with
  | text s => rfl
  | list ss =>
      have hlist : Json.list? Json.string? (.array (ss.map Json.string)) = some ss :=
        Json.list?_map fun _ _ => rfl
      simp [ofJson?, toJson, Json.string?, hlist]

end Static

/-! ## Logs -/

/--
What the types of the fields say, that numbers fit into 64 bits and names are
not repeated, and that the finite numbers among the values read back.
-/
structure Log.Storable (log : Log) : Prop where
  id : log.id < UInt64.size
  argNames : log.args.keys.Nodup
  args : ∀ e ∈ log.args.entries, e.2.Storable
  extraArgNames : log.extraArgs.keys.Nodup
  extraArgs : ∀ e ∈ log.extraArgs.entries, e.2.Storable
  staticArgNames : log.staticArgs.keys.Nodup
  result : log.result.Storable
  loc : ∀ loc ∈ log.loc, loc.Storable

namespace Log

theorem legible_tableMember {name : String} {table : Assoc α} {toJson : α → Json} {room : Nat}
    (h : ∀ e ∈ table.entries, Json.Legible room (toJson e.2)) :
    ∀ m ∈ tableMember name table toJson, Json.Legible (room + 1) m.2 := by
  intro m hm
  unfold tableMember at hm
  split at hm
  · cases hm
  · obtain rfl := List.mem_singleton.mp hm
    refine .object fun m hm => ?_
    obtain ⟨e, he, rfl⟩ := List.mem_map.mp hm
    exact h e he

theorem Storable.legible {log : Log} (h : log.Storable) : Json.Legible 5 log.toJson := by
  have hargs : Json.Legible 4 (.object (log.args.mapValues Argument.toJson).entries) := by
    refine .object fun m hm => ?_
    obtain ⟨e, he, rfl⟩ := List.mem_map.mp hm
    exact (h.args e he).legible
  have hstatic : ∀ e ∈ log.staticArgs.entries, Json.Legible 3 e.2.toJson :=
    fun e _ => e.2.legible_toJson.mono (by decide)
  refine .object ?_
  simp only [List.forall_mem_append, List.forall_mem_cons]
  refine ⟨⟨⟨⟨?_, legible_tableMember fun e he => (h.extraArgs e he).legible⟩,
    legible_tableMember hstatic⟩, h.result.legible.mono (by decide), nofun⟩, ?_⟩
  · exact ⟨.integer h.id, .string _, hargs, nofun⟩
  · intro m hm
    obtain ⟨loc, hloc, rfl⟩ := Option.map_eq_some_iff.mp (Option.mem_toList.mp hm)
    exact (h.loc loc hloc).legible.mono (by decide)

/-- The members that a log is stored as. -/
def members (log : Log) : List (String × Json) :=
  [("id", .integer log.id), ("kind", log.kind.toJson),
   ("args", .object (log.args.mapValues Argument.toJson).entries)] ++
  tableMember "extraArgs" log.extraArgs Argument.toJson ++
  tableMember "staticArgs" log.staticArgs Static.toJson ++
  [("result", log.result.toJson)] ++
  (log.loc.map fun loc => ("loc", loc.toJson)).toList

theorem members_names (log : Log) :
    (∀ m ∈ log.members, m.1 ∈ fieldNames) ∧ (log.members.map Prod.fst).Nodup := by
  unfold members tableMember
  cases log.loc <;> cases log.extraArgs.isEmpty <;> cases log.staticArgs.isEmpty <;>
    simp [fieldNames]

/-- Where the members stand that may be left out, and the one between them. -/
theorem find?_members (log : Log) :
    let fields : Assoc Json := ⟨log.members⟩
    fields.find? "extraArgs" = (if log.extraArgs.isEmpty then none
        else some (.object (log.extraArgs.mapValues Argument.toJson).entries)) ∧
      fields.find? "staticArgs" = (if log.staticArgs.isEmpty then none
        else some (.object (log.staticArgs.mapValues Static.toJson).entries)) ∧
      fields.find? "result" = some log.result.toJson ∧
      fields.find? "loc" = log.loc.map Location.toJson := by
  unfold members tableMember
  cases log.loc <;> cases log.extraArgs.isEmpty <;> cases log.staticArgs.isEmpty <;>
    simp [Assoc.find?, List.lookup_cons]

/-- A table that is left out when it is empty reads back. -/
theorem defaulted?_table {fields : Assoc Json} {name : String} {table : Assoc α}
    {toJson : α → Json} {ofJson? : Json → Option α}
    (hfind : fields.find? name = if table.isEmpty then none
      else some (.object (table.mapValues toJson).entries))
    (hkeys : table.keys.Nodup) (h : ∀ e ∈ table.entries, ofJson? (toJson e.2) = some e.2) :
    fields.defaulted? name .empty (Json.table? ofJson?) = some table := by
  unfold Assoc.defaulted?
  rw [hfind]
  split
  · rename_i hnone
    have hempty : table.isEmpty = true := by
      by_contra hne
      rw [if_neg hne] at hnone
      cases hnone
    exact congrArg (fun entries => some (Assoc.mk entries)) (List.isEmpty_iff.mp hempty).symm
  · rename_i j hsome
    split at hsome
    · cases hsome
    · cases hsome
      exact Json.table?_mapValues hkeys h

theorem ofJson?_toJson {log : Log} (h : log.Storable) : ofJson? log.toJson = some log := by
  have hfields : Json.record? fieldNames 6 log.toJson = some ⟨log.members⟩ :=
    Json.record?_object 6 log.members_names.1 log.members_names.2
  obtain ⟨hfindExtra, hfindStatic, hfindResult, hfindLoc⟩ := log.find?_members
  have hargs : Json.table? Argument.ofJson? (.object (log.args.mapValues Argument.toJson).entries) =
      some log.args :=
    Json.table?_mapValues h.argNames fun e he => Argument.ofJson?_toJson (h.args e he)
  have hextra := defaulted?_table hfindExtra h.extraArgNames fun e he =>
    Argument.ofJson?_toJson (h.extraArgs e he)
  have hstatic := defaulted?_table hfindStatic h.staticArgNames fun e _ =>
    Static.ofJson?_toJson e.2
  have hresult : (⟨log.members⟩ : Assoc Json).required? "result" Recorded.ofJson? =
      some log.result := by
    rw [Assoc.required?, hfindResult, Option.bind_some, Recorded.ofJson?_toJson]
  have hloc : (⟨log.members⟩ : Assoc Json).optional? "loc" Location.ofJson? = some log.loc := by
    rw [Assoc.optional?, hfindLoc]
    cases hloc : log.loc with
    | none => rfl
    | some loc =>
        have hread := Location.ofJson?_toJson (h.loc loc hloc)
        show (Location.ofJson? loc.toJson).map some = _
        rw [hread, Option.map_some]
  rw [ofJson?, hfields]
  simp only [bind, Option.bind_some, hextra, hstatic, hresult, hloc]
  simp [Assoc.required?, Assoc.find?, List.lookup_cons, members, Json.nat?_integer h.id,
    Kind.ofJson?_toJson, hargs]

theorem legible_listToJson {logs : List Log} (h : ∀ log ∈ logs, log.Storable) :
    Json.Legible 6 (listToJson logs) := by
  refine .array fun j hj => ?_
  obtain ⟨log, hlog, rfl⟩ := List.mem_map.mp hj
  exact (h log hlog).legible

end Log

end Lineage
