import Lineage.Proofs.Agreement.Form
import Lineage.Proofs.Origin.Record
import Mathlib.Data.List.Forall2
import Mathlib.Data.List.Nodup

/-!
# What a step finds when it is carried out

`Step.Finds` says of each kind of step that what it looks up is there, in the
shape that it wants: single values, lists and constants under the right names,
lists of one length where they go together, functions where accessors are made.
A step that is written as annotation writes it finds all of this, whatever its
arguments evaluate to. The names of the arguments of a call are distinct, so all
of them are passed on.
-/

namespace Lineage

/-- A name that is new makes one more entry. -/
theorem Assoc.length_insert_of_new {α : Type} {m : Assoc α} {name : String} {a : α}
    (h : m.find? name = none) : (m.insert name a).entries.length = m.entries.length + 1 := by
  obtain ⟨entries⟩ := m
  unfold find? at h
  unfold insert
  induction entries with
  | nil => rfl
  | cons entry entries ih =>
      obtain ⟨other, b⟩ := entry
      rw [List.lookup_cons] at h
      split at h
      · cases h
      · rename_i hne
        have hne : ¬other = name := fun heq => by simp [heq] at hne
        simpa [insertEntry, hne] using ih h

namespace Step

variable {args : Assoc Given} {statics : Assoc Static} {name : String}

/-- A single value is given under a name. -/
def Has (args : Assoc Given) (name : String) : Prop := ∃ t, single args name = .ok t

/-- A value can be that of a property of this role. -/
inductive Plays : (role : String) → Tracked → Prop where
  | init {t} : Plays "init" t
  | method {t} : Plays "method" t
  | getter {f origin} : Plays "get" ⟨.function f, origin⟩
  | setter {f origin} : Plays "set" ⟨.function f, origin⟩

/-- The lists that an object literal is made from are there. They are equally long. -/
def FindsObject (args : Assoc Given) (statics : Assoc Static) : Prop :=
  ∃ keys roles values, staticList .objectExpression statics "keys" = .ok keys ∧
    staticList .objectExpression statics "kinds" = .ok roles ∧
    list args "properties" = .ok values ∧ keys.length = values.length ∧
    List.Forall₂ Plays roles values

/-- The function of a call is there, with the object, and all that else is given is passed. -/
structure FindsCall (args : Assoc Given) : Prop where
  callee : Has args "function"
  context : Has args "context"
  passed : (positional args args.entries.length 0).length + 2 = args.entries.length

/-- The parts of a member read are there. -/
structure FindsMember (args : Assoc Given) : Prop where
  object : Has args "object"
  key : Has args "propName"

/-- The parts of an assignment to a member are there. -/
structure FindsProperty (args : Assoc Given) : Prop where
  object : Has args "object"
  key : Has args "propertyName"
  value : Has args "argument"

/-- The name and the value of an assignment to a variable are there. -/
structure FindsVariable (args : Assoc Given) (statics : Assoc Static) : Prop where
  name : ∃ name, staticText .assignmentExpression statics "name" = .ok name
  value : Has args "argument"

/-- An operator and one of the two forms of an assignment are there. -/
def FindsAssignment (args : Assoc Given) (statics : Assoc Static) : Prop :=
  (∃ op : AssignOp, staticText .assignmentExpression statics "operator" = .ok op.symbol) ∧
    (staticText .assignmentExpression statics "type" = .ok "Identifier" ∧
        FindsVariable args statics ∨
      staticText .assignmentExpression statics "type" = .ok "MemberExpression" ∧
        FindsProperty args)

/-- All that a step looks up is there. Kinds that only other steps record are no steps. -/
def Finds (args : Assoc Given) (statics : Assoc Static) : Kind → Prop
  | .stringLiteral | .numericLiteral | .identifier => Has args "value"
  | .returnStatement => Has args "returnValue"
  | .binaryExpression =>
    (∃ op : BinaryOp, op.isArithmetic ∧
      staticText .binaryExpression statics "operator" = .ok op.symbol) ∧
    Has args "left" ∧ Has args "right"
  | .arrayExpression => ∃ ts, list args "elements" = .ok ts
  | .objectExpression => FindsObject args statics
  | .memberExpression => FindsMember args
  | .callExpression => FindsCall args
  | .assignmentExpression => FindsAssignment args statics
  | .functionArgument | .propertyTarget => False

end Step

/-! ## What arguments evaluate to -/

/-- What the form of an expression says about its value: a function evaluates to one. -/
def Expr.Admits (e : Expr) (v : Value) : Prop :=
  ∀ loc f, e = .function loc f → ∃ id, v = .function id

/-- What the form of a slot says about its value. -/
def Slot.Admits (slot : Slot) (t : Tracked) : Prop := slot.value.Admits t.value

/-- What is given for an argument has its shape, and the forms of the slots allow it. -/
inductive Arg.Admits : Arg → Given → Prop where
  | single {name slot t} (h : slot.Admits t) : Admits (.single name slot) (.single t)
  | list {name slots ts} (h : List.Forall₂ Slot.Admits slots ts) :
      Admits (.list name slots) (.list ts)

/-- What arguments evaluate to, one after the other, on top of what is given already. -/
inductive Arg.AdmitAll : List Arg → Assoc Given → Assoc Given → Prop where
  | nil {given} : AdmitAll [] given given
  | cons {arg args g before given} (h : Arg.Admits arg g)
      (hrest : AdmitAll args (before.insert arg.name g) given) : AdmitAll (arg :: args) before given

namespace Arg.AdmitAll

variable {args : List Arg} {before given : Assoc Given}

/-- Nothing changes under other names. -/
theorem find?_of_not_mem (h : AdmitAll args before given) {name : String}
    (hname : name ∉ args.map Arg.name) : given.find? name = before.find? name := by
  induction h with
  | nil => rfl
  | cons _ _ ih =>
      rw [List.map_cons, List.mem_cons, not_or] at hname
      rw [ih hname.2, Assoc.find?_insert_of_ne _ hname.1]

/-- What an argument gives is there under its name. -/
theorem find?_of_mem (h : AdmitAll args before given) (hnodup : (args.map Arg.name).Nodup)
    {arg : Arg} (harg : arg ∈ args) : ∃ g, arg.Admits g ∧ given.find? arg.name = some g := by
  induction h with
  | nil => cases harg
  | cons hg hrest ih =>
      rw [List.map_cons, List.nodup_cons] at hnodup
      rcases List.mem_cons.mp harg with rfl | harg
      · exact ⟨_, hg, by rw [hrest.find?_of_not_mem hnodup.1, Assoc.find?_insert_self]⟩
      · exact ih hnodup.2 harg

theorem single (h : AdmitAll args before given) (hnodup : (args.map Arg.name).Nodup)
    {name : String} {slot : Slot} (harg : .single name slot ∈ args) : Step.Has given name := by
  obtain ⟨g, hg, hfind⟩ := h.find?_of_mem hnodup harg
  cases hg with
  | @single _ _ t _ =>
      refine ⟨t, ?_⟩
      unfold Step.single
      rw [show given.find? name = _ from hfind]

theorem list (h : AdmitAll args before given) (hnodup : (args.map Arg.name).Nodup)
    {name : String} {slots : List Slot} (harg : .list name slots ∈ args) :
    ∃ ts, List.Forall₂ Slot.Admits slots ts ∧ Step.list given name = .ok ts := by
  obtain ⟨g, hg, hfind⟩ := h.find?_of_mem hnodup harg
  cases hg with
  | @list _ _ ts hts =>
      refine ⟨ts, hts, ?_⟩
      unfold Step.list
      rw [show given.find? name = _ from hfind]

/-- Every argument of a new name makes one more entry. -/
theorem length_entries (h : AdmitAll args before given) (hnodup : (args.map Arg.name).Nodup)
    (hnew : ∀ arg ∈ args, before.find? arg.name = none) :
    given.entries.length = before.entries.length + args.length := by
  induction h with
  | nil => rfl
  | @cons arg args g before given _ _ ih =>
      rw [List.map_cons, List.nodup_cons] at hnodup
      have hinsert : (before.insert arg.name g).entries.length = before.entries.length + 1 :=
        Assoc.length_insert_of_new (hnew arg List.mem_cons_self)
      have hnew (other : Arg) (hother : other ∈ args) :
          (before.insert arg.name g).find? other.name = none := by
        have hne : other.name ≠ arg.name := fun heq =>
          hnodup.1 (List.mem_map.mpr ⟨other, hother, heq⟩)
        rw [Assoc.find?_insert_of_ne _ hne]
        exact hnew other (List.mem_cons_of_mem _ hother)
      rw [ih hnodup.2 hnew, hinsert, List.length_cons]
      omega

end Arg.AdmitAll

/-! ## The arguments of calls -/

theorem positional_inj {i j : Nat} (h : "arg" ++ toString i = "arg" ++ toString j) : i = j := by
  rw [String.append_right_inj, Nat.toString_eq_repr, Nat.toString_eq_repr,
    Nat.repr_eq_ofList_toDigits, Nat.repr_eq_ofList_toDigits, String.ofList_inj] at h
  rw [← Nat.ofDigitChars_ten_toDigits (n := i), h, Nat.ofDigitChars_ten_toDigits]

/-- The name of an argument of a call starts differently from the names of its other parts. -/
theorem positional_ne {name : String} {c : Char} (hname : name.toList.head? = some c)
    (hc : c ≠ 'a') (i : Nat) : name ≠ "arg" ++ toString i := by
  rintro rfl
  rw [String.toList_append] at hname
  exact hc (Option.some.inj hname).symm

theorem function_ne (i : Nat) : "function" ≠ "arg" ++ toString i :=
  positional_ne (c := 'f') rfl (by decide) i

theorem context_ne (i : Nat) : "context" ≠ "arg" ++ toString i :=
  positional_ne (c := 'c') rfl (by decide) i

/-- The names of the arguments of a call, in order. -/
theorem names_positional (es : List Expr) : (es.mapIdx Arg.positional).map Arg.name =
    (List.range es.length).map fun i => "arg" ++ toString i := by
  apply List.ext_getElem <;> simp [Arg.positional, Arg.name]

namespace Step

/-- Values are passed on up to the first position at which none is given. -/
theorem length_positional {args : Assoc Given} {count : Nat}
    (hgiven : ∀ i < count, Has args ("arg" ++ toString i))
    (hend : args.find? ("arg" ++ toString count) = none) : ∀ limit next, next ≤ count →
    count ≤ next + limit → (positional args limit next).length = count - next
  | 0, next, hnext, hlimit => by
      show 0 = count - next
      omega
  | limit + 1, next, hnext, hlimit => by
      rw [positional]
      rcases Nat.lt_or_eq_of_le hnext with hlt | rfl
      · obtain ⟨t, ht⟩ := hgiven next hlt
        rw [single_ok ht]
        have hrest := length_positional hgiven hend limit (next + 1) hlt (by omega)
        simp only [List.length_cons, hrest]
        omega
      · rw [hend]
        exact (Nat.sub_self next).symm

/-- The names of the parts of a call, in order. -/
theorem names_call (callee context : Slot) (es : List Expr) :
    (Arg.single "function" callee :: .single "context" context ::
      es.mapIdx Arg.positional).map Arg.name =
      "function" :: "context" :: (List.range es.length).map fun i => "arg" ++ toString i := by
  rw [List.map_cons, List.map_cons, names_positional]
  rfl

/-- The parts of a call have names of their own. -/
theorem nodup_call (callee context : Slot) (es : List Expr) :
    ((Arg.single "function" callee :: .single "context" context ::
      es.mapIdx Arg.positional).map Arg.name).Nodup := by
  rw [names_call, List.nodup_cons, List.nodup_cons]
  refine ⟨?_, ?_, List.nodup_range.map fun i j => positional_inj⟩
  · simpa [eq_comm] using fun i _ => function_ne i
  · simpa [eq_comm] using fun i _ => context_ne i

/-- A call passes on all of its arguments. -/
theorem findsCall {callee context : Slot} {es : List Expr} {given : Assoc Given}
    (h : Arg.AdmitAll (.single "function" callee :: .single "context" context ::
      es.mapIdx Arg.positional) .empty given) : FindsCall given := by
  have hnodup := nodup_call callee context es
  have hgiven (i : Nat) (hi : i < es.length) : Has given ("arg" ++ toString i) :=
    h.single hnodup <| List.mem_cons_of_mem _ <| List.mem_cons_of_mem _ <|
      List.mem_mapIdx.mpr ⟨i, hi, rfl⟩
  have hend : given.find? ("arg" ++ toString es.length) = none := by
    refine h.find?_of_not_mem ?_
    rw [names_call]
    simp only [List.mem_cons, List.mem_map, List.mem_range, not_or, not_exists, not_and]
    exact ⟨(function_ne _).symm, (context_ne _).symm, fun i hi heq =>
      absurd (positional_inj heq) (Nat.ne_of_lt hi)⟩
  have hlength : given.entries.length = es.length + 2 := by
    rw [h.length_entries hnodup fun _ _ => rfl]
    simp [Assoc.empty]
  refine ⟨h.single hnodup List.mem_cons_self,
    h.single hnodup (List.mem_cons_of_mem _ List.mem_cons_self), ?_⟩
  rw [length_positional hgiven hend _ 0 (Nat.zero_le _) (by omega)]
  omega

/-! ## All kinds of steps -/

/-- The values of the properties of an object literal can play their roles. -/
theorem plays_properties : ∀ {properties : List Property} {values : List Tracked},
    List.Forall₂ Slot.Admits (properties.map Property.slot) values →
    List.Forall₂ Plays (properties.map Property.roleName) values
  | [], [], _ => .nil
  | .init .. :: _, _ :: _, .cons _ h => .cons .init (plays_properties h)
  | .function _ role f _ :: _, ⟨v, origin⟩ :: _, .cons hv h => by
      obtain ⟨id, rfl⟩ := hv none f rfl
      refine .cons ?_ (plays_properties h)
      cases role with
      | method => exact .method
      | getter => exact .getter
      | setter => exact .setter

/-- **A step that is written as annotation writes it finds what it looks up.** -/
theorem Written.finds {kind : Kind} {args : List Arg} {statics : Assoc Static}
    (h : Written kind args statics) {given : Assoc Given}
    (hgiven : Arg.AdmitAll args .empty given) : Finds given statics kind := by
  cases h with
  | value hkind =>
      have hvalue := hgiven.single (List.nodup_singleton _) List.mem_cons_self
      rcases hkind with rfl | rfl | rfl <;> exact hvalue
  | returned => exact hgiven.single (List.nodup_singleton _) List.mem_cons_self
  | @binary op _ _ hop =>
      have hnodup : ["left", "right"].Nodup := by decide
      exact ⟨⟨op, hop, rfl⟩, hgiven.single hnodup (.head _),
        hgiven.single hnodup (.tail _ (.head _))⟩
  | array =>
      obtain ⟨ts, -, hts⟩ := hgiven.list (List.nodup_singleton _) List.mem_cons_self
      exact ⟨ts, hts⟩
  | object =>
      obtain ⟨values, hadmit, hvalues⟩ := hgiven.list (List.nodup_singleton _) List.mem_cons_self
      have hroles := plays_properties hadmit
      refine ⟨_, _, values, rfl, rfl, hvalues, ?_, hroles⟩
      rw [List.length_map, ← hroles.length_eq, List.length_map]
  | member =>
      have hnodup : ["object", "propName"].Nodup := by decide
      exact ⟨hgiven.single hnodup (.head _), hgiven.single hnodup (.tail _ (.head _))⟩
  | call => exact findsCall hgiven
  | @«variable» op name _ =>
      have hvalue := hgiven.single (List.nodup_singleton _) List.mem_cons_self
      exact ⟨⟨op, rfl⟩, .inl ⟨rfl, ⟨name, rfl⟩, hvalue⟩⟩
  | @property op _ _ _ =>
      have hnodup : ["object", "propertyName", "argument"].Nodup := by decide
      exact ⟨⟨op, rfl⟩, .inr ⟨rfl, hgiven.single hnodup (.head _),
        hgiven.single hnodup (.tail _ (.head _)),
        hgiven.single hnodup (.tail _ (.tail _ (.head _)))⟩⟩

end Step

end Lineage
