import Lineage.Proofs.Restore.Source
import Lineage.Proofs.Supported

/-!
# Nothing is lost, nothing occurs twice

The reads of variables, the calls, the assignments, the updates and the bodies of
functions of a program occur in its annotated form exactly once each, and in the same
order. So the annotated form of a program says what the program was, and programs
that differ in more than places and spelling never have the same annotated form.
-/

namespace Lineage

/-- What a program does at one of its places. -/
inductive Occurrence where
  | read (name : String)
  | call
  | assignment
  | update
  /-- The body of a function with these parameters. -/
  | body (params : List String)
  deriving DecidableEq, Repr

/-- What a recorded step does itself. What its arguments do occurs in them. -/
def Kind.occurrences : Kind → List Occurrence
  | .callExpression => [.call]
  | .assignmentExpression => [.assignment]
  | _ => []

mutual

/-- What occurs in an expression, in the order of the text. A variable that is written to
is not read. -/
def Expr.occurrences : Expr → List Occurrence
  | .number .. | .string .. | .bool .. | .null _ | .undefined _ | .this _ | .lastObject _ => []
  | .ident _ name => [.read name]
  | .binary _ _ l r | .logical _ _ l r => l.occurrences ++ r.occurrences
  | .unary _ _ e | .member _ e _ | .shadow _ _ e => e.occurrences
  | .update _ _ _ target => .update :: if target.isName then [] else target.occurrences
  | .index _ o key => o.occurrences ++ key.occurrences
  | .call _ callee args => .call :: (callee.occurrences ++ Expr.occurrencesAll args)
  | .object _ ps => Property.occurrencesAll ps
  | .array _ es => Expr.occurrencesAll es
  | .function _ f => f.occurrences
  | .assign _ _ target value =>
    .assignment :: ((if target.isName then [] else target.occurrences) ++ value.occurrences)
  | .conditional _ test yes no => test.occurrences ++ (yes.occurrences ++ no.occurrences)
  | .operation _ kind args _ _ => kind.occurrences ++ Arg.occurrencesAll args

/-- What occurs in a list of expressions. -/
def Expr.occurrencesAll : List Expr → List Occurrence
  | [] => []
  | e :: es => e.occurrences ++ Expr.occurrencesAll es

/-- What occurs in an expression that may be missing. -/
def Expr.occurrencesOption : Option Expr → List Occurrence
  | none => []
  | some e => e.occurrences

/-- What occurs in a list of properties. -/
def Property.occurrencesAll : List Property → List Occurrence
  | [] => []
  | .init _ value _ :: ps => value.occurrences ++ Property.occurrencesAll ps
  | .function _ _ f _ :: ps => f.occurrences ++ Property.occurrencesAll ps

/-- What occurs in the arguments of a step. -/
def Arg.occurrencesAll : List Arg → List Occurrence
  | [] => []
  | .single _ (.mk value _) :: args => value.occurrences ++ Arg.occurrencesAll args
  | .list _ slots :: args => Slot.occurrencesAll slots ++ Arg.occurrencesAll args

/-- What occurs in a list of slots. -/
def Slot.occurrencesAll : List Slot → List Occurrence
  | [] => []
  | .mk value _ :: slots => value.occurrences ++ Slot.occurrencesAll slots

/-- What occurs in a function, whose body occurs where it is defined. -/
def Func.occurrences : Func → List Occurrence
  | .mk _ params body _ => .body params :: Stmt.occurrencesAll body

/-- What occurs in a list of declarators. -/
def Declarator.occurrencesAll : List Declarator → List Occurrence
  | [] => []
  | .mk _ init _ _ :: ds => Expr.occurrencesOption init ++ Declarator.occurrencesAll ds

/-- What occurs in a statement. -/
def Stmt.occurrences : Stmt → List Occurrence
  | .expr e | .throw e => e.occurrences
  | .declare _ ds => Declarator.occurrencesAll ds
  | .function f => f.occurrences
  | .return value _ => Expr.occurrencesOption value
  | .if test yes no => test.occurrences ++ (yes.occurrences ++ Stmt.occurrencesOption no)
  | .while test body => test.occurrences ++ body.occurrences
  | .for init test step body =>
    Stmt.occurrencesOption init ++ (Expr.occurrencesOption test ++
      (Expr.occurrencesOption step ++ body.occurrences))
  | .forIn _ _ o body => o.occurrences ++ body.occurrences
  | .block body => Stmt.occurrencesAll body
  | .try body _ handler => Stmt.occurrencesAll body ++ Stmt.occurrencesAll handler
  | .break | .continue | .empty | .trackParameters _ => []

/-- What occurs in a statement that may be missing. -/
def Stmt.occurrencesOption : Option Stmt → List Occurrence
  | none => []
  | some s => s.occurrences

/-- What occurs in a list of statements. -/
def Stmt.occurrencesAll : List Stmt → List Occurrence
  | [] => []
  | s :: ss => s.occurrences ++ Stmt.occurrencesAll ss

end

/-! ## In the generated forms -/

@[simp] theorem Arg.occurrencesAll_nil : Arg.occurrencesAll [] = [] := rfl

@[simp] theorem Arg.occurrencesAll_single (name : String) (slot : Slot) (args : List Arg) :
    Arg.occurrencesAll (.single name slot :: args) =
      slot.value.occurrences ++ Arg.occurrencesAll args := by
  cases slot; rfl

@[simp] theorem Arg.occurrencesAll_list (name : String) (slots : List Slot) (args : List Arg) :
    Arg.occurrencesAll (.list name slots :: args) =
      Slot.occurrencesAll slots ++ Arg.occurrencesAll args := rfl

@[simp] theorem Slot.occurrencesAll_map (es : List Expr) :
    Slot.occurrencesAll (es.map Slot.of) = Expr.occurrencesAll es := by
  induction es with
  | nil => rfl
  | cons e es ih => exact congrArg (e.occurrences ++ ·) ih

@[simp] theorem Slot.occurrencesAll_properties (ps : List Property) :
    Slot.occurrencesAll (ps.map Property.slot) = Property.occurrencesAll ps := by
  induction ps with
  | nil => rfl
  | cons p ps ih =>
      cases p with
      | init _ value _ => exact congrArg (value.occurrences ++ ·) ih
      | function _ _ f _ => exact congrArg (f.occurrences ++ ·) ih

@[simp] theorem Arg.occurrencesAll_mapIdx (names : Nat → String) (es : List Expr) :
    Arg.occurrencesAll (es.mapIdx fun i e => .single (names i) (.of e)) =
      Expr.occurrencesAll es := by
  induction es generalizing names with
  | nil => rfl
  | cons e es ih =>
      rw [List.mapIdx_cons]
      exact congrArg (e.occurrences ++ ·) (ih fun i => names (i + 1))

namespace Expr

variable (loc : Option Location)

theorem occurrences_step (kind : Kind) (args : List Arg) (statics : List (String × Static)) :
    (step loc kind args statics).occurrences = kind.occurrences ++ Arg.occurrencesAll args := rfl

@[simp] theorem occurrences_binaryStep (op : BinaryOp) (l r : Expr) :
    (binaryStep loc op l r).occurrences = l.occurrences ++ r.occurrences := by
  simp [binaryStep, occurrences_step, Kind.occurrences]

@[simp] theorem occurrences_memberStep (o key : Expr) :
    (memberStep loc o key).occurrences = o.occurrences ++ key.occurrences := by
  simp [memberStep, occurrences_step, Kind.occurrences]

@[simp] theorem occurrences_stringStep (s : String) : (stringStep loc s).occurrences = [] := rfl

/-- The object that a method is called on is not evaluated once more. -/
@[simp] theorem occurrences_callStep (callee : Expr) (args : List Expr) :
    (callStep loc callee args).occurrences =
      .call :: (callee.occurrences ++ occurrencesAll args) := by
  have hcontext : (if callee.isMemberStep then Slot.mk (.lastObject none) .lastObject
      else .mk (.undefined none) .untracked).value.occurrences = [] := by
    split <;> rfl
  simp [callStep, occurrences_step, Kind.occurrences, hcontext]

@[simp] theorem occurrences_objectStep (ps : List Property) :
    (objectStep loc ps).occurrences = Property.occurrencesAll ps := by
  simp [objectStep, occurrences_step, Kind.occurrences]

@[simp] theorem occurrences_arrayStep (es : List Expr) :
    (arrayStep loc es).occurrences = occurrencesAll es := by
  simp [arrayStep, occurrences_step, Kind.occurrences]

@[simp] theorem occurrences_returnStep (e : Option Expr) :
    (returnStep loc e).occurrences = occurrencesOption e := by
  cases e with
  | none => rfl
  | some e => simp [returnStep, occurrences_step, Kind.occurrences, occurrencesOption]

@[simp] theorem occurrences_variableStep (op : AssignOp) (name : String) (value : Expr) :
    (variableStep loc op name value).occurrences = .assignment :: value.occurrences := by
  simp [variableStep, occurrences, occurrences_step, Kind.occurrences]

@[simp] theorem occurrences_propertyStep (op : AssignOp) (o key value : Expr) :
    (propertyStep loc op o key value).occurrences =
      .assignment :: (o.occurrences ++ (key.occurrences ++ value.occurrences)) := by
  simp [propertyStep, occurrences_step, Kind.occurrences]

end Expr

/-! ## In annotated programs -/

mutual

/-- The same occurs in an expression and in its annotated form. -/
theorem Expr.Annotates.occurrences : ∀ {e e' : Expr}, e.Annotates e' →
    e'.occurrences = e.occurrences
  | _, _, .string | _, _, .number | _, _, .ident | _, _, .bool | _, _, .null | _, _, .undefined
  | _, _, .this | _, _, .unrecorded | _, _, .typeofName => rfl
  | _, _, .function hf => hf.occurrences
  | _, _, .arithmetic _ hl hr => by
      simp only [Expr.occurrences_binaryStep, Expr.occurrences, hl.occurrences, hr.occurrences]
  | _, _, .comparison _ hl hr | _, _, .logical hl hr => by
      simp only [Expr.occurrences, hl.occurrences, hr.occurrences]
  | _, _, .unary _ he => he.occurrences
  | _, _, .update ht => ht.occurrences
  | _, _, .member ho => by
      simp only [Expr.occurrences_memberStep, Expr.occurrences_stringStep, List.append_nil,
        Expr.occurrences, ho.occurrences]
  | _, _, .index ho hk => by
      simp only [Expr.occurrences_memberStep, Expr.occurrences, ho.occurrences, hk.occurrences]
  | _, _, .call hf hargs => by
      simp only [Expr.occurrences_callStep, Expr.occurrences, hf.occurrences, hargs.occurrences]
  | _, _, .object hps => by
      simp only [Expr.occurrences_objectStep, Expr.occurrences, hps.occurrences]
  | _, _, .array hes => by
      simp only [Expr.occurrences_arrayStep, Expr.occurrences, hes.occurrences]
  | _, _, .assignName hv => by
      simp [Expr.occurrences, Expr.isName, hv.occurrences]
  | _, _, .assignMember ho hv => by
      simp [Expr.occurrences, Expr.isName, ho.occurrences, hv.occurrences]
  | _, _, .assignIndex ho hk hv => by
      simp [Expr.occurrences, Expr.isName, ho.occurrences, hk.occurrences, hv.occurrences]
  | _, _, .conditional ht hy hn => by
      simp only [Expr.occurrences, ht.occurrences, hy.occurrences, hn.occurrences]

/-- The same occurs in an update whatever place its target is at. -/
theorem Expr.AnnotatesTarget.occurrences : ∀ {t t' : Expr}, t.AnnotatesTarget t' →
    ∀ {loc loc' : Option Location} {op : UpdateOp} {inFront : Bool},
      (Expr.update loc' op inFront t').occurrences = (Expr.update loc op inFront t).occurrences
  | _, _, .ident => rfl
  | _, _, .member ho => by simp [Expr.occurrences, Expr.isName, ho.occurrences]
  | _, _, .index ho hk => by simp [Expr.occurrences, Expr.isName, ho.occurrences, hk.occurrences]
  | t, _, .other _ => by cases t <;> rfl

theorem Expr.AnnotatesAll.occurrences : ∀ {es es' : List Expr}, Expr.AnnotatesAll es es' →
    Expr.occurrencesAll es' = Expr.occurrencesAll es
  | _, _, .nil => rfl
  | _, _, .cons he hes => by simp only [Expr.occurrencesAll, he.occurrences, hes.occurrences]

theorem Property.AnnotatesAll.occurrences : ∀ {ps ps' : List Property},
    Property.AnnotatesAll ps ps' → Property.occurrencesAll ps' = Property.occurrencesAll ps
  | _, _, .nil => rfl
  | _, _, .init hv hps => by
      simp only [Property.occurrencesAll, hv.occurrences, hps.occurrences]
  | _, _, .function hf hps => by
      simp only [Property.occurrencesAll, hf.occurrences, hps.occurrences]

theorem Func.Annotates.occurrences : ∀ {f f' : Func}, f.Annotates f' →
    f'.occurrences = f.occurrences
  | _, _, .bare hb => by simp only [Func.occurrences, hb.occurrences]
  | _, _, .tracking _ hb => by
      simp only [Func.occurrences, Stmt.occurrencesAll, Stmt.occurrences, List.nil_append,
        hb.occurrences]

theorem Declarator.AnnotatesAll.occurrences : ∀ {ds ds' : List Declarator},
    Declarator.AnnotatesAll ds ds' → Declarator.occurrencesAll ds' = Declarator.occurrencesAll ds
  | _, _, .nil => rfl
  | _, _, .bare hds => by simp only [Declarator.occurrencesAll, hds.occurrences]
  | _, _, .init he hds => by
      simp only [Declarator.occurrencesAll, Expr.occurrencesOption, he.occurrences,
        hds.occurrences]

theorem Expr.Inspects.occurrences : ∀ {e e' : Expr}, e.Inspects e' →
    e'.occurrences = e.occurrences
  | _, _, .name => rfl
  | _, _, .read _ he => he.occurrences

theorem Expr.InspectsOption.occurrences : ∀ {e e' : Option Expr}, Expr.InspectsOption e e' →
    Expr.occurrencesOption e' = Expr.occurrencesOption e
  | _, _, .none => rfl
  | _, _, .some he => he.occurrences

/-- The same occurs in a statement and in its annotated form. -/
theorem Stmt.Annotates.occurrences : ∀ {s s' : Stmt}, s.Annotates s' →
    s'.occurrences = s.occurrences
  | _, _, .expr he | _, _, .throw he => he.occurrences
  | _, _, .declare hds => hds.occurrences
  | _, _, .function hf => hf.occurrences
  | _, _, .returnNothing | _, _, .break | _, _, .continue | _, _, .empty => rfl
  | _, _, .return he => by
      simp only [Stmt.occurrences, Expr.occurrencesOption, Expr.occurrences_returnStep,
        he.occurrences]
  | _, _, .if ht hy hn => by
      simp only [Stmt.occurrences, ht.occurrences, hy.occurrences, hn.occurrences]
  | _, _, .while ht hb => by simp only [Stmt.occurrences, ht.occurrences, hb.occurrences]
  | _, _, .for hi ht hs hb => by
      simp only [Stmt.occurrences, hi.occurrences, ht.occurrences, hs.occurrences, hb.occurrences]
  | _, _, .forIn ho hb => by simp only [Stmt.occurrences, ho.occurrences, hb.occurrences]
  | _, _, .block hb => hb.occurrences
  | _, _, .try hb hh => by simp only [Stmt.occurrences, hb.occurrences, hh.occurrences]

theorem Stmt.AnnotatesOption.occurrences : ∀ {s s' : Option Stmt}, Stmt.AnnotatesOption s s' →
    Stmt.occurrencesOption s' = Stmt.occurrencesOption s
  | _, _, .none => rfl
  | _, _, .some hs => hs.occurrences

theorem Stmt.AnnotatesAll.occurrences : ∀ {ss ss' : List Stmt}, Stmt.AnnotatesAll ss ss' →
    Stmt.occurrencesAll ss' = Stmt.occurrencesAll ss
  | _, _, .nil => rfl
  | _, _, .cons hs hss => by simp only [Stmt.occurrencesAll, hs.occurrences, hss.occurrences]

end

/-! ## The program in its annotated form -/

/-- **Annotation keeps the program.** Without the generated forms, an annotated program is
the program that was read, but for places and spelling; nothing is removed from a program
without generated forms. What occurs in the program occurs once in its annotated form, in
the same order, and no program with another source has the same annotated form. -/
theorem Program.annotate_keeps_source {text : String} {program : Program}
    (h : Program.parse text = .ok program) (o : AnnotateOptions) :
    ∃ annotated, program.annotate o = .ok annotated ∧
      Stmt.restoredAll program = program ∧
      Stmt.sourceAll (Stmt.restoredAll annotated) = Stmt.sourceAll program ∧
      Stmt.occurrencesAll annotated = Stmt.occurrencesAll program ∧
      ∀ text' program' o', Program.parse text' = .ok program' →
        program'.annotate o' = .ok annotated → Stmt.sourceAll program' = Stmt.sourceAll program := by
  have hplain := (Program.parse_gives h).1
  obtain ⟨annotated, ha⟩ := Program.annotate_of_parse o h
  have hshape := Program.annotate_shape ha
  have hsource := hshape.restored hplain
  refine ⟨annotated, ha, Stmt.restoredAll_of_plain hplain, hsource, hshape.occurrences, ?_⟩
  intro text' program' o' h' ha'
  have hsource' := (Program.annotate_shape ha').restored (Program.parse_gives h').1
  exact hsource'.symm.trans hsource

/-- In both spellings of a member, the object is read once. -/
theorem Program.annotate_keeps_source_members :
    ∃ program annotated, Program.parse "o.k += f(o['k']); return;" = .ok program ∧
      program.annotate {} = .ok annotated ∧
      Stmt.sourceAll (Stmt.restoredAll annotated) = Stmt.sourceAll program ∧
      Stmt.occurrencesAll annotated =
        [.assignment, .read "o", .call, .read "f", .read "o"] := by
  have hoccurs : (Program.parse "o.k += f(o['k']); return;").toOption.map Stmt.occurrencesAll =
      some [.assignment, .read "o", .call, .read "f", .read "o"] := by decide +kernel
  -- the text is a variable here, so that rewriting does not read it
  generalize "o.k += f(o['k']); return;" = text at hoccurs ⊢
  cases hparse : Program.parse text with
  | error e =>
      rw [hparse] at hoccurs
      cases hoccurs
  | ok program =>
      rw [hparse] at hoccurs
      obtain ⟨annotated, ha, -, hsource, hsame, -⟩ := annotate_keeps_source hparse {}
      exact ⟨program, annotated, rfl, ha, hsource, hsame.trans (Option.some.inj hoccurs)⟩

end Lineage
