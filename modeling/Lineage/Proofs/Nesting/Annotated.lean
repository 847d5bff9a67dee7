import Lineage.Proofs.Nesting.Measure
import Lineage.Proofs.Supported

/-!
# How deeply annotated programs nest

Evaluation descends once for each level of nesting, and it is given programs that
annotation has made deeper. No form adds more than two levels to what it is made
of: a `return` or an assignment to a variable puts a recorded step around its
value and stays around the step, and the methods of an object literal become
function expressions inside one. Besides, a bare `return` has a recorded value
inside and a function with parameters a first statement, where there was nothing.
So a program of depth `d` is annotated with a depth of at most `2 * d + 1`.
-/

namespace Lineage

/-! ## The generated steps -/

namespace Expr

@[simp] theorem depth_stringStep (loc : Option Location) (s : String) :
    (stringStep loc s).depth = 2 := rfl

@[simp] theorem depth_numberStep (loc : Option Location) (x : Float) :
    (numberStep loc x).depth = 2 := rfl

@[simp] theorem depth_readStep (loc : Option Location) (name : String) :
    (readStep loc name).depth = 2 := rfl

@[simp] theorem depth_binaryStep (loc : Option Location) (op : BinaryOp) (l r : Expr) :
    (binaryStep loc op l r).depth = 1 + max l.depth r.depth := by
  simp [binaryStep, step, Slot.of, depth, Arg.depthAll]

@[simp] theorem depth_memberStep (loc : Option Location) (o key : Expr) :
    (memberStep loc o key).depth = 1 + max o.depth key.depth := by
  simp [memberStep, step, Slot.of, depth, Arg.depthAll]

theorem depthAll_positional (name : Nat → String) (args : List Expr) :
    Arg.depthAll (args.mapIdx fun i arg => .single (name i) (.of arg)) = Expr.depthAll args := by
  induction args generalizing name with
  | nil => rfl
  | cons arg args ih => rw [List.mapIdx_cons, Slot.of, Arg.depthAll, ih, Expr.depthAll]

@[simp] theorem depth_callStep (loc : Option Location) (callee : Expr) (args : List Expr) :
    (callStep loc callee args).depth = 1 + max callee.depth (max 1 (Expr.depthAll args)) := by
  have hargs := depthAll_positional (fun i => "arg" ++ toString i) args
  -- the receiver is a leaf, whether there is one or not
  unfold callStep step
  split <;> simp only [Slot.of, depth, Arg.depthAll] at hargs ⊢ <;> rw [hargs]

@[simp] theorem depth_arrayStep (loc : Option Location) (elements : List Expr) :
    (arrayStep loc elements).depth = 1 + Expr.depthAll elements := by
  have hslots : Slot.depthAll (elements.map Slot.of) = Expr.depthAll elements := by
    rw [← Node.depthAll_slots, List.map_map]
    congr 1
    exact List.map_id elements
  simp [arrayStep, step, depth, Arg.depthAll, hslots]

@[simp] theorem depth_returnStep_none (loc : Option Location) : (returnStep loc none).depth = 2 :=
  rfl

@[simp] theorem depth_returnStep_some (loc : Option Location) (e : Expr) :
    (returnStep loc (some e)).depth = 1 + e.depth := by
  simp [returnStep, step, Slot.of, depth, Arg.depthAll]

@[simp] theorem depth_variableStep (loc : Option Location) (op : AssignOp) (name : String)
    (v : Expr) : (variableStep loc op name v).depth = 2 + v.depth := by
  simp [variableStep, step, Slot.of, depth, Arg.depthAll]
  omega

@[simp] theorem depth_propertyStep (loc : Option Location) (op : AssignOp) (o key v : Expr) :
    (propertyStep loc op o key v).depth = 1 + max o.depth (max key.depth v.depth) := by
  simp [propertyStep, step, Slot.of, depth, Arg.depthAll]

/-- Functions among the properties of an object become expressions. -/
theorem depth_objectStep_le (loc : Option Location) (ps : List Property) :
    (objectStep loc ps).depth ≤ 2 + Property.depthAll ps := by
  have hslots : Slot.depthAll (ps.map Property.slot) ≤ 1 + Property.depthAll ps := by
    induction ps with
    | nil => exact Nat.zero_le _
    | cons p ps ih =>
        cases p <;>
          simp only [List.map_cons, Property.slot, Slot.of, Slot.depthAll, depth,
            Property.depthAll] <;> omega
  simp only [objectStep, step, depth, Arg.depthAll]
  omega

theorem depth_withLoc (loc : Option Location) (e : Expr) : (e.withLoc loc).depth = e.depth := by
  cases e <;> rfl

end Expr

/-! ## Two levels at most for each -/

mutual

theorem Expr.Annotates.depth : ∀ {e e' : Expr}, e.Annotates e' → e'.depth ≤ 2 * e.depth + 1
  | _, _, .string | _, _, .number | _, _, .bool | _, _, .null | _, _, .undefined | _, _, .this
  | _, _, .unrecorded | _, _, .ident | _, _, .typeofName => by simp [Expr.depth]
  | _, _, .function hf => by
      have := hf.depth
      simp only [Expr.depth]
      omega
  | _, _, .arithmetic _ hl hr => by
      have := hl.depth
      have := hr.depth
      simp only [Expr.depth_binaryStep, Expr.depth]
      omega
  | _, _, .comparison _ hl hr | _, _, .logical hl hr => by
      have := hl.depth
      have := hr.depth
      simp only [Expr.depth]
      omega
  | _, _, .unary _ he => by
      have := he.depth
      simp only [Expr.depth]
      omega
  | _, _, .update ht => by
      have := ht.depth
      simp only [Expr.depth]
      omega
  | _, _, .member ho => by
      have := ho.depth
      simp only [Expr.depth_memberStep, Expr.depth_stringStep, Expr.depth]
      omega
  | _, _, .index ho hk => by
      have := ho.depth
      have := hk.depth
      simp only [Expr.depth_memberStep, Expr.depth]
      omega
  | _, _, .call hf ha => by
      have := hf.depth
      have := ha.depth
      simp only [Expr.depth_callStep, Expr.depth]
      omega
  -- the one step whose depth is only bounded, as it has functions among its values or not
  | _, .objectStep loc ps', .object hps => by
      have := hps.depth
      have := Expr.depth_objectStep_le loc ps'
      simp only [Expr.depth]
      omega
  | _, _, .array hes => by
      have := hes.depth
      simp only [Expr.depth_arrayStep, Expr.depth]
      omega
  | _, _, .assignName hv => by
      have := hv.depth
      simp only [Expr.depth_variableStep, Expr.depth]
      omega
  | _, _, .assignMember ho hv => by
      have := ho.depth
      have := hv.depth
      simp only [Expr.depth_propertyStep, Expr.depth_stringStep, Expr.depth]
      omega
  | _, _, .assignIndex ho hk hv => by
      have := ho.depth
      have := hk.depth
      have := hv.depth
      simp only [Expr.depth_propertyStep, Expr.depth]
      omega
  | _, _, .conditional ht hy hn => by
      have := ht.depth
      have := hy.depth
      have := hn.depth
      simp only [Expr.depth]
      omega

theorem Expr.AnnotatesTarget.depth : ∀ {t t' : Expr}, t.AnnotatesTarget t' →
    t'.depth ≤ 2 * t.depth + 1
  | _, _, .ident => by simp [Expr.depth]
  | _, _, .member ho => by
      have := ho.depth
      simp only [Expr.depth]
      omega
  | _, _, .index ho hk => by
      have := ho.depth
      have := hk.depth
      simp only [Expr.depth]
      omega
  | t, _, .other _ => by
      rw [Expr.depth_withLoc]
      omega

theorem Expr.AnnotatesAll.depth : ∀ {es es' : List Expr}, Expr.AnnotatesAll es es' →
    Expr.depthAll es' ≤ 2 * Expr.depthAll es + 1
  | _, _, .nil => Nat.zero_le _
  | _, _, .cons he hes => by
      have := he.depth
      have := hes.depth
      simp only [Expr.depthAll]
      omega

theorem Property.AnnotatesAll.depth : ∀ {ps ps' : List Property}, Property.AnnotatesAll ps ps' →
    Property.depthAll ps' ≤ 2 * Property.depthAll ps + 1
  | _, _, .nil => Nat.zero_le _
  | _, _, .init hv hps => by
      have := hv.depth
      have := hps.depth
      simp only [Property.depthAll]
      omega
  | _, _, .function hf hps => by
      have := hf.depth
      have := hps.depth
      simp only [Property.depthAll]
      omega

theorem Func.Annotates.depth : ∀ {f f' : Func}, f.Annotates f' → f'.depth ≤ 2 * f.depth + 1
  | _, _, .bare hb => hb.depth
  -- the statement in front of the body is a leaf, but the body may have been empty
  | _, _, .tracking _ hb => by
      have := hb.depth
      simp only [Func.depth, Stmt.depthAll, Stmt.depth]
      omega

theorem Declarator.AnnotatesAll.depth : ∀ {ds ds' : List Declarator},
    Declarator.AnnotatesAll ds ds' → Declarator.depthAll ds' ≤ 2 * Declarator.depthAll ds + 1
  | _, _, .nil => Nat.zero_le _
  | _, _, .bare hds => by
      have := hds.depth
      simp only [Declarator.depthAll, Expr.depthOption]
      omega
  | _, _, .init he hds => by
      have := he.depth
      have := hds.depth
      simp only [Declarator.depthAll, Expr.depthOption]
      omega

theorem Expr.Inspects.depth : ∀ {e e' : Expr}, e.Inspects e' → e'.depth ≤ 2 * e.depth + 1
  | _, _, .name => by simp [Expr.depth]
  | _, _, .read _ he => he.depth

theorem Expr.InspectsOption.depth : ∀ {e e' : Option Expr}, Expr.InspectsOption e e' →
    Expr.depthOption e' ≤ 2 * Expr.depthOption e + 1
  | _, _, .none => Nat.zero_le _
  | _, _, .some he => he.depth

theorem Stmt.Annotates.depth : ∀ {s s' : Stmt}, s.Annotates s' → s'.depth ≤ 2 * s.depth + 1
  | _, _, .break | _, _, .continue | _, _, .empty | _, _, .returnNothing => by
      simp [Stmt.depth, Expr.depthOption]
  | _, _, .expr he | _, _, .throw he => by
      have := he.depth
      simp only [Stmt.depth]
      omega
  | _, _, .declare hds => by
      have := hds.depth
      simp only [Stmt.depth]
      omega
  | _, _, .function hf => by
      have := hf.depth
      simp only [Stmt.depth]
      omega
  | _, _, .return he => by
      have := he.depth
      simp only [Stmt.depth, Expr.depthOption, Expr.depth_returnStep_some]
      omega
  | _, _, .if ht hy hn => by
      have := ht.depth
      have := hy.depth
      have := hn.depth
      simp only [Stmt.depth]
      omega
  | _, _, .while ht hb => by
      have := ht.depth
      have := hb.depth
      simp only [Stmt.depth]
      omega
  | _, _, .for hi ht hs hb => by
      have := hi.depth
      have := ht.depth
      have := hs.depth
      have := hb.depth
      simp only [Stmt.depth]
      omega
  | _, _, .forIn ho hb => by
      have := ho.depth
      have := hb.depth
      simp only [Stmt.depth]
      omega
  | _, _, .block hb => by
      have := hb.depth
      simp only [Stmt.depth]
      omega
  | _, _, .try hb hh => by
      have := hb.depth
      have := hh.depth
      simp only [Stmt.depth]
      omega

theorem Stmt.AnnotatesOption.depth : ∀ {s s' : Option Stmt}, Stmt.AnnotatesOption s s' →
    Stmt.depthOption s' ≤ 2 * Stmt.depthOption s + 1
  | _, _, .none => Nat.zero_le _
  | _, _, .some hs => hs.depth

theorem Stmt.AnnotatesAll.depth : ∀ {ss ss' : List Stmt}, Stmt.AnnotatesAll ss ss' →
    Stmt.depthAll ss' ≤ 2 * Stmt.depthAll ss + 1
  | _, _, .nil => Nat.zero_le _
  | _, _, .cons hs hss => by
      have := hs.depth
      have := hss.depth
      simp only [Stmt.depthAll]
      omega

end

/-! ## The bound -/

/-- **Nesting is measured right, and annotation at most doubles it and adds one.** The measure
is the depth of the program form by form; so is what any other survey meets, whatever the order
in which it opens the nodes, and none goes on for ever. A program that was read is at most 64
levels deep, it can be annotated, and its annotated form keeps within the bound. -/
theorem Program.nesting_exact :
    (∀ program : Program, nestingDepth program = Stmt.depthAll program ∧
      Acc (fun later earlier : Survey => earlier.Opens later) (Survey.start program) ∧
      ∀ n, Relation.ReflTransGen Survey.Opens (Survey.start program) ⟨[], n⟩ ↔
        n = Stmt.depthAll program) ∧
    ∀ text program, Program.parse text = .ok program → nestingDepth program ≤ 64 ∧
      ∀ o : AnnotateOptions, ∃ annotated, program.annotate o = .ok annotated ∧
        nestingDepth annotated ≤ 2 * nestingDepth program + 1 := by
  refine ⟨fun program => ⟨nestingDepth_eq program, Survey.opens_wellFounded.apply _,
    Survey.run_iff program⟩, fun text program hparse => ⟨(Program.parse_gives hparse).2, ?_⟩⟩
  intro o
  obtain ⟨annotated, ha⟩ := Program.annotate_of_parse o hparse
  refine ⟨annotated, ha, ?_⟩
  rw [nestingDepth_eq, nestingDepth_eq]
  exact (Program.annotate_shape ha).depth

/-- The `return` and each assignment add a level, and the string one more. -/
theorem Program.nesting_exact_assignments :
    ∃ program annotated, Program.parse "return x = y = 'a';" = .ok program ∧
      program.annotate {} = .ok annotated ∧ nestingDepth program = 4 ∧
      nestingDepth annotated = 8 ∧ nestingDepth annotated ≤ 2 * nestingDepth program + 1 := by
  have hdepths : (Program.parse "return x = y = 'a';").toOption.map (fun program : Program =>
      (Stmt.depthAll program, (program.annotate {}).toOption.map Stmt.depthAll)) =
      some (4, some 8) := by decide +kernel
  -- the text is a variable here, so that rewriting does not read it
  generalize "return x = y = 'a';" = text at hdepths ⊢
  cases hparse : Program.parse text with
  | error e =>
      rw [hparse] at hdepths
      cases hdepths
  | ok program =>
      obtain ⟨annotated, ha, hbound⟩ := (nesting_exact.2 text program hparse).2 {}
      rw [hparse] at hdepths
      obtain ⟨hprogram, hannotated⟩ := Prod.mk.inj (Option.some.inj hdepths)
      rw [ha] at hannotated
      exact ⟨program, annotated, rfl, ha, (nestingDepth_eq _).trans hprogram,
        (nestingDepth_eq _).trans (Option.some.inj hannotated), hbound⟩

/-- A bare `return` is annotated as deeply as the bound allows. -/
example : Stmt.depthAll [.return none none] = 1 ∧
    ((Stmt.annotateAll {} [.return none none]).toOption.map Stmt.depthAll) = some (2 * 1 + 1) := by
  decide

end Lineage
