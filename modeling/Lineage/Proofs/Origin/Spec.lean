import Lineage.Proofs.Origin.Steps

/-!
# What evaluation promises

One specification for each function of the evaluator, all of the same bound on
how deeply evaluation nests. They speak of annotated programs: the expression
that is evaluated is an annotated form of one that keeps to the style.

The value of an expression that always ends in a recorded step is shown by the
step completed last. So is the value that a statement returns, and that step is
a `return`: so a string that a getter gives can be told from the logs.
-/

namespace Lineage

variable (S : Style)

/-! ## Annotated arguments -/

/-- The arguments that annotation gives to steps. -/
inductive Slot.Annotated : Slot → Prop where
  | of {e e'} : e.Annotates e' → (Node.expr e).Everywhere S.Allows → Slot.Annotated (.of e')
  | string (s) : Slot.Annotated (.mk (.string none s) .untracked)
  | number (x) : Slot.Annotated (.mk (.number none x) .untracked)
  | name (n) : Slot.Annotated (.mk (.ident none n) (.shadow n))
  | lastObject : Slot.Annotated (.mk (.lastObject none) .lastObject)

/-- All slots of an argument are annotated. -/
def Arg.Annotated : Arg → Prop
  | .single _ slot => slot.Annotated S
  | .list _ slots => ∀ slot ∈ slots, slot.Annotated S

/-- What is known of the value of a slot from its form. -/
def Slot.Gives (h : Heap) (slot : Slot) (t : Tracked) : Prop :=
  (∀ f, slot = .mk (.function none f) .untracked →
    ∃ id, t.value = .function id ∧ h.IsScript id) ∧
  ∀ loc s, slot = .of (.stringStep loc s) → t.value = .string s

/-- What is known of the values of a list of slots. -/
def Slot.GiveAll (h : Heap) : List Slot → List Tracked → Prop
  | [], [] => True
  | s :: ss, t :: ts => s.Gives h t ∧ GiveAll h ss ts
  | _, _ => False

/-- What is known of the values of an argument. -/
def Arg.Gives (h : Heap) : Arg → Given → Prop
  | .single _ slot, .single t => slot.Gives h t
  | .list _ slots, .list ts => Slot.GiveAll h slots ts
  | _, _ => False

/-- Everything that is given comes from an argument of its name, or was given before. -/
def GivenBy (h : Heap) (args : List Arg) (before given : Assoc Given) : Prop :=
  ∀ e ∈ given.entries, e ∈ before.entries ∨ ∃ arg ∈ args, arg.name = e.1 ∧ arg.Gives h e.2

section

variable {m m' : Machine}

theorem Slot.Gives.grows {slot : Slot} {t : Tracked} (h : slot.Gives m.heap t)
    (hg : m.Grows m') : slot.Gives m'.heap t :=
  ⟨fun f hf => (h.1 f hf).imp fun _ => .imp_right hg.isScript, h.2⟩

theorem Slot.GiveAll.grows : ∀ {slots : List Slot} {ts : List Tracked},
    Slot.GiveAll m.heap slots ts → m.Grows m' → Slot.GiveAll m'.heap slots ts
  | [], [], _, _ => trivial
  | _ :: _, _ :: _, h, hg => ⟨h.1.grows hg, Slot.GiveAll.grows h.2 hg⟩

theorem Arg.Gives.grows {arg : Arg} {g : Given} (h : arg.Gives m.heap g) (hg : m.Grows m') :
    arg.Gives m'.heap g := by
  cases arg with
  | single name slot =>
      cases g with
      | single t => exact Slot.Gives.grows h hg
      | list ts => exact h
  | list name slots =>
      cases g with
      | single t => exact h
      | list ts => exact Slot.GiveAll.grows h hg

end

/-- The value that a call gives: the step completed last shows it, and if it is a string, the
latest log is that of the `return`. -/
structure Machine.Returned (m : Machine) (v : Value) : Prop where
  holds : m.Holds ⟨v, m.tracking.last⟩
  text : ∀ s, v = .string s → m.JustReturnedText s

/-- What a call gave does not depend on where the machine is. -/
theorem Machine.Returned.frame {m m' : Machine} {v : Value} (h : m.Returned v)
    (hh : m'.heap = m.heap) (ht : m'.tracking = m.tracking) : m'.Returned v := by
  refine ⟨⟨?_, ?_⟩, fun s hs => ?_⟩
  · rw [hh]
    exact h.holds.known
  · rw [ht]
    exact h.holds.traced
  · rw [JustReturnedText, ht]
    exact h.text s hs

namespace Eval

/-- What a step is given fits its kind; a recorded assignment here is one to a member. -/
structure StepFits (m : Machine) (kind : Kind) (args : Assoc Given) (statics : Assoc Static) :
    Prop where
  object : kind = .objectExpression → ObjectFits S m args statics
  member : kind = .assignmentExpression →
    Step.staticText .assignmentExpression statics "type" = .ok "MemberExpression"
  fresh : kind = .assignmentExpression → args.find? "currentValue" = none
  key : kind = .assignmentExpression → ∀ t, Step.single args "propertyName" = .ok t →
    S.indexed ∨ ∃ s, t.value = .string s ∧ indexOfKey? s = none

/-- The records of a call that is being entered show its arguments. -/
def Pending (m : Machine) (args : List Value) : Prop :=
  ∀ records, m.tracking.arguments = some records → Passed m.tracking.book args records

/-- What a statement returns is shown by the step completed last, a `return`. -/
def Returns (c : Completion) (m : Machine) : Prop := ∀ v, c = .return v → m.Returned v

/-- The call is one of the native function that pushes, on an array. -/
def IsPush (h : Heap) (callee this : Value) : Prop :=
  (∃ id, callee = .function id ∧ h.callable id = .native .push) ∧ ∃ a, this = .array a

/-! ## The specifications -/

variable (fuel : Nat)

def EvalSpec : Prop := ∀ {m : Machine} {e e' : Expr}, m.Ready S → e.Annotates e' →
  (Node.expr e).Everywhere S.Allows →
  (provenance S).Yields (eval fuel e') m fun v m' =>
    m'.Holds ⟨v, if e'.isTracked then m'.tracking.last else none⟩

def EvalKeySpec : Prop := ∀ {m : Machine} {e e' : Expr}, m.Ready S → e.Annotates e' →
  (Node.expr e).Everywhere S.Allows →
  (provenance S).Yields (evalKey fuel e') m fun _ _ => True

def EvalUnarySpec : Prop := ∀ {m : Machine} {op : UnaryOp} {e e' : Expr}, m.Ready S →
  (e.Annotates e' ∨ (op = .typeof ∧ ∃ loc name, e' = .ident loc name)) →
  (Node.expr e).Everywhere S.Allows →
  (provenance S).Yields (evalUnary fuel op e') m fun v m' => m'.heap.Knows v

def EvalUpdateSpec : Prop := ∀ {m : Machine} {op : UpdateOp} {inFront : Bool} {t t' : Expr},
  m.Ready S → t.AnnotatesTarget t' → (Node.expr t).Everywhere S.Allows →
  (provenance S).Yields (evalUpdate fuel op inFront t') m fun v m' => m'.heap.Knows v

def EvalSlotSpec : Prop := ∀ {m : Machine} {slot : Slot}, m.Ready S → slot.Annotated S →
  (provenance S).Yields (evalSlot fuel slot) m fun t m' => m'.Holds t ∧ slot.Gives m'.heap t

def EvalSlotsSpec : Prop := ∀ {m : Machine} {slots : List Slot}, m.Ready S →
  (∀ slot ∈ slots, slot.Annotated S) →
  (provenance S).Yields (evalSlots fuel slots) m fun ts m' =>
    (∀ t ∈ ts, m'.Holds t) ∧ Slot.GiveAll m'.heap slots ts

def EvalArgsSpec : Prop := ∀ {m : Machine} {args : List Arg} {given : Assoc Given}, m.Ready S →
  (∀ arg ∈ args, arg.Annotated S) → m.HoldsAll given →
  (provenance S).Yields (evalArgs fuel args given) m fun given' m' =>
    m'.HoldsAll given' ∧ GivenBy m'.heap args given given'

def RunStepSpec : Prop := ∀ {m : Machine} {kind : Kind} {args : Assoc Given}
  {statics : Assoc Static} {loc : Option Location}, m.Ready S → m.HoldsAll args →
  StepFits S m kind args statics →
  (provenance S).Yields (runStep fuel kind args statics loc) m fun v m' =>
    m'.Holds ⟨v, m'.tracking.last⟩ ∧
    (kind = .returnStatement → ∀ s, v = .string s → m'.JustReturnedText s)

def MemberStepSpec : Prop := ∀ {m : Machine} {args : Assoc Given} {statics : Assoc Static},
  m.Ready S → m.HoldsAll args →
  (provenance S).Yields (memberStep fuel args) m fun t m' =>
    Done S m' .memberExpression args statics (t.value, [("propertyValue", t)])

def CallStepSpec : Prop := ∀ {m : Machine} {args : Assoc Given}, m.Ready S → m.HoldsAll args →
  (∀ f context, Step.single args "function" = .ok f → Step.single args "context" = .ok context →
    ¬IsPush m.heap f.value context.value) →
  (provenance S).Yields (callStep fuel args) m fun t m' => m'.Holds t

def AssignStepSpec : Prop := ∀ {m : Machine} {args : Assoc Given} {statics : Assoc Static},
  m.Ready S → m.HoldsAll args → StepFits S m .assignmentExpression args statics →
  (provenance S).Yields (assignStep fuel args statics) m fun r m' =>
    Done S m' .assignmentExpression args statics (r.1, [("currentValue", r.2)])

def PropertyStepSpec : Prop := ∀ {m : Machine} {op : AssignOp} {args : Assoc Given},
  m.Ready S → m.HoldsAll args →
  (∀ t, Step.single args "propertyName" = .ok t →
    S.indexed ∨ ∃ s, t.value = .string s ∧ indexOfKey? s = none) →
  (provenance S).Yields (propertyStep fuel op args) m fun r m' =>
    m'.heap.Knows r.1 ∧ m'.Holds r.2 ∧
      ∃ argument, Step.single args "argument" = .ok argument ∧ Assigns op r.2 argument r.1

def GetPropertySpec : Prop := ∀ {m : Machine} {receiver : Value} {key : String}, m.Ready S →
  m.heap.Knows receiver →
  (provenance S).Yields (getProperty fuel receiver key) m fun v m' =>
    m'.heap.Knows v ∧
    Traces S m' receiver key ⟨v, m'.tracking.propertyOrigin receiver key⟩ ∧
    ∀ a, receiver = .array a → IsArrayKey key → m' = m

def SetPropertySpec : Prop := ∀ {m : Machine} {receiver value : Value} {key : String},
  m.Ready S → m.heap.Knows receiver → m.heap.Knows value → (∀ s, value ≠ .string s) →
  (provenance S).Yields (setProperty fuel receiver key value) m fun _ _ => True

def CallValueSpec : Prop := ∀ {m : Machine} {callee this : Value} {args : List Value},
  m.Sound S → Pending m args → ¬IsPush m.heap callee this → m.heap.Knows this →
  (∀ v ∈ args, m.heap.Knows v) →
  (provenance S).Yields (callValue fuel callee this args) m fun v m' =>
    m'.heap.Knows v ∧ (m.tracking.last = none → m'.Holds ⟨v, m'.tracking.last⟩) ∧
    ∀ id, callee = .function id → m.heap.IsScript id → m'.Returned v

def CallScriptSpec : Prop := ∀ {m : Machine} {f : Func} {scope : ScopeId} {this : Value}
  {args : List Value}, m.Sound S → f.Keeps S → Pending m args → m.heap.Knows this →
  (∀ v ∈ args, m.heap.Knows v) →
  (provenance S).Yields (callScript fuel f scope this args) m fun v m' => m'.Returned v

def ExecSpec : Prop := ∀ {m : Machine} {s s' : Stmt}, m.Ready S → s.Annotates s' →
  (Node.stmt s).Everywhere S.Allows →
  (provenance S).Yields (exec fuel s') m Returns

/-- A list of annotated statements that keep to the style. -/
def Body (body body' : List Stmt) : Prop :=
  Stmt.AnnotatesAll body body' ∧ ∀ s ∈ body, (Node.stmt s).Everywhere S.Allows

def ExecAllSpec : Prop := ∀ {m : Machine} {body body' : List Stmt}, m.Ready S →
  Body S body body' → (provenance S).Yields (execAll fuel body') m Returns

def ExecListSpec : Prop := ∀ {m : Machine} {body body' : List Stmt}, m.Ready S →
  Body S body body' → (provenance S).Yields (execList fuel body') m Returns

def ExecBlockSpec : Prop := ∀ {m : Machine} {body body' : List Stmt}, m.Ready S →
  Body S body body' → (provenance S).Yields (execBlock fuel body') m Returns

def ExecTrySpec : Prop := ∀ {m : Machine} {body body' handler handler' : List Stmt}
  {param : Option String}, m.Ready S → Body S body body' → Body S handler handler' →
  (provenance S).Yields (execTry fuel body' param handler') m Returns

def ExecWhileSpec : Prop := ∀ {m : Machine} {t t' : Expr} {b b' : Stmt}, m.Ready S →
  t.Annotates t' → (Node.expr t).Everywhere S.Allows → b.Annotates b' →
  (Node.stmt b).Everywhere S.Allows →
  (provenance S).Yields (execWhile fuel t' b') m Returns

/-- An annotated part of a loop header that keeps to the style. -/
def Header (e e' : Option Expr) : Prop :=
  Expr.InspectsOption e e' ∧ ∀ x, e = some x → (Node.expr x).Everywhere S.Allows

def ExecForSpec : Prop := ∀ {m : Machine} {t t' s s' : Option Expr} {b b' : Stmt}, m.Ready S →
  Header S t t' → Header S s s' → b.Annotates b' → (Node.stmt b).Everywhere S.Allows →
  (provenance S).Yields (execFor fuel t' s' b') m Returns

def ExecForInSpec : Prop := ∀ {m : Machine} {kind : Option DeclKind} {name : String}
  {keys : List String} {b b' : Stmt}, m.Ready S → b.Annotates b' →
  (Node.stmt b).Everywhere S.Allows →
  (provenance S).Yields (execForIn fuel kind name keys b') m Returns

def DeclareAllSpec : Prop := ∀ {m : Machine} {kind : DeclKind} {ds ds' : List Declarator},
  m.Ready S → Declarator.AnnotatesAll ds ds' →
  (∀ d ∈ ds, ∀ e, d.init? = some e → (Node.expr e).Everywhere S.Allows) →
  (provenance S).Yields (declareAll fuel kind ds') m fun _ _ => True

/-- All the specifications, for one bound on the depth of evaluation. -/
structure Spec : Prop where
  eval : EvalSpec S fuel
  evalKey : EvalKeySpec S fuel
  evalUnary : EvalUnarySpec S fuel
  evalUpdate : EvalUpdateSpec S fuel
  evalSlot : EvalSlotSpec S fuel
  evalSlots : EvalSlotsSpec S fuel
  evalArgs : EvalArgsSpec S fuel
  runStep : RunStepSpec S fuel
  memberStep : MemberStepSpec S fuel
  callStep : CallStepSpec S fuel
  assignStep : AssignStepSpec S fuel
  propertyStep : PropertyStepSpec S fuel
  getProperty : GetPropertySpec S fuel
  setProperty : SetPropertySpec S fuel
  callValue : CallValueSpec S fuel
  callScript : CallScriptSpec S fuel
  exec : ExecSpec S fuel
  execAll : ExecAllSpec S fuel
  execList : ExecListSpec S fuel
  execBlock : ExecBlockSpec S fuel
  execTry : ExecTrySpec S fuel
  execWhile : ExecWhileSpec S fuel
  execFor : ExecForSpec S fuel
  execForIn : ExecForInSpec S fuel
  declareAll : DeclareAllSpec S fuel

end Eval

end Lineage
