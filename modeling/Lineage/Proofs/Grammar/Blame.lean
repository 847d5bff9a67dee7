import Lineage.Proofs.Lexical.Tiling
import Lineage.Syntax.Parse

/-!
# Which token a refusal blames

Where a text is cut into tokens but refused as a program, the refusal may say
what it found, and where. Every function of the parser reads on among the tokens
of the text, and what it says it found is a token of the text at the place it
names. There is one exception: behind a point, the token that is no name has
been taken when the place is read, so the place is that of the token behind it.
-/

namespace Lineage

/-- There is one token at this place, and it is of this kind. -/
def PointsAt (tokens : List Token) (found : TokenKind) (loc : Location) : Prop :=
  ∃ t ∈ tokens, t.kind = found ∧ t.loc = loc

/-- What a refusal says it found stands where the refusal says. A token that stands for the name
of a property is found one place early. -/
def ParseError.Blames (tokens : List Token) : ParseError → Prop
  | .expected what found loc => PointsAt tokens found loc ∨
      what = "property name" ∧ ∃ t next, [t, next] <:+: tokens ∧ t.kind = found ∧ next.loc = loc
  | .unexpected found loc => PointsAt tokens found loc
  | _ => True

namespace Read

/-- The tokens that are left to a reading. -/
def left (r : Reader) : List Token := r.here :: r.ahead

variable {tokens : List Token} {α β : Type} {x : Read α} {r : Reader}

/-- From here, the reading stays among the tokens, or it blames one of them. -/
def FairAt (tokens : List Token) (x : Read α) (r : Reader) : Prop :=
  match x r with
  | .ok (_, r') => left r' <:+ tokens
  | .error e => e.Blames tokens

/-- From anywhere among the tokens, the reading stays among them, or it blames one of them. -/
def Fair (tokens : List Token) (x : Read α) : Prop := ∀ r, left r <:+ tokens → FairAt tokens x r

theorem FairAt.bind {f : α → Read β} (hx : FairAt tokens x r)
    (hf : ∀ a r', left r' <:+ tokens → FairAt tokens (f a) r') : FairAt tokens (x >>= f) r := by
  have hrun : (x >>= f) r = (x r >>= fun p => f p.1 p.2) := rfl
  unfold FairAt at hx ⊢
  rw [hrun]
  cases hp : x r with
  | error e =>
      rw [hp] at hx
      exact hx
  | ok p =>
      rw [hp] at hx
      exact hf p.1 p.2 hx

theorem Fair.bind {f : α → Read β} (hx : Fair tokens x) (hf : ∀ a, Fair tokens (f a)) :
    Fair tokens (x >>= f) :=
  fun r hr => (hx r hr).bind fun a r' hr' => hf a r' hr'

theorem fair_pure (a : α) : Fair tokens (pure a : Read α) := fun _ hr => hr

theorem Fair.map {f : α → β} (hx : Fair tokens x) : Fair tokens (f <$> x) := by
  rw [map_eq_pure_bind]
  exact hx.bind fun a => fair_pure (f a)

theorem Fair.ite {c : Prop} [Decidable c] {y : Read α} (hx : Fair tokens x) (hy : Fair tokens y) :
    Fair tokens (if c then x else y) := by
  split
  · exact hx
  · exact hy

theorem fair_throw {e : ParseError} (h : e.Blames tokens) : Fair tokens (throw e : Read α) :=
  fun _ _ => h

/-- A refusal that names no token. -/
theorem fair_fail {reason : Location → ParseError} (h : ∀ loc, (reason loc).Blames tokens) :
    Fair tokens (fail reason : Read α) := fun r _ => h r.here.loc

/-- Nothing follows a refusal. -/
theorem fair_failThen {reason : Location → ParseError} {f : α → Read β}
    (h : ∀ loc, (reason loc).Blames tokens) : Fair tokens (fail reason >>= f) :=
  fun r _ => h r.here.loc

/-! ## Looking at tokens and taking them -/

theorem here_mem (hr : left r <:+ tokens) : r.here ∈ tokens := hr.subset (by simp [left])

theorem fair_peek : Fair tokens peek := fun _ hr => hr

/-- What is looked at is the token that stands here. -/
theorem fair_seen {f : Token → Read β} (hf : ∀ r, left r <:+ tokens → FairAt tokens (f r.here) r) :
    Fair tokens (peek >>= f) := hf

theorem fairAt_found (what : String) (hr : left r <:+ tokens) :
    FairAt tokens (fail (.expected what r.here.kind) : Read α) r :=
  .inl ⟨r.here, here_mem hr, rfl, rfl⟩

/-- What stands here is blamed for not being something else. -/
theorem fair_found (what : String) :
    Fair tokens (do fail (.expected what (← peek).kind) : Read α) :=
  fair_seen fun _ hr => fairAt_found what hr

/-- Taking a token leaves those behind it, if there are any. -/
theorem advance_cases (hr : left r <:+ tokens) : ∃ r', advance r = .ok (r.here, r') ∧
    left r' <:+ tokens ∧ (r' = r ∨ [r.here, r'.here] <:+: tokens) := by
  unfold advance
  cases hahead : r.ahead with
  | nil => exact ⟨r, rfl, hr, .inl rfl⟩
  | cons t ahead =>
      have hleft : left r = r.here :: t :: ahead := by rw [left, hahead]
      rw [hleft] at hr
      exact ⟨_, rfl, (List.suffix_cons _ _).trans hr,
        .inr ((List.prefix_append [r.here, t] ahead).isInfix.trans hr.isInfix)⟩

theorem fairAt_taken {f : Token → Read β} (hr : left r <:+ tokens)
    (hf : ∀ r', left r' <:+ tokens → (r' = r ∨ [r.here, r'.here] <:+: tokens) →
      FairAt tokens (f r.here) r') : FairAt tokens (advance >>= f) r := by
  obtain ⟨r', hrun, hr', hnext⟩ := advance_cases hr
  have hbind : (advance >>= f) r = (advance r >>= fun p => f p.1 p.2) := rfl
  unfold FairAt
  rw [hbind, hrun]
  exact hf r' hr' hnext

/-- What is taken is a token of the text. -/
theorem fair_taken {f : Token → Read β} (hf : ∀ t ∈ tokens, Fair tokens (f t)) :
    Fair tokens (advance >>= f) :=
  fun r hr => fairAt_taken hr fun r' hr' _ => hf r.here (here_mem hr) r' hr'

theorem fair_advance : Fair tokens advance := by
  have h : Fair tokens (advance >>= pure) := fair_taken fun t _ => fair_pure t
  rwa [bind_pure] at h

theorem fair_skip : Fair tokens (discard advance) := Fair.map fair_advance

theorem fair_loc : Fair tokens loc := fair_peek.bind fun _ => fair_pure _

theorem fair_isAt (kind : TokenKind) : Fair tokens (isAt kind) :=
  fair_peek.bind fun _ => fair_pure _

theorem fair_eat (kind : TokenKind) : Fair tokens (eat kind) :=
  (fair_isAt kind).bind fun _ => .ite (fair_skip.bind fun _ => fair_pure _) (fair_pure _)

theorem fair_expect (kind : TokenKind) (what : String) : Fair tokens (expect kind what) :=
  (fair_eat kind).bind fun _ => .ite (fair_pure _) (fair_found what)

theorem fair_symbol (s : Symbol) : Fair tokens (symbol s) := fair_expect _ _

theorem fair_identifier : Fair tokens identifier := by
  refine fair_seen fun r hr => ?_
  split
  · exact (fair_skip.bind fun _ => fair_pure _) r hr
  · exact fairAt_found _ hr

theorem fair_mayEnd : Fair tokens mayEnd := fair_peek.bind fun _ => fair_pure _

theorem fair_semicolon : Fair tokens semicolon := by
  unfold semicolon
  exact (fair_eat _).bind fun _ => fair_mayEnd.bind fun _ =>
    .ite (fair_pure _) (fair_found _)

theorem fair_enter : Fair tokens enter := by
  intro r hr
  have hrun : enter r = (if maxDepth ≤ r.depth then fail (fun loc => .tooDeep maxDepth (some loc))
    else set { r with depth := r.depth + 1 } : Read Unit) r := rfl
  unfold FairAt
  rw [hrun]
  by_cases hdepth : maxDepth ≤ r.depth
  · rw [if_pos hdepth]
    exact trivial
  · rw [if_neg hdepth]
    exact hr

theorem fair_leave (levels : Nat) : Fair tokens (leave levels) := fun _ hr => hr

theorem fair_propertyKey : Fair tokens propertyKey := by
  refine fair_taken fun t ht => ?_
  split
  · exact fair_pure _
  · exact fair_pure _
  · exact fair_pure _
  · exact fair_pure _
  · exact fair_throw (.inl ⟨t, ht, rfl, rfl⟩)

/-- A token that is no name has been taken when the place is read. -/
theorem fair_memberName : Fair tokens memberName := by
  intro r hr
  refine fairAt_taken hr fun r' hr' hnext => ?_
  split
  · exact hr'
  · exact hr'
  · rcases hnext with rfl | hnext
    · exact fairAt_found _ hr
    · exact .inr ⟨rfl, r.here, r'.here, hnext, rfl, rfl⟩

theorem fair_declKind? : Fair tokens declKind? :=
  fair_peek.bind fun _ => .ite (fair_skip.bind fun _ => fair_pure _) (fair_pure _)

theorem fair_bareForIn? : Fair tokens bareForIn? := by
  have hget : Fair tokens (get : Read Reader) := fun _ hr => hr
  refine hget.bind fun r => ?_
  split
  · exact fair_skip.bind fun _ => fair_skip.bind fun _ => fair_pure _
  · exact fair_pure _

theorem fair_parameters : ∀ fuel, Fair tokens (parameters fuel)
  | 0 => fair_throw trivial
  | fuel + 1 => by
      unfold parameters
      exact (fair_eat _).bind fun _ => .ite (fair_pure _) (fair_identifier.bind fun _ =>
        (fair_eat _).bind fun _ => .ite
          ((fair_parameters fuel).bind fun _ => fair_pure _)
          ((fair_symbol _).bind fun _ => fair_pure _))

/-! ## The functions of the grammar -/

/-- The functions of the parser are fair, for one bound. -/
structure FairAll (tokens : List Token) (fuel : Nat) : Prop where
  statement : Fair tokens (statement fuel)
  statementHere : Fair tokens (statementHere fuel)
  block : Fair tokens (block fuel)
  blockRest : Fair tokens (blockRest fuel)
  declaration : Fair tokens (declaration fuel)
  declarators : ∀ kind name loc, Fair tokens (declarators fuel kind name loc)
  forHead : Fair tokens (forHead fuel)
  forRest : ∀ init, Fair tokens (forRest fuel init)
  forInRest : ∀ kind name, Fair tokens (forInRest fuel kind name)
  tryRest : Fair tokens (tryRest fuel)
  functionRest : ∀ name loc, Fair tokens (functionRest fuel name loc)
  assignment : Fair tokens (assignment fuel)
  conditional : Fair tokens (conditional fuel)
  tier : ∀ t, Fair tokens (tier fuel t)
  operand : ∀ t, Fair tokens (operand fuel t)
  tierRest : ∀ t left links, Fair tokens (tierRest fuel t left links)
  unary : Fair tokens (unary fuel)
  postfixUpdate : Fair tokens (postfixUpdate fuel)
  callMember : Fair tokens (callMember fuel)
  callMemberRest : ∀ e links, Fair tokens (callMemberRest fuel e links)
  expressions : ∀ close, Fair tokens (expressions fuel close)
  primary : Fair tokens (primary fuel)
  properties : Fair tokens (properties fuel)
  property : Fair tokens (property fuel)

theorem fairAll_zero : FairAll tokens 0 := by
  constructor <;> intros <;> exact fair_throw trivial

variable {fuel : Nat}

/-! ### Expressions -/

theorem fair_assignment (ih : FairAll tokens fuel) : Fair tokens (assignment (fuel + 1)) := by
  unfold assignment
  refine fair_enter.bind fun _ => ih.conditional.bind fun target => fair_peek.bind fun t => ?_
  split
  · exact (fair_leave 1).bind fun _ => fair_pure _
  · exact .ite
      (fair_skip.bind fun _ => ih.assignment.bind fun _ => (fair_leave 1).bind fun _ => fair_pure _)
      (fair_failThen fun _ => trivial)

theorem fair_conditional (ih : FairAll tokens fuel) : Fair tokens (conditional (fuel + 1)) := by
  unfold conditional
  exact (ih.tier .or).bind fun _ => (fair_eat _).bind fun _ => .ite
    (ih.assignment.bind fun _ => (fair_symbol _).bind fun _ => ih.assignment.bind fun _ =>
      fair_pure _)
    (fair_pure _)

theorem fair_tier (ih : FairAll tokens fuel) (t : Tier) : Fair tokens (tier (fuel + 1) t) := by
  unfold tier
  exact (ih.operand t).bind fun left => ih.tierRest t left 0

theorem fair_operand (ih : FairAll tokens fuel) (t : Tier) :
    Fair tokens (operand (fuel + 1) t) := by
  unfold operand
  split
  · exact ih.tier _
  · exact ih.unary

theorem fair_tierRest (ih : FairAll tokens fuel) (t : Tier) (left : Expr) (links : Nat) :
    Fair tokens (tierRest (fuel + 1) t left links) := by
  unfold tierRest
  refine fair_peek.bind fun token => ?_
  split
  · exact (fair_leave links).bind fun _ => fair_pure _
  · exact fair_skip.bind fun _ => fair_enter.bind fun _ => (ih.operand t).bind fun _ =>
      ih.tierRest t _ _

theorem fair_updateOf (op : UpdateOp) (inFront : Bool) (target : Expr) (loc : Option Location) :
    Fair tokens (updateOf op inFront target loc) :=
  .ite (fair_pure _) (fair_fail fun _ => trivial)

theorem fair_unary (ih : FairAll tokens fuel) : Fair tokens (unary (fuel + 1)) := by
  unfold unary
  refine fair_peek.bind fun token => ?_
  split
  · exact fair_skip.bind fun _ => fair_enter.bind fun _ => ih.unary.bind fun _ =>
      (fair_leave 1).bind fun _ => fair_pure _
  · exact fair_skip.bind fun _ => fair_enter.bind fun _ => ih.unary.bind fun _ =>
      (fair_leave 1).bind fun _ => fair_updateOf _ _ _ _
  · exact ih.postfixUpdate

theorem fair_postfixUpdate (ih : FairAll tokens fuel) :
    Fair tokens (postfixUpdate (fuel + 1)) := by
  unfold postfixUpdate
  refine ih.callMember.bind fun e => fair_peek.bind fun token => ?_
  split
  · exact .ite (fair_pure _) (fair_skip.bind fun _ => fair_updateOf _ _ _ _)
  · exact fair_pure _

theorem fair_callMember (ih : FairAll tokens fuel) : Fair tokens (callMember (fuel + 1)) := by
  unfold callMember
  exact ih.primary.bind fun e => ih.callMemberRest e 0

theorem fair_callMemberRest (ih : FairAll tokens fuel) (e : Expr) (links : Nat) :
    Fair tokens (callMemberRest (fuel + 1) e links) := by
  unfold callMemberRest
  refine fair_peek.bind fun token => ?_
  split
  · exact fair_enter.bind fun _ => fair_skip.bind fun _ => fair_memberName.bind fun _ =>
      ih.callMemberRest _ _
  · exact fair_enter.bind fun _ => fair_skip.bind fun _ => ih.assignment.bind fun _ =>
      (fair_symbol _).bind fun _ => ih.callMemberRest _ _
  · exact fair_enter.bind fun _ => fair_skip.bind fun _ => (ih.expressions _).bind fun _ =>
      ih.callMemberRest _ _
  · exact (fair_leave links).bind fun _ => fair_pure _

theorem fair_expressions (ih : FairAll tokens fuel) (close : Symbol) :
    Fair tokens (expressions (fuel + 1) close) := by
  unfold expressions
  exact (fair_eat _).bind fun _ => .ite (fair_pure _) (ih.assignment.bind fun _ =>
    (fair_eat _).bind fun _ => .ite
      ((ih.expressions close).bind fun _ => fair_pure _)
      ((fair_expect _ _).bind fun _ => fair_pure _))

/-- A token with which no expression starts is blamed itself. -/
theorem fair_primary (ih : FairAll tokens fuel) : Fair tokens (primary (fuel + 1)) := by
  have hfunction (name : Option String) (loc : Option Location) : Fair tokens (do
      return .function loc (← functionRest fuel name loc) : Read Expr) :=
    (ih.functionRest name loc).bind fun _ => fair_pure _
  unfold primary
  refine fair_taken fun token ht => ?_
  dsimp only
  split
  · exact fair_pure _
  · exact fair_pure _
  · exact fair_pure _
  · exact fair_pure _
  · exact fair_pure _
  · exact fair_pure _
  · exact fair_pure _
  · exact fair_pure _
  · refine fair_peek.bind fun next => ?_
    split
    · exact fair_skip.bind fun _ => hfunction _ _
    · exact hfunction _ _
  · exact ih.assignment.bind fun _ => (fair_symbol _).bind fun _ => fair_pure _
  · exact (ih.expressions _).bind fun _ => fair_pure _
  · exact ih.properties.bind fun _ => fair_pure _
  · exact fair_throw trivial
  · exact fair_throw ⟨token, ht, rfl, rfl⟩

theorem fair_properties (ih : FairAll tokens fuel) : Fair tokens (properties (fuel + 1)) := by
  unfold properties
  exact (fair_eat _).bind fun _ => .ite (fair_pure _) (ih.property.bind fun _ =>
    (fair_eat _).bind fun _ => .ite
      (ih.properties.bind fun _ => fair_pure _)
      ((fair_expect _ _).bind fun _ => fair_pure _))

theorem fair_property (ih : FairAll tokens fuel) : Fair tokens (property (fuel + 1)) := by
  have hfunction (key : String) (role : FunctionRole) (name : Option String)
      (loc : Option Location) : Fair tokens (do
      return .function key role (← functionRest fuel name loc) loc : Read Property) :=
    (ih.functionRest name loc).bind fun _ => fair_pure _
  unfold property
  refine fair_loc.bind fun loc => fair_propertyKey.bind fun key => fair_seen fun r hr => ?_
  dsimp only
  split
  · exact (fair_propertyKey.bind fun name => hfunction _ _ _ _) r hr
  · split
    · exact (fair_skip.bind fun _ => ih.assignment.bind fun _ => fair_pure _) r hr
    · exact hfunction _ _ _ _ r hr
    · split
      · exact hr
      · exact fairAt_found _ hr

/-! ### Statements -/

theorem fair_functionRest (ih : FairAll tokens fuel) (name : Option String)
    (loc : Option Location) : Fair tokens (functionRest (fuel + 1) name loc) := by
  unfold functionRest
  exact (fair_symbol _).bind fun _ => (fair_parameters fuel).bind fun _ => ih.block.bind fun _ =>
    fair_pure _

theorem fair_statement (ih : FairAll tokens fuel) : Fair tokens (statement (fuel + 1)) := by
  unfold statement
  exact fair_enter.bind fun _ => ih.statementHere.bind fun _ => (fair_leave 1).bind fun _ =>
    fair_pure _

theorem fair_block (ih : FairAll tokens fuel) : Fair tokens (block (fuel + 1)) := by
  unfold block
  exact (fair_symbol _).bind fun _ => ih.blockRest

theorem fair_blockRest (ih : FairAll tokens fuel) : Fair tokens (blockRest (fuel + 1)) := by
  unfold blockRest
  exact (fair_eat _).bind fun _ => .ite (fair_pure _) ((fair_isAt _).bind fun _ => .ite
    (fair_failThen fun _ => trivial)
    (ih.statement.bind fun _ => ih.blockRest.bind fun _ => fair_pure _))

theorem fair_declaration (ih : FairAll tokens fuel) : Fair tokens (declaration (fuel + 1)) := by
  unfold declaration
  refine fair_declKind?.bind fun kind => ?_
  split
  · exact fair_found _
  · exact fair_loc.bind fun _ => fair_identifier.bind fun _ => (ih.declarators _ _ _).bind fun _ =>
      fair_pure _

theorem fair_declarators (ih : FairAll tokens fuel) (kind : DeclKind) (name : String)
    (loc : Location) : Fair tokens (declarators (fuel + 1) kind name loc) := by
  -- the declarator, and those after it
  have hrest (init : Option Expr) : Fair tokens (do
      if ← eat (.symbol .comma) then
        let next ← Read.loc
        let other ← identifier
        let rest ← declarators fuel kind other next
        return .mk name init false (some loc) :: rest
      return [Declarator.mk name init false (some loc)] : Read (List Declarator)) :=
    (fair_eat _).bind fun _ => .ite
      (fair_loc.bind fun _ => fair_identifier.bind fun _ => (ih.declarators _ _ _).bind fun _ =>
        fair_pure _)
      (fair_pure _)
  unfold declarators
  exact (fair_eat _).bind fun _ => .ite
    ((Fair.map ih.assignment).bind fun init => .ite (fair_failThen fun _ => trivial) (hrest init))
    ((fair_pure none).bind fun init => .ite (fair_failThen fun _ => trivial) (hrest init))

theorem fair_forHead (ih : FairAll tokens fuel) : Fair tokens (forHead (fuel + 1)) := by
  unfold forHead
  refine (fair_isAt _).bind fun _ => .ite (ih.forRest none) ?_
  refine fair_declKind?.bind fun kind => ?_
  split
  · exact fair_loc.bind fun _ => fair_identifier.bind fun _ => (fair_eat _).bind fun _ => .ite
      (ih.forInRest _ _)
      ((ih.declarators _ _ _).bind fun _ => ih.forRest _)
  · refine fair_bareForIn?.bind fun name => ?_
    split
    · exact ih.forInRest none _
    · exact ih.assignment.bind fun _ => ih.forRest _

theorem fair_forRest (ih : FairAll tokens fuel) (init : Option Stmt) :
    Fair tokens (forRest (fuel + 1) init) := by
  -- the body, after a test and a step that may be missing
  have hbody (test step : Option Expr) : Fair tokens (do
        symbol .rightParen
        return .for init test step (← statement fuel) : Read Stmt) :=
    (fair_symbol _).bind fun _ => ih.statement.bind fun _ => fair_pure _
  have hstep (test : Option Expr) : Fair tokens (do
      symbol .semicolon
      let step ← if ← isAt (.symbol .rightParen) then pure none else some <$> assignment fuel
      symbol .rightParen
      return .for init test step (← statement fuel) : Read Stmt) :=
    (fair_symbol _).bind fun _ => (fair_isAt _).bind fun _ => .ite
      ((fair_pure none).bind fun step => hbody test step)
      ((Fair.map ih.assignment).bind fun step => hbody test step)
  unfold forRest
  exact (fair_symbol _).bind fun _ => (fair_isAt _).bind fun _ => .ite
    ((fair_pure none).bind fun test => hstep test)
    ((Fair.map ih.assignment).bind fun test => hstep test)

theorem fair_forInRest (ih : FairAll tokens fuel) (kind : Option DeclKind) (name : String) :
    Fair tokens (forInRest (fuel + 1) kind name) := by
  unfold forInRest
  exact ih.assignment.bind fun _ => (fair_symbol _).bind fun _ => ih.statement.bind fun _ =>
    fair_pure _

theorem fair_tryRest (ih : FairAll tokens fuel) : Fair tokens (tryRest (fuel + 1)) := by
  have hhandler (body : List Stmt) (param : Option String) : Fair tokens (do
      return .try body param (← block fuel) : Read Stmt) :=
    ih.block.bind fun _ => fair_pure _
  unfold tryRest
  exact ih.block.bind fun body => (fair_eat _).bind fun _ => .ite
    ((fair_eat _).bind fun _ => .ite
      (fair_identifier.bind fun _ => (fair_symbol _).bind fun _ => hhandler body _)
      (hhandler body none))
    (fair_failThen fun _ => trivial)

theorem fair_statementHere (ih : FairAll tokens fuel) :
    Fair tokens (statementHere (fuel + 1)) := by
  have hended (s : Stmt) : Fair tokens (do
      semicolon
      return s : Read Stmt) := fair_semicolon.bind fun _ => fair_pure _
  unfold statementHere
  refine fair_peek.bind fun token => ?_
  split
  · exact ih.block.bind fun _ => fair_pure _
  · exact fair_skip.bind fun _ => fair_pure _
  · exact ih.declaration.bind fun s => hended s
  · exact ih.declaration.bind fun s => hended s
  · exact ih.declaration.bind fun s => hended s
  · exact fair_skip.bind fun _ => fair_identifier.bind fun _ => (ih.functionRest _ _).bind fun _ =>
      fair_pure _
  · exact fair_skip.bind fun _ => (fair_isAt _).bind fun _ => fair_mayEnd.bind fun _ => .ite
      ((fair_pure none).bind fun value => hended _)
      ((Fair.map ih.assignment).bind fun value => hended _)
  · exact fair_skip.bind fun _ => (fair_symbol _).bind fun _ => ih.assignment.bind fun _ =>
      (fair_symbol _).bind fun _ => ih.statement.bind fun _ => (fair_eat _).bind fun _ => .ite
        (ih.statement.bind fun _ => fair_pure _) (fair_pure _)
  · exact fair_skip.bind fun _ => (fair_symbol _).bind fun _ => ih.assignment.bind fun _ =>
      (fair_symbol _).bind fun _ => ih.statement.bind fun _ => fair_pure _
  · exact fair_skip.bind fun _ => (fair_symbol _).bind fun _ => ih.forHead
  · exact fair_skip.bind fun _ => hended _
  · exact fair_skip.bind fun _ => hended _
  · exact fair_skip.bind fun _ => fair_peek.bind fun _ => .ite (fair_failThen fun _ => trivial)
      (ih.assignment.bind fun _ => hended _)
  · exact fair_skip.bind fun _ => ih.tryRest
  · exact ih.assignment.bind fun _ => hended _

/-- Every function of the parser is fair. -/
theorem fairAll : ∀ fuel, FairAll tokens fuel
  | 0 => fairAll_zero
  | fuel + 1 =>
    have ih := fairAll fuel
    { statement := fair_statement ih
      statementHere := fair_statementHere ih
      block := fair_block ih
      blockRest := fair_blockRest ih
      declaration := fair_declaration ih
      declarators := fair_declarators ih
      forHead := fair_forHead ih
      forRest := fair_forRest ih
      forInRest := fair_forInRest ih
      tryRest := fair_tryRest ih
      functionRest := fair_functionRest ih
      assignment := fair_assignment ih
      conditional := fair_conditional ih
      tier := fair_tier ih
      operand := fair_operand ih
      tierRest := fair_tierRest ih
      unary := fair_unary ih
      postfixUpdate := fair_postfixUpdate ih
      callMember := fair_callMember ih
      callMemberRest := fair_callMemberRest ih
      expressions := fair_expressions ih
      primary := fair_primary ih
      properties := fair_properties ih
      property := fair_property ih }

theorem fair_program : ∀ fuel, Fair tokens (program fuel)
  | 0 => fair_throw trivial
  | fuel + 1 => by
      unfold program
      exact (fair_isAt _).bind fun _ => .ite (fair_pure _)
        ((fairAll fuel).statement.bind fun _ => (fair_program fuel).bind fun _ => fair_pure _)

end Read

/-- **A refusal that says what it found names the place where that stands**, unless it misses the
name of a property. No other token stands there. -/
theorem Program.parse_blames {text : String} {tokens : List Token} {e : ParseError}
    (hscan : Token.scan text = .ok tokens) (h : Program.parse text = .error e) :
    e.Blames tokens ∧ (tokens.map Token.loc).Nodup := by
  refine ⟨?_, Token.scan_nodup_locs hscan⟩
  unfold Program.parse at h
  rw [hscan] at h
  replace h : Program.ofTokens tokens = .error e := h
  unfold Program.ofTokens at h
  split at h
  · cases h
  · rename_i here ahead
    have hfair : Read.FairAt (here :: ahead) (Read.program (24 * (ahead.length + 2)))
        ⟨here, ahead, 0⟩ :=
      Read.fair_program (24 * (ahead.length + 2)) ⟨here, ahead, 0⟩ (List.suffix_refl _)
    unfold Read.FairAt at hfair
    replace h : (Read.program (24 * (ahead.length + 2)) ⟨here, ahead, 0⟩ >>= fun p =>
      if maxDepth < nestingDepth p.1 then throw (.tooDeep maxDepth none)
      else pure p.1 : Except ParseError Program) = .error e := h
    cases hrun : Read.program (24 * (ahead.length + 2)) ⟨here, ahead, 0⟩ with
    | error e' =>
        rw [hrun] at h hfair
        cases h
        exact hfair
    | ok p =>
        rw [hrun] at h
        replace h : (if maxDepth < nestingDepth p.1 then throw (.tooDeep maxDepth none)
          else pure p.1 : Except ParseError Program) = .error e := h
        split at h
        · cases h
          exact trivial
        · cases h

/-- The refusal says that it found the equals sign, which stands at 1:5, and names the place
behind it. -/
example : Program.parse "a . = b" =
    .error (.expected "property name" (.symbol .assign) ⟨1, 7⟩) := by
  cbv

end Lineage
