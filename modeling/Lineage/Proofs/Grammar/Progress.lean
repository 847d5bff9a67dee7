import Lineage.Proofs.Grammar.Moves

/-!
# The parser goes on

Every function of the parser takes a token before it is at the same place again,
and leaves as many levels as it was told to. Between two tokens the functions call
each other in one order only, from the statements down to the primary expressions.
What a function needs besides the calls for the tokens ahead is its place in that
order. That is less than the calls for one token, so behind each token the order
can start again, and the bound on the calls is never reached.
-/

namespace Lineage

/-- The place of an operand of a tier in the order of the calls. -/
def Tier.rank : Tier → Nat
  | or => 15
  | and => 13
  | equality => 11
  | relational => 9
  | additive => 7
  | multiplicative => 5

theorem Tier.rank_pos (t : Tier) : 0 < t.rank := by cases t <;> decide

theorem Tier.rank_stronger {t stronger : Tier} (h : t.stronger? = some stronger) :
    t.rank = stronger.rank + 2 := by
  cases t <;> cases h <;> rfl

/-! ## Tokens that are not the ending -/

section NotEnding

variable {kind : TokenKind}

theorem AssignOp.ne_ending {op : AssignOp} (h : AssignOp.ofToken? kind = some op) :
    kind ≠ .ending := by
  rintro rfl
  cases h

theorem UnaryOp.ne_ending {op : UnaryOp} (h : UnaryOp.ofToken? kind = some op) :
    kind ≠ .ending := by
  rintro rfl
  cases h

theorem UpdateOp.ne_ending {op : UpdateOp} (h : UpdateOp.ofToken? kind = some op) :
    kind ≠ .ending := by
  rintro rfl
  cases h

theorem Tier.ne_ending {t : Tier} {joint : Joint} (h : t.joint? kind = some joint) :
    kind ≠ .ending := by
  rintro rfl
  cases t <;> cases h

end NotEnding

namespace Read

variable {fuel spare : Nat}

theorem moves_parameters : ∀ fuel, Moves fuel 1 0 0 (parameters fuel)
  | 0 => moves_exhausted (by decide)
  | fuel + 1 => by
      unfold parameters
      refine Moves.call ((moves_eat _).bind fun _ => .ite (moves_pure _)
        (moves_identifier.bind fun _ => (moves_eat _).bind fun _ => .ite
          (((moves_parameters fuel).ease (by decide)).bind fun _ => moves_pure _)
          ((moves_symbol _).bind fun _ => moves_pure _)))

/-! ## The functions of the grammar -/

/-- How the functions of the parser move, for one bound: the calls they need besides those for the
tokens ahead, the tokens they take at least, and the levels they leave. -/
structure MovesAll (fuel : Nat) : Prop where
  statement : Moves fuel 20 1 0 (statement fuel)
  statementHere : Moves fuel 19 1 0 (statementHere fuel)
  block : Moves fuel 1 1 0 (block fuel)
  blockRest : Moves fuel 21 0 0 (blockRest fuel)
  declaration : Moves fuel 1 1 0 (declaration fuel)
  declarators : ∀ kind name loc, Moves fuel 1 0 0 (declarators fuel kind name loc)
  forHead : Moves fuel 20 0 0 (forHead fuel)
  forRest : ∀ init, Moves fuel 1 0 0 (forRest fuel init)
  forInRest : ∀ kind name, Moves fuel 19 0 0 (forInRest fuel kind name)
  tryRest : Moves fuel 2 0 0 (tryRest fuel)
  functionRest : ∀ name loc, Moves fuel 1 0 0 (functionRest fuel name loc)
  assignment : Moves fuel 18 1 0 (assignment fuel)
  conditional : Moves fuel 17 1 0 (conditional fuel)
  tier : ∀ t, Moves fuel (t.rank + 1) 1 0 (tier fuel t)
  operand : ∀ t, Moves fuel t.rank 1 0 (operand fuel t)
  tierRest : ∀ t left links, Moves fuel 1 0 links (tierRest fuel t left links)
  unary : Moves fuel 4 1 0 (unary fuel)
  postfixUpdate : Moves fuel 3 1 0 (postfixUpdate fuel)
  callMember : Moves fuel 2 1 0 (callMember fuel)
  callMemberRest : ∀ e links, Moves fuel 1 0 links (callMemberRest fuel e links)
  expressions : ∀ close, Moves fuel 19 0 0 (expressions fuel close)
  primary : Moves fuel 1 1 0 (primary fuel)
  properties : Moves fuel 2 0 0 (properties fuel)
  property : Moves fuel 1 1 0 (property fuel)

theorem movesAll_zero : MovesAll 0 := by
  constructor
  case operand => exact fun t => moves_exhausted t.rank_pos
  all_goals
    intros
    exact moves_exhausted (by omega)

/-! ### Expressions -/

theorem moves_assignment (ih : MovesAll fuel) :
    Moves (fuel + 1) 18 1 0 (assignment (fuel + 1)) := by
  unfold assignment
  refine Moves.call (.enter (ih.conditional.bind fun target => moves_seen fun t => ?_))
  split
  · exact .leave (moves_pure target t)
  · rename_i op hop
    split
    · exact (movesOn_skip (AssignOp.ne_ending hop)).bind fun _ =>
        (ih.assignment.ease (by decide)).bind fun _ => .leave (moves_pure _)
    · exact moves_failThen (by simp) t

theorem moves_conditional (ih : MovesAll fuel) :
    Moves (fuel + 1) 17 1 0 (conditional (fuel + 1)) := by
  unfold conditional
  exact Moves.call ((ih.tier .or).bind fun _ => (moves_eat _).bind fun _ => .ite
    ((ih.assignment.ease (by decide)).bind fun _ => (moves_symbol _).bind fun _ =>
      (ih.assignment.ease (by decide)).bind fun _ => moves_pure _)
    (moves_pure _))

theorem moves_tier (ih : MovesAll fuel) (t : Tier) :
    Moves (fuel + 1) (t.rank + 1) 1 0 (tier (fuel + 1) t) := by
  unfold tier
  -- the operand takes a token, so the rest of the chain may start anew
  exact Moves.call ((ih.operand t).bind fun left => (ih.tierRest t left 0).ease (by omega))

theorem moves_operand (ih : MovesAll fuel) (t : Tier) :
    Moves (fuel + 1) t.rank 1 0 (operand (fuel + 1) t) := by
  unfold operand
  -- each tier is two calls behind the next weaker one
  split
  · rename_i stronger hstronger
    rw [Tier.rank_stronger hstronger]
    exact Moves.call (ih.tier stronger)
  · rename_i hstronger
    cases t with
    | multiplicative => exact Moves.call ih.unary
    | _ => cases hstronger

theorem moves_tierRest (ih : MovesAll fuel) (t : Tier) (left : Expr) (links : Nat) :
    Moves (fuel + 1) 1 0 links (tierRest (fuel + 1) t left links) := by
  unfold tierRest
  refine Moves.call (moves_seen fun token => ?_)
  split
  · exact .leave (moves_pure left token)
  · rename_i joint hjoint
    exact (movesOn_skip (Tier.ne_ending hjoint)).bind fun _ => .enter <|
      ((ih.operand t).ease (by cases t <;> decide)).bind fun _ =>
        (ih.tierRest t _ _).ease (by omega)

theorem moves_updateOf (op : UpdateOp) (inFront : Bool) (target : Expr) (loc : Option Location) :
    Moves fuel spare 0 0 (updateOf op inFront target loc) :=
  .ite (moves_pure _) (moves_fail (by simp))

theorem moves_unary (ih : MovesAll fuel) : Moves (fuel + 1) 4 1 0 (unary (fuel + 1)) := by
  unfold unary
  refine Moves.call (moves_seen fun token => ?_)
  split
  · rename_i op _ hop
    exact (movesOn_skip (UnaryOp.ne_ending hop)).bind fun _ => .enter <|
      (ih.unary.ease (by decide)).bind fun _ => .leave (moves_pure _)
  · rename_i op _ hop
    exact (movesOn_skip (UpdateOp.ne_ending hop)).bind fun _ => .enter <|
      (ih.unary.ease (by decide)).bind fun _ => .leave (moves_updateOf _ _ _ _)
  · exact ih.postfixUpdate token

theorem moves_postfixUpdate (ih : MovesAll fuel) :
    Moves (fuel + 1) 3 1 0 (postfixUpdate (fuel + 1)) := by
  unfold postfixUpdate
  refine Moves.call (ih.callMember.bind fun e => moves_peek.bind fun token => ?_)
  split
  · exact .ite (moves_pure _) (moves_skip.bind fun _ => moves_updateOf _ _ _ _)
  · exact moves_pure _

theorem moves_callMember (ih : MovesAll fuel) :
    Moves (fuel + 1) 2 1 0 (callMember (fuel + 1)) := by
  unfold callMember
  exact Moves.call (ih.primary.bind fun e => (ih.callMemberRest e 0).ease (by decide))

theorem moves_callMemberRest (ih : MovesAll fuel) (e : Expr) (links : Nat) :
    Moves (fuel + 1) 1 0 links (callMemberRest (fuel + 1) e links) := by
  unfold callMemberRest
  refine Moves.call (moves_seen fun token => ?_)
  -- a level is entered before the token is taken, and the reading still stands on it
  split
  · rename_i htoken
    exact .enter <| (movesOn_skip (by simp [htoken])).bind fun _ => moves_memberName.bind fun _ =>
      (ih.callMemberRest _ _).ease (by decide)
  · rename_i htoken
    exact .enter <| (movesOn_skip (by simp [htoken])).bind fun _ =>
      (ih.assignment.ease (by decide)).bind fun _ => (moves_symbol _).bind fun _ =>
        (ih.callMemberRest _ _).ease (by decide)
  · rename_i htoken
    exact .enter <| (movesOn_skip (by simp [htoken])).bind fun _ =>
      ((ih.expressions _).ease (by decide)).bind fun _ =>
        (ih.callMemberRest _ _).ease (by decide)
  · exact .leave (moves_pure e token)

theorem moves_expressions (ih : MovesAll fuel) (close : Symbol) :
    Moves (fuel + 1) 19 0 0 (expressions (fuel + 1) close) := by
  have hclose : TokenKind.symbol close ≠ .ending := by simp
  unfold expressions
  exact Moves.call ((moves_eat _).bind fun _ => .ite (moves_pure _) (ih.assignment.bind fun _ =>
    (moves_eat _).bind fun _ => .ite
      (((ih.expressions close).ease (by decide)).bind fun _ => moves_pure _)
      ((moves_expect hclose _).bind fun _ => moves_pure _)))

/-- No expression starts with the ending. -/
theorem moves_primary (ih : MovesAll fuel) : Moves (fuel + 1) 1 1 0 (primary (fuel + 1)) := by
  have hfunction (name : Option String) (loc : Option Location) : Moves fuel 24 0 0 (do
      return .function loc (← functionRest fuel name loc) : Read Expr) :=
    ((ih.functionRest name loc).ease (by decide)).bind fun _ => moves_pure _
  unfold primary
  refine Moves.call (moves_taken (fun token htoken => ?_) fun token _ => ?_)
  · dsimp only
    rw [htoken]
    exact moves_throw (by simp)
  dsimp only
  split
  · exact moves_pure _
  · exact moves_pure _
  · exact moves_pure _
  · exact moves_pure _
  · exact moves_pure _
  · exact moves_pure _
  · exact moves_pure _
  · exact moves_pure _
  · refine moves_peek.bind fun next => ?_
    split
    · exact moves_skip.bind fun _ => hfunction _ _
    · exact hfunction _ _
  · exact (ih.assignment.ease (by decide)).bind fun _ => (moves_symbol _).bind fun _ => moves_pure _
  · exact ((ih.expressions _).ease (by decide)).bind fun _ => moves_pure _
  · exact (ih.properties.ease (by decide)).bind fun _ => moves_pure _
  · exact moves_throw (by simp)
  · exact moves_throw (by simp)

theorem moves_properties (ih : MovesAll fuel) :
    Moves (fuel + 1) 2 0 0 (properties (fuel + 1)) := by
  have hclose : TokenKind.symbol .rightBrace ≠ .ending := by simp
  unfold properties
  exact Moves.call ((moves_eat _).bind fun _ => .ite (moves_pure _) (ih.property.bind fun _ =>
    (moves_eat _).bind fun _ => .ite
      ((ih.properties.ease (by decide)).bind fun _ => moves_pure _)
      ((moves_expect hclose _).bind fun _ => moves_pure _)))

theorem moves_property (ih : MovesAll fuel) : Moves (fuel + 1) 1 1 0 (property (fuel + 1)) := by
  have hfunction (key : String) (role : FunctionRole) (name : Option String)
      (loc : Option Location) : Moves fuel 24 0 0 (do
      return .function key role (← functionRest fuel name loc) loc : Read Property) :=
    ((ih.functionRest name loc).ease (by decide)).bind fun _ => moves_pure _
  unfold property
  refine Moves.call (moves_loc.bind fun loc => moves_propertyKey.bind fun key =>
    moves_peek.bind fun token => ?_)
  dsimp only
  split
  · exact moves_propertyKey.bind fun name => (hfunction _ _ _ _).ease (by decide)
  · split
    · exact moves_skip.bind fun _ => (ih.assignment.ease (by decide)).bind fun _ => moves_pure _
    · exact hfunction _ _ _ _
    · split
      · exact moves_pure _
      · exact moves_fail (by simp)

/-! ### Statements -/

theorem moves_functionRest (ih : MovesAll fuel) (name : Option String)
    (loc : Option Location) : Moves (fuel + 1) 1 0 0 (functionRest (fuel + 1) name loc) := by
  unfold functionRest
  exact Moves.call ((moves_symbol _).bind fun _ =>
    ((moves_parameters fuel).ease (by decide)).bind fun _ =>
      (ih.block.ease (by decide)).bind fun _ => moves_pure _)

theorem moves_statement (ih : MovesAll fuel) :
    Moves (fuel + 1) 20 1 0 (statement (fuel + 1)) := by
  unfold statement
  exact Moves.call (.enter (ih.statementHere.bind fun _ => .leave (moves_pure _)))

theorem moves_block (ih : MovesAll fuel) : Moves (fuel + 1) 1 1 0 (block (fuel + 1)) := by
  unfold block
  exact Moves.call ((moves_symbol _).bind fun _ => ih.blockRest.ease (by decide))

/-- At the ending, a block goes no further. -/
theorem moves_blockRest (ih : MovesAll fuel) :
    Moves (fuel + 1) 21 0 0 (blockRest (fuel + 1)) := by
  unfold blockRest
  exact Moves.call ((moves_eat _).bind fun _ => .ite (moves_pure _) ((moves_isAt _).bind fun _ =>
    .ite (moves_failThen (by simp))
      (ih.statement.bind fun _ => (ih.blockRest.ease (by decide)).bind fun _ => moves_pure _)))

theorem moves_declaration (ih : MovesAll fuel) :
    Moves (fuel + 1) 1 1 0 (declaration (fuel + 1)) := by
  unfold declaration
  refine Moves.call (moves_declKind?.bind fun kind => ?_)
  split
  · exact moves_expected _
  · exact moves_loc.bind fun _ => moves_identifier.bind fun _ =>
      ((ih.declarators _ _ _).ease (by decide)).bind fun _ => moves_pure _

theorem moves_declarators (ih : MovesAll fuel) (kind : DeclKind) (name : String)
    (loc : Location) : Moves (fuel + 1) 1 0 0 (declarators (fuel + 1) kind name loc) := by
  -- the declarator, and those after it
  have hrest (spare : Nat) (init : Option Expr) : Moves fuel spare 0 0 (do
      if ← eat (.symbol .comma) then
        let next ← Read.loc
        let other ← identifier
        let rest ← declarators fuel kind other next
        return .mk name init false (some loc) :: rest
      return [Declarator.mk name init false (some loc)] : Read (List Declarator)) :=
    (moves_eat _).bind fun _ => .ite
      (moves_loc.bind fun _ => moves_identifier.bind fun _ =>
        ((ih.declarators _ _ _).ease (by omega)).bind fun _ => moves_pure _)
      (moves_pure _)
  -- an initializer stands behind the sign that was taken for it
  unfold declarators
  exact Moves.call (moves_eaten (by simp)
    ((Moves.map (ih.assignment.ease (by decide))).bind fun init =>
      .ite (moves_failThen (by simp)) (hrest _ init))
    ((moves_pure none).bind fun init => .ite (moves_failThen (by simp)) (hrest _ init)))

theorem moves_forHead (ih : MovesAll fuel) : Moves (fuel + 1) 20 0 0 (forHead (fuel + 1)) := by
  unfold forHead
  refine Moves.call ((moves_isAt _).bind fun _ => .ite ((ih.forRest none).ease (by decide)) ?_)
  refine moves_declKind?.bind fun kind => ?_
  split
  · exact moves_loc.bind fun _ => moves_identifier.bind fun _ => (moves_eat _).bind fun _ => .ite
      ((ih.forInRest _ _).ease (by decide))
      (((ih.declarators _ _ _).ease (by decide)).bind fun _ => (ih.forRest _).ease (by decide))
  · refine moves_bareForIn?.bind fun name => ?_
    split
    · exact ih.forInRest none _
    · exact (ih.assignment.ease (by decide)).bind fun _ => (ih.forRest _).ease (by decide)

theorem moves_forRest (ih : MovesAll fuel) (init : Option Stmt) :
    Moves (fuel + 1) 1 0 0 (forRest (fuel + 1) init) := by
  -- the body, after a test and a step that may be missing
  have hbody (spare : Nat) (test step : Option Expr) : Moves fuel spare 0 0 (do
        symbol .rightParen
        return .for init test step (← statement fuel) : Read Stmt) :=
    (moves_symbol _).bind fun _ => (ih.statement.ease (by omega)).bind fun _ => moves_pure _
  have hstep (spare : Nat) (test : Option Expr) : Moves fuel spare 0 0 (do
      symbol .semicolon
      let step ← if ← isAt (.symbol .rightParen) then pure none else some <$> assignment fuel
      symbol .rightParen
      return .for init test step (← statement fuel) : Read Stmt) :=
    (moves_symbol _).bind fun _ => (moves_isAt _).bind fun _ => .ite
      ((moves_pure none).bind fun step => hbody _ test step)
      ((Moves.map (ih.assignment.ease (by omega))).bind fun step => hbody _ test step)
  unfold forRest
  exact Moves.call ((moves_symbol _).bind fun _ => (moves_isAt _).bind fun _ => .ite
    ((moves_pure none).bind fun test => hstep _ test)
    ((Moves.map (ih.assignment.ease (by decide))).bind fun test => hstep _ test))

theorem moves_forInRest (ih : MovesAll fuel) (kind : Option DeclKind) (name : String) :
    Moves (fuel + 1) 19 0 0 (forInRest (fuel + 1) kind name) := by
  unfold forInRest
  exact Moves.call (ih.assignment.bind fun _ => (moves_symbol _).bind fun _ =>
    (ih.statement.ease (by decide)).bind fun _ => moves_pure _)

theorem moves_tryRest (ih : MovesAll fuel) : Moves (fuel + 1) 2 0 0 (tryRest (fuel + 1)) := by
  have hhandler (spare : Nat) (body : List Stmt) (param : Option String) :
      Moves fuel (spare + 1) 0 0 (do
        return .try body param (← block fuel) : Read Stmt) :=
    (ih.block.ease (by omega)).bind fun _ => moves_pure _
  unfold tryRest
  exact Moves.call (ih.block.bind fun body => (moves_eat _).bind fun _ => .ite
    ((moves_eat _).bind fun _ => .ite
      (moves_identifier.bind fun _ => (moves_symbol _).bind fun _ => hhandler _ body _)
      (hhandler _ body none))
    (moves_failThen (by simp)))

theorem moves_statementHere (ih : MovesAll fuel) :
    Moves (fuel + 1) 19 1 0 (statementHere (fuel + 1)) := by
  have hended (spare : Nat) (s : Stmt) : Moves fuel spare 0 0 (do
      semicolon
      return s : Read Stmt) := moves_semicolon.bind fun _ => moves_pure _
  unfold statementHere
  refine Moves.call (moves_seen fun token => ?_)
  split
  · exact ((ih.block.ease (by decide)).bind fun _ => moves_pure _) token
  · rename_i htoken
    exact (movesOn_skip (by simp [htoken])).bind fun _ => moves_pure _
  · exact ((ih.declaration.ease (by decide)).bind fun s => hended _ s) token
  · exact ((ih.declaration.ease (by decide)).bind fun s => hended _ s) token
  · exact ((ih.declaration.ease (by decide)).bind fun s => hended _ s) token
  · rename_i htoken
    exact (movesOn_skip (by simp [htoken])).bind fun _ => moves_identifier.bind fun _ =>
      ((ih.functionRest _ _).ease (by decide)).bind fun _ => moves_pure _
  · rename_i htoken
    exact (movesOn_skip (by simp [htoken])).bind fun _ => (moves_isAt _).bind fun _ =>
      moves_mayEnd.bind fun _ => .ite
        ((moves_pure none).bind fun value => hended _ _)
        ((Moves.map (ih.assignment.ease (by decide))).bind fun value => hended _ _)
  · rename_i htoken
    exact (movesOn_skip (by simp [htoken])).bind fun _ => (moves_symbol _).bind fun _ =>
      (ih.assignment.ease (by decide)).bind fun _ => (moves_symbol _).bind fun _ =>
        (ih.statement.ease (by decide)).bind fun _ => (moves_eat _).bind fun _ => .ite
          ((ih.statement.ease (by decide)).bind fun _ => moves_pure _) (moves_pure _)
  · rename_i htoken
    exact (movesOn_skip (by simp [htoken])).bind fun _ => (moves_symbol _).bind fun _ =>
      (ih.assignment.ease (by decide)).bind fun _ => (moves_symbol _).bind fun _ =>
        (ih.statement.ease (by decide)).bind fun _ => moves_pure _
  · rename_i htoken
    exact (movesOn_skip (by simp [htoken])).bind fun _ => (moves_symbol _).bind fun _ =>
      ih.forHead.ease (by decide)
  · rename_i htoken
    exact (movesOn_skip (by simp [htoken])).bind fun _ => hended _ _
  · rename_i htoken
    exact (movesOn_skip (by simp [htoken])).bind fun _ => hended _ _
  · rename_i htoken
    exact (movesOn_skip (by simp [htoken])).bind fun _ => moves_peek.bind fun _ => .ite
      (moves_failThen (by simp)) ((ih.assignment.ease (by decide)).bind fun _ => hended _ _)
  · rename_i htoken
    exact (movesOn_skip (by simp [htoken])).bind fun _ => ih.tryRest.ease (by decide)
  · exact (ih.assignment.bind fun _ => hended _ _) token

/-- How every function of the parser moves. -/
theorem movesAll : ∀ fuel, MovesAll fuel
  | 0 => movesAll_zero
  | fuel + 1 =>
    have ih := movesAll fuel
    { statement := moves_statement ih
      statementHere := moves_statementHere ih
      block := moves_block ih
      blockRest := moves_blockRest ih
      declaration := moves_declaration ih
      declarators := moves_declarators ih
      forHead := moves_forHead ih
      forRest := moves_forRest ih
      forInRest := moves_forInRest ih
      tryRest := moves_tryRest ih
      functionRest := moves_functionRest ih
      assignment := moves_assignment ih
      conditional := moves_conditional ih
      tier := moves_tier ih
      operand := moves_operand ih
      tierRest := moves_tierRest ih
      unary := moves_unary ih
      postfixUpdate := moves_postfixUpdate ih
      callMember := moves_callMember ih
      callMemberRest := moves_callMemberRest ih
      expressions := moves_expressions ih
      primary := moves_primary ih
      properties := moves_properties ih
      property := moves_property ih }

theorem moves_program : ∀ fuel, Moves fuel 21 0 0 (program fuel)
  | 0 => moves_exhausted (by decide)
  | fuel + 1 => by
      unfold program
      exact Moves.call ((moves_isAt _).bind fun _ => .ite (moves_pure _)
        ((movesAll fuel).statement.bind fun _ =>
          ((moves_program fuel).ease (by decide)).bind fun _ => moves_pure _))

/-! ## Readings of a text -/

/-- Where the reading succeeds among the tokens, it has taken one or more of them, it stands on
one of them, and it has left the levels that it entered. -/
def Advances (tokens : List Token) (x : Read α) : Prop :=
  ∀ r a r', left r <:+ tokens → x r = .ok (a, r') →
    left r' <:+ left r ∧ r'.ahead.length < r.ahead.length ∧ r'.depth = r.depth

theorem Moves.advances {x : Read α} {tokens : List Token} (hx : Moves fuel spare 1 0 x)
    (hends : EndsOnce tokens) : Advances tokens x := by
  intro r a r' hr hrun
  have hleft : EndsOnce (left r) := hends.of_suffix hr (List.cons_ne_nil _ _)
  exact (hx r.here r rfl hleft (Nat.zero_le _)).ok a r' hrun

end Read

/-- Reading these tokens comes to its end, and it goes on and keeps count on the way. -/
structure Program.Progresses (tokens : List Token) : Prop where
  /-- There is a program or a refusal: the bound on the calls is not reached. -/
  returns : Program.ofTokens tokens ≠ .error .exhausted
  statement : ∀ fuel, Read.Advances tokens (Read.statement fuel)
  assignment : ∀ fuel, Read.Advances tokens (Read.assignment fuel)
  unary : ∀ fuel, Read.Advances tokens (Read.unary fuel)
  callMember : ∀ fuel, Read.Advances tokens (Read.callMember fuel)
  property : ∀ fuel, Read.Advances tokens (Read.property fuel)
  /-- The reading is made of steps that take a token, enter a level or leave some. -/
  steps : ∀ fuel here ahead, tokens = here :: ahead →
    ∃ passed, Read.Passes (Read.program fuel) ⟨here, ahead, 0⟩ passed
  /-- However it is made of steps, no reader behind one of them has left the tokens or counts more
  levels than the limit. -/
  within : ∀ fuel here ahead passed, tokens = here :: ahead →
    Read.Passes (Read.program fuel) ⟨here, ahead, 0⟩ passed →
    ∀ r ∈ passed, Read.left r <:+ tokens ∧ r.depth ≤ maxDepth

/-- With a bound of 24 calls for every token, and some more, the reading does not reach it. -/
theorem Program.ofTokens_ne_exhausted {tokens : List Token} (hends : EndsOnce tokens) :
    Program.ofTokens tokens ≠ .error .exhausted := by
  intro h
  unfold Program.ofTokens at h
  split at h
  · exact hends
  · rename_i here ahead
    replace h : (Read.program (24 * (ahead.length + 2)) ⟨here, ahead, 0⟩ >>= fun p =>
      if maxDepth < nestingDepth p.1 then throw (.tooDeep maxDepth none)
      else pure p.1 : Except ParseError Program) = .error .exhausted := h
    -- the two tokens that the bound counts besides are more than a program needs to spare
    have hmoves := Read.moves_program (24 * (ahead.length + 2)) here ⟨here, ahead, 0⟩ rfl hends
      (Nat.zero_le _)
    cases hrun : Read.program (24 * (ahead.length + 2)) ⟨here, ahead, 0⟩ with
    | error e =>
        have hspare : 24 * ahead.length + 21 ≤ 24 * (ahead.length + 2) := by omega
        rw [hrun] at h
        cases h
        exact hmoves.error .exhausted hrun hspare rfl
    | ok p =>
        rw [hrun] at h
        replace h : (if maxDepth < nestingDepth p.1 then throw (.tooDeep maxDepth none)
          else pure p.1 : Except ParseError Program) = .error .exhausted := h
        split at h <;> cases h

/-- **Reading tokens comes to its end.** Where the ending is the last token and no other, the
parser gives a program or a refusal. What it reads takes tokens and leaves the levels it entered,
and it never stands behind the ending or below the limit. -/
theorem Program.progresses {tokens : List Token} (hends : EndsOnce tokens) :
    Program.Progresses tokens where
  returns := Program.ofTokens_ne_exhausted hends
  statement fuel := (Read.movesAll fuel).statement.advances hends
  assignment fuel := (Read.movesAll fuel).assignment.advances hends
  unary fuel := (Read.movesAll fuel).unary.advances hends
  callMember fuel := (Read.movesAll fuel).callMember.advances hends
  property fuel := (Read.movesAll fuel).property.advances hends
  steps := by
    rintro fuel here ahead rfl
    exact (Read.moves_program fuel here ⟨here, ahead, 0⟩ rfl hends (Nat.zero_le _)).passes
  within := by
    rintro fuel here ahead passed rfl hpassed
    exact hpassed.within (List.suffix_refl _) (Nat.zero_le _)

/-- The tokens of `f(a)`. -/
def callTokens : List Token :=
  [⟨.identifier "f", ⟨1, 1⟩, false⟩, ⟨.symbol .leftParen, ⟨1, 2⟩, false⟩,
    ⟨.identifier "a", ⟨1, 3⟩, false⟩, ⟨.symbol .rightParen, ⟨1, 4⟩, false⟩,
    ⟨.ending, ⟨1, 5⟩, false⟩]

theorem Program.progresses_call : EndsOnce callTokens ∧ Program.Progresses callTokens := by
  have hends : EndsOnce callTokens := by decide
  exact ⟨hends, Program.progresses hends⟩

end Lineage
