import Lineage.Machine.Builtin
import Lineage.Proofs.Everywhere
import Lineage.Syntax.Parse

/-!
# What the parser builds

A parsed program is plain: it holds none of the forms that annotation generates.
The names of its members are words, and no word is an index.

Every function of the parser reads tokens and gives a part of a program. What it
gives is plain as long as the tokens it reads are words where they claim to be,
and what it leaves are tokens of the same text.
-/

namespace Lineage

/-! ## Words -/

/-- A name starts with a letter, and an index with a digit or a plus sign. -/
theorem indexOfKey?_word {c : Char} {cs : List Char} (hd : c.isDigit = false) (hc : c ≠ '+') :
    indexOfKey? (String.ofList (c :: cs)) = none := by
  unfold indexOfKey?
  rw [String.toList_ofList]
  dsimp only
  split
  · rfl
  · rename_i hzero
    rw [if_pos]
    split
    · rename_i heq
      exact absurd (List.cons.inj heq).1 hc
    · simp [hd]

theorem indexOfKey?_keyword (k : Keyword) : indexOfKey? k.text = none := by
  cases k <;> rfl

/-- An identifier is no index. -/
def Token.Named (t : Token) : Prop := ∀ name, t.kind = .identifier name → indexOfKey? name = none

namespace Token

theorem startsName_plus : startsName '+' = false := by decide

/-- A token that is taken from a text is named like a word if it is one. -/
theorem take_named {chars : List Char} {m : Mark} {kind : TokenKind} {left : Remaining}
    (h : take chars m = .ok (kind, left)) (name : String) (hk : kind = .identifier name) :
    indexOfKey? name = none := by
  subst hk
  unfold take at h
  split at h
  · cases h
  · rename_i c rest
    dsimp only at h
    split at h
    · unfold takeNumber at h
      dsimp only at h
      split at h <;> cases h
    -- what begins a word is no digit and no sign, so the word is no index
    · rename_i hnumber
      split at h
      · rename_i hstart
        have hd : c.isDigit = false := by
          cases hd : c.isDigit with
          | false => rfl
          | true => exact absurd (by simp [hd]) hnumber
        have hc : c ≠ '+' := by
          rintro rfl
          rw [startsName_plus] at hstart
          cases hstart
        injection h with h
        injection h with hword _
        unfold ofWord at hword
        split at hword
        · cases hword
        · injection hword with hword
          rw [← hword]
          exact indexOfKey?_word hd hc
      · split at h
        · cases hs : stringChars c m.loc rest (m.after c) [] with
          | error e => rw [hs] at h; cases h
          | ok s => rw [hs] at h; cases h
        · unfold takeSymbol at h
          split at h <;> cases h

theorem next_named {r left : Remaining} {t : Token} (h : next r = .ok (t, left)) : t.Named := by
  unfold next at h
  cases hskip : skipBlanks r.chars r.mark with
  | error e => rw [hskip] at h; cases h
  | ok here =>
      rw [hskip] at h
      replace h : (do
        let taken ← take here.chars ⟨here.mark.loc, false⟩
        return (⟨taken.1, here.mark.loc, here.mark.newline⟩, taken.2) :
          Except ParseError (Token × Remaining)) = .ok (t, left) := h
      cases htake : take here.chars ⟨here.mark.loc, false⟩ with
      | error e =>
          rw [htake] at h
          cases h
      | ok taken =>
          rw [htake] at h
          cases h
          exact take_named htake

theorem scanFrom_named : ∀ {limit : Nat} {r : Remaining} {ts : List Token},
    scanFrom limit r = .ok ts → ∀ t ∈ ts, t.Named
  | 0, _, _, h => by
      cases h
      simp
  | limit + 1, r, ts, h => by
      unfold scanFrom at h
      cases hn : next r with
      | error e => rw [hn] at h; cases h
      | ok p =>
          obtain ⟨t, left⟩ := p
          rw [hn] at h
          have ht := next_named hn
          replace h : (if t.kind = .ending then pure [t] else do
            let tokens ← scanFrom limit left
            return t :: tokens : Except ParseError (List Token)) = .ok ts := h
          split at h
          · cases h
            simpa using ht
          · cases hrest : scanFrom limit left with
            | error e => rw [hrest] at h; cases h
            | ok rest =>
                rw [hrest] at h
                cases h
                simpa using ⟨ht, scanFrom_named hrest⟩

end Token

/-! ## Reading -/

namespace Read

/-- All tokens of a reading are named like words where they claim to be. -/
def Tokens (r : Reader) : Prop := r.here.Named ∧ ∀ t ∈ r.ahead, t.Named

variable {α β : Type} {x : Read α} {P Q : α → Prop}

/-- What a reading gives, and that it stays among the tokens of the text. -/
def Gives (x : Read α) (Q : α → Prop) : Prop :=
  ∀ r a r', Tokens r → x r = .ok (a, r') → Tokens r' ∧ Q a

theorem Gives.mono (hx : Gives x P) (h : ∀ a, P a → Q a) : Gives x Q :=
  fun r a r' hr hx' => (hx r a r' hr hx').imp_right (h a)

theorem Gives.bind {f : α → Read β} {Q : β → Prop} (hx : Gives x P)
    (hf : ∀ a, P a → Gives (f a) Q) : Gives (x >>= f) Q := by
  intro r b r'' hr h
  replace h : (x r >>= fun p => f p.1 p.2) = .ok (b, r'') := h
  cases hrun : x r with
  | error e => rw [hrun] at h; cases h
  | ok p =>
      obtain ⟨a, r'⟩ := p
      rw [hrun] at h
      obtain ⟨hr', ha⟩ := hx r a r' hr hrun
      exact hf a ha r' b r'' hr' h

theorem gives_pure {a : α} (h : Q a) : Gives (pure a) Q := by
  rintro r _ _ hr ⟨rfl⟩
  exact ⟨hr, h⟩

theorem gives_throw {e : ParseError} : Gives (throw e : Read α) Q := by
  intro r a r' _ h
  cases h

theorem gives_fail {reason : Location → ParseError} : Gives (fail reason : Read α) Q := by
  intro r a r' _ h
  cases h

/-- Nothing follows a refusal. -/
theorem gives_failThen {reason : Location → ParseError} {f : α → Read β} {Q : β → Prop} :
    Gives (fail reason >>= f) Q := by
  intro r b r' _ h
  cases h

/-- What is looked at is a token of the text. -/
theorem gives_peek : Gives peek Token.Named := by
  rintro r _ _ hr ⟨rfl⟩
  exact ⟨hr, hr.1⟩

theorem gives_advance : Gives advance Token.Named := by
  intro r t r' hr h
  unfold advance at h
  split at h
  · cases h
    exact ⟨hr, hr.1⟩
  · rename_i u ahead heq
    cases h
    have hall := hr.2
    rw [heq] at hall
    exact ⟨⟨hall u (by simp), fun v hv => hall v (by simp [hv])⟩, hr.1⟩

/-- A reading that does not say what it gives. -/
theorem Gives.any (hx : Gives x P) : Gives x fun _ => True := hx.mono fun _ _ => trivial

theorem Gives.map {f : α → β} {Q : β → Prop} (hx : Gives x fun a => Q (f a)) :
    Gives (f <$> x) Q := by
  rw [map_eq_pure_bind]
  exact hx.bind fun a ha => gives_pure ha

theorem Gives.ite {c : Prop} [Decidable c] {y : Read α} (hx : Gives x Q) (hy : Gives y Q) :
    Gives (if c then x else y) Q := by
  split
  · exact hx
  · exact hy

theorem gives_discard (hx : Gives x P) : Gives (discard x) fun _ => True :=
  Gives.map hx.any

theorem gives_loc : Gives loc fun _ => True := gives_peek.bind fun _ _ => gives_pure trivial

theorem gives_isAt (kind : TokenKind) : Gives (isAt kind) fun _ => True :=
  gives_peek.bind fun _ _ => gives_pure trivial

theorem gives_eat (kind : TokenKind) : Gives (eat kind) fun _ => True := by
  refine (gives_isAt kind).bind fun here _ => ?_
  split
  · exact (gives_discard gives_advance).bind fun _ _ => gives_pure trivial
  · exact gives_pure trivial

theorem gives_expect (kind : TokenKind) (what : String) :
    Gives (expect kind what) fun _ => True := by
  refine (gives_eat kind).bind fun eaten _ => ?_
  split
  · exact gives_pure trivial
  · exact gives_peek.bind fun _ _ => gives_fail

theorem gives_symbol (s : Symbol) : Gives (symbol s) fun _ => True := gives_expect _ _

theorem gives_identifier : Gives identifier fun _ => True := by
  refine gives_peek.bind fun t _ => ?_
  split
  · exact (gives_discard gives_advance).bind fun _ _ => gives_pure trivial
  · exact gives_fail

theorem gives_mayEnd : Gives mayEnd fun _ => True := gives_peek.bind fun _ _ => gives_pure trivial

theorem gives_semicolon : Gives semicolon fun _ => True := by
  refine (gives_eat _).bind fun eaten _ => gives_mayEnd.bind fun ends _ => ?_
  exact .ite (gives_pure trivial) (gives_peek.bind fun _ _ => gives_fail)

theorem gives_enter : Gives enter fun _ => True := by
  intro r a r' hr h
  unfold enter at h
  replace h : (if maxDepth ≤ r.depth then fail (fun loc => .tooDeep maxDepth (some loc))
    else set { r with depth := r.depth + 1 } : Read Unit) r = .ok (a, r') := h
  split at h
  · cases h
  · cases h
    exact ⟨hr, trivial⟩

theorem gives_leave (levels : Nat) : Gives (leave levels) fun _ => True := by
  rintro r _ _ hr ⟨rfl⟩
  exact ⟨hr, trivial⟩

theorem gives_propertyKey : Gives propertyKey fun _ => True := by
  refine gives_advance.bind fun t _ => ?_
  split
  · exact gives_pure trivial
  · exact gives_pure trivial
  · exact gives_pure trivial
  · exact gives_pure trivial
  · exact gives_throw

/-- The name of a member is no index. -/
theorem gives_memberName : Gives memberName fun name => indexOfKey? name = none := by
  refine gives_advance.bind fun t ht => ?_
  split
  · rename_i name heq
    exact gives_pure (ht name heq)
  · exact gives_pure (indexOfKey?_keyword _)
  · exact gives_fail

theorem gives_declKind? : Gives declKind? fun _ => True := by
  refine gives_peek.bind fun t _ => ?_
  exact .ite ((gives_discard gives_advance).bind fun _ _ => gives_pure trivial)
    (gives_pure trivial)

theorem gives_bareForIn? : Gives bareForIn? fun _ => True := by
  have hget : Gives (get : Read Reader) fun _ => True := by
    rintro r _ _ hr ⟨rfl⟩
    exact ⟨hr, trivial⟩
  refine hget.bind fun r _ => ?_
  split
  · exact (gives_discard gives_advance).bind fun _ _ =>
      (gives_discard gives_advance).bind fun _ _ => gives_pure trivial
  · exact gives_pure trivial

theorem gives_parameters : ∀ fuel, Gives (parameters fuel) fun _ => True
  | 0 => gives_throw
  | fuel + 1 => by
      unfold parameters
      refine (gives_eat _).bind fun closed _ => .ite (gives_pure trivial) ?_
      refine gives_identifier.bind fun name _ => (gives_eat _).bind fun more _ => .ite ?_ ?_
      · exact (gives_parameters fuel).bind fun names _ => gives_pure trivial
      · exact (gives_symbol _).bind fun _ _ => gives_pure trivial

end Read

/-! ## Plain programs -/

/-- What is true of each node of a program that was read. -/
def Node.Plain : Node → Prop
  | .expr (.member _ _ name) => indexOfKey? name = none
  | .expr (.assign _ _ target _) | .expr (.update _ _ _ target) => target.isTarget
  | .expr (.operation ..) | .expr (.shadow ..) | .expr (.lastObject _) => False
  | .stmt (.trackParameters _) => False
  | .stmt (.declare _ ds) => ∀ d ∈ ds, ∃ name init loc, d = .mk name init false loc
  | _ => True

/-- An expression that was read. -/
abbrev Expr.Plain (e : Expr) : Prop := (Node.expr e).Everywhere Node.Plain

/-- A statement that was read. -/
abbrev Stmt.Plain (s : Stmt) : Prop := (Node.stmt s).Everywhere Node.Plain

/-- A declarator that was read. -/
structure Declarator.Plain (d : Declarator) : Prop where
  untracked : ∃ name init loc, d = .mk name init false loc
  init : ∀ e, d.init? = some e → e.Plain

/-- A property of an object literal that was read. -/
def Property.Plain (p : Property) : Prop := ∀ n ∈ Node.ofProperty p, n.Everywhere Node.Plain

namespace Read

/-- What the functions of the parser give, for one bound. -/
structure Spec (fuel : Nat) : Prop where
  statement : Gives (statement fuel) Stmt.Plain
  statementHere : Gives (statementHere fuel) Stmt.Plain
  block : Gives (block fuel) fun ss => ∀ s ∈ ss, s.Plain
  blockRest : Gives (blockRest fuel) fun ss => ∀ s ∈ ss, s.Plain
  declaration : Gives (declaration fuel) Stmt.Plain
  declarators : ∀ kind name loc, Gives (declarators fuel kind name loc) fun ds => ∀ d ∈ ds, d.Plain
  forHead : Gives (forHead fuel) Stmt.Plain
  forRest : ∀ init, (∀ s, init = some s → s.Plain) → Gives (forRest fuel init) Stmt.Plain
  forInRest : ∀ kind name, Gives (forInRest fuel kind name) Stmt.Plain
  tryRest : Gives (tryRest fuel) Stmt.Plain
  functionRest : ∀ name loc, Gives (functionRest fuel name loc) fun f => ∀ s ∈ f.body, s.Plain
  assignment : Gives (assignment fuel) Expr.Plain
  conditional : Gives (conditional fuel) Expr.Plain
  tier : ∀ t, Gives (tier fuel t) Expr.Plain
  operand : ∀ t, Gives (operand fuel t) Expr.Plain
  tierRest : ∀ t left links, left.Plain → Gives (tierRest fuel t left links) Expr.Plain
  unary : Gives (unary fuel) Expr.Plain
  postfixUpdate : Gives (postfixUpdate fuel) Expr.Plain
  callMember : Gives (callMember fuel) Expr.Plain
  callMemberRest : ∀ e links, e.Plain → Gives (callMemberRest fuel e links) Expr.Plain
  expressions : ∀ close, Gives (expressions fuel close) fun es => ∀ e ∈ es, e.Plain
  primary : Gives (primary fuel) Expr.Plain
  properties : Gives (properties fuel) fun ps => ∀ p ∈ ps, p.Plain
  property : Gives (property fuel) Property.Plain

theorem spec_zero : Spec 0 := by
  constructor <;> intros <;> exact gives_throw

variable {fuel : Nat}

/-! ### Expressions -/

theorem assignment_succ (ih : Spec fuel) : Gives (assignment (fuel + 1)) Expr.Plain := by
  unfold assignment
  refine gives_enter.bind fun _ _ => ih.conditional.bind fun target ht =>
    gives_peek.bind fun t _ => ?_
  split
  · exact (gives_leave 1).bind fun _ _ => gives_pure ht
  · rename_i op _
    have hrest (htarget : target.isTarget) : Gives (do
        discard advance
        let value ← assignment fuel
        leave 1
        return Expr.assign target.loc op target value) Expr.Plain :=
      (gives_discard gives_advance).bind fun _ _ => ih.assignment.bind fun value hv =>
        (gives_leave 1).bind fun _ _ =>
          gives_pure (.intro htarget (by simp [Node.children, ht, hv]))
    split
    · rename_i htarget
      exact hrest htarget
    · exact gives_failThen

theorem conditional_succ (ih : Spec fuel) : Gives (conditional (fuel + 1)) Expr.Plain := by
  unfold conditional
  refine (ih.tier .or).bind fun test ht => (gives_eat _).bind fun _ _ => .ite ?_ (gives_pure ht)
  refine ih.assignment.bind fun yes hy => (gives_symbol _).bind fun _ _ =>
    ih.assignment.bind fun no hn => gives_pure (.intro trivial ?_)
  simp [Node.children, ht, hy, hn]

theorem tier_succ (ih : Spec fuel) (t : Tier) : Gives (tier (fuel + 1) t) Expr.Plain := by
  unfold tier
  exact (ih.operand t).bind fun left hl => ih.tierRest t left 0 hl

theorem operand_succ (ih : Spec fuel) (t : Tier) : Gives (operand (fuel + 1) t) Expr.Plain := by
  unfold operand
  split
  · exact ih.tier _
  · exact ih.unary

theorem join_plain (joint : Joint) (loc : Option Location) {left right : Expr} (hl : left.Plain)
    (hr : right.Plain) : (joint.join loc left right).Plain := by
  cases joint with
  | logical op => exact .intro trivial (by simp [Joint.join, Node.children, hl, hr])
  | binary op => exact .intro trivial (by simp [Joint.join, Node.children, hl, hr])

theorem tierRest_succ (ih : Spec fuel) (t : Tier) (left : Expr) (links : Nat) (hl : left.Plain) :
    Gives (tierRest (fuel + 1) t left links) Expr.Plain := by
  unfold tierRest
  refine gives_peek.bind fun token _ => ?_
  split
  · exact (gives_leave links).bind fun _ _ => gives_pure hl
  · exact (gives_discard gives_advance).bind fun _ _ => gives_enter.bind fun _ _ =>
      (ih.operand t).bind fun right hr => ih.tierRest t _ _ (join_plain _ _ hl hr)

theorem gives_updateOf {op : UpdateOp} {inFront : Bool} {target : Expr} {loc : Option Location}
    (ht : target.Plain) : Gives (updateOf op inFront target loc) Expr.Plain := by
  unfold updateOf
  split
  · rename_i htarget
    exact gives_pure (.intro htarget (by simp [Node.children, ht]))
  · exact gives_fail

theorem unary_succ (ih : Spec fuel) : Gives (unary (fuel + 1)) Expr.Plain := by
  unfold unary
  refine gives_peek.bind fun token _ => ?_
  split
  · exact (gives_discard gives_advance).bind fun _ _ => gives_enter.bind fun _ _ =>
      ih.unary.bind fun e he => (gives_leave 1).bind fun _ _ =>
        gives_pure (.intro trivial (by simp [Node.children, he]))
  · exact (gives_discard gives_advance).bind fun _ _ => gives_enter.bind fun _ _ =>
      ih.unary.bind fun e he => (gives_leave 1).bind fun _ _ => gives_updateOf he
  · exact ih.postfixUpdate

theorem postfixUpdate_succ (ih : Spec fuel) : Gives (postfixUpdate (fuel + 1)) Expr.Plain := by
  unfold postfixUpdate
  refine ih.callMember.bind fun e he => gives_peek.bind fun token _ => ?_
  split
  · exact .ite (gives_pure he) ((gives_discard gives_advance).bind fun _ _ => gives_updateOf he)
  · exact gives_pure he

theorem callMember_succ (ih : Spec fuel) : Gives (callMember (fuel + 1)) Expr.Plain := by
  unfold callMember
  exact ih.primary.bind fun e he => ih.callMemberRest e 0 he

theorem callMemberRest_succ (ih : Spec fuel) (e : Expr) (links : Nat) (he : e.Plain) :
    Gives (callMemberRest (fuel + 1) e links) Expr.Plain := by
  unfold callMemberRest
  refine gives_peek.bind fun token _ => ?_
  split
  · refine gives_enter.bind fun _ _ => (gives_discard gives_advance).bind fun _ _ =>
      gives_memberName.bind fun name hn => ih.callMemberRest _ _ (.intro hn ?_)
    simp [Node.children, he]
  · refine gives_enter.bind fun _ _ => (gives_discard gives_advance).bind fun _ _ =>
      ih.assignment.bind fun key hk => (gives_symbol _).bind fun _ _ =>
        ih.callMemberRest _ _ (.intro trivial ?_)
    simp [Node.children, he, hk]
  · refine gives_enter.bind fun _ _ => (gives_discard gives_advance).bind fun _ _ =>
      (ih.expressions _).bind fun args ha => ih.callMemberRest _ _ (.intro trivial ?_)
    simpa [Node.children, Node.ofExprs, he] using ha
  · exact (gives_leave links).bind fun _ _ => gives_pure he

theorem expressions_succ (ih : Spec fuel) (close : Symbol) :
    Gives (expressions (fuel + 1) close) fun es => ∀ e ∈ es, e.Plain := by
  unfold expressions
  refine (gives_eat _).bind fun _ _ => .ite (gives_pure (by simp)) ?_
  refine ih.assignment.bind fun e he => (gives_eat _).bind fun _ _ => .ite ?_ ?_
  · exact (ih.expressions close).bind fun es hes => gives_pure (by simpa [he] using hes)
  · exact (gives_expect _ _).bind fun _ _ => gives_pure (by simpa using he)

theorem primary_succ (ih : Spec fuel) : Gives (primary (fuel + 1)) Expr.Plain := by
  have hleaf {e : Expr} (h : (Node.expr e).Plain) (hc : (Node.expr e).children = []) :
      Gives (pure e) Expr.Plain := gives_pure (.intro h (by simp [hc]))
  have hfunction (name : Option String) (loc : Option Location) : Gives (do
      return .function loc (← functionRest fuel name loc)) Expr.Plain :=
    (ih.functionRest name loc).bind fun f hf =>
      gives_pure (.intro trivial (by simpa [Node.children, Node.ofStmts] using hf))
  unfold primary
  refine gives_advance.bind fun token _ => ?_
  dsimp only
  split
  · exact hleaf trivial rfl
  · exact hleaf trivial rfl
  · exact hleaf trivial rfl
  · exact hleaf trivial rfl
  · exact hleaf trivial rfl
  · exact hleaf trivial rfl
  · exact hleaf trivial rfl
  · exact hleaf trivial rfl
  · refine gives_peek.bind fun next _ => ?_
    split
    · exact (gives_discard gives_advance).bind fun _ _ => hfunction _ _
    · exact hfunction _ _
  · exact ih.assignment.bind fun e he => (gives_symbol _).bind fun _ _ => gives_pure he
  · refine (ih.expressions _).bind fun es hes => gives_pure (.intro trivial ?_)
    simpa [Node.children, Node.ofExprs] using hes
  · refine ih.properties.bind fun ps hps => gives_pure (.intro trivial fun n hn => ?_)
    obtain ⟨p, hp, hn⟩ := List.mem_flatMap.mp hn
    exact hps p hp n hn
  · exact gives_throw
  · exact gives_throw

theorem properties_succ (ih : Spec fuel) :
    Gives (properties (fuel + 1)) fun ps => ∀ p ∈ ps, p.Plain := by
  unfold properties
  refine (gives_eat _).bind fun _ _ => .ite (gives_pure (by simp)) ?_
  refine ih.property.bind fun p hp => (gives_eat _).bind fun _ _ => .ite ?_ ?_
  · exact ih.properties.bind fun ps hps => gives_pure (by simpa [hp] using hps)
  · exact (gives_expect _ _).bind fun _ _ => gives_pure (by simpa using hp)

theorem property_succ (ih : Spec fuel) : Gives (property (fuel + 1)) Property.Plain := by
  have hfunction (key : String) (role : FunctionRole) (name : Option String)
      (loc : Option Location) : Gives (do
      return .function key role (← functionRest fuel name loc) loc) Property.Plain := by
    refine (ih.functionRest name loc).bind fun f hf => gives_pure fun n hn => ?_
    obtain ⟨s, hs, rfl⟩ := List.mem_map.mp hn
    exact hf s hs
  have hinit {key : String} {e : Expr} {loc : Option Location} (he : e.Plain) :
      (Property.init key e loc).Plain := by
    intro n hn
    cases List.mem_singleton.mp hn
    exact he
  unfold property
  refine gives_loc.bind fun loc _ => gives_propertyKey.bind fun key _ =>
    gives_peek.bind fun following _ => ?_
  dsimp only
  refine .ite (gives_propertyKey.bind fun name _ => hfunction _ _ _ _) ?_
  split
  · exact (gives_discard gives_advance).bind fun _ _ => ih.assignment.bind fun e he =>
      gives_pure (hinit he)
  · exact hfunction _ _ _ _
  · exact .ite (gives_pure (hinit (.intro trivial (by simp [Node.children])))) gives_fail

/-! ### Statements -/

theorem functionRest_succ (ih : Spec fuel) (name : Option String) (loc : Option Location) :
    Gives (functionRest (fuel + 1) name loc) fun f => ∀ s ∈ f.body, s.Plain := by
  unfold functionRest
  exact (gives_symbol _).bind fun _ _ => (gives_parameters fuel).bind fun params _ =>
    ih.block.bind fun body hb => gives_pure hb

theorem statement_succ (ih : Spec fuel) : Gives (statement (fuel + 1)) Stmt.Plain := by
  unfold statement
  exact gives_enter.bind fun _ _ => ih.statementHere.bind fun s hs =>
    (gives_leave 1).bind fun _ _ => gives_pure hs

theorem block_succ (ih : Spec fuel) : Gives (block (fuel + 1)) fun ss => ∀ s ∈ ss, s.Plain := by
  unfold block
  exact (gives_symbol _).bind fun _ _ => ih.blockRest

theorem blockRest_succ (ih : Spec fuel) :
    Gives (blockRest (fuel + 1)) fun ss => ∀ s ∈ ss, s.Plain := by
  have hrest : Gives (do
      let s ← statement fuel
      let rest ← blockRest fuel
      return s :: rest) fun ss => ∀ s ∈ ss, s.Plain :=
    ih.statement.bind fun s hs => ih.blockRest.bind fun rest hrest =>
      gives_pure (by simpa [hs] using hrest)
  unfold blockRest
  exact (gives_eat _).bind fun _ _ => .ite (gives_pure (by simp))
    ((gives_isAt _).bind fun _ _ => .ite gives_failThen hrest)

theorem declare_plain {kind : DeclKind} {ds : List Declarator} (h : ∀ d ∈ ds, d.Plain) :
    (Stmt.declare kind ds).Plain := by
  refine .intro (fun d hd => (h d hd).untracked) fun n hn => ?_
  obtain ⟨e, he, rfl⟩ := List.mem_map.mp hn
  obtain ⟨d, hd, hinit⟩ := List.mem_filterMap.mp he
  exact (h d hd).init e hinit

theorem declaration_succ (ih : Spec fuel) : Gives (declaration (fuel + 1)) Stmt.Plain := by
  unfold declaration
  refine gives_declKind?.bind fun kind _ => ?_
  split
  · exact gives_peek.bind fun _ _ => gives_fail
  · exact gives_loc.bind fun loc _ => gives_identifier.bind fun name _ =>
      (ih.declarators _ name loc).bind fun ds hds => gives_pure (declare_plain hds)

theorem declarators_succ (ih : Spec fuel) (kind : DeclKind) (name : String) (loc : Location) :
    Gives (declarators (fuel + 1) kind name loc) fun ds => ∀ d ∈ ds, d.Plain := by
  -- the declarator, and those after it
  have hrest {init : Option Expr} (hinit : ∀ e, init = some e → e.Plain) : Gives (do
      if ← eat (.symbol .comma) then
        let next ← Read.loc
        let other ← identifier
        let rest ← declarators fuel kind other next
        return .mk name init false (some loc) :: rest
      return [Declarator.mk name init false (some loc)]) fun ds => ∀ d ∈ ds, d.Plain := by
    have hd : (Declarator.mk name init false (some loc)).Plain := ⟨⟨_, _, _, rfl⟩, hinit⟩
    refine (gives_eat _).bind fun _ _ => .ite ?_ (gives_pure (by simpa using hd))
    exact gives_loc.bind fun next _ => gives_identifier.bind fun other _ =>
      (ih.declarators kind other next).bind fun ds hds => gives_pure (by simpa [hd] using hds)
  have hnone : Gives (pure none) fun init : Option Expr => ∀ e, init = some e → e.Plain :=
    gives_pure fun _ h => by cases h
  have hsome : Gives (some <$> assignment fuel) fun init => ∀ e, init = some e → e.Plain :=
    Gives.map (ih.assignment.mono fun e he _ h => by cases h; exact he)
  unfold declarators
  refine (gives_eat _).bind fun _ _ => .ite
    (hsome.bind fun init hinit => .ite gives_failThen (hrest hinit))
    (hnone.bind fun init hinit => .ite gives_failThen (hrest hinit))

theorem forHead_succ (ih : Spec fuel) : Gives (forHead (fuel + 1)) Stmt.Plain := by
  unfold forHead
  refine (gives_isAt _).bind fun _ _ => .ite (ih.forRest none fun _ h => by cases h) ?_
  refine gives_declKind?.bind fun kind _ => ?_
  split
  · refine gives_loc.bind fun loc _ => gives_identifier.bind fun name _ =>
      (gives_eat _).bind fun _ _ => .ite (ih.forInRest _ name) ?_
    exact (ih.declarators _ name loc).bind fun ds hds =>
      ih.forRest _ fun s h => by cases h; exact declare_plain hds
  · refine gives_bareForIn?.bind fun name _ => ?_
    split
    · exact ih.forInRest none _
    · refine ih.assignment.bind fun e he => ih.forRest _ fun s h => ?_
      cases h
      exact .intro trivial (by simp [Node.children, he])

theorem forRest_succ (ih : Spec fuel) (init : Option Stmt) (hi : ∀ s, init = some s → s.Plain) :
    Gives (forRest (fuel + 1) init) Stmt.Plain := by
  have hnone : Gives (pure none) fun o : Option Expr => ∀ e, o = some e → e.Plain :=
    gives_pure fun _ h => by cases h
  have hsome : Gives (some <$> assignment fuel) fun o => ∀ e, o = some e → e.Plain :=
    Gives.map (ih.assignment.mono fun e he _ h => by cases h; exact he)
  -- the body, after a test and a step that may be missing
  have hbody {test step : Option Expr} (ht : ∀ e, test = some e → e.Plain)
      (hs : ∀ e, step = some e → e.Plain) : Gives (do
        symbol .rightParen
        return .for init test step (← statement fuel)) Stmt.Plain := by
    refine (gives_symbol _).bind fun _ _ => ih.statement.bind fun body hb =>
      gives_pure (.intro trivial fun n hn => ?_)
    rcases List.mem_cons.mp hn with rfl | hn
    · exact hb
    rcases List.mem_append.mp hn with hn | hn
    · rcases List.mem_append.mp hn with hn | hn
      · obtain ⟨s, hmem, rfl⟩ := List.mem_map.mp hn
        exact hi s (Option.mem_toList.mp hmem)
      · obtain ⟨e, hmem, rfl⟩ := List.mem_map.mp hn
        exact ht e (Option.mem_toList.mp hmem)
    · obtain ⟨e, hmem, rfl⟩ := List.mem_map.mp hn
      exact hs e (Option.mem_toList.mp hmem)
  have hstep {test : Option Expr} (ht : ∀ e, test = some e → e.Plain) : Gives (do
      symbol .semicolon
      let step ← if ← isAt (.symbol .rightParen) then pure none else some <$> assignment fuel
      symbol .rightParen
      return .for init test step (← statement fuel)) Stmt.Plain :=
    (gives_symbol _).bind fun _ _ => (gives_isAt _).bind fun _ _ => .ite
      (hnone.bind fun step hs => hbody ht hs) (hsome.bind fun step hs => hbody ht hs)
  unfold forRest
  exact (gives_symbol _).bind fun _ _ => (gives_isAt _).bind fun _ _ => .ite
    (hnone.bind fun test ht => hstep ht) (hsome.bind fun test ht => hstep ht)

theorem forInRest_succ (ih : Spec fuel) (kind : Option DeclKind) (name : String) :
    Gives (forInRest (fuel + 1) kind name) Stmt.Plain := by
  unfold forInRest
  exact ih.assignment.bind fun object ho => (gives_symbol _).bind fun _ _ =>
    ih.statement.bind fun body hb =>
      gives_pure (.intro trivial (by simp [Node.children, ho, hb]))

theorem tryRest_succ (ih : Spec fuel) : Gives (tryRest (fuel + 1)) Stmt.Plain := by
  -- the handler, after the body
  have hhandler {body : List Stmt} {param : Option String} (hb : ∀ s ∈ body, s.Plain) :
      Gives (do return .try body param (← block fuel)) Stmt.Plain := by
    refine ih.block.bind fun handler hh => gives_pure (.intro trivial fun n hn => ?_)
    rcases List.mem_append.mp hn with hn | hn
    · obtain ⟨s, hs, rfl⟩ := List.mem_map.mp hn
      exact hb s hs
    · obtain ⟨s, hs, rfl⟩ := List.mem_map.mp hn
      exact hh s hs
  have hcatch {body : List Stmt} (hb : ∀ s ∈ body, s.Plain) : Gives (do
      let param ←
        if ← eat (.symbol .leftParen) then
          let name ← identifier
          symbol .rightParen
          pure (some name)
        else pure none
      return .try body param (← block fuel)) Stmt.Plain :=
    (gives_eat _).bind fun _ _ => .ite
      (gives_identifier.bind fun _ _ => (gives_symbol _).bind fun _ _ => hhandler hb)
      (hhandler hb)
  unfold tryRest
  refine ih.block.bind fun body hb => (gives_eat _).bind fun _ _ => ?_
  exact .ite (hcatch hb) gives_failThen

theorem statementHere_succ (ih : Spec fuel) : Gives (statementHere (fuel + 1)) Stmt.Plain := by
  have hleaf {s : Stmt} (h : (Node.stmt s).Plain) (hc : (Node.stmt s).children = []) : s.Plain :=
    .intro h (by simp [hc])
  unfold statementHere
  refine gives_peek.bind fun token _ => ?_
  split
  · refine ih.block.bind fun body hb => gives_pure (.intro trivial ?_)
    simpa [Node.children, Node.ofStmts] using hb
  · exact (gives_discard gives_advance).bind fun _ _ => gives_pure (hleaf trivial rfl)
  · exact ih.declaration.bind fun s hs => gives_semicolon.bind fun _ _ => gives_pure hs
  · exact ih.declaration.bind fun s hs => gives_semicolon.bind fun _ _ => gives_pure hs
  · exact ih.declaration.bind fun s hs => gives_semicolon.bind fun _ _ => gives_pure hs
  · refine (gives_discard gives_advance).bind fun _ _ => gives_identifier.bind fun name _ =>
      (ih.functionRest _ _).bind fun f hf => gives_pure (.intro trivial ?_)
    simpa [Node.children, Node.ofStmts] using hf
  · -- `return`, with or without a value
    have hvalue {value : Option Expr} (hv : ∀ e, value = some e → e.Plain) : Gives (do
        semicolon
        return .return value (some token.loc)) Stmt.Plain := by
      refine gives_semicolon.bind fun _ _ => gives_pure (.intro trivial fun n hn => ?_)
      obtain ⟨e, hmem, rfl⟩ := List.mem_map.mp hn
      exact hv e (Option.mem_toList.mp hmem)
    refine (gives_discard gives_advance).bind fun _ _ => (gives_isAt _).bind fun _ _ =>
      gives_mayEnd.bind fun _ _ => .ite ?_ ?_
    · exact hvalue fun _ h => by cases h
    · exact Gives.bind (Gives.map (ih.assignment.mono fun e he _ h => by cases h; exact he))
        fun value hv => hvalue hv
  · refine (gives_discard gives_advance).bind fun _ _ => (gives_symbol _).bind fun _ _ =>
      ih.assignment.bind fun test ht => (gives_symbol _).bind fun _ _ =>
        ih.statement.bind fun yes hy => (gives_eat _).bind fun _ _ => .ite ?_ ?_
    · exact ih.statement.bind fun no hn =>
        gives_pure (.intro trivial (by simp [Node.children, Node.ofStmts, ht, hy, hn]))
    · exact gives_pure (.intro trivial (by simp [Node.children, Node.ofStmts, ht, hy]))
  · refine (gives_discard gives_advance).bind fun _ _ => (gives_symbol _).bind fun _ _ =>
      ih.assignment.bind fun test ht => (gives_symbol _).bind fun _ _ =>
        ih.statement.bind fun body hb => gives_pure (.intro trivial ?_)
    simp [Node.children, ht, hb]
  · exact (gives_discard gives_advance).bind fun _ _ => (gives_symbol _).bind fun _ _ => ih.forHead
  · exact (gives_discard gives_advance).bind fun _ _ => gives_semicolon.bind fun _ _ =>
      gives_pure (hleaf trivial rfl)
  · exact (gives_discard gives_advance).bind fun _ _ => gives_semicolon.bind fun _ _ =>
      gives_pure (hleaf trivial rfl)
  · have hvalue : Gives (do
        let value ← assignment fuel
        semicolon
        return .throw value) Stmt.Plain :=
      ih.assignment.bind fun e he => gives_semicolon.bind fun _ _ =>
        gives_pure (.intro trivial (by simp [Node.children, he]))
    exact (gives_discard gives_advance).bind fun _ _ => gives_peek.bind fun _ _ =>
      .ite gives_failThen hvalue
  · exact (gives_discard gives_advance).bind fun _ _ => ih.tryRest
  · exact ih.assignment.bind fun e he => gives_semicolon.bind fun _ _ =>
      gives_pure (.intro trivial (by simp [Node.children, he]))

/-- Every function of the parser gives plain parts. -/
theorem spec : ∀ fuel, Spec fuel
  | 0 => spec_zero
  | fuel + 1 =>
    have ih := spec fuel
    { statement := statement_succ ih
      statementHere := statementHere_succ ih
      block := block_succ ih
      blockRest := blockRest_succ ih
      declaration := declaration_succ ih
      declarators := declarators_succ ih
      forHead := forHead_succ ih
      forRest := forRest_succ ih
      forInRest := forInRest_succ ih
      tryRest := tryRest_succ ih
      functionRest := functionRest_succ ih
      assignment := assignment_succ ih
      conditional := conditional_succ ih
      tier := tier_succ ih
      operand := operand_succ ih
      tierRest := tierRest_succ ih
      unary := unary_succ ih
      postfixUpdate := postfixUpdate_succ ih
      callMember := callMember_succ ih
      callMemberRest := callMemberRest_succ ih
      expressions := expressions_succ ih
      primary := primary_succ ih
      properties := properties_succ ih
      property := property_succ ih }

theorem gives_program : ∀ fuel, Gives (program fuel) fun p => ∀ s ∈ p, s.Plain
  | 0 => gives_throw
  | fuel + 1 => by
      unfold program
      refine (gives_isAt _).bind fun _ _ => .ite (gives_pure (by simp)) ?_
      exact (spec fuel).statement.bind fun s hs => (gives_program fuel).bind fun rest hrest =>
        gives_pure (by simpa [hs] using hrest)

end Read

/-- **A program that was read is plain**, and does not nest too deeply. -/
theorem Program.parse_gives {text : String} {program : Program}
    (h : Program.parse text = .ok program) :
    (∀ s ∈ program, s.Plain) ∧ nestingDepth program ≤ maxDepth := by
  unfold Program.parse at h
  cases hscan : Token.scan text with
  | error e => rw [hscan] at h; cases h
  | ok tokens =>
      rw [hscan] at h
      replace h : Program.ofTokens tokens = .ok program := h
      have hnamed := Token.scanFrom_named hscan
      unfold Program.ofTokens at h
      split at h
      · cases h
        simp [nestingDepth, deepestOf]
      · rename_i here ahead
        have hread := Read.gives_program (24 * (ahead.length + 2)) ⟨here, ahead, 0⟩
        cases hrun : (Read.program (24 * (ahead.length + 2))).run ⟨here, ahead, 0⟩ with
        | error e => rw [hrun] at h; cases h
        | ok p =>
            obtain ⟨body, r⟩ := p
            rw [hrun] at h
            replace h : (if maxDepth < nestingDepth body then throw (.tooDeep maxDepth none)
              else pure body : Except ParseError Program) = .ok program := h
            split at h
            · cases h
            · rename_i hdepth
              cases h
              have htokens : Read.Tokens ⟨here, ahead, 0⟩ :=
                ⟨hnamed here (by simp), fun t ht => hnamed t (by simp [ht])⟩
              exact ⟨(hread _ r htokens hrun).2, Nat.le_of_not_lt hdepth⟩

end Lineage
