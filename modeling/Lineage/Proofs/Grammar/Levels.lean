import Lineage.Proofs.Grammar.Takes

/-!
# Levels of expressions

The functions that read expressions are one for each level, and each first asks
the one for the next level. An expression of a level is read on all levels: on
weaker ones if nothing behind it goes on with it there, and on stronger ones in
its parentheses.
-/

namespace Lineage

variable {w : Spelling} {e : Expr} {level least fuel : Nat} {k : TokenKind}
  {ts rest : List TokenKind} {depth : Nat}

/-! ## What goes on with an expression -/

/-- The level on which a token goes on with the expression in front of it. -/
def TokenKind.grip? : TokenKind → Option Nat
  | .symbol .dot | .symbol .leftBracket | .symbol .leftParen => some 10
  | .symbol .plusPlus | .symbol .minusMinus => some 9
  | .symbol .star | .symbol .slash | .symbol .percent => some 7
  | .symbol .plus | .symbol .minus => some 6
  | .symbol .lt | .symbol .le | .symbol .gt | .symbol .ge => some 5
  | .symbol .eqEqEq | .symbol .notEqEq | .symbol .eqEq | .symbol .notEq => some 4
  | .symbol .andAnd => some 3
  | .symbol .orOr => some 2
  | .symbol .question | .symbol .assign | .symbol .plusAssign | .symbol .minusAssign
  | .symbol .starAssign | .symbol .slashAssign => some 1
  | _ => none

/-- Nothing goes on with an expression that was read on a level. -/
def Stops (level : Nat) (rest : List TokenKind) : Prop :=
  ∀ l ∈ (rest.headD .ending).grip?, l < level

theorem Stops.mono {level' : Nat} (h : Stops level rest) (hle : level ≤ level') :
    Stops level' rest := fun l hl => Nat.lt_of_lt_of_le (h l hl) hle

theorem stops_of_grip? (h : k.grip? = none) : Stops level (k :: rest) := by
  intro l hl
  rw [List.headD_cons, h] at hl
  cases hl

/-- What goes on with an assignment goes on with the choice at its end as well. -/
theorem Stops.zero (h : Stops 1 rest) : Stops 0 rest := by
  intro l hl
  have hlt := h l hl
  unfold TokenKind.grip? at hl
  split at hl <;> cases hl <;> exact absurd hlt (by decide)

theorem Joint.grip?_symbol (joint : Joint) :
    (TokenKind.symbol joint.symbol).grip? = some joint.tier.level := by
  rcases joint with op | op <;> cases op <;> rfl

theorem Joint.joint?_symbol (joint : Joint) :
    joint.tier.joint? (.symbol joint.symbol) = some joint := by
  rcases joint with op | op <;> cases op <;> rfl

theorem Tier.grip?_of_joint? {t : Tier} {joint : Joint} (h : t.joint? k = some joint) :
    k.grip? = some t.level := by
  unfold joint? at h
  split at h <;> first | rfl | cases h

theorem Tier.joint?_eq_none {t : Tier} (h : Stops level rest) (hle : level ≤ t.level) :
    t.joint? (rest.headD .ending) = none := by
  cases hjoint : t.joint? (rest.headD .ending) with
  | none => rfl
  | some joint => exact absurd (h _ (grip?_of_joint? hjoint)) (Nat.not_lt.mpr hle)

theorem AssignOp.ofToken?_token (op : AssignOp) : ofToken? (.symbol op.token) = some op := by
  cases op <;> rfl

theorem AssignOp.grip?_token (op : AssignOp) : (TokenKind.symbol op.token).grip? = some 1 := by
  cases op <;> rfl

theorem AssignOp.ofToken?_eq_none (h : Stops level rest) (hle : level ≤ 1) :
    ofToken? (rest.headD .ending) = none := by
  have hgrip {op : AssignOp} (hop : ofToken? (rest.headD .ending) = some op) :
      (rest.headD .ending).grip? = some 1 := by
    unfold ofToken? at hop
    split at hop
    all_goals first | (rename_i heq; rw [heq]; rfl) | cases hop
  cases hop : ofToken? (rest.headD .ending) with
  | none => rfl
  | some op => exact absurd (h 1 (hgrip hop)) (Nat.not_lt.mpr hle)

theorem UpdateOp.ofToken?_token (op : UpdateOp) : ofToken? (.symbol op.token) = some op := by
  cases op <;> rfl

theorem UpdateOp.grip?_token (op : UpdateOp) : (TokenKind.symbol op.token).grip? = some 9 := by
  cases op <;> rfl

theorem UpdateOp.ofToken?_eq_none (h : Stops level rest) (hle : level ≤ 9) :
    ofToken? (rest.headD .ending) = none := by
  have hgrip {op : UpdateOp} (hop : ofToken? (rest.headD .ending) = some op) :
      (rest.headD .ending).grip? = some 9 := by
    unfold ofToken? at hop
    split at hop
    all_goals first | (rename_i heq; rw [heq]; rfl) | cases hop
  cases hop : ofToken? (rest.headD .ending) with
  | none => rfl
  | some op => exact absurd (h 9 (hgrip hop)) (Nat.not_lt.mpr hle)

/-! ## How expressions start -/

/-- What can start an expression that binds as much as an update behind it. -/
def TokenKind.startsOperand : TokenKind → Bool
  | .identifier _ | .number _ | .string _ => true
  | .keyword .true | .keyword .false | .keyword .null | .keyword .undefined | .keyword .this
  | .keyword .function => true
  | .symbol .leftParen | .symbol .leftBracket | .symbol .leftBrace => true
  | _ => false

/-- What can start an expression. -/
def TokenKind.starts (k : TokenKind) : Bool :=
  k.startsOperand || (UnaryOp.ofToken? k).isSome || (UpdateOp.ofToken? k).isSome

/-- The start of an expression of a level. -/
structure Begins (level : Nat) (ts : List TokenKind) : Prop where
  intro ::
  begins : ∃ k ks, ts = k :: ks ∧ k.starts ∧ (9 ≤ level → k.startsOperand) ∧
    ∀ name, k = .identifier name → ks.head? ≠ some (.keyword .in)

namespace Begins

theorem ne_nil (h : Begins level ts) : ts ≠ [] := by
  obtain ⟨k, ks, rfl, -⟩ := h.begins
  nofun

theorem append (h : Begins level ts) (hk : k ≠ .keyword .in) :
    Begins level (ts ++ k :: rest) := by
  obtain ⟨first, ks, rfl, hstarts, hoperand, hin⟩ := h.begins
  refine ⟨first, ks ++ k :: rest, rfl, hstarts, hoperand, fun name hname => ?_⟩
  cases ks with
  | nil => exact fun h => hk (Option.some.inj h)
  | cons k' ks => exact hin name hname

theorem mono {level' : Nat} (h : Begins level ts) (hle : 9 ≤ level' → 9 ≤ level) :
    Begins level' ts := by
  obtain ⟨first, ks, rfl, hstarts, hoperand, hin⟩ := h.begins
  exact ⟨first, ks, rfl, hstarts, fun h9 => hoperand (hle h9), hin⟩

theorem parenthesized : Begins level (Written.parenthesized ts) :=
  ⟨_, _, rfl, rfl, fun _ => rfl, nofun⟩

theorem enclosed (h : Begins level ts) (least : Nat) :
    Begins least (Written.enclosed level least ts) := by
  unfold Written.enclosed
  split
  · exact parenthesized
  · rename_i hle
    exact h.mono fun h9 => Nat.le_trans h9 (Nat.le_of_not_lt hle)

/-- Nothing that ends an expression starts one. -/
theorem next_ne {d : Nat} (h : Begins level ts) (hk : k.starts = false) :
    Stand.next ⟨ts ++ rest, d⟩ ≠ k := by
  obtain ⟨first, ks, rfl, hstarts, -⟩ := h.begins
  rintro rfl
  exact absurd (hk.symm.trans hstarts) Bool.false_ne_true

theorem ne_forIn (h : Begins level ts) {name : String} {ks : List TokenKind} :
    ts ≠ .identifier name :: .keyword .in :: ks := by
  obtain ⟨first, ks', rfl, -, -, hin⟩ := h.begins
  intro heq
  obtain ⟨rfl, rfl⟩ := List.cons.inj heq
  exact hin name rfl rfl

end Begins

theorem Tier.level_le (t : Tier) : t.level ≤ 7 := by cases t <;> decide

theorem Tier.level_inj {t t' : Tier} (h : t.level = t'.level) : t = t' := by
  cases t <;> cases t' <;> first | rfl | cases h

/-! ## Reading on a level -/

namespace Read

/-- The function that reads expressions of a level. -/
def atLevel : (level fuel : Nat) → Read Expr
  | 0, fuel => assignment fuel
  | 1, fuel => conditional fuel
  | 2, fuel => tier fuel .or
  | 3, fuel => tier fuel .and
  | 4, fuel => tier fuel .equality
  | 5, fuel => tier fuel .relational
  | 6, fuel => tier fuel .additive
  | 7, fuel => tier fuel .multiplicative
  | 8, fuel => unary fuel
  | 9, fuel => postfixUpdate fuel
  | 10, fuel => callMember fuel
  | _, fuel => primary fuel

theorem atLevel_tier (t : Tier) (fuel : Nat) : atLevel t.level fuel = tier fuel t := by
  cases t <;> rfl

theorem operand_succ_eq (t : Tier) (fuel : Nat) :
    operand (fuel + 1) t = atLevel (t.level + 1) fuel := by
  cases t <;> rfl

end Read

theorem Written.length_parenthesized : (Written.parenthesized ts).length = ts.length + 2 := by
  simp [Written.parenthesized]

theorem Written.parenthesized_append : Written.parenthesized ts ++ rest =
    .symbol .leftParen :: (ts ++ .symbol .rightParen :: rest) := by
  simp [Written.parenthesized]

/--
Tokens are read as an expression on a level. The bound on the steps of the reading
grows with the number of tokens and allows for the levels in between.
-/
def ReadAs (level : Nat) (ts : List TokenKind) (e : Expr) : Prop :=
  ∀ (fuel : Nat) (rest : List TokenKind) (depth : Nat),
    24 * ts.length + 23 ≤ fuel + 2 * level → Stops level rest →
    (Read.atLevel level fuel).Takes ⟨ts ++ rest, depth⟩ ⟨rest, depth⟩
      fun e' => e'.unplaced = e.unplaced

open Read

/-! ## From level to level -/

namespace ReadAs

/-- What is read as a choice is read as an assignment without an operator. -/
theorem assignment (h : ReadAs 1 ts e) : ReadAs 0 ts e := by
  intro fuel rest depth hfuel hstops
  match fuel, hfuel with
  | 0, hfuel => omega
  | fuel + 1, hfuel =>
      unfold atLevel Read.assignment
      refine takes_enter.bind fun _ _ => (h _ _ _ (by omega) (hstops.mono (Nat.le_succ _))).bind
        fun e' he' => takes_peek.bind fun token htoken => ?_
      rw [htoken.1, show Stand.next ⟨rest, depth + 1⟩ = rest.headD .ending from rfl,
        AssignOp.ofToken?_eq_none hstops (Nat.zero_le 1)]
      exact takes_leave.bind fun _ _ => takes_pure he'

theorem conditional (h : ReadAs 2 ts e) : ReadAs 1 ts e := by
  intro fuel rest depth hfuel hstops
  match fuel, hfuel with
  | 0, hfuel => omega
  | fuel + 1, hfuel =>
      unfold atLevel Read.conditional
      refine (h _ _ _ (by omega) (hstops.mono (Nat.le_succ _))).bind fun e' he' => ?_
      have hquestion : Stand.next ⟨rest, depth⟩ ≠ .symbol .question := fun hnext =>
        absurd (hstops 1 (by rw [show rest.headD .ending = _ from hnext]; rfl)) (Nat.lt_irrefl 1)
      exact (takes_eat_other hquestion).then (takes_pure he')

theorem tier {t : Tier} (h : ReadAs (t.level + 1) ts e) : ReadAs t.level ts e := by
  intro fuel rest depth hfuel hstops
  have hlevel := t.level_le
  rw [atLevel_tier]
  match fuel, hfuel with
  | 0, hfuel | 1, hfuel => omega
  | fuel + 2, hfuel =>
      unfold Read.tier
      rw [operand_succ_eq]
      refine (h _ _ _ (by omega) (hstops.mono (Nat.le_succ _))).bind fun e' he' => ?_
      unfold tierRest
      refine takes_peek.bind fun token htoken => ?_
      rw [htoken.1, show Stand.next ⟨rest, depth⟩ = rest.headD .ending from rfl,
        Tier.joint?_eq_none hstops (Nat.le_refl _)]
      exact takes_leave.bind fun _ _ => takes_pure he'

theorem unary (h : ReadAs 9 ts e) (hbegins : Begins 9 ts) : ReadAs 8 ts e := by
  intro fuel rest depth hfuel hstops
  match fuel, hfuel with
  | 0, hfuel => omega
  | fuel + 1, hfuel =>
      unfold atLevel Read.unary
      obtain ⟨k, ks, htokens, -, hoperand, -⟩ := hbegins.begins
      have hk : k.startsOperand := hoperand (Nat.le_refl 9)
      have hunary : UnaryOp.ofToken? k = none := by
        unfold UnaryOp.ofToken?
        split <;> first | rfl | cases hk
      have hupdate : UpdateOp.ofToken? k = none := by
        unfold UpdateOp.ofToken?
        split <;> first | rfl | cases hk
      refine takes_peek.bind fun token htoken => ?_
      have hkind : token.kind = k := htoken.1.trans (by rw [htokens]; rfl)
      rw [hkind, hunary, hupdate]
      exact h _ _ _ (by omega) (hstops.mono (Nat.le_succ _))

theorem postfixUpdate (h : ReadAs 10 ts e) : ReadAs 9 ts e := by
  intro fuel rest depth hfuel hstops
  match fuel, hfuel with
  | 0, hfuel => omega
  | fuel + 1, hfuel =>
      unfold atLevel Read.postfixUpdate
      refine (h _ _ _ (by omega) (hstops.mono (Nat.le_succ _))).bind fun e' he' =>
        takes_peek.bind fun token htoken => ?_
      rw [htoken.1, show Stand.next ⟨rest, depth⟩ = rest.headD .ending from rfl,
        UpdateOp.ofToken?_eq_none hstops (Nat.le_refl 9)]
      exact takes_pure he'

/-- Behind a chain of member accesses and calls nothing is taken. -/
theorem takes_callMemberRest {e' : Expr} {links : Nat} {Q : Expr → Prop}
    (hstops : Stops 10 rest) (hQ : Q e') :
    (callMemberRest (fuel + 1) e' links).Takes ⟨rest, depth + links⟩ ⟨rest, depth⟩ Q := by
  unfold callMemberRest
  refine takes_peek.bind fun token htoken => ?_
  have hnext : token.kind = rest.headD .ending := htoken.1
  have hgrip : (rest.headD .ending).grip? ≠ some 10 := fun h =>
    absurd (hstops 10 h) (Nat.lt_irrefl 10)
  rw [hnext]
  split
  · rename_i hdot
    rw [hdot] at hgrip
    exact absurd rfl hgrip
  · rename_i hbracket
    rw [hbracket] at hgrip
    exact absurd rfl hgrip
  · rename_i hparen
    rw [hparen] at hgrip
    exact absurd rfl hgrip
  · exact takes_leave.bind fun _ _ => takes_pure hQ

theorem callMember (h : ReadAs 11 ts e) : ReadAs 10 ts e := by
  intro fuel rest depth hfuel hstops
  match fuel, hfuel with
  | 0, hfuel | 1, hfuel => omega
  | fuel + 2, hfuel =>
      show (Read.callMember (fuel + 2)).Takes _ _ _
      unfold Read.callMember
      refine (h (fuel + 1) _ _ (by omega) (hstops.mono (Nat.le_succ _))).bind fun e' he' => ?_
      exact takes_callMemberRest hstops he'

/-- What is read on a level is read on all weaker ones. -/
theorem down {level' : Nat} (h : ReadAs level' ts e) (hbegins : Begins level' ts)
    (hle : level ≤ level') (h11 : level' ≤ 11) : ReadAs level ts e := by
  induction hle with
  | refl => exact h
  | @step n hle ih =>
      refine ih ?_ (hbegins.mono fun h9 => Nat.le_succ_of_le h9) (Nat.le_of_succ_le h11)
      match n, h11 with
      | 0, _ => exact h.assignment
      | 1, _ => exact h.conditional
      | 2, _ => exact h.tier (t := .or)
      | 3, _ => exact h.tier (t := .and)
      | 4, _ => exact h.tier (t := .equality)
      | 5, _ => exact h.tier (t := .relational)
      | 6, _ => exact h.tier (t := .additive)
      | 7, _ => exact h.tier (t := .multiplicative)
      | 8, _ => exact h.unary hbegins
      | 9, _ => exact h.postfixUpdate
      | 10, _ => exact h.callMember

/-- An expression in parentheses is read on every level. -/
theorem parenthesized (h : ReadAs 0 ts e) (hle : level ≤ 11) :
    ReadAs level (Written.parenthesized ts) e := by
  have h11 : ReadAs 11 (Written.parenthesized ts) e := by
    intro fuel rest depth hfuel _
    rw [Written.length_parenthesized] at hfuel
    rw [Written.parenthesized_append]
    match fuel, hfuel with
    | 0, hfuel => omega
    | fuel + 1, hfuel =>
        unfold atLevel Read.primary
        refine takes_advance.bind fun token htoken => ?_
        rw [htoken]
        refine (h fuel _ depth (by omega) (stops_of_grip? rfl)).bind fun e' he' => ?_
        exact takes_symbol.bind fun _ _ => takes_pure he'
  exact h11.down .parenthesized hle (Nat.le_refl 11)

end ReadAs

/-! ## Reading expressions as they are written -/

namespace Expr

/-- How an expression is written where one of a level has to stand. -/
def written (w : Spelling) (e : Expr) (least : Nat) : List TokenKind :=
  Written.enclosed e.level least (e.tokens w)

theorem written_of_le (h : least ≤ e.level) : e.written w least = e.tokens w :=
  if_neg (Nat.not_lt.mpr h)

theorem written_of_lt (h : e.level < least) :
    e.written w least = Written.parenthesized (e.tokens w) := if_pos h

/-- The next stronger level asks for the same parentheses of all but what is on the level. -/
theorem written_succ (h : e.level ≠ least) : e.written w (least + 1) = e.written w least := by
  rcases Nat.lt_or_gt_of_ne h with hlt | hgt
  · rw [written_of_lt hlt, written_of_lt (Nat.lt_succ_of_lt hlt)]
  · rw [written_of_le hgt, written_of_le (Nat.le_of_lt hgt)]

theorem level_le (e : Expr) : e.level ≤ 11 := by
  unfold level
  split <;> first | decide | exact Nat.le_trans (Tier.level_le _) (by decide)

/-- An expression is read back on a level. -/
def ReadAt (w : Spelling) (e : Expr) (level : Nat) : Prop := ReadAs level (e.written w level) e

/-- **What is read on its own level is read on every level.** -/
theorem ReadAt.all (hbegins : Begins e.level (e.tokens w)) (h : e.ReadAt w e.level)
    (hle : level ≤ 11) : e.ReadAt w level := by
  unfold ReadAt at h ⊢
  rw [written_of_le (Nat.le_refl _)] at h
  rcases Nat.lt_or_ge e.level level with habove | hbelow
  · rw [written_of_lt habove]
    exact (h.down hbegins (Nat.zero_le _) e.level_le).parenthesized hle
  · rw [written_of_le hbelow]
    exact h.down hbegins hbelow e.level_le

end Expr

end Lineage
