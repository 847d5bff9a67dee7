import Lineage.Proofs.Grammar.Expressions

/-!
# Reading back statements

One statement for each form of statement: it is read back if the statements and
expressions in it are. An `else` belongs to the `if` right in front of it, so a
statement that ends in an `if` without one is read back only where no `else`
follows.
-/

namespace Lineage

open Read Written

variable {w : Spelling} {fuel : Nat} {rest : List TokenKind} {depth : Nat}
  {loc : Option Location}

-- Text and places of what is written follow the form.
attribute [local simp] Stmt.tokens Stmt.tokensAll Declarator.tokensEach Func.tokens
  Stmt.unplaced Stmt.unplacedAll Declarator.unplacedAll Func.unplaced

/-- A statement is read back. -/
structure Stmt.ReadBack (w : Spelling) (s : Stmt) : Prop where
  begins : ∃ k ks, s.tokens w = k :: ks ∧ k ≠ .symbol .rightBrace ∧ k ≠ .ending ∧
    k ≠ .keyword .else
  takes : ∀ (fuel : Nat) (rest : List TokenKind) (depth : Nat),
    24 * (s.tokens w).length + 1 ≤ fuel →
    (s.endsOpen → Stand.next ⟨rest, depth⟩ ≠ .keyword .else) →
    (statement fuel).Takes ⟨s.tokens w ++ rest, depth⟩ ⟨rest, depth⟩
      fun s' => s'.unplaced = s.unplaced

namespace Stmt

variable {s : Stmt} {body : List Stmt}

theorem ReadBack.ofHere (k : TokenKind) (ks : List TokenKind) (htokens : s.tokens w = k :: ks)
    (hk : k ≠ .symbol .rightBrace ∧ k ≠ .ending ∧ k ≠ .keyword .else)
    (h : ∀ (fuel : Nat) (rest : List TokenKind) (depth : Nat),
      24 * ks.length + 23 ≤ fuel → (s.endsOpen → Stand.next ⟨rest, depth⟩ ≠ .keyword .else) →
      (statementHere (fuel + 1)).Takes ⟨k :: ks ++ rest, depth⟩ ⟨rest, depth⟩
        fun s' => s'.unplaced = s.unplaced) : s.ReadBack w where
  begins := ⟨k, ks, htokens, hk⟩
  takes fuel rest depth hfuel hopen := by
    rw [htokens, List.length_cons] at hfuel
    rw [htokens]
    match fuel, hfuel with
    | 0, hfuel | 1, hfuel => omega
    | fuel + 2, hfuel =>
        unfold statement
        refine takes_enter.bind fun _ _ => (h fuel rest (depth + 1) (by omega) hopen).bind
          fun s' hs' => takes_leave.bind fun _ _ => takes_pure hs'

/-! ## Blocks and functions -/

/-- Behind a statement of a block there is no `else`. -/
theorem next_tokensAll_ne (hbody : ∀ s ∈ body, s.ReadBack w) {k : TokenKind}
    (hk : k ≠ .keyword .else) : Stand.next ⟨tokensAll w body ++ k :: rest, depth⟩ ≠
      .keyword .else := by
  cases body with
  | nil => exact hk
  | cons s ss =>
      obtain ⟨first, ks, htokens, -, -, helse⟩ := (hbody s List.mem_cons_self).begins
      rw [tokensAll, htokens]
      exact helse

theorem takes_blockRest : ∀ {fuel : Nat}, (∀ s ∈ body, s.ReadBack w) →
    24 * (tokensAll w body).length + 2 ≤ fuel →
    (blockRest fuel).Takes ⟨tokensAll w body ++ .symbol .rightBrace :: rest, depth⟩ ⟨rest, depth⟩
      fun body' => unplacedAll body' = unplacedAll body := by
  induction body with
  | nil =>
      rintro (_ | fuel) _ hfuel
      · omega
      · exact takes_eat.then (takes_pure rfl)
  | cons s ss ih =>
      rintro (_ | fuel) hbody hfuel
      · omega
      have hs := hbody s List.mem_cons_self
      have hss : ∀ s ∈ ss, s.ReadBack w := fun s hs => hbody s (List.mem_cons_of_mem _ hs)
      obtain ⟨k, ks, htokens, hbrace, hending, -⟩ := hs.begins
      have hnext :
          Stand.next ⟨tokensAll w (s :: ss) ++ .symbol .rightBrace :: rest, depth⟩ = k := by
        rw [tokensAll, htokens]
        rfl
      have hpos : 0 < (s.tokens w).length := by
        rw [htokens]
        exact Nat.succ_pos _
      unfold blockRest
      refine (takes_eat_other (hnext ▸ hbrace)).then (takes_isAt.then ?_)
      rw [decide_eq_false (hnext ▸ hending)]
      rw [tokensAll, List.length_append] at hfuel
      rw [tokensAll, List.append_assoc]
      refine (hs.takes fuel _ depth (by omega) fun _ => next_tokensAll_ne hss (by nofun)).bind
        fun s' hs' => (ih hss (by omega)).bind fun ss' hss' => takes_pure ?_
      rw [unplacedAll, unplacedAll, hs', hss']

theorem takes_block (hbody : ∀ s ∈ body, s.ReadBack w)
    (hfuel : 24 * (tokensAll w body).length + 3 ≤ fuel) :
    (Read.block fuel).Takes
      ⟨.symbol .leftBrace :: (tokensAll w body ++ .symbol .rightBrace :: rest), depth⟩
      ⟨rest, depth⟩ fun body' => unplacedAll body' = unplacedAll body := by
  match fuel, hfuel with
  | 0, hfuel => omega
  | fuel + 1, hfuel =>
      unfold Read.block
      exact takes_symbol.bind fun _ _ => takes_blockRest hbody (by omega)

end Stmt

/-- The commas and names of a parameter list. -/
theorem length_le_commas (params : List String) :
    params.length ≤ (commas (params.map fun name => [TokenKind.identifier name])).length := by
  induction params with
  | nil => exact Nat.zero_le _
  | cons name params ih =>
      cases params with
      | nil => exact Nat.le_refl 1
      | cons name' params =>
          simp only [List.map_cons, commas, List.length_append, List.length_cons] at ih ⊢
          omega

/-- A function is read back if the statements of its body are. -/
theorem Func.readBack {f : Func} (hbody : ∀ s ∈ f.body, s.ReadBack w) : f.ReadBack w := by
  obtain ⟨name, params, body, floc⟩ := f
  replace hbody : ∀ s ∈ body, s.ReadBack w := hbody
  intro fuel loc rest depth hfuel
  have hparams := length_le_commas params
  simp only [tokens, length_parenthesized, List.length_append, List.length_cons,
    List.length_nil] at hfuel
  rw [tokens, List.append_assoc, List.append_assoc, parenthesized_append]
  match fuel, hfuel with
  | 0, hfuel => omega
  | fuel + 1, hfuel =>
      unfold functionRest
      refine takes_symbol.bind fun _ _ => (takes_parameters params (by omega)).then ?_
      refine (Stmt.takes_block hbody (by omega)).bind fun body' hbody' => takes_pure ?_
      simp [hbody', Func.name]

/-! ## Single statements -/

namespace Stmt

variable {e test : Expr}

/-- Tokens that are read as an expression and start like none of the other statements. -/
theorem takes_expr {ts : List TokenKind} (h : ReadAs 0 ts e) {k : TokenKind}
    {ks : List TokenKind} (hts : ts = k :: ks) (hk : k.starts) (hother : startsOther k = false)
    (hfuel : 24 * ts.length + 23 ≤ fuel) :
    (statementHere (fuel + 1)).Takes ⟨ts ++ .symbol .semicolon :: rest, depth⟩ ⟨rest, depth⟩
      fun s' => s'.unplaced = (Stmt.expr e).unplaced := by
  have htakes := h fuel (.symbol .semicolon :: rest) depth (by omega) (stops_of_grip? rfl)
  unfold statementHere
  refine takes_peek.bind fun token htoken => ?_
  have hkind : token.kind = k := htoken.1.trans (by rw [hts]; rfl)
  rw [hkind]
  have hlast : (do
      let e ← assignment fuel
      semicolon
      return .expr e : Read Stmt).Takes ⟨ts ++ .symbol .semicolon :: rest, depth⟩ ⟨rest, depth⟩
      fun s' => s'.unplaced = (Stmt.expr e).unplaced :=
    htakes.bind fun e' he' => takes_semicolon.bind fun _ _ => takes_pure (by simp [he'])
  split <;> first
    | exact hlast
    | exact absurd hk Bool.false_ne_true
    | exact absurd hother.symm Bool.false_ne_true

theorem readBack_expr (h : e.ReadBack w) : (Stmt.expr e).ReadBack w := by
  obtain ⟨k, ks, htokens, hk, -⟩ := h.begins.begins
  have h0 : ReadAs 0 (e.tokens w) e := by
    have h0 := h.readAt 0 (Nat.zero_le 11)
    unfold Expr.ReadAt at h0
    rwa [Expr.written_of_le (Nat.zero_le _)] at h0
  -- in front of the semicolon are tokens that are read as the expression
  have hofTokens {ts ks : List TokenKind} {k : TokenKind} (hts : ts = k :: ks) (hk : k.starts)
      (hother : startsOther k = false) (hread : ReadAs 0 ts e)
      (hstmt : (Stmt.expr e).tokens w = ts ++ [.symbol .semicolon]) : (Stmt.expr e).ReadBack w := by
    refine .ofHere k (ks ++ [.symbol .semicolon]) (by rw [hstmt, hts]; rfl)
      (by refine ⟨?_, ?_, ?_⟩ <;> (rintro rfl; cases hk)) fun fuel rest depth hfuel _ => ?_
    have hlist : k :: (ks ++ [.symbol .semicolon]) ++ rest = ts ++ .symbol .semicolon :: rest := by
      simp [hts]
    rw [hlist]
    refine takes_expr hread hts hk hother ?_
    simp only [List.length_append, List.length_cons, List.length_nil] at hfuel
    simp only [hts, List.length_cons]
    omega
  cases hother : startsOther k with
  | true =>
      exact hofTokens rfl rfl rfl (h0.parenthesized (Nat.zero_le 11))
        (by simp [asStatement, parenthesized, htokens, hother])
  | false => exact hofTokens htokens hk hother h0 (by simp [asStatement, htokens, hother])

/-! ### Declarations -/

/-- What is written of a declarator behind its name. -/
def initTokens (w : Spelling) (init : Option Expr) : List TokenKind :=
  init.elim [] fun e => .symbol .assign :: e.tokens w

/-- The declarators behind the first, with the comma in front of them. -/
def furtherTokens (w : Spelling) : List Declarator → List TokenKind
  | [] => []
  | d :: ds => .symbol .comma :: commas (Declarator.tokensEach w (d :: ds))

theorem commas_declarators {name : String} {init : Option Expr} {tracked : Bool}
    {ds : List Declarator} :
    commas (Declarator.tokensEach w (.mk name init tracked loc :: ds)) =
      .identifier name :: (initTokens w init ++ furtherTokens w ds) := by
  cases ds with
  | nil => cases init <;> simp [commas, initTokens, furtherTokens]
  | cons d ds =>
      obtain ⟨_, init', _, _⟩ := d
      cases init <;> cases init' <;>
        simp [commas, initTokens, furtherTokens]

theorem unplacedAll_cons {d : Declarator} {ds : List Declarator} :
    Declarator.unplacedAll (d :: ds) = Declarator.unplacedAll [d] ++ Declarator.unplacedAll ds := by
  obtain ⟨_, init, _, _⟩ := d
  cases init <;> simp

theorem isWritten_iff {kind : DeclKind} {name : String} {init : Option Expr} {tracked : Bool}
    {place : Option Location} : (Declarator.mk name init tracked place).isWritten kind ↔
      tracked = false ∧ (kind = .const → init.isSome) := by
  cases tracked <;> cases kind <;> simp [Declarator.isWritten]

/-- A value is read if there is one, and then something that depends on it. -/
theorem takes_init {α : Type} {init : Option Expr} {f : Option Expr → Read α} {s : Stand}
    {Q : α → Prop} (hinit : ∀ e ∈ init, e.ReadBack w)
    (hfuel : 24 * (initTokens w init).length ≤ fuel) (hstops : Stops 0 rest)
    (hnext : Stand.next ⟨rest, depth⟩ ≠ .symbol .assign)
    (hf : ∀ init', init'.map Expr.unplaced = init.map Expr.unplaced →
      (f init').Takes ⟨rest, depth⟩ s Q) :
    (eat (.symbol .assign) >>= fun given =>
      if given then (some <$> assignment fuel) >>= f else pure none >>= f).Takes
      ⟨initTokens w init ++ rest, depth⟩ s Q := by
  cases init with
  | none => exact (takes_eat_other hnext).then (hf none rfl)
  | some e =>
      simp only [initTokens, Option.elim_some, List.length_cons] at hfuel
      refine takes_eat.then (Takes.bind (P := fun init' => init'.map Expr.unplaced =
        some e.unplaced) (Takes.map ?_) hf)
      exact ((hinit e rfl).takes (by omega) hstops).mono fun e' he' => congrArg some he'

/-- The first of some declarators is read, and then the others. -/
theorem takes_declarator {kind : DeclKind} {name : String} {init : Option Expr}
    {place : Location} {s : Stand} {Q : List Declarator → Prop}
    (hconst : kind = .const → init.isSome) (hinit : ∀ e ∈ init, e.ReadBack w)
    (hfuel : 24 * (initTokens w init).length ≤ fuel) (hstops : Stops 0 rest)
    (hnext : Stand.next ⟨rest, depth⟩ ≠ .symbol .assign)
    (hrest : ∀ first : Declarator, Declarator.unplacedAll [first] =
        Declarator.unplacedAll [.mk name init false none] →
      (do
        if ← eat (.symbol .comma) then
          let next ← Read.loc
          let other ← identifier
          let ds ← declarators fuel kind other next
          return first :: ds
        return [first] : Read (List Declarator)).Takes ⟨rest, depth⟩ s Q) :
    (declarators (fuel + 1) kind name place).Takes ⟨initTokens w init ++ rest, depth⟩ s Q := by
  unfold declarators
  refine takes_init hinit hfuel hstops hnext fun init' hinit' => ?_
  have hgiven : ¬(kind = .const ∧ init'.isNone) := by
    rintro ⟨hkind, hnone⟩
    have hsome := hconst hkind
    cases init <;> cases init' <;> simp_all
  dsimp only
  rw [if_neg hgiven]
  refine hrest _ ?_
  cases init <;> cases init' <;> simp_all [Declarator.unplacedAll]

theorem takes_declarators {kind : DeclKind} {ds : List Declarator} :
    ∀ {name : String} {init : Option Expr} {fuel : Nat} {place : Location},
    (kind = .const → init.isSome) → (∀ e ∈ init, e.ReadBack w) →
    (∀ d ∈ ds, d.isWritten kind ∧ ∀ e ∈ d.init?, e.ReadBack w) →
    24 * (initTokens w init ++ furtherTokens w ds).length + 1 ≤ fuel →
    (declarators fuel kind name place).Takes
      ⟨initTokens w init ++ (furtherTokens w ds ++ .symbol .semicolon :: rest), depth⟩
      ⟨.symbol .semicolon :: rest, depth⟩
      fun ds' => Declarator.unplacedAll ds' =
        Declarator.unplacedAll (.mk name init false none :: ds) := by
  induction ds with
  | nil =>
      rintro name init (_ | fuel) place hconst hinit - hfuel
      · omega
      rw [List.length_append] at hfuel
      refine takes_declarator hconst hinit (by omega) (stops_of_grip? rfl)
        (by simp [furtherTokens]) fun first hfirst => ?_
      exact (takes_eat_other (by simp [furtherTokens])).then (takes_pure hfirst)
  | cons next ds ih =>
      rintro name init (_ | fuel) place hconst hinit hds hfuel
      · omega
      obtain ⟨name', init', tracked, place'⟩ := next
      obtain ⟨hwritten, hnext⟩ := hds _ List.mem_cons_self
      rw [furtherTokens, commas_declarators] at hfuel ⊢
      simp only [List.length_append, List.length_cons] at hfuel
      obtain ⟨rfl, hconst'⟩ := isWritten_iff.mp hwritten
      refine takes_declarator hconst hinit (by omega) (stops_of_grip? rfl) (by simp)
        fun first hfirst => ?_
      simp only [List.cons_append, List.append_assoc]
      refine takes_eat.then (takes_loc.bind fun _ _ => takes_identifier.then ?_)
      refine (ih hconst' hnext (fun d hd => hds d (List.mem_cons_of_mem _ hd))
        (by rw [List.length_append]; omega)).bind fun ds' hds' => takes_pure ?_
      rw [unplacedAll_cons, hfirst, hds', ← unplacedAll_cons]
      cases init <;> cases init' <;> simp

/-- A declaration of the grammar, whose values are read back. -/
structure Declares (w : Spelling) (kind : DeclKind) (ds : List Declarator) : Prop where
  ne_nil : ds ≠ []
  each : ∀ d ∈ ds, d.isWritten kind ∧ ∀ e ∈ d.init?, e.ReadBack w

/-- A declaration starts with a name, which no `in` follows, and then its declarators are read. -/
theorem Declares.takes {kind : DeclKind} {ds : List Declarator} (h : Declares w kind ds) :
    ∃ name ks, commas (Declarator.tokensEach w ds) = .identifier name :: ks ∧
      (∀ (rest : List TokenKind) (depth : Nat),
        Stand.next ⟨ks ++ .symbol .semicolon :: rest, depth⟩ ≠ .keyword .in) ∧
      ∀ (fuel : Nat) (place : Location) (rest : List TokenKind) (depth : Nat),
        24 * ks.length + 1 ≤ fuel → (declarators fuel kind name place).Takes
          ⟨ks ++ .symbol .semicolon :: rest, depth⟩ ⟨.symbol .semicolon :: rest, depth⟩
          fun ds' => Declarator.unplacedAll ds' = Declarator.unplacedAll ds := by
  match ds, h with
  | [], h => exact absurd rfl h.ne_nil
  | .mk name init tracked place' :: ds, h =>
      obtain ⟨hwritten, hinit⟩ := h.each _ List.mem_cons_self
      obtain ⟨rfl, hconst⟩ := isWritten_iff.mp hwritten
      refine ⟨name, _, commas_declarators, fun rest depth => ?_,
        fun fuel place rest depth hfuel => ?_⟩
      · cases init <;> cases ds <;> simp [initTokens, furtherTokens]
      rw [List.append_assoc]
      refine (takes_declarators hconst hinit (fun d hd => h.each d (List.mem_cons_of_mem _ hd))
        hfuel).mono fun ds' hds' => hds'.trans ?_
      cases init <;> simp

theorem readBack_declare {kind : DeclKind} {ds : List Declarator} (h : Declares w kind ds) :
    (Stmt.declare kind ds).ReadBack w := by
  obtain ⟨name, ks, htokens, -, htakes⟩ := h.takes
  refine .ofHere (.keyword kind.keyword) (.identifier name :: (ks ++ [.symbol .semicolon]))
    (by simp [htokens]) (by cases kind <;> exact ⟨nofun, nofun, nofun⟩) fun fuel rest depth hfuel _ => ?_
  simp only [List.length_append, List.length_cons, List.length_nil] at hfuel
  simp only [List.cons_append, List.append_assoc, List.nil_append]
  match fuel, hfuel with
  | 0, hfuel => omega
  | fuel + 1, hfuel =>
      have hdeclaration : (do
          let s ← declaration (fuel + 1)
          semicolon
          return s : Read Stmt).Takes
          ⟨.keyword kind.keyword :: .identifier name :: (ks ++ .symbol .semicolon :: rest), depth⟩
          ⟨rest, depth⟩ fun s' => s'.unplaced = (Stmt.declare kind ds).unplaced := by
        refine Takes.bind (P := fun s' => s'.unplaced = (Stmt.declare kind ds).unplaced) ?_
          fun s' hs' => takes_semicolon.bind fun _ _ => takes_pure hs'
        unfold declaration
        refine takes_declKind?.then (takes_loc.bind fun place _ => takes_identifier.then ?_)
        exact (htakes fuel place rest depth (by omega)).bind fun ds' hds' =>
          takes_pure (by simp [hds'])
      unfold statementHere
      refine takes_peek.bind fun token htoken => ?_
      rw [show token.kind = .keyword kind.keyword from htoken.1]
      cases kind <;> exact hdeclaration

theorem readBack_function {f : Func} (hname : f.name.isSome) (hf : f.ReadBack w) :
    (Stmt.function f).ReadBack w := by
  obtain ⟨name, hname⟩ := Option.isSome_iff_exists.mp hname
  refine .ofHere (.keyword .function) (.identifier name :: f.tokens w)
    (by simp [hname]) ⟨nofun, nofun, nofun⟩ fun fuel rest depth hfuel _ => ?_
  rw [List.length_cons] at hfuel
  unfold statementHere
  refine takes_peek.bind fun token htoken => ?_
  rw [show token.kind = .keyword .function from htoken.1]
  refine takes_skip.then (takes_identifier.then ?_)
  rw [← hname]
  exact (hf fuel _ rest depth (by omega)).bind fun f' hf' => takes_pure (by simp [hf'])

/-! ### Expressions that may be missing -/

/-- What is written of an expression that may be missing. -/
def optionalTokens (w : Spelling) (e : Option Expr) : List TokenKind := e.elim [] (·.tokens w)

/-- An expression is read unless what closes the place is there, and then something else. -/
theorem takes_optional {α : Type} {e : Option Expr} {close : Symbol}
    (hclose : TokenKind.starts (.symbol close) = false)
    (hgrip : TokenKind.grip? (.symbol close) = none) (he : ∀ e' ∈ e, e'.ReadBack w)
    (hfuel : 24 * (optionalTokens w e).length + 23 ≤ fuel) {f : Option Expr → Read α} {s : Stand}
    {Q : α → Prop} (hf : ∀ e', e'.map Expr.unplaced = e.map Expr.unplaced →
      (f e').Takes ⟨.symbol close :: rest, depth⟩ s Q) :
    (isAt (.symbol close) >>= fun closed =>
      if closed then pure none >>= f else (some <$> assignment fuel) >>= f).Takes
      ⟨optionalTokens w e ++ .symbol close :: rest, depth⟩ s Q := by
  cases e with
  | none =>
      refine takes_isAt.then ?_
      rw [show Stand.next ⟨optionalTokens w none ++ .symbol close :: rest, depth⟩ =
        .symbol close from rfl, decide_eq_true rfl]
      exact hf none rfl
  | some e =>
      have hne : Stand.next ⟨e.tokens w ++ .symbol close :: rest, depth⟩ ≠ .symbol close :=
        (he e rfl).next_ne hclose
      refine takes_isAt.then ?_
      rw [optionalTokens, Option.elim_some, decide_eq_false hne]
      refine Takes.bind (P := fun e' => e'.map Expr.unplaced = some e.unplaced) (Takes.map ?_) hf
      exact ((he e rfl).takes hfuel (stops_of_grip? hgrip)).mono fun e' he' => congrArg some he'

/-! ### Statements with a keyword of their own -/

theorem readBack_return {value : Option Expr} (hv : ∀ e ∈ value, e.ReadBack w) :
    (Stmt.return value loc).ReadBack w := by
  have hunplaced {value' : Option Expr} {place : Option Location}
      (h : value'.map Expr.unplaced = value.map Expr.unplaced) :
      (Stmt.return value' place).unplaced = (Stmt.return value loc).unplaced := by
    cases value <;> cases value' <;> simp_all [unplaced]
  refine .ofHere (.keyword .return) (optionalTokens w value ++ [.symbol .semicolon])
    (by cases value <;> simp [optionalTokens]) ⟨nofun, nofun, nofun⟩
    fun fuel rest depth hfuel _ => ?_
  simp only [List.length_append, List.length_cons, List.length_nil] at hfuel
  simp only [List.cons_append, List.append_assoc, List.nil_append]
  unfold statementHere
  refine takes_peek.bind fun token htoken => ?_
  rw [show token.kind = .keyword .return from htoken.1]
  refine takes_skip.then ?_
  cases value with
  | none =>
      have hend : Takes mayEnd ⟨.symbol .semicolon :: rest, depth⟩
        ⟨.symbol .semicolon :: rest, depth⟩ fun _ => True :=
          takes_peek.bind fun _ _ => takes_pure trivial
      refine takes_isAt.then (hend.bind fun _ _ => ?_)
      rw [show Stand.next ⟨optionalTokens w none ++ .symbol .semicolon :: rest, depth⟩ =
        .symbol .semicolon from rfl, decide_eq_true rfl]
      refine Takes.then (takes_pure rfl) ?_
      exact takes_semicolon.bind fun _ _ => takes_pure (hunplaced rfl)
  | some e =>
      have he := hv e rfl
      simp only [optionalTokens, Option.elim_some] at hfuel ⊢
      have hne {k : TokenKind} (hk : k.starts = false) :
          Stand.next ⟨e.tokens w ++ .symbol .semicolon :: rest, depth⟩ ≠ k := he.next_ne hk
      refine takes_isAt.then ((takes_mayEnd (hne rfl) (hne rfl)).then ?_)
      rw [decide_eq_false (hne rfl)]
      refine Takes.bind (P := fun value' => value'.map Expr.unplaced = some e.unplaced)
        (Takes.map ?_) fun value' hvalue' =>
          takes_semicolon.bind fun _ _ => takes_pure (hunplaced hvalue')
      exact (he.takes (by omega) (stops_of_grip? rfl)).mono fun e' he' => congrArg some he'

theorem readBack_throw {e : Expr} (he : e.ReadBack w) : (Stmt.throw e).ReadBack w := by
  refine .ofHere (.keyword .throw) (e.tokens w ++ [.symbol .semicolon])
    (by simp) ⟨nofun, nofun, nofun⟩ fun fuel rest depth hfuel _ => ?_
  simp only [List.length_append, List.length_cons, List.length_nil] at hfuel
  simp only [List.cons_append, List.append_assoc, List.nil_append]
  unfold statementHere
  refine takes_peek.bind fun token htoken => ?_
  rw [show token.kind = .keyword .throw from htoken.1]
  refine takes_skip.then (takes_peek.bind fun next hnext => ?_)
  rw [hnext.2]
  refine (he.takes (by omega) (stops_of_grip? rfl)).bind fun e' he' =>
    takes_semicolon.bind fun _ _ => takes_pure (by simp [he'])

theorem readBack_empty : Stmt.empty.ReadBack w := by
  refine .ofHere (.symbol .semicolon) ([]) rfl ⟨nofun, nofun, nofun⟩
    fun fuel rest depth _ _ => ?_
  unfold statementHere
  refine takes_peek.bind fun token htoken => ?_
  rw [show token.kind = .symbol .semicolon from htoken.1]
  exact takes_skip.then (takes_pure rfl)

theorem readBack_break : Stmt.break.ReadBack w := by
  refine .ofHere (.keyword .break) ([.symbol .semicolon]) rfl ⟨nofun, nofun, nofun⟩
    fun fuel rest depth _ _ => ?_
  unfold statementHere
  refine takes_peek.bind fun token htoken => ?_
  rw [show token.kind = .keyword .break from htoken.1]
  exact takes_skip.then (takes_semicolon.bind fun _ _ => takes_pure rfl)

theorem readBack_continue : Stmt.continue.ReadBack w := by
  refine .ofHere (.keyword .continue) ([.symbol .semicolon]) rfl ⟨nofun, nofun, nofun⟩
    fun fuel rest depth _ _ => ?_
  unfold statementHere
  refine takes_peek.bind fun token htoken => ?_
  rw [show token.kind = .keyword .continue from htoken.1]
  exact takes_skip.then (takes_semicolon.bind fun _ _ => takes_pure rfl)

theorem readBack_block {body : List Stmt} (hbody : ∀ s ∈ body, s.ReadBack w) :
    (Stmt.block body).ReadBack w := by
  refine .ofHere (.symbol .leftBrace) (tokensAll w body ++ [.symbol .rightBrace])
    (by simp) ⟨nofun, nofun, nofun⟩ fun fuel rest depth hfuel _ => ?_
  simp only [List.length_append, List.length_cons, List.length_nil] at hfuel
  simp only [List.cons_append, List.append_assoc, List.nil_append]
  unfold statementHere
  refine takes_peek.bind fun token htoken => ?_
  rw [show token.kind = .symbol .leftBrace from htoken.1]
  exact (takes_block hbody (by omega)).bind fun body' hbody' =>
    takes_pure (by simp [hbody'])

theorem readBack_while {test : Expr} {body : Stmt} (ht : test.ReadBack w) (hb : body.ReadBack w) :
    (Stmt.while test body).ReadBack w := by
  refine .ofHere (.keyword .while) (parenthesized (test.tokens w) ++ body.tokens w)
    (by simp) ⟨nofun, nofun, nofun⟩ fun fuel rest depth hfuel hopen => ?_
  simp only [List.length_append, length_parenthesized] at hfuel
  rw [List.cons_append, List.append_assoc, parenthesized_append]
  unfold statementHere
  refine takes_peek.bind fun token htoken => ?_
  rw [show token.kind = .keyword .while from htoken.1]
  refine takes_skip.then (takes_symbol.bind fun _ _ => ?_)
  refine (ht.takes (by omega) (stops_of_grip? rfl)).bind fun test' ht' =>
    takes_symbol.bind fun _ _ => ?_
  exact (hb.takes fuel rest depth (by omega) hopen).bind fun body' hb' =>
    takes_pure (by simp [ht', hb'])

theorem readBack_if {test : Expr} {yes : Stmt} (ht : test.ReadBack w) (hy : yes.ReadBack w) :
    (Stmt.if test yes none).ReadBack w := by
  refine .ofHere (.keyword .if) (parenthesized (test.tokens w) ++ yes.tokens w)
    (by simp) ⟨nofun, nofun, nofun⟩ fun fuel rest depth hfuel hopen => ?_
  simp only [List.length_append, length_parenthesized] at hfuel
  rw [List.cons_append, List.append_assoc, parenthesized_append]
  unfold statementHere
  refine takes_peek.bind fun token htoken => ?_
  rw [show token.kind = .keyword .if from htoken.1]
  refine takes_skip.then (takes_symbol.bind fun _ _ => ?_)
  refine (ht.takes (by omega) (stops_of_grip? rfl)).bind fun test' ht' =>
    takes_symbol.bind fun _ _ => ?_
  refine (hy.takes fuel rest depth (by omega) fun _ => hopen rfl).bind fun yes' hy' => ?_
  exact (takes_eat_other (hopen rfl)).then (takes_pure (by simp [ht', hy']))

theorem readBack_ifElse {test : Expr} {yes no : Stmt} (ht : test.ReadBack w) (hy : yes.ReadBack w)
    (hn : no.ReadBack w) (hclosed : yes.endsOpen = false) :
    (Stmt.if test yes (some no)).ReadBack w := by
  refine .ofHere (.keyword .if) (parenthesized (test.tokens w) ++
    (yes.tokens w ++ .keyword .else :: no.tokens w)) (by simp) ⟨nofun, nofun, nofun⟩
    fun fuel rest depth hfuel hopen => ?_
  simp only [List.length_append, List.length_cons, length_parenthesized] at hfuel
  simp only [List.cons_append, List.append_assoc, parenthesized_append]
  unfold statementHere
  refine takes_peek.bind fun token htoken => ?_
  rw [show token.kind = .keyword .if from htoken.1]
  refine takes_skip.then (takes_symbol.bind fun _ _ => ?_)
  refine (ht.takes (by omega) (stops_of_grip? rfl)).bind fun test' ht' =>
    takes_symbol.bind fun _ _ => ?_
  refine (hy.takes fuel _ depth (by omega) fun h => absurd (hclosed.symm.trans h)
    Bool.false_ne_true).bind fun yes' hy' => takes_eat.then ?_
  exact (hn.takes fuel rest depth (by omega) hopen).bind fun no' hn' =>
    takes_pure (by simp [ht', hy', hn'])

theorem readBack_try {body handler : List Stmt} {param : Option String}
    (hb : ∀ s ∈ body, s.ReadBack w) (hh : ∀ s ∈ handler, s.ReadBack w) :
    (Stmt.try body param handler).ReadBack w := by
  refine .ofHere (.keyword .try) (.symbol .leftBrace :: (tokensAll w body ++
    .symbol .rightBrace :: .keyword .catch ::
      (param.elim [] (fun name => parenthesized [.identifier name]) ++
      .symbol .leftBrace :: (tokensAll w handler ++ [.symbol .rightBrace]))))
    (by simp) ⟨nofun, nofun, nofun⟩ fun fuel rest depth hfuel _ => ?_
  simp only [List.length_append, List.length_cons, List.length_nil] at hfuel
  simp only [List.cons_append, List.append_assoc, List.nil_append]
  unfold statementHere
  refine takes_peek.bind fun token htoken => ?_
  rw [show token.kind = .keyword .try from htoken.1]
  refine takes_skip.then ?_
  match fuel, hfuel with
  | 0, hfuel => omega
  | fuel + 1, hfuel =>
      have hhandler {body' : List Stmt} (hbody' : unplacedAll body' = unplacedAll body) : (do
          return .try body' param (← Read.block fuel) : Read Stmt).Takes
          ⟨.symbol .leftBrace :: (tokensAll w handler ++ .symbol .rightBrace :: rest), depth⟩
          ⟨rest, depth⟩ fun s' => s'.unplaced = (Stmt.try body param handler).unplaced :=
        (takes_block hh (by omega)).bind fun handler' hhandler' =>
          takes_pure (by simp [hbody', hhandler'])
      unfold tryRest
      refine (takes_block hb (by omega)).bind fun body' hbody' => takes_eat.then ?_
      cases param with
      | none => exact (takes_eat_other (by simp)).then (hhandler hbody')
      | some name =>
          rw [Option.elim_some, parenthesized_append]
          exact takes_eat.then (takes_identifier.then
            (takes_symbol.bind fun _ _ => hhandler hbody'))

/-! ### Loops with a head -/

/-- What stands in front of the first semicolon of a `for`. -/
inductive InitReadBack (w : Spelling) : Option Stmt → List TokenKind → Prop
  | none : InitReadBack w none []
  | expr {e : Expr} (h : e.ReadBack w) : InitReadBack w (some (.expr e)) (e.tokens w)
  | declare {kind : DeclKind} {ds : List Declarator} (h : Declares w kind ds) :
      InitReadBack w (some (.declare kind ds))
        (.keyword kind.keyword :: commas (Declarator.tokensEach w ds))

theorem tokens_for {init : Option Stmt} {ts : List TokenKind} (hinit : InitReadBack w init ts)
    {test step : Option Expr} {body : Stmt} :
    (Stmt.for init test step body).tokens w = .keyword .for :: .symbol .leftParen ::
      (ts ++ .symbol .semicolon :: (optionalTokens w test ++ .symbol .semicolon ::
        (optionalTokens w step ++ .symbol .rightParen :: body.tokens w))) := by
  cases hinit <;> cases test <;> cases step <;> simp [optionalTokens, parenthesized]

/-- The rest of a `for`, behind what stands in front of its first semicolon. -/
theorem takes_forRest {init init' : Option Stmt} {test step : Option Expr} {body : Stmt}
    (hinit : init'.map Stmt.unplaced = init.map Stmt.unplaced) (ht : ∀ e ∈ test, e.ReadBack w)
    (hs : ∀ e ∈ step, e.ReadBack w) (hb : body.ReadBack w)
    (hfuel : 24 * ((optionalTokens w test).length + (optionalTokens w step).length +
      (body.tokens w).length) + 26 ≤ fuel)
    (hopen : body.endsOpen → Stand.next ⟨rest, depth⟩ ≠ .keyword .else) :
    (forRest fuel init').Takes ⟨.symbol .semicolon :: (optionalTokens w test ++
      .symbol .semicolon :: (optionalTokens w step ++ .symbol .rightParen ::
        (body.tokens w ++ rest))), depth⟩ ⟨rest, depth⟩
      fun s' => s'.unplaced = (Stmt.for init test step body).unplaced := by
  match fuel, hfuel with
  | 0, hfuel => omega
  | fuel + 1, hfuel =>
      unfold forRest
      refine takes_symbol.bind fun _ _ => takes_optional rfl rfl ht (by omega) fun test' ht' => ?_
      refine takes_symbol.bind fun _ _ => takes_optional rfl rfl hs (by omega) fun step' hs' => ?_
      refine takes_symbol.bind fun _ _ => ?_
      refine (hb.takes fuel rest depth (by omega) hopen).bind fun body' hb' => takes_pure ?_
      rw [unplaced_for, unplaced_for, hinit, ht', hs', hb']

theorem readBack_for {init : Option Stmt} {ts : List TokenKind} (hinit : InitReadBack w init ts)
    {test step : Option Expr} {body : Stmt} (ht : ∀ e ∈ test, e.ReadBack w)
    (hs : ∀ e ∈ step, e.ReadBack w) (hb : body.ReadBack w) :
    (Stmt.for init test step body).ReadBack w := by
  refine .ofHere _ _ (tokens_for hinit) ⟨nofun, nofun, nofun⟩ fun fuel rest depth hfuel hopen => ?_
  simp only [List.length_append, List.length_cons] at hfuel
  simp only [List.cons_append, List.append_assoc]
  unfold statementHere
  refine takes_peek.bind fun token htoken => ?_
  rw [show token.kind = .keyword .for from htoken.1]
  refine takes_skip.then (takes_symbol.bind fun _ _ => ?_)
  match fuel, hfuel with
  | 0, hfuel => omega
  | fuel + 1, hfuel =>
      have hrest {init' : Option Stmt} (h : init'.map Stmt.unplaced = init.map Stmt.unplaced) :
          (forRest fuel init').Takes ⟨.symbol .semicolon :: (optionalTokens w test ++
            .symbol .semicolon :: (optionalTokens w step ++ .symbol .rightParen ::
              (body.tokens w ++ rest))), depth⟩ ⟨rest, depth⟩
            fun s' => s'.unplaced = (Stmt.for init test step body).unplaced :=
        takes_forRest h ht hs hb (by omega) hopen
      unfold forHead
      cases hinit with
      | none => exact takes_isAt.then (hrest rfl)
      | @expr e he =>
          have hkind : DeclKind.ofToken? (Stand.next ⟨e.tokens w ++ .symbol .semicolon ::
              (optionalTokens w test ++ .symbol .semicolon :: (optionalTokens w step ++
                .symbol .rightParen :: (body.tokens w ++ rest))), depth⟩) = none := by
            obtain ⟨k, ks, htokens, hk, -⟩ := he.begins.begins
            rw [htokens]
            show DeclKind.ofToken? k = none
            unfold DeclKind.ofToken?
            split <;> first | rfl | exact absurd hk Bool.false_ne_true
          refine takes_isAt.then ?_
          rw [decide_eq_false (he.next_ne rfl)]
          refine (takes_declKind?_none hkind).then ((takes_bareForIn?_none fun name ks =>
            (he.begins.append (by nofun)).ne_forIn).then ?_)
          refine (he.takes (by omega) (stops_of_grip? rfl)).bind fun e' he' => hrest ?_
          simp [he']
      | @declare kind ds h =>
          obtain ⟨name, ks, htokens, hin, htakes⟩ := h.takes
          simp only [htokens, List.length_cons] at hfuel
          rw [htokens]
          have hkeyword : Stand.next ⟨.keyword kind.keyword :: (.identifier name :: ks ++
              .symbol .semicolon :: (optionalTokens w test ++ .symbol .semicolon ::
                (optionalTokens w step ++ .symbol .rightParen :: (body.tokens w ++ rest)))),
              depth⟩ ≠ .symbol .semicolon := nofun
          refine takes_isAt.then ?_
          rw [List.cons_append, decide_eq_false hkeyword]
          refine takes_declKind?.then (takes_loc.bind fun place _ => takes_identifier.then
            ((takes_eat_other (hin _ depth)).then ?_))
          refine (htakes fuel place _ depth (by omega)).bind fun ds' hds' => hrest ?_
          simp [hds']

/-- What stands in front of the name in the head of a loop over keys. -/
theorem readBack_forIn {kind : Option DeclKind} {name : String} {object : Expr} {body : Stmt}
    (ho : object.ReadBack w) (hb : body.ReadBack w) :
    (Stmt.forIn kind name object body).ReadBack w := by
  refine .ofHere (.keyword .for) (.symbol .leftParen ::
    ((kind.map fun k => .keyword k.keyword).toList ++ .identifier name :: .keyword .in ::
      (object.tokens w ++ .symbol .rightParen :: body.tokens w)))
    (by simp [parenthesized]) ⟨nofun, nofun, nofun⟩ fun fuel rest depth hfuel hopen => ?_
  simp only [List.length_append, List.length_cons] at hfuel
  simp only [List.cons_append, List.append_assoc]
  unfold statementHere
  refine takes_peek.bind fun token htoken => ?_
  rw [show token.kind = .keyword .for from htoken.1]
  refine takes_skip.then (takes_symbol.bind fun _ _ => ?_)
  obtain ⟨fuel, rfl⟩ : ∃ n, fuel = n + 2 := ⟨fuel - 2, by omega⟩
  have hrest : (forInRest (fuel + 1) kind name).Takes
      ⟨object.tokens w ++ .symbol .rightParen :: (body.tokens w ++ rest), depth⟩ ⟨rest, depth⟩
      fun s' => s'.unplaced = (Stmt.forIn kind name object body).unplaced := by
    unfold forInRest
    refine (ho.takes (by omega) (stops_of_grip? rfl)).bind fun object' ho' =>
      takes_symbol.bind fun _ _ => ?_
    exact (hb.takes fuel rest depth (by omega) hopen).bind fun body' hb' =>
      takes_pure (by simp [ho', hb'])
  unfold forHead
  cases kind with
  | none =>
      exact takes_isAt.then ((takes_declKind?_none rfl).then (takes_bareForIn?.then hrest))
  | some kind =>
      exact takes_isAt.then (takes_declKind?.then (takes_loc.bind fun _ _ =>
        takes_identifier.then (takes_eat.then hrest)))

end Stmt

end Lineage
