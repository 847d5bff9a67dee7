import Lineage.Proofs.Grammar.Statements

/-!
# Every program of the grammar is read back

Each node of a tree is read back if its children are, so the whole tree is. A
program that is written as tokens on one line, with all semicolons and with no more
parentheses than it takes, is read as the program again, apart from places, unless
it nests too deeply.
-/

namespace Lineage

open Read

variable {w : Spelling}

/-- A property of nodes that passes from the children of a node to the node holds of all. -/
theorem Node.induct {P : Node → Prop} (h : ∀ n : Node, (∀ c ∈ n.children, P c) → P n)
    (n : Node) : P n :=
  h n fun c _ => induct h c
termination_by n.weight
decreasing_by
  rename_i hc
  have hmem : ∀ {ns : List Node}, c ∈ ns → c.weight ≤ Node.totalWeight ns := by
    intro ns hns
    induction ns with
    | nil => cases hns
    | cons m ns ih =>
        rw [Node.totalWeight_cons]
        rcases List.mem_cons.mp hns with rfl | hns
        · exact Nat.le_add_right _ _
        · exact Nat.le_trans (ih hns) (Nat.le_add_left _ _)
  exact Nat.lt_of_le_of_lt (hmem hc) n.totalWeight_children

/-- A node is read back. -/
def Node.ReadBack (w : Spelling) : Node → Prop
  | stmt s => s.ReadBack w
  | expr e => e.ReadBack w

/-- Literals, names and functions of the grammar, and what is made of expressions. -/
theorem Node.readBack_expr (e : Expr) (hn : (Node.expr e).Shaped)
    (hc : ∀ c ∈ (Node.expr e).children, c.ReadBack w) : e.ReadBack w := by
  cases e with
  | number loc x => exact .ofLiteral (k := .number x) rfl rfl rfl fun _ => rfl
  | string loc s => exact .ofLiteral (k := .string s) rfl rfl rfl fun _ => rfl
  | bool loc b =>
      cases b with
      | true => exact .ofLiteral (k := .keyword .true) rfl rfl rfl fun _ => rfl
      | false => exact .ofLiteral (k := .keyword .false) rfl rfl rfl fun _ => rfl
  | null loc => exact .ofLiteral (k := .keyword .null) rfl rfl rfl fun _ => rfl
  | undefined loc => exact .ofLiteral (k := .keyword .undefined) rfl rfl rfl fun _ => rfl
  | this loc => exact .ofLiteral (k := .keyword .this) rfl rfl rfl fun _ => rfl
  | ident loc name => exact .ofLiteral (k := .identifier name) rfl rfl rfl fun _ => rfl
  | binary loc op l r =>
      show ((Joint.binary op).join loc l r).ReadBack w
      exact .join (hc (.expr l) (by simp [children])) (hc (.expr r) (by simp [children]))
  | logical loc op l r =>
      show ((Joint.logical op).join loc l r).ReadBack w
      exact .join (hc (.expr l) (by simp [children])) (hc (.expr r) (by simp [children]))
  | unary loc op e => exact .unary (hc (.expr e) (by simp [children]))
  | update loc op inFront target => exact .update (hc (.expr target) (by simp [children])) hn
  | member loc o name => exact .member (hc (.expr o) (by simp [children]))
  | index loc o key =>
      exact .index (hc (.expr o) (by simp [children])) (hc (.expr key) (by simp [children]))
  | call loc callee args =>
      exact .call (hc (.expr callee) (by simp [children])) fun a ha =>
        hc (.expr a) (by simp [children, ofExprs, ha])
  | object loc ps =>
      have hin {p : Property} (hp : p ∈ ps) {c : Node} (h : c ∈ ofProperty p) : c.ReadBack w :=
        hc c (List.mem_flatMap.mpr ⟨p, hp, h⟩)
      refine .object fun p hp => ?_
      cases p with
      | init key value loc =>
          exact Property.readBack_init (hin (c := .expr value) hp (by simp [ofProperty]))
      | function key role f loc =>
          have hname : f.name = some key := of_decide_eq_true (hn _ hp)
          exact .function hname (Func.readBack fun s hs =>
            hin (c := .stmt s) hp (by simp [ofProperty, ofStmts, hs]))
  | array loc es => exact .array fun e he => hc (.expr e) (by simp [children, ofExprs, he])
  | function loc f =>
      exact .function (Func.readBack fun s hs => hc (.stmt s) (by simp [children, ofStmts, hs]))
  | assign loc op target value =>
      exact .assign (hc (.expr target) (by simp [children])) hn
        (hc (.expr value) (by simp [children]))
  | conditional loc test yes no =>
      exact .conditional (hc (.expr test) (by simp [children]))
        (hc (.expr yes) (by simp [children])) (hc (.expr no) (by simp [children]))
  | operation | shadow | lastObject => exact hn.elim

/-- The head of a `for` is read back if what its first part is made of is. -/
theorem Node.initReadBack {init : Option Stmt} (hinit : ∀ s ∈ init, s.isInit)
    (hn : ∀ s ∈ init, (Node.stmt s).Shaped)
    (hc : ∀ s ∈ init, ∀ c ∈ (Node.stmt s).children, c.ReadBack w) :
    ∃ ts, Stmt.InitReadBack w init ts := by
  cases init with
  | none => exact ⟨_, .none⟩
  | some s =>
      cases s with
      | expr e => exact ⟨_, .expr (hc _ rfl (.expr e) (by simp [children]))⟩
      | declare kind ds =>
          obtain ⟨hne, hds⟩ := hn _ rfl
          refine ⟨_, .declare ⟨hne, fun d hd => ⟨hds d hd, fun e he => hc _ rfl (.expr e) ?_⟩⟩⟩
          exact List.mem_map.mpr ⟨e, List.mem_filterMap.mpr ⟨d, hd, he⟩, rfl⟩
      | _ => exact absurd (hinit _ rfl) Bool.false_ne_true

/-- Statements of the grammar. -/
theorem Node.readBack_stmt (s : Stmt) (hn : (Node.stmt s).Everywhere Shaped)
    (hc : ∀ c ∈ (Node.stmt s).children, c.ReadBack w)
    (hg : ∀ c ∈ (Node.stmt s).children, ∀ g ∈ c.children, g.ReadBack w) : s.ReadBack w := by
  have here := hn.here
  cases s with
  | expr e => exact Stmt.readBack_expr (hc (.expr e) (by simp [children]))
  | declare kind ds =>
      refine Stmt.readBack_declare ⟨here.1, fun d hd => ⟨here.2 d hd, fun e he => hc (.expr e) ?_⟩⟩
      exact List.mem_map.mpr ⟨e, List.mem_filterMap.mpr ⟨d, hd, he⟩, rfl⟩
  | function f =>
      exact Stmt.readBack_function here (Func.readBack fun s hs =>
        hc (.stmt s) (by simp [children, ofStmts, hs]))
  | «return» value loc =>
      exact Stmt.readBack_return fun e he => hc (.expr e) (by simp_all [children, ofExprs])
  | «if» test yes no =>
      have ht := hc (.expr test) (by simp [children])
      have hy := hc (.stmt yes) (by simp [children])
      cases no with
      | none => exact Stmt.readBack_if ht hy
      | some no =>
          have hclosed : yes.endsOpen = false := by simpa [Shaped] using here
          exact Stmt.readBack_ifElse ht hy (hc (.stmt no) (by simp [children, ofStmts])) hclosed
  | «while» test body =>
      exact Stmt.readBack_while (hc (.expr test) (by simp [children]))
        (hc (.stmt body) (by simp [children]))
  | «for» init test step body =>
      have hmem {s : Stmt} (hs : s ∈ init) :
          Node.stmt s ∈ children (.stmt (.for init test step body)) := by
        simp_all [children, ofStmts]
      have hisInit : ∀ s ∈ init, s.isInit := fun s hs => by cases hs; exact here
      obtain ⟨ts, hinit⟩ := initReadBack hisInit (fun s hs => (hn.child (hmem hs)).here)
        fun s hs => hg _ (hmem hs)
      exact Stmt.readBack_for hinit (fun e he => hc (.expr e) (by simp_all [children, ofExprs]))
        (fun e he => hc (.expr e) (by simp_all [children, ofExprs]))
        (hc (.stmt body) (by simp [children]))
  | forIn kind name object body =>
      exact Stmt.readBack_forIn (hc (.expr object) (by simp [children]))
        (hc (.stmt body) (by simp [children]))
  | block body =>
      exact Stmt.readBack_block fun s hs => hc (.stmt s) (by simp [children, ofStmts, hs])
  | «break» => exact Stmt.readBack_break
  | «continue» => exact Stmt.readBack_continue
  | throw e => exact Stmt.readBack_throw (hc (.expr e) (by simp [children]))
  | «try» body param handler =>
      exact Stmt.readBack_try (fun s hs => hc (.stmt s) (by simp [children, ofStmts, hs]))
        fun s hs => hc (.stmt s) (by simp [children, ofStmts, hs])
  | empty => exact Stmt.readBack_empty
  | trackParameters => exact here.elim

/-- **A tree of the grammar is read back.** -/
theorem Node.readBack (n : Node) (hn : n.Everywhere Shaped) :
    n.ReadBack w ∧ ∀ c ∈ n.children, c.ReadBack w := by
  induction n using Node.induct with
  | h n ih =>
      have hc (c : Node) (h : c ∈ n.children) := ih c h (hn.child h)
      refine ⟨?_, fun c h => (hc c h).1⟩
      cases n with
      | expr e => exact readBack_expr e hn.here fun c h => (hc c h).1
      | stmt s => exact readBack_stmt s hn (fun c h => (hc c h).1) fun c h => (hc c h).2

/-! ## Programs -/

theorem Read.takes_program {program : Program} : ∀ {fuel : Nat}, (∀ s ∈ program, s.ReadBack w) →
    24 * (Stmt.tokensAll w program).length + 2 ≤ fuel →
    (Read.program fuel).Takes ⟨Stmt.tokensAll w program, 0⟩ ⟨[], 0⟩
      fun p => Stmt.unplacedAll p = Stmt.unplacedAll program := by
  induction program with
  | nil =>
      rintro (_ | fuel) _ hfuel
      · omega
      · exact takes_isAt.then (takes_pure rfl)
  | cons s ss ih =>
      rintro (_ | fuel) hprogram hfuel
      · omega
      have hs := hprogram s List.mem_cons_self
      have hss : ∀ s ∈ ss, s.ReadBack w := fun s hs => hprogram s (List.mem_cons_of_mem _ hs)
      obtain ⟨k, ks, htokens, -, hending, -⟩ := hs.begins
      have hpos : 0 < (s.tokens w).length := by
        rw [htokens]
        exact Nat.succ_pos _
      have hnext : Stand.next ⟨Stmt.tokensAll w (s :: ss), 0⟩ ≠ .ending := by
        rw [Stmt.tokensAll, htokens]
        exact hending
      -- the next statement does not begin with an else that this one would take
      have helse : Stand.next ⟨Stmt.tokensAll w ss, 0⟩ ≠ .keyword .else := by
        cases ss with
        | nil => nofun
        | cons s' ss =>
            obtain ⟨k', ks', htokens', -, -, helse⟩ := (hss s' List.mem_cons_self).begins
            rw [Stmt.tokensAll, htokens']
            exact helse
      unfold Read.program
      refine takes_isAt.then ?_
      rw [decide_eq_false hnext]
      rw [Stmt.tokensAll, List.length_append] at hfuel
      rw [Stmt.tokensAll]
      refine (hs.takes fuel _ 0 (by omega) fun _ => helse).bind fun s' hs' =>
        (ih hss (by omega)).bind fun ss' hss' => takes_pure ?_
      rw [Stmt.unplacedAll, Stmt.unplacedAll, hs', hss']

namespace Program

/--
**Every program of the grammar is read back.** Written on one line, it is read as
the same program again, apart from places, unless it is reported that it nests too
deeply.
-/
theorem ofTokens_tokens (w : Spelling) {program : Program} (hp : program.Shaped)
    {ts : List Token} (hkinds : ts.map Token.kind = program.tokens w)
    (hline : ∀ t ∈ ts, t.newlineBefore = false) :
    (∃ loc, ofTokens ts = .error (.tooDeep maxDepth loc)) ∨
      ∃ read, ofTokens ts = .ok read ∧ Stmt.unplacedAll read = Stmt.unplacedAll program := by
  cases ts with
  | nil =>
      have hlength := congrArg List.length hkinds
      simp [tokens] at hlength
  | cons here ahead =>
      have hlength := congrArg List.length hkinds
      simp only [tokens, List.length_map, List.length_cons, List.length_append,
        List.length_nil] at hlength
      have hread := takes_program (fun s hs => (Node.readBack (w := w) _ (hp s hs)).1)
        (show 24 * _ + 2 ≤ 24 * (ahead.length + 2) by omega) ⟨here, ahead, 0⟩ ⟨hkinds, hline, rfl⟩
      show (∃ loc, ((Read.program (24 * (ahead.length + 2))) ⟨here, ahead, 0⟩ >>= fun p =>
          if maxDepth < nestingDepth p.1 then throw (.tooDeep maxDepth none) else pure p.1) =
            Except.error (ParseError.tooDeep maxDepth loc)) ∨
        ∃ read, ((Read.program (24 * (ahead.length + 2))) ⟨here, ahead, 0⟩ >>= fun p =>
          if maxDepth < nestingDepth p.1 then throw (.tooDeep maxDepth none) else pure p.1) =
            Except.ok read ∧ Stmt.unplacedAll read = Stmt.unplacedAll program
      cases hrun : Read.program (24 * (ahead.length + 2)) ⟨here, ahead, 0⟩ with
      | error e =>
          rw [hrun] at hread
          obtain ⟨loc, rfl⟩ := hread
          exact .inl ⟨loc, rfl⟩
      | ok p =>
          rw [hrun] at hread
          -- what was read may still nest too deeply, which is reported without a place
          by_cases hdepth : maxDepth < nestingDepth p.1
          · exact .inl ⟨none, if_pos hdepth⟩
          · exact .inr ⟨p.1, if_neg hdepth, hread.2⟩

/-- Keys and members are written as plain names. -/
def plainSpelling : Spelling where
  key := .identifier
  member := .identifier
  key?_key _ := rfl
  member?_member _ := rfl

/--
`if (a) for (const k = b; ; ) o.get = { get get() { return -(a + b) * c; } }; else ({});`,
where an object literal starts a statement, an accessor is called like the word that
makes it one, and a sum is an operand of a product.
-/
def sample : Program :=
  let name s := Expr.ident none s
  let sum := Expr.unary none .minus (.binary none .add (name "a") (name "b"))
  let body := [Stmt.return (some (.binary none .mul sum (name "c"))) none]
  let accessor := Property.function "get" .getter (.mk (some "get") [] body none) none
  [.if (name "a")
    (.for (some (.declare .const [.mk "k" (some (name "b")) false none])) none none
      (.expr (.assign none .assign (.member none (name "o") "get") (.object none [accessor]))))
    (some (.expr (.object none [])))]

theorem ofTokens_tokens_sample : sample.Shaped ∧
    ((∃ loc, ofTokens ((sample.tokens plainSpelling).map fun k => ⟨k, ⟨1, 1⟩, false⟩) =
        .error (.tooDeep maxDepth loc)) ∨
      ∃ read, ofTokens ((sample.tokens plainSpelling).map fun k => ⟨k, ⟨1, 1⟩, false⟩) =
        .ok read ∧ Stmt.unplacedAll read = Stmt.unplacedAll sample) := by
  have hshaped : sample.Shaped := by
    intro s hs
    have hholds : (Node.stmt s).holdsWithin (fun n => decide n.Shaped) 10 := by
      cases List.mem_singleton.mp hs
      decide
    exact (Node.everywhere_of_holdsWithin hholds).mono fun n hn => of_decide_eq_true hn
  exact ⟨hshaped, ofTokens_tokens plainSpelling hshaped (by simp [Function.comp_def]) (by simp)⟩

end Program

end Lineage
