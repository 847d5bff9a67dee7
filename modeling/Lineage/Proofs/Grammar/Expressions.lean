import Lineage.Proofs.Grammar.Chains

/-!
# Reading back expressions

One statement for each form of expression: it is read back if the expressions in
it are. Functions are read back if their bodies are, which is about statements.
-/

namespace Lineage

open Read Written

variable {w : Spelling} {e : Expr} {fuel : Nat} {rest : List TokenKind} {depth : Nat}
  {loc : Option Location}

-- Text and places of what is written follow the form.
attribute [local simp] Expr.tokens Func.tokens Expr.tokensEach Property.tokensEach
  Expr.unplaced Func.unplaced Expr.unplacedAll Property.unplacedAll

/-- A function is read back, from its parameters on. -/
def Func.ReadBack (w : Spelling) (f : Func) : Prop :=
  ∀ (fuel : Nat) (loc : Option Location) (rest : List TokenKind) (depth : Nat),
    24 * (f.tokens w).length ≤ fuel →
    (functionRest fuel f.name loc).Takes ⟨f.tokens w ++ rest, depth⟩ ⟨rest, depth⟩
      fun f' => f'.unplaced = f.unplaced

namespace Expr

/-! ## Expressions where any can stand -/

theorem ReadBack.takes (h : e.ReadBack w) (hfuel : 24 * (e.tokens w).length + 23 ≤ fuel)
    (hstops : Stops 0 rest) : (assignment fuel).Takes ⟨e.tokens w ++ rest, depth⟩ ⟨rest, depth⟩
      fun e' => e'.unplaced = e.unplaced := by
  have h0 := h.readAt 0 (Nat.zero_le 11) fuel rest depth
  rw [written_of_le (Nat.zero_le _)] at h0
  exact h0 hfuel hstops

theorem ReadBack.next_ne {k : TokenKind} (h : e.ReadBack w) (hk : k.starts = false) :
    Stand.next ⟨e.tokens w ++ rest, depth⟩ ≠ k := h.begins.next_ne hk

/-- A token that closes a list. -/
def Closes (close : Symbol) : Prop :=
  TokenKind.starts (.symbol close) = false ∧ close ≠ .comma ∧
    TokenKind.grip? (.symbol close) = none

theorem takes_expressions {close : Symbol} (hclose : Closes close) {es : List Expr} :
    ∀ {fuel : Nat}, (∀ e ∈ es, e.ReadBack w) →
    24 * (commas (Expr.tokensEach w es)).length + 24 ≤ fuel →
    (expressions fuel close).Takes
      ⟨commas (Expr.tokensEach w es) ++ .symbol close :: rest, depth⟩ ⟨rest, depth⟩
      fun es' => unplacedAll es' = unplacedAll es := by
  induction es with
  | nil =>
      rintro (_ | fuel) _ hfuel
      · cases hfuel
      · exact takes_eat.then (takes_pure rfl)
  | cons e es ih =>
      rintro (_ | fuel) hes hfuel
      · cases hfuel
      have he := hes e List.mem_cons_self
      have hopen : Stand.next ⟨commas (Expr.tokensEach w (e :: es)) ++ .symbol close :: rest,
          depth⟩ ≠ .symbol close := by
        cases es with
        | nil => exact he.next_ne hclose.1
        | cons e' es =>
            simp only [Expr.tokensEach, commas, List.append_assoc]
            exact he.next_ne hclose.1
      refine (takes_eat_other hopen).then ?_
      cases es with
      | nil =>
          refine (he.takes (by simpa [commas] using hfuel)
            (stops_of_grip? hclose.2.2)).bind fun e' he' => ?_
          refine (takes_eat_other ?_).then (takes_expect.bind fun _ _ => takes_pure ?_)
          · exact fun h => hclose.2.1 (TokenKind.symbol.inj h)
          · simp [he']
      | cons next es =>
          have hlength : 24 * (e.tokens w).length +
              24 * (commas (Expr.tokensEach w (next :: es))).length + 48 ≤ fuel + 1 := by
            simp only [Expr.tokensEach, commas, List.length_append, List.length_cons] at hfuel ⊢
            omega
          simp only [Expr.tokensEach, commas, List.append_assoc, List.cons_append]
          refine (he.takes (by omega) (stops_of_grip? rfl)).bind fun e' he' => ?_
          refine takes_eat.then ((ih (fun e he => hes e (List.mem_cons_of_mem _ he))
            (by omega)).bind fun es' hes' => takes_pure ?_)
          rw [unplacedAll, unplacedAll, he', hes']

/-! ## Primary expressions -/

theorem ReadBack.ofPrimary (hlevel : e.level = 11) (hbegins : Begins 11 (e.tokens w))
    (h : ∀ (fuel : Nat) (rest : List TokenKind) (depth : Nat), 24 * (e.tokens w).length ≤ fuel →
      (primary (fuel + 1)).Takes ⟨e.tokens w ++ rest, depth⟩ ⟨rest, depth⟩
        fun e' => e'.unplaced = e.unplaced) : e.ReadBack w := by
  refine .ofReadAt (hlevel ▸ hbegins) ?_ (fun t ht => ?_) (by omega)
  · rw [hlevel]
    intro fuel rest depth hfuel _
    rw [written_of_le (Nat.le_of_eq hlevel.symm)] at hfuel ⊢
    match fuel, hfuel with
    | 0, hfuel => omega
    | fuel + 1, hfuel => exact h fuel rest depth (by omega)
  · have := t.level_le
    omega

/-- What starts with a token other than a name. -/
theorem begins_cons {level : Nat} {k : TokenKind} {ks : List TokenKind} (hk : k.startsOperand)
    (hname : ∀ name, k ≠ .identifier name) : Begins level (k :: ks) :=
  ⟨k, ks, rfl, by simp [TokenKind.starts, hk], fun _ => hk, fun name h => absurd h (hname name)⟩

/-- The expression that a single token is, wherever it stands. -/
def literal? : TokenKind → Option (Option Location → Expr)
  | .number x => some fun loc => .number loc x
  | .string s => some fun loc => .string loc s
  | .identifier name => some fun loc => .ident loc name
  | .keyword .true => some fun loc => .bool loc true
  | .keyword .false => some fun loc => .bool loc false
  | .keyword .null => some .null
  | .keyword .undefined => some .undefined
  | .keyword .this => some .this
  | _ => none

/-- A single token. -/
theorem ReadBack.ofLiteral {k : TokenKind} {f : Option Location → Expr} (hk : literal? k = some f)
    (htokens : (f loc).tokens w = [k]) (hlevel : (f loc).level = 11)
    (hplace : ∀ loc', (f loc').unplaced = (f loc).unplaced) : (f loc).ReadBack w := by
  refine .ofPrimary hlevel ?_ fun fuel rest depth _ => ?_
  · have hstarts : k.startsOperand := by
      unfold literal? at hk
      split at hk <;> first | rfl | cases hk
    rw [htokens]
    exact ⟨k, [], rfl, by simp [TokenKind.starts, hstarts], fun _ => hstarts, fun _ _ => nofun⟩
  · rw [htokens]
    unfold primary
    refine takes_advance.bind fun token htoken => ?_
    rw [htoken]
    unfold literal? at hk
    split at hk <;> first
      | (obtain rfl := Option.some.inj hk; exact takes_pure (hplace _))
      | cases hk

theorem ReadBack.function {f : Func} (hf : f.ReadBack w) : (Expr.function loc f).ReadBack w := by
  refine .ofPrimary rfl (begins_cons rfl nofun) fun fuel rest depth hfuel => ?_
  have hlength : 24 * (f.tokens w).length ≤ fuel := by
    simp only [tokens, List.length_append, List.length_cons] at hfuel
    omega
  have hrest (loc' : Option Location) : (do
      return Expr.function loc' (← functionRest fuel f.name loc') : Read Expr).Takes
        ⟨f.tokens w ++ rest, depth⟩ ⟨rest, depth⟩
        fun e' => e'.unplaced = (Expr.function loc f).unplaced :=
    (hf fuel loc' rest depth hlength).bind fun f' hf' => takes_pure (by simp [hf'])
  unfold primary
  refine takes_advance.bind fun token htoken => ?_
  rw [htoken]
  refine takes_peek.bind fun next hnext => ?_
  obtain ⟨name, params, body, floc⟩ := f
  cases name with
  | some name =>
      rw [hnext.1]
      exact takes_skip.then (hrest _)
  | none =>
      have hparen : next.kind = .symbol .leftParen :=
        hnext.1.trans (by simp [Func.name, parenthesized])
      rw [hparen]
      exact hrest _

theorem closes_rightParen : Closes .rightParen := ⟨rfl, nofun, rfl⟩

theorem closes_rightBracket : Closes .rightBracket := ⟨rfl, nofun, rfl⟩

theorem ReadBack.array {es : List Expr} (hes : ∀ e ∈ es, e.ReadBack w) :
    (Expr.array loc es).ReadBack w := by
  refine .ofPrimary rfl (begins_cons rfl nofun) fun fuel rest depth hfuel => ?_
  simp only [tokens, List.length_append, List.length_cons, List.length_nil] at hfuel
  simp only [tokens, List.cons_append, List.append_assoc, List.nil_append]
  unfold primary
  refine takes_advance.bind fun token htoken => ?_
  rw [htoken]
  refine (takes_expressions closes_rightBracket hes (by omega)).bind fun es' hes' => ?_
  exact takes_pure (by simp [hes'])

end Expr

/-! ## Properties -/

namespace Property

variable {p : Property} {key : String} {f : Func} {ps : List Property}

/-- How a property is written. -/
def written (w : Spelling) (p : Property) : List TokenKind := (tokensEach w [p]).flatten

theorem tokensEach_cons : tokensEach w (p :: ps) = p.written w :: tokensEach w ps := by
  rcases p with _ | ⟨_, role, _, _⟩
  · simp [written]
  · cases role <;> simp [written]

theorem unplacedAll_cons : unplacedAll (p :: ps) = unplacedAll [p] ++ unplacedAll ps := by
  cases p <;> simp

/-- A property is read back. -/
def ReadBack (w : Spelling) (p : Property) : Prop :=
  ∀ (fuel : Nat) (rest : List TokenKind) (depth : Nat),
    24 * (p.written w).length + 23 ≤ fuel → Stops 0 rest →
    (property fuel).Takes ⟨p.written w ++ rest, depth⟩ ⟨rest, depth⟩
      fun p' => unplacedAll [p'] = unplacedAll [p]

theorem readBack_init {value : Expr} (hv : value.ReadBack w) :
    (Property.init key value loc).ReadBack w := by
  intro fuel rest depth hfuel hstops
  have hwritten : (Property.init key value loc).written w =
      w.key key :: .symbol .colon :: value.tokens w := by simp [written]
  rw [hwritten] at hfuel ⊢
  simp only [List.length_cons] at hfuel
  match fuel, hfuel with
  | 0, hfuel => omega
  | fuel + 1, hfuel =>
      unfold property
      refine takes_loc.bind fun place _ => (takes_propertyKey (w.key?_key key)).bind
        fun (key', isIdentifier) hkey => takes_peek.bind fun following hfollowing => ?_
      obtain rfl : key' = key := hkey
      rw [show following.kind = .symbol .colon from hfollowing.1]
      simp only [decide_true, Bool.true_or, Bool.not_true, Bool.and_false, Bool.false_eq_true,
        ↓reduceIte]
      refine takes_skip.then ((hv.takes (by omega) hstops).bind fun value' hv' => takes_pure ?_)
      simp [hv']

theorem readBack_method (hname : f.name = some key) (hf : f.ReadBack w) :
    (Property.function key .method f loc).ReadBack w := by
  intro fuel rest depth hfuel hstops
  have hwritten : (Property.function key .method f loc).written w = w.key key :: f.tokens w := by
    simp [written]
  rw [hwritten] at hfuel ⊢
  simp only [List.length_cons] at hfuel
  match fuel, hfuel with
  | 0, hfuel => omega
  | fuel + 1, hfuel =>
      unfold property
      refine takes_loc.bind fun place _ => (takes_propertyKey (w.key?_key key)).bind
        fun (key', isIdentifier) hkey => takes_peek.bind fun following hfollowing => ?_
      obtain rfl : key' = key := hkey
      have hparen : Stand.next ⟨f.tokens w ++ rest, depth⟩ = .symbol .leftParen := by
        cases f
        simp [parenthesized]
      have hkind : following.kind = .symbol .leftParen := hfollowing.1.trans hparen
      rw [hkind]
      simp only [decide_true, Bool.true_or, Bool.or_true, Bool.not_true,
        Bool.and_false, Bool.false_eq_true, ↓reduceIte]
      rw [← hname]
      refine (hf fuel place rest depth (by omega)).bind fun f' hf' => takes_pure ?_
      simp [hf']

/-- The words that begin an accessor. -/
theorem readBack_accessor {role : FunctionRole} (word : String)
    (hrole : role = if word = "get" then .getter else .setter) (hword : word = "get" ∨ word = "set")
    (hwritten : (Property.function key role f loc).written w =
      .identifier word :: w.key key :: f.tokens w)
    (hname : f.name = some key) (hf : f.ReadBack w) :
    (Property.function key role f loc).ReadBack w := by
  intro fuel rest depth hfuel hstops
  rw [hwritten] at hfuel ⊢
  simp only [List.length_cons] at hfuel
  match fuel, hfuel with
  | 0, hfuel => omega
  | fuel + 1, hfuel =>
      unfold property
      refine takes_loc.bind fun place _ => takes_propertyKey_identifier.then
        (takes_peek.bind fun following hfollowing => ?_)
      have hkind : following.kind = w.key key := hfollowing.1
      have hkey := w.key?_key key
      have hnokey : ∀ c : Symbol, w.key key ≠ .symbol c := by
        intro c hc
        rw [hc] at hkey
        cases hkey
      have hisword : (decide (word = "get") || decide (word = "set")) = true := by simpa using hword
      rw [hkind]
      simp only [hnokey, hisword, decide_false, Bool.or_self, Bool.not_false, Bool.and_self,
        ↓reduceIte]
      refine (takes_propertyKey hkey).bind fun (key', isIdentifier) hkey' => ?_
      obtain rfl : key' = key := hkey'
      dsimp only
      rw [← hname]
      refine (hf fuel place rest depth (by omega)).bind fun f' hf' => takes_pure ?_
      simp [hf', hrole]

theorem ReadBack.function {role : FunctionRole} (hname : f.name = some key)
    (hf : f.ReadBack w) : (Property.function key role f loc).ReadBack w := by
  cases role with
  | method => exact readBack_method hname hf
  | getter =>
      exact readBack_accessor "get" rfl (.inl rfl) (by simp [written]) hname hf
  | setter =>
      exact readBack_accessor "set" rfl (.inr rfl) (by simp [written]) hname hf

/-- What stands first in a property is no symbol. -/
theorem next_written_ne {c : Symbol} :
    Stand.next ⟨p.written w ++ rest, depth⟩ ≠ .symbol c := by
  have hnokey (key : String) : w.key key ≠ .symbol c := fun h => by
    have hkey := w.key?_key key
    rw [h] at hkey
    cases hkey
  rcases p with _ | ⟨_, role, _, _⟩
  · simp [written, hnokey]
  · cases role <;> simp [written, hnokey]

theorem takes_properties : ∀ {fuel : Nat}, (∀ p ∈ ps, p.ReadBack w) →
    24 * (commas (tokensEach w ps)).length + 24 ≤ fuel →
    (properties fuel).Takes ⟨commas (tokensEach w ps) ++ .symbol .rightBrace :: rest, depth⟩
      ⟨rest, depth⟩ fun ps' => unplacedAll ps' = unplacedAll ps := by
  induction ps with
  | nil =>
      rintro (_ | fuel) _ hfuel
      · cases hfuel
      · exact takes_eat.then (takes_pure rfl)
  | cons p ps ih =>
      rintro (_ | fuel) hps hfuel
      · cases hfuel
      have hp := hps p List.mem_cons_self
      rw [tokensEach_cons] at hfuel ⊢
      cases ps with
      | nil =>
          simp only [tokensEach, commas] at hfuel ⊢
          refine (takes_eat_other next_written_ne).then ((hp fuel _ _ (by omega)
            (stops_of_grip? rfl)).bind fun p' hp' => ?_)
          exact (takes_eat_other (by simp)).then (takes_expect.bind fun _ _ => takes_pure hp')
      | cons next ps =>
          have hlength : 24 * (p.written w).length +
              24 * (commas (tokensEach w (next :: ps))).length + 48 ≤ fuel + 1 := by
            simp only [tokensEach_cons, commas, List.length_append, List.length_cons] at hfuel ⊢
            omega
          rw [tokensEach_cons] at hlength ih ⊢
          simp only [commas, List.append_assoc, List.cons_append]
          refine (takes_eat_other next_written_ne).then ((hp fuel _ _ (by omega)
            (stops_of_grip? rfl)).bind fun p' hp' => takes_eat.then ?_)
          refine (ih (fun p hp => hps p (List.mem_cons_of_mem _ hp)) (by omega)).bind
            fun ps' hps' => takes_pure ?_
          rw [unplacedAll_cons, unplacedAll_cons (p := p), hp', hps']

end Property

/-! ## The other forms -/

namespace Expr

theorem ReadBack.object {ps : List Property} (hps : ∀ p ∈ ps, p.ReadBack w) :
    (Expr.object loc ps).ReadBack w := by
  refine .ofPrimary rfl (begins_cons rfl nofun) fun fuel rest depth hfuel => ?_
  simp only [tokens, List.length_append, List.length_cons, List.length_nil] at hfuel
  simp only [tokens, List.cons_append, List.append_assoc, List.nil_append]
  unfold primary
  refine takes_advance.bind fun token htoken => ?_
  rw [htoken]
  refine (Property.takes_properties hps (by omega)).bind fun ps' hps' => ?_
  exact takes_pure (by simp [hps'])

/-- What is written with a prefix or a postfix, or as an assignment or a choice, is no chain. -/
theorem ReadBack.ofOwn (level : Nat) (hlevel : e.level = level)
    (hchain : ∀ t : Tier, level ≠ t.level) (hlinks : level ≠ 10)
    (hbegins : Begins level (e.tokens w))
    (h : ∀ (fuel : Nat) (rest : List TokenKind) (depth : Nat),
      24 * (e.tokens w).length + 23 ≤ fuel + 1 + 2 * level → Stops level rest →
      (atLevel level (fuel + 1)).Takes ⟨e.tokens w ++ rest, depth⟩ ⟨rest, depth⟩
        fun e' => e'.unplaced = e.unplaced) (hbound : level ≤ 11) : e.ReadBack w := by
  subst hlevel
  refine .ofReadAt hbegins (fun fuel rest depth hfuel hstops => ?_) hchain hlinks
  rw [written_of_le (Nat.le_refl _)] at hfuel ⊢
  match fuel, hfuel with
  | 0, hfuel =>
      have hpos : 0 < (e.tokens w).length := List.length_pos_iff.mpr hbegins.ne_nil
      omega
  | fuel + 1, hfuel => exact h fuel rest depth hfuel hstops

theorem ReadBack.unary {op : UnaryOp} (h : e.ReadBack w) : (Expr.unary loc op e).ReadBack w := by
  have hop : UnaryOp.ofToken? op.token = some op := by cases op <;> rfl
  have hname (name : String) : op.token ≠ .identifier name := by cases op <;> nofun
  refine .ofOwn 8 rfl (fun t => by cases t <;> decide) (by decide)
    ⟨_, _, rfl, by simp [TokenKind.starts, hop], fun h => absurd h (by decide),
      fun name h => absurd h (hname name)⟩ (fun fuel rest depth hfuel hstops => ?_) (by decide)
  simp only [tokens, List.length_cons] at hfuel
  show (Read.unary (fuel + 1)).Takes _ _ _
  unfold Read.unary
  refine takes_peek.bind fun token htoken => ?_
  rw [show token.kind = op.token from htoken.1, hop]
  refine takes_skip.then (takes_enter.bind fun _ _ => ?_)
  refine (h.readAt 8 (by decide) fuel rest (depth + 1) (by unfold written; omega)
    hstops).bind fun e' he' => takes_leave.bind fun _ _ => takes_pure ?_
  simp [he']

/-- A target has a target's form at any place. -/
theorem isTarget_of_unplaced {e e' : Expr} (h : e'.unplaced = e.unplaced) :
    e'.isTarget = e.isTarget := by
  have hsame (e : Expr) : e.unplaced.isTarget = e.isTarget := by cases e <;> rfl
  rw [← hsame e', h, hsame e]

theorem level_of_isTarget (h : e.isTarget) : 10 ≤ e.level := by
  cases e <;> first | exact Nat.le_refl 10 | exact Nat.le_succ 10 | cases h

theorem takes_updateOf {op : UpdateOp} {inFront : Bool} {target : Expr} {s : Stand}
    (h : e.unplaced = target.unplaced) (ht : target.isTarget) {loc loc' : Option Location} :
    (updateOf op inFront e loc').Takes s s
      fun e' => e'.unplaced = (Expr.update loc op inFront target).unplaced := by
  unfold updateOf
  rw [if_pos ((isTarget_of_unplaced h).trans ht)]
  exact takes_pure (by simp [h])

theorem ReadBack.update {op : UpdateOp} {inFront : Bool} (h : e.ReadBack w) (ht : e.isTarget) :
    (Expr.update loc op inFront e).ReadBack w := by
  have hlevel := level_of_isTarget ht
  cases inFront with
  | true =>
      -- in front, the operator is no unary one, and what follows nests one level deeper
      have hop : UnaryOp.ofToken? (.symbol op.token) = none := by cases op <;> rfl
      refine .ofOwn 8 rfl (fun t => by cases t <;> decide) (by decide)
        ⟨_, _, rfl, by simp [TokenKind.starts, op.ofToken?_token], fun h => absurd h (by decide),
          nofun⟩ (fun fuel rest depth hfuel hstops => ?_) (by decide)
      simp only [tokens, List.length_cons] at hfuel
      show (Read.unary (fuel + 1)).Takes _ _ _
      unfold Read.unary
      refine takes_peek.bind fun token htoken => ?_
      rw [show token.kind = .symbol op.token from htoken.1, hop, op.ofToken?_token]
      refine takes_skip.then (takes_enter.bind fun _ _ => ?_)
      exact (h.readAt 8 (by decide) fuel rest (depth + 1) (by unfold written; omega)
        hstops).bind fun e' he' => takes_leave.bind fun _ _ => takes_updateOf he' ht
  | false =>
      have hbegins : Begins 9 ((Expr.update loc op false e).tokens w) :=
        (h.begins.enclosed 10).append (by simp) |>.mono fun _ => by decide
      refine .ofOwn 9 rfl (fun t => by cases t <;> decide) (by decide) hbegins
        (fun fuel rest depth hfuel hstops => ?_) (by decide)
      simp only [tokens, List.length_append, List.length_cons, List.length_nil] at hfuel
      simp only [tokens, List.append_assoc, List.cons_append, List.nil_append]
      show (Read.postfixUpdate (fuel + 1)).Takes _ _ _
      unfold Read.postfixUpdate
      have hstop : Stops 10 (TokenKind.symbol op.token :: rest) := by
        intro l hl
        rw [List.headD_cons, op.grip?_token] at hl
        cases hl
        decide
      refine (h.readAt 10 (by decide) fuel _ depth (by unfold written; omega)
        hstop).bind fun e' he' => takes_peek.bind fun token htoken => ?_
      rw [show token.kind = .symbol op.token from htoken.1, op.ofToken?_token]
      simp only [htoken.2, Bool.false_eq_true, ↓reduceIte]
      exact takes_skip.then (takes_updateOf he' ht)

theorem ReadBack.join {joint : Joint} {l r : Expr} (hl : l.ReadBack w) (hr : r.ReadBack w) :
    (joint.join loc l r).ReadBack w := by
  have hlevel : (joint.join loc l r).level = joint.tier.level := by cases joint <;> rfl
  have htokens : (joint.join loc l r).tokens w =
      l.written w joint.tier.level ++
        .symbol joint.symbol :: r.written w (joint.tier.level + 1) := by
    cases joint <;> rfl
  have hle := joint.tier.level_le
  refine .ofChain hlevel ?_ (.join (hl.chain _) (hr.readAt _ (by omega)) ?_)
  · rw [htokens, hlevel]
    exact ((hl.begins.enclosed _).append (by nofun)).mono fun _ => by omega
  · rw [written_of_le (Nat.le_of_eq hlevel.symm), htokens]

/-! ### Accesses and calls -/

/-- A link is read behind what is known to be read as the left part. -/
theorem LinksAt.link {link : List TokenKind} (ho : e.LinksAt w) {e₁ : Expr}
    (htokens : e₁.tokens w = e.written w 10 ++ link) (hlevel : e₁.level = 10)
    (hlink : ∀ (e' : Expr) (fuel links : Nat) (rest : List TokenKind) (depth : Nat) (s : Stand)
      (Q : Expr → Prop), e'.unplaced = e.unplaced → 24 * link.length ≤ fuel →
      (∀ e₁' : Expr, e₁'.unplaced = e₁.unplaced →
        (callMemberRest fuel e₁' (links + 1)).Takes ⟨rest, depth + 1⟩ s Q) →
      (callMemberRest (fuel + 1) e' links).Takes ⟨link ++ rest, depth⟩ s Q)
    (hpos : 0 < link.length) : e₁.LinksAt w := by
  intro fuel rest depth s Q hfuel hgo
  rw [written_of_le (Nat.le_of_eq hlevel.symm), htokens] at hfuel hgo ⊢
  rw [List.length_append] at hfuel hgo
  rw [List.append_assoc]
  refine ho fuel _ depth s Q (by omega) fun e' links fuel' he' hf => ?_
  match fuel', hf with
  | 0, hf => omega
  | fuel' + 1, hf =>
      refine hlink e' fuel' links rest _ s Q he' (by omega) fun e₁' he₁' => ?_
      exact hgo e₁' (links + 1) fuel' he₁' (by omega)

theorem ReadBack.member {name : String} (h : e.ReadBack w) :
    (Expr.member loc e name).ReadBack w := by
  have htokens : (Expr.member loc e name).tokens w =
      e.written w 10 ++ [.symbol .dot, w.member name] := rfl
  refine .ofLinks rfl ?_ (h.links.link htokens rfl ?_ (Nat.succ_pos _))
  · rw [htokens]
    exact (h.begins.enclosed 10).append (by nofun)
  intro e' fuel links rest depth s Q he' hfuel hgo
  unfold callMemberRest
  refine takes_peek.bind fun token htoken => ?_
  rw [show token.kind = .symbol .dot from htoken.1]
  refine takes_enter.bind fun _ _ => takes_skip.then
    ((takes_memberName (w.member?_member name)).then (hgo _ ?_))
  simp [he']

theorem ReadBack.index {key : Expr} (h : e.ReadBack w) (hkey : key.ReadBack w) :
    (Expr.index loc e key).ReadBack w := by
  have htokens : (Expr.index loc e key).tokens w = e.written w 10 ++
      .symbol .leftBracket :: (key.tokens w ++ [.symbol .rightBracket]) := by
    simp [written]
  refine .ofLinks rfl ?_ (h.links.link htokens rfl ?_ (Nat.succ_pos _))
  · rw [htokens]
    exact (h.begins.enclosed 10).append (by nofun)
  intro e' fuel links rest depth s Q he' hfuel hgo
  simp only [List.length_append, List.length_cons, List.length_nil] at hfuel
  simp only [List.append_assoc, List.cons_append, List.nil_append]
  unfold callMemberRest
  refine takes_peek.bind fun token htoken => ?_
  rw [show token.kind = .symbol .leftBracket from htoken.1]
  refine takes_enter.bind fun _ _ => takes_skip.then ?_
  refine (hkey.takes (by omega) (stops_of_grip? rfl)).bind fun key' hkey' =>
    takes_symbol.bind fun _ _ => hgo _ ?_
  simp [he', hkey']

theorem ReadBack.call {args : List Expr} (h : e.ReadBack w) (hargs : ∀ a ∈ args, a.ReadBack w) :
    (Expr.call loc e args).ReadBack w := by
  have htokens : (Expr.call loc e args).tokens w = e.written w 10 ++
      .symbol .leftParen :: (commas (Expr.tokensEach w args) ++ [.symbol .rightParen]) := by
    simp [written]
  refine .ofLinks rfl ?_ (h.links.link htokens rfl ?_ (Nat.succ_pos _))
  · rw [htokens]
    exact (h.begins.enclosed 10).append (by nofun)
  intro e' fuel links rest depth s Q he' hfuel hgo
  simp only [List.length_append, List.length_cons, List.length_nil] at hfuel
  simp only [List.append_assoc, List.cons_append, List.nil_append]
  unfold callMemberRest
  refine takes_peek.bind fun token htoken => ?_
  rw [show token.kind = .symbol .leftParen from htoken.1]
  refine takes_enter.bind fun _ _ => takes_skip.then ?_
  refine (takes_expressions closes_rightParen hargs (by omega)).bind fun args' hargs' => hgo _ ?_
  simp [he', hargs']

/-! ### Assignments and choices -/

theorem ReadBack.assign {op : AssignOp} {value : Expr} (h : e.ReadBack w) (ht : e.isTarget)
    (hv : value.ReadBack w) : (Expr.assign loc op e value).ReadBack w := by
  have htokens : (Expr.assign loc op e value).tokens w =
      e.written w 2 ++ .symbol op.token :: value.tokens w := by
    have hlevel := level_of_isTarget ht
    rw [written_of_le (by omega), tokens, enclosed, if_neg (by omega)]
  refine .ofOwn 0 rfl (fun t => by cases t <;> decide) (by decide) ?_
    (fun fuel rest depth hfuel hstops => ?_) (by decide)
  · rw [htokens]
    exact ((h.begins.enclosed 2).append (by nofun)).mono fun h => absurd h (by decide)
  rw [htokens] at hfuel ⊢
  simp only [List.length_append, List.length_cons] at hfuel
  rw [List.append_assoc, List.cons_append]
  have hstop : Stops 2 (TokenKind.symbol op.token :: (value.tokens w ++ rest)) := by
    intro l hl
    rw [List.headD_cons, op.grip?_token] at hl
    cases hl
    decide
  have hquestion : TokenKind.symbol op.token ≠ .symbol .question := by cases op <;> decide
  -- the target is not followed by a question mark, so it is no choice
  have htarget : (Read.conditional fuel).Takes
      ⟨e.written w 2 ++ .symbol op.token :: (value.tokens w ++ rest), depth + 1⟩
      ⟨.symbol op.token :: (value.tokens w ++ rest), depth + 1⟩
      fun e' => e'.unplaced = e.unplaced := by
    match fuel, hfuel with
    | 0, hfuel => omega
    | fuel + 1, hfuel =>
        unfold Read.conditional
        refine (h.readAt 2 (by decide) fuel _ _ (by omega) hstop).bind fun e' he' => ?_
        exact (takes_eat_other (by exact hquestion)).then (takes_pure he')
  show (Read.assignment (fuel + 1)).Takes _ _ _
  unfold Read.assignment
  refine takes_enter.bind fun _ _ => htarget.bind fun e' he' =>
    takes_peek.bind fun token htoken => ?_
  rw [show token.kind = .symbol op.token from htoken.1, op.ofToken?_token]
  simp only [isTarget_of_unplaced he', ht, ↓reduceIte]
  refine takes_skip.then ((hv.takes (by omega) hstops).bind fun value' hv' =>
    takes_leave.bind fun _ _ => takes_pure ?_)
  simp [he', hv']

theorem ReadBack.conditional {test yes no : Expr} (ht : test.ReadBack w) (hy : yes.ReadBack w)
    (hn : no.ReadBack w) : (Expr.conditional loc test yes no).ReadBack w := by
  have htokens : (Expr.conditional loc test yes no).tokens w = test.written w 2 ++
      .symbol .question :: (yes.tokens w ++ .symbol .colon :: no.tokens w) := by
    simp [written]
  refine .ofOwn 1 rfl (fun t => by cases t <;> decide) (by decide) ?_
    (fun fuel rest depth hfuel hstops => ?_) (by decide)
  · rw [htokens]
    exact ((ht.begins.enclosed 2).append (by nofun)).mono fun h => absurd h (by decide)
  rw [htokens] at hfuel ⊢
  simp only [List.length_append, List.length_cons] at hfuel
  simp only [List.append_assoc, List.cons_append]
  show (Read.conditional (fuel + 1)).Takes _ _ _
  unfold Read.conditional
  have hstop : Stops 2 (TokenKind.symbol .question ::
      (yes.tokens w ++ .symbol .colon :: (no.tokens w ++ rest))) := by
    intro l hl
    cases hl
    decide
  refine (ht.readAt 2 (by decide) fuel _ _ (by omega) hstop).bind fun test' ht' =>
    takes_eat.then ?_
  refine (hy.takes (by omega) (stops_of_grip? rfl)).bind fun yes' hy' =>
    takes_symbol.bind fun _ _ => ?_
  refine (hn.takes (by omega) hstops.zero).bind fun no' hn' => takes_pure ?_
  simp [ht', hy', hn']

end Expr

end Lineage
