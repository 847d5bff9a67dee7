import Lineage.Proofs.Grammar.Written

/-!
# Reading tokens that are known

Where the kinds of the tokens are known, and all stand on one line, it is known
what a reading takes and what it gives. `Takes` says so, up to the places of the
tokens, and lets a reading report that the text nests too deeply. There is one
rule for each of the readings that the grammar is made of.
-/

namespace Lineage

/-- Where a reading stands: what is left in front of the end of the text, and the levels entered. -/
structure Stand where
  tokens : List TokenKind
  depth : Nat

/-- The kind of the token a reading stands on. -/
def Stand.next (s : Stand) : TokenKind := s.tokens.headD .ending

@[simp] theorem Stand.next_cons {k : TokenKind} {ks : List TokenKind} {d : Nat} :
    Stand.next ⟨k :: ks, d⟩ = k := rfl

/-- The reader stands there, and everything left is on one line. -/
structure Reader.At (r : Reader) (s : Stand) : Prop where
  kinds : (r.here :: r.ahead).map Token.kind = s.tokens ++ [.ending]
  line : ∀ t ∈ r.here :: r.ahead, t.newlineBefore = false
  depth : r.depth = s.depth

/-- The text nests too deeply. -/
def TooDeep (e : ParseError) : Prop := ∃ loc, e = .tooDeep maxDepth loc

namespace Reader.At

variable {r : Reader} {s : Stand}

theorem next (h : r.At s) : r.here.kind = s.next := by
  obtain ⟨tokens, depth⟩ := s
  have hk := h.kinds
  cases tokens with
  | nil | cons => exact (List.cons.inj hk).1

/-- There is a token behind one that is not the end. -/
theorem ahead {k : TokenKind} {ks : List TokenKind} {d : Nat} (h : r.At ⟨k :: ks, d⟩) :
    ∃ t ahead, r.ahead = t :: ahead ∧
      ({ r with here := t, ahead := ahead } : Reader).At ⟨ks, d⟩ := by
  have hk := h.kinds
  have hl := h.line
  cases hahead : r.ahead with
  | nil =>
      rw [hahead] at hk
      simp at hk
  | cons t ahead =>
      rw [hahead] at hk hl
      exact ⟨t, ahead, rfl, (List.cons.inj hk).2, fun u hu => hl u (List.mem_cons_of_mem _ hu),
        h.depth⟩

end Reader.At

namespace Read

variable {α β : Type} {x : Read α} {P Q : α → Prop} {s s' s'' : Stand} {k : TokenKind}
  {ks : List TokenKind} {d : Nat}

/-- The reading takes the tokens from one stand to another and gives something. -/
def Takes (x : Read α) (s s' : Stand) (Q : α → Prop) : Prop :=
  ∀ r : Reader, r.At s → match x r with
    | .ok (a, r') => r'.At s' ∧ Q a
    | .error e => TooDeep e

theorem takes_pure {a : α} (h : Q a) : Takes (pure a) s s Q := fun _ hr => ⟨hr, h⟩

theorem Takes.mono (hx : Takes x s s' P) (h : ∀ a, P a → Q a) : Takes x s s' Q := by
  intro r hr
  have hrun := hx r hr
  split at hrun
  · exact ⟨hrun.1, h _ hrun.2⟩
  · exact hrun

theorem Takes.bind {f : α → Read β} {Q : β → Prop} (hx : Takes x s s' P)
    (hf : ∀ a, P a → Takes (f a) s' s'' Q) : Takes (x >>= f) s s'' Q := by
  intro r hr
  have hrun := hx r hr
  show match (x r >>= fun p => f p.1 p.2) with
    | .ok (a, r') => r'.At s'' ∧ Q a
    | .error e => TooDeep e
  cases h : x r with
  | ok p =>
      rw [h] at hrun
      exact hf p.1 hrun.2 p.2 hrun.1
  | error e =>
      rw [h] at hrun
      exact hrun

/-- A reading that gives one thing only is followed by what comes of that. -/
theorem Takes.then {a : α} {f : α → Read β} {Q : β → Prop} (hx : Takes x s s' (· = a))
    (hf : Takes (f a) s' s'' Q) : Takes (x >>= f) s s'' Q :=
  hx.bind fun _ h => h ▸ hf

theorem Takes.map {f : α → β} {Q : β → Prop} (hx : Takes x s s' fun a => Q (f a)) :
    Takes (f <$> x) s s' Q := by
  rw [map_eq_pure_bind]
  exact hx.bind fun _ h => takes_pure h

/-! ## Single tokens -/

theorem takes_peek : Takes peek s s fun t => t.kind = s.next ∧ t.newlineBefore = false :=
  fun r hr => ⟨hr, hr.next, hr.line r.here List.mem_cons_self⟩

theorem takes_advance :
    Takes advance ⟨k :: ks, d⟩ ⟨ks, d⟩ fun t => t.kind = k := by
  intro r hr
  obtain ⟨t, ahead, hahead, hr'⟩ := hr.ahead
  unfold advance
  rw [hahead]
  exact ⟨hr', hr.next⟩

theorem takes_skip : Takes (discard advance) ⟨k :: ks, d⟩ ⟨ks, d⟩ (· = ()) :=
  Takes.map (takes_advance.mono fun _ _ => rfl)

theorem takes_loc : Takes loc s s fun _ => True := takes_peek.bind fun _ _ => takes_pure trivial

theorem takes_isAt : Takes (isAt k) s s (· = decide (s.next = k)) :=
  takes_peek.bind fun t ht => takes_pure (by rw [ht.1])

theorem takes_eat : Takes (eat k) ⟨k :: ks, d⟩ ⟨ks, d⟩ (· = true) := by
  refine takes_isAt.then ?_
  rw [Stand.next_cons, decide_eq_true rfl]
  exact takes_skip.then (takes_pure rfl)

theorem takes_eat_other (h : s.next ≠ k) : Takes (eat k) s s (· = false) := by
  refine takes_isAt.then ?_
  rw [decide_eq_false h]
  exact takes_pure rfl

theorem takes_expect {what : String} :
    Takes (expect k what) ⟨k :: ks, d⟩ ⟨ks, d⟩ fun _ => True :=
  takes_eat.then (takes_pure trivial)

theorem takes_symbol {c : Symbol} :
    Takes (symbol c) ⟨.symbol c :: ks, d⟩ ⟨ks, d⟩ fun _ => True := takes_expect

theorem takes_identifier {name : String} :
    Takes identifier ⟨.identifier name :: ks, d⟩ ⟨ks, d⟩ (· = name) := by
  refine takes_peek.bind fun t ht => ?_
  rw [ht.1]
  exact takes_skip.then (takes_pure rfl)

/-- A statement does not end in front of anything else on its line. -/
theorem takes_mayEnd (hbrace : s.next ≠ .symbol .rightBrace) (hend : s.next ≠ .ending) :
    Takes mayEnd s s (· = false) :=
  takes_peek.bind fun t ht => takes_pure (by simp [ht.1, ht.2, hbrace, hend])

theorem takes_semicolon :
    Takes semicolon ⟨.symbol .semicolon :: ks, d⟩ ⟨ks, d⟩ fun _ => True := by
  have hend : Takes mayEnd ⟨ks, d⟩ ⟨ks, d⟩ fun _ => True :=
    takes_peek.bind fun _ _ => takes_pure trivial
  exact takes_eat.then (hend.bind fun _ _ => takes_pure trivial)

/-! ## Levels -/

theorem takes_get : Takes get s s fun r => r.At s := fun _ hr => ⟨hr, hr⟩

theorem takes_enter : Takes enter s ⟨s.tokens, s.depth + 1⟩ fun _ => True := by
  refine takes_get.bind fun r hr => ?_
  split
  · exact fun _ _ => ⟨_, rfl⟩
  · exact fun _ _ => ⟨⟨hr.kinds, hr.line, congrArg (· + 1) hr.depth⟩, trivial⟩

theorem takes_leave {levels : Nat} :
    Takes (leave levels) ⟨ks, d + levels⟩ ⟨ks, d⟩ fun _ => True := by
  intro r hr
  have hdepth : r.depth - levels = d := by
    rw [hr.depth]
    exact Nat.add_sub_cancel d levels
  exact ⟨⟨hr.kinds, hr.line, hdepth⟩, trivial⟩

/-! ## Names -/

theorem takes_declKind? {kind : DeclKind} :
    Takes declKind? ⟨.keyword kind.keyword :: ks, d⟩ ⟨ks, d⟩ (· = some kind) := by
  have hkind : DeclKind.ofToken? (.keyword kind.keyword) = some kind := by cases kind <;> rfl
  refine takes_peek.bind fun t ht => ?_
  rw [ht.1, Stand.next_cons, hkind]
  exact takes_skip.then (takes_pure rfl)

theorem takes_declKind?_none (h : DeclKind.ofToken? s.next = none) :
    Takes declKind? s s (· = none) := by
  refine takes_peek.bind fun t ht => ?_
  rw [ht.1, h]
  exact takes_pure rfl

theorem takes_bareForIn? {name : String} :
    Takes bareForIn? ⟨.identifier name :: .keyword .in :: ks, d⟩ ⟨ks, d⟩ (· = some name) := by
  refine takes_get.bind fun r hr => ?_
  obtain ⟨t, ahead, hahead, hr'⟩ := hr.ahead
  have hname : r.here.kind = .identifier name := hr.next
  have hin : t.kind = .keyword .in := hr'.next
  rw [hname, hahead]
  simp only [List.head?_cons, Option.map_some, hin]
  exact takes_skip.then (takes_skip.then (takes_pure rfl))

/-- A name of a member, however it is spelled. -/
theorem takes_memberName {name : String} (hk : k.member? = some name) :
    Takes memberName ⟨k :: ks, d⟩ ⟨ks, d⟩ (· = name) := by
  refine takes_advance.bind fun t ht => ?_
  rw [ht]
  cases k with
  | identifier name' => exact takes_pure (Option.some.inj hk)
  | keyword k => exact takes_pure (Option.some.inj hk)
  | _ => cases hk

/-- A key, however it is spelled. -/
theorem takes_propertyKey {name : String} (hk : k.key? = some name) :
    Takes propertyKey ⟨k :: ks, d⟩ ⟨ks, d⟩ fun p => p.1 = name := by
  refine takes_advance.bind fun t ht => ?_
  rw [ht]
  cases k with
  | identifier name' | string name' => exact takes_pure (Option.some.inj hk)
  | keyword k => exact takes_pure (Option.some.inj hk)
  | number x => exact takes_pure (Option.some.inj hk)
  | _ => cases hk

theorem takes_propertyKey_identifier {name : String} :
    Takes propertyKey ⟨.identifier name :: ks, d⟩ ⟨ks, d⟩ (· = (name, true)) := by
  refine takes_advance.bind fun t ht => ?_
  rw [ht]
  exact takes_pure rfl

theorem takes_bareForIn?_none (h : ∀ name ks, s.tokens ≠ .identifier name :: .keyword .in :: ks) :
    Takes bareForIn? s s (· = none) := by
  refine takes_get.bind fun r hr => ?_
  split
  · rename_i name hname hin
    have hk := hr.kinds
    cases hahead : r.ahead with
    | nil =>
        rw [hahead] at hin
        cases hin
    | cons t ahead =>
        rw [hahead] at hk hin
        have hin : t.kind = .keyword .in := Option.some.inj hin
        obtain ⟨tokens, depth⟩ := s
        simp only [List.map_cons, hname, hin] at hk
        match tokens, hk with
        | [], hk => cases hk
        | [k], hk => cases hk
        | k :: k' :: ks, hk =>
            rw [List.cons_append, List.cons_append, List.cons.injEq, List.cons.injEq] at hk
            exact absurd (by rw [hk.1, hk.2.1]) (h name ks)
  · exact takes_pure rfl

theorem takes_parameters (params : List String) : ∀ {fuel : Nat}, params.length < fuel →
    Takes (parameters fuel) ⟨Written.commas (params.map fun name => [.identifier name]) ++
      .symbol .rightParen :: ks, d⟩ ⟨ks, d⟩ (· = params) := by
  induction params with
  | nil =>
      rintro (_ | fuel) hfuel
      · cases hfuel
      · exact takes_eat.then (takes_pure rfl)
  | cons name params ih =>
      rintro (_ | fuel) hfuel
      · cases hfuel
      have hopen : Stand.next ⟨Written.commas ((name :: params).map fun name =>
          [.identifier name]) ++ .symbol .rightParen :: ks, d⟩ ≠ .symbol .rightParen := by
        cases params <;> simp [Written.commas]
      refine (takes_eat_other hopen).then ?_
      cases params with
      | nil =>
          exact takes_identifier.then ((takes_eat_other (by simp)).then
            (takes_symbol.bind fun _ _ => takes_pure rfl))
      | cons name' params =>
          exact takes_identifier.then (takes_eat.then
            ((ih (Nat.lt_of_succ_lt_succ hfuel)).then (takes_pure rfl)))

end Read

end Lineage
