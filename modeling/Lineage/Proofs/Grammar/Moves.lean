import Lineage.Proofs.Grammar.Blame

/-!
# How far a reading moves

The last token of a text is its ending, and no other is. Going on from the
ending takes nothing, so a loop that only goes on could stay there for ever. This
module has the rules by which the next one shows that no reading does. A reading
that is `Moves` takes a least number of tokens where it succeeds, leaves a known
number of levels, and does not run out of calls when there are enough of them for
the tokens ahead.

It also has the readers that a reading passes on its way. A level is entered by
one step only, which refuses at the limit, so none of them counts more levels.
-/

namespace Lineage

/-! ## Tokens that end -/

/-- The last of the tokens is the ending, and no other is. -/
def EndsOnce : List Token → Prop
  | [] => False
  | [t] => t.kind = .ending
  | t :: next :: rest => t.kind ≠ .ending ∧ EndsOnce (next :: rest)

instance EndsOnce.decidable : DecidablePred EndsOnce
  | [] => inferInstanceAs (Decidable False)
  | [t] => inferInstanceAs (Decidable (t.kind = .ending))
  | t :: next :: rest =>
    have := EndsOnce.decidable (next :: rest)
    inferInstanceAs (Decidable (t.kind ≠ .ending ∧ EndsOnce (next :: rest)))

theorem EndsOnce.of_cons {t : Token} {tokens : List Token} (h : EndsOnce (t :: tokens))
    (hne : tokens ≠ []) : EndsOnce tokens := by
  cases tokens with
  | nil => exact absurd rfl hne
  | cons next rest => exact h.2

/-- What is left of tokens that end also ends. -/
theorem EndsOnce.of_suffix {tokens rest : List Token} (h : EndsOnce tokens)
    (hrest : rest <:+ tokens) (hne : rest ≠ []) : EndsOnce rest := by
  induction tokens with
  | nil => exact absurd (List.suffix_nil.mp hrest) hne
  | cons t tokens ih =>
      rcases List.suffix_cons_iff.mp hrest with rfl | hrest
      · exact h
      · have htokens : tokens ≠ [] := fun hnil => hne (List.suffix_nil.mp (hnil ▸ hrest))
        exact ih (h.of_cons htokens) hrest

/-- The tokens that a text is cut into end. -/
theorem Token.Tiling.endsOnce {before since text : List Char} {tokens : List Token}
    (h : Token.Tiling before since tokens text) : EndsOnce tokens := by
  induction h with
  | ending => rfl
  | token _ _ _ hspells hrest ih =>
      -- there is another token behind one that is spelled
      cases hrest with
      | ending | token => exact ⟨hspells.ne_ending, ih⟩

namespace Read

variable {α β : Type} {x : Read α} {f : α → Read β} {r r' : Reader} {t : Token}

/-! ## The readers that are passed -/

/-- Where a step lands, unless it is refused. -/
def landed : Except ParseError (α × Reader) → List Reader
  | .ok (_, r) => [r]
  | .error _ => []

/--
`Passes x r passed`: from `r` on, the reading `x` is made of steps that take a
token, enter a level or leave some, and `passed` are the readers behind these
steps, one after the other.
-/
inductive Passes : {α : Type} → Read α → Reader → List Reader → Prop
  | pure {α : Type} (a : α) (r : Reader) : Passes (pure a : Read α) r []
  | throw {α : Type} (e : ParseError) (r : Reader) : Passes (throw e : Read α) r []
  | get (r : Reader) : Passes (get : Read Reader) r []
  | advance (r : Reader) : Passes advance r (landed (advance r))
  | enter (r : Reader) : Passes enter r (landed (enter r))
  | leave (levels : Nat) (r : Reader) : Passes (leave levels) r (landed (leave levels r))
  | bind {α β : Type} {x : Read α} {f : α → Read β} {r r' : Reader} {a : α}
      {passed others : List Reader} : Passes x r passed → x r = .ok (a, r') →
      Passes (f a) r' others → Passes (x >>= f) r (passed ++ others)
  | stop {α β : Type} {x : Read α} {f : α → Read β} {r : Reader} {e : ParseError}
      {passed : List Reader} : Passes x r passed → x r = .error e → Passes (x >>= f) r passed

theorem apply_bind : (x >>= f) r = (x r >>= fun p => f p.1 p.2) := rfl

theorem apply_bind_ok {a : α} (h : x r = .ok (a, r')) : (x >>= f) r = f a r' := by
  rw [apply_bind, h]
  rfl

theorem apply_bind_error {e : ParseError} (h : x r = .error e) : (x >>= f) r = .error e := by
  rw [apply_bind, h]
  rfl

/-- At the last token, going on stays there. -/
theorem advance_last (h : r.ahead = []) : advance r = .ok (r.here, r) := by
  cases r
  cases h
  rfl

theorem advance_next {next : Token} {rest : List Token} (h : r.ahead = next :: rest) :
    advance r = .ok (r.here, { r with here := next, ahead := rest }) := by
  cases r
  cases h
  rfl

/-- A level is entered in front of the limit only. -/
theorem enter_eq : enter r =
    if maxDepth ≤ r.depth then .error (.tooDeep maxDepth (some r.here.loc))
    else .ok ((), { r with depth := r.depth + 1 }) := by
  have hrun : enter r = (if maxDepth ≤ r.depth then fail (fun loc => .tooDeep maxDepth (some loc))
    else set { r with depth := r.depth + 1 } : Read Unit) r := rfl
  rw [hrun]
  split <;> rfl

/-- The steps that a reading is made of keep this. -/
structure Kept (P : Reader → Prop) : Prop where
  advance : ∀ {r}, P r → ∀ r' ∈ landed (advance r), P r'
  enter : ∀ {r}, P r → ∀ r' ∈ landed (enter r), P r'
  leave : ∀ {r} (levels : Nat), P r → ∀ r' ∈ landed (leave levels r), P r'

/-- What every step keeps is kept by all readers that are passed, and by the one at the end. -/
theorem Passes.kept {P : Reader → Prop} {passed : List Reader} (hP : Kept P)
    (h : Passes x r passed) (hr : P r) :
    (∀ r' ∈ passed, P r') ∧ ∀ r' ∈ landed (x r), P r' := by
  induction h with
  | pure | get => exact ⟨List.forall_mem_nil _, List.forall_mem_singleton.mpr hr⟩
  | throw => exact ⟨List.forall_mem_nil _, List.forall_mem_nil _⟩
  | advance => exact ⟨hP.advance hr, hP.advance hr⟩
  | enter => exact ⟨hP.enter hr, hP.enter hr⟩
  | leave levels => exact ⟨hP.leave levels hr, hP.leave levels hr⟩
  | bind _ hrun _ ihx ihf =>
      obtain ⟨hpassed, hend⟩ := ihx hr
      rw [hrun] at hend
      obtain ⟨hothers, hlast⟩ := ihf (List.forall_mem_singleton.mp hend)
      rw [apply_bind_ok hrun]
      exact ⟨List.forall_mem_append.mpr ⟨hpassed, hothers⟩, hlast⟩
  | stop _ hrun ihx =>
      rw [apply_bind_error hrun]
      exact ⟨(ihx hr).1, List.forall_mem_nil _⟩

/-- The readers that are passed stand on tokens that were left, and no one counts more levels than
the limit. -/
theorem Passes.within {tokens : List Token} {passed : List Reader} (h : Passes x r passed)
    (hr : left r <:+ tokens) (hdepth : r.depth ≤ maxDepth) :
    ∀ r' ∈ passed, left r' <:+ tokens ∧ r'.depth ≤ maxDepth := by
  -- only entering counts a level more, and it looks at the limit first
  have hkept : Kept fun r => left r <:+ tokens ∧ r.depth ≤ maxDepth := by
    constructor
    case advance =>
      rintro r ⟨hr, hdepth⟩
      cases hahead : r.ahead with
      | nil =>
          rw [advance_last hahead]
          exact List.forall_mem_singleton.mpr ⟨hr, hdepth⟩
      | cons next rest =>
          rw [left, hahead] at hr
          rw [advance_next hahead]
          exact List.forall_mem_singleton.mpr ⟨(List.suffix_cons _ _).trans hr, hdepth⟩
    case enter =>
      rintro r ⟨hr, -⟩
      rw [enter_eq]
      split
      · exact List.forall_mem_nil _
      · rename_i hdepth
        exact List.forall_mem_singleton.mpr ⟨hr, Nat.not_le.mp hdepth⟩
    case leave =>
      rintro r levels ⟨hr, hdepth⟩
      exact List.forall_mem_singleton.mpr ⟨hr, (Nat.sub_le _ _).trans hdepth⟩
  exact (h.kept hkept ⟨hr, hdepth⟩).1

/-! ## Moving on -/

/--
What is known of a reading from here. Where it succeeds, it has taken `least`
tokens or more and left `up` levels. Where it fails, it has not run out of calls,
if there were 24 for every token ahead and `spare` others. No chain of 24 calls
goes by without a token being taken.
-/
structure MovesAt (fuel spare least up : Nat) (x : Read α) (r : Reader) : Prop where
  passes : ∃ passed, Passes x r passed
  ok : ∀ a r', x r = .ok (a, r') →
    left r' <:+ left r ∧ r'.ahead.length + least ≤ r.ahead.length ∧ r'.depth + up = r.depth
  error : ∀ e, x r = .error e → 24 * r.ahead.length + spare ≤ fuel → e ≠ .exhausted

/-- The reading moves so wherever it stands on this token and may leave the levels. -/
def MovesOn (t : Token) (fuel spare least up : Nat) (x : Read α) : Prop :=
  ∀ r, r.here = t → EndsOnce (left r) → up ≤ r.depth → MovesAt fuel spare least up x r

/-- The reading moves so wherever it may leave the levels. -/
def Moves (fuel spare least up : Nat) (x : Read α) : Prop :=
  ∀ t, MovesOn t fuel spare least up x

variable {fuel spare least k up : Nat}

theorem MovesAt.of_ok {a : α} {passed : List Reader} (hx : Passes x r passed)
    (hrun : x r = .ok (a, r')) (hleft : left r' <:+ left r)
    (htaken : r'.ahead.length + least ≤ r.ahead.length) (hdepth : r'.depth + up = r.depth) :
    MovesAt fuel spare least up x r := by
  refine ⟨⟨passed, hx⟩, fun b r'' h => ?_, fun e h => ?_⟩
  · rw [hrun] at h
    cases h
    exact ⟨hleft, htaken, hdepth⟩
  · rw [hrun] at h
    cases h

theorem MovesAt.of_error {e : ParseError} {passed : List Reader} (hx : Passes x r passed)
    (hrun : x r = .error e) (he : 24 * r.ahead.length + spare ≤ fuel → e ≠ .exhausted) :
    MovesAt fuel spare least up x r := by
  refine ⟨⟨passed, hx⟩, fun a r' h => ?_, fun e' h => ?_⟩
  · rw [hrun] at h
    cases h
  · rw [hrun] at h
    cases h
    exact he

/-- What is known of a reading, from what is known of its rest. -/
theorem MovesAt.after {a : α} {passed : List Reader} {spare' least' up' : Nat}
    (hx : Passes x r passed) (hrun : x r = .ok (a, r')) (hleft : left r' <:+ left r)
    (hf : MovesAt fuel spare' least' up' (f a) r')
    (hspare : 24 * r'.ahead.length + spare' ≤ 24 * r.ahead.length + spare)
    (hleast : r'.ahead.length + least ≤ r.ahead.length + least')
    (hup : r'.depth + up = r.depth + up') : MovesAt fuel spare least up (x >>= f) r := by
  obtain ⟨others, hothers⟩ := hf.passes
  refine ⟨⟨_, .bind hx hrun hothers⟩, fun b r'' h => ?_, fun e h hfuel => ?_⟩
  · rw [apply_bind_ok hrun] at h
    obtain ⟨hleft', htaken, hdepth⟩ := hf.ok b r'' h
    exact ⟨hleft'.trans hleft, by omega, by omega⟩
  · rw [apply_bind_ok hrun] at h
    exact hf.error e h (hspare.trans hfuel)

/-- The tokens that were taken bring calls for the rest, and count for it. -/
theorem MovesAt.bind (hx : MovesAt fuel spare k 0 x r)
    (hf : ∀ a r', x r = .ok (a, r') → MovesAt fuel (spare + 24 * k) (least - k) up (f a) r') :
    MovesAt fuel spare least up (x >>= f) r := by
  obtain ⟨passed, hpassed⟩ := hx.passes
  cases hrun : x r with
  | error e => exact .of_error (hpassed.stop hrun) (apply_bind_error hrun) (hx.error e hrun)
  | ok p =>
      obtain ⟨hleft, htaken, hdepth⟩ := hx.ok p.1 p.2 hrun
      exact .after hpassed hrun hleft (hf p.1 p.2 hrun) (by omega) (by omega) (by omega)

/-- What follows a reading may rest on what that gives on this token. -/
theorem MovesOn.bind_of {p : α → Prop} (hx : MovesOn t fuel spare k 0 x)
    (hp : ∀ r a r', r.here = t → x r = .ok (a, r') → p a)
    (hf : ∀ a, p a → Moves fuel (spare + 24 * k) (least - k) up (f a)) :
    MovesOn t fuel spare least up (x >>= f) := by
  intro r ht hends hup
  have h := hx r ht hends (Nat.zero_le _)
  refine h.bind fun a r' hrun => ?_
  obtain ⟨hleft, -, hdepth⟩ := h.ok a r' hrun
  exact hf a (hp r a r' ht hrun) r'.here r' rfl (hends.of_suffix hleft (List.cons_ne_nil _ _))
    (by omega)

theorem MovesOn.bind (hx : MovesOn t fuel spare k 0 x)
    (hf : ∀ a, Moves fuel (spare + 24 * k) (least - k) up (f a)) :
    MovesOn t fuel spare least up (x >>= f) :=
  hx.bind_of (fun _ _ _ _ _ => trivial) fun a _ => hf a

theorem Moves.bind (hx : Moves fuel spare k 0 x)
    (hf : ∀ a, Moves fuel (spare + 24 * k) (least - k) up (f a)) :
    Moves fuel spare least up (x >>= f) :=
  fun t => (hx t).bind hf

/-- More calls to spare do no harm. -/
theorem Moves.ease {spare' : Nat} (hspare : spare ≤ spare') (hx : Moves fuel spare least up x) :
    Moves fuel spare' least up x :=
  fun t r ht hends hup =>
    have h := hx t r ht hends hup
    ⟨h.passes, h.ok, fun e he hfuel => h.error e he (by omega)⟩

/-- A function needs one call more than its body. -/
theorem Moves.call (hx : Moves fuel spare least up x) : Moves (fuel + 1) (spare + 1) least up x :=
  fun t r ht hends hup =>
    have h := hx t r ht hends hup
    ⟨h.passes, h.ok, fun e he hfuel => h.error e he (by omega)⟩

theorem moves_pure (a : α) : Moves fuel spare 0 0 (pure a : Read α) := by
  intro t r ht hends hup
  exact .of_ok (.pure a r) rfl (List.suffix_refl _) le_rfl rfl

theorem Moves.map {g : α → β} (hx : Moves fuel spare least 0 x) :
    Moves fuel spare least 0 (g <$> x) := by
  rw [map_eq_pure_bind]
  refine hx.bind fun a => ?_
  rw [Nat.sub_self]
  exact moves_pure (g a)

theorem Moves.ite {c : Prop} [Decidable c] {y : Read α} (hx : Moves fuel spare least up x)
    (hy : Moves fuel spare least up y) : Moves fuel spare least up (if c then x else y) := by
  split
  · exact hx
  · exact hy

theorem moves_throw {e : ParseError} (he : e ≠ .exhausted) :
    Moves fuel spare least up (throw e : Read α) := by
  intro t r ht hends hup
  exact .of_error (.throw e r) rfl fun _ => he

/-- Where there are no calls, there are not enough. -/
theorem moves_exhausted (hspare : 0 < spare) :
    Moves 0 spare least up (throw .exhausted : Read α) := by
  intro t r ht hends hup
  exact .of_error (.throw .exhausted r) rfl fun hfuel => absurd hfuel (by omega)

/-! ## Looking at tokens and taking them -/

theorem moves_get : Moves fuel spare 0 0 (get : Read Reader) := by
  intro t r ht hends hup
  exact .of_ok (.get r) rfl (List.suffix_refl _) le_rfl rfl

theorem moves_peek : Moves fuel spare 0 0 peek := moves_get.bind fun _ => moves_pure _

/-- What is looked at is the token that stands here. -/
theorem moves_seen {f : Token → Read β} (hf : ∀ t, MovesOn t fuel spare least up (f t)) :
    Moves fuel spare least up (peek >>= f) := by
  intro t r ht hends hup
  refine (moves_peek t r ht hends (Nat.zero_le _)).bind fun a r' hrun => ?_
  cases hrun
  exact hf r.here r rfl hends hup

/-- Going on takes the token, unless it is the ending. -/
theorem movesAt_advance (hends : EndsOnce (left r)) (hleast : least ≤ 1)
    (hkind : r.here.kind = .ending → least = 0) : MovesAt fuel spare least 0 advance r := by
  cases hahead : r.ahead with
  | nil =>
      -- the last token is the ending, so none was to be taken
      rw [left, hahead] at hends
      have hnone : least = 0 := hkind hends
      exact .of_ok (.advance r) (advance_last hahead) (List.suffix_refl _) (by omega) rfl
  | cons next rest =>
      refine .of_ok (.advance r) (advance_next hahead) ?_ ?_ rfl
      · rw [left, left, hahead]
        exact List.suffix_cons _ _
      · rw [hahead]
        exact Nat.add_le_add_left hleast _

theorem moves_advance : Moves fuel spare 0 0 advance :=
  fun _ _ _ hends _ => movesAt_advance hends (Nat.zero_le 1) fun _ => rfl

theorem movesOn_advance (hkind : t.kind ≠ .ending) : MovesOn t fuel spare 1 0 advance :=
  fun _ ht hends _ => movesAt_advance hends le_rfl fun h => absurd (ht ▸ h) hkind

theorem advance_gives {a : Token} (h : advance r = .ok (a, r')) : a = r.here := by
  cases hahead : r.ahead with
  | nil =>
      cases h.symm.trans (advance_last hahead)
      rfl
  | cons next rest =>
      cases h.symm.trans (advance_next hahead)
      rfl

/-- What is taken is gone, unless it is the ending. -/
theorem moves_taken {f : Token → Read β}
    (hending : ∀ t, t.kind = .ending → Moves fuel spare least up (f t))
    (hf : ∀ t, t.kind ≠ .ending → Moves fuel (spare + 24 * 1) (least - 1) up (f t)) :
    Moves fuel spare least up (advance >>= f) := by
  intro t
  have hgives : ∀ r a r', r.here = t → advance r = .ok (a, r') → a = t :=
    fun _ _ _ ht hrun => (advance_gives hrun).trans ht
  by_cases hkind : t.kind = .ending
  · exact (moves_advance t).bind_of hgives fun a ha => hending a (ha ▸ hkind)
  · exact (movesOn_advance hkind).bind_of hgives fun a ha => hf a (ha ▸ hkind)

theorem moves_skip : Moves fuel spare 0 0 (discard advance) := moves_advance.map

/-- A token that was looked at and is not the ending is skipped. -/
theorem movesOn_skip (hkind : t.kind ≠ .ending) :
    MovesOn t fuel spare 1 0 (discard advance) := by
  have hrun : (discard advance : Read Unit) = advance >>= fun _ => pure () :=
    map_eq_pure_bind _ advance
  rw [hrun]
  exact (movesOn_advance hkind).bind fun _ => moves_pure ()

theorem moves_loc : Moves fuel spare 0 0 loc := moves_peek.bind fun _ => moves_pure _

theorem moves_isAt (kind : TokenKind) : Moves fuel spare 0 0 (isAt kind) :=
  moves_peek.bind fun _ => moves_pure _

theorem moves_fail {reason : Location → ParseError} (h : ∀ loc, reason loc ≠ .exhausted) :
    Moves fuel spare least up (fail reason : Read α) :=
  moves_loc.bind fun loc => moves_throw (h loc)

theorem moves_failThen {reason : Location → ParseError} (h : ∀ loc, reason loc ≠ .exhausted) :
    Moves fuel spare least up (fail reason >>= f) := by
  intro t r ht hends hup
  have hfail : Moves fuel spare least up (fail reason : Read α) := moves_fail h
  obtain ⟨passed, hpassed⟩ := (hfail t r ht hends hup).passes
  exact .of_error (hpassed.stop rfl) rfl fun _ => h r.here.loc

theorem moves_expected (what : String) :
    Moves fuel spare least up (do fail (.expected what (← peek).kind) : Read α) :=
  moves_peek.bind fun _ => moves_fail (by simp)

/-- Where the reading goes on behind a token of this kind, that token was taken. -/
theorem moves_eaten {kind : TokenKind} {x y : Read α} (hkind : kind ≠ .ending)
    (hx : Moves fuel (spare + 24 * 1) (least - 1) up x) (hy : Moves fuel spare least up y) :
    Moves fuel spare least up (eat kind >>= fun eaten => if eaten = true then x else y) := by
  -- looking and taking are pulled apart, so that what was seen is known when it is taken
  have hrun : eat kind = peek >>= fun t =>
      if decide (t.kind = kind) = true then discard advance >>= fun _ => pure true
      else pure false := rfl
  rw [hrun, bind_assoc]
  refine moves_seen fun t => ?_
  by_cases ht : t.kind = kind
  · simp only [ht, decide_true, if_true, bind_assoc, pure_bind]
    exact (movesOn_skip (ht ▸ hkind)).bind fun _ => hx
  · simp only [ht, decide_false, Bool.false_eq_true, if_false, pure_bind]
    exact hy t

theorem moves_eat (kind : TokenKind) : Moves fuel spare 0 0 (eat kind) :=
  (moves_isAt kind).bind fun _ => .ite (moves_skip.bind fun _ => moves_pure _) (moves_pure _)

theorem moves_expect {kind : TokenKind} (hkind : kind ≠ .ending) (what : String) :
    Moves fuel spare 1 0 (expect kind what) :=
  moves_eaten hkind (moves_pure ()) (moves_expected what)

theorem moves_symbol (s : Symbol) : Moves fuel spare 1 0 (symbol s) := by
  have hkind : TokenKind.symbol s ≠ .ending := by simp
  exact moves_expect hkind _

theorem moves_identifier : Moves fuel spare 1 0 identifier := by
  refine moves_seen fun t => ?_
  split
  · rename_i name hname
    exact (movesOn_skip (by simp [hname])).bind fun _ => moves_pure name
  · exact moves_fail (by simp) t

theorem moves_mayEnd : Moves fuel spare 0 0 mayEnd := moves_peek.bind fun _ => moves_pure _

theorem moves_semicolon : Moves fuel spare 0 0 semicolon := by
  unfold semicolon
  exact (moves_eat _).bind fun _ => moves_mayEnd.bind fun _ =>
    .ite (moves_pure _) (moves_expected _)

theorem moves_propertyKey : Moves fuel spare 1 0 propertyKey := by
  refine moves_taken (fun t ht => ?_) fun t ht => ?_
  · rw [ht]
    exact moves_throw (by simp)
  · split
    · exact moves_pure _
    · exact moves_pure _
    · exact moves_pure _
    · exact moves_pure _
    · exact moves_throw (by simp)

theorem moves_memberName : Moves fuel spare 1 0 memberName := by
  refine moves_taken (fun t ht => ?_) fun t ht => ?_
  · rw [ht]
    exact moves_fail (by simp)
  · split
    · exact moves_pure _
    · exact moves_pure _
    · exact moves_fail (by simp)

theorem moves_declKind? : Moves fuel spare 0 0 declKind? :=
  moves_peek.bind fun _ => .ite (moves_skip.bind fun _ => moves_pure _) (moves_pure _)

theorem moves_bareForIn? : Moves fuel spare 0 0 bareForIn? := by
  refine moves_get.bind fun r => ?_
  split
  · exact moves_skip.bind fun _ => moves_skip.bind fun _ => moves_pure _
  · exact moves_pure _

/-! ## Levels -/

/-- A level that is entered is one more to leave. -/
theorem MovesOn.enter {f : Unit → Read β} (hf : MovesOn t fuel spare least (up + 1) (f ())) :
    MovesOn t fuel spare least up (enter >>= f) := by
  intro r ht hends hup
  by_cases hdepth : maxDepth ≤ r.depth
  · have hrun : Read.enter r = .error (.tooDeep maxDepth (some r.here.loc)) := by
      rw [enter_eq, if_pos hdepth]
    exact .of_error ((Passes.enter r).stop hrun) (apply_bind_error hrun) fun _ => by simp
  · have hrun : Read.enter r = .ok ((), { r with depth := r.depth + 1 }) := by
      rw [enter_eq, if_neg hdepth]
    have hrest := hf { r with depth := r.depth + 1 } ht hends (Nat.succ_le_succ hup)
    exact .after (.enter r) hrun (List.suffix_refl _) hrest le_rfl le_rfl
      (Nat.succ_add_eq_add_succ r.depth up)

theorem Moves.enter {f : Unit → Read β} (hf : Moves fuel spare least (up + 1) (f ())) :
    Moves fuel spare least up (enter >>= f) :=
  fun t => (hf t).enter

/-- Behind levels that are left, none is to be left. -/
theorem MovesOn.leave {f : Unit → Read β} (hf : MovesOn t fuel spare least 0 (f ())) :
    MovesOn t fuel spare least up (leave up >>= f) := by
  intro r ht hends hup
  have hrest := hf { r with depth := r.depth - up } ht hends (Nat.zero_le _)
  have hrun : Read.leave up r = .ok ((), { r with depth := r.depth - up }) := rfl
  exact .after (.leave up r) hrun (List.suffix_refl _) hrest le_rfl le_rfl (Nat.sub_add_cancel hup)

theorem Moves.leave {f : Unit → Read β} (hf : Moves fuel spare least 0 (f ())) :
    Moves fuel spare least up (leave up >>= f) :=
  fun t => (hf t).leave

end Read

end Lineage
