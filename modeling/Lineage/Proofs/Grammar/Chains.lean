import Lineage.Proofs.Grammar.Levels

/-!
# Chains of operators and of accesses

Operators of one tier group to the left, and so do member accesses and calls. Such
a chain is read in a loop, with what has been read so far on its left. A tree of
this form has its first operand deepest inside, so what is known about reading it
is said for the loop: behind the tokens of the tree, the loop goes on with the tree
on its left and with one more level for each link. So the tree may itself be the
left part of a longer one.
-/

namespace Lineage

open Read

variable {w : Spelling} {e : Expr} {fuel : Nat} {rest : List TokenKind} {depth : Nat}

namespace Expr

/-- The loop of a tier reads the expression as its left part. -/
def ChainAt (w : Spelling) (e : Expr) (t : Tier) : Prop :=
  ∀ (fuel : Nat) (rest : List TokenKind) (depth : Nat) (s : Stand) (Q : Expr → Prop),
    24 * (e.written w t.level).length + 23 ≤ fuel + 1 + 2 * t.level → Stops (t.level + 1) rest →
    (∀ e' links fuel', e'.unplaced = e.unplaced → fuel ≤ fuel' + (e.written w t.level).length →
      (tierRest fuel' t e' links).Takes ⟨rest, depth + links⟩ s Q) →
    (operand fuel t >>= fun left => tierRest fuel t left 0).Takes
      ⟨e.written w t.level ++ rest, depth⟩ s Q

/-- The loop of member accesses and calls reads the expression as its left part. -/
def LinksAt (w : Spelling) (e : Expr) : Prop :=
  ∀ (fuel : Nat) (rest : List TokenKind) (depth : Nat) (s : Stand) (Q : Expr → Prop),
    24 * (e.written w 10).length + 2 ≤ fuel →
    (∀ e' links fuel', e'.unplaced = e.unplaced → fuel ≤ fuel' + (e.written w 10).length →
      (callMemberRest fuel' e' links).Takes ⟨rest, depth + links⟩ s Q) →
    (primary fuel >>= fun first => callMemberRest fuel first 0).Takes
      ⟨e.written w 10 ++ rest, depth⟩ s Q

/-- What is not of the tier starts a chain of it. -/
theorem ReadAt.chain {t : Tier} (h : e.ReadAt w (t.level + 1)) (he : e.level ≠ t.level) :
    e.ChainAt w t := by
  intro fuel rest depth s Q hfuel hstops hgo
  have hlevel := t.level_le
  rw [← written_succ he] at hfuel hgo ⊢
  match fuel, hfuel with
  | 0, hfuel => omega
  | fuel + 1, hfuel =>
      rw [operand_succ_eq]
      exact (h fuel rest depth (by omega) hstops).bind fun e' he' =>
        hgo e' 0 (fuel + 1) he' (Nat.le_add_right _ _)

/-- What is no chain of accesses starts one. -/
theorem ReadAt.links (h : e.ReadAt w 11) (he : e.level ≠ 10) : e.LinksAt w := by
  intro fuel rest depth s Q hfuel hgo
  rw [← show e.written w 11 = e.written w 10 from written_succ he] at hfuel hgo ⊢
  have hstops : Stops 11 rest := by
    intro l hl
    unfold TokenKind.grip? at hl
    split at hl <;> cases hl <;> decide
  exact (h fuel rest depth (by omega) hstops).bind fun e' he' =>
    hgo e' 0 fuel he' (Nat.le_add_right _ _)

/-- A chain of a tier is read on the level of the tier. -/
theorem ChainAt.readAt {t : Tier} (h : e.ChainAt w t) : e.ReadAt w t.level := by
  intro fuel rest depth hfuel hstops
  have hlevel := t.level_le
  rw [atLevel_tier]
  match fuel, hfuel with
  | 0, hfuel => omega
  | fuel + 1, hfuel =>
      unfold Read.tier
      refine h fuel rest depth _ _ hfuel (hstops.mono (Nat.le_succ _))
        fun e' links fuel' he' hf => ?_
      cases fuel' with
      | zero => omega
      | succ fuel' =>
          unfold tierRest
          refine takes_peek.bind fun token htoken => ?_
          rw [htoken.1, show Stand.next ⟨rest, depth + links⟩ = rest.headD .ending from rfl,
            Tier.joint?_eq_none hstops (Nat.le_refl _)]
          exact takes_leave.bind fun _ _ => takes_pure he'

/-- A chain of accesses is read on their level. -/
theorem LinksAt.readAt (h : e.LinksAt w) : e.ReadAt w 10 := by
  intro fuel rest depth hfuel hstops
  match fuel, hfuel with
  | 0, hfuel => omega
  | fuel + 1, hfuel =>
      show (Read.callMember (fuel + 1)).Takes _ _ _
      unfold Read.callMember
      refine h fuel rest depth _ _ (by omega) fun e' links fuel' he' hf => ?_
      cases fuel' with
      | zero => omega
      | succ fuel' => exact ReadAs.takes_callMemberRest hstops he'

/-! ## What is known about an expression -/

/-- An expression is read back, also as the left part of a chain. -/
structure ReadBack (w : Spelling) (e : Expr) : Prop where
  begins : Begins e.level (e.tokens w)
  own : e.ReadAt w e.level
  ownChain : ∀ t : Tier, e.level = t.level → e.ChainAt w t
  ownLinks : e.level = 10 → e.LinksAt w

namespace ReadBack

theorem readAt (h : e.ReadBack w) (level : Nat) (hle : level ≤ 11) : e.ReadAt w level :=
  h.own.all h.begins hle

theorem chain (h : e.ReadBack w) (t : Tier) : e.ChainAt w t := by
  by_cases ht : e.level = t.level
  · exact h.ownChain t ht
  · have hlevel := t.level_le
    exact (h.readAt _ (by omega)).chain ht

theorem links (h : e.ReadBack w) : e.LinksAt w := by
  by_cases hl : e.level = 10
  · exact h.ownLinks hl
  · exact (h.readAt 11 (Nat.le_refl 11)).links hl

theorem ofReadAt (hbegins : Begins e.level (e.tokens w)) (h : e.ReadAt w e.level)
    (htier : ∀ t : Tier, e.level ≠ t.level) (hlinks : e.level ≠ 10) : e.ReadBack w :=
  ⟨hbegins, h, fun t ht => absurd ht (htier t), fun hl => absurd hl hlinks⟩

theorem ofChain {t : Tier} (hlevel : e.level = t.level) (hbegins : Begins e.level (e.tokens w))
    (h : e.ChainAt w t) : e.ReadBack w where
  begins := hbegins
  own := hlevel ▸ h.readAt
  ownChain t' ht' := by
    have heq : t = t' := Tier.level_inj (hlevel.symm.trans ht')
    exact heq ▸ h
  ownLinks hl := by
    have hle := t.level_le
    omega

theorem ofLinks (hlevel : e.level = 10) (hbegins : Begins e.level (e.tokens w))
    (h : e.LinksAt w) : e.ReadBack w where
  begins := hbegins
  own := hlevel ▸ h.readAt
  ownChain t ht := by
    have hle := t.level_le
    omega
  ownLinks _ := h

end ReadBack

end Expr

/-! ## Operators between two expressions -/

theorem Joint.unplaced_join (joint : Joint) (loc : Option Location) (l r : Expr) :
    (joint.join loc l r).unplaced = joint.join none l.unplaced r.unplaced := by
  cases joint <;> rfl

/-- An operator is read behind what is known to be read as its left part. -/
theorem Expr.ChainAt.join {joint : Joint} {loc : Option Location} {l r : Expr}
    (hl : l.ChainAt w joint.tier) (hr : r.ReadAt w (joint.tier.level + 1))
    (hwritten : (joint.join loc l r).written w joint.tier.level =
      l.written w joint.tier.level ++ .symbol joint.symbol :: r.written w (joint.tier.level + 1)) :
    (joint.join loc l r).ChainAt w joint.tier := by
  intro fuel rest depth s Q hfuel hstops hgo
  have hlevel := joint.tier.level_le
  rw [hwritten] at hfuel hgo ⊢
  rw [List.length_append, List.length_cons] at hfuel hgo
  rw [List.append_assoc, List.cons_append]
  refine hl fuel _ depth s Q (by omega) ?_ fun l' links fuel' hl' hf => ?_
  · intro n hn
    rw [List.headD_cons, joint.grip?_symbol] at hn
    exact Nat.lt_succ_of_le (Nat.le_of_eq (Option.some.inj hn).symm)
  match fuel', hf with
  | 0, hf | 1, hf => omega
  | fuel' + 2, hf =>
      unfold tierRest
      refine takes_peek.bind fun token htoken => ?_
      rw [htoken.1, Stand.next_cons, joint.joint?_symbol]
      refine takes_skip.then (takes_enter.bind fun _ _ => ?_)
      rw [operand_succ_eq]
      refine (hr fuel' rest _ (by omega) hstops).bind fun r' hr' => ?_
      refine hgo _ (links + 1) (fuel' + 1) ?_ (by omega)
      rw [Joint.unplaced_join, Joint.unplaced_join, hl', hr']

end Lineage
