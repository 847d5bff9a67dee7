import Lineage.Proofs.Alike.Assign

/-!
# All expressions side by side

Every form of expression is evaluated alike on both sides, if the tasks in it are.
-/

namespace Lineage

open Plan (asking doing)

/-- What is no name is none when it is annotated. -/
theorem Expr.Annotates.isName {e e' : Expr} (he : e.Annotates e') (h : e'.isName) : e.isName := by
  cases he <;> first | rfl | cases h

namespace AlikeAt

open Plan.Agree

variable {k : Nat} {P : Pairing} {m m' : Machine} {loc : Option Location}

/-! ## Recorded values -/

/-- A step that only records a value comes to this value. -/
theorem valueStep {p : Plan Value} {e : Expr} {kind : Kind} {source : OriginSource}
    (hkind : kind ∈ [.stringLiteral, .numericLiteral, .identifier])
    (h : Plan.Agree k P AlikeValues p m (asking (.eval e)) m') :
    Plan.Agree k P AlikeValues p m
      (Task.evalPlan (.step loc kind [.single "value" (.mk e source)])) m' := by
  rw [← bind_pure p]
  refine arg h fun _ hm₁ hv => noArgs (recorded ?_)
  simp only [List.mem_cons, List.not_mem_nil, or_false] at hkind
  rcases hkind with rfl | rfl | rfl <;> exact Plan.Agree.given rfl (returns hm₁ hv)

/-- A recorded literal makes an object that is filled in the same way. -/
theorem objectStep {cells : Cells} {ts : List Tracked} {keys roles : List String}
    (hm : m.Like P m') (hlength : keys.length = ts.length)
    (hcells : Assoc.Like (Cell.Like P) cells (Cells.placeAll .empty (partsOf keys roles ts)))
    (hfits : List.Forall₂ Step.Fits roles ts) :
    Agrees P AlikeValues (Eval.newObject cells) m
      (Eval.objectStep (Assoc.empty.insert "properties" (.list ts))
        ⟨[("keys", .list keys), ("kinds", .list roles)]⟩) m' := by
  obtain ⟨-, t, hrun⟩ := Eval.objectStep_apply hlength hfits m'
  rw [Agrees, hrun]
  exact .ok (P.le_withObject _ _)
    ((hm.withHeap (P.le_withObject _ _) (hm.heap.newObject hcells)).tracking_right t)
    (.object (.inr ⟨rfl, rfl⟩))

/-! ## Members -/

/-- A member is read as if it were called, without the object that it is called on. -/
theorem evalPlan_member (o : Expr) (name : String) :
    Task.calleePlan (.member none o name) >>= (fun c => pure c.1) =
      Task.evalPlan (.member loc o name) := by
  simp only [Task.calleePlan, Task.evalPlan, bind_assoc, pure_bind, bind_pure]

theorem evalPlan_index (o key : Expr) :
    Task.calleePlan (.index none o key) >>= (fun c => pure c.1) =
      Task.evalPlan (.index loc o key) := by
  simp only [Task.calleePlan, Task.evalPlan, bind_assoc, pure_bind, bind_pure]

/-! ## Unary operations -/

/-- The type of a name is looked up on both sides. -/
theorem typeofName (hm : m.Like P m') (at₁ at₂ : Option Location) (name : String) :
    Plan.Agree k P AlikeValues (Task.unaryPlan .typeof (.ident at₁ name)) m
      (Task.unaryPlan .typeof (.ident at₂ name)) m' := by
  refine own_left (x := Eval.look _) rfl (own_right (y := Eval.look _) rfl ?_)
  have hboth := hm.lookup name
  dsimp only
  generalize m.lookup name = b, m'.lookup name = b' at hboth
  cases hboth with
  | none => exact returns hm (.string _)
  | some hb =>
      dsimp only
      rw [hb.value.typeName]
      exact returns hm (.string _)

/-- What a unary operation does with its operand. -/
def unaryResult (op : UnaryOp) (v : Value) : Plan Value :=
  match op with
  | .not => return .bool !v.isTruthy
  | .minus => doing (Eval.ofHeap fun h => .number (-h.toNumber v))
  | .plus => doing (Eval.ofHeap fun h => .number (h.toNumber v))
  | .typeof => return .string v.typeName

/-- Unless a name is asked for its type, the operand is evaluated. -/
theorem unaryPlan_eq {op : UnaryOp} {e : Expr} (he : ¬(op = .typeof ∧ e.isName)) :
    Task.unaryPlan op e = asking (.eval e) >>= unaryResult op := by
  unfold Task.unaryPlan
  split
  · exact absurd ⟨rfl, rfl⟩ he
  · rfl

theorem unaryResult_agree {v v' : Value} (op : UnaryOp) (hm : m.Like P m') (hv : v.Like P v') :
    Plan.Agree k P AlikeValues (unaryResult op v) m (unaryResult op v') m' := by
  unfold unaryResult
  cases op with
  | not =>
      dsimp only
      rw [hv.isTruthy]
      exact returns hm (.bool _)
  | typeof =>
      dsimp only
      rw [hv.typeName]
      exact returns hm (.string _)
  | minus | plus =>
      refine own (Agrees.ofHeap_last hm ?_)
      rw [hm.heap.toNumber hv]
      exact .number _

variable (h : AlikeAt k)
include h

/-! ## All forms -/

/-- **An expression and its annotated form are evaluated alike.** -/
theorem evalPlan {e e' : Expr} (he : e.Annotates e') (ht : (Node.expr e).Transparent)
    (hm : m.Like P m') :
    Plan.Agree k P AlikeValues (Task.evalPlan e) m (Task.evalPlan e') m' := by
  have hchild := fun {c : Node} (hc : c ∈ (Node.expr e).children) => ht.child hc
  cases he with
  | string => exact valueStep (by simp) (asking_right (returns hm (.string _)))
  | number => exact valueStep (by simp) (asking_right (returns hm (.number _)))
  | bool => exact returns hm (.bool _)
  | null => exact returns hm .null
  | undefined => exact returns hm .undefined
  | this => exact own (Agrees.look hm hm.this)
  | function hf =>
      have hlike : Func.Like _ _ := ⟨hf, fun s hs => hchild (List.mem_map_of_mem hs)⟩
      exact own_bind (Agrees.closure hm hlike) fun _ hm₁ hij => returns hm₁ (.function hij)
  | unrecorded => exact own (Agrees.readVariable hm _)
  | ident => exact valueStep (by simp) (asking_right (own (Agrees.readVariable hm _)))
  | @arithmetic _ _ op _ _ _ _ hop hl hr =>
      refine arg (h.eval hl (hchild (.head _)) hm) fun {P₁ v v' origin m₁ m₁'} _ hm₁ hl => ?_
      refine arg (h.eval hr (hchild (.tail _ (.head _))) hm₁)
        fun {P₂ w w' origin' m₂ m₂'} hP hm₂ hr => noArgs (recorded ?_)
      have hresult : Agrees P₂ AlikeValues (Eval.ofHeap (·.apply op v w)) m₂
          (Eval.ofHeap (·.apply op v' w')) m₂' :=
        Agrees.ofHeap_last hm₂ (hm₂.heap.apply op (hl.mono hP) hr)
      have hstep := Eval.binaryStep_eq hop ⟨v', origin⟩ ⟨w', origin'⟩
      rw [← hstep] at hresult
      exact (own hresult).bind_right fun _ hm₃ hv => returns hm₃ hv
  | comparison hop hl hr =>
      refine (h.eval hl (hchild (.head _)) hm).bind fun _ hm₁ hl => ?_
      refine (h.eval hr (hchild (.tail _ (.head _))) hm₁).bind fun hP hm₂ hr => ?_
      exact own (Agrees.ofHeap_last hm₂ (hm₂.heap.apply _ (hl.mono hP) hr))
  | @logical _ _ op _ _ _ _ hl hr =>
      refine (h.eval hl (hchild (.head _)) hm).bind fun _ hm₁ hl => ?_
      have hright := h.eval hr (hchild (.tail _ (.head _))) hm₁
      rw [hl.isTruthy]
      split
      · exact returns hm₁ hl
      · exact returns hm₁ hl
      · exact hright
  | typeofName => exact asking_left (asking_right (typeofName hm none none _))
  | unary hop he =>
      refine asking_left (asking_right ?_)
      show Plan.Agree k P AlikeValues (Task.unaryPlan _ _) m (Task.unaryPlan _ _) m'
      rw [unaryPlan_eq hop, unaryPlan_eq fun hname => hop ⟨hname.1, he.isName hname.2⟩]
      exact (h.eval he (hchild (.head _)) hm).bind fun _ hm₁ hv => unaryResult_agree _ hm₁ hv
  | update htarget =>
      exact asking_left (asking_right (h.update htarget (hchild (.head _)) hm))
  | member ho =>
      rw [← evalPlan_member]
      exact (h.calleeMember ho (hchild (.head _)) hm none).bind_left
        fun _ hm₁ hc => returns hm₁ hc.1
  | index ho hkey =>
      rw [← evalPlan_index]
      exact (h.calleeIndex ho hkey (hchild (.head _)) (hchild (.tail _ (.head _))) hm none).bind_left
        fun _ hm₁ hc => returns hm₁ hc.1
  | call hf hargs =>
      exact h.evalCall hf hargs (hchild (.head _))
        (fun e he => hchild (.tail _ (List.mem_map_of_mem he))) hm _
  | @object _ _ ps ps' hps =>
      refine ask_right ?_
      show Plan.Agree k P AlikeValues (asking (.evalProperties ps .empty) >>= fun cells =>
        doing (Eval.newObject cells)) m ((asking (.evalSlots (ps'.map Property.slot)) >>= fun ts =>
          asking (.evalArgs [] (Assoc.empty.insert "properties" (.list ts)))) >>= _) m'
      rw [bind_assoc]
      refine (h.properties hps (fun n hn => hchild hn) ht.here hm .nil).bind
        fun {P₁ cells ts m₁ m₁'} _ hm₁ hfilled => noArgs (recorded ?_)
      have hlength : (ps'.map Property.key).length = ts.length := by
        rw [List.length_map, ← hfilled.2.length_eq, List.length_map]
      exact (own (objectStep hm₁ hlength hfilled.1 hfilled.2)).bind_right
        fun _ hm₂ hv => returns hm₂ hv
  | @array _ _ es es' hes =>
      refine ask_right ?_
      show Plan.Agree k P AlikeValues (asking (.evalAll es) >>= fun vs =>
        doing (Eval.newArray vs.toArray)) m ((asking (.evalSlots (es'.map Slot.of)) >>= fun ts =>
          asking (.evalArgs [] (Assoc.empty.insert "elements" (.list ts)))) >>= _) m'
      rw [bind_assoc]
      refine (h.slots hes (fun e he => hchild (List.mem_map_of_mem he)) hm).bind
        fun {P₁ vs ts m₁ m₁'} _ hm₁ hvs => noArgs (recorded ?_)
      have harray := Agrees.newArray hm₁ hvs
      rw [← Eval.arrayStep_eq] at harray
      exact (own harray).bind_right fun _ hm₂ hv => returns hm₂ hv
  | @assignName _ _ _ op _ _ _ hv =>
      refine asking_left (h.assignName hv (hchild (.tail _ (.head _))) (fun hop => ?_) hm none)
      exact ht.here.2 (.inl hop)
  | assignMember ho hv =>
      refine asking_left (h.assignNamed (ht.here.1 rfl) ho hv ((hchild (.head _)).child (.head _))
        (hchild (.tail _ (.head _))) (fun hop => ?_) hm none _)
      exact ht.here.2 (.inl hop)
  | assignIndex ho hkey hv =>
      exact asking_left (h.assignComputed (ht.here.1 rfl) ho hkey hv
        ((hchild (.head _)).child (.head _)) ((hchild (.head _)).child (.tail _ (.head _)))
        (hchild (.tail _ (.head _))) (ht.here.2 (.inr rfl)) hm none)
  | conditional htest hyes hno =>
      refine (h.eval htest (hchild (.head _)) hm).bind fun _ hm₁ hv => ?_
      rw [hv.isTruthy]
      split
      · exact h.eval hyes (hchild (.tail _ (.head _))) hm₁
      · exact h.eval hno (hchild (.tail _ (.tail _ (.head _)))) hm₁

end AlikeAt

end Lineage
