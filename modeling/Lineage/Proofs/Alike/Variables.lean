import Lineage.Proofs.Alike.Reading

/-!
# Variables, scopes and writes side by side

Both runs make the same scopes in the same order, so scopes go by the same numbers
on both sides and variables are found in the same places. Origins are kept beside
variables by the annotated run alone.
-/

namespace Lineage

variable {P P₁ : Pairing} {m m' m₁' : Machine} {v v' w w' : Value}

namespace Agrees

/-! ## Variables -/

theorem readVariable (hm : m.Like P m') (name : String) :
    Agrees P AlikeValues (Eval.readVariable name) m (Eval.readVariable name) m' := by
  unfold Eval.readVariable
  refine seen ?_
  have hboth := hm.lookup name
  generalize m.lookup name = b, m'.lookup name = b' at hboth
  cases hboth with
  | none => exact throws hm (.runtime _ _)
  | some hb => exact returns hm hb.value

theorem writeVariable (hm : m.Like P m') (name : String) (hv : v.Like P v') :
    Agrees P SameResults (Eval.writeVariable name v) m (Eval.writeVariable name v') m' := by
  unfold Eval.writeVariable
  refine seen ?_
  rw [hm.resolve]
  cases m'.resolve name with
  | none => exact change_last (.refl P) (hm.define _ _ ⟨hv, rfl⟩) rfl
  | some id =>
      have hboth := hm.find? id name
      dsimp only
      generalize (m.scopeAt id).bindings.find? name = b,
        (m'.scopeAt id).bindings.find? name = b' at hboth
      cases hboth with
      | none => exact returns hm rfl
      | some hb =>
          dsimp only
          rw [hb.writable]
          split
          · exact change_last (.refl P) (hm.modifyBinding _ _ fun _ _ hb => ⟨hv, hb.writable⟩) rfl
          · exact throws hm (.runtime _ _)

theorem setOrigin (hm : m.Like P m') (name : String) (origin origin' : Option LogId) :
    Agrees P SameResults (Eval.setOrigin name origin) m (Eval.setOrigin name origin') m' := by
  unfold Eval.setOrigin
  refine seen ?_
  rw [hm.resolve]
  cases m'.resolve name with
  | none => exact returns hm rfl
  | some id =>
      exact change_last (.refl P)
        (hm.modifyBinding _ _ fun _ _ hb => ⟨hb.value, hb.writable⟩) rfl

theorem declareVariable (hm : m.Like P m') (kind : DeclKind) (name : String) (initialized : Bool)
    {b b' : Binding} (hb : b.Like P b') :
    Agrees P SameResults (Eval.declareVariable kind name initialized b) m
      (Eval.declareVariable kind name initialized b') m' := by
  unfold Eval.declareVariable
  refine change_last (.refl P) ?_ rfl
  cases kind with
  | var =>
      dsimp only
      rw [hm.functionScope, (hm.scopes _).bindings.contains]
      split
      · exact hm
      · exact hm.define _ _ ⟨hb.value, rfl⟩
  | «let» | const =>
      dsimp only
      rw [hm.scope]
      exact hm.define _ _ ⟨hb.value, rfl⟩

theorem bindKey (hm : m.Like P m') (kind : Option DeclKind) (name key : String)
    (scope : ScopeId) :
    Agrees P SameResults (Eval.bindKey kind name key scope) m
      (Eval.bindKey kind name key scope) m' := by
  unfold Eval.bindKey
  cases kind with
  | none =>
      exact bind (writeVariable hm name (.string key)) fun _ hm₁ _ => setOrigin hm₁ name none none
  | some kind =>
      cases kind with
      | var =>
          refine change_last (.refl P) ?_ rfl
          rw [hm.functionScope]
          exact hm.define _ _ ⟨.string key, rfl⟩
      | «let» | const => exact change_last (.refl P) (hm.define _ _ ⟨.string key, rfl⟩) rfl

/-! ## Scopes and functions -/

theorem newScope (hm : m.Like P m') {scope scope' : Scope} (hs : scope.Like P scope') :
    Agrees P SameResults (Eval.newScope scope) m (Eval.newScope scope') m' :=
  .ok (.refl P) (hm.newScope hs) hm.size

theorem childScope (hm : m.Like P m') :
    Agrees P SameResults Eval.childScope m Eval.childScope m' := by
  unfold Eval.childScope
  refine seen ?_
  rw [hm.scope]
  exact newScope hm ⟨.nil, rfl, rfl⟩

theorem closure (hm : m.Like P m') {f f' : Func} (hf : f.Like f') :
    Agrees P (fun P i j _ _ => P.functions i j) (Eval.closure f) m (Eval.closure f') m' := by
  unfold Eval.closure
  refine seen ?_
  rw [hm.scope]
  exact newFunction hm (.script hf)

theorem bindParameters {scope : ScopeId} : ∀ {names : List String} {args args' : List Value}
    {m m' : Machine}, m.Like P m' → List.Forall₂ (Value.Like P) args args' →
    Agrees P SameResults (Eval.bindParameters scope names args) m
      (Eval.bindParameters scope names args') m'
  | [], _, _, _, _, hm, _ => returns hm rfl
  | name :: names, args, args', m, m', hm, hargs => by
      unfold Eval.bindParameters
      refine change (.refl P) (bindParameters (hm.define _ _ ⟨?_, rfl⟩) ?_)
      · cases hargs with
        | nil => exact .undefined
        | cons hv _ => exact hv
      · cases hargs with
        | nil => exact .nil
        | cons _ hvs => exact hvs

theorem callScope (hm : m.Like P m') {f f' : Func} (hf : f.Like f') (closureScope : ScopeId)
    {args args' : List Value} (hargs : List.Forall₂ (Value.Like P) args args') :
    Agrees P SameResults (Eval.callScope f closureScope args) m
      (Eval.callScope f' closureScope args') m' := by
  unfold Eval.callScope
  refine bind (newScope hm ⟨.nil, rfl, rfl⟩) fun {P₁ scope scope' m₁ m₁'} hP hm₁ hscope => ?_
  subst hscope
  rw [hf.name, hf.params]
  have hrest {P₂ : Pairing} {m₂ m₂' : Machine} (hP : P.Le P₂) (hm₂ : m₂.Like P₂ m₂') :
      Agrees P₂ SameResults (Eval.bindParameters scope f.params args >>= fun _ => pure scope) m₂
        (Eval.bindParameters scope f.params args' >>= fun _ => pure scope) m₂' :=
    bind (bindParameters hm₂ (Value.likes_mono hargs hP)) fun _ hm₃ _ => returns hm₃ rfl
  cases f.name with
  | none => exact hrest hP hm₁
  | some name =>
      refine bind (newFunction hm₁ (.script hf)) fun {P₂ i j m₂ m₂'} hP₂ hm₂ hij => ?_
      exact change (.refl P₂) (hrest (hP.trans hP₂) (hm₂.define _ _ ⟨.function hij, rfl⟩))

/-- Alike functions are bound in front of the others. -/
theorem hoist_function {f f' : Func} {body body' : List Stmt} (hf : f.Like f')
    (hrest : ∀ {m m' : Machine} {P : Pairing}, m.Like P m' →
      Agrees P SameResults (Eval.hoist body) m (Eval.hoist body') m') (hm : m.Like P m') :
    Agrees P SameResults (Eval.hoist (.function f :: body)) m
      (Eval.hoist (.function f' :: body')) m' := by
  unfold Eval.hoist
  rw [hf.name]
  cases f.name with
  | none => exact hrest hm
  | some name =>
      refine bind (closure hm hf) fun {P₁ i j m₁ m₁'} hP hm₁ hij => ?_
      refine change (.refl P₁) (hrest ?_)
      rw [hm₁.scope]
      exact hm₁.define _ _ ⟨.function hij, rfl⟩

/-- The functions that two alike lists of statements declare. -/
theorem hoist : ∀ {body body' : List Stmt} {m m' : Machine} {P : Pairing},
    Stmt.AnnotatesAll body body' → (∀ s ∈ body, (Node.stmt s).Transparent) → m.Like P m' →
    Agrees P SameResults (Eval.hoist body) m (Eval.hoist body') m'
  | _, _, _, _, _, .nil, _, hm => returns hm rfl
  | _, _, _, _, P, .cons (s := s) hs hbody, htransparent, hm => by
      have hrest := fun {m m' : Machine} {P : Pairing} (hm : m.Like P m') =>
        hoist hbody (fun s hs => htransparent s (List.mem_cons_of_mem _ hs)) hm
      cases hs with
      | function hf =>
          exact hoist_function
            ⟨hf, fun s hs => (htransparent _ (.head _)).child (List.mem_map_of_mem hs)⟩ hrest hm
      | _ => exact hrest hm

end Agrees

/-! ## Writes -/

/-- The same write with alike values. -/
inductive ArrayWrite.Like (P : Pairing) : ArrayWrite → ArrayWrite → Prop where
  | length (n : Nat) : ArrayWrite.Like P (.length n) (.length n)
  | element (i : Nat) {v v' : Value} : v.Like P v' →
      ArrayWrite.Like P (.element i v) (.element i v')

theorem Value.likes_resized {es es' : Array Value}
    (h : List.Forall₂ (Value.Like P) es.toList es'.toList) (n : Nat) :
    List.Forall₂ (Value.Like P) (resized es n).toList (resized es' n).toList := by
  have hsize : es.size = es'.size := h.length_eq
  unfold resized
  rw [hsize]
  split
  · simpa using List.forall₂_take n h
  · rw [Array.toList_append, Array.toList_append]
    exact Value.likes_append h (List.forall₂_same.mpr fun v hv => by
      simp only [Array.toList_replicate, List.mem_replicate] at hv
      exact hv.2 ▸ .undefined)

theorem ArrayWrite.Like.perform {write write' : ArrayWrite} (hw : write.Like P write')
    {es es' : Array Value} (h : List.Forall₂ (Value.Like P) es.toList es'.toList) :
    List.Forall₂ (Value.Like P) (write.perform es).toList (write'.perform es').toList := by
  have hsize : es.size = es'.size := h.length_eq
  cases hw with
  | length n => exact Value.likes_resized h n
  | element i hv =>
      unfold ArrayWrite.perform
      dsimp only
      rw [hsize]
      split
      · simpa using Value.likes_set h i hv
      · rw [Array.toList_push, Array.toList_push]
        exact Value.likes_append (Value.likes_resized h i) (.cons hv .nil)

namespace Agrees

theorem writeArray (hm : m.Like P m') {i j : ArrayId} (hij : P.arrays i j) (key : String)
    (hv : v.Like P v') :
    Agrees P SameResults (Eval.writeArray i key v) m (Eval.writeArray j key v') m' := by
  have hwrites {write write' : ArrayWrite} (hw : write.Like P write') :
      Agrees P SameResults
        (modify fun m => { m with heap := m.heap.modifyElements i write.perform }) m
        (modify fun m => { m with heap := m.heap.modifyElements j write'.perform }) m' :=
    change_last (.refl P) (hm.withHeap (.refl P)
      (hm.heap.modifyElements hij (hw.perform (hm.heap.arrays hij).2))) rfl
  unfold Eval.writeArray
  refine seen ?_
  unfold Heap.arrayWrite
  rw [hm.policy, hm.heap.toNumber hv]
  by_cases hlength : key = "length"
  · rw [if_pos hlength, if_pos hlength]
    dsimp only
    cases lengthOf? m'.policy.maxArrayLength (m'.heap.toNumber v') with
    | none => exact throws hm (.runtime _ _)
    | some n => exact hwrites (.length n)
  · rw [if_neg hlength, if_neg hlength]
    cases indexOfKey? key with
    | none => exact throws hm (.runtime _ _)
    | some n =>
        dsimp only
        by_cases hlimit : m'.policy.maxArrayLength ≤ n
        · rw [if_pos hlimit, if_pos hlimit]
          exact throws hm (.runtime _ _)
        · rw [if_neg hlimit, if_neg hlimit]
          exact hwrites (.element n hv)

/-- Paired objects get alike data. -/
theorem writeCell (hm : m.Like P m') {i j : ObjectId} (hij : P.objects i j) (key : String)
    (hv : v.Like P v') :
    Agrees P SameResults
      (modify fun m =>
        { m with heap := m.heap.modifyCells i fun cells => cells.insert key (.data v) }) m
      (modify fun m =>
        { m with heap := m.heap.modifyCells j fun cells => cells.insert key (.data v') }) m' :=
  change_last (.refl P) (hm.withHeap (.refl P)
    (hm.heap.modifyCells hij ((hm.heap.objects hij).2.insert key (.data hv)))) rfl

end Agrees

/-! ## What only one side does -/

namespace Eval

/-- Something is done that leaves a machine alike to whatever it was alike to. -/
def Unnoticed {α : Type} (x : Eval α) : Prop :=
  ∀ m', ∃ a m₁', x m' = .ok a m₁' ∧ ∀ {P m}, Machine.Like P m m' → Machine.Like P m m₁'

theorem Unnoticed.right {α β γ : Type} {Q : Relates α β} {x : Eval α} {x' : Eval γ}
    {f : γ → Eval β} (hx' : Unnoticed x') (hm : m.Like P m')
    (h : ∀ c {m₁'}, m.Like P m₁' → Agrees P Q x m (f c) m₁') :
    Agrees P Q x m (x' >>= f) m' := by
  obtain ⟨c, m₁', hrun, hlike⟩ := hx' m'
  exact Agrees.bind_right hrun (h c (hlike hm))

theorem unnoticed_look {α : Type} (v : Machine → α) : Unnoticed (look v) :=
  fun m => ⟨v m, m, rfl, id⟩

theorem unnoticed_modifyTracking (f : Tracking → Tracking) : Unnoticed (modifyTracking f) :=
  fun m => ⟨(), _, rfl, fun hm => hm.tracking_right (f m.tracking)⟩

theorem unnoticed_recordSide (kind : Kind) (args extra : List (String × Tracked))
    (statics : List (String × Static)) (result : Value) :
    Unnoticed (recordSide kind args extra statics result) :=
  fun _ => ⟨_, _, rfl, fun hm => hm.tracking_right _⟩

theorem unnoticed_completeStep (kind : Kind) (args : Assoc Given)
    (extra : List (String × Tracked)) (statics : Assoc Static) (result : Value)
    (loc : Option Location) : Unnoticed (completeStep kind args extra statics result loc) :=
  fun _ => ⟨_, _, rfl, fun hm => hm.tracking_right _⟩

theorem unnoticed_setOrigin (name : String) (origin : Option LogId) :
    Unnoticed (setOrigin name origin) := by
  intro m
  unfold setOrigin
  rw [bind_of_ok (x := get) rfl]
  cases m.resolve name with
  | none => exact ⟨(), m, rfl, id⟩
  | some scope => exact ⟨(), _, rfl, fun hm => hm.shadow_right scope name origin⟩

theorem unnoticed_trackParameters (names : List String) : Unnoticed (trackParameters names) := by
  intro m
  refine ⟨(), _, rfl, fun {P m₀} hm => ?_⟩
  refine List.foldlRecOn (motive := (Machine.Like P m₀ ·)) _ _ (hm.tracking_right _)
    fun m₁ hm₁ parameter _ => ?_
  exact hm₁.shadow_right m₁.scope parameter.1 _

theorem Unnoticed.bind {α β : Type} {x : Eval α} {f : α → Eval β} (hx : Unnoticed x)
    (hf : ∀ a, Unnoticed (f a)) : Unnoticed (x >>= f) := by
  intro m
  obtain ⟨a, m₁, hrun, hlike⟩ := hx m
  obtain ⟨b, m₂, hrun', hlike'⟩ := hf a m₁
  exact ⟨b, m₂, (bind_of_ok hrun).trans hrun', fun hm => hlike' (hlike hm)⟩

theorem unnoticed_recordArguments (passed : List Tracked) :
    Unnoticed (Task.recordArguments passed) := by
  unfold Task.recordArguments
  induction passed with
  | nil => exact fun m => ⟨[], m, rfl, id⟩
  | cons t passed ih =>
      rw [List.mapM_cons]
      exact (unnoticed_recordSide _ _ _ _ _).bind fun _ => ih.bind fun _ m => ⟨_, m, rfl, id⟩

end Eval

end Lineage
