import Lineage.Tracking.Shelf
import Mathlib.Data.List.Nodup
import Mathlib.Data.Nat.Find

/-!
# Who is alive

An object or array is alive while a name, or something alive that holds it,
refers to it. A shelf decides that by a search from its names that goes through
no more values than there are objects and arrays, and finds everything alive: on
a shortest way to something, no value is met twice and each but the last holds
something, so the values before the last are of different objects and arrays.
-/

namespace Lineage

/-! ## Names -/

namespace Assoc

variable {α : Type u} {m : Assoc α} {key other : String} {a : α}

theorem keys_insert (m : Assoc α) (key : String) (a : α) :
    (m.insert key a).keys = if key ∈ m.keys then m.keys else m.keys ++ [key] := by
  obtain ⟨es⟩ := m
  unfold insert keys
  induction es with
  | nil => rfl
  | cons e es ih =>
      obtain ⟨k, b⟩ := e
      by_cases hk : k = key
      · simp [insertEntry, hk]
      · simp only [insertEntry, hk, ↓reduceIte, List.map_cons, ih, List.mem_cons, Ne.symm hk,
          false_or]
        split <;> rfl

theorem nodup_keys_insert (h : m.keys.Nodup) : (m.insert key a).keys.Nodup := by
  rw [keys_insert]
  split
  · exact h
  · rename_i hkey
    exact h.append (List.nodup_singleton key) (by simpa using hkey)

theorem nodup_keys_erase (h : m.keys.Nodup) : (m.erase key).keys.Nodup :=
  h.sublist (List.filter_sublist.map Prod.fst)

theorem find?_erase (m : Assoc α) (key other : String) :
    (m.erase key).find? other = if other = key then none else m.find? other := by
  obtain ⟨es⟩ := m
  unfold erase find?
  induction es with
  | nil => simp
  | cons e es ih =>
      obtain ⟨k, b⟩ := e
      by_cases hk : k = key
      · rw [List.filter_cons_of_neg (by simpa using hk), ih, List.lookup_cons]
        split
        · rfl
        · rename_i hother
          rw [show (other == k) = false by simpa [hk] using hother]
      · rw [List.filter_cons_of_pos (by simpa using hk), List.lookup_cons, List.lookup_cons, ih]
        split
        · rename_i hother
          obtain rfl : other = k := by simpa using hother
          rw [if_neg hk]
        · rfl

/-- If each name occurs once, its entry is what it has. -/
theorem find?_of_mem (hkeys : m.keys.Nodup) (h : (key, a) ∈ m.entries) : m.find? key = some a := by
  obtain ⟨es⟩ := m
  unfold find? keys at *
  induction es with
  | nil => cases h
  | cons e es ih =>
      obtain ⟨k, b⟩ := e
      rw [List.map_cons, List.nodup_cons] at hkeys
      rcases List.mem_cons.mp h with heq | hmem
      · cases heq
        exact List.lookup_cons_self
      · have hne : key ≠ k := by
          rintro rfl
          exact hkeys.1 (List.mem_map.mpr ⟨(key, a), hmem, rfl⟩)
        rw [List.lookup_cons, show (key == k) = false by simpa using hne]
        exact ih hkeys.2 hmem

end Assoc

theorem Value.eq_of_ref? {v w : Value} {r : Ref} (hv : v.ref? = some r) (hw : w.ref? = some r) :
    v = w := by
  cases v <;> cases hv <;> cases w <;> cases hw <;> rfl

/-! ## The search -/

namespace Heap

variable {h : Heap} {target holder r : Ref} {v part : Value} {levels : Nat}

/-- Whether a value is, or holds through any others, something that is referred to. -/
inductive Holds (h : Heap) (target : Ref) : Value → Prop where
  | here {v : Value} (hv : v.ref? = some target) : Holds h target v
  | within {v part : Value} (hpart : part ∈ h.parts v) (hholds : Holds h target part) :
      Holds h target v

/-- The objects and arrays of a heap. -/
def refs (h : Heap) : List Ref :=
  (List.range h.objects.size).map .object ++ (List.range h.arrays.size).map .array

theorem length_refs (h : Heap) : h.refs.length = h.objects.size + h.arrays.size := by
  simp [refs]

/-- Only objects and arrays hold anything. -/
theorem exists_ref_of_part (hpart : part ∈ h.parts v) : ∃ r ∈ h.refs, v.ref? = some r := by
  cases v with
  | object id =>
      refine ⟨.object id, ?_, rfl⟩
      by_contra hid
      have hnone : h.objects[id]? = none := by simpa [refs] using hid
      simp [parts, cells, hnone, Assoc.empty] at hpart
  | array id =>
      refine ⟨.array id, ?_, rfl⟩
      by_contra hid
      have hnone : h.arrays[id]? = none := by simpa [refs] using hid
      simp [parts, elements, hnone] at hpart
  | _ => cases hpart

theorem reachesWithin_succ :
    h.reachesWithin target (levels + 1) v ↔
      v.ref? = some target ∨ ∃ part ∈ h.parts v, h.reachesWithin target levels part := by
  simp [reachesWithin]

theorem reachesWithin_mono (hv : h.reachesWithin target levels v) {more : Nat}
    (hle : levels ≤ more) : h.reachesWithin target more v := by
  induction levels generalizing v more with
  | zero =>
      have hv : v.ref? = some target := by simpa [reachesWithin] using hv
      cases more with
      | zero => simpa [reachesWithin] using hv
      | succ more => exact reachesWithin_succ.mpr (.inl hv)
  | succ levels ih =>
      obtain ⟨more, rfl⟩ := Nat.exists_eq_succ_of_ne_zero (Nat.ne_zero_of_lt hle)
      rcases reachesWithin_succ.mp hv with hv | ⟨part, hpart, hwithin⟩
      · exact reachesWithin_succ.mpr (.inl hv)
      · exact reachesWithin_succ.mpr
          (.inr ⟨part, hpart, ih hwithin (Nat.le_of_succ_le_succ hle)⟩)

theorem holds_of_reachesWithin (hv : h.reachesWithin target levels v) : h.Holds target v := by
  induction levels generalizing v with
  | zero => exact .here (by simpa [reachesWithin] using hv)
  | succ levels ih =>
      rcases reachesWithin_succ.mp hv with hv | ⟨part, hpart, hwithin⟩
      · exact .here hv
      · exact .within hpart (ih hwithin)

theorem exists_reachesWithin (hv : h.Holds target v) : ∃ levels, h.reachesWithin target levels v := by
  induction hv with
  | here hv => exact ⟨0, by simpa [reachesWithin] using hv⟩
  | within hpart _ ih =>
      obtain ⟨levels, hwithin⟩ := ih
      exact ⟨levels + 1, reachesWithin_succ.mpr (.inr ⟨_, hpart, hwithin⟩)⟩

/-- Whether something is reached through so many levels and no fewer. -/
def ReachesAt (h : Heap) (target : Ref) (levels : Nat) (v : Value) : Prop :=
  h.reachesWithin target levels v ∧ ∀ fewer < levels, ¬h.reachesWithin target fewer v

theorem ReachesAt.unique {levels' : Nat} (hv : h.ReachesAt target levels v)
    (hv' : h.ReachesAt target levels' v) : levels = levels' := by
  rcases Nat.lt_trichotomy levels levels' with hlt | heq | hgt
  · exact absurd hv.1 (hv'.2 levels hlt)
  · exact heq
  · exact absurd hv'.1 (hv.2 levels' hgt)

/-- A shortest way goes on from a part by a shortest way. -/
theorem ReachesAt.exists_part (hv : h.ReachesAt target (levels + 1) v) :
    ∃ part ∈ h.parts v, h.ReachesAt target levels part := by
  rcases reachesWithin_succ.mp hv.1 with hhere | ⟨part, hpart, hwithin⟩
  · exact absurd (by simpa [reachesWithin] using hhere) (hv.2 0 (Nat.succ_pos levels))
  · refine ⟨part, hpart, hwithin, fun fewer hlt hfewer => ?_⟩
    exact hv.2 (fewer + 1) (Nat.succ_lt_succ hlt)
      (reachesWithin_succ.mpr (.inr ⟨part, hpart, hfewer⟩))

/-- The objects and arrays on a shortest way, but for its end, are all different. -/
theorem ReachesAt.exists_way (hv : h.ReachesAt target levels v) :
    ∃ way : List Ref, way.length = levels ∧ way.Nodup ∧ way ⊆ h.refs ∧
      ∀ r ∈ way, ∃ u n, u.ref? = some r ∧ n ≤ levels ∧ h.ReachesAt target n u := by
  induction levels generalizing v with
  | zero => exact ⟨[], rfl, .nil, List.nil_subset _, fun _ hr => nomatch hr⟩
  | succ levels ih =>
      obtain ⟨part, hpart, hrest⟩ := hv.exists_part
      obtain ⟨way, hlength, hnodup, hsub, hlevels⟩ := ih hrest
      obtain ⟨r, hr, href⟩ := exists_ref_of_part hpart
      -- everything further on is reached through fewer levels
      have hnew : r ∉ way := by
        intro hmem
        obtain ⟨u, n, hu, hn, hreaches⟩ := hlevels r hmem
        rw [Value.eq_of_ref? hu href] at hreaches
        have := hv.unique hreaches
        omega
      refine ⟨r :: way, by simp [hlength], List.nodup_cons.mpr ⟨hnew, hnodup⟩,
        List.cons_subset.mpr ⟨hr, hsub⟩, List.forall_mem_cons.mpr ⟨?_, fun r' hr' => ?_⟩⟩
      · exact ⟨v, levels + 1, href, Nat.le_refl _, hv⟩
      · obtain ⟨u, n, hu, hn, hreaches⟩ := hlevels r' hr'
        exact ⟨u, n, hu, Nat.le_succ_of_le hn, hreaches⟩

/-- **The search finds what a value holds, however far inside.** -/
theorem reaches_iff : h.reaches target v ↔ h.Holds target v := by
  refine ⟨holds_of_reachesWithin, fun hv => ?_⟩
  have hexists := exists_reachesWithin hv
  classical
  have hreaches : h.ReachesAt target (Nat.find hexists) v :=
    ⟨Nat.find_spec hexists, fun _ hlt => Nat.find_min hexists hlt⟩
  -- the way has as many levels as it has places, and the heap has no more than it searches
  obtain ⟨way, hlength, hnodup, hsub, -⟩ := hreaches.exists_way
  have hle := hnodup.length_le_of_subset hsub
  rw [hlength, length_refs] at hle
  exact reachesWithin_mono (Nat.find_spec hexists) hle

/-- What holds something that holds something holds that too. -/
theorem Holds.extend (hv : h.Holds holder v) {w : Value} (hw : w.ref? = some holder)
    (hpart : part ∈ h.parts w) (hr : part.ref? = some r) : h.Holds r v := by
  induction hv with
  | here hv =>
      obtain rfl := Value.eq_of_ref? hv hw
      exact .within hpart (.here hr)
  | within hpart _ ih => exact .within hpart ih

end Heap

/-! ## Alive -/

namespace Shelf

variable {shelf : Shelf} {r : Ref} {v : Value}

/-- An object or array that a name, or something alive that holds it, refers to. -/
inductive Alive (shelf : Shelf) : Ref → Prop where
  | named {name : String} {v : Value} {r : Ref} (hname : shelf.find? name = some v)
      (hr : v.ref? = some r) : Alive shelf r
  | held {holder r : Ref} {v part : Value} (halive : Alive shelf holder)
      (hv : v.ref? = some holder) (hpart : part ∈ shelf.heap.parts v) (hr : part.ref? = some r) :
      Alive shelf r

/-- A value that one can have in hand: if it refers to anything, that is alive. -/
def InHand (shelf : Shelf) (v : Value) : Prop := ∀ r, v.ref? = some r → shelf.Alive r

theorem alive_of_holds (hv : shelf.InHand v) (hholds : shelf.heap.Holds r v) : shelf.Alive r := by
  induction hholds with
  | here hr => exact hv _ hr
  | within hpart _ ih =>
      obtain ⟨holder, -, hholder⟩ := Heap.exists_ref_of_part hpart
      exact ih fun r hr => .held (hv holder hholder) hholder hpart hr

theorem exists_name_of_alive (h : shelf.Alive r) :
    ∃ name v, shelf.find? name = some v ∧ shelf.heap.Holds r v := by
  induction h with
  | named hname hr => exact ⟨_, _, hname, .here hr⟩
  | held _ hv hpart hr ih =>
      obtain ⟨name, w, hname, hholds⟩ := ih
      exact ⟨name, w, hname, hholds.extend hv hpart hr⟩

/-- **A shelf knows who is alive.** -/
theorem isAlive_iff (hnames : shelf.named.keys.Nodup) : shelf.isAlive r ↔ shelf.Alive r := by
  rw [isAlive, List.any_eq_true]
  constructor
  · rintro ⟨⟨name, v⟩, hmem, hreaches⟩
    have hname : shelf.find? name = some v := Assoc.find?_of_mem hnames hmem
    exact alive_of_holds (fun r hr => .named hname hr) (Heap.reaches_iff.mp hreaches)
  · intro halive
    obtain ⟨name, v, hname, hholds⟩ := exists_name_of_alive halive
    exact ⟨(name, v), Assoc.mem_of_find? hname, Heap.reaches_iff.mpr hholds⟩

theorem inHand_iff (hnames : shelf.named.keys.Nodup) :
    shelf.InHand v ↔ ∀ r ∈ v.ref?, shelf.isAlive r :=
  forall₂_congr fun _ _ => (isAlive_iff hnames).symm

end Shelf

end Lineage
