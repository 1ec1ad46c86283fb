import Flowchart.Edit
import Flowchart.Proofs.Keyed
import Mathlib.Logic.Relation

/-! Subgraphs inside one another. One step leads from a subgraph to its parent. The way up that
an edit looks along is bounded, and the bound loses nothing: along a longer way something would
come twice. -/
namespace Flowchart.Diagram
open Relation

/-- Is the first id that of a subgraph whose parent is the second? -/
def Under (d : Diagram) (a b : Value) : Prop :=
  ∃ g, d.subgraph? a = some g ∧ g.parent = b ∧ b ≠ .null

/-- The subgraphs with their parents, in order. -/
def nesting (d : Diagram) : List (Value × Value) := d.subgraphs.map fun g => (g.id, g.parent)

theorem find?_nesting (d : Diagram) (id : Value) :
    Keyed.find? id d.nesting = (d.subgraph? id).map fun g => (g.id, g.parent) := by
  unfold nesting subgraph?
  induction d.subgraphs with
  | nil => rfl
  | cons g gs ih =>
    rw [List.map_cons, Keyed.find?_cons, Keyed.find?_cons, ih]
    by_cases h : Keyed.key g = id
    · rw [if_pos h, if_pos (show Keyed.key (g.id, g.parent) = id from h)]
      rfl
    · rw [if_neg h, if_neg (show Keyed.key (g.id, g.parent) ≠ id from h)]

theorem under_iff {d : Diagram} {a b : Value} :
    d.Under a b ↔ (Keyed.find? a d.nesting).map (·.2) = some b ∧ b ≠ .null := by
  rw [find?_nesting, Option.map_map]
  simp only [Under, Option.map_eq_some_iff, Function.comp_apply]
  constructor
  · rintro ⟨g, found, up, some_parent⟩
    exact ⟨⟨g, found, up⟩, some_parent⟩
  · rintro ⟨⟨g, found, up⟩, some_parent⟩
    exact ⟨g, found, up, some_parent⟩

theorem under_congr {d d' : Diagram} (h : d'.nesting = d.nesting) : d'.Under = d.Under := by
  funext a b
  rw [eq_iff_iff, under_iff, under_iff, h]

theorem hasSubgraph_congr {d d' : Diagram} (h : d'.nesting = d.nesting) (id : Value) :
    d'.hasSubgraph id = d.hasSubgraph id := by
  have same := congrArg (fun ps => (Keyed.find? id ps).isSome) h
  simp only [find?_nesting, Option.isSome_map] at same
  rwa [subgraph?, subgraph?, Keyed.isSome_find?, Keyed.isSome_find?] at same

/-- No subgraph encloses itself, directly or through others. -/
def Acyclic (d : Diagram) : Prop := ∀ v, ¬ TransGen d.Under v v

theorem wayUp_sound {d : Diagram} {a b : Value} {n : Nat} (h : b ∈ Edit.wayUp d n a) :
    ReflTransGen d.Under a b := by
  induction n generalizing a with
  | zero => simp [Edit.wayUp] at h
  | succ n ih =>
    rw [Edit.wayUp] at h
    rcases List.mem_cons.mp h with rfl | h
    · exact .refl
    · split at h
      · rename_i g found
        split at h
        · simp at h
        · rename_i some_parent
          exact .head ⟨g, found, rfl, some_parent⟩ (ih h)
      · simp at h

/-- A way that leads on from its first place does so without coming back to it. -/
theorem exists_way_without {α : Type} {r : α → α → Prop} {a b : α} (h : ReflTransGen r a b)
    (ne : a ≠ b) : ∃ c, r a c ∧ ReflTransGen (fun x y => r x y ∧ x ≠ a) c b := by
  induction h with
  | refl => exact absurd rfl ne
  | @tail x y _ step ih =>
    by_cases hx : a = x
    · subst hx
      exact ⟨y, step, .refl⟩
    · obtain ⟨c, first, rest⟩ := ih hx
      exact ⟨c, first, rest.tail ⟨step, Ne.symm hx⟩⟩

/-- The diagram without the subgraph of an id. -/
def withoutSubgraph (d : Diagram) (id : Value) : Diagram :=
  { d with subgraphs := Keyed.remove id d.subgraphs }

theorem under_withoutSubgraph {d : Diagram} {id a b : Value} :
    (d.withoutSubgraph id).Under a b ↔ d.Under a b ∧ a ≠ id := by
  simp only [Under, subgraph?, withoutSubgraph]
  by_cases h : a = id
  · subst h
    simp [Keyed.find?_remove_self]
  · rw [Keyed.find?_remove_of_ne (Ne.symm h)]
    simp [h]

theorem wayUp_withoutSubgraph {d : Diagram} {id a b : Value} {n : Nat}
    (h : b ∈ Edit.wayUp (d.withoutSubgraph id) n a) : b ∈ Edit.wayUp d n a := by
  induction n generalizing a with
  | zero => simp [Edit.wayUp] at h
  | succ n ih =>
    rw [Edit.wayUp] at h ⊢
    refine List.mem_cons.mpr ((List.mem_cons.mp h).imp_right fun h => ?_)
    split at h
    · rename_i g found
      split at h
      · simp at h
      · rename_i some_parent
        have step : (d.withoutSubgraph id).Under a g.parent := ⟨g, found, rfl, some_parent⟩
        obtain ⟨g', found', same, _⟩ := (under_withoutSubgraph.mp step).1
        simpa [found', same, some_parent] using ih h
    · simp at h

theorem length_remove_lt {d : Diagram} {id b : Value} {g : Subgraph} (h : d.subgraph? id = some g)
    (ne : id ≠ b) : (Keyed.remove b (Keyed.remove id d.subgraphs)).length <
      (Keyed.remove b d.subgraphs).length := by
  have key : Keyed.key g = id := Keyed.key_of_find? h
  have there : g ∈ Keyed.remove b d.subgraphs :=
    Keyed.mem_remove.mpr ⟨Keyed.mem_of_find? h, key ▸ ne⟩
  have swap : Keyed.remove b (Keyed.remove id d.subgraphs) =
      Keyed.remove id (Keyed.remove b d.subgraphs) := by
    simp only [Keyed.remove, List.filter_filter, Bool.and_comm]
  rw [swap]
  refine List.length_filter_lt_length_iff_exists.mpr ⟨g, there, ?_⟩
  simp [key]

/-- The way up leads to all that encloses something. It needs as many steps at most as there are
other subgraphs. -/
theorem wayUp_complete {d : Diagram} {a b : Value} (h : ReflTransGen d.Under a b) :
    ∀ {n}, (Keyed.remove b d.subgraphs).length < n → b ∈ Edit.wayUp d n a := by
  -- a way of least length leaves its first subgraph for good, so the number of subgraphs falls
  induction hl : (Keyed.remove b d.subgraphs).length using Nat.strongRecOn generalizing d a with
  | _ l ih =>
    intro n hn
    obtain ⟨n, rfl⟩ := Nat.exists_eq_succ_of_ne_zero (Nat.ne_of_gt (Nat.zero_lt_of_lt hn))
    by_cases ne : a = b
    · subst ne
      simp [Edit.wayUp]
    · obtain ⟨c, ⟨g, found, parent, some_parent⟩, rest⟩ := exists_way_without h ne
      have fewer := length_remove_lt found ne
      have rest : ReflTransGen (d.withoutSubgraph a).Under c b :=
        ReflTransGen.mono (fun x y hxy => under_withoutSubgraph.mpr hxy) c b rest
      have up := ih _ (hl ▸ fewer) rest rfl (n := n) (by
        have : (Keyed.remove b (d.withoutSubgraph a).subgraphs).length <
          (Keyed.remove b d.subgraphs).length := fewer
        omega)
      simp only [Edit.wayUp, found, parent, if_neg some_parent]
      exact List.mem_cons_of_mem _ (wayUp_withoutSubgraph up)

/-- What encloses something is what its way up leads to. -/
theorem mem_enclosing_iff {d : Diagram} {a b : Value} :
    b ∈ Edit.enclosing d a ↔ ReflTransGen d.Under a b :=
  ⟨wayUp_sound, fun h => wayUp_complete h (Nat.lt_succ_of_le (List.length_filter_le _ _))⟩

theorem wouldCycle_iff {d : Diagram} {id parent : Value} :
    Edit.wouldCycle d id parent = true ↔ ReflTransGen d.Under parent id := by
  rw [Edit.wouldCycle, decide_eq_true_iff, mem_enclosing_iff]

/-! ### Diagrams without cycles -/

theorem Acyclic.mono {d d' : Diagram} (h : d.Acyclic)
    (le : ∀ a b, d'.Under a b → TransGen d.Under a b) : d'.Acyclic := by
  intro v cycle
  have twice := TransGen.mono le v v cycle
  rw [transGen_eq_self] at twice
  exact h v twice

/-- A new step from a place that nothing leads to closes no way. -/
theorem Acyclic.grow {d d' : Diagram} (h : d.Acyclic) (id : Value)
    (le : ∀ a b, d'.Under a b → b ≠ id ∧ (a ≠ id → d.Under a b)) : d'.Acyclic := by
  intro v cycle
  have start : v ≠ id := by
    obtain ⟨u, _, last⟩ := TransGen.tail'_iff.mp cycle
    exact (le u v last).1
  have old : ∀ {a b}, TransGen d'.Under a b → a ≠ id → TransGen d.Under a b := by
    intro a b way
    induction way using TransGen.head_induction_on with
    | single step => exact fun ha => .single ((le _ _ step).2 ha)
    | head step _ ih => exact fun ha => .head ((le _ _ step).2 ha) (ih (le _ _ step).1)
  exact h v (old cycle start)

/-- A subgraph with another parent is on no cycle if the parent is not inside it. -/
theorem Acyclic.reparent {d d' : Diagram} (h : d.Acyclic) (id parent : Value)
    (le : ∀ a b, d'.Under a b → d.Under a b ∨ (a = id ∧ b = parent))
    (outside : parent ≠ .null → ¬ ReflTransGen d.Under parent id)
    (some_parent : ∀ a b, d'.Under a b → b ≠ .null) : d'.Acyclic := by
  -- a way in the new diagram is one in the old, or it takes the new step and does so once
  have way : ∀ {a b}, TransGen d'.Under a b → TransGen d.Under a b ∨
      (parent ≠ .null ∧ ReflTransGen d.Under a id ∧ ReflTransGen d.Under parent b) := by
    intro a b way
    induction way with
    | single step =>
      rcases le _ _ step with old | ⟨rfl, rfl⟩
      · exact Or.inl (.single old)
      · exact Or.inr ⟨some_parent _ _ step, .refl, .refl⟩
    | tail _ step ih =>
      rcases le _ _ step with old | ⟨rfl, rfl⟩
      · rcases ih with ih | ⟨hp, up, down⟩
        · exact Or.inl (ih.tail old)
        · exact Or.inr ⟨hp, up, down.tail old⟩
      · have hp := some_parent _ _ step
        rcases ih with ih | ⟨_, up, down⟩
        · exact Or.inr ⟨hp, ih.to_reflTransGen, .refl⟩
        · exact absurd down (outside hp)
  intro v cycle
  rcases way cycle with old | ⟨hp, up, down⟩
  · exact h v old
  · exact outside hp (down.trans up)

end Flowchart.Diagram
