import Flowchart.Edit
import Flowchart.Proofs.Keyed
import Flowchart.Proofs.Results

/-! What changed fields do to an entity. Each field has one setter, so a part of an entity that
one field stands for is afterwards what that field says, and a part that no field stands for
stays as it was. -/
namespace Flowchart

theorem Fields.get?_cons (c : Text × Value) (fields : Fields) (name : Text) :
    Fields.get? (c :: fields) name = if c.1 = name then some c.2 else fields.get? name := by
  rw [get?, Keyed.find?_cons]
  split <;> simp_all [Keyed.key, get?]

theorem Fields.get?_eq_none {fields : Fields} {name : Text} (h : name ∉ Keyed.keys fields) :
    fields.get? name = none := by
  rw [get?, Keyed.find?_eq_none_iff.mpr h, Option.map_none]

namespace Edit
variable {α β : Type} {setters : List (Text × (Value → Except Error (α → α)))}
  {changes : Fields} {set : α → α}

theorem setAll_cons {name : Text} {v : Value}
    (h : setAll setters ((name, v) :: changes) = .ok set) :
    ∃ first rest, setAll setters changes = .ok rest ∧ (set = fun x => rest (first x)) ∧
      ((∃ entry ∈ setters, entry.1 = name ∧ entry.2 v = .ok first) ∨
        (name ∉ Keyed.keys setters ∧ first = fun x => x)) := by
  rw [setAll] at h
  cases found : Keyed.find? name setters with
  | none =>
    rw [found] at h
    cases rest : setAll setters changes with
    | error e => simp [rest, bind, Except.bind] at h
    | ok more =>
      simp only [rest, bind, Except.bind, pure, Except.pure, Except.ok.injEq] at h
      exact ⟨_, more, rfl, h.symm, Or.inr ⟨Keyed.find?_eq_none_iff.mp found, rfl⟩⟩
  | some entry =>
    rw [found] at h
    cases one : entry.2 v with
    | error e => simp [one, bind, Except.bind] at h
    | ok first =>
      cases rest : setAll setters changes with
      | error e => simp [one, rest, bind, Except.bind] at h
      | ok more =>
        simp only [one, rest, bind, Except.bind, pure, Except.pure, Except.ok.injEq] at h
        exact ⟨first, more, rfl, h.symm, Or.inl
          ⟨entry, Keyed.mem_of_find? found, Keyed.key_of_find? found, one⟩⟩

/-- No setter touches the part of an entity. -/
def Spares (setters : List (Text × (Value → Except Error (α → α)))) (part : α → β) : Prop :=
  ∀ entry ∈ setters, ∀ v f, entry.2 v = .ok f → ∀ x, part (f x) = part x

/-- The setter of the name sets the part to the value of its field, and the others do not touch
it. -/
def Governs (setters : List (Text × (Value → Except Error (α → α)))) (name : Text)
    (part : α → Value) : Prop :=
  ∀ entry ∈ setters, ∀ v f, entry.2 v = .ok f → ∀ x,
    (entry.1 = name → part (f x) = v) ∧ (entry.1 ≠ name → part (f x) = part x)

theorem setAll_spares {part : α → β} (spares : Spares setters part)
    (h : setAll setters changes = .ok set) (x : α) : part (set x) = part x := by
  induction changes generalizing set x with
  | nil =>
    cases h
    rfl
  | cons c changes ih =>
    obtain ⟨first, rest, hrest, rfl, ⟨entry, mem, _, one⟩ | ⟨_, rfl⟩⟩ := setAll_cons h
    · exact (ih hrest (first x)).trans (spares entry mem c.2 first one x)
    · exact ih hrest x

/-- The part that a field stands for is what the field says, if it is among the changes. -/
theorem setAll_governs {name : Text} {part : α → Value} (governs : Governs setters name part)
    (known : name ∈ Keyed.keys setters) (once : (Keyed.keys changes).Nodup)
    (h : setAll setters changes = .ok set) (x : α) :
    part (set x) = (changes.get? name).getD (part x) := by
  induction changes generalizing set x with
  | nil =>
    cases h
    rfl
  | cons c changes ih =>
    obtain ⟨fresh, once⟩ := List.nodup_cons.mp once
    obtain ⟨first, rest, hrest, rfl, ⟨entry, mem, here, one⟩ | ⟨unknown, rfl⟩⟩ := setAll_cons h
    · have step := governs entry mem c.2 first one x
      rw [here] at step
      rw [ih once hrest (first x), Fields.get?_cons]
      by_cases same : c.1 = name
      · rw [if_pos same, Fields.get?_eq_none (same ▸ fresh), step.1 same]
        rfl
      · rw [if_neg same, step.2 same]
    · have other : c.1 ≠ name := fun e => unknown (e ▸ known)
      rw [ih once hrest x, Fields.get?_cons, if_neg other]

/-! The setters of the three kinds, each with what they leave alone or set alone. -/

theorem spares_node_id : Spares Node.setters Node.id := by
  simp [Spares, Node.setters, map_eq_ok]

theorem spares_edge_id : Spares Edge.setters Edge.id := by
  simp [Spares, Edge.setters, map_eq_ok]

theorem governs_edge_source : Governs Edge.setters "source" Edge.source := by
  simp [Governs, Edge.setters, map_eq_ok]

theorem governs_edge_target : Governs Edge.setters "target" Edge.target := by
  simp [Governs, Edge.setters, map_eq_ok]

theorem spares_subgraph_id : Spares Subgraph.setters Subgraph.id := by
  simp [Spares, Subgraph.setters, map_eq_ok]

theorem spares_subgraph_members : Spares Subgraph.setters Subgraph.members := by
  simp [Spares, Subgraph.setters, map_eq_ok]

theorem governs_subgraph_parent : Governs Subgraph.setters "parent_id" Subgraph.parent := by
  simp [Governs, Subgraph.setters, map_eq_ok]

end Edit
end Flowchart
