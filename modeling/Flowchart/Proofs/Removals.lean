import Flowchart.Proofs.Membership

/-! Whole lists of entities go: the edges at a node, or everything that a diagram has of a kind.
A kind is a part of the diagram, and what is said here is said of nodes, edges and subgraphs
alike. -/
namespace Flowchart
open Action Progress Edit

/-- A part of diagrams that holds the entities of one kind, with the change that says of one that
it is gone. -/
structure Part (α : Type) [Keyed α Value] where
  get : Diagram → List α
  set : List α → Diagram → Diagram
  gone : α → Change
  get_set : ∀ xs d, get (set xs d) = xs
  set_set : ∀ xs ys d, set xs (set ys d) = set xs d
  set_get : ∀ d, set (get d) d = d
  fits : ∀ d x, Keyed.find? (Keyed.key x) (get d) = some x → (gone x).Fits d
  apply : ∀ d x, d.apply (gone x) = set (Keyed.remove (Keyed.key x) (get d)) d

namespace Part

/-- The nodes of a diagram. -/
def nodes : Part Node where
  get := Diagram.nodes
  set nodes d := { d with nodes }
  gone := .nodeRemoved
  get_set _ _ := rfl
  set_set _ _ _ := rfl
  set_get _ := rfl
  fits _ _ h := h
  apply _ _ := rfl

/-- The edges of a diagram. -/
def edges : Part Edge where
  get := Diagram.edges
  set edges d := { d with edges }
  gone := .edgeRemoved
  get_set _ _ := rfl
  set_set _ _ _ := rfl
  set_get _ := rfl
  fits _ _ h := h
  apply _ _ := rfl

/-- The subgraphs of a diagram. -/
def subgraphs : Part Subgraph where
  get := Diagram.subgraphs
  set subgraphs d := { d with subgraphs }
  gone := .subgraphRemoved
  get_set _ _ := rfl
  set_set _ _ _ := rfl
  set_get _ := rfl
  fits _ _ h := h
  apply _ _ := rfl

variable {α : Type} [Keyed α Value] {p : Progress} {err : Error → Progress → Prop}

/-- Entities of one kind are removed one after the other. -/
theorem removeAll_ends (part : Part α) {xs : List α} (nodup : (Keyed.keys xs).Nodup)
    (distinct : p.diagram.Distinct)
    (there : ∀ x ∈ xs, Keyed.find? (Keyed.key x) (part.get p.diagram) = some x) :
    Ends (xs.forM fun x => change (part.gone x)) p (fun _ q => Leads p q ∧ q.diagram =
      part.set ((part.get p.diagram).filter fun x => Keyed.key x ∉ Keyed.keys xs) p.diagram)
      err := by
  induction xs generalizing p with
  | nil =>
    refine ends_pure.mpr ⟨.refl distinct, ?_⟩
    simp [part.set_get]
  | cons x xs ih =>
    change Ends (change _ >>= fun _ => xs.forM _) p _ err
    rw [ends_bind, ends_change]
    obtain ⟨fresh, nodup⟩ := List.nodup_cons.mp nodup
    have leads : Leads p (p.make (part.gone x)) :=
      (Leads.refl distinct).make (part.fits _ _ (there x List.mem_cons_self))
    refine (ih nodup leads.distinct ?_).imp ?_ fun _ _ => id
    · intro y hy
      have other : Keyed.key x ≠ Keyed.key y := fun e => fresh (e ▸ Keyed.mem_keys hy)
      simp only [make, part.apply, part.get_set]
      rw [Keyed.find?_remove_of_ne other]
      exact there y (List.mem_cons_of_mem x hy)
    · rintro _ q ⟨hq, left⟩
      refine ⟨leads.trans hq, ?_⟩
      rw [left]
      simp only [make, part.apply, part.get_set, part.set_set, Keyed.remove, List.filter_filter]
      congr 1
      refine List.filter_congr fun y _ => ?_
      by_cases hy : Keyed.key y = Keyed.key x <;> simp [hy]

/-- All entities of one kind are removed. -/
theorem removeKind_ends (part : Part α) (nodup : (Keyed.keys (part.get p.diagram)).Nodup)
    (distinct : p.diagram.Distinct) :
    Ends ((part.get p.diagram).forM fun x => change (part.gone x)) p
      (fun _ q => Leads p q ∧ q.diagram = part.set [] p.diagram) err := by
  refine (part.removeAll_ends nodup distinct
    fun x hx => (Keyed.find?_eq_some_iff nodup).mpr ⟨hx, rfl⟩).imp ?_ fun _ _ ht => ht
  rintro _ q ⟨leads, left⟩
  refine ⟨leads, left.trans ?_⟩
  rw [List.filter_eq_nil_iff.mpr fun x hx => by simpa using Keyed.mem_keys hx]

end Part
end Flowchart
