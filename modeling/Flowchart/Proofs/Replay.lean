import Flowchart.Change
import Flowchart.Proofs.Keyed

/-! Changes are replayed onto a copy of a diagram that knows nothing but the changes. The copy
is strict: it takes an entry only if its key is new, and replaces or deletes one only if the
change names exactly the entry that the copy holds. A change that fits a diagram is taken, and
the copy is then what the diagram has become. -/
namespace Flowchart

@[simp] theorem Node.key_eq (n : Node) : Keyed.key n = n.id := rfl

@[simp] theorem Edge.key_eq (e : Edge) : Keyed.key e = e.id := rfl

@[simp] theorem Subgraph.key_eq (g : Subgraph) : Keyed.key g = g.id := rfl

namespace Keyed
variable {α κ : Type} [Keyed α κ] [DecidableEq κ]

/-- The list with a new entry at its end. -/
def append? (x : α) (xs : List α) : Option (List α) :=
  if has (key x) xs then none else some (xs ++ [x])

theorem append?_eq {x : α} {xs : List α} (h : key x ∉ keys xs) :
    append? x xs = some (put x xs) := by
  have free : has (key x) xs = false := by rw [← Bool.not_eq_true, has_iff]; exact h
  simp [append?, free, put_of_not_mem h]

variable [DecidableEq α]

/-- The list with an entry replaced at its place by one with the same key. -/
def replace? (before after : α) (xs : List α) : Option (List α) :=
  if find? (key before) xs = some before ∧ key after = key before then
    some (xs.map fun x => if key x = key before then after else x)
  else none

/-- The list without an entry. -/
def delete? (x : α) (xs : List α) : Option (List α) :=
  if find? (key x) xs = some x then some (xs.filter fun y => key y ≠ key x) else none

theorem replace?_eq {before after : α} {xs : List α} (nodup : (keys xs).Nodup)
    (h : find? (key before) xs = some before) (same : key after = key before) :
    replace? before after xs = some (put after xs) := by
  have there : key after ∈ keys xs := by rw [same]; exact mem_keys (mem_of_find? h)
  rw [replace?, if_pos ⟨h, same⟩, put_eq_map nodup there, same]

theorem delete?_eq {x : α} {xs : List α} (h : find? (key x) xs = some x) :
    delete? x xs = some (remove (key x) xs) := by
  simp only [delete?, h, if_true, remove]
  congr 1
  exact List.filter_congr fun y _ => by simp [bne, beq_eq_decide]

end Keyed

namespace Diagram

/-- A copy of the diagram after a change, if the change fits it. -/
def follow? (d : Diagram) : Change → Option Diagram
  | .nodeAdded n => (Keyed.append? n d.nodes).map fun nodes => { d with nodes }
  | .nodeUpdated n m => (Keyed.replace? n m d.nodes).map fun nodes => { d with nodes }
  | .nodeRemoved n => (Keyed.delete? n d.nodes).map fun nodes => { d with nodes }
  | .edgeAdded e => (Keyed.append? e d.edges).map fun edges => { d with edges }
  | .edgeUpdated e f => (Keyed.replace? e f d.edges).map fun edges => { d with edges }
  | .edgeRemoved e => (Keyed.delete? e d.edges).map fun edges => { d with edges }
  | .subgraphAdded g =>
    (Keyed.append? g d.subgraphs).map fun subgraphs => { d with subgraphs }
  | .subgraphUpdated g h =>
    (Keyed.replace? g h d.subgraphs).map fun subgraphs => { d with subgraphs }
  | .subgraphRemoved g =>
    (Keyed.delete? g d.subgraphs).map fun subgraphs => { d with subgraphs }
  | .directionChanged before direction =>
    if d.direction = before then some { d with direction } else none

/-- A copy of the diagram after changes, if each of them fits. -/
def replay? (d : Diagram) (cs : List Change) : Option Diagram := cs.foldlM follow? d

/-- Nothing of a kind is held twice. -/
structure Distinct (d : Diagram) : Prop where
  nodes : (Keyed.keys d.nodes).Nodup
  edges : (Keyed.keys d.edges).Nodup
  subgraphs : (Keyed.keys d.subgraphs).Nodup

/-- The diagram without the classes of styles, which have no changes. -/
def bare (d : Diagram) : Diagram := { d with classes := [] }

end Diagram

/-- What the change says of the time before it is true of the diagram. -/
def Change.Fits (d : Diagram) : Change → Prop
  | .nodeAdded n => n.id ∉ Keyed.keys d.nodes
  | .nodeUpdated n m => d.node? n.id = some n ∧ m.id = n.id
  | .nodeRemoved n => d.node? n.id = some n
  | .edgeAdded e => e.id ∉ Keyed.keys d.edges
  | .edgeUpdated e f => d.edge? e.id = some e ∧ f.id = e.id
  | .edgeRemoved e => d.edge? e.id = some e
  | .subgraphAdded g => g.id ∉ Keyed.keys d.subgraphs
  | .subgraphUpdated g h => d.subgraph? g.id = some g ∧ h.id = g.id
  | .subgraphRemoved g => d.subgraph? g.id = some g
  | .directionChanged before _ => before = d.direction

theorem Change.Fits.bare {d : Diagram} {c : Change} (h : c.Fits d) : c.Fits d.bare := by
  cases c <;> exact h

namespace Diagram

theorem distinct_empty : Distinct .empty := ⟨List.nodup_nil, List.nodup_nil, List.nodup_nil⟩

theorem Distinct.apply {d : Diagram} (h : d.Distinct) (c : Change) : (d.apply c).Distinct := by
  cases c with
  | nodeAdded n => exact ⟨Keyed.nodup_keys_put h.nodes n, h.edges, h.subgraphs⟩
  | nodeUpdated _ n => exact ⟨Keyed.nodup_keys_put h.nodes n, h.edges, h.subgraphs⟩
  | nodeRemoved n => exact ⟨Keyed.nodup_keys_remove h.nodes n.id, h.edges, h.subgraphs⟩
  | edgeAdded e => exact ⟨h.nodes, Keyed.nodup_keys_put h.edges e, h.subgraphs⟩
  | edgeUpdated _ e => exact ⟨h.nodes, Keyed.nodup_keys_put h.edges e, h.subgraphs⟩
  | edgeRemoved e => exact ⟨h.nodes, Keyed.nodup_keys_remove h.edges e.id, h.subgraphs⟩
  | subgraphAdded g => exact ⟨h.nodes, h.edges, Keyed.nodup_keys_put h.subgraphs g⟩
  | subgraphUpdated _ g => exact ⟨h.nodes, h.edges, Keyed.nodup_keys_put h.subgraphs g⟩
  | subgraphRemoved g => exact ⟨h.nodes, h.edges, Keyed.nodup_keys_remove h.subgraphs g.id⟩
  | directionChanged _ _ => exact ⟨h.nodes, h.edges, h.subgraphs⟩

theorem Distinct.bare {d : Diagram} (h : d.Distinct) : d.bare.Distinct :=
  ⟨h.nodes, h.edges, h.subgraphs⟩

@[simp] theorem bare_apply (d : Diagram) (c : Change) : (d.apply c).bare = d.bare.apply c := by
  cases c <;> rfl

/-- A change that fits is followed, and leads to the diagram after it. -/
theorem follow?_eq {d : Diagram} {c : Change} (distinct : d.Distinct) (fits : c.Fits d) :
    d.follow? c = some (d.apply c) := by
  cases c with
  | nodeAdded n => simp only [follow?, Keyed.append?_eq fits]; rfl
  | nodeUpdated n m =>
    simp only [follow?, Keyed.replace?_eq distinct.nodes fits.1 fits.2]; rfl
  | nodeRemoved n => simp only [follow?, Keyed.delete?_eq fits]; rfl
  | edgeAdded e => simp only [follow?, Keyed.append?_eq fits]; rfl
  | edgeUpdated e f =>
    simp only [follow?, Keyed.replace?_eq distinct.edges fits.1 fits.2]; rfl
  | edgeRemoved e => simp only [follow?, Keyed.delete?_eq fits]; rfl
  | subgraphAdded g => simp only [follow?, Keyed.append?_eq fits]; rfl
  | subgraphUpdated g h =>
    simp only [follow?, Keyed.replace?_eq distinct.subgraphs fits.1 fits.2]; rfl
  | subgraphRemoved g => simp only [follow?, Keyed.delete?_eq fits]; rfl
  | directionChanged before direction => simp only [follow?, if_pos (Eq.symm fits)]; rfl

@[simp] theorem replay?_nil (d : Diagram) : d.replay? [] = some d := rfl

@[simp] theorem replay?_append (d : Diagram) (cs cs' : List Change) :
    d.replay? (cs ++ cs') = (d.replay? cs).bind fun d => d.replay? cs' := by
  simp [replay?, List.foldlM_append]

@[simp] theorem replay?_singleton (d : Diagram) (c : Change) : d.replay? [c] = d.follow? c := by
  simp [replay?]

theorem follow?_bare (d : Diagram) (c : Change) :
    d.bare.follow? c = (d.follow? c).map bare := by
  cases c with
  | directionChanged before direction =>
    change (if d.direction = before then _ else none) =
      (if d.direction = before then _ else none).map bare
    split <;> rfl
  | _ =>
    simp only [follow?, Option.map_map]
    rfl

/-- The classes of styles do not matter for a replay. -/
theorem replay?_bare (d : Diagram) (cs : List Change) :
    d.bare.replay? cs = (d.replay? cs).map bare := by
  induction cs generalizing d with
  | nil => rfl
  | cons c cs ih =>
    have first : ∀ d : Diagram, d.replay? (c :: cs) = (d.follow? c).bind fun d => d.replay? cs :=
      fun _ => List.foldlM_cons
    rw [first, first, follow?_bare]
    cases d.follow? c with
    | none => rfl
    | some t => exact ih t

end Diagram
end Flowchart
