import Flowchart.Proofs.Runs

/-! The places that nodes have in the table and in the diagram. A session keeps both in step
wherever it moves a node itself. An edit can part them: it may change the position of a node in the
diagram alone, or bring back a node that is remembered without putting it at its place. -/
namespace Flowchart
open Action

/-- A node that is in the table is where the table says. -/
def Trait.placed (ps : Places) : Trait where
  node n := ∀ q, Keyed.find? n.id ps = some q → n.position = some q.2
  edge _ := True
  subgraph _ := True
  moved _ _ h := h
  regrouped _ _ _ _ := trivial

theorem Trait.tabled_placed : Tabled Trait.placed where
  forgets found h := ⟨fun n hn q hq => h.nodes n hn q (found n.id q hq), fun _ _ => trivial,
    fun _ _ => trivial, trivial⟩
  moves id p h := by
    refine ⟨fun n hn q hq => ?_, fun _ _ => trivial, fun _ _ => trivial, trivial⟩
    obtain ⟨m, hm, rfl⟩ := List.mem_map.mp hn
    by_cases here : m.id = id
    · rw [if_pos here] at hq ⊢
      cases (Keyed.find?_put_self (id, p) _).symm.trans (here ▸ hq)
      rfl
    · rw [if_neg here] at hq ⊢
      rw [Keyed.find?_put_of_ne (x := (id, p)) (Ne.symm here)] at hq
      exact h.nodes m hm q ((Keyed.find?_remove_of_ne (Ne.symm here) _).trans hq)
  settles h := by
    refine ⟨fun n hn q hq => ?_, fun _ _ => trivial, fun _ _ => trivial, trivial⟩
    obtain ⟨m, hm, rfl⟩ := List.mem_map.mp hn
    rw [m.settle_rest] at hq ⊢
    exact h.nodes m hm q hq
  halves _ _ _ := ⟨trivial, trivial⟩

namespace Session


/-- A node that comes new is not in the table, or it gets a place. -/
def Remembers (s : Session) (n : Node) (gets : Prop) : Prop :=
  s.diagram.hasNode n.id = false → s.placeOf n.id = none ∨ gets

/-- The call does not part the table and the diagram. Where a node is in the table, an edit leaves
its position alone, and it comes back only to get a new place. -/
def Heeds (s : Session) : Call → Prop
  | .step (.addNode id text shape position fields) => ∀ n, nodeFor id text shape fields = .ok n →
      s.Remembers n (n.id = id ∧ ∃ p, placeFor position fields = .ok (some p))
  | .step (.updateNode id changes) =>
      "position".toList ∉ Keyed.keys changes ∨ s.placeOf id = none
  | .step (.updateEdge _ changes) => (Keyed.keys changes).Nodup
  | .step (.splitEdge source target shape id text) => ∀ n, s.nodeBetween shape id text = .ok n →
      s.Remembers n ((∃ p, s.halfway source target = .ok (some p)) ∧
        ((splitEdge source target shape id text).run.run s).1.isOk)
  | .step (.listen _ reaction) => Command.reactsQuietly reaction
  | _ => True


section Agree
variable {s : Session}

theorem Remembers.welcomes {n : Node} {gets : Prop} (remembers : s.Remembers n gets) :
    s.Welcomes .placed n gets := by
  intro _ absent
  rcases remembers absent with forgotten | gets
  · refine Or.inl fun q found => ?_
    rw [placeOf, found] at forgotten
    cases forgotten
  · refine Or.inr ⟨gets, fun q found => ?_⟩
    rw [Keyed.find?_remove_self] at found
    cases found

theorem setAll_keeps_position {changes : Fields} (silent : "position".toList ∉ Keyed.keys changes)
    {set : Node → Node} (hset : Edit.setAll Node.setters changes = .ok set) (n : Node) :
    (set n).position = n.position := by
  have others : ∀ entry ∈ Node.setters, entry.1 ≠ "position".toList → ∀ v f, entry.2 v = .ok f →
      ∀ m : Node, (f m).position = m.position := by
    simp [Node.setters, map_eq_ok]
  have keeps : Edit.Lets Node.setters (fun m => m.position = n.position) changes := by
    refine Edit.lets_of fun entry mem v f given one m same => ?_
    have other : entry.1 ≠ "position".toList := fun here =>
      silent (here ▸ Keyed.mem_keys (x := (entry.1, v)) given)
    exact (others entry mem other v f one m).trans same
  exact keeps set hset n rfl

/-- What heeds the table admits that nodes are placed by it. -/
theorem Heeds.admits {call : Call} (heeds : s.Heeds call) : call.Admits .placed s := by
  cases call with
  | step step =>
    cases step with
    | addNode id text shape position fields =>
      exact fun n made => (heeds n made).welcomes
    | updateNode id changes =>
      intro set hset n here placed q found
      have same : (set n).id = n.id := Edit.setAll_spares Edit.spares_node_id hset n
      rw [same] at found
      rcases heeds with silent | forgotten
      · exact (setAll_keeps_position silent hset n).trans (placed q found)
      · rw [placeOf, ← here, found] at forgotten
        cases forgotten
    | addEdge source target fields => exact fun _ _ _ _ _ => trivial
    | updateEdge id changes => exact ⟨heeds, fun _ _ _ _ => trivial⟩
    | splitEdge source target shape id text =>
      exact fun n made => (heeds n made).welcomes
    | listen name reaction => exact heeds
    | removeNode _ | removeEdge _ | undo | redo | elapse => trivial
  | load text => exact fun _ _ => ⟨fun _ _ _ found => by simp at found, fun _ _ => trivial,
      fun _ _ => trivial, trivial⟩
  | moveNode _ _ | setPlaces _ | flush | clear => trivial

end Agree

/-- A session after calls, whether they succeeded or failed. -/
def after (s : Session) (calls : List Call) : Session :=
  calls.foldl (fun s call => (call.run.run.run s).2) s

/-- A place on the diagonal. -/
def diagonal (n : Int) : Position := ⟨.number (.int n), .number (.int n)⟩

/-- Two nodes come with a text and the first is moved; the second goes and comes back to a place of
its own. -/
def moving : List Call := [
  .load pairText,
  .moveNode (.text "A") (diagonal 0),
  .step (.removeNode (.text "B")),
  .step (.addNode (.text "B") .null (.text "rect") (some (diagonal 1)) [])]

theorem moving_reaches :
    Reaches Heeds { brief with receiver := .takes } (after brief moving) := by
  refine .call (.call (.call (.call .start ?_) ?_) ?_) ?_
  · trivial
  · trivial
  · trivial
  · intro n made _
    have named : n.id = .text "B" := (Option.some.inj (Node.ofData_eq_ok.mp made).id).symm
    exact Or.inr ⟨named, diagonal 1, rfl⟩

/-- The first of two nodes is moved, and then its position is changed like any other field. -/
def repositioning : List Call := [
  .load "flowchart TB\n    A --> B",
  .moveNode (.text "A") (diagonal 0),
  .step (.updateNode (.text "A") [("position", (diagonal 1).toData)])]

/-- A node is moved, a text without it comes in, and the node is added again. -/
def forgetting : List Call := [
  .load "flowchart TB\n    A --> B",
  .moveNode (.text "A") (diagonal 0),
  .load "flowchart TB\n    B",
  .step (.addNode (.text "A") .null (.text "rect") none [])]

end Session
end Flowchart
