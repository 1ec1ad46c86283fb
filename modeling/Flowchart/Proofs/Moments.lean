import Flowchart.Proofs.Telling

/-! What listeners find when they hear of a call: the diagram as the call leaves it, whole. A call
is heard of at most once, and where it is not, it has changed nothing that changes speak of. -/
namespace Flowchart
open Action Progress Edit

/-- Does the command change the diagram? -/
def Command.Mutates : Command → Prop
  | .addNode _ | .addEdge _ | .addSubgraph _ | .updateNode _ _ | .updateEdge _ _
  | .updateSubgraph _ _ | .removeNode _ | .removeEdge _ | .removeSubgraph _ | .defineClass _ _
  | .removeClass _ | .setDirection _ | .clear => True
  | _ => False

theorem Command.Mutates.single {c : Command} (mutates : c.Mutates) : c.IsSingle := by
  cases c <;> first | exact trivial | exact mutates.elim

theorem Progress.Sound.same {d : Diagram} {p : Progress} {strict : Prop} (h : Sound strict d p)
    (silent : p.event? = none) : p.diagram.bare = d.bare := by
  have none : p.changes = [] := by
    unfold event? at silent
    split at silent
    · assumption
    · cases silent
  have replay := h.replay
  rw [none, Diagram.replay?_nil] at replay
  exact (Option.some.inj replay).symm

namespace Editor
variable {e : Editor}

/-- The events that a listener has heard of since there were so many deliveries. -/
def eventsSince (e : Editor) (name : Text) (count : Nat) : List Event :=
  ((e.delivered.drop count).filter fun d => d.1 = name).map (·.2)

/-- A command that changes the diagram is told at once, and changes nothing in silence. -/
theorem toldAt_mutating {c : Command} (mutates : c.Mutates)
    (goes : Goes (fun _ edit => AtOnce edit ∧ ∀ d, Keeps (Sound False d) edit) c) {b : Board}
    (distinct : b.diagram.Distinct) (outside : b.depth = 0) :
    ∃ now event?, ToldAt (fun run => obey run c) b now event? ∧
      (event? = none → now.diagram.bare = b.diagram.bare) := by
  cases goes with
  | edits edit answer known looks obeys =>
    have sound := made_sound known.2 distinct False.elim
    simp only [obeys]
    exact ⟨_, _, toldAt_perform known.1 looks outside, sound.same⟩
  | styles f answer obeys =>
    simp only [obeys]
    refine ⟨b.afterEdit ((changeClasses f).run.run { diagram := b.diagram }).2, none,
      ⟨pure (answer b.diagram), looks_pure _, ?_⟩, fun _ => rfl⟩
    rintro run e rfl
    rfl
  | looks a looks obeys =>
    simp only [obeys]
    refine ⟨b, none, ⟨a, looks, ?_⟩, fun _ => rfl⟩
    rintro run e rfl
    rfl
  | begins | ends | subscribes | unsubscribes | empties => exact mutates.elim

theorem eventsSince_heard {t : Editor} {name : Text} {event? : Option Event}
    (subscribed : name ∈ e.subscribed) (once : e.subscribed.Nodup)
    (told : t.delivered = e.delivered ++ deliveries e.subscribed event?) :
    t.eventsSince name e.delivered.length = event?.toList := by
  rw [eventsSince, told, List.drop_left]
  cases event? with
  | none => rfl
  | some event =>
    rw [deliveries_some]
    exact heard_once (List.count_eq_one_of_mem once subscribed) event

/-- Where everyone only watches, and is subscribed once, a command that changes the diagram is
heard of in one event at most, and is heard of unless it leaves all but the classes of styles as
they were. When it is heard of, the board is as the command leaves it. -/
theorem told_in_one_event (distinct : e.diagram.Distinct) (outside : e.content.depth = 0)
    (watched : e.IsWatched) (once : e.subscribed.Nodup) {c : Command} (mutates : c.Mutates) :
    ∃ event?, ToldAt (fun run => obey run c) e.content (e.after [c]).content event? ∧
      (∀ name ∈ e.subscribed, (e.after [c]).eventsSince name e.delivered.length = event?.toList) ∧
      (event? = none → (e.after [c]).diagram.bare = e.diagram.bare) := by
  have makes : Makes (fun _ edit => AtOnce edit ∧ ∀ d, Keeps (Sound False d) edit)
      fun _ => True := (makes_atOnce _).and (makes_sound (fun _ => False.elim) (fun _ => False.elim)
    fun _ => False.elim)
  obtain ⟨now, event?, told, silent⟩ :=
    toldAt_mutating mutates (goes makes trivial mutates.single) distinct outside
  have left : e.after [c] =
      { e with content := now, delivered := e.delivered ++ deliveries e.subscribed event? } :=
    (after_single e c).trans (told.state watched)
  rw [left]
  exact ⟨event?, told, fun name subscribed => eventsSince_heard subscribed once rfl, silent⟩

/-- Each listener that watches the editor of a diagram, empty at first or read from a text, hears
of a call outside of batches in one event at most. When it hears of it, the diagram is as the call
leaves it, and integral unless somebody has called a subgraph by the null value. A call that no
event tells of has left everything but the classes of styles as it was. -/
theorem heard_in_one_event {d : Diagram} (start : d = .empty ∨ ∃ s, Diagram.read s = .ok d)
    (before : List Command) (reached : e = (ofDiagram d).after before)
    (outside : e.content.depth = 0) (watched : e.IsWatched) (once : e.subscribed.Nodup)
    {c : Command} (mutates : c.Mutates) :
    let t := e.after [c]
    ∃ event?, ToldAt (fun run => obey run c) e.content t.content event? ∧
      (∀ name ∈ e.subscribed, t.eventsSince name e.delivered.length = event?.toList) ∧
      (event? = none → t.diagram.direction = e.diagram.direction ∧
        t.diagram.nodes = e.diagram.nodes ∧ t.diagram.edges = e.diagram.edges ∧
        t.diagram.subgraphs = e.diagram.subgraphs) ∧
      ((∀ c' ∈ c :: before, c'.IsProper) → t.diagram.Integral) := by
  intro t
  have integral : d.Integral := by
    rcases start with rfl | ⟨s, read⟩
    · exact Diagram.integral_empty
    · exact Diagram.integral_read read
  have distinct : e.diagram.Distinct := reached ▸ (settled_after integral.distinct before).distinct
  obtain ⟨event?, told, heard, silent⟩ := told_in_one_event distinct outside watched once mutates
  refine ⟨event?, told, heard, fun none => ?_, fun proper => ?_⟩
  · have same : t.diagram.bare = e.diagram.bare := silent none
    injection same with direction nodes edges subgraphs
    exact ⟨direction, nodes, edges, subgraphs⟩
  · have whole : t = (ofDiagram d).after (before ++ [c]) := by
      rw [after, List.foldl_append]
      exact congrArg (after · [c]) reached
    rw [whole]
    refine integral_after integral fun c' hc' => proper c' ?_
    simpa [or_comm] using hc'

/-- A node in a subgraph, and an edge that begins and ends at it. Two listeners watch. -/
def looped : List Command := [
  .addNode (.bare (.text "A")),
  .addEdge { id := .text "e", source := .text "A", target := .text "A" },
  .addSubgraph { id := .text "g", title := .text "g", members := [.text "A"] },
  .subscribe "first" .watch,
  .subscribe "second" .watch]

theorem looped_removal_heard :
    let e := (ofDiagram .empty).after looped
    let t := e.after [.removeNode (.text "A")]
    ∃ event?, ToldAt (fun run => obey run (.removeNode (.text "A"))) e.content t.content event? ∧
      t.eventsSince "first" e.delivered.length = event?.toList ∧ t.diagram.Integral := by
  intro e t
  obtain ⟨event?, told, heard, _, integral⟩ :=
    heard_in_one_event (Or.inl rfl) looped rfl rfl (by decide +kernel) (by decide +kernel)
      (c := .removeNode (.text "A")) trivial
  exact ⟨event?, told, heard "first" (by decide +kernel),
    integral (by simp [looped, Command.IsProper, Command.reactsProperly])⟩

/-- The null value as the id of a subgraph that somebody watches. -/
def nullWatched : List Command := [
  .addSubgraph { id := .text "g", title := .text "g" },
  .addSubgraph { id := .null, title := .text "t", parent := .text "g" },
  .subscribe "listener" .watch]

/-- When the listener hears of the removal, the subgraph around it is in itself. -/
theorem null_removal_heard :
    let e := (ofDiagram .empty).after nullWatched
    let t := e.after [.removeSubgraph .null]
    ∃ event, ToldAt (fun run => obey run (.removeSubgraph .null)) e.content t.content (some event) ∧
      t.eventsSince "listener" e.delivered.length = [event] ∧ ¬ t.diagram.Integral := by
  intro e t
  have distinct : e.diagram.Distinct := (settled_after Diagram.distinct_empty nullWatched).distinct
  obtain ⟨event?, told, heard, _⟩ := told_in_one_event distinct rfl (by decide +kernel)
    (by decide +kernel) (c := .removeSubgraph .null) trivial
  have heard := heard "listener" (by decide +kernel)
  have something : t.eventsSince "listener" e.delivered.length ≠ [] := by decide +kernel
  cases event? with
  | none => exact absurd heard something
  | some event =>
    refine ⟨event, told, heard, fun whole => ?_⟩
    have self : t.diagram.subgraph? (.text "g") =
        some { id := .text "g", title := .text "g", parent := .text "g" } := rfl
    exact whole.acyclic _ (.single ⟨_, self, rfl, by simp⟩)

end Editor
end Flowchart
