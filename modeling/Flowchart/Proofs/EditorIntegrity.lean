import Flowchart.Proofs.Commands
import Flowchart.Proofs.ReadingIntegrity

/-! Integrity of the diagram of an editor. It holds after every run of commands, whatever fails
on the way and whatever listeners have run meanwhile, as long as nobody takes the null value for
the id of a subgraph. -/
namespace Flowchart
open Action Progress

mutual

/-- Does the command name each changed field once, and no subgraph by the null value? This is
asked of commands inside batches and of listeners as well. -/
def Command.IsProper : Command → Prop
  | .addSubgraph g => g.id ≠ .null
  | .updateNode _ changes | .updateEdge _ changes | .updateSubgraph _ changes =>
    (Keyed.keys changes).Nodup
  | .withBatch steps => Command.areProper steps
  | .subscribe _ reaction => Command.reactsProperly reaction
  | _ => True

/-- Are all commands proper? -/
def Command.areProper : List Command → Prop
  | [] => True
  | c :: cs => c.IsProper ∧ Command.areProper cs

/-- Is the command that a reaction has run a proper one? -/
def Command.reactsProperly : Reaction Command → Prop
  | .act c => c.IsProper
  | _ => True

end

namespace Editor

theorem areProper_iff {cs : List Command} : Command.areProper cs ↔ ∀ c ∈ cs, c.IsProper := by
  induction cs with
  | nil => simp [Command.areProper]
  | cons c cs ih => simp [Command.areProper, ih]

theorem upholds_integral (run : Runner)
    (h : ∀ c : Command, c.IsProper → Keeps (Hosts Diagram.Integral Command.IsProper) (run c)) :
    Upholds (Hosts Diagram.Integral Command.IsProper) run
      (fun _ edit => ∀ d, Keeps (Sound True d) edit) Command.IsProper :=
  upholds_hosts (makes_sound (fun hc _ => hc) (fun hc _ => hc) fun hc _ => hc)
    (fun _ sound _ hd => (made_sound sound hd.distinct fun _ => hd).integral trivial)
    (fun _ d hd => hd.turned d.direction _) (fun _ d hd => hd.turned d.direction _)
    (fun hc => areProper_iff.mp hc) id run h

theorem integral_after {d : Diagram} (h : d.Integral) {cs : List Command}
    (proper : ∀ c ∈ cs, c.IsProper) : ((ofDiagram d).after cs).diagram.Integral :=
  (after_keeps upholds_integral proper (hosts_ofDiagram h)).diagram

/-- Whatever is done to a diagram that was empty or was read from a text, it stays integral, and
every entity is found under its own id. -/
theorem diagram_stays_integral {d : Diagram}
    (start : d = .empty ∨ ∃ s, Diagram.read s = .ok d) {cs : List Command}
    (proper : ∀ c ∈ cs, c.IsProper) :
    ((ofDiagram d).after cs).diagram.Integral ∧
      (∀ n ∈ ((ofDiagram d).after cs).diagram.nodes,
        ((ofDiagram d).after cs).diagram.node? n.id = some n) ∧
      (∀ e ∈ ((ofDiagram d).after cs).diagram.edges,
        ((ofDiagram d).after cs).diagram.edge? e.id = some e) ∧
      ∀ g ∈ ((ofDiagram d).after cs).diagram.subgraphs,
        ((ofDiagram d).after cs).diagram.subgraph? g.id = some g := by
  have integral : d.Integral := by
    rcases start with rfl | ⟨s, read⟩
    · exact Diagram.integral_empty
    · exact Diagram.integral_read read
  have whole := integral_after integral proper
  refine ⟨whole, fun n hn => ?_, fun e he => ?_, fun g hg => ?_⟩
  · exact (Keyed.find?_eq_some_iff whole.distinct.nodes).mpr ⟨hn, rfl⟩
  · exact (Keyed.find?_eq_some_iff whole.distinct.edges).mpr ⟨he, rfl⟩
  · exact (Keyed.find?_eq_some_iff whole.distinct.subgraphs).mpr ⟨hg, rfl⟩

/-- A node is put into a subgraph, and the subgraph is taken away around it. -/
def regrouping : List Command := [
  .addNode (.bare (.text "A")),
  .addSubgraph { id := .text "g", title := .text "g", members := [.text "A"] },
  .removeSubgraph (.text "g")]

theorem regrouping_stays_integral : ((ofDiagram .empty).after regrouping).diagram.Integral :=
  (diagram_stays_integral (Or.inl rfl) (by simp [regrouping, Command.IsProper])).1

/-- The null value as the id of a subgraph: removing this subgraph moves all that is in no
subgraph, the one around it included, into that one. -/
def nullRemoved : List Command := [
  .addSubgraph { id := .text "g", title := .text "g" },
  .addSubgraph { id := .null, title := .text "t", parent := .text "g" },
  .removeSubgraph .null]

theorem nullRemoved_not_integral : ¬ ((ofDiagram .empty).after nullRemoved).diagram.Integral := by
  intro whole
  have self : ((ofDiagram .empty).after nullRemoved).diagram.subgraph? (.text "g") =
      some { id := .text "g", title := .text "g", parent := .text "g" } := rfl
  exact whole.acyclic _ (.single ⟨_, self, rfl, by simp⟩)

end Editor
end Flowchart
