import Flowchart.Proofs.NodeProperties

/-! Links of nodes that are written and read again. A tooltip is written as it is, and what reads as
a code in it is decoded when it is read; and a link to nowhere is not written. -/
namespace Flowchart
open Text

namespace Node
variable {n : Node}

/-- Another node has the same link with the same target and the same tooltip. -/
structure SameLink (n m : Node) : Prop where
  link : m.link = n.link
  target : m.linkTarget = n.linkTarget
  tooltip : m.tooltip = n.tooltip

theorem unlinked_heard (n : Node) : n.heard.link = .null ∧ n.heard.linkTarget = .null := by
  rw [n.heard_rest]
  exact ⟨rfl, rfl⟩

theorem tooltip_heard (h : n.Writable) (none_here : n.tooltip = .null) :
    n.heard.tooltip = .null := by
  by_cases needs : Writing.needsProperties n = true
  · have read := withProperties_spoken h needs
    simp only [Reading.withProperties, bind_eq_ok, pure_eq_ok] at read
    obtain ⟨_, _, _, _, made⟩ := read
    have unset := property?_unset (n := n) (f := ("tooltip", n.tooltip)) (by simp [fields])
      (by simp [none_here, Value.isSome])
    rw [← made]
    show Reading.textOr (Reading.property? n.readProperties "tooltip") .null = .null
    rw [unset]
    rfl
  · rw [heard, if_neg needs]
    rfl

theorem decoded_eq_iff {t t' : Text} (told : Entity.decode t = .ok t') :
    (Value.text t).decoded = .text t ↔ Entity.decode t = .ok t := by
  have stands : (Value.text t).decoded = .text t' := by
    rw [Value.decoded, told]
    rfl
  rw [stands, told]
  simp

/-- A link comes back with a node just if the link leads anywhere and nothing in its tooltip reads
as a code for something else. -/
theorem sameLink_retold (h : n.Writable) (linked : n.link ≠ .null)
    (clickable : n.link.holds → n.Clickable) : n.SameLink n.retold ↔
      n.link.holds ∧ ∀ t, n.tooltip = .text t → Entity.decode t = .ok t := by
  obtain ⟨no_link, no_target⟩ := n.unlinked_heard
  by_cases holds : n.link.holds = true
  · have clicks := clickable holds
    have retold : n.retold = n.clicks n.told := if_pos holds
    have target : Reading.textOr n.linkTarget.text? n.told.linkTarget = n.linkTarget := by
      rcases clicks.target with none_here | ⟨t, _, same⟩
      · rw [none_here]
        exact no_target
      · rw [same]
        rfl
    rw [retold]
    rcases clicks.tooltip with none_here | ⟨t, t', same, _, told⟩
    · have tooltip : (n.clicks n.told).tooltip = n.tooltip := by
        rw [Node.clicks, none_here]
        exact tooltip_heard h none_here
      have nothing : ∀ t, n.tooltip = .text t → Entity.decode t = .ok t := by
        rw [none_here]
        intro t text
        cases text
      exact ⟨fun _ => ⟨holds, nothing⟩, fun _ => ⟨rfl, target, tooltip⟩⟩
    · have tooltip : (n.clicks n.told).tooltip = (Value.text t).decoded := by
        rw [Node.clicks, same]
        rfl
      constructor
      · intro back
        refine ⟨holds, fun u text => ?_⟩
        obtain rfl : t = u := Value.text.inj (same.symm.trans text)
        exact (decoded_eq_iff told).mp (tooltip.symm.trans (back.tooltip.trans same))
      · rintro ⟨_, verbatim⟩
        have decoded := (decoded_eq_iff told).mpr (verbatim t same)
        exact ⟨rfl, target, tooltip.trans (decoded.trans same.symm)⟩
  · have retold : n.retold = n.told := if_neg holds
    rw [retold]
    constructor
    · intro same
      exact absurd (same.link.symm.trans no_link) linked
    · rintro ⟨leads, _⟩
      exact absurd leads holds

end Node

namespace Diagram
variable {d : Diagram}

/-- If what is read of a text can be written and read again, then the links of nodes come back with
their targets and their tooltips: all those that lead anywhere, unless there is something in the
tooltip that reads as a code for something else. -/
theorem links_come_back {src : Text} (read : Diagram.read src = .ok d) (legible : d.Legible) :
    ∃ s d', d.write {} = .ok s ∧ Diagram.read s = .ok d' ∧ ∀ n ∈ d.nodes, n.link ≠ .null →
      ∃ m, d'.node? n.id = some m ∧ (n.SameLink m ↔
        n.link.holds ∧ ∀ t, n.tooltip = .text t → Entity.decode t = .ok t) := by
  obtain ⟨s, d', written, again, nodes, _⟩ := legible.read_write (integral_read read)
  refine ⟨s, d', written, again, fun n hn linked => ?_⟩
  obtain ⟨m, found, bared⟩ := nodes n hn
  have n_legible := legible.nodes n hn
  have told := Node.sameLink_retold n_legible.toWritable linked n_legible.link
  have same : n.SameLink m ↔ n.SameLink m.bared :=
    ⟨fun h => ⟨h.link, h.target, h.tooltip⟩, fun h => ⟨h.link, h.target, h.tooltip⟩⟩
  exact ⟨m, found, same.trans (bared ▸ told)⟩

theorem adorned_links_come_back : Diagram.read adornedText = .ok adorned ∧ adorned.Legible ∧
    ∃ s d', adorned.write {} = .ok s ∧ Diagram.read s = .ok d' ∧ ∀ n ∈ adorned.nodes,
      n.link ≠ .null → ∃ m, d'.node? n.id = some m ∧ (n.SameLink m ↔
        n.link.holds ∧ ∀ t, n.tooltip = .text t → Entity.decode t = .ok t) :=
  ⟨read_adornedText, legible_adorned, links_come_back read_adornedText legible_adorned⟩

/-- A tooltip that was told in codes and reads as a code itself is decoded once more. -/
theorem coded_tooltips_do_not_come_back : ¬ ∀ src d, Diagram.read src = .ok d →
    ∃ s d', d.write {} = .ok s ∧ Diagram.read s = .ok d' ∧ ∀ n ∈ d.nodes, n.link ≠ .null →
      ∃ m, d'.node? n.id = some m ∧ n.SameLink m := by
  intro back
  let d : Diagram := { nodes := [{
    id := .text "A", text := .text "A", link := .text "u", tooltip := .text "#quot;" }] }
  have read : Diagram.read
      "flowchart TB\n    A\n    click A \"u\" \"#35;quot;\"".toList = .ok d := by
    decide +kernel
  have written : d.write {} =
      .ok "flowchart TB\n    A\n    click A \"u\" \"#quot;\"\n".toList := by
    decide +kernel
  have again : (Diagram.read "flowchart TB\n    A\n    click A \"u\" \"#quot;\"\n".toList).map
      (fun d' => (d'.node? (.text "A")).map Node.tooltip) = .ok (some (.text "\"")) := by
    decide +kernel
  obtain ⟨s, d', same, reread, nodes⟩ := back _ d read
  rw [written] at same
  cases same
  obtain ⟨m, found, tooltip⟩ :
      ∃ m, d'.node? (.text "A") = some m ∧ m.tooltip = .text "#quot;" := by
    obtain ⟨m, found, same⟩ := nodes _ (List.mem_singleton_self _) (by simp)
    exact ⟨m, found, same.tooltip⟩
  rw [reread] at again
  have decoded : (d'.node? (.text "A")).map Node.tooltip = some (.text "\"") := Except.ok.inj again
  rw [found, Option.map_some, tooltip] at decoded
  exact absurd decoded (by decide)

end Diagram
end Flowchart
