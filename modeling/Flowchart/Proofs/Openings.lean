import Flowchart.Proofs.DistinctEdges

/-! The subgraphs that lines open. A line with the keyword alone opens a subgraph whose id is a
number: that of the different subgraphs so far. These only become more, so no two such lines that
open something new get the same number. Only an id that the author has written out can be there
already; the block then goes on with the subgraph that has it. -/
namespace Flowchart

/-- The id of a subgraph that is numbered by the subgraphs before it. -/
def Subgraph.numbered (before : Nat) : Text := "subGraph".toList ++ Text.ofNat before

theorem Subgraph.numbered_injective {m n : Nat} (h : numbered m = numbered n) : m = n :=
  EdgeId.ofNat_injective (List.append_cancel_left h)

namespace Statement

/-- The id of the subgraph that the statement opens after a number of others, if it opens one. -/
def opens? (before : Nat) : Statement → Option Text
  | .subgraph header => (subgraphHeader header before).toOption.map (·.1)
  | _ => none

/-- The id that the author writes for the subgraph that the statement opens. -/
def named? : Statement → Option Text
  | .subgraph header => if header.trim.isEmpty then none else opens? 0 (.subgraph header)
  | _ => none

/-- The ids of the subgraphs that statements open one after another, after others. -/
def openings (ids : List Text) (ss : List Statement) : List Text :=
  ss.foldl (fun ids s => ids ++ (s.opens? ids.eraseDups.length).toList) ids

variable {s : Statement} {ss : List Statement} {ids : List Text} {id : Text}

theorem openings_concat (ids : List Text) (ss : List Statement) (s : Statement) :
    openings ids (ss ++ [s]) =
      openings ids ss ++ (s.opens? (openings ids ss).eraseDups.length).toList :=
  List.foldl_concat ..

theorem subgraphHeader_blank {header : Text} (blank : header.trim.isEmpty) (before : Nat) :
    subgraphHeader header before = .ok (Subgraph.numbered before, Subgraph.numbered before) := by
  simp only [subgraphHeader, blank, if_true]
  rfl

theorem subgraphHeader_named {header : Text} (named : ¬ header.trim.isEmpty) (m n : Nat) :
    subgraphHeader header m = subgraphHeader header n := by
  simp only [subgraphHeader, named, Bool.false_eq_true, if_false]

/-- The author writes the id, or it is numbered, whatever came before. -/
theorem opens?_cases (s : Statement) :
    (∀ n, s.opens? n = s.named?) ∨
      (s.named? = none ∧ ∀ n, s.opens? n = some (Subgraph.numbered n)) := by
  cases s with
  | subgraph header =>
    by_cases blank : header.trim.isEmpty
    · exact Or.inr ⟨if_pos blank, fun n => by rw [opens?, subgraphHeader_blank blank]; rfl⟩
    · refine Or.inl fun n => ?_
      rw [named?, if_neg blank, opens?, opens?, subgraphHeader_named blank n 0]
  | _ => exact Or.inl fun _ => rfl

/-- Every id that the author writes is opened. -/
theorem mem_openings_of_named (here : s ∈ ss) (named : s.named? = some id) :
    id ∈ openings [] ss := by
  induction ss using List.reverseRecOn with
  | nil => cases here
  | append_singleton ss t ih =>
    rw [openings_concat]
    rcases List.mem_append.mp here with earlier | last
    · exact List.mem_append_left _ (ih earlier)
    · obtain rfl := List.mem_singleton.mp last
      rcases opens?_cases s with written | ⟨none_written, _⟩
      · exact List.mem_append_right _ (by simp [written, named])
      · cases none_written.symm.trans named

/-- The author writes every id that is opened, or it is the number of the subgraphs before it, which
are fewer than those in the end. -/
theorem named_of_mem_openings (opened : id ∈ openings [] ss) :
    (∃ s ∈ ss, s.named? = some id) ∨
      ∃ k < (openings [] ss).eraseDups.length, id = Subgraph.numbered k := by
  induction ss using List.reverseRecOn with
  | nil => cases opened
  | append_singleton ss s ih =>
    have before (old : id ∈ openings [] ss) : (∃ t ∈ ss ++ [s], t.named? = some id) ∨
        ∃ k < (openings [] (ss ++ [s])).eraseDups.length, id = Subgraph.numbered k := by
      rcases ih old with ⟨t, ht, named⟩ | ⟨k, fewer, rfl⟩
      · exact Or.inl ⟨t, List.mem_append_left _ ht, named⟩
      · refine Or.inr ⟨k, Nat.lt_of_lt_of_le fewer ?_, rfl⟩
        rw [openings_concat, List.eraseDups_append, List.length_append]
        omega
    rw [openings_concat] at opened
    rcases List.mem_append.mp opened with old | last
    · exact before old
    · have opens := Option.mem_toList.mp last
      rcases opens?_cases s with written | ⟨_, numbered⟩
      · exact Or.inl ⟨s, by simp, by rw [← written, opens]⟩
      · by_cases old : id ∈ openings [] ss
        · exact before old
        · rw [openings_concat, opens, Option.toList_some, Keyed.eraseDups_concat, if_neg old]
          rw [numbered, Option.some.injEq] at opens
          exact Or.inr ⟨_, by simp, opens.symm⟩

/-- The number of the subgraphs so far is taken only where the author has written it. -/
theorem numbered_mem_openings (ss : List Statement) :
    let id := Subgraph.numbered (openings [] ss).eraseDups.length
    id ∈ openings [] ss ↔ ∃ s ∈ ss, s.named? = some id := by
  intro id
  constructor
  · intro opened
    rcases named_of_mem_openings opened with written | ⟨k, fewer, same⟩
    · exact written
    · exact absurd (Subgraph.numbered_injective same) (Nat.ne_of_gt fewer)
  · rintro ⟨s, here, named⟩
    exact mem_openings_of_named here named

end Statement

namespace Source

/-- The lines of the body that are not empty. -/
def body (s : Text) : List Text :=
  (Reading.begin ((meaningful s).map Reading.strip)).2.filter fun l => !l.isEmpty

/-- The statements of a text are those of the lines in its body. -/
theorem statements_eq (s : Text) : statements s = (body s).map .ofLine := rfl

end Source

namespace Reading
variable {r r' : Reading} {ids : List Text}

/-! ### What opens no subgraph -/

theorem meetTexts_subgraphs {line : Text} {texts : List Text} {groups : Option (List (List Text))}
    (met : r.meetTexts line texts = .ok (groups, r')) :
    Keyed.keys r'.diagram.subgraphs = Keyed.keys r.diagram.subgraphs := by
  induction texts generalizing r groups with
  | nil =>
    obtain ⟨_, rfl⟩ := Prod.mk.inj (Except.ok.inj met)
    rfl
  | cons text texts ih =>
    simp only [meetTexts, bind_eq_ok] at met
    obtain ⟨⟨ids, q⟩, first, met⟩ := met
    have here := (meetPieces_meets first).subgraphs
    split at met
    · obtain ⟨_, rfl⟩ := Prod.mk.inj (pure_eq_ok.mp met)
      exact here
    · simp only [bind_eq_ok, pure_eq_ok, Prod.mk.injEq] at met
      obtain ⟨⟨rest, q'⟩, more, _, rfl⟩ := met
      exact (ih more).trans here

theorem draw_subgraphs {link : Link} {op : Operator} {source target : Text}
    (drawn : r.draw link op source target = .ok r') :
    r'.diagram.subgraphs = r.diagram.subgraphs := by
  simp only [draw, bind_eq_ok, pure_eq_ok] at drawn
  obtain ⟨text, _, rfl⟩ := drawn
  dsimp only [putEdge]
  split <;> rfl

theorem drawLinks_subgraphs {links : List Link} {groups : List (List Text)}
    (drawn : r.drawLinks links groups = .ok r') : r'.diagram.subgraphs = r.diagram.subgraphs := by
  induction links generalizing r groups with
  | nil =>
    rw [drawLinks] at drawn
    · rw [Except.ok.inj drawn]
    · simp
  | cons link links ih =>
    rcases groups with _ | ⟨sources, _ | ⟨targets, groups⟩⟩
    · rw [← Except.ok.inj drawn]
    · rw [← Except.ok.inj drawn]
    · simp only [drawLinks] at drawn
      split at drawn
      · exact ih (r := r.note _) drawn
      · obtain ⟨q, here, rest⟩ := bind_eq_ok.mp drawn
        refine (ih rest).trans ?_
        refine foldlM_inv (P := fun q => q.diagram.subgraphs = r.diagram.subgraphs) ?_ rfl here
        exact fun _ _ _ _ before one => (draw_subgraphs one).trans before

theorem readChain_subgraphs {line : Text} (read : r.readChain line = .ok r') :
    Keyed.keys r'.diagram.subgraphs = Keyed.keys r.diagram.subgraphs := by
  simp only [readChain, bind_eq_ok] at read
  obtain ⟨⟨groups, q⟩, met, read⟩ := read
  have before := meetTexts_subgraphs met
  cases groups with
  | none =>
    cases read
    exact before
  | some groups => exact (congrArg Keyed.keys (drawLinks_subgraphs read)).trans before

theorem setDirection_subgraphs (r : Reading) (word : Text) :
    Keyed.keys (r.setDirection word).diagram.subgraphs = Keyed.keys r.diagram.subgraphs := by
  unfold setDirection
  split
  · rfl
  · split
    · rfl
    · split
      · rename_i g found
        have there : Keyed.key g ∈ Keyed.keys r.diagram.subgraphs :=
          Keyed.mem_keys (Keyed.mem_of_find? found)
        exact Keyed.keys_put_of_mem there
      · rfl

theorem assign_subgraphs (classes : List Text) (r : Reading) (id : Text) :
    (assign classes r id).diagram.subgraphs = r.diagram.subgraphs := by
  unfold assign
  split <;> rfl

theorem styleLinks_subgraphs {places : Option Text} {declared : List (Text × Text)}
    (read : r.styleLinks places declared = .ok r') :
    r'.diagram.subgraphs = r.diagram.subgraphs := by
  unfold styleLinks at read
  cases places
  all_goals
    obtain ⟨_, _, read⟩ := bind_eq_ok.mp read
    obtain ⟨_, _, read⟩ := bind_eq_ok.mp read
    cases read
    rfl

/-- A statement that opens no subgraph brings none. -/
theorem read_subgraphs {s : Statement} (other : ∀ header, s ≠ .subgraph header)
    (read : r.read s = .ok r') :
    Keyed.keys r'.diagram.subgraphs = Keyed.keys r.diagram.subgraphs := by
  cases s with
  | subgraph header => exact absurd rfl (other header)
  | close =>
    cases read
    split <;> rfl
  | direction word =>
    cases read
    exact setDirection_subgraphs r word
  | define names styles =>
    cases read
    rfl
  | assign ids classes =>
    cases read
    refine congrArg Keyed.keys (List.foldlRecOn
      (motive := fun q : Reading => q.diagram.subgraphs = r.diagram.subgraphs) _ _ rfl ?_)
    exact fun q before id _ => (assign_subgraphs _ q id).trans before
  | style id declarations =>
    simp only [Reading.read] at read
    split at read
    · cases read
      rfl
    · obtain ⟨_, _, rfl⟩ := map_eq_ok.mp read
      rfl
  | linkStyle places declarations => exact congrArg Keyed.keys (styleLinks_subgraphs read)
  | click id url tooltip target =>
    simp only [Reading.read] at read
    split at read
    · cases read
      rfl
    · cases tooltip
      all_goals
        obtain ⟨_, _, read⟩ := bind_eq_ok.mp read
        cases read
        rfl
  | properties id body line =>
    simp only [Reading.read] at read
    split at read
    · obtain ⟨_, _, rfl⟩ := map_eq_ok.mp read
      rfl
    · exact readChain_subgraphs read
  | chain line => exact readChain_subgraphs read

/-! ### What opens a subgraph -/

/-- The subgraph is new if its id is, and it is the innermost one that is open then. -/
theorem openSubgraph_ok {header : Text} (read : r.openSubgraph header = .ok r') :
    ∃ id title, Statement.subgraphHeader header r.diagram.subgraphs.length = .ok (id, title) ∧
      r'.opened = id :: r.opened ∧
      (r.diagram.hasSubgraph id → r'.diagram = r.diagram) ∧
      (¬ r.diagram.hasSubgraph id → r'.diagram = { r.diagram with
        subgraphs := r.diagram.subgraphs ++
          [{ id, title, parent := .ofText? r.opened.head? }] }) := by
  simp only [openSubgraph, bind_eq_ok, pure_eq_ok] at read
  obtain ⟨⟨id, title⟩, header, rfl⟩ := read
  refine ⟨id, title, header, ?_, fun there => ?_, fun new => ?_⟩
  · dsimp only [putSubgraph]
    split <;> rfl
  · rw [if_pos there]
  · have none_yet : (.text id : Value) ∉ Keyed.keys r.diagram.subgraphs := fun there =>
      new (Keyed.has_iff.mpr there)
    rw [if_neg new, putSubgraph, Keyed.put_of_not_mem none_yet]

/-- The subgraphs that have been read are those that have been opened, each of them once. -/
def HasOpened (r : Reading) (ids : List Text) : Prop :=
  Keyed.keys r.diagram.subgraphs = ids.eraseDups.map .text

namespace HasOpened

theorem length (h : r.HasOpened ids) : r.diagram.subgraphs.length = ids.eraseDups.length := by
  have same := congrArg List.length h
  rwa [Keyed.keys, List.length_map, List.length_map] at same

theorem has_iff (h : r.HasOpened ids) {id : Text} : r.diagram.hasSubgraph id ↔ id ∈ ids := by
  rw [Diagram.hasSubgraph, Keyed.has_iff, h]
  simp [List.mem_eraseDups]

theorem read (h : r.HasOpened ids) {s : Statement} (read : r.read s = .ok r') :
    r'.HasOpened (ids ++ (s.opens? ids.eraseDups.length).toList) := by
  by_cases opens : ∃ header, s = .subgraph header
  · obtain ⟨header, rfl⟩ := opens
    obtain ⟨id, title, told, _, old, new⟩ := openSubgraph_ok read
    have here : Statement.opens? ids.eraseDups.length (.subgraph header) = some id := by
      rw [Statement.opens?, ← h.length, told]
      rfl
    rw [here, Option.toList_some, HasOpened, Keyed.eraseDups_concat]
    by_cases there : id ∈ ids
    · rw [if_pos there, old (h.has_iff.mpr there)]
      exact h
    · rw [if_neg there, new fun has => there (h.has_iff.mp has), Keyed.keys_append, h,
        List.map_append]
      rfl
  · have none_opened : s.opens? ids.eraseDups.length = none := by
      cases s with
      | subgraph header => exact absurd ⟨header, rfl⟩ opens
      | _ => rfl
    rw [none_opened, Option.toList_none, List.append_nil]
    exact (read_subgraphs (fun header same => opens ⟨header, same⟩) read).trans h

theorem readAll (h : r.HasOpened ids) {lines : List Text}
    (read : lines.foldlM (fun r l => r.read (.ofLine l)) r = .ok r') :
    r'.HasOpened (Statement.openings ids (lines.map .ofLine)) := by
  induction lines generalizing r ids with
  | nil => exact Except.ok.inj read ▸ h
  | cons line lines ih =>
    rw [List.foldlM_cons] at read
    obtain ⟨q, first, rest⟩ := bind_eq_ok.mp read
    exact ih (h.read first) rest

end HasOpened

/-- A line with the keyword alone opens a subgraph that is numbered by the different subgraphs so
far. It is a new one, with no member yet, unless the author has written just this id in an earlier
line; then it is the subgraph that has been opened there. -/
theorem bare_subgraph_new {s : Text} {r : Reading} (read : ofSource s = .ok r)
    {before after : List Text} (body : Source.body s = before ++ "subgraph".toList :: after) :
    let start := (begin ((Source.meaningful s).map strip)).1
    let earlier := Statement.openings [] (before.map .ofLine)
    let id := Subgraph.numbered earlier.eraseDups.length
    ∃ r₁ r₂ r₃, start.readLines before = .ok r₁ ∧ r₁.read (.ofLine "subgraph") = .ok r₂ ∧
      r₂.readLines after = .ok r₃ ∧ r = { r₃ with diagram := r₃.diagram.settle } ∧
      Keyed.keys r₁.diagram.subgraphs = earlier.eraseDups.map .text ∧
      r₂.opened = id :: r₁.opened ∧
      (id ∈ earlier ↔ ∃ line ∈ before, (Statement.ofLine line).named? = some id) ∧
      (id ∉ earlier → r₂.diagram = { r₁.diagram with
        subgraphs := r₁.diagram.subgraphs ++
          [{ id, title := id, parent := .ofText? r₁.opened.head? }] }) ∧
      (id ∈ earlier → r₂.diagram = r₁.diagram) := by
  intro start earlier id
  obtain ⟨last, lines, settled⟩ := bind_eq_ok.mp read
  have some_text : ∀ l ∈ before ++ "subgraph".toList :: after, (!l.isEmpty) = true := by
    intro l hl
    rw [← body] at hl
    exact (List.mem_filter.mp hl).2
  have all : (Source.body s).foldlM (fun r l => r.read (.ofLine l)) start = .ok last := lines
  rw [body, List.foldlM_append] at all
  obtain ⟨r₁, first, rest⟩ := bind_eq_ok.mp all
  rw [List.foldlM_cons] at rest
  obtain ⟨r₂, here, rest⟩ := bind_eq_ok.mp rest
  have empty : start.HasOpened [] := by
    obtain ⟨direction, same⟩ := diagram_begin ((Source.meaningful s).map strip)
    rw [HasOpened, same]
    rfl
  have opened : r₁.HasOpened earlier := empty.readAll first
  have header : Statement.ofLine "subgraph" = .subgraph [] := by decide
  obtain ⟨_, _, told, inner, old, new⟩ := openSubgraph_ok (header ▸ here)
  rw [opened.length, Statement.subgraphHeader_blank rfl] at told
  cases told
  refine ⟨r₁, r₂, last, ?_, here, ?_, (Except.ok.inj settled).symm, opened, inner, ?_, ?_, ?_⟩
  · rw [readLines, List.filter_eq_self.mpr fun l hl => some_text l (List.mem_append_left _ hl)]
    exact first
  · rw [readLines, List.filter_eq_self.mpr fun l hl =>
      some_text l (List.mem_append_right _ (List.mem_cons_of_mem _ hl))]
    exact rest
  · simpa using Statement.numbered_mem_openings (before.map .ofLine)
  · exact fun fresh => new fun has => fresh (opened.has_iff.mp has)
  · exact fun taken => old (opened.has_iff.mpr taken)

/-- Subgraphs of which one has a name, one stands inside of it and one after it. -/
def nestedSource : Text :=
  "flowchart TB\n  subgraph one\n  A\n  subgraph\n  B\n  end\n  end\n  subgraph\n  C\n  end"

theorem nested_bare_subgraph_new :
    Source.body nestedSource =
      ["subgraph one".toList, "A", "subgraph", "B", "end", "end"] ++
        "subgraph".toList :: ["C".toList, "end"] ∧
    (ofSource nestedSource).map (fun r => r.diagram.subgraphs.map fun g => (g.id, g.members)) =
      .ok [(.text "one", [.text "A"]), (.text "subGraph1", [.text "B"]),
        (.text "subGraph2", [.text "C"])] ∧
    ∃ r₁ r₂ : Reading, r₁.read (.ofLine "subgraph") = .ok r₂ ∧
      Keyed.keys r₁.diagram.subgraphs = [.text "one", .text "subGraph1"] ∧
      r₂.diagram.subgraphs = r₁.diagram.subgraphs ++
        [{ id := .text "subGraph2", title := .text "subGraph2",
           parent := .ofText? r₁.opened.head? }] := by
  have body : Source.body nestedSource =
      ["subgraph one".toList, "A", "subgraph", "B", "end", "end"] ++
        "subgraph".toList :: ["C".toList, "end"] := by decide +kernel
  have result : (ofSource nestedSource).map
      (fun r => r.diagram.subgraphs.map fun g => (g.id, g.members)) = .ok [
        (.text "one", [.text "A"]), (.text "subGraph1", [.text "B"]),
        (.text "subGraph2", [.text "C"])] := by decide +kernel
  have earlier : Statement.openings [] (["subgraph one".toList, "A", "subgraph", "B", "end",
      "end"].map .ofLine) = ["one".toList, "subGraph1"] := by decide +kernel
  obtain ⟨r, read, _⟩ := map_eq_ok.mp result
  obtain ⟨r₁, r₂, _, _, opens, _, _, known, _, _, new, _⟩ := bare_subgraph_new read body
  rw [earlier] at known new
  exact ⟨body, result, r₁, r₂, opens, known, congrArg Diagram.subgraphs (new (by decide))⟩

/-- The author has written the number out. -/
def collidingSource : Text :=
  "flowchart TB\n    subgraph subGraph1\n        A\n    end\n    subgraph\n        B\n    end"

/-- Where the author has written the number out, the line brings no subgraph, and what follows it
goes into the one that is there. -/
theorem written_number_taken :
    ¬ (∀ (s : Text) (r : Reading) (before after : List Text), ofSource s = .ok r →
      Source.body s = before ++ "subgraph".toList :: after →
        ∀ r₁ r₂, (begin ((Source.meaningful s).map strip)).1.readLines before = .ok r₁ →
          r₁.read (.ofLine "subgraph") = .ok r₂ →
            ∀ id, r₂.opened.head? = some id → ¬ r₁.diagram.hasSubgraph id) ∧
    (ofSource collidingSource).map
      (fun r => r.diagram.subgraphs.map fun g => (g.id, g.members)) =
        .ok [(.text "subGraph1", [.text "A", .text "B"])] := by
  have result : (ofSource collidingSource).map
      (fun r => r.diagram.subgraphs.map fun g => (g.id, g.members)) =
        .ok [(.text "subGraph1", [.text "A", .text "B"])] := by decide +kernel
  have body : Source.body collidingSource =
      ["subgraph subGraph1".toList, "A", "end"] ++
        "subgraph".toList :: ["B".toList, "end"] := by decide +kernel
  have walk : (do
      let r₁ ← (begin ((Source.meaningful collidingSource).map strip)).1.readLines
        ["subgraph subGraph1".toList, "A", "end"]
      let r₂ ← r₁.read (.ofLine "subgraph")
      return (r₂.opened.head?, r₁.diagram.hasSubgraph (.text "subGraph1"))) =
        .ok (some "subGraph1".toList, true) := by decide +kernel
  refine ⟨fun always_new => ?_, result⟩
  obtain ⟨r, read, _⟩ := map_eq_ok.mp result
  obtain ⟨r₁, first, walk⟩ := bind_eq_ok.mp walk
  obtain ⟨r₂, opens, found⟩ := bind_eq_ok.mp walk
  obtain ⟨inner, there⟩ := Prod.mk.inj (pure_eq_ok.mp found)
  exact always_new _ r _ _ read body r₁ r₂ first opens _ inner there

end Reading
end Flowchart
