import Flowchart.Proofs.Commands

/-! The changes that a listener hears of are a complete log. A listener that is subscribed
outside of all batches can take a copy of the diagram then, and have it follow the diagram: what
it has heard, and after that what is kept back, leads the copy to the diagram as it is. -/
namespace Flowchart
open Action Progress

/-- Reactions of a listener that only hears of events, or hears of one and leaves. -/
def Reaction.IsCalm {κ : Type} : Reaction κ → Prop
  | .watch | .leave => True
  | .fail | .act _ => False

instance {κ : Type} : ∀ r : Reaction κ, Decidable r.IsCalm
  | .watch | .leave => isTrue trivial
  | .fail | .act _ => isFalse id

mutual

/-- Does the command bring in no listener that fails or has a command run, and does it leave the
subscriptions of one listener as they are? Batches are asked about their steps. -/
def Command.spares (name : Text) : Command → Prop
  | .subscribe other reaction => other ≠ name ∧ reaction.IsCalm
  | .unsubscribe other => other ≠ name
  | .unsubscribeAll => False
  | .withBatch steps => Command.allSpare name steps
  | _ => True

/-- Do all commands leave the listener alone? -/
def Command.allSpare (name : Text) : List Command → Prop
  | [] => True
  | c :: cs => c.spares name ∧ Command.allSpare name cs

end

namespace Editor

theorem allSpare_iff {name : Text} {cs : List Command} :
    Command.allSpare name cs ↔ ∀ c ∈ cs, c.spares name := by
  induction cs with
  | nil => simp [Command.allSpare]
  | cons c cs ih => simp [Command.allSpare, ih]

/-- The changes that a listener has heard of since there were so many deliveries. -/
def heardSince (e : Editor) (name : Text) (count : Nat) : List Change :=
  (((e.delivered.drop count).filter fun d => d.1 = name).map (·.2)).flatMap Event.changes

/-- Nothing is kept back outside of batches, and nothing is held twice. -/
structure Settled (e : Editor) : Prop where
  distinct : e.diagram.Distinct
  idle : e.content.depth = 0 → e.content.buffered = []

theorem emit_keeps_settled {run : Runner} (h : ∀ c, Keeps Settled (run c)) (event : Event) :
    Keeps Settled (Emitter.emit run event) := by
  intro e he
  simp only [Emitter.emit, ends_bind, ends_get]
  exact deliver_keeps (fun _ _ he => ⟨he.distinct, he.idle⟩) (fun _ _ he => ⟨he.distinct, he.idle⟩)
    (fun _ _ c he _ _ => ⟨⟨he.distinct, he.idle⟩, h c⟩) _ e he

theorem changeClasses_settled (f : List StyleClass → List StyleClass) :
    Keeps Settled (enact (Edit.changeClasses f)) := fun _ he =>
  ⟨⟨he.distinct.nodes, he.distinct.edges, he.distinct.subgraphs⟩, he.idle⟩

theorem upholds_settled (run : Runner) (h : ∀ c, True → Keeps Settled (run c)) :
    Upholds Settled run (fun _ edit => ∀ d, Keeps (Sound False d) edit) fun _ => True where
  makes := makes_sound (fun _ => False.elim) (fun _ => False.elim) fun _ => False.elim
  withBatch _ _ _ := trivial
  perform _ sound := perform_keeps
    (fun _ he => ⟨(made_sound sound he.distinct False.elim).distinct, he.idle⟩)
    (publish_keeps (emit_keeps_settled fun c => h c trivial) fun _ _ he deep =>
      ⟨he.distinct, fun none => absurd none (Nat.ne_of_gt deep)⟩)
  define _ := changeClasses_settled _
  undefine _ := changeClasses_settled _
  begin := fun _ he => ⟨he.distinct, fun none => absurd none (Nat.succ_ne_zero _)⟩
  finish := by
    intro e he
    simp only [endBatch, ends_bind, ends_get, ends_onBoard]
    split
    · simp only [ends_bind, ends_onBoard]
      exact emit_keeps_settled (fun c => h c trivial) _ _ ⟨he.distinct, fun _ => rfl⟩
    · rename_i other
      refine ends_pure.mpr ⟨he.distinct, fun none => ?_⟩
      have none : e.content.depth - 1 = 0 := none
      by_cases one : e.content.depth = 1
      · simpa [one] using other
      · exact he.idle (by omega)
  subscribe _ _ he := ⟨he.distinct, he.idle⟩
  unsubscribe _ _ he := ⟨he.distinct, he.idle⟩
  unsubscribeAll _ _ he := ⟨he.distinct, he.idle⟩

theorem settled_after {d : Diagram} (h : d.Distinct) (cs : List Command) :
    Settled ((ofDiagram d).after cs) := by
  have start : Settled (ofDiagram d) := ⟨h, fun _ => rfl⟩
  exact after_keeps upholds_settled (fun _ _ => trivial) start

/-- A listener is subscribed once and only watches, and everyone else is calm. The number says
how much had been delivered when it came. -/
structure Attends (name : Text) (count : Nat) (e : Editor) : Prop where
  calm : ∀ l ∈ e.known, l.reaction.IsCalm
  watches : ∃ l, e.listener? name = some l ∧ l.reaction = .watch
  once : e.subscribed.count name = 1
  length : count ≤ e.delivered.length

/-- Editors whose listeners are the same, with the same subscriptions of one of them. -/
structure Alike (name : Text) (e t : Editor) : Prop where
  content : t.content = e.content
  known : t.known = e.known
  count : t.subscribed.count name = e.subscribed.count name

variable {name : Text} {count : Nat} {e : Editor} {run : Runner}

theorem Alike.refl (name : Text) (e : Editor) : Alike name e e := ⟨rfl, rfl, rfl⟩

theorem deliver_calm (calm : ∀ l ∈ e.known, l.reaction.IsCalm)
    (watches : ∃ l, e.listener? name = some l ∧ l.reaction = .watch) (event : Event)
    (names : List Text) :
    Ends (Emitter.deliver run event names) e
      (fun _ t => Alike name e t ∧ t.delivered = e.delivered ++ names.map fun n => (n, event))
      fun _ _ => False := by
  induction names generalizing e with
  | nil => exact ⟨.refl name e, (List.append_nil _).symm⟩
  | cons n names ih =>
    simp only [Emitter.deliver, ends_bind, ends_modify, ends_get]
    -- whoever is told next is as it was before
    have next : ∀ u : Editor, u.content = e.content → u.known = e.known →
        u.subscribed.count name = e.subscribed.count name →
        u.delivered = e.delivered ++ [(n, event)] →
        Ends (Emitter.deliver run event names) u
          (fun _ t => Alike name e t ∧
            t.delivered = e.delivered ++ (n :: names).map fun n => (n, event))
          fun _ _ => False := by
      intro u content known subscribed delivered
      have same : u.listener? name = e.listener? name := by
        rw [Emitter.listener?, Emitter.listener?, known]
      refine (ih (known ▸ calm) (same ▸ watches)).imp ?_ fun _ _ => id
      rintro _ t ⟨alike, told⟩
      refine ⟨⟨alike.content.trans content, alike.known.trans known,
        alike.count.trans subscribed⟩, ?_⟩
      rw [told, delivered, List.append_assoc]
      rfl
    have calm_found : ∀ l, (e.heard n event).listener? n = some l → l.reaction.IsCalm := fun l found =>
      calm l (List.mem_of_find?_eq_some found)
    split
    · rename_i other spent found
      simp only [ends_bind, ends_modify]
      have ne : n ≠ name := by
        rintro rfl
        obtain ⟨l, hl, watch⟩ := watches
        have : l = _ := Option.some.inj (hl.symm.trans found)
        rw [this] at watch
        cases watch
      exact next _ rfl rfl (List.count_erase_of_ne (Ne.symm ne)) rfl
    · rename_i found
      exact (calm_found _ found).elim
    · rename_i found
      exact (calm_found _ found).elim
    · exact next _ rfl rfl rfl rfl

/-- What is delivered to everyone once is heard once by each listener that is subscribed once. -/
theorem heard_once {names : List Text} (once : names.count name = 1) (event : Event) :
    (((names.map fun n => (n, event)).filter fun d => d.1 = name).map (·.2)) = [event] := by
  have same : (fun d : Text × Event => decide (d.1 = name)) ∘ (fun n => (n, event)) =
      (· == name) := by
    funext n
    simp [beq_eq_decide]
  rw [List.filter_map, same, List.filter_beq, once]
  rfl

theorem emit_calm (h : Attends name count e) (event : Event) :
    Ends (Emitter.emit run event) e
      (fun _ (t : Editor) => Attends name count t ∧ t.content = e.content ∧
        t.heardSince name count = e.heardSince name count ++ event.changes) fun _ _ => False := by
  simp only [Emitter.emit, ends_bind, ends_get]
  refine (deliver_calm h.calm h.watches event e.subscribed).imp ?_ fun _ _ => id
  rintro _ t ⟨alike, told⟩
  refine ⟨⟨alike.known ▸ h.calm, ?_, alike.count.trans h.once, ?_⟩, alike.content, ?_⟩
  · rw [Emitter.listener?, alike.known]
    exact h.watches
  · rw [told, List.length_append]
    exact Nat.le_add_right_of_le h.length
  · rw [heardSince, told, List.drop_append_of_le_length h.length, List.filter_append, List.map_append,
      heard_once h.once, List.flatMap_append, List.flatMap_singleton]
    rfl

/-- The changes that a listener has heard and those that are kept back. -/
def logSince (e : Editor) (name : Text) (count : Nat) : List Change :=
  e.heardSince name count ++ e.content.buffered

/-- Changes are told or kept back, and come last in either case, since nothing is kept back
where they are told. -/
theorem publish_calm (h : Attends name count e)
    (idle : e.content.depth = 0 → e.content.buffered = []) (cs : List Change) (grouped : Bool) :
    Ends (publish run cs grouped) e
      (fun _ (t : Editor) => Attends name count t ∧ t.diagram = e.diagram ∧
        (t.content.depth = 0 → t.content.buffered = []) ∧
        t.logSince name count = e.logSince name count ++ cs) fun _ _ => False := by
  simp only [publish, ends_bind, ends_get]
  split
  · rename_i deep
    rw [ends_onBoard]
    refine ⟨⟨h.calm, h.watches, h.once, h.length⟩, rfl,
      fun none => absurd none (Nat.ne_of_gt deep), ?_⟩
    exact (List.append_assoc ..).symm
  · rename_i shallow
    have none := idle (by omega)
    have told : ∀ t : Editor, Attends name count t → t.content = e.content →
        t.heardSince name count = e.heardSince name count ++ cs →
        Attends name count t ∧ t.diagram = e.diagram ∧
          (t.content.depth = 0 → t.content.buffered = []) ∧
          t.logSince name count = e.logSince name count ++ cs := by
      intro t attends content heard
      refine ⟨attends, congrArg Board.diagram content, fun _ => by rw [content, none], ?_⟩
      simp only [logSince, heard, content, none, List.append_nil]
    split
    · split
      · rename_i empty
        have : cs = [] := by simpa using empty
        exact told e h rfl (by simp [this])
      · refine (emit_calm h (.batch cs)).imp ?_ fun _ _ => id
        rintro _ t ⟨attends, content, heard⟩
        exact told t attends content heard
    · have walk := ends_forM (fun rest t => Attends name count t ∧
          t.content = e.content ∧ ∃ sent, cs = sent ++ rest ∧
          t.heardSince name count = e.heardSince name count ++ sent)
        (fun c => Emitter.emit run (.single c)) (fun _ _ => False) ?_ cs
        ⟨h, rfl, [], rfl, (List.append_nil _).symm⟩
      · refine walk.imp ?_ fun _ _ => id
        rintro _ t ⟨attends, content, sent, all, heard⟩
        exact told t attends content (by rw [heard, all, List.append_nil])
      · rintro c rest t ⟨attends, content, sent, all, heard⟩
        refine (emit_calm attends (.single c)).imp ?_ fun _ _ => id
        rintro _ u ⟨attends', content', heard'⟩
        refine ⟨attends', content'.trans content, sent ++ [c], by simp [all], ?_⟩
        rw [heard', heard, List.append_assoc]
        rfl

/-- What the listener has heard and what is kept back leads from the diagram at first to the
diagram now. -/
structure Follows (name : Text) (start : Diagram) (count : Nat) (e : Editor) : Prop where
  attends : Attends name count e
  settled : Settled e
  replay : start.bare.replay? (e.logSince name count) = some e.diagram.bare

variable {start : Diagram}

theorem perform_follows {α : Type} {edit : Edit α} (sound : ∀ d, Keeps (Sound False d) edit) :
    Keeps (Follows name start count) (perform run edit) := by
  intro e he
  simp only [perform, ends_bind, ends_enact, ends_get]
  have made : Sound False e.diagram (edit.run.run e.opening).2 :=
    made_sound sound he.settled.distinct False.elim
  have attends : Attends name count (e.afterEdit (edit.run.run e.opening).2) :=
    ⟨he.attends.calm, he.attends.watches, he.attends.once, he.attends.length⟩
  refine (publish_calm attends he.settled.idle _ _).imp ?_ fun _ _ => False.elim
  rintro _ t ⟨attends, diagram, idle, log⟩
  have follows : Follows name start count t := by
    have distinct : t.diagram.Distinct := by
      rw [diagram]
      exact made.distinct
    refine ⟨attends, ⟨distinct, idle⟩, ?_⟩
    have before : (e.afterEdit (edit.run.run e.opening).2).logSince name count =
        e.logSince name count := rfl
    rw [log, before, Diagram.replay?_append, he.replay, Option.bind_some, made.replay, diagram]
    rfl
  rw [ends_except]
  exact ⟨fun _ _ => follows, fun _ _ => follows⟩

theorem changeClasses_follows (f : List StyleClass → List StyleClass) :
    Keeps (Follows name start count) (enact (Edit.changeClasses f)) := fun e he =>
  ⟨⟨he.attends.calm, he.attends.watches, he.attends.once, he.attends.length⟩,
    changeClasses_settled f e he.settled, he.replay⟩

theorem upholds_follows (run : Runner) :
    Upholds (Follows name start count) run (fun _ edit => ∀ d, Keeps (Sound False d) edit)
      (Command.spares name) where
  makes := makes_sound (fun _ => False.elim) (fun _ => False.elim) fun _ => False.elim
  withBatch hc := allSpare_iff.mp hc
  perform _ sound := perform_follows sound
  define _ := changeClasses_follows _
  undefine _ := changeClasses_follows _
  begin := fun e he => ⟨⟨he.attends.calm, he.attends.watches, he.attends.once,
    he.attends.length⟩, ⟨he.settled.distinct, fun none => absurd none (Nat.succ_ne_zero _)⟩,
    he.replay⟩
  finish := by
    intro e he
    simp only [endBatch, ends_bind, ends_get, ends_onBoard]
    have ended : ∀ depth buffered, Attends name count
        { e with content := { e.content with depth, buffered } } := fun _ _ =>
      ⟨he.attends.calm, he.attends.watches, he.attends.once, he.attends.length⟩
    split
    · simp only [ends_bind, ends_onBoard]
      refine (emit_calm (ended _ []) (.batch e.content.buffered)).imp ?_ fun _ _ => False.elim
      · rintro _ (t : Editor) ⟨attends, content, heard⟩
        refine ⟨attends, ⟨?_, fun _ => by rw [content]⟩, ?_⟩
        · rw [diagram, content]
          exact he.settled.distinct
        · have log : t.logSince name count = e.logSince name count := by
            simp only [logSince, heard, content, List.append_nil]
            rfl
          rw [log, he.replay, diagram, diagram, content]
    · rename_i other
      refine ends_pure.mpr ⟨ended _ _, ⟨he.settled.distinct, fun none => ?_⟩, he.replay⟩
      have none : e.content.depth - 1 = 0 := none
      by_cases one : e.content.depth = 1
      · simpa [one] using other
      · exact he.settled.idle (by omega)
  subscribe {other reaction} hc e he := by
    obtain ⟨ne, calm⟩ := hc
    refine ⟨⟨?_, ?_, ?_, he.attends.length⟩, ⟨he.settled.distinct, he.settled.idle⟩, he.replay⟩
    · intro l hl
      simp only [Emitter.subscribe] at hl
      split at hl
      · exact he.attends.calm l hl
      · rcases List.mem_append.mp hl with hl | hl
        · exact he.attends.calm l hl
        · rw [List.mem_singleton.mp hl]
          exact calm
    · obtain ⟨l, found, watch⟩ := he.attends.watches
      refine ⟨l, ?_, watch⟩
      have still : ∀ more, (e.known ++ more).find? (fun l => l.name == name) = some l := by
        intro more
        rw [List.find?_append, show e.known.find? (fun l => l.name == name) = some l from found]
        rfl
      change (if _ then e.known else e.known ++ _).find? (fun l => l.name == name) = some l
      split
      · exact found
      · exact still _
    · have : (e.subscribed ++ [other]).count name = 1 := by
        rw [List.count_append, he.attends.once, List.count_singleton, if_neg (by simpa using ne)]
      exact this
  unsubscribe {other} hc e he := by
    refine ⟨⟨he.attends.calm, he.attends.watches, ?_, he.attends.length⟩,
      ⟨he.settled.distinct, he.settled.idle⟩, he.replay⟩
    exact (List.count_erase_of_ne (Ne.symm hc)).trans he.attends.once
  unsubscribeAll := False.elim

/-- A listener that is new to an editor outside of batches, and subscribed once, follows it from
the diagram that it finds. -/
theorem follows_subscribe (settled : e.Settled) (outside : e.content.depth = 0)
    (calm : ∀ l ∈ e.known, l.reaction.IsCalm) (unknown : e.listener? name = none)
    (absent : name ∉ e.subscribed) :
    Follows name e.diagram e.delivered.length (e.subscribe name .watch) := by
  have known : (e.subscribe name .watch).known = e.known ++ [{ name, reaction := .watch }] := by
    simp [Emitter.subscribe, unknown]
  refine ⟨⟨?_, ?_, ?_, Nat.le_refl _⟩, ⟨settled.distinct, settled.idle⟩, ?_⟩
  · rw [known]
    intro l hl
    rcases List.mem_append.mp hl with hl | hl
    · exact calm l hl
    · rw [List.mem_singleton.mp hl]
      trivial
  · refine ⟨{ name, reaction := .watch }, ?_, rfl⟩
    rw [Emitter.listener?, known, List.find?_append,
      show e.known.find? (fun l => l.name == name) = none from unknown]
    simp
  · have : (e.subscribed ++ [name]).count name = 1 := by
      rw [List.count_append, List.count_eq_zero_of_not_mem absent, List.count_singleton_self]
    exact this
  · have kept : (e.subscribe name .watch).content.buffered = [] := settled.idle outside
    have heard : Editor.heardSince (e.subscribe name .watch) name e.delivered.length = [] := by
      simp [heardSince, Emitter.subscribe]
    rw [logSince, kept, heard]
    rfl

/-- The changes that a listener has heard since it came, and after them those that are kept back
for the end of a batch, lead the diagram it came to to the diagram as it is. -/
theorem log_leads_to_diagram (name : Text) (before after : List Command) {e : Editor}
    (reached : e = (ofDiagram .empty).after before) (outside : e.content.depth = 0)
    (calm : ∀ l ∈ e.known, l.reaction.IsCalm) (unknown : e.listener? name = none)
    (absent : name ∉ e.subscribed) (spared : ∀ c ∈ after, c.spares name) :
    let t := Editor.after (e.subscribe name .watch) after
    ∃ d, e.diagram.replay? (t.heardSince name e.delivered.length ++ t.content.buffered) = some d ∧
      d.nodes = t.diagram.nodes ∧ d.edges = t.diagram.edges ∧
      d.subgraphs = t.diagram.subgraphs ∧ d.direction = t.diagram.direction := by
  intro t
  have settled : e.Settled := reached ▸ settled_after Diagram.distinct_empty before
  have start := follows_subscribe settled outside calm unknown absent
  have follows : Follows name e.diagram e.delivered.length t :=
    after_keeps (fun run _ => upholds_follows run) spared start
  have replay := follows.replay
  rw [Diagram.replay?_bare] at replay
  obtain ⟨d, led, same⟩ := Option.map_eq_some_iff.mp replay
  injection same with direction nodes edges subgraphs
  exact ⟨d, led, nodes, edges, subgraphs, direction⟩

/-- A subgraph is filled and turned in a batch that does not end, and taken away. -/
def unfinished : List Command := [
  .addSubgraph { id := .text "g", title := .text "g" },
  .beginBatch,
  .updateNode (.text "A") [("parent_id", .text "g")],
  .setDirection (.text "LR"),
  .removeSubgraph (.text "g"),
  .removeNode (.text "B")]

theorem unfinished_log_leads_to_diagram :
    let e := (ofDiagram .empty).after [.addNode (.bare (.text "A"))]
    let t := Editor.after (e.subscribe "listener" .watch) unfinished
    ∃ d, e.diagram.replay? (t.heardSince "listener" e.delivered.length ++ t.content.buffered) =
        some d ∧
      d.nodes = t.diagram.nodes ∧ d.edges = t.diagram.edges ∧
      d.subgraphs = t.diagram.subgraphs ∧ d.direction = t.diagram.direction :=
  log_leads_to_diagram "listener" [.addNode (.bare (.text "A"))] unfinished rfl rfl
    (fun _ none => nomatch none) rfl (fun none => nomatch none)
    (by simp [unfinished, Command.spares])

end Editor
end Flowchart
