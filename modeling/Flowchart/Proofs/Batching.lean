import Flowchart.Proofs.Telling
import Mathlib.Data.List.Induction

/-! Batches, among listeners that hear of events, leave or fail, but have no commands run. Whatever
is called while a batch goes on, and whatever fails, what is kept back is what has been changed
since the batch began, and the call that ends the last batch tells all of it in one event. Nothing
is kept back when no batch goes on. -/
namespace Flowchart
open Action Progress Edit

/-- Reactions of a listener that has no command run. -/
def Reaction.IsPassive {κ : Type} : Reaction κ → Prop
  | .watch | .leave | .fail => True
  | .act _ => False

mutual

/-- Does the command bring in no listener that has a command run? Blocks are asked about their
steps. -/
def Command.IsPassive : Command → Prop
  | .subscribe _ reaction => reaction.IsPassive
  | .withBatch steps => Command.arePassive steps
  | _ => True

/-- Do all commands bring in no such listener? -/
def Command.arePassive : List Command → Prop
  | [] => True
  | c :: cs => c.IsPassive ∧ Command.arePassive cs

end

namespace Editor
variable {e t : Editor} {run : Runner}

theorem arePassive_iff {cs : List Command} :
    Command.arePassive cs ↔ ∀ c ∈ cs, c.IsPassive := by
  induction cs with
  | nil => simp [Command.arePassive]
  | cons c cs ih => simp [Command.arePassive, ih]

/-- No listener has a command run. -/
def IsPassive (e : Editor) : Prop := ∀ l ∈ e.known, l.reaction.IsPassive

theorem IsPassive.of_known (h : e.IsPassive) (known : t.known = e.known) : t.IsPassive := by
  rw [IsPassive, known]
  exact h

theorem IsPassive.subscribe (h : e.IsPassive) (name : Text) {reaction : Reaction Command}
    (passive : reaction.IsPassive) : IsPassive (e.subscribe name reaction) := by
  intro l hl
  simp only [Emitter.subscribe] at hl
  split at hl
  · exact h l hl
  · rcases List.mem_append.mp hl with hl | hl
    · exact h l hl
    · rw [List.mem_singleton.mp hl]
      exact passive

/-! ### Deliveries -/

/-- Does the listener fail? -/
def fails (e : Editor) (name : Text) : Bool :=
  match e.listener? name with
  | some ⟨_, .fail, _⟩ => true
  | _ => false

/-- Those of the listeners who hear of an event: all up to the first one that fails. -/
def hearing (e : Editor) : List Text → List Text
  | [] => []
  | name :: names => name :: if e.fails name then [] else e.hearing names

theorem hearing_congr (known : t.known = e.known) (names : List Text) :
    t.hearing names = e.hearing names := by
  have same : ∀ name, t.fails name = e.fails name := fun name => by
    rw [fails, fails, Emitter.listener?, Emitter.listener?, known]
  induction names with
  | nil => rfl
  | cons name names ih => rw [hearing, hearing, ih, same]

/-- The editor when events have gone to listeners, none of whom had a command run. -/
structure Heard (e t : Editor) (told : List (Text × Event)) : Prop where
  content : t.content = e.content
  known : t.known = e.known
  delivered : t.delivered = e.delivered ++ told

theorem deliver_heard (h : e.IsPassive) (event : Event) (names : List Text) :
    Leaves (Emitter.deliver run event names) e fun t =>
      Heard e t (deliveries (e.hearing names) (some event)) := by
  induction names generalizing e with
  | nil => exact ⟨rfl, rfl, (List.append_nil _).symm⟩
  | cons name names ih =>
    simp only [Emitter.deliver, ends_bind, ends_modify, ends_get]
    -- the others hear of it as well, unless this one fails
    have others : ∀ u : Editor, u.content = e.content → u.known = e.known →
        u.delivered = e.delivered ++ [(name, event)] → e.fails name = false →
        Leaves (Emitter.deliver run event names) u fun t =>
          Heard e t (deliveries (e.hearing (name :: names)) (some event)) := by
      intro u content known delivered stays
      have next : ∀ t, Heard u t (deliveries (u.hearing names) (some event)) →
          Heard e t (deliveries (e.hearing (name :: names)) (some event)) := by
        rintro t ⟨content', known', delivered'⟩
        refine ⟨content'.trans content, known'.trans known, ?_⟩
        rw [delivered', delivered, hearing, stays, hearing_congr known]
        simp
      exact (ih (h.of_known known)).mono next
    have same : (e.heard name event).listener? name = e.listener? name := rfl
    rw [same]
    rcases found : e.listener? name with _ | ⟨other, reaction, spent⟩
    · exact others _ rfl rfl rfl (by rw [fails, found])
    · have passive : reaction.IsPassive := h _ (List.mem_of_find?_eq_some found)
      cases reaction with
      | watch => exact others _ rfl rfl rfl (by rw [fails, found])
      | leave =>
        simp only [ends_bind, ends_modify]
        exact others _ rfl rfl rfl (by rw [fails, found])
      | fail =>
        have last : e.hearing (name :: names) = [name] := by
          rw [hearing, fails, found]
          rfl
        rw [last]
        exact ends_throw.mpr ⟨rfl, rfl, rfl⟩
      | act => exact passive.elim

theorem tell_heard (h : e.IsPassive) (event? : Option Event) :
    Leaves (tell run event?) e fun t =>
      Heard e t (deliveries (e.hearing e.subscribed) event?) := by
  cases event? with
  | none => exact ⟨rfl, rfl, (List.append_nil _).symm⟩
  | some event =>
    simp only [tell, Emitter.emit, ends_bind, ends_get]
    exact deliver_heard h event e.subscribed

/-! ### Calls -/

/-- What a call leaves that neither begins nor ends a batch: batches go on as they did, and what
it has changed is kept back if there are any. -/
structure Proceeds (e t : Editor) : Prop where
  passive : t.IsPassive
  depth : t.content.depth = e.content.depth
  changes : ∃ cs, t.content.journal = e.content.journal ++ cs ∧
    t.content.buffered = e.content.buffered ++ if 0 < e.content.depth then cs else []
  silent : 0 < e.content.depth → t.delivered = e.delivered

theorem Proceeds.of_same (passive : t.IsPassive) (depth : t.content.depth = e.content.depth)
    (journal : t.content.journal = e.content.journal)
    (buffered : t.content.buffered = e.content.buffered) (delivered : t.delivered = e.delivered) :
    Proceeds e t :=
  ⟨passive, depth, ⟨[], by simp [journal], by simp [buffered]⟩, fun _ => delivered⟩

theorem publish_inside {cs : List Change} {grouped : Bool} (deep : 0 < e.content.depth) :
    Leaves (publish run cs grouped) e fun t => t =
      { e with content := { e.content with buffered := e.content.buffered ++ cs } } := by
  simp only [publish, ends_bind, ends_get]
  rw [if_pos deep]
  rfl

theorem perform_proceeds {α : Type} {edit : Edit α} (h : e.IsPassive) (once : AtOnce edit) :
    Leaves (perform run edit) e (Proceeds e) := by
  simp only [perform, ends_bind, ends_enact, ends_get]
  set p := (edit.run.run e.opening).2
  have told : Leaves (publish run p.changes p.grouped) (e.afterEdit p) (Proceeds e) := by
    by_cases deep : 0 < e.content.depth
    · have kept : ∀ t, t = { e.afterEdit p with content := { (e.afterEdit p).content with
          buffered := e.content.buffered ++ p.changes } } → Proceeds e t := by
        rintro t rfl
        exact ⟨h, rfl, ⟨p.changes, rfl, by rw [if_pos deep]⟩, fun _ => rfl⟩
      exact (publish_inside (e := e.afterEdit p) deep).mono kept
    · have outside : e.content.depth = 0 := by omega
      have heard : ∀ told t, Heard (e.afterEdit p) t told → Proceeds e t := by
        rintro told t ⟨content, known, _⟩
        refine ⟨h.of_known known, by rw [content]; rfl, ⟨p.changes, by rw [content]; rfl, ?_⟩,
          fun more => absurd more deep⟩
        rw [content, if_neg deep, List.append_nil]
        rfl
      have atOnce : p.AtOnce := (once e.opening rfl).state
      refine (ends_congr (publish_outside (e := e.afterEdit p) atOnce outside)).mpr ?_
      exact (tell_heard (e := e.afterEdit p) h p.event?).mono (heard _)
  refine told.imp (fun _ t ht => ?_) fun _ _ => id
  rw [ends_except]
  exact ⟨fun _ _ => ht, fun _ _ => ht⟩

/-- A call that neither begins nor ends a batch leaves the depth of batches as it was. -/
theorem obey_proceeds {c : Command} (h : e.IsPassive) (single : c.IsSingle) (passive : c.IsPassive)
    (begins : c ≠ .beginBatch) (ends : c ≠ .endBatch) : Leaves (obey run c) e (Proceeds e) := by
  have still : Proceeds e e := .of_same h rfl rfl rfl rfl
  cases goes (makes_atOnce fun _ => True) trivial single with
  | edits edit answer once looks obeys =>
    rw [obeys, Leaves, ends_bind]
    refine (perform_proceeds h once).imp (fun x t ht => ?_) fun _ _ => id
    exact (looks x).keeps _ t ht
  | styles f answer obeys =>
    rw [obeys]
    exact .of_same h rfl (List.append_nil _) rfl rfl
  | looks a looks obeys =>
    rw [obeys]
    exact looks.keeps _ e still
  | begins => exact absurd rfl begins
  | ends => exact absurd rfl ends
  | subscribes name reaction =>
    exact Proceeds.of_same (h.subscribe name passive) rfl rfl rfl rfl
  | unsubscribes name => exact Proceeds.of_same h rfl rfl rfl rfl
  | empties => exact Proceeds.of_same h rfl rfl rfl rfl

/-- The event that tells of all that was kept back, if there was something. -/
def batch? (cs : List Change) : Option Event := if cs.isEmpty then none else some (.batch cs)

/-- What the end of a batch leaves: the last one tells of all that was kept back. -/
structure Ended (e t : Editor) : Prop where
  passive : t.IsPassive
  content : t.content = { e.content with
    depth := e.content.depth - 1
    buffered := if e.content.depth = 1 then [] else e.content.buffered }
  delivered : t.delivered = e.delivered ++ if e.content.depth = 1 then
    deliveries (e.hearing e.subscribed) (batch? e.content.buffered) else []

theorem endBatch_ended (h : e.IsPassive) : Leaves (endBatch run) e (Ended e) := by
  simp only [endBatch, ends_bind, ends_get, ends_onBoard]
  split
  · rename_i last
    obtain ⟨one, something⟩ : e.content.depth = 1 ∧ e.content.buffered.isEmpty = false := by
      simpa using last
    simp only [ends_bind, ends_onBoard]
    let u : Editor :=
      { e with content := { e.content with depth := e.content.depth - 1, buffered := [] } }
    have ended : ∀ t, Heard u t (deliveries (u.hearing u.subscribed)
        (some (.batch e.content.buffered))) → Ended e t := by
      rintro t ⟨content, known, delivered⟩
      refine ⟨h.of_known known, by rw [content, if_pos one], ?_⟩
      rw [delivered, if_pos one, batch?, something, hearing_congr (t := u) (e := e) rfl]
      rfl
    exact (tell_heard (e := u) h _).mono ended
  · rename_i other
    refine ends_pure.mpr ⟨h, ?_, ?_⟩
    · split
      · rename_i one
        have none : e.content.buffered = [] := by simpa [one] using other
        rw [none]
      · rfl
    · split
      · rename_i one
        have none : e.content.buffered = [] := by simpa [one] using other
        rw [none]
        exact (List.append_nil _).symm
      · exact (List.append_nil _).symm

/-! ### Sequences of calls -/

theorem after_append (e : Editor) (cs cs' : List Command) :
    e.after (cs ++ cs') = (e.after cs).after cs' := List.foldl_append

theorem after_begin (e : Editor) : e.after [.beginBatch] =
    { e with content := { e.content with depth := e.content.depth + 1 } } := by
  rw [after_single]
  rfl

theorem after_end (h : e.IsPassive) : Ended e (e.after [.endBatch]) := by
  rw [after_single]
  refine Ends.state ?_
  rw [obey, ends_map]
  exact endBatch_ended h

theorem after_other {c : Command} (h : e.IsPassive) (single : c.IsSingle) (passive : c.IsPassive)
    (begins : c ≠ .beginBatch) (ends : c ≠ .endBatch) : Proceeds e (e.after [c]) := by
  rw [after_single]
  exact (obey_proceeds h single passive begins ends).state

/-- Batches have gone on since one began outside of all others. -/
structure DeepSince (d : Diagram) (before inside : List Command) : Prop where
  outside : ((ofDiagram d).after before).content.depth = 0
  deep : ∀ more, more <+: inside →
    0 < ((ofDiagram d).after (before ++ .beginBatch :: more)).content.depth

/-- How the editor of a diagram stands after calls. -/
structure Stands (d : Diagram) (cs : List Command) : Prop where
  passive : ((ofDiagram d).after cs).IsPassive
  idle : ((ofDiagram d).after cs).content.depth = 0 → ((ofDiagram d).after cs).content.buffered = []
  kept : 0 < ((ofDiagram d).after cs).content.depth → ∃ before inside,
    cs = before ++ .beginBatch :: inside ∧ DeepSince d before inside ∧
    ((ofDiagram d).after cs).content.journal =
      ((ofDiagram d).after before).content.journal ++ ((ofDiagram d).after cs).content.buffered ∧
    ((ofDiagram d).after cs).delivered = ((ofDiagram d).after before).delivered

variable {d : Diagram} {cs : List Command} {c : Command}

theorem DeepSince.concat {before inside : List Command} (h : DeepSince d before inside)
    (deep : 0 < ((ofDiagram d).after (before ++ .beginBatch :: (inside ++ [c]))).content.depth) :
    DeepSince d before (inside ++ [c]) := by
  refine ⟨h.outside, fun more hmore => ?_⟩
  rcases List.prefix_concat_iff.mp hmore with rfl | shorter
  · exact deep
  · exact h.deep more shorter

/-- Where batches go on, one more call only adds to what is kept back. -/
theorem Stands.further (h : Stands d cs) {t : Editor} (left : (ofDiagram d).after (cs ++ [c]) = t)
    (passive : t.IsPassive) (deep : 0 < ((ofDiagram d).after cs).content.depth)
    (still : 0 < t.content.depth) (added : List Change)
    (journal : t.content.journal = ((ofDiagram d).after cs).content.journal ++ added)
    (buffered : t.content.buffered = ((ofDiagram d).after cs).content.buffered ++ added)
    (silent : t.delivered = ((ofDiagram d).after cs).delivered) : Stands d (cs ++ [c]) := by
  obtain ⟨before, inside, rfl, since, log, quiet⟩ := h.kept deep
  subst left
  refine ⟨passive, fun none => absurd none (Nat.ne_of_gt still), fun _ =>
    ⟨before, inside ++ [c], by simp, since.concat (by simpa using still), ?_, silent.trans quiet⟩⟩
  rw [journal, buffered, log, List.append_assoc]

theorem Stands.begin (h : Stands d cs) : Stands d (cs ++ [.beginBatch]) := by
  have next := after_append (ofDiagram d) cs [.beginBatch]
  rw [after_begin] at next
  by_cases deep : 0 < ((ofDiagram d).after cs).content.depth
  · exact h.further next h.passive deep (Nat.succ_pos _) [] (by simp) (by simp) rfl
  · have outside : ((ofDiagram d).after cs).content.depth = 0 := by omega
    refine ⟨next ▸ h.passive, fun none => ?_, fun _ => ⟨cs, [], rfl, ⟨outside, ?_⟩, ?_, ?_⟩⟩
    · rw [next] at none
      cases none
    · rintro more hmore
      rw [List.prefix_nil.mp hmore, next]
      exact Nat.succ_pos _
    · rw [next, h.idle outside, List.append_nil]
    · rw [next]

theorem Stands.finish (h : Stands d cs) : Stands d (cs ++ [.endBatch]) := by
  have ended := after_end h.passive
  have next := after_append (ofDiagram d) cs [.endBatch]
  by_cases more : 1 < ((ofDiagram d).after cs).content.depth
  · have inner : ((ofDiagram d).after cs).content.depth ≠ 1 := Nat.ne_of_gt more
    have content := ended.content
    have delivered := ended.delivered
    rw [if_neg inner] at content delivered
    refine h.further next ended.passive (by omega) ?_ [] ?_ ?_ (by simpa using delivered)
    · rw [content]
      exact Nat.sub_pos_of_lt more
    · simp [content]
    · simp [content]
  · have outside : ((ofDiagram d).after (cs ++ [.endBatch])).content.depth = 0 := by
      rw [next, ended.content]
      exact Nat.sub_eq_zero_of_le (by omega)
    refine ⟨next ▸ ended.passive, fun _ => ?_, fun deep => absurd outside (Nat.ne_of_gt deep)⟩
    rw [next, ended.content]
    change (if _ then [] else _) = []
    split
    · rfl
    · exact h.idle (by omega)

theorem Stands.concat (h : Stands d cs) (single : c.IsSingle) (passive : c.IsPassive) :
    Stands d (cs ++ [c]) := by
  by_cases begins : c = .beginBatch
  · exact begins ▸ h.begin
  · by_cases ends : c = .endBatch
    · exact ends ▸ h.finish
    · obtain ⟨passive, depth, ⟨added, journal, buffered⟩, silent⟩ :=
        after_other h.passive single passive begins ends
      have next := after_append (ofDiagram d) cs [c]
      by_cases deep : 0 < ((ofDiagram d).after cs).content.depth
      · rw [if_pos deep] at buffered
        exact h.further next passive deep (depth ▸ deep) added journal buffered (silent deep)
      · rw [if_neg deep, List.append_nil] at buffered
        rw [← next] at passive depth buffered
        refine ⟨passive, fun none => ?_, fun more => absurd (depth ▸ more) deep⟩
        rw [buffered]
        exact h.idle (depth ▸ none)

theorem stands (d : Diagram) (single : ∀ c ∈ cs, c.IsSingle) (passive : ∀ c ∈ cs, c.IsPassive) :
    Stands d cs := by
  induction cs using List.reverseRecOn with
  | nil =>
    exact ⟨fun _ none => absurd none List.not_mem_nil, fun _ => rfl, fun deep => nomatch deep⟩
  | append_singleton cs c ih =>
    have before : Stands d cs := ih (fun c' hc' => single c' (List.mem_append_left _ hc'))
      fun c' hc' => passive c' (List.mem_append_left _ hc')
    exact before.concat (single c (by simp)) (passive c (by simp))

end Editor
end Flowchart
