import Flowchart.Proofs.Batching

/-! Blocks of commands. A block begins a batch, makes calls up to the first that fails, and ends the
batch, so what is true of calls is true of blocks, in whatever way they are nested. -/
namespace Flowchart
open Action Progress Edit

/-- What is true of single commands, and of blocks of commands of which it is true, is true of all
commands. -/
theorem Command.by_blocks {P : Command → Prop} (single : ∀ c : Command, c.IsSingle → P c)
    (block : ∀ steps, (∀ c ∈ steps, P c) → P (.withBatch steps)) (c : Command) : P c := by
  by_cases alone : c.IsSingle
  · exact single c alone
  · cases c with
    | withBatch steps => exact block steps fun c hc => by_blocks single block c
    | _ => exact absurd trivial alone
termination_by sizeOf c
decreasing_by
  have := List.sizeOf_lt_of_mem hc
  simp
  omega

namespace Editor

/-- It does not matter to the action, begun where no listener has a command run, how such commands
are run. -/
def Indifferent {α : Type} (a : Runner → Action Editor α) : Prop := ∀ e, e.IsPassive →
  ∀ run run', (a run).run.run e = (a run').run.run e ∧ IsPassive ((a run).run.run e).2

section Indifferent
variable {α β : Type}

theorem indifferent_of_keeps {a : Action Editor α} (h : Keeps IsPassive a) :
    Indifferent fun _ => a := fun e he _ _ => ⟨rfl, (h e he).state⟩

theorem indifferent_bind {a : Runner → Action Editor α} {f : Runner → α → Action Editor β}
    (ha : Indifferent a) (hf : ∀ x, Indifferent fun run => f run x) :
    Indifferent fun run => a run >>= f run := by
  intro e he run run'
  obtain ⟨same, passive⟩ := ha e he run run'
  simp only [run_bind, ← same]
  revert passive
  rcases (a run).run.run e with ⟨_ | x, t⟩ <;> intro passive
  · exact ⟨rfl, passive⟩
  · exact hf x t passive run run'

theorem indifferent_forM {f : Runner → α → Action Editor PUnit}
    (h : ∀ x, Indifferent fun run => f run x) (xs : List α) :
    Indifferent fun run => xs.forM (f run) := by
  induction xs with
  | nil => exact indifferent_of_keeps fun _ he => he
  | cons x xs ih => exact indifferent_bind (h x) fun _ => ih

theorem indifferent_get {f : Runner → Editor → Action Editor α}
    (hf : ∀ e, e.IsPassive → ∀ run run', (f run e).run.run e = (f run' e).run.run e ∧
      IsPassive ((f run e).run.run e).2) :
    Indifferent fun run => get >>= f run := hf

theorem deliver_indifferent (event : Event) (names : List Text) :
    Indifferent fun run => Emitter.deliver run event names := by
  induction names with
  | nil => exact indifferent_of_keeps fun _ he => he
  | cons name names ih =>
    refine indifferent_bind (indifferent_of_keeps fun _ he => he) fun _ =>
      indifferent_get fun e he run run' => ?_
    rcases found : e.listener? name with _ | ⟨other, reaction, spent⟩
    · exact ih e he run run'
    · have passive : reaction.IsPassive := he _ (List.mem_of_find?_eq_some found)
      cases reaction with
      | watch => exact ih e he run run'
      | leave => exact ih (e.unsubscribe name) he run run'
      | fail => exact ⟨rfl, he⟩
      | act => exact passive.elim

theorem emit_indifferent (event : Event) : Indifferent fun run => Emitter.emit run event :=
  indifferent_get fun e he => deliver_indifferent event e.subscribed e he

theorem publish_indifferent (changes : List Change) (grouped : Bool) :
    Indifferent fun run => publish run changes grouped := by
  refine indifferent_get fun e he run run' => ?_
  split
  · exact ⟨rfl, he⟩
  · split
    · split
      · exact ⟨rfl, he⟩
      · exact emit_indifferent _ e he run run'
    · exact indifferent_forM (fun c => emit_indifferent (.single c)) changes e he run run'

theorem onBoard_indifferent (f : Board → Board) : Indifferent fun _ => onBoard f :=
  indifferent_of_keeps fun _ he => he

theorem endBatch_indifferent : Indifferent endBatch := by
  refine indifferent_get fun e he => indifferent_bind (onBoard_indifferent _) (fun _ => ?_) e he
  split
  · exact indifferent_bind (onBoard_indifferent _) fun _ => emit_indifferent _
  · exact indifferent_of_keeps fun _ he => he

theorem perform_indifferent (edit : Edit α) : Indifferent fun run => perform run edit := by
  have enacted : Indifferent fun _ => enact edit := indifferent_of_keeps fun _ he => he
  refine indifferent_bind enacted fun ended => indifferent_get fun e he =>
    indifferent_bind (publish_indifferent ended.2.changes ended.2.grouped) (fun _ => ?_) e he
  exact indifferent_of_keeps ((looks_bind (looks_except _) fun _ => looks_bind looks_get fun _ =>
    looks_pure _).keeps _)

theorem within_indifferent {a : Runner → Action Editor α} (ha : Indifferent a) :
    Indifferent fun run => within run (a run) := by
  have tried : Indifferent fun run => ExceptT.lift (a run).run := by
    intro e he run run'
    obtain ⟨same, passive⟩ := ha e he run run'
    rw [run_tried, run_tried, ← same]
    exact ⟨rfl, passive⟩
  exact indifferent_bind (onBoard_indifferent _) fun _ => indifferent_bind tried fun result =>
    indifferent_bind endBatch_indifferent fun _ => indifferent_of_keeps ((looks_except _).keeps _)

/-- A command that is no block goes its way whoever runs the commands of listeners. -/
theorem single_indifferent {c : Command} (single : c.IsSingle) (passive : c.IsPassive) :
    Indifferent fun run => obey run c := by
  cases goes (makes_atOnce fun _ => True) trivial single with
  | edits edit answer once looks obeys =>
    simp only [obeys]
    exact indifferent_bind (perform_indifferent edit) fun x =>
      indifferent_of_keeps ((looks x).keeps _)
  | styles f answer obeys =>
    simp only [obeys]
    exact indifferent_of_keeps fun _ he => he
  | looks a looks obeys =>
    simp only [obeys]
    exact indifferent_of_keeps (looks.keeps _)
  | begins => exact indifferent_of_keeps fun _ he => he
  | ends =>
    simp only [obey, ← bind_pure_comp]
    exact indifferent_bind endBatch_indifferent fun _ => indifferent_of_keeps fun _ he => he
  | subscribes name reaction => exact indifferent_of_keeps fun _ he => he.subscribe name passive
  | unsubscribes name => exact indifferent_of_keeps fun _ he => he
  | empties => exact indifferent_of_keeps fun _ he => he

theorem obeyAll_indifferent {cs : List Command}
    (h : ∀ c ∈ cs, Indifferent fun run => obey run c) : Indifferent fun run => obeyAll run cs := by
  induction cs with
  | nil => exact indifferent_of_keeps fun _ he => he
  | cons c cs ih =>
    exact indifferent_bind (h c List.mem_cons_self) fun _ =>
      indifferent_bind (ih fun c' hc' => h c' (List.mem_cons_of_mem c hc')) fun _ =>
      indifferent_of_keeps fun _ he => he

theorem obey_indifferent {c : Command} (passive : c.IsPassive) :
    Indifferent fun run => obey run c := by
  induction c using Command.by_blocks with
  | single c single => exact single_indifferent single passive
  | block steps ih =>
    have each := arePassive_iff.mp passive
    exact indifferent_bind (within_indifferent (obeyAll_indifferent fun c hc =>
      ih c hc (each c hc))) fun _ => indifferent_of_keeps fun _ he => he

end Indifferent

/-! ### The calls of commands -/

mutual

/-- The calls that a command makes on an editor. A block begins a batch, makes the calls of its
steps up to the first that fails, and ends the batch. -/
def callsOf (e : Editor) : Command → List Command
  | .withBatch steps => .beginBatch :: (callsOfSteps (e.after [.beginBatch]) steps ++ [.endBatch])
  | c => [c]

/-- The calls of steps up to the first that fails. -/
def callsOfSteps (e : Editor) : List Command → List Command
  | [] => []
  | c :: cs => callsOf e c ++
      if ((run c).run.run e).1.isOk then callsOfSteps (e.after [c]) cs else []

end

/-- The calls of commands, whether they fail or not. -/
def unrolled (e : Editor) : List Command → List Command
  | [] => []
  | c :: cs => callsOf e c ++ unrolled (e.after [c]) cs

theorem callsOf_single {c : Command} (e : Editor) (single : c.IsSingle) : callsOf e c = [c] := by
  cases c <;> first | rfl | exact single.elim

theorem unrolled_single {cs : List Command} (e : Editor) (single : ∀ c ∈ cs, c.IsSingle) :
    unrolled e cs = cs := by
  induction cs generalizing e with
  | nil => rfl
  | cons c cs ih =>
    rw [unrolled, callsOf_single e (single c List.mem_cons_self),
      ih _ fun c' hc' => single c' (List.mem_cons_of_mem c hc')]
    rfl

theorem run_indifferent {c : Command} (passive : c.IsPassive) {e : Editor} (he : e.IsPassive)
    (runner : Runner) : (run c).run.run e = (obey runner c).run.run e :=
  (run_state e c).trans (obey_indifferent passive e he _ runner).1

/-- Whether its action fails or not, a block leaves what the end of its batch leaves. -/
theorem within_state {α : Type} (runner : Runner) (a : Action Editor α) (e : Editor) :
    ((within runner a).run.run e).2 =
      ((endBatch runner).run.run (a.run.run (e.after [.beginBatch])).2).2 := by
  rw [after_begin, within, run_bind]
  have begun : beginBatch.run.run e =
      (.ok (), { e with content := { e.content with depth := e.content.depth + 1 } }) := rfl
  simp only [begun, run_bind, run_tried]
  rcases (endBatch runner).run.run _ with ⟨_ | _, t⟩ <;> rfl

theorem callsOfSteps_state {runner : Runner} {cs : List Command}
    (h : ∀ c ∈ cs, ∀ e : Editor, e.IsPassive →
      ((obey runner c).run.run e).2 = e.after (callsOf e c))
    (passive : ∀ c ∈ cs, c.IsPassive) {e : Editor} (he : e.IsPassive) :
    ((obeyAll runner cs).run.run e).2 = e.after (callsOfSteps e cs) := by
  induction cs generalizing e with
  | nil => rfl
  | cons c cs ih =>
    have alone := passive c List.mem_cons_self
    have first := h c List.mem_cons_self e he
    have same := run_indifferent alone he runner
    have still := (obey_indifferent alone e he runner runner).2
    have after : e.after [c] = ((obey runner c).run.run e).2 := congrArg Prod.snd same
    rw [callsOfSteps, after_append, ← first, same, after, obeyAll, run_bind]
    revert still
    rcases (obey runner c).run.run e with ⟨_ | x, t⟩ <;> intro still
    · rfl
    · exact (run_map_state _ _ t).trans (ih (fun c' hc' => h c' (List.mem_cons_of_mem c hc'))
        (fun c' hc' => passive c' (List.mem_cons_of_mem c hc')) still)

/-- A command leaves what its calls leave. -/
theorem callsOf_state (runner : Runner) {c : Command} (passive : c.IsPassive) {e : Editor}
    (he : e.IsPassive) : ((obey runner c).run.run e).2 = e.after (callsOf e c) := by
  induction c using Command.by_blocks generalizing e with
  | single c single =>
    rw [callsOf_single e single, ← run_indifferent passive he runner]
    rfl
  | block steps ih =>
    have each := arePassive_iff.mp passive
    have begun : IsPassive (e.after [.beginBatch]) := by
      rw [after_begin]
      exact he
    have inside := callsOfSteps_state (fun c hc e he => ih c hc (each c hc) he) each begun
    have still := (obeyAll_indifferent (fun c hc => obey_indifferent (each c hc)) _ begun
      runner runner).2
    have made : e.after (callsOf e (.withBatch steps)) =
        ((e.after [.beginBatch]).after (callsOfSteps (e.after [.beginBatch]) steps)).after
          [.endBatch] := by
      rw [callsOf, ← List.singleton_append, after_append, after_append]
    have finish : ∀ {t : Editor}, t.IsPassive →
        t.after [.endBatch] = ((endBatch runner).run.run t).2 := fun {t} ht =>
      (congrArg Prod.snd (run_indifferent (c := .endBatch) trivial ht runner)).trans
        (run_map_state ..)
    rw [made, ← inside, finish still, obey, bind_pure_comp, run_map_state, within_state]

/-- Commands leave what their calls leave. -/
theorem after_unrolled {cs : List Command} (passive : ∀ c ∈ cs, c.IsPassive) {e : Editor}
    (he : e.IsPassive) : e.after (unrolled e cs) = e.after cs := by
  induction cs generalizing e with
  | nil => rfl
  | cons c cs ih =>
    have alone := passive c List.mem_cons_self
    have first : e.after (callsOf e c) = e.after [c] := by
      rw [← callsOf_state (replies 0) alone he, ← run_indifferent alone he]
      rfl
    have still : IsPassive (e.after [c]) := by
      rw [after_single]
      exact (obey_indifferent alone e he _ (replies 0)).2
    have rest := ih (fun c' hc' => passive c' (List.mem_cons_of_mem c hc')) still
    rw [unrolled, after_append, first, rest]
    rfl

theorem forall_callsOfSteps {P : Command → Prop} {cs : List Command}
    (h : ∀ c ∈ cs, ∀ e, ∀ c' ∈ callsOf e c, P c') (e : Editor) :
    ∀ c' ∈ callsOfSteps e cs, P c' := by
  induction cs generalizing e with
  | nil => exact fun _ none => absurd none List.not_mem_nil
  | cons c cs ih =>
    rw [callsOfSteps, List.forall_mem_append]
    refine ⟨h c List.mem_cons_self e, ?_⟩
    split
    · exact ih (fun c' hc' => h c' (List.mem_cons_of_mem c hc')) _
    · exact fun _ none => absurd none List.not_mem_nil

/-- The calls of a command are single, and bring in nobody who has a command run. -/
theorem callsOf_plain {c : Command} (passive : c.IsPassive) (e : Editor) :
    ∀ c' ∈ callsOf e c, c'.IsSingle ∧ c'.IsPassive := by
  induction c using Command.by_blocks generalizing e with
  | single c single =>
    rw [callsOf_single e single]
    simpa using ⟨single, passive⟩
  | block steps ih =>
    have each := arePassive_iff.mp passive
    rw [callsOf, List.forall_mem_cons, List.forall_mem_append, List.forall_mem_singleton]
    exact ⟨⟨trivial, trivial⟩, forall_callsOfSteps (fun c hc e => ih c hc (each c hc) e) _,
      trivial, trivial⟩

theorem unrolled_plain {cs : List Command} (passive : ∀ c ∈ cs, c.IsPassive) (e : Editor) :
    ∀ c' ∈ unrolled e cs, c'.IsSingle ∧ c'.IsPassive := by
  induction cs generalizing e with
  | nil => exact fun _ none => absurd none List.not_mem_nil
  | cons c cs ih =>
    rw [unrolled, List.forall_mem_append]
    exact ⟨callsOf_plain (passive c List.mem_cons_self) e,
      ih (fun c' hc' => passive c' (List.mem_cons_of_mem c hc')) _⟩

/-- Batches survive whatever fails in them, among listeners that watch, leave or fail. Commands come
down to calls, and are calls where there are no blocks. A call that neither begins nor ends a batch
leaves the depth of batches as it was. Outside of batches nothing is kept back. In batches, all that
has been changed since they began is kept back, in order, and nobody has heard anything; the end of
the last one tells of it in one event, if there is something to tell, and keeps nothing back. -/
theorem batches_survive_failures (d : Diagram) {cs : List Command}
    (passive : ∀ c ∈ cs, c.IsPassive) :
    let e := (ofDiagram d).after cs
    let calls := unrolled (ofDiagram d) cs
    ((∀ c ∈ calls, c.IsSingle) ∧ ((∀ c ∈ cs, c.IsSingle) → calls = cs) ∧
      (ofDiagram d).after calls = e) ∧
    (∀ c : Command, c.IsSingle → c.IsPassive → c ≠ .beginBatch → c ≠ .endBatch →
      (e.after [c]).content.depth = e.content.depth) ∧
    (e.content.depth = 0 → e.content.buffered = []) ∧
    (0 < e.content.depth → ∃ before inside, calls = before ++ .beginBatch :: inside ∧
      DeepSince d before inside ∧
      e.content.journal = ((ofDiagram d).after before).content.journal ++ e.content.buffered ∧
      e.delivered = ((ofDiagram d).after before).delivered ∧
      (e.content.depth = 1 →
        (e.after [.endBatch]).content = { e.content with depth := 0, buffered := [] } ∧
        (e.after [.endBatch]).delivered = e.delivered ++
          deliveries (e.hearing e.subscribed) (batch? e.content.buffered))) := by
  intro e calls
  have nobody : (ofDiagram d).IsPassive := fun _ none => absurd none List.not_mem_nil
  have plain := unrolled_plain passive (ofDiagram d)
  have same : (ofDiagram d).after calls = e := after_unrolled passive nobody
  have stood : Stands d calls := stands d (fun c hc => (plain c hc).1) fun c hc => (plain c hc).2
  have still : e.IsPassive := same ▸ stood.passive
  refine ⟨⟨fun c hc => (plain c hc).1, unrolled_single _, same⟩, fun c single passive begins ends =>
    (after_other still single passive begins ends).depth, same ▸ stood.idle, fun deep => ?_⟩
  obtain ⟨before, inside, whole, since, log, quiet⟩ := stood.kept (same.symm ▸ deep)
  rw [same] at log quiet
  refine ⟨before, inside, whole, since, log, quiet, fun one => ?_⟩
  obtain ⟨_, content, delivered⟩ := after_end still
  rw [if_pos one] at content delivered
  rw [content, delivered, one]
  exact ⟨rfl, rfl⟩

/-- A batch in a batch, among one listener that watches and one that fails. The first node is told
of before the batches, and adding it fails for that; adding the second one twice fails as well. -/
def disturbed : List Command := [
  .subscribe "watcher" .watch,
  .subscribe "failing" .fail,
  .subscribe "silent" .watch,
  .addNode (.bare (.text "A")),
  .endBatch,
  .beginBatch,
  .addNode (.bare (.text "B")),
  .beginBatch,
  .addNode (.bare (.text "B")),
  .withBatch [.removeNode (.text "A"), .addNode (.bare (.text "B")), .clear],
  .endBatch]

theorem disturbed_batches_survive :
    let e := (ofDiagram .empty).after disturbed
    e.content.buffered = [.nodeAdded (.bare (.text "B")), .nodeRemoved (.bare (.text "A"))] ∧
      (e.after [.endBatch]).content.depth = 0 ∧
      (e.after [.endBatch]).delivered = e.delivered ++
        deliveries ["watcher".toList, "failing".toList] (batch? e.content.buffered) := by
  have passive : ∀ c ∈ disturbed, c.IsPassive := by
    simp [disturbed, Command.IsPassive, Command.arePassive, Reaction.IsPassive]
  have kept : ((ofDiagram .empty).after disturbed).content.buffered =
      [.nodeAdded (.bare (.text "B")), .nodeRemoved (.bare (.text "A"))] := by decide +kernel
  have one : ((ofDiagram .empty).after disturbed).content.depth = 1 := by decide +kernel
  have hears : ((ofDiagram .empty).after disturbed).hearing
      ((ofDiagram .empty).after disturbed).subscribed =
        ["watcher".toList, "failing".toList] := by decide +kernel
  have survives := (batches_survive_failures .empty passive).2.2.2
  generalize (ofDiagram .empty).after disturbed = e at kept one hears survives ⊢
  obtain ⟨_, _, _, _, _, _, told⟩ := survives (one ▸ Nat.one_pos)
  obtain ⟨content, delivered⟩ := told one
  exact ⟨kept, by rw [content], hears ▸ delivered⟩

end Editor
end Flowchart
