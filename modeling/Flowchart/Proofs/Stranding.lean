import Flowchart.Proofs.Telling

/-! Subgraphs of diagrams that name what is not there. Plain data may list members that are no
nodes, and parents that are no subgraphs. An edit of subgraphs does not look all of them up before
it begins to move members, and so there are calls that fail when some members have moved already. It
is said here which these are; all others that fail do so before they do anything. -/
namespace Flowchart
open Action Progress

/-- An action that only looks ends as it is seen to end when it is run. -/
theorem Action.Guards.seen {σ α : Type} {a : Action σ α} {s : σ} {C : α → Prop}
    (h : a.Guards s C) : a.Ends s (fun x t => (t = s ∧ C x) ∧ (a.run.run s).1 = .ok x)
      fun f t => t = s ∧ (a.run.run s).1 = .error f := by
  unfold Guards Ends at *
  cases result : (a.run.run s).1 with
  | ok x =>
    simp only [result] at h ⊢
    exact ⟨h, trivial⟩
  | error f =>
    simp only [result] at h ⊢
    exact ⟨h, trivial⟩

namespace Diagram

/-- Entries of plain data are put one after another, and their keys are looked at first. -/
theorem entries_indexed {α : Type} [Keyed α Value] {read : Value → Except Error α} {v : Value}
    {xs : List α} (made : entries read v = .ok xs) :
    (Keyed.keys xs).Nodup ∧ ∀ x ∈ xs, (Keyed.key x).isSimple := by
  obtain ⟨items, _, made⟩ := bind_eq_ok.mp made
  refine foldlM_inv (P := fun xs : List α => (Keyed.keys xs).Nodup ∧
    ∀ x ∈ xs, (Keyed.key x).isSimple) ?_ ⟨by exact List.nodup_nil, by simp⟩ made
  rintro found item found' _ ⟨once, simple⟩ step
  simp only [bind_eq_ok, pure_eq_ok] at step
  obtain ⟨x, _, _, looked, rfl⟩ := step
  refine ⟨Keyed.nodup_keys_put once x, fun y hy => ?_⟩
  rcases Keyed.mem_put hy with rfl | old
  · rw [Value.simple] at looked
    split at looked
    · assumption
    · cases looked
  · exact simple y old

/-- Whatever plain data names, what it holds has an id that it can be looked up by. -/
theorem indexed_ofData {v : Value} {d : Diagram} (made : ofData v = .ok d) : d.Indexed := by
  simp only [ofData, bind_eq_ok, pure_eq_ok] at made
  obtain ⟨fs, _, direction, _, nodes, hn, edges, he, subgraphs, hg, classes, _, rfl⟩ := made
  obtain ⟨nodes_once, nodes_simple⟩ := entries_indexed hn
  exact ⟨⟨nodes_once, (entries_indexed he).1, (entries_indexed hg).1⟩,
    ⟨nodes_simple, fun _ _ => trivial, fun _ _ => trivial, trivial⟩⟩

end Diagram

namespace Edit

/-! ### Members that move one after another -/

/-- The first of the members can leave where it is, but not all of them can get where they are to
go. -/
def Strands (d : Diagram) (parent : Value) : List Value → Prop
  | [] => False
  | m :: ms => d.hasNode m ∧ (¬ CanJoin d parent ∨ ∃ k ∈ ms, ¬ d.hasNode k)

/-- More than a number of changes have been made. -/
def Told (n : Nat) (p : Progress) : Prop := n < p.changes.length

variable {p : Progress} {m parent : Value} {ms : List Value}

theorem change_keeps_told (n : Nat) (c : Change) : Keeps (Told n) (change c) := by
  intro q told
  rw [ends_change, Told, make, List.length_append]
  exact Nat.lt_add_right _ told

/-- A member that leaves the subgraph which lists it makes a change. -/
theorem detach_tells {g : Subgraph} (there : g ∈ p.diagram.subgraphs) (listed : m ∈ g.members)
    {err : Error → Progress → Prop} :
    Ends (detach m) p (fun _ => Told p.changes.length) err := by
  simp only [detach, ends_bind, ends_diagram]
  have listing : g ∈ p.diagram.subgraphs.filter fun g => g.lists m :=
    List.mem_filter.mpr ⟨there, Subgraph.lists_iff.mpr listed⟩
  obtain ⟨k, ks, all⟩ := List.exists_cons_of_ne_nil (List.ne_nil_of_mem listing)
  rw [all]
  change Ends (change _ >>= fun _ => ks.forM _) p _ err
  rw [ends_bind, ends_change]
  have first : Told p.changes.length (p.make (.subgraphUpdated k (k.strike m))) := by
    rw [Told, make, List.length_append]
    exact Nat.lt_succ_self _
  have rest := keeps_forM (f := fun g : Subgraph => change (.subgraphUpdated g (g.strike m)))
    (fun g (_ : g ∈ ks) => change_keeps_told p.changes.length _) _ first
  have all_made : Ends (ks.forM fun g => change (.subgraphUpdated g (g.strike m)))
      (p.make (.subgraphUpdated k (k.strike m))) (fun _ _ => True) fun _ _ => False :=
    changes_succeed ks
  exact (all_made.and rest).imp (fun _ _ ht => ht.2) fun _ _ ht => ht.1.elim

/-- A node that moves leaves the subgraph which lists it, whether it gets anywhere or not. -/
theorem move_tells (can : CanMove p.diagram m) {g : Subgraph} (there : g ∈ p.diagram.subgraphs)
    (listed : m ∈ g.members) : Leaves (move m parent) p (Told p.changes.length) := by
  simp only [Leaves, move, ends_bind, ends_checkId, ends_diagram, can.1, if_true]
  obtain ⟨n, found⟩ : ∃ n, p.diagram.node? m = some n :=
    Option.isSome_iff_exists.mp (Keyed.isSome_find?.trans can.2)
  simp only [found, ends_bind]
  refine (detach_tells there listed).imp (fun _ q told => ?_) fun _ _ => id
  refine (attachIfAny_keeps (change_keeps_told _) m parent q told).imp (fun _ r told => ?_)
    fun _ _ => id
  split
  · exact told
  · exact change_keeps_told _ _ r told

theorem move_lost (lost : ¬ p.diagram.hasNode m) :
    Ends (move m parent) p (fun _ _ => False) fun _ q => q = p := by
  have none_there : p.diagram.node? m = none :=
    Option.not_isSome_iff_eq_none.mp fun found => lost (Keyed.isSome_find?.symm.trans found)
  simp only [move, ends_bind, ends_checkId, ends_diagram, none_there]
  split
  · rfl
  · trivial

theorem attachIfAny_blocked (blocked : ¬ CanJoin p.diagram parent) :
    Ends (attachIfAny m parent) p (fun _ _ => False) fun _ _ => True := by
  obtain ⟨some_parent, cannot⟩ := Classical.not_imp.mp blocked
  simp only [attachIfAny, some_parent, if_false, attach, ends_bind, ends_checkId, ends_diagram]
  split
  · rename_i simple
    have none_there : p.diagram.subgraph? parent = none :=
      Option.not_isSome_iff_eq_none.mp fun found =>
        cannot ⟨simple, Keyed.isSome_find?.symm.trans found⟩
    rw [none_there]
    trivial
  · trivial

/-- A node that has nowhere to go does not get there. -/
theorem move_blocked (distinct : p.diagram.Distinct) (blocked : ¬ CanJoin p.diagram parent) :
    Ends (move m parent) p (fun _ _ => False) fun _ _ => True := by
  simp only [move, ends_bind, ends_checkId, ends_diagram]
  split
  · split
    · trivial
    · simp only [ends_bind]
      refine (detach_ends distinct).imp ?_ fun _ _ => id
      rintro _ q ⟨_, detached⟩
      refine (attachIfAny_blocked fun can => blocked fun some_parent => ?_).imp
        (fun _ _ => False.elim) fun _ _ => id
      refine ⟨(can some_parent).1, ?_⟩
      rw [← Diagram.hasSubgraph_mapSubgraphs fun g => g.id_strike m, ← detached]
      exact (can some_parent).2
  · trivial

/-- Members are not all moved if there is one that is no node. -/
theorem moves_lost (distinct : p.diagram.Distinct) (lost : ∃ k ∈ ms, ¬ p.diagram.hasNode k) :
    Ends (ms.forM fun m => move m parent) p (fun _ _ => False) fun _ _ => True := by
  induction ms generalizing p with
  | nil => simp at lost
  | cons m ms ih =>
    change Ends (move m parent >>= fun _ => ms.forM _) p _ _
    rw [ends_bind]
    by_cases here : p.diagram.hasNode m
    · refine (move_ends distinct).imp ?_ fun _ _ _ => trivial
      rintro _ q ⟨leads, n, known, placed⟩
      refine ih leads.distinct ?_
      obtain ⟨k, hk, lost⟩ := lost
      rcases List.mem_cons.mp hk with rfl | hk
      · exact absurd here lost
      · refine ⟨k, hk, fun there => lost ?_⟩
        rw [placed, Diagram.hasNode, Diagram.nodes_place distinct known] at there
        refine (Keyed.has_eq_keys (Keyed.keys_map (fun k => ?_) _)).symm.trans there
        split <;> rfl
    · exact (move_lost here).imp (fun _ _ => False.elim) fun _ _ _ => trivial

/-- Stranded members are left half-way. -/
theorem Strands.fails (strands : Strands p.diagram parent ms) (indexed : p.diagram.Indexed)
    (listed : ∀ m ∈ ms, ∃ g ∈ p.diagram.subgraphs, m ∈ g.members) :
    Ends (ms.forM fun m => move m parent) p (fun _ _ => False) fun _ => Told p.changes.length := by
  cases ms with
  | nil => exact strands.elim
  | cons m ms =>
    obtain ⟨here, stranded⟩ := strands
    obtain ⟨g, there, in_g⟩ := listed m List.mem_cons_self
    have told : Leaves ((m :: ms).forM fun m => move m parent) p (Told p.changes.length) := by
      change Ends (move m parent >>= fun _ => ms.forM _) p _ _
      rw [ends_bind]
      refine (move_tells (indexed.canMove here) there in_g).imp (fun _ q told => ?_) fun _ _ => id
      exact moves_keep (change_keeps_told _) ms parent q told
    have fails : Ends ((m :: ms).forM fun m => move m parent) p (fun _ _ => False)
        fun _ _ => True := by
      rcases stranded with blocked | ⟨k, hk, lost⟩
      · change Ends (move m parent >>= fun _ => ms.forM _) p _ _
        rw [ends_bind]
        exact (move_blocked indexed.distinct blocked).imp (fun _ _ => False.elim) fun _ _ => id
      · exact moves_lost indexed.distinct ⟨k, List.mem_cons_of_mem m hk, lost⟩
    exact (fails.and told).imp (fun _ _ ht => ht.1) fun _ _ ht => ht.2

/-- Members that are not stranded all move, or none does. -/
theorem moves_unstranded (free : ¬ Strands p.diagram parent ms) (indexed : p.diagram.Indexed) :
    Ends (ms.forM fun m => move m parent) p
      (fun _ q => q.diagram.Distinct ∧ q.diagram.nesting = p.diagram.nesting ∧
        ∀ m, CanMove p.diagram m → CanMove q.diagram m) fun _ q => q = p := by
  cases ms with
  | nil => exact ⟨indexed.distinct, rfl, fun _ => id⟩
  | cons m ms =>
    by_cases here : p.diagram.hasNode m
    · have free : ¬ (¬ CanJoin p.diagram parent ∨ ∃ k ∈ ms, ¬ p.diagram.hasNode k) :=
        fun stranded => free ⟨here, stranded⟩
      push Not at free
      have every : ∀ k ∈ m :: ms, CanMove p.diagram k := List.forall_mem_cons.mpr
        ⟨indexed.canMove here, fun k hk => indexed.canMove (free.2 k hk)⟩
      exact (moves_succeed indexed.distinct free.1 every).imp (fun _ _ ht => ht)
        fun _ _ => False.elim
    · change Ends (move m parent >>= fun _ => ms.forM _) p _ _
      rw [ends_bind]
      exact (move_lost here).imp (fun _ _ => False.elim) fun _ _ => id

/-! ### Edits of subgraphs -/

/-- The edit fails half-way exactly if something is so. Otherwise it fails only before it changes
anything. -/
def SticksIf {α : Type} (edit : Edit α) (p : Progress) (S : Prop) : Prop :=
  (S → Ends edit p (fun _ _ => False) fun _ => Told p.changes.length) ∧
    (¬ S → Ends edit p (fun _ _ => True) fun _ q => q.diagram = p.diagram ∧ q.changes = p.changes)

/-- What a change of a subgraph finds out before it changes anything: which members are to leave,
which are to come, and what happens to the other fields. It finds nothing where there is no such
subgraph. -/
def planned (id : Value) (changes : Fields) :
    Edit (Option (List Value × List Value × (Subgraph → Subgraph))) := do
  checkNames .subgraph changes
  checkId id
  match (← diagram).subgraph? id with
  | none => return none
  | some g =>
    checkFields .subgraph (Keyed.keys Subgraph.setters) id changes
    checkNesting id ((changes.get? "parent_id").getD g.parent)
    let members := changes.get "node_ids"
    let incoming ← ofExcept (if members = .null then .ok [] else members.parts)
    checkMembers incoming
    let set ← ofExcept (setAll Subgraph.setters (changes.filter fun c => c.1 != "node_ids".toList))
    let outgoing ← ofExcept (if members = .null then .ok [] else leaving g members)
    return some (outgoing, incoming, set)

theorem updateSubgraph_eq (id : Value) (changes : Fields) : updateSubgraph id changes = (do
    match ← planned id changes with
    | none => return none
    | some (outgoing, incoming, set) =>
      refill id (changes.filter fun c => c.1 != "node_ids".toList) set outgoing incoming) := by
  unfold updateSubgraph planned
  simp only [bind_assoc]
  refine bind_congr fun _ => bind_congr fun _ => bind_congr fun d => ?_
  cases d.subgraph? id with
  | none => rfl
  | some g =>
    simp only [bind_assoc]
    refine bind_congr fun _ => bind_congr fun _ => ?_
    by_cases none_given : changes.get "node_ids" = .null
    · simp only [none_given, if_true, pure_bind]
      rfl
    · simp only [none_given, if_false, pure_bind]
      rfl

/-- The removal of the subgraph fails half-way. -/
def StrandsRemoval (d : Diagram) (id : Value) : Prop :=
  id.isSimple ∧ ∃ g, d.subgraph? id = some g ∧ Strands d g.parent g.members

/-- The change of the subgraph fails half-way. -/
def StrandsUpdate (d : Diagram) (id : Value) (changes : Fields) : Prop :=
  ∃ outgoing incoming set,
    ((planned id changes).run.run { diagram := d }).1 = .ok (some (outgoing, incoming, set)) ∧
      Strands d .null outgoing

theorem removeSubgraph_sticks (indexed : p.diagram.Indexed) (id : Value) :
    SticksIf (removeSubgraph id) p (StrandsRemoval p.diagram id) := by
  constructor
  · rintro ⟨simple, g, found, strands⟩
    simp only [removeSubgraph, ends_bind, ends_checkId, ends_diagram, simple, if_true, found,
      ends_group]
    have listed : ∀ m ∈ g.members, ∃ k ∈ p.diagram.subgraphs, m ∈ k.members := fun m hm =>
      ⟨g, Keyed.mem_of_find? found, hm⟩
    exact (strands.fails (p := { p with grouped := true }) indexed listed).imp
      (fun _ _ => False.elim) fun _ _ told => told
  · intro free
    simp only [removeSubgraph, ends_bind, ends_checkId, ends_diagram]
    split
    · rename_i simple
      split
      · trivial
      · rename_i g found
        simp only [ends_bind, ends_group, ends_diagram]
        refine (moves_unstranded (p := { p with grouped := true })
          (fun strands => free ⟨simple, g, found, strands⟩) indexed).imp (fun _ q _ => ?_) ?_
        · refine (changes_succeed _).imp (fun _ r _ => ?_) fun _ _ ht => ht
          split <;> trivial
        · rintro _ q rfl
          exact ⟨rfl, rfl⟩
    · exact ⟨trivial, trivial⟩

/-- Nothing changes when a change is planned. The members that are to leave are those of the
subgraph, and those that are to come are nodes. -/
theorem planned_guards (id : Value) (changes : Fields) :
    Guards (planned id changes) p fun plan => ∀ outgoing incoming set,
      plan = some (outgoing, incoming, set) → id.isSimple ∧ (∀ m ∈ incoming, p.diagram.hasNode m) ∧
        ∃ g, p.diagram.subgraph? id = some g ∧ ∀ m ∈ outgoing, m ∈ g.members := by
  refine (checkNames_guards ..).bind fun _ _ => (checkId_guards id).bind fun _ simple => ?_
  simp only [Guards, ends_bind, ends_diagram]
  split
  · exact ⟨rfl, fun _ _ _ none_planned => by cases none_planned⟩
  · rename_i g found
    refine (checkFields_guards ..).bind fun _ _ => (checkNesting_guards ..).bind fun _ _ => ?_
    refine (ofExcept_guards _).bind fun incoming _ => ?_
    refine (checkMembers_guards incoming).bind fun _ there => ?_
    refine (ofExcept_guards _).bind fun set _ => ?_
    refine (ofExcept_guards _).bind fun outgoing left => ⟨rfl, ?_⟩
    rintro _ _ _ ⟨⟩
    refine ⟨simple, there, g, found, fun m hm => ?_⟩
    split at left
    · rw [← Except.ok.inj left] at hm
      cases hm
    · exact mem_of_filterM left m hm

theorem updateSubgraph_sticks {d : Diagram} (indexed : d.Indexed) (id : Value) (changes : Fields) :
    SticksIf (updateSubgraph id changes) { diagram := d } (StrandsUpdate d id changes) := by
  rw [updateSubgraph_eq]
  have plans := Guards.seen (planned_guards (p := { diagram := d }) id changes)
  constructor
  · rintro ⟨outgoing, incoming, set, plan, strands⟩
    rw [ends_bind]
    refine plans.imp ?_ ?_
    · rintro _ _ ⟨⟨rfl, fine⟩, answer⟩
      obtain rfl := Except.ok.inj (answer.symm.trans plan)
      obtain ⟨simple, _, g, found, left⟩ := fine _ _ _ rfl
      simp only [refill, ends_bind, ends_group]
      have listed : ∀ m ∈ outgoing, ∃ k ∈ d.subgraphs, m ∈ k.members := fun m hm =>
        ⟨g, Keyed.mem_of_find? found, left m hm⟩
      exact (strands.fails (p := { diagram := d, grouped := true }) indexed listed).imp
        (fun _ _ => False.elim) fun _ _ told => told
    · rintro _ _ ⟨_, failed⟩
      cases failed.symm.trans plan
  · intro free
    rw [ends_bind]
    refine plans.imp ?_ ?_
    · rintro (none | ⟨outgoing, incoming, set⟩) _ ⟨⟨rfl, fine⟩, answer⟩
      · trivial
      · obtain ⟨simple, there, g, found, _⟩ := fine _ _ _ rfl
        simp only [refill, ends_bind, ends_group, ends_diagram]
        refine (moves_unstranded (p := { diagram := d, grouped := true })
          (fun strands => free ⟨outgoing, incoming, set, answer, strands⟩) indexed).imp ?_ ?_
        · rintro _ q ⟨distinct, nesting, still⟩
          have can : CanJoin d id := fun _ => ⟨simple, Keyed.has_of_find? found⟩
          refine (moves_succeed distinct (can.congr nesting) fun m hm =>
            still m (indexed.canMove (there m (List.mem_eraseDups.mp hm)))).imp ?_
              fun _ _ => False.elim
          rintro _ r _
          split
          · trivial
          · split <;> trivial
        · rintro _ q rfl
          exact ⟨rfl, rfl⟩
    · rintro _ _ ⟨rfl, _⟩
      exact ⟨rfl, rfl⟩

end Edit

/-- Is it an edit of subgraphs? -/
def Command.EditsSubgraphs : Command → Prop
  | .addSubgraph _ | .updateSubgraph _ _ | .removeSubgraph _ => True
  | _ => False

/-- The command fails half-way when it is carried out on the diagram. A new subgraph is looked at
as a whole before anything moves into it. -/
def Command.Strands (d : Diagram) : Command → Prop
  | .updateSubgraph id changes => Edit.StrandsUpdate d id changes
  | .removeSubgraph id => Edit.StrandsRemoval d id
  | _ => False

namespace Editor

/-! ### What cannot be taken back -/

/-- These changes were made, and these events were delivered. -/
structure Remembers (js : List Change) (ds : List (Text × Event)) (e : Editor) : Prop where
  changes : js <+: e.content.journal
  events : ds <+: e.delivered

section Remembers
variable {js : List Change} {ds : List (Text × Event)} {run : Runner} {e : Editor}

theorem deliver_remembers (h : ∀ c, Keeps (Remembers js ds) (run c)) (event : Event)
    (names : List Text) : Keeps (Remembers js ds) (Emitter.deliver run event names) :=
  deliver_keeps (fun _ _ he => ⟨he.changes, he.events.trans (List.prefix_append ..)⟩)
    (fun _ _ he => ⟨he.changes, he.events⟩)
    (fun _ _ c he _ _ => ⟨⟨he.changes, he.events⟩, h c⟩) names

theorem emit_remembers (h : ∀ c, Keeps (Remembers js ds) (run c)) (event : Event) :
    Keeps (Remembers js ds) (Emitter.emit run event) := by
  intro e he
  simp only [Emitter.emit, ends_bind, ends_get]
  exact deliver_remembers h event _ e he

theorem remembers_upheld (h : ∀ c, True → Keeps (Remembers js ds) (run c)) :
    Upholds (Remembers js ds) run (fun _ _ => True) fun _ => True where
  makes := by constructor <;> exact fun _ => trivial
  withBatch _ _ _ := trivial
  perform edit _ := perform_keeps
    (fun _ he => ⟨he.changes.trans (List.prefix_append ..), he.events⟩)
    (publish_keeps (emit_remembers fun c => h c trivial) fun _ _ he _ => ⟨he.changes, he.events⟩)
  define _ _ he := ⟨he.changes.trans (List.prefix_append ..), he.events⟩
  undefine _ _ he := ⟨he.changes.trans (List.prefix_append ..), he.events⟩
  begin _ he := ⟨he.changes, he.events⟩
  finish := by
    intro e he
    simp only [endBatch, ends_bind, ends_get, ends_onBoard]
    split
    · simp only [ends_bind, ends_onBoard]
      exact emit_remembers (fun c => h c trivial) _ _ ⟨he.changes, he.events⟩
    · exact ⟨he.changes, he.events⟩
  subscribe _ _ he := ⟨he.changes, he.events⟩
  unsubscribe _ _ he := ⟨he.changes, he.events⟩
  unsubscribeAll _ _ he := ⟨he.changes, he.events⟩

/-- Whatever listeners have run, nothing is forgotten. -/
theorem replies_remember (depth : Nat) (c : Command) :
    Keeps (Remembers js ds) (replies depth c) :=
  replies_keeps (fun _ h => remembers_upheld h) depth c trivial

theorem publish_remembers (n : Nat) (changes : List Change) (grouped : Bool) :
    Keeps (Remembers js ds) (publish (replies n) changes grouped) :=
  publish_keeps (emit_remembers (replies_remember n)) (fun _ _ he _ => ⟨he.changes, he.events⟩)
    changes grouped

/-- Somebody hears of an event if anybody listens. -/
theorem emit_heard (heeded : e.subscribed ≠ []) (n : Nat) (event : Event) :
    Leaves (Emitter.emit (replies n) event) e
      fun t => ∃ d, Remembers e.content.journal (e.delivered ++ [d]) t := by
  obtain ⟨name, names, all⟩ := List.exists_cons_of_ne_nil heeded
  simp only [Leaves, Emitter.emit, ends_bind, ends_get, all]
  have told : Remembers e.content.journal (e.delivered ++ [(name, event)]) (e.heard name event) :=
    ⟨List.prefix_rfl, List.prefix_rfl⟩
  refine (deliver_first (fun _ _ he => ⟨he.changes, he.events⟩)
    (fun _ _ c he _ _ => ⟨⟨he.changes, he.events⟩, replies_remember n c⟩) told
    (deliver_remembers (replies_remember n) event names)).mono ?_
  exact fun _ ht => ⟨_, ht⟩

/-- Where no batch has begun, somebody hears of changes if anybody listens. -/
theorem publish_heard (heeded : e.subscribed ≠ []) (shallow : e.content.depth = 0) (n : Nat)
    {changes : List Change} (some_change : changes ≠ []) (grouped : Bool) :
    Leaves (publish (replies n) changes grouped) e
      fun t => ∃ d, Remembers e.content.journal (e.delivered ++ [d]) t := by
  obtain ⟨c, cs, rfl⟩ := List.exists_cons_of_ne_nil some_change
  simp only [Leaves, publish, ends_bind, ends_get, shallow, Nat.lt_irrefl, if_false]
  split
  · exact emit_heard heeded n _
  · change Ends (Emitter.emit _ _ >>= fun _ => cs.forM _) e _ _
    rw [ends_bind]
    refine (emit_heard heeded n _).imp (fun _ t ht => ?_) fun _ _ => id
    obtain ⟨d, told⟩ := ht
    exact (keeps_forM (fun k _ => emit_remembers (replies_remember n) (.single k)) t told).imp
      (fun _ _ hu => ⟨d, hu⟩) fun _ _ hu => ⟨d, hu⟩

end Remembers

/-- Something was changed between the first state and the second. If anybody listened and no batch
had begun, somebody has heard of it. -/
structure Stirs (e t : Editor) : Prop where
  changes : ∃ c, e.content.journal ++ [c] <+: t.content.journal
  events : e.content.depth = 0 → e.subscribed ≠ [] → ∃ d, e.delivered ++ [d] <+: t.delivered

section Perform
variable {e : Editor} {α : Type} {edit : Edit α} {S : Prop}

/-- To tell what an edit has changed leaves it changed. -/
theorem publish_stirs {q : Progress} (told : Edit.Told 0 q) :
    Leaves (publish (replies e.due) q.changes q.grouped) (e.afterEdit q) (Stirs e) := by
  obtain ⟨c, cs, made⟩ := List.exists_cons_of_ne_nil (List.length_pos_iff.mp told)
  have longer : e.content.journal ++ [c] <+: (e.afterEdit q).content.journal :=
    ⟨cs, by simp only [afterEdit, made, List.append_assoc, List.singleton_append]⟩
  by_cases open_ear : e.content.depth = 0 ∧ e.subscribed ≠ []
  · refine (publish_heard (e := e.afterEdit q) open_ear.2 open_ear.1 e.due
      (List.length_pos_iff.mp told) q.grouped).mono ?_
    rintro t ⟨d, ht⟩
    exact ⟨⟨c, longer.trans ht.changes⟩, fun _ _ => ⟨d, ht.events⟩⟩
  · have keeps : Keeps (Remembers (e.afterEdit q).content.journal [])
        (publish (replies e.due) q.changes q.grouped) :=
      publish_remembers e.due q.changes q.grouped
    refine Leaves.mono (keeps (e.afterEdit q) ⟨List.prefix_rfl, List.nil_prefix⟩) fun t ht => ?_
    exact ⟨⟨c, longer.trans ht.changes⟩, fun shallow heeded => absurd ⟨shallow, heeded⟩ open_ear⟩

/-- An edit that fails half-way has been told so far. -/
theorem perform_stirs (fails : Ends edit e.opening (fun _ _ => False) fun _ => Edit.Told 0) :
    Ends (perform (replies e.due) edit) e (fun _ _ => False) fun _ => Stirs e := by
  simp only [perform, ends_bind, ends_enact, ends_get]
  unfold Ends at fails
  cases result : (edit.run.run e.opening).1 with
  | ok x =>
    simp only [result] at fails
  | error failure =>
    simp only [result] at fails
    exact (publish_stirs fails).imp (fun _ _ ht => ht) fun _ _ => id

theorem perform_unstranded (sticks : Edit.SticksIf edit e.opening S) (free : ¬ S)
    (tells : e.Tells edit fun _ _ => True) :
    Ends (perform (replies e.due) edit) e (fun _ _ => True) fun _ t => t = e :=
  (perform_clean (fun _ => True) (sticks.2 free) tells).imp (fun _ _ _ => trivial) fun _ _ => id

/-- A command that strands fails when something has been changed. -/
theorem run_stranded (indexed : e.diagram.Indexed) {c : Command} (strands : c.Strands e.diagram) :
    Ends (Editor.run c) e (fun _ _ => False) fun _ => Stirs e := by
  rw [Editor.run, ends_bind, ends_get]
  cases c with
  | updateSubgraph id changes =>
    simp only [obey, updateSubgraph, ends_bind, ends_pure]
    exact perform_stirs ((Edit.updateSubgraph_sticks indexed id changes).1 strands)
  | removeSubgraph id =>
    simp only [obey, removeSubgraph, ends_bind, ends_pure]
    exact perform_stirs ((Edit.removeSubgraph_sticks (p := e.opening) indexed id).1 strands)
  | _ => exact strands.elim

/-- Another command that edits subgraphs fails only before it does anything. -/
theorem run_unstranded (indexed : e.diagram.Indexed) {c : Command} (edits : c.EditsSubgraphs)
    (free : ¬ c.Strands e.diagram) (hears : e.Hears c) :
    Ends (Editor.run c) e (fun _ _ => True) fun _ t => t = e := by
  rw [Editor.run, ends_bind, ends_get]
  cases c with
  | addSubgraph g => exact obey_addSubgraph indexed g hears
  | updateSubgraph id changes =>
    simp only [obey, updateSubgraph, Hears, ends_bind, ends_pure] at hears ⊢
    exact perform_unstranded (Edit.updateSubgraph_sticks indexed id changes) free hears
  | removeSubgraph id =>
    simp only [obey, removeSubgraph, Hears, ends_bind, ends_pure] at hears ⊢
    exact perform_unstranded (Edit.removeSubgraph_sticks (p := e.opening) indexed id) free hears
  | _ => exact edits.elim

/-- The subgraphs of a diagram from plain data are edited, and no listener fails at what it hears. A
command that strands fails, and does so when something has been changed and told. Any other one that
fails leaves the whole editor as it was. -/
theorem subgraph_edits_strand {v : Value} (loaded : Diagram.ofData v = .ok e.diagram) {c : Command}
    (edits : c.EditsSubgraphs) (hears : e.Hears c) :
    (c.Strands e.diagram →
      (∃ failure, ((run c).run.run e).1 = .error failure) ∧ Stirs e ((run c).run.run e).2) ∧
    (¬ c.Strands e.diagram → ∀ failure, ((run c).run.run e).1 = .error failure →
      ((run c).run.run e).2 = e) := by
  have indexed := Diagram.indexed_ofData loaded
  constructor
  · intro strands
    have ends := run_stranded indexed strands
    unfold Ends at ends
    split at ends
    · exact ends.elim
    · rename_i failure failed
      exact ⟨⟨failure, failed⟩, ends⟩
  · intro free failure failed
    have ends := run_unstranded indexed edits free hears
    unfold Ends at ends
    rw [failed] at ends
    exact ends

/-- A subgraph of plain data that lists a node and something that is not there. -/
def haunted : Value := .record [
  ("nodes", .list [.record [("id", .text "A"), ("parent_id", .text "g")]]),
  ("subgraphs", .list [
    .record [("id", .text "g"), ("node_ids", .list [.text "A", .text "ghost"])]])]

/-- The diagram that the data holds. -/
def hauntedDiagram : Diagram where
  nodes := [{ Node.bare (.text "A") with parent := .text "g" }]
  subgraphs := [{ id := .text "g", title := .text "g", members := [.text "A", .text "ghost"] }]

/-- An editor of that diagram, with a listener. -/
def hauntedEditor : Editor := (ofDiagram hauntedDiagram).subscribe "listener" .watch

theorem haunted_calm : ∀ l ∈ hauntedEditor.known, l.reaction.IsCalm := by
  have known : hauntedEditor.known = [{ name := "listener", reaction := .watch }] := rfl
  rw [known]
  simp [Reaction.IsCalm]

/-- The subgraph is to go, and its members are to move out. -/
def haunting : Command := .removeSubgraph (.text "g")

/-- The subgraph is to keep what is not there. -/
def relisting : Command :=
  .updateSubgraph (.text "g") [("node_ids", .list [.text "ghost"])]

/-- The removal strands. A change that lists the ghost again fails too, and does nothing. -/
theorem haunted_edits_strand :
    (((run haunting).run.run hauntedEditor).1 = .error (.lostNode "ghost") ∧
      Stirs hauntedEditor ((run haunting).run.run hauntedEditor).2) ∧
    ((run relisting).run.run hauntedEditor).1 = .error (.missingNode .member "ghost") ∧
      ((run relisting).run.run hauntedEditor).2 = hauntedEditor := by
  have loaded : Diagram.ofData haunted = .ok hauntedEditor.diagram := rfl
  have hears : ∀ c, hauntedEditor.Hears c := hears_of_calm haunted_calm
  have fails : ((run haunting).run.run hauntedEditor).1 = .error (.lostNode "ghost") := rfl
  have missing : ((run relisting).run.run hauntedEditor).1 =
    .error (.missingNode .member "ghost") := rfl
  have removes : haunting.EditsSubgraphs := trivial
  have updates : relisting.EditsSubgraphs := trivial
  refine ⟨⟨fails, ?_⟩, missing, ?_⟩
  · refine ((subgraph_edits_strand loaded removes (hears haunting)).1 ?_).2
    exact ⟨rfl, _, rfl, rfl, .inr ⟨.text "ghost", List.mem_cons_self, by decide⟩⟩
  · refine (subgraph_edits_strand loaded updates (hears relisting)).2 ?_ _ missing
    rintro ⟨_, _, _, plan, _⟩
    cases plan

/-- When the removal has failed, the subgraph has lost its node and has told so. -/
theorem haunted_removal_leaves_traces :
    Diagram.ofData haunted = .ok hauntedEditor.diagram ∧ hauntedEditor.Hears haunting ∧
      ((run haunting).run.run hauntedEditor).1 = .error (.lostNode "ghost") ∧
      hauntedEditor.diagram.nodes.map Node.parent = [.text "g"] ∧
      ((run haunting).run.run hauntedEditor).2.diagram.nodes.map Node.parent = [.null] ∧
      hauntedEditor.delivered = [] ∧
      ((run haunting).run.run hauntedEditor).2.delivered.length = 1 :=
  ⟨rfl, trivial, rfl, rfl, rfl, rfl, rfl⟩

end Perform

end Editor
end Flowchart
