import Flowchart.Proofs.Assigning

/-! The search for cycles as a loop. From the parent that a subgraph is to get the loop climbs from
parent to parent, notes what it has met, and stops before it comes anywhere again; nothing else
bounds it. However the parents lead, it comes to an end after as many turns as there are subgraphs
and two more at most, and it finds the subgraph exactly if the way up leads there. In a diagram
without cycles a new parent makes one exactly if the change is refused for it. -/
namespace Flowchart
open Action Relation

namespace Diagram
variable {d : Diagram} {id parent a b : Value} {g : Subgraph}

/-- The subgraph around one, or null where there is none or no such subgraph. -/
def parentOf (d : Diagram) (id : Value) : Value :=
  match d.subgraph? id with
  | some g => g.parent
  | none => .null

theorem under_iff_parentOf : d.Under a b ↔ d.parentOf a = b ∧ b ≠ .null := by
  unfold Under parentOf
  constructor
  · rintro ⟨g, found, up, some_parent⟩
    rw [found]
    exact ⟨up, some_parent⟩
  · rintro ⟨up, some_parent⟩
    split at up
    · rename_i g found
      exact ⟨g, found, up, some_parent⟩
    · exact absurd up.symm some_parent

/-- A climb through parents: what it has met, and where it is. -/
structure Climb where
  met : List Value := []
  here : Value

namespace Climb

/-- One turn of a climb that looks for a subgraph: it stops, with an answer or at something that
nothing can be looked up by, or it notes where it is and goes on from the parent. -/
def turn (d : Diagram) (id : Value) (c : Climb) : Except Error Bool ⊕ Climb :=
  if c.here = .null then .inl (.ok false)
  else if !c.here.isSimple then .inl (.error .wrongForm)
  else if c.here ∈ c.met then .inl (.ok false)
  else if c.here = id then .inl (.ok true)
  else .inr { met := c.here :: c.met, here := d.parentOf c.here }

/-- The climb stops with a result after a number of turns. -/
inductive Stops (d : Diagram) (id : Value) : Climb → Nat → Except Error Bool → Prop
  | now {c : Climb} {r : Except Error Bool} (last : c.turn d id = .inl r) : Stops d id c 1 r
  | later {c c' : Climb} {n : Nat} {r : Except Error Bool} (one : c.turn d id = .inr c')
      (rest : Stops d id c' n r) : Stops d id c (n + 1) r

variable {c c' : Climb} {r : Except Error Bool} {n : Nat}

theorem turn_on (h : c.turn d id = .inr c') :
    c.here ≠ .null ∧ c.here.isSimple ∧ c.here ∉ c.met ∧ c.here ≠ id ∧
      c' = { met := c.here :: c.met, here := d.parentOf c.here } := by
  unfold turn at h
  split at h
  · cases h
  · rename_i some_here
    split at h
    · cases h
    · rename_i fit
      split at h
      · cases h
      · rename_i new
        split at h
        · cases h
        · rename_i other
          exact ⟨some_here, by simpa using fit, new, other, (Sum.inr.inj h).symm⟩

/-- Why a climb stops. -/
theorem turn_stop (h : c.turn d id = .inl r) :
    (c.here = .null ∨ c.here ∈ c.met) ∧ r = .ok false ∨
    c.here.isSimple = false ∧ r = .error .wrongForm ∨
    c.here ≠ .null ∧ c.here = id ∧ r = .ok true := by
  unfold turn at h
  split at h
  · rename_i top
    exact .inl ⟨.inl top, (Sum.inl.inj h).symm⟩
  · rename_i some_here
    split at h
    · rename_i unfit
      exact .inr (.inl ⟨by simpa using unfit, (Sum.inl.inj h).symm⟩)
    · split at h
      · rename_i again
        exact .inl ⟨.inr again, (Sum.inl.inj h).symm⟩
      · split at h
        · rename_i found
          exact .inr (.inr ⟨some_here, found, (Sum.inl.inj h).symm⟩)
        · cases h

/-! ### The end of a climb -/

/-- The subgraphs that a climb has not met. -/
def left (d : Diagram) (c : Climb) : List Subgraph := d.subgraphs.filter (·.id ∉ c.met)

/-- A turn that comes to a subgraph leaves fewer of them. -/
theorem length_left_lt (new : c.here ∉ c.met) (found : d.subgraph? c.here = some g)
    (parent : Value) :
    (left d { met := c.here :: c.met, here := parent }).length < (left d c).length := by
  have here : g.id = c.here := Keyed.key_of_find? found
  have there : g ∈ left d c :=
    List.mem_filter.mpr ⟨Keyed.mem_of_find? found, by simpa [here] using new⟩
  have fewer : left d { met := c.here :: c.met, here := parent } =
      (left d c).filter (·.id ≠ c.here) := by
    simp only [left, List.filter_filter, List.mem_cons, not_or, ← Bool.decide_and]
  rw [fewer]
  exact List.length_filter_lt_length_iff_exists.mpr ⟨g, there, by simp [here]⟩

/-- A climb stops. It takes one turn for each subgraph that it comes to, and one or two at a place
that is none. -/
theorem exists_stops (d : Diagram) (id : Value) (c : Climb) :
    ∃ n r, n ≤ (left d c).length + 2 ∧ Stops d id c n r := by
  induction hl : (left d c).length using Nat.strongRecOn generalizing c with
  | _ l ih =>
    cases one : c.turn d id with
    | inl r => exact ⟨1, r, by omega, .now one⟩
    | inr c' =>
      obtain ⟨_, _, new, _, rfl⟩ := turn_on one
      cases found : d.subgraph? c.here with
      | some g =>
        have fewer := length_left_lt new found (d.parentOf c.here)
        obtain ⟨n, r, few, rest⟩ := ih _ (hl ▸ fewer) _ rfl
        exact ⟨n + 1, r, by omega, .later one rest⟩
      | none =>
        have top : d.parentOf c.here = .null := by rw [parentOf, found]
        exact ⟨2, .ok false, by omega, .later one (.now (by rw [turn, if_pos top]))⟩

/-! ### The answer of a climb -/

/-- What a climb knows on its way from a start: it has met what it can be looked up by and is not
the one it looks for, and from there it has gone on. -/
structure Knows (d : Diagram) (id start : Value) (c : Climb) : Prop where
  started : start ∈ c.met ∨ c.here = start
  way : c.here ≠ .null → ReflTransGen d.Under start c.here
  other : id ∉ c.met
  fit : ∀ v ∈ c.met, v.isSimple
  onward : ∀ v ∈ c.met, ∀ w, d.Under v w → w ∈ c.met ∨ w = c.here

theorem knows_start (d : Diagram) (id start : Value) : Knows d id start { here := start } where
  started := .inr rfl
  way _ := .refl
  other := List.not_mem_nil
  fit := by simp
  onward := by simp

/-- What a climb knows it still knows after a turn. -/
theorem Knows.turn {start : Value} (h : Knows d id start c) (one : c.turn d id = .inr c') :
    Knows d id start c' := by
  obtain ⟨some_here, fit, _, other, rfl⟩ := turn_on one
  refine ⟨?started, ?way, ?other, ?fit, ?onward⟩
  case started => exact .inl (h.started.elim (List.mem_cons_of_mem _) fun s => s ▸ List.mem_cons_self)
  case way =>
    exact fun some_parent => (h.way some_here).tail (under_iff_parentOf.mpr ⟨rfl, some_parent⟩)
  case other => exact fun met => (List.mem_cons.mp met).elim (Ne.symm other) h.other
  case fit => exact List.forall_mem_cons.mpr ⟨fit, h.fit⟩
  case onward =>
    intro v hv w up
    rcases List.mem_cons.mp hv with rfl | hv
    · exact .inr (under_iff_parentOf.mp up).1.symm
    · exact .inl ((h.onward v hv w up).elim (List.mem_cons_of_mem _) fun s => s ▸ List.mem_cons_self)

/-- A climb that comes to nothing new has met all that the way up leads to. -/
theorem Knows.all {start : Value} (h : Knows d id start c) (some_start : start ≠ .null)
    (halted : c.here = .null ∨ c.here ∈ c.met) {v : Value} (way : ReflTransGen d.Under start v) :
    v ∈ c.met := by
  induction way with
  | refl =>
    rcases h.started with met | here
    · exact met
    · exact halted.elim (fun top => absurd (here ▸ top) some_start) fun again => here ▸ again
  | tail _ up ih =>
    rcases h.onward _ ih _ up with met | here
    · exact met
    · exact halted.elim (fun top => absurd (here.trans top) (under_iff_parentOf.mp up).2)
        fun again => here ▸ again

/-- Where a climb comes to something that nothing can be looked up by, the way up leads nowhere
else. -/
theorem Knows.last {start : Value} (h : Knows d id start c)
    (keys : ∀ g ∈ d.subgraphs, g.id.isSimple) (unfit : c.here.isSimple = false) {v : Value}
    (way : ReflTransGen d.Under start v) : v ∈ c.met ∨ v = c.here := by
  induction way with
  | refl => exact h.started.imp_right Eq.symm
  | tail _ up ih =>
    rcases ih with met | rfl
    · exact h.onward _ met _ up
    · obtain ⟨g, found, _⟩ := up
      have here : g.id = c.here := Keyed.key_of_find? found
      have fit := keys g (Keyed.mem_of_find? found)
      rw [here, unfit] at fit
      cases fit

/-- What the result of a climb says. -/
structure Tells (d : Diagram) (id start : Value) (r : Except Error Bool) : Prop where
  found : r = .ok true ↔ ReflTransGen d.Under start id
  missed : r = .ok false ↔ ¬ ReflTransGen d.Under start id ∧
    ∀ v, ReflTransGen d.Under start v → v.isSimple

theorem Knows.tells {start : Value} (h : Knows d id start c)
    (keys : ∀ g ∈ d.subgraphs, g.id.isSimple) (fit_id : id.isSimple) (some_start : start ≠ .null)
    (last : c.turn d id = .inl r) : Tells d id start r := by
  rcases turn_stop last with ⟨halted, rfl⟩ | ⟨unfit, rfl⟩ | ⟨some_here, here, rfl⟩
  · have missed : ¬ ReflTransGen d.Under start id := fun way => h.other (h.all some_start halted way)
    have fit : ∀ v, ReflTransGen d.Under start v → v.isSimple :=
      fun v way => h.fit v (h.all some_start halted way)
    exact ⟨by simpa using missed, by simpa using ⟨missed, fit⟩⟩
  · have some_here : c.here ≠ .null := fun top => by rw [top] at unfit; cases unfit
    have missed : ¬ ReflTransGen d.Under start id := by
      intro way
      rcases h.last keys unfit way with met | rfl
      · exact h.other met
      · rw [unfit] at fit_id
        cases fit_id
    have stuck : ¬ ∀ v, ReflTransGen d.Under start v → v.isSimple := by
      intro fit
      have fit := fit _ (h.way some_here)
      rw [unfit] at fit
      cases fit
    exact ⟨by simpa using missed, by simpa using fun _ => by simpa using stuck⟩
  · have way := here ▸ h.way some_here
    exact ⟨by simpa using way, by simpa using fun missed => absurd way missed⟩

/-- A climb tells whether the way up leads to what it looks for. -/
theorem Stops.tells {start : Value} (stops : Stops d id c n r) (h : Knows d id start c)
    (keys : ∀ g ∈ d.subgraphs, g.id.isSimple) (fit_id : id.isSimple)
    (some_start : start ≠ .null) : Tells d id start r := by
  induction stops with
  | now last => exact h.tells keys fit_id some_start last
  | later one _ ih => exact ih (h.turn one)

end Climb

/-! ### A new parent -/

/-- The diagram in which a subgraph has another parent. -/
def reparented (d : Diagram) (g : Subgraph) (parent : Value) : Diagram :=
  { d with subgraphs := Keyed.put { g with parent } d.subgraphs }

theorem under_reparented : (d.reparented g parent).Under a b ↔
    (a = g.id ∧ b = parent ∧ parent ≠ .null) ∨ (a ≠ g.id ∧ d.Under a b) := by
  have looked : (d.reparented g parent).subgraph? a =
      if g.id = a then some { g with parent } else d.subgraph? a :=
    Keyed.find?_put a ({ g with parent } : Subgraph) d.subgraphs
  by_cases here : a = g.id
  · subst here
    simp only [Under, looked, if_true, Option.some.injEq, true_and, ne_eq, not_true, false_and,
      or_false]
    constructor
    · rintro ⟨_, rfl, rfl, some_parent⟩
      exact ⟨rfl, some_parent⟩
    · rintro ⟨rfl, some_parent⟩
      exact ⟨_, rfl, rfl, some_parent⟩
  · simp [Under, looked, here, Ne.symm here]

/-- A new parent closes a way around exactly if the way up from it leads to the subgraph. -/
theorem not_acyclic_reparented (h : d.Acyclic) (some_parent : parent ≠ .null) :
    ¬ (d.reparented g parent).Acyclic ↔ ReflTransGen d.Under parent g.id := by
  constructor
  · intro cyclic
    by_contra outside
    refine cyclic (h.reparent g.id parent (fun a b up => ?_) (fun _ => outside) fun a b up => ?_)
    · rcases under_reparented.mp up with ⟨rfl, rfl, _⟩ | ⟨_, old⟩
      · exact .inr ⟨rfl, rfl⟩
      · exact .inl old
    · rcases under_reparented.mp up with ⟨_, rfl, some_parent⟩ | ⟨_, _, _, _, some_parent⟩
      · exact some_parent
      · exact some_parent
  · intro way acyclic
    -- the way up is not touched by the new parent before it comes to the subgraph
    have kept {a : Value} (way : ReflTransGen d.Under a g.id) :
        ReflTransGen (d.reparented g parent).Under a g.id := by
      induction way using ReflTransGen.head_induction_on with
      | refl => exact .refl
      | @head a _ up _ ih =>
        by_cases here : a = g.id
        · rw [here]
        · exact .head (under_reparented.mpr (.inr ⟨here, up⟩)) ih
    exact acyclic g.id (.head' (under_reparented.mpr (.inl ⟨rfl, rfl, some_parent⟩)) (kept way))

end Diagram

namespace Edit
variable {p : Progress} {g : Subgraph} {parent : Value}

/-- Why a subgraph may not have a parent: it would enclose itself, or nobody can say. -/
def Refuses (d : Diagram) (id parent : Value) (f : Error) : Prop :=
  f = .subgraphCycle id.shown parent.shown ∧ ReflTransGen d.Under parent id ∨
  f = .wrongForm ∧ ¬ ReflTransGen d.Under parent id ∧
    ∃ v, ReflTransGen d.Under parent v ∧ v.isSimple = false

/-- A subgraph may have a parent exactly if the way up from it can be followed to its end and does
not lead to the subgraph. -/
theorem checkNesting_ends (id : Value) (keys : ∀ g ∈ p.diagram.subgraphs, g.id.isSimple)
    (some_parent : parent ≠ .null) (there : p.diagram.hasSubgraph parent) :
    Ends (checkNesting id parent) p
      (fun _ q => q = p ∧ ¬ ReflTransGen p.diagram.Under parent id)
      fun f q => q = p ∧ Refuses p.diagram id parent f := by
  obtain ⟨k, hk, here⟩ := Diagram.hasSubgraph_iff.mp there
  have fit : parent.isSimple := here ▸ keys k hk
  simp only [checkNesting, checkParent, some_parent, if_false, ends_bind, ends_checkId, fit,
    if_true, ends_diagram, ends_check, there]
  split
  · rename_i outward
    have missed : ¬ ReflTransGen p.diagram.Under parent id := by
      rw [← Diagram.wouldCycle_iff]
      simpa using outward
    split
    · exact ⟨trivial, missed⟩
    · rename_i unfit
      simp only [List.all_eq_true, Diagram.mem_enclosing_iff, not_forall, Bool.not_eq_true] at unfit
      obtain ⟨v, way, unfit⟩ := unfit
      exact ⟨trivial, .inr ⟨rfl, missed, v, way, unfit⟩⟩
  · rename_i inward
    exact ⟨trivial, .inl ⟨rfl, Diagram.wouldCycle_iff.mp (by simpa using inward)⟩⟩

/-- The change of a subgraph that gives it a parent. -/
def placing (parent : Value) : Fields := [("parent_id".toList, parent)]

/-- A subgraph is given a parent, in a change of nothing else. -/
theorem updateSubgraph_places {id : Value} (keys : ∀ g ∈ p.diagram.subgraphs, g.id.isSimple)
    (found : p.diagram.subgraph? id = some g) (some_parent : parent ≠ .null)
    (there : p.diagram.hasSubgraph parent) :
    Ends (updateSubgraph id (placing parent)) p
      (fun x q => (x = some { g with parent } ∧ q.diagram = p.diagram.reparented g parent) ∧
        ¬ ReflTransGen p.diagram.Under parent id)
      fun f q => q = p ∧ Refuses p.diagram id parent f := by
  obtain rfl : g.id = id := Keyed.key_of_find? found
  have named : checkNames .subgraph (placing parent) = pure () := rfl
  have known : checkFields .subgraph (Keyed.keys Subgraph.setters) g.id (placing parent) =
      pure () := rfl
  have looked : checkId g.id = pure () := if_pos (keys g (Keyed.mem_of_find? found))
  have given : ((placing parent).get? "parent_id").getD g.parent = parent := rfl
  have no_members : (placing parent).get "node_ids" = .null := rfl
  have others : (placing parent).filter (fun c => c.1 != "node_ids".toList) = placing parent := rfl
  have set : setAll Subgraph.setters (placing parent) = .ok fun g => { g with parent } := rfl
  simp only [updateSubgraph, named, known, looked, given, no_members, others, set, ends_bind,
    ends_pure, ends_diagram, found, if_true, ofExcept_ok]
  refine (checkNesting_ends g.id keys some_parent there).imp ?_ fun _ _ => id
  rintro _ q ⟨rfl, missed⟩
  have no_member : ∀ m ∈ ([] : List Value), CanMove q.diagram m := by simp
  refine (checkMembers_passes no_member).imp ?_ fun _ _ => False.elim
  rintro _ q rfl
  have nobody (f : Value → Edit PUnit) : ([] : List Value).forM f = pure () := rfl
  simp only [ends_group, List.eraseDups_nil, nobody, ends_pure, found]
  exact ⟨⟨rfl, rfl⟩, missed⟩

/-- In a diagram without cycles a new parent is refused for a cycle exactly if it makes one, and
otherwise, if it is not refused, it is the only thing that changes. -/
theorem updateSubgraph_nests {id : Value} (keys : ∀ g ∈ p.diagram.subgraphs, g.id.isSimple)
    (acyclic : p.diagram.Acyclic) (found : p.diagram.subgraph? id = some g)
    (some_parent : parent ≠ .null) (there : p.diagram.hasSubgraph parent) :
    Ends (updateSubgraph id (placing parent)) p
      (fun _ q => q.diagram = p.diagram.reparented g parent ∧
        (p.diagram.reparented g parent).Acyclic)
      fun f q => q = p ∧ (f = .subgraphCycle id.shown parent.shown ↔
        ¬ (p.diagram.reparented g parent).Acyclic) := by
  have closes := Diagram.not_acyclic_reparented (g := g) acyclic some_parent
  rw [show g.id = id from Keyed.key_of_find? found] at closes
  refine (updateSubgraph_places keys found some_parent there).imp ?_ ?_
  · rintro _ q ⟨⟨_, same⟩, missed⟩
    exact ⟨same, not_not.mp fun cyclic => missed (closes.mp cyclic)⟩
  · rintro f q ⟨rfl, ⟨rfl, way⟩ | ⟨rfl, missed, _⟩⟩
    · exact ⟨rfl, by simpa using closes.mpr way⟩
    · exact ⟨rfl, by simpa using fun cyclic => missed (closes.mp cyclic)⟩

end Edit

namespace Editor
variable {e : Editor} {id parent : Value}

/-- An edit that is refused is told to nobody. -/
theorem perform_refused {α : Type} {edit : Edit α} {run : Runner} {err : Error → Prop}
    (refused : Ends edit e.opening (fun _ _ => False) fun f q => q = e.opening ∧ err f) :
    Ends (perform run edit) e (fun _ _ => False) fun f t => t = e ∧ err f := by
  simp only [perform, ends_bind, ends_enact, ends_get]
  unfold Ends at refused
  cases result : (edit.run.run e.opening).1 with
  | ok x => simp only [result] at refused
  | error failure =>
    simp only [result] at refused
    rw [refused.1, afterEdit_opening]
    refine (publish_nothing _).imp (fun _ t ht => ?_) fun _ _ ht => ht
    exact ⟨ht, refused.2⟩

/-- The command that gives a subgraph a parent. -/
def reparenting (id parent : Value) : Command := .updateSubgraph id (Edit.placing parent)

/-- However the parents of a diagram lead, a climb that looks for a subgraph comes to an end, and it
finds the subgraph exactly if the way up leads there; edits see the same. In a diagram without
cycles, a subgraph is refused a parent for a cycle exactly if it would get one. Whoever listens,
nothing changes then; and what is not refused makes the new parent and nothing else. -/
theorem cycles_found_exactly (id parent : Value) (keys : ∀ g ∈ e.diagram.subgraphs, g.id.isSimple)
    (fit_id : id.isSimple) (some_parent : parent ≠ .null) :
    let d := e.diagram
    ((∃ n r, n ≤ d.subgraphs.length + 2 ∧ Diagram.Climb.Stops d id { here := parent } n r) ∧
      ∀ n r, Diagram.Climb.Stops d id { here := parent } n r → Diagram.Climb.Tells d id parent r) ∧
    (Edit.wouldCycle d id parent = true ↔ ReflTransGen d.Under parent id) ∧
    (d.Acyclic → ∀ g, d.subgraph? id = some g → d.hasSubgraph parent →
      let after := d.reparented g parent
      let cycle := Error.subgraphCycle id.shown parent.shown
      (¬ after.Acyclic ↔ ((Edit.updateSubgraph id (Edit.placing parent)).run.run e.opening).1 =
        .error cycle) ∧
      Ends (Edit.updateSubgraph id (Edit.placing parent)) e.opening
        (fun _ p => p.diagram = after) (fun _ p => p = e.opening) ∧
      (¬ after.Acyclic → Ends (run (reparenting id parent)) e (fun _ _ => False)
        fun f t => t = e ∧ f = cycle) ∧
      (e.IsQuiet → Ends (run (reparenting id parent)) e
        (fun _ t => t.diagram = after ∧ after.Acyclic)
        fun f t => t = e ∧ (f = cycle ↔ ¬ after.Acyclic))) := by
  intro d
  refine ⟨⟨?stops, fun n r stops => ?tells⟩, Diagram.wouldCycle_iff, ?change⟩
  case stops =>
    obtain ⟨n, r, few, stops⟩ := Diagram.Climb.exists_stops d id { here := parent }
    exact ⟨n, r, by simpa [Diagram.Climb.left] using few, stops⟩
  case tells => exact stops.tells (Diagram.Climb.knows_start d id parent) keys fit_id some_parent
  case change =>
    intro acyclic g found there after cycle
    have ends := Edit.updateSubgraph_nests (p := e.opening) keys acyclic found some_parent there
    have refused (cyclic : ¬ after.Acyclic) :
        Ends (Edit.updateSubgraph id (Edit.placing parent)) e.opening (fun _ _ => False)
          fun f p => p = e.opening ∧ f = cycle :=
      ends.imp (fun _ _ ht => cyclic ht.2) fun _ _ ht => ⟨ht.1, ht.2.mpr cyclic⟩
    refine ⟨⟨fun cyclic => ?_, fun failed => ?_⟩, ends.imp (fun _ _ ht => ht.1) fun _ _ ht => ht.1,
      fun cyclic => ?_, fun quiet => ?_⟩
    · have failed := refused cyclic
      unfold Ends at failed
      split at failed
      · exact failed.elim
      · rename_i f result
        rw [result, failed.2]
    · unfold Ends at ends
      rw [failed] at ends
      exact ends.2.mp rfl
    · simp only [run, reparenting, obey, updateSubgraph, ends_bind, ends_get, ends_pure]
      exact (perform_refused (refused cyclic)).imp (fun _ _ => False.elim) fun _ _ ht => ht
    · have made := perform_passes quiet (e.due + weight (reparenting id parent))
        (fun _ d' => d' = after ∧ after.Acyclic) (fun f => f = cycle ↔ ¬ after.Acyclic) ends
      simp only [run, reparenting, obey, updateSubgraph, ends_bind, ends_get, ends_pure]
      exact made.imp (fun _ _ ht => ht.1) fun _ _ ht => ht

/-- Subgraphs of plain data: two of them are the parents of each other, and what a third one is in
is not there. -/
def knotted : Value := .record [
  ("subgraphs", .list [
    .record [("id", .text "a"), ("parent_id", .text "b")],
    .record [("id", .text "b"), ("parent_id", .text "a")],
    .record [("id", .text "c"), ("parent_id", .text "ghost")]])]

/-- The diagram that the data holds. -/
def knottedDiagram : Diagram where
  subgraphs := [
    { id := .text "a", title := .text "a", parent := .text "b" },
    { id := .text "b", title := .text "b", parent := .text "a" },
    { id := .text "c", title := .text "c", parent := .text "ghost" }]

set_option maxRecDepth 4000 in
/-- The climb from one of two parents around each other ends without having found the third
subgraph, and the one from there finds what is not there. Where three subgraphs are inside one
another, the outermost one cannot get into the innermost one, and that one can come further out. -/
theorem knotted_cycles_found :
    (Diagram.ofData knotted = .ok knottedDiagram ∧
      Diagram.Climb.Stops knottedDiagram (.text "c") { here := .text "a" } 3 (.ok false) ∧
      ¬ ReflTransGen knottedDiagram.Under (.text "a") (.text "c") ∧
      Diagram.Climb.Stops knottedDiagram (.text "ghost") { here := .text "c" } 2 (.ok true) ∧
      ReflTransGen knottedDiagram.Under (.text "c") (.text "ghost")) ∧
    let e := (ofDiagram .empty).after nested
    Ends (run (reparenting (.text "outer") (.text "inner"))) e (fun _ _ => False)
      (fun f t => t = e ∧ f = .subgraphCycle "outer" "inner") ∧
    Ends (run (reparenting (.text "inner") (.text "outer"))) e
      (fun _ t => t.diagram.Under (.text "inner") (.text "outer") ∧ t.diagram.Acyclic)
      fun _ _ => False := by
  constructor
  · have keys : ∀ g ∈ (ofDiagram knottedDiagram).diagram.subgraphs, g.id.isSimple := by decide
    have around : Diagram.Climb.Stops knottedDiagram (.text "c") { here := .text "a" } 3
        (.ok false) := .later rfl (.later rfl (.now rfl))
    have beyond : Diagram.Climb.Stops knottedDiagram (.text "ghost") { here := .text "c" } 2
        (.ok true) := .later rfl (.now rfl)
    have missed := (cycles_found_exactly _ _ keys rfl (by decide)).1.2 3 _ around
    have found := (cycles_found_exactly _ _ keys rfl (by decide)).1.2 2 _ beyond
    exact ⟨rfl, around, (missed.missed.mp rfl).1, beyond, found.found.mp rfl⟩
  · intro e
    have sturdy : e.diagram.Sturdy := sturdy_after ⟨Diagram.integral_empty, Diagram.has_empty⟩
      (by simp [nested, Command.IsProper, Command.reactsProperly])
    have quiet : e.IsQuiet := by
      have known : e.known = [{ name := "listener", reaction := .watch }] := rfl
      simp [IsQuiet, known, Command.reactsQuietly]
    obtain ⟨outer, has_outer⟩ : ∃ g, e.diagram.subgraph? (.text "outer") = some g := ⟨_, rfl⟩
    obtain ⟨inner, has_inner⟩ : ∃ g, e.diagram.subgraph? (.text "inner") = some g := ⟨_, rfl⟩
    have inward : Edit.wouldCycle e.diagram (.text "outer") (.text "inner") = true := by
      decide +kernel
    have succeeds : ((run (reparenting (.text "inner") (.text "outer"))).run.run e).1.isOk := by
      decide +kernel
    clear_value e
    have keys := sturdy.integral.simple
    have acyclic := sturdy.integral.acyclic
    constructor
    · have change := (cycles_found_exactly (.text "outer") (.text "inner") keys rfl
        (by decide)).2.2 acyclic outer has_outer (Keyed.has_of_find? has_inner)
      refine change.2.2.1 ((Diagram.not_acyclic_reparented acyclic (by decide)).mpr ?_)
      rw [show outer.id = .text "outer" from Keyed.key_of_find? has_outer]
      exact Diagram.wouldCycle_iff.mp inward
    · have change := (cycles_found_exactly (.text "inner") (.text "outer") keys rfl
        (by decide)).2.2 acyclic inner has_inner (Keyed.has_of_find? has_outer)
      refine Ends.of_isOk (Ends.imp (change.2.2.2 quiet) ?_ fun _ _ ht => ht) succeeds
      rintro _ t ⟨same, acyclic⟩
      have here : inner.id = .text "inner" := Keyed.key_of_find? has_inner
      rw [same]
      exact ⟨Diagram.under_reparented.mpr (.inl ⟨here.symm, rfl, by decide⟩), acyclic⟩

end Editor
end Flowchart
