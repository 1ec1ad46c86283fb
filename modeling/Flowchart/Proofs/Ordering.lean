import Flowchart.Graph
import Flowchart.Proofs.Replay
import Mathlib.Data.Fintype.Card
import Mathlib.Data.Fintype.EquivFin
import Mathlib.Data.Fintype.Sets
import Mathlib.Logic.Relation

/-! Orders in which every edge points forward. Vertices are done generation by generation. What
holds between two of them is kept by every vertex that is done: each arc to what is done comes from
what was done before, and whatever only has such arcs is done or waits for its turn. So a vertex
that never gets its turn has an arc from another such vertex, and these lead around a cycle. -/
namespace Flowchart
open Relation

namespace Graph
variable {g : Graph} {done waiting : List Value} {v : Value}

/-- An arc leads from the one vertex to the other. -/
def Leads (g : Graph) (v w : Value) : Prop := ∃ a ∈ g.arcs, a.source = v ∧ a.target = w

/-- No vertex comes twice, and arcs lead from vertices to vertices. -/
structure Whole (g : Graph) : Prop where
  once : g.vertices.Nodup
  ends : ∀ a ∈ g.arcs, a.source ∈ g.vertices ∧ a.target ∈ g.vertices

theorem mem_successors {w : Value} : w ∈ g.successors v ↔ g.Leads v w := by
  simp [successors, Leads, List.mem_eraseDups, and_assoc]

theorem isReady_iff : g.isReady done v = true ↔ ∀ w, g.Leads w v → w ∈ done := by
  simp only [isReady, List.all_eq_true, Bool.or_eq_true, bne_iff_ne, decide_eq_true_iff, Leads]
  constructor
  · rintro ready _ ⟨a, ha, rfl, rfl⟩
    exact (ready a ha).resolve_left (fun other => other rfl)
  · intro ready a ha
    exact or_iff_not_imp_left.mpr fun here => ready _ ⟨a, ha, rfl, not_not.mp here⟩

/-- How it stands when some vertices are done and others wait for their turn. -/
structure Standing (g : Graph) (done waiting : List Value) : Prop where
  once : (done ++ waiting).Nodup
  known : done ++ waiting ⊆ g.vertices
  ready : ∀ v ∈ done ++ waiting, g.isReady done v
  behind : ∀ v ∈ g.vertices, g.isReady done v → v ∈ done ++ waiting
  forward : ∀ v w, g.Leads v w → w ∈ done → done.idxOf v < done.idxOf w

theorem standing_start (whole : g.Whole) : g.Standing [] (g.vertices.filter (g.isReady [])) where
  once := whole.once.filter _
  known _ hv := List.mem_of_mem_filter hv
  ready _ hv := (List.mem_filter.mp hv).2
  behind _ hv ready := List.mem_filter.mpr ⟨hv, ready⟩
  forward _ _ _ hw := absurd hw List.not_mem_nil

/-- The vertices that can be done when one more is: those that it was the last to lead to. -/
def freed (g : Graph) (done : List Value) (v : Value) : List Value :=
  (g.successors v).filter (g.isReady (done ++ [v]))

theorem isReady_append (ready : g.isReady done v) (more : List Value) :
    g.isReady (done ++ more) v := by
  rw [isReady_iff] at ready ⊢
  exact fun w leads => List.mem_append_left more (ready w leads)

/-- One vertex more is done, and those that it was the last to lead to come to wait. -/
theorem Standing.step (whole : g.Whole) (h : g.Standing done (v :: waiting)) :
    g.Standing (done ++ [v]) (waiting ++ g.freed done v) := by
  have apart : (done ++ [v]) ++ (waiting ++ g.freed done v) =
      (done ++ v :: waiting) ++ g.freed done v := by simp
  have turn : v ∉ done := fun old => List.disjoint_of_nodup_append h.once old List.mem_cons_self
  have mem_freed : ∀ w ∈ g.freed done v, g.Leads v w ∧ g.isReady (done ++ [v]) w := fun w hw =>
    (List.mem_filter.mp hw).imp_left mem_successors.mp
  constructor
  case once =>
    rw [apart]
    refine h.once.append ((Keyed.nodup_eraseDups _).filter _) fun w old new => ?_
    exact turn (isReady_iff.mp (h.ready w old) v (mem_freed w new).1)
  case known =>
    rw [apart]
    refine List.append_subset.mpr ⟨h.known, fun w hw => ?_⟩
    obtain ⟨a, ha, _, rfl⟩ := (mem_freed w hw).1
    exact (whole.ends a ha).2
  case ready =>
    rw [apart]
    intro w hw
    rcases List.mem_append.mp hw with old | new
    · exact isReady_append (h.ready w old) [v]
    · exact (mem_freed w new).2
  case behind =>
    rw [apart]
    intro w hw ready
    by_cases before : g.isReady done w
    · exact List.mem_append_left _ (h.behind w hw before)
    · refine List.mem_append_right _ (List.mem_filter.mpr ⟨mem_successors.mpr ?_, ready⟩)
      -- the arc that was missing before comes from the vertex that is done now
      rw [isReady_iff] at before ready
      push Not at before
      obtain ⟨u, leads, missing⟩ := before
      rcases List.mem_append.mp (ready u leads) with old | now
      · exact absurd old missing
      · exact List.mem_singleton.mp now ▸ leads
  case forward =>
    intro u w leads hw
    by_cases old : w ∈ done
    · have before := h.forward u w leads old
      have hu : u ∈ done :=
        List.idxOf_lt_length_iff.mp (before.trans (List.idxOf_lt_length_iff.mpr old))
      rwa [List.idxOf_append_of_mem hu, List.idxOf_append_of_mem old]
    · obtain rfl : w = v := List.mem_singleton.mp ((List.mem_append.mp hw).resolve_left old)
      have hu := isReady_iff.mp (h.ready w (by simp)) u leads
      rw [List.idxOf_append_of_mem hu, List.idxOf_append_of_notMem old]
      exact Nat.lt_add_right _ (List.idxOf_lt_length_iff.mpr hu)

theorem sweep_done (g : Graph) (done vs : List Value) : (g.sweep done vs).1 = done ++ vs := by
  induction vs generalizing done with
  | nil => simp [sweep]
  | cons v vs ih => simp [sweep, ih]

/-- A generation is done, whatever else waits. -/
theorem Standing.sweep (whole : g.Whole) {vs : List Value} (h : g.Standing done (vs ++ waiting)) :
    g.Standing (g.sweep done vs).1 (waiting ++ (g.sweep done vs).2) := by
  induction vs generalizing done waiting with
  | nil => simpa [Graph.sweep] using h
  | cons v vs ih =>
    have next : g.Standing (done ++ [v]) (vs ++ waiting ++ g.freed done v) := h.step whole
    rw [List.append_assoc] at next
    have rest := ih next
    rwa [List.append_assoc] at rest

theorem Standing.length_le (h : g.Standing done waiting) : done.length ≤ g.vertices.length := by
  have whole := (List.subperm_of_subset h.once h.known).length_le
  rw [List.length_append] at whole
  omega

/-- All generations are done, if there is a turn for every vertex. -/
theorem Standing.sweeps (whole : g.Whole) {turns : Nat} (h : g.Standing done waiting)
    (enough : g.vertices.length < done.length + turns) :
    g.Standing (g.sweeps turns done waiting) [] := by
  induction turns generalizing done waiting with
  | zero => exact absurd h.length_le (by omega)
  | succ turns ih =>
    cases waiting with
    | nil => exact h
    | cons v vs =>
      have all : g.Standing done ((v :: vs) ++ []) := by simpa using h
      have swept := all.sweep whole
      have longer : g.vertices.length < (g.sweep done (v :: vs)).1.length + turns := by
        rw [sweep_done, List.length_append, List.length_cons]
        omega
      exact ih swept longer

theorem standing_generations (whole : g.Whole) : g.Standing g.generations [] :=
  (standing_start whole).sweeps whole (by simp)

/-- There is an order exactly if every vertex gets its turn. -/
theorem order?_eq_some_iff (whole : g.Whole) {order : List Value} :
    g.order? = some order ↔ order = g.generations ∧ ∀ v ∈ g.vertices, v ∈ g.generations := by
  have standing := standing_generations whole
  have once : g.generations.Nodup := by simpa using standing.once
  have known : g.generations ⊆ g.vertices := by simpa using standing.known
  have full : g.generations.length = g.vertices.length ↔ ∀ v ∈ g.vertices, v ∈ g.generations := by
    constructor
    · intro same v hv
      exact ((List.subperm_of_subset once known).perm_of_length_le same.ge).mem_iff.mpr hv
    · intro all
      exact ((List.perm_ext_iff_of_nodup once whole.once).mpr fun v =>
        ⟨fun hv => known hv, all v⟩).length_eq
  rw [order?, ← full]
  split
  · rename_i same
    simp [same, eq_comm]
  · rename_i other
    simp [other]

theorem order_forward (whole : g.Whole) {order : List Value} (ordered : g.order? = some order)
    {w : Value} (leads : g.Leads v w) : order.idxOf v < order.idxOf w := by
  obtain ⟨rfl, all⟩ := (order?_eq_some_iff whole).mp ordered
  obtain ⟨a, ha, _, there⟩ := id leads
  exact (standing_generations whole).forward v w leads (all w (there ▸ (whole.ends a ha).2))

/-- Where all arcs lead forward none leads back. -/
theorem acyclic_of_forward {order : List Value}
    (forward : ∀ v w, g.Leads v w → order.idxOf v < order.idxOf w) (v : Value) :
    ¬ TransGen g.Leads v v := by
  intro cycle
  have rises : ∀ {v w}, TransGen g.Leads v w → order.idxOf v < order.idxOf w := by
    intro v w way
    induction way with
    | single step => exact forward _ _ step
    | tail _ step ih => exact ih.trans (forward _ _ step)
  exact absurd (rises cycle) (lt_irrefl _)

/-- Without a cycle every vertex gets its turn, the vertices before it first. -/
theorem turn_of_acyclic (whole : g.Whole) (acyclic : ∀ v, ¬ TransGen g.Leads v v) :
    ∀ v ∈ g.vertices, v ∈ g.generations := by
  let Before (v w : { v // v ∈ g.vertices }) : Prop := TransGen g.Leads v.1 w.1
  have : IsTrans _ Before := ⟨fun _ _ _ => TransGen.trans⟩
  have : Std.Irrefl Before := ⟨fun v => acyclic v.1⟩
  have grounded : WellFounded Before := Finite.wellFounded_of_trans_of_irrefl Before
  intro v hv
  induction hv' : (⟨v, hv⟩ : { v // v ∈ g.vertices }) using grounded.induction generalizing v with
  | _ _ ih =>
    subst hv'
    have ready : g.isReady g.generations v := isReady_iff.mpr fun u leads => by
      obtain ⟨a, ha, rfl, rfl⟩ := leads
      exact ih ⟨a.source, (whole.ends a ha).1⟩ (.single ⟨a, ha, rfl, rfl⟩) a.source _ rfl
    simpa using (standing_generations whole).behind v hv ready

/-! ### Counting

The same generations, found by counting: every vertex has a number of arcs to it that are not done,
a vertex that is done takes the parallel arcs to each of its successors off together, and one that
is left with none comes into the next generation. -/

/-- A generation is done by counting. The answer is how many arcs are left to every vertex, and the
next generation. -/
def countdown (g : Graph) (left : Value → Nat) : List Value → (Value → Nat) × List Value
  | [] => (left, [])
  | v :: vs =>
    let left := fun w => left w - (g.between v w).length
    let (after, next) := g.countdown left vs
    (after, (g.successors v).filter (fun w => left w == 0) ++ next)

/-- Generations are done one after another, by counting. -/
def countdowns (g : Graph) : Nat → (Value → Nat) → List Value → List Value → List Value
  | 0, _, done, _ => done
  | _ + 1, _, done, [] => done
  | more + 1, left, done, v :: vs =>
    let (left, next) := g.countdown left (v :: vs)
    g.countdowns more left (done ++ v :: vs) next

/-- The vertices generation by generation, by counting. -/
def counted (g : Graph) : List Value :=
  g.countdowns (g.vertices.length + 1) g.inDegree [] (g.vertices.filter fun v => g.inDegree v == 0)

/-- How many arcs to a vertex come from vertices that are not done. -/
def pending (g : Graph) (done : List Value) (v : Value) : Nat :=
  (g.arcs.filter fun a => a.target == v && a.source ∉ done).length

theorem pending_eq_zero (g : Graph) (done : List Value) (v : Value) :
    (g.pending done v == 0) = g.isReady done v := by
  rw [Bool.eq_iff_iff]
  simp [pending, isReady, List.filter_eq_nil_iff, or_iff_not_imp_left]

/-- A vertex that is done takes off all arcs from it. -/
theorem pending_append (turn : v ∉ done) (w : Value) :
    g.pending (done ++ [v]) w = g.pending done w - (g.between v w).length := by
  have split := List.length_eq_length_filter_add (fun a : Arc => a.source == v)
    (l := g.arcs.filter fun a => a.target == w && decide (a.source ∉ done))
  have from_v : ∀ a ∈ g.arcs, (a.source == v && (a.target == w && decide (a.source ∉ done))) =
      (a.source == v && a.target == w) := by
    intro a _
    by_cases here : a.source = v
    · simp [here, turn]
    · simp [beq_eq_false_iff_ne.mpr here]
  have others : ∀ a ∈ g.arcs,
      (!(a.source == v) && (a.target == w && decide (a.source ∉ done))) =
        (a.target == w && decide (a.source ∉ done ++ [v])) := by
    intro a _
    by_cases here : a.source = v <;> simp [here]
  rw [List.filter_filter, List.filter_filter, List.filter_congr from_v,
    List.filter_congr others] at split
  rw [between, List.length_mapIdx, pending, pending]
  omega

theorem countdown_eq (whole : g.Whole) {vs : List Value} (h : g.Standing done (vs ++ waiting)) :
    g.countdown (g.pending done) vs = (g.pending (done ++ vs), (g.sweep done vs).2) := by
  induction vs generalizing done waiting with
  | nil => simp [countdown, sweep]
  | cons v vs ih =>
    have turn : v ∉ done := fun old => List.disjoint_of_nodup_append h.once old List.mem_cons_self
    have lowered : (fun w => g.pending done w - (g.between v w).length) =
        g.pending (done ++ [v]) := funext fun w => (pending_append turn w).symm
    have free : (g.successors v).filter
        (fun w => g.pending done w - (g.between v w).length == 0) =
        (g.successors v).filter (g.isReady (done ++ [v])) :=
      List.filter_congr fun w _ => pending_append turn w ▸ pending_eq_zero g (done ++ [v]) w
    have next : g.Standing (done ++ [v]) (vs ++ waiting ++ g.freed done v) := h.step whole
    rw [List.append_assoc] at next
    simp only [countdown, lowered, free, ih next, sweep, List.append_assoc, List.singleton_append]

theorem countdowns_eq (whole : g.Whole) {turns : Nat} (h : g.Standing done waiting) :
    g.countdowns turns (g.pending done) done waiting = g.sweeps turns done waiting := by
  induction turns generalizing done waiting with
  | zero => rfl
  | succ turns ih =>
    cases waiting with
    | nil => rfl
    | cons v vs =>
      have all : g.Standing done ((v :: vs) ++ []) := by simpa using h
      have swept : g.Standing (g.sweep done (v :: vs)).1 (g.sweep done (v :: vs)).2 :=
        Standing.sweep whole all
      rw [countdowns, countdown_eq whole all, sweeps]
      exact sweep_done g done (v :: vs) ▸ ih swept

/-- To count is to look whether the vertices before are done. -/
theorem counted_eq (whole : g.Whole) : g.counted = g.generations := by
  have all : g.pending [] = g.inDegree := by
    funext v
    simp [pending, inDegree]
  have first : (g.vertices.filter fun v => g.inDegree v == 0) = g.vertices.filter (g.isReady []) :=
    List.filter_congr fun v _ => all ▸ pending_eq_zero g [] v
  rw [counted, generations, first, ← all]
  exact countdowns_eq whole (standing_start whole)

/-! ### Graphs of diagrams -/

theorem mem_addEnds {arcs : List Arc} {vertices : List Value} {v : Value} :
    v ∈ addEnds arcs vertices ↔ v ∈ vertices ∨ ∃ a ∈ arcs, a.source = v ∨ a.target = v := by
  have met : v ∈ addEnds arcs vertices ↔
      v ∈ vertices ∨ v ∈ arcs.flatMap fun a => [a.source, a.target] := by
    unfold addEnds
    induction arcs.flatMap fun a => [a.source, a.target] generalizing vertices with
    | nil => simp
    | cons x xs ih =>
      rw [List.foldl_cons, ih, List.mem_cons, ← or_assoc]
      refine or_congr_left ?_
      split
      · rename_i known
        exact ⟨Or.inl, fun h => h.elim id fun same => same ▸ known⟩
      · rw [List.mem_append, List.mem_singleton]
  rw [met]
  simp [eq_comm]

theorem nodup_addEnds (arcs : List Arc) {vertices : List Value} (once : vertices.Nodup) :
    (addEnds arcs vertices).Nodup := by
  unfold addEnds
  induction arcs.flatMap fun a => [a.source, a.target] generalizing vertices with
  | nil => exact once
  | cons x xs ih =>
    rw [List.foldl_cons]
    refine ih ?_
    split
    · exact once
    · rename_i new
      exact once.append (List.nodup_singleton x) (by simpa using new)

end Graph

/-- An edge leads from the one id to the other. -/
def Diagram.Joins (d : Diagram) (v w : Value) : Prop := ∃ e ∈ d.edges, e.source = v ∧ e.target = w

/-- The id is that of a node, or an edge begins or ends at it. -/
def Diagram.Mentions (d : Diagram) (v : Value) : Prop :=
  d.hasNode v ∨ ∃ e ∈ d.edges, e.source = v ∨ e.target = v

namespace Graph
variable {d : Diagram}

theorem whole_ofDiagram (distinct : d.Distinct) : (ofDiagram d).Whole where
  once := nodup_addEnds _ distinct.nodes
  ends a ha := ⟨mem_addEnds.mpr (Or.inr ⟨a, ha, Or.inl rfl⟩),
    mem_addEnds.mpr (Or.inr ⟨a, ha, Or.inr rfl⟩)⟩

theorem leads_ofDiagram (d : Diagram) : (ofDiagram d).Leads = d.Joins := by
  funext v w
  simp [Leads, Diagram.Joins, ofDiagram]

theorem mem_vertices_ofDiagram {v : Value} : v ∈ (ofDiagram d).vertices ↔ d.Mentions v := by
  rw [ofDiagram, mem_addEnds, Diagram.Mentions, Diagram.hasNode, Keyed.has_iff]
  simp

theorem ofDiagram?_eq (named : ∀ v, d.Mentions v → v ≠ .null ∧ v.isSimple) :
    ofDiagram? d = .ok (ofDiagram d) := by
  have passes : ∀ vs : List Value, (∀ v ∈ vs, v ≠ .null ∧ v.isSimple) →
      vs.forM checkVertex = .ok () := by
    intro vs fine
    induction vs with
    | nil => rfl
    | cons v vs ih =>
      obtain ⟨some_name, simple⟩ := fine v List.mem_cons_self
      have here : checkVertex v = .ok () := by
        simp [checkVertex, some_name, Value.simple, simple]
      change (checkVertex v >>= fun _ => vs.forM checkVertex) = _
      rw [here]
      exact ih fun w hw => fine w (List.mem_cons_of_mem v hw)
  have checked := passes (ofDiagram d).vertices fun v hv => named v (mem_vertices_ofDiagram.mp hv)
  rw [ofDiagram?, checked]
  rfl

/-- Whatever the edges of a diagram name, there is an order of its graph exactly if no way along
edges leads from somewhere back to there. It has every node and every end of an edge once, and
every edge leads forward in it. The generations that it is made of are those that counting finds,
parallel edges and all. -/
theorem order_exact (distinct : d.Distinct) :
    let g := ofDiagram d
    ((∀ v, d.Mentions v → v ≠ .null ∧ v.isSimple) → ofDiagram? d = .ok g) ∧
    (g.order? = if g.counted.length = g.vertices.length then some g.counted else none) ∧
    (g.isAcyclic ↔ ∃ order, g.order? = some order) ∧
    (g.isAcyclic ↔ ∀ v, ¬ TransGen d.Joins v v) ∧
    ∀ order, g.order? = some order → order.Nodup ∧ (∀ v, v ∈ order ↔ d.Mentions v) ∧
      ∀ e ∈ d.edges, order.idxOf e.source < order.idxOf e.target := by
  intro g
  have whole : g.Whole := whole_ofDiagram distinct
  have leads : g.Leads = d.Joins := leads_ofDiagram d
  have standing : g.Standing g.generations [] := standing_generations whole
  have found : g.isAcyclic ↔ ∃ order, g.order? = some order := Option.isSome_iff_exists
  refine ⟨ofDiagram?_eq, by rw [counted_eq whole]; rfl, found, ?_, fun order ordered => ?_⟩
  · rw [found, ← leads]
    constructor
    · rintro ⟨order, ordered⟩
      exact acyclic_of_forward fun v w => order_forward whole ordered
    · intro acyclic
      exact ⟨_, (order?_eq_some_iff whole).mpr ⟨rfl, turn_of_acyclic whole acyclic⟩⟩
  · obtain ⟨rfl, all⟩ := (order?_eq_some_iff whole).mp ordered
    refine ⟨by simpa using standing.once, fun v => ?_, fun e he => ?_⟩
    · rw [← mem_vertices_ofDiagram]
      exact ⟨fun hv => standing.known (List.mem_append_left _ hv), all v⟩
    · exact order_forward whole ordered (leads ▸ ⟨e, he, rfl, rfl⟩)

/-- Two edges between the same nodes, and one from something that is no node. -/
def loose : Diagram where
  nodes := [.bare (.text "A"), .bare (.text "B")]
  edges := [
    { id := .text "first", source := .text "B", target := .text "A" },
    { id := .text "second", source := .text "B", target := .text "A" },
    { id := .text "third", source := .text "C", target := .text "B" }]

/-- The same with an edge back to what is no node. -/
def closed : Diagram :=
  { loose with
    edges := loose.edges ++ [{ id := .text "back", source := .text "A", target := .text "C" }] }

theorem loose_order_exact :
    loose.Distinct ∧ (ofDiagram loose).order? = some [.text "C", .text "B", .text "A"] ∧
      (∀ v, ¬ TransGen loose.Joins v v) ∧
    closed.Distinct ∧ (ofDiagram closed).order? = none ∧
      ∃ v, TransGen closed.Joins v v := by
  have apart : loose.Distinct := ⟨by decide, by decide, by decide⟩
  have apart' : closed.Distinct := ⟨by decide, by decide, by decide⟩
  have order : (ofDiagram loose).order? = some [.text "C", .text "B", .text "A"] := by
    decide +kernel
  have none : (ofDiagram closed).order? = none := by decide +kernel
  obtain ⟨_, _, found, acyclic, _⟩ := order_exact apart
  obtain ⟨_, _, found', acyclic', _⟩ := order_exact apart'
  refine ⟨apart, order, acyclic.mp (found.mpr ⟨_, order⟩), apart', none, ?_⟩
  by_contra no_cycle
  obtain ⟨_, some_order⟩ := found'.mp (acyclic'.mpr fun v cycle => no_cycle ⟨v, cycle⟩)
  rw [none] at some_order
  cases some_order

end Graph
end Flowchart
