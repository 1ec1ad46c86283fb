import Flowchart.Proofs.Ordering
import Flowchart.Proofs.Wording

/-! What a graph answers. A graph may be kept as a table: for every vertex the vertices that arcs
lead to from it, and for each of these the ids of the arcs, everything in the order in which it
came. The table grows vertex by vertex and arc by arc. Where ids are texts and no two edges have the
same, an arc never takes the place of another one, and so the table, the list of arcs and the edges
of the diagram give the same answers. -/
namespace Flowchart

/-! ### The order of texts -/

theorem Text.isUpTo_cons {c d : Char} {s t : Text} : isUpTo (c :: s) (d :: t) = true ↔
    c.toNat < d.toNat ∨ c.toNat = d.toNat ∧ s.isUpTo t = true := by
  rw [isUpTo, Bool.or_eq_true, Bool.and_eq_true, decide_eq_true_iff, beq_iff_eq]

theorem Text.isUpTo_trans (s t u : Text) (h : s.isUpTo t = true) (k : t.isUpTo u = true) :
    s.isUpTo u = true := by
  induction s generalizing t u with
  | nil => rfl
  | cons c s ih =>
    cases t with
    | nil => cases h
    | cons d t =>
      cases u with
      | nil => cases k
      | cons b u =>
        rw [isUpTo_cons] at h k ⊢
        rcases h with less | ⟨same, h⟩
        · exact Or.inl (by omega)
        · rcases k with less | ⟨same', k⟩
          · exact Or.inl (by omega)
          · exact Or.inr ⟨same.trans same', ih t u h k⟩

theorem Text.isUpTo_total (s t : Text) : (s.isUpTo t || t.isUpTo s) = true := by
  rw [Bool.or_eq_true]
  induction s generalizing t with
  | nil => exact Or.inl rfl
  | cons c s ih =>
    cases t with
    | nil => exact Or.inr rfl
    | cons d t =>
      rw [isUpTo_cons, isUpTo_cons]
      rcases Nat.lt_trichotomy c.toNat d.toNat with less | same | more
      · exact Or.inl (Or.inl less)
      · exact (ih t).imp (fun h => Or.inr ⟨same, h⟩) fun h => Or.inr ⟨same.symm, h⟩
      · exact Or.inr (Or.inl more)

theorem Text.isUpTo_antisymm {s t : Text} (h : s.isUpTo t = true) (k : t.isUpTo s = true) :
    s = t := by
  induction s generalizing t with
  | nil =>
    cases t with
    | nil => rfl
    | cons d t => cases k
  | cons c s ih =>
    cases t with
    | nil => cases h
    | cons d t =>
      rw [isUpTo_cons] at h k
      rcases h with less | ⟨same, h⟩
      · omega
      · have k := (k.resolve_left (by omega)).2
        rw [Char.toNat_inj.mp same, ih h k]

/-- The one value comes before the other. -/
def Value.Precedes (v w : Value) : Prop := v.upTo w = true ∧ ¬ w.upTo v = true

theorem Value.precedes_of_ne {s t : Text} (le : s.isUpTo t = true) (ne : s ≠ t) :
    Value.Precedes (.text s) (.text t) := by
  exact ⟨le, fun ge => ne (Text.isUpTo_antisymm le ge)⟩

/-- Texts that are all different are sorted in strict order. -/
theorem Value.precedes_mergeSort {vs : List Value} (texts : ∀ v ∈ vs, v.isText) (once : vs.Nodup) :
    (vs.mergeSort Value.upTo).Pairwise Precedes := by
  obtain ⟨ts, rfl⟩ : ∃ ts : List Text, ts.map .text = vs := by
    refine ⟨vs.filterMap Value.text?, ?_⟩
    induction vs with
    | nil => rfl
    | cons v vs ih =>
      obtain ⟨t, rfl⟩ := isText_iff.mp (texts v List.mem_cons_self)
      have rest := ih (fun w hw => texts w (List.mem_cons_of_mem _ hw)) (List.nodup_cons.mp once).2
      simpa [Value.text?] using rest
  have same : (ts.map .text).mergeSort Value.upTo = (ts.mergeSort Text.isUpTo).map .text :=
    (List.map_mergeSort (r := Text.isUpTo) (s := Value.upTo) (f := Value.text)
      fun _ _ _ _ => rfl).symm
  have sorted : (ts.mergeSort Text.isUpTo).Pairwise fun s t => s.isUpTo t = true :=
    List.pairwise_mergeSort Text.isUpTo_trans Text.isUpTo_total ts
  have distinct : (ts.mergeSort Text.isUpTo).Nodup :=
    (List.mergeSort_perm ts _).nodup_iff.mpr once.of_map
  rw [same, List.pairwise_map]
  exact (sorted.and distinct).imp fun h => precedes_of_ne h.1 h.2

namespace Graph

/-! ### Tables -/

/-- For every vertex a row: the vertices that arcs lead to from it, each with the ids of these. -/
abbrev Table := List (Value × List (Value × List Value))

namespace Table

/-- The row of a vertex. What is no vertex has an empty one. -/
def row (t : Table) (v : Value) : List (Value × List Value) := ((Keyed.find? v t).map (·.2)).getD []

/-- The ids of the arcs from one vertex to another. -/
def between (t : Table) (source target : Value) : List Value :=
  ((Keyed.find? target (t.row source)).map (·.2)).getD []

/-- The table with a vertex, which comes last if it is new. -/
def meet (t : Table) (v : Value) : Table := if v ∈ Keyed.keys t then t else t ++ [(v, [])]

/-- The table with an arc. Its ends are met first, and what it goes by comes last if it is new
between them. -/
def draw (t : Table) (a : Arc) : Table :=
  let t := (t.meet a.source).meet a.target
  let ids := t.between a.source a.target
  let id := a.nameAt ids.length
  let ids := if id ∈ ids then ids else ids ++ [id]
  Keyed.put (a.source, Keyed.put (a.target, ids) (t.row a.source)) t

/-- The table of a diagram: its nodes are met, then its edges are drawn. -/
def ofDiagram (d : Diagram) : Table :=
  (d.edges.map fun e => ⟨e.id, e.source, e.target⟩).foldl draw ((Keyed.keys d.nodes).foldl meet [])

/-- The ids of the arcs that begin at a vertex. -/
def leaving (t : Table) (v : Value) : List Value := (t.row v).flatMap fun r => r.2

/-- How many arcs begin at a vertex. -/
def outDegree (t : Table) (v : Value) : Nat := (t.leaving v).length

/-- How many arcs end at a vertex. -/
def inDegree (t : Table) (v : Value) : Nat := (t.flatMap fun r => t.between r.1 v).length

/-- How many arcs there are. -/
def size (t : Table) : Nat := (t.flatMap fun r => t.leaving r.1).length

/-- Every vertex with those that arcs lead to from it, both in order. -/
def adjacency (t : Table) : List (Value × List Value) :=
  (t.map fun r => (r.1, (Keyed.keys r.2).mergeSort Value.upTo)).mergeSort fun r s => r.1.upTo s.1

end Table

variable {g : Graph} {v w : Value}

/-- The ids of the arcs from one vertex to another. -/
def ids (g : Graph) (source target : Value) : List Value :=
  (g.arcs.filter fun a => a.source == source && a.target == target).map Arc.id

/-- The graph as a table. -/
def table (g : Graph) : Table :=
  g.vertices.map fun v => (v, (g.successors v).map fun w => (w, g.ids v w))

theorem keys_table (g : Graph) : Keyed.keys g.table = g.vertices := by
  simp [table, Keyed.keys, Function.comp_def, Keyed.key]

theorem nodup_successors (g : Graph) (v : Value) : (g.successors v).Nodup :=
  Keyed.nodup_eraseDups _

/-- What is looked up in a list that was made from its keys. -/
theorem find?_tabulated {β : Type} (f : Value → β) (k : Value) (ks : List Value) :
    Keyed.find? k (ks.map fun v => (v, f v)) = if k ∈ ks then some (k, f k) else none := by
  induction ks with
  | nil => rfl
  | cons v ks ih =>
    rw [List.map_cons, Keyed.find?_cons, ih]
    by_cases here : v = k
    · subst here
      simp [Keyed.key]
    · simp [Keyed.key, here, Ne.symm here]

/-- What is put into a list that was made from its keys. -/
theorem put_tabulated {β : Type} {f h : Value → β} {k : Value} {ks : List Value} (once : ks.Nodup)
    (there : k ∈ ks) (others : ∀ v ∈ ks, v ≠ k → h v = f v) :
    Keyed.put (k, h k) (ks.map fun v => (v, f v)) = ks.map fun v => (v, h v) := by
  have keys : Keyed.keys (ks.map fun v => (v, f v)) = ks := by
    simp [Keyed.keys, Function.comp_def, Keyed.key]
  rw [Keyed.put_eq_map (by rw [keys]; exact once) (by rw [keys]; exact there), List.map_map]
  refine List.map_congr_left fun v hv => ?_
  by_cases here : v = k
  · simp [here, Keyed.key]
  · simp [here, Keyed.key, others v hv here]

theorem successors_of_new (whole : g.Whole) (new : v ∉ g.vertices) : g.successors v = [] := by
  refine List.eq_nil_iff_forall_not_mem.mpr fun w hw => new ?_
  obtain ⟨a, ha, here, _⟩ := mem_successors.mp hw
  exact here ▸ (whole.ends a ha).1

theorem ids_of_apart (apart : w ∉ g.successors v) : g.ids v w = [] := by
  refine List.map_eq_nil_iff.mpr (List.filter_eq_nil_iff.mpr fun a ha ends => apart ?_)
  rw [Bool.and_eq_true, beq_iff_eq, beq_iff_eq] at ends
  exact mem_successors.mpr ⟨a, ha, ends⟩

/-- What is worked out row by row. -/
theorem row_table (whole : g.Whole) (v : Value) :
    g.table.row v = (g.successors v).map fun w => (w, g.ids v w) := by
  rw [Table.row, table, find?_tabulated]
  by_cases known : v ∈ g.vertices
  · simp [known]
  · simp [known, successors_of_new whole known]

theorem between_table (whole : g.Whole) (v w : Value) : g.table.between v w = g.ids v w := by
  rw [Table.between, row_table whole, find?_tabulated]
  by_cases leads : w ∈ g.successors v
  · simp [leads]
  · simp [leads, ids_of_apart leads]

/-! ### Growing tables -/

/-- The list with one more vertex, if it is new. -/
def known (vertices : List Value) (v : Value) : List Value :=
  if v ∈ vertices then vertices else vertices ++ [v]

theorem mem_known {vertices : List Value} : w ∈ known vertices v ↔ w ∈ vertices ∨ w = v := by
  unfold known
  split
  · rename_i there
    exact ⟨Or.inl, fun h => h.elim id fun same => same ▸ there⟩
  · simp

theorem Whole.meet (whole : g.Whole) (v : Value) :
    Whole { g with vertices := known g.vertices v } where
  once := by
    unfold known
    split
    · exact whole.once
    · rename_i new
      exact whole.once.append (List.nodup_singleton v) (by simpa using new)
  ends a ha := (whole.ends a ha).imp (fun h => mem_known.mpr (Or.inl h)) fun h =>
    mem_known.mpr (Or.inl h)

theorem meet_table (whole : g.Whole) (v : Value) :
    g.table.meet v = table { g with vertices := known g.vertices v } := by
  rw [Table.meet, keys_table, known]
  split
  · rfl
  · rename_i new
    have none_yet := successors_of_new whole new
    have same : ∀ w, successors { g with vertices := g.vertices ++ [v] } w = g.successors w :=
      fun _ => rfl
    simp only [table, List.map_append, same, List.map_singleton, none_yet]
    rfl

/-- The graph with one more arc. -/
def draw (g : Graph) (a : Arc) : Graph := { g with arcs := g.arcs ++ [a] }

theorem Whole.draw (whole : g.Whole) {a : Arc} (source : a.source ∈ g.vertices)
    (target : a.target ∈ g.vertices) : (g.draw a).Whole where
  once := whole.once
  ends b hb := by
    rcases List.mem_append.mp hb with old | new
    · exact whole.ends b old
    · obtain rfl := List.mem_singleton.mp new
      exact ⟨source, target⟩

theorem successors_draw (g : Graph) (a : Arc) (v : Value) : (g.draw a).successors v =
    if a.source = v then known (g.successors v) a.target else g.successors v := by
  simp only [successors, draw, List.filter_append, List.map_append]
  generalize (g.arcs.filter fun b => b.source == v).map Arc.target = before
  by_cases here : a.source = v
  · simp only [here, beq_self_eq_true, List.filter_cons_of_pos, List.filter_nil, List.map_cons,
      List.map_nil, Keyed.eraseDups_concat, if_true, known, List.mem_eraseDups]
  · simp [here]

theorem ids_draw (g : Graph) (a : Arc) (v w : Value) : (g.draw a).ids v w =
    if a.source = v ∧ a.target = w then g.ids v w ++ [a.id] else g.ids v w := by
  simp only [ids, draw, List.filter_append, List.map_append]
  by_cases here : a.source = v ∧ a.target = w
  · simp [here]
  · simp [here]

/-- An arc between vertices of a graph that has no arc with its id there. -/
theorem draw_table (whole : g.Whole) {a : Arc} (source : a.source ∈ g.vertices)
    (target : a.target ∈ g.vertices) (named : a.id ≠ .null)
    (new : a.id ∉ g.ids a.source a.target) :
    g.table.draw a = (g.draw a).table := by
  have met : (g.table.meet a.source).meet a.target = g.table := by
    have here : ∀ v ∈ g.vertices, g.table.meet v = g.table := fun v hv =>
      if_pos ((keys_table g).symm ▸ hv)
    rw [here _ source, here _ target]
  have elsewhere : ∀ v, v ≠ a.source →
      ((g.draw a).successors v).map (fun w => (w, (g.draw a).ids v w)) =
        (g.successors v).map fun w => (w, g.ids v w) := by
    intro v other
    simp only [successors_draw, ids_draw, Ne.symm other, false_and, if_false]
  -- the row of the source, whether arcs lead from there to the target already or not
  have row : Keyed.put (a.target, g.ids a.source a.target ++ [a.id])
      ((g.successors a.source).map fun w => (w, g.ids a.source w)) =
        ((g.draw a).successors a.source).map fun w => (w, (g.draw a).ids a.source w) := by
    have others : ∀ w, w ≠ a.target → (g.draw a).ids a.source w = g.ids a.source w := fun w hw => by
      simp [ids_draw, Ne.symm hw]
    have there : (g.draw a).ids a.source a.target = g.ids a.source a.target ++ [a.id] := by
      simp [ids_draw]
    rw [successors_draw, if_pos rfl, ← there, known]
    split
    · rename_i leads
      exact put_tabulated (nodup_successors g a.source) leads fun w _ => others w
    · rename_i apart
      have keys : Keyed.keys ((g.successors a.source).map fun w => (w, g.ids a.source w)) =
          g.successors a.source := by simp [Keyed.keys, Function.comp_def, Keyed.key]
      rw [Keyed.put_of_not_mem (by rw [keys]; exact apart), List.map_append]
      refine congrArg (· ++ _) (List.map_congr_left fun w hw => ?_)
      rw [others w fun same => apart (same ▸ hw)]
  simp only [Table.draw, met, between_table whole, Arc.nameAt, if_neg named, if_neg new,
    row_table whole, row]
  exact put_tabulated (f := fun v => (g.successors v).map fun w => (w, g.ids v w))
    (h := fun v => ((g.draw a).successors v).map fun w => (w, (g.draw a).ids v w)) whole.once
    source fun v _ => elsewhere v

/-- Vertices are met one after another. -/
theorem meetAll_table (whole : g.Whole) (vs : List Value) :
    vs.foldl Table.meet g.table = table { g with vertices := vs.foldl known g.vertices } := by
  induction vs generalizing g with
  | nil => rfl
  | cons v vs ih =>
    rw [List.foldl_cons, meet_table whole, ih (whole.meet v)]
    rfl

/-- Arcs are drawn one after another. Their ends are met as they come. -/
theorem drawAll_table (whole : g.Whole) {arcs : List Arc} (named : ∀ a ∈ arcs, a.id ≠ .null)
    (once : ((g.arcs ++ arcs).map Arc.id).Nodup) :
    arcs.foldl Table.draw g.table = table ⟨addEnds arcs g.vertices, g.arcs ++ arcs⟩ := by
  induction arcs generalizing g with
  | nil => simp [addEnds]
  | cons a arcs ih =>
    let g' : Graph := { g with vertices := known (known g.vertices a.source) a.target }
    have whole' : g'.Whole := (whole.meet a.source).meet a.target
    have source : a.source ∈ g'.vertices := mem_known.mpr (Or.inl (mem_known.mpr (Or.inr rfl)))
    have target : a.target ∈ g'.vertices := mem_known.mpr (Or.inr rfl)
    have met : (g.table.meet a.source).meet a.target = g'.table := by
      rw [meet_table whole, meet_table (whole.meet a.source)]
    have again : g.table.draw a = g'.table.draw a := by
      have here : ∀ v ∈ g'.vertices, g'.table.meet v = g'.table := fun v hv =>
        if_pos ((keys_table g').symm ▸ hv)
      simp only [Table.draw, met, here _ source, here _ target]
    have new : a.id ∉ g'.ids a.source a.target := by
      intro old
      obtain ⟨b, hb, same⟩ := List.mem_map.mp old
      rw [List.map_append] at once
      refine List.disjoint_of_nodup_append once (List.mem_map_of_mem (List.mem_of_mem_filter hb)) ?_
      rw [same]
      exact List.mem_map_of_mem List.mem_cons_self
    rw [List.append_cons] at once ⊢
    obtain ⟨here, others⟩ := List.forall_mem_cons.mp named
    rw [List.foldl_cons, again, draw_table whole' source target here new,
      ih (whole'.draw source target) others once]
    rfl

theorem table_ofDiagram {d : Diagram} (distinct : d.Distinct)
    (named : ∀ a ∈ (ofDiagram d).arcs, a.id ≠ .null) :
    Table.ofDiagram d = (ofDiagram d).table := by
  have vertices : (Keyed.keys d.nodes).foldl known [] = Keyed.keys d.nodes := by
    have one_by_one : ∀ vs ws : List Value, (ws ++ vs).Nodup → vs.foldl known ws = ws ++ vs := by
      intro vs
      induction vs with
      | nil => simp
      | cons v vs ih =>
        intro ws once
        have fresh : v ∉ ws := fun old =>
          List.disjoint_of_nodup_append once old List.mem_cons_self
        rw [List.append_cons] at once ⊢
        rw [List.foldl_cons, known, if_neg fresh, ih _ once]
    exact one_by_one _ [] distinct.nodes
  have none_yet : Whole ⟨[], []⟩ := ⟨List.nodup_nil, by simp⟩
  have nodes : (Keyed.keys d.nodes).foldl Table.meet [] = table ⟨Keyed.keys d.nodes, []⟩ := by
    have met := meetAll_table none_yet (Keyed.keys d.nodes)
    rwa [vertices] at met
  have whole : Whole ⟨Keyed.keys d.nodes, []⟩ := ⟨distinct.nodes, by simp⟩
  rw [Table.ofDiagram, nodes]
  refine drawAll_table whole named ?_
  simpa [Function.comp_def, Keyed.keys, Keyed.key] using distinct.edges

/-! ### Numbers of arcs -/

/-- Whatever falls under one of several names is found once under these. -/
theorem gather_perm {α : Type} {f : α → Value} {names : List Value} (once : names.Nodup)
    {xs : List α} (named : ∀ x ∈ xs, f x ∈ names) :
    (names.flatMap fun k => xs.filter fun x => f x == k).Perm xs := by
  induction names generalizing xs with
  | nil =>
    cases xs with
    | nil => exact .nil
    | cons x xs => cases named x List.mem_cons_self
  | cons k ks ih =>
    obtain ⟨new, once⟩ := List.nodup_cons.mp once
    -- what falls under a later name does not fall under the first
    have later : ∀ j ∈ ks, (xs.filter fun x => f x == j) =
        (xs.filter fun x => !(f x == k)).filter fun x => f x == j := by
      intro j hj
      rw [List.filter_filter]
      refine List.filter_congr fun x _ => ?_
      by_cases here : f x = j
      · have other : j ≠ k := fun same => new (same ▸ hj)
        simp [here, other]
      · simp [here]
    have left : ∀ x ∈ xs.filter fun x => !(f x == k), f x ∈ ks := by
      intro x hx
      obtain ⟨hx, other⟩ := List.mem_filter.mp hx
      exact (List.mem_cons.mp (named x hx)).resolve_left (by simpa using other)
    rw [List.flatMap_cons, List.flatMap_congr later]
    exact ((ih once left).append_left _).trans (List.filter_append_perm _ xs)

theorem ids_eq (g : Graph) (v w : Value) : g.ids v w =
    ((g.arcs.filter fun a => a.source == v).filter fun a => a.target == w).map Arc.id := by
  rw [ids, List.filter_filter]
  exact congrArg (List.map Arc.id) (List.filter_congr fun a _ => Bool.and_comm ..)

theorem leaving_table (whole : g.Whole) (v : Value) :
    (g.table.leaving v).Perm ((g.arcs.filter fun a => a.source == v).map Arc.id) := by
  rw [Table.leaving, row_table whole, List.flatMap_map]
  simp only [ids_eq, ← List.map_flatMap]
  refine (gather_perm (nodup_successors g v) fun a ha => mem_successors.mpr ?_).map _
  obtain ⟨ha, here⟩ := List.mem_filter.mp ha
  exact ⟨a, ha, beq_iff_eq.mp here, rfl⟩

theorem outDegree_table (whole : g.Whole) (v : Value) : g.table.outDegree v = g.outDegree v :=
  (leaving_table whole v).length_eq.trans (List.length_map _)

theorem flatMap_table (g : Graph) (f : Value → List Value) :
    (g.table.flatMap fun r => f r.1) = g.vertices.flatMap f := by
  simp [table, List.flatMap_map]

theorem inDegree_table (whole : g.Whole) (v : Value) : g.table.inDegree v = g.inDegree v := by
  have each : ∀ u, g.table.between u v =
      ((g.arcs.filter fun a => a.target == v).filter fun a => a.source == u).map Arc.id := by
    intro u
    rw [between_table whole, ids, List.filter_filter]
  rw [Table.inDegree, flatMap_table g fun u => g.table.between u v]
  simp only [each, ← List.map_flatMap]
  rw [List.length_map]
  refine (gather_perm whole.once fun a ha => ?_).length_eq
  exact (whole.ends a (List.mem_of_mem_filter ha)).1

theorem size_table (whole : g.Whole) : g.table.size = g.arcs.length := by
  rw [Table.size, flatMap_table g g.table.leaving]
  refine (List.Perm.flatMap_left g.vertices fun v _ => leaving_table whole v).length_eq.trans ?_
  rw [← List.map_flatMap, List.length_map]
  exact (gather_perm whole.once fun a ha => (whole.ends a ha).1).length_eq

theorem adjacency_table (g : Graph) : g.table.adjacency = g.adjacency := by
  have rows : g.table.map (fun r => (r.1, (Keyed.keys r.2).mergeSort Value.upTo)) =
      g.vertices.map fun v => (v, (g.successors v).mergeSort Value.upTo) := by
    simp [table, Keyed.keys, Keyed.key, Function.comp_def]
  rw [Table.adjacency, rows, adjacency]
  exact (List.map_mergeSort (r := Value.upTo)
    (f := fun v => (v, (g.successors v).mergeSort Value.upTo)) fun _ _ _ _ => rfl).symm

/-! ### Graphs of diagrams -/

theorem between_eq_ids {source target : Value} (named : ∀ a ∈ g.arcs, a.id ≠ .null) :
    g.between source target = g.ids source target := by
  rw [between, ids]
  refine List.ext_getElem (by simp) fun i _ _ => ?_
  simp only [List.getElem_mapIdx, List.getElem_map, Arc.nameAt]
  exact if_neg (named _ (List.mem_of_mem_filter (List.getElem_mem _)))

end Graph

namespace Diagram
variable {d : Diagram}

/-- The ids of nodes and edges are texts, and so is whatever edges begin and end at. -/
structure Textual (d : Diagram) : Prop where
  nodes : ∀ n ∈ d.nodes, n.id.isText
  edges : ∀ e ∈ d.edges, e.id.isText
  ends : ∀ e ∈ d.edges, e.source.isText ∧ e.target.isText

theorem Textual.mentions (texts : d.Textual) {v : Value} (mentioned : d.Mentions v) : v.isText := by
  rcases mentioned with there | ⟨e, he, rfl | rfl⟩
  · obtain ⟨n, hn, rfl⟩ := hasNode_iff.mp there
    exact texts.nodes n hn
  · exact (texts.ends e he).1
  · exact (texts.ends e he).2

/-- The ids of the edges from the one id to the other, in their order. -/
def idsBetween (d : Diagram) (source target : Value) : List Value :=
  (d.edges.filter fun e => e.source == source && e.target == target).map Edge.id

end Diagram

namespace Graph
variable {d : Diagram}

theorem ids_ofDiagram (d : Diagram) (source target : Value) :
    (ofDiagram d).ids source target = d.idsBetween source target := by
  simp [ids, ofDiagram, Diagram.idsBetween, List.filter_map, Function.comp_def]

theorem inDegree_ofDiagram (d : Diagram) (v : Value) :
    (ofDiagram d).inDegree v = d.edges.countP fun e => e.target == v := by
  simp [inDegree, ofDiagram, List.filter_map, Function.comp_def, List.countP_eq_length_filter]

theorem outDegree_ofDiagram (d : Diagram) (v : Value) :
    (ofDiagram d).outDegree v = d.edges.countP fun e => e.source == v := by
  simp [outDegree, ofDiagram, List.filter_map, Function.comp_def, List.countP_eq_length_filter]

theorem isSortable_ofDiagram (texts : d.Textual) : (ofDiagram d).isSortable = true := by
  have comparable : ∀ vs : List Value, (∀ v ∈ vs, d.Mentions v) →
      Value.areComparable vs = true := by
    intro vs mentioned
    have all : vs.all Value.isText = true :=
      List.all_eq_true.mpr fun v hv => texts.mentions (mentioned v hv)
    rw [Value.areComparable, Bool.or_eq_true, Bool.or_eq_true]
    exact Or.inl (Or.inr all)
  rw [isSortable, Bool.and_eq_true, List.all_eq_true]
  refine ⟨comparable _ fun v => mem_vertices_ofDiagram.mp, fun v _ => comparable _ fun w hw => ?_⟩
  rw [mem_successors, leads_ofDiagram] at hw
  obtain ⟨e, he, _, rfl⟩ := hw
  exact Or.inr ⟨e, he, Or.inr rfl⟩

/-- Where all ids are texts, what is next to what comes in strict order. -/
theorem adjacency_ofDiagram (distinct : d.Distinct) (texts : d.Textual) :
    let rows := (ofDiagram d).adjacency
    (rows.map Prod.fst).Pairwise Value.Precedes ∧ (∀ v, v ∈ rows.map Prod.fst ↔ d.Mentions v) ∧
    ∀ row ∈ rows, row.2.Pairwise Value.Precedes ∧ ∀ w, w ∈ row.2 ↔ d.Joins row.1 w := by
  intro rows
  have firsts : rows.map Prod.fst = (ofDiagram d).vertices.mergeSort Value.upTo := by
    simp [rows, adjacency, Function.comp_def]
  have vertex : ∀ v ∈ (ofDiagram d).vertices, v.isText := fun v hv =>
    texts.mentions (mem_vertices_ofDiagram.mp hv)
  rw [firsts]
  refine ⟨Value.precedes_mergeSort vertex (whole_ofDiagram distinct).once, fun v => ?_, ?_⟩
  · rw [List.mem_mergeSort, mem_vertices_ofDiagram]
  · intro row hr
    obtain ⟨v, -, rfl⟩ := List.mem_map.mp hr
    have next : ∀ w, w ∈ (ofDiagram d).successors v ↔ d.Joins v w := fun w => by
      rw [mem_successors, leads_ofDiagram]
    refine ⟨Value.precedes_mergeSort (fun w hw => ?_) (nodup_successors _ v), fun w => ?_⟩
    · obtain ⟨e, he, _, rfl⟩ := (next w).mp hw
      exact (texts.ends e he).2
    · rw [List.mem_mergeSort, next]

/-- Where all ids are texts, the graph of a diagram has all of its edges, whatever they begin and
end at. The list of its arcs and its table both answer with the edges of the diagram, and what is
next to what comes in strict order. -/
theorem edges_kept (distinct : d.Distinct) (texts : d.Textual) :
    let g := ofDiagram d
    let t := Table.ofDiagram d
    ofDiagram? d = .ok g ∧
    (∀ source target : Text,
      g.between? (.text source) (.text target) = .ok (d.idsBetween (.text source) (.text target)) ∧
      t.between (.text source) (.text target) = d.idsBetween (.text source) (.text target)) ∧
    (∀ v, g.inDegree v = (d.edges.countP fun e => e.target == v) ∧ t.inDegree v = g.inDegree v) ∧
    (∀ v, g.outDegree v = (d.edges.countP fun e => e.source == v) ∧ t.outDegree v = g.outDegree v) ∧
    g.arcs.length = d.edges.length ∧ t.size = d.edges.length ∧
    ∃ rows, g.adjacency? = .ok rows ∧ t.adjacency = rows ∧
      (rows.map Prod.fst).Pairwise Value.Precedes ∧
      (∀ v, v ∈ rows.map Prod.fst ↔ d.Mentions v) ∧
      ∀ row ∈ rows, row.2.Pairwise Value.Precedes ∧ ∀ w, w ∈ row.2 ↔ d.Joins row.1 w := by
  intro g t
  have whole : g.Whole := whole_ofDiagram distinct
  have named : ∀ a ∈ g.arcs, a.id ≠ .null := by
    intro a ha none
    obtain ⟨e, he, rfl⟩ := List.mem_map.mp ha
    obtain ⟨id, some⟩ := Value.isText_iff.mp (texts.edges e he)
    cases none.symm.trans some
  have table : t = g.table := table_ofDiagram distinct named
  have size : g.arcs.length = d.edges.length := List.length_map _
  have mentioned : ∀ v, d.Mentions v → v ≠ .null ∧ v.isSimple := by
    intro v hv
    obtain ⟨id, rfl⟩ := Value.isText_iff.mp (texts.mentions hv)
    exact ⟨by simp, rfl⟩
  have between : ∀ source target : Text,
      g.between? (.text source) (.text target) = .ok (d.idsBetween (.text source) (.text target)) ∧
      t.between (.text source) (.text target) = d.idsBetween (.text source) (.text target) := by
    refine fun source target => ⟨?_, by rw [table, between_table whole, ids_ofDiagram]⟩
    simp only [between?, Value.simple, Value.isSimple_text, if_true]
    rw [between_eq_ids named, ids_ofDiagram]
    split <;> rfl
  exact ⟨ofDiagram?_eq mentioned, between,
    fun v => ⟨inDegree_ofDiagram d v, by rw [table, inDegree_table whole]⟩,
    fun v => ⟨outDegree_ofDiagram d v, by rw [table, outDegree_table whole]⟩,
    size, by rw [table, size_table whole, size],
    g.adjacency, if_pos (isSortable_ofDiagram texts), by rw [table, adjacency_table],
    adjacency_ofDiagram distinct texts⟩

/-- Two edges between the same ids, one from a node to itself and one to what is no node. -/
def parallel : Diagram where
  nodes := [.bare (.text "B"), .bare (.text "A")]
  edges := [
    { id := .text "second", source := .text "B", target := .text "A" },
    { id := .text "loop", source := .text "B", target := .text "B" },
    { id := .text "first", source := .text "B", target := .text "A" },
    { id := .text "away", source := .text "A", target := .text "C" }]

theorem parallel_edges_kept :
    parallel.Distinct ∧ parallel.Textual ∧
    (ofDiagram parallel).between? (.text "B") (.text "A") =
      .ok [.text "second", .text "first"] ∧
    (ofDiagram parallel).inDegree (.text "C") = 1 ∧ (ofDiagram parallel).outDegree (.text "C") = 0 ∧
    (ofDiagram parallel).outDegree (.text "B") = 3 ∧ (ofDiagram parallel).arcs.length = 4 ∧
    ∃ rows, (ofDiagram parallel).adjacency? = .ok rows ∧ .text "C" ∈ rows.map Prod.fst ∧
      ∀ row ∈ rows, row.1 = .text "B" → .text "B" ∈ row.2 ∧ .text "C" ∉ row.2 := by
  have distinct : parallel.Distinct := ⟨by decide, by decide, by decide⟩
  have texts : parallel.Textual := ⟨by decide, by decide, by decide⟩
  obtain ⟨-, between, into, out, size, -, rows, answer, -, -, named, led⟩ :=
    edges_kept distinct texts
  refine ⟨distinct, texts, (between "B" "A").1, (into _).1, (out _).1, (out _).1, size,
    rows, answer, (named _).mpr ?_, fun row there called => ?_⟩
  · simp [Diagram.Mentions, parallel]
  · have joins := (led row there).2
    rw [joins, joins, called]
    simp [Diagram.Joins, parallel]

/-- An edge without an id. -/
def nameless : Diagram where
  nodes := [.bare (.text "A"), .bare (.text "B")]
  edges := [{ id := .null, source := .text "A", target := .text "B" }]

/-- An edge to nowhere. -/
def endless : Diagram where
  nodes := [.bare (.text "A")]
  edges := [{ id := .text "e", source := .text "A", target := .null }]

/-- One edge to a text and one to a number. -/
def mixed : Diagram where
  nodes := [.bare (.text "A")]
  edges := [
    { id := .text "e", source := .text "A", target := .text "B" },
    { id := .text "f", source := .text "A", target := .number (.int 1) }]

/-- An edge without an id goes by a number, an edge to nowhere has no place in a graph, and texts
and numbers have no common order. -/
theorem nameless_edge_renamed :
    nameless.Distinct ∧
    (do (← ofDiagram? nameless).between? (.text "A") (.text "B")) = .ok [.number (.int 0)] ∧
    (Table.ofDiagram nameless).between (.text "A") (.text "B") = [.number (.int 0)] ∧
    nameless.idsBetween (.text "A") (.text "B") = [.null] ∧
    ofDiagram? endless = .error .namelessVertex ∧
    (do (← ofDiagram? mixed).adjacency?) = .error .wrongForm := by
  exact ⟨⟨by decide, by decide, by decide⟩, by decide +kernel, by decide +kernel, by decide,
    by decide +kernel, by decide +kernel⟩

end Graph
end Flowchart
