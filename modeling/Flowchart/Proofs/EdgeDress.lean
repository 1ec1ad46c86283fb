import Flowchart.Proofs.Drafts

/-! Classes and animations of edges that are written and read again. They are said of ids. An edge
that wears none of them is drawn without its id and gets a new one, which may be the id that a later
edge asks for: then it is the earlier edge that gets what is said of the id. -/
namespace Flowchart

/-! ### What edges wear -/

namespace Edge
variable {e f : Edge} {es fs : List Edge}

/-- The second edge has the classes and the animation of the first one. -/
structure Wears (e f : Edge) : Prop where
  classes : ∀ c, c ∈ f.classes ↔ c ∈ e.classes
  animate : f.animate = e.animate
  animation : f.animation = e.animation

/-- The second edge goes from where the first one goes to where it goes. -/
def SameEnds (e f : Edge) : Prop := f.source = e.source ∧ f.target = e.target

/-- The second edge has the id of the first one, if the line of the first one tells it. -/
def KeepsId (e f : Edge) : Prop := Writing.needsId e → f.id = e.id

/-- The edge has no class and no animation. -/
structure Undressed (e : Edge) : Prop where
  classes : e.classes = []
  animate : e.animate = .bool false
  animation : e.animation = .null

theorem Wears.empty_iff (h : e.Wears f) : f.classes = [] ↔ e.classes = [] := by
  simp only [List.eq_nil_iff_forall_not_mem, h.classes]

theorem Wears.undressed_iff (h : e.Wears f) : f.Undressed ↔ e.Undressed := by
  constructor
  · rintro ⟨classes, animate, animation⟩
    exact ⟨h.empty_iff.mp classes, h.animate ▸ animate, h.animation ▸ animation⟩
  · rintro ⟨classes, animate, animation⟩
    exact ⟨h.empty_iff.mpr classes, h.animate.trans animate, h.animation.trans animation⟩

theorem Undressed.wears (he : e.Undressed) (hf : f.Undressed) : e.Wears f :=
  ⟨fun c => by rw [he.classes, hf.classes], hf.animate.trans he.animate.symm,
    hf.animation.trans he.animation.symm⟩

theorem Fitted.needsId_iff (h : e.Fitted) : Writing.needsId e = false ↔ e.Undressed := by
  obtain ⟨b, animate⟩ := h.animate
  have moves : e.animate.holds = b := by
    rw [animate]
    rfl
  simp only [Writing.needsId, h.named, moves, Bool.false_or, Bool.or_eq_false_iff]
  constructor
  · rintro ⟨⟨rfl, unset⟩, none_here⟩
    exact ⟨by simpa using none_here, animate, Value.eq_null_of_isSome (by simp [unset])⟩
  · intro bare
    refine ⟨⟨?_, ?_⟩, ?_⟩
    · simpa [animate] using bare.animate
    · rw [bare.animation]
      rfl
    · rw [bare.classes]
      rfl

theorem place_of_id (once : (es.map Edge.id).Nodup) {i j : Nat} (hi : i < es.length)
    (hj : j < es.length) (same : es[i].id = es[j].id) : i = j := by
  have hi' : i < (es.map Edge.id).length := by simpa using hi
  have hj' : j < (es.map Edge.id).length := by simpa using hj
  have ids : (es.map Edge.id)[i] = (es.map Edge.id)[j] := by
    rw [List.getElem_map, List.getElem_map, same]
  exact once.getElem_inj_iff.mp ids

/-- The edges are drawn again one after another, each under an id of its own, and each wears what
is said of its id. An edge that has to have its id finds it taken only by an earlier one. -/
structure Redressed (es fs : List Edge) : Prop where
  length : fs.length = es.length
  once : (es.map Edge.id).Nodup
  apart : (fs.map Edge.id).Nodup
  taken : ∀ (j : Nat) (hj : j < es.length), Writing.needsId es[j] →
    es[j].id ∈ (fs.map Edge.id).take (j + 1)
  dressed : ∀ f ∈ fs, ∀ e ∈ es, e.id = f.id → e.Wears f
  bare : ∀ f ∈ fs, f.id ∉ es.map Edge.id → f.Undressed

namespace Redressed

/-- If every edge wears what it wore, no edge has lost an id that it has to have. -/
theorem id_of_wears (h : Redressed es fs) (fitted : ∀ e ∈ es, e.Fitted)
    (all : ∀ (i : Nat) (hi : i < es.length) (hi' : i < fs.length), es[i].Wears fs[i])
    (j : Nat) (hj : j < es.length) (hj' : j < fs.length) (needs : Writing.needsId es[j]) :
    fs[j].id = es[j].id := by
  induction j using Nat.strongRecOn with
  | ind j ih =>
    obtain ⟨i, hi, same⟩ := List.mem_take_iff_getElem.mp (h.taken j hj needs)
    simp only [List.length_map, List.getElem_map, Nat.lt_min] at hi same
    obtain ⟨le, hi'⟩ := hi
    rcases Nat.lt_or_eq_of_le (Nat.le_of_lt_succ le) with earlier | rfl
    · exfalso
      have here : i < es.length := h.length ▸ hi'
      -- the earlier edge wears what the later one wears, so it needs its own id as well
      have wears := h.dressed fs[i] (List.getElem_mem hi') es[j] (List.getElem_mem hj) same.symm
      have needs' : Writing.needsId es[i] := by
        by_contra free
        rw [Bool.not_eq_true, (fitted _ (List.getElem_mem here)).needsId_iff,
          ← (all i here hi').undressed_iff, wears.undressed_iff,
          ← (fitted _ (List.getElem_mem hj)).needsId_iff, needs] at free
        cases free
      have own := ih i earlier here hi' needs'
      have := place_of_id h.once here hj (own.symm.trans same)
      omega
    · exact same

/-- If no edge has lost an id that it has to have, every edge wears what it wore. -/
theorem wears_of_id (h : Redressed es fs) (fitted : ∀ e ∈ es, e.Fitted)
    (kept : ∀ (i : Nat) (hi : i < es.length) (hi' : i < fs.length),
      Writing.needsId es[i] → fs[i].id = es[i].id)
    (j : Nat) (hj : j < es.length) (hj' : j < fs.length) : es[j].Wears fs[j] := by
  cases needs : Writing.needsId es[j] with
  | true =>
    exact h.dressed _ (List.getElem_mem hj') _ (List.getElem_mem hj) (kept j hj hj' needs).symm
  | false =>
    have bare := (fitted _ (List.getElem_mem hj)).needsId_iff.mp needs
    refine bare.wears ?_
    by_cases known : fs[j].id ∈ es.map Edge.id
    · obtain ⟨e, he, same⟩ := List.mem_map.mp known
      obtain ⟨i, hi, rfl⟩ := List.mem_iff_getElem.mp he
      have hi' : i < fs.length := h.length ▸ hi
      have wears := h.dressed _ (List.getElem_mem hj') _ he same
      refine wears.undressed_iff.mpr ((fitted _ he).needsId_iff.mp ?_)
      -- an edge that has to have the id would have it, so it would be this one
      by_contra has
      rw [Bool.not_eq_false] at has
      obtain rfl := place_of_id h.apart hi' hj' ((kept i hi hi' has).trans same)
      rw [needs] at has
      cases has
    · exact h.bare _ (List.getElem_mem hj') known

theorem wears_iff (h : Redressed es fs) (fitted : ∀ e ∈ es, e.Fitted) :
    List.Forall₂ Wears es fs ↔ List.Forall₂ KeepsId es fs := by
  rw [List.forall₂_iff_get, List.forall₂_iff_get]
  constructor
  · rintro ⟨length, all⟩
    exact ⟨length, h.id_of_wears fitted all⟩
  · rintro ⟨length, kept⟩
    exact ⟨length, h.wears_of_id fitted kept⟩

end Redressed

/-- An edge that wears nothing takes what is said of an edge that can be written. -/
theorem Fitted.animates (h : e.Fitted) (bare : f.Undressed) :
    (e.animates f).animate = e.animate ∧ (e.animates f).animation = e.animation := by
  obtain ⟨b, animate⟩ := h.animate
  constructor
  · rw [Edge.animates, bare.animate, animate]
    cases b <;> rfl
  · rw [Edge.animates, bare.animation]
    rcases h.animation with speed | speed | speed
    all_goals
      rw [speed]
      rfl

/-- The line of the edge asks for an id that was made, for it or for what it was. -/
theorem Drafted.marked (h : e.Drafted) : EdgeId.generatedMark <+: e.drawn.asked := by
  obtain ⟨t, called, _, mark⟩ := h.id
  cases needs : Writing.needsId e.drawn with
  | true =>
    have same : e.drawn.asked = t := by
      rw [asked, if_pos needs]
      show e.id.shown = t
      rw [called]
      rfl
    rwa [same]
  | false =>
    rw [asked_eq_generated needs]
    exact EdgeId.prefix_ofContent ..

end Edge

namespace Diagram
variable {d d' : Diagram} {e r : Edge}

theorem mem_dressing {c : Value} : c ∈ (d.dressing r).classes ↔
    c ∈ r.classes ∨ (c, r.id) ∈ spareUses d.nodes d.classUses := by
  rw [dressing_eq]
  show c ∈ d.used.foldl (donned _ r.id) r.classes ↔ _
  rw [mem_foldl_donned]
  have known (use : (c, r.id) ∈ spareUses d.nodes d.classUses) : c ∈ d.used :=
    List.mem_eraseDups.mpr (List.mem_map_of_mem (mem_spareUses.mp use).1)
  rw [and_iff_right_of_imp known]

theorem mem_spareUses_edges {c id : Value} : (c, id) ∈ spareUses d.nodes d.classUses ↔
    id ∉ d.nodes.map Node.id ∧ ∃ e ∈ d.edges, e.id = id ∧ c ∈ e.classes := by
  rw [mem_spareUses, and_comm, and_congr_right_iff]
  intro spare
  simp only [classUses, List.mem_append, List.mem_flatMap, List.mem_map, Prod.mk.injEq]
  constructor
  · rintro (⟨n, hn, c, _, rfl, rfl⟩ | ⟨e, he, c, hc, rfl, rfl⟩)
    · exact absurd (List.mem_map_of_mem hn) spare
    · exact ⟨e, he, rfl, hc⟩
  · rintro ⟨e, he, rfl, hc⟩
    exact Or.inr ⟨e, he, c, hc, rfl, rfl⟩

/-- An edge that has the id of another one gets what is said of that one. -/
theorem wears_dressing (once : (d.edges.map Edge.id).Nodup) (he : e ∈ d.edges) (fitted : e.Fitted)
    (bare : r.Undressed) (spare : r.id ∉ d.nodes.map Node.id) (same : e.id = r.id) :
    e.Wears (d.dressing (d.animated r)) := by
  have animated : d.animated r = e.animates r :=
    foldl_at Edge.id Edge.id Edge.animates (fun _ _ => rfl) once he same.symm
  obtain ⟨animate, animation⟩ := fitted.animates bare
  refine ⟨fun c => ?_, ?_, ?_⟩
  · rw [mem_dressing, animated]
    show c ∈ r.classes ∨ (c, r.id) ∈ _ ↔ _
    rw [bare.classes, mem_spareUses_edges]
    constructor
    · rintro (none_here | ⟨_, e', he', called, hc⟩)
      · cases none_here
      · rwa [List.inj_on_of_nodup_map once he he' (same.trans called.symm)]
    · exact fun hc => Or.inr ⟨spare, e, he, same, hc⟩
  · rw [dressing_eq, animated]
    exact animate
  · rw [dressing_eq, animated]
    exact animation

theorem undressed_dressing (bare : r.Undressed) (nobody : r.id ∉ d.edges.map Edge.id) :
    (d.dressing (d.animated r)).Undressed := by
  have still : d.animated r = r := foldl_nowhere Edge.id Edge.id Edge.animates nobody
  rw [still]
  refine ⟨List.eq_nil_iff_forall_not_mem.mpr fun c hc => ?_, ?_, ?_⟩
  · rw [mem_dressing, bare.classes, mem_spareUses_edges] at hc
    rcases hc with none_here | ⟨_, e, he, called, _⟩
    · cases none_here
    · exact nobody (called ▸ List.mem_map_of_mem he)
  · rw [dressing_eq]
    exact bare.animate
  · rw [dressing_eq]
    exact bare.animation

/-- No node is called as an edge is when it is drawn again. -/
theorem spare_redrawn (has : d.Has .drafted) (hr : r ∈ d.edgesRedrawn) :
    r.id ∉ d.nodes.map Node.id := by
  intro taken
  obtain ⟨n, hn, same⟩ := List.mem_map.mp taken
  obtain ⟨t, called, plain⟩ := (has.nodes n hn).2
  obtain ⟨_, he, used, rfl⟩ := Edge.mem_allRedrawn hr
  obtain ⟨e, here, rfl⟩ := List.mem_map.mp he
  obtain rfl : t = EdgeId.distinct e.drawn.asked used := Value.text.inj (called.symm.trans same)
  have mark := (has.edges e here).marked.trans (EdgeId.prefix_distinct e.drawn.asked used)
  have hyphen : '-' ∈ EdgeId.distinct e.drawn.asked used := mark.subset (by decide)
  exact absurd (plain.chars '-' hyphen) (by decide)

theorem redressed (has : d.Has .drafted) (integral : d.Integral) (legible : d.Legible)
    (integral' : d'.Integral)
    (told : d'.edges.map Edge.bared = d.edgesRedrawn.map fun f => d.dressing (d.animated f)) :
    Edge.Redressed d.edges d'.edges := by
  have made : ∀ f ∈ d'.edges, ∃ r ∈ d.edgesRedrawn, r.Undressed ∧ r.id = f.id ∧
      d.dressing (d.animated r) = f.bared := by
    intro f hf
    have bared : f.bared ∈ d.edgesRedrawn.map fun f => d.dressing (d.animated f) :=
      told ▸ List.mem_map_of_mem hf
    obtain ⟨r, hr, same⟩ := List.mem_map.mp bared
    have id : r.id = f.id := by
      have ids := congrArg Edge.id same
      rwa [dressing_eq, animated_rest] at ids
    obtain ⟨e, _, used, rfl⟩ := Edge.mem_allRedrawn hr
    exact ⟨_, hr, ⟨rfl, rfl, rfl⟩, id, same⟩
  refine ⟨(edges_told told).length_eq.symm, integral.distinct.edges, integral'.distinct.edges,
    fun j hj needs => ?_, fun f hf e he same => ?_, fun f hf nobody => ?_⟩
  · have here : d.edges[j] ∈ d.edges.take (j + 1) :=
      List.mem_take_iff_getElem.mpr ⟨j, by omega, rfl⟩
    have asked := @Edge.asked_mem_allRedrawn _ [] _ (List.mem_map_of_mem (f := Edge.drawn) here)
    rw [← Edge.id_eq_asked (legible.edges _ (List.getElem_mem hj)).drawn needs, List.map_take,
      ← Edge.take_allRedrawn, List.map_take] at asked
    rwa [ids_told told]
  · obtain ⟨r, hr, bare, called, whole⟩ := made f hf
    have wears := wears_dressing integral.distinct.edges he (has.edges e he).toFitted bare
      (spare_redrawn has hr) (same.trans called.symm)
    rw [whole] at wears
    exact ⟨wears.classes, wears.animate, wears.animation⟩
  · obtain ⟨r, _, bare, called, whole⟩ := made f hf
    have undressed := undressed_dressing bare (called ▸ nobody)
    rw [whole] at undressed
    exact ⟨undressed.classes, undressed.animate, undressed.animation⟩

/-- Edges come back between the same ends. They wear what they wore just if no edge that wears
anything has lost its id; and none has if every edge has the id that would be made for it now. -/
theorem dress_comes_back {cs : List Command} (drafts : ∀ c ∈ cs, c.Drafts)
    (counted : ∀ e ∈ (empty.edited cs).edges, e.visible.isSome →
      ((empty.edited cs).edges.length : Int) < countLimit) :
    ∃ s d', (empty.edited cs).write {} = .ok s ∧ Diagram.read s = .ok d' ∧
      List.Forall₂ Edge.SameEnds (empty.edited cs).edges d'.edges ∧
      (List.Forall₂ Edge.Wears (empty.edited cs).edges d'.edges ↔
        List.Forall₂ Edge.KeepsId (empty.edited cs).edges d'.edges) ∧
      (Edge.AreDrawn [] ((empty.edited cs).edges.map Edge.drawn) →
        List.Forall₂ Edge.Wears (empty.edited cs).edges d'.edges) := by
  obtain ⟨has, integral⟩ := Editor.drafted_after has_empty integral_empty drafts
  generalize empty.edited cs = d at *
  have legible := legible_of_drafted has integral counted
  obtain ⟨s, d', written, read, _, told⟩ := legible.read_write integral
  have wears := (redressed has integral legible (integral_read read) told).wears_iff fun e he =>
    (has.edges e he).toFitted
  refine ⟨s, d', written, read, ?_, wears, fun areDrawn => wears.mpr ?_⟩
  · refine (edges_told told).imp ?_
    rintro e f ⟨id, same⟩
    rw [same]
    exact ⟨rfl, rfl⟩
  · have length := (edges_told told).length_eq
    have ids := ids_come_back (k := d.edges.length) legible integral.distinct.edges told (by
      rwa [List.take_length])
    rw [List.take_of_length_le (by simp [length]), List.take_of_length_le (by simp)] at ids
    have same : List.Forall₂ Eq (d.edges.map Edge.id) (d'.edges.map Edge.id) := by
      rw [List.forall₂_eq_eq_eq, ids]
    rw [List.forall₂_map_left_iff, List.forall₂_map_right_iff] at same
    exact same.imp fun _ _ same _ => same.symm

/-- Two nodes, an edge from the first to the second, and an edge back. -/
def returning : List Command := [
  .addNode (.bare (.text "A")), .addNode (.bare (.text "B")),
  .addEdge { id := .null, source := .text "A", target := .text "B" },
  .addEdge { id := .null, source := .text "B", target := .text "A" }]

/-- The first edge is turned round, and the second one gets a class. -/
def turned : List Command := returning ++ [
  .updateEdge (.text "edge-763a13f8") [("source", .text "B"), ("target", .text "A")],
  .updateEdge (.text "edge-9cfa88f8") [("css_classes", .list [.text "hot"])]]

theorem turned_drafts : ∀ c ∈ turned, c.Drafts := by
  have node {t : Text} (plain : PlainId t) : (Command.addNode (.bare (.text t))).Drafts :=
    ⟨Node.legible_bare plain, t, rfl, plain⟩
  intro c hc
  simp only [turned, returning, List.cons_append, List.nil_append, List.mem_cons, List.not_mem_nil,
    or_false] at hc
  rcases hc with rfl | rfl | rfl | rfl | rfl | rfl
  · exact node ⟨by decide, by decide, by decide⟩
  · exact node ⟨by decide, by decide, by decide⟩
  · exact .of_plain (by simp [Value.holds]) rfl (by decide) (by decide)
  · exact .of_plain (by simp [Value.holds]) rfl (by decide) (by decide)
  · refine ⟨by decide, by decide, ?_, ?_, ?_⟩
    all_goals simp
  · refine ⟨by decide, by decide, ?_, ?_, ?_⟩
    · intro v hv cs parts
      obtain rfl : v = .list [.text "hot"] := by simpa using hv
      obtain rfl : cs = [.text "hot"] := (Except.ok.inj parts).symm
      exact fun c hc => ⟨_, List.mem_singleton.mp hc, by decide, by decide⟩
    all_goals simp

theorem turned_comes_back : ∃ s d', (empty.edited turned).write {} = .ok s ∧
    Diagram.read s = .ok d' ∧ List.Forall₂ Edge.SameEnds (empty.edited turned).edges d'.edges ∧
    (List.Forall₂ Edge.Wears (empty.edited turned).edges d'.edges ↔
      List.Forall₂ Edge.KeepsId (empty.edited turned).edges d'.edges) ∧
    (Edge.AreDrawn [] ((empty.edited turned).edges.map Edge.drawn) →
      List.Forall₂ Edge.Wears (empty.edited turned).edges d'.edges) :=
  dress_comes_back turned_drafts (by decide +kernel)

/-- The first edge, which is drawn without its id, gets the id of the second one, and its class. -/
theorem turned_dress_does_not_come_back : ¬ ∀ cs : List Command, (∀ c ∈ cs, c.Drafts) →
    ∃ s d', (empty.edited cs).write {} = .ok s ∧ Diagram.read s = .ok d' ∧
      List.Forall₂ Edge.Wears (empty.edited cs).edges d'.edges := by
  intro stays
  obtain ⟨s, d', written, read, wears⟩ := stays turned turned_drafts
  have line : (empty.edited turned).write {} =
      .ok ("flowchart TB\n    A\n    B\n    B --> A\n".toList ++
        "    B edge-9cfa88f8@--> A\n    class edge-9cfa88f8 hot\n".toList) := by decide +kernel
  have given : (empty.edited turned).edges.map (·.classes.isEmpty) = [true, false] := by
    decide +kernel
  have taken : (Diagram.read ("flowchart TB\n    A\n    B\n    B --> A\n".toList ++
      "    B edge-9cfa88f8@--> A\n    class edge-9cfa88f8 hot\n".toList)).map
      (·.edges.map (·.classes.isEmpty)) = .ok [false, true] := by decide +kernel
  obtain rfl := Except.ok.inj (line.symm.trans written)
  rw [read] at taken
  have same : List.Forall₂ Eq ((empty.edited turned).edges.map (·.classes.isEmpty))
      (d'.edges.map (·.classes.isEmpty)) := by
    rw [List.forall₂_map_left_iff, List.forall₂_map_right_iff]
    refine wears.imp fun e f h => ?_
    rw [Bool.eq_iff_iff, List.isEmpty_iff, List.isEmpty_iff, h.empty_iff]
  rw [List.forall₂_eq_eq_eq, given] at same
  exact absurd (same.trans (Except.ok.inj taken)) (by decide)

end Diagram
end Flowchart
