import Flowchart.Proofs.Assembling
import Flowchart.Proofs.Vocabulary

/-! Statements that stay on one line. What is read of a text stands in its lines, and most of it is
written as it stands there; what may be written in codes can hold any character, and most of it is
written in quotes, with codes. So every statement of a diagram that is read is one line, and the lines
of its text are the statements, unless what was told in codes is written without them. -/
namespace Flowchart
open Text

/-! ### The lines of a source -/

namespace Text

theorem unbroken_of_mem_lines {s l : Text} (h : l ∈ lines s) : ∀ c ∈ l, isLineBreak c = false := by
  suffices all : ∀ l ∈ lines s, ∀ c ∈ l, isLineBreak c = false from all l h
  clear h
  fun_induction lines s with
  | case1 => simp
  | case2 s ih => exact List.forall_mem_cons.mpr ⟨by simp, ih⟩
  | case3 c s _ _ ih => exact List.forall_mem_cons.mpr ⟨by simp, ih⟩
  | case4 c s _ inside _ _ => simpa using inside
  | case5 c s _ inside l ls more ih =>
    rw [more] at ih
    obtain ⟨first, rest⟩ := List.forall_mem_cons.mp ih
    exact List.forall_mem_cons.mpr ⟨List.forall_mem_cons.mpr ⟨by simpa using inside, first⟩, rest⟩

theorem prefix_upTo (part s : Text) : upTo part s <+: s := by
  induction s with
  | nil => exact List.prefix_refl []
  | cons c s ih =>
    unfold upTo
    split
    · exact List.nil_prefix
    · exact List.cons_prefix_cons.mpr ⟨rfl, ih⟩

theorem not_infix_upTo {part : Text} (some_part : part ≠ []) (s : Text) :
    ¬ part <:+: upTo part s := by
  induction s with
  | nil => simpa [upTo] using some_part
  | cons c s ih =>
    unfold upTo
    split
    · simpa using some_part
    · rename_i other
      rw [List.infix_cons_iff]
      rintro (start | inner)
      · have whole := start.trans (List.cons_prefix_cons.mpr ⟨rfl, prefix_upTo part s⟩)
        exact other (List.isPrefixOf_iff_prefix.mpr whole)
      · exact ih inner

end Text

theorem Source.inline_of_meaningful {s l : Text} (h : l ∈ meaningful s) : Inline l := by
  obtain ⟨l, hl, rfl⟩ := List.mem_map.mp (List.mem_of_mem_filter h)
  have cut : Inline (upTo commentMark l) :=
    ⟨fun c hc => unbroken_of_mem_lines hl c ((prefix_upTo _ l).subset hc),
      not_infix_upTo (by decide) l⟩
  exact cut.part (infix_trim _)

/-- The parts of lines are words of their own. -/
theorem vocabulary_inline : Vocabulary Inline fun _ => True where
  inline h := h
  part inner h := h.part inner
  tells _ _ := trivial
  numbered _ := trivial

/-! ### Statements on their lines -/

/-- The statement is one line: it does not end in it, no comment begins in it, and there is something
on it. -/
structure Stays (l : Text) : Prop extends Inline l where
  something : ∃ c ∈ l, isBlank c = false

theorem Stays.trim_ne_nil {l : Text} (h : Stays l) : l.trim ≠ [] := by
  intro blank
  obtain ⟨c, hc, ink⟩ := h.something
  obtain ⟨b, e, whole, hb, he⟩ := exists_trim l
  rw [whole, blank, List.append_nil] at hc
  rcases List.mem_append.mp hc with hc | hc
  · rw [hb c hc] at ink
    cases ink
  · rw [he c hc] at ink
    cases ink

theorem Word.stays {s l : Text} (h : Word s) (there : ∀ c ∈ s, c ∈ l) (inline : Inline l) :
    Stays l := by
  obtain ⟨c, s, rfl⟩ := List.exists_cons_of_ne_nil h.some_text
  exact ⟨inline, c, there c (by simp), h.solid c (by simp)⟩

theorem Line.stays {l : Text} (h : Line l) : Stays l := by
  obtain ⟨c, l, rfl⟩ := List.exists_cons_of_ne_nil h.some_text
  exact ⟨h.toInline, c, by simp, h.tight.start c rfl⟩

theorem Inline.begun {k s : Text} (h : Inline s) (chars : ∀ c ∈ k, isLineBreak c = false ∧ c ≠ '%')
    (something : k.all isBlank = false) : Stays (k ++ s) := by
  obtain ⟨c, hc, ink⟩ := List.all_eq_false.mp something
  exact ⟨.before chars h, c, List.mem_append_left s hc, by simpa using ink⟩

/-! ### What statements consist of -/

namespace Value
variable {v : Value}

theorem asText_eq_ok {t : Text} : v.asText = .ok t ↔ v = .text t := by
  cases v <;> simp [asText]

theorem Says.inline (h : v.Says Inline) : Inline v.shown := by
  rcases h with rfl | ⟨t, rfl, inline⟩
  · exact .of_chars (by decide)
  · exact inline

theorem Counts.inline (h : v.Counts) (given : v.isSome) : Inline v.shown := by
  obtain ⟨n, rfl⟩ := isInt_iff.mp (h given)
  rw [shown_int]
  refine .of_chars fun c hc => ?_
  obtain ⟨solid, mark⟩ := chars_ofInt n c hc
  refine ⟨isLineBreak_of_not_isBlank solid, ?_⟩
  rintro rfl
  exact mark (by decide)

end Value

/-- What is told of the node in codes does not break its line: what is written in quotes has no line
break but line feeds, and what is written without is on one line. -/
structure Node.Tame (n : Node) : Prop where
  text : OnlyFeeds n.text.shown
  shape : Inline n.shape.name
  pictures : ∀ f ∈ Writing.pictures n, OnlyFeeds f.2.shown
  placements : ∀ f ∈ Writing.placements n, Inline f.2.shown
  tooltip : n.link.isSome = false → OnlyFeeds n.tooltip.shown
  linked : n.link.holds → Inline n.tooltip.shown

/-- What is told of the edge in codes does not break its lines. -/
structure Edge.Tame (e : Edge) : Prop where
  text : OnlyFeeds e.text.shown
  animation : Inline e.animation.shown

/-- What is told of the subgraph in codes does not break its line. An id that is its title may stand
without quotes. -/
structure Subgraph.Tame (g : Subgraph) : Prop where
  id : OnlyFeeds g.id.shown
  title : OnlyFeeds g.title.shown
  alone : g.title = g.id → Quoted.needed [] g.id.shown = false → '\n' ∉ g.id.shown

/-- What is told in codes does not break the lines of the diagram. -/
structure Diagram.Tame (d : Diagram) : Prop where
  nodes : ∀ n ∈ d.nodes, n.Tame
  edges : ∀ e ∈ d.edges, e.Tame
  subgraphs : ∀ g ∈ d.subgraphs, g.Tame

namespace Writing
variable {told : Text → Prop} {l : Text}

/-! ### Nodes -/

theorem inline_quotedProperty {key : Text} {v : Value}
    (name : ∀ c ∈ key, isLineBreak c = false ∧ c ≠ '%') (fed : OnlyFeeds v.shown)
    (h : quotedProperty key v = .ok l) : Inline l := by
  obtain ⟨t, text, written⟩ := bind_eq_ok.mp h
  cases written
  rw [Value.asText_eq_ok.mp text] at fed
  exact inline_plainProperty name (Quoted.inline_inQuotes fed)

section
variable {n : Node}

theorem inline_nodeProperties {properties : List Text} (spelled : n.Spelled Inline told)
    (tame : n.Tame) (h : nodeProperties n = .ok properties) : ∀ p ∈ properties, Inline p := by
  have names : ∀ f ∈ pictures n ++ (placements n ++ extents n), ∀ c ∈ f.1,
      isLineBreak c = false ∧ c ≠ '%' := by
    simp only [pictures, placements, extents, List.cons_append, List.nil_append, List.forall_mem_cons]
    decide
  have extent : ∀ f ∈ extents n, f.2.Counts := by simp [extents, spelled.width, spelled.height]
  simp only [nodeProperties, bind_eq_ok, pure_eq_ok] at h
  obtain ⟨label, labelled, quoted, pictured, tooltip, tipped, rfl⟩ := h
  simp only [List.mem_append, List.mem_cons, List.not_mem_nil, or_false, List.mem_map] at names ⊢
  rintro p ((((rfl | rfl) | hp) | ⟨f, hf | hf, rfl⟩) | hp)
  · exact inline_plainProperty (by decide) tame.shape
  · exact inline_quotedProperty (by decide) tame.text labelled
  · obtain ⟨f, hf, written⟩ := exists_of_mapM pictured p hp
    have there := List.mem_of_mem_filter hf
    exact inline_quotedProperty (names f (Or.inl there)) (tame.pictures f there) written
  · have there := List.mem_of_mem_filter hf
    exact inline_plainProperty (names f (Or.inr (Or.inl there))) (tame.placements f there)
  · obtain ⟨there, given⟩ := List.mem_filter.mp hf
    exact inline_plainProperty (names f (Or.inr (Or.inr there))) ((extent f there).inline given)
  · obtain ⟨v, hv, written⟩ := exists_of_mapM tipped p hp
    split at hv
    · rename_i own
      obtain rfl := List.mem_singleton.mp hv
      simp only [hasOwnTooltip, Bool.and_eq_true, Bool.not_eq_true'] at own
      exact inline_quotedProperty (by decide) (tame.tooltip own.2) written
    · cases hv

theorem stays_node (spelled : n.Spelled Inline told) (tame : n.Tame) (h : node n = .ok l) :
    Stays l := by
  obtain ⟨name, id, word⟩ := spelled.id
  obtain ⟨v, declared, text⟩ := bind_eq_ok.mp h
  obtain rfl := Value.asText_eq_ok.mp text
  rw [declaration, id] at declared
  split at declared
  · obtain ⟨properties, made, written⟩ := bind_eq_ok.mp declared
    cases written
    exact word.stays (fun c hc => by simp [braced, hc])
      (inline_braced word.toInline (inline_nodeProperties spelled tame made))
  · rename_i not_needed
    split at declared
    · cases declared
      exact word.stays (fun c hc => hc) word.toInline
    · obtain ⟨t, told, written⟩ := bind_eq_ok.mp declared
      cases written
      have fed := tame.text
      rw [Value.asText_eq_ok.mp told, Value.shown_text] at fed
      obtain ⟨b, hb, found, shape⟩ := Node.exists_brackets not_needed
      simp only [found, Option.getD_some, Value.shown_text]
      rw [← shape]
      exact word.stays (fun c hc => by simp [hc]) (inline_bracketed word.toInline hb fed)

/-! ### Subgraphs -/

theorem stays_subgraph {g : Subgraph} (tame : g.Tame) (h : subgraph g = .ok l) : Stays l := by
  have begun {header : Text} (inline : Inline header) : Stays ("subgraph ".toList ++ header) :=
    inline.begun (by decide) (by decide)
  have fed := tame.id
  have alone := tame.alone
  unfold subgraph at h
  split at h
  · rename_i same
    obtain ⟨name, id, written⟩ := bind_eq_ok.mp h
    cases written
    rw [Value.asWord_eq_ok.mp id, Value.shown_text] at fed alone
    refine begun (Subgraph.inline_word _ (fun bare => ⟨Quoted.bare_iff.mp bare, ?_⟩) fed)
    exact alone (Value.asWord_eq_ok.mp id ▸ same) bare
  · obtain ⟨name, id, h⟩ := bind_eq_ok.mp h
    obtain ⟨title, titled, written⟩ := bind_eq_ok.mp h
    cases written
    have fed' := tame.title
    rw [Value.asText_eq_ok.mp id, Value.shown_text] at fed
    rw [Value.asText_eq_ok.mp titled, Value.shown_text] at fed'
    have header : Inline (Statement.word (!isBareId name || Quoted.needed [] name) name) := by
      refine Subgraph.inline_word _ (fun plain => ?_) fed
      simp only [Bool.or_eq_false_iff, Bool.not_eq_false'] at plain
      have bare := Quoted.bare_iff.mp plain.2
      have ends : name.getLast? ≠ some '\n' := fun last =>
        absurd (bare.tight.finish '\n' (List.head?_reverse ▸ last)) (by decide)
      refine ⟨bare, fun feed => ?_⟩
      exact absurd ((solid_of_isBareId plain.1 ends).2 '\n' feed) (by decide)
    rw [List.append_assoc, List.append_assoc]
    exact begun (header.append (Quoted.inline_titled fed') (Or.inl (stops_cons.mpr (by decide))))

end

/-! ### Edges -/

section
variable {e : Edge}

theorem chars_of_operator {symbols : Text} (h : e.operator = .ok symbols) :
    ∀ c ∈ symbols, isLineBreak c = false ∧ c ≠ '%' := by
  simp only [Edge.operator, Operator.build, bind_eq_ok] at h
  obtain ⟨k, _, _, _, written⟩ := h
  cases written
  exact Chain.unbroken_write _ _ _ k

theorem stays_edge (id : Inline e.id.shown) (tame : e.Tame) {source target : Text}
    (first : e.source = .text source) (last : e.target = .text target) (word : Word source)
    (other : Word target) (h : edge e = .ok l) : Stays l := by
  obtain ⟨symbols, operator, h⟩ := bind_eq_ok.mp h
  rw [first, last] at h
  obtain ⟨label, piped, rfl⟩ : ∃ label, Inline label ∧ l = source ++ ' ' ::
      ((if needsId e then e.id.shown ++ ['@'] else []) ++ (symbols ++ (label ++ ' ' :: target))) := by
    dsimp only at h
    split at h
    · obtain ⟨label, labelled, written⟩ := bind_eq_ok.mp h
      obtain ⟨t, text, rfl⟩ := map_eq_ok.mp labelled
      have fed := tame.text
      rw [Value.asText_eq_ok.mp text] at fed
      cases written
      exact ⟨_, Quoted.inline_piped fed, by simp⟩
    · cases h
      exact ⟨[], .nil, by simp⟩
  have drawn := Inline.before (chars_of_operator operator)
    (piped.between (c := ' ') (by decide) (by decide) other.toInline)
  refine word.stays (fun c hc => by simp [hc]) (word.toInline.between (by decide) (by decide) ?_)
  split
  · rw [List.append_assoc]
    exact id.between (by decide) (by decide) drawn
  · exact drawn

theorem inline_edgeProperties (tame : e.Tame) : ∀ p ∈ edgeProperties e, Inline p := by
  intro p hp
  rcases List.mem_append.mp hp with hp | hp
  · split at hp
    · rw [List.mem_singleton.mp hp]
      exact inline_plainProperty (by decide) (.of_chars (by decide))
    · cases hp
  · simp only [Option.mem_toList, Option.map_eq_some_iff] at hp
    obtain ⟨v, held, rfl⟩ := hp
    unfold Value.ifHolds at held
    split at held
    · cases held
      exact inline_plainProperty (by decide) tame.animation
    · cases held

end

/-! ### Styles, classes and links -/

theorem inline_declarations {fields : Fields}
    (names : ∀ f ∈ fields, ∀ c ∈ f.1, isLineBreak c = false ∧ c ≠ '%')
    (values : ∀ f ∈ fields, f.2.isSome → Inline f.2.shown) :
    ∀ p ∈ declarations fields, Inline p := by
  intro p hp
  obtain ⟨f, hf, rfl⟩ := List.mem_map.mp hp
  obtain ⟨there, given⟩ := List.mem_filter.mp hf
  have unit : ∀ c ∈ ['p', 'x'], isLineBreak c = false ∧ c ≠ '%' := by decide
  have declared : Inline (f.1 ++ ':' :: f.2.shown) :=
    .before (names f there) ((values f there given).cons (by decide) (by decide))
  refine declared.after fun c hc => ?_
  split at hc
  · exact unit c hc
  · cases hc

theorem inline_nodeStyle {s : NodeStyle} (spelled : s.Spelled Inline) :
    ∀ p ∈ nodeStyle s, Inline p := by
  refine inline_declarations ?_ ?_
  · simp only [List.forall_mem_cons]
    decide
  · simp only [List.forall_mem_cons]
    exact ⟨fun _ => spelled.fill.inline, fun _ => spelled.stroke.inline, spelled.width.inline,
      fun _ => spelled.color.inline, by simp⟩

theorem inline_edgeStyle {s : EdgeStyle} (spelled : s.Spelled Inline) :
    ∀ p ∈ edgeStyle s, Inline p := by
  refine inline_declarations ?_ ?_
  · simp only [List.forall_mem_cons]
    decide
  · simp only [List.forall_mem_cons]
    exact ⟨fun _ => spelled.stroke.inline, spelled.width.inline, by simp⟩

/-- A keyword, a name and a list of parts are one line. -/
theorem stays_listing {keyword name : Text} {parts : List Text}
    (chars : ∀ c ∈ keyword, isLineBreak c = false ∧ c ≠ '%')
    (something : keyword.all isBlank = false) (named : Inline name)
    (h : ∀ p ∈ parts, Inline p) : Stays (keyword ++ name ++ ' ' :: Text.join "," parts) := by
  have list := Inline.join "," (by decide) (by decide) h
  rw [List.append_assoc]
  exact (named.between (by decide) (by decide) list).begun chars something

theorem inline_withoutQuotes (mark : Text) {s : Text} (some_mark : mark ≠ [])
    (chars : ∀ c ∈ mark, isLineBreak c = false ∧ c ≠ '%') (h : Inline s) :
    Inline (withoutQuotes mark s) := by
  have inner : Inline (s.flatMap fun c => if c = '"' then mark else [c]) := by
    constructor
    · intro c hc
      obtain ⟨d, hd, here⟩ := List.mem_flatMap.mp hc
      split at here
      · exact (chars c here).1
      · rw [List.mem_singleton.mp here]
        exact h.breaks d hd
    · refine Quoted.no_comment_flatMap (fun c _ => ?_) fun c _ percent => ?_
      · split
        · exact some_mark
        · simp
      · split at percent
        · exact absurd rfl (chars '%' percent).2
        · rename_i no_quote
          obtain rfl := List.mem_singleton.mp percent
          exact ⟨rfl, if_neg no_quote, h.comment⟩
  have closed : Inline ((s.flatMap fun c => if c = '"' then mark else [c]) ++ ['"']) :=
    inner.after (by decide)
  exact closed.cons (by decide) (by decide)

/-- A link without double quotes is written as it is. -/
theorem withoutQuotes_eq (mark : Text) {s : Text} (no_quote : '"' ∉ s) :
    withoutQuotes mark s = '"' :: (s ++ ['"']) := by
  have kept : s.flatMap (fun c => if c = '"' then mark else [c]) = s := by
    have same : ∀ c ∈ s, (if c = '"' then mark else [c]) = [c] :=
      fun c hc => if_neg fun quote : c = '"' => no_quote (quote ▸ hc)
    rw [List.flatMap_congr same]
    exact List.flatMap_singleton' s
  rw [withoutQuotes, kept]
  rfl

theorem inline_link (mark : Text) {s : Text} (h : Inline s) (no_quote : '"' ∉ s) :
    Inline (withoutQuotes mark s) := by
  have closed : Inline (s ++ ['"']) := h.after (by decide)
  rw [withoutQuotes_eq mark no_quote]
  exact closed.cons (by decide) (by decide)

/-- What may follow a part of a line: nothing, or a blank and another part. -/
theorem inline_further {s t : Text} (hs : Inline s) (ht : t = [] ∨ ∃ u, t = ' ' :: u ∧ Inline u) :
    Inline (s ++ t) := by
  rcases ht with rfl | ⟨u, rfl, hu⟩
  · rwa [List.append_nil]
  · exact hs.between (by decide) (by decide) hu

theorem stays_click {id link tooltip target : Value} (named : Inline id.shown)
    (linked : link.Says fun t => Inline t ∧ '"' ∉ t) (tipped : Inline tooltip.shown)
    (targeted : Inline target.shown) (h : click id link tooltip target = .ok l) : Stays l := by
  obtain ⟨url, isLink, h⟩ := bind_eq_ok.mp h
  obtain ⟨inline, no_quote⟩ : Inline url ∧ '"' ∉ url := by
    rcases linked with rfl | ⟨t, rfl, said⟩
    · cases isLink
    · cases isLink
      exact said
  -- the tooltip and the target may be there or not
  obtain ⟨tip, tip_cases, rfl⟩ : ∃ tip, (tip = [] ∨ ∃ u, tip = ' ' :: u ∧ Inline u) ∧
      l = "click ".toList ++ (id.shown ++ ' ' :: (withoutQuotes "%22" url ++ tip ++
        if target.holds then ' ' :: target.shown else [])) := by
    dsimp only at h
    split at h
    · obtain ⟨tip, quoted, written⟩ := bind_eq_ok.mp h
      obtain ⟨t, text, rfl⟩ := map_eq_ok.mp quoted
      rw [Value.asWord_eq_ok.mp text] at tipped
      have tip : Inline (withoutQuotes "#quot;" t) :=
        inline_withoutQuotes _ (by decide) (by decide) tipped
      cases written
      exact ⟨_, Or.inr ⟨_, rfl, tip⟩, by simp⟩
    · cases h
      exact ⟨[], Or.inl rfl, by simp⟩
  have target_cases : (if target.holds then ' ' :: target.shown else []) = [] ∨
      ∃ u, (if target.holds then ' ' :: target.shown else []) = ' ' :: u ∧ Inline u := by
    split
    · exact Or.inr ⟨_, rfl, targeted⟩
    · exact Or.inl rfl
  have rest := inline_further (inline_further (inline_link "%22" inline no_quote) tip_cases) target_cases
  exact (named.between (by decide) (by decide) rest).begun (by decide) (by decide)

end Writing

namespace Diagram
variable {d : Diagram} {told : Text → Prop}

theorem inline_classUse (spelled : d.Has (.spelled Inline told)) {name id : Value}
    (use : (name, id) ∈ d.classUses) : Inline name.shown ∧ Inline id.shown := by
  rcases List.mem_append.mp use with use | use
  · obtain ⟨n, hn, use⟩ := List.mem_flatMap.mp use
    obtain ⟨_, hc, ⟨⟩⟩ := List.mem_map.mp use
    obtain ⟨t, id, word⟩ := (spelled.nodes n hn).id
    exact ⟨((spelled.nodes n hn).classes _ hc).inline, id ▸ word.toInline⟩
  · obtain ⟨e, he, use⟩ := List.mem_flatMap.mp use
    obtain ⟨_, hc, ⟨⟩⟩ := List.mem_map.mp use
    exact ⟨((spelled.edges e he).classes _ hc).inline, (spelled.edges e he).id.inline⟩

theorem word_of_hasNode (spelled : d.Has (.spelled Inline told)) {id : Value} (there : d.hasNode id) :
    ∃ t, id = .text t ∧ Word t := by
  obtain ⟨n, hn, rfl⟩ := hasNode_iff.mp there
  exact (spelled.nodes n hn).id

/-- Every statement of a diagram that is spelled in words on a line and tame is one line. -/
theorem States.stays {w : Written} {l : Text} (h : d.States w) (integral : d.Integral)
    (spelled : d.Has (.spelled Inline told)) (tame : d.Tame) (written : w.line = .ok l) : Stays l := by
  cases h with
  | declaration =>
    cases written
    exact (line_heading d.direction).stays
  | node there =>
    obtain ⟨_, _, written⟩ := bind_eq_ok.mp written
    exact Writing.stays_node (spelled.nodes _ there) (tame.nodes _ there) written
  | subgraph there =>
    obtain ⟨_, _, written⟩ := bind_eq_ok.mp written
    obtain ⟨header, opened, written⟩ := bind_eq_ok.mp written
    obtain ⟨_, _, written⟩ := bind_eq_ok.mp written
    cases written
    exact Writing.stays_subgraph (tame.subgraphs _ there) opened
  | direction direction =>
    cases written
    have name : Inline direction.name := .of_chars (by cases direction <;> decide)
    exact name.begun (by decide) (by decide)
  | close =>
    cases written
    exact ⟨.of_chars (by decide), 'e', by decide, by decide⟩
  | @edge e there =>
    obtain ⟨source, first, word⟩ := word_of_hasNode spelled (integral.source e there)
    obtain ⟨target, last, other⟩ := word_of_hasNode spelled (integral.target e there)
    exact Writing.stays_edge (spelled.edges e there).id.inline (tame.edges e there) first last word
      other written
  | @properties e there =>
    cases written
    have inline := Writing.inline_braced (spelled.edges e there).id.inline
      (Writing.inline_edgeProperties (tame.edges e there))
    exact ⟨inline, '@', by simp [Writing.braced], by decide⟩
  | @define c there =>
    obtain ⟨styles, texts, written⟩ := bind_eq_ok.mp written
    cases written
    obtain ⟨name, said⟩ := spelled.classes c there
    refine Writing.stays_listing (by decide) (by decide) name fun p hp => ?_
    obtain ⟨v, hv, text⟩ := exists_of_mapM texts p hp
    have inline := (said v hv).inline
    rwa [Value.asText_eq_ok.mp text] at inline
  | assign used all =>
    obtain ⟨_, _, written⟩ := bind_eq_ok.mp written
    obtain ⟨ids, texts, written⟩ := bind_eq_ok.mp written
    cases written
    obtain ⟨id, use⟩ := used
    have name := (inline_classUse spelled use).1
    have list := Inline.join "," (by decide) (by decide) fun t ht => by
      obtain ⟨v, hv, text⟩ := exists_of_mapM texts t ht
      have inline := (inline_classUse spelled (all v hv)).2
      rwa [Value.asText_eq_ok.mp text] at inline
    rw [List.append_assoc]
    exact (list.between (by decide) (by decide) name).begun (by decide) (by decide)
  | style there given =>
    cases written
    obtain ⟨t, id, word⟩ := (spelled.nodes _ there).id
    exact Writing.stays_listing (by decide) (by decide) (id ▸ word.toInline)
      (Writing.inline_nodeStyle ((spelled.nodes _ there).style _ given))
  | linkStyle place there given =>
    cases written
    exact Writing.stays_listing (by decide) (by decide) (Word.ofNat place).toInline
      (Writing.inline_edgeStyle ((spelled.edges _ there).style _ given))
  | click there holds =>
    have node := spelled.nodes _ there
    obtain ⟨t, id, word⟩ := node.id
    exact Writing.stays_click (id ▸ word.toInline) node.link ((tame.nodes _ there).linked holds)
      node.target.inline written

end Diagram

/-! ### Texts without codes -/

/-- Lines without codes tell what stands in them. -/
theorem vocabulary_plain :
    Vocabulary (fun s => Inline s ∧ Entity.hasCode s = false) Inline where
  inline h := h.1
  part inner h := ⟨h.1.part inner, Entity.hasCode_part inner h.2⟩
  tells h told := by
    obtain ⟨part, inner, same | decoded⟩ := told
    · exact same ▸ h.1.part inner
    · rw [Entity.decode_of_no_code (Entity.hasCode_part inner h.2)] at decoded
      cases decoded
      exact h.1.part inner
  numbered n := .before (by decide) (Word.ofNat n).toInline

/-- A text on one line is on one line in lower case. -/
theorem Inline.lowerAfter {s : Text} (h : Inline s) (before : Text) :
    Inline (lowerAfter before s) ∧ (Stops (· == '%') s → Stops (· == '%') (lowerAfter before s)) := by
  induction s generalizing before with
  | nil => exact ⟨.nil, id⟩
  | cons c s ih =>
    obtain ⟨rest, stops⟩ := ih (h.part (List.suffix_cons c s).isInfix) (c :: before)
    obtain ⟨form, whole, isForm⟩ := lowerAfter_cons before c s
    rw [whole]
    rcases isForm.lettered with rfl | lettered
    · have own : Inline [c] := h.part ⟨[], s, rfl⟩
      refine ⟨own.append rest ?_, fun first => by simpa using first⟩
      by_cases percent : c = '%'
      · -- another percent sign would begin a comment here
        refine Or.inl (stops fun d first => beq_eq_false_iff_ne.mpr fun same => h.comment ?_)
        obtain ⟨s, rfl⟩ := List.head?_eq_some_iff.mp first
        rw [percent, same]
        exact ⟨[], s, rfl⟩
      · exact Or.inr (stops_cons.mpr (by simpa using percent))
    · have chars : ∀ d ∈ form, isLineBreak d = false ∧ d ≠ '%' := by
        intro d hd
        have letter := lettered d hd
        simp only [isLettered, Bool.and_eq_true, Bool.not_eq_true', bne_iff_ne] at letter
        exact ⟨isLineBreak_of_not_isBlank letter.1, letter.2⟩
      refine ⟨.before chars rest, fun _ => stops_append (fun d first => ?_) fun none_here => ?_⟩
      · simpa using (chars d (List.mem_of_mem_head? first)).2
      · exact absurd none_here isForm.some_form

theorem Shape.Named.inline {s : Shape} (h : s.Named Inline) : Inline s.name := by
  have listed : ∀ s ∈ known, ∀ c ∈ s.name, isLineBreak c = false ∧ c ≠ '%' := by decide
  rcases h with there | ⟨t, told, rfl⟩
  · exact .of_chars (listed s there)
  · rcases resolve_known_or t with there | ⟨unlisted, unnamed⟩
    · exact .of_chars (listed _ there)
    · rw [resolve_unlisted unlisted unnamed]
      exact ((told.part (infix_trim t)).lowerAfter []).1

theorem Value.Says.onlyFeeds {v : Value} (h : v.Says Inline) : OnlyFeeds v.shown :=
  onlyFeeds_of_unbroken h.inline.breaks

/-- What is read of a text without codes is tame. -/
theorem Diagram.tame_read {src : Text} {d : Diagram} (read : Diagram.read src = .ok d)
    (plain : ∀ l ∈ Source.meaningful src, Entity.hasCode l = false) : d.Tame := by
  have spelled := spelled_read vocabulary_plain
    (fun l hl => ⟨Source.inline_of_meaningful hl, plain l hl⟩) read
  refine ⟨fun n hn => ?_, fun e he => ?_, fun g hg => ?_⟩
  · have node := spelled.nodes n hn
    obtain ⟨icon, image, form, position, tooltip, _⟩ := by
      simpa only [List.forall_mem_cons] using node.further
    exact {
      text := node.text.onlyFeeds
      shape := node.shape.inline
      pictures := by simp [Writing.pictures, icon.onlyFeeds, image.onlyFeeds]
      placements := by simp [Writing.placements, form.inline, position.inline]
      tooltip := fun _ => tooltip.onlyFeeds
      linked := fun _ => tooltip.inline }
  · have edge := spelled.edges e he
    exact ⟨edge.text.onlyFeeds, edge.animation.inline⟩
  · have subgraph := spelled.subgraphs g hg
    refine ⟨subgraph.id.onlyFeeds, subgraph.title.onlyFeeds, fun _ _ feed => ?_⟩
    exact absurd (subgraph.id.inline.breaks '\n' feed) (by decide)

namespace Diagram
variable {d : Diagram}

/-- The diagram that is read of a text is written, each of its statements is one line, and the lines
that count are the statements: unless something was told in codes that breaks its line, or an edge is
too long. -/
theorem statements_stay {src : Text} {layout : Layout} (read : Diagram.read src = .ok d)
    (calm : (∀ l ∈ Source.meaningful src, Entity.hasCode l = false) ∨ d.Tame)
    (short : ∀ e ∈ d.edges, e.operator.isOk) (blank : Indent layout.indent) :
    ∃ s ls, d.write layout = .ok s ∧ (d.layOut layout).mapM (fun w => w.2.line) = .ok ls ∧
      (∀ l ∈ ls, Inline l) ∧ Source.meaningful s = ls.map trim := by
  have tame : d.Tame := calm.elim (tame_read read) id
  have integral := integral_read read
  have worded := worded_read read
  have spelled := spelled_read vocabulary_inline (fun _ => Source.inline_of_meaningful) read
  have states := d.states_layOut layout
  obtain ⟨ls, written⟩ := isOk_iff.mp (isOk_mapM fun w hw =>
    line_isOk integral worded (not_overlong short) (states w hw).tells)
  have stays : ∀ l ∈ ls, Stays l := by
    intro l hl
    obtain ⟨w, hw, line⟩ := exists_of_mapM written l hl
    exact (states w hw).stays integral spelled tame line
  -- the first statement is the declaration
  obtain ⟨_, rest, first, lined, rfl⟩ := List.forall₂_cons_left_iff.mp (mapM_eq_ok.mp written)
  cases first
  have lines : (layout.lines (d.body layout) rest).map (·.2) = rest := Lined.lines_eq lined
  have inlined : Inlined (layout.lines (d.body layout) rest) := by
    intro l hl
    obtain ⟨depth, margin, there⟩ := Lined.mem_lines hl
    have here := stays l.2 (List.mem_cons_of_mem _ there)
    exact ⟨margin ▸ Layout.indent_margin blank depth, here.toInline, here.trim_ne_nil⟩
  refine ⟨_, _, write_lined lined, written, fun l hl => (stays l hl).toInline, ?_⟩
  have counts : Source.meaningful (assemble (([], heading d.direction) :: layout.lines (d.body layout)
      rest)) = _ := meaningful_assemble (inlined_heading inlined) (withoutSettings_assemble _ _)
  have trimmed : (layout.lines (d.body layout) rest).map (fun l => l.2.trim) = rest.map trim := by
    conv_rhs => rw [← lines, List.map_map]
    rfl
  rw [counts, List.map_cons, trimmed]
  rfl

/-- A text with a statement of each kind, in which codes tell percent signs and a line feed. -/
def annotatedText : Text :=
  "flowchart LR\n    A(\"50#37;#37;#10;off\"):::hot\n    A@\x7b shape: doc, w: 40 \x7d\n".toList ++
  "    subgraph g[\"one#59; two\"]\n        direction TB\n        B\n    end\n".toList ++
  "    A e1@-->|\"#37;#37;\"| B\n    e1@\x7b animation: slow \x7d\n    classDef hot fill:#f00\n".toList ++
  "    style B stroke:#123,stroke-width:2px\n    linkStyle 0 stroke:red\n".toList ++
  "    click B \"a%20b\" \"tip\" _blank\n".toList

/-- What is read of it. -/
def annotated : Diagram where
  direction := .lr
  nodes := [
    { id := .text "A", text := .text "50%%\noff", shape := Shape.resolve "doc"
      classes := [.text "hot"], width := .number (.int 40) },
    { id := .text "B", text := .text "B", parent := .text "g", link := .text "a%20b"
      tooltip := .text "tip", linkTarget := .text "_blank"
      style := some { stroke := .text "#123", strokeWidth := .number (.int 2) } }]
  edges := [{
    id := .text "e1", source := .text "A", target := .text "B", text := .text "%%"
    animation := .text "slow", named := .bool true, style := some { stroke := .text "red" } }]
  subgraphs := [{
    id := .text "g", title := .text "one; two", members := [.text "B"], direction := some .tb }]
  classes := [("hot", [.text "fill:#f00"])]

theorem annotated_tame : annotated.Tame := by
  refine ⟨fun n hn => ?_, fun e he => ?_, fun g hg => ?_⟩
  · simp only [annotated, List.mem_cons, List.not_mem_nil, or_false] at hn
    have nowhere : ∀ n : Node, n.form = .null → n.labelPosition = .null →
        ∀ f ∈ Writing.placements n, Inline f.2.shown := by
      intro n form position
      simp only [Writing.placements, form, position, List.forall_mem_cons]
      exact ⟨.of_chars (by decide), .of_chars (by decide), by simp⟩
    rcases hn with rfl | rfl
    · exact ⟨by decide, .of_chars (by decide), by decide, nowhere _ rfl rfl, by decide,
        fun linked => absurd linked (by decide)⟩
    · exact ⟨by decide, .of_chars (by decide), by decide, nowhere _ rfl rfl, by decide,
        fun _ => .of_chars (by decide)⟩
  · obtain rfl := List.mem_singleton.mp he
    exact ⟨by decide, .of_chars (by decide)⟩
  · obtain rfl := List.mem_singleton.mp hg
    exact ⟨by decide, by decide, by decide⟩

theorem annotated_stays : Diagram.read annotatedText = .ok annotated ∧ annotated.Tame ∧
    ∃ s ls, annotated.write {} = .ok s ∧
      (annotated.layOut {}).mapM (fun w => w.2.line) = .ok ls ∧ (∀ l ∈ ls, Inline l) ∧
      Source.meaningful s = ls.map trim := by
  have read : Diagram.read annotatedText = .ok annotated := by decide +kernel
  have short : ∀ e ∈ annotated.edges, e.operator.isOk := by decide
  exact ⟨read, annotated_tame, statements_stay read (Or.inr annotated_tame) short (by decide)⟩

/-- The tooltip of a link is written without codes: what was two percent signs in codes begins a
comment. -/
theorem tooltip_does_not_stay : ¬ ∀ src d, Diagram.read src = .ok d →
    ∃ s ls, d.write {} = .ok s ∧ (d.layOut {}).mapM (fun w => w.2.line) = .ok ls ∧
      (∀ l ∈ ls, Inline l) ∧ Source.meaningful s = ls.map trim := by
  intro stay
  let d : Diagram := {
    nodes := [{ id := .text "A", text := .text "A", link := .text "u", tooltip := .text "50%% off" }] }
  have read : Diagram.read "flowchart TB\n    A\n    click A \"u\" \"50#37;#37; off\"".toList = .ok d := by
    decide +kernel
  have click : (d.layOut {}).mapM (fun w => w.2.line) =
      .ok ["flowchart TB".toList, "A".toList, "click A \"u\" \"50%% off\"".toList] := by decide +kernel
  obtain ⟨s, ls, _, lines, inline, _⟩ := stay _ d read
  rw [click] at lines
  cases lines
  exact (inline "click A \"u\" \"50%% off\"".toList (by simp)).comment (by decide)

end Diagram
end Flowchart
