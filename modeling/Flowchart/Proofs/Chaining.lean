import Flowchart.Proofs.Drawings
import Flowchart.Proofs.Meeting
import Flowchart.Proofs.ReadingSteps

/-! Lines with several links. A line that is put together from node texts and links, with blanks
between them, is split at its links again. Where its node texts are groups of ids, reading it meets
the nodes in order and then draws, for each link, the edges from every node before it to every node
after it. -/
namespace Flowchart
open Text

namespace Chain
open Link

/-! ### Node texts -/

/-- A node text that the scanner takes in as a whole before whatever ends names and strokes, and
that no link could take anything of. -/
structure Taken (s : Text) : Prop where
  some_text : s ≠ []
  tight : Tight s
  apart : Stops isGap s
  scan : ∀ {rest : Text}, Fenced rest → ∀ text : Text,
    Chain.scan text.head? text 0 false 0 (s ++ rest) =
      Chain.scan (s.getLast?.or text.head?) (s.reverse ++ text) 0 false 0 rest

theorem Whole.taken {s : Text} (h : Whole s) (some_text : s ≠ []) : Taken s :=
  ⟨some_text, h.tight, h.apart, h.scan⟩

theorem fenced_blank (s : Text) : Fenced (' ' :: s) :=
  fenced_cons (by decide) (by decide) (by decide) s

theorem no_link_amp (s : Text) : Link.at? (some ' ') ('&' :: s) = none := by
  refine at?_quiet (by decide) (quiet_of_head (by decide) s)
    (fun letter => absurd letter (by decide)) (Or.inr fun r sign => ?_)
  have word : isWordOrHyphen '&' = false := by decide
  rw [List.dropWhile_cons_of_neg (by simp [word])] at sign
  cases sign

theorem join_cons_cons (s t : Text) (ss : List Text) : Text.join " & " (s :: t :: ss) =
    s ++ ' ' :: (['&'] ++ ' ' :: Text.join " & " (t :: ss)) := by
  simp [Text.join, List.intercalate_cons_cons]

theorem join_singleton (sep s : Text) : Text.join sep [s] = s := by
  simp [Text.join, List.intercalate]

theorem Taken.joined {s t : Text} (hs : Taken s) (ht : Taken t) :
    Taken (s ++ ' ' :: (['&'] ++ ' ' :: t)) where
  some_text := by simp
  tight := by
    have finish := stops_append (t := ' ' :: '&' :: ' ' :: s.reverse) ht.tight.finish
      fun e => absurd (List.reverse_eq_nil_iff.mp e) ht.some_text
    refine ⟨stops_append hs.tight.start fun e => absurd e hs.some_text, ?_⟩
    simpa using finish
  apart := stops_append hs.apart fun e => absurd e hs.some_text
  scan {rest} fence text := by
    have amp (text : Text) : Chain.scan (some ' ') text 0 false 0 ('&' :: ' ' :: (t ++ rest)) =
        Chain.scan (some '&') ('&' :: text) 0 false 0 (' ' :: (t ++ rest)) :=
      scan_past (by decide) (fun _ => no_link_amp _) text
    have whole : s ++ ' ' :: (['&'] ++ ' ' :: t) ++ rest =
        s ++ ' ' :: '&' :: ' ' :: (t ++ rest) := by
      simp
    have later := ht.scan fence (' ' :: '&' :: ' ' :: (s.reverse ++ text))
    rw [List.head?_cons] at later
    rw [whole, hs.scan (fenced_blank _), scan_blank, amp, scan_blank, later]
    obtain ⟨u, c, last⟩ := List.eq_nil_or_concat t |>.resolve_left ht.some_text
    simp [last, List.getLast?_cons]

/-- A group of node texts is taken in as one node text. -/
theorem taken_join {s : Text} {ss : List Text} (h : ∀ t ∈ s :: ss, Taken t) :
    Taken (Text.join " & " (s :: ss)) := by
  have first := h s List.mem_cons_self
  induction ss generalizing s with
  | nil =>
    rw [join_singleton]
    exact first
  | cons t ss ih =>
    rw [join_cons_cons]
    exact first.joined (ih (fun u hu => h u (List.mem_cons_of_mem s hu)) (h t (by simp)))

/-! ### Links -/

end Chain

namespace Link

/-- The link as it stands in a line. -/
def spelled (link : Link) : Text :=
  Chain.tagged link.id ++ (link.symbols ++ piped link.label)

/-- The link is read wherever it stands between blanks, unless the second blank goes on to be a gap
before a pipe. -/
structure Found (link : Link) : Prop where
  no_quote : ∃ a u, link.spelled = a :: u ∧ a ≠ '"'
  at? : ∀ {rest : Text}, Stops isGap rest →
    Link.at? (some ' ') (link.spelled ++ ' ' :: rest) = some (link, ' ' :: rest)

/-- An operator is found as it is written, with a label after it and an id before it or without. -/
theorem found_write {stroke : Stroke} {start finish : Tip} {name label : Option Text}
    (tips : stroke = .invisible → start = .none ∧ finish = .none) (length : Int)
    (no_pipe : ∀ l, label = some l → '|' ∉ l) (tag : ∀ i, name = some i → Chain.Tag i) :
    Found ⟨Operator.write stroke start finish length, label, name⟩ where
  no_quote := by
    obtain ⟨a, u, whole, no_quote⟩ := Chain.exists_cons_tagged tips length tag
    refine ⟨a, u ++ piped label, ?_, no_quote⟩
    rw [spelled, ← List.append_assoc, whole, List.cons_append]
  at? apart := by
    have found := Chain.at?_tagged tips length no_pipe tag apart
    simpa [spelled] using found

end Link

/-! ### Lines -/

namespace Chain
open Link

/-- A node text, and what joins it to further ones, as they stand in a line. -/
def lineFrom (head : Text) : List (Link × Text) → Text
  | [] => head
  | (link, next) :: tail => head ++ ' ' :: (link.spelled ++ ' ' :: lineFrom next tail)

/-- The line of a chain. -/
def line (c : Chain) : Text := lineFrom c.head c.tail

theorem stops_lineFrom {head : Text} (h : Taken head) (tail : List (Link × Text)) :
    Stops isGap (lineFrom head tail) := by
  cases tail with
  | nil => exact h.apart
  | cons p tail => exact stops_append h.apart fun e => absurd e h.some_text

theorem scan_lineFrom {head : Text} (h : Taken head) {tail : List (Link × Text)}
    (all : ∀ p ∈ tail, p.1.Found ∧ Taken p.2) (text : Text) :
    scan text.head? text 0 false 0 (lineFrom head tail) = ⟨trim (text.reverse ++ head), tail⟩ := by
  induction tail generalizing head text with
  | nil =>
    have whole := h.scan fenced_nil text
    rw [List.append_nil] at whole
    rw [lineFrom, whole, scan]
    simp
  | cons p tail ih =>
    obtain ⟨link, next⟩ := p
    obtain ⟨spelling, taken⟩ := all _ List.mem_cons_self
    obtain ⟨c, u, first, no_quote⟩ := spelling.no_quote
    have found := spelling.at? (stops_lineFrom taken tail)
    have later := ih taken (fun p hp => all p (List.mem_cons_of_mem _ hp)) [' ']
    rw [first, List.cons_append] at found
    rw [List.reverse_singleton, List.singleton_append, trim_cons_blank, trim_tight taken.tight,
      List.head?_cons] at later
    rw [lineFrom, h.scan (fenced_blank _), first, scan_blank, List.cons_append,
      scan_link no_quote found, scan_blank, later]
    rw [List.reverse_cons, List.reverse_append, List.reverse_reverse, trim_concat_blank]

/-- The line of a chain is split into the chain again. -/
theorem ofLine_line {c : Chain} (head : Taken c.head) (tail : ∀ p ∈ c.tail, p.1.Found ∧ Taken p.2) :
    ofLine c.line = c := by
  have whole := scan_lineFrom head tail []
  rwa [List.reverse_nil, List.nil_append, trim_tight head.tight] at whole

end Chain

/-! ### Lines as they stand in a text -/

theorem Line.join {s : Text} {ss : List Text} (h : ∀ t ∈ s :: ss, Line t) :
    Line (Text.join " & " (s :: ss)) := by
  induction ss generalizing s with
  | nil =>
    rw [Chain.join_singleton]
    exact h s List.mem_cons_self
  | cons t ss ih =>
    rw [Chain.join_cons_cons]
    have later := ih fun u hu => h u (List.mem_cons_of_mem s hu)
    exact (h s List.mem_cons_self).joined (.of_chars (by decide)) later

theorem Line.chain {c : Chain} (head : Line c.head)
    (tail : ∀ p ∈ c.tail, Inline p.1.spelled ∧ Line p.2) : Line c.line := by
  obtain ⟨s, rest⟩ := c
  unfold Chain.line
  induction rest generalizing s with
  | nil => exact head
  | cons p rest ih =>
    obtain ⟨inline, next⟩ := tail p List.mem_cons_self
    exact head.joined inline (ih p.2 next fun p hp => tail p (List.mem_cons_of_mem _ hp))

/-! ### Groups of ids -/

namespace Chain

/-- The chain of groups of ids. -/
def ofGroups (group : List Text) (rest : List (Link × List Text)) : Chain :=
  ⟨Text.join " & " group, rest.map fun p => (p.1, Text.join " & " p.2)⟩

/-- What a chain of groups draws: for each link, an edge from every node before it to every node
after it. -/
def pairs (group : List Text) : List (Link × List Text) → List (Link × Text × Text)
  | [] => []
  | (link, next) :: rest =>
    (group.flatMap fun s => next.map fun t => (link, s, t)) ++ pairs next rest

theorem pairs_link (link : Link) (group next : List Text) :
    (group.flatMap fun s => next.map fun t => (link, s, t)) =
      (group.flatMap fun s => next.map fun t => (s, t)).map fun p => (link, p.1, p.2) := by
  rw [List.map_flatMap]
  simp only [List.map_map]
  rfl

/-- The ids of a group are ids of nodes, and there is one at least. -/
def Ids (group : List Text) : Prop := group ≠ [] ∧ ∀ id ∈ group, NodeId id

theorem Ids.taken {group : List Text} (h : Ids group) : Taken (Text.join " & " group) := by
  obtain ⟨some_id, ids⟩ := h
  obtain ⟨id, group, rfl⟩ := List.exists_cons_of_ne_nil some_id
  exact taken_join fun t ht => (ids t ht).letters.whole.taken (ids t ht).some_text

theorem Ids.line {group : List Text} (h : Ids group) : Line (Text.join " & " group) := by
  obtain ⟨some_id, ids⟩ := h
  obtain ⟨id, group, rfl⟩ := List.exists_cons_of_ne_nil some_id
  exact .join fun t ht => (ids t ht).line

theorem Ids.group_join {group : List Text} (h : Ids group) :
    Flowchart.group (Text.join " & " group) = group := by
  rw [Chain.group_join h.1 fun id hid => (h.2 id hid).letters.whole, List.filter_eq_self]
  intro id hid
  simpa using (h.2 id hid).some_text

theorem ofLine_ofGroups {group : List Text} {rest : List (Link × List Text)} (head : Ids group)
    (tail : ∀ p ∈ rest, p.1.Found ∧ Ids p.2) :
    ofLine (ofGroups group rest).line = ofGroups group rest := by
  refine ofLine_line head.taken fun p hp => ?_
  obtain ⟨q, hq, rfl⟩ := List.mem_map.mp hp
  exact ⟨(tail q hq).1, (tail q hq).2.taken⟩

end Chain

namespace Reading
open Chain

/-- Nodes are met by their ids. -/
def meetAll (r : Reading) (ids : List Text) : Reading :=
  ids.foldl (fun r id => r.meet id none none) r

theorem meetPieces_ids {ids : List Text} (h : ∀ id ∈ ids, NodeId id) (r : Reading) :
    r.meetPieces ids = .ok (ids, r.meetAll ids) := by
  induction ids generalizing r with
  | nil => rfl
  | cons id ids ih =>
    have name := h id List.mem_cons_self
    rw [meetPieces, meetPiece_single name.single (name.meetNode r)]
    change ((r.meet id none none).meetPieces ids >>= fun p => pure ([id] ++ p.1, p.2)) = _
    rw [ih fun i hi => h i (List.mem_cons_of_mem id hi)]
    rfl

theorem meetTexts_groups {groups : List (List Text)} (h : ∀ g ∈ groups, Ids g) (r : Reading)
    (line : Text) : r.meetTexts line (groups.map (Text.join " & ")) =
      .ok (some groups, r.meetAll groups.flatten) := by
  induction groups generalizing r with
  | nil => rfl
  | cons g groups ih =>
    have ids := h g List.mem_cons_self
    have some_id : g.isEmpty = false := by simpa using ids.1
    rw [List.map_cons, meetTexts, ids.group_join, meetPieces_ids ids.2]
    change (if g.isEmpty then _ else (r.meetAll g).meetTexts line _ >>= _) = _
    rw [some_id, ih fun g' hg => h g' (List.mem_cons_of_mem g hg), List.flatten_cons]
    simp only [meetAll, List.foldl_append]
    rfl

theorem hasNode_meet (r : Reading) (i : Text) (text : Option Text) (shape : Option Shape)
    {id : Value} : (r.meet i text shape).diagram.hasNode id ↔
      id = .text i ∨ r.diagram.hasNode id := by
  have enrolled (n : Node) : ((r.join n).1.putNode (r.join n).2).diagram.hasNode id ↔
      id = n.id ∨ r.diagram.hasNode id := by
    rw [hasNode_putNode, id_join, Diagram.hasNode, nodes_join]
    rfl
  refine (enrolled _).trans ?_
  split
  · rfl
  · rename_i n there
    rw [show n.id = .text i from Keyed.key_of_find? there]

theorem hasNode_meetAll (r : Reading) (ids : List Text) (id : Value) :
    (r.meetAll ids).diagram.hasNode id ↔ id ∈ ids.map .text ∨ r.diagram.hasNode id := by
  induction ids generalizing r with
  | nil => simp [meetAll]
  | cons i ids ih =>
    have first : r.meetAll (i :: ids) = (r.meet i none none).meetAll ids := rfl
    rw [first, ih, hasNode_meet, List.map_cons, List.mem_cons, ← or_assoc,
      or_comm (a := id ∈ ids.map .text)]

theorem meetAll_meets (r : Reading) (ids : List Text) : Meets r (r.meetAll ids) := by
  induction ids generalizing r with
  | nil => exact .refl r
  | cons i ids ih => exact (meet_meets r i none none).trans (ih _)

/-- An edge is drawn for a link, if its operator can be read. -/
def drawLink (r : Reading) (link : Link) (source target : Text) : Except Error Reading :=
  match Operator.read? link.symbols with
  | none => .ok r
  | some op => r.draw link op source target

theorem drawLinks_pairs {rest : List (Link × List Text)}
    (reads : ∀ p ∈ rest, (Operator.read? p.1.symbols).isSome) (r : Reading) (group : List Text) :
    r.drawLinks (rest.map (·.1)) (group :: rest.map (·.2)) =
      (pairs group rest).foldlM (fun r p => r.drawLink p.1 p.2.1 p.2.2) r := by
  induction rest generalizing r group with
  | nil => rfl
  | cons p rest ih =>
    obtain ⟨link, next⟩ := p
    obtain ⟨op, read⟩ := Option.isSome_iff_exists.mp (reads _ List.mem_cons_self)
    have later := ih fun p hp => reads p (List.mem_cons_of_mem _ hp)
    have draws : (fun (r : Reading) (p : Text × Text) => r.drawLink link p.1 p.2) =
        fun r p => r.draw link op p.1 p.2 := by
      funext r p
      rw [drawLink, read]
    rw [List.map_cons, List.map_cons, drawLinks, read, pairs, List.foldlM_append, pairs_link,
      List.foldlM_map, draws]
    simp only [later]

/-- A line of groups is read by meeting its nodes and then drawing its edges. -/
theorem readChain_groups {line : Text} {group : List Text} {rest : List (Link × List Text)}
    (whole : ofLine line = ofGroups group rest) (ids : Ids group)
    (reads : ∀ p ∈ rest, (Operator.read? p.1.symbols).isSome ∧ Ids p.2) (r : Reading) :
    r.readChain line = (pairs group rest).foldlM (fun r p => r.drawLink p.1 p.2.1 p.2.2)
      (r.meetAll (group :: rest.map (·.2)).flatten) := by
  have groups : ∀ g ∈ group :: rest.map (·.2), Ids g := by
    intro g hg
    rcases List.mem_cons.mp hg with rfl | hg
    · exact ids
    · obtain ⟨p, hp, rfl⟩ := List.mem_map.mp hg
      exact (reads p hp).2
  have texts : (ofGroups group rest).texts =
      (group :: rest.map (·.2)).map (Text.join " & ") := by
    simp [ofGroups, Chain.texts]
  have links : (ofGroups group rest).links = rest.map (·.1) := by
    simp [ofGroups, Chain.links]
  rw [readChain, whole]
  simp only [texts, links, meetTexts_groups groups]
  exact drawLinks_pairs (fun p hp => (reads p hp).1) _ group

end Reading

/-! ### Lines of a single edge -/

theorem Diagram.hasNode_settle (d : Diagram) (id : Value) : d.settle.hasNode id = d.hasNode id := by
  refine Keyed.has_eq_keys (Keyed.keys_map (fun n => ?_) d.nodes)
  unfold settleNode
  split <;> rfl

/-- The line of a single edge. -/
def Link.between (link : Link) (source target : Text) : Text :=
  source ++ ' ' :: (link.spelled ++ ' ' :: target)

theorem Line.between {link : Link} {s t : Text} (hs : Line s) (inline : Inline link.spelled)
    (ht : Line t) : Line (link.between s t) := hs.joined inline ht

/-- A line with a single link between two ids is read by meeting them and drawing the edge. -/
theorem Reading.readChain_single {link : Link} (reads : (Operator.read? link.symbols).isSome)
    {line source target : Text} (whole : Chain.ofLine line = ⟨source, [(link, target)]⟩)
    (hs : NodeId source) (ht : NodeId target) (r : Reading) :
    r.readChain line = (r.meetAll [source, target]).drawLink link source target := by
  have ids {id : Text} (name : NodeId id) : Chain.Ids [id] := ⟨by simp, by simpa using name⟩
  have groups : Chain.ofLine line = Chain.ofGroups [source] [(link, [target])] := by
    rw [whole]
    simp [Chain.ofGroups, Chain.join_singleton]
  rw [readChain_groups groups (ids hs) (by simpa using ⟨reads, ids ht⟩)]
  simp [Chain.pairs, meetAll]

theorem Reading.read_between {link : Link} (found : link.Found)
    (reads : (Operator.read? link.symbols).isSome) {source target : Text} (hs : NodeId source)
    (ht : NodeId target) (r : Reading) : r.read (.ofLine (link.between source target)) =
      (r.meetAll [source, target]).drawLink link source target := by
  have taken {id : Text} (name : NodeId id) : Chain.Taken id :=
    name.letters.whole.taken name.some_text
  have whole : Chain.ofLine (link.between source target) = ⟨source, [(link, target)]⟩ :=
    Chain.ofLine_line (c := ⟨source, [(link, target)]⟩) (taken hs)
      (by simpa using ⟨found, taken ht⟩)
  rw [← readChain_single reads whole hs ht]
  exact hs.read_append r _

/-- Lines that are read alike make texts that are read alike. -/
theorem Reading.ofText_alike {line line' : Text} (h : Line line) (h' : Line line')
    (alike : ∀ r : Reading, r.read (.ofLine line) = r.read (.ofLine line')) (direction : Direction)
    {margin : Text} (indent : Indent margin) (strict : Bool) :
    Reading.ofText strict (assemble [([], heading direction), (margin, line)]) =
      Reading.ofText strict (assemble [([], heading direction), (margin, line')]) := by
  have assembled {line : Text} (h : Line line) : Assembled [(margin, line)] := by
    simpa [Assembled] using And.intro indent h
  have same (r : Reading) : r.readAll [line] = r.readAll [line'] := by
    rw [readAll, List.foldlM_cons, alike]
    rfl
  rw [ofText_assemble (assembled h), ofText_assemble (assembled h')]
  exact congrArg _ (same _)

/-- A text with a single edge is read as a diagram with a single edge. -/
theorem Reading.ofText_between {link : Link} (found : link.Found) {op : Operator}
    (read : Operator.read? link.symbols = some op) {text : Option Text}
    (label : linkLabel link op = .ok text) (inline : Inline link.spelled) {source target : Text}
    (hs : NodeId source) (ht : NodeId target) (direction : Direction) {margin : Text}
    (indent : Indent margin) (strict : Bool) : ∃ r e, Reading.ofText strict
        (assemble [([], heading direction), (margin, link.between source target)]) = .ok r ∧
      r.diagram.edges = [e] ∧ e.source = .text source ∧ e.target = .text target ∧
      e.text = .ofText? text ∧ e.stroke = op.stroke ∧ e.sourceTip = op.source ∧
      e.targetTip = op.target ∧ e.length = .number (.int op.length) ∧
      ∀ id, r.diagram.hasNode id ↔ id = .text source ∨ id = .text target := by
  have assembled : Assembled [(margin, link.between source target)] := by
    simpa [Assembled] using And.intro indent (hs.line.between inline ht.line)
  have met := meetAll_meets { diagram.direction := direction } [source, target]
  obtain ⟨r', drawn, view⟩ := Edge.view_draw label
    (meetAll { diagram.direction := direction } [source, target]) source target
  have all : Reading.readAll { diagram.direction := direction } [link.between source target] =
      .ok r' := by
    rw [readAll, List.foldlM_cons, read_between found (by rw [read]; rfl) hs ht, drawLink, read]
    simp only [drawn]
    rfl
  have edges : r'.diagram.edges = _ := (congrArg (·.edges) view).trans
    (congrArg (· ++ _) met.edges)
  have nodes : r'.diagram.nodes =
      (meetAll { diagram.direction := direction } [source, target]).diagram.nodes :=
    congrArg (·.nodes) view
  refine ⟨_, _, ofText_of_readAll assembled all strict,
    congrArg (List.map Diagram.settleEdge) edges, rfl, rfl, rfl, rfl, rfl, rfl, rfl, fun id => ?_⟩
  rw [Diagram.hasNode_settle, Diagram.hasNode, nodes]
  have ends := hasNode_meetAll { diagram.direction := direction } [source, target] id
  have none_before : Diagram.hasNode { direction := direction } id = false := rfl
  rw [none_before] at ends
  simpa [Diagram.hasNode] using ends

end Flowchart
