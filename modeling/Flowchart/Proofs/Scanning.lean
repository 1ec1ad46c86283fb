import Flowchart.Proofs.Links
import Flowchart.Proofs.Quoting
import Flowchart.Shape.Bracketed

/-! How a line is split at its links, and a node text at its ampersands. A part of a line is passed
over if outside brackets and quotes no link begins in it and no ampersand stands there; what is
passed over as a whole is a single node text. The line of an edge is split at the edge. -/
namespace Flowchart
open Text

namespace Link

/-- Characters that strokes are drawn with. -/
def isStroke (c : Char) : Bool := c == '-' || c == '=' || c == '.' || c == '~'

/-- The text holds none of the runs that operators are drawn with. -/
def Calm (s : Text) : Prop := ∀ run ∈ strokeRuns, ¬ run <:+: s

theorem isStroke_of_mem_run : ∀ run ∈ strokeRuns, ∀ c ∈ run, isStroke c = true := by decide

theorem calm_nil : Calm [] := by
  intro run hr inner
  rw [List.infix_nil.mp inner] at hr
  exact absurd hr (by decide)

theorem Calm.infix {s t : Text} (h : Calm s) (inner : t <:+: s) : Calm t :=
  fun run hr here => h run hr (here.trans inner)

/-- No run begins in one part and ends in the other if the second begins with no character of
a run, or if the first ends with none. -/
theorem calm_append {s t : Text} (hs : Calm s) (ht : Calm t)
    (apart : Stops isStroke t ∨ Stops isStroke s.reverse) : Calm (s ++ t) :=
  fun run hr => not_infix_append (isStroke_of_mem_run run hr) (hs run hr) (ht run hr) apart

theorem calm_cons {c : Char} {s : Text} (h : isStroke c = false) (hs : Calm s) :
    Calm (c :: s) := by
  have first : Calm [c] := by
    intro run hr inner
    have long : ∀ run ∈ strokeRuns, 2 ≤ run.length := by decide
    have := long run hr
    have short := inner.length_le
    simp only [List.length_cons, List.length_nil] at short
    omega
  exact calm_append first hs (Or.inr (by simpa using h))

theorem calm_of_no_stroke {s : Text} (h : ∀ c ∈ s, isStroke c = false) : Calm s := by
  induction s with
  | nil => exact calm_nil
  | cons c s ih =>
    exact calm_cons (h c List.mem_cons_self) (ih fun d hd => h d (List.mem_cons_of_mem c hd))

theorem Calm.quiet_append {s t : Text} (h : Calm s) (stops : Stops isStroke t) :
    Quiet (s ++ t) := by
  intro run hr pre
  have inner : run <+: s := by
    refine prefix_of_prefix_append pre fun c first here => ?_
    have := isStroke_of_mem_run run hr c here
    rw [stops c first] at this
    cases this
  exact h run hr inner.isInfix

end Link

namespace Chain
open Link

/-- What may follow a run of characters without ending a name or a stroke that has begun in it:
nothing that continues one, and no at sign but before a brace. -/
structure Fenced (s : Text) : Prop where
  word : Stops isWordOrHyphen s
  stroke : Stops isStroke s
  sign : ∀ r, s = '@' :: r → ∃ t, r = '\x7b' :: t

/-- Characters that begin neither a quote nor a group nor a link. -/
structure Plain (s : Text) : Prop where
  quote : '"' ∉ s
  amp : '&' ∉ s
  arrow : '<' ∉ s
  sign : '@' ∉ s
  calm : Calm s

theorem fenced_nil : Fenced [] := ⟨stops_nil _, stops_nil _, fun _ e => nomatch e⟩

theorem fenced_cons {c : Char} (word : isWordOrHyphen c = false) (stroke : isStroke c = false)
    (sign : c ≠ '@') (s : Text) : Fenced (c :: s) :=
  ⟨stops_cons.mpr word, stops_cons.mpr stroke, fun _ e => absurd (List.cons.inj e).1 sign⟩

theorem fenced_sign (s : Text) : Fenced ('@' :: '\x7b' :: s) :=
  ⟨stops_cons.mpr (by decide), stops_cons.mpr (by decide), fun r e => ⟨s, by simpa using e.symm⟩⟩

theorem Plain.tail {c : Char} {s : Text} (h : Plain (c :: s)) : Plain s where
  quote := fun here => h.quote (List.mem_cons_of_mem c here)
  amp := fun here => h.amp (List.mem_cons_of_mem c here)
  arrow := fun here => h.arrow (List.mem_cons_of_mem c here)
  sign := fun here => h.sign (List.mem_cons_of_mem c here)
  calm := h.calm.infix (List.suffix_cons c s).isInfix

theorem no_link_plain {c : Char} {s rest : Text} (h : Plain (c :: s)) (fence : Fenced rest)
    (before : Option Char) : Link.at? before (c :: s ++ rest) = none := by
  have no_arrow : c ≠ '<' := fun e => h.arrow (e ▸ List.mem_cons_self)
  refine at?_quiet no_arrow (h.calm.quiet_append fence.stroke)
    (fun _ => h.tail.calm.quiet_append fence.stroke) (Or.inr fun r found => ?_)
  exact fence.sign r (dropWhile_word h.sign fence.word found)

theorem no_link_sign (before : Option Char) (s : Text) :
    Link.at? before ('@' :: '\x7b' :: s) = none := by
  refine at?_quiet (by decide) (quiet_of_head (by decide) _)
    (fun letter => absurd letter (by decide)) (Or.inr fun r found => ?_)
  have word : isWordOrHyphen '@' = false := by decide
  rw [List.dropWhile_cons_of_neg (by simp [word])] at found
  exact ⟨s, by simpa using found.symm⟩

theorem no_link_brace (s : Text) : Link.at? (some '@') ('\x7b' :: s) = none :=
  at?_quiet (by decide) (quiet_of_head (by decide) _) (fun letter => absurd letter (by decide))
    (Or.inl (by decide))

theorem no_link_blank (before : Option Char) (s : Text) : Link.at? before (' ' :: s) = none := by
  refine at?_quiet (by decide) (quiet_of_head (by decide) _)
    (fun letter => absurd letter (by decide)) (Or.inr fun r sign => ?_)
  have word : isWordOrHyphen ' ' = false := by decide
  rw [List.dropWhile_cons_of_neg (by simp [word])] at sign
  cases sign

/-! ### What is passed -/

/-- The depth of brackets after a character of a node text, by the character before it: an angle
bracket directly after a word opens a shape. -/
def depthNext (last : Option Char) (depth : Nat) (c : Char) : Nat :=
  if depth == 0 && c == '>' && last.any isWord then 1 else depthAfter depth c

/-- A part of a line, which `rest` follows, is passed over: outside double quotes no link begins in
it at depth zero and no ampersand stands in it at level zero. Depth and level count the brackets
that are open, the depth with those of a shape that an angle bracket opens; `last` is the character
before. -/
inductive Passes (rest : Text) (depth' level' : Nat) : Option Char → Nat → Nat → Text → Prop where
  | nil {last : Option Char} : Passes rest depth' level' last depth' level' []
  | char {last : Option Char} {depth level : Nat} {c : Char} {s : Text} (no_quote : c ≠ '"')
      (no_amp : level = 0 → c ≠ '&') (no_link : depth = 0 → Link.at? last (c :: (s ++ rest)) = none)
      (later : Passes rest depth' level' (some c) (depthNext last depth c) (depthAfter level c) s) :
      Passes rest depth' level' last depth level (c :: s)
  | quoted {last : Option Char} {depth level : Nat} {e s : Text} (inner : '"' ∉ e)
      (later : Passes rest depth' level' (some '"') depth level s) :
      Passes rest depth' level' last depth level ('"' :: (e ++ '"' :: s))

theorem getLast?_cons_or (c : Char) (s : Text) (last : Option Char) :
    (c :: s).getLast?.or last = s.getLast?.or (some c) := by
  cases s <;> simp [List.getLast?_cons]

theorem getLast?_quoted_or (e s : Text) (last : Option Char) :
    ('"' :: (e ++ '"' :: s)).getLast?.or last = s.getLast?.or (some '"') := by
  simp [List.getLast?_cons, List.getLast?_append]

theorem scan_in_quotes {e : Text} (h : '"' ∉ e) (before : Option Char) (text : Text) (depth : Nat)
    (rest : Text) : scan before text depth true 0 (e ++ '"' :: rest) =
      scan (some '"') ('"' :: (e.reverse ++ text)) depth false 0 rest := by
  induction e generalizing before text with
  | nil => rfl
  | cons c e ih =>
    have other : (c != '"') = true := by
      rw [bne_iff_ne]
      rintro rfl
      exact h List.mem_cons_self
    rw [List.cons_append, scan, if_pos rfl, other, ih fun here => h (List.mem_cons_of_mem c here)]
    simp

theorem scan_past {before : Option Char} {c : Char} {s : Text} {depth : Nat} (no_quote : c ≠ '"')
    (no_link : depth = 0 → Link.at? before (c :: s) = none) (text : Text) :
    scan before text depth false 0 (c :: s) =
      scan (some c) (c :: text) (depthNext text.head? depth c) false 0 s := by
  have none_here : (if depth = 0 then Link.at? before (c :: s) else none) = none := by
    split
    · exact no_link ‹_›
    · rfl
  rw [scan, if_neg Bool.false_ne_true, if_neg no_quote, none_here]
  rfl

theorem groupFrom_cons {level : Nat} {inside : Bool} {c : Char}
    (h : c ≠ '&' ∨ level ≠ 0 ∨ inside = true) (s : Text) : groupFrom level inside (c :: s) =
      glue [c] (groupFrom (if inside || c == '"' then level else depthAfter level c)
        (inside != (c == '"')) s) := by
  have none_here : (c = '&' && level = 0 && !inside) = false := by
    rcases h with other | deep | inside
    · simp [other]
    · simp [deep]
    · simp [inside]
  rw [groupFrom, none_here, if_neg Bool.false_ne_true]
  simp only
  generalize groupFrom _ _ s = ps
  cases ps <;> rfl

theorem groupFrom_ne_nil (level : Nat) (inside : Bool) (s : Text) :
    groupFrom level inside s ≠ [] := by
  cases s with
  | nil => exact List.cons_ne_nil _ _
  | cons c s =>
    rw [groupFrom]
    split
    · exact List.cons_ne_nil _ _
    · simp only
      split <;> exact List.cons_ne_nil _ _

theorem groupFrom_in_quotes {e : Text} (h : '"' ∉ e) (level : Nat) (s : Text) :
    groupFrom level true (e ++ '"' :: s) = glue (e ++ ['"']) (groupFrom level false s) := by
  induction e with
  | nil => exact groupFrom_cons (Or.inr (Or.inr rfl)) s
  | cons c e ih =>
    have other : (true != (c == '"')) = true := by
      have : c ≠ '"' := fun e' => h (e' ▸ List.mem_cons_self)
      simpa using this
    have parts : c :: e ++ ['"'] = [c] ++ (e ++ ['"']) := rfl
    rw [List.cons_append, groupFrom_cons (Or.inr (Or.inr rfl)), other, parts, ← glue_glue]
    exact congrArg (glue [c]) (ih fun here => h (List.mem_cons_of_mem c here))

namespace Passes
variable {rest s t : Text} {last : Option Char} {depth level depth' level' : Nat}

theorem append {m n : Nat} (first : Passes (t ++ rest) m n last depth level s)
    (second : Passes rest depth' level' (s.getLast?.or last) m n t) :
    Passes rest depth' level' last depth level (s ++ t) := by
  induction first with
  | nil => exact second
  | char no_quote no_amp no_link _ ih =>
    rw [getLast?_cons_or] at second
    rw [← List.append_assoc] at no_link
    exact .char no_quote no_amp no_link (ih second)
  | @quoted _ _ _ e s inner _ ih =>
    rw [getLast?_quoted_or] at second
    have whole : '"' :: (e ++ '"' :: s) ++ t = '"' :: (e ++ '"' :: (s ++ t)) := by simp
    rw [whole]
    exact .quoted inner (ih second)

/-- The scanner takes what is passed into the node text as it stands. -/
theorem scan (h : Passes rest depth' level' last depth level s) {text : Text}
    (head : text.head? = last) : scan last text depth false 0 (s ++ rest) =
      scan (s.getLast?.or last) (s.reverse ++ text) depth' false 0 rest := by
  induction h generalizing text with
  | nil => rfl
  | char no_quote _ no_link _ ih =>
    rw [List.cons_append, scan_past no_quote no_link, head, ih (List.head?_cons ..),
      getLast?_cons_or]
    simp
  | @quoted _ _ _ e s inner _ ih =>
    have whole : '"' :: (e ++ '"' :: s) ++ rest = '"' :: (e ++ '"' :: (s ++ rest)) := by simp
    rw [whole, Chain.scan, if_neg Bool.false_ne_true, if_pos rfl, scan_in_quotes inner,
      ih (List.head?_cons ..), getLast?_quoted_or]
    simp

/-- What is passed is all in one piece. -/
theorem groupFrom (h : Passes rest depth' level' last depth level s) (after : Text) :
    groupFrom level false (s ++ after) = glue s (groupFrom level' false after) := by
  induction h with
  | nil => exact (glue_nil (groupFrom_ne_nil _ _ _)).symm
  | @char _ _ level c s no_quote no_amp _ _ ih =>
    have outside : (c == '"') = false := by simpa using no_quote
    have no_split : c ≠ '&' ∨ level ≠ 0 ∨ false = true := by
      by_cases flat : level = 0
      · exact Or.inl (no_amp flat)
      · exact Or.inr (Or.inl flat)
    rw [List.cons_append, groupFrom_cons no_split, outside, ← List.singleton_append, ← glue_glue]
    exact congrArg (glue [c]) ih
  | @quoted _ _ level e s inner _ ih =>
    have whole : '"' :: (e ++ '"' :: s) ++ after = '"' :: (e ++ '"' :: (s ++ after)) := by simp
    have parts : '"' :: (e ++ '"' :: s) = ['"'] ++ ((e ++ ['"']) ++ s) := by simp
    rw [whole, groupFrom_cons (Or.inl (by decide)), parts, ← glue_glue, ← glue_glue, ← ih]
    exact congrArg (glue ['"']) (groupFrom_in_quotes inner level (s ++ after))

end Passes

/-! ### Brackets -/

/-- The depth of brackets is the same before and after the character. -/
def isLevel (c : Char) : Bool := c ∉ ("[]()\x7b\x7d" : String).toList

theorem depthAfter_level {c : Char} (h : isLevel c = true) (depth : Nat) :
    depthAfter depth c = depth := by
  have other : ∀ d ∈ ("[]()\x7b\x7d" : String).toList, (c == d) = false := by
    intro d hd
    rw [beq_eq_false_iff_ne]
    rintro rfl
    simp only [isLevel, decide_not, Bool.not_eq_true', decide_eq_false_iff_not] at h
    exact h hd
  rw [depthAfter, other '(' (by decide), other '[' (by decide), other '\x7b' (by decide),
    other ')' (by decide), other ']' (by decide), other '\x7d' (by decide)]
  rfl

/-- Outside double quotes there is no bracket in the text. -/
abbrev Level (s : Text) : Prop := Quoted.Outside (isLevel · = true) s

/-- The depth of brackets after a text without quotes. -/
def depthOver (last : Option Char) (depth : Nat) : Text → Nat
  | [] => depth
  | c :: s => depthOver (some c) (depthNext last depth c) s

theorem depthNext_of_ne {c : Char} (h : c ≠ '>') (last : Option Char) (depth : Nat) :
    depthNext last depth c = depthAfter depth c := by
  have other : (c == '>') = false := by simpa using h
  rw [depthNext, other, Bool.and_false, Bool.false_and, if_neg Bool.false_ne_true]

theorem depthNext_succ (last : Option Char) (depth : Nat) (c : Char) :
    depthNext last (depth + 1) c = depthAfter (depth + 1) c := rfl

theorem depthOver_eq {s : Text} (h : '>' ∉ s) (last : Option Char) (depth : Nat) :
    depthOver last depth s = s.foldl depthAfter depth := by
  induction s generalizing last depth with
  | nil => rfl
  | cons c s ih =>
    have other : c ≠ '>' := fun e => h (e ▸ List.mem_cons_self)
    rw [depthOver, depthNext_of_ne other, ih fun here => h (List.mem_cons_of_mem c here)]
    rfl

theorem depthOver_append (s t : Text) (last : Option Char) (depth : Nat) :
    depthOver last depth (s ++ t) = depthOver (s.getLast?.or last) (depthOver last depth s) t := by
  induction s generalizing last depth with
  | nil => rfl
  | cons c s ih => rw [List.cons_append, depthOver, ih, getLast?_cons_or, depthOver]

theorem foldl_level {s : Text} (h : ∀ c ∈ s, isLevel c = true) (depth : Nat) :
    s.foldl depthAfter depth = depth := by
  induction s with
  | nil => rfl
  | cons c s ih =>
    rw [List.foldl_cons, depthAfter_level (h c List.mem_cons_self)]
    exact ih fun d hd => h d (List.mem_cons_of_mem c hd)

theorem Plain.passes {s rest : Text} (h : Plain s) (fence : Fenced rest) (last : Option Char)
    (depth level : Nat) :
    Passes rest (depthOver last depth s) (s.foldl depthAfter level) last depth level s := by
  induction s generalizing last depth level with
  | nil => exact .nil
  | cons c s ih =>
    have no_quote : c ≠ '"' := fun e => h.quote (e ▸ List.mem_cons_self)
    have no_amp : c ≠ '&' := fun e => h.amp (e ▸ List.mem_cons_self)
    exact .char no_quote (fun _ => no_amp) (fun _ => no_link_plain h fence last) (ih h.tail _ _ _)

/-- Inside brackets everything without brackets is passed. -/
theorem passes_level {s : Text} (h : Level s) (rest : Text) (last : Option Char)
    (depth level : Nat) : Passes rest (depth + 1) (level + 1) last (depth + 1) (level + 1) s := by
  induction h generalizing last with
  | nil => exact .nil
  | @char c s no_quote flat _ ih =>
    have stays : depthNext last (depth + 1) c = depth + 1 := by
      rw [depthNext_succ, depthAfter_level flat]
    have same : depthAfter (level + 1) c = level + 1 := depthAfter_level flat _
    refine .char no_quote (fun e => absurd e (by omega)) (fun e => absurd e (by omega)) ?_
    rw [stays, same]
    exact ih (some c)
  | quoted inner _ ih => exact .quoted inner (ih (some '"'))

/-! ### Node texts -/

/-- A node text: it is passed over as a whole before whatever ends names and strokes, and brings
all brackets to an end that it has begun. -/
structure Whole (s : Text) : Prop where
  tight : Tight s
  no_pipe : s.head? ≠ some '|'
  passes : ∀ rest last, Fenced rest → Passes rest 0 0 last 0 0 s

namespace Whole
variable {s : Text}

theorem apart (h : Whole s) : Stops isGap s := by
  intro c first
  have blank := h.tight.start c first
  have pipe : c ≠ '|' := fun e => h.no_pipe (e ▸ first)
  simp [isGap, blank, pipe]

theorem scan (h : Whole s) {rest : Text} (fence : Fenced rest) (text : Text) :
    scan text.head? text 0 false 0 (s ++ rest) =
      scan (s.getLast?.or text.head?) (s.reverse ++ text) 0 false 0 rest :=
  (h.passes rest text.head? fence).scan rfl

theorem scan_end (h : Whole s) (text : Text) :
    Chain.scan text.head? text 0 false 0 s = ⟨trim (text.reverse ++ s), []⟩ := by
  have all := h.scan fenced_nil text
  rw [List.append_nil] at all
  rw [all, Chain.scan, List.reverse_append, List.reverse_reverse]

theorem ofLine (h : Whole s) : ofLine s = ⟨s, []⟩ := by
  have all := h.scan_end []
  rwa [List.reverse_nil, List.nil_append, trim_tight h.tight] at all

end Whole

theorem trim_cons_blank (s : Text) : trim (' ' :: s) = trim s := by
  have whole := trim_surround (b := [' ']) (s := s) (e := []) (by decide) (by simp)
  rwa [List.append_nil] at whole

theorem trim_concat_blank (s : Text) : trim (s ++ [' ']) = trim s :=
  trim_surround (b := []) (e := [' ']) (by simp) (by decide)

/-- Node texts that are joined by ampersands are told apart. -/
theorem map_trim_groupFrom {s : Text} {ss : List Text} (h : ∀ t ∈ s :: ss, Whole t) :
    (groupFrom 0 false (Text.join " & " (s :: ss))).map trim = s :: ss := by
  have here := h s List.mem_cons_self
  have pass := (here.passes [] none fenced_nil).groupFrom
  have first := trim_tight here.tight
  induction ss generalizing s with
  | nil =>
    have alone := pass []
    rw [List.append_nil] at alone
    have whole : Text.join " & " [s] = s := by simp [Text.join, List.intercalate]
    rw [whole, alone]
    simp [groupFrom, glue, first]
  | cons t ss ih =>
    have later := h t (by simp)
    have rest := ih (fun u hu => h u (List.mem_cons_of_mem s hu)) later
      (later.passes [] none fenced_nil).groupFrom (trim_tight later.tight)
    have whole : Text.join " & " (s :: t :: ss) = s ++ ' ' :: '&' :: ' ' :: Text.join " & " (t :: ss) := by
      simp [Text.join, List.intercalate_cons_cons]
    obtain ⟨p, ps, parts⟩ := List.exists_cons_of_ne_nil
      (groupFrom_ne_nil 0 false (Text.join " & " (t :: ss)))
    have blank (u : Text) : groupFrom 0 false (' ' :: u) = glue [' '] (groupFrom 0 false u) :=
      groupFrom_cons (Or.inl (by decide)) u
    have amp (u : Text) : groupFrom 0 false ('&' :: u) = [] :: groupFrom 0 false u := rfl
    rw [whole, pass, blank, amp, blank]
    rw [parts] at rest ⊢
    simp only [glue, List.headD_cons, List.tail_cons, List.map_cons, List.append_nil,
      trim_concat_blank, first, List.singleton_append, trim_cons_blank]
    exact congrArg (s :: ·) rest

theorem group_join {ss : List Text} (some_text : ss ≠ []) (h : ∀ s ∈ ss, Whole s) :
    group (Text.join " & " ss) = ss.filter fun s => !s.isEmpty := by
  obtain ⟨s, ss, rfl⟩ := List.exists_cons_of_ne_nil some_text
  rw [group, map_trim_groupFrom h]

theorem Whole.group {s : Text} (h : Whole s) (some_text : s ≠ []) : group s = [s] := by
  have alone := group_join (List.cons_ne_nil s []) (by simpa using h)
  have whole : Text.join " & " [s] = s := by simp [Text.join, List.intercalate]
  rw [whole] at alone
  simpa [some_text] using alone

/-- Characters that may stand before brackets, with no stroke in them. -/
structure Letters (s : Text) : Prop where
  chars : ∀ c ∈ s, isIdChar c = true
  calm : Calm s

/-- A run of characters that may stand before brackets, with no stroke in it. -/
structure Name (s : Text) : Prop where
  some_text : s ≠ []
  chars : ∀ c ∈ s, isIdChar c = true
  calm : Calm s

theorem Name.letters {s : Text} (h : Name s) : Letters s := ⟨h.chars, h.calm⟩

theorem isBlank_of_isIdChar {c : Char} (h : isIdChar c = true) : isBlank c = false := by
  simp only [isIdChar, isBareChar, Bool.and_eq_true, Bool.not_eq_true'] at h
  exact h.1.1

namespace Letters
variable {s : Text}

theorem not_mem (h : Letters s) {c : Char} (mark : isIdChar c = false) : c ∉ s := by
  intro here
  rw [h.chars c here] at mark
  cases mark

theorem tight (h : Letters s) : Tight s :=
  tight_of_stops fun c hc => isBlank_of_isIdChar (h.chars c hc)

theorem plain (h : Letters s) : Plain s where
  quote := h.not_mem (by decide)
  amp := h.not_mem (by decide)
  arrow := h.not_mem (by decide)
  sign := h.not_mem (by decide)
  calm := h.calm

theorem level (h : Letters s) : ∀ c ∈ s, isLevel c = true := by
  intro c hc
  have marks : ∀ d ∈ ("[]()\x7b\x7d" : String).toList, isIdChar d = false := by decide
  simp only [isLevel, decide_not, Bool.not_eq_true', decide_eq_false_iff_not]
  exact fun mark => h.not_mem (marks c mark) hc

theorem depthOver (h : Letters s) (last : Option Char) (depth : Nat) :
    depthOver last depth s = depth := by
  rw [depthOver_eq (h.not_mem (by decide)), foldl_level h.level]

theorem passes (h : Letters s) {rest : Text} (fence : Fenced rest) (last : Option Char)
    (depth level : Nat) : Passes rest depth level last depth level s := by
  have passed := h.plain.passes fence last depth level
  rwa [h.depthOver, foldl_level h.level] at passed

theorem whole (h : Letters s) : Whole s where
  tight := h.tight
  no_pipe := fun first => h.not_mem (by decide) (List.mem_of_mem_head? first)
  passes _ last fence := h.passes fence last 0 0

theorem tight_braced (h : Letters s) (body : Text) :
    Tight (s ++ '@' :: '\x7b' :: (body ++ ['\x7d'])) := by
  constructor
  · exact stops_append h.tight.start fun _ => stops_cons.mpr (by decide)
  · have brace : isBlank '\x7d' = false := by decide
    simpa using brace

theorem whole_braced (h : Letters s) {body : Text} (level : Level body) :
    Whole (s ++ '@' :: '\x7b' :: (body ++ ['\x7d'])) where
  tight := h.tight_braced body
  no_pipe := by
    cases s with
    | nil => rintro ⟨⟩
    | cons c s =>
      intro first
      obtain rfl : c = '|' := Option.some.inj first
      exact h.not_mem (by decide) List.mem_cons_self
  passes rest last fence := by
    have close : Passes rest 0 0 (body.getLast?.or (some '\x7b')) 1 1 ['\x7d'] :=
      .char (by decide) (fun e => absurd e (by decide)) (fun e => absurd e (by decide)) .nil
    have inner := (passes_level level (['\x7d'] ++ rest) (some '\x7b') 0 0).append close
    have brace : Passes rest 0 0 (some '@') 0 0 ('\x7b' :: (body ++ ['\x7d'])) :=
      .char (by decide) (fun _ => by decide) (fun _ => no_link_brace _) inner
    have sign : Passes rest 0 0 (s.getLast?.or last) 0 0 ('@' :: '\x7b' :: (body ++ ['\x7d'])) :=
      .char (by decide) (fun _ => by decide) (fun _ => no_link_sign _ _) brace
    exact (h.passes (fenced_sign _) last 0 0).append sign

end Letters

/-! ### Lines of edges -/

section
variable {s : Text}

theorem scan_skip (before : Option Char) (text u rest : Text) :
    scan before text 0 false u.length (u ++ rest) =
      scan (u.getLast?.or before) text 0 false 0 rest := by
  induction u generalizing before with
  | nil => rfl
  | cons c u ih =>
    rw [List.cons_append, List.length_cons, scan, ih]
    cases u with
    | nil => rfl
    | cons d u => simp [List.getLast?_cons]

/-- A link that is found is passed over as a whole, and the next node text begins after it. -/
theorem scan_link {before : Option Char} {c : Char} {u rest : Text} {link : Link}
    (no_quote : c ≠ '"') (found : Link.at? before (c :: (u ++ rest)) = some (link, rest))
    (text : Text) : scan before text 0 false 0 (c :: (u ++ rest)) =
      ⟨trim text.reverse, (link, (scan (u.getLast?.or (some c)) [] 0 false 0 rest).head) ::
        (scan (u.getLast?.or (some c)) [] 0 false 0 rest).tail⟩ := by
  have long : (u ++ rest).length - rest.length = u.length := by
    rw [List.length_append, Nat.add_sub_cancel]
  have here : (if 0 = 0 then Link.at? before (c :: (u ++ rest)) else none) = some (link, rest) := by
    rw [if_pos rfl, found]
  rw [scan, if_neg Bool.false_ne_true, if_neg no_quote, here]
  simp only [long, scan_skip]

/-- The id of an edge as it stands before the operator. -/
def tagged : Option Text → Text
  | some name => name ++ ['@']
  | none => []

/-- An id that can stand before an operator. -/
def Tag (name : Text) : Prop := name ≠ [] ∧ ∀ c ∈ name, isWordOrHyphen c = true

theorem unbroken_tagged {name : Option Text} (tag : ∀ i, name = some i → Tag i) :
    ∀ c ∈ tagged name, isLineBreak c = false ∧ c ≠ '%' := by
  intro c hc
  cases name with
  | none => cases hc
  | some i =>
    rcases List.mem_append.mp hc with here | sign
    · exact inline_of_isWordOrHyphen ((tag i rfl).2 c here)
    · rw [List.mem_singleton.mp sign]
      decide

theorem unbroken_write (stroke : Stroke) (start finish : Tip) (length : Int) :
    ∀ c ∈ Operator.write stroke start finish length, isLineBreak c = false ∧ c ≠ '%' := by
  intro c hc
  have symbol := Operator.isSymbol_write _ _ _ _ c hc
  refine ⟨isLineBreak_of_not_isBlank (Operator.isBlank_of_isSymbol symbol), ?_⟩
  rintro rfl
  exact absurd symbol (by decide)

variable {stroke : Stroke} {start finish : Tip} {name label : Option Text}

theorem at?_tagged (tips : stroke = .invisible → start = .none ∧ finish = .none) (length : Int)
    (no_pipe : ∀ l, label = some l → '|' ∉ l) (tag : ∀ i, name = some i → Tag i)
    (apart : Stops isGap s) :
    Link.at? (some ' ') (tagged name ++ (Operator.write stroke start finish length ++
      (piped label ++ ' ' :: s))) =
      some (⟨Operator.write stroke start finish length, label, name⟩, ' ' :: s) := by
  cases name with
  | none =>
    rw [tagged, List.nil_append]
    exact at?_write tips no_pipe apart
  | some i =>
    obtain ⟨some_id, word⟩ := tag i rfl
    rw [tagged, List.append_assoc, List.singleton_append]
    exact at?_write_id some_id word tips no_pipe apart

theorem exists_cons_tagged (tips : stroke = .invisible → start = .none ∧ finish = .none)
    (length : Int) (tag : ∀ i, name = some i → Tag i) :
    ∃ a u, tagged name ++ Operator.write stroke start finish length = a :: u ∧ a ≠ '"' := by
  cases name with
  | none =>
    have symbols := Operator.isSymbol_write stroke start finish length
    have some_operator : Operator.write stroke start finish length ≠ [] := by
      intro e
      have read := Operator.read?_write tips length
      rw [e] at read
      cases read
    obtain ⟨a, u, whole⟩ := List.exists_cons_of_ne_nil some_operator
    rw [whole] at symbols
    refine ⟨a, u, by rw [tagged, whole, List.nil_append], ?_⟩
    rintro rfl
    exact absurd (symbols '"' List.mem_cons_self) (by decide)
  | some i =>
    obtain ⟨some_id, word⟩ := tag i rfl
    obtain ⟨a, u, rfl⟩ := List.exists_cons_of_ne_nil some_id
    refine ⟨a, u ++ '@' :: Operator.write stroke start finish length, by simp [tagged], ?_⟩
    rintro rfl
    exact absurd (word '"' List.mem_cons_self) (by decide)

theorem scan_blank (before : Option Char) (text rest : Text) :
    scan before text 0 false 0 (' ' :: rest) = scan (some ' ') (' ' :: text) 0 false 0 rest :=
  scan_past (by decide) (fun _ => no_link_blank before rest) text

/-- The line of an edge is split into the edge and its two ends. -/
theorem ofLine_edge {source target : Text} (hs : Whole source) (ht : Whole target)
    (tips : stroke = .invisible → start = .none ∧ finish = .none) (length : Int)
    (no_pipe : ∀ l, label = some l → '|' ∉ l) (tag : ∀ i, name = some i → Tag i) :
    ofLine (source ++ ' ' :: (tagged name ++ (Operator.write stroke start finish length ++
      (piped label ++ ' ' :: target)))) =
      ⟨source, [(⟨Operator.write stroke start finish length, label, name⟩, target)]⟩ := by
  have found := at?_tagged tips length no_pipe tag ht.apart
  obtain ⟨a, u, first, no_quote⟩ := exists_cons_tagged tips length tag
  have whole : tagged name ++ (Operator.write stroke start finish length ++
      (piped label ++ ' ' :: target)) = a :: ((u ++ piped label) ++ ' ' :: target) := by
    rw [← List.append_assoc, first]
    simp
  have blank : Fenced (' ' :: a :: ((u ++ piped label) ++ ' ' :: target)) :=
    fenced_cons (by decide) (by decide) (by decide) _
  have last (before : Option Char) : scan before [] 0 false 0 (' ' :: target) = ⟨target, []⟩ := by
    rw [scan_blank]
    have all := ht.scan_end [' ']
    rwa [List.reverse_singleton, List.singleton_append, trim_cons_blank, trim_tight ht.tight] at all
  rw [whole] at found ⊢
  have first : ofLine (source ++ ' ' :: a :: ((u ++ piped label) ++ ' ' :: target)) = _ :=
    hs.scan blank []
  rw [first, scan_blank, scan_link no_quote found, last]
  simp [trim_concat_blank, trim_tight hs.tight]

end
end Chain
end Flowchart
