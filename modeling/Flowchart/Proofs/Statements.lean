import Flowchart.Proofs.Bracketing
import Flowchart.Proofs.Keyed
import Flowchart.Proofs.Links
import Flowchart.Source.Reading

/-! Which statement a line is. A form with a keyword fits only lines that begin with the keyword
as a word, so a line fits one form at most, and a line that begins with no keyword is a chain. -/
namespace Flowchart.Statement
open Text

/-- The forms with their keywords. -/
def keyed : List (Text × (Text → Option Statement)) := [
  ("subgraph", subgraph?), ("direction", direction?), ("classDef", define?), ("class", assign?),
  ("style", style?), ("linkStyle", linkStyle?), ("click", click?)]

theorem forms_eq : forms = keyed.map (·.2) := rfl

/-- The words that a statement may begin with. -/
def keywords : List Text := "end".toList :: keyed.map (·.1)

/-- The word that a line begins with. -/
def firstWord (line : Text) : Text := line.takeWhile fun c => !isBlank c

theorem firstWord_append {w r : Text} (word : ∀ c ∈ w, isBlank c = false)
    (stops : Stops (fun c => !isBlank c) r) : firstWord (w ++ r) = w :=
  takeWhile_stop (fun c hc => by simp [word c hc]) stops

theorem keyword_chars : ∀ k ∈ keywords, ∀ c ∈ k, isBlank c = false := by decide

theorem firstWord_of_mark {w r : Text} {c : Char} (word : ∀ d ∈ w, isBlank d = false)
    (blank : isBlank c = false) (mark : ∀ k ∈ keywords, c ∉ k) :
    firstWord (w ++ c :: r) ∉ keywords := by
  have here : c ∈ firstWord (w ++ c :: r) := by
    rw [firstWord, List.takeWhile_append_of_pos fun d hd => by simp [word d hd],
      List.takeWhile_cons_of_pos (by simp [blank])]
    simp
  exact fun keyword => mark _ keyword here

theorem stops_of_afterBlanks? {r s : Text} (h : afterBlanks? r = some s) :
    Stops (fun c => !isBlank c) r := by
  cases r with
  | nil => cases h
  | cons c r =>
    rw [afterBlanks?] at h
    split at h
    · rename_i blank
      exact stops_cons.mpr (by simp [blank])
    · cases h

theorem firstWord_of_afterKeyword? {k line s : Text} (hk : k ∈ keywords)
    (h : afterKeyword? k line = some s) : firstWord line = k := by
  obtain ⟨r, opened, blanks⟩ := Option.bind_eq_some_iff.mp h
  rw [after?_eq_some_iff.mp opened]
  exact firstWord_append (keyword_chars k hk) (stops_of_afterBlanks? blanks)

theorem stops_of_take {r : Text} {n : Nat} {c : Char} (first : (r.take n).head? = some c)
    (blank : isBlank c = true) : Stops (fun c => !isBlank c) r := by
  cases r with
  | nil => exact stops_nil _
  | cons d r =>
    cases n with
    | zero => cases first
    | succ n =>
      obtain rfl : d = c := Option.some.inj first
      exact stops_cons.mpr (by simp [blank])

theorem firstWord_of_fits {line : Text} {s : Statement} :
    ∀ f ∈ keyed, f.2 line = some s → firstWord line = f.1 := by
  intro f hf fits
  simp only [keyed, List.mem_cons, List.not_mem_nil, or_false] at hf
  rcases hf with rfl | rfl | rfl | rfl | rfl | rfl | rfl
  -- a subgraph may stand with nothing after its keyword
  · obtain ⟨r, opened, rest⟩ := Option.bind_eq_some_iff.mp fits
    rw [after?_eq_some_iff.mp opened]
    refine firstWord_append (keyword_chars _ (by decide)) ?_
    split at rest
    · rename_i alone
      rw [List.isEmpty_iff.mp alone]
      exact stops_nil _
    · obtain ⟨t, blanks, _⟩ := Option.map_eq_some_iff.mp rest
      exact stops_of_afterBlanks? blanks
  · obtain ⟨r, after, _⟩ := Option.bind_eq_some_iff.mp fits
    exact firstWord_of_afterKeyword? (by decide) after
  · obtain ⟨r, after, _⟩ := Option.bind_eq_some_iff.mp fits
    exact firstWord_of_afterKeyword? (by decide) after
  -- an assignment is read from its end, so the blank is the first of what is left between
  · obtain ⟨r, opened, rest⟩ := Option.bind_eq_some_iff.mp fits
    rw [after?_eq_some_iff.mp opened]
    refine firstWord_append (keyword_chars _ (by decide)) ?_
    simp only at rest
    split at rest
    · cases rest
    · rename_i between
      simp only [Bool.or_eq_true, not_or, Bool.not_eq_true, Bool.not_eq_false'] at between
      obtain ⟨c, first, blank⟩ := (Option.any_eq_true _ _).mp between.1
      exact stops_of_take first blank
  · obtain ⟨r, after, _⟩ := Option.bind_eq_some_iff.mp fits
    exact firstWord_of_afterKeyword? (by decide) after
  · obtain ⟨r, after, _⟩ := Option.bind_eq_some_iff.mp fits
    exact firstWord_of_afterKeyword? (by decide) after
  · obtain ⟨r, after, _⟩ := Option.bind_eq_some_iff.mp fits
    exact firstWord_of_afterKeyword? (by decide) after

theorem not_end {line : Text} (h : firstWord line ≠ "end".toList) : ¬ line = "end".toList := by
  rintro rfl
  exact h (by decide)

theorem findSome?_forms {line : Text} {s : Statement} {f : Text × (Text → Option Statement)}
    (hf : f ∈ keyed) (fits : f.2 line = some s) :
    forms.findSome? (fun form => form line) = some s := by
  have first := firstWord_of_fits f hf fits
  have nodup : (Keyed.keys keyed).Nodup := by decide
  have found := (Keyed.find?_eq_some_iff nodup).mpr ⟨hf, rfl⟩
  rw [forms_eq, List.findSome?_map]
  refine findSome?_of_find? found (fun g hg other => ?_) fits
  cases fits' : g.2 line with
  | none => exact fits'
  | some s' =>
    have same : g.1 = f.1 := (firstWord_of_fits g hg fits').symm.trans first
    exact absurd same (by simpa [Keyed.key] using other)

/-- A line that fits a form is the statement that the form says. -/
theorem ofLine_of_fits {line : Text} {s : Statement} {f : Text × (Text → Option Statement)}
    (hf : f ∈ keyed) (fits : f.2 line = some s) : ofLine line = s := by
  have first := firstWord_of_fits f hf fits
  have not_keyword : ∀ f ∈ keyed, f.1 ≠ "end".toList := by
    have keys : ∀ k ∈ keyed.map (·.1), k ≠ "end".toList := by decide
    exact fun f hf => keys f.1 (List.mem_map_of_mem hf)
  have other := not_end (first ▸ not_keyword f hf)
  rw [ofLine, if_neg other, findSome?_forms hf fits]

theorem findSome?_forms_eq_none {line : Text} (h : firstWord line ∉ keywords) :
    forms.findSome? (fun form => form line) = none := by
  rw [forms_eq, List.findSome?_map, List.findSome?_eq_none_iff]
  intro f hf
  cases fits : f.2 line with
  | none => exact fits
  | some s =>
    have first := firstWord_of_fits f hf fits
    exact absurd (List.mem_cons_of_mem _ (List.mem_map_of_mem hf)) (first ▸ h)

/-- A line has no properties if no at sign stands after the word that it begins with. -/
theorem properties?_of_no_sign {line : Text}
    (h : ∀ r, line.dropWhile isWordOrHyphen ≠ '@' :: r) : properties? line = none := by
  have none_here : braced? (line.dropWhile isWordOrHyphen) = none := by
    cases opened : after? ['@', '\x7b'] (line.dropWhile isWordOrHyphen) with
    | none =>
      rw [braced?, opened]
      rfl
    | some r => exact absurd (after?_eq_some_iff.mp opened) (h _)
  rw [properties?]
  simp only [none_here]
  rfl

/-- A line that begins with no keyword has no form with one. -/
theorem ofLine_chain {line : Text} (h : firstWord line ∉ keywords)
    (none_here : properties? line = none) : ofLine line = .chain line := by
  have other := not_end fun e => h (e ▸ List.mem_cons_self)
  rw [ofLine, if_neg other, findSome?_forms_eq_none h, none_here]

theorem ofLine_properties {line id body : Text} (h : firstWord line ∉ keywords)
    (found : properties? line = some (id, body)) : ofLine line = .properties id body line := by
  have other := not_end fun e => h (e ▸ List.mem_cons_self)
  rw [ofLine, if_neg other, findSome?_forms_eq_none h, found]

end Flowchart.Statement

namespace Flowchart.Reading

/-- A line that begins with no keyword is a chain as long as there are no edges. -/
theorem read_chain {r : Reading} {line : Text}
    (h : Statement.firstWord line ∉ Statement.keywords)
    (no_edge : r.diagram.edges = [] ∨ Statement.properties? line = none) :
    r.read (.ofLine line) = r.readChain line := by
  cases found : Statement.properties? line with
  | none =>
    rw [Statement.ofLine_chain h found]
    rfl
  | some p =>
    obtain ⟨id, body⟩ := p
    have none_there : r.diagram.edge? (.text id) = none := by
      rcases no_edge with empty | none_here
      · rw [Diagram.edge?, empty]
        rfl
      · rw [none_here] at found
        cases found
    rw [Statement.ofLine_properties h found, read]
    simp only [none_there]

end Flowchart.Reading
