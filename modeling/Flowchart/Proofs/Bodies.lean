import Flowchart.Proofs.Keyed
import Flowchart.Proofs.Scanning
import Flowchart.Writing

/-! Properties in braces. Each is written as its key and its value, and a list of them is read
back key by key: no comma that stands between two of them is inside quotes, and no comma inside
one of them is outside. -/
namespace Flowchart
open Text

namespace Quoted

/-- The quote that is open after a character. -/
def openAfter : Option Char → Char → Option Char
  | some q, c => if c = q then none else some q
  | none, c => if c = '"' || c = '\'' then some c else none

theorem splitFrom_cons (sep : Char) (inside : Option Char) (c : Char) (s : Text) :
    splitFrom sep inside (c :: s) =
      if inside.isNone && (openAfter inside c).isNone && c = sep then [] :: splitFrom sep none s
      else glue [c] (splitFrom sep (openAfter inside c) s) := by
  cases inside <;> rw [splitFrom.eq_def] <;> simp only [openAfter]
  all_goals
    refine if_congr Iff.rfl rfl ?_
    generalize splitFrom sep _ s = ps
    cases ps <;> rfl

theorem splitFrom_ne_nil (sep : Char) (inside : Option Char) (s : Text) :
    splitFrom sep inside s ≠ [] := by
  cases s with
  | nil => exact List.cons_ne_nil _ _
  | cons c s =>
    rw [splitFrom_cons]
    split <;> exact List.cons_ne_nil _ _

theorem splitFrom_comma (s : Text) :
    splitFrom ',' none (',' :: s) = [] :: splitFrom ',' none s := rfl

theorem splitFrom_in_quotes {e : Text} (h : '"' ∉ e) (s : Text) :
    splitFrom ',' (some '"') (e ++ '"' :: s) = glue (e ++ ['"']) (splitFrom ',' none s) := by
  induction e with
  | nil => exact splitFrom_cons ',' (some '"') '"' s
  | cons c e ih =>
    have stays : openAfter (some '"') c = some '"' :=
      if_neg fun same : c = '"' => h (same ▸ List.mem_cons_self)
    rw [List.cons_append, splitFrom_cons, stays, ih fun here => h (List.mem_cons_of_mem c here),
      glue_glue]
    rfl

/-- What is outside quotes neither a quote nor a comma is all in one piece. -/
def IsPiece (s : Text) : Prop := Outside (fun c => c ≠ '\'' ∧ c ≠ ',') s

theorem splitFrom_piece {s : Text} (h : IsPiece s) (rest : Text) :
    splitFrom ',' none (s ++ rest) = glue s (splitFrom ',' none rest) := by
  induction h with
  | nil => exact (glue_nil (splitFrom_ne_nil _ _ _)).symm
  | @char c s no_quote here _ ih =>
    obtain ⟨no_apostrophe, no_comma⟩ := here
    have outside : openAfter none c = none := by simp [openAfter, no_quote, no_apostrophe]
    rw [List.cons_append, splitFrom_cons, outside, ih, glue_glue, if_neg (by simp [no_comma])]
    rfl
  | @quoted e s inner _ ih =>
    have whole : '"' :: (e ++ '"' :: s) ++ rest = '"' :: (e ++ '"' :: (s ++ rest)) := by simp
    have opens : openAfter none '"' = some '"' := rfl
    rw [whole, splitFrom_cons, opens, splitFrom_in_quotes inner, ih, glue_glue, glue_glue]
    simp

end Quoted

/-- A property: how its value is written, and what it is read as. -/
structure Property where
  key : Text
  written : Text
  value : Text

namespace Property

/-- The property as it is written. -/
def text (p : Property) : Text := p.key ++ ": ".toList ++ p.written

/-- The property is read as it is meant. -/
structure Reads (p : Property) : Prop where
  some_key : p.key ≠ []
  word : ∀ c ∈ p.key, isWordOrHyphen c = true
  piece : Quoted.IsPiece p.written
  unquote : Quoted.unquote p.written = .ok p.value

end Property

theorem Text.halves?_append {sep : Char} {s : Text} (h : sep ∉ s) (rest : Text) :
    halves? sep (s ++ sep :: rest) = some (s, rest) := by
  induction s with
  | nil => simp [halves?]
  | cons c s ih =>
    have other : ¬ c = sep := fun e => h (e ▸ List.mem_cons_self)
    rw [List.cons_append, halves?, if_neg other, ih fun here => h (List.mem_cons_of_mem c here)]
    rfl

namespace Quoted

theorem unquote_surround {b s e : Text} (hb : ∀ c ∈ b, isBlank c = true)
    (he : ∀ c ∈ e, isBlank c = true) : unquote (b ++ s ++ e) = unquote s := by
  rw [unquote, unquote, trim_surround hb he]

/-- A property is found with blanks around it. One with its key that was found before keeps its
place and takes the value. -/
theorem property_written {p : Property} (h : p.Reads) {b e : Text}
    (hb : ∀ c ∈ b, isBlank c = true) (he : ∀ c ∈ e, isBlank c = true)
    (found : List (Text × Text)) :
    properties.property found (b ++ p.text ++ e) = .ok (Keyed.put (p.key, p.value) found) := by
  have whole : b ++ p.text ++ e = (b ++ p.key) ++ ':' :: ([' '] ++ p.written ++ e) := by
    simp [Property.text]
  have no_colon : ':' ∉ b ++ p.key := by
    intro here
    rcases List.mem_append.mp here with here | here
    · exact absurd (hb ':' here) (by decide)
    · exact absurd (h.word ':' here) (by decide)
  have tight : Tight p.key := tight_of_stops fun c hc => isBlank_of_isWordOrHyphen (h.word c hc)
  have trimmed : trim (b ++ p.key) = p.key := by
    have := trim_append (e := []) hb tight (by simp)
    simpa using this
  have some_key : p.key.isEmpty = false := by simpa using h.some_key
  have value : unquote ([' '] ++ p.written ++ e) = .ok p.value := by
    rw [unquote_surround (by decide) he, h.unquote]
  rw [properties.property, whole, halves?_append no_colon]
  simp only [trimmed, some_key, value, Bool.false_eq_true, if_false]
  rfl

theorem outside_text {P : Char → Prop} {p : Property} (word : ∀ c, isWordOrHyphen c = true → P c)
    (colon : P ':') (blank : P ' ') (hk : ∀ c ∈ p.key, isWordOrHyphen c = true)
    (hw : Outside P p.written) : Outside P p.text := by
  have key : Outside P p.key := by
    refine outside_of_chars fun c hc => ⟨?_, word c (hk c hc)⟩
    rintro rfl
    exact absurd (hk '"' hc) (by decide)
  have mark : Outside P ": ".toList := .char (by decide) colon (.char (by decide) blank .nil)
  exact (key.append mark).append hw

theorem piece_text {p : Property} (h : p.Reads) : IsPiece p.text := by
  refine outside_text (fun c word => ⟨?_, ?_⟩) (by decide) (by decide) h.word h.piece
  · rintro rfl
    exact absurd word (by decide)
  · rintro rfl
    exact absurd word (by decide)

theorem piece_blanks {b : Text} (h : ∀ c ∈ b, isBlank c = true) : IsPiece b := by
  refine outside_of_chars fun c hc => ?_
  have blank := h c hc
  refine ⟨?_, ?_, ?_⟩ <;> rintro rfl <;> exact absurd blank (by decide)

/-- The property is put among those that were found before. -/
def putProperty (properties : List (Text × Text)) (p : Property) : List (Text × Text) :=
  Keyed.put (p.key, p.value) properties

/-- Whatever was found before, the properties of a list are found one after the other. -/
theorem foldlM_join {p : Property} {ps : List Property} (h : ∀ q ∈ p :: ps, q.Reads) {b e : Text}
    (hb : ∀ c ∈ b, isBlank c = true) (he : ∀ c ∈ e, isBlank c = true)
    (before : List (Text × Text)) :
    (split ',' (b ++ Text.join ", " ((p :: ps).map Property.text) ++ e)).foldlM
        properties.property before = .ok ((p :: ps).foldl putProperty before) := by
  have reads := h p List.mem_cons_self
  -- the last property is followed by the blanks that end the list, every other one by a comma
  induction ps generalizing p b before with
  | nil =>
    have piece := splitFrom_piece
      (((piece_blanks hb).append (piece_text reads)).append (piece_blanks he)) []
    have whole : b ++ Text.join ", " ([p].map Property.text) ++ e = b ++ p.text ++ e ++ [] := by
      simp [Text.join, List.intercalate]
    rw [whole, split, piece]
    change [b ++ p.text ++ e ++ []].foldlM _ _ = _
    rw [List.append_nil, List.foldlM_cons, property_written reads hb he]
    rfl
  | cons q ps ih =>
    have whole : b ++ Text.join ", " ((p :: q :: ps).map Property.text) ++ e =
        (b ++ p.text) ++ ',' :: ([' '] ++ Text.join ", " ((q :: ps).map Property.text) ++ e) := by
      simp [Text.join, List.intercalate_cons_cons]
    have written := property_written reads (e := []) hb (by simp) before
    rw [List.append_nil] at written
    have rest := ih (p := q) (fun k hk => h k (List.mem_cons_of_mem p hk)) (b := [' ']) (by decide)
      (putProperty before p) (h q (by simp))
    rw [split] at rest ⊢
    rw [whole, splitFrom_piece ((piece_blanks hb).append (piece_text reads)), splitFrom_comma]
    change ((b ++ p.text ++ []) :: splitFrom ',' none _).foldlM _ _ = _
    rw [List.append_nil, List.foldlM_cons, written]
    exact rest

/-- A list of properties is read back, key by key. -/
theorem properties_join {ps : List Property} (some_property : ps ≠ []) (h : ∀ p ∈ ps, p.Reads)
    (nodup : (ps.map Property.key).Nodup) :
    properties (' ' :: Text.join ", " (ps.map Property.text) ++ [' ']) =
      .ok (ps.map fun p => (p.key, p.value)) := by
  obtain ⟨p, ps, rfl⟩ := List.exists_cons_of_ne_nil some_property
  have once : (Keyed.keys ([] ++ (p :: ps).map fun p => (p.key, p.value))).Nodup := by
    simpa [Keyed.keys, Keyed.key, Function.comp_def] using nodup
  have put := Keyed.foldl_put [] once
  rw [List.foldl_map, List.nil_append] at put
  rw [properties, ← put]
  exact foldlM_join h (b := [' ']) (e := [' ']) (by decide) (by decide) []

end Quoted
end Flowchart
