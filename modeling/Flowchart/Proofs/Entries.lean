import Flowchart.Proofs.Propertied
import Mathlib.Data.List.Induction

/-! What is read from a list of entries in braces: every key stands where it came first, with the
value that it had last, whatever the values hold. And what a text is split into at the separators
outside quotes is all of the text. -/
namespace Flowchart

namespace Keyed
variable {α κ : Type} [Keyed α κ] [DecidableEq κ]

/-- Entries that are put one after another stand where their keys came first. -/
theorem keys_foldl_put [BEq κ] [LawfulBEq κ] (xs : List α) :
    keys (xs.foldl (fun found x => put x found) []) = (keys xs).eraseDups := by
  induction xs using List.reverseRecOn with
  | nil => rfl
  | append_singleton xs x ih =>
    rw [List.foldl_append, List.foldl_cons, List.foldl_nil, keys_put, ih, keys_append,
      List.eraseDups_append]
    by_cases known : key x ∈ keys xs
    · rw [if_pos (List.mem_eraseDups.mpr known)]
      simp [List.removeAll, known]
    · rw [if_neg fun here => known (List.mem_eraseDups.mp here)]
      simp [List.removeAll, known, List.eraseDups_cons]

/-- Of entries with one key that are put one after another, the last is found. -/
theorem find?_foldl_put (k : κ) (xs : List α) :
    find? k (xs.foldl (fun found x => put x found) []) = find? k xs.reverse := by
  induction xs using List.reverseRecOn with
  | nil => rfl
  | append_singleton xs x ih =>
    rw [List.foldl_append, List.foldl_cons, List.foldl_nil, find?_put, ih, List.reverse_append,
      List.reverse_singleton, List.singleton_append, find?_cons]

end Keyed

namespace Text

theorem join_glue (sep s : Text) {ps : List Text} (some_part : ps ≠ []) :
    join sep (glue s ps) = s ++ join sep ps := by
  obtain ⟨p, ps, rfl⟩ := List.exists_cons_of_ne_nil some_part
  cases ps with
  | nil => simp [glue, join, List.intercalate]
  | cons q ps => simp [glue, join, List.intercalate_cons_cons]

theorem join_void (sep : Text) {ps : List Text} (some_part : ps ≠ []) :
    join sep ([] :: ps) = sep ++ join sep ps := by
  obtain ⟨p, ps, rfl⟩ := List.exists_cons_of_ne_nil some_part
  simp [join, List.intercalate_cons_cons]

end Text

namespace Quoted

/-- From whatever place a text is split, inside quotes or outside, its pieces are all of it. -/
theorem join_splitFrom (sep : Char) (inside : Option Char) (s : Text) :
    Text.join [sep] (splitFrom sep inside s) = s := by
  induction s generalizing inside with
  | nil => rfl
  | cons c s ih =>
    rw [splitFrom_cons]
    split
    · rename_i parts
      have here : c = sep := by
        simp only [Bool.and_eq_true, decide_eq_true_eq] at parts
        exact parts.2
      rw [Text.join_void _ (splitFrom_ne_nil _ _ _), ih, here]
      rfl
    · rw [Text.join_glue _ _ (splitFrom_ne_nil _ _ _), ih]
      rfl

theorem quoted_reads {p : Text × Text}
    (h : p.1 ≠ [] ∧ (∀ c ∈ p.1, isWordOrHyphen c = true) ∧ '\r' ∉ p.2) :
    (Property.quoted p.1 p.2).Reads where
  some_key := h.1
  word := h.2.1
  piece := outside_inQuotes _ p.2
  unquote := unquote_inQuotes h.2.2

/-- Entries whose values are in quotes are put into the table one after the other. -/
theorem properties_entries {ps : List (Text × Text)}
    (h : ∀ p ∈ ps, p.1 ≠ [] ∧ (∀ c ∈ p.1, isWordOrHyphen c = true) ∧ '\r' ∉ p.2) :
    properties (Text.join ", " (ps.map fun p => Writing.plainProperty p.1 (inQuotes p.2))) =
      .ok (ps.foldl (fun found p => Keyed.put p found) []) := by
  cases ps with
  | nil => rfl
  | cons p ps =>
    have reads : ∀ q ∈ (p :: ps).map fun p => Property.quoted p.1 p.2, q.Reads := by
      intro q hq
      obtain ⟨p, hp, rfl⟩ := List.mem_map.mp hq
      exact quoted_reads (h p hp)
    have texts : ((p :: ps).map fun p => Property.quoted p.1 p.2).map Property.text =
        (p :: ps).map fun p => Writing.plainProperty p.1 (inQuotes p.2) :=
      List.map_map
    have read := foldlM_join reads (b := []) (e := []) (by simp) (by simp) []
    rw [← List.map_cons (f := fun p : Text × Text => Property.quoted p.1 p.2), texts,
      List.foldl_map, List.nil_append, List.append_nil] at read
    exact read

/-- Entries are read back: each key once, in the order in which they come first, and with the value
that it has last. The keys are of word characters and hyphens, the values are of any characters but
carriage returns. And a text is what it is split into, with the separator between the pieces. -/
theorem entries_read_back :
    (∀ ps : List (Text × Text),
      (∀ p ∈ ps, p.1 ≠ [] ∧ (∀ c ∈ p.1, isWordOrHyphen c = true) ∧ '\r' ∉ p.2) →
      ∃ found,
        properties (Text.join ", " (ps.map fun p => Writing.plainProperty p.1 (inQuotes p.2))) =
          .ok found ∧
        Keyed.keys found = (Keyed.keys ps).eraseDups ∧
        ∀ k, Keyed.find? k found = Keyed.find? k ps.reverse) ∧
    ∀ (sep : Char) (s : Text), Text.join [sep] (split sep s) = s := by
  refine ⟨fun ps h => ⟨_, properties_entries h, Keyed.keys_foldl_put ps, fun k => ?_⟩,
    fun sep s => ?_⟩
  · exact Keyed.find?_foldl_put k ps
  · exact join_splitFrom sep none s

/-- Two values of one key with another key between them, and separators, quotes and codes in the
values. -/
def quarrelling : List (Text × Text) :=
  [("label", "a, \"b\": 'c"), ("w-1", " #quot;`\n%%\x7b "), ("label", "")]

theorem quarrelling_read_back :
    (∀ p ∈ quarrelling, p.1 ≠ [] ∧ (∀ c ∈ p.1, isWordOrHyphen c = true) ∧ '\r' ∉ p.2) ∧
    (∃ found,
      properties (Text.join ", " (quarrelling.map fun p =>
        Writing.plainProperty p.1 (inQuotes p.2))) = .ok found ∧
      Keyed.keys found = ["label".toList, "w-1".toList] ∧
      Keyed.find? ("label" : Text) found = some ("label".toList, []) ∧
      Keyed.find? ("w-1" : Text) found = some ("w-1".toList, " #quot;`\n%%\x7b ".toList)) ∧
    Text.join "'".toList (split '\'' "it's \"'\"") = "it's \"'\"".toList := by
  have admissible : ∀ p ∈ quarrelling,
      p.1 ≠ [] ∧ (∀ c ∈ p.1, isWordOrHyphen c = true) ∧ '\r' ∉ p.2 := by decide +kernel
  obtain ⟨found, read, keys, values⟩ := entries_read_back.1 quarrelling admissible
  refine ⟨admissible, ⟨found, read, keys.trans ?_, (values _).trans ?_, (values _).trans ?_⟩, ?_⟩
  · decide
  · decide
  · decide
  · exact entries_read_back.2 '\'' "it's \"'\""

end Quoted
end Flowchart
