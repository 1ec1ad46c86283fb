/-! Texts as lists of characters, and the few list operations every format below is
written with. A text is its sequence of code points: no encoding, no normal form, and a
length that counts characters. `String` appears only where bytes come in or go out. -/
namespace Flowchart

/-- A sequence of characters. -/
abbrev Text := List Char

/-- A literal stands for the list of its characters. -/
instance : Coe String Text := ⟨String.toList⟩

namespace Text

/-- What is said of all characters of a text is tried on these, and not on all characters that
there are. -/
instance (priority := high) decidableForall (p : Char → Prop) [DecidablePred p] (s : Text) :
    Decidable (∀ c ∈ s, p c) := List.decidableBAll p s

/-- What follows `start`, if the text begins with it. -/
def after? (start s : Text) : Option Text := start.isPrefixOf? s

/-- What precedes `ending`, if the text ends with it. -/
def before? (ending s : Text) : Option Text := ending.isSuffixOf? s

/-- What precedes `ending`, which ends the text or stands before its final line feed. -/
def beforeFinal? (ending s : Text) : Option Text :=
  (before? ending s).orElse fun _ => before? (ending ++ ['\n']) s

/-- Does `part` occur in the text as a run of neighbours? -/
def has (part : Text) : Text → Bool
  | [] => part.isEmpty
  | c :: s => part.isPrefixOf (c :: s) || has part s

/-- The text up to the first occurrence of `part`, or all of it. -/
def upTo (part : Text) : Text → Text
  | [] => []
  | c :: s => if part.isPrefixOf (c :: s) then [] else c :: upTo part s

/-- Does a text come before another or equal it, character by character? -/
def isUpTo : Text → Text → Bool
  | [], _ => true
  | _ :: _, [] => false
  | c :: s, d :: t => c.toNat < d.toNat || (c.toNat == d.toNat && isUpTo s t)

/-- The text without the longest run of `p` characters at its end. -/
def dropTrailing (p : Char → Bool) (s : Text) : Text :=
  (s.reverse.dropWhile p).reverse

/-- The pieces between the separators. There is always one more piece than separators. -/
def pieces (sep : Char) : Text → List Text
  | [] => [[]]
  | c :: s =>
    if c = sep then [] :: pieces sep s
    else match pieces sep s with
      | [] => [[c]]
      | p :: ps => (c :: p) :: ps

/-- The two sides of the first separator, if there is one. -/
def halves? (sep : Char) : Text → Option (Text × Text)
  | [] => none
  | c :: s =>
    if c = sep then some ([], s)
    else (halves? sep s).map fun h => (c :: h.1, h.2)

/-- The texts one after another with `sep` between neighbours. -/
def join (sep : Text) (parts : List Text) : Text := sep.intercalate parts

/-- The decimal digits of a number. -/
def ofNat (n : Nat) : Text := Nat.toDigits 10 n

/-- The decimal digits of a number, after a minus sign if it is negative. -/
def ofInt : Int → Text
  | .ofNat n => ofNat n
  | .negSucc n => '-' :: ofNat (n + 1)

@[simp] theorem after?_nil (s : Text) : after? [] s = some s := by cases s <;> rfl

@[simp] theorem after?_cons_nil (c : Char) (start : Text) : after? (c :: start) [] = none := rfl

theorem after?_cons_cons (c d : Char) (start s : Text) :
    after? (c :: start) (d :: s) = if c == d then after? start s else none := rfl

theorem before?_eq (ending s : Text) :
    before? ending s = (after? ending.reverse s.reverse).map List.reverse := rfl

theorem after?_eq_some_iff {start s rest : Text} :
    after? start s = some rest ↔ s = start ++ rest := by
  induction start generalizing s with
  | nil => simp
  | cons c start ih =>
    cases s with
    | nil => simp
    | cons d s =>
      rw [after?_cons_cons]
      by_cases hc : c = d
      · subst hc
        simp [ih]
      · have other : ¬ d = c := fun e => hc e.symm
        simp [hc, other]

theorem before?_eq_some_iff {ending s rest : Text} :
    before? ending s = some rest ↔ s = rest ++ ending := by
  rw [before?_eq, Option.map_eq_some_iff]
  have h (t : Text) : after? ending.reverse s.reverse = some t ↔
      s.reverse = ending.reverse ++ t := after?_eq_some_iff
  simp only [h]
  constructor
  · rintro ⟨t, ht, rfl⟩
    simpa using congrArg List.reverse ht
  · rintro rfl
    exact ⟨rest.reverse, by simp⟩

theorem pieces_ne_nil (sep : Char) (s : Text) : pieces sep s ≠ [] := by
  induction s with
  | nil => simp [pieces]
  | cons c s ih =>
    by_cases h : c = sep
    · simp [pieces, h]
    · simp only [pieces, h, ite_false]
      split <;> simp

/-- The pieces joined by the separator are the text. -/
theorem join_pieces (sep : Char) (s : Text) : join [sep] (pieces sep s) = s := by
  induction s with
  | nil => rfl
  | cons c s ih =>
    obtain ⟨p, ps, hp⟩ := List.exists_cons_of_ne_nil (pieces_ne_nil sep s)
    rw [hp] at ih
    by_cases h : c = sep
    · simp only [pieces, h, ite_true, hp]
      simpa [join, List.intercalate_cons_cons] using ih
    · simp only [pieces, h, ite_false, hp]
      cases ps with
      | nil => simpa [join, List.intercalate] using ih
      | cons q qs => simpa [join, List.intercalate] using ih

end Text
end Flowchart
