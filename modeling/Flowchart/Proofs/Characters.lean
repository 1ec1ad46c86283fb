import Flowchart.Text.Alphanumeric
import Flowchart.Text.Blank

/-! Classes of characters and how they lie to each other. -/
namespace Flowchart

/-- The numbers of the blanks. -/
def blankCodes : List Nat := [
  9, 10, 11, 12, 13, 0x1c, 0x1d, 0x1e, 0x1f, 0x20, 0x85, 0xa0, 0x1680, 0x2000, 0x2001, 0x2002,
  0x2003, 0x2004, 0x2005, 0x2006, 0x2007, 0x2008, 0x2009, 0x200a, 0x2028, 0x2029, 0x202f, 0x205f,
  0x3000]

theorem toNat_mem_blankCodes {c : Char} (h : isBlank c = true) : c.toNat ∈ blankCodes := by
  simp only [isBlank, Bool.or_eq_true, Bool.and_eq_true, decide_eq_true_eq, beq_iff_eq] at h
  simp only [blankCodes, List.mem_cons, List.not_mem_nil, or_false]
  omega

theorem isBlank_of_class {p : Char → Bool} (apart : ∀ n ∈ blankCodes, p (Char.ofNat n) = false)
    {c : Char} (h : p c = true) : isBlank c = false := by
  cases blank : isBlank c with
  | false => rfl
  | true =>
    have no_member := apart c.toNat (toNat_mem_blankCodes blank)
    rw [Char.ofNat_toNat, h] at no_member
    cases no_member

theorem isBlank_of_isWordOrHyphen {c : Char} (h : isWordOrHyphen c = true) :
    isBlank c = false :=
  isBlank_of_class (p := isWordOrHyphen) (by decide +kernel) h

theorem isLineBreak_of_not_isBlank {c : Char} (h : isBlank c = false) : isLineBreak c = false := by
  cases line : isLineBreak c with
  | false => rfl
  | true =>
    rw [isBlank_of_isLineBreak line] at h
    cases h

/-- A character of a word neither ends a line nor begins a comment. -/
theorem inline_of_isWordOrHyphen {c : Char} (h : isWordOrHyphen c = true) :
    isLineBreak c = false ∧ c ≠ '%' := by
  refine ⟨isLineBreak_of_not_isBlank (isBlank_of_isWordOrHyphen h), ?_⟩
  rintro rfl
  exact absurd h (by decide)

end Flowchart
