import Flowchart.Shape
import Flowchart.Proofs.Texts

/-! Lower case lasts: what is in lower case is its own lower case form. So the shape that a name
asks for is asked for by its own name as well. -/
namespace Flowchart

/-- A run of upper case characters: first and last number, the distance of neighbours, and the
forms of the first and the last. -/
structure LowerRun where
  first : Nat
  last : Nat
  step : Nat
  low : Nat
  high : Nat

namespace LowerRun

/-- A run as the table has it. -/
def ofEntry (r : Nat × Nat × Nat × Int) : LowerRun :=
  ⟨r.1, r.2.1, r.2.2.1, (r.1 + r.2.2.2).toNat, (r.2.1 + r.2.2.2).toNat⟩

/-- The runs of the table. -/
def all : List LowerRun := lowerRuns.map ofEntry

/-- No form of the one run is in the other: they are apart, or every other character between the
ends of both counts, and not the same ones. -/
def isApart (r s : LowerRun) : Bool :=
  r.high.blt s.first || s.last.blt r.low ||
    ((r.step == 2 || r.first == r.last) && s.step == 2 && (r.low + s.first) % 2 == 1)

/-- The forms are characters beyond the first 128, and none of them is a blank or the capital I
with a dot. -/
def isPlain (r : LowerRun) : Bool :=
  Nat.blt 0xa0 r.low && (r.high.blt 0x130 || (Nat.blt 0x130 r.low && r.high.blt 0x1680) ||
    (Nat.blt 0x1680 r.low && r.high.blt 0x2000) || (Nat.blt 0x205f r.low && r.high.blt 0x3000) ||
    (Nat.blt 0x3000 r.low && r.high.blt 0xd800) || (Nat.blt 0xdfff r.low && r.high.blt 0x110000))

/-- Only the Kelvin sign has a form among the first 128 characters. -/
theorem table : (all.all fun r =>
    (r.isPlain || (r.first == r.last && r.low == 0x6b)) && all.all fun s => r.isApart s) = true := by
  decide +kernel

end LowerRun

/-- The character is neither a blank nor a percent sign. -/
def isLettered (c : Char) : Bool := !isBlank c && c != '%'

/-- The lower case form of a run's character is its own lower case form, and lettered. -/
theorem lowerChar_of_run {r : Nat × Nat × Nat × Int} (there : r ∈ lowerRuns) {n : Nat}
    (first : r.1 ≤ n) (last : n ≤ r.2.1) (step : (n - r.1) % r.2.2.1 = 0) :
    lowerChar (Char.ofNat (n + r.2.2.2).toNat) = [Char.ofNat (n + r.2.2.2).toNat] ∧
      isLettered (Char.ofNat (n + r.2.2.2).toNat) = true := by
  have entry := List.all_eq_true.mp LowerRun.table _ (List.mem_map_of_mem there)
  simp only [Bool.and_eq_true, Bool.or_eq_true, beq_iff_eq, List.all_eq_true] at entry
  obtain ⟨plain | ⟨single, kelvin⟩, apart⟩ := entry
  · simp only [LowerRun.isPlain, LowerRun.ofEntry, Bool.and_eq_true, Bool.or_eq_true,
      Nat.blt_eq] at plain
    have valid : (Char.ofNat (n + r.2.2.2).toNat).toNat = (n + r.2.2.2).toNat := by
      rw [Char.ofNat, dif_pos (by unfold Nat.isValidChar; omega)]
      rfl
    have fresh : lowerRuns.find? (fun s => s.1 ≤ (n + r.2.2.2).toNat &&
        (n + r.2.2.2).toNat ≤ s.2.1 && ((n + r.2.2.2).toNat - s.1) % s.2.2.1 == 0) = none := by
      refine List.find?_eq_none.mpr fun s other => ?_
      have apart := apart _ (List.mem_map_of_mem other)
      simp only [LowerRun.isApart, LowerRun.ofEntry, Bool.and_eq_true, Bool.or_eq_true, Nat.blt_eq,
        beq_iff_eq] at apart
      simp only [Bool.and_eq_true, decide_eq_true_eq, beq_iff_eq, not_and]
      intro inside stepped
      rcases apart with apart | ⟨⟨stride, two⟩, odd⟩
      · omega
      · rw [two] at stepped
        rcases stride with stride | single
        · rw [stride] at step
          omega
        · omega
    constructor
    · rw [lowerChar, valid, if_neg (by omega), if_neg (by omega), fresh]
    · have no_percent : Char.ofNat (n + r.2.2.2).toNat ≠ '%' := by
        intro percent
        have number := congrArg Char.toNat percent
        rw [valid] at number
        change (n + r.2.2.2).toNat = 0x25 at number
        omega
      simp only [isLettered, isBlank, valid, Bool.and_eq_true, Bool.not_eq_true', bne_iff_ne,
        Bool.or_eq_false_iff, Bool.and_eq_false_iff, decide_eq_false_iff_not, beq_eq_false_iff_ne]
      exact ⟨by omega, no_percent⟩
  · have k : (n + r.2.2.2).toNat = 0x6b := by
      simp only [LowerRun.ofEntry] at single kelvin
      have : n = r.1 := by omega
      rw [this, kelvin]
    rw [k]
    decide +kernel

/-- What may stand for a character in lower case: the character itself or lettered ones, which are in
lower case. -/
structure IsLowerForm (c : Char) (form : Text) : Prop where
  some_form : form ≠ []
  low : ∀ d ∈ form, lowerChar d = [d]
  lettered : form = [c] ∨ ∀ d ∈ form, isLettered d = true

theorem IsLowerForm.single {c d : Char} (own : lowerChar d = [d]) (h : d = c ∨ isLettered d = true) :
    IsLowerForm c [d] where
  some_form := List.cons_ne_nil d []
  low := by simpa using own
  lettered := by simpa using h

theorem IsLowerForm.isBlank {c : Char} {form : Text} (h : IsLowerForm c form) (hc : isBlank c = false) :
    ∀ d ∈ form, Flowchart.isBlank d = false := by
  intro d hd
  rcases h.lettered with rfl | lettered
  · rwa [List.mem_singleton.mp hd]
  · have letter := lettered d hd
    simp only [isLettered, Bool.and_eq_true, Bool.not_eq_true'] at letter
    exact letter.1

theorem lowerChar_of_ascii : ∀ n < 0x80, lowerChar (Char.ofNat n).toLower = [(Char.ofNat n).toLower] ∧
    ((Char.ofNat n).toLower = Char.ofNat n ∨ isLettered (Char.ofNat n).toLower = true) := by
  decide +kernel

theorem isLowerForm_lowerChar (c : Char) : IsLowerForm c (lowerChar c) := by
  unfold lowerChar
  split
  · rename_i ascii
    have form := lowerChar_of_ascii c.toNat ascii
    rw [Char.ofNat_toNat] at form
    exact .single form.1 form.2
  · split
    · have two : ∀ d ∈ ['i', '\u0307'], lowerChar d = [d] ∧ isLettered d = true := by decide +kernel
      exact ⟨by simp, fun d hd => (two d hd).1, Or.inr fun d hd => (two d hd).2⟩
    · split
      · rename_i r found
        have inside := List.find?_some found
        simp only [Bool.and_eq_true, decide_eq_true_eq, beq_iff_eq] at inside
        have run := lowerChar_of_run (List.mem_of_find?_eq_some found) inside.1.1 inside.1.2 inside.2
        exact .single run.1 (Or.inr run.2)
      · rename_i large undotted _ unlisted
        exact .single (by rw [lowerChar, if_neg large, if_neg undotted, unlisted]) (Or.inl rfl)

namespace Text

theorem lowerAfter_own {s : Text} (h : ∀ c ∈ s, lowerChar c = [c]) (before : Text) :
    lowerAfter before s = s := by
  induction s generalizing before with
  | nil => rfl
  | cons c s ih =>
    have own := h c List.mem_cons_self
    have sigma : lowerChar 'Σ' ≠ ['Σ'] := by decide +kernel
    have other : c ≠ 'Σ' := fun same => sigma (same ▸ own)
    rw [lowerAfter, if_neg other, own, ih fun d hd => h d (List.mem_cons_of_mem c hd)]
    rfl

theorem lowerAfter_cons (before : Text) (c : Char) (s : Text) :
    ∃ form, lowerAfter before (c :: s) = form ++ lowerAfter (c :: before) s ∧ IsLowerForm c form := by
  have sigma : ∀ d ∈ ['ς', 'σ'], lowerChar d = [d] ∧ isLettered d = true := by decide +kernel
  refine ⟨_, rfl, ?_⟩
  split
  · split
    · exact .single (sigma 'ς' (by simp)).1 (Or.inr (sigma 'ς' (by simp)).2)
    · exact .single (sigma 'σ' (by simp)).1 (Or.inr (sigma 'σ' (by simp)).2)
  · exact isLowerForm_lowerChar c

theorem lowerAfter_spec {before s : Text} {d : Char} (h : d ∈ lowerAfter before s) :
    lowerChar d = [d] := by
  induction s generalizing before with
  | nil => cases h
  | cons c s ih =>
    obtain ⟨form, whole, isForm⟩ := lowerAfter_cons before c s
    rcases List.mem_append.mp (whole ▸ h) with h | h
    · exact isForm.low d h
    · exact ih h

theorem lower_lower (s : Text) : s.lower.lower = s.lower :=
  lowerAfter_own (fun _ h => lowerAfter_spec h) []

theorem lower_ne_nil {s : Text} (h : s ≠ []) : s.lower ≠ [] := by
  obtain ⟨c, s, rfl⟩ := List.exists_cons_of_ne_nil h
  obtain ⟨form, whole, isForm⟩ := lowerAfter_cons [] c s
  rw [lower, whole]
  exact List.append_ne_nil_of_left_ne_nil isForm.some_form _

theorem stops_lower {s : Text} (h : Stops isBlank s) : Stops isBlank s.lower := by
  cases s with
  | nil => simp [lower, lowerAfter]
  | cons c s =>
    obtain ⟨form, whole, isForm⟩ := lowerAfter_cons [] c s
    intro d first
    rw [lower, whole, List.head?_append_of_ne_nil _ isForm.some_form] at first
    exact isForm.isBlank (stops_cons.mp h) d (List.mem_of_mem_head? first)

/-- The end of a text in lower case is the lower case form of its end. -/
theorem stops_reverse_lowerAfter {s : Text} (h : Stops isBlank s.reverse) (before : Text) :
    Stops isBlank (lowerAfter before s).reverse := by
  induction s generalizing before with
  | nil => simp [lowerAfter]
  | cons c s ih =>
    obtain ⟨form, whole, isForm⟩ := lowerAfter_cons before c s
    rw [whole, List.reverse_append]
    cases s with
    | nil =>
      intro d last
      have here : d ∈ form := by
        simpa [lowerAfter] using List.mem_of_mem_head? last
      exact isForm.isBlank (h c rfl) d here
    | cons e s =>
      have rest : Stops isBlank (e :: s).reverse := by
        intro d last
        refine h d ?_
        rw [List.reverse_cons, List.head?_append_of_ne_nil _ (by simp)]
        exact last
      refine stops_append (ih rest (c :: before)) fun empty => ?_
      obtain ⟨f, w, isForm⟩ := lowerAfter_cons (c :: before) e s
      simp [w, isForm.some_form] at empty

theorem tight_lower {s : Text} (h : Tight s) : Tight s.lower :=
  ⟨stops_lower h.start, stops_reverse_lowerAfter h.finish []⟩

end Text

namespace Shape

theorem resolve_unlisted {t : Text} (listed : Keyed.find? t.trim.lower aliases = none)
    (own : ofName? t.trim.lower = none) : resolve t = .named t.trim.lower := by
  simp only [resolve, listed, own, Option.getD_none]

/-- A name asks for a known shape, or for one that is known by this name only. -/
theorem resolve_known_or (t : Text) : resolve t ∈ known ∨
    Keyed.find? t.trim.lower aliases = none ∧ ofName? t.trim.lower = none := by
  have aliased : ∀ entry ∈ aliases, entry.2 ∈ known := by decide
  cases listed : Keyed.find? t.trim.lower aliases with
  | some entry =>
    simp only [resolve, listed]
    exact Or.inl (aliased entry (Keyed.mem_of_find? listed))
  | none =>
    cases own : ofName? t.trim.lower with
    | some shape =>
      simp only [resolve, listed, own, Option.getD_some]
      exact Or.inl (List.mem_of_find?_eq_some own)
    | none => exact Or.inr ⟨rfl, rfl⟩

theorem resolve_name {shape : Shape} (h : shape ∈ known) : resolve shape.name = shape := by
  have all : ∀ shape ∈ known, resolve shape.name = shape := by decide +kernel
  exact all shape h

/-- Every shape that is asked for by some name is asked for by its own. -/
theorem resolve_name_resolve (t : Text) : resolve (resolve t).name = resolve t := by
  rcases resolve_known_or t with listed | ⟨listed, own⟩
  · exact resolve_name listed
  · have key : t.trim.lower.trim.lower = t.trim.lower := by
      rw [Text.trim_tight (Text.tight_lower (Text.tight_trim t)), Text.lower_lower]
    have named : (resolve t).name = t.trim.lower := congrArg name (resolve_unlisted listed own)
    calc resolve (resolve t).name = resolve t.trim.lower := congrArg resolve named
      _ = .named t.trim.lower.trim.lower :=
        resolve_unlisted (key.symm ▸ listed) (key.symm ▸ own)
      _ = .named t.trim.lower := congrArg Shape.named key
      _ = resolve t := (resolve_unlisted listed own).symm

theorem name_resolve_ne_nil {t : Text} (h : t.trim ≠ []) : (resolve t).name ≠ [] := by
  have named : ∀ shape ∈ known, shape.name ≠ [] := by decide
  rcases resolve_known_or t with listed | ⟨listed, own⟩
  · exact named _ listed
  · rw [resolve_unlisted listed own]
    exact Text.lower_ne_nil h

end Shape
end Flowchart
