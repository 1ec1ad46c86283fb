import Flowchart.Text.Quoted

/-! What is written with codes is decoded to what it was. A hash may be left as it is in a text
in which nothing reads as a code, although the codes that are put in have hashes of their own:
what follows an open hash is either left as it is as well, or is another hash. -/
namespace Flowchart.Entity

/-- The ways to write a character so that it is read back wherever it stands: as it is, if it
begins no code, or as a code for it. -/
inductive Writes (c : Char) : Text → Prop where
  | plain (plain : c ≠ '#') : Writes c [c]
  | code (code : Text) (some_code : code ≠ []) (word : ∀ d ∈ code, isWord d = true)
      (means : meaning code = .ok [c]) (apart : isWord c = false) (open_end : c ≠ ';') :
      Writes c ('#' :: code ++ [';'])

theorem decodeFrom_word {code : Text} (word : ∀ d ∈ code, isWord d = true) (start rest : Text) :
    decodeFrom (some start) (code ++ rest) = decodeFrom (some (start ++ code)) rest := by
  induction code generalizing start with
  | nil => simp
  | cons d code ih =>
    have first : isWord d = true := word d List.mem_cons_self
    have others : ∀ e ∈ code, isWord e = true := fun e he => word e (List.mem_cons_of_mem d he)
    rw [List.cons_append, decodeFrom, if_pos first, ih others, List.append_assoc]
    rfl

theorem decodeFrom_code {code : Text} {c : Char} (some_code : code ≠ [])
    (word : ∀ d ∈ code, isWord d = true) (means : meaning code = .ok [c]) (rest : Text) :
    decodeFrom (some []) (code ++ ';' :: rest) = (decodeFrom none rest).map (c :: ·) := by
  have semicolon : isWord ';' = false := by decide
  have closed : code.isEmpty = false := by simpa using some_code
  rw [decodeFrom_word word, List.nil_append, decodeFrom]
  simp only [semicolon, closed, means, Bool.not_false, Bool.and_true, decide_true, if_true,
    Bool.false_eq_true, if_false]
  rfl

theorem decode_cons {c : Char} (h : c ≠ '#') (s : Text) :
    decode (c :: s) = (decode s).map (c :: ·) := by
  rw [decode, decodeFrom, if_neg h]
  rfl

theorem decode_writes_append {c : Char} {t : Text} (h : Writes c t) (s : Text) :
    decode (t ++ s) = (decode s).map (c :: ·) := by
  cases h with
  | plain plain => exact decode_cons plain s
  | code code some_code word means apart open_end =>
    rw [decode, List.cons_append, List.cons_append, decodeFrom, if_pos rfl, List.append_assoc]
    exact decodeFrom_code some_code word means s

theorem decode_flatMap {w : Char → Text} {s : Text} (h : ∀ c ∈ s, Writes c (w c)) :
    decode (s.flatMap w) = .ok s := by
  induction s with
  | nil => rfl
  | cons c s ih =>
    rw [List.flatMap_cons, decode_writes_append (h c List.mem_cons_self),
      ih fun d hd => h d (List.mem_cons_of_mem c hd)]
    rfl

theorem decodeFrom_open_hash (code s : Text) :
    decodeFrom (some code) ('#' :: s) = (decodeFrom (some []) s).map ('#' :: code ++ ·) := by
  have no_word : isWord '#' = false := by decide
  have other : ¬ '#' = ';' := by decide
  simp only [decodeFrom, no_word, other, Bool.false_eq_true, decide_false, Bool.false_and,
    if_false, if_true]

theorem decodeFrom_open_other {code : Text} {c : Char} (no_word : isWord c = false)
    (no_end : c = ';' → code = []) (no_hash : c ≠ '#') (s : Text) :
    decodeFrom (some code) (c :: s) = (decodeFrom none s).map ('#' :: code ++ c :: ·) := by
  have open_still : (decide (c = ';') && !code.isEmpty) = false := by
    by_cases h : c = ';'
    · simp [no_end h]
    · simp [h]
  simp only [decodeFrom, no_word, open_still, no_hash, Bool.false_eq_true, if_false]

/-- Writing characters as codes changes nothing of what a text says, from any place on. -/
theorem decodeFrom_withCodes {w : Char → Text} {s : Text}
    (h : ∀ c ∈ s, w c = [c] ∨ c ≠ '#' ∧ Writes c (w c)) (before : Option Text) :
    decodeFrom before (s.flatMap w) = decodeFrom before s := by
  induction s generalizing before with
  | nil => rfl
  | cons c s ih =>
    have rest := ih fun d hd => h d (List.mem_cons_of_mem c hd)
    rw [List.flatMap_cons]
    rcases h c List.mem_cons_self with kept | ⟨no_hash, writes⟩
    · rw [kept, List.singleton_append]
      cases before <;> simp only [decodeFrom, rest]
    · generalize w c = t at writes
      cases writes with
      | plain => cases before <;> simp only [List.singleton_append, decodeFrom, rest]
      | code code some_code word means apart open_end =>
        have coded : decodeFrom (some []) (code ++ [';'] ++ s.flatMap w) =
            (decodeFrom none s).map (c :: ·) := by
          rw [List.append_assoc, List.singleton_append, decodeFrom_code some_code word means, rest]
        cases before with
        | none => rw [List.cons_append, List.cons_append, decodeFrom, if_pos rfl, coded, decodeFrom,
            if_neg no_hash]
        | some open_code =>
          -- the code has a hash of its own, before which the open one ends
          rw [List.cons_append, List.cons_append, decodeFrom_open_hash, coded,
            decodeFrom_open_other apart (fun e => absurd e open_end) no_hash]
          cases decodeFrom none s <;> rfl

theorem decode_withCodes {w : Char → Text} {s : Text}
    (h : ∀ c ∈ s, w c = [c] ∨ c ≠ '#' ∧ Writes c (w c)) : decode (s.flatMap w) = decode s :=
  decodeFrom_withCodes h none

/-- A text without codes stands for itself, at first and after an open hash with word characters
behind it: these are kept, since the text goes on with nothing that makes them a code. -/
structure Verbatim (s : Text) : Prop where
  closed : hasCodeFrom none s = false → decodeFrom none s = .ok s
  opened : ∀ code : Text, (∀ d ∈ code, isWord d = true) →
    hasCodeFrom (some (!code.isEmpty)) s = false →
    decodeFrom (some code) s = .ok ('#' :: code ++ s)

namespace Verbatim
variable {s : Text} {c : Char}

theorem hash (h : Verbatim s) : Verbatim ('#' :: s) := by
  have no_word : isWord '#' = false := by decide
  constructor
  · intro none_here
    rw [hasCodeFrom, if_pos rfl] at none_here
    rw [decodeFrom, if_pos rfl]
    exact h.opened [] (by simp) none_here
  · -- the hash that was open stays as it is, and the new one is open
    intro code word none_here
    have none_after : hasCodeFrom (some false) s = false := by
      simpa [hasCodeFrom, no_word] using none_here
    rw [decodeFrom_open_hash, h.opened [] (by simp) none_after]
    rfl

theorem cons (h : Verbatim s) (no_hash : c ≠ '#') : Verbatim (c :: s) := by
  constructor
  · intro none_here
    rw [hasCodeFrom, if_neg no_hash] at none_here
    rw [decodeFrom, if_neg no_hash, h.closed none_here]
    rfl
  · intro code word none_here
    rw [hasCodeFrom] at none_here
    by_cases is_word : isWord c = true
    · rw [if_pos is_word] at none_here
      have word' : ∀ d ∈ code ++ [c], isWord d = true := by
        intro d hd
        rcases List.mem_append.mp hd with hd | hd
        · exact word d hd
        · rwa [List.mem_singleton.mp hd]
      have some_code : (!(code ++ [c]).isEmpty) = true := by cases code <;> rfl
      rw [decodeFrom, if_pos is_word, h.opened (code ++ [c]) word' (by rwa [some_code])]
      simp
    · have no_word : isWord c = false := by simpa using is_word
      rw [if_neg is_word] at none_here
      -- a semicolon would close a code if there were one
      have no_end : c = ';' → code = [] := by
        intro e
        cases code with
        | nil => rfl
        | cons d code => simp [e] at none_here
      have none_after : hasCodeFrom none s = false := by
        by_cases e : c = ';'
        · simpa [e, no_end e] using none_here
        · simpa [e, no_hash] using none_here
      rw [decodeFrom_open_other no_word no_end no_hash, h.closed none_after]
      rfl

end Verbatim

theorem verbatim (s : Text) : Verbatim s := by
  induction s with
  | nil => exact ⟨fun _ => rfl, fun code _ _ => by simp [decodeFrom]⟩
  | cons c s ih =>
    by_cases is_hash : c = '#'
    · exact is_hash ▸ ih.hash
    · exact ih.cons is_hash

theorem decode_of_no_code {s : Text} (h : hasCode s = false) : decode s = .ok s :=
  (verbatim s).closed h

/-- A way of writing characters is undone by decoding, if a hash that is left as it is stands in
a text without codes. -/
theorem decode_written {w : Char → Text} {s : Text} (h : ∀ c ∈ s, c ≠ '#' → Writes c (w c))
    (hash : w '#' = ['#'] ∧ hasCode s = false ∨ Writes '#' (w '#')) :
    decode (s.flatMap w) = .ok s := by
  rcases hash with ⟨hash, no_code⟩ | hash
  · rw [decode_withCodes fun c hc => ?_, decode_of_no_code no_code]
    by_cases is_hash : c = '#'
    · exact Or.inl (is_hash ▸ hash)
    · exact Or.inr ⟨is_hash, h c hc is_hash⟩
  · refine decode_flatMap fun c hc => ?_
    by_cases is_hash : c = '#'
    · exact is_hash ▸ hash
    · exact h c hc is_hash

theorem hasCode_of_not_mem {s : Text} (h : '#' ∉ s) : hasCode s = false := by
  rw [hasCode]
  induction s with
  | nil => rfl
  | cons c s ih =>
    have other : c ≠ '#' := fun e => h (e ▸ List.mem_cons_self)
    rw [hasCodeFrom, if_neg other]
    exact ih fun here => h (List.mem_cons_of_mem c here)

theorem decode_of_no_hash {s : Text} (h : '#' ∉ s) : decode s = .ok s :=
  decode_of_no_code (hasCode_of_not_mem h)

/-! ### Parts of texts without codes -/

theorem hasCodeFrom_append {before : Option Bool} {s : Text} (h : hasCodeFrom before s = true)
    (t : Text) : hasCodeFrom before (s ++ t) = true := by
  induction s generalizing before with
  | nil => cases before <;> cases h
  | cons c s ih =>
    cases before with
    | none => exact ih h
    | some seen =>
      simp only [List.cons_append, hasCodeFrom] at h ⊢
      by_cases word : isWord c = true
      · rw [if_pos word] at h ⊢
        exact ih h
      · rw [if_neg word] at h ⊢
        split
        · rfl
        · rw [if_neg ‹_›] at h
          exact ih h

/-- A code is found whatever is open before it. -/
theorem hasCodeFrom_some {s : Text} (h : hasCodeFrom none s = true) (seen : Bool) :
    hasCodeFrom (some seen) s = true := by
  induction s generalizing seen with
  | nil => cases h
  | cons c s ih =>
    simp only [hasCodeFrom] at h ⊢
    by_cases word : isWord c = true
    · have no_hash : c ≠ '#' := by
        rintro rfl
        exact absurd word (by decide)
      rw [if_neg no_hash] at h
      rw [if_pos word]
      exact ih h true
    · rw [if_neg word]
      split
      · rfl
      · exact h

theorem hasCode_of_suffix {s t : Text} (h : hasCode t = true) : hasCode (s ++ t) = true := by
  induction s with
  | nil => exact h
  | cons c s ih =>
    simp only [hasCode, List.cons_append, hasCodeFrom] at ih ⊢
    split
    · exact hasCodeFrom_some ih false
    · exact ih

/-- A part of a text without codes has no codes. -/
theorem hasCode_part {s t : Text} (inner : s <:+: t) (h : hasCode t = false) : hasCode s = false := by
  obtain ⟨before, after, rfl⟩ := inner
  rw [← Bool.not_eq_true] at h ⊢
  refine fun here => h ?_
  rw [List.append_assoc]
  exact hasCode_of_suffix (hasCodeFrom_append here after)

end Flowchart.Entity
