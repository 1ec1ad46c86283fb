import Flowchart.Edge.Id

/-! Ids of edges are made distinct by a number. The search for a free number forgets the ids it
has met; since different numbers give different ids, it misses none of the taken ones. -/
namespace Flowchart.EdgeId

theorem ofNat_injective {m n : Nat} (h : Text.ofNat m = Text.ofNat n) : m = n := by
  have value : Nat.ofDigitChars 10 (Nat.toDigits 10 m) 0 =
      Nat.ofDigitChars 10 (Nat.toDigits 10 n) 0 := congrArg (Nat.ofDigitChars 10 · 0) h
  rwa [Nat.ofDigitChars_ten_toDigits, Nat.ofDigitChars_ten_toDigits] at value

theorem numbered_injective {base : Text} {m n : Nat} (h : numbered base m = numbered base n) :
    m = n := by
  simp only [numbered, List.append_assoc] at h
  exact ofNat_injective (List.append_cancel_left (List.append_cancel_left h))

/-- The search ends at the first number from `n` on whose id is not taken. -/
theorem firstFree_spec (base : Text) (taken : List Text) (n : Nat) :
    ∃ m, n ≤ m ∧ firstFree base taken n = numbered base m ∧ numbered base m ∉ taken ∧
      ∀ k, n ≤ k → k < m → numbered base k ∈ taken := by
  induction taken, n using firstFree.induct base with
  | case1 taken n met ih =>
    obtain ⟨m, le, found, free, before⟩ := ih
    refine ⟨m, Nat.le_of_succ_le le, by rw [firstFree, dif_pos met, found], ?_, ?_⟩
    · intro h
      have other : numbered base m ≠ numbered base n := fun e => by
        have := numbered_injective e
        omega
      exact free ((List.mem_erase_of_ne other).mpr h)
    · intro k hn hm
      by_cases first : k = n
      · exact first ▸ met
      · exact List.mem_of_mem_erase (before k (by omega) hm)
  | case2 taken n free =>
    refine ⟨n, Nat.le_refl n, by rw [firstFree, dif_neg free], free, ?_⟩
    intro k hn hk
    omega

theorem distinct_not_mem (base : Text) (taken : List Text) : distinct base taken ∉ taken := by
  unfold distinct
  split
  · obtain ⟨m, _, found, free, _⟩ := firstFree_spec base taken 1
    rw [found]
    exact free
  · assumption

/-- An id that is made distinct still begins as it did. -/
theorem prefix_distinct (base : Text) (taken : List Text) : base <+: distinct base taken := by
  unfold distinct
  split
  · obtain ⟨m, _, found, _⟩ := firstFree_spec base taken 1
    rw [found, numbered, List.append_assoc]
    exact List.prefix_append _ _
  · exact List.prefix_refl base

theorem distinct_eq_self {base : Text} {taken : List Text} (h : base ∉ taken) :
    distinct base taken = base := if_neg h

/-- What begins every id that is not an author's. -/
def generatedMark : Text := "edge-"

theorem prefix_ofContent (source target symbols : Text) (label : Option Text) (stroke : Stroke)
    (start finish : Tip) :
    generatedMark <+: ofContent source target symbols label stroke start finish :=
  List.prefix_append _ _

theorem forall_mem_toDigits {p : Char → Prop} {base : Nat} (many : 1 < base)
    (digits : ∀ d < base, p (Nat.digitChar d)) (n : Nat) : ∀ c ∈ Nat.toDigits base n, p c := by
  induction n using Nat.strongRecOn with
  | ind n ih =>
    intro c hc
    rw [Nat.toDigits_eq_if many] at hc
    split at hc
    · rename_i one
      rw [List.mem_singleton.mp hc]
      exact digits n one
    · rename_i more
      rcases List.mem_append.mp hc with hc | hc
      · exact ih (n / base) (Nat.div_lt_self (by omega) many) c hc
      · rw [List.mem_singleton.mp hc]
        exact digits _ (Nat.mod_lt n (by omega))

/-- What is generated is the mark and hexadecimal digits. -/
theorem forall_mem_ofContent {p : Char → Prop} (mark : ∀ c ∈ generatedMark, p c)
    (digits : ∀ d < 16, p (Nat.digitChar d)) (source target symbols : Text) (label : Option Text)
    (stroke : Stroke) (start finish : Tip) :
    ∀ c ∈ ofContent source target symbols label stroke start finish, p c := by
  intro c hc
  rcases List.mem_append.mp hc with hc | hc
  · exact mark c hc
  · exact forall_mem_toDigits (by decide) digits _ c hc

end Flowchart.EdgeId
