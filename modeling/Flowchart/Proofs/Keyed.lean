import Flowchart.Keyed
import Mathlib.Data.List.Basic
import Mathlib.Data.List.Induction
import Mathlib.Data.List.Nodup

/-! Keyed lists whose keys differ from each other. In such a list an entry is known by its
key, putting an entry replaces the one with its key where that stands, and removing a key
takes out one entry. -/
namespace Flowchart.Keyed
variable {α κ : Type} [Keyed α κ]

theorem mem_keys {x : α} {xs : List α} (h : x ∈ xs) : key x ∈ keys xs :=
  List.mem_map_of_mem h

theorem exists_of_mem_keys {k : κ} {xs : List α} (h : k ∈ keys xs) : ∃ x ∈ xs, key x = k :=
  List.mem_map.mp h

@[simp] theorem keys_append (xs ys : List α) : keys (xs ++ ys) = keys xs ++ keys ys :=
  List.map_append

/-- A change of entries that leaves their keys alone leaves the keys of the list alone. -/
theorem keys_map {f : α → α} (h : ∀ x, key (f x) = key x) (xs : List α) :
    keys (xs.map f) = keys xs := by
  induction xs with
  | nil => rfl
  | cons x xs ih => simp [h, ih]

theorem eq_of_key_eq {xs : List α} (nodup : (keys xs).Nodup) {x y : α} (hx : x ∈ xs)
    (hy : y ∈ xs) (h : key x = key y) : x = y :=
  List.inj_on_of_nodup_map nodup hx hy h

theorem nodup_keys_filter {xs : List α} (nodup : (keys xs).Nodup) (p : α → Bool) :
    (keys (xs.filter p)).Nodup :=
  (List.filter_sublist.map key).nodup nodup

theorem eraseDups_concat {β : Type} [BEq β] [LawfulBEq β] (ks : List β) (k : β) :
    (ks ++ [k]).eraseDups = if k ∈ ks then ks.eraseDups else ks.eraseDups ++ [k] := by
  rw [List.eraseDups_append]
  by_cases old : k ∈ ks <;> simp [List.removeAll, old, List.eraseDups_cons]

variable [DecidableEq κ]

theorem nodup_eraseDups (ks : List κ) : ks.eraseDups.Nodup := by
  induction ks using List.reverseRecOn with
  | nil => exact List.nodup_nil
  | append_singleton ks k ih =>
    rw [eraseDups_concat]
    split
    · exact ih
    · rename_i new
      exact ih.append (List.nodup_singleton k) (by simpa [List.mem_eraseDups] using new)

theorem find?_eq_some_iff {xs : List α} (nodup : (keys xs).Nodup) {k : κ} {x : α} :
    find? k xs = some x ↔ x ∈ xs ∧ key x = k := by
  constructor
  · intro h
    exact ⟨mem_of_find? h, key_of_find? h⟩
  · rintro ⟨hx, rfl⟩
    cases found : find? (key x) xs with
    | none => exact absurd (mem_keys hx) (find?_eq_none_iff.mp found)
    | some y =>
      rw [eq_of_key_eq nodup (mem_of_find? found) hx (key_of_find? found)]

theorem isSome_find? {k : κ} {xs : List α} : (find? k xs).isSome = has k xs := by
  rw [Bool.eq_iff_iff, has_iff, ← not_iff_not, Bool.not_eq_true, Option.isSome_eq_false_iff,
    Option.isNone_iff_eq_none, find?_eq_none_iff]

theorem has_eq_keys {k : κ} {xs ys : List α} (h : keys xs = keys ys) : has k xs = has k ys := by
  rw [Bool.eq_iff_iff, has_iff, has_iff, h]

theorem has_of_find? {k : κ} {x : α} {xs : List α} (h : find? k xs = some x) :
    has k xs = true := by
  rw [← isSome_find?, h]
  rfl

/-- A change of entries that leaves their keys alone is met by a look-up. -/
theorem find?_map {β : Type} [Keyed β κ] {f : α → β} (h : ∀ x, key (f x) = key x) (k : κ) (xs : List α) :
    find? k (xs.map f) = (find? k xs).map f := by
  induction xs with
  | nil => rfl
  | cons x xs ih => by_cases hx : key x = k <;> simp [find?_cons, h, hx, ih]

/-- The order of entries with different keys does not matter for a look-up. -/
theorem find?_perm {xs ys : List α} (perm : xs.Perm ys) (nodup : (keys ys).Nodup) (k : κ) :
    find? k xs = find? k ys := by
  have nodup' : (keys xs).Nodup := (perm.map _).nodup_iff.mpr nodup
  ext x
  rw [find?_eq_some_iff nodup, find?_eq_some_iff nodup', perm.mem_iff]

theorem find?_filter {xs : List α} (nodup : (keys xs).Nodup) (k : κ) (p : α → Bool) :
    find? k (xs.filter p) = (find? k xs).filter p := by
  ext x
  rw [find?_eq_some_iff (nodup_keys_filter nodup p), Option.filter_eq_some_iff,
    find?_eq_some_iff nodup, List.mem_filter]
  tauto

/-- An entry takes the place of the one with its key. -/
theorem put_eq_map {x : α} {xs : List α} (nodup : (keys xs).Nodup) (h : key x ∈ keys xs) :
    put x xs = xs.map fun y => if key y = key x then x else y := by
  induction xs with
  | nil => simp at h
  | cons y ys ih =>
    obtain ⟨fresh, rest⟩ := List.nodup_cons.mp nodup
    by_cases hy : key y = key x
    · have same : (ys.map fun z => if key z = key x then x else z) = ys := by
        refine (List.map_congr_left fun z hz => ?_).trans (List.map_id ys)
        have : key z ≠ key x := fun e => fresh (by rw [hy, ← e]; exact mem_keys hz)
        simp [this]
      simp [put, hy, same]
    · have hx : key x ∈ keys ys := by simpa [Ne.symm hy] using h
      simp [put, hy, ih rest hx]

/-- An entry that is there is changed in its place. -/
theorem put_change {f : α → α} {k : κ} {x : α} {xs : List α} (nodup : (keys xs).Nodup)
    (there : find? k xs = some x) (same : key (f x) = key x) :
    put (f x) xs = xs.map fun y => if key y = k then f y else y := by
  have hx : x ∈ xs := mem_of_find? there
  obtain rfl : key x = k := key_of_find? there
  rw [put_eq_map nodup (same ▸ mem_keys hx), same]
  refine List.map_congr_left fun y hy => ?_
  split
  · rename_i here
    rw [eq_of_key_eq nodup hy hx here]
  · rfl

/-- Putting an entry that is there already changes nothing. -/
theorem put_self {x : α} {xs : List α} (h : find? (key x) xs = some x) : put x xs = xs := by
  induction xs with
  | nil => simp at h
  | cons y ys ih =>
    rw [find?_cons] at h
    by_cases hy : key y = key x
    · rw [if_pos hy] at h
      simp [put, Option.some.inj h]
    · rw [if_neg hy] at h
      simp [put, hy, ih h]

/-- Of two entries with the same key the later one stays. -/
theorem put_put {x y : α} (h : key x = key y) (xs : List α) : put y (put x xs) = put y xs := by
  induction xs with
  | nil => simp [put, h]
  | cons z zs ih => by_cases hz : key z = key y <;> simp [put, h, hz, ih]

theorem mem_put {x y : α} {xs : List α} (h : y ∈ put x xs) : y = x ∨ y ∈ xs := by
  induction xs with
  | nil => exact Or.inl (by simpa [put] using h)
  | cons z zs ih =>
    by_cases hz : key z = key x
    · rcases List.mem_cons.mp (by simpa [put, hz] using h) with h | h
      · exact Or.inl h
      · exact Or.inr (List.mem_cons_of_mem _ h)
    · rcases List.mem_cons.mp (by simpa [put, hz] using h) with h | h
      · exact Or.inr (h ▸ List.mem_cons_self)
      · exact (ih h).imp_right (List.mem_cons_of_mem _)

/-- What all entries have, they have still after one is put that has it. -/
theorem forall_mem_put {P : α → Prop} {x : α} {xs : List α} (hx : P x) (hxs : ∀ y ∈ xs, P y) :
    ∀ y ∈ put x xs, P y := by
  intro y hy
  rcases mem_put hy with rfl | hy
  · exact hx
  · exact hxs y hy

/-- Entries with keys of their own come one after another. -/
theorem foldl_put (front : List α) {xs : List α} (once : (keys (front ++ xs)).Nodup) :
    xs.foldl (fun found x => put x found) front = front ++ xs := by
  induction xs generalizing front with
  | nil => exact (List.append_nil front).symm
  | cons x xs ih =>
    have fresh : key x ∉ keys front := by
      rw [keys_append, keys_cons] at once
      exact fun taken => List.disjoint_of_nodup_append once taken List.mem_cons_self
    rw [List.append_cons] at once ⊢
    rw [List.foldl_cons, put_of_not_mem fresh, ih _ once]

theorem mem_put_iff {x y : α} {xs : List α} (nodup : (keys xs).Nodup) :
    y ∈ put x xs ↔ y = x ∨ (y ∈ xs ∧ key y ≠ key x) := by
  by_cases hx : key x ∈ keys xs
  · obtain ⟨z, hz, hzx⟩ := exists_of_mem_keys hx
    rw [put_eq_map nodup hx, List.mem_map]
    constructor
    · rintro ⟨w, hw, rfl⟩
      by_cases hwx : key w = key x
      · simp [hwx]
      · exact Or.inr (by simp [hwx, hw])
    · rintro (rfl | ⟨hy, hyx⟩)
      · exact ⟨z, hz, by simp [hzx]⟩
      · exact ⟨y, hy, by simp [hyx]⟩
  · rw [put_of_not_mem hx, List.mem_append, List.mem_singleton, or_comm]
    refine or_congr_right ⟨fun hy => ⟨hy, fun e => hx (e ▸ mem_keys hy)⟩, And.left⟩

theorem keys_put (x : α) (xs : List α) :
    keys (put x xs) = if key x ∈ keys xs then keys xs else keys xs ++ [key x] := by
  by_cases hx : key x ∈ keys xs
  · rw [keys_put_of_mem hx, if_pos hx]
  · rw [put_of_not_mem hx, if_neg hx]
    simp

theorem mem_keys_put {k : κ} {x : α} {xs : List α} :
    k ∈ keys (put x xs) ↔ k = key x ∨ k ∈ keys xs := by
  rw [keys_put]
  split
  · rename_i h
    exact ⟨Or.inr, fun e => e.elim (fun e => e ▸ h) id⟩
  · rw [List.mem_append, List.mem_singleton, or_comm]

theorem find?_put (k : κ) (x : α) (xs : List α) :
    find? k (put x xs) = if key x = k then some x else find? k xs := by
  split
  · rename_i h
    rw [← h, find?_put_self]
  · rename_i h
    exact find?_put_of_ne h xs

theorem mem_remove {k : κ} {x : α} {xs : List α} : x ∈ remove k xs ↔ x ∈ xs ∧ key x ≠ k := by
  simp [remove]

theorem find?_remove_of_ne {k l : κ} (h : k ≠ l) (xs : List α) :
    find? l (remove k xs) = find? l xs := by
  induction xs with
  | nil => rfl
  | cons x xs ih =>
    by_cases hx : key x = k
    · have : key x ≠ l := fun e => h (hx.symm.trans e)
      have drop : remove k (x :: xs) = remove k xs := by simp [remove, hx]
      rw [drop, ih, find?_cons, if_neg this]
    · have keep : remove k (x :: xs) = x :: remove k xs := by simp [remove, hx]
      rw [keep, find?_cons, find?_cons, ih]

/-- What is found after a key is removed was found before. -/
theorem find?_of_remove {k l : κ} {x : α} {xs : List α} (h : find? l (remove k xs) = some x) :
    find? l xs = some x := by
  by_cases here : k = l
  · rw [here, find?_remove_self] at h
    cases h
  · rwa [find?_remove_of_ne here] at h

end Flowchart.Keyed
