import Flowchart.Text

/-! Lists whose entries are told apart by a key. Such a list keeps the order in which its
keys first came; an entry that is put again stays at its place. -/
namespace Flowchart

/-- A type whose values carry a key, of the type `κ`. -/
class Keyed (α : Type) (κ : outParam Type) where
  key : α → κ

instance {κ β : Type} : Keyed (κ × β) κ := ⟨Prod.fst⟩

namespace Keyed
variable {α κ : Type} [Keyed α κ]

/-- The keys of a list, in order. -/
def keys (xs : List α) : List κ := xs.map key

@[simp] theorem keys_nil : keys ([] : List α) = [] := rfl

@[simp] theorem keys_cons (x : α) (xs : List α) : keys (x :: xs) = key x :: keys xs := rfl

variable [DecidableEq κ]

/-- The entry with a key. -/
def find? (k : κ) (xs : List α) : Option α := xs.find? fun x => key x == k

/-- Is there an entry with the key? -/
def has (k : κ) (xs : List α) : Bool := xs.any fun x => key x == k

/-- The list with an entry in the place of the one with its key, or else at the end. -/
def put (x : α) : List α → List α
  | [] => [x]
  | y :: ys => if key y = key x then x :: ys else y :: put x ys

/-- The list without the entries of a key. -/
def remove (k : κ) (xs : List α) : List α := xs.filter fun x => key x != k

@[simp] theorem find?_nil (k : κ) : find? k ([] : List α) = none := rfl

@[simp] theorem remove_nil (k : κ) : remove k ([] : List α) = [] := rfl

theorem has_iff {k : κ} {xs : List α} : has k xs = true ↔ k ∈ keys xs := by
  simp [has, keys]

theorem find?_cons (k : κ) (x : α) (xs : List α) :
    find? k (x :: xs) = if key x = k then some x else find? k xs := by
  by_cases h : key x = k <;> simp [find?, h]

theorem key_of_find? {k : κ} {x : α} {xs : List α} (h : find? k xs = some x) : key x = k := by
  simpa using List.find?_some h

theorem mem_of_find? {k : κ} {x : α} {xs : List α} (h : find? k xs = some x) : x ∈ xs :=
  List.mem_of_find?_eq_some h

theorem find?_eq_none_iff {k : κ} {xs : List α} : find? k xs = none ↔ k ∉ keys xs := by
  simp [find?, keys]

/-- An entry whose key is there already leaves the keys as they are. -/
theorem keys_put_of_mem {x : α} {xs : List α} (h : key x ∈ keys xs) :
    keys (put x xs) = keys xs := by
  induction xs with
  | nil => simp at h
  | cons y ys ih =>
    by_cases hy : key y = key x
    · simp [put, hy]
    · have : key x ∈ keys ys := by simpa [Ne.symm hy] using h
      simp [put, hy, ih this]

/-- An entry with a new key comes last. -/
theorem put_of_not_mem {x : α} {xs : List α} (h : key x ∉ keys xs) : put x xs = xs ++ [x] := by
  induction xs with
  | nil => rfl
  | cons y ys ih =>
    have hy : key y ≠ key x := fun e => h (by simp [e])
    have : key x ∉ keys ys := fun m => h (by simp [m])
    simp [put, hy, ih this]

theorem find?_put_self (x : α) (xs : List α) : find? (key x) (put x xs) = some x := by
  induction xs with
  | nil => simp [put, find?_cons]
  | cons y ys ih => by_cases h : key y = key x <;> simp [put, find?_cons, h, ih]

theorem find?_put_of_ne {k : κ} {x : α} (h : key x ≠ k) (xs : List α) :
    find? k (put x xs) = find? k xs := by
  induction xs with
  | nil => simp [put, find?_cons, h]
  | cons y ys ih =>
    by_cases hy : key y = key x
    · simp [put, find?_cons, hy, h]
    · simp [put, find?_cons, hy, ih]

theorem keys_remove (k : κ) (xs : List α) :
    keys (remove k xs) = (keys xs).filter fun l => l != k := by
  simp [keys, remove, List.filter_map, Function.comp_def]

theorem find?_remove_self (k : κ) (xs : List α) : find? k (remove k xs) = none := by
  simp [find?_eq_none_iff, keys_remove]

/-- Keys that differ from each other still do so after an entry is put. -/
theorem nodup_keys_put {xs : List α} (h : (keys xs).Nodup) (x : α) :
    (keys (put x xs)).Nodup := by
  by_cases hx : key x ∈ keys xs
  · rwa [keys_put_of_mem hx]
  · rw [put_of_not_mem hx, keys, List.map_append, List.nodup_append]
    refine ⟨h, by simp, ?_⟩
    intro a ha b hb
    have : b = key x := by simpa using hb
    exact fun e => hx (this ▸ e ▸ ha)

/-- Keys that differ from each other still do so after a key is removed. -/
theorem nodup_keys_remove {xs : List α} (h : (keys xs).Nodup) (k : κ) :
    (keys (remove k xs)).Nodup := by
  rw [keys_remove]
  exact h.filter _

end Keyed
end Flowchart
