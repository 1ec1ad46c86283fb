import Flowchart.Error
import Mathlib.Data.List.Forall2

/-! Results that may be failures: what a result that is none says of the steps it came from. -/
namespace Flowchart
variable {α β : Type}

theorem bind_eq_ok {r : Except Error α} {f : α → Except Error β} {b : β} :
    (r >>= f) = .ok b ↔ ∃ a, r = .ok a ∧ f a = .ok b := by
  cases r <;> simp [bind, Except.bind]

theorem map_eq_ok {f : α → β} {r : Except Error α} {b : β} :
    r.map f = .ok b ↔ ∃ a, r = .ok a ∧ f a = b := by
  cases r <;> simp [Except.map]

theorem pure_eq_ok {a b : α} : (pure a : Except Error α) = .ok b ↔ a = b := by
  simp [pure, Except.pure]

theorem isOk_iff {r : Except Error α} : r.isOk = true ↔ ∃ a, r = .ok a := by
  cases r <;> simp [Except.isOk, Except.toBool]

theorem isOk_bind {r : Except Error α} {f : α → Except Error β} (first : r.isOk = true)
    (next : ∀ a, r = .ok a → (f a).isOk = true) : (r >>= f).isOk = true := by
  obtain ⟨a, rfl⟩ := isOk_iff.mp first
  exact next a rfl

theorem isOk_mapM {f : α → Except Error β} {xs : List α} (h : ∀ x ∈ xs, (f x).isOk = true) :
    (xs.mapM f).isOk = true := by
  induction xs with
  | nil => rfl
  | cons x xs ih =>
    rw [List.mapM_cons]
    exact isOk_bind (h x List.mem_cons_self) fun _ _ =>
      isOk_bind (ih fun y hy => h y (List.mem_cons_of_mem x hy)) fun _ _ => rfl

theorem mapM_ok {f : α → Except Error β} {g : α → β} {xs : List α}
    (h : ∀ x ∈ xs, f x = .ok (g x)) : xs.mapM f = .ok (xs.map g) := by
  induction xs with
  | nil => rfl
  | cons x xs ih =>
    rw [List.mapM_cons, h x List.mem_cons_self, ih fun y hy => h y (List.mem_cons_of_mem x hy)]
    rfl

theorem foldlM_ok {f : β → α → Except Error β} {g : β → α → β} {xs : List α}
    (h : ∀ b, ∀ x ∈ xs, f b x = .ok (g b x)) (b : β) : xs.foldlM f b = .ok (xs.foldl g b) := by
  induction xs generalizing b with
  | nil => rfl
  | cons x xs ih =>
    rw [List.foldlM_cons, h b x List.mem_cons_self]
    exact ih (fun b y hy => h b y (List.mem_cons_of_mem x hy)) (g b x)

theorem exists_of_forall₂ {R : α → β → Prop} {xs : List α} {ys : List β}
    (h : List.Forall₂ R xs ys) : ∀ y ∈ ys, ∃ x ∈ xs, R x y := by
  induction h with
  | nil => simp
  | cons one _ ih =>
    intro y hy
    rcases List.mem_cons.mp hy with rfl | hy
    · exact ⟨_, List.mem_cons_self, one⟩
    · obtain ⟨x, hx, one⟩ := ih y hy
      exact ⟨x, List.mem_cons_of_mem _ hx, one⟩

/-- All steps together give what each gives by itself. -/
theorem mapM_eq_ok {f : α → Except Error β} {xs : List α} {ys : List β} :
    xs.mapM f = .ok ys ↔ List.Forall₂ (fun x y => f x = .ok y) xs ys := by
  induction xs generalizing ys with
  | nil => rw [List.mapM_nil, pure_eq_ok, List.forall₂_nil_left_iff, eq_comm]
  | cons x xs ih =>
    simp only [List.mapM_cons, bind_eq_ok, pure_eq_ok, ih, List.forall₂_cons_left_iff]
    constructor
    · rintro ⟨y, first, ys, rest, rfl⟩
      exact ⟨y, ys, first, rest, rfl⟩
    · rintro ⟨y, ys, first, rest, rfl⟩
      exact ⟨y, first, ys, rest, rfl⟩

/-- Whatever the steps give, one of them gave it. -/
theorem exists_of_mapM {f : α → Except Error β} {xs : List α} {ys : List β}
    (walk : xs.mapM f = .ok ys) : ∀ y ∈ ys, ∃ x ∈ xs, f x = .ok y :=
  exists_of_forall₂ (mapM_eq_ok.mp walk)

/-- What a step keeps of an element, all steps together keep of all elements. -/
theorem map_of_mapM {γ : Type} {f : α → Except Error β} {g : α → γ} {h : β → γ} {xs : List α}
    {ys : List β} (keeps : ∀ x y, f x = .ok y → h y = g x) (walk : xs.mapM f = .ok ys) :
    ys.map h = xs.map g := by
  have same : List.Forall₂ (fun x y => g x = h y) xs ys :=
    (mapM_eq_ok.mp walk).imp fun x y one => (keeps x y one).symm
  rw [← List.forall₂_map_right_iff, ← List.forall₂_map_left_iff, List.forall₂_eq_eq_eq] at same
  exact same.symm

/-- What each step of a walk keeps holds at its end. -/
theorem foldlM_inv {P : β → Prop} {f : β → α → Except Error β} {xs : List α}
    (step : ∀ b x b', x ∈ xs → P b → f b x = .ok b' → P b') {b b' : β} (h : P b)
    (walk : xs.foldlM f b = .ok b') : P b' := by
  induction xs generalizing b with
  | nil =>
    cases walk
    exact h
  | cons x xs ih =>
    rw [List.foldlM_cons, bind_eq_ok] at walk
    obtain ⟨c, first, rest⟩ := walk
    refine ih (fun b y b' hy => step b y b' (List.mem_cons_of_mem x hy)) ?_ rest
    exact step b x c List.mem_cons_self h first

/-- What is picked from a list was in it. The second list holds what was picked before. -/
theorem mem_of_filterAuxM {f : α → Except Error Bool} {xs picked ys : List α}
    (h : xs.filterAuxM f picked = .ok ys) : ∀ y ∈ ys, y ∈ xs ∨ y ∈ picked := by
  induction xs generalizing picked with
  | nil =>
    cases h
    exact fun _ => Or.inr
  | cons x xs ih =>
    obtain ⟨b, _, rest⟩ := bind_eq_ok.mp h
    intro y hy
    rcases ih rest y hy with hy | hy
    · exact Or.inl (List.mem_cons_of_mem x hy)
    · cases b
      · exact Or.inr hy
      · rcases List.mem_cons.mp hy with rfl | hy
        · exact Or.inl List.mem_cons_self
        · exact Or.inr hy

theorem mem_of_filterM {f : α → Except Error Bool} {xs ys : List α} (h : xs.filterM f = .ok ys) :
    ∀ y ∈ ys, y ∈ xs := by
  obtain ⟨zs, walk, rfl⟩ := map_eq_ok.mp ((bind_pure_comp ..).symm.trans h)
  intro y hy
  exact (mem_of_filterAuxM walk y (List.mem_reverse.mp hy)).resolve_right List.not_mem_nil

theorem filterAuxM_ok (p : α → Bool) (xs picked : List α) :
    xs.filterAuxM (fun x => (.ok (p x) : Except Error Bool)) picked =
      .ok ((xs.filter p).reverse ++ picked) := by
  induction xs generalizing picked with
  | nil => rfl
  | cons x xs ih =>
    refine (ih _).trans ?_
    cases h : p x <;> simp [h]

/-- Entries that are picked without a failure. -/
theorem filterM_ok (p : α → Bool) (xs : List α) :
    xs.filterM (fun x => (.ok (p x) : Except Error Bool)) = .ok (xs.filter p) := by
  have whole : xs.filterM (fun x => (.ok (p x) : Except Error Bool)) =
      (xs.filterAuxM (fun x => (.ok (p x) : Except Error Bool)) []).map List.reverse := rfl
  simp [whole, filterAuxM_ok, Except.map]

end Flowchart
