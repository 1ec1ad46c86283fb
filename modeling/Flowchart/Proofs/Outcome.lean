import Flowchart.Emitter

/-! Outcomes of actions. An action on a state either answers or fails, and in both cases it
leaves a state behind. What is claimed of it is claimed of both ends: `ok` of the answer and the
state after it, `err` of the failure and the state that it keeps. The rules below follow the
building blocks of actions, so a claim about an action becomes a claim about its states. -/
namespace Flowchart.Action
variable {σ α β : Type}

/-- The action, begun in a state, ends with `ok` or fails with `err`. -/
def Ends (a : Action σ α) (s : σ) (ok : α → σ → Prop) (err : Error → σ → Prop) : Prop :=
  match (a.run.run s).1 with
  | .ok x => ok x (a.run.run s).2
  | .error e => err e (a.run.run s).2

/-- The action keeps a property of the state, also when it fails. -/
def Keeps (P : σ → Prop) (a : Action σ α) : Prop :=
  ∀ s, P s → a.Ends s (fun _ => P) fun _ => P

theorem run_bind (a : Action σ α) (f : α → Action σ β) (s : σ) :
    (a >>= f).run.run s = match a.run.run s with
      | (.ok x, t) => (f x).run.run t
      | (.error e, t) => (.error e, t) := by
  simp only [ExceptT.run_bind, StateT.run_bind]
  rcases h : a.run.run s with ⟨_ | x, t⟩ <;> rfl

section Rules
variable {s : σ} {ok : α → σ → Prop} {err : Error → σ → Prop} {okBind : β → σ → Prop}

@[simp] theorem ends_pure {x : α} : Ends (pure x) s ok err ↔ ok x s := Iff.rfl

@[simp] theorem ends_throw {e : Error} : Ends (throw e) s ok err ↔ err e s := Iff.rfl

@[simp] theorem ends_bind {a : Action σ α} {f : α → Action σ β} :
    Ends (a >>= f) s okBind err ↔ Ends a s (fun x t => Ends (f x) t okBind err) err := by
  unfold Ends
  rw [run_bind]
  rcases a.run.run s with ⟨_ | x, t⟩ <;> rfl

@[simp] theorem ends_map {a : Action σ α} {f : α → β} :
    Ends (f <$> a) s okBind err ↔ Ends a s (fun x t => okBind (f x) t) err := by
  rw [← bind_pure_comp, ends_bind]
  rfl

@[simp] theorem ends_get {ok : σ → σ → Prop} :
    Ends (get : Action σ σ) s ok err ↔ ok s s := Iff.rfl

@[simp] theorem ends_modify {f : σ → σ} {ok : PUnit → σ → Prop} :
    Ends (modify f : Action σ PUnit) s ok err ↔ ok () (f s) := Iff.rfl

/-- A result that was there before is the answer or the failure. -/
@[simp] theorem ends_except {r : Except Error α} :
    Ends (ExceptT.mk (pure r) : Action σ α) s ok err ↔
      (∀ x, r = .ok x → ok x s) ∧ ∀ e, r = .error e → err e s := by
  cases r with
  | error e =>
    refine ⟨fun h => ⟨by simp, fun f hf => ?_⟩, fun h => h.2 e rfl⟩
    cases hf
    exact h
  | ok x =>
    refine ⟨fun h => ⟨fun y hy => ?_, by simp⟩, fun h => h.1 x rfl⟩
    cases hy
    exact h

/-- An action that is run for its result fails only afterwards. -/
@[simp] theorem ends_lift_run {a : Action σ α} {ok : Except Error α → σ → Prop} :
    Ends (ExceptT.lift a.run : Action σ (Except Error α)) s ok err ↔
      Ends a s (fun x t => ok (.ok x) t) fun e t => ok (.error e) t := by
  unfold Ends
  simp only [ExceptT.run_lift, StateT.run_map]
  rcases h : a.run.run s with ⟨_ | x, t⟩ <;> rfl

/-- A failure that is caught is followed by what is done about it. -/
@[simp] theorem ends_tryCatch {a : Action σ α} {f : Error → Action σ α} :
    Ends (tryCatch a f) s ok err ↔ Ends a s ok fun e t => Ends (f e) t ok err := by
  unfold Ends
  simp only [tryCatch, tryCatchThe, MonadExceptOf.tryCatch, ExceptT.tryCatch, ExceptT.run_mk,
    StateT.run_bind]
  rcases h : a.run.run s with ⟨e | x, t⟩
  · rw [show StateT.run a s = _ from h]
    rfl
  · rw [show StateT.run a s = _ from h]
    rfl

end Rules

variable {s : σ} {ok ok' : α → σ → Prop} {err err' : Error → σ → Prop}

theorem Ends.imp {a : Action σ α} (h : Ends a s ok err) (hok : ∀ x t, ok x t → ok' x t)
    (herr : ∀ e t, err e t → err' e t) : Ends a s ok' err' := by
  unfold Ends at *
  split at h
  · exact hok _ _ h
  · exact herr _ _ h

theorem Ends.and {a : Action σ α} (h : Ends a s ok err) (h' : Ends a s ok' err') :
    Ends a s (fun x t => ok x t ∧ ok' x t) fun e t => err e t ∧ err' e t := by
  unfold Ends at *
  split at h <;> simp_all

/-- What is claimed of a failure is idle if the action succeeds. -/
theorem Ends.of_isOk {a : Action σ α} (h : Ends a s ok err) (succeeds : (a.run.run s).1.isOk) :
    Ends a s ok err' := by
  unfold Ends at *
  split at h
  · exact h
  · rename_i failure
    rw [failure] at succeeds
    cases succeeds

/-- What holds of the state at both ends holds of the state that is left. -/
theorem Ends.state {a : Action σ α} {P : σ → Prop} (h : Ends a s (fun _ => P) fun _ => P) :
    P (a.run.run s).2 := by
  unfold Ends at h
  split at h <;> exact h

/-- An action whose result is known from elsewhere. -/
theorem Ends.result {a : Action σ α} {P : σ → Prop} {r : Except Error α}
    (h : Ends a s (fun x t => P t ∧ r = .ok x) fun e t => P t ∧ r = .error e) :
    (a.run.run s).1 = r ∧ P (a.run.run s).2 := by
  unfold Ends at h
  split at h
  · rename_i x answer
    exact ⟨answer.trans h.2.symm, h.1⟩
  · rename_i e failure
    exact ⟨failure.trans h.2.symm, h.1⟩

/-- An action that ends with what is always true. -/
theorem ends_always {a : Action σ α} (hok : ∀ x t, ok x t) (herr : ∀ e t, err e t) :
    Ends a s ok err := by
  unfold Ends
  split
  · exact hok _ _
  · exact herr _ _

/-- A walk over a list. `inv` is what holds before the rest of the list is walked. -/
theorem ends_forM (inv : List α → σ → Prop) (f : α → Action σ PUnit)
    (err : Error → σ → Prop)
    (step : ∀ x xs t, inv (x :: xs) t → Ends (f x) t (fun _ => inv xs) err) (xs : List α)
    (h : inv xs s) : Ends (xs.forM f) s (fun _ => inv []) err := by
  induction xs generalizing s with
  | nil => exact h
  | cons x xs ih =>
    change Ends (f x >>= fun _ => xs.forM f) s _ err
    rw [ends_bind]
    exact (step x xs s h).imp (fun _ _ ht => ih ht) fun _ _ => id

/-- The action changes nothing, and ends only if something is true of its answer. -/
def Guards (a : Action σ α) (s : σ) (C : α → Prop) : Prop :=
  a.Ends s (fun x t => t = s ∧ C x) fun _ t => t = s

theorem Guards.pass {a : Action σ α} {C : α → Prop} (h : a.Guards s C)
    (hok : ∀ x, C x → ok x s) (herr : ∀ e, err e s) : a.Ends s ok err :=
  Ends.imp h (fun x _ ht => ht.1 ▸ hok x ht.2) fun e _ ht => ht ▸ herr e

theorem Guards.imp {a : Action σ α} {C C' : α → Prop} (h : a.Guards s C)
    (hC : ∀ x, C x → C' x) : a.Guards s C' :=
  h.pass (fun x hx => ⟨rfl, hC x hx⟩) fun _ => rfl

theorem Guards.bind {a : Action σ α} {f : α → Action σ β} {C : α → Prop} {D : β → Prop}
    (h : a.Guards s C) (hf : ∀ x, C x → (f x).Guards s D) : (a >>= f).Guards s D := by
  unfold Guards
  rw [ends_bind]
  exact h.pass hf fun _ => rfl

theorem guards_forM {f : α → Action σ PUnit} {C : α → Prop} {xs : List α}
    (h : ∀ x ∈ xs, (f x).Guards s fun _ => C x) : Guards (xs.forM f) s fun _ => ∀ x ∈ xs, C x := by
  induction xs with
  | nil => exact ⟨rfl, by simp⟩
  | cons x xs ih =>
    change Guards (f x >>= fun _ => xs.forM f) s _
    refine (h x List.mem_cons_self).bind fun _ hx => ?_
    refine (ih fun y hy => h y (List.mem_cons_of_mem x hy)).imp fun _ hxs => ?_
    exact List.forall_mem_cons.mpr ⟨hx, hxs⟩

theorem keeps_bind {P : σ → Prop} {a : Action σ α} {f : α → Action σ β} (ha : Keeps P a)
    (hf : ∀ x, Keeps P (f x)) : Keeps P (a >>= f) := by
  intro s hs
  rw [ends_bind]
  exact (ha s hs).imp (fun x t ht => hf x t ht) fun _ _ => id

theorem keeps_map {P : σ → Prop} {a : Action σ α} (ha : Keeps P a) (f : α → β) :
    Keeps P (f <$> a) := by
  intro s hs
  rw [ends_map]
  exact ha s hs

theorem keeps_forM {P : σ → Prop} {f : α → Action σ PUnit} {xs : List α}
    (h : ∀ x ∈ xs, Keeps P (f x)) : Keeps P (xs.forM f) := by
  intro s hs
  have walk := ends_forM (fun ys t => (∀ y ∈ ys, Keeps P (f y)) ∧ P t) f (fun _ => P)
    (fun y ys t ht => (ht.1 y List.mem_cons_self t ht.2).imp
        (fun _ u hu => ⟨fun z hz => ht.1 z (List.mem_cons_of_mem y hz), hu⟩) fun _ _ => id)
    xs ⟨h, hs⟩
  exact walk.imp (fun _ _ ht => ht.2) fun _ _ => id

/-- The action succeeds and keeps a property of the state. -/
def Passes (P : σ → Prop) (a : Action σ α) : Prop :=
  ∀ s, P s → a.Ends s (fun _ => P) fun _ _ => False

theorem passes_bind {P : σ → Prop} {a : Action σ α} {f : α → Action σ β} (ha : Passes P a)
    (hf : ∀ x, Passes P (f x)) : Passes P (a >>= f) := by
  intro s hs
  rw [ends_bind]
  exact (ha s hs).imp (fun x t ht => hf x t ht) fun _ _ => id

theorem passes_map {P : σ → Prop} {a : Action σ α} (ha : Passes P a) (f : α → β) :
    Passes P (f <$> a) := by
  intro s hs
  rw [ends_map]
  exact ha s hs

theorem passes_forM {P : σ → Prop} {f : α → Action σ PUnit} {xs : List α}
    (h : ∀ x ∈ xs, Passes P (f x)) : Passes P (xs.forM f) := by
  intro s hs
  have walk := ends_forM (fun ys t => (∀ y ∈ ys, Passes P (f y)) ∧ P t) f (fun _ _ => False)
    (fun y ys t ht => (ht.1 y List.mem_cons_self t ht.2).imp
        (fun _ u hu => ⟨fun z hz => ht.1 z (List.mem_cons_of_mem y hz), hu⟩) fun _ _ => id)
    xs ⟨h, hs⟩
  exact walk.imp (fun _ _ ht => ht.2) fun _ _ => id

/-! ### Courses of actions -/

/-- The action leaves a state with the property, whether it fails or not. -/
abbrev Leaves (a : Action σ α) (s : σ) (P : σ → Prop) : Prop := a.Ends s (fun _ => P) fun _ => P

theorem Leaves.mono {P Q : σ → Prop} {a : Action σ α} {s : σ} (h : Leaves a s P)
    (weaker : ∀ t, P t → Q t) : Leaves a s Q :=
  Ends.imp h (fun _ => weaker) fun _ => weaker

theorem leaves_self (a : Action σ α) (s : σ) : Leaves a s (· = (a.run.run s).2) := by
  unfold Leaves Ends
  split <;> rfl

theorem Ends.run_eq {a : Action σ α} {s t : σ} {x : α}
    (h : Ends a s (fun y u => y = x ∧ u = t) fun _ _ => False) : a.run.run s = (.ok x, t) := by
  unfold Ends at h
  split at h
  · rename_i answer
    exact Prod.ext (answer.trans (congrArg Except.ok h.1)) h.2
  · exact h.elim

theorem run_map_state (f : α → β) (a : Action σ α) (s : σ) :
    ((f <$> a).run.run s).2 = (a.run.run s).2 := by
  rw [← bind_pure_comp, run_bind]
  rcases a.run.run s with ⟨_ | x, t⟩ <;> rfl

/-- To try an action is to run it, and not to fail where it fails. -/
theorem run_tried (a : Action σ α) (s : σ) :
    (ExceptT.lift a.run : Action σ (Except Error α)).run.run s =
      (.ok (a.run.run s).1, (a.run.run s).2) := rfl

theorem ends_congr {a b : Action σ α} (same : a.run.run s = b.run.run s) :
    Ends a s ok err ↔ Ends b s ok err := by
  rw [Ends, Ends, same]

/-- The action looks at the state and leaves it as it is. -/
def Looks (a : Action σ α) : Prop := ∀ s, a.Guards s fun _ => True

theorem Looks.of_guards {a : Action σ α} {C : σ → α → Prop} (h : ∀ s, a.Guards s (C s)) : Looks a :=
  fun s => (h s).imp fun _ _ => trivial

theorem looks_pure (x : α) : Looks (pure x : Action σ α) := fun _ => ⟨rfl, trivial⟩

theorem looks_get : Looks (get : Action σ σ) := fun _ => ⟨rfl, trivial⟩

theorem looks_throw (e : Error) : Looks (throw e : Action σ α) := fun _ => rfl

theorem looks_except (r : Except Error α) : Looks (ExceptT.mk (pure r) : Action σ α) := fun _ =>
  ends_except.mpr ⟨fun _ _ => ⟨rfl, trivial⟩, fun _ _ => rfl⟩

theorem looks_bind {a : Action σ α} {f : α → Action σ β} (ha : Looks a) (hf : ∀ x, Looks (f x)) :
    Looks (a >>= f) := fun s => (ha s).bind fun x _ => hf x s

theorem Looks.keeps {a : Action σ α} (h : Looks a) (P : σ → Prop) : Keeps P a := fun s hs =>
  (h s).pass (fun _ _ => hs) fun _ => hs

theorem Looks.state {a : Action σ α} (h : Looks a) (s : σ) : (a.run.run s).2 = s :=
  (h.keeps (· = s) s rfl).state

end Flowchart.Action
