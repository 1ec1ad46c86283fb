import Flowchart.Proofs.PlainData
import Flowchart.Proofs.SturdyEdits

/-! What is asked of a session, and what it leaves. Among quiet listeners every call leaves a
sturdy diagram. Entities may have traits that depend on the table of places; an edit that changes
the table makes up for it in the diagram. -/
namespace Flowchart
open Action

/-- Traits that go along with a table of places: they outlive forgotten places, a node that is
moved has them by its new place, and they pass from an edge to the edges in its place. -/
structure Tabled (tr : Places → Trait) : Prop where
  forgets : ∀ {ps qs : Places} {d : Diagram},
    (∀ id q, Keyed.find? id qs = some q → Keyed.find? id ps = some q) → d.Has (tr ps) →
    d.Has (tr qs)
  moves : ∀ {ps : Places} {d : Diagram} (id : Value) (p : Position),
    d.Has (tr (Keyed.remove id ps)) → (d.positioned id p).Has (tr (Keyed.put (id, p) ps))
  settles : ∀ {ps : Places} {d : Diagram}, d.Has (tr ps) → d.settle.Has (tr ps)
  halves : ∀ {ps : Places} {e : Edge} {n : Node}, (tr ps).edge e → (tr ps).node n → ∀ id : Text,
    (tr ps).edge { e.before n.id with id := .text id } ∧
      (tr ps).edge { e.beyond n.id with id := .text id }

/-- The diagram is sturdy and has the traits of the table, and no node is in the table twice. -/
structure Snapshot.Bears (tr : Places → Trait) (x : Snapshot) : Prop where
  sturdy : x.diagram.Sturdy
  has : x.diagram.Has (tr x.places)
  once : (Keyed.keys x.places).Nodup

namespace History
variable {α : Type} {P : α → Prop} {h : History α} {a : α}

/-- All states of the history have a property. -/
structure All (P : α → Prop) (h : History α) : Prop where
  past : ∀ x ∈ h.past, P x
  future : ∀ x ∈ h.future, P x

theorem forall_mem_push (ha : P a) {stack : List α} (all : ∀ x ∈ stack, P x) :
    ∀ x ∈ h.push a stack, P x := fun x hx =>
  List.forall_mem_cons.mpr ⟨ha, all⟩ x (List.mem_of_mem_take hx)

theorem All.record (all : h.All P) (ha : P a) : (h.record a).All P :=
  ⟨forall_mem_push ha all.past, by simp [History.record]⟩

theorem All.back (all : h.All P) (ha : P a) {b : α} {h' : History α}
    (back : h.back? a = some (b, h')) : P b ∧ h'.All P := by
  unfold History.back? at back
  split at back
  · cases back
  · rename_i state past split
    cases back
    have states := List.forall_mem_cons.mp (split ▸ all.past)
    exact ⟨states.1, states.2, forall_mem_push ha all.future⟩

theorem All.forth (all : h.All P) (ha : P a) {b : α} {h' : History α}
    (forth : h.forth? a = some (b, h')) : P b ∧ h'.All P := by
  unfold History.forth? at forth
  split at forth
  · cases forth
  · rename_i state future split
    cases forth
    have states := List.forall_mem_cons.mp (split ▸ all.future)
    exact ⟨states.1, forall_mem_push ha all.past, states.2⟩

end History

namespace Session
variable {tr : Places → Trait} {s u : Session}

/-- The listeners are quiet, and the present state bears the traits. -/
structure Bears (tr : Places → Trait) (s : Session) : Prop where
  quiet : s.editor.IsQuiet
  present : s.snapshot.Bears tr

theorem Bears.steadfast (b : s.Bears tr) : s.Steadfast := ⟨b.quiet, b.present.sturdy⟩

/-- What the action of an edit leaves: nothing is recorded or handed out. -/
structure Acts (tr : Places → Trait) (s u : Session) : Prop where
  bears : u.Bears tr
  same : u = { s with editor := u.editor, places := u.places }

theorem Bears.acts (b : s.Bears tr) : Acts tr s s := ⟨b, rfl⟩

/-- How an edit leaves a session. An edit that has changed something is recorded, and text will be
handed out. -/
structure Altered (tr : Places → Trait) (s : Session) (changed : Bool) (u : Session) : Prop where
  bears : u.Bears tr
  history : u.history = if changed then s.history.record s.snapshot else s.history
  timer : u.timer = if changed then s.timer.restart else s.timer
  codes : u.codes = s.codes
  receiver : u.receiver = s.receiver
  layout : u.layout = s.layout
  idle : changed = false → u.diagram = s.diagram

/-! ### Edits -/

section Edits

theorem edit_altered {α : Type} (changes : α → Bool) {action : Action Session α}
    {err : Error → Session → Prop}
    (ends : Ends action s (fun x u => Acts tr s u ∧ (changes x = false → u.diagram = s.diagram))
      err) :
    Ends (edit changes action) s (fun x u => Altered tr s (changes x) u) err := by
  simp only [edit, ends_bind, ends_get]
  refine ends.imp (fun x u hu => ?_) fun _ _ hu => hu
  obtain ⟨⟨bears, same⟩, idle⟩ := hu
  split
  · rename_i changed
    simp only [Debounced.schedule, ends_bind, ends_modify, ends_pure, changed]
    refine ⟨⟨bears.quiet, bears.present⟩, ?_, ?_, ?_, ?_, ?_, by simp⟩ <;> rw [same] <;> rfl
  · rename_i unchanged
    simp only [ends_pure, Bool.eq_false_iff.mpr unchanged]
    refine ⟨bears, ?_, ?_, ?_, ?_, ?_, fun _ => idle (Bool.eq_false_iff.mpr unchanged)⟩ <;>
      rw [same] <;> rfl

/-- A command does to the diagram what its edit does, or nothing. -/
theorem perform_serves {α : Type} {edit : Edit α} {silent : α → Prop} {t : Trait}
    (serves : Edit.Serves t edit silent) (steadfast : s.Steadfast) (has : s.diagram.Has t)
    (depth : Nat) :
    Ends (Editor.perform (Editor.replies depth) edit) s.editor (fun x e =>
      (e.diagram.Sturdy ∧ e.diagram.Has t ∧ (silent x.1 → e.diagram = s.diagram)) ∧ e.IsQuiet)
      fun _ e => e = s.editor := by
  have ends := (serves.ends steadfast.sturdy has).imp (fun _ _ hq => hq)
    fun _ _ hq => And.intro hq trivial
  exact (Editor.perform_passes steadfast.quiet depth
    (fun x d => d.Sturdy ∧ d.Has t ∧ (silent x → d = s.diagram)) (fun _ => True) ends).imp
    (fun _ _ he => he) fun _ _ he => he.1

/-- A command that leaves the table alone. -/
theorem command_acts {α : Type} {edit : Edit α} {silent : α → Prop} (b : s.Bears tr)
    (serves : Edit.Serves (tr s.places) edit silent) (depth : Nat) :
    Ends (Editor.perform (Editor.replies depth) edit) s.editor (fun x e =>
      Acts tr s { s with editor := e } ∧ (silent x.1 → e.diagram = s.diagram))
      fun _ e => e = s.editor := by
  refine (perform_serves serves b.steadfast b.present.has depth).imp ?_ fun _ _ he => he
  rintro x e ⟨⟨sturdy, has, idle⟩, quiet⟩
  exact ⟨⟨⟨quiet, sturdy, has, b.present.once⟩, rfl⟩, idle⟩

theorem updateNode_altered (b : s.Bears tr) (id : Value) {changes : Fields}
    (lets : ∀ set, Edit.setAll Node.setters changes = .ok set → ∀ n : Node, n.id = id →
      (tr s.places).node n → (tr s.places).node (set n)) :
    Ends (updateNode id changes) s (fun x u => Altered tr s x.isSome u) fun _ u => u = s := by
  refine edit_altered _ ?_
  simp only [command, ends_onEditor, Editor.attended, Editor.updateNode, ends_bind, ends_get,
    ends_pure, Option.isSome_map]
  refine (command_acts b (Edit.updateNode_serves id lets) _).imp (fun _ _ he => he) ?_
  rintro _ _ rfl
  rfl

theorem updateEdge_altered (b : s.Bears tr) (id : Value) {changes : Fields}
    (once : (Keyed.keys changes).Nodup)
    (lets : Edit.Lets Edge.setters (tr s.places).edge changes) :
    Ends (updateEdge id changes) s (fun x u => Altered tr s x.isSome u) fun _ u => u = s := by
  refine edit_altered _ ?_
  simp only [command, ends_onEditor, Editor.attended, Editor.updateEdge, ends_bind, ends_get,
    ends_pure, Option.isSome_map]
  refine (command_acts b (Edit.updateEdge_serves id once lets) _).imp (fun _ _ he => he) ?_
  rintro _ _ rfl
  rfl

theorem removeEdge_altered (b : s.Bears tr) (id : Value) :
    Ends (removeEdge id) s (fun x u => Altered tr s x u) fun _ u => u = s := by
  refine edit_altered (fun removed => removed) ?_
  simp only [command, ends_onEditor, Editor.attended, Editor.removeEdge, ends_bind, ends_get,
    ends_pure]
  refine (command_acts b (Edit.removeEdge_serves id) _).imp (fun _ _ he => he) ?_
  rintro _ _ rfl
  rfl

theorem addEdge_altered (b : s.Bears tr) (source target : Value) (fields : Fields)
    (new : ∀ e, edgeFor source target fields = .ok e → ∀ id : Value, id.holds →
      (id = e.id ∨ ∃ t, id = .text t) → (tr s.places).edge { e with id }) :
    Ends (addEdge source target fields) s (fun _ u => Altered tr s true u) fun _ u => u = s := by
  refine edit_altered (fun _ => true) ?_
  simp only [ends_bind, ends_ofExcept]
  refine ⟨fun e made => ?_, fun _ _ => trivial⟩
  simp only [command, ends_onEditor, Editor.attended, Editor.addEdge, ends_bind, ends_get,
    ends_pure]
  refine (command_acts b (Edit.addEdge_serves (new e made)) _).imp ?_ ?_
  · exact fun _ _ he => ⟨he.1, by simp⟩
  · rintro _ _ rfl
    rfl

theorem removeNode_altered (tabled : Tabled tr) (b : s.Bears tr) (id : Value) :
    Ends (removeNode id) s (fun x u => Altered tr s x u) fun _ u => u = s := by
  refine edit_altered (fun removed => removed) ?_
  simp only [command, ends_bind, ends_onEditor, Editor.attended, Editor.removeNode, ends_get,
    ends_pure]
  refine (command_acts b (Edit.removeNode_serves id) _).imp ?_ ?_
  · rintro ⟨removed, later⟩ e ⟨⟨bears, same⟩, idle⟩
    cases removed with
    | false => exact ⟨⟨bears, same⟩, idle⟩
    | true =>
      simp only [if_true, ends_bind, ends_modify, ends_pure]
      refine ⟨⟨⟨bears.quiet, bears.present.sturdy, ?_, ?_⟩, rfl⟩, by simp⟩
      · exact tabled.forgets (fun _ _ => Keyed.find?_of_remove) bears.present.has
      · exact Keyed.nodup_keys_remove bears.present.once id
  · rintro _ _ rfl
    rfl

/-- The new node has the traits, or it has them as soon as it gets a place. A node that cannot be
added need not have them. -/
def Welcomes (tr : Places → Trait) (s : Session) (n : Node) (gets : Prop) : Prop :=
  n.id.isSimple → s.diagram.hasNode n.id = false →
    (tr s.places).node n ∨ gets ∧ (tr (Keyed.remove n.id s.places)).node n

/-- A node that is there has been moved, and the table says so. -/
theorem Bears.moved (tabled : Tabled tr) {id : Value} {p : Position}
    (quiet : u.editor.IsQuiet) (once : (Keyed.keys s.places).Nodup) {d : Diagram}
    (sturdy : d.Sturdy) (has : d.Has (tr (Keyed.remove id s.places)))
    (diagram : u.diagram = d.positioned id p) (places : u.places = Keyed.put (id, p) s.places) :
    u.Bears tr where
  quiet := quiet
  present := by
    have snapshot : u.snapshot = ⟨d.positioned id p, Keyed.put (id, p) s.places⟩ := by
      rw [snapshot, diagram, places]
    rw [snapshot]
    exact ⟨sturdy.positioned id p, tabled.moves id p has, Keyed.nodup_keys_put once _⟩

theorem moved_acts (tabled : Tabled tr) (once : (Keyed.keys s.places).Nodup) {e : Editor}
    (quiet : e.IsQuiet) (sturdy : e.diagram.Sturdy) {id : Value} (simple : id.isSimple)
    (has : e.diagram.Has (tr (Keyed.remove id s.places))) (p : Position) :
    Ends (command fun run => Editor.updateNode run id p.change)
      { s with editor := e, places := Keyed.put (id, p) s.places } (fun _ u => Acts tr s u)
      fun _ _ => False := by
  refine (updateNode_shows (s := { s with editor := e, places := Keyed.put (id, p) s.places })
    ⟨quiet, sturdy⟩ simple p).imp (fun _ u hu => ?_) fun _ _ => False.elim
  obtain ⟨_, quiet, diagram, same⟩ := hu
  have places : u.places = Keyed.put (id, p) s.places := by rw [same]
  refine ⟨.moved tabled quiet once sturdy has diagram places, ?_⟩
  rw [places, same]

/-- What is left to do when a node has been added: it is moved if there is a place for it. -/
def settleAdded (id : Value) (position : Option Position) (fields : Fields) (n : Node) :
    Action Session Node := do
  match ← ofExcept (placeFor position fields) with
  | none => return n
  | some p =>
    let id ← ofExcept id.simple
    modify fun s => { s with places := Keyed.put (id, p) s.places }
    let moved ← command fun run => Editor.updateNode run id p.change
    return moved.getD n

theorem settleAdded_acts (tabled : Tabled tr) (once : (Keyed.keys s.places).Nodup) {e : Editor}
    (quiet : e.IsQuiet) (sturdy : e.diagram.Sturdy) {id : Value} {position : Option Position}
    {fields : Fields} (n : Node) (forgotten : e.diagram.Has (tr (Keyed.remove id s.places)))
    (has : e.diagram.Has (tr s.places) ∨
      id.isSimple ∧ ∃ p, placeFor position fields = .ok (some p)) :
    Ends (settleAdded id position fields n) { s with editor := e } (fun _ u => Acts tr s u)
      fun _ u => Acts tr s u ∧ (id.isSimple = false ∨ ∃ f, placeFor position fields = .error f) := by
  have still : e.diagram.Has (tr s.places) → Acts tr s { s with editor := e } := fun has =>
    ⟨⟨quiet, sturdy, has, once⟩, rfl⟩
  simp only [settleAdded, ends_bind, ends_ofExcept]
  refine ⟨fun found given => ?_, fun f failed => ?_⟩
  · cases found with
    | none =>
      rcases has with has | ⟨_, p, placed⟩
      · exact still has
      · rw [given] at placed
        cases placed
    | some p =>
      simp only [ends_bind, ends_ofExcept, ends_modify, ends_pure, Value.simple]
      refine ⟨fun k looked => ?_, fun f failed => ?_⟩
      · split at looked
        · rename_i simple
          cases looked
          exact (moved_acts tabled once quiet sturdy simple forgotten p).imp (fun _ _ hu => hu)
            fun _ _ => False.elim
        · cases looked
      · split at failed
        · cases failed
        · rename_i complex
          rcases has with has | ⟨simple, _⟩
          · exact ⟨still has, Or.inl (Bool.eq_false_iff.mpr complex)⟩
          · exact absurd simple complex
  · rcases has with has | ⟨_, p, placed⟩
    · exact ⟨still has, Or.inr ⟨f, failed⟩⟩
    · rw [failed] at placed
      cases placed

theorem addNode_eq (id text shape : Value) (position : Option Position) (fields : Fields) :
    addNode id text shape position fields = edit (fun _ => true) (do
      let n ← ofExcept (nodeFor id text shape fields)
      let n ← command fun run => Editor.addNode run n
      settleAdded id position fields n) := rfl

theorem addNode_altered (tabled : Tabled tr) (b : s.Bears tr) (id text shape : Value)
    (position : Option Position) (fields : Fields)
    (welcomes : ∀ n, nodeFor id text shape fields = .ok n → s.Welcomes tr n
      (n.id = id ∧ ∃ p, placeFor position fields = .ok (some p))) :
    Ends (addNode id text shape position fields) s (fun _ u => Altered tr s true u) fun _ u =>
      Acts tr s u ∧ (u.diagram = s.diagram ∨ id.isSimple = false ∨
        ∃ f, placeFor position fields = .error f) := by
  rw [addNode_eq]
  refine edit_altered (fun _ => true) ?_
  simp only [ends_bind, ends_ofExcept]
  refine ⟨fun n made => ?_, fun _ _ => ⟨b.acts, Or.inl trivial⟩⟩
  simp only [command, ends_onEditor, Editor.attended, Editor.addNode, ends_bind, ends_get,
    ends_pure]
  have unchanged : ∀ e, e = s.editor → Acts tr s { s with editor := e } ∧
      Session.diagram { s with editor := e } = s.diagram := by
    rintro _ rfl
    exact ⟨b.acts, rfl⟩
  -- the trait that the diagram has when the node has been added
  have added : ∀ t : Trait, s.diagram.Has t → t.node n →
      (∀ d : Diagram, d.Has t → d.Has (tr (Keyed.remove id s.places)) ∧ (d.Has (tr s.places) ∨
        id.isSimple ∧ ∃ p, placeFor position fields = .ok (some p))) →
      Ends (Editor.perform (Editor.replies s.editor.due) (Edit.addNode n)) s.editor
        (fun x e => Ends (settleAdded id position fields (x.1.followed x.2)) { s with editor := e }
          (fun _ u => Acts tr s u ∧ (true = false → u.diagram = s.diagram)) fun _ u =>
            Acts tr s u ∧ (u.diagram = s.diagram ∨ id.isSimple = false ∨
              ∃ f, placeFor position fields = .error f))
        fun _ e => Acts tr s { s with editor := e } ∧
          (Session.diagram { s with editor := e } = s.diagram ∨ id.isSimple = false ∨
            ∃ f, placeFor position fields = .error f) := by
    intro t has node leaves
    refine (perform_serves (Edit.addNode_serves fun _ => node) b.steadfast has _).imp ?_
      fun _ e he => (unchanged e he).imp_right Or.inl
    rintro x e ⟨⟨sturdy, has, _⟩, quiet⟩
    obtain ⟨forgotten, has⟩ := leaves e.diagram has
    exact (settleAdded_acts tabled b.present.once quiet sturdy _ forgotten has).imp
      (fun _ _ hu => ⟨hu, by simp⟩) fun _ _ hu => hu.imp_right Or.inr
  by_cases free : n.id.isSimple ∧ s.diagram.hasNode n.id = false
  · rcases welcomes n made free.1 free.2 with node | ⟨⟨here, gets⟩, node⟩
    · refine added (tr s.places) b.present.has node fun d has => ⟨?_, Or.inl has⟩
      exact tabled.forgets (fun _ _ => Keyed.find?_of_remove) has
    · rw [here] at node
      refine added (tr (Keyed.remove id s.places)) ?_ node fun d has => ⟨has, Or.inr ⟨?_, gets⟩⟩
      · exact tabled.forgets (fun _ _ => Keyed.find?_of_remove) b.present.has
      · exact here ▸ free.1
  · -- a node that cannot be added leaves everything as it was
    have refused := Edit.addNode_refuses (p := s.editor.opening) (n := n) fun simple =>
      Bool.eq_false_iff.not_left.mp fun absent => free ⟨simple, absent⟩
    refine (Editor.perform_passes b.quiet _ (fun _ _ => False) (fun _ => True)
      (refused.imp (fun _ _ => False.elim) fun _ _ same => ⟨same, trivial⟩)).imp
      (fun _ _ he => he.1.elim) fun _ e he => (unchanged e he.1).imp_right Or.inl

/-- The node that is to be put on an edge. -/
def nodeBetween (s : Session) (shape id text : Value) : Except Error Node :=
  let id := id.orElse (.text (nextId s.diagram))
  Node.ofData <| .record [("id", id), ("text", text.orElse id), ("shape", shape)]

/-- Puts the node on the edge. -/
def splitOn (e : Edge) (n : Node) (id : Value) (position : Except Error (Option Position)) :
    Action Session (Option Node) := do
  let (result, progress) ← onEditor (Editor.enact (Edit.splitEdge e n position))
  match result, position with
  | .ok _, .ok (some p) => modify fun s => { s with places := Keyed.put (id, p) s.places }
  | _, _ => pure ()
  command fun run => Editor.publish run progress.changes progress.grouped
  return some (← ofExcept result)

theorem splitEdge_eq (source target shape id text : Value) :
    splitEdge source target shape id text = (do
      let s ← get
      let ids ← ofExcept do (← Graph.ofDiagram? s.diagram).between? source target
      match ids.head?.bind fun id => s.diagram.edge? id with
      | none => return none
      | some e => edit Option.isSome do
        let n ← ofExcept (s.nodeBetween shape id text)
        splitOn e n (id.orElse (.text (nextId s.diagram))) (s.halfway source target)) := rfl

/-- Where nobody minds, what an edit has done is told, and nothing else happens before the edit
answers or fails. -/
theorem publish_acts {α : Type} {v : Session} (quiet : v.editor.IsQuiet) (changes : List Change)
    (grouped : Bool) {r : Except Error α} {ok : Option α → Session → Prop}
    {err : Error → Session → Prop}
    (next : ∀ u : Session, u.editor.IsQuiet → u.diagram = v.diagram →
      u = { v with editor := u.editor } →
        (∀ x, r = .ok x → ok (some x) u) ∧ ∀ f, r = .error f → err f u) :
    Ends (do
      command fun run => Editor.publish run changes grouped
      return some (← ofExcept r)) v ok err := by
  simp only [command, ends_bind, ends_onEditor, Editor.attended, ends_get, ends_ofExcept, ends_pure]
  refine (Editor.publish_passes (Editor.replies_passes _) changes grouped v.editor
    ⟨rfl, quiet⟩).imp (fun _ e he => ?_) fun _ _ => False.elim
  exact next { v with editor := e } he.quiet he.diagram rfl

/-- Why no node comes on an edge: something was wrong before it came, or there is no place for it,
or the edges in the place of the one could not be made. -/
def Halted (s : Session) (node : Value) (position : Except Error (Option Position)) (u : Session) :
    Prop :=
  u.diagram = s.diagram ∨ (∃ f, position = .error f) ∨
    ∃ e ∈ u.diagram.edges, Edit.Unsplittable e node

theorem splitOn_ends {t : Trait} (h : s.Steadfast) (has : s.diagram.Has t) {e : Edge}
    (there : e ∈ s.diagram.edges) {n : Node} (node : t.node n)
    (halves : ∀ id : Text, t.edge { e.before n.id with id := .text id } ∧
      t.edge { e.beyond n.id with id := .text id })
    (id : Value) (position : Except Error (Option Position)) :
    Ends (splitOn e n id position) s
      (fun x u => x.isSome ∧ u.editor.IsQuiet ∧
        (∃ r : Diagram, r.Sturdy ∧ r.Has t ∧ u.snapshot = match position with
          | .ok (some p) => ⟨r.positioned n.id p, Keyed.put (id, p) s.places⟩
          | _ => ⟨r, s.places⟩) ∧
        u = { s with editor := u.editor, places := u.places })
      fun _ u => u.editor.IsQuiet ∧ u.diagram.Sturdy ∧ u.diagram.Has t ∧
        u = { s with editor := u.editor } ∧ s.Halted n.id position u := by
  have made := Edit.splitEdge_ends (p := s.editor.opening) (d := s.diagram) (.start h.sturdy has)
    there node halves position
  unfold Ends at made
  simp only [splitOn, ends_bind, ends_onEditor, Editor.ends_enact]
  split
  · rename_i m place answer
    rw [answer] at made
    obtain ⟨r, sturdy, has, diagram⟩ := made
    rw [answer, ends_bind, ends_modify]
    refine publish_acts ?_ _ _ fun u quiet same only => ⟨fun _ _ => ?_, fun _ failure => ?_⟩
    rotate_right
    · cases failure
    · exact h.quiet
    have places : u.places = Keyed.put (id, place) s.places := by rw [only]
    refine ⟨rfl, quiet, ⟨r, sturdy, has, ?_⟩, ?_⟩
    · rw [snapshot, same, places]
      exact congrArg (Snapshot.mk · _) diagram
    · rw [places, only]
  · rename_i position _ _ unplaced
    refine publish_acts ?_ _ _ fun u quiet same only => ?_
    · exact h.quiet
    have places : u.places = s.places := by rw [only]
    have only : u = { s with editor := u.editor } := by rw [only]
    refine ⟨fun m answer => ?_, fun f failure => ?_⟩
    · rw [answer] at made
      obtain ⟨r, sturdy, has, diagram⟩ := made
      refine ⟨rfl, quiet, ⟨r, sturdy, has, ?_⟩, ?_⟩
      · rw [snapshot, same, places]
        rcases position with f | _ | place
        · exact congrArg (Snapshot.mk · _) diagram
        · exact congrArg (Snapshot.mk · _) diagram
        · exact (unplaced m place answer rfl).elim
      · rw [places]
        exact only
    · rw [failure] at made
      obtain ⟨sturdy, has, why⟩ := made
      refine ⟨quiet, same ▸ sturdy, same ▸ has, only, ?_⟩
      rw [Halted, same]
      exact why.imp (congrArg Progress.diagram) (Or.imp_right fun h => ⟨e, h⟩)

theorem splitOn_refuses (h : s.Steadfast) {e : Edge} {n : Node}
    (no : n.id.isSimple → s.diagram.hasNode n.id) (id : Value)
    (position : Except Error (Option Position)) :
    Ends (splitOn e n id position) s (fun _ _ => False) fun _ u =>
      u.editor.IsQuiet ∧ u.diagram = s.diagram ∧ u = { s with editor := u.editor } := by
  have refused := Edit.splitEdge_refuses (p := s.editor.opening) e position no
  unfold Ends at refused
  simp only [splitOn, ends_bind, ends_onEditor, Editor.ends_enact]
  split
  · rename_i answer
    rw [answer] at refused
    exact refused.elim
  · refine publish_acts ?_ _ _ fun u quiet same only => ⟨fun _ answer => ?_, fun _ failure => ?_⟩
    · exact h.quiet
    · rw [answer] at refused
      exact refused.elim
    · rw [failure] at refused
      refine ⟨quiet, same.trans (congrArg Progress.diagram refused), ?_⟩
      rw [only]

/-- A node comes on an edge, or nothing that matters happens. A node that has the traits only when
it gets its place must get it. -/
theorem splitEdge_settles (tabled : Tabled tr) (b : s.Bears tr) {source target : Value}
    (shape id text : Value) {gets : Prop}
    (placed : gets → ∃ p, s.halfway source target = .ok (some p))
    (welcomes : ∀ n, s.nodeBetween shape id text = .ok n → s.Welcomes tr n gets) :
    Ends (splitEdge source target shape id text) s (fun x u => Altered tr s x.isSome u) fun _ u =>
      ¬ gets → Acts tr s u ∧
        s.Halted (id.orElse (.text (nextId s.diagram))) (s.halfway source target) u := by
  simp only [splitEdge_eq, ends_bind, ends_get, ends_ofExcept]
  refine ⟨fun ids _ => ?_, fun _ _ _ => ⟨b.acts, Or.inl rfl⟩⟩
  split
  · exact ⟨b, rfl, rfl, rfl, rfl, rfl, fun _ => rfl⟩
  rename_i e found
  have there : e ∈ s.diagram.edges := by
    obtain ⟨_, _, found⟩ := Option.bind_eq_some_iff.mp found
    exact Keyed.mem_of_find? found
  refine edit_altered _ ?_
  simp only [ends_bind, ends_ofExcept]
  refine ⟨fun n made => ?_, fun _ _ _ => ⟨b.acts, Or.inl rfl⟩⟩
  have here : n.id = id.orElse (.text (nextId s.diagram)) :=
    (Option.some.inj (Node.ofData_eq_ok.mp made).id).symm
  rw [← here]
  by_cases free : n.id.isSimple ∧ s.diagram.hasNode n.id = false
  · have forgets : ∀ d : Diagram, d.Has (tr s.places) → d.Has (tr (Keyed.remove n.id s.places)) :=
      fun _ => tabled.forgets fun _ _ => Keyed.find?_of_remove
    -- the trait that the diagram has when the node is on the edge
    have put : ∀ ps : Places, s.diagram.Has (tr ps) → (tr ps).node n →
        (∀ d : Diagram, d.Has (tr ps) → d.Has (tr (Keyed.remove n.id s.places)) ∧
          (d.Has (tr s.places) ∨ gets)) →
        Ends (splitOn e n n.id (s.halfway source target)) s
          (fun x u => Acts tr s u ∧ (x.isSome = false → u.diagram = s.diagram)) fun _ u =>
            ¬ gets → Acts tr s u ∧ s.Halted n.id (s.halfway source target) u := by
      intro ps has node leaves
      refine (splitOn_ends b.steadfast has there node (tabled.halves (has.edges e there) node) _
        _).imp ?_ ?_
      · rintro x u ⟨answer, quiet, ⟨r, sturdy, has, present⟩, only⟩
        obtain ⟨forgotten, has⟩ := leaves r has
        refine ⟨⟨⟨quiet, ?_⟩, only⟩, fun silent => absurd (silent.symm.trans answer) (by decide)⟩
        rw [present]
        split
        · rename_i p _
          exact ⟨sturdy.positioned n.id p, tabled.moves n.id p forgotten,
            Keyed.nodup_keys_put b.present.once _⟩
        · rename_i unplaced
          refine ⟨sturdy, has.resolve_right fun h => ?_, b.present.once⟩
          obtain ⟨p, halfway⟩ := placed h
          exact unplaced p halfway
      · rintro _ u ⟨quiet, sturdy, has, only, halted⟩ unplaced
        have places : u.places = s.places := by rw [only]
        have has := (leaves u.diagram has).2.resolve_right unplaced
        refine ⟨⟨⟨quiet, ?_⟩, ?_⟩, halted⟩
        · rw [snapshot, places]
          exact ⟨sturdy, has, b.present.once⟩
        · rw [places]
          exact only
    rcases welcomes n made free.1 free.2 with node | ⟨h, node⟩
    · exact put s.places b.present.has node fun d has => ⟨forgets d has, Or.inl has⟩
    · exact put _ (forgets _ b.present.has) node fun d has => ⟨has, Or.inr h⟩
  · have no : n.id.isSimple → s.diagram.hasNode n.id := fun simple =>
      Bool.eq_false_iff.not_left.mp fun absent => free ⟨simple, absent⟩
    refine (splitOn_refuses b.steadfast no _ _).imp (fun _ _ => False.elim) fun _ u hu _ => ?_
    obtain ⟨quiet, same, only⟩ := hu
    have places : u.places = s.places := by rw [only]
    refine ⟨⟨⟨quiet, ?_⟩, ?_⟩, Or.inl same⟩
    · rw [snapshot, same, places]
      exact b.present
    · rw [places]
      exact only

theorem splitEdge_altered (tabled : Tabled tr) (b : s.Bears tr) (source target shape id text : Value)
    (welcomes : ∀ n, s.nodeBetween shape id text = .ok n → s.Welcomes tr n
      ((∃ p, s.halfway source target = .ok (some p)) ∧
        ((splitEdge source target shape id text).run.run s).1.isOk)) :
    Ends (splitEdge source target shape id text) s (fun x u => Altered tr s x.isSome u) fun _ u =>
      Acts tr s u ∧
        s.Halted (id.orElse (.text (nextId s.diagram))) (s.halfway source target) u := by
  have ends := splitEdge_settles tabled b shape id text (fun gets => gets.1) welcomes
  by_cases succeeds : ((splitEdge source target shape id text).run.run s).1.isOk
  · exact ends.of_isOk succeeds
  · exact ends.imp (fun _ _ hu => hu) fun _ _ hu => hu fun gets => succeeds gets.2

end Edits

/-! ### Texts and places -/

section Rest

theorem sturdy_read {text : Text} {d : Diagram} (read : Diagram.read text = .ok d) : d.Sturdy :=
  ⟨Diagram.integral_read read, Diagram.simple_read read, fun _ _ => trivial, fun _ _ => trivial,
    trivial⟩

/-- A text that is read takes the place of everything but the table, and what was to be handed out
is not. -/
theorem load_shows (quiet : s.editor.IsQuiet) (text : Text) :
    Ends (load text) s (fun _ u => ∃ d, Diagram.read text = .ok d ∧
        Shows { s with timer := s.timer.stop } (d.positionedAll s.places) u)
      fun f u => Diagram.read text = .error f ∧ u = { s with notes := u.notes } := by
  simp only [load]
  split
  · rename_i f failed
    simp only [note, ends_bind, ends_modify, ends_throw]
    exact ⟨failed, rfl⟩
  · rename_i d read
    simp only [ends_bind, ends_modify, ends_get, ends_pure, Debounced.cancel]
    refine (placeAll_shows (s := { s with editor := s.editor.reopened d })
      ⟨quiet, sturdy_read read⟩).imp (fun _ u hu => ?_) fun _ _ => False.elim
    refine ⟨d, read, hu.quiet, hu.diagram, ?_⟩
    rw [hu.same]
    rfl

theorem moveNode_shows (h : s.Steadfast) (id : Value) (p : Position) :
    Ends (moveNode id p) s
      (fun _ u => Shows { s with places := Keyed.put (id, p) s.places }
        (s.diagram.positioned id p) u)
      fun _ u => u = s := by
  simp only [moveNode, ends_bind, ends_ofExcept, ends_modify]
  refine ⟨fun k looked => ?_, fun _ _ => trivial⟩
  simp only [Value.simple] at looked
  split at looked
  · cases looked
    exact (place_shows (s := { s with places := Keyed.put (id, p) s.places }) ⟨h.quiet, h.sturdy⟩
      id p).imp (fun _ _ hu => hu) fun _ _ => False.elim
  · cases looked

theorem setPlaces_shows (h : s.Steadfast) (table : List (Value × Value)) :
    Ends (setPlaces table) s
      (fun _ u => ∃ ps, placesOfData table = .ok ps ∧
        Shows { s with places := ps } (s.diagram.positionedAll ps) u)
      fun _ u => u = s := by
  simp only [setPlaces, ends_bind, ends_ofExcept, ends_modify]
  refine ⟨fun ps made => ?_, fun _ _ => trivial⟩
  exact (placeAll_shows (s := { s with places := ps }) ⟨h.quiet, h.sturdy⟩).imp
    (fun _ u hu => ⟨ps, made, hu⟩) fun _ _ => False.elim

/-- However often a table names a node, its places are read into one entry. -/
theorem nodup_placesOfData {table : List (Value × Value)} {ps : Places}
    (read : placesOfData table = .ok ps) : (Keyed.keys ps).Nodup := by
  simp only [placesOfData, bind_eq_ok] at read
  obtain ⟨_, _, read⟩ := read
  have same : Keyed.keys ps = Keyed.keys (table.foldl (fun found entry => Keyed.put entry found) []) := by
    refine map_of_mapM (fun entry q one => ?_) read
    simp only [bind_eq_ok] at one
    obtain ⟨p, _, one⟩ := one
    split at one
    · cases one
      rfl
    · cases one
  rw [same]
  refine List.foldlRecOn (motive := fun found => (Keyed.keys found).Nodup) table _ List.nodup_nil ?_
  exact fun found once entry _ => Keyed.nodup_keys_put once entry

/-! ### Output and history -/

theorem flush_alike : Ends flush s (fun _ u => Alike s u) fun _ u => Alike s u := by
  simp only [flush, Debounced.flush, Debounced.cancel, note, ends_bind, ends_get, ends_modify,
    ends_pure]
  split
  · simp only [ends_bind, ends_pure, if_true, ends_modify]
    refine handOut_alike.imp (fun _ u hu => ?_) fun _ u hu => ?_
    · exact ⟨hu.editor, hu.places, hu.history, hu.receiver, hu.layout⟩
    · exact ⟨hu.editor, hu.places, hu.history, hu.receiver, hu.layout⟩
  · exact ⟨rfl, rfl, rfl, rfl, rfl⟩

/-- A session that has gone through its history to another state. -/
def gone (s : Session) (there : Snapshot) (history : History Snapshot) : Session :=
  { s with
    history, places := there.places, editor := s.editor.reopened there.diagram.settle }

theorem step_alike (there : Snapshot) (history : History Snapshot)
    (told : History Snapshot → Note) :
    Ends (step (some (there, history)) told) s (fun _ u => Alike (s.gone there history) u)
      fun _ u => Alike (s.gone there history) u := by
  simp only [step, note, Debounced.cancel, ends_bind, ends_modify, ends_get, ends_pure]
  refine handOut_alike.imp (fun _ u hu => ?_) fun _ u hu => ?_
  · exact ⟨hu.editor, hu.places, hu.history, hu.receiver, hu.layout⟩
  · exact ⟨hu.editor, hu.places, hu.history, hu.receiver, hu.layout⟩

end Rest
end Session
end Flowchart
