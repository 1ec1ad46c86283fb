import Flowchart.Proofs.PlacesAgree
import Flowchart.Proofs.TypedFields

/-! The output of sessions. A session and the text that was last in step with it part only while
output is pending: whatever changes what is written of the diagram also asks for output, moves of
nodes change nothing of it, and where output is given up another text comes into step. The only
text that is never handed out is one that cannot be written, since an edge is too long. -/
namespace Flowchart
open Action

namespace Session
variable {s u : Session}

/-! ### Calls with arguments of their types -/

/-- The call has arguments of the types that they are meant to have. The names of changed fields
differ, whoever comes to listen changes nothing, and a place between two places can be computed. -/
def Typed (s : Session) : Call → Prop
  | .step (.addNode id text _ _ fields) => id.isText ∧ ((fields.get? "text").getD text).isWord ∧
      Fields.fit Node.kinds (Keyed.remove "text".toList fields) ∧ fields.get "position" = .null
  | .step (.updateNode _ changes) => changes.fit Node.kinds
  | .step (.addEdge _ _ fields) => fields.fit Edge.kinds
  | .step (.updateEdge _ changes) => (Keyed.keys changes).Nodup ∧ changes.fit Edge.kinds
  | .step (.splitEdge source target _ id text) =>
      id.isWord ∧ text.isWord ∧ (s.halfway source target).isOk
  | .step (.listen _ reaction) => Command.reactsQuietly reaction
  | .clear => False
  | _ => True

/-- A record with an id and a text that are texts, and a shape. -/
theorem fit_record {id text : Value} (shape : Value) (hid : id.isText) (htext : text.isText) :
    Fields.fit Node.kinds [("id", id), ("text", text), ("shape", shape)] = true := by
  simp [Fields.fit, Node.kinds, hid, htext]

theorem worded_nodeFor {id text shape : Value} {fields : Fields} (hid : id.isText)
    (htext : ((fields.get? "text").getD text).isWord)
    (fit : Fields.fit Node.kinds (Keyed.remove "text".toList fields)) {n : Node}
    (made : nodeFor id text shape fields = .ok n) : n.IsWorded := by
  have shown : (if ((fields.get? "text").getD text).isSome then (fields.get? "text").getD text
      else id).isText := by
    split
    · exact Value.isText_of_isSome htext ‹_›
    · exact hid
  unfold nodeFor at made
  split at made
  · cases made
  · refine (Node.ofData_eq_ok.mp made).worded (Fields.fit_append ?_ (fit_record shape hid shown))
    exact Fields.fit_remove fit _

theorem worded_edgeFor {source target : Value} {fields : Fields} (fit : fields.fit Edge.kinds)
    {e : Edge} (made : edgeFor source target fields = .ok e) {id : Value} (holds : id.holds)
    (known : id = e.id ∨ ∃ t, id = .text t) : Edge.IsWorded { e with id } := by
  have ends : Fields.fit Edge.kinds [("source", source), ("target", target)] = true := by
    simp [Fields.fit, Edge.kinds]
  have unnamed : Fields.fit Edge.kinds [("id", .text [])] = true := rfl
  unfold edgeFor at made
  split at made
  · cases made
  · have fit := Fields.fit_append (Fields.fit_append fit ends) unnamed
    have reads := Edge.ofData_eq_ok.mp made
    refine reads.worded fit ?_
    rcases known with rfl | ⟨t, rfl⟩
    · exact Value.isText_of_holds (reads.isWord_id fit) holds
    · rfl

theorem isText_nodeBetween (s : Session) {id : Value} (word : id.isWord) :
    (id.orElse (.text (nextId s.diagram))).isText = true :=
  Value.isText_orElse word rfl

/-- What is well typed gives the diagram only texts for words. -/
theorem Typed.admits {call : Call} (typed : s.Typed call) : call.Admits (fun _ => .worded) s := by
  cases call with
  | step step =>
    cases step with
    | addNode id text shape position fields =>
      exact fun n made _ _ => Or.inl (worded_nodeFor typed.1 typed.2.1 typed.2.2.1 made)
    | updateNode id changes => exact fun set hset n _ => Edit.lets_node_worded typed set hset n
    | addEdge source target fields => exact fun e made id => worded_edgeFor typed made
    | updateEdge id changes => exact ⟨typed.1, Edit.lets_edge_worded typed.2⟩
    | splitEdge source target shape id text =>
      intro n made _ _
      have named := isText_nodeBetween s typed.1
      refine Or.inl ((Node.ofData_eq_ok.mp made).worded (fit_record shape named ?_))
      exact Value.isText_orElse typed.2.1 named
    | listen name reaction => exact typed
    | removeNode _ | removeEdge _ | undo | redo | elapse => trivial
  | load text => exact fun d read => Diagram.worded_read read
  | moveNode _ _ | setPlaces _ | flush => trivial
  | clear => exact typed.elim

/-! ### Calls that hand nothing out -/

/-- Does the call hand nothing out, whatever it finds, and give no pending output up? -/
def Call.IsSilent : Call → Prop
  | .step .undo | .step .redo | .step .elapse | .load _ | .flush | .clear => False
  | _ => True

/-- Nothing is handed out. Output is pending afterwards, or the diagram is written as before, unless
an edge is too long for that. -/
structure Silent (s u : Session) : Prop where
  codes : u.codes = s.codes
  receiver : u.receiver = s.receiver
  layout : u.layout = s.layout
  due : u.timer.isRunning ∨
    u.timer = s.timer ∧ (u.diagram.IsOverlong ∨ s.diagram.LooksLike u.diagram)

theorem Silent.refl (s : Session) : Silent s s := ⟨rfl, rfl, rfl, Or.inr ⟨rfl, Or.inr (.refl _)⟩⟩

theorem Altered.silent {tr : Places → Trait} {changed : Bool} (altered : Altered tr s changed u) :
    Silent s u := by
  refine ⟨altered.codes, altered.receiver, altered.layout, ?_⟩
  have timer := altered.timer
  cases changed with
  | true =>
    left
    rw [timer]
    rfl
  | false => exact Or.inr ⟨timer, Or.inr (Diagram.looksLike_of_eq (altered.idle rfl))⟩

theorem Acts.silent {tr : Places → Trait} (acts : Acts tr s u)
    (looks : u.diagram.IsOverlong ∨ s.diagram.LooksLike u.diagram) : Silent s u := by
  have same := acts.same
  refine ⟨?_, ?_, ?_, Or.inr ⟨?_, looks⟩⟩ <;> rw [same]

theorem Shows.silent {t : Session} {d : Diagram} (shows : Shows t d u) (codes : t.codes = s.codes)
    (receiver : t.receiver = s.receiver) (layout : t.layout = s.layout) (timer : t.timer = s.timer)
    (looks : s.diagram.LooksLike d) : Silent s u := by
  have same := shows.same
  refine ⟨?_, ?_, ?_, Or.inr ⟨?_, Or.inr (shows.diagram ▸ looks)⟩⟩
  · rw [same, codes]
  · rw [same, receiver]
  · rw [same, layout]
  · rw [same, timer]

/-- A silent call keeps the output as it was, or asks for it, whether it succeeds or fails. -/
theorem silent_ends (h : s.Holds fun _ => .worded) {call : Call} (typed : s.Typed call)
    (silent : call.IsSilent) :
    Ends call.run s (fun _ u => Silent s u) fun _ u => Silent s u := by
  have b := h.present
  have still : ∀ u, u = s → Silent s u := fun _ same => same ▸ .refl s
  have admits := typed.admits
  cases call with
  | step step =>
    rw [Call.run, ends_map]
    cases step with
    | addNode id text shape position fields =>
      rw [Step.run, ends_map]
      refine (addNode_altered Trait.tabled_worded b id text shape position fields admits).imp
        (fun _ _ hu => hu.silent) ?_
      -- an id can be looked up by, and fields with no place in them say of none that it is one
      rintro _ u ⟨acts, same | complex | ⟨f, failed⟩⟩
      · exact acts.silent (Or.inr (Diagram.looksLike_of_eq same))
      · rw [Value.isSimple_of_isText typed.1] at complex
        cases complex
      · have nowhere := typed.2.2.2
        unfold placeFor at failed
        split at failed
        · cases failed
        · cases failed
        · rename_i v some_value given
          rw [Fields.get, given] at nowhere
          exact absurd nowhere some_value
    | updateNode id changes =>
      rw [Step.run, ends_map]
      exact (updateNode_altered b id admits).imp (fun _ _ hu => hu.silent) fun _ u hu => still u hu
    | removeNode id =>
      exact (removeNode_altered Trait.tabled_worded b id).imp (fun _ _ hu => hu.silent)
        fun _ u hu => still u hu
    | addEdge source target fields =>
      rw [Step.run, ends_map]
      exact (addEdge_altered b source target fields admits).imp (fun _ _ hu => hu.silent)
        fun _ u hu => still u hu
    | updateEdge id changes =>
      rw [Step.run, ends_map]
      exact (updateEdge_altered b id admits.1 admits.2).imp (fun _ _ hu => hu.silent)
        fun _ u hu => still u hu
    | removeEdge id =>
      exact (removeEdge_altered b id).imp (fun _ _ hu => hu.silent) fun _ u hu => still u hu
    | splitEdge source target shape id text =>
      rw [Step.run, ends_map]
      refine (splitEdge_altered Trait.tabled_worded b source target shape id text admits).imp
        (fun _ _ hu => hu.silent) ?_
      rintro _ u ⟨acts, same | ⟨f, failed⟩ | ⟨e, there, unsplittable⟩⟩
      · exact acts.silent (Or.inr (Diagram.looksLike_of_eq same))
      · have computed := typed.2.2
        rw [failed] at computed
        cases computed
      · refine acts.silent (Or.inl ?_)
        exact Diagram.overlong_of_unsplittable acts.bears.present.sturdy.integral
          acts.bears.present.has there (isText_nodeBetween s typed.1) unsplittable
    | listen name reaction =>
      simp only [Step.run, ends_bind, ends_onEditor, ends_modify, ends_pure]
      exact ⟨rfl, rfl, rfl, Or.inr ⟨rfl, Or.inr (.refl _)⟩⟩
    | undo | redo | elapse => exact silent.elim
  | moveNode id p =>
    refine (moveNode_shows b.steadfast id p).imp (fun _ u hu => ?_) fun _ u hu => still u hu
    exact hu.silent rfl rfl rfl rfl (Diagram.looksLike_positioned _ id p)
  | setPlaces table =>
    refine (setPlaces_shows b.steadfast table).imp ?_ fun _ u hu => still u hu
    rintro _ u ⟨ps, _, hu⟩
    exact hu.silent rfl rfl rfl rfl (Diagram.looksLike_positionedAll _ ps)
  | load _ | flush | clear => exact silent.elim

/-! ### Calls that hand out -/

/-- What was pending has been handed out, if the diagram can be written. Without anything pending
nothing has. -/
structure Emptied (s u : Session) : Prop where
  diagram : u.diagram = s.diagram
  receiver : u.receiver = s.receiver
  layout : u.layout = s.layout
  stopped : u.timer.isRunning = false
  codes : u.codes = s.codes ++
    if s.timer.isRunning then (s.diagram.write s.layout).toOption.toList else []

theorem Emptied.noted (h : Emptied s u) (n : Note) : Emptied s (Debounced.addNote n u) :=
  ⟨h.diagram, h.receiver, h.layout, h.stopped, h.codes⟩

theorem emptied_idle (idle : s.timer.isRunning = false) {timer : Timer}
    (stopped : timer.isRunning = false) : Emptied s { s with timer } := by
  refine ⟨rfl, rfl, rfl, stopped, ?_⟩
  rw [idle]
  exact (List.append_nil _).symm

/-- Only a diagram that cannot be written is not handed out. -/
theorem handOut_takes (takes : s.receiver = .takes) :
    Ends handOut s
      (fun _ u => u = { s with codes := s.codes ++ (s.diagram.write s.layout).toOption.toList })
      fun f u => s.diagram.write s.layout = .error f ∧ u = s := by
  simp only [handOut, code, ends_bind, ends_get, takes, ends_ofExcept, ends_modify]
  refine ⟨fun text written => ?_, fun f failed => ⟨failed, trivial⟩⟩
  rw [written]
  rfl

theorem handOut_pending (takes : s.receiver = .takes) (running : s.timer.isRunning) :
    Ends handOut { s with timer := s.timer.stop } (fun _ u => Emptied s u)
      fun f u => s.diagram.write s.layout = .error f ∧ Emptied s u := by
  refine (handOut_takes (s := { s with timer := s.timer.stop }) takes).imp ?_ ?_
  · rintro _ u rfl
    refine ⟨rfl, rfl, rfl, rfl, ?_⟩
    rw [running]
    rfl
  · rintro f u ⟨failed, rfl⟩
    have failed : s.diagram.write s.layout = .error f := failed
    refine ⟨failed, rfl, rfl, rfl, rfl, ?_⟩
    rw [running, failed]
    exact (List.append_nil _).symm

theorem flush_empties (takes : s.receiver = .takes) :
    Ends flush s (fun told u => told = s.timer.isRunning ∧ Emptied s u)
      fun f u => s.timer.isRunning ∧ s.diagram.write s.layout = .error f ∧ Emptied s u := by
  simp only [flush, Debounced.flush, Debounced.cancel, note, ends_bind, ends_get, ends_modify,
    ends_pure]
  split
  · rename_i running
    simp only [ends_bind, ends_pure, if_true, ends_modify]
    exact (handOut_pending takes running).imp (fun _ _ hu => ⟨running.symm, hu.noted _⟩)
      fun _ _ hu => ⟨running, hu⟩
  · rename_i idle
    have idle : s.timer.isRunning = false := Bool.eq_false_iff.mpr idle
    exact ⟨idle.symm, emptied_idle idle rfl⟩

theorem elapse_empties (takes : s.receiver = .takes) :
    Ends elapse s (fun told u => told = s.timer.isRunning ∧ Emptied s u) fun _ _ => False := by
  simp only [elapse, Debounced.elapse, ends_bind, ends_get]
  split
  · rename_i idle
    have idle : s.timer.isRunning = false := congrArg Option.isSome idle
    exact ⟨idle.symm, emptied_idle idle idle⟩
  · rename_i number waiting
    have running : s.timer.isRunning = true := congrArg Option.isSome waiting
    simp only [Debounced.runOut, Debounced.cancel, ends_bind, ends_get, ends_modify, ends_pure,
      ends_tryCatch, waiting, if_true]
    exact (handOut_pending takes running).imp (fun _ _ hu => ⟨running.symm, hu⟩)
      fun _ _ hu => ⟨running.symm, hu.2.noted _⟩

/-- A call that may hand something out has changed nothing, or the diagram is handed out as it is
afterwards, if it can be written. -/
structure Emits (s u : Session) : Prop where
  receiver : u.receiver = s.receiver
  layout : u.layout = s.layout
  told : (u.codes = s.codes ∧ u.timer.isRunning = s.timer.isRunning ∧ u.diagram = s.diagram) ∨
    u.codes = s.codes ++ (u.diagram.write u.layout).toOption.toList

theorem Emptied.emits (h : Emptied s u) : Emits s u := by
  refine ⟨h.receiver, h.layout, ?_⟩
  have codes := h.codes
  cases running : s.timer.isRunning with
  | true =>
    rw [running, if_pos rfl] at codes
    rw [h.diagram, h.layout]
    exact Or.inr codes
  | false =>
    rw [running, if_neg Bool.false_ne_true, List.append_nil] at codes
    exact Or.inl ⟨codes, h.stopped, h.diagram⟩

theorem step_emits (takes : s.receiver = .takes) (there : Option (Snapshot × History Snapshot))
    (told : History Snapshot → Note) :
    Ends (step there told) s (fun _ u => Emits s u) fun _ u => Emits s u := by
  cases there with
  | none => exact ⟨rfl, rfl, Or.inl ⟨rfl, rfl, rfl⟩⟩
  | some x =>
    simp only [step, note, Debounced.cancel, ends_bind, ends_modify, ends_get, ends_pure]
    refine (handOut_takes (by exact takes)).imp ?_ ?_
    · rintro _ u rfl
      exact ⟨rfl, rfl, Or.inr rfl⟩
    · rintro f u ⟨failed, rfl⟩
      refine ⟨rfl, rfl, Or.inr ?_⟩
      rw [failed]
      exact (List.append_nil _).symm

theorem emits_ends (takes : s.receiver = .takes) {call : Call} (typed : s.Typed call)
    (loud : ¬ call.IsSilent) (unread : ∀ text, call ≠ .load text) :
    Ends call.run s (fun _ u => Emits s u) fun _ u => Emits s u := by
  cases call with
  | step x =>
    rw [Call.run, ends_map]
    cases x with
    | undo =>
      simp only [Step.run, undo, ends_bind, ends_get]
      exact step_emits takes _ _
    | redo =>
      simp only [Step.run, redo, ends_bind, ends_get]
      exact step_emits takes _ _
    | elapse => exact (elapse_empties takes).imp (fun _ _ hu => hu.2.emits) fun _ _ => False.elim
    | _ => exact absurd trivial loud
  | flush =>
    rw [Call.run, ends_map]
    exact (flush_empties takes).imp (fun _ _ hu => hu.2.emits) fun _ _ hu => hu.2.2.emits
  | load text => exact absurd rfl (unread text)
  | clear => exact typed.elim
  | _ => exact absurd trivial loud

/-! ### Texts in step -/

/-- The text that is in step after a call, where another one was before: the last that the call has
handed out, or what is written of a diagram that it has read. -/
def latest (s : Session) (call : Call) (before : Except Error Text) : Except Error Text :=
  let r := call.run.run.run s
  match call, r.1 with
  | .load _, .ok _ => r.2.diagram.write r.2.layout
  | _, _ => ((r.2.codes.drop s.codes.length).getLast?.map .ok).getD before

/-- The sessions that well typed calls lead to, each with the text that is in step. At first that is
the text of an empty diagram. -/
inductive Follows (s₀ : Session) : Session → Except Error Text → Prop
  | start : Follows s₀ s₀ (s₀.diagram.write s₀.layout)
  | call {s : Session} {synced : Except Error Text} {call : Call} (before : Follows s₀ s synced)
    (typed : s.Typed call) : Follows s₀ (call.run.run.run s).2 (s.latest call synced)

variable {synced : Except Error Text}

theorem latest_of_codes {call : Call} (unread : ∀ text, call ≠ .load text) {more : List Text}
    (codes : (call.run.run.run s).2.codes = s.codes ++ more) :
    s.latest call synced = (more.getLast?.map .ok).getD synced := by
  simp only [latest]
  split
  · exact absurd rfl (unread _)
  · rw [codes, List.drop_left]

/-- Where nothing is pending and no edge is too long, the diagram is written as the text that is in
step. -/
structure Current (s : Session) (synced : Except Error Text) : Prop where
  holds : s.Holds fun _ => .worded
  takes : s.receiver = .takes
  current : s.timer.isRunning ∨ s.diagram.IsOverlong ∨ s.diagram.write s.layout = synced

theorem Holds.write_isOk (h : s.Holds fun _ => .worded) (short : ¬ s.diagram.IsOverlong) :
    (s.diagram.write s.layout).isOk = true :=
  Diagram.write_isOk h.present.present.sturdy.integral h.present.present.has short s.layout

theorem Current.silent (h : s.Current synced) (holds : u.Holds fun _ => .worded)
    (silent : Silent s u) : u.Current synced := by
  refine ⟨holds, silent.receiver.trans h.takes, ?_⟩
  rcases silent.due with running | ⟨timer, long | like⟩
  · exact Or.inl running
  · exact Or.inr (Or.inl long)
  · rw [timer, silent.layout, like.write]
    exact h.current.imp_right (Or.imp_left like.overlong)

theorem Current.emits (h : s.Current synced) (holds : u.Holds fun _ => .worded)
    (emits : Emits s u) : ∃ more, u.codes = s.codes ++ more ∧
      u.Current ((more.getLast?.map .ok).getD synced) := by
  have takes := emits.receiver.trans h.takes
  rcases emits.told with ⟨codes, running, same⟩ | codes
  · refine ⟨[], codes.trans (List.append_nil _).symm, holds, takes, ?_⟩
    rw [running, same, emits.layout]
    exact h.current
  · refine ⟨_, codes, holds, takes, Or.inr ?_⟩
    by_cases long : u.diagram.IsOverlong
    · exact Or.inl long
    · obtain ⟨text, written⟩ := isOk_iff.mp (holds.write_isOk long)
      rw [written]
      exact Or.inr rfl

/-- What is read is in step with itself. -/
theorem Current.load (h : s.Current synced) (text : Text) :
    Current ((Call.load text).run.run.run s).2 (s.latest (.load text) synced) := by
  have typed : s.Typed (.load text) := trivial
  have holds := (Call.holds Trait.tabled_worded h.holds typed.admits).state
  have ends : Ends (Call.load text).run s (fun _ u => u.receiver = s.receiver)
      fun _ u => Silent s u := by
    rw [Call.run, ends_map]
    refine (load_shows h.holds.present.quiet text).imp ?_ ?_
    · rintro _ u ⟨d, _, shows⟩
      rw [shows.same]
    · rintro _ u ⟨_, same⟩
      refine ⟨?_, ?_, ?_, Or.inr ⟨?_, Or.inr (Diagram.looksLike_of_eq ?_)⟩⟩ <;> rw [same]
      rfl
  unfold Ends at ends
  split at ends
  · rename_i answer
    refine ⟨holds, ends.trans h.takes, Or.inr (Or.inr ?_)⟩
    simp only [latest, answer]
  · rename_i f failure
    have nothing : s.latest (.load text) synced = synced := by
      simp only [latest, failure, ends.codes, List.drop_length]
      rfl
    rw [nothing]
    exact h.silent holds ends

theorem Current.call (h : s.Current synced) {call : Call} (typed : s.Typed call) :
    Current (call.run.run.run s).2 (s.latest call synced) := by
  by_cases read : ∃ text, call = .load text
  · obtain ⟨text, rfl⟩ := read
    exact h.load text
  have unread : ∀ text, call ≠ .load text := fun text same => read ⟨text, same⟩
  have holds := (Call.holds Trait.tabled_worded h.holds typed.admits).state
  by_cases silent : call.IsSilent
  · have silent := (silent_ends h.holds typed silent).state
    rw [latest_of_codes unread (silent.codes.trans (List.append_nil _).symm)]
    exact h.silent holds silent
  · obtain ⟨more, codes, current⟩ := h.emits holds (emits_ends h.takes typed silent unread).state
    rw [latest_of_codes unread codes]
    exact current

theorem Follows.current {limit : Value} {layout : Layout} {s₀ : Session}
    (started : Session.start limit layout = .ok s₀) (run : Follows s₀ s synced) :
    s.Current synced := by
  induction run with
  | start =>
    obtain ⟨history, _, ⟨⟩⟩ := bind_eq_ok.mp started
    exact ⟨holds_start started .takes, rfl, Or.inr (Or.inr rfl)⟩
  | call _ typed ih => exact ih.call typed

/-- Silent calls add nothing to what has been handed out, and what is pending stays so. -/
theorem Current.reaches (h : s.Current synced)
    (reached : Reaches (fun s call => s.Typed call ∧ call.IsSilent) s u) :
    u.codes = s.codes ∧ (s.timer.isRunning → u.timer.isRunning) ∧ u.Current synced := by
  induction reached with
  | start => exact ⟨rfl, id, h⟩
  | @call t call _ fit ih =>
    obtain ⟨codes, pending, current⟩ := ih
    have silent := (silent_ends current.holds fit.1 fit.2).state
    have holds := (Call.holds Trait.tabled_worded current.holds fit.1.admits).state
    refine ⟨silent.codes.trans codes, fun running => ?_, current.silent holds silent⟩
    rcases silent.due with due | ⟨timer, _⟩
    · exact due
    · rw [timer]
      exact pending running

/-- The text of the diagram can be had unless an edge is too long; it is in step or to be handed
out; and a flush hands it out just if it is to be, as does a pause that passes. -/
structure UpToDate (s : Session) (synced : Except Error Text) : Prop where
  written : ¬ s.diagram.IsOverlong → ∃ text, (code.run.run s).1 = .ok text
  current : s.timer.isRunning ∨ s.diagram.IsOverlong ∨ (code.run.run s).1 = synced
  flush : Ends flush s (fun told u => told = s.timer.isRunning ∧ Emptied s u)
    fun f u => s.timer.isRunning ∧ (code.run.run s).1 = .error f ∧ Emptied s u
  elapse : Ends elapse s (fun told u => told = s.timer.isRunning ∧ Emptied s u) fun _ _ => False

theorem Current.upToDate (h : s.Current synced) : s.UpToDate synced where
  written short := isOk_iff.mp (h.holds.write_isOk short)
  current := h.current
  flush := flush_empties h.takes
  elapse := elapse_empties h.takes

/-- No output is lost: wherever well typed calls lead, the session is up to date. It stays so with
the same text through silent calls, however many, which hand nothing out; so what they have asked
for is handed out as one text. -/
theorem no_output_lost {limit : Value} {layout : Layout} {s₀ : Session}
    (started : Session.start limit layout = .ok s₀) (run : Follows s₀ s synced) :
    s.UpToDate synced ∧
      ∀ u, Reaches (fun s call => s.Typed call ∧ call.IsSilent) s u →
        u.codes = s.codes ∧ (s.timer.isRunning → u.timer.isRunning) ∧ u.UpToDate synced := by
  have current := run.current started
  refine ⟨current.upToDate, fun u reached => ?_⟩
  obtain ⟨codes, pending, later⟩ := current.reaches reached
  exact ⟨codes, pending, later.upToDate⟩

/-- A node comes, and comes again in vain; nodes are moved. This is handed out. A node that is not
there goes, another is changed, and that is taken back; one comes on an edge. -/
def drafting : List Call := [
  .load pairText,
  .step (.listen "l" (.act .beginBatch)),
  .step (.addNode (.text "C") .null (.text "rect") none []),
  .step (.addNode (.text "C") .null (.text "rect") none []),
  .moveNode (.text "A") (diagonal 0),
  .setPlaces [(.text "B", (diagonal 1).toData)],
  .flush,
  .step (.removeNode (.text "D")),
  .step (.updateNode (.text "A") [("text", .text "first")]),
  .step .undo,
  .step (.splitEdge (.text "A") (.text "B") (.text "rect") .null .null),
  .step .elapse]

theorem drafting_follows : ∃ synced, Follows brief (after brief drafting) synced := by
  refine ⟨_, .call (.call (.call (.call (.call (.call (.call (.call (.call (.call (.call (.call
    .start ?_) ?_) ?_) ?_) ?_) ?_) ?_) ?_) ?_) ?_) ?_) ?_⟩
  · trivial
  · trivial
  · exact ⟨rfl, rfl, rfl, rfl⟩
  · exact ⟨rfl, rfl, rfl, rfl⟩
  · trivial
  · trivial
  · trivial
  · trivial
  · exact rfl
  · trivial
  · exact ⟨rfl, rfl, by decide +kernel⟩
  · trivial

theorem drafting_stays_up_to_date :
    start (.number (.int 2)) {} = .ok brief ∧ (after brief drafting).codes.length = 3 ∧
      ∃ synced, Follows brief (after brief drafting) synced ∧
        (after brief drafting).UpToDate synced := by
  obtain ⟨synced, run⟩ := drafting_follows
  have started : start (.number (.int 2)) {} = .ok brief := rfl
  exact ⟨started, by decide +kernel, synced, run, (no_output_lost started run).1⟩

/-- A node is moved, and whoever hears of that adds another one. -/
def overheard : List Call := [
  .load "flowchart TB
    A --> B",
  .step (.listen "l" (.act (.addNode (.bare (.text "C"))))),
  .moveNode (.text "A") (diagonal 0)]

/-- An edge gets too long, and a pause passes. -/
def outgrown : List Call := [
  .load pairText,
  .step (.updateEdge (.text "e") [("length", .number (.int 100000000000000000000))]),
  .step .elapse]

/-- What a listener does to the diagram when a node is moved is not handed out, and neither is an
edge that is too long. -/
theorem output_is_lost :
    (let loaded := after brief (overheard.take 1); let s := after brief overheard;
      s.diagram.hasNode (.text "C") ∧ s.codes = [] ∧ s.timer.isRunning = false ∧
        s.diagram.write s.layout ≠ loaded.diagram.write loaded.layout) ∧
    (let s := after brief outgrown;
      s.codes = [] ∧ s.timer.isRunning = false ∧ (s.diagram.write s.layout).isOk = false) := by
  decide +kernel

end Session
end Flowchart
