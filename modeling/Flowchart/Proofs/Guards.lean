import Flowchart.Proofs.Membership

/-! The checks that edits begin with. A check changes nothing; where it passes, it says
something of the diagram. -/
namespace Flowchart.Edit
open Action Progress
variable {p : Progress}

theorem check_guards (holds : Bool) (e : Error) : Guards (check holds e) p fun _ => holds := by
  cases holds
  · rfl
  · exact ⟨rfl, rfl⟩

theorem checkId_guards (id : Value) : Guards (checkId id) p fun _ => id.isSimple :=
  check_guards ..

theorem ofExcept_guards {α : Type} (r : Except Error α) :
    Guards (ofExcept r) p fun x => r = .ok x :=
  ends_ofExcept.mpr ⟨fun _ hx => ⟨rfl, hx⟩, fun _ _ => rfl⟩

theorem checkParent_guards (parent : Value) :
    Guards (checkParent parent) p fun _ => CanJoin p.diagram parent := by
  unfold checkParent
  split
  · rename_i none
    exact ⟨rfl, fun h => absurd none h⟩
  · refine (checkId_guards parent).bind fun _ simple => ?_
    exact (check_guards ..).imp fun _ there _ => ⟨simple, there⟩

theorem checkNode_guards (id : Value) (missing : Error) :
    Guards (checkNode id missing) p fun _ => p.diagram.hasNode id :=
  (checkId_guards id).bind fun _ _ => check_guards ..

theorem checkNames_guards (kind : Kind) (changes : Fields) :
    Guards (checkNames kind changes) p fun _ => True :=
  (check_guards ..).imp fun _ _ => trivial

theorem checkFields_guards (kind : Kind) (known : List Text) (id : Value) (changes : Fields) :
    Guards (checkFields kind known id changes) p fun _ => True :=
  (check_guards ..).bind fun _ _ => (check_guards ..).imp fun _ _ => trivial

theorem checkChangedEnd_guards (role : Role) (changed : Option Value) (old : Value) :
    Guards (checkChangedEnd role changed old) p fun _ =>
      p.diagram.hasNode (changed.getD old) := by
  cases changed <;> exact checkNode_guards ..

theorem checkNesting_guards (id parent : Value) :
    Guards (checkNesting id parent) p fun _ => CanJoin p.diagram parent ∧
      (parent ≠ .null → ¬ Relation.ReflTransGen p.diagram.Under parent id) := by
  refine (checkParent_guards parent).bind fun _ can => ?_
  show Guards (ite ..) p _
  split
  · rename_i none
    exact ⟨rfl, can, fun h => absurd none h⟩
  · refine (check_guards ..).bind fun _ outside => ?_
    refine (check_guards ..).imp fun _ _ => ⟨can, fun _ inside => ?_⟩
    rw [Diagram.wouldCycle_iff.mpr inside] at outside
    exact absurd outside (by decide)

theorem checkMembers_guards (members : List Value) :
    Guards (checkMembers members) p fun _ => ∀ m ∈ members, p.diagram.hasNode m :=
  guards_forM fun m _ => checkNode_guards m _

end Flowchart.Edit
