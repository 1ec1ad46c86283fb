import Flowchart.Keyed
import Flowchart.Number
import Flowchart.Text.Literal

/-! Plain data: what diagrams are exchanged as. A record keeps the order of its fields.
Reading a value as something it is not is refused; an absent value is read where the reader
says so. Fields that nobody has to understand are kept as they come, so the parts of a diagram
hold values, and a value is looked at only where something depends on it. -/
namespace Flowchart

/-- A piece of plain data. -/
inductive Value where
  | null
  | bool (b : Bool)
  | number (n : Number)
  | text (t : Text)
  | list (items : List Value)
  | record (fields : List (Text × Value))
  deriving Inhabited, Repr

/-- A text is a value. -/
instance : Coe Text Value := ⟨.text⟩

namespace Value

mutual

/-- Are two values the same, part by part? -/
def same : Value → Value → Bool
  | .null, .null => true
  | .bool a, .bool b => a == b
  | .number m, .number n => m == n
  | .text s, .text t => s == t
  | .list vs, .list ws => sameItems vs ws
  | .record fs, .record gs => sameFields fs gs
  | _, _ => false

/-- Are two lists of values the same? -/
def sameItems : List Value → List Value → Bool
  | [], [] => true
  | v :: vs, w :: ws => same v w && sameItems vs ws
  | _, _ => false

/-- Are two lists of fields the same, in the same order? -/
def sameFields : List (Text × Value) → List (Text × Value) → Bool
  | [], [] => true
  | (k, v) :: fs, (l, w) :: gs => k == l && same v w && sameFields fs gs
  | _, _ => false

end

mutual

theorem same_iff (v w : Value) : same v w = true ↔ v = w := by
  cases v with
  | list vs => cases w <;> simp [same, sameItems_iff]
  | record fs => cases w <;> simp [same, sameFields_iff]
  | _ => cases w <;> simp [same]

theorem sameItems_iff (vs ws : List Value) : sameItems vs ws = true ↔ vs = ws := by
  cases vs with
  | nil => cases ws <;> simp [sameItems]
  | cons v vs => cases ws <;> simp [sameItems, same_iff, sameItems_iff]

theorem sameFields_iff (fs gs : List (Text × Value)) : sameFields fs gs = true ↔ fs = gs := by
  cases fs with
  | nil => cases gs <;> simp [sameFields]
  | cons f fs =>
    obtain ⟨k, v⟩ := f
    cases gs <;> simp [sameFields, same_iff, sameFields_iff, Prod.ext_iff]

end

instance : DecidableEq Value := fun v w => decidable_of_iff _ (same_iff v w)

end Value

/-- The fields of a record, in order. -/
abbrev Fields := List (Text × Value)

/-- The value of a field, or nothing. -/
def Fields.get? (fields : Fields) (name : Text) : Option Value :=
  (Keyed.find? name fields).map (·.2)

/-- The value of a field. An absent field counts as null. -/
def Fields.get (fields : Fields) (name : Text) : Value := (fields.get? name).getD .null

/-- The value of a field that must be there. -/
def Fields.require (fields : Fields) (name : Text) : Except Error Value :=
  match fields.get? name with
  | some v => .ok v
  | none => .error (.missingField name)

/-- The fields, and further ones that count where these say nothing. -/
def Fields.otherwise (fields further : Fields) : Fields := fields ++ further

namespace Value

/-- Is the value neither null nor false, zero or empty? -/
def holds : Value → Bool
  | .null => false
  | .bool b => b
  | .number (.int n) => n != 0
  | .number (.binary b) => b.significand != 0
  | .text t => !t.isEmpty
  | .list items => !items.isEmpty
  | .record fields => !fields.isEmpty

/-- The value if it holds, or else another one. -/
def orElse (v other : Value) : Value := if v.holds then v else other

/-- The value, if it holds. -/
def ifHolds (v : Value) : Option Value := if v.holds then some v else none

/-- Is the value anything but null? -/
def isSome (v : Value) : Bool := v != .null

/-- Can the value be an id? Nothing can be looked up by a list or a record. -/
def isSimple : Value → Bool
  | .list _ | .record _ => false
  | _ => true

/-- The value as an id that something is looked up by. -/
def simple (v : Value) : Except Error Value := if v.isSimple then .ok v else .error .wrongForm

/-- The fields of a record. -/
def fields : Value → Except Error Fields
  | .record fs => .ok fs
  | _ => .error .wrongForm

/-- The fields of a record, where a value of any form might have some. -/
def asRecord : Value → Except Error Fields
  | .record fs => .ok fs
  | _ => .error .noRecord

/-- The characters of a text. -/
def asText : Value → Except Error Text
  | .text t => .ok t
  | _ => .error .wrongForm

/-- The characters of a text, where a value of any form might have some. -/
def asWord : Value → Except Error Text
  | .text t => .ok t
  | _ => .error .noWord

/-- The characters of a text, if the value is one. -/
def text? : Value → Option Text
  | .text t => some t
  | _ => none

/-- The number in a value. A truth value counts as zero or one. -/
def asNumber : Value → Except Error Number
  | .number n => .ok n
  | .bool b => .ok (.int (if b then 1 else 0))
  | _ => .error .wrongForm

/-- The integer in a value. A truth value counts as zero or one. -/
def asInteger (v : Value) : Except Error Int :=
  match v.asNumber with
  | .ok (.int n) => .ok n
  | _ => .error .wrongForm

/-- What a value consists of: the items of a list, the characters of a text or the names of a
record. Nothing else consists of anything. -/
def parts : Value → Except Error (List Value)
  | .list vs => .ok vs
  | .text t => .ok (t.map fun c => .text [c])
  | .record fs => .ok ((Keyed.keys fs).map .text)
  | _ => .error .wrongForm

/-- What a value consists of. One that does not hold consists of nothing. -/
def partsIfAny (v : Value) : Except Error (List Value) := if v.holds then v.parts else .ok []

/-- Does a value contain another one: a list as an item, a text as a run of neighbours, a
record as a name? -/
def contains (v w : Value) : Except Error Bool :=
  match v, w with
  | .list vs, w => .ok (vs.contains w)
  | .text s, .text t => .ok (Text.has t s)
  | .record fs, .text t => .ok (Keyed.has t fs)
  | .record _, w => w.simple.map fun _ => false
  | _, _ => .error .wrongForm

/-- Does one value come before another or equal it? Texts are compared character by character,
and numbers and truth values as numbers; nothing else has an order. -/
def upTo (v w : Value) : Bool :=
  match v, w with
  | .text s, .text t => Text.isUpTo s t
  | v, w => match v.asNumber, w.asNumber with
    | .ok m, .ok n => m.upTo n
    | _, _ => false

/-- Can values be put in order: is there at most one, or are they all texts or all numbers? -/
def areComparable (vs : List Value) : Bool :=
  vs.length ≤ 1 || vs.all (fun v => v.text?.isSome) || vs.all fun v => v.asNumber.isOk

/-- A text, or null if there is none. -/
def ofText? : Option Text → Value
  | some t => .text t
  | none => .null

/-- An integer, or null if there is none. -/
def ofInt? : Option Int → Value
  | some n => .number (.int n)
  | none => .null

/-- A list of texts. -/
def ofTexts (ts : List Text) : Value := .list (ts.map .text)

mutual

/-- The literal form of a value in messages. -/
def literal : Value → Text
  | .null => "None"
  | .bool true => "True"
  | .bool false => "False"
  | .number n => n.toText
  | .text t => t.literal
  | .list vs => '[' :: Text.join ", " (literals vs) ++ [']']
  | .record fs => '\x7b' :: Text.join ", " (fieldLiterals fs) ++ ['\x7d']

/-- The literal forms of the items of a list. -/
def literals : List Value → List Text
  | [] => []
  | v :: vs => v.literal :: literals vs

/-- The literal forms of the fields of a record. -/
def fieldLiterals : List (Text × Value) → List Text
  | [] => []
  | (name, v) :: fs => (name.literal ++ ": ".toList ++ v.literal) :: fieldLiterals fs

end

/-- The value in a sentence: a text as it is, anything else as a literal. -/
def shown : Value → Text
  | .text t => t
  | v => v.literal

@[simp] theorem shown_text (t : Text) : shown (.text t) = t := rfl

@[simp] theorem isSimple_text (t : Text) : isSimple (.text t) = true := rfl

@[simp] theorem holds_text (t : Text) : holds (.text t) = !t.isEmpty := rfl

end Value
end Flowchart
