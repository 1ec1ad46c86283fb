import Flowchart.Text

/-! Everything that can be refused, by cause. An error carries what its message names and
nothing else; the wording stands in one function, so that two causes with the same words
stay apart. Some causes have no words of their own. -/
namespace Flowchart

/-- The three kinds of things a diagram holds. -/
inductive Kind where
  | node | edge | subgraph
  deriving DecidableEq, Repr

/-- The name of a kind at the start of a sentence. -/
def Kind.title : Kind → Text
  | .node => "Node"
  | .edge => "Edge"
  | .subgraph => "SubGraph"

/-- The name of a kind within a sentence. -/
def Kind.word : Kind → Text
  | .node => "node"
  | .edge => "edge"
  | .subgraph => "subgraph"

/-- What a node is to the thing that names it. -/
inductive Role where
  | source | target | member
  deriving DecidableEq, Repr

/-- The name of a role at the start of a sentence. -/
def Role.title : Role → Text
  | .source => "Source"
  | .target => "Target"
  | .member => "Member"

/-- The closed sets of spellings that plain data may name a member of. -/
inductive Choice where
  | direction | stroke | tip | event
  deriving DecidableEq, Repr

/-- The name of a set of spellings. -/
def Choice.title : Choice → Text
  | .direction => "Direction"
  | .stroke => "Stroke"
  | .tip => "ArrowType"
  | .event => "ModelEventType"

/-- The reasons for which an operation is refused. -/
inductive Error where
  /-- Digits that are no decimal numeral, or too many of them. -/
  | badNumeral
  /-- A character code above the last code point. -/
  | noCharacter (code : Nat)
  /-- A character code that no signed word of 32 bits holds. -/
  | hugeCode (code : Nat)
  /-- A diagram of another kind than a flowchart. -/
  | unsupported (diagram : Text)
  /-- Plain data without a field that must be there. -/
  | missingField (field : Text)
  /-- A value of another form than is taken here. -/
  | wrongForm
  /-- A value that is no text where a word of the notation is looked for in it. -/
  | noWord
  /-- A value that is no record where fields are looked for in it. -/
  | noRecord
  /-- A style field that does not exist. -/
  | unknownStyle (field : Text)
  /-- A value, as a literal, that is no member of a closed set. -/
  | notAmong (literal : Text) (choice : Choice)
  /-- An id that is taken. -/
  | duplicateId (kind : Kind) (id : Text)
  /-- A node that is named but does not exist. -/
  | missingNode (role : Role) (id : Text)
  /-- An edge whose own end does not exist, met while its other fields change. -/
  | danglingEnd (role : Role)
  /-- A subgraph that is named but does not exist. -/
  | missingSubgraph (id : Text)
  /-- A parent that would make the subgraph enclose itself. -/
  | subgraphCycle (id parent : Text)
  /-- Fields that the kind does not have. -/
  | unknownFields (kind : Kind) (fields : List Text)
  /-- A change of an id. -/
  | fixedId (kind : Kind) (id : Text)
  /-- A direction that is none of the known ones. -/
  | unknownDirection (given : Text)
  /-- A listed member that does not exist, met while members are moved. -/
  | lostNode (id : Text)
  /-- A subgraph that went missing, met while members are moved or after delivery. -/
  | lostSubgraph (id : Text)
  /-- A node with the null value for its id, met in a graph. -/
  | namelessVertex
  /-- A number that no binary fraction of double precision comes near. -/
  | numberTooLarge
  /-- More characters than can be counted. -/
  | uncountable
  /-- A run of more characters than there is room for. -/
  | noRoom
  /-- The name of a file with a character that no name can have. -/
  | badName (path : Text)
  /-- A history that could hold nothing. -/
  | historyLimit (given : Text)
  /-- A history that could hold more than a machine can address. -/
  | hugeHistory
  /-- A listener that failed on an event. -/
  | listenerFailed
  /-- A receiver of text that failed. -/
  | receiverFailed
  deriving DecidableEq, Repr

/-- The wording of an error, if it has one. -/
def Error.message? : Error → Option Text
  | .badNumeral | .noCharacter _ | .hugeCode _ | .missingField _ | .wrongForm | .noWord
  | .noRecord | .unknownStyle _ | .danglingEnd _ | .lostNode _ | .lostSubgraph _
  | .namelessVertex | .numberTooLarge | .uncountable | .noRoom | .badName _ | .hugeHistory => none
  | .unsupported diagram => some ("Unsupported diagram type: ".toList ++ diagram)
  | .notAmong literal choice => some (literal ++ " is not a valid ".toList ++ choice.title)
  | .duplicateId kind id =>
    some (kind.title ++ " with id \"".toList ++ id ++ "\" already exists".toList)
  | .missingNode role id =>
    some (role.title ++ " node \"".toList ++ id ++ "\" does not exist".toList)
  | .missingSubgraph id =>
    some ("subgraph \"".toList ++ id ++ "\" does not exist".toList)
  | .subgraphCycle id parent =>
    some ("subgraph \"".toList ++ id ++ "\" cannot be nested under \"".toList ++ parent ++
      "\": parents would cycle".toList)
  | .unknownFields kind fields =>
    some (kind.title ++ " has no field(s): ".toList ++ Text.join ", " fields)
  | .fixedId kind id =>
    some ("cannot change the id of ".toList ++ kind.word ++ " \"".toList ++ id ++ ['"'])
  | .unknownDirection given =>
    some ("unknown direction '".toList ++ given ++ "'; use TB, TD, BT, LR or RL".toList)
  | .historyLimit given =>
    some ("history limit must be at least 1, got ".toList ++ given)
  | .listenerFailed => some "listener failed"
  | .receiverFailed => some "callback failed"

end Flowchart
