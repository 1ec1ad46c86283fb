import Flowchart.CommandLine.Surroundings
import Flowchart.Keyed

/-! Imagined surroundings: a working folder whose files and folders are written down, with
what comes in and what has gone out. A path is followed step by step, and every step but the
last must lead to a folder. It may lead out of the working folder; there are folders out
there, but nothing is known of what they hold, so nothing is found in them and whatever is
written there is lost. The null device is always there; it is an empty file that loses what is
written to it. -/
namespace Flowchart.CommandLine

/-- A working folder with its inputs and outputs. Files and folders go by their steps from
it, joined by slashes. -/
structure Folder where
  files : List (Text × Text) := []
  folders : List Text := []
  stdin : Text := []
  stdout : Text := []
  stderr : Text := []
  deriving DecidableEq, Repr

/-- Where a path has led so far. -/
inductive Place where
  /-- To these steps from the working folder. -/
  | inside (steps : List Text)
  /-- To a folder out of which the working folder can be reached. -/
  | outside
  /-- To something in such a folder. -/
  | unknown
  deriving DecidableEq, Repr

/-- The place that a step from a folder leads to. -/
def Place.go (place : Place) (step : Text) : Place :=
  match place with
  | .inside steps =>
    if step = ['.'] then .inside steps
    else if step = ['.', '.'] then if steps.isEmpty then .outside else .inside steps.dropLast
    else .inside (steps ++ [step])
  | .outside => if step = ['.'] || step = ['.', '.'] then .outside else .unknown
  | .unknown => .unknown

/-- The number of bytes that a text is stored in. -/
def byteLength (t : Text) : Nat := t.foldl (fun n c => n + c.utf8Size) 0

/-- The most bytes that a path may have. -/
def pathLimit : Nat := 4095

/-- The most bytes that a step of a path may have. -/
def stepLimit : Nat := 255

namespace Folder

/-- The steps of a path. -/
def steps (path : Text) : List Text := (Text.pieces '/' path).filter fun step => !step.isEmpty

/-- Steps joined to a path again. -/
def ofSteps (steps : List Text) : Text := Text.join ['/'] steps

/-- Where a path begins. -/
def start (path : Text) : Place := if path.head? = some '/' then .outside else .inside []

/-- Does a path demand a folder by its end? -/
def endsInSlash (path : Text) : Bool := path.getLast? == some '/'

/-- The path of the null device. -/
def nullDevice : Text := "/dev/null"

/-- What is found at a place. -/
inductive Entry where
  | folder
  | file (content : Text)
  deriving DecidableEq, Repr

/-- Does something lie in the folder at some steps? -/
def holds (f : Folder) (steps : List Text) : Bool :=
  (f.files.map (·.1) ++ f.folders).any fun path => (ofSteps steps ++ ['/']).isPrefixOf path

/-- What is at a place. -/
def entry? (f : Folder) : Place → Option Entry
  | .inside steps =>
    if steps.isEmpty || ofSteps steps ∈ f.folders || f.holds steps then some .folder
    else (Keyed.find? (ofSteps steps) f.files).map fun file => .file file.2
  | .outside => some .folder
  | .unknown => none

/-- Why a step from a place cannot be taken. -/
def obstacle? (f : Folder) (place : Place) (step : Text) : Option FileError :=
  match f.entry? place with
  | none => some .missing
  | some (.file _) => some .notFolder
  | some .folder => if stepLimit < byteLength step then some .tooLong else none

/-- Follows steps from a place. -/
def follow (f : Folder) (place : Place) : List Text → Except FileError Place
  | [] => .ok place
  | step :: steps => match f.obstacle? place step with
    | some e => .error e
    | none => f.follow (place.go step) steps

/-- What is at a path, or why nothing is. -/
def find (f : Folder) (path : Text) : Except FileError Entry := do
  if path = nullDevice then return .file []
  if path.isEmpty then throw .missing
  if pathLimit < byteLength path then throw .tooLong
  match f.entry? (← f.follow (start path) (steps path)) with
  | none => throw .missing
  | some (.file content) => if endsInSlash path then throw .notFolder else return .file content
  | some .folder => return .folder

/-- The content of the file at a path. -/
def read (f : Folder) (path : Text) : Except FileError Text := do
  match ← f.find path with
  | .file content => return content
  | .folder => throw .isFolder

/-- The folder with a content for the file at a place. -/
def put (f : Folder) (place : Place) (content : Text) : Folder :=
  match place with
  | .inside steps => { f with files := Keyed.put (ofSteps steps, content) f.files }
  | _ => f

/-- The folder with a content for the file at a path. The file need not exist, but the
folder around it must. A path that says it leads to a folder does so, whatever is there. -/
def write (f : Folder) (path content : Text) : Except FileError Folder := do
  if path = nullDevice then return f
  if path.isEmpty then throw .missing
  if pathLimit < byteLength path then throw .tooLong
  match (steps path).getLast? with
  | none => throw .isFolder
  | some last =>
    let around ← f.follow (start path) (steps path).dropLast
    match f.entry? around with
    | none => throw .missing
    | some (.file _) => throw .notFolder
    | some .folder =>
      if endsInSlash path || last = ['.'] || last = ['.', '.'] then throw .isFolder
      if stepLimit < byteLength last then throw .tooLong
      match f.entry? (around.go last) with
      | some .folder => throw .isFolder
      | _ => return f.put (around.go last) content

/-- The files that lie in the folder itself, by name. -/
def plainFiles (f : Folder) : List (Text × Text) :=
  (f.files.filter fun file => !file.1.contains '/').mergeSort fun a b => Text.isUpTo a.1 b.1

end Folder

instance : Surroundings (StateM Folder) where
  present path := return ((← get).find path).isOk
  read path := return (← get).read path
  write path content := do
    match (← get).write path content with
    | .ok folder =>
      set folder
      return .ok ()
    | .error e => return .error e
  input := return (← get).stdin
  print text := modify fun f => { f with stdout := f.stdout ++ text }
  complain text := modify fun f => { f with stderr := f.stderr ++ text }

end Flowchart.CommandLine
