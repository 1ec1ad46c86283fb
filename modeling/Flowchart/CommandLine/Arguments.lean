import Flowchart.Text

/-! The arguments of a command line. A flag has a long name after two dashes and a letter
after one; letters may stand together after one dash. A flag that takes a value takes what
follows its letter or the equals sign after its name, and otherwise the next argument,
whatever that looks like. After two lone dashes nothing is a flag, and a single dash never
is. Everything else is an operand. -/
namespace Flowchart.CommandLine

/-- The flags. -/
inductive Flag where
  | format | direction | indent | output | verbose
  deriving DecidableEq, Repr

namespace Flag

/-- All flags. -/
def all : List Flag := [.format, .direction, .indent, .output, .verbose]

/-- The long name of a flag. -/
def name : Flag → Text
  | .format => "format"
  | .direction => "direction"
  | .indent => "indent"
  | .output => "output"
  | .verbose => "verbose"

/-- The letter of a flag. -/
def letter : Flag → Char
  | .format => 'f'
  | .direction => 'd'
  | .indent => 'i'
  | .output => 'o'
  | .verbose => 'v'

/-- Does the flag take a value? -/
def takesValue : Flag → Bool
  | .verbose => false
  | _ => true

/-- The flag with a long name. -/
def ofName? (t : Text) : Option Flag := all.find? fun f => f.name == t

/-- The flag with a letter. -/
def ofLetter? (c : Char) : Option Flag := all.find? fun f => f.letter == c

end Flag

/-- What a command line says: the values of flags in order, and the operands. A flag that
takes no value is given an empty one. -/
structure Arguments where
  settings : List (Flag × Text) := []
  operands : List Text := []
  deriving DecidableEq, Repr

/-- What the next argument can be. -/
inductive Expecting where
  | anything
  | value (f : Flag)
  | operand
  deriving DecidableEq, Repr

namespace Arguments

/-- One more value of a flag. -/
def set (a : Arguments) (f : Flag) (v : Text) : Arguments :=
  { a with settings := a.settings ++ [(f, v)] }

/-- One more operand. -/
def addOperand (a : Arguments) (t : Text) : Arguments := { a with operands := a.operands ++ [t] }

/-- Reads letters that stand together. -/
def readLetters? (a : Arguments) : Text → Option (Arguments × Expecting)
  | [] => some (a, .anything)
  | c :: rest => match Flag.ofLetter? c with
    | none => none
    | some f =>
      if f.takesValue then
        if rest.isEmpty then some (a, .value f) else some (a.set f rest, .anything)
      else readLetters? (a.set f []) rest

/-- Reads what follows two dashes. -/
def readName? (a : Arguments) (t : Text) : Option (Arguments × Expecting) :=
  let (name, value) := match Text.halves? '=' t with
    | some (name, value) => (name, some value)
    | none => (t, none)
  match Flag.ofName? name with
  | none => none
  | some f => match f.takesValue, value with
    | true, some v => some (a.set f v, .anything)
    | true, none => some (a, .value f)
    | false, none => some (a.set f [], .anything)
    | false, some _ => none

/-- Reads one argument. -/
def readOne? (a : Arguments) : Expecting → Text → Option (Arguments × Expecting)
  | .value f, t => some (a.set f t, .anything)
  | .operand, t => some (a.addOperand t, .operand)
  | .anything, ['-', '-'] => some (a, .operand)
  | .anything, '-' :: '-' :: t => a.readName? t
  | .anything, '-' :: c :: t => a.readLetters? (c :: t)
  | .anything, t => some (a.addOperand t, .anything)

/-- Reads arguments in order. A value that is still expected at the end is missing. -/
def readAll? (a : Arguments) : Expecting → List Text → Option Arguments
  | .value _, [] => none
  | _, [] => some a
  | e, t :: ts => match a.readOne? e t with
    | none => none
    | some (a, e) => readAll? a e ts

/-- Reads a command line. -/
def read? (args : List Text) : Option Arguments := readAll? {} .anything args

/-- The value that a flag was given last. -/
def last? (a : Arguments) (f : Flag) : Option Text :=
  (a.settings.reverse.find? fun s => s.1 == f).map (·.2)

end Arguments
end Flowchart.CommandLine
