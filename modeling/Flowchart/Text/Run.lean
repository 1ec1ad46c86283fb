import Flowchart.Error

/-! Numbers of characters, and runs of one character. A number has to be counted by a signed
word of 64 bits; a run is as long as it is asked to be, but there has to be room for it. -/
namespace Flowchart

/-- The least number that cannot be counted. -/
def countLimit : Int := Nat.pow 2 63

/-- The least length of a run that there is no room for. -/
def roomLimit : Int := Nat.pow 2 32

/-- Refuses a number of characters that cannot be counted. -/
def checkCount (n : Int) : Except Error Unit :=
  if n < -countLimit || countLimit ≤ n then .error .uncountable else .ok ()

/-- Refuses a run that is too long. -/
def checkRun (length : Int) : Except Error Unit :=
  if countLimit ≤ length then .error .uncountable
  else if roomLimit ≤ length then .error .noRoom
  else .ok ()

/-- A run of a character. A length below zero counts as zero. -/
def Text.run (c : Char) (length : Int) : Except Error Text := do
  checkRun length
  return List.replicate length.toNat c

end Flowchart
