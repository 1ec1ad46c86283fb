import Flowchart.Operator

/-! Ids of edges that were given none. The id is a hash of what the edge says, so the same
edge always gets the same id; equal edges are told apart by a number. -/
namespace Flowchart.EdgeId

/-- One step of the hash: times 33, with the character mixed in, within 32 bits. -/
def mix (h : Nat) (c : Char) : Nat := ((h * 33) ^^^ c.toNat) % Nat.pow 2 32

/-- The hash of a text. -/
def hash (s : Text) : Nat := s.foldl mix 5381

/-- The id of an edge by its content. -/
def ofContent (source target symbols : Text) (label : Option Text) (stroke : Stroke)
    (start finish : Tip) : Text :=
  let content := Text.join "|"
    [source, target, symbols, label.getD [], stroke.name, start.name, finish.name]
  "edge-".toList ++ Nat.toDigits 16 (hash content)

/-- The id with a number that tells it from its equals. -/
def numbered (base : Text) (n : Nat) : Text := base ++ "-dup".toList ++ Text.ofNat n

/-- The first numbered id from `n` on that is free. An id that turns out to be taken is not
looked for again, so the taken ids run out. -/
def firstFree (base : Text) (taken : List Text) (n : Nat) : Text :=
  if h : numbered base n ∈ taken then firstFree base (taken.erase (numbered base n)) (n + 1)
  else numbered base n
termination_by taken.length
decreasing_by
  have := List.length_pos_of_mem h
  rw [List.length_erase_of_mem h]
  omega

/-- The id itself if it is free, or else the first free numbered one. -/
def distinct (base : Text) (taken : List Text) : Text :=
  if base ∈ taken then firstFree base taken 1 else base

end Flowchart.EdgeId
