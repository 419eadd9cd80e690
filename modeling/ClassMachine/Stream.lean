import ClassMachine.Bytes

/-!
Bytes that come in pieces, with an announcement of how many they are. As long as the announcement
holds, a read gets the bytes that are there. Otherwise a read loses the piece with which it goes
wrong, and nothing comes after that.
-/

namespace ClassMachine

inductive Ending
  /-- By a read after the last byte. -/
  | after
  /-- Together with the last byte. -/
  | withLast
  /-- By a read that asks for more than there is. -/
  | beyond
deriving DecidableEq

structure Stream where
  data : Bytes
  /-- The offsets at which a piece ends, whatever was asked for. -/
  breaks : List Nat := []
  announced : Option Nat := none
  ending : Ending := .after

namespace Stream

/-- Whether the bytes from an offset up to `stop` are lost when those up to `asked` were asked for:
they go over the announced length, or an end that is too early comes with them. -/
def loses (s : Stream) (stop asked : Nat) : Bool :=
  match s.announced with
  | none => false
  | some n =>
    n < stop || (stop == s.data.length && stop < n && match s.ending with
      | .after => false
      | .withLast => true
      | .beyond => stop < asked)

def pieceEnd (s : Stream) (start : Nat) : Nat :=
  (s.breaks.filter (start < ·)).foldl min s.data.length

def leastRoom : Nat := 512

/-- The size of a buffer that holds `used` bytes, after it has grown if it lacks room. -/
def bufferSize (used size : Nat) : Nat := if size < used + leastRoom then 2 * size else size

/-- How many of the `left` bytes from `start` on arrive. They are asked for a buffer at a time; it has
`size` bytes, of which `used` are in use. -/
def arrivingFrom (s : Stream) (start left used size : Nat) : Nat :=
  let size := bufferSize used size
  let asked := start + min left (size - used)
  let stop := min asked (s.pieceEnd start)
  if stop ≤ start || s.loses stop asked then 0
  else
    let n := stop - start
    n + s.arrivingFrom stop (left - n) (used + n) size
termination_by left
decreasing_by grind

def arriving (s : Stream) (start n : Nat) : Nat := s.arrivingFrom start n 0 leastRoom

/-- The length of a beginning in which every read gets what it asks for. -/
def sure (s : Stream) : Nat :=
  match s.announced with
  | none => s.data.length
  | some n =>
    if n ≤ s.data.length then n
    else match s.ending with
      | .withLast => s.data.length - 1
      | _ => s.data.length

end Stream

end ClassMachine
