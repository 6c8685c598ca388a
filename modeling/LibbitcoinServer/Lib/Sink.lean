import Mathlib.Tactic

/-! # Writes into a sized buffer

A sink is a buffer of fixed size with the position of the next write.  A write that does
not fit is refused.  What was never written keeps what the buffer was filled with.
-/

structure Sink (Element : Type) where
  buffer : List Element
  position : Nat

namespace Sink

variable {Element : Type}

def write (sink : Sink Element) (values : List Element) : Option (Sink Element) :=
  if sink.position + values.length ≤ sink.buffer.length then
    some {
      buffer := sink.buffer.take sink.position ++ values ++
        sink.buffer.drop (sink.position + values.length)
      position := sink.position + values.length }
  else none

/-- A sink after some writes, with room left that still holds the filler. -/
def written (values : List Element) (room : Nat) (filler : Element) : Sink Element :=
  ⟨values ++ List.replicate room filler, values.length⟩

theorem write_written {values more : List Element} {room : Nat} {filler : Element}
    (fits : more.length ≤ room) :
    (written values room filler).write more =
      some (written (values ++ more) (room - more.length) filler) := by
  have inside : values.length + more.length ≤ (values ++ List.replicate room filler).length := by
    rw [List.length_append, List.length_replicate]
    omega
  have rest : (values ++ List.replicate room filler).drop (values.length + more.length) =
      List.replicate (room - more.length) filler := by
    rw [List.drop_append, List.drop_eq_nil_of_le (Nat.le_add_right _ _), List.nil_append,
      Nat.add_sub_cancel_left, List.drop_replicate]
  rw [write, written]
  dsimp only
  rw [if_pos inside, List.take_left, rest, written, List.length_append]

end Sink
