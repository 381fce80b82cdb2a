import ByteTemplate.Error
import ByteTemplate.Value

/-!
# Read cursor

A position in a byte string.  Positions are integers: reading a negative number of bytes moves
back, also to before the start, and a negative position counts from the end of the data.  The errors
take the numbers they name for ones that can be shown.
-/

namespace ByteTemplate

structure Cursor where
  data : Bytes
  position : Int := 0
  deriving DecidableEq, Repr

namespace Cursor

def remaining (c : Cursor) : Int :=
  c.data.length - c.position

/-- The index in the data that a position stands for. -/
def index (c : Cursor) (position : Int) : Nat :=
  if position < 0 then (c.data.length + position).toNat
  else min position.toNat c.data.length

def slice (c : Cursor) (start stop : Int) : Bytes :=
  (c.data.take (c.index stop)).drop (c.index start)

def unread (c : Cursor) : Bytes :=
  c.data.drop (c.index c.position)

/-- Up to `size` bytes, or all that is unread for a negative size. -/
def peek (c : Cursor) (size : Int) : Bytes :=
  if size < 0 then c.unread else c.slice c.position (c.position + size)

def advance (c : Cursor) (count : Int) : Except Error Cursor :=
  if count < 0 ∨ c.remaining < count then .error (.advanceOutOfRange count c.remaining)
  else .ok { c with position := c.position + count }

def read (c : Cursor) (size : Int) : Except Error (Bytes × Cursor) :=
  if c.remaining < size then .error (.readOutOfRange size c.remaining)
  else .ok (c.peek size, { c with position := c.position + size })

end Cursor

end ByteTemplate
