import LineAtlas.ClassFile.Error

/-!
# Reading bytes in order

A reader consumes bytes from the front and counts them, so that an early end is reported at
its position. Numbers are big-endian.
-/

namespace LineAtlas.ClassFile

/-- The bytes still to be read and how many were read before them. -/
structure Cursor where
  /-- Number of bytes already read. -/
  offset : Nat
  /-- Bytes still to be read. -/
  rest : List UInt8
  deriving DecidableEq, Repr

/-- A step that consumes bytes or fails. -/
abbrev Reader := StateT Cursor (Except Malformed)

namespace Reader

/-- Fails with a cause. -/
def fail {α : Type} (cause : Malformed) : Reader α := throw cause

/-- A given number of bytes. -/
def bytes (count : Nat) : Reader (List UInt8) := fun cursor =>
  let taken := cursor.rest.take count
  if taken.length = count then .ok (taken, ⟨cursor.offset + count, cursor.rest.drop count⟩)
  else .error (.unexpectedEnd cursor.offset)

/-- The number that bytes spell, the most significant byte first. -/
def bigEndian (bytes : List UInt8) : Nat :=
  bytes.foldl (fun value byte => value * 256 + byte.toNat) 0

/-- A number of a given width in bytes. -/
def unsigned (width : Nat) : Reader Nat := bigEndian <$> bytes width

/-- A number of one byte. -/
def u1 : Reader Nat := unsigned 1

/-- A number of two bytes. -/
def u2 : Reader Nat := unsigned 2

/-- A number of four bytes. -/
def u4 : Reader Nat := unsigned 4

/-- Skips a given number of bytes. -/
def skip (count : Nat) : Reader Unit := (fun _ => ()) <$> bytes count

/-- The same step a given number of times, with all results in order. -/
def replicate {α : Type} : Nat → Reader α → Reader (List α)
  | 0, _ => pure []
  | count + 1, step => do
    let first ← step
    let others ← replicate count step
    return first :: others

/-- A step for each of as many items as the number in front says. -/
def counted {α : Type} (step : Reader α) : Reader (List α) := do
  replicate (← u2) step

/-- A step on bytes of its own, whose positions count from their start. Bytes that the step
leaves are dropped. -/
def inside {α : Type} (body : List UInt8) (step : Reader α) : Reader α := fun cursor =>
  match step.run ⟨0, body⟩ with
  | .ok (value, _) => .ok (value, cursor)
  | .error cause => .error cause

/-- Whether all bytes have been read. -/
def atEnd : Reader Bool := fun cursor => .ok (cursor.rest.isEmpty, cursor)

end Reader

end LineAtlas.ClassFile
