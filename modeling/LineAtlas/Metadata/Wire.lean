import LineAtlas.Metadata.Error

/-!
# The wire format of messages

A message is a sequence of fields. Each has a number and a form: a variable-length number,
a run of bytes with its length in front, or a value of fixed width. Numbers are read as
32-bit signed integers.
-/

namespace LineAtlas.Metadata.Wire

/-- The form of a field. -/
inductive Form where
  /-- A variable-length number. -/
  | varint
  /-- Bytes with their length in front. -/
  | bytes
  /-- A given number of bytes. -/
  | fixed (width : Nat)
  deriving DecidableEq, Repr

/-- The form that a code names. -/
def Form.ofCode (code : Nat) : Except Malformed Form :=
  match code with
  | 0 => .ok .varint
  | 1 => .ok (.fixed 8)
  | 2 => .ok .bytes
  | 5 => .ok (.fixed 4)
  | code => .error (.wire (.wireType code))

/-- The value of a field. The contents of fixed-width fields are not needed. -/
inductive FieldValue where
  /-- A number below 2^64. -/
  | varint (value : Nat)
  /-- Bytes. -/
  | bytes (value : List UInt8)
  /-- A value of fixed width. -/
  | fixed
  deriving DecidableEq, Repr

/-- A field of a message. -/
structure Field where
  /-- Number of the field. -/
  number : Nat
  /-- Value of the field. -/
  value : FieldValue
  deriving DecidableEq, Repr

/-- A variable-length number of at most the given number of bytes, and the bytes after it. -/
def varintWithin : Nat → List UInt8 → Except Malformed (Nat × List UInt8)
  | 0, _ => .error (.wire .longVarint)
  | _ + 1, [] => .error (.wire .truncatedVarint)
  | count + 1, byte :: rest =>
    if byte.toNat < 128 then .ok (byte.toNat, rest)
    else
      match varintWithin count rest with
      | .ok (high, rest) => .ok (byte.toNat - 128 + 128 * high, rest)
      | .error cause => .error cause

/-- A variable-length number: at most ten bytes, of which the low 64 bits count. -/
def varint (bytes : List UInt8) : Except Malformed (Nat × List UInt8) :=
  match varintWithin 10 bytes with
  | .ok (value, rest) => .ok (value % UInt64.size, rest)
  | .error cause => .error cause

/-- The low 32 bits of a number as a signed integer. -/
def int32 (value : Nat) : Int := Int.bmod value UInt32.size

/-- Bytes with their length in front, and the bytes after them. -/
def delimited (bytes : List UInt8) : Except Malformed (List UInt8 × List UInt8) :=
  match varint bytes with
  | .ok (length, rest) =>
    let taken := rest.take length
    if taken.length = length then .ok (taken, rest.drop length)
    else .error (.wire .truncatedBytes)
  | .error cause => .error cause

/-- The number and form in front of a field. -/
def key (bytes : List UInt8) : Except Malformed ((Nat × Form) × List UInt8) :=
  match varint bytes with
  | .error cause => .error cause
  | .ok (code, rest) =>
    if code / 8 ≥ UInt32.size then .error (.wire .fieldOutOfRange)
    else if code / 8 = 0 then .error (.wire .fieldZero)
    else
      match Form.ofCode (code % 8) with
      | .ok form => .ok ((code / 8, form), rest)
      | .error cause => .error cause

/-- A value of a given form, and the bytes after it. -/
def valueOf (form : Form) (bytes : List UInt8) :
    Except Malformed (FieldValue × List UInt8) :=
  match form with
  | .varint =>
    match varint bytes with
    | .ok (value, rest) => .ok (.varint value, rest)
    | .error cause => .error cause
  | .bytes =>
    match delimited bytes with
    | .ok (value, rest) => .ok (.bytes value, rest)
    | .error cause => .error cause
  | .fixed width =>
    if (bytes.take width).length = width then .ok (.fixed, bytes.drop width)
    else .error (.wire .truncatedFixed)

/-- How the value of a field is read, by the number and the form in front of it. -/
abbrev FormRule := Nat → Form → Except Malformed Form

/-- Every field has the form that stands in front of it. -/
def asWritten : FormRule := fun _ form => .ok form

/-- One field, and the bytes after it. -/
def fieldBy (rule : FormRule) (bytes : List UInt8) :
    Except Malformed (Field × List UInt8) :=
  match key bytes with
  | .error cause => .error cause
  | .ok ((number, form), rest) =>
    match rule number form with
    | .error cause => .error cause
    | .ok form =>
      match valueOf form rest with
      | .ok (value, rest) => .ok (⟨number, value⟩, rest)
      | .error cause => .error cause

/-- A varint consumes at least one byte. -/
theorem varintWithin_length {count value : Nat} {bytes rest : List UInt8}
    (hread : varintWithin count bytes = .ok (value, rest)) : rest.length < bytes.length := by
  induction count generalizing value bytes with
  | zero => simp [varintWithin] at hread
  | succ count ih =>
    cases bytes with
    | nil => simp [varintWithin] at hread
    | cons byte tail =>
      unfold varintWithin at hread
      split at hread
      · simp_all
      · split at hread
        · next hinner =>
          simp only [Except.ok.injEq, Prod.mk.injEq] at hread
          obtain ⟨-, rfl⟩ := hread
          have := ih hinner
          simp only [List.length_cons]
          omega
        · simp at hread

/-- Reading a number consumes bytes. -/
theorem varint_length {value : Nat} {bytes rest : List UInt8}
    (hread : varint bytes = .ok (value, rest)) : rest.length < bytes.length := by
  unfold varint at hread
  split at hread
  · next hinner =>
    have := varintWithin_length hinner
    simp_all
  · simp at hread

/-- A value never gives bytes back, so a message is read in finitely many fields. -/
theorem valueOf_length {form : Form} {value : FieldValue} {bytes rest : List UInt8}
    (hread : valueOf form bytes = .ok (value, rest)) : rest.length ≤ bytes.length := by
  unfold valueOf at hread
  split at hread
  · split at hread
    · next hinner =>
      have := varint_length hinner
      simp only [Except.ok.injEq, Prod.mk.injEq] at hread
      rw [← hread.2]
      omega
    · simp at hread
  · split at hread
    · next hinner =>
      unfold delimited at hinner
      split at hinner
      · next hlength =>
        have := varint_length hlength
        simp only at hinner
        split at hinner
        · simp only [Except.ok.injEq, Prod.mk.injEq] at hread hinner
          rw [← hread.2, ← hinner.2, List.length_drop]
          omega
        · simp at hinner
      · simp at hinner
    · simp at hread
  · split at hread
    · simp only [Except.ok.injEq, Prod.mk.injEq] at hread
      rw [← hread.2, List.length_drop]
      omega
    · simp at hread

/-- Reading a field consumes bytes. -/
theorem fieldBy_length {rule : FormRule} {field : Field} {bytes rest : List UInt8}
    (hread : fieldBy rule bytes = .ok (field, rest)) : rest.length < bytes.length := by
  unfold fieldBy at hread
  split at hread
  · simp at hread
  · next hkey =>
    split at hread
    · simp at hread
    · split at hread
      · next hvalue =>
        have := valueOf_length hvalue
        unfold key at hkey
        split at hkey
        · simp at hkey
        · next hcode =>
          have := varint_length hcode
          split at hkey
          · simp at hkey
          · split at hkey
            · simp at hkey
            · (split at hkey <;> simp_all)
              omega
      · simp at hread

/-- Reads fields to the end of the bytes and folds them into a state as they come. -/
def foldFields {σ : Type} (rule : FormRule) (step : σ → Field → Except Malformed σ)
    (state : σ) (bytes : List UInt8) : Except Malformed σ :=
  match bytes with
  | [] => .ok state
  | byte :: tail =>
    match _hread : fieldBy rule (byte :: tail) with
    | .error cause => .error cause
    | .ok (field, rest) =>
      match step state field with
      | .error cause => .error cause
      | .ok state => foldFields rule step state rest
termination_by bytes.length
decreasing_by exact fieldBy_length _hread

/-- Numbers written one after the other to the end of the bytes. -/
def packed (bytes : List UInt8) : Except Malformed (List Int) :=
  match bytes with
  | [] => .ok []
  | byte :: tail =>
    match _hread : varint (byte :: tail) with
    | .error cause => .error cause
    | .ok (value, rest) =>
      match packed rest with
      | .ok values => .ok (int32 value :: values)
      | .error cause => .error cause
termination_by bytes.length
decreasing_by exact varint_length _hread

/-- A message with the name of its kind. -/
structure Message where
  /-- Name of the kind, for reports of missing fields. -/
  kind : String
  /-- Fields in order. -/
  fields : List Field
  deriving DecidableEq, Repr

namespace Message

/-- The message that bytes spell. -/
def ofBytes (kind : String) (bytes : List UInt8) : Except Malformed Message :=
  match foldFields asWritten (fun fields field => .ok (field :: fields)) [] bytes with
  | .ok fields => .ok ⟨kind, fields.reverse⟩
  | .error cause => .error cause

/-- The number in a field, when it is the field asked for. -/
def numberIn? (number : Nat) (field : Field) : Option Int :=
  match field.value with
  | .varint value => if field.number = number then some (int32 value) else none
  | _ => none

/-- The bytes in a field, when it is the field asked for. -/
def bytesIn? (number : Nat) (field : Field) : Option (List UInt8) :=
  match field.value with
  | .bytes value => if field.number = number then some value else none
  | _ => none

/-- The last number written for a field. -/
def int? (m : Message) (number : Nat) : Option Int :=
  (m.fields.filterMap (numberIn? number)).getLast?

/-- The last number written for a field that must be there. -/
def int (m : Message) (number : Nat) : Except Malformed Int :=
  match m.int? number with
  | some value => .ok value
  | none => .error (.missingField m.kind number)

/-- Whether the last number written for a field is not zero. -/
def flag (m : Message) (number : Nat) : Bool := (m.int? number).any (· != 0)

/-- The numbers in a field, written singly or packed, when it is the field asked for. -/
def intsIn (number : Nat) (field : Field) : Except Malformed (List Int) :=
  if field.number = number then
    match field.value with
    | .varint value => .ok [int32 value]
    | .bytes value => packed value
    | .fixed => .ok []
  else .ok []

/-- All numbers written for a field. -/
def ints (m : Message) (number : Nat) : Except Malformed (List Int) :=
  List.flatten <$> m.fields.mapM (intsIn number)

/-- All messages written for a field, as bytes. -/
def messages (m : Message) (number : Nat) : List (List UInt8) :=
  m.fields.filterMap (bytesIn? number)

/-- The last message written for a field, as bytes. -/
def message? (m : Message) (number : Nat) : Option (List UInt8) :=
  (m.messages number).getLast?

end Message

end LineAtlas.Metadata.Wire
