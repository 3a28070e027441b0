import Mathlib.Data.List.Basic
import LineAtlas.Metadata.Wire
import LineAtlas.Proofs.Except

/-!
# Fields one after the other

What is read from the front of bytes is read from them whatever follows. So a message whose bytes
begin with those of some fields has these fields, and then whatever its other bytes spell; where
they spell nothing the message is refused for their fault. What is asked for by a number depends
only on the fields with that number.
-/

namespace LineAtlas.Metadata.Wire

section Front

variable {bytes rest : List UInt8}

/-- Reading a varint of limited length does not look at what follows. -/
theorem varintWithin_append {count value : Nat} (h : varintWithin count bytes = .ok (value, rest))
    (more : List UInt8) : varintWithin count (bytes ++ more) = .ok (value, rest ++ more) := by
  induction count generalizing bytes value with
  | zero => simp [varintWithin] at h
  | succ count ih =>
    cases bytes with
    | nil => simp [varintWithin] at h
    | cons byte tail =>
      rw [varintWithin] at h
      rw [List.cons_append, varintWithin]
      split at h
      · next hlast =>
        obtain ⟨rfl, rfl⟩ := Prod.mk.inj (Except.ok.inj h)
        rw [if_pos hlast]
      · next hlast =>
        rw [if_neg hlast]
        split at h
        · next high after hhigh =>
          obtain ⟨rfl, rfl⟩ := Prod.mk.inj (Except.ok.inj h)
          rw [ih hhigh]
        · simp at h

/-- Reading a varint does not look at what follows. -/
theorem varint_append {value : Nat} (h : varint bytes = .ok (value, rest)) (more : List UInt8) :
    varint (bytes ++ more) = .ok (value, rest ++ more) := by
  rw [varint] at h ⊢
  split at h
  · next hwithin =>
    obtain ⟨rfl, rfl⟩ := Prod.mk.inj (Except.ok.inj h)
    rw [varintWithin_append hwithin]
  · simp at h

/-- Reading delimited bytes does not look at what follows. -/
theorem delimited_append {body : List UInt8} (h : delimited bytes = .ok (body, rest))
    (more : List UInt8) : delimited (bytes ++ more) = .ok (body, rest ++ more) := by
  rw [delimited] at h ⊢
  split at h
  · next length after hlength =>
    dsimp only at h
    split at h
    · next htaken =>
      obtain ⟨rfl, rfl⟩ := Prod.mk.inj (Except.ok.inj h)
      have hle : length ≤ after.length := by
        rw [List.length_take] at htaken
        omega
      rw [varint_append hlength]
      dsimp only
      rw [List.take_append_of_le_length hle, List.drop_append_of_le_length hle, if_pos htaken]
    · simp at h
  · simp at h

/-- Reading the key of a field does not look at what follows. -/
theorem key_append {found : Nat × Form} (h : key bytes = .ok (found, rest)) (more : List UInt8) :
    key (bytes ++ more) = .ok (found, rest ++ more) := by
  rw [key] at h ⊢
  split at h
  · simp at h
  · next code after hcode =>
    rw [varint_append hcode]
    dsimp only
    split at h
    · simp at h
    · next hlarge =>
      rw [if_neg hlarge]
      split at h
      · simp at h
      · next hzero =>
        rw [if_neg hzero]
        split at h
        · obtain ⟨rfl, rfl⟩ := Prod.mk.inj (Except.ok.inj h)
          rfl
        · simp at h

/-- Reading the value of a field does not look at what follows. -/
theorem valueOf_append {form : Form} {value : FieldValue}
    (h : valueOf form bytes = .ok (value, rest)) (more : List UInt8) :
    valueOf form (bytes ++ more) = .ok (value, rest ++ more) := by
  cases form with
  | varint =>
    rw [valueOf] at h ⊢
    split at h
    · next hread =>
      obtain ⟨rfl, rfl⟩ := Prod.mk.inj (Except.ok.inj h)
      rw [varint_append hread]
    · simp at h
  | bytes =>
    rw [valueOf] at h ⊢
    split at h
    · next hread =>
      obtain ⟨rfl, rfl⟩ := Prod.mk.inj (Except.ok.inj h)
      rw [delimited_append hread]
    · simp at h
  | fixed width =>
    rw [valueOf] at h ⊢
    split at h
    · next htaken =>
      obtain ⟨rfl, rfl⟩ := Prod.mk.inj (Except.ok.inj h)
      have hle : width ≤ bytes.length := by
        rw [List.length_take] at htaken
        omega
      rw [List.take_append_of_le_length hle, List.drop_append_of_le_length hle, if_pos htaken]
    · simp at h

/-- A field is read from the front of bytes whatever follows it. -/
theorem fieldBy_append {rule : FormRule} {field : Field}
    (h : fieldBy rule bytes = .ok (field, rest)) (more : List UInt8) :
    fieldBy rule (bytes ++ more) = .ok (field, rest ++ more) := by
  rw [fieldBy] at h ⊢
  split at h
  · simp at h
  · next number form after hkey =>
    rw [key_append hkey]
    dsimp only
    split at h
    · simp at h
    · split at h
      · next hvalue =>
        obtain ⟨rfl, rfl⟩ := Prod.mk.inj (Except.ok.inj h)
        rw [valueOf_append hvalue]
      · simp at h

end Front

section Folds

variable {σ : Type} {rule : FormRule} {step : σ → Field → Except Malformed σ} {state : σ}
  {bytes rest : List UInt8} {field : Field} {fields : List Field}

/-- Without bytes there are no fields to work off. -/
theorem foldFields_nil : foldFields rule step state [] = .ok state := by
  rw [foldFields]

/-- A field at the front is put in, and the fold goes on behind it. -/
theorem foldFields_of_fieldBy (h : fieldBy rule bytes = .ok (field, rest)) :
    foldFields rule step state bytes
      = step state field >>= fun next => foldFields rule step next rest := by
  cases bytes with
  | nil => simp [fieldBy, key, varint, varintWithin] at h
  | cons byte tail =>
    rw [foldFields]
    split
    · next herror => simp [h] at herror
    · next hok =>
      obtain ⟨rfl, rfl⟩ := Prod.mk.inj (Except.ok.inj (h.symm.trans hok))
      cases step state field with
      | error cause => rfl
      | ok next => rfl

/-- A field that is refused is the fault of the whole message. -/
theorem foldFields_of_error {byte : UInt8} {tail : List UInt8} {cause : Malformed}
    (h : fieldBy rule (byte :: tail) = .error cause) :
    foldFields rule step state (byte :: tail) = .error cause := by
  rw [foldFields]
  split
  · next herror => rw [Except.error.inj (herror.symm.trans h)]
  · next hok => simp [h] at hok

/-- Bytes are read field by field: there are none, or they are refused, or a field is in front of
bytes that are fewer. -/
@[elab_as_elim]
theorem fieldwise (rule : FormRule) {motive : List UInt8 → Prop} (nil : motive [])
    (refused : ∀ (byte : UInt8) (tail : List UInt8) (cause : Malformed),
      fieldBy rule (byte :: tail) = .error cause → motive (byte :: tail))
    (more : ∀ (bytes : List UInt8) (field : Field) (rest : List UInt8),
      fieldBy rule bytes = .ok (field, rest) → motive rest → motive bytes)
    (bytes : List UInt8) : motive bytes := by
  induction hlength : bytes.length using Nat.strongRecOn generalizing bytes with
  | ind length ih =>
    cases bytes with
    | nil => exact nil
    | cons byte tail =>
      cases hread : fieldBy rule (byte :: tail) with
      | error cause => exact refused byte tail cause hread
      | ok read =>
        obtain ⟨field, rest⟩ := read
        have hshort : rest.length < length := hlength ▸ fieldBy_length hread
        exact more _ field rest hread (ih rest.length hshort rest rfl)

/-- Bytes spell fields, and nothing is left over. -/
inductive Spells (rule : FormRule) : List UInt8 → List Field → Prop
  /-- No bytes spell no fields. -/
  | nil : Spells rule [] []
  /-- Bytes spell the field at their front, and then what the others spell. -/
  | cons {bytes rest : List UInt8} {field : Field} {fields : List Field}
      (hread : fieldBy rule bytes = .ok (field, rest)) (hrest : Spells rule rest fields) :
      Spells rule bytes (field :: fields)

/-- Fields in front of other bytes are put in before what those spell. -/
theorem Spells.foldFields_append (h : Spells rule bytes fields) (state : σ) (more : List UInt8) :
    foldFields rule step state (bytes ++ more)
      = fields.foldlM step state >>= fun next => foldFields rule step next more := by
  induction h generalizing state with
  | nil => rfl
  | @cons bytes rest field fields hread _ ih =>
    rw [foldFields_of_fieldBy (fieldBy_append hread more), List.foldlM_cons, bind_assoc]
    congr 1
    funext next
    exact ih next

/-- Where bytes spell fields, these are worked off in order. -/
theorem Spells.foldFields_eq (h : Spells rule bytes fields) (state : σ) :
    foldFields rule step state bytes = fields.foldlM step state := by
  have hwhole : foldFields rule step state (bytes ++ [])
      = fields.foldlM step state >>= fun next => foldFields rule step next [] :=
    h.foldFields_append state []
  simp only [foldFields_nil, List.append_nil] at hwhole
  exact hwhole.trans (bind_pure _)

/-- A fold that succeeds has put in fields that the bytes spell. -/
theorem exists_spells_of_foldFields {final : σ} (h : foldFields rule step state bytes = .ok final) :
    ∃ fields, Spells rule bytes fields ∧ fields.foldlM step state = .ok final := by
  induction bytes using fieldwise rule generalizing state with
  | nil =>
    rw [foldFields_nil] at h
    exact ⟨[], .nil, h⟩
  | refused byte tail cause hread => simp [foldFields_of_error hread] at h
  | more bytes field rest hread ih =>
    rw [foldFields_of_fieldBy hread] at h
    obtain ⟨next, hnext, hrest⟩ := Except.bind_eq_ok h
    obtain ⟨fields, hspells, hfold⟩ := ih hrest
    exact ⟨field :: fields, .cons hread hspells, Except.bind_ok hnext hfold⟩

end Folds

/-- The fields that bytes spell, the last one first, in front of those that are there. -/
def gather (found : List Field) (bytes : List UInt8) : Except Malformed (List Field) :=
  foldFields asWritten (fun fields field => .ok (field :: fields)) found bytes

/-- A field that is read is put in front, and the rest is gathered. -/
theorem gather_of_fieldBy {found : List Field} {bytes rest : List UInt8} {field : Field}
    (h : fieldBy asWritten bytes = .ok (field, rest)) :
    gather found bytes = gather (field :: found) rest :=
  foldFields_of_fieldBy h

/-- A field that is refused ends gathering. -/
theorem gather_of_error {found : List Field} {byte : UInt8} {tail : List UInt8} {cause : Malformed}
    (h : fieldBy asWritten (byte :: tail) = .error cause) :
    gather found (byte :: tail) = .error cause :=
  foldFields_of_error h

/-- What is there already has no part in what else is gathered. -/
theorem gather_eq (bytes : List UInt8) (found : List Field) :
    gather found bytes = (· ++ found) <$> gather [] bytes := by
  induction bytes using fieldwise asWritten generalizing found with
  | nil =>
    rw [gather, gather, foldFields, foldFields]
    rfl
  | refused byte tail cause hread =>
    rw [gather_of_error hread, gather_of_error hread]
    rfl
  | more bytes field rest hread ih =>
    rw [gather_of_fieldBy hread, gather_of_fieldBy hread, ih (field :: found), ih [field],
      Functor.map_map]
    congr 1
    funext others
    exact (List.append_assoc others [field] found).symm

/-- The fields that bytes spell, in order. -/
def fieldsIn (bytes : List UInt8) : Except Malformed (List Field) :=
  List.reverse <$> gather [] bytes

/-- A message has the fields that its bytes spell. -/
theorem Message.ofBytes_eq (kind : String) (bytes : List UInt8) :
    Message.ofBytes kind bytes = Message.mk kind <$> fieldsIn bytes := by
  rw [Message.ofBytes, fieldsIn, gather]
  cases foldFields asWritten (fun fields field => .ok (field :: fields)) [] bytes <;> rfl

/-- A field that is read from the front comes first. -/
theorem fieldsIn_of_fieldBy {bytes rest : List UInt8} {field : Field}
    (h : fieldBy asWritten bytes = .ok (field, rest)) :
    fieldsIn bytes = (field :: ·) <$> fieldsIn rest := by
  rw [fieldsIn, fieldsIn, gather_of_fieldBy h, gather_eq, Functor.map_map, Functor.map_map]
  congr 1
  funext others
  exact List.reverse_append

/-- The bytes of a single field. -/
structure Piece where
  /-- The bytes. -/
  bytes : List UInt8
  /-- The field. -/
  field : Field
  /-- The bytes spell the field, and nothing is left. -/
  reads : fieldBy asWritten bytes = .ok (field, [])

/-- The number of the field. -/
def Piece.number (p : Piece) : Nat := p.field.number

/-- The bytes of several fields. -/
def spelled (pieces : List Piece) : List UInt8 := pieces.flatMap Piece.bytes

/-- The bytes of pieces begin with those of the first one. -/
theorem spelled_cons (p : Piece) (pieces : List Piece) :
    spelled (p :: pieces) = p.bytes ++ spelled pieces := List.flatMap_cons

/-- The bytes of pieces end with those of the last one. -/
theorem spelled_concat (front : List Piece) (p : Piece) (rest : List UInt8) :
    spelled (front ++ [p]) ++ rest = spelled front ++ (p.bytes ++ rest) := by
  simp [spelled]

/-- Fields in front of other bytes come before what those spell. -/
theorem fieldsIn_spelled (pieces : List Piece) (rest : List UInt8) :
    fieldsIn (spelled pieces ++ rest) = (pieces.map Piece.field ++ ·) <$> fieldsIn rest := by
  induction pieces with
  | nil =>
    exact (id_map (fieldsIn rest)).symm
  | cons p pieces ih =>
    have hread := fieldBy_append p.reads (spelled pieces ++ rest)
    rw [spelled_cons, List.append_assoc, fieldsIn_of_fieldBy hread, List.nil_append, ih,
      Functor.map_map]
    rfl

namespace Message

/-- The message with just the fields that have a number. -/
def only (m : Message) (number : Nat) : Message :=
  ⟨m.kind, m.fields.filter (·.number = number)⟩

/-- Dropping other fields keeps the kind of a message. -/
theorem only_kind (m : Message) (number : Nat) : (m.only number).kind = m.kind := rfl

/-- What is found in single fields with a number is found among the fields with that number. -/
theorem filterMap_only {α : Type} {number : Nat} {find : Field → Option α}
    (hfind : ∀ field, field.number ≠ number → find field = none) (m : Message) :
    (m.only number).fields.filterMap find = m.fields.filterMap find := by
  rw [only, List.filterMap_filter]
  refine List.filterMap_congr fun field _ => ?_
  by_cases h : field.number = number
  · simp [h]
  · simp [h, hfind field h]

/-- A number that may be missing depends only on the fields with its number. -/
theorem int?_only (m : Message) (number : Nat) : (m.only number).int? number = m.int? number := by
  rw [int?, int?, filterMap_only fun field hne => ?_]
  rw [numberIn?]
  split
  · rw [if_neg hne]
  · rfl

/-- The bytes for a number are those of a delimited field with that number. -/
theorem bytesIn?_eq_some_iff {number : Nat} {field : Field} {body : List UInt8} :
    bytesIn? number field = some body ↔ field = ⟨number, .bytes body⟩ := by
  obtain ⟨own, value⟩ := field
  cases value with
  | varint value => simp [bytesIn?]
  | bytes value => simp [bytesIn?]
  | fixed => simp [bytesIn?]

/-- The messages for a number depend only on the fields with it. -/
theorem messages_only (m : Message) (number : Nat) :
    (m.only number).messages number = m.messages number := by
  rw [messages, messages, filterMap_only fun field hne => ?_]
  rw [bytesIn?]
  split
  · rw [if_neg hne]
  · rfl

/-- The numbers of a list depend only on the fields with its number. -/
theorem ints_only (m : Message) (number : Nat) : (m.only number).ints number = m.ints number := by
  obtain ⟨kind, fields⟩ := m
  have hcons (field : Field) (fields : List Field) : ints ⟨kind, field :: fields⟩ number
      = intsIn number field >>= fun values => (values ++ ·) <$> ints ⟨kind, fields⟩ number := by
    rw [ints, ints, List.mapM_cons]
    cases intsIn number field with
    | error cause => rfl
    | ok values => cases fields.mapM (intsIn number) <;> rfl
  rw [only]
  induction fields with
  | nil => rfl
  | cons field fields ih =>
    dsimp only at ih ⊢
    rw [hcons]
    by_cases hnumber : field.number = number
    · rw [List.filter_cons_of_pos (by simpa using hnumber), hcons, ih]
    · have hnone : intsIn number field = .ok [] := if_neg hnumber
      rw [List.filter_cons_of_neg (by simpa using hnumber), hnone, ih]
      exact (id_map _).symm

end Message

end LineAtlas.Metadata.Wire
