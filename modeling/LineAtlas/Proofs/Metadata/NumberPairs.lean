import LineAtlas.Metadata.Header
import LineAtlas.Proofs.Metadata.NameTables

/-!
# Pairs of numbers in one field and in two

A record of a name table can hold two pairs of numbers: the ends of a part of the name, and a
character with its replacement. A pair counts when both numbers stand in one field. In two fields
with a number each they are as good as not there, since each field is taken for a list of its own.
So the names that a table gives are the same for both spellings exactly when the pair changes none
of the names that its record covers.
-/

namespace LineAtlas.Metadata

open Wire

namespace NameRecord

variable {number : Nat} {first second : Int}

/-- A pair of numbers may be put in before any other number or after it. -/
theorem withNumber_withNumbers (hpair : number = 4 ∨ number = 5) (record : NameRecord)
    (other : Nat) (value : Int) :
    (record.withNumbers number [first, second]).withNumber other value
      = (·.withNumbers number [first, second]) <$> record.withNumber other value := by
  unfold withNumber
  rcases hpair with rfl | rfl
  · split
    · split <;> rfl
    · rfl
    · rfl
  · split
    · split <;> rfl
    · rfl
    · rfl

/-- A list of numbers is put in behind a pair, or takes its place. -/
theorem withNumbers_withNumbers {other : Nat} (hpair : number = 4 ∨ number = 5)
    (hother : other = 4 ∨ other = 5) (record : NameRecord) (values : List Int) :
    (record.withNumbers number [first, second]).withNumbers other values
        = record.withNumbers other values ∨
      (record.withNumbers number [first, second]).withNumbers other values
        = (record.withNumbers other values).withNumbers number [first, second] := by
  match values with
  | [] => exact Or.inr rfl
  | [_] => exact Or.inr rfl
  | _ :: _ :: _ :: _ => exact Or.inr rfl
  | [_, _] =>
    rcases hpair with rfl | rfl
    · rcases hother with rfl | rfl
      · exact Or.inl rfl
      · exact Or.inr rfl
    · rcases hother with rfl | rfl
      · exact Or.inr rfl
      · exact Or.inl rfl

/-- A field that follows a pair leaves it there or takes its place. -/
theorem withField_withNumbers (hpair : number = 4 ∨ number = 5) (record : NameRecord)
    (field : Wire.Field) :
    (record.withNumbers number [first, second]).withField field = record.withField field ∨
      (record.withNumbers number [first, second]).withField field
        = (·.withNumbers number [first, second]) <$> record.withField field := by
  have hnumbers (value : FieldValue) (hfield : field.number = 4 ∨ field.number = 5) :
      (record.withNumbers number [first, second]).withNumbers field.number <$> numbersIn value
          = record.withNumbers field.number <$> numbersIn value ∨
        (record.withNumbers number [first, second]).withNumbers field.number <$> numbersIn value
          = (·.withNumbers number [first, second]) <$> record.withNumbers field.number
            <$> numbersIn value := by
    cases numbersIn value with
    | error cause => exact Or.inl rfl
    | ok values =>
      rcases withNumbers_withNumbers hpair hfield record values with hsame | hkept
      · exact Or.inl (congrArg Except.ok hsame)
      · exact Or.inr (congrArg Except.ok hkept)
  unfold withField
  split
  · exact Or.inr (withNumber_withNumbers hpair record _ _)
  · exact Or.inr (withNumber_withNumbers hpair record _ _)
  · exact Or.inr (withNumber_withNumbers hpair record _ _)
  · next value _ _ =>
    right
    rcases hpair with rfl | rfl
    · cases textOf value <;> rfl
    · cases textOf value <;> rfl
  · next hnumber => exact hnumbers _ (Or.inl hnumber)
  · next hnumber => exact hnumbers _ (Or.inr hnumber)
  · exact Or.inr rfl

/-- Whatever follows a pair, the pair is there in the end or it does not matter. -/
theorem foldFields_withNumbers (hpair : number = 4 ∨ number = 5) (record : NameRecord)
    (bytes : List UInt8) :
    foldFields formRule withField (record.withNumbers number [first, second]) bytes
        = foldFields formRule withField record bytes ∨
      foldFields formRule withField (record.withNumbers number [first, second]) bytes
        = (·.withNumbers number [first, second])
          <$> foldFields formRule withField record bytes := by
  induction bytes using fieldwise formRule generalizing record with
  | nil =>
    right
    rw [foldFields_nil, foldFields_nil]
    rfl
  | refused byte tail cause hread =>
    left
    rw [foldFields_of_error hread, foldFields_of_error hread]
  | more bytes field rest hread ih =>
    rw [foldFields_of_fieldBy hread, foldFields_of_fieldBy hread]
    rcases withField_withNumbers hpair record field with hsame | hkept
    · left
      rw [hsame]
    · rw [hkept]
      cases record.withField field with
      | error cause => exact Or.inl rfl
      | ok next => exact ih next

/-- A field with a pair of numbers changes a record by the numbers in it. -/
theorem withField_numbers (hpair : number = 4 ∨ number = 5) (record : NameRecord)
    (value : FieldValue) :
    record.withField ⟨number, value⟩ = record.withNumbers number <$> numbersIn value := by
  rcases hpair with rfl | rfl
  · cases value <;> rfl
  · cases value <;> rfl

/-- A field with a single number of a pair is left out. -/
theorem withField_single (hpair : number = 4 ∨ number = 5) (record : NameRecord)
    {value : FieldValue} (hvalue : numbersIn value = .ok [first]) :
    record.withField ⟨number, value⟩ = .ok record := by
  rw [withField_numbers hpair, hvalue]
  rfl

/-- A field with both numbers of a pair puts the pair in. -/
theorem withField_both (hpair : number = 4 ∨ number = 5) (record : NameRecord)
    {value : FieldValue} (hvalue : numbersIn value = .ok [first, second]) :
    record.withField ⟨number, value⟩ = .ok (record.withNumbers number [first, second]) := by
  rw [withField_numbers hpair, hvalue]
  rfl

end NameRecord

/-- How a pair of numbers is written. -/
inductive PairForm where
  /-- Both numbers stand in one field. -/
  | together
  /-- The numbers stand in two fields, one after the other. -/
  | apart

/-- A record with a pair of numbers between its fields. -/
structure PairedRecord where
  /-- Number of the fields: four for the ends of a part, five for a character to replace. -/
  number : Nat
  /-- First number. -/
  first : Int
  /-- Second number. -/
  second : Int
  /-- Bytes of the fields in front of the pair. -/
  front : List UInt8
  /-- Bytes of the pair. -/
  pair : PairForm → List UInt8
  /-- Bytes behind the pair. -/
  rest : List UInt8
  /-- The numbers are the ends of a part, or a character and its replacement. -/
  isPair : number = 4 ∨ number = 5
  /-- The bytes in front spell fields. -/
  front_spells : ∃ fields, Spells NameRecord.formRule front fields
  /-- One field holds both numbers. -/
  together_spells : ∃ both, NameRecord.numbersIn both = .ok [first, second] ∧
    Spells NameRecord.formRule (pair .together) [⟨number, both⟩]
  /-- Two fields hold a number each. -/
  apart_spells : ∃ one other, NameRecord.numbersIn one = .ok [first] ∧
    NameRecord.numbersIn other = .ok [second] ∧
    Spells NameRecord.formRule (pair .apart) [⟨number, one⟩, ⟨number, other⟩]

namespace PairedRecord

variable (r : PairedRecord)

/-- The bytes of the record. -/
def bytes (form : PairForm) : List UInt8 := r.front ++ (r.pair form ++ r.rest)

/-- The bytes of the record without the pair. -/
def unpaired : List UInt8 := r.front ++ r.rest

/-- A record with the pair put in. -/
def putInto (record : NameRecord) : NameRecord :=
  record.withNumbers r.number [r.first, r.second]

/-- In two fields the pair is as good as not there. -/
theorem ofBytes_apart : NameRecord.ofBytes (r.bytes .apart) = NameRecord.ofBytes r.unpaired := by
  obtain ⟨fields, hfront⟩ := r.front_spells
  obtain ⟨one, other, hone, hother, hspells⟩ := r.apart_spells
  rw [NameRecord.ofBytes, NameRecord.ofBytes, bytes, unpaired, hfront.foldFields_append,
    hfront.foldFields_append]
  congr 1
  funext record
  rw [hspells.foldFields_append, List.foldlM_cons, NameRecord.withField_single r.isPair _ hone]
  dsimp only [bind, Except.bind]
  rw [List.foldlM_cons, NameRecord.withField_single r.isPair _ hother]
  rfl

/-- In one field the pair is put in, unless another one takes its place. -/
theorem ofBytes_together :
    NameRecord.ofBytes (r.bytes .together) = NameRecord.ofBytes r.unpaired ∨
      NameRecord.ofBytes (r.bytes .together) = r.putInto <$> NameRecord.ofBytes r.unpaired := by
  obtain ⟨fields, hfront⟩ := r.front_spells
  obtain ⟨both, hboth, hspells⟩ := r.together_spells
  rw [NameRecord.ofBytes, NameRecord.ofBytes, bytes, unpaired, hfront.foldFields_append,
    hfront.foldFields_append]
  cases fields.foldlM NameRecord.withField {} with
  | error cause => exact Or.inl rfl
  | ok record =>
    have hpair : foldFields NameRecord.formRule NameRecord.withField record
        (r.pair .together ++ r.rest)
          = foldFields NameRecord.formRule NameRecord.withField (r.putInto record) r.rest := by
      rw [hspells.foldFields_append, List.foldlM_cons, NameRecord.withField_both r.isPair _ hboth]
      rfl
    dsimp only [bind, Except.bind]
    rw [hpair]
    exact NameRecord.foldFields_withNumbers r.isPair record r.rest

/-- The pair only matters for what becomes of names. -/
theorem putInto_keeps (record : NameRecord) : (r.putInto record).range = record.range ∧
    (r.putInto record).literal = record.literal ∧
    (r.putInto record).predefined = record.predefined := by
  rw [putInto, NameRecord.withNumbers]
  split
  · exact ⟨rfl, rfl, rfl⟩
  · exact ⟨rfl, rfl, rfl⟩

/-- Either both forms of the record are refused alike, or both are read and differ at most by the
pair. -/
theorem ofBytes_cases :
    (∃ cause, ∀ form, NameRecord.ofBytes (r.bytes form) = .error cause) ∨
      ∃ paired plain, NameRecord.ofBytes (r.bytes .together) = .ok paired ∧
        NameRecord.ofBytes (r.bytes .apart) = .ok plain ∧
        (paired = plain ∨ paired = r.putInto plain) := by
  have hapart := r.ofBytes_apart
  cases hplain : NameRecord.ofBytes r.unpaired with
  | error cause =>
    left
    refine ⟨cause, fun form => ?_⟩
    cases form with
    | together =>
      rcases r.ofBytes_together with hsame | hput
      · rw [hsame, hplain]
      · rw [hput, hplain]
        rfl
    | apart => rw [hapart, hplain]
  | ok plain =>
    right
    rcases r.ofBytes_together with hsame | hput
    · exact ⟨plain, plain, hsame.trans hplain, hapart.trans hplain, Or.inl rfl⟩
    · refine ⟨r.putInto plain, plain, ?_, hapart.trans hplain, Or.inr rfl⟩
      rw [hput, hplain]
      rfl

end PairedRecord

namespace NameTable

variable {index : Int}

/-- Two tables give the same name, or the same fault, when they have the same name or none. -/
theorem get_eq_get_iff {table other : NameTable} :
    table.get index = other.get index ↔ table.get? index = other.get? index := by
  unfold get
  cases table.get? index with
  | none => cases other.get? index <;> simp
  | some name => cases other.get? index <;> simp

/-- The table with a record, as often as it covers a string, between others. -/
def holding (strings : List String) (before after : List NameRecord) (record : NameRecord) :
    NameTable :=
  ⟨strings, before ++ (List.replicate (max 1 record.range) record ++ after)⟩

variable {strings : List String} {before after : List NameRecord} {record other : NameRecord}

/-- The names that the record does not cover do not depend on it. -/
theorem get?_holding_of_outside (hrange : other.range = record.range)
    (houtside : index < before.length ∨ before.length + max 1 record.range ≤ index) :
    (holding strings before after other).get? index
      = (holding strings before after record).get? index := by
  have hitem : itemAt? (holding strings before after other).records index
      = itemAt? (holding strings before after record).records index := by
    rw [holding, holding, hrange]
    exact itemAt?_of_outside (by omega) record
  rw [get?, get?, hitem]
  rfl

/-- Those that it covers are its own. -/
theorem get?_holding_of_inside (hstart : before.length ≤ index)
    (hstop : index < before.length + max 1 record.range) :
    (holding strings before after record).get? index
      = record.adjust <$> (holding strings before after record).base? record index := by
  rw [get?, holding, itemAt?_of_inside hstart (by omega)]

/-- Two records that start from the same text give the same names just when they make the same of
that text wherever they cover it. -/
theorem get_holding_eq_iff (hrange : other.range = record.range)
    (hliteral : other.literal = record.literal)
    (hpredefined : other.predefined = record.predefined) :
    (holding strings before after other).get index = (holding strings before after record).get index
      ↔ (before.length ≤ index → index < before.length + max 1 record.range →
        ∀ name, (holding strings before after record).base? record index = some name →
          other.adjust name = record.adjust name) := by
  have hbase : (holding strings before after other).base? other index
      = (holding strings before after record).base? record index := by
    unfold base?
    rw [hliteral, hpredefined]
    rfl
  rw [get_eq_get_iff]
  by_cases hinside : before.length ≤ index ∧ index < before.length + max 1 record.range
  · obtain ⟨hstart, hstop⟩ := hinside
    rw [get?_holding_of_inside hstart (by omega), get?_holding_of_inside hstart hstop, hbase]
    cases (holding strings before after record).base? record index with
    | none => simp
    | some name =>
      constructor
      · intro hsame _ _ other hother
        obtain rfl := Option.some.inj hother
        exact Option.some.inj hsame
      · intro hsame
        exact congrArg some (hsame hstart hstop name rfl)
  · refine iff_of_true (get?_holding_of_outside hrange (by omega)) ?_
    intro hstart hstop
    exact absurd ⟨hstart, hstop⟩ hinside

/-- Whether there is a table with the record, and what else is in it, depends only on how many
strings the record covers. -/
theorem withField_foldFields_cases (strings : List String) (before : List NameRecord) (range : Nat)
    (rest : List UInt8) :
    (∃ cause, ∀ body record, NameRecord.ofBytes body = .ok record → record.range = range →
      (withField ⟨strings, before⟩ ⟨1, .bytes body⟩ >>= fun next =>
        foldFields formRule withField next rest) = .error cause) ∨
      ∃ after, ∀ body record, NameRecord.ofBytes body = .ok record → record.range = range →
        (withField ⟨strings, before⟩ ⟨1, .bytes body⟩ >>= fun next =>
          foldFields formRule withField next rest) = .ok (holding strings before after record) := by
  by_cases hfits : max 1 range ≤ strings.length - before.length
  · obtain ⟨outcome, houtcome⟩ :=
      exists_foldFields_eq strings (before.length + max 1 range) rest
    have hgoes {body : List UInt8} {record : NameRecord}
        (hrecord : NameRecord.ofBytes body = .ok record) (hrange : record.range = range) :
        (withField ⟨strings, before⟩ ⟨1, .bytes body⟩ >>= fun next =>
          foldFields formRule withField next rest)
            = (holding strings before · record) <$> outcome := by
      subst hrange
      have hcount : (before ++ List.replicate (max 1 record.range) record).length
          = before.length + max 1 record.range := by
        rw [List.length_append, List.length_replicate]
      rw [withField_of_ok rfl hrecord, left, if_pos hfits]
      refine (houtcome _ hcount).trans ?_
      congr 1
      funext after
      rw [holding, List.append_assoc]
    cases outcome with
    | error cause =>
      left
      exact ⟨cause, fun body record hrecord hrange => hgoes hrecord hrange⟩
    | ok after =>
      right
      exact ⟨after, fun body record hrecord hrange => hgoes hrecord hrange⟩
  · left
    refine ⟨.wire (.longRange (max 1 range) (strings.length - before.length)), ?_⟩
    rintro body record hrecord rfl
    rw [withField_of_ok rfl hrecord, left, if_neg hfits]
    rfl

end NameTable

/-- A message for a name table that has such a record between its fields. -/
structure PairedMessage where
  /-- The record. -/
  record : PairedRecord
  /-- Bytes of the fields in front of the record. -/
  front : List UInt8
  /-- Bytes of the field with the record. -/
  recordField : PairForm → List UInt8
  /-- Bytes behind the record. -/
  rest : List UInt8
  /-- The bytes in front spell fields. -/
  front_spells : ∃ fields, Spells NameTable.formRule front fields
  /-- In either form the record stands in one field. -/
  recordField_spells : ∀ form,
    Spells NameTable.formRule (recordField form) [⟨1, .bytes (record.bytes form)⟩]

namespace PairedMessage

variable (m : PairedMessage)

/-- The bytes of the message. -/
def bytes (form : PairForm) : List UInt8 := m.front ++ (m.recordField form ++ m.rest)

/-- What is in front of the record is read before it. -/
theorem ofBytes_cases (strings : List String) :
    (∃ cause, ∀ form, NameTable.ofBytes strings (m.bytes form) = .error cause) ∨
      ∃ before, ∀ form, NameTable.ofBytes strings (m.bytes form)
        = NameTable.withField ⟨strings, before⟩ ⟨1, .bytes (m.record.bytes form)⟩ >>= fun next =>
          foldFields NameTable.formRule NameTable.withField next m.rest := by
  obtain ⟨fields, hfront⟩ := m.front_spells
  have hread (form : PairForm) : NameTable.ofBytes strings (m.bytes form)
      = fields.foldlM NameTable.withField ⟨strings, []⟩ >>= fun table =>
        NameTable.withField table ⟨1, .bytes (m.record.bytes form)⟩ >>= fun next =>
          foldFields NameTable.formRule NameTable.withField next m.rest := by
    rw [NameTable.ofBytes, bytes, hfront.foldFields_append]
    congr 1
    funext table
    rw [(m.recordField_spells form).foldFields_append, List.foldlM_cons, bind_assoc]
    rfl
  cases hfold : fields.foldlM NameTable.withField ⟨strings, []⟩ with
  | error cause =>
    left
    refine ⟨cause, fun form => ?_⟩
    rw [hread, hfold]
    rfl
  | ok table =>
    right
    obtain ⟨records, -, rfl, -⟩ :=
      (NameTable.foldlM_withField_eq_ok_iff (Nat.zero_le _)).mp hfold
    refine ⟨expanded records, fun form => ?_⟩
    rw [hread, hfold]
    rfl

/-- In two fields a pair is as good as not there. So both forms of the message are refused for one
fault, or both have a table, with the record as it is with and without the pair put in. They give
the same for an index exactly when the pair makes no difference to the name there, if the record
covers the index and there is a text to start from. -/
theorem get_pairForms (strings : List String) :
    NameRecord.ofBytes (m.record.bytes .apart) = NameRecord.ofBytes m.record.unpaired ∧
    ((∃ cause, ∀ form, NameTable.ofBytes strings (m.bytes form) = .error cause) ∨
      ∃ paired plain before after, NameRecord.ofBytes (m.record.bytes .together) = .ok paired ∧
        NameRecord.ofBytes (m.record.bytes .apart) = .ok plain ∧
        (paired = plain ∨ paired = m.record.putInto plain) ∧
        NameTable.ofBytes strings (m.bytes .together)
          = .ok (NameTable.holding strings before after paired) ∧
        NameTable.ofBytes strings (m.bytes .apart)
          = .ok (NameTable.holding strings before after plain) ∧
        ∀ index : Int, (NameTable.holding strings before after paired).get index
            = (NameTable.holding strings before after plain).get index ↔
          (before.length ≤ index → index < before.length + max 1 plain.range →
            ∀ name, (NameTable.holding strings before after plain).base? plain index = some name →
              paired.adjust name = plain.adjust name)) := by
  refine ⟨m.record.ofBytes_apart, ?_⟩
  rcases m.ofBytes_cases strings with hrefused | ⟨before, hread⟩
  · exact Or.inl hrefused
  · rcases m.record.ofBytes_cases with ⟨cause, hrecord⟩ | ⟨paired, plain, hpaired, hplain, hput⟩
    · left
      refine ⟨cause, fun form => ?_⟩
      rw [hread, NameTable.withField_of_error rfl (hrecord form)]
      rfl
    · obtain ⟨hrange, hliteral, hpredefined⟩ : paired.range = plain.range ∧
          paired.literal = plain.literal ∧ paired.predefined = plain.predefined := by
        rcases hput with rfl | rfl
        · exact ⟨rfl, rfl, rfl⟩
        · exact m.record.putInto_keeps plain
      rcases NameTable.withField_foldFields_cases strings before plain.range m.rest with
        ⟨cause, hlong⟩ | ⟨after, hfits⟩
      · left
        refine ⟨cause, fun form => ?_⟩
        rw [hread]
        cases form with
        | together => exact hlong _ paired hpaired hrange
        | apart => exact hlong _ plain hplain rfl
      · right
        refine ⟨paired, plain, before, after, hpaired, hplain, hput, ?_, ?_, fun index => ?_⟩
        · rw [hread]
          exact hfits _ paired hpaired hrange
        · rw [hread]
          exact hfits _ plain hplain rfl
        · exact NameTable.get_holding_eq_iff hrange hliteral hpredefined

end PairedMessage

/-- The only record takes the part of the only string without its first and last character. -/
def underscored : PairedMessage where
  record := {
    number := 4
    first := 1
    second := 4
    front := []
    pair := fun
      | .together => [0x22, 0x02, 0x01, 0x04]
      | .apart => [0x20, 0x01, 0x20, 0x04]
    rest := []
    isPair := Or.inl rfl
    front_spells := ⟨[], .nil⟩
    together_spells := ⟨.bytes [0x01, 0x04], by decide +kernel, .cons (by decide) .nil⟩
    apart_spells :=
      have hone : fieldBy NameRecord.formRule [0x20, 0x01, 0x20, 0x04]
          = .ok (⟨4, .varint 0x01⟩, [0x20, 0x04]) := by decide
      ⟨.varint 0x01, .varint 0x04, by decide, by decide, .cons hone (.cons (by decide) .nil)⟩ }
  front := []
  recordField := fun
    | .together => [0x0a, 0x04, 0x22, 0x02, 0x01, 0x04]
    | .apart => [0x0a, 0x04, 0x20, 0x01, 0x20, 0x04]
  rest := []
  front_spells := ⟨[], .nil⟩
  recordField_spells := fun form => by
    cases form with
    | together => exact .cons (by decide) .nil
    | apart => exact .cons (by decide) .nil

/-- The header of a file with one function, whose name comes from that record. -/
def underscoredHeader (form : PairForm) : Header where
  kind := 2
  version := [1, 9, 0]
  payload := [
    "\x00\x06" ++
      (match form with
        | .together => "\x0a\x04\x22\x02\x01\x04"
        | .apart => "\x0a\x04\x20\x01\x20\x04") ++
      "\x1a\x02\x10\x00"]
  strings := ["_foo_"]
  extraString := none
  packageName := none
  extraInt := 0

/-- That function. -/
def underscoredFunction (name : String) : FunctionDecl where
  name := name
  kind := .declaration
  visibility := .publicUse
  receiver := none
  context := []
  parameters := []
  returns := none
  signature := none

/-- The ends of a part of a name are lost when they are given in two fields. -/
theorem get_loses_numberPair :
    (NameTable.ofBytes ["_foo_"] (underscored.bytes .together) >>= (·.get 0)) = .ok "foo" ∧
      (NameTable.ofBytes ["_foo_"] (underscored.bytes .apart) >>= (·.get 0)) = .ok "_foo_" ∧
      (underscoredHeader .together).decode
        = .ok (.fileFacade ⟨[underscoredFunction "foo"], []⟩) ∧
      (underscoredHeader .apart).decode
        = .ok (.fileFacade ⟨[underscoredFunction "_foo_"], []⟩) := by
  refine ⟨?_, ?_, ?_, ?_⟩ <;> decide +kernel

end LineAtlas.Metadata
