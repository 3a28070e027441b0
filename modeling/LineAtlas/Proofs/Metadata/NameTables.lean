import LineAtlas.Metadata.NameTable
import LineAtlas.Proofs.Metadata.Fields

/-!
# Names that cannot be looked up

A name table that is read has its strings as they were given and the records of its message, each
as often as it covers a string. There are never more records than strings, so that the only names
missing are those outside the strings and those taken from a predefined string that there is not.
-/

namespace LineAtlas.Metadata

open Wire

section Items

variable {α : Type} {items : List α} {index : Int}

/-- There is no item before the first one or behind the last one. -/
theorem itemAt?_eq_none_iff : itemAt? items index = none ↔ index < 0 ∨ items.length ≤ index := by
  rw [itemAt?]
  by_cases hnegative : index < 0
  · rw [if_pos hnegative]
    exact iff_of_true rfl (Or.inl hnegative)
  · rw [if_neg hnegative, List.getElem?_eq_none_iff]
    omega

/-- A longer list has an item wherever a shorter one does. -/
theorem exists_itemAt?_of_length_le {β : Type} {longer : List β} {a : α}
    (hlength : items.length ≤ longer.length) (h : itemAt? items index = some a) :
    ∃ b, itemAt? longer index = some b := by
  rw [← Option.ne_none_iff_exists', Ne, itemAt?_eq_none_iff]
  have hinside : ¬ (index < 0 ∨ items.length ≤ index) := by
    rw [← itemAt?_eq_none_iff, h]
    simp
  omega

variable {before after : List α} {a : α} {count : Nat}

/-- A run of items is found at its own indexes. -/
theorem itemAt?_of_inside (hstart : before.length ≤ index) (hstop : index < before.length + count) :
    itemAt? (before ++ (List.replicate count a ++ after)) index = some a := by
  obtain ⟨place, rfl⟩ := Int.eq_ofNat_of_zero_le (by omega : 0 ≤ index)
  rw [itemAt?, if_neg (by omega), Int.toNat_natCast, List.getElem?_append_right (by omega),
    List.getElem?_append_left (by rw [List.length_replicate]; omega), List.getElem?_replicate,
    if_pos (by omega)]

/-- Elsewhere nothing depends on which item the run is of. -/
theorem itemAt?_of_outside (houtside : index < before.length ∨ before.length + count ≤ index)
    (b : α) :
    itemAt? (before ++ (List.replicate count a ++ after)) index
      = itemAt? (before ++ (List.replicate count b ++ after)) index := by
  rw [itemAt?, itemAt?]
  by_cases hnegative : index < 0
  · rw [if_pos hnegative, if_pos hnegative]
  · rw [if_neg hnegative, if_neg hnegative]
    rcases houtside with hbefore | hbehind
    · rw [List.getElem?_append_left (by omega), List.getElem?_append_left (by omega)]
    · have hrun (c : α) : (before ++ (List.replicate count c ++ after))[index.toNat]?
          = after[index.toNat - before.length - count]? := by
        rw [List.getElem?_append_right (by omega),
          List.getElem?_append_right (by rw [List.length_replicate]; omega), List.length_replicate]
      rw [hrun, hrun]

end Items

/-- The records, each as often as it covers a string. -/
def expanded (records : List NameRecord) : List NameRecord :=
  records.flatMap fun record => List.replicate (max 1 record.range) record

/-- The records that fields hold. -/
def recordsIn (fields : List Field) : Except Malformed (List NameRecord) :=
  (fields.filterMap (Message.bytesIn? 1)).mapM NameRecord.ofBytes

/-- A record that takes a predefined string that there is not. -/
structure NameRecord.IsDangling (record : NameRecord) : Prop where
  /-- The record gives no string of its own. -/
  literal : record.literal = none
  /-- The predefined string it takes is outside of the list. -/
  predefined : ∃ index ∈ record.predefined, index < 0 ∨ predefinedStrings.length ≤ index

/-- A record counts as often as it covers a string, and at least once. -/
theorem expanded_cons (record : NameRecord) (records : List NameRecord) :
    expanded (record :: records)
      = List.replicate (max 1 record.range) record ++ expanded records := List.flatMap_cons

namespace NameTable

variable {table final : NameTable} {field : Field} {fields : List Field} {body : List UInt8}
  {record : NameRecord} {strings : List String} {bytes : List UInt8}

/-- The number of strings that no record covers. -/
def left (table : NameTable) : Nat := table.strings.length - table.records.length

/-- The table with one more record, as often as it covers a string. -/
def adding (table : NameTable) (record : NameRecord) : NameTable :=
  { table with records := table.records ++ List.replicate (max 1 record.range) record }

/-- Fields that hold no record leave the table as it is. -/
theorem withField_of_none (h : Message.bytesIn? 1 field = none) :
    table.withField field = .ok table := by
  obtain ⟨number, value⟩ := field
  unfold withField
  split
  · next body hnumber hvalue =>
    obtain rfl : number = 1 := hnumber
    obtain rfl : value = .bytes body := hvalue
    simp [Message.bytesIn?] at h
  · rfl

/-- A record that is refused is the fault of the table. -/
theorem withField_of_error {cause : Malformed} (h : Message.bytesIn? 1 field = some body)
    (hrecord : NameRecord.ofBytes body = .error cause) : table.withField field = .error cause := by
  obtain rfl := Message.bytesIn?_eq_some_iff.mp h
  simp only [withField, hrecord]

/-- A record is added when as many strings are left as it covers. -/
theorem withField_of_ok (h : Message.bytesIn? 1 field = some body)
    (hrecord : NameRecord.ofBytes body = .ok record) :
    table.withField field = if max 1 record.range ≤ table.left then .ok (table.adding record)
      else .error (.wire (.longRange (max 1 record.range) table.left)) := by
  obtain rfl := Message.bytesIn?_eq_some_iff.mp h
  simp only [withField, hrecord]
  rfl

/-- A field that is not for records adds none. -/
theorem recordsIn_cons_of_none (h : Message.bytesIn? 1 field = none) :
    recordsIn (field :: fields) = recordsIn fields := by
  rw [recordsIn, recordsIn, List.filterMap_cons_none h]

/-- A field for records adds the one it holds, in front of those that follow. -/
theorem recordsIn_cons_of_some (h : Message.bytesIn? 1 field = some body) :
    recordsIn (field :: fields) = NameRecord.ofBytes body >>= fun record =>
      (record :: ·) <$> recordsIn fields := by
  rw [recordsIn, recordsIn, List.filterMap_cons_some h, List.mapM_cons]
  rfl

/-- Fields can be put into a table when there are enough strings for the records in them, and then
these records are added. -/
theorem foldlM_withField_eq_ok_iff (hroom : table.records.length ≤ table.strings.length) :
    fields.foldlM withField table = .ok final ↔
      ∃ records, recordsIn fields = .ok records ∧
        final = ⟨table.strings, table.records ++ expanded records⟩ ∧
        (table.records ++ expanded records).length ≤ table.strings.length := by
  induction fields generalizing table with
  | nil =>
    have hnone : table.records ++ expanded [] = table.records := List.append_nil _
    constructor
    · intro h
      obtain rfl := Except.ok.inj h
      exact ⟨[], rfl, by rw [hnone], by rwa [hnone]⟩
    · rintro ⟨records, hrecords, rfl, -⟩
      obtain rfl : [] = records := Except.ok.inj hrecords
      rw [hnone]
      rfl
  | cons field rest ih =>
    rw [List.foldlM_cons]
    cases hbody : Message.bytesIn? 1 field with
    | none =>
      rw [withField_of_none hbody, recordsIn_cons_of_none hbody]
      exact ih hroom
    | some body =>
      rw [recordsIn_cons_of_some hbody]
      cases hrecord : NameRecord.ofBytes body with
      | error cause =>
        rw [withField_of_error hbody hrecord]
        refine iff_of_false (by simp [bind, Except.bind]) ?_
        rintro ⟨records, hrecords, -⟩
        simp [bind, Except.bind] at hrecords
      | ok record =>
        rw [withField_of_ok hbody hrecord]
        have hadded (records : List NameRecord) : (table.adding record).records ++ expanded records
            = table.records ++ expanded (record :: records) := by
          rw [adding, expanded_cons, List.append_assoc]
        by_cases hfits : max 1 record.range ≤ table.left
        · have hroom' : (table.adding record).records.length ≤ table.strings.length := by
            rw [adding, List.length_append, List.length_replicate]
            rw [left] at hfits
            omega
          rw [if_pos hfits]
          refine (ih hroom').trans ?_
          constructor
          · rintro ⟨records, hrecords, rfl, hlength⟩
            refine ⟨record :: records, Except.map_ok _ hrecords, ?_, ?_⟩
            · rw [hadded]
              rfl
            · rwa [hadded] at hlength
          · rintro ⟨all, hall, rfl, hlength⟩
            obtain ⟨records, hrecords, rfl⟩ := Except.map_eq_ok hall
            refine ⟨records, hrecords, ?_, ?_⟩
            · rw [hadded]
              rfl
            · rwa [hadded]
        · rw [if_neg hfits]
          refine iff_of_false (by simp [bind, Except.bind]) ?_
          rintro ⟨all, hall, -, hlength⟩
          obtain ⟨records, -, rfl⟩ := Except.map_eq_ok hall
          rw [expanded_cons, List.length_append, List.length_append, List.length_replicate]
            at hlength
          rw [left] at hfits
          omega

/-- Which records a field adds, or why it is refused, depends only on how many are there. -/
theorem exists_withField_eq (strings : List String) (count : Nat) (field : Field) :
    ∃ outcome : Except Malformed (List NameRecord), ∀ records, records.length = count →
      withField ⟨strings, records⟩ field
        = (fun more => ⟨strings, records ++ more⟩) <$> outcome := by
  cases hbody : Message.bytesIn? 1 field with
  | none =>
    refine ⟨.ok [], fun records _ => ?_⟩
    rw [withField_of_none hbody]
    exact congrArg (fun all => Except.ok (mk strings all)) (List.append_nil records).symm
  | some body =>
    cases hrecord : NameRecord.ofBytes body with
    | error cause => exact ⟨.error cause, fun records _ => withField_of_error hbody hrecord⟩
    | ok record =>
      refine ⟨if max 1 record.range ≤ strings.length - count
        then .ok (List.replicate (max 1 record.range) record)
        else .error (.wire (.longRange (max 1 record.range) (strings.length - count))), ?_⟩
      rintro records rfl
      rw [withField_of_ok hbody hrecord, left]
      dsimp only
      split
      · rfl
      · rfl

/-- What fields add to a table depends only on how many records are there. -/
theorem exists_foldFields_eq (strings : List String) (count : Nat) (bytes : List UInt8) :
    ∃ outcome : Except Malformed (List NameRecord), ∀ records, records.length = count →
      foldFields formRule withField ⟨strings, records⟩ bytes
        = (fun more => ⟨strings, records ++ more⟩) <$> outcome := by
  induction bytes using fieldwise formRule generalizing count with
  | nil =>
    refine ⟨.ok [], fun records _ => ?_⟩
    rw [foldFields_nil]
    exact congrArg (fun all => Except.ok (mk strings all)) (List.append_nil records).symm
  | refused byte tail cause hread =>
    exact ⟨.error cause, fun records _ => foldFields_of_error hread⟩
  | more bytes field rest hread ih =>
    obtain ⟨first, hfirst⟩ := exists_withField_eq strings count field
    cases first with
    | error cause =>
      refine ⟨.error cause, fun records hcount => ?_⟩
      rw [foldFields_of_fieldBy hread, hfirst records hcount]
      rfl
    | ok added =>
      obtain ⟨outcome, houtcome⟩ := ih (count + added.length)
      refine ⟨(added ++ ·) <$> outcome, fun records hcount => ?_⟩
      have hadded : (records ++ added).length = count + added.length := by
        rw [List.length_append, hcount]
      rw [foldFields_of_fieldBy hread, hfirst records hcount, Functor.map_map]
      refine (houtcome _ hadded).trans ?_
      congr 1
      funext others
      rw [List.append_assoc]

/-- A table is read when there are enough strings for its records. -/
theorem ofBytes_eq_ok_iff : ofBytes strings bytes = .ok table ↔
    ∃ fields records, Spells formRule bytes fields ∧ recordsIn fields = .ok records ∧
      table = ⟨strings, expanded records⟩ ∧ (expanded records).length ≤ strings.length := by
  constructor
  · intro h
    obtain ⟨fields, hspells, hfold⟩ := exists_spells_of_foldFields h
    obtain ⟨records, hrecords⟩ := (foldlM_withField_eq_ok_iff (Nat.zero_le _)).mp hfold
    exact ⟨fields, records, hspells, hrecords⟩
  · rintro ⟨fields, records, hspells, hrecords⟩
    rw [ofBytes, hspells.foldFields_eq]
    exact (foldlM_withField_eq_ok_iff (Nat.zero_le _)).mpr ⟨records, hrecords⟩

/-- What a record starts from is there unless the record takes a predefined string that is not. -/
theorem base?_eq_none_iff {index : Int} (hroom : table.records.length ≤ table.strings.length)
    (hrecord : itemAt? table.records index = some record) :
    table.base? record index = none ↔ record.IsDangling := by
  unfold base?
  split
  · next text other hliteral =>
    refine iff_of_false (by simp) fun h => ?_
    simp [h.literal] at hliteral
  · next predefined hliteral hpredefined =>
    rw [itemAt?_eq_none_iff]
    constructor
    · intro h
      exact ⟨hliteral, predefined, hpredefined, h⟩
    · intro h
      obtain ⟨other, hother, houtside⟩ := h.predefined
      obtain rfl := Option.some.inj (hpredefined.symm.trans hother)
      exact houtside
  · next hliteral hpredefined =>
    -- a record covers a string, so that this one is there
    obtain ⟨text, htext⟩ := exists_itemAt?_of_length_le hroom hrecord
    refine iff_of_false (by simp [htext]) fun h => ?_
    obtain ⟨other, hother, -⟩ := h.predefined
    simp [hpredefined] at hother

/-- A name is missing exactly when its index is outside, or its record takes a predefined string
that there is not. -/
theorem get?_eq_none_iff {index : Int} (hroom : table.records.length ≤ table.strings.length) :
    table.get? index = none ↔ index < 0 ∨ table.strings.length ≤ index ∨
      ∃ record, itemAt? table.records index = some record ∧ record.IsDangling := by
  unfold get?
  split
  · next record hrecord =>
    have hinside : ¬ (index < 0 ∨ table.records.length ≤ index) := by
      rw [← itemAt?_eq_none_iff, hrecord]
      simp
    rw [Option.map_eq_map, Option.map_eq_none_iff, base?_eq_none_iff hroom hrecord]
    constructor
    · intro h
      exact Or.inr (Or.inr ⟨record, hrecord, h⟩)
    · rintro (hnegative | hlarge | ⟨other, hother, h⟩)
      · omega
      · omega
      · obtain rfl := Option.some.inj (hrecord.symm.trans hother)
        exact h
  · next hnone =>
    rw [itemAt?_eq_none_iff]
    constructor
    · rintro (hnegative | hlarge)
      · exact Or.inl hnegative
      · exact Or.inr (Or.inl hlarge)
    · rintro (hnegative | hlarge | ⟨record, hrecord, -⟩)
      · exact Or.inl hnegative
      · exact Or.inr hlarge
      · simp [hnone] at hrecord

/-- A name that cannot be looked up is refused with its index. -/
theorem get_eq_error_iff {index : Int} {cause : Malformed} : table.get index = .error cause ↔
    table.get? index = none ∧ cause = .badNameIndex index := by
  unfold get
  cases table.get? index with
  | some name => simp
  | none => simp [eq_comm]

/-- A name table that is read has the strings that it was given, and the records of its message,
each as often as it covers a string. There are at most as many of these as strings. A look-up fails
just when the index is negative or not below the number of strings, or when the record at the index
has no text of its own but takes a predefined string that there is not. It is refused with the
index. -/
theorem get_failsExactly (h : ofBytes strings bytes = .ok table) :
    table.strings = strings ∧
    (∃ fields records, Spells formRule bytes fields ∧ recordsIn fields = .ok records ∧
      table.records = expanded records) ∧
    table.records.length ≤ strings.length ∧
    ∀ index : Int,
      ((∃ cause, table.get index = .error cause) ↔ index < 0 ∨ strings.length ≤ index ∨
        ∃ record, itemAt? table.records index = some record ∧ record.IsDangling) ∧
      ∀ cause, table.get index = .error cause → cause = .badNameIndex index := by
  obtain ⟨fields, records, hspells, hrecords, rfl, hlength⟩ := ofBytes_eq_ok_iff.mp h
  refine ⟨rfl, ⟨fields, records, hspells, hrecords, rfl⟩, hlength, fun index => ⟨?_, ?_⟩⟩
  · have hroom : (mk strings (expanded records)).records.length
        ≤ (mk strings (expanded records)).strings.length := hlength
    rw [← get?_eq_none_iff hroom]
    simp only [get_eq_error_iff, exists_and_left, exists_eq, and_true]
  · intro cause hcause
    exact (get_eq_error_iff.mp hcause).2

/-- Two records for four strings. The first takes a predefined string past the last one, the second
covers two strings. -/
def danglingBytes : List UInt8 := [0x0a, 0x02, 0x10, 0x2c, 0x0a, 0x02, 0x08, 0x02]

/-- Their table. -/
def danglingTable : NameTable :=
  ⟨["a", "b", "c", "d"], [{ predefined := some 44 }, { range := 2 }, { range := 2 }]⟩

/-- In the table `danglingTable` the name at index zero is missing, while the one at index three is
there, without a record. -/
theorem get_failsExactly_dangling :
    ofBytes ["a", "b", "c", "d"] danglingBytes = .ok danglingTable ∧
      danglingTable.records.length ≤ 4 ∧ danglingTable.get 0 = .error (.badNameIndex 0) ∧
      ∀ cause, danglingTable.get 3 ≠ .error cause := by
  have hread : ofBytes ["a", "b", "c", "d"] danglingBytes = .ok danglingTable := by decide +kernel
  obtain ⟨-, -, hlength, hget⟩ := get_failsExactly hread
  refine ⟨hread, hlength, ?_, fun cause hcause => ?_⟩
  · obtain ⟨cause, hcause⟩ := (hget 0).1.mpr (Or.inr (Or.inr ⟨{ predefined := some 44 }, rfl, rfl,
      44, rfl, by decide⟩))
    rw [hcause, (hget 0).2 cause hcause]
  · rcases (hget 3).1.mp ⟨cause, hcause⟩ with hnegative | hlarge | ⟨record, hrecord, -⟩
    · exact absurd hnegative (by decide)
    · exact absurd hlarge (by decide)
    · exact absurd hrecord (by simp [itemAt?, danglingTable])

end NameTable

end LineAtlas.Metadata
