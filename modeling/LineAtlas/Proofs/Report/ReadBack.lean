import LineAtlas.Proofs.Exchange.Offering
import LineAtlas.Report.OfNode
import LineAtlas.Report.ToData

/-!
# Reports are read as they were written

A record comes back when everything in it does, so that the proof is by the number of levels that
may be entered: where that many are enough, the readers of all kinds of records give back what was
written. A field that was left out comes back by its default, and each line by the one of its two
fields that was written.
-/

namespace LineAtlas

open Exchange (Data Node Fields Offering)

namespace NumberMap

variable {α : Type}

/-- An entry with the greatest key goes to the end. -/
theorem insertEntry_of_last {key : UInt32} {value : α} {entries : List (UInt32 × α)}
    (h : ∀ e ∈ entries, e.1 < key) : insertEntry key value entries = entries ++ [(key, value)] := by
  induction entries with
  | nil => rfl
  | cons first rest ih =>
    have hfirst := h first List.mem_cons_self
    have hlt : ¬ key < first.1 := fun hlt => UInt32.lt_asymm hlt hfirst
    have hne : key ≠ first.1 := (UInt32.ne_of_lt hfirst).symm
    rw [insertEntry, if_neg hlt, if_neg hne, ih fun e he => h e (List.mem_cons_of_mem first he)]
    rfl

/-- Ascending entries stay as they are. -/
theorem entries_foldl_insert {m : NumberMap α} (more : List (UInt32 × α))
    (h : (m.entries ++ more).Pairwise (·.1 < ·.1)) :
    (more.foldl (fun m e => m.insert e.1 e.2) m).entries = m.entries ++ more := by
  induction more generalizing m with
  | nil => simp
  | cons first rest ih =>
    have hfirst : ∀ e ∈ m.entries, e.1 < first.1 := fun e he =>
      (List.pairwise_append.mp h).2.2 e he first List.mem_cons_self
    have hinsert : (m.insert first.1 first.2).entries = m.entries ++ [first] :=
      insertEntry_of_last hfirst
    have hall : ((m.insert first.1 first.2).entries ++ rest).Pairwise (·.1 < ·.1) := by
      rw [hinsert, List.append_assoc]
      exact h
    rw [List.foldl_cons, ih hall, hinsert, List.append_assoc]
    rfl

/-- Maps with the same entries are equal. -/
theorem ext {m other : NumberMap α} (h : m.entries = other.entries) : m = other := by
  cases m
  cases other
  cases h
  rfl

/-- A map comes back from its entries. -/
theorem ofList_entries (m : NumberMap α) : ofList m.entries = m :=
  ext (entries_foldl_insert m.entries (m := empty) m.ascending)

end NumberMap

section

variable {node : Data → Node} (offering : Offering node)
include offering

/-- A map comes back when each of its values does. -/
theorem NumberMap.ofNode?_toData {α : Type} {read : Node → Option α} {write : α → Data}
    (m : NumberMap α) (h : ∀ e ∈ m.entries, read (node (write e.2)) = some e.2) :
    NumberMap.ofNode? read (node (m.toData write)) = some m := by
  let entries : List (Nat × α) := m.entries.map fun e => (e.1.toNat, e.2)
  have hwritten : m.toData write = .table (entries.map fun e => (e.1, write e.2)) := by
    rw [NumberMap.toData, List.map_map]
    rfl
  have hbound : ∀ e ∈ entries, e.1 < UInt32.size := by
    intro e he
    obtain ⟨entry, -, rfl⟩ := List.mem_map.mp he
    exact entry.1.toNat_lt
  have hread : ∀ e ∈ entries, read (node (write e.2)) = some e.2 := by
    intro e he
    obtain ⟨entry, hentry, rfl⟩ := List.mem_map.mp he
    exact h entry hentry
  have hback : (entries.map fun e => (UInt32.ofNat e.1, e.2)) = m.entries := by
    rw [List.map_map]
    exact List.map_id'' (fun e => by simp) m.entries
  rw [NumberMap.ofNode?, hwritten, offering.table? hbound hread, Option.map_some, hback,
    NumberMap.ofList_entries]

/-- A count of 64 bits is read back. -/
theorem readCount?_number (count : UInt64) :
    readCount? (node (.number count.toNat)) = some count := by
  rw [readCount?, offering.numberBelow? count.toNat_lt, Option.map_some, UInt64.ofNat_toNat]

/-- A line that is given by a record is read by its two fields. -/
theorem LineHits.ofNode?_record (fields : List (String × Data)) (limit : Nat) :
    LineHits.ofNode? (limit + 1) (node (.record fields)) = (do
      let fields ← (node (.record fields)).fields? ["hits", "branches"]
      let hits ← fields.optional? "hits" readCount?
      let branches ← fields.optional? "branches" fun node =>
        if limit = 0 then none else NumberMap.ofNode? readCount? node
      match branches, hits with
      | some branches, _ => return .branched branches
      | none, some hits => return .simple hits
      | none, none => none) := by
  obtain ⟨elective, key, -, hnode⟩ := offering.record fields
  rw [hnode]
  rfl

/-- The hits of a line come back, whichever of its two fields was written. -/
theorem LineHits.ofNode?_toData (line : LineHits) {limit : Nat} (h : line.toData.levels ≤ limit) :
    LineHits.ofNode? limit (node line.toData) = some line := by
  have hnodup : ["hits", "branches"].Nodup := by decide
  cases line with
  | simple hits =>
    obtain ⟨limit, rfl, -⟩ := Data.exists_of_levels_record_le h
    have hnames : Data.NamedBy (Data.field "hits" (.number hits.toNat)) ["hits", "branches"] :=
      (Data.namedBy_field _ _).trans (by simp)
    obtain ⟨found, hfound, hget⟩ := offering.fields? hnames hnodup
    have hhits : found.optional? "hits" readCount? = some (some hits) :=
      offering.optional?_field (fun hits => .number hits.toNat) (by simp [hget])
        fun a _ => ⟨offering.isNull_number _, readCount?_number offering a⟩
    have hbranches (read : Node → Option (NumberMap UInt64)) :
        found.optional? "branches" read = some none := by
      simp [Fields.optional?, Fields.withDefault?, hget]
    rw [LineHits.toData, LineHits.ofNode?_record offering, hfound]
    simp [hhits, hbranches]
  | branched branches =>
    obtain ⟨limit, rfl, htable⟩ := Data.exists_of_levels_record_le h
    rw [Data.levelsOfFields_field_le] at htable
    obtain ⟨limit, rfl, -⟩ := Data.exists_of_levels_table_le htable
    have hnames : Data.NamedBy (Data.field "branches"
        (branches.toData fun hits => .number hits.toNat)) ["hits", "branches"] :=
      (Data.namedBy_field _ _).trans (by simp)
    obtain ⟨found, hfound, hget⟩ := offering.fields? hnames hnodup
    have hhits : found.optional? "hits" readCount? = some none := by
      simp [Fields.optional?, Fields.withDefault?, hget]
    have hbranches : found.optional? "branches" (NumberMap.ofNode? readCount?)
        = some (some branches) := by
      refine offering.optional?_field (fun b => b.toData fun hits => .number hits.toNat)
        (by simp [hget]) fun b _ => ⟨offering.isNull_table _, ?_⟩
      exact NumberMap.ofNode?_toData offering b fun e _ => readCount?_number offering e.2
    rw [LineHits.toData, LineHits.ofNode?_record offering, hfound]
    simp [hhits, hbranches]

/-- The lines of a method come back with their hits. -/
theorem LineMap.ofNode?_toData (lines : LineMap) {limit : Nat}
    (h : (LineMap.toData lines).levels ≤ limit) :
    LineMap.ofNode? limit (node (LineMap.toData lines)) = some lines := by
  obtain ⟨limit, rfl, hentries⟩ := Data.exists_of_levels_table_le h
  refine NumberMap.ofNode?_toData offering lines fun e he => ?_
  exact LineHits.ofNode?_toData offering e.2 (hentries _ (List.mem_map.mpr ⟨e, he, rfl⟩))

end

namespace Report

/-- Readers give back all records of at most a number of levels. -/
structure Readers.GiveBack (node : Data → Node) (limit : Nat) (r : Readers) : Prop where
  /-- Functions come back. -/
  function (e : FunctionEntry) : e.toData.levels ≤ limit → r.function (node e.toData) = some e
  /-- Functions without names come back. -/
  anonymousFunction (e : AnonymousFunction) : e.toData.levels ≤ limit →
    r.anonymousFunction (node e.toData) = some e
  /-- Local classes come back. -/
  localClass (e : LocalClassEntry) : e.toData.levels ≤ limit →
    r.localClass (node e.toData) = some e
  /-- Classes without names come back. -/
  anonymousClass (e : AnonymousClass) : e.toData.levels ≤ limit →
    r.anonymousClass (node e.toData) = some e
  /-- Properties come back. -/
  property (e : PropertyEntry) : e.toData.levels ≤ limit → r.property (node e.toData) = some e
  /-- Classes come back. -/
  classEntry (e : ClassEntry) : e.toData.levels ≤ limit → r.classEntry (node e.toData) = some e
  /-- Objects come back. -/
  object (e : ObjectEntry) : e.toData.levels ≤ limit → r.object (node e.toData) = some e
  /-- Entries of files come back. -/
  file (e : FileEntry) : e.toData.levels ≤ limit → r.file (node e.toData) = some e

/-- What is inside a record comes back, as far as it may be entered. -/
structure Inside.GivesBack (node : Data → Node) (i : Inside) : Prop where
  /-- Records come back, down to the limit. -/
  records : i.records.GiveBack node i.limit
  /-- Where a list may be entered, its items come back. -/
  items (limit : Nat) : i.limit = limit + 1 → ∃ items, i.items = some items ∧
    items.GiveBack node limit

section

/-- Functions are written one by one. -/
theorem FunctionEntry.toDataOf_eq (xs : List FunctionEntry) :
    FunctionEntry.toDataOf xs = xs.map FunctionEntry.toData := by
  induction xs with
  | nil => rfl
  | cons first rest ih => rw [FunctionEntry.toDataOf, ih, List.map_cons]

/-- Functions without names are written one by one. -/
theorem AnonymousFunction.toDataOf_eq (xs : List AnonymousFunction) :
    AnonymousFunction.toDataOf xs = xs.map AnonymousFunction.toData := by
  induction xs with
  | nil => rfl
  | cons first rest ih => rw [AnonymousFunction.toDataOf, ih, List.map_cons]

/-- A function that is missing is not written. -/
theorem AnonymousFunction.toDataOf?_eq (x : Option AnonymousFunction) :
    AnonymousFunction.toDataOf? x = x.map AnonymousFunction.toData := by
  cases x <;> rfl

/-- Local classes are written one by one. -/
theorem LocalClassEntry.toDataOf_eq (xs : List LocalClassEntry) :
    LocalClassEntry.toDataOf xs = xs.map LocalClassEntry.toData := by
  induction xs with
  | nil => rfl
  | cons first rest ih => rw [LocalClassEntry.toDataOf, ih, List.map_cons]

/-- Classes without names are written one by one. -/
theorem AnonymousClass.toDataOf_eq (xs : List AnonymousClass) :
    AnonymousClass.toDataOf xs = xs.map AnonymousClass.toData := by
  induction xs with
  | nil => rfl
  | cons first rest ih => rw [AnonymousClass.toDataOf, ih, List.map_cons]

/-- Properties are written one by one. -/
theorem PropertyEntry.toDataOf_eq (xs : List PropertyEntry) :
    PropertyEntry.toDataOf xs = xs.map PropertyEntry.toData := by
  induction xs with
  | nil => rfl
  | cons first rest ih => rw [PropertyEntry.toDataOf, ih, List.map_cons]

/-- Classes are written one by one. -/
theorem ClassEntry.toDataOf_eq (xs : List ClassEntry) :
    ClassEntry.toDataOf xs = xs.map ClassEntry.toData := by
  induction xs with
  | nil => rfl
  | cons first rest ih => rw [ClassEntry.toDataOf, ih, List.map_cons]

/-- Objects are written one by one. -/
theorem ObjectEntry.toDataOf_eq (xs : List ObjectEntry) :
    ObjectEntry.toDataOf xs = xs.map ObjectEntry.toData := by
  induction xs with
  | nil => rfl
  | cons first rest ih => rw [ObjectEntry.toDataOf, ih, List.map_cons]

/-- An object that is missing is not written. -/
theorem ObjectEntry.toDataOf?_eq (x : Option ObjectEntry) :
    ObjectEntry.toDataOf? x = x.map ObjectEntry.toData := by
  cases x <;> rfl

/-- The fields of a body are among those that a reader knows. -/
theorem BodyEntries.namedBy_toFields (b : BodyEntries) :
    Data.NamedBy b.toFields Inside.bodyNames := by
  obtain ⟨functions, classes, lambdaClasses, anonymousFunctions, anonymousClasses⟩ := b
  exact ((((Data.namedBy_fieldOfList _ _).append (Data.namedBy_fieldOfList _ _)).append
    (Data.namedBy_fieldOfList _ _)).append (Data.namedBy_fieldOfList _ _)).append
      (Data.namedBy_fieldOfList _ _)

/-- The fields of members are among those that a reader knows. -/
theorem MemberEntries.namedBy_toFields (m : MemberEntries) :
    Data.NamedBy m.toFields Inside.memberNames := by
  obtain ⟨functions, constructors, properties⟩ := m
  exact ((Data.namedBy_fieldOfList _ _).append (Data.namedBy_fieldOfList _ _)).append
    (Data.namedBy_fieldOfList _ _)

end

section

variable {node : Data → Node} (offering : Offering node) {i : Inside}
include offering

/-- A function without a name is not taken for a missing one. -/
theorem AnonymousFunction.isNull_toData (e : AnonymousFunction) :
    (node e.toData).isNull = false := by
  cases e
  exact offering.isNull_record _

/-- A class without a name is not taken for a missing one. -/
theorem AnonymousClass.isNull_toData (e : AnonymousClass) : (node e.toData).isNull = false := by
  cases e
  exact offering.isNull_record _

/-- An object is not taken for a missing one. -/
theorem ObjectEntry.isNull_toData (e : ObjectEntry) : (node e.toData).isNull = false := by
  cases e
  exact offering.isNull_record _

/-- A list of records comes back, empty when it was left out. -/
theorem Inside.GivesBack.list_field (hi : i.GivesBack node) {α : Type}
    {reader : Readers → Node → Option α} {write : α → Data}
    (hreader : ∀ {limit : Nat} {r : Readers}, r.GiveBack node limit → ∀ x,
      (write x).levels ≤ limit → reader r (node (write x)) = some x)
    (found : Fields) (name : String) {xs : List α}
    (hget : found.get? name = (Data.fieldIn? (Data.fieldOfList name (xs.map write)) name).map node)
    (hlevels : xs.map write ≠ [] → (Data.list (xs.map write)).levels ≤ i.limit) :
    found.withDefault? name [] (i.list? reader) = some xs := by
  by_cases hxs : xs.map write = []
  · obtain rfl := List.map_eq_nil_iff.mp hxs
    rw [Fields.withDefault?, hget]
    simp
  · obtain ⟨limit, hlimit, hitems⟩ := Data.exists_of_levels_list_le (hlevels hxs)
    obtain ⟨items, hsome, hback⟩ := hi.items limit hlimit
    have hread : ∀ x ∈ xs, reader items (node (write x)) = some x := fun x hx =>
      hreader hback x (hitems _ (List.mem_map_of_mem hx))
    rw [Fields.withDefault?, hget, Data.fieldIn?_fieldOfList, if_pos ⟨rfl, hxs⟩]
    simp only [Option.map_some, Inside.list?, hsome]
    exact offering.list? hread

/-- What is declared in a body comes back from a record that holds its fields. -/
theorem Inside.GivesBack.body? (hi : i.GivesBack node) {found : Fields}
    {fields : List (String × Data)}
    (hget : ∀ name, found.get? name = (Data.fieldIn? fields name).map node) (b : BodyEntries)
    (hfields : ∀ name ∈ Inside.bodyNames, Data.fieldIn? fields name = Data.fieldIn? b.toFields name)
    (hlevels : Data.levelsOfFields b.toFields ≤ i.limit) : i.body? found = some b := by
  obtain ⟨functions, classes, lambdaClasses, anonymousFunctions, anonymousClasses⟩ := b
  simp only [BodyEntries.toFields, FunctionEntry.toDataOf_eq, LocalClassEntry.toDataOf_eq,
    AnonymousClass.toDataOf_eq, AnonymousFunction.toDataOf_eq, Data.levelsOfFields_append_le,
    Data.levelsOfFields_fieldOfList_le] at hfields hlevels
  obtain ⟨⟨⟨⟨hf, hc⟩, hl⟩, haf⟩, hac⟩ := hlevels
  have hfunctions := hi.list_field offering (fun h => h.function) found "functions"
    (by rw [hget, hfields "functions" (by decide)]; simp) hf
  have hclasses := hi.list_field offering (fun h => h.localClass) found "classes"
    (by rw [hget, hfields "classes" (by decide)]; simp) hc
  have hlambdas := hi.list_field offering (fun h => h.anonymousClass) found "lambdaClasses"
    (by rw [hget, hfields "lambdaClasses" (by decide)]; simp) hl
  have hanonymousFunctions := hi.list_field offering (fun h => h.anonymousFunction) found
    "anonymousFunctions" (by rw [hget, hfields "anonymousFunctions" (by decide)]; simp) haf
  have hanonymousClasses := hi.list_field offering (fun h => h.anonymousClass) found
    "anonymousClasses" (by rw [hget, hfields "anonymousClasses" (by decide)]; simp) hac
  simp [Inside.body?, hfunctions, hclasses, hlambdas, hanonymousFunctions, hanonymousClasses]

/-- The members of a class come back from a record that holds their fields. -/
theorem Inside.GivesBack.members? (hi : i.GivesBack node) {found : Fields}
    {fields : List (String × Data)}
    (hget : ∀ name, found.get? name = (Data.fieldIn? fields name).map node) (m : MemberEntries)
    (hfields : ∀ name ∈ Inside.memberNames,
      Data.fieldIn? fields name = Data.fieldIn? m.toFields name)
    (hlevels : Data.levelsOfFields m.toFields ≤ i.limit) : i.members? found = some m := by
  obtain ⟨functions, constructors, properties⟩ := m
  simp only [MemberEntries.toFields, FunctionEntry.toDataOf_eq, PropertyEntry.toDataOf_eq,
    Data.levelsOfFields_append_le, Data.levelsOfFields_fieldOfList_le] at hfields hlevels
  obtain ⟨⟨hf, hc⟩, hp⟩ := hlevels
  have hfunctions := hi.list_field offering (fun h => h.function) found "functions"
    (by rw [hget, hfields "functions" (by decide)]; simp) hf
  have hconstructors := hi.list_field offering (fun h => h.function) found "constructors"
    (by rw [hget, hfields "constructors" (by decide)]; simp) hc
  have hproperties := hi.list_field offering (fun h => h.property) found "properties"
    (by rw [hget, hfields "properties" (by decide)]; simp) hp
  simp [Inside.members?, hfunctions, hconstructors, hproperties]

/-- A function without a name comes back when what is inside does. -/
theorem Inside.GivesBack.anonymousFunction? (hi : i.GivesBack node) (e : AnonymousFunction)
    (h : e.toData.levels ≤ i.limit + 1) : i.anonymousFunction? (node e.toData) = some e := by
  obtain ⟨signature, lines, inner⟩ := e
  simp only [AnonymousFunction.toData, Data.levels_record_le_succ, Data.levelsOfFields_append_le,
    Data.levelsOfFields_field_le] at h ⊢
  obtain ⟨⟨-, hl⟩, hb⟩ := h
  have hnames := ((Data.namedBy_field "jvmSignature" (.text signature)).append
    (Data.namedBy_field "lines" (LineMap.toData lines))).append inner.namedBy_toFields
  obtain ⟨found, hfound, hget⟩ := offering.fields? hnames (by decide)
  have hsignature : found.text? "jvmSignature" = some signature :=
    offering.text?_field (by simp [hget])
  have hlines : found.required? "lines" (LineMap.ofNode? i.limit) = some lines := by
    rw [Fields.required?, hget]
    simpa using LineMap.ofNode?_toData offering lines hl
  have hbody := hi.body? offering hget inner (by simp [Inside.bodyNames]) hb
  refine (congrArg (Option.bind · _) hfound).trans ?_
  simp [hsignature, hlines, hbody]

/-- A function comes back when what is inside does. -/
theorem Inside.GivesBack.function? (hi : i.GivesBack node) (e : FunctionEntry)
    (h : e.toData.levels ≤ i.limit + 1) : i.function? (node e.toData) = some e := by
  obtain ⟨name, descriptor, signature, lines, defaultValues, inner⟩ := e
  simp only [FunctionEntry.toData, AnonymousFunction.toDataOf?_eq, Data.levels_record_le_succ,
    Data.levelsOfFields_append_le, Data.levelsOfFields_field_le,
    Data.levelsOfFields_fieldOf?_le] at h ⊢
  obtain ⟨⟨⟨⟨-, -⟩, hl⟩, hd⟩, hb⟩ := h
  have hnames := (((((Data.namedBy_field "name" (.text name)).append
    (Data.namedBy_fieldOf? "descriptor" (descriptor.map .text))).append
    (Data.namedBy_field "jvmSignature" (.text signature))).append
    (Data.namedBy_field "lines" (LineMap.toData lines))).append
    (Data.namedBy_fieldOf? "jvmDefaultValues" (defaultValues.map AnonymousFunction.toData))).append
    inner.namedBy_toFields
  obtain ⟨found, hfound, hget⟩ := offering.fields? hnames (by decide)
  have hname : found.text? "name" = some name := offering.text?_field (by simp [hget])
  have hdescriptor : found.optional? "descriptor" Node.text? = some descriptor := by
    refine offering.optional?_field .text ?_ fun t _ => ⟨offering.isNull_text t, offering.text? t⟩
    simp [hget, inner.namedBy_toFields.fieldIn?_eq_none, Inside.bodyNames]
  have hsignature : found.text? "jvmSignature" = some signature :=
    offering.text?_field (by simp [hget])
  have hlines : found.required? "lines" (LineMap.ofNode? i.limit) = some lines := by
    rw [Fields.required?, hget]
    simpa using LineMap.ofNode?_toData offering lines hl
  have hdefault : found.optional? "jvmDefaultValues" i.records.anonymousFunction
      = some defaultValues := by
    refine offering.optional?_field AnonymousFunction.toData ?_ fun a ha =>
      ⟨a.isNull_toData offering, hi.records.anonymousFunction a (hd _ (by rw [ha]; rfl))⟩
    simp [hget, inner.namedBy_toFields.fieldIn?_eq_none, Inside.bodyNames]
  have hbody := hi.body? offering hget inner (by simp [Inside.bodyNames]) hb
  refine (congrArg (Option.bind · _) hfound).trans ?_
  simp [hname, hdescriptor, hsignature, hlines, hdefault, hbody]

/-- A class without a name comes back when what is inside does. -/
theorem Inside.GivesBack.anonymousClass? (hi : i.GivesBack node) (e : AnonymousClass)
    (h : e.toData.levels ≤ i.limit + 1) : i.anonymousClass? (node e.toData) = some e := by
  obtain ⟨jvmName, members⟩ := e
  simp only [AnonymousClass.toData, Data.levels_record_le_succ, Data.levelsOfFields_append_le]
    at h ⊢
  have hnames := (Data.namedBy_field "jvmName" (.text jvmName)).append members.namedBy_toFields
  obtain ⟨found, hfound, hget⟩ := offering.fields? hnames (by decide)
  have hjvmName : found.text? "jvmName" = some jvmName := offering.text?_field (by simp [hget])
  have hmembers := hi.members? offering hget members (by simp [Inside.memberNames]) h.2
  refine (congrArg (Option.bind · _) hfound).trans ?_
  simp [hjvmName, hmembers]

/-- A local class comes back when what is inside does. -/
theorem Inside.GivesBack.localClass? (hi : i.GivesBack node) (e : LocalClassEntry)
    (h : e.toData.levels ≤ i.limit + 1) : i.localClass? (node e.toData) = some e := by
  obtain ⟨name, jvmName, members⟩ := e
  simp only [LocalClassEntry.toData, Data.levels_record_le_succ, Data.levelsOfFields_append_le]
    at h ⊢
  have hnames := ((Data.namedBy_field "name" (.text name)).append
    (Data.namedBy_field "jvmName" (.text jvmName))).append members.namedBy_toFields
  obtain ⟨found, hfound, hget⟩ := offering.fields? hnames (by decide)
  have hname : found.text? "name" = some name := offering.text?_field (by simp [hget])
  have hjvmName : found.text? "jvmName" = some jvmName := offering.text?_field (by simp [hget])
  have hmembers := hi.members? offering hget members (by simp [Inside.memberNames]) h.2
  refine (congrArg (Option.bind · _) hfound).trans ?_
  simp [hname, hjvmName, hmembers]

/-- The getter is written even when there is none. -/
theorem Inside.GivesBack.property? (hi : i.GivesBack node) (e : PropertyEntry)
    (h : e.toData.levels ≤ i.limit + 1) : i.property? (node e.toData) = some e := by
  obtain ⟨name, customGetter, customSetter, getter, setter⟩ := e
  simp only [PropertyEntry.toData, AnonymousFunction.toDataOf?_eq, Data.levels_record_le_succ,
    Data.levelsOfFields_append_le, Data.levelsOfFields_field_le,
    Data.levelsOfFields_fieldOf?_le] at h ⊢
  obtain ⟨⟨-, hg⟩, hs⟩ := h
  have hnames := ((((Data.namedBy_field "name" (.text name)).append
    (Data.namedBy_field "customGetter" (.truth customGetter))).append
    (Data.namedBy_field "customSetter" (.truth customSetter))).append
    (Data.namedBy_field "getter" (Data.ofOption (getter.map AnonymousFunction.toData)))).append
    (Data.namedBy_fieldOf? "setter" (setter.map AnonymousFunction.toData))
  obtain ⟨found, hfound, hget⟩ := offering.fields? hnames (by decide)
  have hname : found.text? "name" = some name := offering.text?_field (by simp [hget])
  have hcustomGetter : found.withDefault? "customGetter" false Node.truth? = some customGetter :=
    offering.truth_field (by simp [hget])
  have hcustomSetter : found.withDefault? "customSetter" false Node.truth? = some customSetter :=
    offering.truth_field (by simp [hget])
  have hgetter : found.optional? "getter" i.records.anonymousFunction = some getter := by
    refine offering.optional?_ofOption AnonymousFunction.toData (by simp [hget]) fun a ha =>
      ⟨a.isNull_toData offering, hi.records.anonymousFunction a ?_⟩
    rwa [ha] at hg
  have hsetter : found.optional? "setter" i.records.anonymousFunction = some setter :=
    offering.optional?_field AnonymousFunction.toData (by simp [hget]) fun a ha =>
      ⟨a.isNull_toData offering, hi.records.anonymousFunction a (hs _ (by rw [ha]; rfl))⟩
  refine (congrArg (Option.bind · _) hfound).trans ?_
  simp [hname, hcustomGetter, hcustomSetter, hgetter, hsetter]

/-- An object comes back when what is inside does. -/
theorem Inside.GivesBack.object? (hi : i.GivesBack node) (e : ObjectEntry)
    (h : e.toData.levels ≤ i.limit + 1) : i.object? (node e.toData) = some e := by
  obtain ⟨name, jvmName, members, classes, objects, isData⟩ := e
  simp only [ObjectEntry.toData, ClassEntry.toDataOf_eq, ObjectEntry.toDataOf_eq,
    Data.levels_record_le_succ, Data.levelsOfFields_append_le, Data.levelsOfFields_field_le,
    Data.levelsOfFields_fieldOfList_le] at h ⊢
  obtain ⟨⟨⟨⟨-, hm⟩, hc⟩, ho⟩, -⟩ := h
  have hnames := (((((Data.namedBy_field "name" (.text name)).append
    (Data.namedBy_field "jvmName" (.text jvmName))).append members.namedBy_toFields).append
    (Data.namedBy_fieldOfList "classes" (classes.map ClassEntry.toData))).append
    (Data.namedBy_fieldOfList "objects" (objects.map ObjectEntry.toData))).append
    (Data.namedBy_field "isData" (.truth isData))
  obtain ⟨found, hfound, hget⟩ := offering.fields? hnames (by decide)
  have hnone (other : String) (hother : other ∉ Inside.memberNames) :
      Data.fieldIn? members.toFields other = none :=
    members.namedBy_toFields.fieldIn?_eq_none hother
  have hname : found.text? "name" = some name := offering.text?_field (by simp [hget])
  have hjvmName : found.text? "jvmName" = some jvmName := offering.text?_field (by simp [hget])
  have hmembers := hi.members? offering hget members (by simp [Inside.memberNames]) hm
  have hclasses := hi.list_field offering (fun h => h.classEntry) found "classes"
    (by simp [hget, hnone, Inside.memberNames]) hc
  have hobjects := hi.list_field offering (fun h => h.object) found "objects"
    (by simp [hget, hnone, Inside.memberNames]) ho
  have hisData : found.withDefault? "isData" false Node.truth? = some isData :=
    offering.truth_field (by simp [hget, hnone, Inside.memberNames])
  refine (congrArg (Option.bind · _) hfound).trans ?_
  simp [hname, hjvmName, hmembers, hclasses, hobjects, hisData]

/-- A class comes back when what is inside does. -/
theorem Inside.GivesBack.class? (hi : i.GivesBack node) (e : ClassEntry)
    (h : e.toData.levels ≤ i.limit + 1) : i.class? (node e.toData) = some e := by
  obtain ⟨name, jvmName, members, classes, objects, isData, companion, defaultImpls⟩ := e
  simp only [ClassEntry.toData, ClassEntry.toDataOf_eq, ObjectEntry.toDataOf_eq,
    ObjectEntry.toDataOf?_eq, Data.levels_record_le_succ, Data.levelsOfFields_append_le,
    Data.levelsOfFields_field_le, Data.levelsOfFields_fieldOfList_le,
    Data.levelsOfFields_fieldOf?_le] at h ⊢
  obtain ⟨⟨⟨⟨⟨⟨-, hm⟩, hc⟩, ho⟩, -⟩, hp⟩, hd⟩ := h
  have hnames := (((((((Data.namedBy_field "name" (.text name)).append
    (Data.namedBy_field "jvmName" (.text jvmName))).append members.namedBy_toFields).append
    (Data.namedBy_fieldOfList "classes" (classes.map ClassEntry.toData))).append
    (Data.namedBy_fieldOfList "objects" (objects.map ObjectEntry.toData))).append
    (Data.namedBy_field "isData" (.truth isData))).append
    (Data.namedBy_fieldOf? "companion" (companion.map ObjectEntry.toData))).append
    (Data.namedBy_fieldOf? "jvmDefaultImpl" (defaultImpls.map AnonymousClass.toData))
  obtain ⟨found, hfound, hget⟩ := offering.fields? hnames (by decide)
  have hnone (other : String) (hother : other ∉ Inside.memberNames) :
      Data.fieldIn? members.toFields other = none :=
    members.namedBy_toFields.fieldIn?_eq_none hother
  have hname : found.text? "name" = some name := offering.text?_field (by simp [hget])
  have hjvmName : found.text? "jvmName" = some jvmName := offering.text?_field (by simp [hget])
  have hmembers := hi.members? offering hget members (by simp [Inside.memberNames]) hm
  have hclasses := hi.list_field offering (fun h => h.classEntry) found "classes"
    (by simp [hget, hnone, Inside.memberNames]) hc
  have hobjects := hi.list_field offering (fun h => h.object) found "objects"
    (by simp [hget, hnone, Inside.memberNames]) ho
  have hisData : found.withDefault? "isData" false Node.truth? = some isData :=
    offering.truth_field (by simp [hget, hnone, Inside.memberNames])
  have hcompanion : found.optional? "companion" i.records.object = some companion :=
    offering.optional?_field ObjectEntry.toData (by simp [hget, hnone, Inside.memberNames])
      fun a ha => ⟨a.isNull_toData offering, hi.records.object a (hp _ (by rw [ha]; rfl))⟩
  have hholder : found.optional? "jvmDefaultImpl" i.records.anonymousClass = some defaultImpls :=
    offering.optional?_field AnonymousClass.toData (by simp [hget, hnone, Inside.memberNames])
      fun a ha => ⟨a.isNull_toData offering, hi.records.anonymousClass a (hd _ (by rw [ha]; rfl))⟩
  refine (congrArg (Option.bind · _) hfound).trans ?_
  simp [hname, hjvmName, hmembers, hclasses, hobjects, hisData, hcompanion, hholder]

/-- The entry of a file comes back when what is inside does. -/
theorem Inside.GivesBack.file? (hi : i.GivesBack node) (e : FileEntry)
    (h : e.toData.levels ≤ i.limit + 1) : i.file? (node e.toData) = some e := by
  obtain ⟨path, classes, functions, properties, objects, init⟩ := e
  simp only [FileEntry.toData, ClassEntry.toDataOf_eq, ObjectEntry.toDataOf_eq,
    FunctionEntry.toDataOf_eq, PropertyEntry.toDataOf_eq, Data.levels_record_le_succ,
    Data.levelsOfFields_append_le, Data.levelsOfFields_fieldOfList_le,
    Data.levelsOfFields_fieldOf?_le] at h ⊢
  obtain ⟨⟨⟨⟨⟨-, hc⟩, hf⟩, hp⟩, ho⟩, hn⟩ := h
  have hnames := (((((Data.namedBy_field "path" (.text path)).append
    (Data.namedBy_fieldOfList "classes" (classes.map ClassEntry.toData))).append
    (Data.namedBy_fieldOfList "functions" (functions.map FunctionEntry.toData))).append
    (Data.namedBy_fieldOfList "properties" (properties.map PropertyEntry.toData))).append
    (Data.namedBy_fieldOfList "objects" (objects.map ObjectEntry.toData))).append
    (Data.namedBy_fieldOf? "initFunction" (init.map AnonymousFunction.toData))
  obtain ⟨found, hfound, hget⟩ := offering.fields? hnames (by decide)
  have hpath : found.text? "path" = some path := offering.text?_field (by simp [hget])
  have hclasses := hi.list_field offering (fun h => h.classEntry) found "classes"
    (by simp [hget]) hc
  have hfunctions := hi.list_field offering (fun h => h.function) found "functions"
    (by simp [hget]) hf
  have hproperties := hi.list_field offering (fun h => h.property) found "properties"
    (by simp [hget]) hp
  have hobjects := hi.list_field offering (fun h => h.object) found "objects"
    (by simp [hget]) ho
  have hinit : found.optional? "initFunction" i.records.anonymousFunction = some init :=
    offering.optional?_field AnonymousFunction.toData (by simp [hget])
      fun a ha =>
        ⟨a.isNull_toData offering, hi.records.anonymousFunction a (hn _ (by rw [ha]; rfl))⟩
  refine (congrArg (Option.bind · _) hfound).trans ?_
  simp [hpath, hclasses, hfunctions, hproperties, hobjects, hinit]

/-- The readers of one more level give back what nests one level more. -/
theorem Inside.GivesBack.readers (hi : i.GivesBack node) :
    i.readers.GiveBack node (i.limit + 1) where
  function := hi.function? offering
  anonymousFunction := hi.anonymousFunction? offering
  localClass := hi.localClass? offering
  anonymousClass := hi.anonymousClass? offering
  property := hi.property? offering
  classEntry := hi.class? offering
  object := hi.object? offering
  file := hi.file? offering

omit offering in
/-- No record nests no level. -/
theorem Readers.giveBack_none : Readers.none.GiveBack node 0 where
  function e h := by cases e; exact absurd h (Nat.not_succ_le_zero _)
  anonymousFunction e h := by cases e; exact absurd h (Nat.not_succ_le_zero _)
  localClass e h := by cases e; exact absurd h (Nat.not_succ_le_zero _)
  anonymousClass e h := by cases e; exact absurd h (Nat.not_succ_le_zero _)
  property e h := by cases e; exact absurd h (Nat.not_succ_le_zero _)
  classEntry e h := by cases e; exact absurd h (Nat.not_succ_le_zero _)
  object e h := by cases e; exact absurd h (Nat.not_succ_le_zero _)
  file e h := absurd h (Nat.not_succ_le_zero _)

/-- Readers that may enter some levels give back what has no more, by induction on their number. -/
theorem Inside.givesBack_ofLimit (limit : Nat) :
    (Inside.ofLimit limit).limit = limit ∧ (Inside.ofLimit limit).GivesBack node := by
  induction limit with
  | zero =>
    exact ⟨rfl, Readers.giveBack_none, fun limit h => absurd h (Nat.succ_ne_zero limit).symm⟩
  | succ limit ih =>
    obtain ⟨hlimit, hback⟩ := ih
    have hreaders := hback.readers offering
    rw [hlimit] at hreaders
    refine ⟨rfl, hreaders, fun other h => ⟨_, rfl, ?_⟩⟩
    obtain rfl : limit = other := Nat.succ.inj h
    have hrecords := hback.records
    rwa [hlimit] at hrecords

/-- A report comes back where as many levels may be entered as it has. -/
theorem ofNode?_toData (r : Report) {limit : Nat} (h : r.toData.levels ≤ limit) :
    ofNode? limit (node r.toData) = some r := by
  obtain ⟨files⟩ := r
  obtain ⟨limit, rfl, hfields⟩ := Data.exists_of_levels_record_le h
  obtain ⟨hlimit, hback⟩ := Inside.givesBack_ofLimit offering limit
  rw [Data.levelsOfFields_field_le] at hfields
  obtain ⟨inner, hinner, hitems⟩ := Data.exists_of_levels_list_le hfields
  obtain ⟨items, hsome, hitemsBack⟩ := hback.items inner (hlimit.trans hinner)
  have hnames := Data.namedBy_field "files" (.list (files.map FileEntry.toData))
  obtain ⟨found, hfound, hget⟩ := offering.fields? hnames (by decide)
  have hfiles : found.withDefault? "files" [] ((Inside.ofLimit limit).list? (·.file))
      = some files := by
    have hread : (node (.list (files.map FileEntry.toData))).list? items.file = some files :=
      offering.list? fun e he => hitemsBack.file e (hitems _ (List.mem_map_of_mem he))
    simp [Fields.withDefault?, hget, Inside.list?, hsome, hread]
  refine (congrArg (Option.bind · _) hfound).trans ?_
  simp [hfiles]

end

end Report

end LineAtlas
