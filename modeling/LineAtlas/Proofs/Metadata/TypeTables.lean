import LineAtlas.Metadata.Header
import LineAtlas.Proofs.Except
import LineAtlas.Proofs.Metadata.AlikeMessages

/-!
# Types given by index

A type of a function is given in place, or by its index in the type table of the class or package.
The table is read before the function is, so without the type parameters that the function declares.
A type in place and the same type by index are therefore read as the same, but for the name of a
type parameter that the function declares itself. The signature does not depend on such names.
-/

namespace LineAtlas.Metadata

open Wire

/-- Two computations fail for the same cause, or succeed with results that are related. -/
inductive BothRead {α : Type} (related : α → α → Prop) :
    Except Malformed α → Except Malformed α → Prop
  /-- Both fail for the same cause. -/
  | fails (cause : Malformed) : BothRead related (.error cause) (.error cause)
  /-- Both succeed with related results. -/
  | reads {a a' : α} (h : related a a') : BothRead related (.ok a) (.ok a')

/-- Computations that agree go on to agree when their continuations do on related results. -/
theorem BothRead.bind {α β : Type} {related : α → α → Prop} {related' : β → β → Prop}
    {p p' : Except Malformed α} {next next' : α → Except Malformed β} (h : BothRead related p p')
    (hnext : ∀ a a', related a a' → BothRead related' (next a) (next' a')) :
    BothRead related' (p >>= next) (p' >>= next') := by
  cases h with
  | fails cause => exact .fails cause
  | reads h => exact hnext _ _ h

/-- Computations that agree fail for one cause or succeed with related results. -/
theorem BothRead.cases {α : Type} {related : α → α → Prop} {p p' : Except Malformed α}
    (h : BothRead related p p') : (∃ cause, p = .error cause ∧ p' = .error cause) ∨
      ∃ a a', p = .ok a ∧ p' = .ok a' ∧ related a a' := by
  cases h with
  | fails cause => exact Or.inl ⟨cause, rfl, rfl⟩
  | reads h => exact Or.inr ⟨_, _, rfl, rfl, h⟩

/-- What stands before the related computations is the same. -/
theorem BothRead.bind_same {α β : Type} {related : β → β → Prop} (p : Except Malformed α)
    {next next' : α → Except Malformed β} (h : ∀ a, BothRead related (next a) (next' a)) :
    BothRead related (p >>= next) (p >>= next') := by
  cases p with
  | error cause => exact .fails cause
  | ok a => exact h a

/-- Two results show the same, and are the same under exactly one condition. -/
structure SameWhen {α β : Type} (view : α → β) (condition : Prop) (a a' : α) : Prop where
  /-- The results show the same. -/
  view_eq : view a' = view a
  /-- The results are the same exactly under the condition. -/
  eq_iff : a' = a ↔ condition

/-- Equal computations agree under any view. -/
theorem BothRead.of_eq {α β : Type} {view : α → β} {p p' : Except Malformed α} (h : p' = p) :
    BothRead (SameWhen view True) p p' := by
  subst h
  cases p' with
  | error cause => exact .fails cause
  | ok a => exact .reads ⟨rfl, iff_of_true rfl trivial⟩

/-- Two messages of one kind have the same fields beside those with some numbers. -/
def SameBeside (changed : List Nat) (m m' : Message) : Prop :=
  ∀ number ∉ changed, m'.only number = m.only number

namespace SameBeside

variable {changed : List Nat} {m m' : Message}

/-- Messages that differ only beside some fields do so beside more. -/
theorem mono {more : List Nat} (h : SameBeside changed m m') (hmore : changed ⊆ more) :
    SameBeside more m m' :=
  fun number hnumber => h number fun hchanged => hnumber (hmore hchanged)

/-- A number that may be missing is the same where the field is not changed. -/
theorem int? (h : SameBeside changed m m') (number : Nat) (hnumber : number ∉ changed) :
    m'.int? number = m.int? number := by
  rw [← m'.int?_only, h number hnumber, m.int?_only]

/-- A number is the same where the field is not changed. -/
theorem int (h : SameBeside changed m m') (number : Nat) (hnumber : number ∉ changed) :
    m'.int number = m.int number := by
  rw [Message.int, Message.int, h.int? number hnumber, ← m'.only_kind number, h number hnumber,
    m.only_kind]

/-- The messages for a number are the same where the field is not changed. -/
theorem messages (h : SameBeside changed m m') (number : Nat) (hnumber : number ∉ changed) :
    m'.messages number = m.messages number := by
  rw [← m'.messages_only, h number hnumber, m.messages_only]

/-- A list of numbers is the same where the field is not changed. -/
theorem ints (h : SameBeside changed m m') (number : Nat) (hnumber : number ∉ changed) :
    m'.ints number = m.ints number := by
  rw [← m'.ints_only, h number hnumber, m.ints_only]

/-- The message for a number is the same where the field is not changed. -/
theorem message? (h : SameBeside changed m m') (number : Nat) (hnumber : number ∉ changed) :
    m'.message? number = m.message? number := by
  rw [Message.message?, Message.message?, h.messages number hnumber]

/-- The flags of a member are the same where neither of their fields is changed. -/
theorem memberFlags (h : SameBeside changed m m') (newer : Nat) (hnewer : newer ∉ changed)
    (hold : 1 ∉ changed) (default : Int) :
    Metadata.memberFlags m' newer default = Metadata.memberFlags m newer default := by
  rw [Metadata.memberFlags, Metadata.memberFlags, h.int? newer hnewer, h.int? 1 hold]

/-- A type is the same where it is changed neither in place nor by index. -/
theorem typeIn (h : SameBeside changed m m') (inPlace byIndex : Nat) (hplace : inPlace ∉ changed)
    (hindex : byIndex ∉ changed) (s : Scope) :
    s.typeIn m' inPlace byIndex = s.typeIn m inPlace byIndex := by
  rw [Scope.typeIn, Scope.typeIn, h.message? inPlace hplace, h.int? byIndex hindex]

/-- Types are the same where they are changed neither in place nor by index. -/
theorem typesIn (h : SameBeside changed m m') (inPlace byIndex : Nat) (hplace : inPlace ∉ changed)
    (hindex : byIndex ∉ changed) (s : Scope) :
    s.typesIn m' inPlace byIndex = s.typesIn m inPlace byIndex := by
  rw [Scope.typesIn, Scope.typesIn, h.messages inPlace hplace, h.ints byIndex hindex]

/-- The recorded signature is the same where its field is not changed. -/
theorem recordedSignatureIn (h : SameBeside changed m m') (hnumber : 100 ∉ changed) :
    Scope.recordedSignatureIn m' = Scope.recordedSignatureIn m := by
  rw [Scope.recordedSignatureIn, Scope.recordedSignatureIn, h.message? 100 hnumber]

/-- What can be referred to inside a declaration is the same where its type parameters and its type
table are not changed. -/
theorem inside (h : SameBeside changed m m') (number : Nat) (hnumber : number ∉ changed)
    (htable : 30 ∉ changed) (s : Scope) :
    s.inside m' (some number) = s.inside m (some number) := by
  rw [Scope.inside, Scope.inside, h.message? 30 htable, h.messages number hnumber]

end SameBeside

/-- The number of a type parameter that a type refers to by number. -/
def parameterIn? (type : List UInt8) : Option Int :=
  match Message.ofBytes "Type" type with
  | .ok m => if m.int? 6 = none then m.int? 7 else none
  | .error _ => none

/-- A type parameter that a type refers to by number has the same name in two scopes, or none. -/
def SameName (s known : Scope) (type : List UInt8) : Prop :=
  ∀ id ∈ parameterIn? type, known.typeParameter? id = s.typeParameter? id

/-- What a type refers to depends only on the names, or else it is a type parameter by number. -/
theorem classifier_cases (m : Message) {s known : Scope} (hnames : known.names = s.names) :
    ((if m.int? 6 = none then m.int? 7 else none) = none ∧ known.classifier m = s.classifier m) ∨
      ∃ id, (if m.int? 6 = none then m.int? 7 else none) = some id ∧ ∀ s : Scope,
        s.classifier m = .ok (some (.typeParameter id (s.typeParameter? id))) := by
  unfold Scope.classifier
  rw [hnames]
  cases m.int? 6 with
  | some index => exact Or.inl ⟨rfl, rfl⟩
  | none =>
    cases m.int? 7 with
    | some id => exact Or.inr ⟨id, rfl, fun _ => rfl⟩
    | none =>
      refine Or.inl ⟨rfl, ?_⟩
      cases m.int? 9 <;> cases m.int? 12 <;> rfl

/-- A type that is read in one scope is read in another one that knows the same names. Both times it
is the same class, if any, and the same type unless a type parameter has another name. -/
theorem type_sameWhen {s known : Scope} (hnames : known.names = s.names) {type : List UInt8}
    {t' : TypeRef} (h : known.type type = .ok t') : ∃ t, s.type type = .ok t ∧
      SameWhen TypeRef.className? (SameName s known type) t t' := by
  obtain ⟨m, hm, hclassified⟩ := Except.bind_eq_ok h
  obtain ⟨c, hc, hresult⟩ := Except.bind_eq_ok hclassified
  obtain rfl := Except.ok.inj hresult
  have hnumber : parameterIn? type = if m.int? 6 = none then m.int? 7 else none := by
    rw [parameterIn?, hm]
  rcases classifier_cases m hnames with ⟨hnone, hsame⟩ | ⟨id, hid, hclassifier⟩
  · refine ⟨_, Except.bind_ok hm (Except.bind_ok (hsame ▸ hc) rfl), rfl, iff_of_true rfl ?_⟩
    intro id hid
    rw [hnumber, hnone] at hid
    exact absurd hid (by simp)
  · obtain rfl := Except.ok.inj ((hclassifier known).symm.trans hc)
    refine ⟨_, Except.bind_ok hm (Except.bind_ok (hclassifier s) rfl), rfl, ?_⟩
    simp [SameName, hnumber, hid]

/-- Indexes in a scope lead to the types of a table, as they are read in a scope that knows the
same names. -/
structure ReadsTable (s known : Scope) (table : List (List UInt8)) : Prop where
  /-- The scope that knows the types has the same names. -/
  names : known.names = s.names
  /-- An index leads to the type at that place of the table. -/
  typeAt : ∀ {index : Int} {type : List UInt8}, itemAt? table index = some type →
    ∃ t, s.typeAt index = .ok t ∧ known.type type = .ok t

/-- Without a first nullable type none is made nullable. -/
theorem nullableFrom_neg (types : List TypeRef) : Scope.nullableFrom (-1) types = types := by
  rw [Scope.nullableFrom]
  exact List.ext_getElem (by simp) fun index _ _ => by simp

/-- What the scope inside a message is made of. -/
theorem inside_cases {s inner : Scope} {m : Message} {parameterField : Option Nat}
    (h : s.inside m parameterField = .ok inner) : inner.names = s.names ∧
      ((m.message? 30 = none ∧ inner.types = s.types) ∨ ∃ bytes types, m.message? 30 = some bytes ∧
        inner.typeTable bytes = .ok types ∧ inner.types = types) := by
  unfold Scope.inside at h
  cases hm : m.message? 30 with
  | none =>
    simp only [hm] at h
    have hinner : ∃ parameters, inner = { s with typeParameters := parameters } := by
      cases parameterField
      all_goals
        obtain ⟨parameters, -, h⟩ := Except.bind_eq_ok h
        exact ⟨_, (Except.ok.inj h).symm⟩
    obtain ⟨parameters, rfl⟩ := hinner
    exact ⟨rfl, Or.inl ⟨rfl, rfl⟩⟩
  | some bytes =>
    simp only [hm] at h
    have hinner : ∃ parameters types,
        ({ s with typeParameters := parameters } : Scope).typeTable bytes = .ok types ∧
          inner = { s with typeParameters := parameters, types } := by
      cases parameterField
      all_goals
        obtain ⟨parameters, -, h⟩ := Except.bind_eq_ok h
        obtain ⟨types, hread, h⟩ := Except.bind_eq_ok h
        exact ⟨_, types, hread, (Except.ok.inj h).symm⟩
    obtain ⟨parameters, types, hread, rfl⟩ := hinner
    exact ⟨rfl, Or.inr ⟨bytes, types, rfl, hread, rfl⟩⟩

/-- Inside a message with a type table indexes lead to its types. -/
theorem ReadsTable.inside {s inner : Scope} {m table : Message} {parameterField : Option Nat}
    {bytes : List UInt8} (h : s.inside m parameterField = .ok inner)
    (hbytes : m.message? 30 = some bytes) (htable : Message.ofBytes "TypeTable" bytes = .ok table)
    (hnullable : table.int? 2 = none) : ReadsTable inner inner (table.messages 1) := by
  refine ⟨rfl, fun {index type} hitem => ?_⟩
  rcases (inside_cases h).2 with ⟨hnone, -⟩ | ⟨bytes', types, hbytes', hread, htypes⟩
  · rw [hnone] at hbytes
    simp at hbytes
  · obtain rfl : bytes = bytes' := Option.some.inj (hbytes.symm.trans hbytes')
    obtain ⟨table', htable', hread⟩ := Except.bind_eq_ok hread
    obtain rfl := Except.ok.inj (htable.symm.trans htable')
    obtain ⟨read, hmapM, hread⟩ := Except.bind_eq_ok hread
    rw [hnullable] at hread
    have hsame : types = read := (Except.ok.inj hread).symm.trans (nullableFrom_neg read)
    have hpos : ¬ index < 0 := by
      intro hneg
      rw [itemAt?, if_pos hneg] at hitem
      simp at hitem
    rw [itemAt?, if_neg hpos] at hitem
    obtain ⟨t, ht, htype⟩ := Except.getElem?_of_mapM hmapM hitem
    refine ⟨t, ?_, htype⟩
    rw [Scope.typeAt, itemAt?, if_neg hpos, htypes, hsame, ht]

/-- A function without a type table has the types of the scope around it. -/
theorem ReadsTable.of_inside {s inner : Scope} {m : Message} {parameterField : Option Nat}
    {table : List (List UInt8)} (hs : ReadsTable s s table)
    (h : s.inside m parameterField = .ok inner) (hnone : m.message? 30 = none) :
    ReadsTable inner s table := by
  obtain ⟨hnames, ⟨-, htypes⟩ | ⟨bytes, types, hbytes, -⟩⟩ := inside_cases h
  · refine ⟨hnames.symm, fun {index type} hitem => ?_⟩
    obtain ⟨t, ht, htype⟩ := hs.typeAt hitem
    exact ⟨t, by rw [← ht, Scope.typeAt, Scope.typeAt, htypes], htype⟩
  · rw [hnone] at hbytes
    simp at hbytes

/-- A type that is given in place in the first of two messages is given by its index in the second.
All other fields are the same. -/
structure Moved (table : List (List UInt8)) (inPlace byIndex : Nat) (m m' : Message)
    (type : List UInt8) : Prop where
  /-- The first message gives the type in place. -/
  given : m.message? inPlace = some type
  /-- The second message gives no type in place. -/
  gone : m'.messages inPlace = []
  /-- The second message gives an index of the type in the table. -/
  index : ∃ index, m'.int? byIndex = some index ∧ itemAt? table index = some type
  /-- The other fields are the same. -/
  beside : SameBeside [inPlace, byIndex] m m'

/-- A type of a parameter that is given in place in the first of two messages is given by its index
in the second: the type of its value or that of each of its values. -/
inductive MovedInParameter (table : List (List UInt8)) (p p' type : List UInt8) : Prop
  /-- The type of the value is moved. -/
  | value {m m' : Message} (hm : Message.ofBytes "ValueParameter" p = .ok m)
      (hm' : Message.ofBytes "ValueParameter" p' = .ok m') (h : Moved table 3 5 m m' type)
  /-- The type of each of several values is moved. -/
  | vararg {m m' : Message} (hm : Message.ofBytes "ValueParameter" p = .ok m)
      (hm' : Message.ofBytes "ValueParameter" p' = .ok m') (h : Moved table 4 6 m m' type)

/-- Types that are given in place in the first of two function messages are given by their indexes
in the second: the type of the receiver, of the result, of a parameter, or of all the context
receivers. All other fields are the same. -/
inductive MovedInFunction (table : List (List UInt8)) (m m' : Message) :
    List (List UInt8) → Prop
  /-- The type of the receiver is moved. -/
  | receiver {type : List UInt8} (h : Moved table 5 8 m m' type) : MovedInFunction table m m' [type]
  /-- The type of the result is moved. -/
  | returns {type : List UInt8} (h : Moved table 3 7 m m' type) : MovedInFunction table m m' [type]
  /-- A type of one of the parameters is moved. -/
  | parameter {front back : List (List UInt8)} {p p' type : List UInt8}
      (hp : m.messages 6 = front ++ p :: back) (hp' : m'.messages 6 = front ++ p' :: back)
      (h : MovedInParameter table p p' type) (beside : SameBeside [6] m m') :
      MovedInFunction table m m' [type]
  /-- The types of all context receivers are moved. -/
  | context {indexes : List Int} (gone : m'.messages 10 = [])
      (hindexes : m'.ints 11 = (indexes ++ ·) <$> m.ints 11)
      (htypes : List.Forall₂ (fun index type => itemAt? table index = some type) indexes
        (m.messages 10))
      (beside : SameBeside [10, 11] m m') : MovedInFunction table m m' (m.messages 10)

/-- Moving types to the table changes only the fields that give types. -/
theorem MovedInFunction.beside {table types : List (List UInt8)} {m m' : Message}
    (h : MovedInFunction table m m' types) : SameBeside [3, 5, 6, 7, 8, 10, 11] m m' := by
  cases h with
  | receiver h => exact h.beside.mono (by decide)
  | returns h => exact h.beside.mono (by decide)
  | parameter hp hp' h hbeside => exact hbeside.mono (by decide)
  | context gone hindexes htypes hbeside => exact hbeside.mono (by decide)

section Slots

variable {s known : Scope} {table : List (List UInt8)}

/-- A type that is moved to the table is of the same class. It is the same type exactly if its name
is the same there. -/
theorem ReadsTable.typeIn (hs : ReadsTable s known table) {inPlace byIndex : Nat} {m m' : Message}
    {type : List UInt8} (h : Moved table inPlace byIndex m m' type) :
    BothRead (SameWhen (Option.map TypeRef.className?) (SameName s known type))
      (s.typeIn m inPlace byIndex) (s.typeIn m' inPlace byIndex) := by
  obtain ⟨index, hindex, hitem⟩ := h.index
  obtain ⟨t', hat, hknown⟩ := hs.typeAt hitem
  obtain ⟨t, htype, hclass, hsame⟩ := type_sameWhen hs.names hknown
  have hgone : m'.message? inPlace = none := by rw [Message.message?, h.gone, List.getLast?_nil]
  rw [Scope.typeIn, Scope.typeIn, h.given, hgone, hindex]
  dsimp only
  rw [htype, hat]
  exact .reads ⟨congrArg some hclass, by rw [Option.some.injEq, hsame]⟩

/-- What the descriptor of a function depends on: the class of each type. -/
def classOf (p : Parameter) : Option (Option String) := p.type.map TypeRef.className?

/-- A parameter whose type is moved to the table is of the same class. -/
theorem ReadsTable.parameter (hs : ReadsTable s known table) {p p' type : List UInt8}
    (h : MovedInParameter table p p' type) :
    BothRead (SameWhen classOf (SameName s known type)) (s.parameter p) (s.parameter p') := by
  cases h with
  | @value m m' hm hm' h =>
    have hbeside := h.beside
    rw [Scope.parameter, Scope.parameter, hm, hm']
    change BothRead _ (m.int 2 >>= _) (m'.int 2 >>= _)
    rw [hbeside.int 2 (by decide), hbeside.typeIn 4 6 (by decide) (by decide),
      hbeside.int? 1 (by decide)]
    refine .bind_same _ fun index => .bind_same _ fun name => (hs.typeIn h).bind fun t t' ht =>
      .bind_same _ fun vararg => .reads ⟨ht.view_eq, ?_⟩
    simp [ht.eq_iff]
  | @vararg m m' hm hm' h =>
    have hbeside := h.beside
    rw [Scope.parameter, Scope.parameter, hm, hm']
    change BothRead _ (m.int 2 >>= _) (m'.int 2 >>= _)
    rw [hbeside.int 2 (by decide), hbeside.typeIn 3 5 (by decide) (by decide),
      hbeside.int? 1 (by decide)]
    refine .bind_same _ fun index => .bind_same _ fun name => .bind_same _ fun t =>
      (hs.typeIn h).bind fun vararg vararg' hvararg => .reads ⟨rfl, ?_⟩
    simp [hvararg.eq_iff]

/-- Among parameters, one whose type is moved to the table keeps the classes of all. -/
theorem ReadsTable.parameters (hs : ReadsTable s known table) {p p' type : List UInt8}
    (h : MovedInParameter table p p' type) (front back : List (List UInt8)) :
    BothRead (SameWhen (List.map classOf) (SameName s known type))
      ((front ++ p :: back).mapM s.parameter) ((front ++ p' :: back).mapM s.parameter) := by
  rw [List.mapM_append, List.mapM_append, List.mapM_cons, List.mapM_cons]
  simp only [bind_assoc, pure_bind]
  refine .bind_same _ fun first => (hs.parameter h).bind fun q q' hq =>
    .bind_same _ fun last => .reads ⟨?_, ?_⟩
  · simp [hq.view_eq]
  · simp [hq.eq_iff]

/-- Types are read through their indexes. They are the same as in place exactly if all their names
are. -/
theorem ReadsTable.typesAt (hs : ReadsTable s known table) {indexes : List Int}
    {types : List (List UInt8)}
    (h : List.Forall₂ (fun index type => itemAt? table index = some type) indexes types) :
    ∃ ts ts', types.mapM s.type = .ok ts ∧ indexes.mapM s.typeAt = .ok ts' ∧
      (ts' = ts ↔ ∀ type ∈ types, SameName s known type) := by
  induction h with
  | nil => exact ⟨[], [], rfl, rfl, by simp⟩
  | cons hitem _ ih =>
    obtain ⟨ts, ts', hts, hts', hsame⟩ := ih
    obtain ⟨t', hat, hknown⟩ := hs.typeAt hitem
    obtain ⟨t, htype, -, hfirst⟩ := type_sameWhen hs.names hknown
    refine ⟨t :: ts, t' :: ts', ?_, ?_, ?_⟩
    · rw [List.mapM_cons, htype, hts]
      rfl
    · rw [List.mapM_cons, hat, hts']
      rfl
    · rw [List.cons.injEq, hfirst, hsame, List.forall_mem_cons]

/-- Context receivers that are moved to the table are read all the same, up to their names. -/
theorem ReadsTable.typesIn (hs : ReadsTable s known table) {m m' : Message} {indexes : List Int}
    (gone : m'.messages 10 = []) (hindexes : m'.ints 11 = (indexes ++ ·) <$> m.ints 11)
    (htypes : List.Forall₂ (fun index type => itemAt? table index = some type) indexes
      (m.messages 10)) :
    BothRead (SameWhen (fun _ => ()) (∀ type ∈ m.messages 10, SameName s known type))
      (s.typesIn m 10 11) (s.typesIn m' 10 11) := by
  obtain ⟨ts, ts', hts, hts', hsame⟩ := hs.typesAt htypes
  rw [Scope.typesIn, Scope.typesIn, gone, hindexes, hts]
  cases m.ints 11 with
  | error cause => exact .fails cause
  | ok others =>
    change BothRead _ (others.mapM s.typeAt >>= _) ((indexes ++ others).mapM s.typeAt >>= _)
    rw [List.mapM_append, hts']
    cases others.mapM s.typeAt with
    | error cause => exact .fails cause
    | ok last => exact .reads ⟨rfl, by simp [hsame]⟩

end Slots

/-- The derived descriptor depends only on the classes of the types. -/
theorem functionDescriptor?_congr {receiver receiver' returns returns' : Option TypeRef}
    {parameters parameters' : List Parameter}
    (hreceiver : receiver'.map TypeRef.className? = receiver.map TypeRef.className?)
    (hparameters : parameters'.map classOf = parameters.map classOf)
    (hreturns : returns'.map TypeRef.className? = returns.map TypeRef.className?) :
    functionDescriptor? receiver' parameters' returns'
      = functionDescriptor? receiver parameters returns := by
  have hbind (t : Option TypeRef) :
      t.bind mapType? = (t.map TypeRef.className?).bind (Option.map mapClass) := by
    cases t <;> rfl
  have hmapped (parameters : List Parameter) : mapParameters? parameters
      = String.join <$> (parameters.map classOf).mapM fun c => c.bind (Option.map mapClass) := by
    rw [mapParameters?, List.mapM_map]
    exact congrArg _ (congrArg parameters.mapM (funext fun p => hbind p.type))
  have hclass (t t' : TypeRef) (h : t'.className? = t.className?) : mapType? t' = mapType? t := by
    rw [mapType?, mapType?, h]
  unfold functionDescriptor?
  rw [hmapped parameters', hmapped parameters, hparameters,
    hbind returns', hbind returns, hreturns]
  cases receiver with
  | none =>
    cases receiver' with
    | none => rfl
    | some t' => simp at hreceiver
  | some t =>
    cases receiver' with
    | none => simp at hreceiver
    | some t' =>
      dsimp only
      rw [hclass t t' (Option.some.inj hreceiver)]

section Function

variable {outer s : Scope} {f f' : List UInt8} {m m' : Message}

/-- A function fails when its own type parameters or its own type table do. -/
theorem function_error (hf : Message.ofBytes "Function" f = .ok m) {cause : Malformed}
    (hinside : outer.inside m (some 4) = .error cause) : outer.function f = .error cause := by
  rw [Scope.function, hf]
  change (outer.inside m (some 4) >>= _) = _
  rw [hinside]
  rfl

/-- A function depends on its types as they are read. Its signature depends on their classes. -/
theorem function_bothRead (hf : Message.ofBytes "Function" f = .ok m)
    (hf' : Message.ofBytes "Function" f' = .ok m')
    (hbeside : SameBeside [3, 5, 6, 7, 8, 10, 11] m m')
    (hinside : outer.inside m (some 4) = .ok s) {receiver context returns parameters : Prop}
    (hreceiver : BothRead (SameWhen (Option.map TypeRef.className?) receiver) (s.typeIn m 5 8)
      (s.typeIn m' 5 8))
    (hcontext : BothRead (SameWhen (fun _ => ()) context) (s.typesIn m 10 11) (s.typesIn m' 10 11))
    (hreturns : BothRead (SameWhen (Option.map TypeRef.className?) returns) (s.typeIn m 3 7)
      (s.typeIn m' 3 7))
    (hparameters : BothRead (SameWhen (List.map classOf) parameters)
      ((m.messages 6).mapM s.parameter) ((m'.messages 6).mapM s.parameter)) :
    BothRead (SameWhen FunctionDecl.signature (receiver ∧ context ∧ parameters ∧ returns))
      (outer.function f) (outer.function f') := by
  have hinside' : outer.inside m' (some 4) = .ok s :=
    (hbeside.inside 4 (by decide) (by decide) outer).trans hinside
  rw [Scope.function, Scope.function, hf, hf']
  change BothRead _ (outer.inside m (some 4) >>= _) (outer.inside m' (some 4) >>= _)
  rw [hinside, hinside']
  change BothRead _ (m.int 2 >>= _) (m'.int 2 >>= _)
  rw [hbeside.int 2 (by decide), hbeside.recordedSignatureIn (by decide),
    hbeside.memberFlags 9 (by decide) (by decide)]
  refine .bind_same _ fun index => .bind_same _ fun name => hreceiver.bind fun r r' hr =>
    hcontext.bind fun c c' hc => hreturns.bind fun t t' ht => hparameters.bind fun ps ps' hps =>
    .bind_same _ fun recorded => .bind_same _ fun methodName => .bind_same _ fun descriptor =>
    .reads ?_
  have hsignature := functionDescriptor?_congr hr.view_eq hps.view_eq ht.view_eq
  refine ⟨?_, ?_⟩
  · dsimp only
    rw [hsignature]
  · rw [FunctionDecl.mk.injEq, hr.eq_iff, hc.eq_iff, ht.eq_iff, hps.eq_iff, hsignature]
    simp

/-- What it changes in a function that types are given by index, by the scope of the table. -/
theorem function_moved {known : Scope} {table types : List (List UInt8)}
    (hf : Message.ofBytes "Function" f = .ok m) (hf' : Message.ofBytes "Function" f' = .ok m')
    (hinside : outer.inside m (some 4) = .ok s) (hs : ReadsTable s known table)
    (hmoved : MovedInFunction table m m' types) :
    BothRead (SameWhen FunctionDecl.signature (∀ type ∈ types, SameName s known type))
      (outer.function f) (outer.function f') := by
  have hread := hmoved.beside
  cases hmoved with
  | @receiver type h =>
    have hall := function_bothRead hf hf' hread hinside (hs.typeIn h)
      (.of_eq (h.beside.typesIn 10 11 (by decide) (by decide) s))
      (.of_eq (h.beside.typeIn 3 7 (by decide) (by decide) s))
      (.of_eq (by rw [h.beside.messages 6 (by decide)]))
    simpa using hall
  | @returns type h =>
    have hall := function_bothRead hf hf' hread hinside
      (.of_eq (h.beside.typeIn 5 8 (by decide) (by decide) s))
      (.of_eq (h.beside.typesIn 10 11 (by decide) (by decide) s)) (hs.typeIn h)
      (.of_eq (by rw [h.beside.messages 6 (by decide)]))
    simpa using hall
  | @parameter front back p p' type hp hp' h hbeside =>
    have hparameters := hs.parameters h front back
    rw [← hp, ← hp'] at hparameters
    have hall := function_bothRead hf hf' hread hinside
      (.of_eq (hbeside.typeIn 5 8 (by decide) (by decide) s))
      (.of_eq (hbeside.typesIn 10 11 (by decide) (by decide) s))
      (.of_eq (hbeside.typeIn 3 7 (by decide) (by decide) s)) hparameters
    simpa using hall
  | @context indexes gone hindexes htypes hbeside =>
    have hall := function_bothRead hf hf' hread hinside
      (.of_eq (hbeside.typeIn 5 8 (by decide) (by decide) s)) (hs.typesIn gone hindexes htypes)
      (.of_eq (hbeside.typeIn 3 7 (by decide) (by decide) s))
      (.of_eq (by rw [hbeside.messages 6 (by decide)]))
    simpa using hall

/-- Types of a function that are given in place may be given by index as well, as long as the type
table of the message around the function has them. That is a package, or a class with a field for
its type parameters. The function is then refused for the same fault, or its signature stays the
same, and the whole function too unless a type refers by number to a type parameter that has another
name around the function than inside it. Where the function has a type table of its own, that takes
the place of the other, and nothing changes at all. -/
theorem function_byIndex {around : Scope} {enclosing entries : Message}
    {parameterField : Option Nat} {tableBytes : List UInt8} {types : List (List UInt8)}
    (houter : around.inside enclosing parameterField = .ok outer)
    (hf : Message.ofBytes "Function" f = .ok m) (hf' : Message.ofBytes "Function" f' = .ok m')
    (hentries : Message.ofBytes "TypeTable" tableBytes = .ok entries)
    (hnullable : entries.int? 2 = none)
    (hmoved : MovedInFunction (entries.messages 1) m m' types) :
    (m.message? 30 = none → enclosing.message? 30 = some tableBytes →
      (∃ cause, outer.function f = .error cause ∧ outer.function f' = .error cause) ∨
        ∃ s decl decl', outer.inside m (some 4) = .ok s ∧ outer.function f = .ok decl ∧
          outer.function f' = .ok decl' ∧ decl'.signature = decl.signature ∧
          (decl' = decl ↔ ∀ type ∈ types, SameName s outer type)) ∧
      (m.message? 30 = some tableBytes → outer.function f' = outer.function f) := by
  cases hinside : outer.inside m (some 4) with
  | error cause =>
    have hinside' := (hmoved.beside.inside 4 (by decide) (by decide) outer).trans hinside
    have herror := function_error hf hinside
    have herror' := function_error hf' hinside'
    exact ⟨fun _ _ => Or.inl ⟨cause, herror, herror'⟩, fun _ => herror'.trans herror.symm⟩
  | ok s =>
    refine ⟨fun hnone henclosing => ?_, fun hown => ?_⟩
    · have hs := (ReadsTable.inside houter henclosing hentries hnullable).of_inside hinside hnone
      rcases (function_moved hf hf' hinside hs hmoved).cases with
        hfails | ⟨decl, decl', hdecl, hdecl', hsame⟩
      · exact Or.inl hfails
      · exact Or.inr ⟨s, decl, decl', rfl, hdecl, hdecl', hsame.view_eq, hsame.eq_iff⟩
    · have hs := ReadsTable.inside hinside hown hentries hnullable
      rcases (function_moved hf hf' hinside hs hmoved).cases with
        ⟨cause, herror, herror'⟩ | ⟨decl, decl', hdecl, hdecl', hsame⟩
      · exact herror'.trans herror.symm
      · obtain rfl : decl' = decl := hsame.eq_iff.mpr fun _ _ _ _ => rfl
        exact hdecl'.trans hdecl.symm

end Function

/-- The fields of a function whose receiver is a class, in place or by index. -/
def classFields (inPlace : Bool) : List Wire.Field :=
  [⟨2, .varint 0⟩, if inPlace then ⟨5, .bytes [0x30, 0x01]⟩ else ⟨8, .varint 0⟩]

/-- The scope in a package whose type table has that class. -/
def tableScope : Scope where
  names := ⟨["f", "shop/Cart"], []⟩
  types := [⟨some (.classRef "shop/Cart"), false⟩]

/-- The receiver in `classFields` is moved to the table, whatever the function has besides. -/
theorem moved_classFields (rest : List Wire.Field)
    (hrest : rest = [] ∨ rest = [⟨30, .bytes [0x0a, 0x02, 0x30, 0x01]⟩]) :
    MovedInFunction [[0x30, 0x01]] ⟨"Function", classFields true ++ rest⟩
      ⟨"Function", classFields false ++ rest⟩ [[0x30, 0x01]] := by
  have hbeside : SameBeside [5, 8] ⟨"Function", classFields true ++ rest⟩
      ⟨"Function", classFields false ++ rest⟩ := by
    intro number hnumber
    simp only [List.mem_cons, List.not_mem_nil, or_false, not_or] at hnumber
    simp [Message.only, classFields, Ne.symm hnumber.1, Ne.symm hnumber.2, List.filter_cons]
  rcases hrest with rfl | rfl
  · exact .receiver ⟨by decide, by decide, ⟨0, by decide, by decide⟩, hbeside⟩
  · exact .receiver ⟨by decide, by decide, ⟨0, by decide, by decide⟩, hbeside⟩

/-- A receiver that is a class is read the same by index, also when the function has a table of its
own. -/
theorem function_byIndex_class :
    tableScope.function [0x10, 0x00, 0x40, 0x00]
        = tableScope.function [0x10, 0x00, 0x2a, 0x02, 0x30, 0x01] ∧
      tableScope.function [0x10, 0x00, 0x40, 0x00, 0xf2, 0x01, 0x04, 0x0a, 0x02, 0x30, 0x01]
        = tableScope.function
            [0x10, 0x00, 0x2a, 0x02, 0x30, 0x01, 0xf2, 0x01, 0x04, 0x0a, 0x02, 0x30, 0x01] := by
  have htable : ({ names := tableScope.names } : Scope).typeTable [0x0a, 0x02, 0x30, 0x01]
      = .ok tableScope.types := by
    decide +kernel
  have houter : ({ names := tableScope.names } : Scope).inside
      ⟨"Package", [⟨30, .bytes [0x0a, 0x02, 0x30, 0x01]⟩]⟩ none = .ok tableScope := by
    have hnone : (pure [] : Except Malformed (List (Int × String))) = .ok [] := rfl
    exact Except.bind_ok hnone (Except.bind_ok htable rfl)
  have hentries : Message.ofBytes "TypeTable" [0x0a, 0x02, 0x30, 0x01]
      = .ok ⟨"TypeTable", [⟨1, .bytes [0x30, 0x01]⟩]⟩ := by
    decide +kernel
  refine ⟨?_, ?_⟩
  · have hf : Message.ofBytes "Function" [0x10, 0x00, 0x2a, 0x02, 0x30, 0x01]
        = .ok ⟨"Function", classFields true ++ []⟩ := by
      decide +kernel
    have hf' : Message.ofBytes "Function" [0x10, 0x00, 0x40, 0x00]
        = .ok ⟨"Function", classFields false ++ []⟩ := by
      decide +kernel
    have hbyIndex := function_byIndex houter hf hf' hentries (by decide)
      (moved_classFields [] (Or.inl rfl))
    rcases hbyIndex.1 (by decide) (by decide) with
      ⟨cause, herror, herror'⟩ | ⟨s, decl, decl', -, hdecl, hdecl', -, hsame⟩
    · exact herror'.trans herror.symm
    · have hnames : ∀ type ∈ [[0x30, 0x01]], SameName s tableScope type := by
        have hclass : parameterIn? [0x30, 0x01] = none := by decide +kernel
        simp [SameName, hclass]
      rw [hdecl, hdecl', hsame.mpr hnames]
  · exact (function_byIndex houter (by decide +kernel) (by decide +kernel) hentries (by decide)
      (moved_classFields _ (Or.inr rfl))).2 (by decide)

/-- The header of a file with a function `f` whose receiver is its own type parameter `T`. The type
of the receiver is `38 00`, in place or by index. The type table of the package has it in any
case. -/
def genericHeader (inPlace : Bool) : Header where
  kind := 2
  version := [1, 9, 0]
  payload := [
    "\x00\x00" ++
      (if inPlace then "\x1a\x0c\x10\x00\x22\x04\x08\x00\x10\x01\x2a\x02\x38\x00"
        else "\x1a\x0a\x10\x00\x22\x04\x08\x00\x10\x01\x40\x00") ++
      "\xf2\x01\x04\x0a\x02\x38\x00"]
  strings := ["f", "T"]
  extraString := none
  packageName := none
  extraInt := 0

/-- That function, with the name by which its receiver is known. -/
def genericFunction (name : Option String) : FunctionDecl where
  name := "f"
  kind := .declaration
  visibility := .publicUse
  receiver := some ⟨some (.typeParameter 0 name), false⟩
  context := []
  parameters := []
  returns := none
  signature := none

/-- The name of a type parameter is lost when a type of its own function is given by index. -/
theorem decode_loses_typeParameterName :
    (genericHeader true).decode = .ok (.fileFacade ⟨[genericFunction (some "T")], []⟩) ∧
      (genericHeader false).decode = .ok (.fileFacade ⟨[genericFunction none], []⟩) ∧
      (genericFunction (some "T")).render = "T.()" ∧ (genericFunction none).render = "#0.()" := by
  refine ⟨?_, ?_, ?_, ?_⟩ <;> decide +kernel

end LineAtlas.Metadata
