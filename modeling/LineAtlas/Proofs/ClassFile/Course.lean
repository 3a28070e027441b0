import LineAtlas.Proofs.ClassFile.Law
import LineAtlas.Proofs.ClassFile.Reading

/-!
# Where bytes end too early

A step goes the same way wherever it starts: it takes bytes, it refuses them, or they end. The end
is that of the bytes, at a position that counts from the start, or that of the body of an attribute
in them, at a position that counts from the start of the body. No such position lies behind the end.
-/

namespace LineAtlas.ClassFile

open Reader

/-- Somewhere in some bytes an attribute stands: the index of its name in the pool, the length of
its body, and the body. -/
def HoldsAttribute (pool : ConstantPool) (bytes : List UInt8) (name : String)
    (body : List UInt8) : Prop :=
  ∃ before index length after, bytes = before ++ (index ++ (length ++ (body ++ after))) ∧
    index.length = 2 ∧ pool.text (bigEndian index) = .ok name ∧
    length.length = 4 ∧ bigEndian length = body.length

/-- An attribute stands in bytes also when others are put before them. -/
theorem HoldsAttribute.append {pool : ConstantPool} {bytes body : List UInt8} {name : String}
    (h : HoldsAttribute pool bytes name body) (taken : List UInt8) :
    HoldsAttribute pool (taken ++ bytes) name body := by
  obtain ⟨before, index, length, after, rfl, h⟩ := h
  exact ⟨taken ++ before, index, length, after, by rw [List.append_assoc], h⟩

/-- The constants at the front of the bytes of a class file. -/
def HoldsPool (bytes : List UInt8) (pool : ConstantPool) : Prop :=
  ∃ after, readFront ⟨0, bytes⟩ = .ok (pool, after)

/-- How the bodies of attributes are read, by the name of the attribute. -/
inductive ReadsBody (pool : ConstantPool) : String → {α : Type} → Reader α → Prop
  /-- The name of a source file. -/
  | sourceFile : ReadsBody pool "SourceFile" pool.nextText
  /-- The class and the method around a class. -/
  | enclosing : ReadsBody pool "EnclosingMethod" (readEnclosing pool)
  /-- Annotations, however deeply they nest. -/
  | annotations :
    ReadsBody pool "RuntimeVisibleAnnotations" (counted (AnnotationEntry.read pool))
  /-- The code of a method, with its line tables. -/
  | code : ReadsBody pool "Code" (readCode pool)
  /-- The lines of some instructions. -/
  | lineTable : ReadsBody pool "LineNumberTable" readLineTable

/-- A step finds an end too early, at a position of some body. The pools are those that the names of
attributes may come from. -/
inductive EndsIn (pools : ConstantPool → Prop) :
    {α : Type} → Reader α → List UInt8 → List UInt8 → Nat → Prop
  /-- It is the end of the step's own bytes. The position moves with the start. -/
  | own {α : Type} {step : Reader α} {bytes : List UInt8} (position : Nat)
    (h : ∀ start, step ⟨start, bytes⟩ = .error (.unexpectedEnd (start + position))) :
    EndsIn pools step bytes bytes position
  /-- It is found in the body of an attribute, wherever the step starts. -/
  | inBody {α β : Type} {step : Reader α} {reader : Reader β} {pool : ConstantPool}
    {bytes body inner : List UInt8} {name : String} {position : Nat}
    (h : ∀ start, step ⟨start, bytes⟩ = .error (.unexpectedEnd position))
    (hpool : pools pool) (hholds : HoldsAttribute pool bytes name body)
    (hreader : ReadsBody pool name reader) (hends : EndsIn pools reader body inner position) :
    EndsIn pools step bytes inner position

/-- How a step goes on some bytes, wherever it starts. -/
inductive Course (pools : ConstantPool → Prop) {α : Type} (step : Reader α) (bytes : List UInt8) :
    Prop
  /-- It takes bytes from the front. -/
  | takes (a : α) (taken rest : List UInt8) (hbytes : bytes = taken ++ rest)
    (h : ∀ start, step ⟨start, bytes⟩ = .ok (a, ⟨start + taken.length, rest⟩))
  /-- The bytes end too early, but not before the position of the end. -/
  | ends {body : List UInt8} {position : Nat} (h : EndsIn pools step bytes body position)
    (hposition : position ≤ body.length)
  /-- Something else is wrong with the bytes. -/
  | refuses {cause : Malformed} (hcause : ∀ position, cause ≠ .unexpectedEnd position)
    (h : ∀ start, step ⟨start, bytes⟩ = .error cause)

namespace Reader

/-- A step goes one of these ways on all bytes. -/
def Steady (pools : ConstantPool → Prop) {α : Type} (step : Reader α) : Prop :=
  ∀ bytes, Course pools step bytes

variable {α β : Type} {step : Reader α} {next : α → Reader β}

/-- Two steps run one after the other, the second where the first stopped. -/
theorem bind_apply (step : Reader α) (next : α → Reader β) (cursor : Cursor) :
    (step >>= next) cursor = (step cursor >>= fun read => next read.1 read.2) := rfl

/-- Behind a step that succeeds, the next one runs where it stopped. -/
theorem bind_ok {cursor after : Cursor} {a : α} (h : step cursor = .ok (a, after)) :
    (step >>= next) cursor = next a after := by
  rw [bind_apply, h]
  rfl

/-- A body that is read to some place leaves the reader of its attribute where it was. -/
theorem inside_ok {body : List UInt8} {cursor left : Cursor} {a : α}
    (h : step ⟨0, body⟩ = .ok (a, left)) : inside body step cursor = .ok (a, cursor) := by
  simp [inside, StateT.run, h]

/-- The body of an attribute fails as its reader does. -/
theorem inside_error {body : List UInt8} {cursor : Cursor} {cause : Malformed}
    (h : step ⟨0, body⟩ = .error cause) : inside body step cursor = .error cause := by
  simp [inside, StateT.run, h]

/-- Behind a step that fails, nothing is read. -/
theorem bind_error {cursor : Cursor} {cause : Malformed} (h : step cursor = .error cause) :
    (step >>= next) cursor = .error cause := by
  rw [bind_apply, h]
  rfl

end Reader

namespace EndsIn

variable {pools : ConstantPool → Prop} {α β : Type} {step : Reader α} {next : α → Reader β}
  {bytes body : List UInt8} {position : Nat}

/-- What ends too early does so as well when another step would follow. -/
theorem bind (h : EndsIn pools step bytes body position) :
    EndsIn pools (step >>= next) bytes body position := by
  cases h with
  | own position h => exact .own position fun start => bind_error (h start)
  | inBody h hpool hholds hreader hends =>
    exact .inBody (fun start => bind_error (h start)) hpool hholds hreader hends

/-- A step that starts at the front finds the end where it is. -/
theorem apply (h : EndsIn pools step bytes body position) :
    step ⟨0, bytes⟩ = .error (.unexpectedEnd position) := by
  cases h with
  | own position h => rw [h, Nat.zero_add]
  | inBody h _ _ _ _ => exact h 0

/-- Whether a step finds an end too early depends only on what it does on the bytes. -/
theorem congr {other : Reader α} (h : EndsIn pools step bytes body position)
    (hother : ∀ start, other ⟨start, bytes⟩ = step ⟨start, bytes⟩) :
    EndsIn pools other bytes body position := by
  cases h with
  | own position h => exact .own position fun start => (hother start).trans (h start)
  | inBody h hpool hholds hreader hends =>
    exact .inBody (fun start => (hother start).trans (h start)) hpool hholds hreader hends

end EndsIn

namespace Course

variable {pools : ConstantPool → Prop} {α β : Type} {step : Reader α} {next : α → Reader β}
  {bytes : List UInt8}

/-- The way of a step depends only on what it does on the bytes. -/
theorem congr {other : Reader α} (h : Course pools step bytes)
    (hother : ∀ start, other ⟨start, bytes⟩ = step ⟨start, bytes⟩) : Course pools other bytes := by
  cases h with
  | takes a taken rest hbytes h =>
    exact .takes a taken rest hbytes fun start => (hother start).trans (h start)
  | ends h hposition => exact .ends (h.congr hother) hposition
  | refuses hcause h => exact .refuses hcause fun start => (hother start).trans (h start)

/-- A step after one that takes bytes. -/
theorem after {a : α} {taken rest : List UInt8}
    (hstep : ∀ start, step ⟨start, taken ++ rest⟩ = .ok (a, ⟨start + taken.length, rest⟩))
    {second : Reader β} (hsecond : next a = second) (h : Course pools second rest) :
    Course pools (step >>= next) (taken ++ rest) := by
  have hbind (start : Nat) : (step >>= next) ⟨start, taken ++ rest⟩
      = second ⟨start + taken.length, rest⟩ := by rw [bind_ok (hstep start), hsecond]
  cases h with
  | takes b more behind hrest h =>
    refine .takes b (taken ++ more) behind (by rw [hrest, List.append_assoc]) fun start => ?_
    rw [hbind, h, List.length_append, Nat.add_assoc]
  | @ends _ offset h hposition =>
    cases h with
    | own _ h =>
      refine .ends (.own (taken.length + offset) fun start => ?_) ?_
      · rw [hbind, h, Nat.add_assoc]
      · rw [List.length_append]
        omega
    | inBody h hpool hholds hreader hends =>
      exact .ends (.inBody (fun start => (hbind start).trans (h _)) hpool (hholds.append taken)
        hreader hends) hposition
  | refuses hcause h => exact .refuses hcause fun start => (hbind start).trans (h _)

/-- Two steps go one of the ways when the first one does, and the second one on all bytes. -/
theorem bind (h : Course pools step bytes)
    (hnext : ∀ a, Steady pools (next a)) : Course pools (step >>= next) bytes := by
  cases h with
  | takes a taken rest hbytes h =>
    subst hbytes
    exact .after h rfl (hnext a rest)
  | ends h hposition => exact .ends h.bind hposition
  | refuses hcause h => exact .refuses hcause fun start => bind_error (h start)

end Course

/-- Steps are steady when their parts are. -/
theorem steady_law (pools : ConstantPool → Prop) : Law (Steady pools) where
  on_pure a := fun bytes => .takes a [] bytes rfl fun _ => rfl
  on_bind h hnext := fun bytes => (h bytes).bind hnext
  on_bytes count := by
    intro bytes
    by_cases hcount : (bytes.take count).length = count
    · refine .takes (bytes.take count) (bytes.take count) (bytes.drop count)
        (List.take_append_drop count bytes).symm fun start => ?_
      rw [Reader.bytes, if_pos hcount, hcount]
    · refine .ends (.own 0 fun start => ?_) (Nat.zero_le _)
      rw [Reader.bytes, if_neg hcount]
      rfl
  on_fail hcause := fun _ => .refuses hcause fun _ => rfl
  on_lift := by
    intro _ found hfound bytes
    cases found with
    | ok a => exact .takes a [] bytes rfl fun _ => rfl
    | error cause =>
      exact .refuses (fun position heq => hfound position (by rw [heq])) fun _ => rfl

namespace Reader

/-- Bytes that were taken are the front of what was there, as many as asked for. -/
theorem bytes_eq_ok {count : Nat} {cursor after : Cursor} {taken : List UInt8}
    (h : Reader.bytes count cursor = .ok (taken, after)) :
    cursor.rest = taken ++ after.rest ∧ taken.length = count := by
  dsimp only [Reader.bytes] at h
  split at h
  next hcount =>
    simp only [Except.ok.injEq, Prod.mk.injEq] at h
    obtain ⟨rfl, rfl⟩ := h
    exact ⟨(List.take_append_drop count cursor.rest).symm, hcount⟩
  next => simp at h

/-- Where two steps succeed, each of them does, one where the other stopped. -/
theorem bind_eq_ok {α β : Type} {step : Reader α} {next : α → Reader β} {cursor after : Cursor}
    {b : β} (h : (step >>= next) cursor = .ok (b, after)) :
    ∃ a between, step cursor = .ok (a, between) ∧ next a between = .ok (b, after) := by
  obtain ⟨⟨a, between⟩, hstep, hnext⟩ := Except.bind_eq_ok h
  exact ⟨a, between, hstep, hnext⟩

/-- A number that was read stands at the front, in as many bytes as it is wide. -/
theorem unsigned_eq_ok {width n : Nat} {cursor after : Cursor}
    (h : unsigned width cursor = .ok (n, after)) :
    ∃ taken, cursor.rest = taken ++ after.rest ∧ taken.length = width ∧ bigEndian taken = n := by
  obtain ⟨⟨taken, between⟩, hbytes, heq⟩ := Except.map_eq_ok h
  obtain ⟨rfl, rfl⟩ := Prod.mk.inj heq
  obtain ⟨hrest, hlength⟩ := bytes_eq_ok hbytes
  exact ⟨taken, hrest, hlength, rfl⟩

/-- A lookup that succeeds as a step takes no bytes. -/
theorem lift_eq_ok {α : Type} {found : Except Malformed α} {cursor after : Cursor} {a : α}
    (h : (liftM found : Reader α) cursor = .ok (a, after)) : found = .ok a ∧ after = cursor := by
  cases found with
  | error cause => cases h
  | ok b =>
    cases h
    exact ⟨rfl, rfl⟩

end Reader

/-- An attribute that was read stands in the bytes. -/
theorem holdsAttribute_of_readAttribute {pool : ConstantPool} {cursor after : Cursor}
    {name : String} {body : List UInt8}
    (h : readAttribute pool cursor = .ok ((name, body), after)) :
    HoldsAttribute pool cursor.rest name body := by
  obtain ⟨text, behindName, hname, h⟩ := bind_eq_ok h
  obtain ⟨_, behindIndex, hindex, htext⟩ := bind_eq_ok hname
  obtain ⟨_, behindLength, hlength, h⟩ := bind_eq_ok h
  obtain ⟨_, behindBody, hbody, h⟩ := bind_eq_ok h
  cases h
  obtain ⟨index, hrest, hwidth, rfl⟩ := unsigned_eq_ok hindex
  obtain ⟨hfound, rfl⟩ := lift_eq_ok htext
  obtain ⟨length, hrestName, hwidthLength, rfl⟩ := unsigned_eq_ok hlength
  obtain ⟨hrestLength, hcount⟩ := bytes_eq_ok hbody
  refine ⟨[], index, length, after.rest, ?_, hwidth, hfound, hwidthLength, hcount.symm⟩
  rw [hrest, hrestName, hrestLength, List.nil_append]

/-- How a step goes that may look into the body of an attribute, which it has in its hands. -/
def Opens (pools : ConstantPool → Prop) (pool : ConstantPool) (name : String) (body : List UInt8)
    {α : Type} (step : Reader α) : Prop :=
  ∀ rest, Course pools step rest ∨ ∃ inner position, position ≤ inner.length ∧
    (∀ start, step ⟨start, rest⟩ = .error (.unexpectedEnd position)) ∧
    ∃ (β : Type) (reader : Reader β), ReadsBody pool name reader ∧
      EndsIn pools reader body inner position

section Attributes

variable {pools : ConstantPool → Prop} {pool : ConstantPool} {α β : Type}

namespace Opens

variable {name : String} {body : List UInt8} {step : Reader α}

/-- A step that goes its way on all bytes may have the body of any attribute in its hands. -/
theorem of_steady (h : Steady pools step) : Opens pools pool name body step :=
  fun rest => Or.inl (h rest)

/-- The reader of an attribute goes its way in the body, so the step opens the body. -/
theorem inside {reader : Reader α} (hreader : ReadsBody pool name reader)
    (h : Steady pools reader) : Opens pools pool name body (Reader.inside body reader) := by
  intro rest
  cases h body with
  | takes a taken _ _ h => exact Or.inl (.takes a [] rest rfl fun _ => inside_ok (h 0))
  | @ends inner position h hposition =>
    exact Or.inr ⟨inner, position, hposition, fun _ => inside_error h.apply, α, reader, hreader, h⟩
  | refuses hcause h => exact Or.inl (.refuses hcause fun _ => inside_error (h 0))

/-- What is done with the result does not matter to how a step goes. -/
theorem map (h : Opens pools pool name body step) (f : α → β) :
    Opens pools pool name body (f <$> step) := by
  intro rest
  rw [← bind_pure_comp]
  rcases h rest with hcourse | ⟨inner, position, hposition, hstep, hreader⟩
  · exact Or.inl (hcourse.bind fun a => (steady_law pools).on_pure (f a))
  · exact Or.inr ⟨inner, position, hposition, fun start => bind_error (hstep start), hreader⟩

end Opens

/-- An attribute and a step that may look into its body. -/
theorem steady_attribute (hpool : pools pool) {next : String × List UInt8 → Reader α}
    (h : ∀ name body, Opens pools pool name body (next (name, body))) :
    Steady pools (readAttribute pool >>= next) := by
  intro bytes
  cases (steady_law pools).on_readAttribute pool bytes with
  | takes found taken rest hbytes hstep =>
    obtain ⟨name, body⟩ := found
    rcases h name body rest with hcourse | ⟨inner, position, hposition, hnext, _, reader, hr, hends⟩
    · subst hbytes
      exact .after hstep rfl hcourse
    · refine .ends (.inBody (fun start => ?_) hpool (holdsAttribute_of_readAttribute (hstep 0)) hr
        hends) hposition
      rw [bind_ok (hstep start), hnext]
  | ends h hposition => exact .ends h.bind hposition
  | refuses hcause h => exact .refuses hcause fun start => bind_error (h start)

/-- The body of the attributes that are looked into is read by a reader for their name. -/
theorem steady_readNamed (hpool : pools pool) {text : String} {reader : Reader (List α)}
    (hreader : ReadsBody pool text reader) (h : Steady pools reader) :
    Steady pools (readNamed pool text reader) := by
  refine steady_attribute hpool fun name body => ?_
  dsimp only
  split
  next hname =>
    rw [beq_iff_eq] at hname
    subst hname
    exact .inside hreader h
  next => exact .of_steady ((steady_law pools).on_pure [])

/-- Reading a method goes its way on all bytes. -/
theorem steady_readMethod (hpool : pools pool) : Steady pools (readMethod pool) := by
  have htable := steady_readNamed hpool .lineTable (steady_law pools).on_readLineTable
  have hcode := steady_readNamed hpool .code ((steady_law pools).on_readCode pool htable)
  exact (steady_law pools).on_readMethod pool hcode

/-- Reading an annotation goes its way on all bytes. -/
theorem steady_readEntry : Steady pools (AnnotationEntry.read pool) := by
  have hzero : Steady pools (ElementValue.readNested pool 0) :=
    fun _ => .ends (.own 0 fun _ => rfl) (Nat.zero_le _)
  have hvalue : Steady pools (ElementValue.read pool) := fun bytes =>
    ((steady_law pools).on_readNested pool hzero bytes.length bytes).congr fun _ => rfl
  exact (steady_law pools).on_readEntry pool hvalue

/-- Reading an attribute of a class goes its way on all bytes. -/
theorem steady_readClassAttribute (hpool : pools pool) :
    Steady pools (readClassAttribute pool) := by
  refine steady_attribute hpool fun name body => ?_
  dsimp only
  split
  next hname =>
    rw [beq_iff_eq] at hname
    subst hname
    exact (Opens.inside .sourceFile ((steady_law pools).on_nextText pool)).map _
  next =>
  split
  next hname =>
    rw [beq_iff_eq] at hname
    subst hname
    exact (Opens.inside .enclosing ((steady_law pools).on_readEnclosing pool)).map _
  next =>
  split
  next hname =>
    rw [beq_iff_eq] at hname
    subst hname
    exact (Opens.inside .annotations
      ((steady_law pools).on_counted steady_readEntry)).map _
  next => exact .of_steady ((steady_law pools).on_pure _)

end Attributes

/-- How the reading of a class file goes, whose attributes have their names from its constants. -/
theorem course_readClass (bytes : List UInt8) : Course (HoldsPool bytes) readClass bytes := by
  rw [readClass_eq]
  cases (steady_law (HoldsPool bytes)).on_readFront bytes with
  | takes pool taken rest hbytes h =>
    have hpool : HoldsPool bytes pool := ⟨_, h 0⟩
    have hmembers := (steady_law (HoldsPool bytes)).on_readMembers pool (steady_readMethod hpool)
      (steady_readClassAttribute hpool)
    simp only [hbytes] at h ⊢
    rw [hbytes] at hmembers
    exact .after h rfl (hmembers rest)
  | ends h hposition => exact .ends h.bind hposition
  | refuses hcause h => exact .refuses hcause fun start => bind_error (h start)

end LineAtlas.ClassFile
