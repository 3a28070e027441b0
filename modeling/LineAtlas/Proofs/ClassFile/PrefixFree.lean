import Mathlib.Logic.Basic
import LineAtlas.Proofs.ClassFile.Course

/-!
# No accepted bytes in front of others

A step needs all the bytes it takes: cut short anywhere, they end too early for it. Steps that come
one after the other need what they take together, so a class file needs its last byte. It takes
nothing behind that byte either.
-/

namespace LineAtlas.ClassFile

namespace Reader

/-- A step needs each of some bytes: of any cut of them it says that they end too early, at a
position that is not behind the end. -/
def Needs {α : Type} (step : Reader α) (bytes : List UInt8) : Prop :=
  ∀ part, part <+: bytes → part ≠ bytes → ∀ start, ∃ position ≤ part.length,
    step ⟨start, part⟩ = .error (.unexpectedEnd (start + position))

/-- A step that succeeds takes bytes off the front, needs them, and looks at no others. -/
def Streams {α : Type} (step : Reader α) : Prop :=
  ∀ ⦃cursor after : Cursor⦄ ⦃a : α⦄, step cursor = .ok (a, after) →
    ∃ taken, cursor.rest = taken ++ after.rest ∧ Reads step taken a ∧ Needs step taken

variable {α β : Type} {step : Reader α} {next : α → Reader β} {one two : List UInt8} {a : α}

/-- No bytes have no strict cut, so a step needs all of them. -/
theorem needs_nil : Needs step [] := fun _ hprefix hne => absurd (List.prefix_nil.mp hprefix) hne

/-- A cut either goes through the bytes of the first step or through those of the second. -/
theorem Needs.bind (h : Needs step one) (hreads : Reads step one a) (hnext : Needs (next a) two) :
    Needs (step >>= next) (one ++ two) := by
  intro part hpart hne start
  by_cases hone : part <+: one ∧ part ≠ one
  · obtain ⟨position, hposition, hends⟩ := h part hone.1 hone.2 start
    exact ⟨position, hposition, bind_error hends⟩
  · have hbehind : one <+: part := by
      rcases List.prefix_or_prefix_of_prefix hpart (List.prefix_append one two) with hle | hle
      · exact not_and_not_right.mp hone hle ▸ List.prefix_rfl
      · exact hle
    obtain ⟨tail, rfl⟩ := hbehind
    have htail : tail <+: two := (List.prefix_append_right_inj one).mp hpart
    have htailNe : tail ≠ two := fun heq => hne (by rw [heq])
    obtain ⟨position, hposition, hends⟩ := hnext tail htail htailNe (start + one.length)
    refine ⟨one.length + position, by rw [List.length_append]; omega, ?_⟩
    rw [bind_ok (hreads start tail), hends, Nat.add_assoc]

/-- A step on bytes of its own takes none, whatever it does with these. -/
theorem streams_inside (body : List UInt8) (step : Reader α) : Streams (inside body step) := by
  intro cursor after a hok
  cases hbody : step ⟨0, body⟩ with
  | ok read =>
    obtain ⟨b, left⟩ := read
    rw [inside_ok hbody] at hok
    cases hok
    exact ⟨[], rfl, fun _ _ => inside_ok hbody, needs_nil⟩
  | error cause =>
    rw [inside_error hbody] at hok
    cases hok

end Reader

open Reader

/-- Steps stream when their parts do. -/
theorem streams_law : Law Streams where
  on_pure a := by
    rintro cursor _ _ ⟨⟩
    exact ⟨[], rfl, reads_pure a, needs_nil⟩
  on_bind h hnext := by
    intro cursor after b hok
    obtain ⟨a, between, hstep, hrest⟩ := bind_eq_ok hok
    obtain ⟨one, hone, hreads, hneeds⟩ := h hstep
    obtain ⟨two, htwo, hreadsNext, hneedsNext⟩ := hnext a hrest
    exact ⟨one ++ two, by rw [hone, htwo, List.append_assoc], hreads.bind hreadsNext,
      hneeds.bind hreads hneedsNext⟩
  on_bytes count := by
    intro cursor after taken hok
    obtain ⟨hrest, hcount⟩ := bytes_eq_ok hok
    refine ⟨taken, hrest, reads_bytes hcount, fun part hpart hne start => ⟨0, Nat.zero_le _, ?_⟩⟩
    have hshort : (part.take count).length ≠ count := by
      have hlt : part.length ≠ taken.length := fun heq => hne (hpart.eq_of_length heq)
      have hle := hpart.length_le
      rw [List.length_take]
      omega
    rw [Reader.bytes, if_neg hshort]
    rfl
  on_fail _ := by rintro _ _ _ ⟨⟩
  on_lift _ := by
    intro cursor after a hok
    obtain ⟨hfound, rfl⟩ := lift_eq_ok hok
    exact ⟨[], rfl, reads_lift hfound, needs_nil⟩

variable (pool : ConstantPool)

/-- What is read of a named attribute streams, whatever its body is read with. -/
theorem streams_readNamed {α : Type} (text : String) (reader : Reader (List α)) :
    Streams (readNamed pool text reader) := by
  refine streams_law.on_bind (streams_law.on_readAttribute pool) fun found => ?_
  dsimp only
  split
  · exact streams_inside _ _
  · exact streams_law.on_pure []

/-- Reading an attribute of a class streams. -/
theorem streams_readClassAttribute : Streams (readClassAttribute pool) := by
  refine streams_law.on_bind (streams_law.on_readAttribute pool) fun found => ?_
  dsimp only
  split
  · exact streams_law.on_map (streams_inside _ _) _
  · split
    · exact streams_law.on_map (streams_inside _ _) _
    · split
      · exact streams_law.on_map (streams_inside _ _) _
      · exact streams_law.on_pure _

/-- Reading a class streams, so that it neither looks past its bytes nor needs fewer. -/
theorem streams_readClass : Streams readClass := by
  rw [readClass_eq]
  exact streams_law.on_bind streams_law.on_readFront fun pool => streams_law.on_readMembers pool
    (streams_law.on_readMethod pool (streams_readNamed pool _ _)) (streams_readClassAttribute pool)

/-- A class file is a class with nothing behind it. -/
theorem ofBytes_eq (bytes : List UInt8) : ofBytes bytes = readClass ⟨0, bytes⟩ >>= fun read =>
    if read.2.rest.isEmpty then pure read.1 else throw .trailingBytes := rfl

/-- Accepted bytes are those that a class takes, all of them. -/
theorem ofBytes_eq_ok {bytes : List UInt8} {c : ClassFile} (h : ofBytes bytes = .ok c) :
    Reads readClass bytes c ∧ Needs readClass bytes := by
  rw [ofBytes_eq] at h
  obtain ⟨⟨found, after⟩, hread, h⟩ := Except.bind_eq_ok h
  obtain ⟨taken, hbytes, hreads, hneeds⟩ := streams_readClass hread
  dsimp only at h hbytes
  split at h
  next hend =>
    rw [List.isEmpty_iff.mp hend, List.append_nil] at hbytes
    rw [hbytes]
    cases h
    exact ⟨hreads, hneeds⟩
  next => cases h

/-- A strict cut of bytes that are needed ends too early, within the cut. -/
theorem ofBytes_of_cut {bytes part : List UInt8} (h : Needs readClass bytes)
    (hpart : part <+: bytes) (hne : part ≠ bytes) :
    ∃ position ≤ part.length, ofBytes part = .error (.unexpectedEnd position) := by
  obtain ⟨position, hposition, hends⟩ := h part hpart hne 0
  refine ⟨position, hposition, ?_⟩
  rw [ofBytes_eq, hends, Nat.zero_add]
  rfl

/-- Bytes behind a class are refused. -/
theorem ofBytes_of_extended {bytes more : List UInt8} {c : ClassFile} (h : Reads readClass bytes c)
    (hmore : bytes <+: more) (hne : more ≠ bytes) : ofBytes more = .error .trailingBytes := by
  obtain ⟨tail, rfl⟩ := hmore
  cases tail with
  | nil => exact absurd (List.append_nil bytes) hne
  | cons byte tail =>
    rw [ofBytes_eq, h]
    rfl

/-- Where a class file ends too early, it does so in one of its bodies, and the position lies in
that body. -/
theorem ofBytes_eq_unexpectedEnd {bytes : List UInt8} {position : Nat}
    (h : ofBytes bytes = .error (.unexpectedEnd position)) :
    ∃ body, EndsIn (HoldsPool bytes) readClass bytes body position ∧ position ≤ body.length := by
  rw [ofBytes_eq] at h
  cases course_readClass bytes with
  | takes c taken rest hbytes hread =>
    rw [hread] at h
    change (if rest.isEmpty then pure c else throw Malformed.trailingBytes) = _ at h
    split at h <;> cases h
  | @ends body found hends hposition =>
    rw [hends.apply] at h
    cases h
    exact ⟨body, hends, hposition⟩
  | refuses hcause hread =>
    rw [hread] at h
    cases h
    exact absurd rfl (hcause position)

/-- No accepted class file stands in front of another: each cut of one ends too early, at a position
not behind its end, and bytes behind it are not ignored. Where any bytes at all end too early, the
position is not behind the end of the bytes or of the body of the attribute that end there. -/
theorem ofBytes_prefixFree (bytes : List UInt8) :
    (∀ c, ofBytes bytes = .ok c →
      (∀ part, part <+: bytes → part ≠ bytes →
        ∃ position ≤ part.length, ofBytes part = .error (.unexpectedEnd position)) ∧
      ∀ more, bytes <+: more → more ≠ bytes → ofBytes more = .error .trailingBytes) ∧
    ∀ position, ofBytes bytes = .error (.unexpectedEnd position) →
      ∃ body, EndsIn (HoldsPool bytes) readClass bytes body position ∧ position ≤ body.length := by
  refine ⟨fun c h => ?_, fun position h => ofBytes_eq_unexpectedEnd h⟩
  obtain ⟨hreads, hneeds⟩ := ofBytes_eq_ok h
  exact ⟨fun part => ofBytes_of_cut hneeds, fun more => ofBytes_of_extended hreads⟩

/-- A class file up to the number of its attributes. The constants are a name, the class of that
name, and the name of an attribute. -/
def bareBytes : List UInt8 :=
  [0xCA, 0xFE, 0xBA, 0xBE, 0, 0, 0, 52, 0, 4, 1, 0, 1, 65, 7, 0, 1, 1, 0, 10, 83, 111, 117, 114, 99,
    101, 70, 105, 108, 101, 0, 0, 0, 2, 0, 0, 0, 0, 0, 0, 0, 0]

/-- Without attributes the class file is accepted. With one whose body is a byte too short, that
body ends at its front. -/
theorem ofBytes_prefixFree_bare :
    (∃ position ≤ bareBytes.length, ofBytes bareBytes = .error (.unexpectedEnd position)) ∧
      ofBytes (bareBytes ++ [0, 0, 0]) = .error .trailingBytes ∧
      ∃ body, EndsIn (HoldsPool (bareBytes ++ [0, 1, 0, 3, 0, 0, 0, 1, 0])) readClass
        (bareBytes ++ [0, 1, 0, 3, 0, 0, 0, 1, 0]) body 0 ∧ 0 ≤ body.length := by
  obtain ⟨c, haccepted⟩ : ∃ c, ofBytes (bareBytes ++ [0, 0]) = .ok c := by
    have hok : (ofBytes (bareBytes ++ [0, 0])).toBool = true := by decide +kernel
    cases hread : ofBytes (bareBytes ++ [0, 0]) with
    | ok c => exact ⟨c, rfl⟩
    | error cause => simp [hread, Except.toBool] at hok
  have hshort : ofBytes (bareBytes ++ [0, 1, 0, 3, 0, 0, 0, 1, 0])
      = .error (.unexpectedEnd 0) := by
    -- class files cannot be compared, but faults can
    have hends : (ofBytes (bareBytes ++ [0, 1, 0, 3, 0, 0, 0, 1, 0])).casesOn
        (motive := fun _ => Option Malformed) some (fun _ => none)
          = some (.unexpectedEnd 0) := by decide +kernel
    cases hread : ofBytes (bareBytes ++ [0, 1, 0, 3, 0, 0, 0, 1, 0]) with
    | ok c =>
      rw [hread] at hends
      cases hends
    | error cause =>
      rw [hread] at hends
      exact congrArg _ (Option.some.inj hends)
  have hfree := (ofBytes_prefixFree (bareBytes ++ [0, 0])).1 _ haccepted
  exact ⟨hfree.1 bareBytes (by decide) (by decide),
    hfree.2 (bareBytes ++ [0, 0, 0]) (by decide) (by decide),
    (ofBytes_prefixFree (bareBytes ++ [0, 1, 0, 3, 0, 0, 0, 1, 0])).2 0 hshort⟩

end LineAtlas.ClassFile
