import Mathlib.Algebra.Group.Nat.Defs
import LineAtlas.ClassFile.Bytes

/-!
# Reading what was written

Bytes spell a value for a step when the step takes exactly these bytes off the front and answers
with the value, whatever follows them. Steps that come one after the other read bytes that stand
one after the other.
-/

namespace LineAtlas.ClassFile

/-- The bytes of a number, the most significant first; the ones that do not fit are left out. -/
def bigEndianBytes : Nat → Nat → List UInt8
  | 0, _ => []
  | width + 1, n => bigEndianBytes width (n / 256) ++ [UInt8.ofNat n]

/-- A number takes as many bytes as it is wide. -/
@[simp]
theorem length_bigEndianBytes (width n : Nat) : (bigEndianBytes width n).length = width := by
  induction width generalizing n with
  | zero => rfl
  | succ width ih => simp [bigEndianBytes, ih]

/-- Items after their number, which takes two bytes. -/
def countedBytes {α : Type} (items : List α) (bytes : α → List UInt8) : List UInt8 :=
  bigEndianBytes 2 items.length ++ items.flatMap bytes

namespace Reader

/-- A further byte counts as the lowest digit. -/
theorem bigEndian_append (bytes : List UInt8) (byte : UInt8) :
    bigEndian (bytes ++ [byte]) = bigEndian bytes * 256 + byte.toNat := by
  simp [bigEndian]

/-- Writing a number and reading it gives what fits of it. -/
theorem bigEndian_bigEndianBytes (width n : Nat) :
    bigEndian (bigEndianBytes width n) = n % 256 ^ width := by
  induction width generalizing n with
  | zero => simp [bigEndianBytes, bigEndian, Nat.mod_one]
  | succ width ih =>
    rw [bigEndianBytes, bigEndian_append, ih, Nat.pow_succ, Nat.mul_comm (256 ^ width), Nat.mod_mul,
      UInt8.toNat_ofNat']
    omega

/-- A step takes bytes off the front and answers with a value. -/
def Reads {α : Type} (step : Reader α) (bytes : List UInt8) (value : α) : Prop :=
  ∀ offset rest, step ⟨offset, bytes ++ rest⟩ = .ok (value, ⟨offset + bytes.length, rest⟩)

variable {α β : Type} {step : Reader α} {next : α → Reader β} {one two : List UInt8} {a : α} {b : β}

/-- A step that only gives a value takes no bytes. -/
theorem reads_pure (a : α) : Reads (pure a) [] a := fun _ _ => rfl

/-- Steps that follow one another read the bytes of both in turn. -/
theorem Reads.bind (h : Reads step one a) (hnext : Reads (next a) two b) :
    Reads (step >>= next) (one ++ two) b := by
  intro offset rest
  change (step ⟨offset, one ++ two ++ rest⟩ >>= fun read => next read.1 read.2) = _
  rw [List.append_assoc, h]
  change next a ⟨offset + one.length, two ++ rest⟩ = _
  rw [hnext, List.length_append, Nat.add_assoc]

/-- What is made of an answer afterwards takes no bytes. -/
theorem Reads.bind_pure (h : Reads step one a) (hnext : Reads (next a) [] b) :
    Reads (step >>= next) one b := by
  simpa using h.bind hnext

/-- A step that takes no bytes in front. -/
theorem Reads.pure_bind (h : Reads step [] a) (hnext : Reads (next a) two b) :
    Reads (step >>= next) two b := h.bind hnext

/-- What is done with the value does not change the bytes that are read. -/
theorem Reads.map (h : Reads step one a) (f : α → β) : Reads (f <$> step) one (f a) := by
  rw [← bind_pure_comp]
  exact h.bind_pure (reads_pure (f a))

/-- A look-up that succeeds takes no bytes. -/
theorem reads_lift {found : Except Malformed α} (h : found = .ok a) :
    Reads (liftM found) [] a := by
  subst h
  exact fun _ _ => rfl

/-- Bytes are read as they stand, when their number is asked for. -/
theorem reads_bytes {count : Nat} {body : List UInt8} (hcount : body.length = count) :
    Reads (bytes count) body body := by
  intro offset rest
  subst hcount
  simp [bytes]

/-- Reading a number gives what fits its width. -/
theorem reads_unsigned_mod (width n : Nat) :
    Reads (unsigned width) (bigEndianBytes width n) (n % 256 ^ width) := by
  have h := (reads_bytes (length_bigEndianBytes width n)).map bigEndian
  rwa [bigEndian_bigEndianBytes] at h

/-- A number that fits its width is read back. -/
theorem reads_unsigned {width n : Nat} (hn : n < 256 ^ width) :
    Reads (unsigned width) (bigEndianBytes width n) n := by
  have h := reads_unsigned_mod width n
  rwa [Nat.mod_eq_of_lt hn] at h

/-- A number below `2 ^ 8` is read back from one byte. -/
theorem reads_u1 {n : Nat} (hn : n < 2 ^ 8) : Reads u1 (bigEndianBytes 1 n) n :=
  reads_unsigned hn

/-- A number below `2 ^ 16` is read back from two bytes. -/
theorem reads_u2 {n : Nat} (hn : n < 2 ^ 16) : Reads u2 (bigEndianBytes 2 n) n :=
  reads_unsigned hn

/-- A number below `2 ^ 32` is read back from four bytes. -/
theorem reads_u4 {n : Nat} (hn : n < 2 ^ 32) : Reads u4 (bigEndianBytes 4 n) n :=
  reads_unsigned hn

/-- Skipping reads past the bytes that it is told to. -/
theorem reads_skip {count : Nat} {body : List UInt8} (hcount : body.length = count) :
    Reads (skip count) body () :=
  (reads_bytes hcount).map _

/-- A step for each of several items reads their bytes one after the other. -/
theorem reads_replicate {ι : Type} {items : List ι} {bytes : ι → List UInt8} {value : ι → α}
    (h : ∀ item ∈ items, Reads step (bytes item) (value item)) :
    Reads (replicate items.length step) (items.flatMap bytes) (items.map value) := by
  induction items with
  | nil => exact reads_pure []
  | cons item rest ih =>
    rw [List.flatMap_cons]
    exact (h item List.mem_cons_self).bind
      ((ih fun other hother => h other (List.mem_cons_of_mem item hother)).bind_pure
        (reads_pure _))

/-- Items behind their count are read back, one after the other. -/
theorem reads_counted {ι : Type} {items : List ι} {bytes : ι → List UInt8} {value : ι → α}
    (hcount : items.length < 2 ^ 16) (h : ∀ item ∈ items, Reads step (bytes item) (value item)) :
    Reads (counted step) (countedBytes items bytes) (items.map value) :=
  (reads_u2 hcount).bind (reads_replicate h)

/-- A step on bytes of its own takes no bytes. -/
theorem reads_inside {body : List UInt8} (h : Reads step body a) :
    Reads (inside body step) [] a := by
  intro offset rest
  have hbody : step ⟨0, body⟩ = .ok (a, ⟨0 + body.length, []⟩) := by
    simpa using h 0 []
  simp [inside, StateT.run, hbody]

end Reader

end LineAtlas.ClassFile
