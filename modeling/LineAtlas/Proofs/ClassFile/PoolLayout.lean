import LineAtlas.ClassFile.ConstantPool
import LineAtlas.Name.Signature
import LineAtlas.Proofs.ClassFile.ModifiedUtf8
import LineAtlas.Proofs.ClassFile.Reading

/-!
# The layout of constant pools

Constants as they are written, the bytes of a pool, and what stands at an index of it. Reading
the bytes gives a pool in which every index names what was written there.
-/

namespace LineAtlas.ClassFile.Layout

open Reader

/-- The bytes of a number of two bytes. -/
def u2Bytes (n : UInt16) : List UInt8 := bigEndianBytes 2 n.toNat

/-- An index takes two bytes. -/
@[simp]
theorem length_u2Bytes (n : UInt16) : (u2Bytes n).length = 2 := length_bigEndianBytes 2 n.toNat

/-- An index is read back. -/
theorem reads_u2Bytes (n : UInt16) : Reads u2 (u2Bytes n) n.toNat := reads_u2 n.toNat_lt

/-- A constant as it is written, where other constants stand by their indexes. -/
inductive Entry where
  /-- A text. -/
  | text (value : String)
  /-- An integer of four bytes. -/
  | integer (value : Int32)
  /-- A float, by its bits. -/
  | float (bits : UInt32)
  /-- An integer of eight bytes. -/
  | long (value : Int64)
  /-- A double, by its bits. -/
  | double (bits : UInt64)
  /-- A class, by its name. -/
  | classRef (name : UInt16)
  /-- A text as a value. -/
  | string (text : UInt16)
  /-- A field of a class. -/
  | fieldRef (holder signature : UInt16)
  /-- A method of a class. -/
  | methodRef (holder signature : UInt16)
  /-- A method of an interface. -/
  | interfaceMethodRef (holder signature : UInt16)
  /-- A name and a descriptor. -/
  | nameAndType (name descriptor : UInt16)
  /-- A handle of a given kind. -/
  | methodHandle (kind : UInt8) (target : UInt16)
  /-- The type of a method. -/
  | methodType (descriptor : UInt16)
  /-- A constant that is computed. -/
  | dynamic (bootstrap signature : UInt16)
  /-- A call that is linked when it is first made. -/
  | invokeDynamic (bootstrap signature : UInt16)
  /-- A module. -/
  | moduleRef (name : UInt16)
  /-- A package. -/
  | packageRef (name : UInt16)
  deriving DecidableEq

namespace Entry

/-- The number of the kind of a constant. -/
def tag : Entry → Nat
  | text _ => 1
  | integer _ => 3
  | float _ => 4
  | long _ => 5
  | double _ => 6
  | classRef _ => 7
  | string _ => 8
  | fieldRef _ _ => 9
  | methodRef _ _ => 10
  | interfaceMethodRef _ _ => 11
  | nameAndType _ _ => 12
  | methodHandle _ _ => 15
  | methodType _ => 16
  | dynamic _ _ => 17
  | invokeDynamic _ _ => 18
  | moduleRef _ => 19
  | packageRef _ => 20

/-- The bytes of a constant after its kind. -/
def body : Entry → List UInt8
  | text value =>
    bigEndianBytes 2 (ModifiedUtf8.encode value).length ++ ModifiedUtf8.encode value
  | integer value => bigEndianBytes 4 value.toUInt32.toNat
  | float bits => bigEndianBytes 4 bits.toNat
  | long value => bigEndianBytes 8 value.toUInt64.toNat
  | double bits => bigEndianBytes 8 bits.toNat
  | classRef index | string index | methodType index | moduleRef index | packageRef index =>
    u2Bytes index
  | fieldRef first second | methodRef first second | interfaceMethodRef first second
  | nameAndType first second | dynamic first second | invokeDynamic first second =>
    u2Bytes first ++ u2Bytes second
  | methodHandle kind target => kind :: u2Bytes target

/-- The bytes of a constant. -/
def bytes (e : Entry) : List UInt8 := bigEndianBytes 1 e.tag ++ e.body

/-- The length of a text is written in two bytes. -/
def Fits : Entry → Prop
  | text value => (ModifiedUtf8.encode value).length < 2 ^ 16
  | _ => True

/-- What a constant is read as. -/
def constant : Entry → Constant
  | text value => .text value
  | integer value => .integer value.toInt
  | float bits => .float bits.toNat
  | long value => .long value.toInt
  | double bits => .double bits.toNat
  | classRef name => .classRef name.toNat
  | nameAndType name descriptor => .nameAndType name.toNat descriptor.toNat
  | _ => .other

/-- The places a constant takes in the pool; nothing stands at the second place of a wide one. -/
def slots (e : Entry) : List (Option Entry) :=
  if e.constant.isWide then [some e, none] else [some e]

end Entry

/-- A wide number is written as its high part and its low part. -/
theorem bigEndianBytes_add (high low n : Nat) :
    bigEndianBytes (high + low) n
      = bigEndianBytes high (n / 256 ^ low) ++ bigEndianBytes low n := by
  induction low generalizing n with
  | zero => simp [bigEndianBytes]
  | succ low ih =>
    rw [← Nat.add_assoc, bigEndianBytes, bigEndianBytes, ih, List.append_assoc,
      Nat.div_div_eq_div_mul, Nat.pow_succ, Nat.mul_comm 256]

/-- An integer is given back from its four bytes, with its sign. -/
theorem signed_toNat_32 (value : Int32) :
    Constant.signed 32 value.toUInt32.toNat = value.toInt :=
  (BitVec.toInt_eq_toNat_bmod value.toBitVec).symm

/-- A long integer is given back from its eight bytes, with its sign. -/
theorem signed_toNat_64 (value : Int64) :
    Constant.signed 64 value.toUInt64.toNat = value.toInt :=
  (BitVec.toInt_eq_toNat_bmod value.toBitVec).symm

/-- Two words of four bytes one after the other are a number of eight bytes. -/
theorem reads_words {α : Type} (make : Nat → α) {n : Nat} (hn : n < 2 ^ 64) :
    Reads (do
      let high ← u4
      let low ← u4
      return make (high * UInt32.size + low)) (bigEndianBytes 8 n) (make n) := by
  have hhigh := reads_u4 (show n / 2 ^ 32 < 2 ^ 32 by omega)
  have hlow := reads_unsigned_mod 4 n
  rw [show 8 = 4 + 4 from rfl, bigEndianBytes_add]
  refine hhigh.bind (hlow.bind_pure ?_)
  have hn : n / 2 ^ 32 * UInt32.size + n % 256 ^ 4 = n := by
    simp only [UInt32.size]
    omega
  rw [hn]
  exact reads_pure _

namespace Entry

/-- The tag of an entry fits a byte. -/
theorem tag_lt (e : Entry) : e.tag < 2 ^ 8 := by
  cases e <;> simp [tag]

/-- A constant that nothing refers to is skipped. -/
theorem reads_other {count : Nat} {body : List UInt8} (hcount : body.length = count) :
    Reads ((fun _ => Constant.other) <$> skip count) body .other := (reads_skip hcount).map _

/-- A constant of every kind is read from its bytes. -/
theorem reads (e : Entry) (hfits : e.Fits) : Reads Constant.read e.bytes e.constant := by
  refine (reads_u1 e.tag_lt).bind ?_
  cases e with
  | text value =>
    refine (reads_u2 hfits).bind ((reads_bytes rfl).bind_pure ?_)
    rw [ModifiedUtf8.decode_encode]
    exact reads_pure _
  | integer value =>
    have h := (reads_u4 value.toUInt32.toNat_lt).map fun bits =>
      Constant.integer (Constant.signed 32 bits)
    rwa [signed_toNat_32] at h
  | float bits => exact (reads_u4 bits.toNat_lt).map _
  | long value =>
    have h := reads_words (fun bits => Constant.long (Constant.signed 64 bits))
      value.toUInt64.toNat_lt
    rwa [signed_toNat_64] at h
  | double bits => exact reads_words Constant.double bits.toNat_lt
  | classRef name => exact (reads_u2Bytes name).map _
  | string text => exact (reads_u2Bytes text).map _
  | fieldRef holder signature => exact reads_other rfl
  | methodRef holder signature => exact reads_other rfl
  | interfaceMethodRef holder signature => exact reads_other rfl
  | nameAndType name descriptor =>
    exact (reads_u2Bytes name).bind ((reads_u2Bytes descriptor).bind_pure (reads_pure _))
  | methodHandle kind target => exact reads_other rfl
  | methodType descriptor => exact reads_other rfl
  | dynamic bootstrap signature => exact reads_other rfl
  | invokeDynamic bootstrap signature => exact reads_other rfl
  | moduleRef name => exact reads_other rfl
  | packageRef name => exact reads_other rfl

end Entry

/-- What the constant at a place is read as. -/
def slotConstant : Option Entry → Constant
  | some e => e.constant
  | none => .unusable

/-- An entry takes at least one slot, so a count of slots is used up. -/
theorem exists_length_slots (e : Entry) (rest : List Entry) :
    ∃ count, ((e :: rest).flatMap Entry.slots).length = count + 1 := by
  rw [List.flatMap_cons, Entry.slots]
  split
  · exact ⟨_, rfl⟩
  · exact ⟨_, rfl⟩

/-- As many places as the constants take are read from their bytes. -/
theorem reads_readAll {entries : List Entry} (hfits : ∀ e ∈ entries, e.Fits) :
    Reads (Constant.readAll (entries.flatMap Entry.slots).length) (entries.flatMap Entry.bytes)
      ((entries.flatMap Entry.slots).map slotConstant) := by
  induction entries with
  | nil => exact reads_pure []
  | cons e rest ih =>
    have hread := e.reads (hfits e List.mem_cons_self)
    have hrest := ih fun other hother => hfits other (List.mem_cons_of_mem e hother)
    rw [List.flatMap_cons, List.flatMap_cons, List.map_append, List.length_append]
    by_cases hwide : e.constant.isWide
    · rw [Entry.slots, if_pos hwide, Nat.add_comm]
      refine hread.bind ?_
      rw [if_pos hwide]
      exact hrest.bind_pure (reads_pure _)
    · rw [Entry.slots, if_neg hwide, Nat.add_comm]
      -- the last constant of all is read by a case of its own
      cases rest with
      | nil =>
        refine hread.bind ?_
        rw [if_neg hwide]
        exact reads_pure _
      | cons next others =>
        obtain ⟨count, hcount⟩ := exists_length_slots next others
        rw [hcount] at hrest ⊢
        refine hread.bind ?_
        rw [if_neg hwide]
        exact hrest.bind_pure (reads_pure _)

/-- A constant pool as it is written. -/
structure Pool where
  /-- The constants in order. -/
  entries : List Entry

namespace Pool

/-- The places of a pool; there is nothing at index zero. -/
def slots (p : Pool) : List (Option Entry) := none :: p.entries.flatMap Entry.slots

/-- The bytes of a pool. -/
def bytes (p : Pool) : List UInt8 :=
  bigEndianBytes 2 p.slots.length ++ p.entries.flatMap Entry.bytes

/-- The number of places is written in two bytes, and every constant fits. -/
structure Fits (p : Pool) : Prop where
  /-- The number of slots, and one more, has two bytes. -/
  slots : p.slots.length < 2 ^ 16
  /-- Each entry fits its slots. -/
  entries : ∀ e ∈ p.entries, e.Fits

/-- The pool that is read. -/
def constantPool (p : Pool) : ConstantPool := ⟨p.slots.map slotConstant⟩

/-- A pool of a layout is read back slot by slot. -/
theorem reads (p : Pool) (hfits : p.Fits) : Reads ConstantPool.read p.bytes p.constantPool :=
  (reads_u2 hfits.slots).bind ((reads_readAll hfits.entries).bind_pure (reads_pure _))

/-- The constant at an index. -/
def constantAt? (p : Pool) (index : UInt16) : Option Entry := (p.slots[index.toNat]?).join

/-- An index at which a constant of a given kind stands, with its value. -/
structure At (p : Pool) {α : Type} (make : α → Entry) where
  /-- The index. -/
  index : UInt16
  /-- The value of the constant. -/
  value : α
  /-- The constant stands at the index. -/
  stands : p.constantAt? index = some (make value)

/-- An index at which a class stands, by a text that is its name. -/
structure ClassAt (p : Pool) where
  /-- The index. -/
  index : UInt16
  /-- The name of the class. -/
  name : p.At Entry.text
  /-- The class with that name stands at the index. -/
  stands : p.constantAt? index = some (.classRef name.index)

/-- An index at which a name and a descriptor stand. -/
structure SignatureAt (p : Pool) where
  /-- The index. -/
  index : UInt16
  /-- The name. -/
  name : p.At Entry.text
  /-- The descriptor. -/
  descriptor : p.At Entry.text
  /-- The pair of name and descriptor stands at the index. -/
  stands : p.constantAt? index = some (.nameAndType name.index descriptor.index)

/-- The bytes of an index. -/
def At.bytes {p : Pool} {α : Type} {make : α → Entry} (c : p.At make) : List UInt8 :=
  u2Bytes c.index

/-- The bytes of the index of a class. -/
def ClassAt.bytes {p : Pool} (c : p.ClassAt) : List UInt8 := u2Bytes c.index

variable {p : Pool} {index : UInt16} {e : Entry}

/-- There is no constant at index zero. -/
theorem toNat_ne_zero (h : p.constantAt? index = some e) : index.toNat ≠ 0 := by
  intro hzero
  simp [constantAt?, slots, hzero] at h

/-- The pool has the constant of an entry at the index of the entry. -/
theorem get_constantPool (h : p.constantAt? index = some e) :
    p.constantPool.get index.toNat = .ok e.constant := by
  have hslot : p.slots[index.toNat]? = some (some e) := by
    simpa [constantAt?, Option.join_eq_some_iff] using h
  simp [ConstantPool.get, constantPool, hslot, slotConstant]

/-- The index of a text leads to the text. -/
theorem text_at (c : p.At Entry.text) : p.constantPool.text c.index.toNat = .ok c.value := by
  rw [ConstantPool.text, get_constantPool c.stands]
  rfl

/-- The index of an integer leads to the integer. -/
theorem integer_at (c : p.At Entry.integer) :
    p.constantPool.integer c.index.toNat = .ok c.value.toInt := by
  rw [ConstantPool.integer, get_constantPool c.stands]
  rfl

/-- The index of a class leads to its name, through the entry of the class. -/
theorem className_at (c : p.ClassAt) :
    p.constantPool.className c.index.toNat = .ok c.name.value := by
  rw [ConstantPool.className, get_constantPool c.stands]
  exact text_at c.name

/-- The index of a signature leads to the name and the descriptor. -/
theorem nameAndType_at (c : p.SignatureAt) :
    p.constantPool.nameAndType c.index.toNat = .ok (c.name.value, c.descriptor.value) := by
  rw [ConstantPool.nameAndType, get_constantPool c.stands]
  change (do return (← p.constantPool.text c.name.index.toNat,
    ← p.constantPool.text c.descriptor.index.toNat)) = _
  rw [text_at, text_at]
  rfl

/-- The bytes of an index of a text give the text. -/
theorem reads_nextText (c : p.At Entry.text) :
    Reads p.constantPool.nextText c.bytes c.value :=
  (reads_u2Bytes c.index).bind_pure (reads_lift (text_at c))

/-- The bytes of an index of a class give its name. -/
theorem reads_nextClassName (c : p.ClassAt) :
    Reads p.constantPool.nextClassName c.bytes c.name.value :=
  (reads_u2Bytes c.index).bind_pure (reads_lift (className_at c))

end Pool

end LineAtlas.ClassFile.Layout
