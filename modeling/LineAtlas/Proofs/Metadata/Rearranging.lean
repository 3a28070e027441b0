import LineAtlas.Metadata.Header
import LineAtlas.Proofs.Metadata.AlikeMessages
import LineAtlas.Proofs.Metadata.Packed

/-!
# Messages whose fields are rearranged

Fields with different numbers may change places, and fields that are not read may be added, in a
message and in every message inside it: what is read stays the same, and so does the fault where
nothing is read.
-/

namespace LineAtlas.Metadata

open Wire

/-- The bytes of one message are obtained from those of another by changing the places of fields
with different numbers, and by adding or removing fields whose numbers are not read, in the message
and in messages inside it. A field that is not read may so be removed and come back with other
contents. Behind the fields there may be bytes that spell no field. -/
inductive Rearranged : MessageKind → List UInt8 → List UInt8 → Prop
  /-- Fields change places, but those with the same number keep their order. -/
  | reorder {kind : MessageKind} (one two : List Piece) (rest : List UInt8)
      (horder : ∀ number, one.filter (·.number = number) = two.filter (·.number = number)) :
      Rearranged kind (spelled one ++ rest) (spelled two ++ rest)
  /-- A field that is not read is added. -/
  | insert {kind : MessageKind} (front : List Piece) (extra : Piece) (rest : List UInt8)
      (hunread : extra.number ∉ kind.numbers) :
      Rearranged kind (spelled front ++ rest) (spelled front ++ (extra.bytes ++ rest))
  /-- A message in a field that is read is rearranged. -/
  | inside {kind inner : MessageKind} (front : List Piece) (old new : Piece) (rest : List UInt8)
      {number : Nat} {before after : List UInt8} (hinner : kind.inner? number = some inner)
      (hold : old.field = ⟨number, .bytes before⟩) (hnew : new.field = ⟨number, .bytes after⟩)
      (hrearranged : Rearranged inner before after) :
      Rearranged kind (spelled front ++ (old.bytes ++ rest)) (spelled front ++ (new.bytes ++ rest))
  /-- Nothing is done. -/
  | refl {kind : MessageKind} (bytes : List UInt8) : Rearranged kind bytes bytes
  /-- What was done is undone. -/
  | symm {kind : MessageKind} {one two : List UInt8} (h : Rearranged kind one two) :
      Rearranged kind two one
  /-- One rearrangement follows another. -/
  | trans {kind : MessageKind} {one two three : List UInt8} (h : Rearranged kind one two)
      (h' : Rearranged kind two three) : Rearranged kind one three

namespace Agree

variable {kind : MessageKind} {one two : List Wire.Field}

/-- Fields agree with themselves. -/
theorem refl (kind : MessageKind) (fields : List Wire.Field) : Agree kind fields fields :=
  fun _ _ => List.forall₂_same.mpr fun field _ => .refl field

/-- Fields that agree part by part agree as a whole. -/
theorem append {one' two' : List Wire.Field} (h : Agree kind one two) (h' : Agree kind one' two') :
    Agree kind (one ++ one') (two ++ two') := by
  intro number hread
  rw [List.filter_append, List.filter_append]
  exact List.rel_append (h number hread) (h' number hread)

/-- Fields agree when those with each number that is read are the same. -/
theorem of_filter_eq (h : ∀ number ∈ kind.numbers,
    one.filter (·.number = number) = two.filter (·.number = number)) : Agree kind one two := by
  intro number hread
  rw [h number hread]
  exact List.forall₂_same.mpr fun field _ => .refl field

end Agree

/-- Messages are spelled alike when the fields in front agree and the same bytes follow. -/
theorem SpelledAlike.of_agree {kind : MessageKind} {one two : List Piece}
    (h : Agree kind (one.map Piece.field) (two.map Piece.field)) (rest : List UInt8) :
    SpelledAlike kind (spelled one ++ rest) (spelled two ++ rest) := by
  cases hrest : fieldsIn rest with
  | error cause =>
    exact Or.inl ⟨cause, by rw [fieldsIn_spelled, hrest]; rfl, by rw [fieldsIn_spelled, hrest]; rfl⟩
  | ok others =>
    exact Or.inr ⟨_, _, by rw [fieldsIn_spelled, hrest]; rfl, by rw [fieldsIn_spelled, hrest]; rfl,
      h.append (.refl kind others)⟩

/-- Rearranged messages are read as the same. -/
theorem Rearranged.sameReading {kind : MessageKind} {one two : List UInt8}
    (h : Rearranged kind one two) : kind.SameReading one two := by
  induction h with
  | reorder one two rest horder =>
    refine (SpelledAlike.of_agree (.of_filter_eq fun number _ => ?_) rest).sameReading
    rw [List.filter_map, List.filter_map]
    exact congrArg (List.map Piece.field) (horder number)
  | @insert kind front extra rest hunread =>
    rw [← spelled_concat]
    refine (SpelledAlike.of_agree (.of_filter_eq fun number hread => ?_) rest).sameReading
    have hother : extra.field.number ≠ number := fun h => hunread (by rwa [Piece.number, h])
    simp [hother]
  | @inside kind inner front old new rest number before after hinner hold hnew _ ih =>
    rw [← spelled_concat, ← spelled_concat]
    have hfields : Agree kind [old.field] [new.field] := by
      intro asked _
      rw [hold, hnew]
      by_cases h : number = asked
      · simpa [h] using FieldsAgree.inside (h ▸ hinner) ih
      · simp [h]
    refine (SpelledAlike.of_agree ?_ rest).sameReading
    rw [List.map_append, List.map_append]
    exact (Agree.refl kind _).append hfields
  | refl bytes => exact fun _ => rfl
  | symm _ ih => exact fun s => (ih s).symm
  | trans _ _ ih ih' => exact fun s => (ih s).trans (ih' s)

/-- A field may be moved behind others with other numbers. -/
theorem Rearranged.moveBehind {kind : MessageKind} (front : List Piece) (p : Piece)
    {passed : List Piece} (rest : List UInt8) (h : ∀ q ∈ passed, q.number ≠ p.number) :
    Rearranged kind (spelled (front ++ p :: passed) ++ rest)
      (spelled (front ++ (passed ++ [p])) ++ rest) := by
  refine .reorder _ _ rest fun number => ?_
  rw [List.filter_append, List.filter_append, List.filter_append, ← List.singleton_append,
    List.filter_append]
  congr 1
  by_cases hp : p.number = number
  · have hnone : passed.filter (·.number = number) = [] := by
      rw [List.filter_eq_nil_iff]
      intro q hq
      simpa [← hp] using h q hq
    rw [hnone, List.nil_append, List.append_nil]
  · have hnone : [p].filter (·.number = number) = [] := by simp [hp]
    rw [hnone, List.nil_append, List.append_nil]

namespace Header

/-- The kind of the message that a payload holds, by the kind of the class file. -/
def messageKind? : Int → Option MessageKind
  | 1 => some .classDecl
  | 2 | 5 => some .packageDecl
  | 3 => some .function
  | _ => none

/-- A payload holds the bytes of a string table and, behind them, those of a message. -/
def Holds (payload : List String) (table message : List UInt8) : Prop :=
  ∃ bytes, Packing.unpack payload = .ok bytes ∧ Wire.delimited bytes = .ok (table, message)

/-- A payload is opened into the names of its table and its message. -/
theorem Holds.openPayload {h : Header} {table message : List UInt8}
    (hholds : Holds h.payload table message) :
    h.openPayload = (fun names => ({ names }, message)) <$> NameTable.ofBytes h.strings table := by
  obtain ⟨bytes, hunpack, hdelimited⟩ := hholds
  rw [Header.openPayload, hunpack]
  change (Wire.delimited bytes >>= _) = _
  rw [hdelimited]
  change (NameTable.ofBytes h.strings table >>= _) = _
  cases NameTable.ofBytes h.strings table <;> rfl

/-- A payload that holds anything has a string. -/
theorem Holds.isEmpty {payload : List String} {table message : List UInt8}
    (hholds : Holds payload table message) : payload.isEmpty = false := by
  obtain ⟨bytes, hunpack, hdelimited⟩ := hholds
  cases payload with
  | nil =>
    obtain rfl : [] = bytes := Except.ok.inj hunpack
    simp [Wire.delimited, Wire.varint, Wire.varintWithin] at hdelimited
  | cons first rest => rfl

/-- A declaration is the same when its message is rearranged. -/
theorem read_eq {h : Header} {payload : List String} {kind : MessageKind}
    {table one two : List UInt8} (hone : Holds h.payload table one)
    (htwo : Holds payload table two) (hrearranged : Rearranged kind one two) :
    { h with payload }.read kind.read = h.read kind.read := by
  rw [Header.read, Header.read, hone.openPayload, Holds.openPayload htwo]
  cases NameTable.ofBytes h.strings table with
  | error cause => rfl
  | ok names => exact (hrearranged.sameReading { names }).symm

/-- What a class file is decoded to, or why it is refused, depends neither on the order of fields
with different numbers nor on fields that are not read, in the message of its payload and in every
message inside that one. So it is the same with the type table before or behind the members. -/
theorem decode_rearranged (h : Header) {payload : List String} {kind : MessageKind}
    {table one two : List UInt8} (hkind : messageKind? h.kind = some kind)
    (hone : Holds h.payload table one) (htwo : Holds payload table two) :
    (Rearranged kind one two → { h with payload }.decode = h.decode) ∧
      ∀ (front passed : List Piece) (types : Piece) (rest : List UInt8), types.number = 30 →
        (∀ p ∈ passed, p.number ≠ 30) → one = spelled (front ++ types :: passed) ++ rest →
        two = spelled (front ++ (passed ++ [types])) ++ rest →
        { h with payload }.decode = h.decode := by
  have hsame (hrearranged : Rearranged kind one two) : { h with payload }.decode = h.decode := by
    have hread := read_eq hone htwo hrearranged
    rw [Header.decode, Header.decode]
    dsimp only
    split
    · unfold messageKind? at hkind
      split at hkind
      · next hnumber =>
        obtain rfl := Option.some.inj hkind
        rw [hnumber]
        exact congrArg (Document.classDecl <$> ·) hread
      · next hnumber =>
        obtain rfl := Option.some.inj hkind
        rw [hnumber]
        exact congrArg (Document.fileFacade <$> ·) hread
      · next hnumber =>
        obtain rfl := Option.some.inj hkind
        rw [hnumber]
        exact congrArg (Document.multiFilePart (h.extraString.getD "") <$> ·) hread
      · next hnumber =>
        obtain rfl := Option.some.inj hkind
        rw [hnumber, hone.isEmpty, htwo.isEmpty]
        exact congrArg ((Document.syntheticClass ∘ some) <$> ·) hread
      · simp at hkind
    · rfl
  refine ⟨hsame, fun front passed types rest htypes hpassed hfirst hsecond => hsame ?_⟩
  rw [hfirst, hsecond]
  exact .moveBehind front types rest fun p hp => htypes ▸ hpassed p hp

/-- A type table with one type, the class with the second name. -/
def receiverTypes : Piece :=
  ⟨[0xf2, 0x01, 0x04, 0x0a, 0x02, 0x30, 0x01], ⟨30, .bytes [0x0a, 0x02, 0x30, 0x01]⟩, rfl⟩

/-- A function with the first name, whose receiver is the first type of the table. -/
def receiverFunction : Piece :=
  ⟨[0x1a, 0x04, 0x10, 0x00, 0x40, 0x00], ⟨3, .bytes [0x10, 0x00, 0x40, 0x00]⟩, rfl⟩

/-- The same function: the receiver comes before the name, and a field is there that is not read. -/
def swappedFunction : Piece :=
  ⟨[0x1a, 0x06, 0x40, 0x00, 0x60, 0x07, 0x10, 0x00],
    ⟨3, .bytes [0x40, 0x00, 0x60, 0x07, 0x10, 0x00]⟩, rfl⟩

/-- The two spellings of the function are rearrangements of one another. -/
theorem rearranged_receiverFunction : Rearranged .function [0x10, 0x00, 0x40, 0x00]
    [0x40, 0x00, 0x60, 0x07, 0x10, 0x00] := by
  let name : Piece := ⟨[0x10, 0x00], ⟨2, .varint 0⟩, rfl⟩
  let receiver : Piece := ⟨[0x40, 0x00], ⟨8, .varint 0⟩, rfl⟩
  let unread : Piece := ⟨[0x60, 0x07], ⟨12, .varint 7⟩, rfl⟩
  have hmoved : Rearranged .function (spelled [name, receiver] ++ [])
      (spelled [receiver, name] ++ []) := .moveBehind [] name [] (by decide)
  exact hmoved.trans (.insert [receiver] unread name.bytes (by decide))

/-- The header of a file with such a package message. -/
def receiverHeader (fields : List Piece) : Header where
  kind := 2
  version := [1, 9, 0]
  payload := [String.ofList (Packing.Layout.bytewise.characters (0x00 :: spelled fields))]
  strings := ["f", "shop/Cart"]
  extraString := none
  packageName := none
  extraInt := 0

/-- The payload holds an empty table and the message. -/
theorem holds_receiverHeader (fields : List Piece) :
    Holds (receiverHeader fields).payload [] (spelled fields) := by
  have hspells : Packing.Layout.bytewise.Spells (receiverHeader fields).payload
      (0x00 :: spelled fields) :=
    ⟨by simp [receiverHeader], by simp [receiverHeader, Packing.Layout.characters]⟩
  exact ⟨_, hspells.unpack, by simp [Wire.delimited, Wire.varint, Wire.varintWithin]⟩

/-- With the type table in front or behind, and with a function whose fields have changed places,
the header decodes to the same. -/
theorem decode_rearranged_receiver :
    (receiverHeader [swappedFunction, receiverTypes]).decode
        = (receiverHeader [receiverTypes, receiverFunction]).decode ∧
      (receiverHeader [receiverFunction, receiverTypes]).decode
        = (receiverHeader [receiverTypes, receiverFunction]).decode := by
  have hinside : Rearranged .packageDecl (spelled [receiverTypes, receiverFunction])
      (spelled [receiverTypes, swappedFunction]) :=
    .inside [receiverTypes] receiverFunction swappedFunction [] rfl rfl rfl
      rearranged_receiverFunction
  have hmoved : Rearranged .packageDecl (spelled [receiverTypes, swappedFunction] ++ [])
      (spelled [swappedFunction, receiverTypes] ++ []) :=
    .moveBehind [] receiverTypes [] (by decide)
  exact ⟨(decode_rearranged (receiverHeader [receiverTypes, receiverFunction]) rfl
      (holds_receiverHeader _) (holds_receiverHeader _)).1 (hinside.trans hmoved),
    (decode_rearranged (receiverHeader [receiverTypes, receiverFunction]) rfl
      (holds_receiverHeader _) (holds_receiverHeader _)).2 [] [receiverFunction] receiverTypes []
      rfl (by decide) rfl rfl⟩

end Header

end LineAtlas.Metadata
