import LineAtlas.ClassFile.Layout
import LineAtlas.Proofs.Except

/-!
# Properties that steps have from their parts

What holds of the single steps and carries over from two steps to one after the other holds of every
step that is made of them. Attributes are left open: what is done with one depends on its name, and
its body is read by a step of its own.
-/

namespace LineAtlas.ClassFile

open Reader

/-- A step for attributes that looks into those of one name; all others give nothing. -/
def readNamed {α : Type} (pool : ConstantPool) (text : String) (reader : Reader (List α)) :
    Reader (List α) := do
  let (name, body) ← readAttribute pool
  if name == text then inside body reader else return []

/-- The front of a class file, up to its constants. -/
def readFront : Reader ConstantPool := do
  if (← u4) ≠ magic then fail .badMagic
  let _ ← u2
  let _ ← u2
  ConstantPool.read

/-- What stands behind the constants of a class file. -/
def readMembers (pool : ConstantPool) : Reader ClassFile := do
  let access ← u2
  let name ← pool.nextClassName
  let superName ← readSuper pool
  let interfaces ← counted pool.nextClassName
  let fields ← counted (readField pool)
  let methods ← counted (readMethod pool)
  let attributes ← counted (readClassAttribute pool)
  let bare : ClassFile :=
    { name, superName, interfaces, access, sourceFile := none, enclosing := none, fields,
      methods, annotations := [] }
  return attributes.foldl withAttribute bare

/-- A class file is read in two parts, of which the second depends on the first. -/
theorem readClass_eq : readClass = readFront >>= readMembers := by
  rw [readClass, readFront, bind_assoc]
  congr 1
  funext found
  dsimp only
  split
  · rfl
  · simp only [bind_assoc]
    rfl

/-- A property of steps that those made of several have from their parts. -/
structure Law (P : {α : Type} → Reader α → Prop) : Prop where
  /-- Of a step that takes nothing. -/
  on_pure {α : Type} (a : α) : P (pure a : Reader α)
  /-- Of one step after another. -/
  on_bind {α β : Type} {step : Reader α} {next : α → Reader β} :
    P step → (∀ a, P (next a)) → P (step >>= next)
  /-- Of a step that takes bytes. -/
  on_bytes (count : Nat) : P (bytes count)
  /-- Of a step that refuses everything, for a cause other than an early end. -/
  on_fail {α : Type} {cause : Malformed} :
    (∀ position, cause ≠ .unexpectedEnd position) → P (fail cause : Reader α)
  /-- Of a look-up, which does not find an early end either. -/
  on_lift {α : Type} {found : Except Malformed α} :
    (∀ position, found ≠ .error (.unexpectedEnd position)) → P (liftM found : Reader α)

namespace ConstantPool

variable (pool : ConstantPool) (index position : Nat)

/-- Looking up a constant never runs out of bytes. -/
theorem get_ne_unexpectedEnd : pool.get index ≠ .error (.unexpectedEnd position) := by
  unfold get
  split <;> simp

/-- Looking up a text never runs out of bytes. -/
theorem text_ne_unexpectedEnd : pool.text index ≠ .error (.unexpectedEnd position) := by
  unfold text
  split <;> simp

/-- Looking up an integer never runs out of bytes. -/
theorem integer_ne_unexpectedEnd : pool.integer index ≠ .error (.unexpectedEnd position) := by
  unfold integer
  split <;> simp

/-- Looking up the name of a class never runs out of bytes. -/
theorem className_ne_unexpectedEnd : pool.className index ≠ .error (.unexpectedEnd position) := by
  unfold className
  split
  · exact pool.text_ne_unexpectedEnd _ position
  · simp

/-- Looking up a name and a type never runs out of bytes. -/
theorem nameAndType_ne_unexpectedEnd :
    pool.nameAndType index ≠ .error (.unexpectedEnd position) := by
  unfold nameAndType
  split
  next name descriptor _ =>
    intro h
    rcases Except.bind_eq_error h with hname | ⟨_, -, h⟩
    · exact pool.text_ne_unexpectedEnd name position hname
    · rcases Except.bind_eq_error h with hdescriptor | ⟨_, -, h⟩
      · exact pool.text_ne_unexpectedEnd descriptor position hdescriptor
      · simp [pure, Except.pure] at h
  · simp

end ConstantPool

namespace Law

variable {P : {α : Type} → Reader α → Prop} {α β : Type} {step : Reader α}

/-- What is done with the result of a step keeps the law. -/
theorem on_map (law : Law P) (h : P step) (f : α → β) : P (f <$> step) := by
  rw [← bind_pure_comp]
  exact law.on_bind h fun a => law.on_pure (f a)

/-- The law holds for reading a number of any width. -/
theorem on_unsigned (law : Law P) (width : Nat) : P (unsigned width) :=
  law.on_map (law.on_bytes width) _

/-- The law holds for reading one byte. -/
theorem on_u1 (law : Law P) : P u1 := law.on_unsigned 1

/-- The law holds for reading a number of two bytes. -/
theorem on_u2 (law : Law P) : P u2 := law.on_unsigned 2

/-- The law holds for reading a number of four bytes. -/
theorem on_u4 (law : Law P) : P u4 := law.on_unsigned 4

/-- The law holds for skipping bytes. -/
theorem on_skip (law : Law P) (count : Nat) : P (skip count) := law.on_map (law.on_bytes count) _

/-- The law holds for a step that is repeated a number of times. -/
theorem on_replicate (law : Law P) (h : P step) (count : Nat) : P (replicate count step) := by
  induction count with
  | zero => exact law.on_pure []
  | succ count ih => exact law.on_bind h fun _ => law.on_bind ih fun _ => law.on_pure _

/-- The law holds for items behind their count when it holds for one item. -/
theorem on_counted (law : Law P) (h : P step) : P (counted step) :=
  law.on_bind law.on_u2 fun count => law.on_replicate h count

/-- The law holds for the text of a constant. -/
theorem on_readText (law : Law P) : P Constant.readText := by
  refine law.on_bind law.on_u2 fun count => law.on_bind (law.on_bytes count) fun bytes => ?_
  split
  · exact law.on_pure _
  · exact law.on_fail (by simp)

/-- The law holds for a constant of any kind. -/
theorem on_readConstant (law : Law P) : P Constant.read := by
  refine law.on_bind law.on_u1 fun tag => ?_
  split
  case h_1 => exact law.on_readText
  case h_2 => exact law.on_map law.on_u4 _
  case h_3 => exact law.on_map law.on_u4 _
  case h_4 | h_5 =>
    exact law.on_bind law.on_u4 fun high => law.on_bind law.on_u4 fun low => law.on_pure _
  case h_6 => exact law.on_map law.on_u2 _
  case h_7 => exact law.on_map law.on_u2 _
  case h_13 =>
    exact law.on_bind law.on_u2 fun name => law.on_bind law.on_u2 fun descriptor => law.on_pure _
  case h_18 => exact law.on_fail (by simp)
  all_goals exact law.on_map (law.on_skip _) _

/-- The law holds for the constants of a pool, those that take two slots included. -/
theorem on_readAll (law : Law P) (count : Nat) : P (Constant.readAll count) := by
  induction count using Constant.readAll.induct with
  | case1 => exact law.on_pure []
  | case2 => exact law.on_bind law.on_readConstant fun constant => law.on_pure _
  | case3 count ihWide ih =>
    refine law.on_bind law.on_readConstant fun constant => ?_
    split
    · exact law.on_bind ihWide fun others => law.on_pure _
    · exact law.on_bind ih fun others => law.on_pure _

/-- The law holds for the constant pool. -/
theorem on_readPool (law : Law P) : P ConstantPool.read :=
  law.on_bind law.on_u2 fun size => law.on_bind (law.on_readAll (size - 1)) fun _ => law.on_pure _

variable (pool : ConstantPool)

/-- The law holds for the index of a text. -/
theorem on_nextText (law : Law P) : P pool.nextText :=
  law.on_bind law.on_u2 fun index => law.on_lift (pool.text_ne_unexpectedEnd index)

/-- The law holds for the index of a class. -/
theorem on_nextClassName (law : Law P) : P pool.nextClassName :=
  law.on_bind law.on_u2 fun index => law.on_lift (pool.className_ne_unexpectedEnd index)

/-- The law holds for the name and the body of an attribute. -/
theorem on_readAttribute (law : Law P) : P (readAttribute pool) :=
  law.on_bind (law.on_nextText pool) fun _ => law.on_bind law.on_u4 fun length =>
    law.on_bind (law.on_bytes length) fun _ => law.on_pure _

/-- The law holds for an attribute that is passed over. -/
theorem on_skipAttribute (law : Law P) : P skipAttribute :=
  law.on_bind law.on_u2 fun _ => law.on_bind law.on_u4 fun length => law.on_skip length

/-- The law holds for a field. -/
theorem on_readField (law : Law P) : P (readField pool) :=
  law.on_bind law.on_u2 fun _ => law.on_bind (law.on_nextText pool) fun _ =>
    law.on_bind (law.on_nextText pool) fun _ =>
      law.on_bind (law.on_counted law.on_skipAttribute) fun _ => law.on_pure _

/-- The law holds for the super class. -/
theorem on_readSuper (law : Law P) : P (readSuper pool) := by
  refine law.on_bind law.on_u2 fun index => ?_
  split
  · exact law.on_pure none
  · exact law.on_bind (law.on_lift (pool.className_ne_unexpectedEnd index)) fun _ => law.on_pure _

/-- The law holds for a line table. -/
theorem on_readLineTable (law : Law P) : P readLineTable :=
  law.on_counted (law.on_bind law.on_u2 fun _ => law.on_map law.on_u2 _)

/-- The law holds for code when it holds for the line tables inside. -/
theorem on_readCode (law : Law P)
    (htable : P (readNamed pool "LineNumberTable" readLineTable)) : P (readCode pool) :=
  law.on_bind law.on_u2 fun _ => law.on_bind law.on_u2 fun _ => law.on_bind law.on_u4 fun length =>
    law.on_bind (law.on_skip length) fun _ => law.on_bind law.on_u2 fun handlers =>
      law.on_bind (law.on_skip (handlers * 8)) fun _ =>
        law.on_bind (law.on_counted htable) fun _ => law.on_pure _

/-- The law holds for a method when it holds for the code inside. -/
theorem on_readMethod (law : Law P) (hcode : P (readNamed pool "Code" (readCode pool))) :
    P (readMethod pool) :=
  law.on_bind law.on_u2 fun _ => law.on_bind (law.on_nextText pool) fun _ =>
    law.on_bind (law.on_nextText pool) fun _ =>
      law.on_bind (law.on_counted hcode) fun _ => law.on_pure _

/-- The law holds for the enclosing method. -/
theorem on_readEnclosing (law : Law P) : P (readEnclosing pool) := by
  have hplace (holder : Nat) (method : Option Signature) :
      P (do return EnclosingMethod.mk (← pool.className holder) method : Reader EnclosingMethod) :=
    law.on_bind (law.on_lift (pool.className_ne_unexpectedEnd holder)) fun _ => law.on_pure _
  refine law.on_bind law.on_u2 fun holder => law.on_bind law.on_u2 fun method => ?_
  dsimp only
  split
  · exact law.on_bind (law.on_pure none) (hplace holder)
  · exact law.on_bind (law.on_lift (pool.nameAndType_ne_unexpectedEnd method)) fun _ =>
      law.on_bind (law.on_pure _) (hplace holder)

/-- The law holds for a class file up to its members. -/
theorem on_readFront (law : Law P) : P readFront := by
  have hmagic : P (fail .badMagic : Reader ConstantPool) := law.on_fail (by simp)
  refine law.on_bind law.on_u4 fun found => ?_
  dsimp only
  split
  · exact hmagic
  · exact law.on_bind law.on_u2 fun _ => law.on_bind law.on_u2 fun _ => law.on_readPool

/-- The law holds for the members and attributes of a class when it holds for a method and for an
attribute. -/
theorem on_readMembers (law : Law P) (hmethod : P (readMethod pool))
    (hattribute : P (readClassAttribute pool)) : P (readMembers pool) :=
  law.on_bind law.on_u2 fun _ => law.on_bind (law.on_nextClassName pool) fun _ =>
    law.on_bind (law.on_readSuper pool) fun _ =>
      law.on_bind (law.on_counted (law.on_nextClassName pool)) fun _ =>
        law.on_bind (law.on_counted (law.on_readField pool)) fun _ =>
          law.on_bind (law.on_counted hmethod) fun _ =>
            law.on_bind (law.on_counted hattribute) fun _ => law.on_pure _

/-- The law holds for an annotation when it holds for the values inside. -/
theorem on_readEntry {value : Reader ElementValue} (law : Law P) (h : P value) :
    P (AnnotationEntry.readWith pool value) :=
  law.on_bind (law.on_nextText pool) fun _ =>
    law.on_bind (law.on_counted (law.on_bind (law.on_nextText pool) fun _ =>
      law.on_bind h fun _ => law.on_pure _)) fun _ => law.on_pure _

/-- The law holds for a value of any kind when it holds for the values inside. -/
theorem on_readKind {value : Reader ElementValue} (law : Law P) (h : P value) (tag : UInt8) :
    P (ElementValue.readKind pool value tag) := by
  have hinteger : P (do return ElementValue.int (← pool.integer (← u2)) : Reader ElementValue) :=
    law.on_bind law.on_u2 fun index =>
      law.on_bind (law.on_lift (pool.integer_ne_unexpectedEnd index)) fun _ => law.on_pure _
  unfold ElementValue.readKind
  split
  case h_6 | h_7 | h_8 =>
    refine law.on_bind law.on_u2 fun index =>
      law.on_bind (law.on_lift (pool.get_ne_unexpectedEnd index)) fun constant => ?_
    split
    · exact law.on_pure _
    · exact law.on_fail (by simp)
  case h_9 => exact law.on_map (law.on_nextText pool) _
  case h_10 =>
    exact law.on_bind (law.on_nextText pool) fun _ =>
      law.on_bind (law.on_nextText pool) fun _ => law.on_pure _
  case h_11 => exact law.on_map (law.on_nextText pool) _
  case h_12 => exact law.on_map (law.on_readEntry pool h) _
  case h_13 => exact law.on_map (law.on_counted h) _
  case h_14 => exact law.on_fail (by simp)
  all_goals exact hinteger

/-- At depth zero nothing is left to read. -/
theorem on_readNested (law : Law P) (hzero : P (ElementValue.readNested pool 0)) (depth : Nat) :
    P (ElementValue.readNested pool depth) := by
  induction depth with
  | zero => exact hzero
  | succ depth ih => exact law.on_bind law.on_u1 fun tag => law.on_readKind pool ih _

end Law

end LineAtlas.ClassFile
