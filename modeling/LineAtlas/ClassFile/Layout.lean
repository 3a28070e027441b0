import LineAtlas.ClassFile.Basic

/-!
# The layout of a class file

Reads a class file from its bytes. Attributes that are not needed are skipped by their
length; the others have bodies of their own.
-/

namespace LineAtlas.ClassFile

open Reader

/-- The number that starts every class file. -/
def magic : Nat := 0xCAFEBABE

/-- The name and body of an attribute. -/
def readAttribute (pool : ConstantPool) : Reader (String × List UInt8) := do
  let name ← pool.nextText
  let body ← bytes (← u4)
  return (name, body)

/-- Skips an attribute without looking at its name. -/
def skipAttribute : Reader Unit := do
  let _ ← u2
  skip (← u4)

/-- A field. Its attributes are skipped. -/
def readField (pool : ConstantPool) : Reader Field := do
  let access ← u2
  let name ← pool.nextText
  let descriptor ← pool.nextText
  let _ ← counted skipAttribute
  return ⟨access, name, descriptor⟩

/-- The lines of a line table. -/
def readLineTable : Reader (List LineNumber) :=
  counted do
    let _ ← u2
    UInt32.ofNat <$> u2

/-- The lines of all line tables of a piece of code. -/
def readCode (pool : ConstantPool) : Reader (List LineNumber) := do
  let _ ← u2
  let _ ← u2
  skip (← u4)
  skip ((← u2) * 8)
  let tables ← counted do
    let (name, body) ← readAttribute pool
    if name == "LineNumberTable" then inside body readLineTable else return []
  return tables.flatten

/-- A method, with the lines of all its code. -/
def readMethod (pool : ConstantPool) : Reader Method := do
  let access ← u2
  let name ← pool.nextText
  let descriptor ← pool.nextText
  let lines ← counted do
    let (name, body) ← readAttribute pool
    if name == "Code" then inside body (readCode pool) else return []
  return ⟨access, ⟨name, descriptor⟩, LineSet.ofList lines.flatten⟩

/-- The place where a local class is declared; no method has index zero. -/
def readEnclosing (pool : ConstantPool) : Reader EnclosingMethod := do
  let classIndex ← u2
  let methodIndex ← u2
  let method ←
    if methodIndex = 0 then pure none
    else do
      let (name, descriptor) ← pool.nameAndType methodIndex
      pure (some ⟨name, descriptor⟩)
  return ⟨← pool.className classIndex, method⟩

/-- An attribute of a class, as far as it is kept. -/
inductive ClassAttribute where
  /-- The name of the source file. -/
  | sourceFile (name : String)
  /-- The place where the class is declared. -/
  | enclosing (place : EnclosingMethod)
  /-- Annotations. -/
  | annotations (annotations : List AnnotationEntry)
  /-- Any other attribute. -/
  | other

/-- An attribute of a class. -/
def readClassAttribute (pool : ConstantPool) : Reader ClassAttribute := do
  let (name, body) ← readAttribute pool
  if name == "SourceFile" then
    .sourceFile <$> inside body pool.nextText
  else if name == "EnclosingMethod" then
    .enclosing <$> inside body (readEnclosing pool)
  else if name == "RuntimeVisibleAnnotations" then
    .annotations <$> inside body (counted (AnnotationEntry.read pool))
  else
    return .other

/-- The class with one more attribute. A later source file or place replaces an earlier one,
and annotations add up. -/
def withAttribute (c : ClassFile) : ClassAttribute → ClassFile
  | .sourceFile name => { c with sourceFile := some name }
  | .enclosing place => { c with enclosing := some place }
  | .annotations annotations => { c with annotations := c.annotations ++ annotations }
  | .other => c

/-- The superclass; index zero means none. -/
def readSuper (pool : ConstantPool) : Reader (Option String) := do
  let index ← u2
  if index = 0 then return none else return some (← pool.className index)

/-- A class file up to its last attribute. -/
def readClass : Reader ClassFile := do
  if (← u4) ≠ magic then fail .badMagic
  let _ ← u2
  let _ ← u2
  let pool ← ConstantPool.read
  let access ← u2
  let name ← pool.nextClassName
  let superName ← readSuper pool
  let interfaces ← counted pool.nextClassName
  let fields ← counted (readField pool)
  let methods ← counted (readMethod pool)
  let attributes ← counted (readClassAttribute pool)
  let bare : ClassFile :=
    { name, superName, interfaces, access, sourceFile := none, enclosing := none, fields,
      methods, annotations := [] }
  return attributes.foldl withAttribute bare

/-- The class file that bytes spell. Nothing may follow it. -/
def ofBytes (bytes : List UInt8) : Except Malformed ClassFile := do
  let (c, cursor) ← readClass.run ⟨0, bytes⟩
  if cursor.rest.isEmpty then return c else throw .trailingBytes

end LineAtlas.ClassFile
