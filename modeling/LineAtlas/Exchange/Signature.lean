import LineAtlas.Exchange.Data
import LineAtlas.Exchange.Node
import LineAtlas.Name.Signature

/-!
# The written form of signatures

A signature is written as a record of its two parts.
-/

namespace LineAtlas.Signature

open Exchange

/-- The written form. -/
def toData (s : Signature) : Data :=
  .record (Data.field "name" (.text s.name) ++ Data.field "descriptor" (.text s.descriptor))

/-- The signature that a node offers. -/
def ofNode? (node : Node) : Option Signature := do
  let fields ← node.fields? ["name", "descriptor"]
  let name ← fields.text? "name"
  let descriptor ← fields.text? "descriptor"
  return ⟨name, descriptor⟩

end LineAtlas.Signature
