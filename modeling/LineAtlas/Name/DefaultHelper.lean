import LineAtlas.Name.Descriptor
import LineAtlas.Name.Signature
import LineAtlas.Text.Split

/-!
# Helpers that fill in default arguments

For a function or constructor with default values the compiler adds a helper. It takes the
declared parameters, then one integer mask for every 32 value parameters, then a marker. The
helper of a function may also take the receiver in front. A helper that takes no more parameters
than there should be masks is none, and is not compared any further.
-/

namespace LineAtlas.DefaultHelper

/-- Ending of the name of a function's helper. -/
def functionSuffix : String := "$default"

/-- Marker at the end of a function helper's parameters. -/
def objectType : FieldType := .object "java/lang/Object".toList

/-- Marker at the end of a constructor helper's parameters. -/
def constructorMarker : FieldType :=
  .object "kotlin/jvm/internal/DefaultConstructorMarker".toList

/-- The number of masks for a number of value parameters: one for every 32 of them, and
never none. The sum is one of words of 64 bits. -/
def maskCount (parameters : Nat) : Nat := max 1 ((parameters + 31) % UInt64.size / 32)

/-- What a helper's parameters add to those of its declaration. -/
def addedParameters (masks : Nat) (marker : FieldType) : List FieldType :=
  List.replicate masks (.primitive .int) ++ [marker]

/-- Whether the helper's parameters are those expected, after at most one receiver. -/
def matchesAfterReceiver (parameters expected : List FieldType) : Bool :=
  parameters == expected ||
    match parameters with
    | [] => false
    | _ :: rest => rest == expected

/-- Whether a name is as long as that of a helper for a declared name, and has the beginning and
the ending of one. -/
def isNamedFor (name declared : String) : Bool :=
  name.utf8ByteSize == declared.utf8ByteSize + functionSuffix.utf8ByteSize &&
    (Text.dropHead? declared name).isSome && (Text.dropTail? functionSuffix name).isSome

/-- Whether a signature is that of the helper of a declared function. When the number of
value parameters is not known, that of the declared descriptor stands for it. -/
def isOfFunction (candidate declared : Signature) (valueParameters : Option Nat) : Bool :=
  isNamedFor candidate.name declared.name &&
    match Descriptor.parse? candidate.descriptor, Descriptor.parse? declared.descriptor with
    | some helper, some target =>
      let masks := maskCount (valueParameters.getD target.parameters.length)
      helper.returns == target.returns && masks < helper.parameters.length &&
        matchesAfterReceiver helper.parameters
          (target.parameters ++ addedParameters masks objectType)
    | _, _ => false

/-- Whether a signature is that of the helper of a declared constructor. No constructor is its own
helper. -/
def isOfConstructor (candidate declared : Signature) (valueParameters : Option Nat) : Bool :=
  candidate.isConstructor && declared.isConstructor && candidate != declared &&
    match Descriptor.parse? candidate.descriptor, Descriptor.parse? declared.descriptor with
    | some helper, some target =>
      let masks := maskCount (valueParameters.getD target.parameters.length)
      helper.returns == target.returns && masks < helper.parameters.length &&
        helper.parameters == target.parameters ++ addedParameters masks constructorMarker
    | _, _ => false

end LineAtlas.DefaultHelper
