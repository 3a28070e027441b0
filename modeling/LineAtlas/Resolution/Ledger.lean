import LineAtlas.ClassFile.Basic
import LineAtlas.Failure

/-!
# Accounting for methods

Every method of a class file is either bound to a declaration or left out for a reason. A
method is claimed once, by the first rule that takes it; what no rule took is classified at
the end.
-/

namespace LineAtlas

/-- Why a method is, or is not, in the report. -/
inductive Role where
  /-- A function of the source. -/
  | declared
  /-- A constructor, declared or implicit. -/
  | constructor
  /-- A getter or setter. -/
  | accessor
  /-- A helper that fills in default arguments. -/
  | defaultHelper
  /-- A local function or a lambda in a method of its own. -/
  | localFunction
  /-- The body of a lambda class. -/
  | lambdaBody
  /-- The static initializer. -/
  | staticInit
  /-- A body of an interface method in a class of its own. -/
  | defaultImpl
  /-- A member that the compiler added and the metadata knows about. -/
  | synthesized
  /-- A method that only the compiler knows about. -/
  | compilerSynthetic
  /-- A method without lines. -/
  | nonExecutable
  /-- A method with lines that fits no rule. -/
  | unaccounted
  deriving DecidableEq, Repr

namespace Role

/-- Whether the lines of the method are in the report. -/
def isBound : Role → Bool
  | .declared | .constructor | .accessor | .defaultHelper | .localFunction | .lambdaBody
  | .staticInit | .defaultImpl => true
  | .synthesized | .compilerSynthetic | .nonExecutable | .unaccounted => false

/-- The name of a role. -/
def name : Role → String
  | .declared => "declared"
  | .constructor => "constructor"
  | .accessor => "accessor"
  | .defaultHelper => "default-helper"
  | .localFunction => "local"
  | .lambdaBody => "lambda-body"
  | .staticInit => "static-init"
  | .defaultImpl => "default-impl"
  | .synthesized => "synthesized"
  | .compilerSynthetic => "compiler-synthetic"
  | .nonExecutable => "non-executable"
  | .unaccounted => "unaccounted"

/-- All roles. -/
def all : List Role :=
  [.declared, .constructor, .accessor, .defaultHelper, .localFunction, .lambdaBody,
    .staticInit, .defaultImpl, .synthesized, .compilerSynthetic, .nonExecutable, .unaccounted]

/-- The role of a method that no rule took. -/
def ofLeftover (m : Method) : Role :=
  if m.isSynthetic || m.isBridge then .compilerSynthetic
  else if m.lines.isEmpty then .nonExecutable
  else .unaccounted

end Role

/-- What happens to methods with lines that fit no rule. -/
inductive AccountingPolicy where
  /-- They are an error. -/
  | strict
  /-- They are tolerated. -/
  | lenient
  deriving DecidableEq, Repr, Inhabited

/-- The roles of the methods of one class file. -/
structure Ledger where
  /-- Internal name of the class. -/
  className : String
  /-- Signature and role of every method, in the order of the class file. -/
  entries : List (Signature × Role)
  deriving DecidableEq, Repr

namespace Ledger

/-- The ledger of a class for which nothing was resolved. -/
def unclassified (className : String) : Ledger := ⟨className, []⟩

/-- The number of methods. -/
def size (l : Ledger) : Nat := l.entries.length

/-- The role of the first method with a signature. -/
def roleOf? (l : Ledger) (signature : Signature) : Option Role :=
  (l.entries.find? (·.1 == signature)).map Prod.snd

/-- The number of methods with a role. -/
def count (l : Ledger) (role : Role) : Nat := l.entries.countP (·.2 == role)

/-- The number of methods in the report. -/
def boundCount (l : Ledger) : Nat := l.entries.countP (·.2.isBound)

end Ledger

/-- A method's signature and lines, taken for the report. -/
structure Body where
  /-- Signature of the method. -/
  signature : Signature
  /-- Lines of the method. -/
  lines : LineSet
  deriving DecidableEq

/-- What the report takes of a method. -/
def Method.body (m : Method) : Body := ⟨m.signature, m.lines⟩

/-- The methods of a class file on the way to their roles. -/
structure Claims where
  /-- Methods without a role, with their positions, in the order of the class file. -/
  free : List (Nat × Method)
  /-- Roles by position. -/
  roles : List (Nat × Role)

namespace Claims

/-- No method has a role yet. -/
def ofMethods (methods : List Method) : Claims :=
  ⟨methods.mapIdx fun index method => (index, method), []⟩

/-- Gives a role to the first free method of a kind. -/
def takeFirst? (c : Claims) (role : Role) (kind : Method → Bool) : Option (Body × Claims) :=
  match c.free.find? fun entry => kind entry.2 with
  | none => none
  | some (index, method) =>
    some (method.body, ⟨c.free.eraseP fun entry => kind entry.2, (index, role) :: c.roles⟩)

/-- Gives a role to all free methods of a kind. -/
def takeAll (c : Claims) (role : Role) (kind : Method → Bool) : List Body × Claims :=
  let (taken, free) := c.free.partition fun entry => kind entry.2
  (taken.map (·.2.body), ⟨free, taken.map (fun entry => (entry.1, role)) ++ c.roles⟩)

/-- The role at a position. -/
def roleAt (c : Claims) (index : Nat) : Role :=
  match c.roles.find? (·.1 == index) with
  | some (_, role) => role
  | none => .unaccounted

/-- The ledger of a class whose methods all have roles. -/
def ledger (c : Claims) (file : ClassFile) : Ledger :=
  ⟨file.name, file.methods.mapIdx fun index method => (method.signature, c.roleAt index)⟩

/-- Classifies the methods that no rule took. -/
def classifyRest (c : Claims) : Claims :=
  ⟨[], c.free.map (fun entry => (entry.1, Role.ofLeftover entry.2)) ++ c.roles⟩

/-- The ledger of a class after all rules. Under the strict policy the first method with
lines that fits no rule is a failure. -/
def close (c : Claims) (file : ClassFile) (policy : AccountingPolicy) :
    Except Failure Ledger :=
  match policy, c.free.find? fun entry => Role.ofLeftover entry.2 == .unaccounted with
  | .strict, some (_, method) =>
    .error (.unaccountedMethod file.name method.signature.display)
  | _, _ => .ok (c.classifyRest.ledger file)

end Claims

end LineAtlas
