import LineAtlas.Json.Token
import LineAtlas.Json.Value

/-!
# Reading JSON

Tokens are read one by one. The arrays and objects that are still open wait in a list, the
innermost first.
-/

namespace LineAtlas.Json

/-- An array or object that is still open. -/
inductive Frame where
  /-- An array and its items so far, last first. -/
  | array (done : List Value)
  /-- An object, its entries so far, last first, and the key whose value is being read. -/
  | object (done : List (Option Key × Value)) (key : Option Key)

/-- What has to come next. -/
inductive Expectation where
  /-- A value. -/
  | value
  /-- The first item of an array, or its end. -/
  | firstItem
  /-- The first key of an object, or its end. -/
  | firstKey
  /-- A further key of an object with the given entries, last first. -/
  | key (done : List (Option Key × Value))
  /-- The colon after a key. -/
  | colon (done : List (Option Key × Value)) (key : Option Key)
  /-- Whatever may follow a complete value. -/
  | after (value : Value)

/-- A position between two tokens: what comes next and which containers are open. -/
structure ReadState where
  /-- What has to come next. -/
  expects : Expectation
  /-- The open containers, innermost first. -/
  stack : List Frame

namespace ReadState

/-- The object with some entries, each key of which has to have a text. -/
def objectOf (entries : List (Option Key × Value)) : Value :=
  match entries.mapM fun (key, value) => key.map fun key => (key, value) with
  | some entries => .object entries
  | none => .unpaired

/-- The state after a scalar or closed container. -/
def complete (stack : List Frame) (value : Value) : Option ReadState :=
  some ⟨.after value, stack⟩

/-- The state after the first token of a value. -/
def beginValue (stack : List Frame) : Token → Option ReadState
  | .null => complete stack .null
  | .bool value => complete stack (.bool value)
  | .number literal => complete stack (.number literal)
  | .text (some text) _ => complete stack (.string text)
  | .text none _ => complete stack .unpaired
  | .mark .openArray => some ⟨.firstItem, .array [] :: stack⟩
  | .mark .openObject => some ⟨.firstKey, .object [] none :: stack⟩
  | .mark _ => none

/-- The state after a token that follows a complete value. -/
def afterValue (value : Value) : List Frame → Mark → Option ReadState
  | .array done :: stack, .comma => some ⟨.value, .array (value :: done) :: stack⟩
  | .array done :: stack, .closeArray =>
    complete stack (.array (value :: done).reverse)
  | .object done key :: stack, .comma =>
    some ⟨.key ((key, value) :: done), .object [] none :: stack⟩
  | .object done key :: stack, .closeObject =>
    complete stack (objectOf ((key, value) :: done).reverse)
  | _, _ => none

/-- The state after one more token. -/
def step (state : ReadState) (token : Token) : Option ReadState :=
  match state.expects, state.stack, token with
  | .value, stack, token => beginValue stack token
  | .firstItem, .array _ :: stack, .mark .closeArray => complete stack (.array [])
  | .firstItem, stack, token => beginValue stack token
  | .firstKey, .object _ _ :: stack, .mark .closeObject => complete stack (.object [])
  | .firstKey, stack, .text text isVerbatim =>
    some ⟨.colon [] (text.map (⟨·, isVerbatim⟩)), stack⟩
  | .key done, stack, .text text isVerbatim =>
    some ⟨.colon done (text.map (⟨·, isVerbatim⟩)), stack⟩
  | .colon done key, .object _ _ :: stack, .mark .colon =>
    some ⟨.value, .object done key :: stack⟩
  | .after value, stack, .mark mark => afterValue value stack mark
  | _, _, _ => none

/-- The value that has been read, when nothing is missing. -/
def result : ReadState → Option Value
  | ⟨.after value, []⟩ => some value
  | _ => none

end ReadState

/-- The value that a sequence of tokens spells. -/
def Value.ofTokens? (tokens : List Token) : Option Value := do
  let state ← tokens.foldlM ReadState.step ⟨.value, []⟩
  state.result

/-- The value that a text spells. -/
def parse? (text : String) : Option Value := do
  let tokens ← Token.scan? text.toList
  Value.ofTokens? tokens

end LineAtlas.Json
