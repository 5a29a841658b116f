import Axonyx.Core.Node
import Axonyx.Core.JsonContract
import Axonyx.Runtime.Http

/-! The result of a rejected form and its replay into a render tree: the errors of the fields,
and the submitted values of the controls that the form allows. -/
namespace Axonyx.Runtime.Form

open Axonyx.Core

section Results

/-- A request with its target. -/
structure ActionRequest extends AxHttpRequest where
  target : String

structure AxFormResult where
  version : Nat
  action : String
  route : String
  status : Nat
  fields : List (String × String)
  submitted : Option (List (String × String))
  deriving DecidableEq, Repr

def maxReplayBodyBytes : Nat := 65536

def isIdentByte (c : Char) : Bool := c.isAlphanum || c == '_'

def isFieldName (name : String) : Bool :=
  name ≠ "" && name.utf8ByteSize ≤ 128 && name.toList.all isIdentByte

/-- The error message of a field, cut to 512 characters. -/
def fieldMessage (field : String × Json) : Option (String × String) :=
  if !isFieldName field.1 then none
  else match field.2 with
    | .string message => some (field.1, .ofList (message.toList.take 512))
    | _ => none

def AxFormResult.validation (action route : String) (fields : Json) : Option AxFormResult :=
  if !isFieldName action || !Text.startsWith route "/" || Text.startsWith route "//" ||
      2048 < route.utf8ByteSize || route.toList.any (fun c => c ∈ ['\\', '%', '?', '#']) ||
      route.toList.any Text.isControl then none
  else
    let entries := match fields with
      | .object entries => entries
      | _ => []
    some ⟨1, action, route, 422, (entries.filterMap fieldMessage).take 32, none⟩

def parsePreviewQueryFields (target : String) : List (String × String) :=
  match Text.splitOnce target "?" with
  | none => []
  | some (_, query) => AxHttpRequest.parseUrlencodedFields ((Text.split query '#').headD "")

/-- The last of several fields with one name stays in the map. -/
def queryField (target name : String) : Option String :=
  (parsePreviewQueryFields target).reverse.lookup name

/-- A target or the action of a form names the action and the route of the result. -/
def AxFormResult.isTarget (result : AxFormResult) (target : String) : Bool :=
  (Text.split target '?').head? == some "/__axonyx/action" &&
    queryField target "name" == some result.action &&
    (queryField target "path").getD "/" == result.route

def secretWords : List String :=
  ["password", "passwd", "secret", "token", "credential", "csrf", "api_key", "apikey"]

def containsText (text word : List Char) : Bool := (Text.splitOnceChars word text).isSome

def safeReplayName (name : String) : Bool :=
  let lower := name.toList.map Char.toLower
  isFieldName name && !"__ax".toList.isPrefixOf lower &&
    !secretWords.any fun word => containsText lower word.toList

/-- The body of a request whose values can be replayed. -/
def AxFormResult.replayBody (result : AxFormResult) (request : ActionRequest) : Option String :=
  if request.method ≠ "POST" || !result.isTarget request.target then none
  else
    let contentType := (request.headerValue "content-type").getD ""
    let mediaType := Text.trim ((Text.split contentType ';').headD "")
    if !Text.eqIgnoreAsciiCase mediaType "application/x-www-form-urlencoded" ||
        maxReplayBodyBytes < request.body.length || request.multipart.isSome then none
    else Wire.fromUtf8 request.body

/-- The safe fields of a body; none for more than 32 fields or a repeated one. -/
def collectValues : Nat → List (String × String) → List (String × String) →
    Option (List (String × String))
  | _, values, [] => some values
  | index, values, (name, value) :: rest =>
    if 32 ≤ index then none
    else if !safeReplayName name then collectValues (index + 1) values rest
    else if (values.lookup name).isSome then none
    else collectValues (index + 1) (values ++ [(name, value)]) rest

def AxFormResult.withRequestValues (result : AxFormResult) (request : ActionRequest) : AxFormResult :=
  match result.replayBody request with
  | none => result
  | some body =>
    match collectValues 0 [] (AxHttpRequest.parseUrlencodedFields body) with
    | none => result
    | some values => { result with submitted := some values }

end Results

section Controls

def secretAutocompletes : List String := ["current-password", "new-password", "one-time-code"]

def splitAsciiWhitespace (text : String) : List String :=
  ((text.toList.splitOnP fun c => c ∈ [' ', '\t', '\n', '\x0c', '\r']).filter
    fun part => !part.isEmpty).map .ofList

def isSecretAutocomplete (attr : Attribute) : Bool :=
  attr.name == "autocomplete" && (splitAsciiWhitespace attr.value).any fun token =>
    secretAutocompletes.any fun secret => Text.eqIgnoreAsciiCase token secret

def inputKind (attrs : List Attribute) : String :=
  ((firstAttr attrs "type").map Text.toAsciiLowercase).getD "text"

def textKinds : List String :=
  ["text", "email", "search", "tel", "url", "number", "range", "color", "date", "time",
    "datetime-local", "month", "week"]

/-- Opted-in recovery text stays disabled; replay never enables submission. -/
def isDisabledRecovery (tag : String) (attrs : List Attribute) : Bool :=
  tag == "textarea" && attrs.any fun attr => attr.name == "data-ax-retain-disabled" && attr.value == "true"

mutual

def selectOption (value : String) : AxNode → AxNode
  | .element tag attrs children =>
    if tag = "option" then
      if firstAttr attrs "value" = some value then .element tag (setAttr attrs "selected" "true") children
      else .element tag (dropAttr attrs "selected") children
    else if tag = "optgroup" then .element tag attrs (selectOptions value children)
    else .element tag attrs children
  | .text content => .text content
  | .rawHtml content => .rawHtml content

def selectOptions (value : String) : List AxNode → List AxNode
  | [] => []
  | node :: rest => selectOption value node :: selectOptions value rest

end

mutual

def isSelectOption (value : String) : AxNode → Bool
  | .element tag attrs children =>
    if tag = "option" then attrs.any fun attr => attr.name == "value" && attr.value == value
    else if tag = "optgroup" then hasSelectOption value children
    else false
  | .text _ | .rawHtml _ => false

def hasSelectOption (value : String) : List AxNode → Bool
  | [] => false
  | node :: rest => isSelectOption value node || hasSelectOption value rest

end

/-- The name under which a control may take a submitted value, by the checks in front of it. -/
def replayableName (tag : String) (attrs : List Attribute) (allowed : List String) : Option String :=
  match firstAttr attrs "name" with
  | none => none
  | some name =>
    if name ∉ allowed ∨ (hasAttr attrs "disabled" = true ∧ isDisabledRecovery tag attrs = false) then none
    else if attrs.any isSecretAutocomplete then none
    else some name

/-- What a control becomes with the value of its field. -/
def fillControl (tag : String) (attrs : List Attribute) (children : List AxNode) (value : Option String) :
    List Attribute × List AxNode :=
  if tag = "input" then
    if inputKind attrs ∈ ["checkbox", "radio"] then
      if value = some ((firstAttr attrs "value").getD "on") then (setAttr attrs "checked" "true", children)
      else (dropAttr attrs "checked", children)
    else if inputKind attrs ∈ textKinds then
      match value with
      | some value => (setAttr attrs "value" value, children)
      | none => (attrs, children)
    else (attrs, children)
  else if tag = "textarea" then
    match value with
    | some value =>
      (if isDisabledRecovery tag attrs then setAttr attrs "data-ax-retained" "true" else attrs, [.text value])
    | none => (attrs, children)
  else if tag = "select" ∧ hasAttr attrs "multiple" = false then
    match value with
    | some value => (attrs, if hasSelectOption value children then selectOptions value children else children)
    | none => (attrs, children)
  else (attrs, children)

def replayControl (tag : String) (attrs : List Attribute) (children : List AxNode) (allowed : List String)
    (submitted : List (String × String)) : List Attribute × List AxNode :=
  match replayableName tag attrs allowed with
  | none => (attrs, children)
  | some name => fillControl tag attrs children (submitted.lookup name)

end Controls

section Trees

/-- Whether a matching form is around a node, and the names that the form allows. -/
structure Scope where
  matching : Bool
  allowed : List String
  deriving DecidableEq, Repr

def retainedFields (attrs : List Attribute) : List String :=
  match firstAttr attrs "data-ax-retain-fields" with
  | none => []
  | some value => (((Text.split value ',').map Text.trim).filter safeReplayName).take 32

variable (result : AxFormResult)

def enter (scope : Scope) (tag : String) (attrs : List Attribute) : Scope :=
  if tag = "form" then ⟨(firstAttr attrs "action").any result.isTarget, retainedFields attrs⟩ else scope

/-- The errors of the fields at a node of a matching form. -/
def showErrors (tag : String) (attrs : List Attribute) (children : List AxNode) :
    List Attribute × List AxNode :=
  let (attrs, children) :=
    match (firstAttr attrs "data-ax-field-error").bind (lookup result.fields ·) with
    | some message => (setAttr attrs "aria-live" "polite", [AxNode.text message])
    | none => (attrs, children)
  if tag ∈ ["input", "select", "textarea"] ∧
      (attrs.any fun attr => attr.name == "name" && (lookup result.fields attr.value).isSome) = true then
    (setAttr attrs "aria-invalid" "true", children)
  else (attrs, children)

/-- What a node becomes, apart from what its children become; nodes outside matching forms
stay as they are. -/
def applyHere (scope : Scope) (tag : String) (attrs : List Attribute) (children : List AxNode) :
    List Attribute × List AxNode :=
  if scope.matching then
    let (attrs, children) := match result.submitted with
      | some submitted => replayControl tag attrs children scope.allowed submitted
      | none => (attrs, children)
    showErrors result tag attrs children
  else (attrs, children)

/-- `apply_node`, down to a depth. -/
def applyNode : Nat → Scope → AxNode → AxNode
  | depth + 1, scope, .element tag attrs children =>
    let scope := enter result scope tag attrs
    let (attrs, children) := applyHere result scope tag attrs children
    .element tag attrs (children.map (applyNode depth scope))
  | _, _, node => node

def AxFormResult.applyToNode (node : AxNode) : AxNode := applyNode result node.depth ⟨false, []⟩ node

end Trees

end Axonyx.Runtime.Form
