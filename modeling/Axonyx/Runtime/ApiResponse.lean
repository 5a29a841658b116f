import Axonyx.Core.JsonContract

/-! The check of an API response against the return annotation of its route. The runtime reads
the annotation with a parser of its own. -/
namespace Axonyx.Runtime

open Axonyx.Core

section Responses

inductive AxApiResponseValidationError where
  | invalidBinaryResponse
  | invalidContract (contract message : String)
  | nonJsonResponse (contract contentType : String)
  | invalidJson (contract message : String)
  | contractMismatch (contract : String) (source : AxJsonValidationError)
  deriving DecidableEq, Repr

/-- The names that the route contract reads as built-in types. -/
def routeNames : List (String × AxType) :=
  [("String", .string), ("string", .string), ("Bool", .bool), ("Boolean", .bool), ("bool", .bool),
    ("boolean", .bool), ("Number", .number), ("number", .number), ("f64", .number),
    ("float", .number), ("i64", .int), ("u64", .int), ("int", .int), ("integer", .int),
    ("Json", .json), ("Null", .void)]

def contractInside (wrapper contract : List Char) : Option (List Char) :=
  (dropPrefix wrapper contract).bind (dropSuffix ['>'])

/-- `parse_api_return_contract` with its recursive call as a parameter. -/
def parseContractStep (parse : List Char → Except AxApiResponseValidationError AxType)
    (contract : List Char) : Except AxApiResponseValidationError AxType :=
  let contract := trimmed contract
  match dropSuffix ['?'] contract with
  | some inner =>
    if (trimmed inner).isEmpty then
      .error (.invalidContract (.ofList contract) "optional shorthand requires an inner type")
    else (parse inner).map AxType.optionalOf
  | none =>
    match dropSuffix ['[', ']'] contract with
    | some inner => (parse inner).map .list
    | none =>
      match contractInside "List<".toList contract with
      | some inner => (parse inner).map .list
      | none =>
        match contractInside "Optional<".toList contract with
        | some inner => (parse inner).map AxType.optionalOf
        | none =>
          match lookup routeNames (.ofList contract) with
          | some named => .ok named
          | none =>
            if isTypeIdentifier contract then .ok (.record (.ofList contract))
            else .error (.invalidContract (.ofList contract)
              "expected a built-in type, named type, List<T>, Optional<T>, or T[]")

/-- Every recursive call is on a shorter text. -/
def parseContractFrom : Nat → List Char → Except AxApiResponseValidationError AxType
  | 0 => fun contract => .error (.invalidContract (.ofList contract) "")
  | fuel + 1 => parseContractStep (parseContractFrom fuel)

def parseApiReturnContract (contract : String) : Except AxApiResponseValidationError AxType :=
  parseContractFrom (contract.toList.length + 1) contract.toList

def isJsonContentType (contentType : String) : Bool :=
  let mediaType := Text.trim ((Text.split contentType ';').headD contentType)
  Text.eqIgnoreAsciiCase mediaType "application/json" ||
    "+json".toList.isSuffixOf (Text.toAsciiLowercase mediaType).toList

/-- A body by its length and by what reading it as JSON gives. -/
structure Body where
  size : Nat
  json : Except String Json

def maxNativeBinaryBytes : Nat := 8 * 1024 * 1024

def isSuccess (status : Nat) : Bool := 200 ≤ status && status < 300

def validateApiResponseBytes (status : Nat) (contentType : String) (body : Body) (contract : String)
    (context : AxDataContext) : Except AxApiResponseValidationError Unit :=
  if Text.trim contract = "Binary" then
    if !isSuccess status then .ok ()
    else if status ≠ 200 ∨ body.size = 0 ∨ maxNativeBinaryBytes < body.size ∨
        contentType ∉ ["image/png", "image/jpeg", "application/octet-stream"] then
      .error .invalidBinaryResponse
    else .ok ()
  else if !isSuccess status || status = 204 then .ok ()
  else if !isJsonContentType contentType then .error (.nonJsonResponse contract contentType)
  else do
    let expected ← parseApiReturnContract contract
    let value ← body.json.mapError (.invalidJson contract)
    (validateJson context expected value).mapError (.contractMismatch contract)

end Responses

section Reading

inductive Wrapper where
  | list
  | optional
  deriving DecidableEq, Repr

def wrap : List Wrapper → AxType → AxType
  | [], type => type
  | .list :: wrappers, type => .list (wrap wrappers type)
  | .optional :: wrappers, type => AxType.optionalOf (wrap wrappers type)

/-- The outermost shorthand or bracket that both readings know. -/
def unwrap (contract : List Char) : Option (Wrapper × List Char) :=
  match dropSuffix ['?'] contract with
  | some inner => some (.optional, inner)
  | none =>
    match dropSuffix ['[', ']'] contract with
    | some inner => some (.list, inner)
    | none =>
      match contractInside "List<".toList contract with
      | some inner => some (.list, inner)
      | none => (contractInside "Optional<".toList contract).map fun inner => (.optional, inner)

def peelFrom : Nat → List Char → List Wrapper × List Char
  | 0, contract => ([], contract)
  | fuel + 1, contract =>
    match unwrap (trimmed contract) with
    | none => ([], trimmed contract)
    | some (wrapper, inner) =>
      let (wrappers, leaf) := peelFrom fuel inner
      (wrapper :: wrappers, leaf)

/-- The lists and optionals around a text, and the text inside them. -/
def peel (contract : String) : List Wrapper × List Char :=
  peelFrom (contract.toList.length + 1) contract.toList

/-- The levels that the wrappers take; neighbouring optionals are one. -/
def depth : List Wrapper → Nat
  | [] => 0
  | .list :: wrappers => depth wrappers + 1
  | .optional :: wrappers =>
    if wrappers.head? = some .optional then depth wrappers else depth wrappers + 1

/-- The names that are a built-in type in one reading and a record in the other. -/
def disputedNames : List String :=
  ["Int", "Float", "Decimal", "DateTime", "Date", "Time", "Uuid", "Bytes", "File", "FileRef",
    "Never", "Void", "Unknown", "string", "Boolean", "bool", "boolean", "number", "f64", "float",
    "i64", "u64", "int", "integer", "Null"]

/-- The annotation names an undisputed type or one behind too many wrappers; or it is not a
name, and its type has no value. -/
def SharedReading (typeText : String) (type : AxType) : Prop :=
  let wrappers := (peel typeText).1
  let leaf := (peel typeText).2
  if isTypeIdentifier leaf then .ofList leaf ∉ disputedNames ∨ 64 < depth wrappers
  else answerable 65 type = false

end Reading

section Parsers

/-- What the two tables say of each name in them. -/
theorem tables_checked :
    (∀ entry ∈ routeNames, isTypeIdentifier entry.1.toList = true) ∧
    (∀ name ∈ builtins.map Prod.fst ++ routeNames.map Prod.fst, name ∉ disputedNames →
      namedType builtins name = namedType routeNames name) ∧
    (∀ name ∈ disputedNames,
      name = "Unknown" ∨ name = "FileRef" ∨
      (refusesObjects (namedType builtins name) = true ∧ namedType routeNames name = .record name) ∨
      (namedType builtins name = .record name ∧ refusesObjects (namedType routeNames name) = true)) ∧
    (namedType builtins "Unknown" = .unknown ∧ namedType routeNames "Unknown" = .record "Unknown") ∧
    (namedType builtins "FileRef" = .fileRef ∧ namedType routeNames "FileRef" = .record "FileRef") ∧
    namedType builtins (.ofList "Binary".toList) = .record "Binary" ∧
    (emptyRecord "").record "Unknown" = none ∧ isJsonContentType "application/json" = true := by
  decide +kernel

theorem contractInside_eq_some {wrapper contract inner : List Char} :
    contractInside wrapper contract = some inner ↔ contract = wrapper ++ inner ++ ['>'] := by
  rw [contractInside, Option.bind_eq_some_iff]
  constructor
  · rintro ⟨rest, front, back⟩
    rw [dropPrefix_eq_some.mp front, dropSuffix_eq_some.mp back, List.append_assoc]
  · rintro rfl
    exact ⟨inner ++ ['>'], dropPrefix_eq_some.mpr (by simp), dropSuffix_eq_some.mpr rfl⟩

/-- Every reading goes on with a shorter text. -/
theorem unwrap_shorter {contract inner : List Char} {wrapper : Wrapper}
    (found : unwrap contract = some (wrapper, inner)) : inner.length < contract.length := by
  simp only [unwrap] at found
  split at found
  next shape =>
    cases found
    simp [dropSuffix_eq_some.mp shape]
  next =>
    split at found
    next shape =>
      cases found
      simp [dropSuffix_eq_some.mp shape]
    next =>
      split at found
      next shape =>
        cases found
        simp [contractInside_eq_some.mp shape]
        omega
      next =>
        obtain ⟨rest, shape, same⟩ := Option.map_eq_some_iff.mp found
        cases same
        simp [contractInside_eq_some.mp shape]
        omega

def applyWrapper : Wrapper → AxType → AxType
  | .list => .list
  | .optional => AxType.optionalOf

theorem wrap_cons (wrapper : Wrapper) (wrappers : List Wrapper) (type : AxType) :
    wrap (wrapper :: wrappers) type = applyWrapper wrapper (wrap wrappers type) := by
  cases wrapper <;> rfl

/-- Inside the brackets of `List<T>` or `Optional<T>` stands the text of the type. -/
theorem parseWrappedType_inside (wrapper inner : List Char) {result : Option (List Char)}
    (found : parseWrappedType (wrapper ++ '<' :: inner ++ ['>']) wrapper = .ok result) :
    result = some (trimmed inner) := by
  have front : dropPrefix wrapper (wrapper ++ '<' :: inner ++ ['>']) = some ('<' :: (inner ++ ['>'])) :=
    dropPrefix_eq_some.mpr (by simp)
  have kept : Text.trimStart ('<' :: (inner ++ ['>'])) = '<' :: (inner ++ ['>']) := by
    simp [Text.trimStart, Text.isWhitespace]
  simp only [parseWrappedType, front, kept] at found
  simp only [List.head?_cons, List.tail_cons, ne_eq, not_true_eq_false, if_false,
    List.getLast?_cons, List.getLast?_append, List.dropLast_concat] at found
  split at found
  · simp_all
  split at found
  · cases found
  · exact (Except.ok.inj found).symm

theorem parseWrappedType_other {wrapper rest : List Char} {other : List Char}
    (apart : dropPrefix other (wrapper ++ rest) = none) :
    parseWrappedType (wrapper ++ rest) other = .ok none := by
  rw [parseWrappedType, apart]



theorem findGeneric_list {inner : List Char} {choice : Option (Generic × List Char)}
    (found : findGeneric ("List<".toList ++ inner ++ ['>']) generics = .ok choice) :
    choice = some (.one .list, trimmed inner) := by
  obtain ⟨result, wrapped, rest⟩ := Outcome.bind_ok.mp found
  obtain rfl := parseWrappedType_inside "List".toList inner wrapped
  exact (Except.ok.inj rest).symm

theorem findGeneric_optional {inner : List Char} {choice : Option (Generic × List Char)}
    (found : findGeneric ("Optional<".toList ++ inner ++ ['>']) generics = .ok choice) :
    choice = some (.one AxType.optionalOf, trimmed inner) := by
  have unlisted : parseWrappedType ("Optional<".toList ++ inner ++ ['>']) "List".toList = .ok none :=
    rfl
  rw [generics, findGeneric, unlisted] at found
  change findGeneric _ generics.tail = _ at found
  obtain ⟨result, wrapped, rest⟩ := Outcome.bind_ok.mp found
  obtain rfl := parseWrappedType_inside "Optional".toList inner wrapped
  exact (Except.ok.inj rest).symm

/-- A type whose text is wrapped is the type of the inner text, wrapped. -/
theorem parseTypeStep_unwrap {parse : List Char → Except AxTypeParseError AxType}
    {input inner : List Char} {wrapper : Wrapper} {type : AxType}
    (outer : unwrap (trimmed input) = some (wrapper, inner))
    (blank : ∀ text, parse (trimmed text) = parse text)
    (parsed : parseTypeStep parse input = .ok type) :
    ∃ item, parse inner = .ok item ∧ type = applyWrapper wrapper item := by
  have finish {wrap : AxType → AxType} (mapped : (parse inner).map wrap = .ok type) :
      ∃ item, parse inner = .ok item ∧ type = wrap item := by
    obtain ⟨item, here, same⟩ := Outcome.map_ok.mp mapped
    exact ⟨item, here, same.symm⟩
  simp only [parseTypeStep] at parsed
  split at parsed
  · cases parsed
  simp only [unwrap] at outer
  split at outer
  next shape =>
    cases outer
    rw [shape] at parsed
    dsimp only at parsed
    split at parsed
    · cases parsed
    · exact finish parsed
  next plain =>
    rw [plain] at parsed
    dsimp only at parsed
    split at outer
    next shape =>
      cases outer
      rw [shape] at parsed
      exact finish parsed
    next closed =>
      rw [closed] at parsed
      dsimp only at parsed
      split at outer
      next listed =>
        cases outer
        obtain ⟨choice, chosen, next⟩ := Outcome.bind_ok.mp parsed
        rw [contractInside_eq_some.mp listed] at chosen
        obtain rfl := findGeneric_list chosen
        dsimp only at next
        rw [blank] at next
        exact finish next
      next =>
        obtain ⟨text, optional, same⟩ := Option.map_eq_some_iff.mp outer
        cases same
        obtain ⟨choice, chosen, next⟩ := Outcome.bind_ok.mp parsed
        rw [contractInside_eq_some.mp optional] at chosen
        obtain rfl := findGeneric_optional chosen
        dsimp only at next
        rw [blank] at next
        exact finish next

theorem parseTypeStep_leaf {parse : List Char → Except AxTypeParseError AxType}
    {input : List Char} {type : AxType} (leaf : unwrap (trimmed input) = none)
    (named : isTypeIdentifier (trimmed input) = true)
    (parsed : parseTypeStep parse input = .ok type) :
    type = namedType builtins (.ofList (trimmed input)) := by
  simp only [unwrap] at leaf
  split at leaf
  · cases leaf
  next plain =>
    split at leaf
    · cases leaf
    next closed =>
      simp only [parseTypeStep, plain, closed, named, if_true] at parsed
      split at parsed
      · cases parsed
      · obtain ⟨choice, chosen, next⟩ := Outcome.bind_ok.mp parsed
        rcases choice with _ | ⟨generic, inner⟩
        · exact (Except.ok.inj next).symm
        · have unnamed := not_isTypeIdentifier (findGeneric_some chosen)
          rw [named] at unnamed
          cases unnamed

theorem parseContractStep_unwrap (parse : List Char → Except AxApiResponseValidationError AxType)
    {contract inner : List Char} {wrapper : Wrapper}
    (outer : unwrap (trimmed contract) = some (wrapper, inner)) (solid : (trimmed inner).isEmpty = false) :
    parseContractStep parse contract = (parse inner).map (applyWrapper wrapper) := by
  simp only [unwrap] at outer
  simp only [parseContractStep]
  split at outer
  next shape =>
    cases outer
    simp only [solid]
    rfl
  next plain =>
    split at outer
    next shape =>
      cases outer
      rfl
    next closed =>
      split at outer
      next listed =>
        cases outer
        rfl
      next unlisted =>
        obtain ⟨text, optional, same⟩ := Option.map_eq_some_iff.mp outer
        cases same
        simp only [optional]
        rfl

theorem routeNames_identifiers {entry : String × AxType} (member : entry ∈ routeNames) :
    isTypeIdentifier entry.1.toList = true := tables_checked.1 entry member

theorem parseContractStep_leaf (parse : List Char → Except AxApiResponseValidationError AxType)
    {contract : List Char} (leaf : unwrap (trimmed contract) = none) :
    (isTypeIdentifier (trimmed contract) = true →
      parseContractStep parse contract = .ok (namedType routeNames (.ofList (trimmed contract)))) ∧
    (isTypeIdentifier (trimmed contract) = false → ∃ error, parseContractStep parse contract = .error error) := by
  simp only [unwrap] at leaf
  split at leaf
  · cases leaf
  next plain =>
    split at leaf
    · cases leaf
    next closed =>
      split at leaf
      · cases leaf
      next unlisted =>
        have required := Option.map_eq_none_iff.mp leaf
        simp only [parseContractStep, plain, closed, unlisted, required]
        constructor
        · intro named
          rw [namedType]
          cases found : lookup routeNames (.ofList (trimmed contract)) with
          | some type => rfl
          | none => simp [named]
        · intro unnamed
          cases found : lookup routeNames (.ofList (trimmed contract)) with
          | some type =>
            have named := routeNames_identifiers (mem_of_lookup found)
            rw [String.toList_ofList, unnamed] at named
            cases named
          | none => exact ⟨_, by simp [unnamed]; rfl⟩


theorem parseTypeFrom_solid {fuel : Nat} {input : List Char} {type : AxType}
    (parsed : parseTypeFrom fuel input = .ok type) : (trimmed input).isEmpty = false := by
  cases fuel with
  | zero => cases parsed
  | succ fuel =>
    rw [parseTypeFrom] at parsed
    simp only [parseTypeStep] at parsed
    split at parsed
    · cases parsed
    next solid => exact Bool.eq_false_iff.mpr solid

/-- What the two readings make of a text, in terms of its wrappers and the text inside. -/
theorem readings {fuel : Nat} {contract : List Char} {type : AxType} (enough : contract.length < fuel)
    (parsed : parseTypeFrom fuel contract = .ok type) :
    (isTypeIdentifier (peelFrom fuel contract).2 = true ∧
      type = wrap (peelFrom fuel contract).1 (namedType builtins (.ofList (peelFrom fuel contract).2)) ∧
      parseContractFrom fuel contract =
        .ok (wrap (peelFrom fuel contract).1 (namedType routeNames (.ofList (peelFrom fuel contract).2)))) ∨
    (isTypeIdentifier (peelFrom fuel contract).2 = false ∧
      ∃ error, parseContractFrom fuel contract = .error error) := by
  induction fuel generalizing contract type with
  | zero => cases parsed
  | succ fuel ih =>
    rw [peelFrom]
    cases outer : unwrap (trimmed contract) with
    | none =>
      have leaf := parseContractStep_leaf (parseContractFrom fuel) outer
      cases named : isTypeIdentifier (trimmed contract) with
      | true => exact .inl ⟨rfl, parseTypeStep_leaf outer named parsed, leaf.1 named⟩
      | false => exact .inr ⟨rfl, leaf.2 named⟩
    | some layer =>
      obtain ⟨wrapper, inner⟩ := layer
      obtain ⟨item, here, rfl⟩ := parseTypeStep_unwrap outer (parseTypeFrom_trimmed fuel) parsed
      have shorter : inner.length < fuel := by
        have inside := unwrap_shorter outer
        have within := Text.trim_length contract
        simp only [trimmed] at inside
        omega
      have read := parseContractStep_unwrap (parseContractFrom fuel) outer
        (parseTypeFrom_solid here)
      rcases ih shorter here with ⟨named, same, route⟩ | ⟨unnamed, error, route⟩
      · refine .inl ⟨named, ?_, ?_⟩
        · rw [wrap_cons, ← same]
        · rw [parseContractFrom, read, route, wrap_cons]
          rfl
      · refine .inr ⟨unnamed, error, ?_⟩
        rw [parseContractFrom, read, route]
        rfl

theorem annotation_readings {typeText : String} {type : AxType}
    (parsed : AxType.parseAnnotation typeText = .ok type) :
    (isTypeIdentifier (peel typeText).2 = true ∧
      type = wrap (peel typeText).1 (namedType builtins (.ofList (peel typeText).2)) ∧
      parseApiReturnContract typeText =
        .ok (wrap (peel typeText).1 (namedType routeNames (.ofList (peel typeText).2)))) ∨
    (isTypeIdentifier (peel typeText).2 = false ∧
      ∃ error, parseApiReturnContract typeText = .error error) :=
  readings (Nat.lt_succ_self _) parsed

end Parsers

section Levels

theorem wrap_optional (wrappers : List Wrapper) {type : AxType} (plain : ∀ item, type ≠ .optional item) :
    (∃ item, wrap wrappers type = .optional item) ↔ wrappers.head? = some .optional := by
  cases wrappers with
  | nil => simp [wrap, plain]
  | cons wrapper rest =>
    cases wrapper with
    | list => simp [wrap]
    | optional =>
      simp only [wrap, List.head?_cons, iff_true]
      cases wrap rest type <;> exact ⟨_, rfl⟩

/-- An optional around an optional is the inner one, around any other type one level more. -/
theorem wrap_optional_cons (wrappers : List Wrapper) {type : AxType} (plain : ∀ item, type ≠ .optional item) :
    wrap (.optional :: wrappers) type =
      if wrappers.head? = some .optional then wrap wrappers type else .optional (wrap wrappers type) := by
  have known := wrap_optional wrappers plain
  split
  next again =>
    obtain ⟨item, shape⟩ := known.mpr again
    rw [wrap, shape]
    rfl
  next first =>
    rw [wrap]
    cases shape : wrap wrappers type with
    | optional item => exact absurd (known.mp ⟨item, shape⟩) first
    | _ => rfl

/-- Behind as many wrappers as there are levels no check looks at the inner type. -/
theorem validate_deep {context : AxDataContext} {wrappers : List Wrapper} {first second : AxType}
    (plain : ∀ item, first ≠ .optional item) (plain' : ∀ item, second ≠ .optional item)
    {levels : Nat} (deep : levels ≤ depth wrappers) (value : Json) (path : String) :
    validateJsonAt context levels (wrap wrappers first) value path = .ok () ↔
      validateJsonAt context levels (wrap wrappers second) value path = .ok () := by
  induction wrappers generalizing levels value path with
  | nil =>
    obtain rfl := Nat.le_zero.mp deep
    exact iff_of_false nofun nofun
  | cons wrapper rest ih =>
    cases levels with
    | zero => exact iff_of_false nofun nofun
    | succ levels =>
      cases wrapper with
      | list =>
        cases value with
        | array items =>
          exact checkEach_congr (fun index item _ => ih (Nat.le_of_succ_le_succ deep) _ _) 0
        | _ => exact iff_of_false nofun nofun
      | optional =>
        rw [wrap_optional_cons rest plain, wrap_optional_cons rest plain']
        rw [depth] at deep
        split
        next again =>
          rw [if_pos again] at deep
          exact ih deep value path
        next once =>
          rw [if_neg once] at deep
          simp only [validateJsonAt]
          split
          · exact Iff.rfl
          · exact ih (Nat.le_of_succ_le_succ deep) value path

def inside : List Wrapper → Json → Json
  | [], value => value
  | .list :: wrappers, value => .array [inside wrappers value]
  | .optional :: wrappers, value => inside wrappers value

theorem inside_not_null {value : Json} (solid : value.isNull = false) (wrappers : List Wrapper) :
    (inside wrappers value).isNull = false := by
  induction wrappers with
  | nil => exact solid
  | cons wrapper rest ih =>
    cases wrapper with
    | list => rfl
    | optional => exact ih

/-- The wrappers hand a value on to the inner type. -/
theorem validate_inside (context : AxDataContext) (wrappers : List Wrapper) {type : AxType} {value : Json}
    (plain : ∀ item, type ≠ .optional item) (solid : value.isNull = false) (levels : Nat) :
    (Satisfies context levels type value →
      Satisfies context (depth wrappers + levels) (wrap wrappers type) (inside wrappers value)) ∧
    (Violates context levels type value →
      Violates context (depth wrappers + levels) (wrap wrappers type) (inside wrappers value)) := by
  induction wrappers with
  | nil => simp [depth, wrap, inside]
  | cons wrapper rest ih =>
    cases wrapper with
    | list =>
      rw [depth, Nat.add_right_comm]
      have unfolded (path : String) :
          validateJsonAt context (depth rest + levels + 1) (.list (wrap rest type))
            (.array [inside rest value]) path = .ok () ↔
          validateJsonAt context (depth rest + levels) (wrap rest type) (inside rest value)
            (path ++ "[" ++ toString 0 ++ "]") = .ok () := by
        rw [validateJsonAt]
        exact checkEach_singleton 0
      constructor
      · intro satisfied path
        exact (unfolded path).mpr (ih.1 satisfied _)
      · intro violated path accepted
        exact ih.2 violated _ ((unfolded path).mp accepted)
    | optional =>
      have present := inside_not_null solid rest
      rw [depth, wrap_optional_cons rest plain]
      split
      next again => exact ih
      next once =>
        rw [Nat.add_right_comm]
        have unfolded (path : String) :
            validateJsonAt context (depth rest + levels + 1) (.optional (wrap rest type))
              (inside (.optional :: rest) value) path =
            validateJsonAt context (depth rest + levels) (wrap rest type) (inside rest value) path := by
          simp [validateJsonAt, inside, present]
        constructor
        · intro satisfied path
          rw [unfolded]
          exact ih.1 satisfied path
        · intro violated path
          rw [unfolded]
          exact ih.2 violated path


end Levels

section Agreement

theorem namedType_plain (name : String) {table : List (String × AxType)}
    (plain : ∀ entry ∈ table, ∀ item, entry.2 ≠ .optional item) (item : AxType) :
    namedType table name ≠ .optional item := by
  rw [namedType]
  cases found : lookup table name with
  | none => exact nofun
  | some type => exact plain _ (mem_of_lookup found) item

theorem builtins_plain : ∀ entry ∈ builtins, ∀ item, entry.2 ≠ AxType.optional item := by
  simp [builtins]

theorem routeNames_plain : ∀ entry ∈ routeNames, ∀ item, entry.2 ≠ AxType.optional item := by
  simp [routeNames]

/-- A name in neither table is a record in both readings. -/
theorem namedType_absent {table : List (String × AxType)} {name : String}
    (absent : name ∉ table.map Prod.fst) : namedType table name = .record name := by
  rw [namedType]
  cases found : lookup table name with
  | none => rfl
  | some type => exact absurd (List.mem_map_of_mem (mem_of_lookup found)) absent

theorem namedType_agrees {name : String} (undisputed : name ∉ disputedNames) :
    namedType builtins name = namedType routeNames name := by
  by_cases known : name ∈ builtins.map Prod.fst ++ routeNames.map Prod.fst
  · exact tables_checked.2.1 name known undisputed
  · rw [List.mem_append, not_or] at known
    rw [namedType_absent known.1, namedType_absent known.2]

/-- The empty object tells the two readings of a disputed name apart. -/
theorem disputed_differs {name : String} (disputed : name ∈ disputedNames) (levels : Nat) :
    ∃ context,
      (Satisfies context (levels + 1) (namedType builtins name) (.object []) ∧
        Violates context (levels + 1) (namedType routeNames name) (.object [])) ∨
      (Violates context (levels + 1) (namedType builtins name) (.object []) ∧
        Satisfies context (levels + 1) (namedType routeNames name) (.object [])) := by
  obtain ⟨_, _, known, unknown, file, _, undeclared, _⟩ := tables_checked
  rcases known name disputed with rfl | rfl | ⟨refuses, same⟩ | ⟨same, refuses⟩
  · refine ⟨emptyRecord "", .inl ⟨fun path => ?_, ?_⟩⟩
    · rw [unknown.1]
      rfl
    · rw [unknown.2]
      exact violates_undeclared rfl undeclared
  · refine ⟨emptyRecord "FileRef", .inr ⟨?_, ?_⟩⟩
    · rw [file.1]
      intro path accepted
      cases accepted
    · rw [file.2]
      exact satisfies_emptyRecord "FileRef" levels
  · rw [same]
    exact ⟨emptyRecord name, .inr ⟨violates_object refuses [], satisfies_emptyRecord name levels⟩⟩
  · rw [same]
    exact ⟨emptyRecord name, .inl ⟨satisfies_emptyRecord name levels, violates_object refuses []⟩⟩

/-- The value of a JSON body is checked against the route's reading of the annotation. -/
theorem validate_json_body {status : Nat} {contentType contract : String} {body : Body} {value : Json}
    {context : AxDataContext} (success : isSuccess status = true) (content : status ≠ 204)
    (media : isJsonContentType contentType = true) (read : body.json = .ok value)
    (notBinary : Text.trim contract ≠ "Binary") :
    validateApiResponseBytes status contentType body contract context = .ok () ↔
      ∃ expected, parseApiReturnContract contract = .ok expected ∧
        validateJson context expected value = .ok () := by
  rw [validateApiResponseBytes, if_neg notBinary]
  simp only [success, media, content, read, Bool.not_true, decide_false, Bool.or_false,
    Bool.false_eq_true, if_false]
  rw [Outcome.bind_ok]
  refine exists_congr fun expected => and_congr_right fun _ => ?_
  change (validateJson context expected value).mapError _ = _ ↔ _
  cases validateJson context expected value <;> simp [Except.mapError]

theorem parse_binary {typeText : String} {type : AxType} (named : Text.trim typeText = "Binary")
    (parsed : AxType.parseAnnotation typeText = .ok type) : type = .record "Binary" := by
  have shape : trimmed typeText.toList = "Binary".toList := by
    rw [← named, Text.trim, String.toList_ofList]
    rfl
  have leaf : unwrap (trimmed typeText.toList) = none := by rw [shape]; rfl
  rw [AxType.parseAnnotation, parseTypeAnnotation, parseTypeFrom] at parsed
  have same := parseTypeStep_leaf leaf (by rw [shape]; rfl) parsed
  rw [same, shape]
  exact tables_checked.2.2.2.2.2.1

/-- A JSON response is accepted by its annotation exactly where the declared type accepts it. -/
def ContractAgrees (typeText : String) (type : AxType) : Prop :=
  ∀ (context : AxDataContext) (status : Nat) (contentType : String) (body : Body) (value : Json),
    isSuccess status = true → status ≠ 204 → isJsonContentType contentType = true →
    body.json = .ok value →
    (validateApiResponseBytes status contentType body typeText context = .ok () ↔
      validateJson context type value = .ok ())

theorem contractAgrees_iff {typeText : String} {type : AxType} (notBinary : Text.trim typeText ≠ "Binary") :
    ContractAgrees typeText type ↔ ∀ context value,
      (∃ expected, parseApiReturnContract typeText = .ok expected ∧
        validateJson context expected value = .ok ()) ↔ validateJson context type value = .ok () := by
  constructor
  · intro agrees context value
    have media := tables_checked.2.2.2.2.2.2.2
    rw [← agrees context 200 "application/json" ⟨1, .ok value⟩ value rfl (by decide) media rfl]
    exact (validate_json_body rfl (by decide) media rfl notBinary).symm
  · intro agrees context status contentType body value success content media read
    rw [validate_json_body success content media read notBinary]
    exact agrees context value

theorem named_agrees {wrappers : List Wrapper} {name : String} :
    (∀ context value,
      validateJson context (wrap wrappers (namedType routeNames name)) value = .ok () ↔
        validateJson context (wrap wrappers (namedType builtins name)) value = .ok ()) ↔
      name ∉ disputedNames ∨ 64 < depth wrappers := by
  have plain := namedType_plain name builtins_plain
  have plain' := namedType_plain name routeNames_plain
  constructor
  · intro agrees
    by_contra differs
    rw [not_or, not_not, Nat.not_lt] at differs
    obtain ⟨disputed, shallow⟩ := differs
    obtain ⟨levels, total⟩ : ∃ levels, 65 = depth wrappers + (levels + 1) := ⟨64 - depth wrappers, by omega⟩
    obtain ⟨context, difference⟩ := disputed_differs disputed levels
    have same := agrees context (inside wrappers (.object []))
    rw [validateJson, validateJson, total] at same
    have built := @validate_inside context wrappers _ (.object []) plain rfl (levels + 1)
    have routed := @validate_inside context wrappers _ (.object []) plain' rfl (levels + 1)
    rcases difference with ⟨satisfied, violated⟩ | ⟨violated, satisfied⟩
    · exact routed.2 violated "$" (same.mpr (built.1 satisfied "$"))
    · exact built.2 violated "$" (same.mp (routed.1 satisfied "$"))
  · rintro (undisputed | deep) context value
    · rw [namedType_agrees undisputed]
    · exact validate_deep plain' plain deep value "$"

/-- The runtime's check of a JSON response is the check of the declared type exactly for the
annotations that both parsers read alike. -/
theorem api_contract_exact {typeText : String} {type : AxType}
    (parsed : AxType.parseAnnotation typeText = .ok type) (notBinary : type ≠ .record "Binary") :
    ContractAgrees typeText type ↔ SharedReading typeText type := by
  have other : Text.trim typeText ≠ "Binary" := fun named => notBinary (parse_binary named parsed)
  rw [contractAgrees_iff other, SharedReading]
  rcases annotation_readings parsed with ⟨named, same, route⟩ | ⟨unnamed, error, route⟩
  · rw [if_pos named, same]
    refine Iff.trans (forall_congr' fun context => forall_congr' fun value => ?_) named_agrees
    refine iff_congr ⟨?_, fun accepted => ⟨_, route, accepted⟩⟩ Iff.rfl
    rintro ⟨expected, read, accepted⟩
    obtain rfl := Except.ok.inj (route.symm.trans read)
    exact accepted
  · rw [if_neg (Bool.eq_false_iff.mp unnamed)]
    have refused : ¬ ∃ expected, parseApiReturnContract typeText = .ok expected := by
      rintro ⟨expected, read⟩
      cases route.symm.trans read
    constructor
    · intro agrees
      by_contra possible
      obtain ⟨context, value, satisfied⟩ :=
        satisfies_of_answerable (Bool.eq_true_of_not_eq_false possible)
      obtain ⟨expected, read, _⟩ := (agrees context value).mpr (satisfied "$")
      exact refused ⟨expected, read⟩
    · intro impossible context value
      refine iff_of_false (fun ⟨expected, read, _⟩ => refused ⟨expected, read⟩) ?_
      exact violates_of_not_answerable impossible value "$"

theorem api_contract_exact_lists : ContractAgrees "List<Note>[]" (.list (.list (.record "Note"))) :=
  (api_contract_exact (by decide +kernel) (by decide +kernel)).mpr (by
    rw [SharedReading, if_pos (by decide +kernel)]
    exact .inl (by decide +kernel))

/-- A route that returns an `Int` has its numbers rejected: the runtime looks for a record. -/
theorem int_contract_refused :
    AxType.parseAnnotation "Int" = .ok .int ∧
    validateJson ⟨[], [], []⟩ .int (.number (.ofInt64 1)) = .ok () ∧
    validateApiResponseBytes 200 "application/json" ⟨1, .ok (.number (.ofInt64 1))⟩ "Int" ⟨[], [], []⟩ =
      .error (.contractMismatch "Int" ⟨"$", "Int", "integer", "unknown record contract"⟩) := by
  refine ⟨by decide +kernel, rfl, ?_⟩
  decide +kernel

end Agreement

end Axonyx.Runtime
