import Axonyx.Text

/-! Web origins: how an `Origin` or `Referer` value is read, and what it then denotes. An
IPv6 host is kept as its eight groups, which its canonical text determines. -/
namespace Axonyx.Runtime

namespace Ipv6

/-- A maximal run of digits, at most `maxDigits` of them, below `limit`. -/
def readNumber (digit : Char → Option Nat) (radix maxDigits limit : Nat) (zeroPrefix : Bool)
    (text : List Char) : Option (Nat × List Char) :=
  let digits := (text.takeWhile fun c => (digit c).isSome).filterMap digit
  let value := digits.foldl (fun n d => n * radix + d) 0
  if digits.isEmpty || digits.length > maxDigits || value ≥ limit then none
  else if !zeroPrefix && digits.head? = some 0 && digits.length > 1 then none
  else some (value, text.drop digits.length)

def decimal (c : Char) : Option Nat := if c.isDigit then some (c.toNat - 48) else none

def hexadecimal (c : Char) : Option Nat :=
  if c.isDigit then some (c.toNat - 48)
  else if 'a' ≤ c && c ≤ 'f' then some (c.toNat - 87)
  else if 'A' ≤ c && c ≤ 'F' then some (c.toNat - 55)
  else none

/-- `inner`, after a separator unless it is the first. -/
def readSeparator {α : Type} (separator : Char) (index : Nat)
    (inner : List Char → Option (α × List Char)) (text : List Char) : Option (α × List Char) :=
  if index = 0 then inner text
  else
    match text with
    | c :: rest => if c = separator then inner rest else none
    | [] => none

def readOctet : List Char → Option (Nat × List Char) := readNumber decimal 10 3 256 false

def readIpv4 (text : List Char) : Option (List Nat × List Char) := do
  let (a, text) ← readSeparator '.' 0 readOctet text
  let (b, text) ← readSeparator '.' 1 readOctet text
  let (c, text) ← readSeparator '.' 2 readOctet text
  let (d, text) ← readSeparator '.' 3 readOctet text
  return ([a * 256 + b, c * 256 + d], text)

def readGroup : List Char → Option (Nat × List Char) := readNumber hexadecimal 16 4 65536 true

/-- Groups up to `limit`, whether they end in an embedded IPv4 address, and the rest. -/
def readGroups (limit : Nat) : Nat → Nat → List Char → List Nat × Bool × List Char
  | 0, _, text => ([], false, text)
  | left + 1, index, text =>
    let ipv4 := if index + 1 < limit then readSeparator ':' index readIpv4 text else none
    match ipv4 with
    | some (groups, rest) => (groups, true, rest)
    | none =>
      match readSeparator ':' index readGroup text with
      | some (group, rest) =>
        let (groups, embedded, rest) := readGroups limit left (index + 1) rest
        (group :: groups, embedded, rest)
      | none => ([], false, text)

/-- `str::parse::<Ipv6Addr>`. -/
def parse (text : List Char) : Option (List Nat) :=
  let (head, embedded, rest) := readGroups 8 8 0 text
  if head.length = 8 then if rest.isEmpty then some head else none
  else if embedded then none
  else
    match rest with
    | ':' :: ':' :: rest =>
      let limit := 8 - (head.length + 1)
      let (tail, _, rest) := readGroups limit limit 0 rest
      if rest.isEmpty then
        some (head ++ List.replicate (8 - head.length - tail.length) 0 ++ tail)
      else none
    | _ => none

end Ipv6

inductive Host where
  | name (text : List Char)
  | ipv6 (groups : List Nat)
  deriving DecidableEq, Repr

/-- Scheme, host and port, the triple that `parse_origin` returns. -/
structure Origin where
  scheme : List Char
  host : Host
  port : Nat
  deriving DecidableEq, Repr

def defaultPort (scheme : List Char) : Option Nat :=
  if scheme = "http".toList then some 80
  else if scheme = "https".toList then some 443
  else none

def isDelimiter (c : Char) : Bool := c = '/' || c = '?' || c = '#'

def hostChar (c : Char) : Bool := c.isAlphanum || c = '.' || c = '-'

/-- Up to the first path, query or fragment delimiter. -/
def authorityOf (rest : List Char) : List Char := rest.takeWhile fun c => !isDelimiter c

def parseIpv6Authority (authority : List Char) (default : Nat) : Option (Host × Nat) :=
  match Text.splitOnceChars [']'] authority with
  | none => none
  | some (host, suffix) =>
    match Ipv6.parse host with
    | none => none
    | some groups =>
      match suffix with
      | [] => some (.ipv6 groups, default)
      | c :: port =>
        if c = ':' then (Text.parseUnsigned 65535 port).map fun port => (.ipv6 groups, port)
        else none

def parseNameAuthority (authority : List Char) (default : Nat) : Option (Host × Nat) :=
  let parts := match Text.splitOnceChars [':'] authority with
    | some (host, port) => (Text.parseUnsigned 65535 port).map fun port => (host, port)
    | none => some (authority, default)
  match parts with
  | none => none
  | some (host, port) =>
    if host.isEmpty || !host.all hostChar then none else some (.name (host.map Char.toLower), port)

def parseAuthority (authority : List Char) (default : Nat) : Option (Host × Nat) :=
  match authority with
  | '[' :: ipv6 => parseIpv6Authority ipv6 default
  | authority => parseNameAuthority authority default

def parseOrigin (value : String) : Option Origin :=
  match Text.splitOnceChars "://".toList value.toList with
  | none => none
  | some (scheme, rest) =>
    let scheme := scheme.map Char.toLower
    match defaultPort scheme with
    | none => none
    | some default =>
      if value.toList.any fun c =>
          Text.isWhitespace c || Text.isControl c || c = '@' || c = '\\' || c = ',' then none
      else
        match parseAuthority (authorityOf rest) default with
        | none => none
        | some (host, port) => if port = 0 then none else some ⟨scheme, host, port⟩

/-- Configuration accepts an origin only: no path, query or fragment. -/
def validPublicOrigin (value : String) : Bool :=
  match parseOrigin value, Text.splitOnceChars "://".toList value.toList with
  | some _, some (_, rest) => !rest.any isDelimiter
  | _, _ => false

def matchesHost (origin : String) (host : Option String) : Bool :=
  match host, Text.splitOnceChars "://".toList origin.toList with
  | some host, some (scheme, remainder) =>
    let scheme := scheme.map Char.toLower
    if scheme ≠ "https".toList ∧ scheme ≠ "http".toList then false
    else
      let authority := authorityOf remainder
      if authority.isEmpty || authority.any fun c =>
          Text.isWhitespace c || c = '@' || c = '\\' || c = ',' then false
      else authority.map Char.toLower = host.toList.map Char.toLower
  | _, _ => false

section Meaning

/-- `value` is `scheme://authority`, alone or before a path, query or fragment, and the
authority hides no user info or second value. -/
structure IsUrl (value : String) (scheme authority : List Char) : Prop where
  split : ∃ rest, value.toList = scheme ++ "://".toList ++ authority ++ rest ∧
    ∀ c ∈ rest.head?, isDelimiter c = true
  bare : ∀ c ∈ authority, isDelimiter c = false
  plain : ∀ c ∈ authority, Text.isWhitespace c = false ∧ c ≠ '@' ∧ c ≠ '\\' ∧ c ≠ ','

/-- What the text of an authority names, with the port of the scheme by default. -/
inductive NamesHost (default : Nat) : List Char → Host → Nat → Prop
  | name (host : List Char) (nonempty : host ≠ []) (letters : ∀ c ∈ host, hostChar c = true) :
      NamesHost default host (.name (host.map Char.toLower)) default
  | namePort (host digits : List Char) (port : Nat) (nonempty : host ≠ [])
      (letters : ∀ c ∈ host, hostChar c = true)
      (parsed : Text.parseUnsigned 65535 digits = some port) :
      NamesHost default (host ++ ':' :: digits) (.name (host.map Char.toLower)) port
  | ipv6 (text : List Char) (groups : List Nat) (parsed : Ipv6.parse text = some groups) :
      NamesHost default ('[' :: text ++ [']']) (.ipv6 groups) default
  | ipv6Port (text digits : List Char) (groups : List Nat) (port : Nat)
      (address : Ipv6.parse text = some groups)
      (parsed : Text.parseUnsigned 65535 digits = some port) :
      NamesHost default ('[' :: text ++ ']' :: ':' :: digits) (.ipv6 groups) port

/-- `value` is a URL of `origin`. -/
def Denotes (value : String) (origin : Origin) : Prop :=
  ∃ scheme authority default, IsUrl value scheme authority ∧
    scheme.map Char.toLower = origin.scheme ∧ defaultPort origin.scheme = some default ∧
    NamesHost default authority origin.host origin.port

/-- `value` is a web URL whose authority is the given host. -/
def DenotesHost (value host : String) : Prop :=
  ∃ scheme authority, IsUrl value scheme authority ∧
    (defaultPort (scheme.map Char.toLower)).isSome ∧
    authority.map Char.toLower = host.toList.map Char.toLower

theorem authorityOf_bare (rest : List Char) : ∀ c ∈ authorityOf rest, isDelimiter c = false := by
  intro c member
  have kept := List.all_eq_true.mp (List.all_takeWhile (p := fun c => !isDelimiter c)) c member
  simpa using kept

theorem authorityOf_split (rest : List Char) : ∃ after, rest = authorityOf rest ++ after ∧
    ∀ c ∈ after.head?, isDelimiter c = true := by
  refine ⟨rest.dropWhile fun c => !isDelimiter c, (List.takeWhile_append_dropWhile).symm, ?_⟩
  intro c first
  have stopped := List.head?_dropWhile_not (fun c => !isDelimiter c) rest
  rw [Option.mem_def.mp first] at stopped
  simpa using stopped

theorem isUrl_of_split {value : String} {scheme rest : List Char}
    (split : Text.splitOnceChars "://".toList value.toList = some (scheme, rest))
    (plain : ∀ c ∈ authorityOf rest, Text.isWhitespace c = false ∧ c ≠ '@' ∧ c ≠ '\\' ∧ c ≠ ',') :
    IsUrl value scheme (authorityOf rest) := by
  obtain ⟨after, parts, first⟩ := authorityOf_split rest
  refine ⟨⟨after, ?_, first⟩, authorityOf_bare rest, plain⟩
  rw [Text.splitOnceChars_eq_some split, List.append_assoc _ _ after, ← parts]

theorem parseNameAuthority_names {authority : List Char} {default port : Nat} {host : Host}
    (parsed : parseNameAuthority authority default = some (host, port)) :
    NamesHost default authority host port := by
  unfold parseNameAuthority at parsed
  cases parts : Text.splitOnceChars [':'] authority with
  | none =>
    simp only [parts] at parsed
    split at parsed
    next => cases parsed
    next legal =>
      obtain ⟨rfl, rfl⟩ := Prod.mk.inj (Option.some.inj parsed)
      simp only [Bool.or_eq_true, List.isEmpty_iff, Bool.not_eq_true', List.all_eq_false, not_or,
        not_exists, not_and, Bool.not_eq_true, Bool.not_eq_false] at legal
      exact .name authority legal.1 legal.2
  | some pair =>
    obtain ⟨name, digits⟩ := pair
    simp only [parts] at parsed
    cases number : Text.parseUnsigned 65535 digits with
    | none => simp [number] at parsed
    | some port' =>
      simp only [number, Option.map_some] at parsed
      split at parsed
      next => cases parsed
      next legal =>
        obtain ⟨rfl, rfl⟩ := Prod.mk.inj (Option.some.inj parsed)
        simp only [Bool.or_eq_true, List.isEmpty_iff, Bool.not_eq_true', List.all_eq_false, not_or,
          not_exists, not_and, Bool.not_eq_true, Bool.not_eq_false] at legal
        have whole := Text.splitOnceChars_eq_some parts
        rw [List.append_assoc] at whole
        exact whole ▸ .namePort name digits port' legal.1 legal.2 number

theorem parseIpv6Authority_names {authority : List Char} {default port : Nat} {host : Host}
    (parsed : parseIpv6Authority authority default = some (host, port)) :
    NamesHost default ('[' :: authority) host port := by
  unfold parseIpv6Authority at parsed
  cases parts : Text.splitOnceChars [']'] authority with
  | none => simp [parts] at parsed
  | some pair =>
    obtain ⟨text, suffix⟩ := pair
    have whole := Text.splitOnceChars_eq_some parts
    simp only [parts] at parsed
    cases address : Ipv6.parse text with
    | none => simp [address] at parsed
    | some groups =>
      simp only [address] at parsed
      cases suffix with
      | nil =>
        obtain ⟨rfl, rfl⟩ := Prod.mk.inj (Option.some.inj parsed)
        rw [List.append_nil] at whole
        exact whole ▸ .ipv6 text groups address
      | cons c digits =>
        simp only at parsed
        split at parsed
        next colon =>
          obtain ⟨port', number, same⟩ := Option.map_eq_some_iff.mp parsed
          obtain ⟨rfl, rfl⟩ := Prod.mk.inj same
          rw [List.append_assoc, colon] at whole
          exact whole ▸ .ipv6Port text digits groups port' address number
        next => cases parsed

/-- A value that parses is a URL of the origin it parses to. -/
theorem parseOrigin_denotes {value : String} {origin : Origin}
    (parsed : parseOrigin value = some origin) : Denotes value origin := by
  unfold parseOrigin at parsed
  cases parts : Text.splitOnceChars "://".toList value.toList with
  | none =>
    rw [parts] at parsed
    cases parsed
  | some pair =>
    obtain ⟨scheme, rest⟩ := pair
    rw [parts] at parsed
    dsimp only at parsed
    cases known : defaultPort (scheme.map Char.toLower) with
    | none => simp [known] at parsed
    | some default =>
      simp only [known] at parsed
      split at parsed
      next => cases parsed
      next clean =>
        cases named : parseAuthority (authorityOf rest) default with
        | none => simp [named] at parsed
        | some pair =>
          obtain ⟨host, port⟩ := pair
          simp only [named] at parsed
          split at parsed
          next => cases parsed
          next =>
            obtain rfl := Option.some.inj parsed
            refine ⟨scheme, authorityOf rest, default, isUrl_of_split parts ?_, rfl, known, ?_⟩
            · intro c member
              have inside : c ∈ value.toList := by
                rw [Text.splitOnceChars_eq_some parts]
                exact List.mem_append_right _ (List.takeWhile_subset _ member)
              simp only [List.any_eq_true, Bool.or_eq_true, decide_eq_true_eq, not_exists, not_and,
                not_or, Bool.not_eq_true] at clean
              have marks := clean c inside
              exact ⟨marks.1.1.1.1, marks.1.1.2, marks.1.2, marks.2⟩
            · unfold parseAuthority at named
              split at named
              next ipv6 bracket => exact bracket ▸ parseIpv6Authority_names named
              next => exact parseNameAuthority_names named

theorem matchesHost_denotes {origin : String} {host : Option String}
    (accepted : matchesHost origin host = true) : ∃ name, host = some name ∧ DenotesHost origin name := by
  unfold matchesHost at accepted
  split at accepted
  next name scheme remainder parts =>
    dsimp only at accepted
    split at accepted
    next => cases accepted
    next web =>
      split at accepted
      next => cases accepted
      next clean =>
        simp only [Bool.or_eq_true, List.any_eq_true, decide_eq_true_eq, not_or, not_exists,
          not_and, Bool.not_eq_true] at clean
        refine ⟨name, rfl, scheme, authorityOf remainder, isUrl_of_split parts fun c member => ?_,
          ?_, by simpa using accepted⟩
        · have marks := clean.2 c member
          exact ⟨marks.1.1.1, marks.1.1.2, marks.1.2, marks.2⟩
        · by_cases secure : scheme.map Char.toLower = "https".toList
          · rw [secure]
            rfl
          · have plain : scheme.map Char.toLower = "http".toList := by
              by_contra other
              exact web ⟨secure, other⟩
            rw [plain]
            rfl
  next => cases accepted

end Meaning

end Axonyx.Runtime
