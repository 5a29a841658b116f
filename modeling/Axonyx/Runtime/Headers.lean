import Axonyx.Core.Expr
import Axonyx.Runtime.Mutation

/-! The headers of a response: a map by the exact spelling of a name, in which a lookup ignores
case, and from which the server's own map, which knows one spelling only, is filled in order. -/
namespace Axonyx.Runtime.Headers

open Axonyx.Core (lookup insertField)

section Response

/-- A response with its cookies; the headers are in the order of their map. -/
structure AxResponse extends AxHttpResponse where
  setCookies : List String
  sorted : headers.Pairwise (·.1 < ·.1)

def AxResponse.withHeader (response : AxResponse) (name value : String) : AxResponse :=
  { response with
    headers := insertField response.headers name value
    sorted := Core.insertField_sorted response.sorted name value }

def AxResponse.withNoStore (response : AxResponse) : AxResponse := response.withHeader "Cache-Control" "no-store"

def AxResponse.headerValue (response : AxResponse) (name : String) : Option String :=
  (response.headers.find? fun header => Text.eqIgnoreAsciiCase header.1 name).map Prod.snd

/-- The built-in hooks of the phase behind the handler. -/
inductive AxAfterMiddleware where
  | securityHeaders
  | noStore
  deriving DecidableEq, Repr

def securityHeadersMiddleware (response : AxResponse) : AxResponse :=
  (response.withHeader "X-Content-Type-Options" "nosniff").withHeader "Referrer-Policy"
    "strict-origin-when-cross-origin"

def noStoreMiddleware (response : AxResponse) : AxResponse := response.withHeader "Cache-Control" "no-store"

def AxAfterMiddleware.run : AxAfterMiddleware → AxResponse → AxResponse
  | .securityHeaders => securityHeadersMiddleware
  | .noStore => noStoreMiddleware

def runAfter (after : List AxAfterMiddleware) (response : AxResponse) : AxResponse :=
  after.foldl (fun response middleware => middleware.run response) response

/-- What sets a header. -/
inductive HeaderCall where
  | withHeader (name value : String)
  | withNoStore
  | runAfter (after : List AxAfterMiddleware)
  deriving DecidableEq, Repr

def HeaderCall.apply : HeaderCall → AxResponse → AxResponse
  | .withHeader name value, response => response.withHeader name value
  | .withNoStore, response => response.withNoStore
  | .runAfter after, response => Headers.runAfter after response

def applyCalls (calls : List HeaderCall) (response : AxResponse) : AxResponse :=
  calls.foldl (fun response call => call.apply response) response

end Response

section Server

/-- Which names and values the server's library takes for a header. -/
structure HeaderRules where
  validName : String → Bool
  validValue : String → Bool

/-- The library's map: a name is folded, and may have several values. -/
abbrev HeaderMap := List (String × String)

def HeaderMap.insert (headers : HeaderMap) (name value : String) : HeaderMap :=
  headers.filter (fun header => header.1 != Text.toAsciiLowercase name) ++ [(Text.toAsciiLowercase name, value)]

def HeaderMap.append (headers : HeaderMap) (name value : String) : HeaderMap :=
  headers ++ [(Text.toAsciiLowercase name, value)]

/-- All values of a name. -/
def HeaderMap.values (headers : HeaderMap) (name : String) : List String :=
  (headers.filter fun header => header.1 == Text.toAsciiLowercase name).map Prod.snd

structure AxumResponse where
  status : Nat
  headers : HeaderMap
  body : String

variable (rules : HeaderRules)

/-- A header that can be sent. -/
def HeaderRules.sendable (name value : String) : Bool := rules.validName name && rules.validValue value

def sendHeader (headers : HeaderMap) (header : String × String) : HeaderMap :=
  if rules.sendable header.1 header.2 then headers.insert header.1 header.2 else headers

def sendCookie (headers : HeaderMap) (cookie : String) : HeaderMap :=
  if rules.validValue cookie then headers.append "Set-Cookie" cookie else headers

/-- None where the content type is no header value, which the source takes for impossible. -/
def axonyxResponseToAxum (response : AxResponse) : Option AxumResponse :=
  if rules.validValue response.contentType then
    some {
      status := if 100 ≤ response.status ∧ response.status ≤ 999 then response.status else 200
      headers := response.setCookies.foldl (sendCookie rules)
        (response.headers.foldl (sendHeader rules) [("content-type", response.contentType)])
      body := response.body }
  else none

end Server

section Writes

def AxAfterMiddleware.writes : AxAfterMiddleware → List (String × String)
  | .securityHeaders => [("X-Content-Type-Options", "nosniff"), ("Referrer-Policy", "strict-origin-when-cross-origin")]
  | .noStore => [("Cache-Control", "no-store")]

/-- The names and values a call sets, in its order. -/
def HeaderCall.writes : HeaderCall → List (String × String)
  | .withHeader name value => [(name, value)]
  | .withNoStore => [("Cache-Control", "no-store")]
  | .runAfter after => after.flatMap AxAfterMiddleware.writes

/-- Entries put into a map of headers. -/
def insertAll (writes headers : List (String × String)) : List (String × String) :=
  writes.foldl (fun fields entry => insertField fields entry.1 entry.2) headers

theorem insertAll_append (first second headers : List (String × String)) :
    insertAll (first ++ second) headers = insertAll second (insertAll first headers) := List.foldl_append

theorem middleware_headers (middleware : AxAfterMiddleware) (response : AxResponse) :
    (middleware.run response).headers = insertAll middleware.writes response.headers := by
  cases middleware <;> rfl

theorem runAfter_headers (after : List AxAfterMiddleware) (response : AxResponse) :
    (runAfter after response).headers = insertAll (after.flatMap AxAfterMiddleware.writes) response.headers := by
  induction after generalizing response with
  | nil => rfl
  | cons middleware rest ih =>
    rw [List.flatMap_cons, insertAll_append, ← middleware_headers]
    exact ih (middleware.run response)

theorem call_headers (call : HeaderCall) (response : AxResponse) :
    (call.apply response).headers = insertAll call.writes response.headers := by
  cases call with
  | withHeader name value => rfl
  | withNoStore => rfl
  | runAfter after => exact runAfter_headers after response

theorem calls_headers (calls : List HeaderCall) (response : AxResponse) :
    (applyCalls calls response).headers = insertAll (calls.flatMap HeaderCall.writes) response.headers := by
  induction calls generalizing response with
  | nil => rfl
  | cons call rest ih =>
    rw [List.flatMap_cons, insertAll_append, ← call_headers]
    exact ih (call.apply response)

theorem call_other (call : HeaderCall) (response : AxResponse) :
    (call.apply response).contentType = response.contentType := by
  cases call with
  | withHeader name value => rfl
  | withNoStore => rfl
  | runAfter after =>
    change (runAfter after response).contentType = _
    induction after generalizing response with
    | nil => rfl
    | cons middleware rest ih =>
      refine (ih (middleware.run response)).trans ?_
      cases middleware <;> rfl

theorem calls_contentType (calls : List HeaderCall) (response : AxResponse) :
    (applyCalls calls response).contentType = response.contentType := by
  induction calls generalizing response with
  | nil => rfl
  | cons call rest ih => exact (ih (call.apply response)).trans (call_other call response)

end Writes

section Order

variable {entries : List (String × String)}

theorem mem_iff_lookup (sorted : entries.Pairwise (·.1 < ·.1)) (entry : String × String) :
    entry ∈ entries ↔ lookup entries entry.1 = some entry.2 := by
  have distinct : (entries.map (·.1)).Nodup := by
    rw [List.Nodup, List.pairwise_map]
    refine sorted.imp fun {a b} before same => ?_
    rw [same] at before
    exact String.lt_irrefl _ before
  exact ⟨Core.lookup_of_mem distinct, Core.mem_of_lookup⟩

theorem name_le {a b : String} (before : a < b) : a ≤ b := String.not_lt.mp (String.lt_asymm before)

/-- The first entry of a kind has the least name of that kind. -/
theorem find_sorted (sorted : entries.Pairwise (·.1 < ·.1)) {kind : String × String → Bool} {entry : String × String} :
    entries.find? kind = some entry ↔
      entry ∈ entries ∧ kind entry = true ∧ ∀ other ∈ entries, kind other = true → entry.1 ≤ other.1 := by
  induction entries with
  | nil => simp
  | cons head rest ih =>
    rw [List.pairwise_cons] at sorted
    rw [List.find?_cons]
    cases here : kind head with
    | true =>
      constructor
      · rintro same
        obtain rfl := Option.some.inj same
        refine ⟨List.mem_cons_self, here, fun other member _ => ?_⟩
        rcases List.mem_cons.mp member with rfl | later
        · exact String.le_refl _
        · exact name_le (sorted.1 other later)
      · rintro ⟨member, _, least⟩
        rcases List.mem_cons.mp member with rfl | later
        · rfl
        · have before := sorted.1 entry later
          exact absurd before (String.not_lt.mpr (least head List.mem_cons_self here))
    | false =>
      refine (ih sorted.2).trans ⟨?_, ?_⟩
      · rintro ⟨member, fits, least⟩
        refine ⟨List.mem_cons_of_mem _ member, fits, fun other inside known => ?_⟩
        rcases List.mem_cons.mp inside with rfl | later
        · rw [here] at known
          cases known
        · exact least other later known
      · rintro ⟨member, fits, least⟩
        refine ⟨?_, fits, fun other later => least other (List.mem_cons_of_mem _ later)⟩
        rcases List.mem_cons.mp member with rfl | later
        · rw [here] at fits
          cases fits
        · exact later

/-- The last entry of a kind has the greatest name of that kind. -/
theorem find_reverse_sorted (sorted : entries.Pairwise (·.1 < ·.1)) {kind : String × String → Bool}
    {entry : String × String} : entries.reverse.find? kind = some entry ↔
      entry ∈ entries ∧ kind entry = true ∧ ∀ other ∈ entries, kind other = true → other.1 ≤ entry.1 := by
  induction entries with
  | nil => simp
  | cons head rest ih =>
    rw [List.pairwise_cons] at sorted
    rw [List.reverse_cons, List.find?_append, Option.or_eq_some_iff, ih sorted.2]
    constructor
    · rintro (⟨member, fits, greatest⟩ | ⟨none, single⟩)
      · refine ⟨List.mem_cons_of_mem _ member, fits, fun other inside known => ?_⟩
        rcases List.mem_cons.mp inside with rfl | later
        · exact name_le (sorted.1 entry member)
        · exact greatest other later known
      · obtain rfl := List.mem_singleton.mp (List.mem_of_find?_eq_some single)
        refine ⟨List.mem_cons_self, List.find?_some single, fun other inside known => ?_⟩
        rcases List.mem_cons.mp inside with rfl | later
        · exact String.le_refl _
        · have off := List.find?_eq_none.mp none other (List.mem_reverse.mpr later)
          exact absurd known off
    · rintro ⟨member, fits, greatest⟩
      rcases List.mem_cons.mp member with rfl | later
      · refine .inr ⟨?_, by simp [fits]⟩
        apply List.find?_eq_none.mpr
        intro other inside known
        have behind := List.mem_reverse.mp inside
        have low := greatest other (List.mem_cons_of_mem _ behind) known
        exact absurd (sorted.1 other behind) (String.not_lt.mpr low)
      · exact .inl ⟨later, fits, fun other inside => greatest other (List.mem_cons_of_mem _ inside)⟩

end Order

section Sending

variable (rules : HeaderRules)

theorem lowercase_eq_iff (a b : String) :
    Text.toAsciiLowercase a = Text.toAsciiLowercase b ↔ Text.eqIgnoreAsciiCase a b = true := by
  unfold Text.toAsciiLowercase Text.eqIgnoreAsciiCase
  rw [String.ofList_inj, decide_eq_true_iff]

theorem values_append (headers more : HeaderMap) (name : String) :
    (headers ++ more : HeaderMap).values name = headers.values name ++ more.values name := by
  rw [HeaderMap.values, List.filter_append, List.map_append]
  rfl

theorem values_single (name value other : String) : HeaderMap.values [(Text.toAsciiLowercase name, value)] other =
    if Text.eqIgnoreAsciiCase name other then [value] else [] := by
  by_cases same : Text.eqIgnoreAsciiCase name other = true
  · have folded := (lowercase_eq_iff name other).mpr same
    simp [HeaderMap.values, folded, same]
  · have apart : Text.toAsciiLowercase name ≠ Text.toAsciiLowercase other :=
      fun folded => same ((lowercase_eq_iff name other).mp folded)
    simp [HeaderMap.values, apart, same]

/-- An insertion leaves one value of its name, and the other names as they are. -/
theorem values_insert (headers : HeaderMap) (name value other : String) : (headers.insert name value).values other =
    if Text.eqIgnoreAsciiCase name other then [value] else headers.values other := by
  rw [HeaderMap.insert, values_append, values_single]
  have kept : HeaderMap.values (headers.filter fun header => header.1 != Text.toAsciiLowercase name) other =
      if Text.eqIgnoreAsciiCase name other then [] else headers.values other := by
    rw [HeaderMap.values, List.filter_filter]
    by_cases same : Text.eqIgnoreAsciiCase name other = true
    · rw [if_pos same, (lowercase_eq_iff name other).mpr same]
      simp
    · have apart : Text.toAsciiLowercase name ≠ Text.toAsciiLowercase other :=
        fun folded => same ((lowercase_eq_iff name other).mp folded)
      rw [if_neg same, HeaderMap.values]
      refine congrArg _ (List.filter_congr fun header _ => ?_)
      by_cases here : header.1 = Text.toAsciiLowercase other
      · simp [here, Ne.symm apart]
      · simp [here]
  rw [kept]
  split <;> simp

/-- A header of that name, in any spelling, that can be sent. -/
def HeaderRules.sends (name : String) (header : String × String) : Bool :=
  Text.eqIgnoreAsciiCase header.1 name && rules.sendable header.1 header.2

/-- Of all headers of a name the last one that can be sent is the one sent. -/
theorem values_sent (entries : List (String × String)) (headers : HeaderMap) (name : String) :
    (entries.foldl (sendHeader rules) headers).values name =
      ((entries.reverse.find? (rules.sends name)).map fun header => [header.2]).getD (headers.values name) := by
  induction entries generalizing headers with
  | nil => rfl
  | cons entry rest ih =>
    rw [List.foldl_cons, ih, List.reverse_cons, List.find?_append]
    cases rest.reverse.find? (rules.sends name) with
    | some later => rfl
    | none =>
      rw [Option.none_or, sendHeader]
      by_cases sendable : rules.sendable entry.1 entry.2 = true
      · rw [if_pos sendable, values_insert]
        by_cases same : Text.eqIgnoreAsciiCase entry.1 name = true
        · simp [HeaderRules.sends, same, sendable]
        · simp [HeaderRules.sends, same]
      · rw [if_neg sendable]
        simp [HeaderRules.sends, sendable]

theorem values_cookies (cookies : List String) (headers : HeaderMap) {name : String}
    (other : Text.eqIgnoreAsciiCase "Set-Cookie" name = false) :
    (cookies.foldl (sendCookie rules) headers).values name = headers.values name := by
  induction cookies generalizing headers with
  | nil => rfl
  | cons cookie rest ih =>
    rw [List.foldl_cons, ih, sendCookie]
    split
    · rw [HeaderMap.append, values_append, values_single, other]
      simp
    · rfl

end Sending

section LastWrite

variable (rules : HeaderRules) (response : AxResponse) (calls : List HeaderCall)

/-- The value last set under a spelling. -/
def setUnder (spelling : String) : Option String :=
  (lookup (calls.flatMap HeaderCall.writes).reverse spelling).or (lookup response.headers spelling)

/-- The value last set for a name ignoring case. -/
def lastSet (name : String) : Option String :=
  (((calls.flatMap HeaderCall.writes).reverse.find? fun write => Text.eqIgnoreAsciiCase write.1 name).map Prod.snd).or
    (response.headerValue name)

/-- The lookup and the server agree on the value last set, and the name is sent once. -/
def LastWriteWins (name : String) : Prop :=
  (applyCalls calls response).headerValue name = lastSet response calls name ∧
    ∃ out, axonyxResponseToAxum rules (applyCalls calls response) = some out ∧
      out.headers.values name = (lastSet response calls name).toList

/-- The first of a name's spellings has the value. -/
def CarriedFirst (name value : String) : Prop :=
  ∃ spelling, Text.eqIgnoreAsciiCase spelling name = true ∧ setUnder response calls spelling = some value ∧
    ∀ other, Text.eqIgnoreAsciiCase other name = true → setUnder response calls other ≠ none → spelling ≤ other

/-- The last of a name's spellings that can be sent has the value. -/
def CarriedLast (name value : String) : Prop :=
  ∃ spelling, Text.eqIgnoreAsciiCase spelling name = true ∧ setUnder response calls spelling = some value ∧
    rules.sendable spelling value = true ∧
    ∀ other set, Text.eqIgnoreAsciiCase other name = true → setUnder response calls other = some set →
      rules.sendable other set = true → other ≤ spelling

variable {response calls}

theorem lookup_applied (spelling : String) :
    lookup (applyCalls calls response).headers spelling = setUnder response calls spelling := by
  rw [calls_headers]
  exact Core.lookup_insertAll _ _ _

theorem mem_applied (header : String × String) :
    header ∈ (applyCalls calls response).headers ↔ setUnder response calls header.1 = some header.2 := by
  rw [mem_iff_lookup (applyCalls calls response).sorted, lookup_applied]

theorem headerValue_iff {name value : String} :
    (applyCalls calls response).headerValue name = some value ↔ CarriedFirst response calls name value := by
  unfold AxResponse.headerValue CarriedFirst
  rw [Option.map_eq_some_iff]
  constructor
  · rintro ⟨header, found, rfl⟩
    obtain ⟨member, same, least⟩ := (find_sorted (applyCalls calls response).sorted).mp found
    refine ⟨header.1, same, (mem_applied header).mp member, fun other fits present => ?_⟩
    obtain ⟨set, shape⟩ := Option.ne_none_iff_exists'.mp present
    exact least (other, set) ((mem_applied (other, set)).mpr shape) fits
  · rintro ⟨spelling, same, set, least⟩
    refine ⟨(spelling, value), (find_sorted (applyCalls calls response).sorted).mpr ⟨?_, same, ?_⟩, rfl⟩
    · exact (mem_applied (spelling, value)).mpr set
    · intro other member fits
      apply least other.1 fits
      rw [(mem_applied other).mp member]
      exact Option.some_ne_none _

theorem sent_iff {name value : String} :
    ((applyCalls calls response).headers.reverse.find? (rules.sends name)).map Prod.snd = some value ↔
      CarriedLast rules response calls name value := by
  unfold CarriedLast
  rw [Option.map_eq_some_iff]
  constructor
  · rintro ⟨header, found, rfl⟩
    obtain ⟨member, fits, greatest⟩ := (find_reverse_sorted (applyCalls calls response).sorted).mp found
    obtain ⟨same, sendable⟩ := (Bool.and_eq_true _ _).mp fits
    refine ⟨header.1, same, (mem_applied header).mp member, sendable, fun other set known present can => ?_⟩
    exact greatest (other, set) ((mem_applied (other, set)).mpr present) ((Bool.and_eq_true _ _).mpr ⟨known, can⟩)
  · rintro ⟨spelling, same, set, sendable, greatest⟩
    refine ⟨(spelling, value), (find_reverse_sorted (applyCalls calls response).sorted).mpr ⟨?_, ?_, ?_⟩, rfl⟩
    · exact (mem_applied (spelling, value)).mpr set
    · exact (Bool.and_eq_true _ _).mpr ⟨same, sendable⟩
    · intro other member fits
      obtain ⟨known, can⟩ := (Bool.and_eq_true _ _).mp fits
      exact greatest other.1 other.2 known ((mem_applied other).mp member) can

/-- A name that is set nowhere is under no spelling. -/
theorem unset {name spelling : String} (absent : lastSet response calls name = none)
    (same : Text.eqIgnoreAsciiCase spelling name = true) : setUnder response calls spelling = none := by
  obtain ⟨written, initial⟩ := Option.or_eq_none_iff.mp absent
  refine Option.or_eq_none_iff.mpr ⟨?_, ?_⟩
  · cases found : lookup (calls.flatMap HeaderCall.writes).reverse spelling with
    | none => rfl
    | some value =>
      have off := List.find?_eq_none.mp (Option.map_eq_none_iff.mp written) _ (Core.mem_of_lookup found)
      exact absurd same off
  · cases found : lookup response.headers spelling with
    | none => rfl
    | some value =>
      have off := List.find?_eq_none.mp (Option.map_eq_none_iff.mp initial) _ (Core.mem_of_lookup found)
      exact absurd same off

/-- What the server sends for a name that is neither the content type's nor a cookie's. -/
theorem values_of_sent {out : AxumResponse} {name : String}
    (contentType : Text.eqIgnoreAsciiCase "Content-Type" name = false)
    (setCookie : Text.eqIgnoreAsciiCase "Set-Cookie" name = false)
    (sent : axonyxResponseToAxum rules response = some out) : out.headers.values name =
      ((response.headers.reverse.find? (rules.sends name)).map Prod.snd).toList := by
  unfold axonyxResponseToAxum at sent
  split at sent
  · obtain rfl := Option.some.inj sent
    have lower : "content-type" = Text.toAsciiLowercase "Content-Type" := by decide +kernel
    have first : HeaderMap.values [("content-type", response.contentType)] name = [] := by
      rw [lower, values_single, contentType]
      rfl
    rw [values_cookies rules _ _ setCookie, values_sent, first]
    cases response.headers.reverse.find? (rules.sends name) <;> rfl
  · cases sent

/-- The last write of a name wins exactly if its first spelling and its last one that can be sent have
its value. -/
theorem last_write_wins_iff {name : String} (contentType : Text.eqIgnoreAsciiCase "Content-Type" name = false)
    (setCookie : Text.eqIgnoreAsciiCase "Set-Cookie" name = false) :
    LastWriteWins rules response calls name ↔ rules.validValue response.contentType = true ∧
      ∀ value, lastSet response calls name = some value →
        CarriedFirst response calls name value ∧ CarriedLast rules response calls name value := by
  have answers : (∃ out, axonyxResponseToAxum rules (applyCalls calls response) = some out) ↔
      rules.validValue response.contentType = true := by
    unfold axonyxResponseToAxum
    rw [calls_contentType]
    split
    · next valid => simp [valid]
    · next invalid => simp [invalid]
  cases last : lastSet response calls name with
  | none =>
    have none (header : String × String) (member : header ∈ (applyCalls calls response).headers) :
        Text.eqIgnoreAsciiCase header.1 name = false := by
      by_contra same
      have present := (mem_applied header).mp member
      rw [unset last (by simpa using same)] at present
      cases present
    have lookedUp : (applyCalls calls response).headerValue name = Option.none :=
      Option.map_eq_none_iff.mpr (List.find?_eq_none.mpr fun header member => by simp [none header member])
    have kept : (applyCalls calls response).headers.reverse.find? (rules.sends name) = Option.none := by
      apply List.find?_eq_none.mpr
      intro header member
      simp [HeaderRules.sends, none header (List.mem_reverse.mp member)]
    unfold LastWriteWins
    rw [last, ← answers]
    constructor
    · rintro ⟨_, out, sent, _⟩
      exact ⟨⟨out, sent⟩, fun value same => nomatch same⟩
    · rintro ⟨⟨out, sent⟩, _⟩
      refine ⟨lookedUp, out, sent, ?_⟩
      rw [values_of_sent rules contentType setCookie sent, kept]
      rfl
  | some value =>
    unfold LastWriteWins
    rw [last, ← answers, headerValue_iff]
    constructor
    · rintro ⟨first, out, sent, values⟩
      refine ⟨⟨out, sent⟩, fun other same => ?_⟩
      obtain rfl := Option.some.inj same
      refine ⟨first, (sent_iff rules).mp ?_⟩
      rw [values_of_sent rules contentType setCookie sent] at values
      cases found : ((applyCalls calls response).headers.reverse.find? (rules.sends name)).map Prod.snd with
      | none =>
        rw [found] at values
        cases values
      | some other =>
        rw [found] at values
        rw [(List.cons.inj values).1]
    · rintro ⟨⟨out, sent⟩, carried⟩
      obtain ⟨first, final⟩ := carried value rfl
      refine ⟨first, out, sent, ?_⟩
      rw [values_of_sent rules contentType setCookie sent, (sent_iff rules).mpr final]

/-- A page without headers. -/
def page : AxResponse := ⟨⟨200, "text/html; charset=utf-8", [], ""⟩, [], .nil⟩

def allValid : HeaderRules := ⟨fun _ => true, fun _ => true⟩

theorem last_write_wins_no_store : LastWriteWins allValid page [.withNoStore] "Cache-Control" := by
  have only (spelling : String) : setUnder page [.withNoStore] spelling =
      if "Cache-Control" = spelling then some "no-store" else none := by
    change (lookup [("Cache-Control", "no-store")] spelling).or (lookup [] spelling) = _
    rw [Core.lookup_cons]
    split <;> rfl
  have last : lastSet page [.withNoStore] "Cache-Control" = some "no-store" := by decide +kernel
  refine (last_write_wins_iff allValid (by decide +kernel) (by decide +kernel)).mpr ⟨rfl, fun value same => ?_⟩
  obtain rfl := Option.some.inj (last.symm.trans same)
  have named {other : String} (present : setUnder page [.withNoStore] other ≠ none) : "Cache-Control" = other := by
    by_contra apart
    exact present (by rw [only, if_neg apart])
  refine ⟨⟨"Cache-Control", by decide +kernel, only _, fun other _ present => ?_⟩,
    ⟨"Cache-Control", by decide +kernel, only _, rfl, fun other set _ present _ => ?_⟩⟩
  · exact named present ▸ String.le_refl _
  · exact named (present ▸ Option.some_ne_none set) ▸ String.le_refl _

/-- A handler's spelling of its own sorts behind the one of the framework, and is sent. -/
theorem earlier_write_sent : ¬LastWriteWins allValid page [.withHeader "cache-control" "public", .withNoStore]
    "Cache-Control" := by
  rintro ⟨_, out, sent, values⟩
  have last : lastSet page [.withHeader "cache-control" "public", .withNoStore] "Cache-Control" = some "no-store" := by
    decide +kernel
  have found : (((applyCalls [.withHeader "cache-control" "public", .withNoStore] page).headers.reverse.find?
      (allValid.sends "Cache-Control")).map Prod.snd).toList = ["public"] := by decide +kernel
  rw [values_of_sent allValid (by decide +kernel) (by decide +kernel) sent, found, last] at values
  exact absurd (List.cons.inj values).1 (by decide)

end LastWrite

end Axonyx.Runtime.Headers
