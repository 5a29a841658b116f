import Axonyx.Runtime.Origin
import Axonyx.Runtime.Session.Manager

/-! The two guards in front of a state-changing request: where it comes from, and the proof
it carries. Neither suffices alone; together they admit a request only with proof or
without any ambient authority. -/
namespace Axonyx.Runtime

open Session

/-- Third-party readers: HMAC-SHA256, UUIDs, and the string under a key of a JSON body. -/
structure Platform where
  mac : Mac
  parseUuid : String → Bool
  jsonText : List UInt8 → String → Option String

/-- The session side of a database runtime at one moment. -/
structure AxDatabaseRuntime (S D : Type) where
  /-- `env().secret("session_key")` -/
  sessionKey : AxRuntimeResult String
  manager : AxRuntimeResult AxSessionManager
  store : AxSessionStore S D
  state : S
  unixTimestamp : AxRuntimeResult Int64
  now : AxRuntimeResult Nat

structure AxHttpResponse where
  status : Nat
  contentType : String
  headers : List (String × String)
  body : String
  deriving DecidableEq

section Source

def safeMethod (request : AxHttpRequest) : Bool :=
  ["GET", "HEAD", "OPTIONS"].contains (Text.toAsciiUppercase request.method)

/-- `Origin`, else `Referer`. -/
def sourceHeader (request : AxHttpRequest) : Option String :=
  match request.headerValue "Origin" with
  | some origin => some origin
  | none => request.headerValue "Referer"

def rejectsSource (request : AxHttpRequest) (publicOrigin : Option String) (origin : String) : Bool :=
  match publicOrigin with
  | some expected =>
    match parseOrigin origin, parseOrigin expected with
    | some actual, some expected => actual ≠ expected
    | _, _ => true
  | none => !matchesHost origin (request.headerValue "Host")

def rejectsMutationRequestWithOrigin (request : AxHttpRequest) (publicOrigin : Option String) : Bool :=
  if safeMethod request then false
  else if publicOrigin.any fun origin => !validPublicOrigin origin then true
  else
    let site := request.headerValue "Sec-Fetch-Site"
    if site.any fun value => !Text.eqIgnoreAsciiCase value "same-origin" then true
    else
      match sourceHeader request with
      | some origin => rejectsSource request publicOrigin origin
      | none => if site.isSome then publicOrigin.isSome else (request.headerValue "Cookie").isSome

end Source

section Proof

def csrfHeader : String := "X-Axonyx-CSRF"

def csrfField : String := "__ax_csrf"

def anonymousTtl : Nat := 1800

def localRequest (request : AxHttpRequest) : Bool :=
  (request.headerValue "Host").any fun host =>
    host = "localhost" || Text.startsWith host "localhost:" ||
    host = "127.0.0.1" || Text.startsWith host "127.0.0.1:" ||
    host = "[::1]" || Text.startsWith host "[::1]:"

def anonymousName (request : AxHttpRequest) : String :=
  if localRequest request then "axonyx_csrf" else "__Host-axonyx-csrf"

/-- Issue time and nonce of `anonymous:{time}:{nonce}`. -/
def anonymousParts (identity : String) : Option (Nat × String) :=
  match Text.stripPrefix identity "anonymous:" with
  | none => none
  | some rest =>
    match Text.splitOnce rest ":" with
    | none => none
    | some (timestamp, nonce) =>
      (Text.parseUnsigned (2 ^ 64 - 1) timestamp.toList).map fun issued => (issued, nonce)

def anonymousIdentity (platform : Platform) (request : AxHttpRequest) (secret : String)
    (time : Nat) : AxRuntimeResult (Option String) :=
  match request.cookieValue (anonymousName request) with
  | none => .ok none
  | some cookie =>
    match Text.splitOnce cookie ".axcsrf1." with
    | none => .ok none
    | some (identity, signature) =>
      match anonymousParts identity with
      | none => .ok none
      | some (issued, nonce) =>
        if issued > time || time - issued ≥ anonymousTtl || !platform.parseUuid nonce then .ok none
        else do
          let valid ← Csrf.verify platform.mac identity ("axcsrf1." ++ signature) secret
          return if valid then some identity else none

def proof (platform : Platform) (request : AxHttpRequest) : Option String :=
  match request.headerValue csrfHeader with
  | some value => some value
  | none =>
    if (request.headerValue "Content-Type").any fun value =>
        Text.startsWith value "application/json" then
      platform.jsonText request.body csrfField
    else request.formValue csrfField

/-- `AxHttpResponse::text(403, …).with_no_store()`. -/
def forbidden : AxHttpResponse where
  status := 403
  contentType := "text/plain; charset=utf-8"
  headers := [("Cache-Control", "no-store")]
  body := "Forbidden: invalid CSRF proof"

variable {S D : Type}

def AxDatabaseRuntime.loadSession (runtime : AxDatabaseRuntime S D) (mac : Mac)
    (request : AxHttpRequest) : AxRuntimeResult (Option (AxSession D)) := do
  let secret ← runtime.sessionKey
  let manager ← runtime.manager
  let now ← runtime.unixTimestamp
  ((manager.load mac request secret now).run.perform runtime.store.step runtime.state).1

/-- The id that a proof must name. -/
def actingIdentity (platform : Platform) (runtime : AxDatabaseRuntime S D)
    (request : AxHttpRequest) (secret : String) :
    Option (AxSession D) → AxRuntimeResult (Option String)
  | some session => .ok (some session.id)
  | none => do
    let time ← runtime.now
    anonymousIdentity platform request secret time

def provesIdentity (platform : Platform) (request : AxHttpRequest) (secret : String)
    (identity : Option String) : AxRuntimeResult Bool :=
  match proof platform request, identity with
  | some token, some identity => Csrf.verify platform.mac identity token secret
  | _, _ => .ok false

def rejectMutation (platform : Platform) (runtime : AxDatabaseRuntime S D)
    (request : AxHttpRequest) : AxRuntimeResult (Option AxHttpResponse) :=
  if safeMethod request then .ok none
  else do
    let session ← runtime.loadSession platform.mac request
    if session.isNone && (request.headerValue "Cookie").isNone &&
        (request.headerValue "Origin").isNone && (request.headerValue "Referer").isNone &&
        (request.headerValue "Sec-Fetch-Site").isNone then
      return none
    else
      let secret ← runtime.sessionKey
      let identity ← actingIdentity platform runtime request secret session
      let valid ← provesIdentity platform request secret identity
      return if valid then none else some forbidden

end Proof

section Admission

variable {S D : Type} {platform : Platform} {runtime : AxDatabaseRuntime S D}
  {request : AxHttpRequest}

theorem signedCookie_header {mac : Mac} {name secret value : String}
    (found : AxAuth.signedCookie mac request name secret = some value) :
    (request.headerValue "Cookie").isSome := by
  unfold AxAuth.signedCookie at found
  split at found
  next => cases found
  next cookie present => exact AxHttpRequest.cookieValue_headerValue present

/-- A session is only ever loaded through a cookie. -/
theorem loadSession_cookie {mac : Mac} {session : AxSession D}
    (loaded : runtime.loadSession mac request = .ok (some session)) :
    (request.headerValue "Cookie").isSome := by
  obtain ⟨secret, _, loaded⟩ := bind_eq_ok loaded
  obtain ⟨manager, _, loaded⟩ := bind_eq_ok loaded
  obtain ⟨now, _, loaded⟩ := bind_eq_ok loaded
  cases cookie : AxAuth.signedCookie mac request manager.policy.name secret with
  | some value => exact signedCookie_header cookie
  | none =>
    rw [AxSessionManager.load_unsigned now cookie] at loaded
    cases valid : validateSecret secret with
    | error error =>
      rw [valid] at loaded
      cases loaded
    | ok =>
      rw [valid] at loaded
      cases loaded

/-- An anonymous identity names its own issue time, which is not older than its lifetime. -/
def LiveIdentity (platform : Platform) (identity : String) (time : Nat) : Prop :=
  ∃ issued nonce, anonymousParts identity = some (issued, nonce) ∧ issued ≤ time ∧
    time < issued + anonymousTtl ∧ platform.parseUuid nonce = true

theorem anonymousIdentity_live {secret identity : String} {time : Nat}
    (found : anonymousIdentity platform request secret time = .ok (some identity)) :
    (request.headerValue "Cookie").isSome ∧ LiveIdentity platform identity time := by
  unfold anonymousIdentity at found
  split at found
  next => cases found
  next cookie present =>
    refine ⟨AxHttpRequest.cookieValue_headerValue present, ?_⟩
    split at found
    next => cases found
    next name signature parts =>
      split at found
      next => cases found
      next issued nonce named =>
        split at found
        next => cases found
        next live =>
          simp only [Bool.or_eq_true, decide_eq_true_eq, not_or, Nat.not_lt, Nat.not_le,
            Bool.not_eq_true', Bool.not_eq_false] at live
          obtain ⟨valid, _, found⟩ := bind_eq_ok found
          cases valid with
          | false => cases found
          | true =>
            obtain rfl := Option.some.inj (Except.ok.inj found)
            exact ⟨issued, nonce, named, live.1.1, by omega, live.2⟩

/-- Whom a request acts for: its session, or without one its anonymous identity. -/
inductive Acts (platform : Platform) (runtime : AxDatabaseRuntime S D) (request : AxHttpRequest) :
    String → Prop
  | session (session : AxSession D)
      (loaded : runtime.loadSession platform.mac request = .ok (some session)) :
      Acts platform runtime request session.id
  | anonymous (identity secret : String) (time : Nat)
      (loaded : runtime.loadSession platform.mac request = .ok none)
      (key : runtime.sessionKey = .ok secret) (clock : runtime.now = .ok time)
      (found : anonymousIdentity platform request secret time = .ok (some identity))
      (live : LiveIdentity platform identity time) : Acts platform runtime request identity

theorem Acts.cookie {identity : String} (acts : Acts platform runtime request identity) :
    (request.headerValue "Cookie").isSome := by
  cases acts with
  | session session loaded => exact loadSession_cookie loaded
  | anonymous _ secret time loaded key clock found live => exact (anonymousIdentity_live found).1

theorem verify_eq_true {mac : Mac} {identity token secret : String}
    (verified : Csrf.verify mac identity token secret = .ok true) :
    Csrf.signature token = some (mac (Wire.utf8 secret) (Csrf.payload identity)) := by
  unfold Csrf.verify Csrf.sessionMac at verified
  split at verified
  next => simp [bind, Except.bind] at verified
  next => simpa [bind, Except.bind, pure, Except.pure] using verified

/-- What passing the second guard means. -/
theorem rejectMutation_none (changes : safeMethod request = false)
    (passed : rejectMutation platform runtime request = .ok none) :
    (runtime.loadSession platform.mac request = .ok none ∧ request.headerValue "Cookie" = none ∧
      request.headerValue "Origin" = none ∧ request.headerValue "Referer" = none ∧
      request.headerValue "Sec-Fetch-Site" = none) ∨
    ∃ identity token secret, Acts platform runtime request identity ∧
      proof platform request = some token ∧ runtime.sessionKey = .ok secret ∧
      Csrf.verify platform.mac identity token secret = .ok true := by
  unfold rejectMutation at passed
  rw [if_neg (by simp [changes])] at passed
  obtain ⟨session, loaded, passed⟩ := bind_eq_ok passed
  split at passed
  next free =>
    simp only [Bool.and_eq_true, Option.isNone_iff_eq_none] at free
    obtain ⟨⟨⟨⟨rfl, cookie⟩, origin⟩, referer⟩, site⟩ := free
    exact .inl ⟨loaded, cookie, origin, referer, site⟩
  next =>
    obtain ⟨secret, key, passed⟩ := bind_eq_ok passed
    obtain ⟨identity, acting, passed⟩ := bind_eq_ok passed
    obtain ⟨valid, verified, passed⟩ := bind_eq_ok passed
    have accepted : valid = true := by
      cases valid with
      | true => rfl
      | false => cases passed
    subst accepted
    unfold provesIdentity at verified
    split at verified
    next token name presented =>
      refine .inr ⟨name, token, secret, ?_, presented, key, verified⟩
      cases session with
      | some session =>
        obtain rfl := Option.some.inj (Except.ok.inj acting)
        exact .session session loaded
      | none =>
        obtain ⟨time, clock, found⟩ := bind_eq_ok acting
        exact .anonymous name secret time loaded key clock found (anonymousIdentity_live found).2
    next => cases verified

/-- What passing the first guard means. -/
theorem rejectsMutation_false {publicOrigin : Option String} (changes : safeMethod request = false)
    (passed : rejectsMutationRequestWithOrigin request publicOrigin = false) :
    (∀ site, request.headerValue "Sec-Fetch-Site" = some site →
      Text.eqIgnoreAsciiCase site "same-origin" = true) ∧
    (∀ origin, sourceHeader request = some origin →
      rejectsSource request publicOrigin origin = false) ∧
    (sourceHeader request = none → request.headerValue "Sec-Fetch-Site" = none →
      request.headerValue "Cookie" = none) := by
  unfold rejectsMutationRequestWithOrigin at passed
  rw [if_neg (by simp [changes])] at passed
  split at passed
  next => cases passed
  dsimp only at passed
  split at passed
  next => cases passed
  next sites =>
    refine ⟨fun site present => ?_, fun origin present => ?_, fun absent missing => ?_⟩
    · simpa [present] using sites
    · rw [present] at passed
      exact passed
    · rw [absent, missing] at passed
      simpa using passed

/-- The source denotes the configured public origin, else the host of the request. -/
def FromExpectedOrigin (request : AxHttpRequest) (publicOrigin : Option String)
    (source : String) : Prop :=
  match publicOrigin with
  | some expected => ∃ origin, Denotes source origin ∧ Denotes expected origin
  | none => ∃ host, request.headerValue "Host" = some host ∧ DenotesHost source host

theorem rejectsSource_false {publicOrigin : Option String} {source : String}
    (passed : rejectsSource request publicOrigin source = false) :
    FromExpectedOrigin request publicOrigin source := by
  unfold rejectsSource at passed
  cases publicOrigin with
  | none =>
    simp only [Bool.not_eq_false'] at passed
    exact matchesHost_denotes passed
  | some expected =>
    dsimp only at passed
    split at passed
    next actual wanted here there =>
      obtain rfl : actual = wanted := by simpa using passed
      exact ⟨actual, parseOrigin_denotes here, parseOrigin_denotes there⟩
    next => cases passed

end Admission

section Ideal

/-- What the server has signed: a session id for a cookie, or a proof for an identity. -/
inductive Issue where
  | session (id : String)
  | csrf (identity : String)

def Issue.payload : Issue → List UInt8
  | .session id => Wire.utf8 id
  | .csrf identity => Csrf.payload identity

/-- An ideal MAC: the tag of the presented proof verifies only payloads that were issued.
Session ids are UUIDs in hexadecimal. -/
structure IdealMac (platform : Platform) (secret : String) (request : AxHttpRequest)
    (issued : List Issue) : Prop where
  ideal : ∀ token tag payload, proof platform request = some token →
    Csrf.signature token = some tag → platform.mac (Wire.utf8 secret) payload = tag →
    ∃ issue ∈ issued, issue.payload = payload
  sessions : ∀ id, .session id ∈ issued → ∀ byte ∈ Wire.utf8 id, (nibble byte).isSome

theorem payload_injective {a b : String} (same : Csrf.payload a = Csrf.payload b) : a = b := by
  unfold Csrf.payload at same
  have widths : (Wire.utf8 "axonyx:csrf:v1\x00" ++ (Wire.leBytes 8 a.utf8ByteSize).reverse).length =
      (Wire.utf8 "axonyx:csrf:v1\x00" ++ (Wire.leBytes 8 b.utf8ByteSize).reverse).length := by simp
  exact Wire.utf8_injective (List.append_inj same widths).2

/-- No session id is signed as a proof would be. -/
theorem payload_ne_session {identity id : String}
    (digits : ∀ byte ∈ Wire.utf8 id, (nibble byte).isSome) : Wire.utf8 id ≠ Csrf.payload identity := by
  intro same
  have letter : (0x78 : UInt8) ∈ Csrf.payload identity := by
    have inside : (0x78 : UInt8) ∈ Wire.utf8 "axonyx:csrf:v1\x00" := by decide
    exact List.mem_append_left _ (List.mem_append_left _ inside)
  exact absurd (digits 0x78 (same ▸ letter)) (by decide)

theorem IdealMac.issued_csrf {platform : Platform} {secret : String} {request : AxHttpRequest}
    {issued : List Issue} {identity token : String}
    (mac : IdealMac platform secret request issued) (presented : proof platform request = some token)
    (verified : Csrf.verify platform.mac identity token secret = .ok true) :
    .csrf identity ∈ issued := by
  obtain ⟨issue, member, same⟩ := mac.ideal token _ _ presented (verify_eq_true verified) rfl
  cases issue with
  | session id => exact absurd same (payload_ne_session (mac.sessions id member))
  | csrf other => exact payload_injective same ▸ member

end Ideal

section Guards

variable {S D : Type} {platform : Platform} {runtime : AxDatabaseRuntime S D}
  {request : AxHttpRequest}

/-- A proof for whom the request acts, from where it is expected to come. -/
structure Proven (platform : Platform) (runtime : AxDatabaseRuntime S D) (request : AxHttpRequest)
    (publicOrigin : Option String) (issued : List Issue) (identity : String) : Prop where
  acts : Acts platform runtime request identity
  presented : ∃ token secret, proof platform request = some token ∧
    runtime.sessionKey = .ok secret ∧
    Csrf.signature token = some (platform.mac (Wire.utf8 secret) (Csrf.payload identity))
  issued : .csrf identity ∈ issued
  metadata : (request.headerValue "Origin").isSome ∨ (request.headerValue "Referer").isSome ∨
    (request.headerValue "Sec-Fetch-Site").isSome
  source : ∀ source, sourceHeader request = some source →
    FromExpectedOrigin request publicOrigin source
  site : ∀ site, request.headerValue "Sec-Fetch-Site" = some site →
    Text.eqIgnoreAsciiCase site "same-origin" = true

/-- Nothing a browser would add to a request it was tricked into sending. -/
structure Unattended (platform : Platform) (runtime : AxDatabaseRuntime S D)
    (request : AxHttpRequest) : Prop where
  session : runtime.loadSession platform.mac request = .ok none
  cookie : request.headerValue "Cookie" = none
  origin : request.headerValue "Origin" = none
  referer : request.headerValue "Referer" = none
  site : request.headerValue "Sec-Fetch-Site" = none

/-- A state-changing request that passes both guards carries a proof that was issued for
whom it acts and comes from the expected origin, or carries no ambient authority. -/
theorem mutation_admitted (publicOrigin : Option String) (issued : List Issue)
    (mac : ∀ secret, runtime.sessionKey = .ok secret → IdealMac platform secret request issued)
    (changes : safeMethod request = false)
    (source : rejectsMutationRequestWithOrigin request publicOrigin = false)
    (passed : rejectMutation platform runtime request = .ok none) :
    (∃ identity, Proven platform runtime request publicOrigin issued identity) ∨
    Unattended platform runtime request := by
  obtain ⟨sites, origins, bare⟩ := rejectsMutation_false changes source
  rcases rejectMutation_none changes passed with
    ⟨loaded, cookie, origin, referer, site⟩ | ⟨identity, token, secret, acts, presented, key, verified⟩
  · exact .inr ⟨loaded, cookie, origin, referer, site⟩
  · refine .inl ⟨identity, acts, ⟨token, secret, presented, key, verify_eq_true verified⟩,
      (mac secret key).issued_csrf presented verified, ?_,
      fun source present => rejectsSource_false (origins source present), sites⟩
    by_contra missing
    simp only [not_or, Option.not_isSome_iff_eq_none] at missing
    obtain ⟨origin, referer, site⟩ := missing
    have credentials := acts.cookie
    rw [bare (by simp [sourceHeader, origin, referer]) site] at credentials
    cases credentials

end Guards

/-- A MAC that tells one proof, one cookie and everything else apart. -/
def toyMac : Mac := fun _ payload =>
  List.replicate 32 (if payload = Csrf.payload "a1" then 0x11
    else if payload = Wire.utf8 "a1" then 0x22 else 0x33)

def toyPlatform : Platform := ⟨toyMac, fun _ => false, fun _ _ => none⟩

def toyManager : AxSessionManager := ⟨⟨"session", "/", none, 60, 100, true, .lax⟩, rfl⟩

def toyRuntime : AxDatabaseRuntime (MemorySessions Unit) Unit where
  sessionKey := .ok "0123456789abcdef0123456789abcdef"
  manager := .ok toyManager
  store := AxMemorySessionStore Unit
  state := (AxMemorySessionStore Unit).initial.insert (toyManager.newSession "a1" "user" () 10)
  unixTimestamp := .ok 20
  now := .ok 20

def toyToken : String := "axcsrf1." ++ .ofList (List.replicate 64 '1')

def toyRequest : AxHttpRequest where
  method := "post"
  headers := [("COOKIE", "session=a1." ++ .ofList (List.replicate 64 '2')), ("Host", "example.test"),
    ("origin", "https://Example.test"), ("x-axonyx-csrf", toyToken)]
  body := []
  multipart := none

theorem mutation_admitted_session :
    (∃ identity, Proven toyPlatform toyRuntime toyRequest none [.csrf "a1"] identity) ∨
    Unattended toyPlatform toyRuntime toyRequest := by
  have mac (secret : String) : IdealMac toyPlatform secret toyRequest [.csrf "a1"] := by
    refine ⟨fun token tag payload presented signed same => ?_, fun id member => by simp at member⟩
    obtain rfl : toyToken = token := Option.some.inj presented
    obtain rfl : List.replicate 32 0x11 = tag := by
      have read : Csrf.signature toyToken = some (List.replicate 32 0x11) := by decide +kernel
      exact Option.some.inj (read.symm.trans signed)
    refine ⟨_, List.mem_singleton.mpr rfl, ?_⟩
    have first := (List.replicate_inj.mp same).2.resolve_left (by decide)
    by_contra other
    have apart : payload ≠ Csrf.payload "a1" := fun h => other h.symm
    rw [if_neg apart] at first
    split at first <;> cases first
  exact mutation_admitted none [.csrf "a1"] (fun secret _ => mac secret) (by decide) (by decide)
    (by rfl)

end Axonyx.Runtime
