import Axonyx.Best
import Axonyx.Core.Expr
import Axonyx.Ieee
import Axonyx.Runtime.Preview.Store

/-! Route selection. The emitted dispatcher takes the first route in declaration order that
matches the request, the preview the first of those with the most static segments. -/
namespace Axonyx.Runtime.Preview

open Axonyx.Core (AxValue insertField)

variable {F : Type} [Float64 F]

inductive AxHandlerKind where
  | route (method path : String)
  | loader
  | action
  | job
  deriving DecidableEq, Repr

structure AxHandlerPlan where
  rustFn : String
  kind : AxHandlerKind
  deriving DecidableEq, Repr

def slashes (text : List Char) : List Char := text.dropWhile fun c => c = '/'

/-- The nonempty parts between slashes. -/
def partsOf (text : List Char) : List String :=
  (Text.split (.ofList text) '/').filter fun part => !part.isEmpty

section Compiled

/-- `__ax_request_path`. -/
def axRequestPath (target : String) : String :=
  match Text.splitOnce target "?" with
  | some (path, _) => path
  | none => target

/-- `str::trim_matches` with a slash. -/
def trimSlashes (text : String) : List Char :=
  (slashes (slashes text.toList).reverse).reverse

def bindAxParams : List String → List String → List (String × String) →
    Option (List (String × String))
  | expected :: pattern, actual :: target, params =>
    match Text.stripPrefix expected ":" with
    | some name => bindAxParams pattern target (insertField params name actual)
    | none => if expected ≠ actual then none else bindAxParams pattern target params
  | _, _, params => some params

/-- `__ax_route_params`. -/
def axRouteParams (pattern target : String) : Option (List (String × String)) :=
  let pattern := partsOf (trimSlashes pattern)
  let target := partsOf (trimSlashes (axRequestPath target))
  if pattern.length ≠ target.length then none else bindAxParams pattern target []

/-- The test of one handler in `dispatch_api_route`. -/
def axRouteTest (method target : String) (handler : AxHandlerPlan) :
    Option (List (String × String)) :=
  match handler.kind with
  | .route routeMethod path =>
    if Text.eqIgnoreAsciiCase method routeMethod then axRouteParams path target else none
  | _ => none

def dispatchApiRoute (handlers : List AxHandlerPlan) (method target : String) :
    Option (AxHandlerPlan × List (String × String)) :=
  handlers.findSome? fun handler => (axRouteTest method target handler).map fun params =>
    (handler, params)

end Compiled

section Preview

def normalizePreviewMethod (method : String) : String := Text.toAsciiUppercase (Text.trim method)

def isInvalidSegment (segment : String) : Bool :=
  segment == "." || segment == ".." || segment.toList.contains '\\'

def normalizePreviewRequestPath (requestTarget : String) : Except PreviewError String :=
  let rawPath := Text.trim (.ofList (requestTarget.toList.takeWhile fun c => c ≠ '?' ∧ c ≠ '#'))
  let rawPath := if rawPath.isEmpty then "/" else rawPath
  let segments := partsOf (slashes rawPath.toList)
  if segments.any isInvalidSegment then
    .error (.runtime ("invalid route path \x60" ++ requestTarget ++ "\x60"))
  else if segments.isEmpty then .ok "/"
  else .ok ("/" ++ Text.join "/" segments)

def pathSegments (path : String) : List String := partsOf (slashes path.toList)

def bindPreviewParams : List String → List String → List (String × AxValue F) → Nat →
    Option (List (String × AxValue F) × Nat)
  | pattern :: patterns, request :: requests, params, staticSegments =>
    match Text.stripPrefix pattern ":" with
    | some name =>
      if name.isEmpty then none
      else bindPreviewParams patterns requests (insertField params name (.string request))
        staticSegments
    | none =>
      if pattern ≠ request then none
      else bindPreviewParams patterns requests params (staticSegments + 1)
  | _, _, params, staticSegments => some (params, staticSegments)

def matchPreviewRoutePattern (pattern requestPath : String) :
    Option (List (String × AxValue F) × Nat) :=
  let patternSegments := pathSegments pattern
  let requestSegments := pathSegments requestPath
  if patternSegments.length ≠ requestSegments.length then none
  else bindPreviewParams patternSegments requestSegments [] 0

def usizeMax : Nat := 2 ^ 64 - 1

abbrev RouteScore := Nat ×ₗ Nat

/-- One turn of the loop of `match_preview_route`. -/
def considerRoute (method requestPath : String)
    (best : Option ((AxHandlerPlan × List (String × AxValue F)) × RouteScore))
    (route : AxHandlerPlan) : Option ((AxHandlerPlan × List (String × AxValue F)) × RouteScore) :=
  match route.kind with
  | .route routeMethod path =>
    if normalizePreviewMethod routeMethod ≠ method then best
    else match matchPreviewRoutePattern path requestPath with
      | none => best
      | some (params, staticSegments) =>
        let score : RouteScore := toLex (staticSegments, usizeMax - (pathSegments path).length)
        match best with
        | none => some ((route, params), score)
        | some current => if current.2 ≥ score then some current else some ((route, params), score)
  | _ => best

def matchPreviewRoute (routes : List AxHandlerPlan) (method requestPath : String) :
    Option (AxHandlerPlan × List (String × AxValue F)) :=
  (routes.foldl (considerRoute (normalizePreviewMethod method) requestPath) none).map Prod.fst

/-- The route of a request, none for a target that is not a path. -/
def selectPreviewRoute (routes : List AxHandlerPlan) (method target : String) :
    Option (AxHandlerPlan × List (String × AxValue F)) :=
  match normalizePreviewRequestPath target with
  | .error _ => none
  | .ok requestPath => matchPreviewRoute routes method requestPath

end Preview

section Agreement

/-- What the preview makes of one handler: its parameters and its static segments. -/
def previewRouteTest (method target : String) (handler : AxHandlerPlan) :
    Option (List (String × AxValue F) × Nat) :=
  match handler.kind, normalizePreviewRequestPath target with
  | .route routeMethod path, .ok requestPath =>
    if normalizePreviewMethod routeMethod ≠ normalizePreviewMethod method then none
    else matchPreviewRoutePattern path requestPath
  | _, _ => none

def asValues (params : List (String × String)) : List (String × AxValue F) :=
  params.map fun param => (param.1, .string param.2)

def candidate (method target : String) (length : Nat) (handler : AxHandlerPlan) :
    Option ((AxHandlerPlan × List (String × AxValue F)) × RouteScore) :=
  (previewRouteTest method target handler).map fun found =>
    ((handler, found.1), toLex (found.2, length))

theorem matchPreviewRoutePattern_length {pattern requestPath : String}
    {found : List (String × AxValue F) × Nat}
    (matched : matchPreviewRoutePattern pattern requestPath = some found) :
    (pathSegments pattern).length = (pathSegments requestPath).length := by
  unfold matchPreviewRoutePattern at matched
  by_contra different
  simp [different] at matched

theorem considerRoute_eq (method : String) {target requestPath : String}
    (normalized : normalizePreviewRequestPath target = .ok requestPath)
    (best : Option ((AxHandlerPlan × List (String × AxValue F)) × RouteScore))
    (handler : AxHandlerPlan) :
    considerRoute (normalizePreviewMethod method) requestPath best handler =
      Best.pick best
        (candidate method target (usizeMax - (pathSegments requestPath).length) handler) := by
  unfold considerRoute candidate previewRouteTest
  rw [normalized]
  cases handler.kind with
  | route routeMethod path =>
    dsimp only
    by_cases other : normalizePreviewMethod routeMethod ≠ normalizePreviewMethod method
    · rw [if_pos other, if_pos other]
      rfl
    rw [if_neg other, if_neg other]
    cases matched : matchPreviewRoutePattern (F := F) path requestPath with
    | none => rfl
    | some found =>
      rw [← matchPreviewRoutePattern_length matched]
      cases best <;> rfl
  | _ => rfl

/-- The preview selects the first of the routes with the most static segments. -/
theorem selectPreviewRoute_eq (handlers : List AxHandlerPlan) (method target : String) :
    ∃ length, (selectPreviewRoute handlers method target :
        Option (AxHandlerPlan × List (String × AxValue F))) =
      (Best.firstBest (handlers.map (candidate method target length))).map Prod.fst := by
  cases normalized : normalizePreviewRequestPath target with
  | error error =>
    refine ⟨0, ?_⟩
    have none : Best.firstBest (handlers.map (candidate (F := F) method target 0)) = none := by
      refine Best.firstBest_eq_none_iff.mpr fun found member => ?_
      obtain ⟨handler, -, rfl⟩ := List.mem_map.mp member
      unfold candidate previewRouteTest
      rw [normalized]
      cases handler.kind <;> rfl
    rw [none]
    unfold selectPreviewRoute
    rw [normalized]
    rfl
  | ok requestPath =>
    refine ⟨usizeMax - (pathSegments requestPath).length, ?_⟩
    unfold selectPreviewRoute matchPreviewRoute Best.firstBest
    rw [normalized, List.foldl_map]
    have step := funext₂ (considerRoute_eq (F := F) method normalized)
    exact congrArg (fun consider => (handlers.foldl consider none).map Prod.fst) step

/-- The first route that the compiled test accepts, the routes before it and those behind it:
the preview accepts it too, with the same parameters, and no route before it with as many
static segments, nor one behind it with more. Without such a route the preview accepts none. -/
def SameRoute (F : Type) [Float64 F] (handlers : List AxHandlerPlan) (method target : String) :
    Prop :=
  match handlers.dropWhile fun handler => (axRouteTest method target handler).isNone with
  | [] => ∀ handler ∈ handlers, previewRouteTest (F := F) method target handler = none
  | chosen :: after => ∃ params staticSegments,
      axRouteTest method target chosen = some params ∧
      previewRouteTest (F := F) method target chosen = some (asValues params, staticSegments) ∧
      (∀ handler ∈ handlers.takeWhile fun handler => (axRouteTest method target handler).isNone,
        ∀ found, previewRouteTest (F := F) method target handler = some found →
          found.2 < staticSegments) ∧
      ∀ handler ∈ after, ∀ found,
        previewRouteTest (F := F) method target handler = some found → found.2 ≤ staticSegments

theorem dispatchApiRoute_eq (handlers : List AxHandlerPlan) (method target : String) :
    dispatchApiRoute handlers method target =
      match handlers.dropWhile fun handler => (axRouteTest method target handler).isNone with
      | [] => none
      | chosen :: _ => (axRouteTest method target chosen).map fun params => (chosen, params) := by
  unfold dispatchApiRoute
  induction handlers with
  | nil => rfl
  | cons handler rest ih =>
    cases tested : axRouteTest method target handler with
    | none => simpa [tested] using ih
    | some params => simp [tested]

theorem candidate_eq_some {method target : String} {length : Nat} {handler : AxHandlerPlan}
    {found : (AxHandlerPlan × List (String × AxValue F)) × RouteScore} :
    candidate method target length handler = some found ↔
      ∃ params staticSegments,
        previewRouteTest method target handler = some (params, staticSegments) ∧
        found = ((handler, params), toLex (staticSegments, length)) := by
  unfold candidate
  simp only [Option.map_eq_some_iff, Prod.exists]
  exact exists₂_congr fun _ _ => and_congr_right fun _ => eq_comm

theorem score_lt (a b length : Nat) :
    (toLex (a, length) : RouteScore) < toLex (b, length) ↔ a < b := by
  simp [Prod.Lex.lt_iff]

theorem score_le (a b length : Nat) :
    (toLex (a, length) : RouteScore) ≤ toLex (b, length) ↔ a ≤ b := by
  rw [← not_lt, score_lt, not_lt]

/-- The winners of the preview, told by the tests of the routes. -/
theorem isFirstBest_candidates {handlers : List AxHandlerPlan} {method target : String}
    {length staticSegments : Nat} {chosen : AxHandlerPlan} {params : List (String × AxValue F)} :
    Best.IsFirstBest (handlers.map (candidate method target length))
        ((chosen, params), toLex (staticSegments, length)) ↔
      ∃ before after, handlers = before ++ chosen :: after ∧
        previewRouteTest method target chosen = some (params, staticSegments) ∧
        (∀ handler ∈ before, ∀ found,
          previewRouteTest (F := F) method target handler = some found →
            found.2 < staticSegments) ∧
        ∀ handler ∈ after, ∀ found,
          previewRouteTest (F := F) method target handler = some found →
            found.2 ≤ staticSegments := by
  constructor
  · rintro ⟨before, after, split, below, behind⟩
    obtain ⟨before, rest, rfl, rfl, rest'⟩ := List.map_eq_append_iff.mp split
    obtain ⟨handler, after, rfl, found, rfl⟩ := List.map_eq_cons_iff.mp rest'
    obtain ⟨_, _, tested, same⟩ := candidate_eq_some.mp found
    cases same
    refine ⟨before, after, rfl, tested, fun other member found tested => ?_,
      fun other member found tested => ?_⟩
    · refine (score_lt _ _ length).mp (below ((other, found.1), toLex (found.2, length)) ?_)
      exact List.mem_map.mpr ⟨other, member, candidate_eq_some.mpr ⟨_, _, tested, rfl⟩⟩
    · refine (score_le _ _ length).mp (behind ((other, found.1), toLex (found.2, length)) ?_)
      exact List.mem_map.mpr ⟨other, member, candidate_eq_some.mpr ⟨_, _, tested, rfl⟩⟩
  · rintro ⟨before, after, rfl, tested, below, behind⟩
    refine ⟨before.map (candidate method target length), after.map (candidate method target length),
      ?_, fun other member => ?_, fun other member => ?_⟩
    · rw [List.map_append, List.map_cons, candidate_eq_some.mpr ⟨_, _, tested, rfl⟩]
    · obtain ⟨handler, inside, found⟩ := List.mem_map.mp member
      obtain ⟨_, _, tested, rfl⟩ := candidate_eq_some.mp found
      exact (score_lt _ _ length).mpr (below handler inside _ tested)
    · obtain ⟨handler, inside, found⟩ := List.mem_map.mp member
      obtain ⟨_, _, tested, rfl⟩ := candidate_eq_some.mp found
      exact (score_le _ _ length).mpr (behind handler inside _ tested)

/-- Two splits at one element agree if neither front holds the element. -/
theorem unique_split {α : Type} {before before' after after' : List α} {x : α}
    (same : before ++ x :: after = before' ++ x :: after') (absent : x ∉ before)
    (absent' : x ∉ before') : before = before' ∧ after = after' := by
  rcases List.append_eq_append_iff.mp same with ⟨middle, grown, rest⟩ | ⟨middle, grown, rest⟩
  · cases middle with
    | nil => exact ⟨by simpa using grown.symm, (List.cons.inj rest).2⟩
    | cons head middle =>
      obtain ⟨rfl, -⟩ := List.cons.inj rest
      exact absurd (by rw [grown]; simp) absent'
  · cases middle with
    | nil => exact ⟨by simpa using grown, (List.cons.inj rest).2.symm⟩
    | cons head middle =>
      obtain ⟨rfl, -⟩ := List.cons.inj rest
      exact absurd (by rw [grown]; simp) absent

def showPost : AxHandlerPlan := ⟨"show_post", .route "GET" "/posts/:id"⟩

def newPost : AxHandlerPlan := ⟨"new_post", .route "GET" "/posts/new"⟩

end Agreement

end Axonyx.Runtime.Preview
