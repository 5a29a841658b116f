import Mathlib.Data.List.Basic
import Mathlib.Data.List.Infix

/-! Paths as a Unix platform reads them. A text is cut at its slashes; empty segments and dots
vanish, but for a dot in front. A relative path leads from a directory to a place. -/
namespace UnixPath

abbrev Chars := List Char

inductive Component where
  | rootDir
  | curDir
  | parentDir
  | normal (name : Chars)
  deriving DecidableEq, Repr

def component? (segment : Chars) : Option Component :=
  if segment = [] ∨ segment = ['.'] then none
  else if segment = ['.', '.'] then some .parentDir
  else some (.normal segment)

def isAbsolute (path : Chars) : Bool := path.head? == some '/'

/-- What stands in front of the segments. -/
def leading (path : Chars) : List Component :=
  if isAbsolute path then [.rootDir]
  else if (path.splitOn '/').head? = some ['.'] then [.curDir]
  else []

def body (path : Chars) : List Component := (path.splitOn '/').filterMap component?

def components (path : Chars) : List Component := leading path ++ body path

/-- A path and a part behind it; an absolute part replaces the path. -/
def join (base part : Chars) : Chars :=
  if isAbsolute part then part
  else if base = [] ∨ base.getLast? = some '/' then base ++ part
  else base ++ '/' :: part

/-- Where components lead from a directory. -/
def resolve (directory : List Chars) : List Component → List Chars
  | [] => directory
  | .rootDir :: rest => resolve [] rest
  | .curDir :: rest => resolve directory rest
  | .parentDir :: rest => resolve directory.dropLast rest
  | .normal name :: rest => resolve (directory ++ [name]) rest

/-- A name that is one step down, whatever the platform reads out of a path. -/
structure IsName (text : Chars) : Prop where
  present : text ≠ []
  plain : '/' ∉ text
  notDot : text ≠ ['.']
  notDots : text ≠ ['.', '.']

section Components

theorem body_join (front back : Chars) : body (front ++ '/' :: back) = body front ++ body back := by
  rw [body, List.splitOn_append_cons_self, List.filterMap_append]
  rfl

theorem leading_join {front : Chars} (present : front ≠ []) (back : Chars) :
    leading (front ++ '/' :: back) = leading front := by
  have absolute : isAbsolute (front ++ '/' :: back) = isAbsolute front := by
    cases front with
    | nil => exact absurd rfl present
    | cons c rest => rfl
  have first : ((front ++ '/' :: back).splitOn '/').head? = (front.splitOn '/').head? := by
    rw [List.splitOn_append_cons_self, List.head?_append_of_ne_nil _ (List.splitOn_ne_nil _ _)]
  rw [leading, leading, absolute, first]

/-- A path that a part is joined to with a slash between. -/
structure IsOpen (path : Chars) : Prop where
  present : path ≠ []
  last : path.getLast? ≠ some '/'

theorem IsOpen.join_eq {base part : Chars} (front : IsOpen base) (relative : isAbsolute part = false) :
    join base part = base ++ '/' :: part := by
  rw [join, relative, if_neg Bool.false_ne_true, if_neg (not_or.mpr ⟨front.present, front.last⟩)]

theorem IsOpen.components_join {base part : Chars} (front : IsOpen base) (relative : isAbsolute part = false) :
    components (UnixPath.join base part) = components base ++ body part := by
  rw [front.join_eq relative, components, leading_join front.present, body_join, ← List.append_assoc]
  rfl

theorem IsName.component {text : Chars} (name : IsName text) : component? text = some (.normal text) := by
  rw [component?, if_neg (not_or.mpr ⟨name.present, name.notDot⟩), if_neg name.notDots]

theorem IsName.segments {text : Chars} (name : IsName text) : text.splitOn '/' = [text] :=
  List.splitOn_eq_singleton name.plain

theorem IsName.body {text : Chars} (name : IsName text) : UnixPath.body text = [.normal text] := by
  rw [UnixPath.body, name.segments, List.filterMap_cons, name.component]
  rfl

theorem IsName.relative {text : Chars} (name : IsName text) : isAbsolute text = false := by
  cases text with
  | nil => rfl
  | cons c rest =>
    have apart : c ≠ '/' := fun slash => name.plain (slash ▸ List.mem_cons_self)
    simpa [isAbsolute] using apart

theorem IsName.leading {text : Chars} (name : IsName text) : UnixPath.leading text = [] := by
  have other : [text].head? ≠ some ['.'] := fun dot => name.notDot (Option.some.inj dot)
  rw [UnixPath.leading, name.relative, if_neg Bool.false_ne_true, name.segments, if_neg other]

theorem IsName.isOpen {text : Chars} (name : IsName text) : IsOpen text :=
  ⟨name.present, fun last => name.plain (List.mem_of_getLast? last)⟩

theorem IsOpen.join {base part : Chars} (front : IsOpen base) (name : IsName part) : IsOpen (UnixPath.join base part) := by
  rw [front.join_eq name.relative]
  refine ⟨List.append_ne_nil_of_right_ne_nil _ (List.cons_ne_nil _ _), fun last => name.isOpen.last ?_⟩
  rw [← last, List.getLast?_append_of_ne_nil _ (List.cons_ne_nil _ _), List.getLast?_cons_of_ne_nil name.present]

/-- A name is one component. -/
theorem IsName.components {text : Chars} (name : IsName text) : UnixPath.components text = [.normal text] := by
  rw [UnixPath.components, name.leading, name.body]
  rfl

/-- A normal component is a name. -/
theorem isName_of_component {segment name : Chars} (plain : '/' ∉ segment)
    (normal : component? segment = some (.normal name)) : IsName name := by
  rw [component?] at normal
  split at normal
  · cases normal
  · next solid =>
    split at normal
    · cases normal
    · next up =>
      cases normal
      rw [not_or] at solid
      exact ⟨solid.1, plain, solid.2, up⟩

theorem component_normal {segment name : Chars} (normal : component? segment = some (.normal name)) : name = segment := by
  rw [component?] at normal
  split at normal
  · cases normal
  · split at normal
    · cases normal
    · cases normal
      rfl

theorem segment_plain {path segment : Chars} (member : segment ∈ path.splitOn '/') : '/' ∉ segment := by
  induction path generalizing segment with
  | nil =>
    obtain rfl : segment = [] := by simpa using member
    exact List.not_mem_nil
  | cons c rest ih =>
    rw [List.splitOn_cons_eq_if_modifyHead] at member
    split at member
    · rcases List.mem_cons.mp member with rfl | later
      · exact List.not_mem_nil
      · exact ih later
    · next other =>
      cases parts : rest.splitOn '/' with
      | nil => exact absurd parts (List.splitOn_ne_nil _ _)
      | cons first others =>
        rw [parts] at ih member
        rcases List.mem_cons.mp member with rfl | later
        · intro slash
          rcases List.mem_cons.mp slash with rfl | inside
          · exact other (beq_self_eq_true _)
          · exact ih List.mem_cons_self inside
        · exact ih (List.mem_cons_of_mem _ later)

/-- The normal components of a path are names. -/
theorem isName_of_mem {path name : Chars} (member : Component.normal name ∈ components path) : IsName name := by
  rcases List.mem_append.mp member with front | inside
  · rw [leading] at front
    split at front
    · cases List.mem_singleton.mp front
    · split at front
      · cases List.mem_singleton.mp front
      · cases front
  · obtain ⟨segment, listed, normal⟩ := List.mem_filterMap.mp inside
    exact isName_of_component (segment_plain listed) normal

end Components

section Places

/-- Names lead down. -/
theorem resolve_normal (directory names : List Chars) : resolve directory (names.map .normal) = directory ++ names := by
  induction names generalizing directory with
  | nil => exact (List.append_nil _).symm
  | cons name rest ih =>
    rw [List.map_cons, resolve, ih, List.append_assoc]
    rfl

end Places

end UnixPath
