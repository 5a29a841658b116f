import Axonyx.Core.Expr

/-! The documents that a page is rendered from: statements, components and pipelines. -/
namespace Axonyx.Core

structure AxImportBinding where
  imported : String
  «local» : String
  deriving DecidableEq, Repr

structure AxImport where
  bindings : List AxImportBinding
  source : String
  deriving DecidableEq, Repr

structure AxProp (F : Type) [Float64 F] where
  name : String
  value : AxExpr F

structure AxStyle (F : Type) [Float64 F] where
  recipe : Option (AxExpr F) := none
  «class» : Option (AxExpr F) := none

structure AxEachStateBinding where
  signal : String
  ty : String
  initial : String
  deriving DecidableEq, Repr

structure AxMatchCase (Body : Type) where
  value : String
  body : Body

inductive AxBodyOf (F : Type) [Float64 F] (Statement : Type) where
  | empty
  | inline (expr : AxExpr F)
  | block (body : List Statement)

structure AxComponentOf (F : Type) [Float64 F] (Statement : Type) where
  name : String
  props : List (AxProp F) := []
  style : AxStyle F := {}
  body : AxBodyOf F Statement := .empty

inductive AxPipelineStageOf (F : Type) [Float64 F] (Statement : Type) where
  | component (component : AxComponentOf F Statement)
  | each (binding : String)

inductive AxStatement (F : Type) [Float64 F] where
  | data (name : String) (value : AxExpr F)
  | each (binding : String) (source : AxExpr F) (key : Option (AxExpr F))
      (stateBinding : Option AxEachStateBinding) (body emptyBody : List (AxStatement F))
  | «if» (condition : AxExpr F) (body elseBody : List (AxStatement F))
  | «match» (value : AxExpr F) (cases : List (AxMatchCase (List (AxStatement F))))
      (defaultBody : Option (List (AxStatement F)))
  | text (expr : AxExpr F)
  | component (component : AxComponentOf F (AxStatement F))
  | pipeline (source : AxExpr F) (stages : List (AxPipelineStageOf F (AxStatement F)))

abbrev AxComponent (F : Type) [Float64 F] := AxComponentOf F (AxStatement F)

abbrev AxBody (F : Type) [Float64 F] := AxBodyOf F (AxStatement F)

abbrev AxPipelineStage (F : Type) [Float64 F] := AxPipelineStageOf F (AxStatement F)

structure AxComponentStateDef (F : Type) [Float64 F] where
  name : String
  initial : AxExpr F

structure AxComponentDef (F : Type) [Float64 F] where
  name : String
  params : List (AxComponentParamDef F)
  states : List (AxComponentStateDef F) := []
  body : List (AxStatement F)

structure AxPage (F : Type) [Float64 F] where
  name : String
  params : List (AxComponentParamDef F) := []
  body : List (AxStatement F)

structure AxDocument (F : Type) [Float64 F] where
  imports : List AxImport := []
  functions : List (AxFunctionDef F) := []
  components : List (AxComponentDef F) := []
  page : AxPage F

variable {F : Type} [Float64 F]

/-- What a component hands to a slot. -/
def componentChildrenToStatements (component : AxComponent F) : List (AxStatement F) :=
  match component.body with
  | .empty => []
  | .inline expr => [.text expr]
  | .block body => body

end Axonyx.Core
