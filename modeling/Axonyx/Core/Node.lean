/-! Render trees: elements with attributes and children, texts, and raw HTML. -/
namespace Axonyx.Core

structure Attribute where
  name : String
  value : String
  deriving DecidableEq, Repr

inductive AxNode where
  | element (tag : String) (attrs : List Attribute) (children : List AxNode)
  | text (content : String)
  | rawHtml (content : String)

/-- The value of the first attribute of a name. -/
def firstAttr (attrs : List Attribute) (name : String) : Option String :=
  (attrs.find? fun attr => attr.name == name).map (·.value)

def hasAttr (attrs : List Attribute) (name : String) : Bool := attrs.any fun attr => attr.name == name

/-- The attributes with all of a name taken out and one of that name put at the end. -/
def setAttr (attrs : List Attribute) (name value : String) : List Attribute :=
  attrs.filter (fun attr => attr.name != name) ++ [⟨name, value⟩]

def dropAttr (attrs : List Attribute) (name : String) : List Attribute :=
  attrs.filter fun attr => attr.name != name

mutual

def AxNode.depth : AxNode → Nat
  | .element _ _ children => depths children + 1
  | .text _ | .rawHtml _ => 1

def depths : List AxNode → Nat
  | [] => 0
  | node :: rest => max node.depth (depths rest)

end

theorem depth_le_depths {node : AxNode} {nodes : List AxNode} (member : node ∈ nodes) :
    node.depth ≤ depths nodes := by
  induction nodes with
  | nil => cases member
  | cons first rest ih =>
    rw [depths]
    rcases List.mem_cons.mp member with rfl | later
    · exact Nat.le_max_left _ _
    · exact Nat.le_trans (ih later) (Nat.le_max_right _ _)

/-- A text that stands in a tree: an attribute's value, a text or raw HTML. -/
inductive AxNode.Shows : AxNode → String → Prop where
  | attr {tag attrs children} {attr : Attribute} (member : attr ∈ attrs) :
      Shows (.element tag attrs children) attr.value
  | child {tag attrs children child text} (member : child ∈ children) (inside : Shows child text) :
      Shows (.element tag attrs children) text
  | text {content} : Shows (.text content) content
  | rawHtml {content} : Shows (.rawHtml content) content

theorem mem_dropAttr {attrs : List Attribute} {name : String} {attr : Attribute}
    (member : attr ∈ dropAttr attrs name) : attr ∈ attrs :=
  (List.mem_filter.mp member).1

theorem mem_setAttr {attrs : List Attribute} {name value : String} {attr : Attribute}
    (member : attr ∈ setAttr attrs name value) : attr ∈ attrs ∨ attr = ⟨name, value⟩ := by
  rcases List.mem_append.mp member with old | new
  · exact .inl (List.mem_filter.mp old).1
  · exact .inr (List.mem_singleton.mp new)

end Axonyx.Core
