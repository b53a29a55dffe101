import Templating.Text.Lowercase
import Templating.Text.Uppercase

namespace Templating.Tag

/-- Text without entities and tags, text with entities and without tags, or markup. -/
inductive Content where
  | rawText
  | escapableRawText
  | parsableData
  deriving Repr, DecidableEq

def Content.name : Content → String
  | .rawText => "raw-text"
  | .escapableRawText => "escapable-raw-text"
  | .parsableData => "parsable-data"

inductive ContentModel where
  | fixed (content : Content)
  | byNamespace (usual : Content) (others : List (String × Content))
  deriving Repr, DecidableEq

/-- The content in a namespace; an element without one has the usual content. -/
def ContentModel.within (m : ContentModel) (space : Option String) : Content :=
  match m with
  | .fixed content => content
  | .byNamespace usual others => (space.bind (others.lookup ·)).getD usual

/-- The names of the children that end the element are in lowercase. -/
structure Rule where
  closedBy : List String := []
  closedByParent : Bool := false
  isVoid : Bool := false
  dropsFirstLineFeed : Bool := false
  canSelfClose : Bool := false
  content : ContentModel := .fixed .parsableData
  impliedSpace : Option String := none
  isolatesSpace : Bool := false
  deriving Repr, DecidableEq

namespace Rule

/-- A known element of HTML without anything particular to it. -/
def plain : Rule := {}

/-- An element that nothing is known about. Every element of an XML document is treated like it. -/
def permissive : Rule := { canSelfClose := true }

/-- An element without children and without an end tag. -/
def void : Rule := { isVoid := true, closedByParent := true }

/-- Whether a child ends the element. A void element is ended by any child. Only a name with an
uppercase letter is folded: of the others none becomes a listed name by folding. -/
def isClosedBy (r : Rule) (child : String) : Bool :=
  r.isVoid ||
    let name := if child.toList.any Text.isUppercase then Text.lower child else child
    r.closedBy.contains name

/-- The children that end the element, in the order of their names. -/
def sortedClosers (r : Rule) : List String :=
  r.closedBy.mergeSort (· ≤ ·)

def contentIn (r : Rule) (space : Option String) : Content :=
  r.content.within space

end Rule

end Templating.Tag
