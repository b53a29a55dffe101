import Std.Data.HashMap
import Templating.Tag.Elements
import Templating.Tag.Listed
import Templating.Tag.Name

namespace Templating.Tag

/-- Rules in the order of registration, and their indices by spelling and by lowercase. -/
structure Registry where
  rules : Array Rule := #[]
  exact : Std.HashMap String Nat := {}
  folded : Std.HashMap String Nat := {}

namespace Registry

def insert (r : Registry) (name : String) (rule : Rule) : Registry :=
  let index := r.rules.size
  { rules := r.rules.push rule
    exact := r.exact.insert name index
    folded := r.folded.insertIfNew (Text.lower name) index }

/-- The listed names alone. -/
def listed : Registry :=
  listedRules.foldl (fun r (name, rule) => r.insert name rule) {}

/-- Registers a known name, unless it is registered already or has a namespace. -/
def know (r : Registry) (name : String) : Registry :=
  if r.exact.contains name || (spaceOf name).isSome then r else r.insert name .plain

/-- The listed names and the known ones. -/
def ofKnown (names : List String) : Registry :=
  names.foldl know listed

/-- The registry of the elements that a document may hold. -/
def dom : Registry := ofKnown domElements

/-- A name is looked up as it is spelled, and then by its lowercase. -/
def find? (r : Registry) (name : String) : Option Rule :=
  let index? := match r.exact[name]? with
    | some index => some index
    | none => r.folded[Text.lower name]?
  index?.bind (r.rules[·]?)

def get (r : Registry) (name : String) : Rule :=
  (r.find? name).getD .permissive

def isKnown (r : Registry) (name : String) : Bool :=
  (r.find? name).isSome

def size (r : Registry) : Nat :=
  r.rules.size

end Registry

/-- The rule of an HTML element. -/
def htmlRule (name : String) : Rule :=
  Registry.dom.get name

/-- The rule of an XML element, which does not depend on its name. -/
def xmlRule (_name : String) : Rule :=
  .permissive

end Templating.Tag
