namespace Templating.Tag

/-- A name that starts like a qualified one and does not go on like it. -/
structure Unqualified where
  name : String
  deriving Repr, DecidableEq

def Unqualified.message (e : Unqualified) : String :=
  "unsupported format \"" ++ e.name ++ "\" expecting \":namespace:name\""

/-- A name `:namespace:local` has two parts. Any other is local as a whole, unless it starts with a
colon and holds no second one. -/
def splitChars (s : List Char) : Option (Option (List Char) × List Char) :=
  match s with
  | ':' :: rest =>
    match rest.dropWhile (· != ':') with
    | _ :: localName => some (some (rest.takeWhile (· != ':')), localName)
    | [] => none
  | _ => some (none, s)

/-- The namespace of a name, if it has one, and its local part. -/
def split (name : String) : Except Unqualified (Option String × String) :=
  match splitChars name.toList with
  | some (space, localName) => .ok (space.map String.ofList, String.ofList localName)
  | none => .error ⟨name⟩

/-- The namespace of a name; a malformed name has none. -/
def spaceOf (name : String) : Option String :=
  match split name with
  | .ok (space, _) => space
  | .error _ => none

/-- The name of an element in a namespace; the empty namespace is left out. -/
def merge (space localName : String) : String :=
  if space = "" then localName else ":" ++ space ++ ":" ++ localName

end Templating.Tag
