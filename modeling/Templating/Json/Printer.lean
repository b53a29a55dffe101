import Templating.Json.Text

namespace Templating.Json.Value

def word (b : Bool) : List Char :=
  if b then ['t', 'r', 'u', 'e'] else ['f', 'a', 'l', 's', 'e']

mutual

def compact : Value → List Char
  | .null => ['n', 'u', 'l', 'l']
  | .bool b => word b
  | .number n => Nat.toDigits 10 n
  | .string s => quote s
  | .array items => '[' :: ([','].intercalate (compactItems items) ++ [']'])
  | .object members => '{' :: ([','].intercalate (compactMembers members) ++ ['}'])

def compactItems : List Value → List (List Char)
  | [] => []
  | v :: rest => v.compact :: compactItems rest

def compactMembers : List (String × Value) → List (List Char)
  | [] => []
  | (key, v) :: rest => (quote key ++ ':' :: v.compact) :: compactMembers rest

end

def newLine (level : Nat) : List Char :=
  '\n' :: List.replicate (2 * level) ' '

mutual

/-- The value as it stands `level` levels deep. -/
def spread (level : Nat) : Value → List Char
  | .array (v :: rest) =>
    '[' :: ([','].intercalate (spreadItems (level + 1) (v :: rest)) ++ newLine level ++ [']'])
  | .object (m :: rest) =>
    '{' :: ([','].intercalate (spreadMembers (level + 1) (m :: rest)) ++ newLine level ++ ['}'])
  | .null => ['n', 'u', 'l', 'l']
  | .bool b => word b
  | .number n => Nat.toDigits 10 n
  | .string s => quote s
  | .array [] => ['[', ']']
  | .object [] => ['{', '}']

def spreadItems (level : Nat) : List Value → List (List Char)
  | [] => []
  | v :: rest => (newLine level ++ v.spread level) :: spreadItems level rest

def spreadMembers (level : Nat) : List (String × Value) → List (List Char)
  | [] => []
  | (key, v) :: rest =>
    (newLine level ++ quote key ++ [':', ' '] ++ v.spread level) :: spreadMembers level rest

end

/-- The compact text of a value. -/
def text (v : Value) : String :=
  String.ofList v.compact

/-- The text of a value over several lines. -/
def pretty (v : Value) : String :=
  String.ofList (v.spread 0)

end Templating.Json.Value
