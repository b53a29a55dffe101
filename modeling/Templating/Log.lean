namespace Templating.Log

inductive Level where
  | error
  | warn
  | info
  | debug
  | trace
  deriving Repr, DecidableEq

def Level.all : List Level := [.error, .warn, .info, .debug, .trace]

/-- Levels rank from the gravest to the finest. -/
def Level.rank : Level → Nat
  | .error => 1
  | .warn => 2
  | .info => 3
  | .debug => 4
  | .trace => 5

def Level.name : Level → String
  | .error => "error"
  | .warn => "warn"
  | .info => "info"
  | .debug => "debug"
  | .trace => "trace"

/-- A message, and values of interest by their names. -/
structure Event where
  level : Level
  target : String
  message : String
  fields : List (String × String)
  deriving Repr, DecidableEq

/-- The controls below 128 that can ring, move over what was written or begin a command. -/
def terminalControls : List Char := ['\x07', '\x08', '\x0c', '\x1b', '\x7f']

/-- A character of a message: what a terminal could take for a command is written by its code. -/
def escape (c : Char) : List Char :=
  let code := [(c.toNat / 16).digitChar, (c.toNat % 16).digitChar]
  if c ∈ terminalControls then '\\' :: 'x' :: code
  else if 0x80 ≤ c.toNat ∧ c.toNat ≤ 0x9F then '\\' :: 'u' :: '{' :: code ++ ['}']
  else [c]

/-- Only the message is escaped, the fields are written as they are. -/
def Event.line (e : Event) : String :=
  e.level.name.map Char.toUpper ++ " " ++ e.target ++ ": " ++
    String.ofList (e.message.toList.flatMap escape) ++
    String.join (e.fields.map fun (name, value) => " " ++ name ++ "=" ++ value)

/-- A target and the highest rank of the events it lets through; the empty target covers all. -/
structure Directive where
  target : String
  rank : Nat
  deriving Repr, DecidableEq

/-- The rank a word stands for: a level by its name, in any case, or by its rank. -/
def rankOf? (word : String) : Option Nat :=
  if word.toLower ∈ ["off", "0"] then some 0
  else (Level.all.find? fun l => word.toLower ∈ [l.name, l.rank.repr]).map Level.rank

/-- A word alone is a level for every target, or else a target let through as a whole. -/
def Directive.ofWord? (word : List Char) : Option Directive :=
  match word.splitOn '=' with
  | [[]] => none
  | [only] =>
    match rankOf? (String.ofList only) with
    | some rank => some ⟨"", rank⟩
    | none => some ⟨String.ofList only, Level.trace.rank⟩
  | [target, level] => (rankOf? (String.ofList level)).map (⟨String.ofList target, ·⟩)
  | _ => none

abbrev Filter := List Directive

def Filter.ofText (text : String) : Filter :=
  (text.toList.splitOn ',').filterMap Directive.ofWord?

/-- The directive with the longest target that covers an event's; of equal targets the last. -/
def Filter.deciding? (f : Filter) (e : Event) : Option Directive :=
  (f.filter (e.target.startsWith ·.target)).foldl (fun best d =>
    match best with
    | none => some d
    | some b => if b.target.length ≤ d.target.length then some d else some b) none

def Filter.allows (f : Filter) (e : Event) : Bool :=
  match f.deciding? e with
  | some d => e.level.rank ≤ d.rank
  | none => false

end Templating.Log
