import Templating.Json.Reader

namespace Templating.Json

namespace Reader

/-- The items of a list up to a closing bracket, added to those read before in reverse. -/
def itemsUntil (closing : Char) (r : Reader α) (before : List α) (s : List Char) :
    Except Fault (List α × List Char) :=
  match h : r.run s with
  | .error e => .error e
  | .ok (a, rest) =>
    have := r.shorter h
    match hb : dropBlanks rest with
    | [] => .error .truncated
    | c :: rest' =>
      have := length_of_dropBlanks hb
      if c = closing then .ok ((a :: before).reverse, rest')
      else if c = ',' then itemsUntil closing r (a :: before) rest'
      else .error .malformed
termination_by s.length

theorem length_of_itemsUntil {closing : Char} {r : Reader α} {before : List α} {s : List Char}
    {as : List α} {rest : List Char} (h : itemsUntil closing r before s = .ok (as, rest)) :
    rest.length < s.length := by
  fun_induction itemsUntil closing r before s with
  | case1 => cases h
  | case2 => cases h
  | case3 => cases h; omega
  | case4 => have := ‹_ → _› h; omega
  | case5 => cases h

/-- The items behind an opening bracket. -/
def bracketed (closing : Char) (r : Reader α) : Reader (List α) :=
  ofFirst (fun _ s =>
    match dropBlanks s with
    | [] => .error .truncated
    | c :: rest => if c = closing then .ok ([], rest) else itemsUntil closing r [] s) <| by
  intro _ s a rest h
  split at h
  · cases h
  · rename_i hs
    split at h
    · cases h
      exact Nat.le_of_lt (length_of_dropBlanks hs)
    · exact Nat.le_of_lt (length_of_itemsUntil h)

/-- Reads as the first character asks for that is no blank. -/
def choose (f : Char → Reader α) : Reader α where
  run s :=
    match dropBlanks s with
    | [] => .error .truncated
    | c :: rest => (f c).run (c :: rest)
  shorter {s a rest} h := by
    split at h
    · cases h
    · rename_i c t hs
      exact Nat.lt_of_lt_of_le (hs ▸ (f c).shorter h) (length_dropBlanks_le s)

/-- A key that a quote has opened, and the value behind its colon. -/
def keyed (r : Reader α) (s : List Char) : Except Fault ((String × α) × List Char) := do
  let (key, rest) ← unquote [] s
  let rest ← expect [':'] (dropBlanks rest)
  let (a, rest) ← r.run rest
  return ((String.ofList key, a), rest)

theorem length_of_keyed {r : Reader α} {s rest : List Char} {m : String × α}
    (h : keyed r s = .ok (m, rest)) : rest.length ≤ s.length := by
  obtain ⟨⟨key, s₁⟩, hu, h⟩ := ok_of_bind h
  obtain ⟨s₂, he, h⟩ := ok_of_bind h
  obtain ⟨⟨a, s₃⟩, hr, h⟩ := ok_of_bind h
  cases h
  have h₁ := length_of_unquote hu
  have h₂ := length_dropBlanks_le s₁
  have h₃ := length_of_expect he
  have h₄ := r.shorter hr
  omega

def entry (r : Reader α) : Reader (String × α) :=
  ofFirst (fun c s => if c = '"' then keyed r s else .error .malformed) <| by
  intro c s a rest h
  split at h
  · exact length_of_keyed h
  · cases h

/-- A number that is written with digits alone. -/
def natural : Reader Nat :=
  ofFirst (fun c s => do
    let (literal, rest) ← Literal.read (c :: s)
    match literal.natural? with
    | some n => .ok (n, rest)
    | none => .error .mismatched) <| by
  intro c s a rest h
  obtain ⟨⟨l, rest'⟩, hl, h⟩ := ok_of_bind h
  dsimp only at h
  split at h
  · cases h
    exact Nat.le_of_lt_succ (Literal.length_of_read hl)
  · cases h

end Reader

namespace Value

/-- The value that a word spelled in full stands for, by its first letter. -/
def ofInitial (c : Char) : Value :=
  if c = 'n' then .null else .bool (c == 't')

def wordReader : Reader Value :=
  .ofFirst (fun c s =>
    match wordTail? c with
    | some tail => (expect tail s).map (ofInitial c, ·)
    | none => .error .malformed) <| by
  intro c s a rest h
  split at h
  · rename_i tail _
    cases he : expect tail s with
    | error e => rw [he] at h; cases h
    | ok t =>
      rw [he] at h
      cases h
      exact Nat.le_of_add_right_le (Nat.le_of_eq (length_of_expect he))
  · cases h

/-- A value that holds no others. -/
def scalarReader : Reader Value :=
  .choose fun c =>
    if c = '"' then Reader.string.map .string
    else if c = '-' ∨ c.isDigit then Reader.natural.map .number
    else wordReader

/-- A value whose brackets nest at most `depth` deep. -/
def reader : Nat → Reader Value
  | 0 => scalarReader
  | depth + 1 =>
    .choose fun c =>
      if c = '[' then ((reader depth).bracketed ']').map .array
      else if c = '{' then ((reader depth).entry.bracketed '}').map .object
      else scalarReader

def nestingLimit : Nat := 127

def read (text : String) : Except Fault Value :=
  (reader nestingLimit).read text

def members : Value → List (String × Value)
  | .object members => members
  | _ => []

def member? (v : Value) (key : String) : Option Value :=
  match v with
  | .object members => members.lookup key
  | _ => none

end Value

end Templating.Json
