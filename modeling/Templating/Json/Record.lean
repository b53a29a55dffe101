import Templating.Json.Reader
import Templating.Json.Skip

namespace Templating.Json

/-- A field of a record that is collected in a `Draft`. -/
structure RecordField (Draft : Type) where
  key : String
  isRead : Draft → Bool
  value : Reader (Draft → Draft)

namespace Reader

/-- The values of fields in order, as the items of a list. -/
def inOrder (fields : List (RecordField Draft)) (draft : Draft) (s : List Char) :
    Except Fault (Draft × List Char) :=
  match fields with
  | [] => .error .malformed
  | field :: later => do
    let (put, rest) ← field.value.run s
    match dropBlanks rest with
    | [] => .error .truncated
    | ']' :: rest => return (put draft, rest)
    | ',' :: rest => inOrder later (put draft) rest
    | _ => .error .malformed

/-- A key that a quote has opened, and the draft after the value of its member. -/
def member (fields : List (RecordField Draft)) (draft : Draft) (s : List Char) :
    Except Fault (Draft × List Char) := do
  let (key, rest) ← unquote [] s
  match fields.find? (·.key == String.ofList key) with
  | some field =>
    if field.isRead draft then .error .mismatched
    else
      let rest ← expect [':'] (dropBlanks rest)
      let (put, rest) ← field.value.run rest
      return (put draft, rest)
  | none =>
    let rest ← expect [':'] (dropBlanks rest)
    let rest ← skip rest
    return (draft, rest)

theorem length_of_inOrder {fields : List (RecordField Draft)} {draft d : Draft} {s rest : List Char}
    (h : inOrder fields draft s = .ok (d, rest)) : rest.length < s.length := by
  induction fields generalizing draft s with
  | nil => cases h
  | cons field later ih =>
    obtain ⟨⟨put, s₁⟩, hv, h⟩ := ok_of_bind h
    have hlt := field.value.shorter hv
    dsimp only at h
    split at h
    · cases h
    · rename_i hb
      cases h
      exact Nat.lt_trans (length_of_dropBlanks hb) hlt
    · rename_i hb
      exact Nat.lt_trans (ih h) (Nat.lt_trans (length_of_dropBlanks hb) hlt)
    · cases h

theorem length_of_member {fields : List (RecordField Draft)} {draft d : Draft} {s rest : List Char}
    (h : member fields draft s = .ok (d, rest)) : rest.length < s.length := by
  obtain ⟨⟨key, s₁⟩, hu, h⟩ := ok_of_bind h
  have h₁ := length_of_unquote hu
  have hb := length_dropBlanks_le s₁
  dsimp only at h
  split at h
  · rename_i field _
    split at h
    · cases h
    · obtain ⟨s₂, he, h⟩ := ok_of_bind h
      obtain ⟨⟨put, s₃⟩, hv, h⟩ := ok_of_bind h
      cases h
      have h₂ := length_of_expect he
      have h₃ := field.value.shorter hv
      dsimp only
      omega
  · obtain ⟨s₂, he, h⟩ := ok_of_bind h
    obtain ⟨s₃, hs, h⟩ := ok_of_bind h
    cases h
    have h₂ := length_of_expect he
    have h₃ := length_of_skip hs
    omega

/-- The members of an object from the first key's opened quote to the closing bracket. -/
def members (fields : List (RecordField Draft)) (draft : Draft) (s : List Char) :
    Except Fault (Draft × List Char) :=
  match h : member fields draft s with
  | .error e => .error e
  | .ok (draft, rest) =>
    have := length_of_member h
    match hb : dropBlanks rest with
    | [] => .error .truncated
    | c :: rest' =>
      have := length_of_dropBlanks hb
      if c = '}' then .ok (draft, rest')
      else if c = ',' then
        match hq : expect ['"'] (dropBlanks rest') with
        | .error e => .error e
        | .ok next =>
          have := length_of_expect hq
          have := length_dropBlanks_le rest'
          members fields draft next
      else .error .malformed
termination_by s.length

theorem length_of_members {fields : List (RecordField Draft)} {draft d : Draft} {s rest : List Char}
    (h : members fields draft s = .ok (d, rest)) : rest.length < s.length := by
  fun_induction members fields draft s <;> grind

/-- Collects the fields behind an opening bracket. -/
def collect (fields : List (RecordField Draft)) (empty : Draft) (c : Char) (s : List Char) :
    Except Fault (Draft × List Char) :=
  if c = '{' then
    match dropBlanks s with
    | '}' :: rest => .ok (empty, rest)
    | s => do
      let s ← expect ['"'] s
      members fields empty s
  else if c = '[' then
    match dropBlanks s with
    | [] => .error .truncated
    | ']' :: rest => .ok (empty, rest)
    | s => inOrder fields empty s
  else .error (otherShape c s)

theorem length_of_collect {fields : List (RecordField Draft)} {empty d : Draft} {c : Char}
    {s rest : List Char} (h : collect fields empty c s = .ok (d, rest)) :
    rest.length ≤ s.length := by
  have hb := length_dropBlanks_le s
  unfold collect at h
  split at h
  · split at h
    · rename_i hs
      cases h
      exact Nat.le_of_lt (length_of_dropBlanks hs)
    · obtain ⟨s₁, he, h⟩ := ok_of_bind h
      have h₁ := length_of_expect he
      have h₂ := length_of_members h
      omega
  · split at h
    · split at h
      · cases h
      · rename_i hs
        cases h
        exact Nat.le_of_lt (length_of_dropBlanks hs)
      · exact Nat.le_trans (Nat.le_of_lt (length_of_inOrder h)) hb
    · cases h

/-- A record whose required fields are those without which `finish` gives nothing. It is read from
an object, or from a list of the values of its fields in order. -/
def record (fields : List (RecordField Draft)) (empty : Draft) (finish : Draft → Option α) :
    Reader α :=
  ofFirst (fun c s => do
    let (draft, rest) ← collect fields empty c s
    match finish draft with
    | some a => .ok (a, rest)
    | none => .error .mismatched) <| by
  intro c s a rest h
  obtain ⟨⟨draft, rest⟩, hc, h⟩ := ok_of_bind h
  dsimp only at h
  split at h
  · cases h
    exact length_of_collect hc
  · cases h

end Reader

end Templating.Json
