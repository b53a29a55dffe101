import Templating.Json.Basic

namespace Templating.Json

def hexDigit (n : Nat) : Char :=
  if n < 10 then Char.ofNat (n + 48) else Char.ofNat (n + 87)

def hexValue? (c : Char) : Option Nat :=
  if '0' ≤ c ∧ c ≤ '9' then some (c.toNat - 48)
  else if 'a' ≤ c ∧ c ≤ 'f' then some (c.toNat - 87)
  else if 'A' ≤ c ∧ c ≤ 'F' then some (c.toNat - 55)
  else none

def escape (c : Char) : List Char :=
  match c with
  | '"' => ['\\', '"']
  | '\\' => ['\\', '\\']
  | '\x08' => ['\\', 'b']
  | '\x0c' => ['\\', 'f']
  | '\n' => ['\\', 'n']
  | '\r' => ['\\', 'r']
  | '\t' => ['\\', 't']
  | c =>
    if c.toNat < 32 then ['\\', 'u', '0', '0', hexDigit (c.toNat / 16), hexDigit (c.toNat % 16)]
    else [c]

def quote (s : String) : List Char :=
  '"' :: (s.toList.flatMap escape ++ ['"'])

/-- The character that a one-letter escape stands for. -/
def shortEscape? : Char → Option Char
  | '"' => some '"'
  | '\\' => some '\\'
  | '/' => some '/'
  | 'b' => some '\x08'
  | 'f' => some '\x0c'
  | 'n' => some '\n'
  | 'r' => some '\r'
  | 't' => some '\t'
  | _ => none

/-- The number that four hexadecimal digits spell. A text of fewer than four bytes has ended too
early, whatever it holds. -/
def hexUnit (s : List Char) : Except Fault (Nat × List Char) :=
  match s with
  | a :: b :: c :: d :: rest =>
    match hexValue? a, hexValue? b, hexValue? c, hexValue? d with
    | some a, some b, some c, some d => .ok (((a * 16 + b) * 16 + c) * 16 + d, rest)
    | _, _, _, _ => .error .malformed
  | short => .error (if (String.ofList short).utf8ByteSize < 4 then .truncated else .malformed)

def isLeading (n : Nat) : Bool := 0xD800 ≤ n && n ≤ 0xDBFF

def isTrailing (n : Nat) : Bool := 0xDC00 ≤ n && n ≤ 0xDFFF

/-- The character that two surrogates stand for together. -/
def paired (leading trailing : Nat) : Char :=
  Char.ofNat (0x10000 + (leading - 0xD800) * 0x400 + (trailing - 0xDC00))

/-- The character of the escape whose backslash has been read. -/
def escaped : List Char → Except Fault (Char × List Char)
  | [] => .error .truncated
  | 'u' :: s => do
    let (n, s) ← hexUnit s
    if isTrailing n then .error .malformed
    else if isLeading n then do
      let s ← expect ['\\', 'u'] s
      let (m, s) ← hexUnit s
      if isTrailing m then .ok (paired n m, s) else .error .malformed
    else .ok (Char.ofNat n, s)
  | c :: s =>
    match shortEscape? c with
    | some d => .ok (d, s)
    | none => .error .malformed

/-- The text after an escape that is checked and not kept. Surrogates need not pair up here. -/
def skipEscaped : List Char → Except Fault (List Char)
  | [] => .error .truncated
  | 'u' :: s => (hexUnit s).map (·.2)
  | c :: s => if (shortEscape? c).isSome then .ok s else .error .malformed

theorem length_of_hexUnit {s rest : List Char} {n : Nat} (h : hexUnit s = .ok (n, rest)) :
    rest.length + 4 = s.length := by
  unfold hexUnit at h
  split at h
  · split at h
    · obtain ⟨-, rfl⟩ := Prod.mk.inj (Except.ok.inj h)
      simp
    · simp at h
  · simp at h

theorem length_of_escaped {s rest : List Char} {c : Char} (h : escaped s = .ok (c, rest)) :
    rest.length < s.length := by
  unfold escaped at h
  split at h
  · simp at h
  · rename_i s
    cases hn : hexUnit s with
    | error e => simp [hn, bind, Except.bind] at h
    | ok p =>
      obtain ⟨n, t⟩ := p
      have hs := length_of_hexUnit hn
      simp only [hn, bind, Except.bind] at h
      split at h
      · simp at h
      split at h
      · cases he : expect ['\\', 'u'] t with
        | error e => simp [he] at h
        | ok t =>
          have ht := length_of_expect he
          cases hm : hexUnit t with
          | error e => simp [he, hm] at h
          | ok q =>
            obtain ⟨m, u⟩ := q
            have hu := length_of_hexUnit hm
            simp only [he, hm] at h
            split at h
            · obtain ⟨-, rfl⟩ := Prod.mk.inj (Except.ok.inj h)
              simp_all; omega
            · simp at h
      · obtain ⟨-, rfl⟩ := Prod.mk.inj (Except.ok.inj h)
        simp; omega
  · split at h
    · obtain ⟨-, rfl⟩ := Prod.mk.inj (Except.ok.inj h)
      simp
    · simp at h

theorem length_of_skipEscaped {s rest : List Char} (h : skipEscaped s = .ok rest) :
    rest.length < s.length := by
  unfold skipEscaped at h
  split at h
  · simp at h
  · rename_i s
    cases hn : hexUnit s with
    | error e => simp [hn, Except.map] at h
    | ok p =>
      obtain ⟨n, t⟩ := p
      have hs := length_of_hexUnit hn
      simp only [hn, Except.map, Except.ok.injEq] at h
      subst h
      simp; omega
  · split at h
    · obtain rfl := Except.ok.inj h
      simp
    · simp at h

/-- The characters up to the closing quote, added to those read before in reverse. -/
def unquote (before : List Char) (s : List Char) : Except Fault (List Char × List Char) :=
  match s with
  | [] => .error .truncated
  | '"' :: rest => .ok (before.reverse, rest)
  | '\\' :: rest =>
    match h : escaped rest with
    | .error e => .error e
    | .ok (c, rest') =>
      have := length_of_escaped h
      unquote (c :: before) rest'
  | c :: rest => if c.toNat < 32 then .error .malformed else unquote (c :: before) rest
termination_by s.length

/-- The text after the closing quote. -/
def skipQuoted (s : List Char) : Except Fault (List Char) :=
  match s with
  | [] => .error .truncated
  | '"' :: rest => .ok rest
  | '\\' :: rest =>
    match h : skipEscaped rest with
    | .error e => .error e
    | .ok rest' =>
      have := length_of_skipEscaped h
      skipQuoted rest'
  | c :: rest => if c.toNat < 32 then .error .malformed else skipQuoted rest
termination_by s.length

theorem length_of_unquote {before s cs rest : List Char} (h : unquote before s = .ok (cs, rest)) :
    rest.length < s.length := by
  fun_induction unquote before s with
  | case1 => simp at h
  | case2 => obtain ⟨-, rfl⟩ := Prod.mk.inj (Except.ok.inj h); simp
  | case3 => simp at h
  | case4 => have := ‹_ → _› h; simp; omega
  | case5 => simp at h
  | case6 => have := ‹_ → _› h; simp; omega

theorem length_of_skipQuoted {s rest : List Char} (h : skipQuoted s = .ok rest) :
    rest.length < s.length := by
  fun_induction skipQuoted s with
  | case1 => simp at h
  | case2 => obtain rfl := Except.ok.inj h; simp
  | case3 => simp at h
  | case4 => have := ‹_ → _› h; simp; omega
  | case5 => simp at h
  | case6 => have := ‹_ → _› h; simp; omega

end Templating.Json
