import Templating.Json.Text

namespace Templating.Json

/-- Four hexadecimal digits and their number. -/
inductive HexDigits : List Char → Nat → Prop
  | mk {a b c d : Char} {w x y z : Nat} : hexValue? a = some w → hexValue? b = some x →
      hexValue? c = some y → hexValue? d = some z →
      HexDigits [a, b, c, d] (((w * 16 + x) * 16 + y) * 16 + z)

/-- What stands for a character between quotes. -/
inductive SpellsChar : List Char → Char → Prop
  | plain {c : Char} : 32 ≤ c.toNat → c ≠ '"' → c ≠ '\\' → SpellsChar [c] c
  | short {d c : Char} : shortEscape? d = some c → SpellsChar ['\\', d] c
  | code {digits : List Char} {c : Char} : HexDigits digits c.toNat →
      SpellsChar ('\\' :: 'u' :: digits) c
  | pair {digits digits' : List Char} {n m : Nat} {c : Char} : HexDigits digits n →
      HexDigits digits' m → isLeading n = true → isTrailing m = true →
      c.toNat = 0x10000 + (n - 0xD800) * 0x400 + (m - 0xDC00) →
      SpellsChar ('\\' :: 'u' :: (digits ++ '\\' :: 'u' :: digits')) c

/-- What stands for a string between quotes. -/
inductive Spells : List Char → List Char → Prop
  | nil : Spells [] []
  | cons {spelling s : List Char} {c : Char} {cs : List Char} :
      SpellsChar spelling c → Spells s cs → Spells (spelling ++ s) (c :: cs)

theorem HexDigits.hexUnit_append {digits : List Char} {n : Nat} (h : HexDigits digits n)
    (s : List Char) : hexUnit (digits ++ s) = .ok (n, s) := by
  cases h with
  | mk ha hb hc hd => simp [hexUnit, ha, hb, hc, hd]

/-- No character is a surrogate. -/
theorem not_surrogate (c : Char) : isTrailing c.toNat = false ∧ isLeading c.toNat = false := by
  have hvalid : c.toNat < 0xD800 ∨ 0xDFFF < c.toNat ∧ c.toNat < 0x110000 := c.valid
  simp only [isTrailing, isLeading, Bool.and_eq_false_iff, decide_eq_false_iff_not]
  omega

theorem escaped_short {c d : Char} (h : shortEscape? d = some c) (s : List Char) :
    escaped (d :: s) = .ok (c, s) := by
  have hu : d ≠ 'u' := by
    intro he
    rw [he] at h
    cases h
  rw [escaped]
  · rw [h]
  · intro he
    exact absurd he hu

theorem escaped_code {digits : List Char} {c : Char} (h : HexDigits digits c.toNat)
    (s : List Char) : escaped ('u' :: (digits ++ s)) = .ok (c, s) := by
  obtain ⟨htrailing, hleading⟩ := not_surrogate c
  simp [escaped, h.hexUnit_append, htrailing, hleading, bind, Except.bind]

theorem escaped_pair {digits digits' : List Char} {n m : Nat} {c : Char}
    (hn : HexDigits digits n) (hm : HexDigits digits' m) (hleading : isLeading n = true)
    (htrailing : isTrailing m = true)
    (hc : c.toNat = 0x10000 + (n - 0xD800) * 0x400 + (m - 0xDC00)) (s : List Char) :
    escaped ('u' :: (digits ++ '\\' :: 'u' :: (digits' ++ s))) = .ok (c, s) := by
  have hfirst : isTrailing n = false := by
    simp only [isLeading, isTrailing, Bool.and_eq_true, Bool.and_eq_false_iff, decide_eq_true_eq,
      decide_eq_false_iff_not] at hleading ⊢
    omega
  have hpaired : paired n m = c := by rw [paired, ← hc, Char.ofNat_toNat]
  simp [escaped, hn.hexUnit_append, hm.hexUnit_append, hfirst, hleading, htrailing, hpaired, expect,
    bind, Except.bind]

theorem unquote_escaped {before rest s : List Char} {c : Char} (h : escaped rest = .ok (c, s)) :
    unquote before ('\\' :: rest) = unquote (c :: before) s := by
  rw [unquote]
  split
  · rename_i e he
    rw [h] at he
    cases he
  · rename_i d t he
    rw [h] at he
    cases he
    rfl

/-- A character is read from what stands for it. -/
theorem SpellsChar.unquote_append {spelling : List Char} {c : Char} (h : SpellsChar spelling c)
    (before s : List Char) : unquote before (spelling ++ s) = unquote (c :: before) s := by
  cases h with
  | plain hlow hquote hslash =>
    rw [List.singleton_append, unquote, if_neg (Nat.not_lt.mpr hlow)]
    · exact hquote
    · exact hslash
  | short hd => exact unquote_escaped (escaped_short hd s)
  | code hdigits => exact unquote_escaped (escaped_code hdigits s)
  | pair hn hm hleading htrailing hc =>
    rw [List.cons_append, List.cons_append, List.append_assoc]
    exact unquote_escaped (escaped_pair hn hm hleading htrailing hc s)

/-- A string is read from any of its spellings, up to the closing quote. -/
theorem Spells.unquote_append {spelling cs : List Char} (h : Spells spelling cs)
    (before rest : List Char) :
    unquote before (spelling ++ '"' :: rest) = .ok (before.reverse ++ cs, rest) := by
  induction h generalizing before with
  | nil => simp [unquote]
  | @cons spelling s c cs hc _ ih =>
    rw [List.append_assoc, hc.unquote_append, ih, List.reverse_cons, List.append_assoc,
      List.singleton_append]

theorem hexValue?_hexDigit {n : Nat} (h : n < 16) : hexValue? (hexDigit n) = some n := by
  revert n
  decide

/-- The number of a control character has two digits. -/
theorem hexDigits_control {n : Nat} (h : n < 32) :
    HexDigits ['0', '0', hexDigit (n / 16), hexDigit (n % 16)] n := by
  have hzero : hexValue? '0' = some 0 := by decide
  have hdigits := HexDigits.mk hzero hzero (hexValue?_hexDigit (n := n / 16) (by omega))
    (hexValue?_hexDigit (n := n % 16) (by omega))
  have hsum : ((0 * 16 + 0) * 16 + n / 16) * 16 + n % 16 = n := by omega
  rwa [hsum] at hdigits

theorem spellsChar_escape (c : Char) : SpellsChar (escape c) c := by
  unfold escape
  split
  · exact .short rfl
  · exact .short rfl
  · exact .short rfl
  · exact .short rfl
  · exact .short rfl
  · exact .short rfl
  · exact .short rfl
  · rename_i hquote hslash _ _ _ _ _
    split
    · rename_i hcontrol
      exact .code (hexDigits_control hcontrol)
    · rename_i hcontrol
      exact .plain (Nat.le_of_not_lt hcontrol) hquote hslash

theorem spells_escape (cs : List Char) : Spells (cs.flatMap escape) cs := by
  induction cs with
  | nil => exact .nil
  | cons c cs ih =>
    rw [List.flatMap_cons]
    exact .cons (spellsChar_escape c) ih

/-- A quoted string is read up to its closing quote. -/
theorem unquote_quote (cs rest : List Char) (before : List Char) :
    unquote before (cs.flatMap escape ++ '"' :: rest) = .ok (before.reverse ++ cs, rest) :=
  (spells_escape cs).unquote_append before rest

end Templating.Json
