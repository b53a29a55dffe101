import Templating.Proofs.WrittenNumbers

namespace Templating.Json

/-- Digits, of which there is at least one. -/
structure Digits (s : List Char) : Prop where
  ne_nil : s ≠ []
  isDigit : ∀ c ∈ s, c.isDigit = true

inductive FractionText : List Char → Prop
  | none : FractionText []
  | digits {s : List Char} : Digits s → FractionText ('.' :: s)

inductive ExponentText : List Char → Prop
  | none : ExponentText []
  | digits {mark : Char} {sign s : List Char} : mark = 'e' ∨ mark = 'E' →
      sign = [] ∨ sign = ['+'] ∨ sign = ['-'] → Digits s → ExponentText (mark :: (sign ++ s))

/-- A number, whose whole part starts with a zero only if that is all of it. -/
inductive NumberText : List Char → Prop
  | parts {sign whole fraction exponent : List Char} : sign = [] ∨ sign = ['-'] → Digits whole →
      (whole.head? = some '0' → whole.length = 1) → FractionText fraction →
      ExponentText exponent → NumberText (sign ++ (whole ++ (fraction ++ exponent)))

namespace Literal

theorem readExponentSign_append {sign s : List Char}
    (hsign : sign = [] ∨ sign = ['+'] ∨ sign = ['-']) (hs : Digits s) (rest : List Char) :
    (readExponentSign (sign ++ (s ++ rest))).2 = s ++ rest := by
  obtain ⟨c, cs, rfl⟩ := List.exists_cons_of_ne_nil hs.ne_nil
  have hc := hs.isDigit c List.mem_cons_self
  rcases hsign with rfl | rfl | rfl
  · have hplus : c ≠ '+' := ne_of_isDigit hc rfl
    have hminus : c ≠ '-' := ne_of_isDigit hc rfl
    simp [readExponentSign, readSign, hplus, hminus]
  · rfl
  · rfl

theorem readExponent_append {exponent rest : List Char} (h : ExponentText exponent)
    (hs : Stops rest) : ∃ e, readExponent (exponent ++ rest) = .ok (e, rest) := by
  cases h with
  | none => exact ⟨none, readExponent_of_stops hs⟩
  | @digits mark sign s hmark hsign hd =>
    have hdigits := readDigits_append hd.ne_nil hd.isDigit hs.not_digit
    refine ⟨some ((readExponentSign (sign ++ (s ++ rest))).1, s), ?_⟩
    rw [List.cons_append, List.append_assoc, readExponent, if_pos hmark]
    simp only [readExponentSign_append hsign hd, hdigits]
    rfl

/-- Neither the whole part of a number nor its fraction goes on with the exponent. -/
theorem front_exponent {exponent rest : List Char} (h : ExponentText exponent) (hs : Stops rest) :
    ∀ c ∈ (exponent ++ rest).head?, c.isDigit = false ∧ c ≠ '.' := by
  cases h with
  | none => exact fun c hc => ⟨(hs c hc).1, (hs c hc).2.1⟩
  | digits hmark =>
    intro c hc
    obtain rfl := Option.some.inj hc
    rcases hmark with rfl | rfl <;> decide

theorem readFraction_append {fraction s : List Char} (h : FractionText fraction)
    (hs : ∀ c ∈ s.head?, c.isDigit = false ∧ c ≠ '.') :
    ∃ digits, readFraction (fraction ++ s) = .ok (digits, s) := by
  cases h with
  | none =>
    refine ⟨[], ?_⟩
    rw [List.nil_append, readFraction]
    intro t ht
    exact (hs '.' (by rw [ht]; rfl)).2 rfl
  | digits hd => exact ⟨_, readDigits_append hd.ne_nil hd.isDigit fun c hc => (hs c hc).1⟩

theorem readSign_append {sign whole : List Char} (hsign : sign = [] ∨ sign = ['-'])
    (hw : Digits whole) (s : List Char) : (readSign (sign ++ (whole ++ s))).2 = whole ++ s := by
  rcases hsign with rfl | rfl
  · obtain ⟨c, cs, rfl⟩ := List.exists_cons_of_ne_nil hw.ne_nil
    have hminus : c ≠ '-' := ne_of_isDigit (hw.isDigit c List.mem_cons_self) rfl
    simp [readSign, hminus]
  · rfl

/-- A number is read as a literal, whatever its value. -/
theorem read_append {s rest : List Char} (h : NumberText s) (hs : Stops rest) :
    ∃ l, read (s ++ rest) = .ok (l, rest) := by
  cases h with
  | @parts sign whole fraction exponent hsign hw hzero hf he =>
    have hfront := front_exponent he hs
    have hnot : ∀ c ∈ (fraction ++ (exponent ++ rest)).head?, c.isDigit = false := by
      cases hf with
      | none => exact fun c hc => (hfront c hc).1
      | digits _ =>
        intro c hc
        obtain rfl := Option.some.inj hc
        rfl
    obtain ⟨digits, hfraction⟩ := readFraction_append hf hfront
    obtain ⟨e, hexponent⟩ := readExponent_append he hs
    refine ⟨⟨(readSign (sign ++ (whole ++ (fraction ++ (exponent ++ rest))))).1, whole, digits, e⟩,
      ?_⟩
    simp only [read, List.append_assoc, readSign_append hsign hw,
      readWhole_append hw.ne_nil hw.isDigit hzero hnot, hfraction, hexponent, bind, Except.bind]
    rfl

end Literal

theorem NumberText.front {s : List Char} (h : NumberText s) :
    ∃ c tail, s = c :: tail ∧ (c = '-' ∨ c.isDigit = true) := by
  cases h with
  | @parts sign whole fraction exponent hsign hw =>
    rcases hsign with rfl | rfl
    · obtain ⟨c, cs, rfl⟩ := List.exists_cons_of_ne_nil hw.ne_nil
      exact ⟨c, _, rfl, .inr (hw.isDigit c List.mem_cons_self)⟩
    · exact ⟨'-', _, rfl, .inl rfl⟩

end Templating.Json
