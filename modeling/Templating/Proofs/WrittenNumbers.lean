import Templating.Json.Reader

namespace Templating

theorem Binary64.round_of_lt {n : Nat} (h : n < 1 <<< 53) : round n = n := by
  have hlog : n.log2 - 52 = 0 := by
    by_cases hn : n = 0
    · subst n
      rfl
    · rw [Nat.one_shiftLeft] at h
      have hlt := (Nat.log2_lt hn).mpr h
      omega
  simp [round, hlog, Nat.mod_one]

theorem Binary64.isFinite_of_lt {n : Nat} (h : n < 1 <<< 53) : isFinite n = true :=
  decide_eq_true (Nat.lt_trans h (by decide))

namespace Json

theorem ne_of_isDigit {c d : Char} (hc : c.isDigit = true) (hd : d.isDigit = false) : c ≠ d := by
  intro he
  rw [he, hd] at hc
  cases hc

/-- A text with which no number goes on. -/
def Stops (rest : List Char) : Prop :=
  ∀ c ∈ rest.head?, c.isDigit = false ∧ c ≠ '.' ∧ c ≠ 'e' ∧ c ≠ 'E'

theorem Stops.not_digit {rest : List Char} (h : Stops rest) :
    ∀ c ∈ rest.head?, c.isDigit = false :=
  fun c hc => (h c hc).1

namespace Literal

theorem isDigit_of_mem_digits {n : Nat} : ∀ c ∈ Nat.toDigits 10 n, c.isDigit = true :=
  fun _ h => Nat.isDigit_of_mem_toDigits (by decide) (by decide) h

theorem exists_first_digit (n : Nat) :
    ∃ c cs, Nat.toDigits 10 n = c :: cs ∧ c.isDigit = true := by
  obtain ⟨c, cs, hcs⟩ := List.exists_cons_of_ne_nil (Nat.toDigits_ne_nil (n := n) (b := 10))
  exact ⟨c, cs, hcs, isDigit_of_mem_digits (n := n) c (by simp [hcs])⟩

theorem natural?_digits (n : Nat) : natural? ⟨false, Nat.toDigits 10 n, [], none⟩ = some n := by
  rw [natural?, if_pos ⟨rfl, rfl, rfl⟩, Nat.ofDigitChars_ten_toDigits]

theorem eq_zero_of_leading_zero {n : Nat} (h : (Nat.toDigits 10 n).head? = some '0') : n = 0 := by
  induction n using Nat.strongRecOn with
  | ind n ih =>
    by_cases hn : n < 10
    · have hdigit : ∀ d < 10, d.digitChar = '0' → d = 0 := by decide
      rw [Nat.toDigits_of_lt_base hn] at h
      exact hdigit n hn (Option.some.inj h)
    · rw [Nat.toDigits_of_base_le (by decide) (by omega), List.head?_append] at h
      obtain ⟨c, cs, hcs, -⟩ := exists_first_digit (n / 10)
      have hhead : (Nat.toDigits 10 (n / 10)).head? = some '0' := by
        rw [hcs] at h ⊢
        exact h
      have hdiv := ih (n / 10) (by omega) hhead
      omega

/-- Digits are read up to the first character that is none. -/
theorem readDigits_append {digits rest : List Char} (hne : digits ≠ [])
    (hd : ∀ c ∈ digits, c.isDigit = true) (hs : ∀ c ∈ rest.head?, c.isDigit = false) :
    readDigits (digits ++ rest) = .ok (digits, rest) := by
  have htake : (digits ++ rest).takeWhile Char.isDigit = digits ∧
      (digits ++ rest).dropWhile Char.isDigit = rest := by
    rw [List.takeWhile_append_of_pos hd, List.dropWhile_append_of_pos hd]
    cases rest with
    | nil => simp
    | cons c rest => simp [hs c rfl]
  obtain ⟨c, cs, rfl⟩ := List.exists_cons_of_ne_nil hne
  rw [List.cons_append] at htake ⊢
  simp only [readDigits, hd c List.mem_cons_self, if_true, htake]

theorem readWhole_append {digits rest : List Char} (hne : digits ≠ [])
    (hd : ∀ c ∈ digits, c.isDigit = true) (hz : digits.head? = some '0' → digits.length = 1)
    (hs : ∀ c ∈ rest.head?, c.isDigit = false) :
    readWhole (digits ++ rest) = .ok (digits, rest) := by
  have hzero : ¬ (digits.head? = some '0' ∧ 1 < digits.length) := by
    rintro ⟨hhead, hlong⟩
    exact absurd (hz hhead) (Nat.ne_of_gt hlong)
  rw [readWhole, readDigits_append hne hd hs]
  exact if_neg hzero

theorem length_of_leading_zero {n : Nat} (h : (Nat.toDigits 10 n).head? = some '0') :
    (Nat.toDigits 10 n).length = 1 := by
  rw [eq_zero_of_leading_zero h]
  rfl

theorem readWhole_digits {n : Nat} {rest : List Char} (h : Stops rest) :
    readWhole (Nat.toDigits 10 n ++ rest) = .ok (Nat.toDigits 10 n, rest) :=
  readWhole_append Nat.toDigits_ne_nil isDigit_of_mem_digits length_of_leading_zero h.not_digit

theorem readSign_digits (n : Nat) (rest : List Char) :
    readSign (Nat.toDigits 10 n ++ rest) = (false, Nat.toDigits 10 n ++ rest) := by
  obtain ⟨c, cs, hcs, hc⟩ := exists_first_digit n
  rw [hcs, List.cons_append, readSign]
  intro s hs
  obtain ⟨rfl, -⟩ := List.cons.inj hs
  exact absurd hc (by decide)

theorem readFraction_of_stops {rest : List Char} (h : Stops rest) :
    readFraction rest = .ok ([], rest) := by
  unfold readFraction
  split
  · obtain ⟨-, hdot, -, -⟩ := h '.' rfl
    exact absurd rfl hdot
  · rfl

theorem readExponent_of_stops {rest : List Char} (h : Stops rest) :
    readExponent rest = .ok (none, rest) := by
  cases rest with
  | nil => rfl
  | cons c rest =>
    obtain ⟨-, -, hsmall, hlarge⟩ := h c rfl
    simp [readExponent, hsmall, hlarge]

/-- Digits are read as a literal without sign, fraction and exponent. -/
theorem read_digits {n : Nat} {rest : List Char} (h : Stops rest) :
    read (Nat.toDigits 10 n ++ rest) = .ok (⟨false, Nat.toDigits 10 n, [], none⟩, rest) := by
  simp only [read, readSign_digits, readWhole_digits h, readFraction_of_stops h,
    readExponent_of_stops h, bind, Except.bind, pure, Except.pure]

theorem le_ofDigitChars (m : Nat) (ds : List Char) : m ≤ Nat.ofDigitChars 10 ds m := by
  rw [Nat.ofDigitChars_eq_ofDigitChars_zero]
  exact Nat.le_add_right_of_le (Nat.le_mul_of_pos_left m (Nat.pow_pos (by decide)))

/-- Digits whose number fits are all kept. -/
theorem append_of_lt {m : Nat} {ds : List Char} (h : Nat.ofDigitChars 10 ds m < UInt64.size) :
    append m ds = (Nat.ofDigitChars 10 ds m, ds.length) := by
  induction ds generalizing m with
  | nil => rfl
  | cons d ds ih =>
    rw [Nat.ofDigitChars_cons] at h ⊢
    change Nat.ofDigitChars 10 ds (10 * m + (d.toNat - 48)) < UInt64.size at h
    have hstep := Nat.lt_of_le_of_lt (le_ofDigitChars _ ds) h
    simp only [append]
    rw [if_pos hstep, ih h]
    rfl

theorem isFinite_digits {n : Nat} (h : n < 1 <<< 53) :
    isFinite ⟨false, Nat.toDigits 10 n, [], none⟩ = true := by
  have hfits : Nat.ofDigitChars 10 (Nat.toDigits 10 n) 0 < UInt64.size := by
    rw [Nat.ofDigitChars_ten_toDigits]
    exact Nat.lt_trans h (by decide)
  have hscaled : scaled ⟨false, Nat.toDigits 10 n, [], none⟩ = (n, 0) := by
    simp only [scaled, append_of_lt hfits, Nat.ofDigitChars_ten_toDigits, append]
    simp
  have hone : Binary64.round (Nat.pow 10 0) = 1 := by decide
  have hround : Binary64.isFinite (Binary64.round n * Binary64.round (Nat.pow 10 0)) = true := by
    rw [hone, Nat.mul_one, Binary64.round_of_lt h]
    exact Binary64.isFinite_of_lt h
  rw [isFinite, hscaled]
  exact Bool.or_eq_true_iff.mpr (.inr hround)

end Literal

/-- A word is read back from its digits. -/
theorem readNumber_digits {n : Nat} {rest : List Char} (hn : n < 1 <<< 53) (h : Stops rest) :
    readNumber (Nat.toDigits 10 n ++ rest) = .ok (some n, rest) := by
  rw [readNumber, Literal.read_digits h]
  exact (if_pos (Literal.isFinite_digits hn)).trans (by rw [Literal.natural?_digits]; rfl)

end Json

end Templating
