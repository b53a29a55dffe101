import Templating.Json.Printer
import Templating.Json.Skip
import Templating.Proofs.QuotedStrings
import Templating.Proofs.ReadItems
import Templating.Proofs.SpelledNumbers

namespace Templating.Json

/-- Blanks between two tokens. -/
structure Gap where
  chars : List Char
  blank : ∀ c ∈ chars, isBlank c = true

def Gap.empty : Gap :=
  ⟨[], List.forall_mem_nil _⟩

def Gap.single (c : Char) (h : isBlank c = true) : Gap :=
  ⟨[c], List.forall_mem_singleton.mpr h⟩

theorem Gap.dropBlanks_append (w : Gap) (s : List Char) :
    dropBlanks (w.chars ++ s) = dropBlanks s :=
  Json.dropBlanks_append w.blank s

theorem Gap.stops_append (w : Gap) {s : List Char} (h : Stops s) : Stops (w.chars ++ s) :=
  Json.stops_append w.blank h

/-- What may stand between quotes; escapes of surrogates need not pair up. -/
inductive QuotedText : List Char → Prop
  | nil : QuotedText []
  | plain {c : Char} {s : List Char} : 32 ≤ c.toNat → c ≠ '"' → c ≠ '\\' → QuotedText s →
      QuotedText (c :: s)
  | short {d : Char} {s : List Char} : (shortEscape? d).isSome = true → QuotedText s →
      QuotedText ('\\' :: d :: s)
  | code {digits s : List Char} {n : Nat} : HexDigits digits n → QuotedText s →
      QuotedText ('\\' :: 'u' :: (digits ++ s))

def Bracket.opening : Bracket → Char
  | .list => '['
  | .object => '{'

/-- What stands before the value of an item: nothing in a list, a key and its colon in an object. -/
inductive KeyText : Bracket → List Char → Prop
  | list : KeyText .list []
  | object {name : List Char} (lead gap : Gap) : QuotedText name →
      KeyText .object (lead.chars ++ '"' :: (name ++ '"' :: (gap.chars ++ [':'])))

/-- A value in a bracket, with what stands before it and the blanks around it. -/
structure Item where
  key : List Char
  before : Gap
  value : List Char
  after : Gap

def Item.chars (i : Item) : List Char :=
  i.key ++ (i.before.chars ++ (i.value ++ i.after.chars))

/-- An item of a list as it is written without blanks. -/
def Item.tight (v : Value) : Item :=
  ⟨[], .empty, v.compact, .empty⟩

theorem Item.chars_tight (v : Value) : (tight v).chars = v.compact := by
  simp [tight, chars, Gap.empty]

/-- A value of any shape. -/
inductive ValueText : List Char → Prop
  | null : ValueText ['n', 'u', 'l', 'l']
  | word (b : Bool) : ValueText (Value.word b)
  | number {s : List Char} : NumberText s → ValueText s
  | string {s : List Char} : QuotedText s → ValueText ('"' :: (s ++ ['"']))
  | empty (b : Bracket) (gap : Gap) : ValueText (b.opening :: (gap.chars ++ [b.closing]))
  | items (b : Bracket) (i : Item) (is : List Item) : (∀ j ∈ i :: is, KeyText b j.key) →
      (∀ j ∈ i :: is, ValueText j.value) →
      ValueText (b.opening :: ([','].intercalate ((i :: is).map Item.chars) ++ [b.closing]))

theorem skipQuoted_escaped {s rest : List Char} (h : skipEscaped s = .ok rest) :
    skipQuoted ('\\' :: s) = skipQuoted rest := by
  rw [skipQuoted]
  split
  · rename_i e he
    rw [h] at he
    cases he
  · rename_i t he
    rw [h] at he
    cases he
    rfl

theorem skipEscaped_short {d : Char} (h : (shortEscape? d).isSome = true) (s : List Char) :
    skipEscaped (d :: s) = .ok s := by
  have hu : d ≠ 'u' := by
    intro he
    rw [he] at h
    cases h
  rw [skipEscaped]
  · exact if_pos h
  · intro he
    exact absurd he hu

/-- What stands between quotes is passed over with the closing one. -/
theorem QuotedText.skipQuoted_append {s : List Char} (h : QuotedText s) (rest : List Char) :
    skipQuoted (s ++ '"' :: rest) = .ok rest := by
  induction h with
  | nil => rw [List.nil_append, skipQuoted]
  | plain hlow hquote hslash _ ih =>
    rw [List.cons_append, skipQuoted, if_neg (Nat.not_lt.mpr hlow), ih]
    · exact hquote
    · exact hslash
  | short hd _ ih =>
    rw [List.cons_append, List.cons_append, skipQuoted_escaped (skipEscaped_short hd _), ih]
  | @code digits s n hdigits _ ih =>
    have hcode : skipEscaped ('u' :: (digits ++ (s ++ '"' :: rest))) =
        .ok (s ++ '"' :: rest) := by
      rw [skipEscaped, hdigits.hexUnit_append]
      rfl
    rw [List.cons_append, List.cons_append, List.append_assoc, skipQuoted_escaped hcode, ih]

theorem skipValue_eq (stack : List Bracket) (s : List Char) :
    skipValue stack s =
      match dropBlanks s with
      | [] => .error .truncated
      | c :: rest =>
        if c = '[' then skipOpened .list stack rest
        else if c = '{' then skipOpened .object stack rest
        else skipScalar c rest >>= skipClosed stack := by
  rw [skipValue]
  split
  · rename_i hd
    rw [hd]
  · rename_i c rest hd
    simp only [hd]
    split
    · rfl
    split
    · rfl
    · split <;> rename_i hr <;> rw [hr] <;> rfl

theorem skipOpened_eq (b : Bracket) (stack : List Bracket) (s : List Char) :
    skipOpened b stack s =
      match dropBlanks s with
      | [] => .error .truncated
      | c :: rest =>
        if c = b.closing then skipClosed stack rest
        else skipKey b s >>= skipValue (b :: stack) := by
  rw [skipOpened]
  split
  · rename_i hd
    rw [hd]
  · rename_i c rest hd
    simp only [hd]
    split
    · rfl
    · split <;> rename_i hr <;> rw [hr] <;> rfl

theorem skipClosed_eq (b : Bracket) (stack : List Bracket) (s : List Char) :
    skipClosed (b :: stack) s =
      match dropBlanks s with
      | [] => .error .truncated
      | c :: rest =>
        if c = b.closing then skipClosed stack rest
        else if c = ',' then skipKey b rest >>= skipValue (b :: stack)
        else .error .malformed := by
  rw [skipClosed]
  split
  · rename_i hd
    rw [hd]
  · rename_i c rest hd
    simp only [hd]
    split
    · rfl
    split
    · split <;> rename_i hr <;> rw [hr] <;> rfl
    · rfl

theorem KeyText.skipKey_append {b : Bracket} {key : List Char} (h : KeyText b key)
    (s : List Char) : skipKey b (key ++ s) = .ok s := by
  cases h with
  | list => rfl
  | @object name lead gap hname =>
    have hquoted := hname.skipQuoted_append (gap.chars ++ ':' :: s)
    simp [skipKey, lead.dropBlanks_append, dropBlanks_cons, isBlank, expect, hquoted,
      gap.dropBlanks_append, bind, Except.bind]

/-- No value starts with a blank or a closing bracket. -/
theorem ValueText.opens {s : List Char} (h : ValueText s) :
    ∃ c tail, s = c :: tail ∧ isBlank c = false ∧ c ≠ ']' := by
  cases h with
  | null => exact ⟨'n', _, rfl, rfl, by decide⟩
  | word b => cases b <;> exact ⟨_, _, rfl, rfl, by decide⟩
  | number hn =>
    obtain ⟨c, tail, rfl, rfl | hc⟩ := hn.front
    · exact ⟨'-', tail, rfl, rfl, by decide⟩
    · exact ⟨c, tail, rfl, digit_opens hc⟩
  | string _ => exact ⟨'"', _, rfl, rfl, by decide⟩
  | empty b _ => cases b <;> exact ⟨_, _, rfl, rfl, by decide⟩
  | items b => cases b <;> exact ⟨_, _, rfl, rfl, by decide⟩

theorem KeyText.eq_nil {key : List Char} (h : KeyText .list key) : key = [] := by
  cases h
  rfl

theorem KeyText.opens {key : List Char} (h : KeyText .object key) : Reader.Opens '}' key := by
  cases h with
  | object lead gap _ =>
    rw [Reader.Opens, lead.dropBlanks_append]
    exact ⟨'"', _, dropBlanks_cons rfl, by decide⟩

theorem Item.opens {b : Bracket} {i : Item} (hk : KeyText b i.key) (hv : ValueText i.value) :
    Reader.Opens b.closing i.chars := by
  cases b with
  | list =>
    obtain ⟨c, tail, hc, hblank, hclosing⟩ := hv.opens
    refine ⟨c, tail ++ i.after.chars, ?_, hclosing⟩
    rw [Item.chars, hk.eq_nil, List.nil_append, i.before.dropBlanks_append, hc]
    exact dropBlanks_cons hblank
  | object => exact hk.opens.append _

/-- The text is passed over as a value, inside whatever brackets. -/
def PassedOver (s : List Char) : Prop :=
  ∀ stack rest, Stops rest → skipValue stack (s ++ rest) = skipClosed stack rest

variable {b : Bracket} {stack : List Bracket}

theorem skipValue_scalar {c : Char} {s rest : List Char} (hblank : isBlank c = false)
    (hlist : c ≠ '[') (hobject : c ≠ '{') (h : skipScalar c s = .ok rest) :
    skipValue stack (c :: s) = skipClosed stack rest := by
  rw [skipValue_eq, dropBlanks_cons hblank]
  simp only [if_neg hlist, if_neg hobject, h]
  rfl

theorem skipValue_bracket (b : Bracket) (s : List Char) :
    skipValue stack (b.opening :: s) = skipOpened b stack s := by
  cases b <;> rw [skipValue_eq, dropBlanks_cons rfl] <;> rfl

theorem isBlank_closing (b : Bracket) : isBlank b.closing = false := by
  cases b <;> rfl

theorem stops_closing (b : Bracket) (rest : List Char) : Stops (b.closing :: rest) := by
  cases b <;> exact stops_cons (by decide)

/-- An item is passed over up to the blanks behind it. -/
theorem Item.skip_append {i : Item} (hk : KeyText b i.key) (hv : PassedOver i.value)
    (stack : List Bracket) {s : List Char} (hs : Stops s) :
    (skipKey b (i.chars ++ s) >>= skipValue (b :: stack)) =
      skipClosed (b :: stack) (i.after.chars ++ s) := by
  have hkey := hk.skipKey_append (i.before.chars ++ (i.value ++ (i.after.chars ++ s)))
  have hvalue := hv (b :: stack) (i.after.chars ++ s) (i.after.stops_append hs)
  rw [Item.chars, List.append_assoc, List.append_assoc, List.append_assoc, hkey]
  change skipValue (b :: stack) (i.before.chars ++ (i.value ++ (i.after.chars ++ s))) = _
  rw [skipValue_eq, i.before.dropBlanks_append, ← skipValue_eq, hvalue]

/-- Items are passed over in turn, up to the bracket that closes them. -/
theorem skip_items {i : Item} {is : List Item} (hk : ∀ j ∈ i :: is, KeyText b j.key)
    (hv : ∀ j ∈ i :: is, PassedOver j.value) (stack : List Bracket) (rest : List Char) :
    (skipKey b ([','].intercalate ((i :: is).map Item.chars) ++ b.closing :: rest) >>=
      skipValue (b :: stack)) = skipClosed stack rest := by
  induction is generalizing i with
  | nil =>
    have hitem := Item.skip_append (hk i List.mem_cons_self) (hv i List.mem_cons_self) stack
      (stops_closing b rest)
    rw [List.map_singleton, List.intercalate_singleton, hitem, skipClosed_eq,
      i.after.dropBlanks_append, dropBlanks_cons (isBlank_closing b)]
    exact if_pos rfl
  | cons next is ih =>
    have hrest := ih (fun j hj => hk j (List.mem_cons_of_mem _ hj))
      fun j hj => hv j (List.mem_cons_of_mem _ hj)
    have hcomma : ',' ≠ b.closing := by cases b <;> decide
    rw [List.map_cons, List.map_cons, List.intercalate_cons_cons, ← List.map_cons,
      List.append_assoc, List.append_assoc, List.singleton_append,
      Item.skip_append (hk i List.mem_cons_self) (hv i List.mem_cons_self) stack
        (stops_cons (.inl rfl)), skipClosed_eq, i.after.dropBlanks_append, dropBlanks_cons rfl]
    simp only [if_neg hcomma, if_true, hrest]

theorem NumberText.passedOver {s : List Char} (h : NumberText s) : PassedOver s := by
  intro stack rest hs
  obtain ⟨l, hread⟩ := Literal.read_append h hs
  obtain ⟨c, tail, rfl, hc⟩ := h.front
  have hne : ∀ d : Char, d ≠ '-' → d.isDigit = false → c ≠ d := by
    rintro d hminus hdigit rfl
    rcases hc with hc | hc
    · exact hminus hc
    · rw [hdigit] at hc
      cases hc
  have hblank : isBlank c = false := by
    rcases hc with rfl | hc
    · rfl
    · exact (digit_opens hc).1
  have hscalar : skipScalar c (tail ++ rest) = .ok rest := by
    rw [List.cons_append] at hread
    rw [skipScalar, if_neg (hne '"' (by decide) rfl), if_pos hc, skipNumber, hread]
  exact skipValue_scalar hblank (hne '[' (by decide) rfl) (hne '{' (by decide) rfl) hscalar

theorem passedOver_items {i : Item} {is : List Item} (hk : ∀ j ∈ i :: is, KeyText b j.key)
    (hv : ∀ j ∈ i :: is, ValueText j.value) (hpassed : ∀ j ∈ i :: is, PassedOver j.value) :
    PassedOver (b.opening :: ([','].intercalate ((i :: is).map Item.chars) ++ [b.closing])) := by
  intro stack rest _
  have hopens := (Item.opens (hk i List.mem_cons_self) (hv i List.mem_cons_self)).intercalate
    (is.map Item.chars)
  obtain ⟨c, tail, hdrop, hc⟩ := hopens.append (b.closing :: rest)
  have hitems := skip_items hk hpassed stack rest
  rw [List.map_cons] at hitems ⊢
  rw [List.cons_append, List.append_assoc, List.singleton_append, skipValue_bracket,
    skipOpened_eq, hdrop]
  simp only [if_neg hc, hitems]

/-- A value is passed over whatever follows, as long as no number goes on there. -/
theorem ValueText.passedOver {s : List Char} (h : ValueText s) : PassedOver s := by
  induction h with
  | null =>
    intro stack rest _
    exact skipValue_scalar rfl (by decide) (by decide) rfl
  | word b =>
    intro stack rest _
    cases b <;> exact skipValue_scalar rfl (by decide) (by decide) rfl
  | number hn => exact hn.passedOver
  | @string s hq =>
    intro stack rest _
    have hscalar : skipScalar '"' (s ++ '"' :: rest) = .ok rest := hq.skipQuoted_append rest
    rw [List.cons_append, List.append_assoc]
    exact skipValue_scalar rfl (by decide) (by decide) hscalar
  | empty b gap =>
    intro stack rest _
    rw [List.cons_append, List.append_assoc, skipValue_bracket, skipOpened_eq,
      gap.dropBlanks_append, List.singleton_append, dropBlanks_cons (isBlank_closing b)]
    exact if_pos rfl
  | items b i is hk hv ih => exact passedOver_items hk hv ih

/-- A value is passed over with the blanks before it. -/
theorem ValueText.skip_append {s : List Char} (h : ValueText s) (w : Gap) {rest : List Char}
    (hs : Stops rest) : skip (w.chars ++ (s ++ rest)) = .ok rest := by
  rw [skip, skipValue_eq, w.dropBlanks_append, ← skipValue_eq, h.passedOver [] rest hs, skipClosed]

end Templating.Json
