import Templating.Proofs.DecodedPlans
import Templating.Proofs.PrintableTexts

namespace Templating.CommandLine

/-- The digits in front, and what stands behind the character that ends them. -/
def frontDigits (chars : List Char) : List Char × List Char :=
  (chars.takeWhile Char.isDigit, (chars.dropWhile Char.isDigit).drop 1)

/-- The digits at the end, and what stands in front of the character before them. -/
def endDigits (chars : List Char) : List Char × List Char :=
  let (digits, front) := frontDigits chars.reverse
  (digits.reverse, front.reverse)

/-- The word that digits stand for. -/
def wordOf (digits : List Char) : UInt32 :=
  UInt32.ofNat (Nat.ofDigitChars 10 digits 0)

/-- A source, a line and a column, separated by colons. -/
def RowOrigin.ofText (chars : List Char) : RowOrigin :=
  let (column, front) := endDigits chars
  let (line, source) := endDigits front
  ⟨String.ofList source, wordOf line, wordOf column⟩

/-- A row is a line and a column, and behind an arrow the place in a source. -/
def Row.ofText (chars : List Char) : Row :=
  let (line, behind) := frontDigits chars
  let rest := behind.dropWhile Char.isDigit
  ⟨wordOf line, wordOf (behind.takeWhile Char.isDigit),
    if rest = [] then none else some (.ofText (rest.drop 4))⟩

/-- The rows that a text tells, one on each line. -/
def Row.allOfText (text : String) : List Row :=
  if text = "" then [] else (text.toList.splitOn '\n').map Row.ofText

/-- A row whose source does not break its line. -/
def Row.Unbroken (r : Row) : Prop :=
  ∀ o ∈ r.origin, '\n' ∉ o.source.toList

instance (r : Row) : Decidable r.Unbroken :=
  inferInstanceAs (Decidable (∀ o ∈ r.origin, _))

/-- The digits of a word. -/
def wordDigits (w : UInt32) : List Char :=
  Nat.toDigits 10 w.toNat

theorem isDigit_of_mem_wordDigits (w : UInt32) : ∀ c ∈ wordDigits w, c.isDigit = true :=
  Json.Literal.isDigit_of_mem_digits

theorem wordOf_wordDigits (w : UInt32) : wordOf (wordDigits w) = w := by
  rw [wordOf, wordDigits, Nat.ofDigitChars_ten_toDigits, UInt32.ofNat_toNat]

theorem frontDigits_append {digits : List Char} {c : Char} (hd : ∀ d ∈ digits, d.isDigit = true)
    (hc : c.isDigit = false) (rest : List Char) :
    frontDigits (digits ++ c :: rest) = (digits, rest) := by
  rw [frontDigits, List.takeWhile_append_of_pos hd, List.dropWhile_append_of_pos hd,
    List.takeWhile_cons_of_neg (by simp [hc]), List.dropWhile_cons_of_neg (by simp [hc]),
    List.append_nil]
  rfl

theorem endDigits_append {digits : List Char} {c : Char} (hd : ∀ d ∈ digits, d.isDigit = true)
    (hc : c.isDigit = false) (front : List Char) :
    endDigits (front ++ c :: digits) = (digits, front) := by
  have hback : ∀ d ∈ digits.reverse, d.isDigit = true := fun d hm => hd d (List.mem_reverse.mp hm)
  have hreverse : (front ++ c :: digits).reverse = digits.reverse ++ c :: front.reverse := by simp
  rw [endDigits, hreverse, frontDigits_append hback hc]
  simp

/-- Joined lines fall apart again where they were joined. -/
theorem splitOn_lines {ls : List String} (hne : ls ≠ []) (h : ∀ l ∈ ls, '\n' ∉ l.toList) :
    (lines ls).toList.splitOn '\n' = ls.map String.toList := by
  have hlines : ∀ l ∈ ls.map String.toList, '\n' ∉ l := by
    intro l hl
    obtain ⟨line, hline, rfl⟩ := List.mem_map.mp hl
    exact h line hline
  rw [lines, String.toList_intercalate]
  exact List.splitOn_intercalate '\n' hlines (by simpa using hne)

/-- The text of a place in a source. -/
def RowOrigin.chars (o : RowOrigin) : List Char :=
  o.source.toList ++ ':' :: wordDigits o.line ++ ':' :: wordDigits o.column

/-- The numbers are found from the end, so that the source may hold colons. -/
theorem RowOrigin.ofText_chars (o : RowOrigin) : ofText o.chars = o := by
  have hcolon : ':'.isDigit = false := rfl
  have hline := endDigits_append (isDigit_of_mem_wordDigits o.line) hcolon o.source.toList
  have hcolumn := endDigits_append (isDigit_of_mem_wordDigits o.column) hcolon
    (o.source.toList ++ ':' :: wordDigits o.line)
  simp only [ofText, chars, hcolumn, hline, wordOf_wordDigits, String.ofList_toList]

namespace Row

/-- What a row shows behind its column. -/
def behind (r : Row) : List Char :=
  match r.origin with
  | none => []
  | some o => [' ', '-', '>', ' '] ++ o.chars

theorem toList_text (r : Row) :
    r.text.toList = wordDigits r.line ++ ':' :: (wordDigits r.column ++ r.behind) := by
  cases ho : r.origin with
  | none => simp [text, ho, behind, wordDigits]
  | some o => simp [text, ho, behind, RowOrigin.chars, wordDigits]

/-- A row is told from its text, whatever stands in its source. -/
theorem ofText_text (r : Row) : ofText r.text.toList = r := by
  have hcolon : ':'.isDigit = false := rfl
  have hfront := frontDigits_append (isDigit_of_mem_wordDigits r.line) hcolon
    (wordDigits r.column ++ r.behind)
  have hdigits := isDigit_of_mem_wordDigits r.column
  obtain ⟨line, column, origin⟩ := r
  rw [ofText, toList_text, hfront]
  simp only [List.takeWhile_append_of_pos hdigits, List.dropWhile_append_of_pos hdigits, behind,
    wordOf_wordDigits]
  cases origin with
  | none => simp [wordOf_wordDigits]
  | some o => simp [RowOrigin.ofText_chars, wordOf_wordDigits]

theorem text_ne_empty (r : Row) : r.text ≠ "" := by
  intro h
  have hchars := r.toList_text
  rw [h] at hchars
  simp at hchars

theorem Unbroken.lineFeed_not_mem {r : Row} (h : r.Unbroken) : '\n' ∉ r.text.toList := by
  have hdigits : ∀ w, '\n' ∉ wordDigits w := fun w => (printable_digits w.toNat).lineFeed_not_mem
  rw [toList_text]
  cases ho : r.origin with
  | none => simp [behind, ho, hdigits]
  | some o => simp [behind, ho, hdigits, RowOrigin.chars, h o ho]

/-- A text of rows falls apart at its line feeds. -/
theorem splitOn_print {rows : List Row} (hne : rows ≠ []) (h : ∀ r ∈ rows, r.Unbroken) :
    (print rows .human).toList.splitOn '\n' = rows.map fun r => r.text.toList := by
  have htexts : ∀ l ∈ rows.map text, '\n' ∉ l.toList := by
    intro l hl
    obtain ⟨r, hr, rfl⟩ := List.mem_map.mp hl
    exact (h r hr).lineFeed_not_mem
  rw [print, splitOn_lines (by simpa using hne) htexts, List.map_map]
  rfl

theorem print_ne_empty {rows : List Row} (hne : rows ≠ []) (h : ∀ r ∈ rows, r.Unbroken) :
    print rows .human ≠ "" := by
  intro hempty
  have hsplit := splitOn_print hne h
  rw [hempty] at hsplit
  obtain ⟨r, rest, rfl⟩ := List.exists_cons_of_ne_nil hne
  have hfirst : [] = r.text.toList := (List.cons.inj hsplit).1
  exact r.text_ne_empty (String.toList_inj.mp hfirst.symm)

/-- Rows that keep to their lines are told from their text. -/
theorem allOfText_print {rows : List Row} (h : ∀ r ∈ rows, r.Unbroken) :
    allOfText (print rows .human) = rows := by
  by_cases hne : rows = []
  · subst hne
    rfl
  · rw [allOfText, if_neg (print_ne_empty hne h), splitOn_print hne h, List.map_map]
    exact List.map_id'' ofText_text rows

/-- The rows of decoded mappings are told from their text, unless a source breaks a line: two texts
are the same only if they tell the same rows in the same order. -/
theorem rows_of_text (m m' : SourceMap) (d d' : Mappings)
    (h : ∀ r ∈ ofMap m d, r.Unbroken) (h' : ∀ r ∈ ofMap m' d', r.Unbroken) :
    allOfText (print (ofMap m d) .human) = ofMap m d ∧
    (print (ofMap m d) .human = print (ofMap m' d') .human ↔ ofMap m d = ofMap m' d') := by
  have htold := allOfText_print h
  have htold' := allOfText_print h'
  refine ⟨htold, ?_, congrArg (print · .human)⟩
  intro heq
  rw [← htold, heq, htold']

/-- Sources that look like parts of a row, one that has no name, and one that is not listed. -/
def disguisedMap : SourceMap where
  file := ""
  version := 3
  sourceRoot := ""
  sources := ["a:0:0", "b -> c:1", "", "12"]
  sourcesContent := []
  mappings := ""

def disguisedMappings : Mappings :=
  .ofLists [[⟨0, some ⟨0, 1, 2⟩⟩, ⟨3, some ⟨1, 4, 5⟩⟩, ⟨6, some ⟨2, 7, 8⟩⟩], [],
    [⟨9, some ⟨3, 10, 11⟩⟩, ⟨12, some ⟨4, 0, 0⟩⟩, ⟨13, none⟩]]

/-- The same without the rows that name no source. -/
def fewerMappings : Mappings :=
  .ofLists [[⟨0, some ⟨0, 1, 2⟩⟩, ⟨3, some ⟨1, 4, 5⟩⟩, ⟨6, some ⟨2, 7, 8⟩⟩], [],
    [⟨9, some ⟨3, 10, 11⟩⟩]]

theorem rows_of_text_disguised :
    (∀ r ∈ ofMap disguisedMap disguisedMappings, r.Unbroken) ∧
    (∀ r ∈ ofMap disguisedMap fewerMappings, r.Unbroken) ∧
    print (ofMap disguisedMap disguisedMappings) .human =
      "0:0 -> a:0:0:1:2\n0:3 -> b -> c:1:4:5\n0:6 -> :7:8\n2:9 -> 12:10:11\n2:12 -> #4:0:0\n2:13" ∧
    allOfText (print (ofMap disguisedMap disguisedMappings) .human) =
      ofMap disguisedMap disguisedMappings ∧
    print (ofMap disguisedMap disguisedMappings) .human ≠
      print (ofMap disguisedMap fewerMappings) .human := by
  have hrows : ∀ r ∈ ofMap disguisedMap disguisedMappings, r.Unbroken := by decide
  have hfewer : ∀ r ∈ ofMap disguisedMap fewerMappings, r.Unbroken := by decide
  obtain ⟨htold, hsame⟩ := rows_of_text _ _ _ _ hrows hfewer
  exact ⟨hrows, hfewer, rfl, htold, hsame.not.mpr (by decide)⟩

/-- A line feed in a source makes two rows of one. -/
example : print [⟨0, 0, some ⟨"a:0:0\n1:1 -> b", 2, 3⟩⟩] .human =
    print [⟨0, 0, some ⟨"a", 0, 0⟩⟩, ⟨1, 1, some ⟨"b", 2, 3⟩⟩] .human := by
  rfl

end Row

end Templating.CommandLine
