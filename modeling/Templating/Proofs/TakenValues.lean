import Templating.Json.Printer
import Templating.Json.Record
import Templating.Proofs.ReadMembers

namespace Templating.Json

namespace Reader

/-- The text of a value, which the reader takes for it. -/
structure Takes (r : Reader α) (chars : List Char) (a : α) : Prop where
  opens : ∃ c tail, chars = c :: tail ∧ isBlank c = false ∧ c ≠ ']'
  run : ∀ rest, Stops rest → r.run (chars ++ rest) = .ok (a, rest)

variable {r : Reader α}

theorem Takes.dropBlanks_eq {chars : List Char} {a : α} (h : r.Takes chars a) (s : List Char) :
    dropBlanks (chars ++ s) = chars ++ s := by
  obtain ⟨c, tail, rfl, hc, -⟩ := h.opens
  exact dropBlanks_cons hc

theorem Takes.map {chars : List Char} {a : α} (h : r.Takes chars a) (f : α → β) :
    (r.map f).Takes chars (f a) := by
  refine ⟨h.opens, ?_⟩
  intro rest hs
  simp only [Reader.map, h.run rest hs, Except.map]

theorem takes_string (s : String) : string.Takes (quote s) s := by
  refine ⟨⟨'"', _, rfl, rfl, by decide⟩, ?_⟩
  intro rest _
  have hquote : quote s ++ rest = '"' :: (s.toList.flatMap escape ++ '"' :: rest) := by
    simp [quote]
  rw [hquote]
  simp [string, ofFirst, dropBlanks_cons, isBlank, unquote_quote, bind, Except.bind, pure,
    Except.pure]

theorem takes_word (w : UInt32) : word.Takes (Nat.toDigits 10 w.toNat) w := by
  obtain ⟨c, cs, hcs, hc⟩ := Literal.exists_first_digit w.toNat
  obtain ⟨hblank, hclosing⟩ := digit_opens hc
  refine ⟨⟨c, cs, hcs, hblank, hclosing⟩, ?_⟩
  intro rest hs
  have hread := readNumber_digits (Nat.lt_trans w.toNat_lt (by decide)) hs
  rw [hcs, List.cons_append] at hread
  rw [hcs, List.cons_append]
  simp only [word, ofFirst, dropBlanks_cons hblank, hc, hread, bind, Except.bind]
  simp [UInt32.ofNat_toNat, w.toNat_lt, UInt32.size]

theorem takes_none (r : Reader α) : r.optional.Takes ['n', 'u', 'l', 'l'] none := by
  refine ⟨⟨'n', _, rfl, rfl, by decide⟩, ?_⟩
  intro rest _
  rfl

theorem Takes.some {chars : List Char} {a : α} (h : r.Takes chars a)
    (hn : chars.head? ≠ some 'n') : r.optional.Takes chars (some a) := by
  refine ⟨h.opens, ?_⟩
  intro rest hs
  have hrun := h.run rest hs
  have hdrop := h.dropBlanks_eq rest
  obtain ⟨c, tail, rfl, -, -⟩ := h.opens
  rw [List.head?_cons] at hn
  have hc : c ≠ 'n' := fun he => hn (he ▸ rfl)
  simp only [optional, hdrop]
  split
  · rename_i hcons
    exact absurd (List.cons.inj hcons).1 hc
  · rw [hrun]
    rfl

/-- The items of a list are taken in turn. -/
theorem items_intercalate {texts : List (List Char)} {as : List α}
    (h : List.Forall₂ r.Takes texts as) {text : List Char} {a : α} (ha : r.Takes text a)
    (before : List α) (rest : List Char) :
    r.items before ([','].intercalate (text :: texts) ++ ']' :: rest) =
      .ok (before.reverse ++ a :: as, rest) := by
  have hsettles := h.imp fun _ _ ht => Yields.settles ht.run
  have hfirst : r.Settles text a := Yields.settles ha.run
  rw [items_eq_itemsUntil]
  exact itemsUntil_intercalate hsettles hfirst (.inl rfl) (List.forall_mem_nil _) before rest

theorem list_run {c : Char} {s : List Char} (hblank : isBlank c = false) (hclosing : c ≠ ']') :
    r.list.run ('[' :: c :: s) = r.items [] (c :: s) := by
  have hopening : isBlank '[' = false := rfl
  simp only [list, ofFirst, dropBlanks_cons hopening, dropBlanks_cons hblank, if_true]
  split
  · rename_i hnil
    cases hnil
  · rename_i hcons
    exact absurd (List.cons.inj hcons).1 hclosing
  · rfl

theorem takes_list {texts : List (List Char)} {as : List α} (h : List.Forall₂ r.Takes texts as) :
    r.list.Takes ('[' :: ([','].intercalate texts ++ [']'])) as := by
  refine ⟨⟨'[', _, rfl, rfl, by decide⟩, ?_⟩
  intro rest _
  rw [List.cons_append, List.append_assoc, List.singleton_append]
  cases h with
  | nil => rfl
  | @cons text a texts as ha h =>
    have hitems := items_intercalate h ha [] rest
    obtain ⟨c, tail, hopens, hblank, hclosing⟩ := ha.opens
    have hfront : ∃ s, [','].intercalate (text :: texts) ++ ']' :: rest = c :: s := by
      cases texts <;> simp [hopens]
    obtain ⟨s, hs⟩ := hfront
    rw [hs] at hitems ⊢
    rw [list_run hblank hclosing, hitems]
    rfl

/-- The draft after the members of an object, each for a field that was not read before. -/
inductive Fills (fields : List (RecordField Draft)) :
    Draft → List (String × List Char) → Draft → Prop
  | nil : Fills fields d [] d
  | cons {field : RecordField Draft} {put : Draft → Draft} :
      fields.find? (·.key == key) = some field → field.isRead draft = false →
      field.value.Takes text put → Fills fields (put draft) ms d →
      Fills fields draft ((key, text) :: ms) d

variable {fields : List (RecordField Draft)} {draft d : Draft}

/-- A field puts the value that its own reader takes into the draft. -/
theorem Fills.next {key : String} {text : List Char} {ms : List (String × List Char)}
    {isRead : Draft → Bool} {r : Reader α} {put : α → Draft → Draft} {a : α}
    (hfind : fields.find? (·.key == key) = some ⟨key, isRead, r.map put⟩)
    (hopen : isRead draft = false) (ht : r.Takes text a) (h : Fills fields (put a draft) ms d) :
    Fills fields draft ((key, text) :: ms) d :=
  .cons hfind hopen (ht.map put) h

/-- The members of an object as they are written, each with the text of its value. -/
def tightMembers (ms : List (String × List Char)) : List Member :=
  ms.map fun (key, text) => .tight key text

theorem Fills.gathers {ms : List (String × List Char)} (h : Fills fields draft ms d) :
    Gathers fields draft (tightMembers ms) d := by
  induction h with
  | nil => exact .nil
  | cons hfind hopen ht _ ih => exact .cons (.field hfind hopen ht.run) ih

/-- A record is read back from an object with the text of each member. -/
theorem takes_record {empty : Draft} {finish : Draft → Option α} {ms : List (String × List Char)}
    {a : α} (h : Fills fields empty ms d) (hf : finish d = some a) :
    (record fields empty finish).Takes
      ('{' :: ([','].intercalate ((tightMembers ms).map Member.chars) ++ ['}'])) a := by
  refine ⟨⟨'{', _, rfl, rfl, by decide⟩, ?_⟩
  intro rest _
  rw [List.cons_append, List.append_assoc, List.singleton_append]
  exact record_run h.gathers hf .empty rest

/-- Blanks after the value do not matter. -/
theorem Takes.read_eq {chars : List Char} {a : α} (h : r.Takes chars a) {blanks : List Char}
    (hb : ∀ c ∈ blanks, isBlank c = true) : r.read (String.ofList (chars ++ blanks)) = .ok a := by
  have hs : Stops blanks := List.append_nil blanks ▸ stops_append hb stops_nil
  have hdrop : dropBlanks blanks = [] := by
    rw [dropBlanks, List.dropWhile_eq_nil_iff]
    exact hb
  rw [Reader.read, String.toList_ofList, h.run blanks hs]
  exact if_pos hdrop

end Reader

namespace Value

theorem takes_string (s : String) : Reader.string.Takes (string s).compact s := by
  rw [compact]
  exact Reader.takes_string s

theorem takes_word (w : UInt32) : Reader.word.Takes (number w.toNat).compact w := by
  rw [compact]
  exact Reader.takes_word w

theorem takes_null (r : Reader α) : r.optional.Takes null.compact none := by
  rw [compact]
  exact Reader.takes_none r

theorem takes_some_string (s : String) :
    Reader.string.optional.Takes (string s).compact (some s) := by
  refine (takes_string s).some ?_
  rw [compact, quote, List.head?_cons]
  decide

theorem takes_some_word (w : UInt32) :
    Reader.word.optional.Takes (number w.toNat).compact (some w) := by
  refine (takes_word w).some ?_
  rw [compact]
  intro h
  have hdigit := Literal.isDigit_of_mem_digits (n := w.toNat) 'n' (List.mem_of_mem_head? h)
  exact absurd hdigit (by decide)

theorem compactItems_eq (vs : List Value) : compactItems vs = vs.map compact := by
  induction vs with
  | nil => rfl
  | cons v vs ih => rw [compactItems, ih, List.map_cons]

theorem compactMembers_eq (ms : List (String × Value)) :
    compactMembers ms =
      (Reader.tightMembers (ms.map fun (key, v) => (key, v.compact))).map Member.chars := by
  induction ms with
  | nil => rfl
  | cons m ms ih =>
    rw [compactMembers, ih, ← Member.chars_tight]
    rfl

/-- The members of an object are written as those of the text without blanks. -/
theorem compact_object (ms : List (String × Value)) :
    (object ms).compact = '{' :: ([','].intercalate
      ((Reader.tightMembers (ms.map fun (key, v) => (key, v.compact))).map Member.chars) ++
        ['}']) := by
  rw [compact, compactMembers_eq]

theorem takes_array {r : Reader α} {vs : List Value} {as : List α}
    (h : List.Forall₂ (fun v a => r.Takes v.compact a) vs as) :
    r.list.Takes (array vs).compact as := by
  rw [compact, compactItems_eq]
  exact Reader.takes_list (List.forall₂_map_left_iff.mpr h)

theorem takes_map {r : Reader α} {f : α → Value} (h : ∀ a, r.Takes (f a).compact a)
    (as : List α) : r.list.Takes (array (as.map f)).compact as := by
  apply takes_array
  rw [List.forall₂_map_left_iff, List.forall₂_same]
  exact fun a _ => h a

theorem takes_object {fields : List (RecordField Draft)} {empty d : Draft}
    {finish : Draft → Option α} {ms : List (String × Value)} {a : α}
    (h : Reader.Fills fields empty (ms.map fun (key, v) => (key, v.compact)) d)
    (hf : finish d = some a) :
    (Reader.record fields empty finish).Takes (object ms).compact a := by
  rw [compact_object]
  exact Reader.takes_record h hf

end Value

end Templating.Json
