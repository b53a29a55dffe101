import Templating.Proofs.TakenValues

namespace Templating.Json

theorem isBlank_of_mem_newLine (level : Nat) : ∀ c ∈ Value.newLine level, isBlank c = true := by
  intro c hc
  rcases List.mem_cons.mp hc with rfl | hc
  · rfl
  · rw [List.eq_of_mem_replicate hc]
    rfl

namespace Value

/-- Brackets nest at most so deep in the value. -/
def NestsWithin : Nat → Value → Prop
  | depth + 1, .array items => ∀ v ∈ items, v.NestsWithin depth
  | depth + 1, .object members => ∀ m ∈ members, m.2.NestsWithin depth
  | 0, .array _ => False
  | 0, .object _ => False
  | _, _ => True

@[simp] theorem nestsWithin_null (depth : Nat) : null.NestsWithin depth := by
  cases depth <;> trivial

@[simp] theorem nestsWithin_number (n depth : Nat) : (number n).NestsWithin depth := by
  cases depth <;> trivial

@[simp] theorem nestsWithin_string (s : String) (depth : Nat) : (string s).NestsWithin depth := by
  cases depth <;> trivial

end Value

namespace Reader

variable {r : Reader α} {closing : Char}

/-- A key and its value are read from their text, with a blank after the colon. -/
theorem yields_entry {text : List Char} {a : α} (h : r.Yields (' ' :: text) a) (key : String)
    {blanks : List Char} (hb : ∀ c ∈ blanks, isBlank c = true) :
    r.entry.Yields (blanks ++ quote key ++ [':', ' '] ++ text) (key, a) := by
  intro rest hs
  have hkey := unquote_quote key.toList (':' :: ' ' :: (text ++ rest)) []
  have hvalue := h rest hs
  have hfront : dropBlanks (blanks ++ quote key ++ [':', ' '] ++ text ++ rest) =
      '"' :: (key.toList.flatMap escape ++ '"' :: ':' :: ' ' :: (text ++ rest)) := by
    simp only [List.append_assoc, dropBlanks_append hb]
    simp [quote, dropBlanks_cons, isBlank]
  simp only [entry, ofFirst, keyed, hfront, hkey, if_true, bind, Except.bind,
    dropBlanks_cons (c := ':') rfl, expect]
  simp only [List.cons_append] at hvalue
  simp [hvalue, pure, Except.pure]

theorem choose_run {f : Char → Reader α} {c : Char} (hc : isBlank c = false) (s : List Char) :
    (choose f).run (c :: s) = (f c).run (c :: s) := by
  simp only [choose, dropBlanks_cons hc]

theorem choose_run_append {f : Char → Reader α} {blanks : List Char}
    (hb : ∀ c ∈ blanks, isBlank c = true) (s : List Char) :
    (choose f).run (blanks ++ s) = (choose f).run s := by
  simp only [choose, dropBlanks_append hb]

theorem yields_natural (n : Nat) : natural.Yields (Nat.toDigits 10 n) n := by
  intro rest hs
  have hread := Literal.read_digits (n := n) hs
  obtain ⟨c, cs, hcs, hc⟩ := Literal.exists_first_digit n
  have hfront : dropBlanks (Nat.toDigits 10 n ++ rest) = Nat.toDigits 10 n ++ rest := by
    rw [hcs]
    exact dropBlanks_cons (digit_opens hc).1
  rw [hcs, List.cons_append] at hread hfront ⊢
  simp only [natural, ofFirst, hfront, hread, bind, Except.bind]
  rw [← hcs, Literal.natural?_digits]

end Reader

namespace Value

open Reader (Yields Opens)

theorem reader_run_append (depth : Nat) {blanks : List Char}
    (hb : ∀ c ∈ blanks, isBlank c = true) (s : List Char) :
    (reader depth).run (blanks ++ s) = (reader depth).run s := by
  cases depth <;> exact Reader.choose_run_append hb s

/-- At every depth a value without brackets is read like one. -/
theorem reader_run_scalar (depth : Nat) {c : Char} (hblank : isBlank c = false) (hlist : c ≠ '[')
    (hobject : c ≠ '{') (s : List Char) :
    (reader depth).run (c :: s) = scalarReader.run (c :: s) := by
  cases depth with
  | zero => rfl
  | succ depth => rw [reader, Reader.choose_run hblank, if_neg hlist, if_neg hobject]

theorem yields_word {c : Char} {tail : List Char} (hc : wordTail? c = some tail) (depth : Nat) :
    (reader depth).Yields (c :: tail) (ofInitial c) := by
  have hinitial : c = 'n' ∨ c = 't' ∨ c = 'f' := by
    unfold wordTail? at hc
    split at hc <;> simp_all
  intro rest _
  rcases hinitial with rfl | rfl | rfl <;> cases hc <;> cases depth <;> rfl

theorem yields_string (s : String) (depth : Nat) :
    (reader depth).Yields (quote s) (.string s) := by
  intro rest hs
  have hrun := ((Reader.takes_string s).map Value.string).run rest hs
  rw [quote, List.cons_append] at hrun ⊢
  rw [reader_run_scalar depth rfl (by decide) (by decide), scalarReader, Reader.choose_run rfl,
    if_pos rfl, hrun]

theorem yields_number (n depth : Nat) :
    (reader depth).Yields (Nat.toDigits 10 n) (.number n) := by
  intro rest hs
  have hrun := Reader.yields_natural n rest hs
  obtain ⟨c, cs, hcs, hc⟩ := Literal.exists_first_digit n
  rw [hcs, List.cons_append] at hrun ⊢
  rw [reader_run_scalar depth (digit_opens hc).1 (ne_of_isDigit hc rfl) (ne_of_isDigit hc rfl),
    scalarReader, Reader.choose_run (digit_opens hc).1, if_neg (ne_of_isDigit hc rfl),
    if_pos (.inr hc)]
  simp only [Reader.map, hrun, Except.map]

theorem spreadItems_eq (level : Nat) (vs : List Value) :
    spreadItems level vs = vs.map fun v => newLine level ++ v.spread level := by
  induction vs with
  | nil => rfl
  | cons v vs ih => rw [spreadItems, ih, List.map_cons]

theorem spreadMembers_eq (level : Nat) (ms : List (String × Value)) :
    spreadMembers level ms =
      ms.map fun m => newLine level ++ quote m.1 ++ [':', ' '] ++ m.2.spread level := by
  induction ms with
  | nil => rfl
  | cons m ms ih => rw [spreadMembers, ih, List.map_cons]

/-- No value starts with a blank or a closing bracket. -/
theorem spread_opens (v : Value) (level : Nat) :
    ∃ c tail, v.spread level = c :: tail ∧ isBlank c = false ∧ c ≠ ']' := by
  cases v with
  | null => exact ⟨'n', _, by rw [spread], rfl, by decide⟩
  | bool b =>
    cases b with
    | false => exact ⟨'f', _, by rw [spread]; rfl, rfl, by decide⟩
    | true => exact ⟨'t', _, by rw [spread]; rfl, rfl, by decide⟩
  | number n =>
    obtain ⟨c, cs, hcs, hc⟩ := Literal.exists_first_digit n
    exact ⟨c, cs, by rw [spread, hcs], digit_opens hc⟩
  | string s => exact ⟨'"', _, by rw [spread]; rfl, rfl, by decide⟩
  | array items => cases items <;> exact ⟨'[', _, by rw [spread], rfl, by decide⟩
  | object members => cases members <;> exact ⟨'{', _, by rw [spread], rfl, by decide⟩

/-- A value without brackets is read back at every depth. -/
theorem yields_scalar (depth : Nat) {v : Value} (h : v.NestsWithin 0) (level : Nat) :
    (reader depth).Yields (v.spread level) v := by
  cases v with
  | null =>
    rw [spread]
    exact yields_word (c := 'n') rfl depth
  | bool b =>
    rw [spread]
    cases b with
    | false => exact yields_word (c := 'f') rfl depth
    | true => exact yields_word (c := 't') rfl depth
  | number n =>
    rw [spread]
    exact yields_number n depth
  | string s =>
    rw [spread]
    exact yields_string s depth
  | array items => cases h
  | object members => cases h

theorem yields_item {depth : Nat} {v : Value} {chars blanks : List Char}
    (h : (reader depth).Yields chars v) (hb : ∀ c ∈ blanks, isBlank c = true) :
    (reader depth).Yields (blanks ++ chars) v := by
  intro rest hs
  rw [List.append_assoc, reader_run_append depth hb, h rest hs]

theorem reader_run_list (depth : Nat) (s : List Char) :
    (reader (depth + 1)).run ('[' :: s) =
      (((reader depth).bracketed ']').run ('[' :: s)).map fun (vs, rest) => (array vs, rest) := by
  rw [reader, Reader.choose_run rfl, if_pos rfl]
  rfl

theorem reader_run_object (depth : Nat) (s : List Char) :
    (reader (depth + 1)).run ('{' :: s) =
      (((reader depth).entry.bracketed '}').run ('{' :: s)).map fun (ms, rest) =>
        (object ms, rest) := by
  rw [reader, Reader.choose_run rfl, if_neg (by decide), if_pos rfl]
  rfl

theorem opens_spread (v : Value) (level inner : Nat) :
    Opens ']' (newLine inner ++ v.spread level) := by
  obtain ⟨c, tail, hc, hblank, hclosing⟩ := spread_opens v level
  refine ⟨c, tail, ?_, hclosing⟩
  rw [dropBlanks_append (isBlank_of_mem_newLine _), hc, dropBlanks_cons hblank]

theorem opens_member (key : String) (chars : List Char) (inner : Nat) :
    Opens '}' (newLine inner ++ quote key ++ [':', ' '] ++ chars) := by
  rw [quote, List.append_assoc, List.append_assoc, List.cons_append, Opens,
    dropBlanks_append (isBlank_of_mem_newLine _), dropBlanks_cons rfl]
  exact ⟨'"', _, rfl, by decide⟩

/-- A list is read back if its items are. -/
theorem yields_array {depth level : Nat} {items : List Value}
    (h : ∀ v ∈ items, (reader depth).Yields (v.spread (level + 1)) v) :
    (reader (depth + 1)).Yields ((array items).spread level) (array items) := by
  intro rest _
  cases items with
  | nil =>
    rw [spread, List.cons_append, List.cons_append, List.nil_append, reader_run_list,
      Reader.bracketed_nil '[' rfl (.inl rfl)]
    rfl
  | cons v items =>
    have hitems : List.Forall₂ (reader depth).Yields
        ((v :: items).map fun v => newLine (level + 1) ++ v.spread (level + 1)) (v :: items) := by
      rw [List.forall₂_map_left_iff, List.forall₂_same]
      intro w hw
      exact yields_item (h w hw) (isBlank_of_mem_newLine _)
    have hrun := Reader.bracketed_cons '[' rfl (.inl rfl) hitems
      (opens_spread v (level + 1) (level + 1)) (isBlank_of_mem_newLine level) rest
    rw [spread, spreadItems_eq, List.cons_append, List.append_assoc, List.append_assoc,
      List.singleton_append, List.map_cons, reader_run_list, hrun]
    rfl

/-- An object is read back if the values of its members are. -/
theorem yields_object {depth level : Nat} {members : List (String × Value)}
    (h : ∀ m ∈ members, (reader depth).Yields (m.2.spread (level + 1)) m.2) :
    (reader (depth + 1)).Yields ((object members).spread level) (object members) := by
  intro rest _
  cases members with
  | nil =>
    rw [spread, List.cons_append, List.cons_append, List.nil_append, reader_run_object,
      Reader.bracketed_nil '{' rfl (.inr rfl)]
    rfl
  | cons m members =>
    have hmembers : List.Forall₂ (reader depth).entry.Yields
        ((m :: members).map fun m =>
          newLine (level + 1) ++ quote m.1 ++ [':', ' '] ++ m.2.spread (level + 1))
        (m :: members) := by
      rw [List.forall₂_map_left_iff, List.forall₂_same]
      intro n hn
      have hspace : ∀ c ∈ [' '], isBlank c = true := List.forall_mem_singleton.mpr rfl
      exact Reader.yields_entry (yields_item (h n hn) hspace) n.1 (isBlank_of_mem_newLine _)
    have hrun := Reader.bracketed_cons '{' rfl (.inr rfl) hmembers
      (opens_member m.1 (m.2.spread (level + 1)) (level + 1))
      (isBlank_of_mem_newLine level) rest
    rw [spread, spreadMembers_eq, List.cons_append, List.append_assoc, List.append_assoc,
      List.singleton_append, List.map_cons, reader_run_object, hrun]
    rfl

/-- A value that is spread over lines is read back, whatever follows. -/
theorem yields_spread (depth : Nat) (v : Value) (level : Nat) (h : v.NestsWithin depth) :
    (reader depth).Yields (v.spread level) v := by
  induction depth generalizing v level with
  | zero => exact yields_scalar 0 h level
  | succ depth ih =>
    cases v with
    | null => exact yields_scalar (depth + 1) (by trivial) level
    | bool b => exact yields_scalar (depth + 1) (by trivial) level
    | number n => exact yields_scalar (depth + 1) (by trivial) level
    | string s => exact yields_scalar (depth + 1) (by trivial) level
    | array items => exact yields_array fun v hv => ih v (level + 1) (h v hv)
    | object members => exact yields_object fun m hm => ih m.2 (level + 1) (h m hm)

/-- The text of a value over several lines is read back as the value. -/
theorem read_pretty {v : Value} (h : v.NestsWithin nestingLimit) : read v.pretty = .ok v := by
  have hrun := yields_spread nestingLimit v 0 h [] stops_nil
  rw [List.append_nil] at hrun
  rw [read, Reader.read, pretty, String.toList_ofList, hrun]
  rfl

end Value

end Templating.Json
