import Mathlib.Data.List.Forall2
import Mathlib.Data.List.TakeWhile
import Templating.Json.Values
import Templating.Proofs.WrittenNumbers

namespace Templating.Json

theorem dropBlanks_cons {c : Char} {s : List Char} (h : isBlank c = false) :
    dropBlanks (c :: s) = c :: s :=
  List.dropWhile_cons_of_neg (by simp [h])

theorem stops_nil : Stops [] := by
  intro c hc
  cases hc

theorem stops_cons {c : Char} {s : List Char} (h : c = ',' ∨ c = ']' ∨ c = '}') :
    Stops (c :: s) := by
  intro d hd
  obtain rfl := Option.some.inj hd
  rcases h with rfl | rfl | rfl <;> decide

theorem digit_opens {c : Char} (h : c.isDigit = true) : isBlank c = false ∧ c ≠ ']' := by
  refine ⟨?_, ne_of_isDigit h rfl⟩
  have hne : ∀ d : Char, d.isDigit = false → c ≠ d := fun _ => ne_of_isDigit h
  simp [isBlank, hne ' ' rfl, hne '\n' rfl, hne '\t' rfl, hne '\r' rfl]

theorem stops_of_isBlank {c : Char} {s : List Char} (h : isBlank c = true) : Stops (c :: s) := by
  intro d hd
  obtain rfl := Option.some.inj hd
  simp only [isBlank, Bool.or_eq_true, beq_iff_eq] at h
  rcases h with ((rfl | rfl) | rfl) | rfl <;> decide

theorem dropBlanks_append {blanks : List Char} (hb : ∀ c ∈ blanks, isBlank c = true)
    (s : List Char) : dropBlanks (blanks ++ s) = dropBlanks s :=
  List.dropWhile_append_of_pos hb

theorem stops_append {blanks s : List Char} (hb : ∀ c ∈ blanks, isBlank c = true) (hs : Stops s) :
    Stops (blanks ++ s) := by
  cases blanks with
  | nil => exact hs
  | cons c cs => exact stops_of_isBlank (hb c List.mem_cons_self)

namespace Reader

variable {r : Reader α} {closing : Char}

/-- The reader takes the text for the value and leaves what follows. -/
def Yields (r : Reader α) (chars : List Char) (a : α) : Prop :=
  ∀ rest, Stops rest → r.run (chars ++ rest) = .ok (a, rest)

/-- The reader takes the text for the value and leaves what follows, perhaps behind blanks. -/
def Settles (r : Reader α) (chars : List Char) (a : α) : Prop :=
  ∀ rest, Stops rest →
    ∃ tail, r.run (chars ++ rest) = .ok (a, tail) ∧ dropBlanks tail = dropBlanks rest

theorem Yields.settles {chars : List Char} {a : α} (h : r.Yields chars a) : r.Settles chars a :=
  fun rest hs => ⟨rest, h rest hs, rfl⟩

theorem itemsUntil_eq (before : List α) (s : List Char) :
    r.itemsUntil closing before s =
      match r.run s with
      | .error e => .error e
      | .ok (a, rest) =>
        match dropBlanks rest with
        | [] => .error .truncated
        | c :: rest' =>
          if c = closing then .ok ((a :: before).reverse, rest')
          else if c = ',' then r.itemsUntil closing (a :: before) rest'
          else .error .malformed := by
  rw [itemsUntil]
  split
  · rename_i h
    rw [h]
  · rename_i h
    simp only [h]
    split
    · rename_i hb
      rw [hb]
    · rename_i hb
      simp only [hb]

/-- What follows an item decides how the items go on. -/
theorem itemsUntil_of_run {before : List α} {a : α} {s tail rest : List Char} {c : Char}
    (h : r.run s = .ok (a, tail)) (hc : dropBlanks tail = c :: rest) :
    r.itemsUntil closing before s = if c = closing then .ok ((a :: before).reverse, rest)
      else if c = ',' then r.itemsUntil closing (a :: before) rest else .error .malformed := by
  rw [itemsUntil_eq, h]
  simp only [hc]

/-- Items are taken in turn, and blanks may stand before the closing bracket. -/
theorem itemsUntil_intercalate {texts : List (List Char)} {as : List α}
    (h : List.Forall₂ r.Settles texts as) {text : List Char} {a : α} (ha : r.Settles text a)
    (hclosing : closing = ']' ∨ closing = '}') {blanks : List Char}
    (hb : ∀ c ∈ blanks, isBlank c = true) (before : List α) (rest : List Char) :
    r.itemsUntil closing before
      ([','].intercalate (text :: texts) ++ (blanks ++ closing :: rest)) =
      .ok (before.reverse ++ a :: as, rest) := by
  have hblank : isBlank closing = false := by rcases hclosing with rfl | rfl <;> rfl
  have hcomma : ',' ≠ closing := by rcases hclosing with rfl | rfl <;> decide
  induction h generalizing text a before with
  | nil =>
    obtain ⟨tail, hrun, htail⟩ := ha _ (stops_append hb (stops_cons (.inr hclosing)))
    have hdrop : dropBlanks tail = closing :: rest := by
      rw [htail, dropBlanks_append hb, dropBlanks_cons hblank]
    rw [List.intercalate_singleton, itemsUntil_of_run hrun hdrop, if_pos rfl, List.reverse_cons]
  | @cons next b texts as hnext _ ih =>
    obtain ⟨tail, hrun, htail⟩ := ha _ (stops_cons (.inl rfl))
    rw [List.intercalate_cons_cons, List.append_assoc, List.append_assoc, List.singleton_append,
      itemsUntil_of_run hrun (htail.trans (dropBlanks_cons rfl)), if_neg hcomma, if_pos rfl,
      ih hnext, List.reverse_cons, List.append_assoc, List.singleton_append]

/-- A text that starts, after blanks, with something else than the closing bracket. -/
def Opens (closing : Char) (chars : List Char) : Prop :=
  ∃ c tail, dropBlanks chars = c :: tail ∧ c ≠ closing

theorem Opens.append {chars : List Char} (h : Opens closing chars) (s : List Char) :
    Opens closing (chars ++ s) := by
  obtain ⟨c, tail, hdrop, hc⟩ := h
  refine ⟨c, tail ++ s, ?_, hc⟩
  rw [dropBlanks] at hdrop ⊢
  rw [List.dropWhile_append, hdrop]
  rfl

theorem Opens.intercalate {text : List Char} (h : Opens closing text) (texts : List (List Char)) :
    Opens closing ([','].intercalate (text :: texts)) := by
  cases texts with
  | nil =>
    rw [List.intercalate_singleton]
    exact h
  | cons next texts =>
    rw [List.intercalate_cons_cons, List.append_assoc]
    exact h.append _

theorem bracketed_nil (opening : Char) (ho : isBlank opening = false)
    (hclosing : closing = ']' ∨ closing = '}') (rest : List Char) :
    (r.bracketed closing).run (opening :: closing :: rest) = .ok ([], rest) := by
  have hblank : isBlank closing = false := by rcases hclosing with rfl | rfl <;> rfl
  simp [bracketed, ofFirst, dropBlanks_cons ho, dropBlanks_cons hblank]

/-- A bracket with items is read as the list of their values. -/
theorem bracketed_cons (opening : Char) (ho : isBlank opening = false)
    (hclosing : closing = ']' ∨ closing = '}') {text : List Char} {texts : List (List Char)}
    {as : List α} (h : List.Forall₂ r.Yields (text :: texts) as) (hopens : Opens closing text)
    {blanks : List Char} (hb : ∀ c ∈ blanks, isBlank c = true) (rest : List Char) :
    (r.bracketed closing).run
      (opening :: ([','].intercalate (text :: texts) ++ (blanks ++ closing :: rest))) =
      .ok (as, rest) := by
  cases h with
  | cons ha h =>
    have hsettles := h.imp fun _ _ hy => Yields.settles hy
    have hitems := itemsUntil_intercalate hsettles ha.settles hclosing hb [] rest
    obtain ⟨c, tail, hdrop, hc⟩ := (hopens.intercalate texts).append (blanks ++ closing :: rest)
    simp only [bracketed, ofFirst, dropBlanks_cons ho, hdrop, if_neg hc, hitems]
    rfl

/-- The items of a list end at a square bracket. -/
theorem items_eq_itemsUntil (before : List α) (s : List Char) :
    r.items before s = r.itemsUntil ']' before s := by
  fun_induction items r before s with
  | case1 before s e h => rw [itemsUntil_eq, h]
  | case2 before s a rest h _ hb =>
    rw [itemsUntil_eq, h]
    simp only [hb]
  | case3 before s a rest h _ rest' hb => rw [itemsUntil_of_run h hb, if_pos rfl]
  | case4 before s a rest h _ rest' hb _ hclosing ih =>
    rw [itemsUntil_of_run h hb, if_neg hclosing, if_pos rfl, ih]
  | case5 before s a rest h _ c rest' hb _ hclosing hcomma =>
    rw [itemsUntil_of_run h hb, if_neg hclosing, if_neg hcomma]

end Reader

end Templating.Json
