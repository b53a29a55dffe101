import Templating.Proofs.ReadValues

namespace Templating.Json

/-- The compact text of a value, with blanks around the items of a list. Objects are not looked
into. -/
inductive Spaced : Value → List Char → Prop
  | scalar {v : Value} : v.NestsWithin 0 → Spaced v v.compact
  | empty (gap : Gap) : Spaced (.array []) ('[' :: (gap.chars ++ [']']))
  | items (i : Value × Item) (is : List (Value × Item)) : (∀ j ∈ i :: is, KeyText .list j.2.key) →
      (∀ j ∈ i :: is, Spaced j.1 j.2.value) →
      Spaced (.array ((i :: is).map Prod.fst))
        ('[' :: ([','].intercalate ((i :: is).map fun j => j.2.chars) ++ [']']))

theorem Spaced.eq_compact {v : Value} {chars : List Char} (h : Spaced v chars)
    (hv : v.NestsWithin 0) : chars = v.compact := by
  cases h with
  | scalar _ => rfl
  | empty _ => cases hv
  | items => cases hv

theorem Value.compactItems_eq_chars (vs : List Value) :
    Value.compactItems vs = (vs.map Item.tight).map Item.chars := by
  induction vs with
  | nil => rfl
  | cons v vs ih => rw [Value.compactItems, ih, ← Item.chars_tight, List.map_cons, List.map_cons]

theorem spaced_array {vs : List Value} (h : ∀ v ∈ vs, v.NestsWithin 0) :
    Spaced (.array vs) (Value.array vs).compact := by
  rw [Value.compact, Value.compactItems_eq_chars]
  cases vs with
  | nil => exact .empty .empty
  | cons v vs =>
    have hkeys : ∀ j ∈ (v :: vs).map fun v => (v, Item.tight v), KeyText .list j.2.key := by
      simp only [List.forall_mem_map]
      exact fun _ _ => .list
    have hvalues : ∀ j ∈ (v :: vs).map fun v => (v, Item.tight v), Spaced j.1 j.2.value := by
      simp only [List.forall_mem_map]
      exact fun w hw => .scalar (h w hw)
    have hitems := Spaced.items (v, .tight v) (vs.map fun v => (v, .tight v)) hkeys hvalues
    simpa [Function.comp_def] using hitems

/-- The blanks up to the first token. -/
def leadingGap (s : List Char) : Gap :=
  ⟨s.takeWhile isBlank, fun _ => List.mem_takeWhile_imp⟩

theorem leadingGap_append (s : List Char) : (leadingGap s).chars ++ dropBlanks s = s :=
  List.takeWhile_append_dropWhile

namespace Reader

/-- The reader passes over blanks before the value. -/
def Trims (r : Reader α) : Prop :=
  ∀ (w : Gap) (s : List Char), r.run (w.chars ++ s) = r.run s

variable {r : Reader α}

theorem Trims.run_dropBlanks (h : r.Trims) (s : List Char) : r.run (dropBlanks s) = r.run s := by
  rw [← h (leadingGap s), leadingGap_append]

theorem trims_string : string.Trims := by
  intro w s
  simp only [string, ofFirst, w.dropBlanks_append]

theorem trims_word : word.Trims := by
  intro w s
  simp only [word, ofFirst, w.dropBlanks_append]

theorem trims_list (r : Reader α) : r.list.Trims := by
  intro w s
  simp only [list, ofFirst, w.dropBlanks_append]

theorem trims_optional (r : Reader α) : r.optional.Trims := by
  intro w s
  simp only [optional, w.dropBlanks_append]

/-- The reader takes the value from its text, whatever blanks stand between the tokens. -/
def TakesSpaced (r : Reader α) (v : Value) (a : α) : Prop :=
  ∀ chars, Spaced v chars → r.Takes chars a

theorem Takes.spaced {v : Value} {a : α} (h : r.Takes v.compact a) (hv : v.NestsWithin 0) :
    r.TakesSpaced v a := by
  intro chars hs
  rw [hs.eq_compact hv]
  exact h

theorem TakesSpaced.yields {v : Value} {a : α} (h : r.TakesSpaced v a) (ht : r.Trims)
    {chars : List Char} (hs : Spaced v chars) (w : Gap) : r.Yields (w.chars ++ chars) a := by
  intro rest hstops
  rw [List.append_assoc, ht, (h chars hs).run rest hstops]

theorem Yields.map {chars : List Char} {a : α} (h : r.Yields chars a) (f : α → β) :
    (r.map f).Yields chars (f a) := by
  intro rest hs
  simp only [Reader.map, h rest hs, Except.map]

/-- A field puts the value that its own reader takes into the draft. -/
theorem TakesSpaced.adds {fields : List (RecordField Draft)} {draft d : Draft} {m : Member}
    {isRead : Draft → Bool} {put : α → Draft → Draft} {v : Value} {a : α} (h : r.TakesSpaced v a)
    (ht : r.Trims) (hs : Spaced v m.value)
    (hfind : fields.find? (·.key == m.key) = some ⟨m.key, isRead, r.map put⟩)
    (hopen : isRead draft = false) (hput : put a draft = d) : Adds fields draft m d := by
  rw [← hput]
  exact .field hfind hopen ((h.yields ht hs m.before).map put)

/-- An item is taken with the blanks before it, and those behind it are left. -/
theorem Takes.settles_item {i : Item} {a : α} (h : r.Takes i.value a) (ht : r.Trims)
    (hk : KeyText .list i.key) : r.Settles i.chars a := by
  intro rest hs
  refine ⟨i.after.chars ++ rest, ?_, i.after.dropBlanks_append rest⟩
  rw [Item.chars, hk.eq_nil, List.nil_append, List.append_assoc, ht, List.append_assoc,
    h.run _ (i.after.stops_append hs)]

theorem Takes.opens_item {i : Item} {a : α} (h : r.Takes i.value a) (hk : KeyText .list i.key) :
    Opens ']' i.chars := by
  obtain ⟨c, tail, hc, hblank, hclosing⟩ := h.opens
  refine ⟨c, tail ++ i.after.chars, ?_, hclosing⟩
  rw [Item.chars, hk.eq_nil, List.nil_append, i.before.dropBlanks_append, hc]
  exact dropBlanks_cons hblank

theorem list_run_of_opens (ht : r.Trims) {s : List Char} (h : Opens ']' s) :
    r.list.run ('[' :: s) = r.itemsUntil ']' [] s := by
  obtain ⟨c, tail, hdrop, hc⟩ := h
  have hitems : r.items [] (c :: tail) = r.itemsUntil ']' [] s := by
    rw [items_eq_itemsUntil, itemsUntil_eq, itemsUntil_eq, ← hdrop, ht.run_dropBlanks]
  rw [← hitems]
  simp only [list, ofFirst, dropBlanks_cons (c := '[') rfl, if_true, hdrop]
  split
  · rename_i hnil
    cases hnil
  · rename_i hcons
    exact absurd (List.cons.inj hcons).1 hc
  · rfl

/-- A list is taken if its items are. -/
theorem takesSpaced_array {vs : List Value} {as : List α} (ht : r.Trims)
    (h : List.Forall₂ r.TakesSpaced vs as) : r.list.TakesSpaced (.array vs) as := by
  intro chars hs
  cases hs with
  | scalar hv => cases hv
  | empty gap =>
    cases h
    refine ⟨⟨'[', _, rfl, rfl, by decide⟩, ?_⟩
    intro rest _
    simp [list, ofFirst, dropBlanks_cons, isBlank, gap.dropBlanks_append]
  | items i is hk hspaced =>
    refine ⟨⟨'[', _, rfl, rfl, by decide⟩, ?_⟩
    intro rest _
    cases h with
    | @cons _ a _ as ha has =>
      have hfirst := ha _ (hspaced i List.mem_cons_self)
      have hsettles : List.Forall₂ r.Settles (is.map fun j => j.2.chars) as := by
        rw [List.forall₂_map_left_iff] at has ⊢
        have hitem : ∀ j ∈ is, KeyText .list j.2.key ∧ Spaced j.1 j.2.value := fun j hj =>
          ⟨hk j (List.mem_cons_of_mem _ hj), hspaced j (List.mem_cons_of_mem _ hj)⟩
        refine ((List.forall₂_and_left _ _).mpr ⟨hitem, has⟩).imp ?_
        rintro j b ⟨⟨hkey, hvalue⟩, hb⟩
        exact (hb _ hvalue).settles_item ht hkey
      have hopens := (hfirst.opens_item (hk i List.mem_cons_self)).intercalate
        (is.map fun j => j.2.chars)
      have hitems := itemsUntil_intercalate hsettles
        (hfirst.settles_item ht (hk i List.mem_cons_self)) (.inl rfl) (List.forall_mem_nil _) []
        rest
      rw [List.map_cons, List.cons_append, List.append_assoc, List.singleton_append,
        list_run_of_opens ht (hopens.append _)]
      exact hitems

theorem takesSpaced_map (ht : r.Trims) {f : α → Value} (h : ∀ a, r.Takes (f a).compact a)
    (hf : ∀ a, (f a).NestsWithin 0) (as : List α) :
    r.list.TakesSpaced (.array (as.map f)) as := by
  apply takesSpaced_array ht
  rw [List.forall₂_map_left_iff, List.forall₂_same]
  exact fun a _ => (h a).spaced (hf a)

end Reader

end Templating.Json
