import Templating.Proofs.ClosingChildren

namespace Templating.Tag

namespace Rule

/-- An element that has to be closed by something else, and a void one by the end of its parent. -/
def Strict (r : Rule) : Prop :=
  r.canSelfClose = false ∧ (r.isVoid = true → r.closedByParent = true)

instance (r : Rule) : Decidable r.Strict :=
  inferInstanceAs (Decidable (_ ∧ _))

theorem isClosedBy_of_isVoid {r : Rule} (h : r.isVoid = true) (child : String) :
    r.isClosedBy child = true := by
  rw [isClosedBy, h, Bool.true_or]

end Rule

theorem strict_listed : ∀ e ∈ listedRules, e.2.Strict := by
  decide

theorem strict_plain : Rule.plain.Strict := by
  decide

namespace Registry

/-- Registers names with their rules one after the other. -/
def insertAll (r : Registry) (added : List (String × Rule)) : Registry :=
  added.foldl (fun r (name, rule) => r.insert name rule) r

/-- Every index is the place of a rule. -/
structure Indexed (r : Registry) : Prop where
  exact : ∀ {name : String} {index}, r.exact[name]? = some index → index < r.rules.size
  folded : ∀ {name : String} {index}, r.folded[name]? = some index → index < r.rules.size

variable {r : Registry}

theorem indexed_empty : ({} : Registry).Indexed := by
  constructor <;> simp

/-- The index of a new rule is the place where it goes, and those before it stay in range, also if
the name was registered before. -/
theorem Indexed.insert (h : r.Indexed) (name : String) (rule : Rule) :
    (r.insert name rule).Indexed := by
  have hsize : (r.insert name rule).rules.size = r.rules.size + 1 := Array.size_push ..
  constructor
  · intro other index hindex
    rw [hsize]
    simp only [Registry.insert, Std.HashMap.getElem?_insert] at hindex
    split at hindex
    · cases hindex
      exact Nat.lt_succ_self _
    · exact Nat.lt_succ_of_lt (h.exact hindex)
  · intro other index hindex
    rw [hsize]
    simp only [Registry.insert, Std.HashMap.getElem?_insertIfNew] at hindex
    split at hindex
    · cases hindex
      exact Nat.lt_succ_self _
    · exact Nat.lt_succ_of_lt (h.folded hindex)

theorem Indexed.insertAll (h : r.Indexed) (added : List (String × Rule)) :
    (r.insertAll added).Indexed := by
  induction added generalizing r with
  | nil => exact h
  | cons e added ih => exact ih (h.insert e.1 e.2)

theorem Indexed.know (h : r.Indexed) (name : String) : (r.know name).Indexed := by
  unfold Registry.know
  split
  · exact h
  · exact h.insert name .plain

theorem indexed_ofKnown (known : List String) : (ofKnown known).Indexed := by
  induction known using List.reverseRec with
  | nil => exact indexed_empty.insertAll listedRules
  | append_singleton known name ih =>
    rw [ofKnown, List.foldl_append]
    exact ih.know name

/-- No name that is indexed is lost. -/
theorem Indexed.isKnown_iff (h : r.Indexed) (name : String) :
    r.isKnown name = true ↔
      r.exact[name]?.isSome = true ∨ r.folded[Text.lower name]?.isSome = true := by
  rw [isKnown, find?]
  cases he : r.exact[name]? with
  | some index => simp [h.exact he]
  | none =>
    cases hf : r.folded[Text.lower name]? with
    | some index => simp [h.folded hf]
    | none => simp

theorem strict_of_find? {known : List String} {name : String} {rule : Rule}
    (h : (ofKnown known).find? name = some rule) : rule.Strict := by
  obtain ⟨e, he, rfl⟩ := exists_entry_of_find? h
  rcases List.mem_append.mp he with he | he
  · exact strict_listed e he
  · obtain ⟨added, -, rfl⟩ := List.mem_map.mp he
    exact strict_plain

/-- A name is known and its rule strict, or it is unknown and its rule permissive. -/
theorem strict_or_permissive (known : List String) (name : String) :
    ((ofKnown known).isKnown name = true ∧ ((ofKnown known).get name).Strict) ∨
      ((ofKnown known).isKnown name = false ∧ (ofKnown known).get name = .permissive) := by
  rw [isKnown, get]
  cases hfind : (ofKnown known).find? name with
  | none => exact .inr ⟨rfl, rfl⟩
  | some rule => exact .inl ⟨rfl, strict_of_find? hfind⟩

/-- The names that are unknown are just those whose elements are treated as in XML. -/
theorem get_eq_xmlRule_iff (known : List String) (name : String) :
    (ofKnown known).get name = xmlRule name ↔ (ofKnown known).isKnown name = false := by
  rcases strict_or_permissive known name with ⟨hknown, hclosed, -⟩ | ⟨hknown, hget⟩
  · refine iff_of_false ?_ (by simp [hknown])
    intro he
    rw [he] at hclosed
    simp [xmlRule, Rule.permissive] at hclosed
  · exact iff_of_true hget hknown

/-- Known are just the names whose elements may not close themselves, and just those whose rule is
not the permissive one. A void element is ended by its parent and by any child. However many names
are registered besides, every index leads to a rule, and every name that is indexed is known. -/
theorem known_rules (known : List String) (name : String) :
    ((ofKnown known).isKnown name = true ↔ ((ofKnown known).get name).canSelfClose = false) ∧
    (((ofKnown known).get name).canSelfClose = false ↔ (ofKnown known).get name ≠ .permissive) ∧
    (((ofKnown known).get name).isVoid = true →
      ((ofKnown known).get name).closedByParent = true ∧
      ∀ child, ((ofKnown known).get name).isClosedBy child = true) ∧
    ∀ added, ((ofKnown known).insertAll added).Indexed ∧
      ∀ other, ((ofKnown known).insertAll added).isKnown other = true ↔
        ((ofKnown known).insertAll added).exact[other]?.isSome = true ∨
        ((ofKnown known).insertAll added).folded[Text.lower other]?.isSome = true := by
  have hcases := strict_or_permissive known name
  refine ⟨?_, ?_, ?_, ?_⟩
  · rcases hcases with ⟨hknown, hclosed, -⟩ | ⟨hknown, hget⟩
    · exact iff_of_true hknown hclosed
    · rw [hknown, hget]
      decide
  · rcases hcases with ⟨-, hclosed, -⟩ | ⟨-, hget⟩
    · refine iff_of_true hclosed ?_
      intro he
      rw [he] at hclosed
      exact absurd hclosed (by decide)
    · rw [hget]
      decide
  · intro hv
    rcases hcases with ⟨-, -, hvoid⟩ | ⟨-, hget⟩
    · exact ⟨hvoid hv, Rule.isClosedBy_of_isVoid hv⟩
    · rw [hget] at hv
      exact absurd hv (by decide)
  · intro added
    have hindexed := (indexed_ofKnown known).insertAll added
    exact ⟨hindexed, hindexed.isKnown_iff⟩

/-- A break in capitals is found by its lowercase and void. -/
theorem known_rules_break :
    ((ofKnown ["Widget"]).get "BR").isVoid = true ∧
    ((ofKnown ["Widget"]).get "BR").closedByParent = true ∧
    ((ofKnown ["Widget"]).get "BR").isClosedBy "#text" = true := by
  have hget : (ofKnown ["Widget"]).get "BR" = .void := by
    rw [get, find?_ofKnown]
    decide +kernel
  have hvoid : ((ofKnown ["Widget"]).get "BR").isVoid = true := by
    rw [hget]
    rfl
  obtain ⟨-, -, hends, -⟩ := known_rules ["Widget"] "BR"
  obtain ⟨hparent, hchild⟩ := hends hvoid
  exact ⟨hvoid, hparent, hchild "#text"⟩

end Registry

end Templating.Tag
