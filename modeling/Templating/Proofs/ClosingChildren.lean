import Templating.Proofs.FoldedLookups

namespace Templating.Tag

namespace Rule

/-- The names of the children that end the element are in lowercase letters of ASCII. -/
def ClosersFolded (r : Rule) : Prop :=
  ∀ name ∈ r.closedBy, Text.Folded name.toList

instance (r : Rule) : Decidable r.ClosersFolded :=
  inferInstanceAs (Decidable (∀ name ∈ r.closedBy, _))

/-- A child ends an element by its lowercase, folded or not. -/
theorem ClosersFolded.isClosedBy_iff {r : Rule} (h : r.ClosersFolded) (child : String) :
    r.isClosedBy child = true ↔ r.isVoid = true ∨ Text.lower child ∈ r.closedBy := by
  rw [isClosedBy, Bool.or_eq_true, List.contains_iff_mem]
  cases hu : child.toList.any Text.isUppercase with
  | true => rw [if_pos rfl]
  | false =>
    have hlower : ∀ c ∈ child.toList, Text.isUppercase c = false := by
      simpa using hu
    rw [if_neg Bool.false_ne_true]
    -- one of the two names is listed, and in both cases they are the same
    have hsame : child ∈ r.closedBy ↔ Text.lower child ∈ r.closedBy := by
      constructor
      · intro hmem
        rwa [Text.lower_eq_of_folded (h child hmem)]
      · intro hmem
        have hfolded := Text.folded_of_lower hlower (h _ hmem)
        rwa [Text.lower_eq_of_folded hfolded] at hmem
    rw [hsame]

end Rule

theorem closersFolded_listed : ∀ e ∈ listedRules, e.2.ClosersFolded := by
  decide +kernel

namespace Registry

theorem exists_of_firstRule {es : List (String × Rule)} {p : String → Bool} {rule : Rule}
    (h : firstRule es p = some rule) : ∃ e ∈ es, e.2 = rule := by
  obtain ⟨e, he, rfl⟩ := Option.map_eq_some_iff.mp h
  exact ⟨e, List.mem_of_find?_eq_some he, rfl⟩

theorem exists_entry_of_find? {known : List String} {name : String} {rule : Rule}
    (h : (ofKnown known).find? name = some rule) : ∃ e ∈ entries known, e.2 = rule := by
  rw [(lists_ofKnown known).find?_eq, Option.or_eq_some_iff] at h
  rcases h with h | ⟨-, h⟩
  · exact exists_of_firstRule h
  · exact exists_of_firstRule h

/-- A rule that a name has is listed, plain or permissive. -/
theorem get_cases (known : List String) (name : String) :
    (∃ e ∈ listedRules, (ofKnown known).get name = e.2) ∨ (ofKnown known).get name = .plain ∨
      (ofKnown known).get name = .permissive := by
  rw [get]
  cases hfind : (ofKnown known).find? name with
  | none => exact .inr (.inr rfl)
  | some rule =>
    obtain ⟨e, he, rfl⟩ := exists_entry_of_find? hfind
    rcases List.mem_append.mp he with he | he
    · exact .inl ⟨e, he, rfl⟩
    · obtain ⟨added, -, rfl⟩ := List.mem_map.mp he
      exact .inr (.inl rfl)

theorem closersFolded_get (known : List String) (name : String) :
    ((ofKnown known).get name).ClosersFolded := by
  rcases get_cases known name with ⟨e, he, hget⟩ | hget | hget
  · rw [hget]
    exact closersFolded_listed e he
  · rw [hget]
    exact List.forall_mem_nil _
  · rw [hget]
    exact List.forall_mem_nil _

/-- Whatever names are known, each rule compares the lowercase of a child, though it folds only
names with an uppercase letter and others may change by folding too. So it does not tell the
spellings of a child apart. -/
theorem closed_by_lowercase (known : List String) (name : String) :
    (∀ child, ((ofKnown known).get name).isClosedBy child = true ↔
      ((ofKnown known).get name).isVoid = true ∨
        Text.lower child ∈ ((ofKnown known).get name).closedBy) ∧
    (∀ child other, Text.lower child = Text.lower other →
      ((ofKnown known).get name).isClosedBy child =
        ((ofKnown known).get name).isClosedBy other) ∧
    ∃ child, (∀ c ∈ child.toList, Text.isUppercase c = false) ∧ Text.lower child ≠ child := by
  have hiff := (closersFolded_get known name).isClosedBy_iff
  refine ⟨hiff, ?_, "ǅ", List.forall_mem_singleton.mpr (by decide), by decide⟩
  intro child other heq
  rw [Bool.eq_iff_iff, hiff, hiff, heq]

/-- A paragraph is ended by a quotation in capitals, and by one with the sign for Kelvin in it. -/
theorem closed_by_lowercase_kelvin :
    Text.lower "bloc\u212Aquote" = Text.lower "BLOCKQUOTE" ∧
    ((ofKnown ["Widget"]).get "p").isClosedBy "bloc\u212Aquote" =
      ((ofKnown ["Widget"]).get "p").isClosedBy "BLOCKQUOTE" ∧
    ((ofKnown ["Widget"]).get "p").isClosedBy "BLOCKQUOTE" = true := by
  have heq : Text.lower "bloc\u212Aquote" = Text.lower "BLOCKQUOTE" := by decide +kernel
  obtain ⟨hiff, hsame, -⟩ := closed_by_lowercase ["Widget"] "p"
  refine ⟨heq, hsame _ _ heq, (hiff _).mpr (.inr ?_)⟩
  have hget : (ofKnown ["Widget"]).get "p" = endedBy blocks := by
    rw [get, find?_ofKnown, resolution_listed (by decide)]
    decide
  rw [hget]
  decide

end Registry

end Templating.Tag
