import Mathlib.Data.List.TakeWhile
import Templating.Tag.Name

namespace Templating.Tag

/-- A name that starts with a colon and holds a second one. -/
def Qualified (name : String) : Prop :=
  name.toList.head? = some ':' ∧ ':' ∈ name.toList.tail

instance (name : String) : Decidable (Qualified name) :=
  inferInstanceAs (Decidable (_ ∧ _))

/-- A name that starts with a colon and holds no second one. -/
def Malformed (name : String) : Prop :=
  name.toList.head? = some ':' ∧ ':' ∉ name.toList.tail

instance (name : String) : Decidable (Malformed name) :=
  inferInstanceAs (Decidable (_ ∧ _))

theorem splitChars_bare {s : List Char} (h : s.head? ≠ some ':') :
    splitChars s = some (none, s) := by
  unfold splitChars
  split
  · exact absurd rfl h
  · rfl

theorem splitChars_malformed {rest : List Char} (h : ':' ∉ rest) :
    splitChars (':' :: rest) = none := by
  have hdrop : rest.dropWhile (· != ':') = [] := by
    rw [List.dropWhile_eq_nil_iff]
    intro c hc
    exact bne_iff_ne.mpr fun he => h (he ▸ hc)
  simp only [splitChars, hdrop]

/-- The local part may hold further colons, the namespace may not. -/
theorem splitChars_qualified {space : List Char} (h : ':' ∉ space) (localName : List Char) :
    splitChars (':' :: (space ++ ':' :: localName)) = some (some space, localName) := by
  have hspace : ∀ c ∈ space, (c != ':') = true := by
    intro c hc
    exact bne_iff_ne.mpr fun he => h (he ▸ hc)
  simp [splitChars, List.takeWhile_append_of_pos hspace, List.dropWhile_append_of_pos hspace]

/-- A text does not start with a colon, or has no second colon, or a first part up to it. -/
theorem chars_cases (s : List Char) :
    s.head? ≠ some ':' ∨ (∃ rest, s = ':' :: rest ∧ ':' ∉ rest) ∨
      ∃ space localName, s = ':' :: (space ++ ':' :: localName) ∧ ':' ∉ space := by
  cases s with
  | nil => exact .inl nofun
  | cons c rest =>
    by_cases hc : c = ':'
    · subst hc
      by_cases hrest : ':' ∈ rest
      · obtain ⟨space, localName, rfl, hspace⟩ := List.eq_append_cons_of_mem hrest
        exact .inr (.inr ⟨space, localName, rfl, hspace⟩)
      · exact .inr (.inl ⟨rest, rfl, hrest⟩)
    · exact .inl fun h => hc (Option.some.inj h)

/-- What a name is taken apart into, by its kind. -/
theorem split_cases (name : String) :
    (name.toList.head? ≠ some ':' ∧ split name = .ok (none, name)) ∨
    (Malformed name ∧ split name = .error ⟨name⟩) ∨
    ∃ space localName, name = ":" ++ space ++ ":" ++ localName ∧ ':' ∉ space.toList ∧
      split name = .ok (some space, localName) := by
  rcases chars_cases name.toList with hbare | ⟨rest, hrest, hcolon⟩ | ⟨space, localName, hq, hspace⟩
  · refine .inl ⟨hbare, ?_⟩
    simp [split, splitChars_bare hbare]
  · refine .inr (.inl ⟨?_, ?_⟩)
    · rw [Malformed, hrest]
      exact ⟨rfl, hcolon⟩
    · rw [split, hrest, splitChars_malformed hcolon]
  · refine .inr (.inr ⟨String.ofList space, String.ofList localName, ?_, ?_, ?_⟩)
    · rw [← String.toList_inj, hq]
      simp
    · rwa [String.toList_ofList]
    · rw [split, hq, splitChars_qualified hspace]
      rfl

theorem split_qualified {space : String} (h : ':' ∉ space.toList) (localName : String) :
    split (":" ++ space ++ ":" ++ localName) = .ok (some space, localName) := by
  have hchars : (":" ++ space ++ ":" ++ localName).toList =
      ':' :: (space.toList ++ ':' :: localName.toList) := by simp
  rw [split, hchars, splitChars_qualified h]
  simp

theorem not_malformed_qualified (space localName : String) :
    ¬ Malformed (":" ++ space ++ ":" ++ localName) := by
  simp [Malformed]

/-- Only malformed names have no parts, and they are all that is told. -/
theorem split_eq_error_iff (name : String) (e : Unqualified) :
    split name = .error e ↔ e = ⟨name⟩ ∧ Malformed name := by
  rcases split_cases name with ⟨hbare, hs⟩ | ⟨hm, hs⟩ | ⟨space, localName, rfl, -, hs⟩
  · simp [hs, Malformed, hbare]
  · simp [hs, hm, eq_comm]
  · simp [hs, not_malformed_qualified]

theorem split_eq_ok_some_iff {name space localName : String} :
    split name = .ok (some space, localName) ↔
      name = ":" ++ space ++ ":" ++ localName ∧ ':' ∉ space.toList := by
  constructor
  · intro h
    rcases split_cases name with ⟨-, hs⟩ | ⟨-, hs⟩ | ⟨sp, l, hname, hsp, hs⟩
    · rw [hs] at h; cases h
    · rw [hs] at h; cases h
    · rw [hs] at h
      cases h
      exact ⟨hname, hsp⟩
  · intro h
    rw [h.1]
    exact split_qualified h.2 localName

theorem split_eq_ok_none_iff {name localName : String} :
    split name = .ok (none, localName) ↔ name.toList.head? ≠ some ':' ∧ localName = name := by
  rcases split_cases name with ⟨hbare, hs⟩ | ⟨hm, hs⟩ | ⟨space, l, rfl, -, hs⟩
  · simp [hs, hbare, eq_comm]
  · simp [hs, hm.1]
  · simp [hs]

/-- Just the qualified names have a namespace. -/
theorem isSome_spaceOf (name : String) : (spaceOf name).isSome = true ↔ Qualified name := by
  rcases split_cases name with ⟨hbare, hs⟩ | ⟨hm, hs⟩ | ⟨space, localName, rfl, -, hs⟩
  · simp [spaceOf, hs, Qualified, hbare]
  · simp [spaceOf, hs, Qualified, hm.2]
  · simp [spaceOf, hs, Qualified]

theorem merge_of_ne {space : String} (h : space ≠ "") (localName : String) :
    merge space localName = ":" ++ space ++ ":" ++ localName :=
  if_neg h

theorem merge_empty (localName : String) : merge "" localName = localName :=
  if_pos rfl

theorem merge_split_iff {name localName : String} {space : Option String}
    (h : split name = .ok (space, localName)) :
    merge (space.getD "") localName = name ↔ ¬ [':', ':'] <+: name.toList := by
  cases space with
  | none =>
    obtain ⟨hbare, rfl⟩ := split_eq_ok_none_iff.mp h
    simp only [Option.getD_none, merge_empty, true_iff]
    rintro ⟨rest, hrest⟩
    exact hbare (by rw [← hrest]; rfl)
  | some space =>
    obtain ⟨rfl, hspace⟩ := split_eq_ok_some_iff.mp h
    rw [Option.getD_some]
    by_cases hempty : space = ""
    · -- both colons stand at the front, and nothing tells the parts of this name from a local one
      subst hempty
      have hlong : localName ≠ "::" ++ localName := by
        intro he
        have hlength := congrArg String.length he
        rw [String.length_append] at hlength
        exact absurd hlength (Nat.ne_of_lt (Nat.lt_add_of_pos_left (by decide)))
      simp [merge_empty, hlong]
    · rw [merge_of_ne hempty, eq_self_iff_true, true_iff]
      obtain ⟨c, cs, hcs⟩ := List.exists_cons_of_ne_nil (mt String.toList_eq_nil_iff.mp hempty)
      have hc : ':' ≠ c := fun he => hspace (by rw [hcs, he]; exact List.mem_cons_self)
      simp [hcs, hc]

/-- A name has no parts only if it starts with a colon and holds no second one. Otherwise its parts
give it back unless it starts with two colons, and a namespace and a local part come back from their
name just if the namespace holds no colon. -/
theorem parts_of_names :
    (∀ name e, split name = .error e ↔ e = ⟨name⟩ ∧ Malformed name) ∧
    (∀ name space localName, split name = .ok (space, localName) →
      (merge (space.getD "") localName = name ↔ ¬ [':', ':'] <+: name.toList)) ∧
    (∀ space localName, space ≠ "" →
      (split (merge space localName) = .ok (some space, localName) ↔ ':' ∉ space.toList)) ∧
    ∀ localName, split (merge "" localName) = split localName := by
  refine ⟨split_eq_error_iff, ?_, ?_, ?_⟩
  · intro name space localName h
    exact merge_split_iff h
  · intro space localName hne
    rw [merge_of_ne hne, split_eq_ok_some_iff, and_iff_right rfl]
  · intro localName
    rw [merge_empty]

/-- A local part with a colon in it comes back, a namespace with one does not, and neither does a
name with an empty namespace. -/
theorem parts_of_names_linked :
    split (merge "xlink" "href:x") = .ok (some "xlink", "href:x") ∧
    split (merge "xlink:href" "x") ≠ .ok (some "xlink:href", "x") ∧
    split "::x" = .ok (some "", "x") ∧ merge "" "x" ≠ "::x" := by
  obtain ⟨-, hname, hparts, -⟩ := parts_of_names
  have hempty : split "::x" = .ok (some "", "x") := by decide
  refine ⟨(hparts "xlink" "href:x" (by decide)).mpr (by decide), ?_, hempty, ?_⟩
  · rw [ne_eq, hparts "xlink:href" "x" (by decide)]
    decide
  · intro he
    exact (hname "::x" (some "") "x" hempty).mp he (by decide)

end Templating.Tag
