import Mathlib.Data.List.Find
import Templating.Proofs.LowercaseTexts
import Templating.Proofs.RegisteredNames

namespace Templating.Tag

/-- No two listed names share their lowercase. -/
theorem lower_listedNames_nodup : (listedNames.map Text.lower).Nodup := by
  decide +kernel

theorem folded_listedNames : ∀ name ∈ listedNames, name ≠ "foreignObject" →
    Text.Folded name.toList := by
  decide +kernel

theorem folded_domElements : ∀ name ∈ domElements, ¬ Qualified name →
    Text.Folded name.toList := by
  decide +kernel

/-- Every listed name differs from the plain elements in something. -/
theorem listedRules_ne_plain : ∀ e ∈ listedRules, e.2 ≠ .plain := by
  decide

namespace Registry

/-- Names with the same lowercase are looked up alike. -/
def IgnoresCase (r : Registry) : Prop :=
  ∀ name other, Text.lower name = Text.lower other →
    r.get name = r.get other ∧ r.isKnown name = r.isKnown other

/-- Known names keep the lowercases of the listed ones free, unless they are listed themselves. -/
def LeavesListed (known : List String) : Prop :=
  ∀ name ∈ known, ¬ Qualified name → name ∉ listedNames →
    ∀ entry ∈ listedNames, Text.lower name ≠ Text.lower entry

instance (known : List String) : Decidable (LeavesListed known) :=
  inferInstanceAs (Decidable (∀ name ∈ known, _))

/-- Where no two entries share their lowercase, an entry is found by its lowercase as by its
spelling. -/
theorem firstRule_lower {es : List (String × Rule)} {name : String}
    (hd : (es.map (Text.lower ·.1)).Nodup) (hn : name ∈ es.map Prod.fst) :
    firstRule es (Text.lower · == Text.lower name) = firstRule es (· == name) := by
  obtain ⟨e, he, rfl⟩ := List.mem_map.mp hn
  have hsame : ∀ f ∈ es, (Text.lower f.1 == Text.lower e.1) = (f.1 == e.1) := by
    intro f hf
    rw [Bool.eq_iff_iff, beq_iff_eq, beq_iff_eq]
    constructor
    · intro heq
      rw [List.inj_on_of_nodup_map hd hf he heq]
    · exact congrArg Text.lower
  rw [firstRule, firstRule, List.find?_congr hsame]

theorem isSome_firstRule_listed {name : String} (h : name ∈ listedNames) :
    (firstRule listedRules (· == name)).isSome = true := by
  rw [isSome_firstRule]
  simpa [listedNames] using h

theorem resolution_listed {known : List String} {name : String} (h : name ∈ listedNames) :
    resolution known name = firstRule listedRules (· == name) :=
  if_pos h

theorem resolution_known {known : List String} {name : String} (hl : name ∉ listedNames)
    (hk : name ∈ known) (hq : ¬ Qualified name) : resolution known name = some .plain := by
  rw [resolution, if_neg hl, if_pos ⟨hk, hq⟩]

/-- A listed name is the first entry with its lowercase. -/
theorem firstRule_entries_listed {known : List String} {name : String} (h : name ∈ listedNames) :
    firstRule (entries known) (Text.lower · == Text.lower name) =
      firstRule listedRules (· == name) := by
  have hd : (listedRules.map (Text.lower ·.1)).Nodup := by
    have hnodup := lower_listedNames_nodup
    rwa [listedNames, List.map_map] at hnodup
  obtain ⟨rule, hrule⟩ := Option.isSome_iff_exists.mp (isSome_firstRule_listed h)
  rw [entries, firstRule_append, firstRule_lower hd h, hrule]
  rfl

/-- A known name whose lowercase no listed name has meets only plain entries. -/
theorem firstRule_entries_known {known : List String} {name : String}
    (ha : name ∈ addedNames known)
    (hfree : ∀ entry ∈ listedNames, Text.lower name ≠ Text.lower entry) :
    firstRule (entries known) (Text.lower · == Text.lower name) = some .plain := by
  have hnone : firstRule listedRules (Text.lower · == Text.lower name) = none := by
    rw [firstRule, Option.map_eq_none_iff, List.find?_eq_none]
    intro e he heq
    exact hfree e.1 (List.mem_map_of_mem he) (beq_iff_eq.mp heq).symm
  rw [entries, firstRule_append, hnone, firstRule_plain, Option.none_or, if_pos]
  rw [List.any_eq_true]
  exact ⟨name, ha, beq_self_eq_true _⟩

/-- Where the known names leave the listed ones alone, the lowercase decides. -/
theorem LeavesListed.resolution_eq {known : List String} (h : LeavesListed known) (name : String) :
    resolution known name = firstRule (entries known) (Text.lower · == Text.lower name) := by
  by_cases hl : name ∈ listedNames
  · rw [resolution_listed hl, firstRule_entries_listed hl]
  by_cases hk : name ∈ known ∧ ¬ Qualified name
  · have ha : name ∈ addedNames known := mem_addedNames.mpr ⟨hk.1, hk.2, hl⟩
    rw [resolution_known hl hk.1 hk.2, firstRule_entries_known ha (h name hk.1 hk.2 hl)]
  · rw [resolution, if_neg hl, if_neg hk]

theorem LeavesListed.ignoresCase {known : List String} (h : LeavesListed known) :
    IgnoresCase (ofKnown known) := by
  intro name other heq
  have hfind : (ofKnown known).find? name = (ofKnown known).find? other := by
    rw [find?_ofKnown, find?_ofKnown, h.resolution_eq, h.resolution_eq, heq]
  exact ⟨by rw [get, get, hfind], by rw [isKnown, isKnown, hfind]⟩

theorem get_listed_ne_plain (known : List String) {name : String} (h : name ∈ listedNames) :
    (ofKnown known).get name ≠ .plain := by
  obtain ⟨rule, hrule⟩ := Option.isSome_iff_exists.mp (isSome_firstRule_listed h)
  obtain ⟨e, he, rfl⟩ := Option.map_eq_some_iff.mp hrule
  rw [get, find?_ofKnown, resolution_listed h, hrule]
  exact listedRules_ne_plain e (List.mem_of_find?_eq_some he)

theorem get_known_eq_plain {known : List String} {name : String} (hl : name ∉ listedNames)
    (hk : name ∈ known) (hq : ¬ Qualified name) : (ofKnown known).get name = .plain := by
  rw [get, find?_ofKnown, resolution_known hl hk hq]
  rfl

/-- The elements of a document leave the listed names alone: but for one listed name, all of them
are their own lowercase. -/
theorem leavesListed_domElements : LeavesListed domElements := by
  intro name hk hq hl entry hentry heq
  rw [Text.lower_eq_of_folded (folded_domElements name hk hq)] at heq
  by_cases hforeign : entry = "foreignObject"
  · subst hforeign
    subst heq
    exact absurd hk (by decide +kernel)
  · rw [Text.lower_eq_of_folded (folded_listedNames entry hentry hforeign)] at heq
    exact hl (heq ▸ hentry)

/-- Lookups ignore case exactly if the known names leave the listed ones alone. The elements of a
document do, so that a rule is found under every spelling of its name. -/
theorem ignoresCase_iff :
    (∀ known, IgnoresCase (ofKnown known) ↔ LeavesListed known) ∧
    LeavesListed domElements ∧
    (∀ name other, Text.lower name = Text.lower other →
      htmlRule name = htmlRule other ∧ dom.isKnown name = dom.isKnown other) ∧
    ∀ name, Text.lower name = Text.lower "foreignObject" → dom.isKnown name = true ∧
      htmlRule name = { impliedSpace := some "svg", isolatesSpace := true } := by
  have hdom : IgnoresCase dom := leavesListed_domElements.ignoresCase
  refine ⟨?_, leavesListed_domElements, hdom, ?_⟩
  · intro known
    refine ⟨?_, LeavesListed.ignoresCase⟩
    intro h name hk hq hl entry hentry heq
    have hsame := (h name entry heq).1
    rw [get_known_eq_plain hl hk hq] at hsame
    exact get_listed_ne_plain known hentry hsame.symm
  · intro name heq
    obtain ⟨hget, hknown⟩ := hdom name "foreignObject" heq
    have hlisted : dom.find? "foreignObject" =
        some { impliedSpace := some "svg", isolatesSpace := true } := by
      rw [dom, find?_ofKnown, resolution_listed (by decide)]
      decide
    refine ⟨?_, ?_⟩
    · rw [hknown, isKnown, hlisted]
      rfl
    · rw [htmlRule, hget, get, hlisted]
      rfl

/-- A listed name may be known as it is listed, and not in other letters. -/
example : LeavesListed ["foreignObject", "Widget", "widget", ":x:br"] ∧
    ¬ LeavesListed ["foreignobject"] ∧ ¬ LeavesListed ["br", "BR"] := by
  decide +kernel

end Registry

end Templating.Tag
