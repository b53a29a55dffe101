import Templating.CommandLine.Run
import Templating.Proofs.FoldedLookups

namespace Templating.Tag

namespace Registry

/-- The name is spelled like one of the names that have no namespace. -/
def Spelled (extra : List String) (name : String) : Prop :=
  name ∈ extra ∧ ¬ Qualified name

instance (extra : List String) (name : String) : Decidable (Spelled extra name) :=
  inferInstanceAs (Decidable (_ ∧ _))

/-- The name has the lowercase of one of the names that have no namespace. -/
def Folds (extra : List String) (name : String) : Prop :=
  ∃ entry ∈ extra, ¬ Qualified entry ∧ Text.lower entry = Text.lower name

instance (extra : List String) (name : String) : Decidable (Folds extra name) :=
  inferInstanceAs (Decidable (∃ entry ∈ extra, _))

/-- The name is known by its lowercase and not by its spelling. -/
def KnownFolded (r : Registry) (name : String) : Prop :=
  r.exact.contains name = false ∧ r.isKnown name = true

instance (r : Registry) (name : String) : Decidable (r.KnownFolded name) :=
  inferInstanceAs (Decidable (_ ∧ _))

/-- Further names make a name plain that was known by its lowercase alone and is one of them, or
that was unknown and has the lowercase of one of them. -/
def TurnsPlain (r : Registry) (extra : List String) (name : String) : Prop :=
  r.KnownFolded name ∧ Spelled extra name ∨ r.isKnown name = false ∧ Folds extra name

instance (r : Registry) (extra : List String) (name : String) :
    Decidable (r.TurnsPlain extra name) :=
  inferInstanceAs (Decidable (_ ∨ _))

theorem Spelled.folds {extra : List String} {name : String} (h : Spelled extra name) :
    Folds extra name :=
  ⟨name, h.1, h.2, rfl⟩

theorem entries_append (known extra : List String) :
    entries (known ++ extra) =
      entries known ++ (addedNames (extra.filter (· ∉ known))).map (·, .plain) := by
  rw [entries, entries, addedNames_append, List.map_append, List.append_assoc]

theorem mem_furtherNames {known extra : List String} {name : String} :
    name ∈ addedNames (extra.filter (· ∉ known)) ↔
      Spelled extra name ∧ name ∉ (entries known).map Prod.fst := by
  rw [mem_addedNames, mem_names_entries, List.mem_filter, decide_eq_true_iff, Spelled]
  tauto

/-- What a name is resolved to among further names as well, spelling before lowercase. -/
theorem find?_append_eq (known extra : List String) (name : String) :
    (ofKnown (known ++ extra)).find? name =
      ((firstRule (entries known) (· == name)).or
        (if name ∈ addedNames (extra.filter (· ∉ known)) then some .plain else none)).or
      ((firstRule (entries known) (Text.lower · == Text.lower name)).or
        (if (addedNames (extra.filter (· ∉ known))).any (Text.lower · == Text.lower name) then
          some .plain else none)) := by
  rw [(lists_ofKnown (known ++ extra)).find?_eq, entries_append, firstRule_append,
    firstRule_append, firstRule_plain, firstRule_plain]
  simp only [List.any_beq', List.contains_iff_mem]

theorem contains_ofKnown (known : List String) (name : String) :
    (ofKnown known).exact.contains name = (firstRule (entries known) (· == name)).isSome := by
  rw [isSome_firstRule, Bool.eq_iff_iff, (lists_ofKnown known).contains_iff]
  simp

/-- A name is known if a registered one has its lowercase. -/
theorem isKnown_of_mem {known : List String} {entry name : String}
    (hmem : entry ∈ (entries known).map Prod.fst) (heq : Text.lower entry = Text.lower name) :
    (ofKnown known).isKnown name = true := by
  have hfolded : (firstRule (entries known) (Text.lower · == Text.lower name)).isSome = true := by
    obtain ⟨e, he, rfl⟩ := List.mem_map.mp hmem
    rw [isSome_firstRule, List.any_eq_true]
    exact ⟨e, he, beq_iff_eq.mpr heq⟩
  rw [isKnown, (lists_ofKnown known).find?_eq, Option.isSome_or, hfolded, Bool.or_true]

theorem any_furtherNames_iff {known : List String} {name : String}
    (h : (ofKnown known).isKnown name = false) (extra : List String) :
    (addedNames (extra.filter (· ∉ known))).any (Text.lower · == Text.lower name) = true ↔
      Folds extra name := by
  rw [List.any_eq_true]
  constructor
  · intro hany
    obtain ⟨entry, hmem, heq⟩ := hany
    obtain ⟨⟨hextra, hq⟩, -⟩ := mem_furtherNames.mp hmem
    exact ⟨entry, hextra, hq, beq_iff_eq.mp heq⟩
  · intro hfolds
    obtain ⟨entry, hextra, hq, heq⟩ := hfolds
    refine ⟨entry, mem_furtherNames.mpr ⟨⟨hextra, hq⟩, ?_⟩, beq_iff_eq.mpr heq⟩
    intro hmem
    rw [isKnown_of_mem hmem heq] at h
    cases h

theorem turnsPlain_iff_of_unknown {r : Registry} {name : String} (h : r.isKnown name = false)
    (extra : List String) : r.TurnsPlain extra name ↔ Folds extra name := by
  simp [TurnsPlain, KnownFolded, h]

theorem turnsPlain_iff_of_known {r : Registry} {name : String} (h : r.isKnown name = true)
    (extra : List String) :
    r.TurnsPlain extra name ↔ r.KnownFolded name ∧ Spelled extra name := by
  simp [TurnsPlain, h]

/-- A registry looks names up as before, but for those that further names make plain. -/
theorem find?_append (known extra : List String) (name : String) :
    (ofKnown (known ++ extra)).find? name =
      if (ofKnown known).TurnsPlain extra name then some .plain
      else (ofKnown known).find? name := by
  have hbefore := (lists_ofKnown known).find?_eq name
  have hcontains := contains_ofKnown known name
  have hmem := (lists_ofKnown known).contains_iff name
  rw [find?_append_eq]
  cases hspelled : firstRule (entries known) (· == name) with
  | some rule =>
    rw [hspelled] at hbefore hcontains
    have hknown : (ofKnown known).isKnown name = true := by
      rw [isKnown, hbefore]
      rfl
    have hstays : ¬ (ofKnown known).TurnsPlain extra name := by
      rw [turnsPlain_iff_of_known hknown, KnownFolded, hcontains]
      simp
    rw [if_neg hstays, hbefore]
    rfl
  | none =>
    rw [hspelled, Option.none_or] at hbefore
    rw [hspelled] at hcontains
    rw [hcontains, Option.isSome_none, Bool.false_eq_true, false_iff] at hmem
    rw [Option.none_or, ← hbefore]
    cases hfind : (ofKnown known).find? name with
    | some rule =>
      have hknown : (ofKnown known).isKnown name = true := by
        rw [isKnown, hfind]
        rfl
      have hturns : (ofKnown known).TurnsPlain extra name ↔
          name ∈ addedNames (extra.filter (· ∉ known)) := by
        rw [turnsPlain_iff_of_known hknown, KnownFolded, hcontains, mem_furtherNames]
        simp [hknown, hmem]
      simp only [hturns, Option.some_or]
      split <;> rfl
    | none =>
      have hunknown : (ofKnown known).isKnown name = false := by
        rw [isKnown, hfind]
        rfl
      simp only [turnsPlain_iff_of_unknown hunknown, any_furtherNames_iff hunknown,
        mem_furtherNames, Option.none_or]
      -- a name that is spelled out has its own lowercase
      split
      · rename_i hspells
        rw [if_pos hspells.1.folds]
        rfl
      · rfl

theorem isKnown_append (known extra : List String) (name : String) :
    (ofKnown (known ++ extra)).isKnown name = true ↔
      (ofKnown known).isKnown name = true ∨ Folds extra name := by
  rw [isKnown, find?_append]
  cases hknown : (ofKnown known).isKnown name with
  | true =>
    rw [isKnown] at hknown
    split
    · exact iff_of_true rfl (.inl rfl)
    · exact iff_of_true hknown (.inl rfl)
  | false =>
    simp only [turnsPlain_iff_of_unknown hknown, Bool.false_eq_true, false_or]
    rw [isKnown] at hknown
    split
    · rename_i hfolds
      exact iff_of_true rfl hfolds
    · rename_i hfolds
      rw [hknown]
      exact iff_of_false Bool.false_ne_true hfolds

theorem get_append (known extra : List String) (name : String) :
    (ofKnown (known ++ extra)).get name =
      if (ofKnown known).TurnsPlain extra name then .plain else (ofKnown known).get name := by
  rw [get, find?_append, get]
  split <;> rfl

theorem folds_iff {extra : List String} {name : String} :
    Folds extra name ↔ ∃ entry ∈ extra, ¬ Qualified entry ∧
      (entry = name ∨ Text.lower entry = Text.lower name) := by
  have hsame : ∀ entry, entry = name ∨ Text.lower entry = Text.lower name ↔
      Text.lower entry = Text.lower name := by
    intro entry
    exact or_iff_right_of_imp (congrArg Text.lower)
  simp only [hsame]
  rfl

end Registry

end Templating.Tag

namespace Templating.CommandLine

open Tag (Rule Registry)

/-- What is reported of a name where elements are known besides those of a document. -/
def TagReport.besides (extra : List String) (space : Option String) (name : String) : TagReport :=
  if Registry.dom.TurnsPlain extra name then ⟨name, true, .plain, Rule.plain.contentIn space⟩
  else .ofName .dom space name

theorem ofName_registry (config : Config) (space : Option String) (name : String) :
    TagReport.ofName config.registry space name =
      .besides config.extraElements space name := by
  have hfind := Registry.find?_append Tag.domElements config.extraElements name
  rw [TagReport.ofName, Registry.isKnown, Registry.get, Config.registry, hfind,
    TagReport.besides, Registry.dom]
  split <;> rfl

end Templating.CommandLine

namespace Templating.Tag.Registry

/-- Further names change a rule only if it was found by the lowercase of the name and the name is
spelled out among them, and the rule is plain then. They make an unknown name known, and plain, if
one of them is the name or has its lowercase. What is reported of a name under a configuration is
what is reported of the elements of a document, but for just these changes. -/
theorem extended_names :
    (∀ known extra name, (ofKnown known).isKnown name = true →
      (ofKnown (known ++ extra)).isKnown name = true ∧
      (ofKnown (known ++ extra)).get name =
        if (ofKnown known).KnownFolded name ∧ Spelled extra name then .plain
        else (ofKnown known).get name) ∧
    (∀ known extra name, (ofKnown known).isKnown name = false →
      ((ofKnown (known ++ extra)).isKnown name = true ↔
        ∃ entry ∈ extra, ¬ Qualified entry ∧
          (entry = name ∨ Text.lower entry = Text.lower name)) ∧
      ((ofKnown (known ++ extra)).isKnown name = true →
        (ofKnown (known ++ extra)).get name = .plain)) ∧
    ∀ config names space format,
      (CommandLine.tag config names space format).result =
        .ok ⟨some (CommandLine.TagReport.print
          (names.map (.besides config.extraElements space)) format), []⟩ := by
  refine ⟨?_, ?_, ?_⟩
  · intro known extra name hknown
    refine ⟨(isKnown_append known extra name).mpr (.inl hknown), ?_⟩
    simp only [get_append, turnsPlain_iff_of_known hknown]
  · intro known extra name hunknown
    have hiff : (ofKnown (known ++ extra)).isKnown name = true ↔ Folds extra name := by
      rw [isKnown_append, hunknown, Bool.false_eq_true, false_or]
    refine ⟨hiff.trans folds_iff, ?_⟩
    intro hknown
    rw [get_append, if_pos ((turnsPlain_iff_of_unknown hunknown extra).mpr (hiff.mp hknown))]
  · intro config names space format
    rw [CommandLine.tag, funext (CommandLine.ofName_registry config space)]

/-- A listed name in other letters loses its rule once it is spelled out, and an unknown name
becomes known in all its spellings; a name with a namespace has no effect. -/
theorem extended_names_respelled :
    (ofKnown ["div"]).isKnown "foreignobject" = true ∧
    (ofKnown ["div"]).get "foreignobject" = { impliedSpace := some "svg", isolatesSpace := true } ∧
    (ofKnown (["div"] ++ [":x:y", "foreignobject", "app-root"])).get "foreignobject" = .plain ∧
    (ofKnown ["div"]).isKnown "App-Root" = false ∧
    (ofKnown (["div"] ++ [":x:y", "foreignobject", "app-root"])).get "App-Root" = .plain := by
  have hlisted : (ofKnown ["div"]).find? "foreignobject" =
      some { impliedSpace := some "svg", isolatesSpace := true } := by
    rw [find?_ofKnown]
    decide +kernel
  have hknown : (ofKnown ["div"]).isKnown "foreignobject" = true := by
    rw [isKnown, hlisted]
    rfl
  have hfolded : (ofKnown ["div"]).KnownFolded "foreignobject" := by
    refine ⟨?_, hknown⟩
    rw [contains_ofKnown]
    decide
  have hunknown : (ofKnown ["div"]).isKnown "App-Root" = false := by
    rw [isKnown, find?_ofKnown]
    decide +kernel
  obtain ⟨hbefore, hafter, -⟩ := extended_names
  refine ⟨hknown, by rw [get, hlisted]; rfl, ?_, hunknown, ?_⟩
  · rw [(hbefore _ [":x:y", "foreignobject", "app-root"] _ hknown).2, if_pos ⟨hfolded, by decide⟩]
  · obtain ⟨hiff, hplain⟩ := hafter _ [":x:y", "foreignobject", "app-root"] _ hunknown
    exact hplain (hiff.mpr ⟨"app-root", by decide, by decide, .inr (by decide +kernel)⟩)

end Templating.Tag.Registry
