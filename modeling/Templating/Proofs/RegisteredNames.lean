import Mathlib.Data.List.Induction
import Mathlib.Data.List.Nodup
import Templating.Proofs.QualifiedNames
import Templating.Tag.Registry

namespace Templating.Tag

def listedNames : List String :=
  listedRules.map Prod.fst

theorem listedNames_nodup : listedNames.Nodup := by
  decide

namespace Registry

/-- The known names that are registered, each at its first occurrence. -/
def addedNames (known : List String) : List String :=
  (known.filter fun name => ¬ Qualified name ∧ name ∉ listedNames).eraseDups

/-- All registered names in order, with their rules. -/
def entries (known : List String) : List (String × Rule) :=
  listedRules ++ (addedNames known).map (·, .plain)

/-- The rule of the first entry whose name passes a test. -/
def firstRule (es : List (String × Rule)) (p : String → Bool) : Option Rule :=
  (es.find? (p ·.1)).map Prod.snd

theorem isSome_firstRule (es : List (String × Rule)) (p : String → Bool) :
    (firstRule es p).isSome = es.any (p ·.1) := by
  rw [Bool.eq_iff_iff]
  simp [firstRule]

theorem firstRule_append (es fs : List (String × Rule)) (p : String → Bool) :
    firstRule (es ++ fs) p = (firstRule es p).or (firstRule fs p) := by
  rw [firstRule, List.find?_append, Option.map_or]
  rfl

theorem firstRule_plain (names : List String) (p : String → Bool) :
    firstRule (names.map (·, .plain)) p = if names.any p then some .plain else none := by
  induction names with
  | nil => rfl
  | cons name names ih =>
    cases hp : p name with
    | true => simp [firstRule, hp]
    | false =>
      rw [List.map_cons, firstRule, List.find?_cons_of_neg (by simp [hp]), List.any_cons, hp,
        Bool.false_or]
      exact ih

/-- A listed name has its own rule, a known one is plain, and any other has the rule of the first
name with the same lowercase. -/
def resolution (known : List String) (name : String) : Option Rule :=
  if name ∈ listedNames then firstRule listedRules (· == name)
  else if name ∈ known ∧ ¬ Qualified name then some .plain
  else firstRule (entries known) (Text.lower · == Text.lower name)

/-- The registry holds the rules of entries in order, and its indices give the place of the first
entry that is spelled or folded like a name. -/
structure Lists (r : Registry) (es : List (String × Rule)) : Prop where
  rules : r.rules.toList = es.map Prod.snd
  exact : ∀ name, r.exact[name]? = es.findIdx? (·.1 == name)
  folded : ∀ name, r.folded[name]? = es.findIdx? (Text.lower ·.1 == name)

variable {r : Registry} {es : List (String × Rule)}

theorem Lists.size_eq (h : r.Lists es) : r.rules.size = es.length := by
  rw [← Array.length_toList, h.rules, List.length_map]

theorem lists_empty : ({} : Registry).Lists [] := by
  refine ⟨rfl, ?_, ?_⟩ <;> simp

/-- A new name goes behind all entries. Its lowercase stays with an entry that has it already. -/
theorem Lists.insert (h : r.Lists es) {name : String} (rule : Rule)
    (hn : name ∉ es.map Prod.fst) : (r.insert name rule).Lists (es ++ [(name, rule)]) := by
  refine ⟨?_, ?_, ?_⟩
  · simp [Registry.insert, h.rules]
  · intro other
    simp only [Registry.insert, Std.HashMap.getElem?_insert, List.findIdx?_append, h.exact,
      List.findIdx?_singleton]
    by_cases ho : name = other
    · subst ho
      have hnone : es.findIdx? (·.1 == name) = none := by
        rw [List.findIdx?_eq_none_iff]
        intro e he
        exact beq_false_of_ne fun heq => hn (heq ▸ List.mem_map_of_mem he)
      simp [hnone, h.size_eq]
    · simp [ho]
  · intro lower
    simp only [Registry.insert, Std.HashMap.getElem?_insertIfNew, List.findIdx?_append, h.folded,
      List.findIdx?_singleton, Std.HashMap.mem_iff_isSome_getElem?]
    by_cases ho : Text.lower name = lower
    · subst ho
      -- beside an entry folded alike the old index stays, without one the new index comes in
      cases es.findIdx? (Text.lower ·.1 == Text.lower name) <;> simp [h.size_eq]
    · simp [ho]

theorem Lists.foldl_insert (h : r.Lists es) (added : List (String × Rule))
    (hn : ((es ++ added).map Prod.fst).Nodup) :
    (added.foldl (fun r (name, rule) => r.insert name rule) r).Lists (es ++ added) := by
  induction added generalizing r es with
  | nil => rwa [List.append_nil]
  | cons e added ih =>
    obtain ⟨name, rule⟩ := e
    have hnew : name ∉ es.map Prod.fst := by
      intro hmem
      rw [List.map_append, List.nodup_append'] at hn
      exact hn.2.2 hmem List.mem_cons_self
    rw [← List.singleton_append, ← List.append_assoc] at hn ⊢
    exact ih (h.insert rule hnew) hn

theorem lists_listed : listed.Lists listedRules :=
  lists_empty.foldl_insert listedRules listedNames_nodup

theorem Lists.contains_iff (h : r.Lists es) (name : String) :
    r.exact.contains name = true ↔ name ∈ es.map Prod.fst := by
  rw [Std.HashMap.contains_eq_isSome_getElem?, h.exact, List.findIdx?_isSome, List.any_eq_true]
  simp

theorem mem_addedNames {known : List String} {name : String} :
    name ∈ addedNames known ↔ name ∈ known ∧ ¬ Qualified name ∧ name ∉ listedNames := by
  simp [addedNames]

/-- Names that start like qualified ones and do not go on like them are registered. -/
example : addedNames [":svg", ":", "::x", "br", "Br", ":svg"] = [":svg", ":", "Br"] := by
  decide

theorem names_entries (known : List String) :
    (entries known).map Prod.fst = listedNames ++ addedNames known := by
  simp [entries, listedNames, Function.comp_def]

theorem mem_names_entries {known : List String} {name : String} :
    name ∈ (entries known).map Prod.fst ↔
      name ∈ listedNames ∨ name ∈ known ∧ ¬ Qualified name := by
  rw [names_entries, List.mem_append, mem_addedNames]
  tauto

/-- Further names stand behind those that were known before. -/
theorem addedNames_append (known extra : List String) :
    addedNames (known ++ extra) = addedNames known ++ addedNames (extra.filter (· ∉ known)) := by
  unfold addedNames
  rw [List.filter_append, List.eraseDups_append, List.removeAll, List.filter_filter,
    List.filter_filter]
  congr 2
  apply List.filter_congr
  intro name _
  by_cases hkept : ¬ Qualified name ∧ name ∉ listedNames <;> simp [hkept]

theorem addedNames_concat (known : List String) (name : String) :
    addedNames (known ++ [name]) =
      if name ∈ listedNames ∨ name ∈ known ∨ Qualified name then addedNames known
      else addedNames known ++ [name] := by
  rw [addedNames_append]
  split
  · rename_i hout
    have hnone : addedNames ([name].filter (· ∉ known)) = [] := by
      simp only [List.eq_nil_iff_forall_not_mem, mem_addedNames, List.mem_filter,
        List.mem_singleton, decide_eq_true_iff]
      rintro _ ⟨⟨rfl, hk⟩, hq, hl⟩
      tauto
    rw [hnone, List.append_nil]
  · rename_i hin
    have hkept : name ∉ listedNames ∧ name ∉ known ∧ ¬ Qualified name := by tauto
    simp [addedNames, hkept, List.eraseDups_cons]

/-- One more known name is one more entry, unless it is registered or has a namespace. -/
theorem entries_concat (known : List String) (name : String) :
    entries (known ++ [name]) =
      if name ∈ (entries known).map Prod.fst ∨ Qualified name then entries known
      else entries known ++ [(name, .plain)] := by
  have hout : name ∈ (entries known).map Prod.fst ∨ Qualified name ↔
      name ∈ listedNames ∨ name ∈ known ∨ Qualified name := by
    rw [mem_names_entries]
    tauto
  simp only [hout]
  rw [entries, addedNames_concat]
  split <;> simp [entries]

theorem Lists.know {known : List String} (h : r.Lists (entries known)) (name : String) :
    (r.know name).Lists (entries (known ++ [name])) := by
  have hguard : (r.exact.contains name || (spaceOf name).isSome) = true ↔
      name ∈ (entries known).map Prod.fst ∨ Qualified name := by
    rw [Bool.or_eq_true, h.contains_iff, isSome_spaceOf]
  rw [entries_concat, Registry.know]
  by_cases hout : name ∈ (entries known).map Prod.fst ∨ Qualified name
  · rw [if_pos hout, if_pos (hguard.mpr hout)]
    exact h
  · rw [if_neg hout, if_neg (mt hguard.mp hout)]
    exact h.insert .plain fun hmem => hout (.inl hmem)

/-- The entries of a registry are those of its known names. -/
theorem lists_ofKnown (known : List String) : (ofKnown known).Lists (entries known) := by
  induction known using List.reverseRec with
  | nil => exact lists_listed
  | append_singleton known name ih =>
    rw [ofKnown, List.foldl_append]
    exact ih.know name

/-- The index of an entry leads to its rule. -/
theorem Lists.bind_rules (h : r.Lists es) (p : String → Bool) :
    (es.findIdx? (p ·.1)).bind (r.rules[·]?) = firstRule es p := by
  have hget : ∀ index : Nat, r.rules[index]? = (es[index]?).map Prod.snd := by
    intro index
    rw [← Array.getElem?_toList, h.rules, List.getElem?_map]
  simp only [firstRule, List.find?_eq_bind_findIdx?_getElem?, Option.map_bind, hget]
  rfl

/-- The spelling of a name is looked at before its lowercase. -/
theorem Lists.find?_eq (h : r.Lists es) (name : String) :
    r.find? name = (firstRule es (· == name)).or
      (firstRule es (Text.lower · == Text.lower name)) := by
  have hspelled := h.bind_rules (· == name)
  rw [← h.bind_rules (Text.lower · == Text.lower name)]
  simp only [Registry.find?, h.exact, h.folded]
  cases hi : es.findIdx? (·.1 == name) with
  | none =>
    rw [hi] at hspelled
    rw [← hspelled]
    rfl
  | some index =>
    rw [hi] at hspelled
    have hsome : (firstRule es (· == name)).isSome = true := by
      rw [isSome_firstRule, ← List.findIdx?_isSome, hi]
      rfl
    obtain ⟨rule, hrule⟩ := Option.isSome_iff_exists.mp hsome
    rw [hrule] at hspelled ⊢
    exact hspelled

theorem find?_ofKnown (known : List String) (name : String) :
    (ofKnown known).find? name = resolution known name := by
  have hlisted : (firstRule listedRules (· == name)).isSome = true ↔ name ∈ listedNames := by
    rw [isSome_firstRule, listedNames]
    simp
  have hadded : (addedNames known).any (· == name) = true ↔ name ∈ addedNames known := by
    simp
  rw [(lists_ofKnown known).find?_eq, resolution]
  by_cases hl : name ∈ listedNames
  · obtain ⟨rule, hrule⟩ := Option.isSome_iff_exists.mp (hlisted.mpr hl)
    rw [if_pos hl, entries, firstRule_append, hrule]
    rfl
  · have hnone : firstRule listedRules (· == name) = none :=
      Option.not_isSome_iff_eq_none.mp (mt hlisted.mp hl)
    have hspelled : firstRule (entries known) (· == name) =
        if name ∈ known ∧ ¬ Qualified name then some .plain else none := by
      rw [entries, firstRule_append, hnone, firstRule_plain, Option.none_or]
      simp only [hadded, mem_addedNames, hl, not_false_eq_true, and_true]
    rw [if_neg hl, hspelled]
    split <;> rfl

/-- Every name is resolved by its spelling among the listed and then the known names, then by its
lowercase, and any other name has the permissive rule. -/
theorem resolved_known (known : List String) (name : String) :
    (ofKnown known).find? name = resolution known name ∧
    (ofKnown known).get name = (resolution known name).getD .permissive ∧
    (ofKnown known).isKnown name = (resolution known name).isSome ∧
    (ofKnown known).size = listedNames.length + (addedNames known).length := by
  have hfind := find?_ofKnown known name
  refine ⟨hfind, ?_, ?_, ?_⟩
  · rw [get, hfind]
  · rw [isKnown, hfind]
  · rw [size, (lists_ofKnown known).size_eq, entries, List.length_append, List.length_map,
      listedNames, List.length_map]

end Registry

end Templating.Tag
