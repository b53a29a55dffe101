import Mathlib.Data.List.Perm.Basic
import Templating.Proofs.FoldedLookups

namespace Templating.Tag.Registry

/-- The same names are known, apart from those that are qualified or listed. -/
def SameNames (known other : List String) : Prop :=
  ∀ name, ¬ Qualified name → name ∉ listedNames → (name ∈ known ↔ name ∈ other)

variable {known other : List String}

theorem SameNames.mem_addedNames_iff (h : SameNames known other) (name : String) :
    name ∈ addedNames known ↔ name ∈ addedNames other := by
  rw [mem_addedNames, mem_addedNames]
  constructor
  · intro hmem
    rcases hmem with ⟨hk, hq, hl⟩
    exact ⟨(h name hq hl).mp hk, hq, hl⟩
  · intro hmem
    rcases hmem with ⟨ho, hq, hl⟩
    exact ⟨(h name hq hl).mpr ho, hq, hl⟩

theorem SameNames.firstRule_eq (h : SameNames known other) (p : String → Bool) :
    firstRule (entries known) p = firstRule (entries other) p := by
  have hany : (addedNames known).any p = (addedNames other).any p := by
    rw [Bool.eq_iff_iff, List.any_eq_true, List.any_eq_true]
    simp only [h.mem_addedNames_iff]
  rw [entries, entries, firstRule_append, firstRule_append, firstRule_plain, firstRule_plain, hany]

/-- A name is looked up alike in both registries, at whatever indices it is found. -/
theorem SameNames.find?_eq (h : SameNames known other) (name : String) :
    (ofKnown known).find? name = (ofKnown other).find? name := by
  rw [(lists_ofKnown known).find?_eq, (lists_ofKnown other).find?_eq, h.firstRule_eq,
    h.firstRule_eq]

theorem addedNames_nodup (known : List String) : (addedNames known).Nodup := by
  induction known using List.reverseRec with
  | nil => exact .nil
  | append_singleton known name ih =>
    rw [addedNames_concat]
    split
    · exact ih
    · rename_i hout
      rw [← List.concat_eq_append]
      exact ih.concat fun hmem => hout (.inr (.inl (mem_addedNames.mp hmem).1))

theorem SameNames.perm (h : SameNames known other) :
    (addedNames known).Perm (addedNames other) :=
  (List.perm_ext_iff_of_nodup (addedNames_nodup known) (addedNames_nodup other)).mpr
    h.mem_addedNames_iff

theorem size_ofKnown (known : List String) :
    (ofKnown known).size = listedRules.length + (addedNames known).length := by
  rw [size, (lists_ofKnown known).size_eq, entries, List.length_append, List.length_map]

theorem names_entries_nodup (known : List String) : ((entries known).map Prod.fst).Nodup := by
  rw [names_entries, List.nodup_append']
  exact ⟨listedNames_nodup, addedNames_nodup known, fun _ hl ha => (mem_addedNames.mp ha).2.2 hl⟩

theorem idxOf?_eq_some_iff_of_nodup {xs : List String} (hn : xs.Nodup) {a : String} {i : Nat} :
    xs.idxOf? a = some i ↔ xs[i]? = some a := by
  rw [List.idxOf?_eq_some_iff, List.getElem?_eq_some_iff]
  constructor
  · intro h
    rcases h with ⟨hi, ha, -⟩
    exact ⟨hi, ha⟩
  · intro h
    rcases h with ⟨hi, ha⟩
    refine ⟨hi, ha, ?_⟩
    intro j hj heq
    exact absurd ((hn.getElem_inj_iff).mp (heq.trans ha.symm)) (Nat.ne_of_lt hj)

/-- Lists without repetitions are known by the places of their items. -/
theorem eq_of_idxOf? {xs ys : List String} (hx : xs.Nodup) (hy : ys.Nodup)
    (h : ∀ a, xs.idxOf? a = ys.idxOf? a) : xs = ys := by
  apply List.ext_getElem?
  intro i
  apply Option.ext
  intro a
  rw [← idxOf?_eq_some_iff_of_nodup hx, h, idxOf?_eq_some_iff_of_nodup hy]

theorem exact_ofKnown (known : List String) (name : String) :
    (ofKnown known).exact[name]? = (listedNames ++ addedNames known).idxOf? name := by
  rw [(lists_ofKnown known).exact, ← names_entries, List.idxOf?, List.findIdx?_map]
  rfl

/-- The indices of the names tell their order. -/
theorem exact_eq_iff :
    (∀ name : String, (ofKnown known).exact[name]? = (ofKnown other).exact[name]?) ↔
      addedNames known = addedNames other := by
  simp only [exact_ofKnown]
  constructor
  · intro h
    have hk := names_entries_nodup known
    have ho := names_entries_nodup other
    rw [names_entries] at hk ho
    exact List.append_cancel_left (eq_of_idxOf? hk ho h)
  · intro h name
    rw [h]

/-- Registries of the same names have the same size and the same rule for every name, and know the
same ones, although they number them alike only where the order of first occurrence is the same. -/
theorem unordered_names (h : SameNames known other) :
    (∀ name, (ofKnown known).get name = (ofKnown other).get name ∧
      (ofKnown known).isKnown name = (ofKnown other).isKnown name) ∧
    (ofKnown known).size = (ofKnown other).size ∧
    ((∀ name : String, (ofKnown known).exact[name]? = (ofKnown other).exact[name]?) ↔
      addedNames known = addedNames other) := by
  refine ⟨?_, ?_, exact_eq_iff⟩
  · intro name
    have hfind := h.find?_eq name
    exact ⟨by rw [get, get, hfind], by rw [isKnown, isKnown, hfind]⟩
  · rw [size_ofKnown, size_ofKnown, h.perm.length_eq]

/-- Two spellings of one name, in either order, once beside names that do not count. -/
theorem unordered_names_spelled :
    SameNames ["Widget", "widget"] [":svg:a", "widget", "br", "Widget", "widget"] ∧
    (ofKnown ["Widget", "widget"]).get "WIDGET" =
      (ofKnown [":svg:a", "widget", "br", "Widget", "widget"]).get "WIDGET" ∧
    (ofKnown ["Widget", "widget"]).size =
      (ofKnown [":svg:a", "widget", "br", "Widget", "widget"]).size ∧
    ∃ name : String, (ofKnown ["Widget", "widget"]).exact[name]? ≠
      (ofKnown [":svg:a", "widget", "br", "Widget", "widget"]).exact[name]? := by
  have hsame : SameNames ["Widget", "widget"] [":svg:a", "widget", "br", "Widget", "widget"] := by
    intro name hq hl
    have hqualified : name ≠ ":svg:a" := by
      rintro rfl
      exact hq (by decide)
    have hlisted : name ≠ "br" := by
      rintro rfl
      exact hl (by decide)
    simp only [List.mem_cons, List.not_mem_nil, hqualified, hlisted]
    tauto
  obtain ⟨hrules, hsize, hindex⟩ := unordered_names hsame
  refine ⟨hsame, (hrules "WIDGET").1, hsize, ?_⟩
  rw [← not_forall, hindex]
  decide

end Templating.Tag.Registry
