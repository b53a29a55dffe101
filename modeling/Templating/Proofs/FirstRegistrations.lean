import Templating.Proofs.CompletePlans

namespace Templating.Builder

def Step.source? : Step → Option Source
  | .source s => some s
  | _ => none

/-- The sources that steps register, repeated ones included. -/
def registrations (steps : List Step) : List Source :=
  steps.filterMap Step.source?

/-- The source that is registered first under a URL. -/
def firstRegistration (steps : List Step) (url : String) : Option Source :=
  (registrations steps).find? (·.url == url)

theorem map_url_registrations (steps : List Step) :
    (registrations steps).map Source.url = steps.filterMap Step.url? := by
  have hurl : ∀ step : Step, step.source?.map Source.url = step.url? := by
    intro step
    cases step <;> rfl
  rw [registrations, List.map_filterMap]
  simp only [hurl]

theorem firstRegistration_concat (steps : List Step) (step : Step) (url : String) :
    firstRegistration (steps ++ [step]) url =
      (firstRegistration steps url).or (step.source?.filter (·.url == url)) := by
  rw [firstRegistration, registrations, List.filterMap_append, List.find?_append,
    ← registrations, ← firstRegistration]
  cases step with
  | source s => cases hs : s.url == url <;> simp [Step.source?, hs, Option.filter]
  | line => rfl
  | mapping m => rfl

/-- A URL that no step has registered has no first registration. -/
theorem firstRegistration_eq_none {file : Option String} {steps : List Step} {url : String}
    (h : url ∉ (({ file := file } : Builder).run steps).urls) :
    firstRegistration steps url = none := by
  rw [run_urls, List.mem_eraseDups, ← map_url_registrations] at h
  apply List.find?_eq_none.mpr
  intro s hs heq
  exact h (List.mem_map.mpr ⟨s, hs, by simpa using heq⟩)

/-- Every source of a run is the first that was registered under its URL. -/
theorem firstRegistration_of_mem {file : Option String} {steps : List Step} :
    ∀ s ∈ (({ file := file } : Builder).run steps).sources,
      firstRegistration steps s.url = some s := by
  induction steps using List.reverseRecOn with
  | nil => simp [run]
  | append_singleton steps step ih =>
    intro s hs
    rw [run_append, run_cons, run, List.foldl_nil] at hs
    rw [firstRegistration_concat]
    -- a source that was there before has been registered before
    have hold : s ∈ (({ file := file } : Builder).run steps).sources →
        (firstRegistration steps s.url).or (step.source?.filter (·.url == s.url)) = some s := by
      intro h
      rw [ih s h, Option.some_or]
    cases step with
    | source r =>
      rw [after_source, addSource] at hs
      split at hs
      · exact hold hs
      · rename_i hnew
        rcases List.mem_append.mp hs with hs | hs
        · exact hold hs
        · obtain rfl := List.mem_singleton.mp hs
          rw [firstRegistration_eq_none hnew]
          simp [Step.source?, Option.filter]
    | line => exact hold hs
    | mapping m =>
      rw [after_sources rfl] at hs
      exact hold hs

theorem sources_prefix_after (b : Builder) (step : Step) :
    b.sources <+: (b.after step).sources := by
  cases step with
  | source s =>
    rw [after_source, addSource]
    split
    · exact List.prefix_refl _
    · exact List.prefix_append _ _
  | line => exact List.prefix_refl _
  | mapping m =>
    have hsources : (b.after (.mapping m)).sources = b.sources := after_sources rfl
    exact hsources ▸ List.prefix_refl _

/-- Sources are registered behind those that are there. -/
theorem sources_prefix_run (b : Builder) (steps : List Step) :
    b.sources <+: (b.run steps).sources := by
  induction steps generalizing b with
  | nil => exact List.prefix_refl _
  | cons step rest ih => exact (sources_prefix_after b step).trans (ih (b.after step))

/-- What is found in the front of a list is found at the same place in the whole. -/
theorem idxOf?_of_prefix [BEq α] {xs ys : List α} {a : α} {i : Nat} (h : xs <+: ys)
    (hi : xs.idxOf? a = some i) : ys.idxOf? a = some i := by
  obtain ⟨zs, rfl⟩ := h
  rw [List.idxOf?] at hi ⊢
  rw [List.findIdx?_append, hi, Option.some_or]

/-- The sources of a run are the URLs that were registered, each once in the order of their first
registration. Its map lists them all, each with the content of its first registration, where an
empty content counts as none; and a URL keeps the index that it was given. -/
theorem first_registrations (file : Option String) (steps : List Step) :
    (({ file := file } : Builder).run steps).urls =
      ((registrations steps).map Source.url).eraseDups ∧
    (({ file := file } : Builder).run steps).urls.Nodup ∧
    (∀ m, (({ file := file } : Builder).run steps).map? = some m →
      m.sources = ((registrations steps).map Source.url).eraseDups ∧
      m.sourcesContent.length = m.sources.length ∧
      ∀ (i : Nat) (url : String), m.sources[i]? = some url →
        ∃ s content, firstRegistration steps url = some s ∧
          m.sourcesContent[i]? = some content ∧
          ∀ text, content = some text ↔ s.content = some text ∧ text ≠ "") ∧
    ∀ (url : String) (i : Nat),
      (({ file := file } : Builder).run steps).urls.idxOf? url = some i →
      ∀ later, (({ file := file } : Builder).run (steps ++ later)).urls.idxOf? url = some i := by
  have hurls := run_urls file steps
  rw [← map_url_registrations] at hurls
  refine ⟨hurls, ((wellFormed_start file).run steps).distinct, ?_, ?_⟩
  · intro m hm
    unfold map? at hm
    split at hm
    · cases hm
      refine ⟨hurls, by simp [urls], ?_⟩
      intro i url hi
      dsimp only at hi ⊢
      rw [urls, List.getElem?_map, Option.map_eq_some_iff] at hi
      obtain ⟨s, hs, rfl⟩ := hi
      refine ⟨s, s.content.filter (· ≠ ""), firstRegistration_of_mem s (List.mem_of_getElem? hs),
        ?_, ?_⟩
      · rw [List.getElem?_map, hs, Option.map_some]
      · intro text
        rw [Option.filter_eq_some_iff, decide_eq_true_eq]
    · cases hm
  · intro url i hi later
    rw [run_append]
    exact idxOf?_of_prefix ((sources_prefix_run _ later).map Source.url) hi

/-- One source is registered again with a content that comes too late, another with an empty one. -/
def lateSteps : List Step := [
  .source ⟨"a", none⟩, .line, .mapping ⟨4, some "a", some 1, some 2⟩, .source ⟨"b", some ""⟩,
  .source ⟨"a", some "x"⟩, .source ⟨"b", some "y"⟩]

theorem first_registrations_late :
    ∃ m, (({} : Builder).run lateSteps).map? = some m ∧ m.sources = ["a", "b"] ∧
      m.sourcesContent = [none, none] ∧
      (({} : Builder).run (lateSteps ++ mixedSteps)).urls.idxOf? "b" = some 1 := by
  obtain ⟨m, hm⟩ : ∃ m, (({} : Builder).run lateSteps).map? = some m := by
    rw [map?, if_pos (by decide)]
    exact ⟨_, rfl⟩
  obtain ⟨-, -, hmap, hindex⟩ := first_registrations none lateSteps
  obtain ⟨hsources, hlength, hcontent⟩ := hmap m hm
  have hlisted : m.sources = ["a", "b"] := hsources.trans (by decide)
  have hmissing : ∀ (i : Nat) (url : String), m.sources[i]? = some url →
      (firstRegistration lateSteps url).bind Source.content ∈ [none, some ""] →
      m.sourcesContent[i]? = some none := by
    intro i url hi hfirst
    obtain ⟨s, content, hs, hfound, hiff⟩ := hcontent i url hi
    have hnone : content = none := by
      apply Option.eq_none_iff_forall_ne_some.mpr
      intro text htext
      obtain ⟨hgiven, hne⟩ := (hiff text).mp htext
      simp [hs, hgiven, hne] at hfirst
    rw [hfound, hnone]
  have hfirst := hmissing 0 "a" (by rw [hlisted]; rfl) (by decide)
  have hsecond := hmissing 1 "b" (by rw [hlisted]; rfl) (by decide)
  refine ⟨m, hm, hlisted, ?_, hindex "b" 1 (by decide) mixedSteps⟩
  rw [hlisted] at hlength
  obtain ⟨x, y, hxy⟩ := List.length_eq_two.mp hlength
  rw [hxy] at hfirst hsecond ⊢
  rw [Option.some.inj hfirst, Option.some.inj hsecond]

end Templating.Builder
