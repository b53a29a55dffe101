import Templating.Proofs.PlayedPlans
import Templating.Proofs.Retellings

namespace Templating

namespace Builder

theorem lines_eq_of_recorded {b b' : Builder} (h : b.recorded = b'.recorded) :
    b.lines = b'.lines := by
  have hreverse : Function.Injective (List.reverse : List Segment → List Segment) :=
    List.reverse_injective
  exact List.map_injective_iff.mpr hreverse (List.reverse_injective h)

/-- A well-formed builder is known by its file, its sources and its segments. -/
theorem WellFormed.eq_of_recorded {b b' : Builder} (h : WellFormed b) (h' : WellFormed b')
    (hfile : b.file = b'.file) (hsources : b.sources = b'.sources)
    (hrec : b.recorded = b'.recorded) : b = b' := by
  have hlines := lines_eq_of_recorded hrec
  have hcolumn : b.lastColumn = b'.lastColumn := by rw [h.tracked, h'.tracked, hrec]
  have hmarked : b.hasMappings = b'.hasMappings := by
    rw [Bool.eq_iff_iff, h.marked, h'.marked, hrec]
  cases b
  cases b'
  rw [Builder.mk.injEq]
  exact ⟨hfile, hsources, hlines, hcolumn, hmarked⟩

/-- A mapping leaves the file and the sources alone, added or refused. -/
theorem after_mapping_frame (b : Builder) (m : Mapping) :
    (b.after (.mapping m)).file = b.file ∧ (b.after (.mapping m)).sources = b.sources := by
  rcases b.after_mapping_cases m with hm | hm
  · rw [hm]
    exact ⟨rfl, rfl⟩
  · obtain ⟨_, _, _, _, _, _, hb⟩ := addMapping_ok_iff.mp hm
    rw [hb]
    exact ⟨rfl, rfl⟩

theorem after_file (b : Builder) (step : Step) : (b.after step).file = b.file := by
  cases step with
  | source s =>
    rw [after_source, addSource]
    split <;> rfl
  | line => rfl
  | mapping m => exact (after_mapping_frame b m).1

theorem run_file (b : Builder) (steps : List Step) : (b.run steps).file = b.file := by
  induction steps generalizing b with
  | nil => rfl
  | cons step rest ih => rw [run_cons, ih, after_file]

/-- Only the registration of a source changes the sources. -/
theorem after_sources {b : Builder} {step : Step} (h : step.url? = none) :
    (b.after step).sources = b.sources := by
  cases step with
  | source s => cases h
  | line => rfl
  | mapping m => exact (after_mapping_frame b m).2

theorem run_sources {b : Builder} {steps : List Step} (h : ∀ step ∈ steps, step.url? = none) :
    (b.run steps).sources = b.sources := by
  induction steps generalizing b with
  | nil => rfl
  | cons step rest ih =>
    have hrest : ∀ later ∈ rest, later.url? = none := fun later hl =>
      h later (List.mem_cons_of_mem _ hl)
    rw [run_cons, ih hrest, after_sources (h step List.mem_cons_self)]

theorem url?_of_mem_retelling {urls : List String} {lines : List (List Segment)} {step : Step}
    (h : step ∈ retelling urls lines) : step.url? = none := by
  obtain ⟨ss, -, hstep⟩ := List.mem_flatMap.mp h
  rcases List.mem_cons.mp hstep with rfl | hstep
  · rfl
  · obtain ⟨s, -, rfl⟩ := List.mem_map.mp hstep
    rfl

/-- Sources under new URLs are all registered as they are. -/
theorem play_sources {b : Builder} {ss : List Source}
    (h : (b.urls ++ ss.map Source.url).Nodup) :
    b.play (ss.map .source) = ({ b with sources := b.sources ++ ss }, none) := by
  induction ss generalizing b with
  | nil => simp [play]
  | cons s ss ih =>
    have hnew : s.url ∉ b.urls := by
      rw [List.nodup_append'] at h
      exact fun hmem => h.2.2 hmem (List.mem_map_of_mem List.mem_cons_self)
    have hadd : b.addSource s = { b with sources := b.sources ++ [s] } := if_neg hnew
    have hurls : (b.addSource s).urls = b.urls ++ [s.url] := by rw [addSource_urls, if_neg hnew]
    rw [List.map_cons, List.append_cons, ← hurls] at h
    rw [List.map_cons, play, apply]
    change (b.addSource s).play (ss.map .source) = _
    rw [ih h, hadd, List.append_assoc, List.singleton_append]

end Builder

namespace Plan

open Builder

/-- The plan that tells what a builder holds. -/
def telling (b : Builder) : Plan where
  file := b.file
  sources := b.sources
  lines := b.recorded.map fun ss => ss.map (mappingOf b.urls)

theorem steps_telling (b : Builder) :
    (telling b).steps = b.sources.map .source ++ retelling b.urls b.recorded := by
  simp [telling, steps, retelling, List.flatMap_map, Function.comp_def]

theorem replay_of_play {p : Plan} {defaultFile : Option String} {b : Builder}
    (h : (p.start defaultFile).play p.steps = (b, none)) : p.replay defaultFile = .ok b := by
  rw [replay, play, h]

/-- The plan of a well-formed builder leads to the builder itself. -/
theorem replay_telling {b : Builder} (h : WellFormed b) : (telling b).replay none = .ok b := by
  have hstart : (telling b).start none = { file := b.file } := by simp [start, telling]
  have hsources : ((telling b).start none).play (b.sources.map .source) =
      ({ file := b.file, sources := b.sources }, none) := by
    rw [hstart]
    exact play_sources (b := { file := b.file }) h.distinct
  obtain ⟨b', hplay, -, hrec, -⟩ := play_retelling
    (b := { file := b.file, sources := b.sources }) h.distinct h.known h.sorted
  have hall : ((telling b).start none).play (telling b).steps = (b', none) := by
    rw [steps_telling, play_append _ hsources]
    exact hplay
  have hwell : WellFormed b' := by
    rw [← (run_of_play 0 hall).1, hstart]
    exact (wellFormed_start b.file).run _
  have hrun := (run_of_play 0 hplay).1
  have hsame : b' = b := by
    refine hwell.eq_of_recorded h ?_ ?_ hrec
    · rw [← hrun, run_file]
    · rw [← hrun, run_sources fun step hs => url?_of_mem_retelling hs]
  rw [replay_of_play hall, hsame]

/-- Whatever a new builder was told, refusals included, some plan with its file is replayed to the
same builder, with the same map, text and comment. -/
theorem planned_run (file : Option String) (steps : List Step) :
    ∃ (p : Plan) (b : Builder), p.file = file ∧ p.replay none = .ok b ∧
      b = ({ file := file } : Builder).run steps ∧
      b.map? = (({ file := file } : Builder).run steps).map? ∧
      b.text = (({ file := file } : Builder).run steps).text ∧
      b.comment = (({ file := file } : Builder).run steps).comment := by
  have hwell := (wellFormed_start file).run steps
  refine ⟨telling (({ file := file } : Builder).run steps), _, ?_, replay_telling hwell, rfl, rfl,
    rfl, rfl⟩
  exact run_file { file := file } steps

end Plan

end Templating
