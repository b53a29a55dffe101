import Templating.Plan
import Templating.Proofs.RecordedRuns

namespace Templating

namespace Builder

/-- All mappings that steps ask for, each with the number of the line it would fall on. -/
def asked (started : Nat) : List Step → List (Nat × Mapping)
  | [] => []
  | .source _ :: rest => asked started rest
  | .line :: rest => asked (started + 1) rest
  | .mapping m :: rest => (started - 1, m) :: asked started rest

/-- Steps that play to their end are a run in which every mapping was added. -/
theorem run_of_play {b b' : Builder} {steps : List Step} (started : Nat)
    (h : b.play steps = (b', none)) :
    b.run steps = b' ∧ b.accepted started steps = asked started steps := by
  induction steps generalizing b started with
  | nil =>
    cases h
    exact ⟨rfl, rfl⟩
  | cons step rest ih =>
    cases step with
    | source s => exact ih started h
    | line => exact ih (started + 1) h
    | mapping m =>
      rw [play, apply] at h
      rw [run_cons, after_mapping, accepted, asked]
      rcases b.addMapping_cases m with ⟨e, hm⟩ | ⟨b₁, hm⟩
      · rw [hm] at h
        cases h
      · rw [hm] at h ⊢
        obtain ⟨hrun, hall⟩ := ih started h
        exact ⟨hrun, congrArg ((started - 1, m) :: ·) hall⟩

/-- A step registers at most one source. -/
theorem length_urls_run (b : Builder) (steps : List Step) :
    (b.run steps).urls.length ≤ b.urls.length + (steps.filterMap Step.url?).length := by
  induction steps generalizing b with
  | nil => exact Nat.le_refl _
  | cons step rest ih =>
    have hrest := ih (b.after step)
    have hstep : (step.url?.toList.removeAll b.urls).length ≤ step.url?.toList.length :=
      List.length_filter_le _ _
    have hsplit : ((step :: rest).filterMap Step.url?).length =
        step.url?.toList.length + (rest.filterMap Step.url?).length := by
      cases hu : step.url? <;> simp [hu, Nat.add_comm]
    rw [run_cons, hsplit]
    rw [after_urls, List.length_append] at hrest
    omega

theorem asked_sources (started : Nat) (ss : List Source) (rest : List Step) :
    asked started (ss.map .source ++ rest) = asked started rest := by
  induction ss with
  | nil => rfl
  | cons s ss ih => exact ih

theorem asked_mappings (started : Nat) (ms : List Mapping) (rest : List Step) :
    asked started (ms.map .mapping ++ rest) = ms.map (started - 1, ·) ++ asked started rest := by
  induction ms with
  | nil => rfl
  | cons m ms ih => simp only [List.map_cons, List.cons_append, asked, ih]

end Builder

namespace Plan

open Builder

theorem asked_lines (started : Nat) (lines : List (List Mapping)) :
    asked started (lines.flatMap fun line => .line :: line.map .mapping) =
      (lines.zipIdx started).flatMap fun (ms, number) => ms.map (number, ·) := by
  induction lines generalizing started with
  | nil => rfl
  | cons line lines ih =>
    rw [List.flatMap_cons, List.cons_append, asked, asked_mappings, ih, List.zipIdx_cons,
      List.flatMap_cons, Nat.add_sub_cancel]

/-- The steps of a plan ask for its mappings in order. -/
theorem asked_steps (p : Plan) : asked 0 p.steps = placed p.lines := by
  rw [steps, asked_sources, asked_lines, placed]

theorem count_steps (p : Plan) : p.steps.count .line = p.lines.length := by
  have hsources : (p.sources.map Step.source).count .line = 0 := by
    rw [List.count_eq_zero]
    simp
  have hline : ∀ ms : List Mapping, (ms.map Step.mapping).count .line = 0 := by
    intro ms
    rw [List.count_eq_zero]
    simp
  have hlines : ∀ lines : List (List Mapping),
      (lines.flatMap fun line => Step.line :: line.map .mapping).count .line = lines.length := by
    intro lines
    induction lines with
    | nil => rfl
    | cons line lines ih =>
      rw [List.flatMap_cons, List.cons_append, List.count_cons_self, List.count_append, hline, ih,
        Nat.zero_add, List.length_cons]
  rw [steps, List.count_append, hsources, hlines, Nat.zero_add]

theorem urls_steps (p : Plan) : p.steps.filterMap Step.url? = p.sources.map Source.url := by
  have hlines : (p.lines.flatMap fun line => Step.line :: line.map .mapping).filterMap
      Step.url? = [] := by
    rw [List.filterMap_eq_nil_iff]
    intro step hs
    obtain ⟨line, -, hs⟩ := List.mem_flatMap.mp hs
    rcases List.mem_cons.mp hs with rfl | hs
    · rfl
    · obtain ⟨m, -, rfl⟩ := List.mem_map.mp hs
      rfl
  rw [steps, List.filterMap_append, hlines, List.append_nil, List.filterMap_map]
  exact congrFun List.filterMap_eq_map _

theorem play_of_replay {p : Plan} {defaultFile : Option String} {b : Builder}
    (h : p.replay defaultFile = .ok b) : (p.start defaultFile).play p.steps = (b, none) := by
  unfold replay play at h
  split at h
  · rename_i hp
    cases h
    exact hp
  · cases h

/-- What a replayed plan leaves in the builder. -/
structure Replayed (p : Plan) (b : Builder) : Prop where
  answers : List.Forall₂ (Answers b.urls) (placed b.recorded) (placed p.lines)
  lines : b.recorded.length = p.lines.length
  sources : b.urls.length ≤ p.sources.length
  marked : b.hasMappings = true ↔ placed p.lines ≠ []

theorem replayed {p : Plan} {defaultFile : Option String} {b : Builder}
    (h : p.replay defaultFile = .ok b) : p.Replayed b := by
  obtain ⟨hrun, hall⟩ := run_of_play 0 (play_of_replay h)
  have hanswers : List.Forall₂ (Answers ((p.start defaultFile).run p.steps).urls)
      (placed ((p.start defaultFile).run p.steps).recorded)
      ((p.start defaultFile).accepted 0 p.steps) :=
    answers_run (p.file <|> defaultFile) p.steps
  have hlines := length_run (p.start defaultFile) p.steps
  have hsources := length_urls_run (p.start defaultFile) p.steps
  have hmarked : b.hasMappings = true ↔ placed b.recorded ≠ [] := by
    rw [← hrun]
    exact run_hasMappings (p.file <|> defaultFile) p.steps
  rw [hall, asked_steps, hrun] at hanswers
  rw [count_steps, hrun] at hlines
  rw [urls_steps, List.length_map, hrun] at hsources
  refine ⟨hanswers, ?_, ?_, ?_⟩
  · exact hlines.trans (Nat.zero_add _)
  · exact Nat.le_trans hsources (Nat.le_of_eq (Nat.zero_add _))
  · rw [hmarked, ne_eq, ne_eq, ← List.length_eq_zero_iff, hanswers.length_eq,
      List.length_eq_zero_iff]

end Plan

end Templating
