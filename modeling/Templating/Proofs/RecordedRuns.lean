import Mathlib.Data.List.Induction
import Templating.Proofs.WellFormedBuilders
import Templating.Proofs.WrittenTexts

namespace Templating

namespace Builder

def Step.url? : Step → Option String
  | .source s => some s.url
  | _ => none

/-- The mappings that steps add, each with the number of the line it falls on, after `started` lines
have been started. -/
def accepted (b : Builder) (started : Nat) : List Step → List (Nat × Mapping)
  | [] => []
  | .source s :: rest => (b.addSource s).accepted started rest
  | .line :: rest => b.addLine.accepted (started + 1) rest
  | .mapping m :: rest =>
    match b.addMapping m with
    | (b, .ok ()) => (started - 1, m) :: b.accepted started rest
    | (b, .error _) => b.accepted started rest

/-- A segment found on a line is what a mapping asked for. -/
structure Answers (urls : List String) (found : Nat × Segment) (asked : Nat × Mapping) : Prop where
  line : found.1 = asked.1
  column : found.2.column = asked.2.column
  bare : asked.2.url = none → found.2.origin = none
  origin : ∀ url, asked.2.url = some url → ∃ o, found.2.origin = some o ∧
    urls[o.source]? = some url ∧ asked.2.originLine = some o.line ∧
    asked.2.originColumn = some o.column

/-- Sources that are registered later leave an answer as it is. -/
theorem Answers.mono {urls urls' : List String} {found : Nat × Segment} {asked : Nat × Mapping}
    (h : Answers urls found asked) (hp : urls <+: urls') : Answers urls' found asked := by
  refine ⟨h.line, h.column, h.bare, ?_⟩
  intro url hu
  obtain ⟨o, ho, hs, hl, hc⟩ := h.origin url hu
  obtain ⟨later, rfl⟩ := hp
  have hlt := (List.getElem?_eq_some_iff.mp hs).1
  exact ⟨o, ho, by rw [List.getElem?_append_left hlt, hs], hl, hc⟩

theorem Resolves.answers {urls : List String} {m : Mapping} {origin : Option Origin}
    (h : Resolves urls m origin) (number : Nat) :
    Answers urls (number, ⟨m.column, origin⟩) (number, m) := by
  cases hu : m.url with
  | none =>
    simp only [Resolves, hu] at h
    exact ⟨rfl, rfl, fun _ => h, by simp [hu]⟩
  | some url =>
    simp only [Resolves, hu] at h
    obtain ⟨index, line, column, hi, hl, hc, rfl⟩ := h
    obtain ⟨hlt, hget, -⟩ := List.idxOf?_eq_some_iff.mp hi
    refine ⟨rfl, rfl, by simp [hu], ?_⟩
    intro url' hu'
    obtain rfl := Option.some.inj (hu.symm.trans hu')
    exact ⟨_, rfl, by rw [List.getElem?_eq_getElem hlt, hget], hl, hc⟩

/-- The mappings that steps add are those of the first step and then those of the others. -/
theorem accepted_cons (b : Builder) (step : Step) (rest : List Step) :
    b.accepted b.lines.length (step :: rest) = b.accepted b.lines.length [step] ++
      (b.after step).accepted (b.after step).lines.length rest := by
  cases step with
  | source s => simp [accepted, after_source]
  | line => rfl
  | mapping m =>
    rw [accepted, accepted, after_mapping]
    rcases b.addMapping_cases m with ⟨e, hm⟩ | ⟨b', hm⟩
    · rw [hm]
      rfl
    · simp [hm, accepted, addMapping_lines hm]

/-- A step adds an answer for the mapping that it adds and keeps all others. -/
theorem after_answers {b : Builder} {asked : List (Nat × Mapping)} (step : Step)
    (h : List.Forall₂ (Answers b.urls) (placed b.recorded) asked) :
    List.Forall₂ (Answers (b.after step).urls) (placed (b.after step).recorded)
      (asked ++ b.accepted b.lines.length [step]) := by
  cases step with
  | source s =>
    rw [after_source, recorded_addSource, accepted, accepted, List.append_nil]
    exact h.imp fun _ _ ha => ha.mono (urls_prefix_addSource b s)
  | line =>
    rw [after_line, recorded_addLine, placed_append_nil, accepted, accepted, List.append_nil]
    exact h
  | mapping m =>
    rw [after_mapping, accepted]
    rcases b.addMapping_cases m with ⟨e, hm⟩ | ⟨b', hm⟩
    · simpa [hm, accepted] using h
    · obtain ⟨lines, last, origin, hrec, hr, hrec'⟩ := addMapping_recorded hm
      have hlen : b.lines.length - 1 = lines.length := by
        rw [← length_recorded, hrec]
        simp
      simp only [hm, accepted, hlen]
      rw [addMapping_urls hm, hrec', placed_append_singleton, List.map_append, ← List.append_assoc,
        ← placed_append_singleton, ← hrec]
      exact List.rel_append h (.cons (hr.answers lines.length) .nil)

/-- Whatever a builder holds answers what it was asked for, also after further steps. -/
theorem run_answers {b : Builder} {asked : List (Nat × Mapping)} (steps : List Step)
    (h : List.Forall₂ (Answers b.urls) (placed b.recorded) asked) :
    List.Forall₂ (Answers (b.run steps).urls) (placed (b.run steps).recorded)
      (asked ++ b.accepted b.lines.length steps) := by
  induction steps generalizing b asked with
  | nil =>
    rw [accepted, List.append_nil]
    exact h
  | cons step rest ih =>
    rw [accepted_cons, ← List.append_assoc]
    exact ih (after_answers step h)

theorem answers_run (file : Option String) (steps : List Step) :
    List.Forall₂ (Answers (({ file := file } : Builder).run steps).urls)
      (placed (({ file := file } : Builder).run steps).recorded)
      (({ file := file } : Builder).accepted 0 steps) :=
  run_answers steps (b := { file := file }) .nil

/-- A step starts a line or leaves the number of lines alone. -/
theorem length_after (b : Builder) (step : Step) :
    (b.after step).recorded.length = b.recorded.length + if step == .line then 1 else 0 := by
  cases step with
  | source s => simp [after_source]
  | line => simp [after_line]
  | mapping m =>
    rcases b.after_mapping_cases m with hm | hm
    · simp [hm]
    · obtain ⟨lines, last, origin, hrec, -, hrec'⟩ := addMapping_recorded hm
      simp [hrec, hrec']

theorem length_run (b : Builder) (steps : List Step) :
    (b.run steps).recorded.length = b.recorded.length + steps.count .line := by
  induction steps generalizing b with
  | nil => rfl
  | cons step rest ih =>
    rw [run_cons, ih, length_after, List.count_cons]
    omega

theorem after_urls (b : Builder) (step : Step) :
    (b.after step).urls = b.urls ++ step.url?.toList.removeAll b.urls := by
  cases step with
  | source s =>
    rw [after_source, addSource_urls]
    split <;> simp_all [Step.url?, List.removeAll]
  | line => simp [after_line, Step.url?]
  | mapping m =>
    rcases b.after_mapping_cases m with hm | hm
    · simp [hm, Step.url?]
    · simp [Step.url?, addMapping_urls hm]

/-- The sources of a run are the URLs that were registered, each once and in the order of their
first registration. -/
theorem run_urls (file : Option String) (steps : List Step) :
    (({ file := file } : Builder).run steps).urls = (steps.filterMap Step.url?).eraseDups := by
  induction steps using List.reverseRec with
  | nil => rfl
  | append_singleton steps step ih =>
    rw [run_append, run_cons, run, List.foldl_nil, after_urls, ih, List.filterMap_append,
      List.eraseDups_append]
    generalize steps.filterMap Step.url? = urls
    cases hu : step.url? with
    | none => simp [hu]
    | some url => by_cases hm : url ∈ urls <;> simp [hu, hm, List.removeAll, List.eraseDups_cons]

/-- A builder knows whether anything was recorded. -/
theorem run_hasMappings (file : Option String) (steps : List Step) :
    (({ file := file } : Builder).run steps).hasMappings = true ↔
      placed (({ file := file } : Builder).run steps).recorded ≠ [] := by
  rw [placed_ne_nil_iff]
  exact ((wellFormed_start file).run steps).marked

theorem Answers.source_lt {urls : List String} {found : Nat × Segment} {asked : Nat × Mapping}
    (h : Answers urls found asked) {o : Origin} (ho : found.2.origin = some o) :
    o.source < urls.length := by
  cases hu : asked.2.url with
  | none => simp [h.bare hu] at ho
  | some url =>
    obtain ⟨o', ho', hs, -, -⟩ := h.origin url hu
    obtain rfl := Option.some.inj (ho.symm.trans ho')
    exact (List.getElem?_eq_some_iff.mp hs).1

/-- Every origin of recorded segments is one of the sources. -/
theorem source_lt_of_answers {urls : List String} {lines : List (List Segment)}
    {asked : List (Nat × Mapping)} (h : List.Forall₂ (Answers urls) (placed lines) asked) :
    ∀ ss ∈ lines, ∀ s ∈ ss, ∀ o, s.origin = some o → o.source < urls.length := by
  intro ss hss s hs o ho
  obtain ⟨number, hnumber⟩ := List.getElem?_of_mem hss
  have hmem := mem_placed_iff.mpr ⟨ss, hnumber, hs⟩
  have hflip : List.Forall₂ (flip (Answers urls)) asked (placed lines) := h.flip
  obtain ⟨a, -, ha⟩ := related_of_mem hflip _ hmem
  exact ha.source_lt ho

/-- The map of a builder lists its sources and gives back what was recorded. -/
theorem decoded_map {b : Builder} {asked : List (Nat × Mapping)}
    (h : List.Forall₂ (Answers b.urls) (placed b.recorded) asked) (hm : b.hasMappings = true)
    (hsome : asked ≠ []) (hu : b.urls.length ≤ UInt32.size) :
    ∃ m, b.map? = some m ∧ m.decoded = .ok (Mappings.ofLists b.recorded) ∧ m.sources = b.urls := by
  have hne : b.recorded ≠ [] := by
    intro hnil
    rw [hnil] at h
    exact hsome (List.forall₂_nil_left_iff.mp h)
  have hread := Mappings.read_write hne fun ss hss s hs o ho =>
    Nat.lt_of_lt_of_le (source_lt_of_answers h ss hss s hs o ho) hu
  rw [map?, if_pos hm]
  exact ⟨_, rfl, hread, rfl⟩

/-- After any run the text of the map gives back exactly the mappings that were added. -/
theorem decoded_run (file : Option String) (steps : List Step)
    (h : (steps.filterMap Step.url?).eraseDups.length ≤ UInt32.size) :
    (({ file := file } : Builder).accepted 0 steps = [] →
      (({ file := file } : Builder).run steps).map? = none) ∧
    (({ file := file } : Builder).accepted 0 steps ≠ [] →
      ∃ m d, (({ file := file } : Builder).run steps).map? = some m ∧ m.decoded = .ok d ∧
        d.toLists.length = steps.count .line ∧
        List.Forall₂ (Answers m.sources) (placed d.toLists)
          (({ file := file } : Builder).accepted 0 steps)) := by
  have hempty : List.Forall₂ (Answers ({ file := file } : Builder).urls)
      (placed ({ file := file } : Builder).recorded) [] := .nil
  have hanswers := run_answers steps hempty
  rw [List.nil_append] at hanswers
  change List.Forall₂ _ _ (({ file := file } : Builder).accepted 0 steps) at hanswers
  have hmarked := run_hasMappings file steps
  constructor
  · intro hnone
    rw [hnone, List.forall₂_nil_right_iff] at hanswers
    rw [map?, if_neg (by rw [hmarked, hanswers]; simp)]
  · intro hsome
    have hplaced : placed (({ file := file } : Builder).run steps).recorded ≠ [] := by
      intro hnil
      rw [hnil, List.forall₂_nil_left_iff] at hanswers
      exact hsome hanswers
    rw [← run_urls file] at h
    obtain ⟨m, hm, hd, hs⟩ := decoded_map hanswers (hmarked.mpr hplaced) hsome h
    refine ⟨m, _, hm, hd, ?_, ?_⟩
    · rw [Mappings.toLists_ofLists, length_run]
      exact Nat.zero_add _
    · rw [Mappings.toLists_ofLists, hs]
      exact hanswers

/-- A source that comes late, an empty line, and steps that are refused in between. -/
def mixedSteps : List Step := [
  .source ⟨"a", none⟩, .mapping ⟨0, none, none, none⟩, .line,
  .mapping ⟨4, some "a", some 1, some 2⟩, .line, .line, .source ⟨"b", some "x"⟩,
  .mapping ⟨9, some "c", some 0, some 0⟩, .mapping ⟨6, some "b", some 0, some 7⟩,
  .mapping ⟨5, none, none, none⟩, .source ⟨"a", some "y"⟩, .mapping ⟨6, none, some 3, none⟩]

theorem decoded_run_mixed :
    (mixedSteps.filterMap Step.url?).eraseDups.length ≤ UInt32.size ∧
    ({} : Builder).accepted 0 mixedSteps = [(0, ⟨4, some "a", some 1, some 2⟩),
      (2, ⟨6, some "b", some 0, some 7⟩), (2, ⟨6, none, some 3, none⟩)] ∧
    ∃ m d, (({} : Builder).run mixedSteps).map? = some m ∧ m.decoded = .ok d ∧
      d.toLists.length = mixedSteps.count .line ∧
      List.Forall₂ (Answers m.sources) (placed d.toLists) (({} : Builder).accepted 0 mixedSteps) :=
  ⟨by decide, by decide, (decoded_run none mixedSteps (by decide)).2 (by decide)⟩

end Builder

end Templating
