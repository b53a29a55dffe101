import Mathlib.Logic.Function.Basic
import Templating.Proofs.Refusals

namespace Templating

def Mapping.rename (r : String → String) (m : Mapping) : Mapping :=
  { m with url := m.url.map r }

namespace Builder

def Error.rename (r : String → String) : Error → Error
  | .noLine => .noLine
  | .unknownSource url => .unknownSource (r url)
  | .outOfOrder line column lastColumn => .outOfOrder line column lastColumn
  | .missingLocation url => .missingLocation (r url)

/-- The same step under other names; the content of a source may be any. -/
inductive Step.Renamed (r : String → String) : Step → Step → Prop
  | source (url : String) (content content' : Option String) :
      Renamed r (.source ⟨url, content⟩) (.source ⟨r url, content'⟩)
  | line : Renamed r .line .line
  | mapping (m : Mapping) : Renamed r (.mapping m) (.mapping (m.rename r))

/-- The same builder under other names; the file and the contents may be any. -/
structure Renamed (r : String → String) (b b' : Builder) : Prop where
  urls : b'.urls = b.urls.map r
  lines : b'.lines = b.lines
  lastColumn : b'.lastColumn = b.lastColumn
  hasMappings : b'.hasMappings = b.hasMappings

/-- What comes of a step and what comes of it under other names. -/
inductive SameOutcome (r : String → String) :
    Builder × Except Error Unit → Builder × Except Error Unit → Prop
  | taken {b b' : Builder} : Renamed r b b' → SameOutcome r (b, .ok ()) (b', .ok ())
  | refused {b b' : Builder} (e : Error) : Renamed r b b' →
      SameOutcome r (b, .error e) (b', .error (e.rename r))

variable {r : String → String} {b b' : Builder}

theorem renamed_start (r : String → String) (file file' : Option String) :
    Renamed r { file := file } { file := file' } :=
  ⟨rfl, rfl, rfl, rfl⟩

/-- A URL stands where it stood before the renaming. -/
theorem idxOf?_map_of_injective (hr : Function.Injective r) (urls : List String) (url : String) :
    (urls.map r).idxOf? (r url) = urls.idxOf? url := by
  have hsame : (· == r url) ∘ r = (· == url) := by
    funext other
    rw [Function.comp_apply, Bool.eq_iff_iff, beq_iff_eq, beq_iff_eq]
    exact hr.eq_iff
  rw [List.idxOf?, List.findIdx?_map, hsame, ← List.idxOf?]

theorem Renamed.sourceOf_rename (h : Renamed r b b') (hr : Function.Injective r) (m : Mapping) :
    b'.sourceOf (m.rename r) =
      ((b.sourceOf m).map (Option.map (Prod.map r id))).mapError (Error.rename r) := by
  cases hu : m.url with
  | none => simp [sourceOf, Mapping.rename, hu, Except.map, Except.mapError]
  | some url =>
    simp only [sourceOf, Mapping.rename, hu, Option.map_some, h.urls,
      idxOf?_map_of_injective hr]
    cases b.urls.idxOf? url with
    | none => rfl
    | some index => rfl

theorem originOf_rename (r : String → String) (m : Mapping) (source : Option (String × Nat)) :
    originOf (m.rename r) (source.map (Prod.map r id)) =
      (originOf m source).mapError (Error.rename r) := by
  cases source with
  | none => rfl
  | some source =>
    cases hl : m.originLine <;> cases hc : m.originColumn <;>
      simp [originOf, Mapping.rename, hl, hc, Except.mapError, Error.rename]

/-- The checks find the same under other names, with the other name in the fault. -/
theorem Renamed.check_rename (h : Renamed r b b') (hr : Function.Injective r) (m : Mapping) :
    b'.check (m.rename r) = (b.check m).mapError (Error.rename r) := by
  have hcolumn : (m.rename r).column = m.column := rfl
  simp only [check, currentLine, h.lines, h.sourceOf_rename hr, h.lastColumn, hcolumn]
  cases b.lines with
  | nil => rfl
  | cons current earlier =>
    cases b.sourceOf m with
    | error e => rfl
    | ok source =>
      simp only [Except.map, Except.mapError, bind, Except.bind, originOf_rename r m source]
      by_cases hearly : m.column < b.lastColumn
      · rw [if_pos hearly, if_pos hearly]
        rfl
      · rw [if_neg hearly, if_neg hearly]

/-- A mapping is added or refused under other names as under its own. -/
theorem Renamed.addMapping (h : Renamed r b b') (hr : Function.Injective r) (m : Mapping) :
    SameOutcome r (b.addMapping m) (b'.addMapping (m.rename r)) := by
  rw [addMapping_eq, addMapping_eq, h.check_rename hr]
  cases b.check m with
  | error e => exact .refused e h
  | ok origin =>
    have hlines := congrArg (List.modifyHead (⟨m.column, origin⟩ :: ·)) h.lines
    exact .taken ⟨h.urls, hlines, rfl, rfl⟩

theorem Renamed.addSource (h : Renamed r b b') (hr : Function.Injective r) (url : String)
    (content content' : Option String) :
    Renamed r (b.addSource ⟨url, content⟩) (b'.addSource ⟨r url, content'⟩) := by
  refine ⟨?_, by simp [h.lines], by simp [h.lastColumn], by simp [h.hasMappings]⟩
  have hmem : r url ∈ b'.urls ↔ url ∈ b.urls := by
    rw [h.urls]
    exact List.mem_map_of_injective hr
  rw [addSource_urls, addSource_urls]
  by_cases hknown : url ∈ b.urls
  · rw [if_pos hknown, if_pos (hmem.mpr hknown), h.urls]
  · rw [if_neg hknown, if_neg (mt hmem.mp hknown), h.urls, List.map_append, List.map_singleton]

theorem Renamed.addLine (h : Renamed r b b') : Renamed r b.addLine b'.addLine :=
  ⟨h.urls, congrArg (List.cons []) h.lines, rfl, h.hasMappings⟩

theorem Renamed.apply (h : Renamed r b b') (hr : Function.Injective r) {step step' : Step}
    (hs : Step.Renamed r step step') : SameOutcome r (b.apply step) (b'.apply step') := by
  cases hs with
  | source url content content' => exact .taken (h.addSource hr url content content')
  | line => exact .taken h.addLine
  | mapping m => exact h.addMapping hr m

theorem SameOutcome.renamed {o o' : Builder × Except Error Unit} (h : SameOutcome r o o') :
    Renamed r o.1 o'.1 := by
  cases h with
  | taken h => exact h
  | refused e h => exact h

theorem Renamed.after (h : Renamed r b b') (hr : Function.Injective r) {step step' : Step}
    (hs : Step.Renamed r step step') : Renamed r (b.after step) (b'.after step') :=
  (h.apply hr hs).renamed

/-- Step by step the two runs come to the same, and so do their builders in the end. -/
theorem Renamed.run (h : Renamed r b b') (hr : Function.Injective r) {steps steps' : List Step}
    (hs : List.Forall₂ (Step.Renamed r) steps steps') :
    List.Forall₂ (fun t t' => SameOutcome r t.2 t'.2) (b.told steps) (b'.told steps') ∧
      Renamed r (b.run steps) (b'.run steps') := by
  induction hs generalizing b b' with
  | nil => exact ⟨.nil, h⟩
  | cons hstep _ ih =>
    obtain ⟨htold, hrun⟩ := ih (h.after hr hstep)
    exact ⟨.cons (h.apply hr hstep) htold, hrun⟩

theorem Renamed.recorded (h : Renamed r b b') : b'.recorded = b.recorded := by
  rw [Builder.recorded, Builder.recorded, h.lines]

theorem Renamed.map? (h : Renamed r b b') :
    b'.map?.map SourceMap.mappings = b.map?.map SourceMap.mappings ∧
      b'.map?.map SourceMap.sources = b.map?.map fun m => m.sources.map r := by
  unfold Builder.map?
  rw [h.hasMappings, h.recorded, h.urls]
  cases b.hasMappings with
  | false => exact ⟨rfl, rfl⟩
  | true => exact ⟨rfl, rfl⟩

/-- Where a renaming keeps URLs apart, a run under other names, with any contents and any file, is
told the same at every step, a refusal with the other name in it. It ends in the same mappings, and
its sources are the old ones under their new names. -/
theorem renamed_run (hr : Function.Injective r) {steps steps' : List Step}
    (hs : List.Forall₂ (Step.Renamed r) steps steps') (file file' : Option String) :
    List.Forall₂ (fun t t' => SameOutcome r t.2 t'.2)
      (({ file := file } : Builder).told steps) (({ file := file' } : Builder).told steps') ∧
    (({ file := file' } : Builder).run steps').urls =
      (({ file := file } : Builder).run steps).urls.map r ∧
    (({ file := file' } : Builder).run steps').recorded =
      (({ file := file } : Builder).run steps).recorded ∧
    (({ file := file' } : Builder).run steps').map?.map SourceMap.mappings =
      (({ file := file } : Builder).run steps).map?.map SourceMap.mappings ∧
    (({ file := file' } : Builder).run steps').map?.map SourceMap.sources =
      (({ file := file } : Builder).run steps).map?.map fun m => m.sources.map r := by
  obtain ⟨htold, hrun⟩ := (renamed_start r file file').run hr hs
  exact ⟨htold, hrun.urls, hrun.recorded, hrun.map?.1, hrun.map?.2⟩

/-- The same steps with their sources in a directory, each with another content. -/
def movedSteps : List Step := [
  .source ⟨"src/a", some "x"⟩, .mapping ⟨0, none, none, none⟩, .line,
  .mapping ⟨4, some "src/a", some 1, some 2⟩, .line, .line, .source ⟨"src/b", none⟩,
  .mapping ⟨9, some "src/c", some 0, some 0⟩, .mapping ⟨6, some "src/b", some 0, some 7⟩,
  .mapping ⟨5, none, none, none⟩, .source ⟨"src/a", none⟩, .mapping ⟨6, none, some 3, none⟩]

theorem renamed_run_moved :
    Function.Injective ("src/" ++ · : String → String) ∧
    List.Forall₂ (Step.Renamed ("src/" ++ ·)) mixedSteps movedSteps ∧
    List.Forall₂ (fun t t' => SameOutcome ("src/" ++ ·) t.2 t'.2)
      (({} : Builder).told mixedSteps) (({ file := some "f.js" } : Builder).told movedSteps) ∧
    (({ file := some "f.js" } : Builder).run movedSteps).map?.map SourceMap.sources =
      some ["src/a", "src/b"] ∧
    (({ file := some "f.js" } : Builder).run movedSteps).map?.map SourceMap.mappings =
      (({} : Builder).run mixedSteps).map?.map SourceMap.mappings := by
  have hr : Function.Injective ("src/" ++ · : String → String) :=
    fun _ _ h => (String.append_right_inj "src/").mp h
  have hs : List.Forall₂ (Step.Renamed ("src/" ++ ·)) mixedSteps movedSteps :=
    .cons (.source "a" none (some "x")) <| .cons (.mapping ⟨0, none, none, none⟩) <|
    .cons .line <| .cons (.mapping ⟨4, some "a", some 1, some 2⟩) <| .cons .line <| .cons .line <|
    .cons (.source "b" (some "x") none) <| .cons (.mapping ⟨9, some "c", some 0, some 0⟩) <|
    .cons (.mapping ⟨6, some "b", some 0, some 7⟩) <| .cons (.mapping ⟨5, none, none, none⟩) <|
    .cons (.source "a" (some "y") none) <| .cons (.mapping ⟨6, none, some 3, none⟩) .nil
  obtain ⟨htold, -, -, hmappings, hsources⟩ := renamed_run hr hs none (some "f.js")
  refine ⟨hr, hs, htold, ?_, hmappings⟩
  rw [hsources]
  decide

end Builder

end Templating
