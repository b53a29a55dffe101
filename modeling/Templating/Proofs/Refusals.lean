import Templating.Proofs.CompletePlans

namespace Templating.Builder

/-- The order of the checks. -/
def Error.rank : Error → Nat
  | .noLine => 0
  | .unknownSource _ => 1
  | .outOfOrder _ _ _ => 2
  | .missingLocation _ => 3

/-- What is wrong with a mapping on the line of a given number, where the sources have these URLs
and `last?` is the column of the mapping before it on that line. -/
inductive Objection (urls : List String) (number : Nat) (last? : Option UInt32) (m : Mapping) :
    Error → Prop
  | unknown {url : String} : m.url = some url → url ∉ urls →
      Objection urls number last? m (.unknownSource url)
  | early {last : UInt32} : last? = some last → m.column < last →
      Objection urls number last? m (.outOfOrder number m.column last)
  | incomplete {url : String} : m.url = some url → url ∈ urls →
      m.originLine = none ∨ m.originColumn = none →
      Objection urls number last? m (.missingLocation url)

/-- The column of the last segment on the last line. -/
def lastColumn? (lines : List (List Segment)) : Option UInt32 :=
  (lines.getLast?.bind List.getLast?).map Segment.column

/-- What is wrong with a mapping that a builder is asked to add. -/
inductive Objects (b : Builder) (m : Mapping) : Error → Prop
  | noLine : b.recorded = [] → b.Objects m .noLine
  | asked {e : Error} :
      Objection b.urls (b.recorded.length - 1) (lastColumn? b.recorded) m e → b.Objects m e

/-- A builder on the line of a given number, behind a mapping with the column `last?`. -/
structure OnLine (b : Builder) (urls : List String) (number : Nat) (last? : Option UInt32) :
    Prop where
  known : ∀ url, url ∈ b.urls ↔ url ∈ urls
  lines : b.lines.length = number + 1
  column : b.lastColumn = last?.getD 0

variable {b : Builder} {urls : List String} {number : Nat} {last? : Option UInt32} {m : Mapping}
  {e e' : Error}

theorem Objection.rank_pos (h : Objection urls number last? m e) : 0 < e.rank := by
  cases h <;> exact Nat.succ_pos _

/-- No check has two answers. -/
theorem Objection.eq_of_rank (h : Objection urls number last? m e)
    (h' : Objection urls number last? m e') (hrank : e.rank = e'.rank) : e = e' := by
  cases h with
  | unknown hu hn =>
    cases h' with
    | unknown hu' hn' => rw [Option.some.inj (hu.symm.trans hu')]
    | early hl hlt => cases hrank
    | incomplete hu' hm hp => cases hrank
  | early hl hlt =>
    cases h' with
    | unknown hu hn => cases hrank
    | early hl' hlt' => rw [Option.some.inj (hl.symm.trans hl')]
    | incomplete hu hm hp => cases hrank
  | incomplete hu hm hp =>
    cases h' with
    | unknown hu' hn => cases hrank
    | early hl hlt => cases hrank
    | incomplete hu' hm' hp' => rw [Option.some.inj (hu.symm.trans hu')]

theorem column_lt_last (h : m.column < last?.getD 0) :
    ∃ last, last? = some last ∧ m.column < last := by
  cases last? with
  | none => exact absurd h UInt32.not_lt_zero
  | some last => exact ⟨last, rfl, h⟩

theorem sourceOf_error (h : b.sourceOf m = .error e) :
    ∃ url, m.url = some url ∧ url ∉ b.urls ∧ e = .unknownSource url := by
  unfold sourceOf at h
  split at h
  · cases h
  · rename_i url hu
    split at h
    · rename_i hi
      cases h
      exact ⟨url, hu, List.idxOf?_eq_none_iff.mp hi, rfl⟩
    · cases h

/-- The source that is found is the one that the mapping names. -/
theorem sourceOf_ok {source : Option (String × Nat)} (h : b.sourceOf m = .ok source) :
    source.map Prod.fst = m.url ∧ ∀ url, m.url = some url → url ∈ b.urls := by
  unfold sourceOf at h
  split at h
  · rename_i hu
    cases h
    exact ⟨hu.symm, by simp [hu]⟩
  · rename_i url hu
    split at h
    · cases h
    · rename_i index hi
      cases h
      obtain ⟨hlt, hget, -⟩ := List.idxOf?_eq_some_iff.mp hi
      refine ⟨hu.symm, ?_⟩
      intro url' hu'
      obtain rfl := Option.some.inj (hu.symm.trans hu')
      exact List.mem_of_getElem hget

theorem originOf_error {source : Option (String × Nat)} (h : originOf m source = .error e) :
    ∃ url, source.map Prod.fst = some url ∧ (m.originLine = none ∨ m.originColumn = none) ∧
      e = .missingLocation url := by
  cases source with
  | none => cases h
  | some source =>
    obtain ⟨url, index⟩ := source
    refine ⟨url, rfl, ?_⟩
    cases hl : m.originLine with
    | none =>
      simp only [originOf, hl, Except.error.injEq] at h
      exact ⟨.inl rfl, h.symm⟩
    | some line =>
      cases hc : m.originColumn with
      | none =>
        simp only [originOf, hl, hc, Except.error.injEq] at h
        exact ⟨.inr rfl, h.symm⟩
      | some column => simp [originOf, hl, hc] at h

theorem currentLine_of_length (h : b.lines.length = number + 1) : b.currentLine = .ok number := by
  obtain ⟨current, earlier, hl⟩ := List.exists_cons_of_length_eq_add_one h
  have hlength : earlier.length = number := by simpa [hl] using h
  rw [currentLine, hl, ← hlength]

/-- Why a builder on a line refuses a mapping, with all that has been checked before. -/
theorem check_error (hl : b.currentLine = .ok number) (h : b.check m = .error e) :
    (∃ url, m.url = some url ∧ url ∉ b.urls ∧ e = .unknownSource url) ∨
    (∀ url, m.url = some url → url ∈ b.urls) ∧
      (m.column < b.lastColumn ∧ e = .outOfOrder number m.column b.lastColumn ∨
        b.lastColumn ≤ m.column ∧ ∃ url, m.url = some url ∧
          (m.originLine = none ∨ m.originColumn = none) ∧ e = .missingLocation url) := by
  rw [check, hl] at h
  rcases bind_eq_error_iff.mp h with hno | ⟨line, hline, h⟩
  · cases hno
  cases hline
  rcases bind_eq_error_iff.mp h with hs | ⟨source, hs, h⟩
  · exact .inl (sourceOf_error hs)
  obtain ⟨hsource, hknown⟩ := sourceOf_ok hs
  refine .inr ⟨hknown, ?_⟩
  split at h
  · rename_i hlt
    cases h
    exact .inl ⟨hlt, rfl⟩
  · rename_i hle
    refine .inr ⟨UInt32.not_lt.mp hle, ?_⟩
    rw [← hsource]
    exact originOf_error h

/-- A mapping that passes the checks gives no cause for objections. -/
theorem OnLine.not_objection {origin : Option Origin} (h : b.OnLine urls number last?)
    (hm : b.check m = .ok origin) : ¬ Objection urls number last? m e := by
  obtain ⟨_, _, -, hr, hle⟩ := check_eq_ok_iff.mp hm
  intro hobj
  cases hobj with
  | @unknown url hu hn =>
    simp only [Resolves, hu] at hr
    obtain ⟨index, _, _, hi, -⟩ := hr
    obtain ⟨hlt, hget, -⟩ := List.idxOf?_eq_some_iff.mp hi
    exact hn ((h.known url).mp (List.mem_of_getElem hget))
  | @early last hlast hlt =>
    rw [h.column, hlast] at hle
    exact UInt32.not_le.mpr hlt hle
  | @incomplete url hu hmem hpart =>
    simp only [Resolves, hu] at hr
    obtain ⟨_, _, _, -, hline, hcolumn, -⟩ := hr
    simp [hline, hcolumn] at hpart

/-- On a line the foremost objection is the one that is told. -/
theorem OnLine.foremost_of_error (h : b.OnLine urls number last?) (hm : b.check m = .error e) :
    Foremost Error.rank (Objection urls number last? m) e := by
  rcases check_error (currentLine_of_length h.lines) hm with ⟨url, hu, hn, rfl⟩ | ⟨hknown, hrest⟩
  · refine ⟨.unknown hu fun hmem => hn ((h.known url).mpr hmem), ?_⟩
    intro e' he'
    exact he'.rank_pos
  · rcases hrest with ⟨hlt, rfl⟩ | ⟨hle, url, hu, hpart, rfl⟩
    · rw [h.column] at hlt ⊢
      obtain ⟨last, hlast, hlt⟩ := column_lt_last hlt
      subst hlast
      refine ⟨.early rfl hlt, ?_⟩
      intro e' he'
      cases he' with
      | unknown hu hn => exact absurd ((h.known _).mp (hknown _ hu)) hn
      | early _ _ => exact Nat.le_refl _
      | incomplete _ _ _ => exact Nat.le_succ _
    · refine ⟨.incomplete hu ((h.known url).mp (hknown url hu)) hpart, ?_⟩
      intro e' he'
      cases he' with
      | unknown hu hn => exact absurd ((h.known _).mp (hknown _ hu)) hn
      | early hlast hlt =>
        rw [h.column, hlast] at hle
        exact absurd hle (UInt32.not_le.mpr hlt)
      | incomplete _ _ _ => exact Nat.le_refl _

theorem OnLine.refused_iff (h : b.OnLine urls number last?) :
    (b.addMapping m).2 = .error e ↔ Foremost Error.rank (Objection urls number last? m) e := by
  rw [refused_iff_check]
  refine ⟨h.foremost_of_error, ?_⟩
  intro hf
  cases hm : b.check m with
  | ok origin => exact absurd hf.holds (h.not_objection hm)
  | error e' =>
    have hrank : ∀ e e', Objection urls number last? m e → Objection urls number last? m e' →
        e.rank = e'.rank → e = e' := fun _ _ => Objection.eq_of_rank
    rw [hf.unique hrank (h.foremost_of_error hm)]

theorem endColumn_eq (lines : List (List Segment)) :
    endColumn lines = (lastColumn? lines).getD 0 := by
  rw [endColumn, lastColumn?, List.getLastD_eq_getLast?]
  cases lines.getLast? <;> rfl

/-- A well-formed builder with a line stands behind the last segment of its last line. -/
theorem WellFormed.onLine (h : WellFormed b) (hne : b.recorded ≠ []) :
    b.OnLine b.urls (b.recorded.length - 1) (lastColumn? b.recorded) := by
  refine ⟨fun _ => Iff.rfl, ?_, ?_⟩
  · have hpos := List.length_pos_of_ne_nil hne
    rw [length_recorded] at hpos ⊢
    omega
  · rw [h.tracked, endColumn_eq]

theorem objects_iff (hne : b.recorded ≠ []) :
    b.Objects m e ↔
      Objection b.urls (b.recorded.length - 1) (lastColumn? b.recorded) m e := by
  constructor
  · intro h
    cases h with
    | noLine hnil => exact absurd hnil hne
    | asked h => exact h
  · exact .asked

/-- A builder tells the foremost of its objections. -/
theorem WellFormed.refused_iff (h : WellFormed b) :
    (b.addMapping m).2 = .error e ↔ Foremost Error.rank (b.Objects m) e := by
  by_cases hnil : b.recorded = []
  · have hl : b.lines = [] := by simpa [recorded] using hnil
    have hrefused : b.check m = .error .noLine := by
      rw [check, currentLine, hl]
      rfl
    rw [refused_iff_check, hrefused, Except.error.injEq]
    constructor
    · intro he
      subst he
      exact ⟨.noLine hnil, fun e' _ => Nat.zero_le _⟩
    · intro hf
      have hrank := hf.first .noLine (.noLine hnil)
      cases e with
      | noLine => rfl
      | _ => cases hrank
  · have hiff : b.Objects m = Objection b.urls (b.recorded.length - 1) (lastColumn? b.recorded) m :=
      funext fun e' => propext (objects_iff hnil)
    rw [hiff]
    exact (h.onLine hnil).refused_iff

/-- Something is wrong with a mapping exactly if it is refused. -/
theorem WellFormed.exists_refused_iff (h : WellFormed b) :
    (∃ e, (b.addMapping m).2 = .error e) ↔ ∃ e, b.Objects m e := by
  constructor
  · intro hm
    rcases hm with ⟨e, hm⟩
    exact ⟨e, (h.refused_iff.mp hm).holds⟩
  · intro ho
    rcases ho with ⟨e, ho⟩
    cases hm : b.check m with
    | error e' => exact ⟨e', refused_iff_check.mpr hm⟩
    | ok origin =>
      obtain ⟨_, _, hl, -⟩ := check_eq_ok_iff.mp hm
      have hne : b.recorded ≠ [] := by simp [recorded, hl]
      exact absurd ((objects_iff hne).mp ho) ((h.onLine hne).not_objection hm)

/-- A mapping that is refused leaves the builder as it was, in all its parts. -/
theorem addMapping_of_refused (h : (b.addMapping m).2 = .error e) :
    b.addMapping m = (b, .error e) :=
  addMapping_error_iff.mpr ⟨rfl, refused_iff_check.mp h⟩

/-- A step that fails changes nothing. -/
theorem apply_cases (b : Builder) (step : Step) :
    (∃ e, b.apply step = (b, .error e)) ∨ ∃ b', b.apply step = (b', .ok ()) := by
  cases step with
  | source s => exact .inr ⟨_, rfl⟩
  | line => exact .inr ⟨_, rfl⟩
  | mapping m => exact b.addMapping_cases m

/-- The steps of a run, each with the builder behind it and with what came of it. -/
def told (b : Builder) : List Step → List (Step × Builder × Except Error Unit)
  | [] => []
  | step :: rest => (step, b.apply step) :: (b.after step).told rest

/-- The steps of a run without those that were refused. -/
def kept (b : Builder) (steps : List Step) : List Step :=
  ((b.told steps).filter (·.2.2.isOk)).map Prod.fst

theorem kept_cons_of_ok {b' : Builder} {step : Step} (rest : List Step)
    (h : b.apply step = (b', .ok ())) : b.kept (step :: rest) = step :: b'.kept rest := by
  simp [kept, told, after, h, Except.isOk, Except.toBool]

theorem kept_cons_of_error {b' : Builder} {step : Step} (rest : List Step)
    (h : b.apply step = (b', .error e)) : b.kept (step :: rest) = b'.kept rest := by
  simp [kept, told, after, h, Except.isOk, Except.toBool]

/-- Without the steps that were refused, the others come to what they came to. -/
theorem told_kept (b : Builder) (steps : List Step) :
    b.told (b.kept steps) = (b.told steps).filter (·.2.2.isOk) := by
  induction steps generalizing b with
  | nil => rfl
  | cons step rest ih =>
    rcases b.apply_cases step with ⟨e, hs⟩ | ⟨b', hs⟩
    · rw [kept_cons_of_error rest hs, told, after, hs, ih]
      rfl
    · rw [kept_cons_of_ok rest hs, told, told, after, hs, ih]
      rfl

theorem run_kept (b : Builder) (steps : List Step) : b.run (b.kept steps) = b.run steps := by
  induction steps generalizing b with
  | nil => rfl
  | cons step rest ih =>
    rcases b.apply_cases step with ⟨e, hs⟩ | ⟨b', hs⟩
    · rw [kept_cons_of_error rest hs, run_cons, after, hs, ih]
    · rw [kept_cons_of_ok rest hs, run_cons, run_cons, after, hs, ih]

/-- A builder that some run of a new one leads to. -/
def Reachable (b : Builder) : Prop :=
  ∃ (file : Option String) (steps : List Step), ({ file := file } : Builder).run steps = b

theorem Reachable.wellFormed (h : b.Reachable) : WellFormed b := by
  rcases h with ⟨file, steps, rfl⟩
  exact (wellFormed_start file).run steps

/-- A mapping is refused exactly if something is wrong with it, for the first reason in the order of
the checks, and nothing changes; otherwise one segment is added behind all others and the file and
the sources stay. So a run comes to the same, step by step, without the steps that were refused. -/
theorem refused_mappings (h : b.Reachable) :
    (∀ m, (∃ e, (b.addMapping m).2 = .error e) ↔ ∃ e, b.Objects m e) ∧
    (∀ m e, (b.addMapping m).2 = .error e ↔ Foremost Error.rank (b.Objects m) e) ∧
    (∀ m e, (b.addMapping m).2 = .error e →
      (b.addMapping m).1 = b ∧ b.after (.mapping m) = b) ∧
    (∀ m b', b.addMapping m = (b', .ok ()) →
      b.after (.mapping m) = b' ∧ b'.file = b.file ∧ b'.sources = b.sources ∧
      ∃ lines last origin, b.recorded = lines ++ [last] ∧ Resolves b.urls m origin ∧
        b'.recorded = lines ++ [last ++ [⟨m.column, origin⟩]]) ∧
    ∀ steps, b.told (b.kept steps) = (b.told steps).filter (·.2.2.isOk) ∧
      b.run (b.kept steps) = b.run steps := by
  have hwell := h.wellFormed
  refine ⟨fun m => hwell.exists_refused_iff, fun m e => hwell.refused_iff, ?_, ?_,
    fun steps => ⟨told_kept b steps, run_kept b steps⟩⟩
  · intro m e hm
    have hunchanged : (b.addMapping m).1 = b := by rw [addMapping_of_refused hm]
    exact ⟨hunchanged, (after_mapping b m).trans hunchanged⟩
  · intro m b' hm
    have hafter : b.after (.mapping m) = b' := by rw [after_mapping, hm]
    obtain ⟨hfile, hsources⟩ := after_mapping_frame b m
    rw [hafter] at hfile hsources
    exact ⟨hafter, hfile, hsources, addMapping_recorded hm⟩

/-- One source and one mapping at column 4, and then a mapping that falls behind it, names a source
and gives no line in it. -/
def placedSteps : List Step :=
  [.source ⟨"a", none⟩, .line, .mapping ⟨4, some "a", some 1, some 2⟩]

theorem refused_mappings_twice :
    (({} : Builder).run placedSteps).Reachable ∧
    (({} : Builder).run placedSteps).Objects ⟨3, some "a", none, some 0⟩ (.missingLocation "a") ∧
    Foremost Error.rank ((({} : Builder).run placedSteps).Objects ⟨3, some "a", none, some 0⟩)
      (.outOfOrder 0 3 4) ∧
    ((({} : Builder).run placedSteps).addMapping ⟨3, some "a", none, some 0⟩).1 =
      ({} : Builder).run placedSteps ∧
    (({} : Builder).run placedSteps).after (.mapping ⟨3, some "a", none, some 0⟩) =
      ({} : Builder).run placedSteps ∧
    ({} : Builder).kept (mixedSteps ++ placedSteps) = [
      .source ⟨"a", none⟩, .line, .mapping ⟨4, some "a", some 1, some 2⟩, .line, .line,
      .source ⟨"b", some "x"⟩, .mapping ⟨6, some "b", some 0, some 7⟩, .source ⟨"a", some "y"⟩,
      .mapping ⟨6, none, some 3, none⟩, .source ⟨"a", none⟩, .line,
      .mapping ⟨4, some "a", some 1, some 2⟩] := by
  have hreachable : (({} : Builder).run placedSteps).Reachable := ⟨none, placedSteps, rfl⟩
  have hrefused : ((({} : Builder).run placedSteps).addMapping ⟨3, some "a", none, some 0⟩).2 =
      .error (.outOfOrder 0 3 4) := by rfl
  obtain ⟨-, hforemost, hunchanged, -, -⟩ := refused_mappings hreachable
  obtain ⟨hstate, hafter⟩ := hunchanged _ _ hrefused
  exact ⟨hreachable, .asked (.incomplete rfl (by decide) (.inl rfl)),
    (hforemost _ _).mp hrefused, hstate, hafter, by decide⟩

end Templating.Builder
