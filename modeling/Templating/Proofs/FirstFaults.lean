import Templating.Proofs.Refusals

namespace Templating

/-- A property of lists that holds at first and not at last is lost with some item. -/
theorem exists_first_failure {P : List α → Prop} {as : List α} (hnil : P []) (h : ¬ P as) :
    ∃ front a rest, as = front ++ a :: rest ∧ P front ∧ ¬ P (front ++ [a]) := by
  induction as using List.reverseRecOn with
  | nil => exact absurd hnil h
  | append_singleton as a ih =>
    by_cases hp : P as
    · exact ⟨as, a, [], rfl, hp, h⟩
    · obtain ⟨front, b, rest, rfl, hfront, hb⟩ := ih hp
      exact ⟨front, b, rest ++ [a], by simp, hfront, hb⟩

namespace Builder

/-- Mappings that can stand on one line: in the order of their columns, and with a line and a column
in a known source wherever they name a source. -/
structure Addable (urls : List String) (ms : List Mapping) : Prop where
  sorted : ms.Pairwise fun m n => m.column ≤ n.column
  complete : ∀ m ∈ ms, ∀ url, m.url = some url →
    url ∈ urls ∧ m.originLine.isSome ∧ m.originColumn.isSome

/-- The column of the last of the mappings. -/
def previous? (ms : List Mapping) : Option UInt32 :=
  ms.getLast?.map Mapping.column

variable {b b' : Builder} {urls : List String} {number : Nat} {last? : Option UInt32}
  {ms : List Mapping} {m : Mapping}

theorem addable_nil (urls : List String) : Addable urls [] :=
  ⟨.nil, by simp⟩

theorem Addable.not_objection {e : Error} (h : Addable urls (ms ++ [m])) :
    ¬ Objection urls number (previous? ms) m e := by
  have hm : m ∈ ms ++ [m] := List.mem_append_right _ List.mem_cons_self
  intro hobj
  cases hobj with
  | unknown hu hn => exact hn (h.complete m hm _ hu).1
  | early hlast hlt =>
    obtain ⟨n, hn, rfl⟩ := Option.map_eq_some_iff.mp hlast
    obtain ⟨-, -, hle⟩ := List.pairwise_append.mp h.sorted
    exact UInt32.not_le.mpr hlt (hle n (List.mem_of_getLast? hn) m List.mem_cons_self)
  | incomplete hu hmem hpart =>
    obtain ⟨-, hline, hcolumn⟩ := h.complete m hm _ hu
    rcases hpart with hnone | hnone
    · simp [hnone] at hline
    · simp [hnone] at hcolumn

theorem Addable.concat (h : Addable urls ms)
    (hno : ∀ e, ¬ Objection urls number (previous? ms) m e) : Addable urls (ms ++ [m]) := by
  refine ⟨List.pairwise_append.mpr ⟨h.sorted, List.pairwise_singleton _ _, ?_⟩, ?_⟩
  · intro n hn n' hn'
    obtain rfl := List.mem_singleton.mp hn'
    have hne := List.ne_nil_of_mem hn
    have hlast : previous? ms = some (ms.getLast hne).column := by
      rw [previous?, List.getLast?_eq_some_getLast hne, Option.map_some]
    have hle : (ms.getLast hne).column ≤ n'.column := by
      apply UInt32.not_lt.mp
      intro hlt
      exact hno _ (.early hlast hlt)
    have hend := h.sorted.rel_getLast_of_rel_getLast_getLast hn (UInt32.le_refl _)
    exact UInt32.le_trans hend hle
  · intro n hn url hu
    rcases List.mem_append.mp hn with hn | hn
    · exact h.complete n hn url hu
    · obtain rfl := List.mem_singleton.mp hn
      have hmem : url ∈ urls := by
        by_contra hunknown
        exact hno _ (.unknown hu hunknown)
      refine ⟨hmem, ?_, ?_⟩
      · apply Option.isSome_iff_ne_none.mpr
        intro hnone
        exact hno _ (.incomplete hu hmem (.inl hnone))
      · apply Option.isSome_iff_ne_none.mpr
        intro hnone
        exact hno _ (.incomplete hu hmem (.inr hnone))

theorem OnLine.addMapping (h : b.OnLine urls number last?) (hm : b.addMapping m = (b', .ok ())) :
    b'.OnLine urls number (some m.column) := by
  refine ⟨?_, ?_, (addMapping_column hm).2⟩
  · rw [addMapping_urls hm]
    exact h.known
  · rw [addMapping_lines hm]
    exact h.lines

theorem onLine_addLine (hknown : ∀ url, url ∈ b.urls ↔ url ∈ urls) :
    b.addLine.OnLine urls b.lines.length none :=
  ⟨hknown, rfl, rfl⟩

/-- Mappings that can stand on one line are all added to a new one. -/
theorem OnLine.play_mappings (h : b.OnLine urls number none) (ha : Addable urls ms) :
    ∃ b', b.play (ms.map .mapping) = (b', none) ∧ b'.OnLine urls number (previous? ms) := by
  induction ms using List.reverseRecOn with
  | nil => exact ⟨b, rfl, h⟩
  | append_singleton ms m ih =>
    have hms : Addable urls ms :=
      ⟨(List.pairwise_append.mp ha.sorted).1, fun n hn => ha.complete n (List.mem_append_left _ hn)⟩
    obtain ⟨b', hplay, hon⟩ := ih hms
    rcases b'.addMapping_cases m with ⟨e, hm⟩ | ⟨b'', hm⟩
    · have hrefused : (b'.addMapping m).2 = .error e := by rw [hm]
      exact absurd (hon.refused_iff.mp hrefused).holds ha.not_objection
    · refine ⟨b'', ?_, ?_⟩
      · rw [List.map_append, play_append _ hplay, List.map_singleton, play, apply, hm]
        rfl
      · rw [previous?, List.getLast?_concat]
        exact hon.addMapping hm

/-- The steps that add whole lines. -/
def lineSteps (lines : List (List Mapping)) : List Step :=
  lines.flatMap fun ms => .line :: ms.map .mapping

theorem play_lineSteps {lines : List (List Mapping)} (hknown : ∀ url, url ∈ b.urls ↔ url ∈ urls)
    (ha : ∀ ms ∈ lines, Addable urls ms) :
    ∃ b', b.play (lineSteps lines) = (b', none) ∧ (∀ url, url ∈ b'.urls ↔ url ∈ urls) ∧
      b'.lines.length = b.lines.length + lines.length := by
  induction lines generalizing b with
  | nil => exact ⟨b, rfl, hknown, rfl⟩
  | cons ms lines ih =>
    obtain ⟨b₁, hplay₁, hon⟩ := (onLine_addLine hknown).play_mappings (ha ms List.mem_cons_self)
    obtain ⟨b₂, hplay₂, hknown₂, hlines₂⟩ := ih hon.known fun ns hn =>
      ha ns (List.mem_cons_of_mem _ hn)
    refine ⟨b₂, ?_, hknown₂, ?_⟩
    · rw [lineSteps, List.flatMap_cons, List.cons_append, play, apply]
      exact (play_append _ hplay₁).trans hplay₂
    · rw [hlines₂, hon.lines, List.length_cons]
      omega

/-- Sources are registered without fail, and nothing but the sources is known then. -/
theorem play_registrations (b : Builder) (ss : List Source) :
    ∃ b', b.play (ss.map .source) = (b', none) ∧ b'.lines = b.lines ∧
      ∀ url, url ∈ b'.urls ↔ url ∈ b.urls ∨ url ∈ ss.map Source.url := by
  induction ss generalizing b with
  | nil => exact ⟨b, rfl, rfl, by simp⟩
  | cons s ss ih =>
    obtain ⟨b', hplay, hlines, hurls⟩ := ih (b.addSource s)
    refine ⟨b', hplay, hlines.trans (addSource_lines b s), ?_⟩
    intro url
    rw [hurls, addSource_urls, List.map_cons, List.mem_cons]
    split
    · rename_i hs
      constructor
      · tauto
      · rintro (h | rfl | h)
        · exact .inl h
        · exact .inl hs
        · exact .inr h
    · simp [or_assoc]

end Builder

namespace Plan

open Builder

variable {p : Plan} {lines : List (List Mapping)} {ms : List Mapping} {m : Mapping} {e : Error}

def urls (p : Plan) : List String :=
  p.sources.map Source.url

/-- A plan begins with whole lines and the front of one more. -/
def Begins (p : Plan) (lines : List (List Mapping)) (ms : List Mapping) : Prop :=
  ∃ rest others, p.lines = lines ++ (ms ++ rest) :: others

/-- The first mapping of a plan that is at fault, with the foremost of its faults. -/
structure FirstFault (p : Plan) (lines : List (List Mapping)) (ms : List Mapping) (m : Mapping)
    (e : Error) : Prop where
  begins : p.Begins lines (ms ++ [m])
  earlier : ∀ ns ∈ lines, Addable p.urls ns
  before : Addable p.urls ms
  fault : Foremost Error.rank (Objection p.urls lines.length (previous? ms) m) e

theorem Begins.concat {rest : List Mapping} {others : List (List Mapping)}
    (h : p.lines = lines ++ (ms ++ m :: rest) :: others) : p.Begins lines (ms ++ [m]) :=
  ⟨rest, others, by rw [h, List.append_assoc, List.singleton_append]⟩

/-- A plan with a line that cannot be added has a first mapping at which this shows. -/
theorem exists_begins (h : ¬ ∀ ns ∈ p.lines, Addable p.urls ns) :
    ∃ lines ms m, p.Begins lines (ms ++ [m]) ∧ (∀ ns ∈ lines, Addable p.urls ns) ∧
      Addable p.urls ms ∧ ¬ Addable p.urls (ms ++ [m]) := by
  obtain ⟨lines, ns, others, hlines, hearlier, hns⟩ :=
    exists_first_failure (P := fun lines => ∀ ns ∈ lines, Addable p.urls ns) (by simp) h
  have hfault : ¬ Addable p.urls ns := by
    intro ha
    apply hns
    intro ns' hmem
    rcases List.mem_append.mp hmem with hmem | hmem
    · exact hearlier ns' hmem
    · obtain rfl := List.mem_singleton.mp hmem
      exact ha
  obtain ⟨ms, m, rest, rfl, hms, hm⟩ := exists_first_failure (addable_nil p.urls) hfault
  exact ⟨lines, ms, m, .concat hlines, hearlier, hms, hm⟩

theorem steps_eq (p : Plan) : p.steps = p.sources.map .source ++ lineSteps p.lines := rfl

/-- A replay comes through all lines that can be added. -/
theorem play_earlier (p : Plan) (defaultFile : Option String)
    (ha : ∀ ns ∈ lines, Addable p.urls ns) :
    ∃ b, (p.start defaultFile).play (p.sources.map .source ++ lineSteps lines) = (b, none) ∧
      (∀ url, url ∈ b.urls ↔ url ∈ p.urls) ∧ b.lines.length = lines.length := by
  obtain ⟨b₀, hplay₀, hlines₀, hurls₀⟩ := play_registrations (p.start defaultFile) p.sources
  have hknown : ∀ url, url ∈ b₀.urls ↔ url ∈ p.urls := by
    intro url
    rw [hurls₀]
    exact or_iff_right List.not_mem_nil
  obtain ⟨b, hplay, hurls, hlines⟩ := play_lineSteps hknown ha
  refine ⟨b, (play_append _ hplay₀).trans hplay, hurls, ?_⟩
  rw [hlines, hlines₀]
  exact Nat.zero_add _

/-- A replay stops where the next mapping is refused. -/
theorem replay_of_begins (defaultFile : Option String) (hb : p.Begins lines (ms ++ [m]))
    (hearlier : ∀ ns ∈ lines, Addable p.urls ns) (hms : Addable p.urls ms) :
    ∃ b : Builder, b.OnLine p.urls lines.length (previous? ms) ∧
      ∀ e, (b.addMapping m).2 = .error e → p.replay defaultFile = .error e := by
  obtain ⟨rest, others, hlines⟩ := hb
  obtain ⟨b₁, hplay₁, hknown₁, hlength₁⟩ := play_earlier p defaultFile hearlier
  have honline := onLine_addLine hknown₁
  rw [hlength₁] at honline
  obtain ⟨b₂, hplay₂, hon⟩ := honline.play_mappings hms
  refine ⟨b₂, hon, ?_⟩
  intro e hm
  have hsteps : p.steps = (p.sources.map .source ++ lineSteps lines) ++
      .line :: (ms.map .mapping ++ .mapping m :: (rest.map .mapping ++ lineSteps others)) := by
    rw [steps_eq, hlines, lineSteps, List.flatMap_append, List.flatMap_cons]
    simp [lineSteps]
  have hend : (p.start defaultFile).play p.steps = (b₂, some e) := by
    rw [hsteps, play_append _ hplay₁, Builder.play, apply]
    change b₁.addLine.play _ = _
    rw [play_append _ hplay₂, Builder.play, apply, addMapping_of_refused hm]
  rw [replay, play, hend]

theorem replay_of_addable (defaultFile : Option String)
    (ha : ∀ ns ∈ p.lines, Addable p.urls ns) : ∃ b, p.replay defaultFile = .ok b := by
  obtain ⟨b, hplay, -, -⟩ := play_earlier p defaultFile ha
  exact ⟨b, replay_of_play hplay⟩

/-- The first fault of a plan is what its replay ends with. -/
theorem FirstFault.replay_eq (h : p.FirstFault lines ms m e) (defaultFile : Option String) :
    p.replay defaultFile = .error e := by
  obtain ⟨b, hon, hstop⟩ := replay_of_begins defaultFile h.begins h.earlier h.before
  exact hstop e (hon.refused_iff.mpr h.fault)

theorem exists_firstFault (h : ¬ ∀ ns ∈ p.lines, Addable p.urls ns) :
    ∃ lines ms m e, p.FirstFault lines ms m e := by
  obtain ⟨lines, ms, m, hb, hearlier, hms, hm⟩ := exists_begins h
  obtain ⟨b, hon, -⟩ := replay_of_begins none hb hearlier hms
  cases hcheck : b.check m with
  | error e =>
    exact ⟨lines, ms, m, e, hb, hearlier, hms, hon.refused_iff.mp (refused_iff_check.mpr hcheck)⟩
  | ok origin => exact absurd (hms.concat fun e => hon.not_objection hcheck) hm

/-- A replay comes to its end exactly if every line can be added, with one segment for each mapping
of the plan; otherwise it ends with the first fault of the plan, and so does the replay of every
plan with the same sources that begins in the same way. -/
theorem replay_first_fault (p : Plan) (defaultFile : Option String) :
    ((∃ b, p.replay defaultFile = .ok b) ↔ ∀ ns ∈ p.lines, Addable p.urls ns) ∧
    (∀ b, p.replay defaultFile = .ok b → b.recorded.length = p.lines.length ∧
      List.Forall₂ (Answers b.urls) (placed b.recorded) (placed p.lines)) ∧
    (∀ e, p.replay defaultFile = .error e ↔ ∃ lines ms m, p.FirstFault lines ms m e) ∧
    p.replay defaultFile ≠ .error .noLine ∧
    ∀ lines ms m e, p.FirstFault lines ms m e → ∀ (q : Plan) (otherFile : Option String),
      q.sources = p.sources → q.Begins lines (ms ++ [m]) → q.replay otherFile = .error e := by
  have herror : ∀ e, p.replay defaultFile = .error e ↔ ∃ lines ms m, p.FirstFault lines ms m e := by
    intro e
    constructor
    · intro h
      have hfault : ¬ ∀ ns ∈ p.lines, Addable p.urls ns := by
        intro ha
        obtain ⟨b, hb⟩ := replay_of_addable defaultFile ha
        rw [h] at hb
        cases hb
      obtain ⟨lines, ms, m, e', hfirst⟩ := exists_firstFault hfault
      have he := hfirst.replay_eq defaultFile
      rw [h, Except.error.injEq] at he
      exact ⟨lines, ms, m, he ▸ hfirst⟩
    · intro h
      rcases h with ⟨lines, ms, m, hfirst⟩
      exact hfirst.replay_eq defaultFile
  refine ⟨⟨?_, replay_of_addable defaultFile⟩, ?_, herror, ?_, ?_⟩
  · intro h
    rcases h with ⟨b, hb⟩
    by_contra hfault
    obtain ⟨lines, ms, m, e, hfirst⟩ := exists_firstFault hfault
    rw [hfirst.replay_eq defaultFile] at hb
    cases hb
  · intro b hb
    exact ⟨(replayed hb).lines, (replayed hb).answers⟩
  · intro h
    obtain ⟨lines, ms, m, hfirst⟩ := (herror _).mp h
    exact absurd hfirst.fault.holds.rank_pos (Nat.lt_irrefl 0)
  · intro lines ms m e hfirst q otherFile hsources hb
    have hurls : q.urls = p.urls := by rw [urls, urls, hsources]
    have hq : q.FirstFault lines ms m e := by
      refine ⟨hb, ?_, ?_, ?_⟩
      · rw [hurls]
        exact hfirst.earlier
      · rw [hurls]
        exact hfirst.before
      · rw [hurls]
        exact hfirst.fault
    exact hq.replay_eq otherFile

/-- The column counts before the place that is missing, and the unknown source comes too late. -/
example : (⟨none, [⟨"a", none⟩], [[⟨7, none, none, none⟩],
    [⟨5, some "a", some 0, some 0⟩, ⟨2, some "a", none, none⟩, ⟨6, some "b", none, none⟩]]⟩ :
      Plan).replay none = .error (.outOfOrder 1 2 5) := by decide

end Plan

end Templating
