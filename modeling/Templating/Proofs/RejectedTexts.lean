import Templating.Proofs.FaultyPieces

namespace Templating

/-- Where two texts meet, the last part of one and the first part of the other are one part. -/
theorem splitOn_append [BEq α] (a : α) (xs ys : List α) :
    ∃ front last first rest, xs.splitOn a = front ++ [last] ∧ ys.splitOn a = first :: rest ∧
      (xs ++ ys).splitOn a = front ++ (last ++ first) :: rest := by
  obtain ⟨first, rest, hy⟩ := List.exists_cons_of_ne_nil (List.splitOn_ne_nil a ys)
  induction xs with
  | nil => exact ⟨[], [], first, rest, rfl, hy, hy⟩
  | cons x xs ih =>
    obtain ⟨front, last, first, rest, hx, hy, happend⟩ := ih
    rw [List.cons_append, List.splitOn_cons_eq_if_modifyHead, List.splitOn_cons_eq_if_modifyHead,
      hx, happend]
    split
    · exact ⟨[] :: front, last, first, rest, rfl, hy, rfl⟩
    · cases front with
      | nil => exact ⟨[], x :: last, first, rest, rfl, hy, rfl⟩
      | cons part front => exact ⟨(x :: part) :: front, last, first, rest, rfl, hy, rfl⟩

namespace Mappings

/-- Behind the totals of those before, there is nothing wrong with any fields. -/
def Faultless (rows : List (List (List Int64))) : Prop :=
  ∀ i row j fields e, rows[i]? = some row → row[j]? = some fields →
    ¬ FieldFault (totals (rows.take i) (row.take j)) fields e

/-- Pieces of whole lines and of the front of one more that have fields with nothing wrong. -/
structure Accepted (lines : List (List (List Char))) (ps : List (List Char))
    (before : List (List (List Int64))) (front : List (List Int64)) : Prop where
  spelled : List.Forall₂ (List.Forall₂ Spelled) lines before
  spelledFront : List.Forall₂ Spelled ps front
  faultless : Faultless (before ++ [front])

/-- The first piece with something wrong behind the totals of those before, and what is told. -/
structure FirstFault (text : String) (before : List (List (List Int64)))
    (front : List (List Int64)) (piece : List Char) (e : Error) : Prop where
  place : ∃ lines ps rest others, linePieces text = lines ++ (ps ++ piece :: rest) :: others ∧
    Accepted lines ps before front
  told : Foremost Error.rank (Fault (totals before front) piece) e

/-- Pieces that begin with others; what is new stands on their last line or behind it. -/
def Extends (pss pss' : List (List (List Char))) : Prop :=
  ∃ lines ps more others, pss = lines ++ [ps] ∧ pss' = lines ++ (ps ++ more) :: others

variable {rows before : List (List (List Int64))} {front : List (List Int64)}
  {lines pss pss' : List (List (List Char))} {ps : List (List Char)} {piece : List Char}
  {text : String} {e : Error}

theorem totals_take {row : List (List Int64)} {fields : List Int64} {j : Nat}
    (hj : row[j]? = some fields) :
    totals before (row.take (j + 1)) = plus (totals before (row.take j)) [fields] := by
  rw [totals_eq, totals_eq, ← plus_append, List.take_add_one, hj, Option.toList_some]

theorem faultless_iff :
    Faultless rows ↔ (∀ row ∈ rows, ∀ fields ∈ row, Counted fields) ∧ InRange rows := by
  constructor
  · intro h
    have hgood : ∀ i row j fields, rows[i]? = some row → row[j]? = some fields →
        Counted fields ∧ Within (totals (rows.take i) (row.take (j + 1))) fields := by
      intro i row j fields hi hj
      rw [totals_take hj]
      exact not_fieldFault_iff.mp fun e => h i row j fields e hi hj
    refine ⟨?_, fun i row j fields hi hj => (hgood i row j fields hi hj).2⟩
    intro row hr fields hf
    obtain ⟨i, hi⟩ := List.mem_iff_getElem?.mp hr
    obtain ⟨j, hj⟩ := List.mem_iff_getElem?.mp hf
    exact (hgood i row j fields hi hj).1
  · intro h
    obtain ⟨hc, hr⟩ := h
    intro i row j fields e hi hj
    have hcount := hc row (List.mem_of_getElem? hi) fields (List.mem_of_getElem? hj)
    have hwithin := hr i row j fields hi hj
    rw [totals_take hj] at hwithin
    exact not_fieldFault_iff.mpr ⟨hcount, hwithin⟩ e

/-- Where the walk stands behind whole lines and the front of one more. -/
theorem past_eq_totals {sss : List (List Segment)} {ss : List Segment}
    (hs : walkLines segmentFrom {} before = .ok sss)
    (ht : walk segmentFrom (pastLines {} sss).newLine front = .ok ss) :
    ss.foldl Cursor.past (pastLines {} sss).newLine = totals before front := by
  rw [(walk_stands ht).2.1, pastLines_newLine hs, totals_eq]

/-- Pieces are walked along exactly where they are accepted, and the walk ends at their totals. -/
theorem accepted_iff {c : Cursor} :
    (∃ sss ss, walkLines readPiece {} lines = .ok sss ∧
      walk readPiece (pastLines {} sss).newLine ps = .ok ss ∧
      ss.foldl Cursor.past (pastLines {} sss).newLine = c) ↔
    ∃ before front, Accepted lines ps before front ∧ totals before front = c := by
  constructor
  · intro h
    obtain ⟨sss, ss, hs, ht, rfl⟩ := h
    obtain ⟨before, hbefore⟩ := exists_spells_of_walkLines hs
    obtain ⟨front, hfront⟩ := exists_spells_of_walk ht
    have hlines := spelled_of_spells hbefore
    have hps := hfront.imp fun _ _ hp => hp.spelled
    rw [walkLines_of_spelled hlines] at hs
    rw [walk_of_spelled hps] at ht
    have hcounted : ∀ row ∈ before ++ [front], ∀ fields ∈ row, Counted fields :=
      counted_of_spells (List.rel_append hbefore (.cons hfront .nil))
    have hrange : InRange (before ++ [front]) :=
      (exists_walkLines_iff hcounted).mp ⟨_, walkLines_concat.mpr ⟨sss, ss, hs, ht, rfl⟩⟩
    exact ⟨before, front, ⟨hlines, hps, faultless_iff.mpr ⟨hcounted, hrange⟩⟩,
      (past_eq_totals hs ht).symm⟩
  · intro h
    obtain ⟨before, front, ha, rfl⟩ := h
    obtain ⟨hcounted, hrange⟩ := faultless_iff.mp ha.faultless
    obtain ⟨done, hdone⟩ := (exists_walkLines_iff hcounted).mpr hrange
    obtain ⟨sss, ss, hs, ht, -⟩ := walkLines_concat.mp hdone
    have hpast := past_eq_totals hs ht
    rw [← walkLines_of_spelled ha.spelled] at hs
    rw [← walk_of_spelled ha.spelledFront] at ht
    exact ⟨sss, ss, hs, ht, hpast⟩

theorem read_error_iff_walk :
    read text = .error e ↔ walkLines readPiece {} (linePieces text) = .error e := by
  rw [read_eq, map_eq_error_iff]

theorem ne_nil_of_place {rest : List (List Char)} {others : List (List (List Char))}
    (h : linePieces text = lines ++ (ps ++ piece :: rest) :: others) : piece ≠ [] := by
  have hline : ps ++ piece :: rest ∈ linePieces text := by
    rw [h]
    exact List.mem_append_right lines List.mem_cons_self
  obtain ⟨chars, -, hchars⟩ := List.mem_map.mp hline
  have hpiece : piece ∈ pieces chars := by
    rw [hchars]
    exact List.mem_append_right ps List.mem_cons_self
  exact ne_nil_of_mem_pieces hpiece

/-- A text is told what the first piece with something wrong is told. -/
theorem read_error_iff :
    read text = .error e ↔ ∃ before front piece, FirstFault text before front piece e := by
  rw [read_error_iff_walk]
  constructor
  · intro h
    obtain ⟨lines, line', others, sss, hlines, hs, h⟩ := walkLines_error_iff.mp h
    obtain ⟨ps, piece, rest, ss, rfl, ht, he⟩ := walk_error_iff.mp h
    obtain ⟨before, front, ha, hc⟩ := accepted_iff.mp ⟨sss, ss, hs, ht, rfl⟩
    have hne := ne_nil_of_place hlines
    rw [← hc] at he
    exact ⟨before, front, piece, ⟨lines, ps, rest, others, hlines, ha⟩,
      (readPiece_error_iff hne).mp he⟩
  · intro h
    obtain ⟨before, front, piece, ⟨lines, ps, rest, others, hlines, ha⟩, htold⟩ := h
    obtain ⟨sss, ss, hs, ht, hc⟩ := accepted_iff.mpr ⟨before, front, ha, rfl⟩
    have hne := ne_nil_of_place hlines
    rw [← hc] at htold
    exact walkLines_error_iff.mpr ⟨lines, ps ++ piece :: rest, others, sss, hlines, hs,
      walk_error_iff.mpr ⟨ps, piece, rest, ss, rfl, ht, (readPiece_error_iff hne).mpr htold⟩⟩

/-- What stands behind a step that fails is not looked at. -/
theorem walk_error_append {step : Cursor → α → Except Error Segment} {c : Cursor} {as : List α}
    (h : walk step c as = .error e) (more : List α) : walk step c (as ++ more) = .error e := by
  obtain ⟨front, a, rest, ss, rfl, hs, he⟩ := walk_error_iff.mp h
  exact walk_error_iff.mpr ⟨front, a, rest ++ more, ss, by simp, hs, he⟩

theorem Extends.walkLines_error {c : Cursor} (h : Extends pss pss')
    (he : walkLines readPiece c pss = .error e) : walkLines readPiece c pss' = .error e := by
  obtain ⟨lines, ps, more, others, rfl, rfl⟩ := h
  obtain ⟨front, qs, rest, sss, heq, hs, hq⟩ := walkLines_error_iff.mp he
  apply walkLines_error_iff.mpr
  -- the line that fails is the last one, which goes on behind the failure, or an earlier one
  rcases List.eq_nil_or_concat rest with rfl | ⟨rest, last, rfl⟩
  · obtain ⟨rfl, hlast⟩ := List.append_inj' heq rfl
    obtain rfl := List.singleton_inj.mp hlast
    exact ⟨lines, ps ++ more, others, sss, rfl, hs, walk_error_append hq more⟩
  · rw [List.concat_eq_append, ← List.cons_append, ← List.append_assoc] at heq
    obtain ⟨rfl, -⟩ := List.append_inj' heq rfl
    exact ⟨front, qs, rest ++ (ps ++ more) :: others, sss, by simp, hs, hq⟩

theorem pieces_append_comma (cs ds : List Char) :
    pieces (cs ++ ',' :: ds) = pieces cs ++ pieces ds := by
  rw [pieces, List.splitOn_append_cons_self, List.filter_append]
  rfl

theorem linePieces_ne_nil (text : String) : linePieces text ≠ [] := by
  rw [linePieces, ne_eq, List.map_eq_nil_iff]
  exact List.splitOn_ne_nil _ _

theorem extends_semicolon (text more : String) :
    Extends (linePieces text) (linePieces (text ++ ";" ++ more)) := by
  have happend : linePieces (text ++ ";" ++ more) = linePieces text ++ linePieces more := by
    rw [linePieces, String.toList_append, String.toList_append, List.append_assoc]
    change List.map pieces ((text.toList ++ ';' :: more.toList).splitOn ';') = _
    rw [List.splitOn_append_cons_self, List.map_append]
    rfl
  have hlast := List.dropLast_append_getLast (linePieces_ne_nil text)
  refine ⟨_, _, [], linePieces more, hlast.symm, ?_⟩
  rw [happend, List.append_nil, List.append_cons, hlast]

theorem extends_comma (text more : String) :
    Extends (linePieces text) (linePieces (text ++ "," ++ more)) := by
  obtain ⟨front, last, first, rest, htext, hmore, happend⟩ :=
    splitOn_append ';' text.toList (',' :: more.toList)
  obtain ⟨start, rest', hstart⟩ := List.exists_cons_of_ne_nil (List.splitOn_ne_nil ';' more.toList)
  rw [List.splitOn_cons_eq_if_modifyHead, hstart] at hmore
  obtain ⟨rfl, rfl⟩ := List.cons.inj hmore
  refine ⟨front.map pieces, pieces last, pieces start, rest'.map pieces, ?_, ?_⟩
  · rw [linePieces, htext, List.map_append]
    rfl
  · rw [linePieces, String.toList_append, String.toList_append, List.append_assoc]
    change List.map pieces ((text.toList ++ ',' :: more.toList).splitOn ';') = _
    rw [happend, List.map_append, List.map_cons, pieces_append_comma]

theorem read_error_of_extends {other : String} (h : Extends (linePieces text) (linePieces other))
    (he : read text = .error e) : read other = .error e := by
  rw [read_error_iff_walk] at he ⊢
  exact h.walkLines_error he

/-- A text is refused for the first piece with something wrong, and what stands behind it has no say
in what is told. -/
theorem read_first_fault (text : String) :
    (∀ e, read text = .error e ↔
      ∃ before front piece, FirstFault text before front piece e) ∧
    ∀ e, read text = .error e → ∀ more,
      read (text ++ "," ++ more) = .error e ∧ read (text ++ ";" ++ more) = .error e := by
  refine ⟨fun e => read_error_iff, ?_⟩
  intro e he more
  exact ⟨read_error_of_extends (extends_comma text more) he,
    read_error_of_extends (extends_semicolon text more) he⟩

/-- A piece that leads to a negative column and has two fields. -/
def negativeText : String := "C,FA"

theorem spelled_negative : Spelled ['F', 'A'] [-2, 0] :=
  ⟨[['F'], ['A']], rfl, .cons rfl (.cons rfl .nil)⟩

theorem firstFault_negative :
    FirstFault negativeText [] [[1]] ['F', 'A'] (.outOfRange .generatedColumn) := by
  have hfaultless : Faultless [[[1]]] :=
    faultless_iff.mpr ⟨by simp [Counted],
      (exists_walkLines_iff (by simp [Counted])).mp ⟨[[⟨1, none⟩]], rfl⟩⟩
  have hread : readPiece (totals [] [[1]]) ['F', 'A'] = .error (.outOfRange .generatedColumn) := by
    rw [spelled_negative.readPiece_eq]
    rfl
  exact ⟨⟨[], [['C']], [], [], rfl, .nil, .cons ⟨[['C']], rfl, .cons rfl .nil⟩ .nil, hfaultless⟩,
    (readPiece_error_iff (by simp)).mp hread⟩

theorem read_first_fault_negative :
    Fault (totals [] [[1]]) ['F', 'A'] (.segmentLength 2) ∧
      read negativeText = .error (.outOfRange .generatedColumn) ∧
      read (negativeText ++ "," ++ "!") = .error (.outOfRange .generatedColumn) ∧
      read (negativeText ++ ";" ++ "!") = .error (.outOfRange .generatedColumn) := by
  obtain ⟨hfirst, hbehind⟩ := read_first_fault negativeText
  have hread := (hfirst _).mpr ⟨_, _, _, firstFault_negative⟩
  exact ⟨.fields spelled_negative (.segmentLength (by simp [Counted])), hread, hbehind _ hread "!"⟩

end Mappings

end Templating
