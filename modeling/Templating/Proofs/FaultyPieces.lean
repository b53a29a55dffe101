import Templating.Proofs.ReadableTexts

namespace Templating

namespace Vlq

theorem decodeAll_of_error {cs rest : List Char} {e : Error} (hne : cs ≠ [])
    (hd : decode cs = (.error e, rest)) : decodeAll cs = ⟨[], some e, rest⟩ := by
  rw [decodeAll, dif_neg hne]
  split
  · rename_i v tail hv
    rw [hd] at hv
    cases hv
  · rename_i e' tail he
    rw [hd, Prod.mk.injEq, Except.error.injEq] at he
    rw [he.1, he.2]

/-- Values are read up to the first that cannot be read. -/
theorem decodeAll_broken {spellings : List (List Char)} {vs : List Int64} {tail rest : List Char}
    {e : Error} (h : List.Forall₂ Spells spellings vs) (hne : tail ≠ [])
    (hd : decode tail = (.error e, rest)) :
    decodeAll (spellings.flatten ++ tail) = ⟨vs, some e, rest⟩ := by
  induction h with
  | nil => exact decodeAll_of_error hne hd
  | @cons p v ps vs hp _ ih =>
    rw [List.flatten_cons, List.append_assoc, decodeAll_of_decode (by simp [hp.ne_nil])
      (hp.decode_append _), ih]
    rfl

theorem broken_of_decodeAll {cs rest : List Char} {vs : List Int64} {e : Error}
    (h : decodeAll cs = ⟨vs, some e, rest⟩) :
    ∃ spellings tail, cs = spellings.flatten ++ tail ∧ List.Forall₂ Spells spellings vs ∧
      tail ≠ [] ∧ decode tail = (.error e, rest) := by
  fun_induction decodeAll cs generalizing vs with
  | case1 => simp at h
  | case2 cs hne v tail hd hlt ih =>
    obtain ⟨p, rfl, hp⟩ := spells_of_decode hd
    cases hs : decodeAll tail with
    | mk ws e' last =>
      simp only [hs, Scan.after, Scan.mk.injEq] at h
      obtain ⟨rfl, rfl, rfl⟩ := h
      obtain ⟨ps, broken, rfl, hps, hbroken, he⟩ := ih hs
      exact ⟨p :: ps, broken, by simp, .cons hp hps, hbroken, he⟩
  | case3 cs hne e' tail hd =>
    simp only [Scan.mk.injEq, Option.some.injEq] at h
    obtain ⟨rfl, rfl, rfl⟩ := h
    exact ⟨[], cs, rfl, .nil, hne, hd⟩

end Vlq

namespace Mappings

/-- A piece in which some values are followed by one that cannot be read. -/
def BreaksOff (piece : List Char) (e : Vlq.Error) : Prop :=
  ∃ spellings values tail rest, piece = spellings.flatten ++ tail ∧
    List.Forall₂ Vlq.Spells spellings values ∧ tail ≠ [] ∧ Vlq.decode tail = (.error e, rest)

/-- Every piece moves the column, and one of four or five fields the place in a source. -/
def Moves (fields : List Int64) : Total → Prop
  | .generatedColumn => True
  | _ => fields.length = 4 ∨ fields.length = 5

def totalOf (t : Cursor) : Total → Int
  | .generatedColumn => t.column
  | .sourceIndex => t.source
  | .sourceLine => t.line
  | .sourceColumn => t.originColumn

/-- What is wrong with fields behind given totals. -/
inductive FieldFault (c : Cursor) (fields : List Int64) : Error → Prop
  | segmentLength : ¬ Counted fields → FieldFault c fields (.segmentLength fields.length)
  | outOfRange {total : Total} : Moves fields total →
      ¬ IsWord (totalOf (plus c [fields]) total) → FieldFault c fields (.outOfRange total)

/-- What is wrong with a piece behind given totals. -/
inductive Fault (c : Cursor) (piece : List Char) : Error → Prop
  | value {e : Vlq.Error} : BreaksOff piece e → Fault c piece (.value e)
  | fields {fields : List Int64} {e : Error} : Spelled piece fields → FieldFault c fields e →
      Fault c piece e

/-- The order of the checks. -/
def Error.rank : Error → Nat
  | .value _ => 0
  | .outOfRange .generatedColumn => 1
  | .segmentLength _ => 2
  | .outOfRange .sourceIndex => 3
  | .outOfRange .sourceLine => 4
  | .outOfRange .sourceColumn => 5

variable {c : Cursor} {fields : List Int64} {piece : List Char} {e e' : Error}

theorem word_eq_error_iff {total : Total} {n : Int} :
    word total n = .error e ↔ ¬ IsWord n ∧ e = .outOfRange total := by
  unfold word
  split
  · rename_i hn
    exact ⟨fun h => (by cases h), fun h => absurd hn h.1⟩
  · rename_i hn
    rw [Except.error.injEq, eq_comm]
    exact ⟨fun h => ⟨hn, h⟩, And.right⟩

theorem isWord_of_word {total : Total} {n : Int} {w : UInt32} (h : word total n = .ok w) :
    IsWord n :=
  isWord_iff.mpr ⟨w, word_eq_ok_iff.mp h⟩

theorem originFrom_error {source line column : Int64}
    (h : originFrom c source line column = .error e) :
    ¬ IsWord (c.source + source.toInt) ∧ e = .outOfRange .sourceIndex ∨
    IsWord (c.source + source.toInt) ∧
      (¬ IsWord (c.line + line.toInt) ∧ e = .outOfRange .sourceLine ∨
      IsWord (c.line + line.toInt) ∧
        ¬ IsWord (c.originColumn + column.toInt) ∧ e = .outOfRange .sourceColumn) := by
  rcases bind_eq_error_iff.mp h with hs | ⟨w, hs, h⟩
  · exact .inl (word_eq_error_iff.mp hs)
  refine .inr ⟨isWord_of_word hs, ?_⟩
  rcases bind_eq_error_iff.mp h with hl | ⟨l, hl, h⟩
  · exact .inl (word_eq_error_iff.mp hl)
  refine .inr ⟨isWord_of_word hl, ?_⟩
  rcases bind_eq_error_iff.mp h with hc | ⟨k, -, h⟩
  · exact word_eq_error_iff.mp hc
  · cases h

theorem Moves.of_counted {total : Total} (hc : Counted fields) (hone : fields.length ≠ 1) :
    Moves fields total := by
  cases total with
  | generatedColumn => trivial
  | _ => exact hc.resolve_left hone

theorem Moves.counted {total : Total} (h : Moves fields total)
    (hne : total ≠ .generatedColumn) : Counted fields := by
  cases total with
  | generatedColumn => exact absurd rfl hne
  | _ => exact .inr h

/-- A total out of range is told of counted fields where all that are checked before are words. -/
theorem foremost_outOfRange {total : Total} (hc : Counted fields) (hm : Moves fields total)
    (hout : ¬ IsWord (totalOf (plus c [fields]) total))
    (hw : ∀ earlier, (Error.outOfRange earlier).rank < (Error.outOfRange total).rank →
      IsWord (totalOf (plus c [fields]) earlier)) :
    Foremost Error.rank (FieldFault c fields) (.outOfRange total) := by
  refine ⟨.outOfRange hm hout, ?_⟩
  intro e' he'
  cases he' with
  | segmentLength hn => exact absurd hc hn
  | @outOfRange earlier _ hearlier =>
    by_contra hlt
    exact hearlier (hw earlier (Nat.lt_of_not_le hlt))

/-- A column out of range is told before everything else that is wrong with fields. -/
theorem foremost_of_column {column : Int64} {others : List Int64}
    (h : word .generatedColumn (c.column + column.toInt) = .error e) :
    Foremost Error.rank (FieldFault c (column :: others)) e := by
  obtain ⟨hout, rfl⟩ := word_eq_error_iff.mp h
  rw [← plus_column c column others] at hout
  refine ⟨.outOfRange trivial hout, ?_⟩
  intro e' he'
  cases he' with
  | segmentLength _ => exact Nat.le_succ 1
  | @outOfRange total _ _ => cases total <;> simp [Error.rank]

theorem foremost_segmentLength (hc : ¬ Counted fields) (hw : IsWord (plus c [fields]).column) :
    Foremost Error.rank (FieldFault c fields) (.segmentLength fields.length) := by
  refine ⟨.segmentLength hc, ?_⟩
  intro e' he'
  cases he' with
  | segmentLength _ => exact Nat.le_refl _
  | @outOfRange total hm hout =>
    by_cases hcolumn : total = .generatedColumn
    · subst hcolumn
      exact absurd hw hout
    · exact absurd (hm.counted hcolumn) hc

theorem segmentFrom_uncounted {column : Int64} {others : List Int64}
    (hc : ¬ Counted (column :: others)) :
    segmentFrom c (column :: others) =
      word .generatedColumn (c.column + column.toInt) >>= fun _ =>
        .error (.segmentLength (column :: others).length) := by
  match others with
  | [] => exact absurd (.inl rfl) hc
  | [_, _, _] => exact absurd (.inr (.inl rfl)) hc
  | [_, _, _, _] => exact absurd (.inr (.inr rfl)) hc
  | [_] => rfl
  | [_, _] => rfl
  | _ :: _ :: _ :: _ :: _ :: _ => rfl

theorem foremost_of_originFrom {column source line originColumn : Int64} {names : List Int64}
    (hn : names.length ≤ 1) (hcolumn : IsWord (c.column + column.toInt))
    (h : originFrom c source line originColumn = .error e) :
    Foremost Error.rank (FieldFault c (column :: source :: line :: originColumn :: names)) e := by
  have hc : Counted (column :: source :: line :: originColumn :: names) := by
    simp only [Counted, List.length_cons]
    omega
  -- the checks before the one that fails have passed, and there is no other
  rcases originFrom_error h with ⟨hout, rfl⟩ | ⟨hsource, ⟨hout, rfl⟩ | ⟨hline, hout, rfl⟩⟩
  all_goals
    refine foremost_outOfRange hc (.of_counted hc (by simp)) (by rwa [plus_placed]) ?_
    intro earlier hlt
    rw [plus_placed]
    cases earlier <;> first | assumption | simp [Error.rank] at hlt

/-- The error of fields is the fault that is looked for first. -/
theorem foremost_of_segmentFrom (hne : fields ≠ []) (h : segmentFrom c fields = .error e) :
    Foremost Error.rank (FieldFault c fields) e := by
  by_cases hc : Counted fields
  · rcases hc.shape with ⟨column, rfl⟩ | ⟨column, source, line, originColumn, names, rfl, hn⟩
    · rcases bind_eq_error_iff.mp h with hw | ⟨w, -, h⟩
      · exact foremost_of_column hw
      · cases h
    · rw [segmentFrom_placed_eq hn] at h
      rcases bind_eq_error_iff.mp h with hw | ⟨w, hw, h⟩
      · exact foremost_of_column hw
      · rcases bind_eq_error_iff.mp h with ho | ⟨o, -, h⟩
        · exact foremost_of_originFrom hn (isWord_of_word hw) ho
        · cases h
  · obtain ⟨column, others, rfl⟩ := List.exists_cons_of_ne_nil hne
    rw [segmentFrom_uncounted hc] at h
    rcases bind_eq_error_iff.mp h with hw | ⟨w, hw, h⟩
    · exact foremost_of_column hw
    · cases h
      apply foremost_segmentLength hc
      rw [plus_column]
      exact isWord_of_word hw

/-- Nothing is wrong with counted fields whose totals are words. -/
theorem not_fieldFault_iff :
    (∀ e, ¬ FieldFault c fields e) ↔ Counted fields ∧ Within (plus c [fields]) fields := by
  constructor
  · intro h
    have hc : Counted fields := by
      by_contra hn
      exact h _ (.segmentLength hn)
    have hword : ∀ total, Moves fields total → IsWord (totalOf (plus c [fields]) total) := by
      intro total hm
      by_contra hout
      exact h _ (.outOfRange hm hout)
    refine ⟨hc, hword .generatedColumn trivial, ?_⟩
    intro hone
    exact ⟨hword .sourceIndex (.of_counted hc hone), hword .sourceLine (.of_counted hc hone),
      hword .sourceColumn (.of_counted hc hone)⟩
  · intro h e hf
    obtain ⟨hc, hw⟩ := h
    cases hf with
    | segmentLength hn => exact hn hc
    | @outOfRange total hm hout =>
      cases total with
      | generatedColumn => exact hout hw.column
      | sourceIndex =>
        obtain ⟨hsource, -, -⟩ := hw.origin (by rcases hm with hm | hm <;> omega)
        exact hout hsource
      | sourceLine =>
        obtain ⟨-, hline, -⟩ := hw.origin (by rcases hm with hm | hm <;> omega)
        exact hout hline
      | sourceColumn =>
        obtain ⟨-, -, hcolumn⟩ := hw.origin (by rcases hm with hm | hm <;> omega)
        exact hout hcolumn

/-- No check of fields has two answers. -/
theorem FieldFault.eq_of_rank (h : FieldFault c fields e) (h' : FieldFault c fields e')
    (hrank : e.rank = e'.rank) : e = e' := by
  cases h with
  | segmentLength _ =>
    cases h' with
    | segmentLength _ => rfl
    | @outOfRange total _ _ => cases total <;> cases hrank
  | @outOfRange total _ _ =>
    cases h' with
    | segmentLength _ => cases total <;> cases hrank
    | @outOfRange total' _ _ => cases total <;> cases total' <;> first | rfl | cases hrank

theorem segmentFrom_error_iff (hne : fields ≠ []) :
    segmentFrom c fields = .error e ↔ Foremost Error.rank (FieldFault c fields) e := by
  refine ⟨foremost_of_segmentFrom hne, ?_⟩
  intro h
  cases hs : segmentFrom c fields with
  | ok s =>
    have hc := counted_of_segmentFrom hs
    obtain ⟨hw, -⟩ := (segmentFrom_ok_iff hc).mp hs
    exact absurd h.holds (not_fieldFault_iff.mpr ⟨hc, hw⟩ e)
  | error e' =>
    have hrank : ∀ e e', FieldFault c fields e → FieldFault c fields e' → e.rank = e'.rank →
        e = e' := fun _ _ => FieldFault.eq_of_rank
    rw [h.unique hrank (foremost_of_segmentFrom hne hs)]

theorem breaksOff_iff {f : Vlq.Error} :
    BreaksOff piece f ↔ readFields piece = .error (.value f) := by
  constructor
  · intro h
    obtain ⟨spellings, values, tail, rest, rfl, hs, hne, hd⟩ := h
    rw [readFields, Vlq.decodeAll_broken hs hne hd]
  · intro h
    unfold readFields at h
    split at h
    · cases h
    · rename_i values f' rest hd
      cases h
      obtain ⟨spellings, tail, hp, hs, hne, he⟩ := Vlq.broken_of_decodeAll hd
      exact ⟨spellings, values, tail, rest, hp, hs, hne, he⟩

/-- A piece has fields, or it breaks off. -/
theorem spelled_or_breaksOff (piece : List Char) :
    (∃ fields, readFields piece = .ok fields) ∨ ∃ f, readFields piece = .error (.value f) := by
  unfold readFields
  split
  · exact .inl ⟨_, rfl⟩
  · exact .inr ⟨_, rfl⟩

theorem fault_iff_of_error {f : Vlq.Error} (h : readFields piece = .error (.value f)) :
    Fault c piece e ↔ e = .value f := by
  constructor
  · intro hf
    cases hf with
    | value hb =>
      have hb := breaksOff_iff.mp hb
      rw [h, Except.error.injEq] at hb
      exact hb.symm
    | fields hs _ =>
      rw [readFields_ok_iff.mpr hs] at h
      cases h
  · intro he
    subst he
    exact .value (breaksOff_iff.mpr h)

theorem fault_iff_of_ok (h : readFields piece = .ok fields) :
    Fault c piece e ↔ FieldFault c fields e := by
  constructor
  · intro hf
    cases hf with
    | value hb =>
      rw [breaksOff_iff.mp hb] at h
      cases h
    | fields hs hf =>
      rw [readFields_ok_iff.mpr hs, Except.ok.injEq] at h
      exact h ▸ hf
  · exact .fields (readFields_ok_iff.mp h)

/-- A piece that is no empty text is refused for the fault that is looked for first. -/
theorem readPiece_error_iff (hne : piece ≠ []) :
    readPiece c piece = .error e ↔ Foremost Error.rank (Fault c piece) e := by
  rcases spelled_or_breaksOff piece with ⟨fields, hf⟩ | ⟨f, hf⟩
  · have hfields : fields ≠ [] := by
      intro hnil
      exact readFields_ne_nil hne (hnil ▸ hf)
    have hfault : Fault c piece = FieldFault c fields := funext fun e =>
      propext (fault_iff_of_ok hf)
    rw [readPiece, hf, hfault]
    exact segmentFrom_error_iff hfields
  · have hread : readPiece c piece = .error (.value f) := by
      rw [readPiece, hf]
      rfl
    rw [hread, Except.error.injEq]
    constructor
    · intro he
      subst he
      exact ⟨(fault_iff_of_error hf).mpr rfl, fun _ _ => Nat.zero_le _⟩
    · intro h
      exact ((fault_iff_of_error hf).mp h.holds).symm

end Mappings

end Templating
