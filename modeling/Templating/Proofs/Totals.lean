import Templating.Proofs.Walks

namespace Templating.Mappings

/-- The sum of the fields at one position; a piece without one there adds nothing. -/
def sumAt (k : Nat) : List (List Int64) → Int
  | [] => 0
  | fields :: rows => (fields[k]?.map Int64.toInt).getD 0 + sumAt k rows

/-- The totals after whole lines and the front of one more. -/
def totals (before : List (List (List Int64))) (front : List (List Int64)) : Cursor where
  column := sumAt 0 front
  source := sumAt 1 (before.flatten ++ front)
  line := sumAt 2 (before.flatten ++ front)
  originColumn := sumAt 3 (before.flatten ++ front)

/-- A piece is a column, or a column and a place in a source, perhaps with a name. -/
def Counted (fields : List Int64) : Prop :=
  fields.length = 1 ∨ fields.length = 4 ∨ fields.length = 5

def IsWord (n : Int) : Prop := 0 ≤ n ∧ n < UInt32.size

/-- The totals that a piece moves are words. -/
structure Within (t : Cursor) (fields : List Int64) : Prop where
  column : IsWord t.column
  origin : fields.length ≠ 1 → IsWord t.source ∧ IsWord t.line ∧ IsWord t.originColumn

/-- A segment at given totals; it has no origin exactly where the column is the only field. -/
structure Stands (t : Cursor) (fields : List Int64) (s : Segment) : Prop where
  column : (s.column.toNat : Int) = t.column
  bare : s.origin = none ↔ fields.length = 1
  origin : ∀ o, s.origin = some o → (o.source : Int) = t.source ∧
    (o.line.toNat : Int) = t.line ∧ (o.column.toNat : Int) = t.originColumn

@[simp] theorem sumAt_nil (k : Nat) : sumAt k [] = 0 := rfl

@[simp] theorem sumAt_append (k : Nat) (rows rows' : List (List Int64)) :
    sumAt k (rows ++ rows') = sumAt k rows + sumAt k rows' := by
  induction rows with
  | nil => rw [List.nil_append, sumAt_nil, Int.zero_add]
  | cons fields rows ih => rw [List.cons_append, sumAt, sumAt, ih, Int.add_assoc]

@[simp] theorem sumAt_singleton (k : Nat) (fields : List Int64) :
    sumAt k [fields] = (fields[k]?.map Int64.toInt).getD 0 := by
  rw [sumAt, sumAt_nil, Int.add_zero]

/-- The cursor moved on by the fields of pieces on one line. -/
def plus (c : Cursor) (rows : List (List Int64)) : Cursor where
  column := c.column + sumAt 0 rows
  source := c.source + sumAt 1 rows
  line := c.line + sumAt 2 rows
  originColumn := c.originColumn + sumAt 3 rows

@[simp] theorem plus_nil (c : Cursor) : plus c [] = c := by
  simp [plus]

@[simp] theorem plus_append (c : Cursor) (rows rows' : List (List Int64)) :
    plus c (rows ++ rows') = plus (plus c rows) rows' := by
  simp [plus, Int.add_assoc]

theorem plus_cons (c : Cursor) (fields : List Int64) (rows : List (List Int64)) :
    plus c (fields :: rows) = plus (plus c [fields]) rows :=
  plus_append c [fields] rows

theorem plus_column (c : Cursor) (column : Int64) (others : List Int64) :
    (plus c [column :: others]).column = c.column + column.toInt := by
  simp [plus]

theorem plus_placed (c : Cursor) (column source line originColumn : Int64) (names : List Int64) :
    plus c [column :: source :: line :: originColumn :: names] =
      ⟨c.column + column.toInt, c.source + source.toInt, c.line + line.toInt,
        c.originColumn + originColumn.toInt⟩ := by
  simp [plus]

theorem totals_eq (before : List (List (List Int64))) (front : List (List Int64)) :
    totals before front = plus (plus {} before.flatten).newLine front := by
  simp [totals, plus, Cursor.newLine]

theorem word_eq_ok_iff {t : Total} {n : Int} {w : UInt32} :
    word t n = .ok w ↔ (w.toNat : Int) = n := by
  have hw := w.toNat_lt
  unfold word
  split
  · rename_i hn
    simp only [UInt32.size] at hn
    simp only [Except.ok.injEq, ← UInt32.toNat_inj, UInt32.toNat_ofNat']
    omega
  · rename_i hn
    simp only [UInt32.size] at hn
    simp only [reduceCtorEq, false_iff]
    omega

theorem isWord_iff {n : Int} : IsWord n ↔ ∃ w : UInt32, (w.toNat : Int) = n := by
  constructor
  · intro h
    rcases h with ⟨hl, hu⟩
    refine ⟨UInt32.ofNat n.toNat, ?_⟩
    simp only [UInt32.size] at hu
    rw [UInt32.toNat_ofNat']
    omega
  · intro h
    rcases h with ⟨w, rfl⟩
    have hw := w.toNat_lt
    simp only [IsWord, UInt32.size]
    omega

theorem originFrom_ok {c : Cursor} {source line column : Int64} {o : Origin} :
    originFrom c source line column = .ok o ↔
      (o.source : Int) = c.source + source.toInt ∧ o.source < UInt32.size ∧
        (o.line.toNat : Int) = c.line + line.toInt ∧
        (o.column.toNat : Int) = c.originColumn + column.toInt := by
  simp only [originFrom, bind_eq_ok_iff, word_eq_ok_iff, pure, Except.pure, Except.ok.injEq]
  constructor
  · intro h
    rcases h with ⟨w, hw, l, hl, k, hk, rfl⟩
    exact ⟨hw, w.toNat_lt, hl, hk⟩
  · intro h
    rcases h with ⟨hs, hlt, hl, hk⟩
    have hw : (UInt32.ofNat o.source).toNat = o.source := by
      rw [UInt32.toNat_ofNat', Nat.mod_eq_of_lt hlt]
    exact ⟨UInt32.ofNat o.source, by rw [hw, hs], o.line, hl, o.column, hk, by rw [hw]⟩

theorem segmentFrom_bare {c : Cursor} {column : Int64} {s : Segment} :
    segmentFrom c [column] = .ok s ↔
      (s.column.toNat : Int) = c.column + column.toInt ∧ s.origin = none := by
  simp only [segmentFrom, bind_eq_ok_iff, word_eq_ok_iff, pure, Except.pure, Except.ok.injEq]
  constructor
  · intro h
    rcases h with ⟨w, hw, rfl⟩
    exact ⟨hw, rfl⟩
  · intro h
    rcases h with ⟨hw, ho⟩
    exact ⟨s.column, hw, by rw [← ho]⟩

theorem segmentFrom_placed_eq {c : Cursor} {column source line originColumn : Int64}
    {names : List Int64} (hn : names.length ≤ 1) :
    segmentFrom c (column :: source :: line :: originColumn :: names) = do
      let start ← word .generatedColumn (c.column + column.toInt)
      return ⟨start, some (← originFrom c source line originColumn)⟩ := by
  match names, hn with
  | [], _ => rfl
  | [_], _ => rfl

theorem segmentFrom_placed {c : Cursor} {column source line originColumn : Int64}
    {names : List Int64} {s : Segment} (hn : names.length ≤ 1) :
    segmentFrom c (column :: source :: line :: originColumn :: names) = .ok s ↔
      (s.column.toNat : Int) = c.column + column.toInt ∧
        ∃ o, s.origin = some o ∧ originFrom c source line originColumn = .ok o := by
  rw [segmentFrom_placed_eq hn]
  simp only [bind_eq_ok_iff, word_eq_ok_iff, pure, Except.pure, Except.ok.injEq]
  constructor
  · intro h
    rcases h with ⟨w, hw, o, ho, rfl⟩
    exact ⟨hw, o, rfl, ho⟩
  · intro h
    rcases h with ⟨hw, o, hs, ho⟩
    exact ⟨s.column, hw, o, ho, by rw [← hs]⟩

theorem Counted.shape {fields : List Int64} (h : Counted fields) :
    (∃ column, fields = [column]) ∨ ∃ column source line originColumn names,
      fields = column :: source :: line :: originColumn :: names ∧ names.length ≤ 1 := by
  match fields, h with
  | [column], _ => exact .inl ⟨column, rfl⟩
  | [column, source, line, originColumn], _ =>
    exact .inr ⟨column, source, line, originColumn, [], rfl, by simp⟩
  | [column, source, line, originColumn, name], _ =>
    exact .inr ⟨column, source, line, originColumn, [name], rfl, by simp⟩

theorem counted_of_segmentFrom {c : Cursor} {fields : List Int64} {s : Segment}
    (h : segmentFrom c fields = .ok s) : Counted fields := by
  match fields with
  | [] => cases h
  | [_] => exact .inl rfl
  | [_, _, _, _] => exact .inr (.inl rfl)
  | [_, _, _, _, _] => exact .inr (.inr rfl)
  | [_, _] => obtain ⟨_, _, h⟩ := bind_eq_ok_iff.mp h; cases h
  | [_, _, _] => obtain ⟨_, _, h⟩ := bind_eq_ok_iff.mp h; cases h
  | _ :: _ :: _ :: _ :: _ :: _ :: _ => obtain ⟨_, _, h⟩ := bind_eq_ok_iff.mp h; cases h

/-- A step of the walk succeeds where the totals it moves are words, and stands at them. -/
theorem segmentFrom_ok_iff {c : Cursor} {fields : List Int64} {s : Segment} (hc : Counted fields) :
    segmentFrom c fields = .ok s ↔
      Within (plus c [fields]) fields ∧ Stands (plus c [fields]) fields s := by
  obtain ⟨column, rfl⟩ | ⟨column, source, line, originColumn, names, rfl, hn⟩ := hc.shape
  · rw [segmentFrom_bare]
    constructor
    · intro h
      rcases h with ⟨hcol, ho⟩
      have ht : (s.column.toNat : Int) = (plus c [[column]]).column := by simpa [plus] using hcol
      exact ⟨⟨isWord_iff.mpr ⟨_, ht⟩, by simp⟩, ht, by simp [ho], by simp [ho]⟩
    · intro h
      rcases h with ⟨-, hs⟩
      exact ⟨by simpa [plus] using hs.column, hs.bare.mpr rfl⟩
  · rw [segmentFrom_placed hn, plus_placed]
    simp only [originFrom_ok]
    constructor
    · intro h
      rcases h with ⟨hcol, o, ho, hsrc, hlt, hline, hocol⟩
      have hword : IsWord (o.source : Int) := ⟨Int.natCast_nonneg _, Int.ofNat_lt.mpr hlt⟩
      refine ⟨⟨isWord_iff.mpr ⟨_, hcol⟩, fun _ => ⟨hsrc ▸ hword, isWord_iff.mpr ⟨_, hline⟩,
        isWord_iff.mpr ⟨_, hocol⟩⟩⟩, hcol, by simp [ho], ?_⟩
      intro o' ho'
      obtain rfl := Option.some.inj (ho.symm.trans ho')
      exact ⟨hsrc, hline, hocol⟩
    · intro h
      rcases h with ⟨hw, hs⟩
      have hsome : s.origin ≠ none := fun hnone => by simpa using hs.bare.mp hnone
      obtain ⟨o, ho⟩ := Option.ne_none_iff_exists'.mp hsome
      obtain ⟨hsrc, hline, hocol⟩ := hs.origin o ho
      obtain ⟨hword, -, -⟩ := hw.origin (by simp)
      exact ⟨hs.column, o, ho, hsrc, Int.ofNat_lt.mp (hsrc ▸ hword.2), hline, hocol⟩

theorem exists_stands {t : Cursor} {fields : List Int64} (hw : Within t fields) :
    ∃ s, Stands t fields s := by
  obtain ⟨w, hcol⟩ := isWord_iff.mp hw.column
  by_cases hone : fields.length = 1
  · exact ⟨⟨w, none⟩, hcol, by simp [hone], by simp⟩
  · obtain ⟨hsrc, hline, hocol⟩ := hw.origin hone
    obtain ⟨i, hi⟩ := isWord_iff.mp hsrc
    obtain ⟨l, hl⟩ := isWord_iff.mp hline
    obtain ⟨k, hk⟩ := isWord_iff.mp hocol
    refine ⟨⟨w, some ⟨i.toNat, l, k⟩⟩, hcol, by simp [hone], ?_⟩
    intro o ho
    obtain rfl := Option.some.inj ho
    exact ⟨hi, hl, hk⟩

/-- The cursor behind a segment stands at the totals of its piece. -/
theorem Stands.past_eq {c : Cursor} {fields : List Int64} {s : Segment} (hc : Counted fields)
    (h : Stands (plus c [fields]) fields s) : c.past s = plus c [fields] := by
  obtain ⟨column, rfl⟩ | ⟨column, source, line, originColumn, names, rfl, hn⟩ := hc.shape
  · have ho := h.bare.mpr rfl
    have hcol := h.column
    simp only [Cursor.past, ho, hcol]
    simp [plus]
  · have hsome : s.origin ≠ none := fun hnone => by simpa using h.bare.mp hnone
    obtain ⟨o, ho⟩ := Option.ne_none_iff_exists'.mp hsome
    obtain ⟨hsrc, hline, hocol⟩ := h.origin o ho
    simp only [Cursor.past, ho, h.column, hsrc, hline, hocol]

theorem walk_stands {c : Cursor} {rows : List (List Int64)} {ss : List Segment}
    (h : walk segmentFrom c rows = .ok ss) :
    ss.length = rows.length ∧ ss.foldl Cursor.past c = plus c rows ∧
      ∀ j fields, rows[j]? = some fields → Within (plus c (rows.take (j + 1))) fields ∧
        ∃ s, ss[j]? = some s ∧ Stands (plus c (rows.take (j + 1))) fields s := by
  induction rows generalizing c ss with
  | nil =>
    cases h
    simp
  | cons fields rows ih =>
    obtain ⟨s, tail, hs, ht, rfl⟩ := walk_cons.mp h
    have hc := counted_of_segmentFrom hs
    obtain ⟨hw, hst⟩ := (segmentFrom_ok_iff hc).mp hs
    rw [hst.past_eq hc] at ht
    obtain ⟨hlen, hpast, hall⟩ := ih ht
    refine ⟨by simp [hlen], ?_, ?_⟩
    · rw [List.foldl_cons, hst.past_eq hc, hpast, plus_cons c fields rows]
    · intro j fs hj
      cases j with
      | zero =>
        obtain rfl := Option.some.inj hj
        exact ⟨hw, s, rfl, hst⟩
      | succ j =>
        rw [List.take_succ_cons, plus_cons]
        exact hall j fs hj

theorem walk_of_within {c : Cursor} {rows : List (List Int64)}
    (hc : ∀ fields ∈ rows, Counted fields)
    (hw : ∀ j fields, rows[j]? = some fields → Within (plus c (rows.take (j + 1))) fields) :
    ∃ ss, walk segmentFrom c rows = .ok ss := by
  induction rows generalizing c with
  | nil => exact ⟨[], rfl⟩
  | cons fields rows ih =>
    have hhead := hc fields List.mem_cons_self
    have hwin := hw 0 fields rfl
    obtain ⟨s, hst⟩ := exists_stands hwin
    have htail : ∃ tail, walk segmentFrom (c.past s) rows = .ok tail := by
      apply ih (fun fs hm => hc fs (List.mem_cons_of_mem _ hm))
      intro j fs hj
      have hj' := hw (j + 1) fs hj
      rwa [List.take_succ_cons, plus_cons, ← Stands.past_eq hhead hst] at hj'
    obtain ⟨tail, ht⟩ := htail
    exact ⟨s :: tail, walk_cons.mpr ⟨s, tail, (segmentFrom_ok_iff hhead).mpr ⟨hwin, hst⟩, ht, rfl⟩⟩

/-- The start of a line forgets the column, so it does not matter when the column was forgotten. -/
theorem newLine_plus_newLine (c : Cursor) (rows rows' : List (List Int64)) :
    (plus (plus c.newLine rows) rows').newLine = (plus c (rows ++ rows')).newLine := by
  simp [plus, Cursor.newLine, Int.add_assoc]

/-- After whole lines the next begins at the sums of their pieces. -/
theorem pastLines_newLine {c : Cursor} {rows : List (List (List Int64))}
    {sss : List (List Segment)} (h : walkLines segmentFrom c rows = .ok sss) :
    (pastLines c sss).newLine = (plus c rows.flatten).newLine := by
  induction rows generalizing c sss with
  | nil =>
    cases h
    simp [pastLines]
  | cons first rows ih =>
    obtain ⟨ss, tail, hs, ht, rfl⟩ := walkLines_cons.mp h
    have hpast := (walk_stands hs).2.1
    rw [hpast] at ht
    rw [pastLines, List.foldl_cons, hpast, ← pastLines, ih ht, newLine_plus_newLine,
      List.flatten_cons]

theorem walkLines_stands {c : Cursor} {rows : List (List (List Int64))}
    {sss : List (List Segment)} (h : walkLines segmentFrom c rows = .ok sss) :
    sss.map List.length = rows.map List.length ∧
      ∀ i row j fields, rows[i]? = some row → row[j]? = some fields →
        Within (plus (plus c (rows.take i).flatten).newLine (row.take (j + 1))) fields ∧
          ∃ ss s, sss[i]? = some ss ∧ ss[j]? = some s ∧
            Stands (plus (plus c (rows.take i).flatten).newLine (row.take (j + 1))) fields s := by
  induction rows generalizing c sss with
  | nil =>
    cases h
    simp
  | cons first rows ih =>
    obtain ⟨ss, tail, hs, ht, rfl⟩ := walkLines_cons.mp h
    obtain ⟨hlen, hpast, hall⟩ := walk_stands hs
    rw [hpast] at ht
    obtain ⟨hshape, hrest⟩ := ih ht
    refine ⟨by simp [hlen, hshape], ?_⟩
    intro i row j fields hi hj
    cases i with
    | zero =>
      obtain rfl := Option.some.inj hi
      obtain ⟨hw, s, hsj, hst⟩ := hall j fields hj
      simp only [List.take_zero, List.flatten_nil, plus_nil]
      exact ⟨hw, ss, s, rfl, hsj, hst⟩
    | succ i =>
      rw [List.take_succ_cons, List.flatten_cons, ← newLine_plus_newLine]
      exact hrest i row j fields hi hj

theorem walkLines_of_within {c : Cursor} {rows : List (List (List Int64))}
    (hc : ∀ row ∈ rows, ∀ fields ∈ row, Counted fields)
    (hw : ∀ i row j fields, rows[i]? = some row → row[j]? = some fields →
      Within (plus (plus c (rows.take i).flatten).newLine (row.take (j + 1))) fields) :
    ∃ sss, walkLines segmentFrom c rows = .ok sss := by
  induction rows generalizing c with
  | nil => exact ⟨[], rfl⟩
  | cons first rows ih =>
    obtain ⟨ss, hs⟩ := walk_of_within (hc first List.mem_cons_self) fun j fields hj => by
      simpa using hw 0 first j fields rfl hj
    have htail : ∃ tail,
        walkLines segmentFrom (ss.foldl Cursor.past c.newLine) rows = .ok tail := by
      apply ih (fun row hm => hc row (List.mem_cons_of_mem _ hm))
      intro i row j fields hi hj
      rw [(walk_stands hs).2.1, newLine_plus_newLine]
      exact hw (i + 1) row j fields hi hj
    obtain ⟨tail, ht⟩ := htail
    exact ⟨ss :: tail, walkLines_cons.mpr ⟨ss, tail, hs, ht, rfl⟩⟩

end Templating.Mappings
