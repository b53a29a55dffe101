import Templating.Proofs.RecordedRuns

namespace Templating

namespace Mappings

/-- Of segments in their order the last one that starts at or before `column`. -/
def lastUpTo (ss : List Segment) (column : UInt32) : Option Segment :=
  (ss.filter (·.column ≤ column)).getLast?

/-- Everything in front of `low` starts at or before `column`, and everything from `high` on starts
behind it. -/
structure Brackets (segments : Array Segment) (column : UInt32) (low high : Nat) : Prop where
  below : ∀ i (h : i < segments.size), i < low → segments[i].column ≤ column
  above : ∀ i (h : i < segments.size), high ≤ i → column < segments[i].column

/-- The search keeps its brackets and ends where they meet. -/
theorem Brackets.countUpTo {segments : Array Segment} {column : UInt32} {low high : Nat}
    (hsize : high ≤ segments.size) (h : Brackets segments column low high) (hle : low ≤ high)
    (hsorted : segments.toList.Pairwise fun s t => s.column ≤ t.column) :
    Brackets segments column (countUpTo segments column low high hsize)
      (countUpTo segments column low high hsize) ∧
    countUpTo segments column low high hsize ≤ segments.size := by
  have hmono : ∀ i j (hi : i < segments.size) (hj : j < segments.size), i ≤ j →
      segments[i].column ≤ segments[j].column := by
    intro i j hi hj hij
    rcases Nat.lt_or_eq_of_le hij with hij | rfl
    · exact List.pairwise_iff_getElem.mp hsorted i j hi hj hij
    · exact UInt32.le_refl _
  fun_induction Mappings.countUpTo segments column low high hsize with
  | case1 low high hsize hlt middle hmiddle hcolumn ih =>
    refine ih ⟨?_, h.above⟩ (by omega)
    intro i hi himiddle
    exact UInt32.le_trans (hmono i middle hi hmiddle (by omega)) hcolumn
  | case2 low high hsize hlt middle hmiddle hcolumn ih =>
    refine ih ⟨h.below, ?_⟩ (by omega)
    intro i hi himiddle
    exact UInt32.lt_of_lt_of_le (UInt32.not_le.mp hcolumn) (hmono middle i hmiddle hi himiddle)
  | case3 low high hsize hmeet =>
    obtain rfl : low = high := by omega
    exact ⟨h, hsize⟩

/-- Where the brackets meet, the segments in front of them are those that start at or before the
column. -/
theorem Brackets.filter_eq {segments : Array Segment} {column : UInt32} {n : Nat}
    (h : Brackets segments column n n) :
    segments.toList.filter (·.column ≤ column) = segments.toList.take n := by
  have hfront : (segments.toList.take n).filter (·.column ≤ column) = segments.toList.take n := by
    apply List.filter_eq_self.mpr
    intro s hs
    obtain ⟨i, hi, rfl⟩ := List.mem_take_iff_getElem.mp hs
    have hlt := Nat.lt_min.mp hi
    simpa using h.below i hlt.2 hlt.1
  have hrest : (segments.toList.drop n).filter (·.column ≤ column) = [] := by
    apply List.filter_eq_nil_iff.mpr
    intro s hs
    obtain ⟨i, hi, rfl⟩ := List.mem_drop_iff_getElem.mp hs
    simpa using h.above (n + i) (by simpa [Nat.add_comm] using hi) (Nat.le_add_right n i)
  conv_lhs => rw [← List.take_append_drop n segments.toList]
  rw [List.filter_append, hfront, hrest, List.append_nil]

/-- On a line in the order of its columns, the last segment up to a column gives the origin. -/
theorem originAt_eq {m : Mappings} {line column : UInt32}
    (hsorted : ∀ ss, m.toLists[line.toNat]? = some ss →
      ss.Pairwise fun s t => s.column ≤ t.column) :
    m.originAt line column =
      m.toLists[line.toNat]?.bind fun ss => (lastUpTo ss column).bind Segment.origin := by
  have hlist : m.toLists[line.toNat]? = m.lines[line.toNat]?.map Array.toList := by
    simp [toLists]
  rw [hlist] at hsorted ⊢
  unfold originAt
  cases hl : m.lines[line.toNat]? with
  | none => rfl
  | some segments =>
    rw [hl] at hsorted
    have hstart : Brackets segments column 0 segments.size :=
      ⟨fun i _ hi => absurd hi (Nat.not_lt_zero i), fun i hi hle => absurd hi (Nat.not_lt.mpr hle)⟩
    obtain ⟨hend, hsize⟩ := hstart.countUpTo (Nat.le_refl _) (Nat.zero_le _) (hsorted _ rfl)
    simp only [Option.map_some, Option.bind_eq_bind, Option.bind_some, lastUpTo, hend.filter_eq]
    cases hn : countUpTo segments column 0 segments.size (Nat.le_refl _) with
    | zero => rfl
    | succ n =>
      rw [hn] at hsize
      have hlast : (segments.toList.take (n + 1)).getLast? = segments[n]? := by
        rw [List.getLast?_take, if_neg (Nat.succ_ne_zero n), Nat.add_sub_cancel,
          Array.getElem?_toList, Array.getElem?_eq_getElem hsize, Option.some_or]
      rw [hlast]

@[simp] theorem past_column (c : Cursor) (s : Segment) : (c.past s).column = s.column.toNat := by
  unfold Cursor.past
  split <;> rfl

/-- A segment that is read from its written differences starts where it did, whatever became of its
origin. -/
theorem column_of_readPiece {c c' : Cursor} {s t : Segment} (hw : IsWord c.column)
    (hc : c'.column = c.column) (h : readPiece c' (writeSegment (c.fields s)) = .ok t) :
    t.column = s.column := by
  have hspells : ∃ spellings, writeSegment (c.fields s) = spellings.flatten ∧
      List.Forall₂ Vlq.Spells spellings ((c.fields s).map fun v => Vlq.unfold (Vlq.fold v)) :=
    ⟨_, by rw [writeSegment, List.flatMap_def], Vlq.spells_map_encode (c.fields s)⟩
  rw [readPiece, readFields_ok_iff.mpr hspells] at h
  obtain ⟨others, hfields⟩ : ∃ others, (c.fields s).map (fun v => Vlq.unfold (Vlq.fold v)) =
      Int64.ofInt (s.column.toNat - c.column) :: others := by
    rw [Cursor.fields, List.map_cons,
      Vlq.unfold_fold (difference_ne_minValue (isWord_toNat _) hw)]
    exact ⟨_, rfl⟩
  rw [hfields] at h
  replace h : segmentFrom c' (Int64.ofInt (s.column.toNat - c.column) :: others) = .ok t := h
  have hstands := ((segmentFrom_ok_iff (counted_of_segmentFrom h)).mp h).2.column
  have hdiff := toInt_difference (isWord_toNat s.column) hw
  simp only [plus, sumAt_singleton, List.getElem?_cons_zero, Option.map_some, Option.getD_some,
    hdiff, hc] at hstands
  rw [← UInt32.toNat_inj]
  omega

theorem columns_of_walk {c c' : Cursor} {ss ts : List Segment} (hw : IsWord c.column)
    (hc : c'.column = c.column)
    (h : walk readPiece c' ((c.lineFields ss).map writeSegment) = .ok ts) :
    ts.map Segment.column = ss.map Segment.column := by
  induction ss generalizing c c' ts with
  | nil =>
    cases h
    rfl
  | cons s ss ih =>
    obtain ⟨t, tail, ht, htail, rfl⟩ := walk_cons.mp h
    have hcolumn := column_of_readPiece hw hc ht
    have hrest := ih (by rw [past_column]; exact isWord_toNat _)
      (by rw [past_column, past_column, hcolumn]) htail
    rw [List.map_cons, List.map_cons, hcolumn, hrest]

theorem columns_of_walkLines {c c' : Cursor} {lines found : List (List Segment)}
    (h : walkLines readPiece c' ((c.allFields lines).map (·.map writeSegment)) = .ok found) :
    found.map (·.map Segment.column) = lines.map (·.map Segment.column) := by
  induction lines generalizing c c' found with
  | nil =>
    cases h
    rfl
  | cons ss lines ih =>
    obtain ⟨ts, tail, hts, htail, rfl⟩ := walkLines_cons.mp h
    have hzero : IsWord c.newLine.column := isWord_natCast (n := 0) (by decide)
    have hstart : c'.newLine.column = c.newLine.column := rfl
    have hcolumns := columns_of_walk hzero hstart hts
    rw [List.map_cons, List.map_cons, hcolumns, ih htail]

/-- What is read from a written text has the columns that were written. -/
theorem columns_of_read_write {lines : List (List Segment)} {m : Mappings} (hne : lines ≠ [])
    (h : read (write lines) = .ok m) :
    m.toLists.map (·.map Segment.column) = lines.map (·.map Segment.column) := by
  rw [read_ok_iff, linePieces_write hne] at h
  exact columns_of_walkLines h

/-- The order of the columns is a matter of the columns alone. -/
theorem sorted_of_columns {lines found : List (List Segment)}
    (hcolumns : found.map (·.map Segment.column) = lines.map (·.map Segment.column))
    (hsorted : ∀ ss ∈ lines, ss.Pairwise fun s t => s.column ≤ t.column) :
    ∀ ss ∈ found, ss.Pairwise fun s t => s.column ≤ t.column := by
  intro ts hts
  have hmem : ts.map Segment.column ∈ lines.map (·.map Segment.column) :=
    hcolumns ▸ List.mem_map_of_mem hts
  obtain ⟨ss, hss, heq⟩ := List.mem_map.mp hmem
  have hpairs := List.pairwise_map.mpr (hsorted ss hss)
  rw [heq] at hpairs
  exact List.pairwise_map.mp hpairs

end Mappings

namespace Builder

/-- Every line read back from the map of a well-formed builder is in the order of its columns. -/
theorem WellFormed.sorted_of_decoded {b : Builder} {m : SourceMap} {d : Mappings}
    (h : WellFormed b) (hm : b.map? = some m) (hd : m.decoded = .ok d) :
    ∀ ss ∈ d.toLists, ss.Pairwise fun s t => s.column ≤ t.column := by
  unfold map? at hm
  split at hm
  · rename_i hmarked
    cases hm
    have hcolumns := Mappings.columns_of_read_write (h.recorded_ne_nil hmarked) hd
    exact Mappings.sorted_of_columns hcolumns h.sorted
  · cases hm

end Builder

namespace Mappings

/-- On every line in the order of its columns, so on every line of a map that a builder wrote, a
position has the origin of the last segment that starts at or before it, and none where that segment
has none or is missing. -/
theorem originAt_last (line column : UInt32) :
    (∀ d : Mappings, (∀ ss, d.toLists[line.toNat]? = some ss →
        ss.Pairwise fun s t => s.column ≤ t.column) →
      d.originAt line column =
        d.toLists[line.toNat]?.bind fun ss => (lastUpTo ss column).bind Segment.origin) ∧
    ∀ (file : Option String) (steps : List Builder.Step) (m : SourceMap) (d : Mappings),
      (({ file := file } : Builder).run steps).map? = some m → m.decoded = .ok d →
      ∀ ss ∈ d.toLists, ss.Pairwise fun s t => s.column ≤ t.column := by
  refine ⟨fun d hsorted => originAt_eq hsorted, ?_⟩
  intro file steps m d hm hd
  exact ((Builder.wellFormed_start file).run steps).sorted_of_decoded hm hd

/-- Two segments at one column, and a last one that comes from no source. -/
def crowdedLine : List Segment :=
  [⟨2, some ⟨0, 0, 0⟩⟩, ⟨5, some ⟨0, 1, 1⟩⟩, ⟨5, some ⟨1, 2, 2⟩⟩, ⟨9, none⟩]

theorem originAt_last_crowded :
    (∀ ss, (ofLists [[], crowdedLine]).toLists[(1 : UInt32).toNat]? = some ss →
      ss.Pairwise fun s t => s.column ≤ t.column) ∧
    (ofLists [[], crowdedLine]).originAt 1 1 = none ∧
    (ofLists [[], crowdedLine]).originAt 1 5 = some ⟨1, 2, 2⟩ ∧
    (ofLists [[], crowdedLine]).originAt 1 20 = none ∧
    (ofLists [[], crowdedLine]).originAt 0 5 = none ∧
    (ofLists [[], crowdedLine]).originAt 7 5 = none ∧
    ∃ m d, (({} : Builder).run Builder.mixedSteps).map? = some m ∧ m.decoded = .ok d ∧
      ∀ ss ∈ d.toLists, ss.Pairwise fun s t => s.column ≤ t.column := by
  have hlines : ∀ ss ∈ [[], crowdedLine], ss.Pairwise fun s t => s.column ≤ t.column := by decide
  have hsorted : ∀ line : UInt32, ∀ ss, (ofLists [[], crowdedLine]).toLists[line.toNat]? = some ss →
      ss.Pairwise fun s t => s.column ≤ t.column := by
    intro line ss hss
    rw [toLists_ofLists] at hss
    exact hlines ss (List.mem_of_getElem? hss)
  have hlookup : ∀ line column : UInt32, (ofLists [[], crowdedLine]).originAt line column =
      [[], crowdedLine][line.toNat]?.bind fun ss => (lastUpTo ss column).bind Segment.origin := by
    intro line column
    have h := (originAt_last line column).1 (ofLists [[], crowdedLine]) (hsorted line)
    rwa [toLists_ofLists] at h
  have hanswers := Builder.run_answers Builder.mixedSteps
    (.nil : List.Forall₂ (Builder.Answers ({} : Builder).urls) [] [])
  obtain ⟨m, hm, hd, -⟩ := Builder.decoded_map hanswers (by decide) (by decide) (by decide)
  exact ⟨hsorted 1, hlookup 1 1, hlookup 1 5, hlookup 1 20, hlookup 0 5, hlookup 7 5, m, _, hm, hd,
    (originAt_last 0 0).2 none Builder.mixedSteps m _ hm hd⟩

end Mappings

end Templating
