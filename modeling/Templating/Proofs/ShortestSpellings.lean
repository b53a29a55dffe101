import Templating.Proofs.ReadingEnds

namespace Templating.Vlq

/-- A number needs no more groups than any of its chains has. -/
theorem Chain.length_groups_le {ds : List Nat} (h : Chain ds) :
    (groups (sum ds)).length ≤ ds.length := by
  induction h with
  | @last d hd =>
    have hsmall : sum [d] < 32 := by simp only [sum]; omega
    rw [groups, if_pos hsmall]
    exact Nat.le_refl _
  | @more d ds hl hd hc ih =>
    rw [groups]
    split
    · simp
    · have hdiv : sum (d :: ds) / 32 = sum ds := by rw [sum]; omega
      rw [List.length_cons, hdiv, List.length_cons]
      exact Nat.succ_le_succ ih

/-- In a chain a digit says that another one follows exactly if one does. -/
theorem Chain.continued_iff {ds : List Nat} (h : Chain ds) {i d : Nat} (hi : ds[i]? = some d) :
    32 ≤ d ↔ i + 1 < ds.length := by
  induction h generalizing i with
  | @last e he =>
    cases i with
    | zero =>
      obtain rfl := Option.some.inj hi
      simpa using he
    | succ i => simp at hi
  | @more e es hl he hc ih =>
    cases i with
    | zero =>
      obtain rfl := Option.some.inj hi
      simpa [hl] using List.length_pos_of_ne_nil hc.ne_nil
    | succ i =>
      rw [ih hi, List.length_cons]
      omega

theorem Spells.length_pos {spelling : List Char} {v : Int64} (h : Spells spelling v) :
    0 < spelling.length :=
  List.length_pos_of_ne_nil h.ne_nil

/-- No spelling has more than thirteen digits. -/
theorem Spells.length_le {spelling : List Char} {v : Int64} (h : Spells spelling v) :
    spelling.length ≤ 13 := by
  obtain ⟨result, rest, hends⟩ := exists_ends spelling
  have hresult := hends.decode_eq
  rw [h, Prod.mk.injEq] at hresult
  obtain ⟨rfl, rfl⟩ := hresult
  cases hends with
  | @value ds _ _ hc hr hv =>
    rw [List.append_nil, List.length_map]
    exact hr.length

/-- No spelling of a value is shorter than the one that is written. -/
theorem Spells.length_encode_le {spelling : List Char} {v : Int64} (h : Spells spelling v) :
    (encode v).length ≤ spelling.length := by
  have hpos := h.length_pos
  obtain ⟨ds, hc, hs, hlt, rfl⟩ := decode_ok h
  rw [List.append_nil] at hs
  subst hs
  rw [List.length_map] at hpos ⊢
  rw [encode, List.length_map]
  by_cases hone : sum ds = 1
  · -- a negative zero is written again as zero, which is a single digit
    have hzero : fold (unfold 1) = 0 := by decide
    rw [hone, hzero, groups, if_pos (by decide)]
    exact hpos
  · rw [fold_unfold hlt hone]
    exact hc.length_groups_le

/-- What is written for a value that is read from a text is what stood there, if that was minimal,
and never longer. It takes one to thirteen digits, all but the last with the mark that another one
follows, and it spells every value except the least, which has no spelling at all. -/
theorem encode_shortest :
    (∀ (spelling rest : List Char) (v : Int64), decode (spelling ++ rest) = (.ok v, rest) →
      (encode v = spelling ↔ Minimal spelling) ∧ (encode v).length ≤ spelling.length) ∧
    ∀ v : Int64,
      (Spells (encode v) v ↔ v ≠ Int64.minValue) ∧
      1 ≤ (encode v).length ∧ (encode v).length ≤ 13 ∧
      ∀ i c, (encode v)[i]? = some c →
        ∃ d, Base64.value? c = some d ∧ (32 ≤ d ↔ i + 1 < (encode v).length) := by
  refine ⟨?_, ?_⟩
  · intro spelling rest v h
    obtain ⟨front, hfront, hs⟩ := spells_of_decode h
    obtain rfl := List.append_cancel_right hfront
    exact ⟨hs.encode_eq_iff, hs.length_encode_le⟩
  · intro v
    have hs := spells_encode_unfold v
    refine ⟨⟨Spells.ne_minValue, spells_encode⟩, hs.length_pos, hs.length_le, ?_⟩
    intro i c hi
    rw [encode, List.getElem?_map, Option.map_eq_some_iff] at hi
    obtain ⟨d, hd, rfl⟩ := hi
    have hc := chain_groups (fold v)
    refine ⟨d, Base64.value?_digit (hc.lt d (List.mem_of_getElem? hd)), ?_⟩
    rw [encode, List.length_map]
    exact hc.continued_iff hd

/-- Sixteen with a group too many at its end, and a text behind it. -/
theorem encode_shortest_padded :
    decode (['g', 'h', 'A'] ++ ['C']) = (.ok 16, ['C']) ∧ encode 16 ≠ ['g', 'h', 'A'] ∧
      (encode 16).length ≤ 3 := by
  have hread : decode (['g', 'h', 'A'] ++ ['C']) = (.ok 16, ['C']) := by decide
  obtain ⟨hminimal, hlength⟩ := encode_shortest.1 ['g', 'h', 'A'] ['C'] 16 hread
  refine ⟨hread, ?_, hlength⟩
  intro h
  have htight := (hminimal.mp h).tight rfl
  cases htight

end Templating.Vlq
