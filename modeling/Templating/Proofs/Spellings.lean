import Mathlib.Data.List.Forall2
import Templating.Proofs.DigitChains

namespace Templating.Vlq

theorem fold_lt (v : Int64) : fold v < UInt64.size :=
  Nat.mod_lt _ (by decide)

/-- Only the least value takes more room than a word has. -/
theorem fold_eq {v : Int64} (hv : v ≠ Int64.minValue) :
    fold v = 2 * v.toInt.natAbs + if v.toInt < 0 then 1 else 0 := by
  have hne : v.toInt ≠ Int64.minValue.toInt := fun h => hv (Int64.toInt_inj.mp h)
  have hl := Int64.le_toInt v
  have hu := Int64.toInt_lt v
  rw [Int64.toInt_minValue] at hne
  apply Nat.mod_eq_of_lt
  simp only [UInt64.size]
  split <;> omega

theorem unfold_fold {v : Int64} (hv : v ≠ Int64.minValue) : unfold (fold v) = v := by
  have hu := Int64.toInt_lt v
  have hl := Int64.le_toInt v
  apply Int64.toInt_inj.mp
  rw [fold_eq hv, unfold]
  by_cases hneg : v.toInt < 0
  · rw [if_pos hneg, if_pos (by omega), Int64.toInt_ofInt_of_le (by omega) (by omega)]
    omega
  · rw [if_neg hneg, if_neg (by omega), Int64.toInt_ofNat_of_lt (by omega)]
    omega

theorem toInt_unfold {n : Nat} (hn : n < UInt64.size) :
    (unfold n).toInt = if n % 2 = 1 then -(n / 2 : Int) else n / 2 := by
  simp only [UInt64.size] at hn
  unfold unfold
  split
  · rw [Int64.toInt_ofInt_of_le (by omega) (by omega)]
    omega
  · rw [Int64.toInt_ofNat_of_lt (by omega)]
    omega

theorem unfold_ne_minValue {n : Nat} (hn : n < UInt64.size) : unfold n ≠ Int64.minValue := by
  intro h
  have hu := toInt_unfold hn
  simp only [UInt64.size] at hn
  rw [h, Int64.toInt_minValue] at hu
  split at hu <;> omega

/-- A number without its sign's lowest bit alone is folded back; one alone is a negative zero. -/
theorem fold_unfold {n : Nat} (hn : n < UInt64.size) (hone : n ≠ 1) : fold (unfold n) = n := by
  rw [fold_eq (unfold_ne_minValue hn), toInt_unfold hn]
  split <;> split <;> omega

theorem fold_ne_one {v : Int64} (hv : v ≠ Int64.minValue) : fold v ≠ 1 := by
  rw [fold_eq hv]
  split <;> omega

/-- A text that is one value and nothing else. -/
def Spells (spelling : List Char) (v : Int64) : Prop :=
  decode spelling = (.ok v, [])

/-- A spelling whose last digit is no zero group, unless it is the only one, and which is not the
negative zero. -/
structure Minimal (spelling : List Char) : Prop where
  tight : spelling.getLast? = some 'A' → spelling.length = 1
  signed : spelling ≠ ['B']

theorem decode_ok {cs rest : List Char} {v : Int64} (h : decode cs = (.ok v, rest)) :
    ∃ ds, Chain ds ∧ cs = ds.map Base64.digit ++ rest ∧ sum ds < UInt64.size ∧
      v = unfold (sum ds) := by
  simp only [decode, Prod.mk.injEq] at h
  obtain ⟨hv, rfl⟩ := h
  cases hg : (gather 0 0 cs).1 with
  | error e => simp [hg, Except.map] at hv
  | ok n =>
    simp only [hg, Except.map, Except.ok.injEq] at hv
    obtain ⟨ds, hc, hcs, hn, hlt⟩ :=
      gather_ok (Prod.ext hg rfl : gather 0 0 cs = (.ok n, _)) (by decide)
    simp only [Nat.shiftLeft_zero, Nat.zero_add] at hn
    exact ⟨ds, hc, hcs, hn ▸ hlt, hn ▸ hv.symm⟩

/-- A chain of digits is gathered whatever text follows it. -/
theorem gather_append {total shift n : Nat} {cs : List Char} (rest : List Char)
    (h : gather total shift cs = (.ok n, [])) :
    gather total shift (cs ++ rest) = (.ok n, rest) := by
  fun_induction gather total shift cs with
  | case1 => simp at h
  | case2 => simp at h
  | case3 => simp at h
  | case4 total shift c tail digit hv data hf hd =>
    simp only [Prod.mk.injEq] at h
    obtain ⟨hn, rfl⟩ := h
    rw [List.cons_append, gather, hv]
    exact (if_neg hf).trans ((if_pos hd).trans (by rw [hn, List.nil_append]))
  | case5 total shift c tail digit hv data hf hd ih =>
    rw [List.cons_append, gather, hv]
    exact (if_neg hf).trans ((if_neg hd).trans (ih h))

theorem Spells.decode_append {spelling : List Char} {v : Int64} (h : Spells spelling v)
    (rest : List Char) : decode (spelling ++ rest) = (.ok v, rest) := by
  simp only [Spells, decode, Prod.mk.injEq] at h
  obtain ⟨hv, hr⟩ := h
  cases hg : (gather 0 0 spelling).1 with
  | error e => simp [hg, Except.map] at hv
  | ok n =>
    have ha := gather_append rest (Prod.ext hg hr : gather 0 0 spelling = (.ok n, []))
    rw [hg] at hv
    simp [decode, ha, hv]

/-- What is written spells the value that its folded number stands for. -/
theorem spells_encode_unfold (v : Int64) : Spells (encode v) (unfold (fold v)) := by
  have hg := gather_groups 0 0 (fold v) [] (by decide) (by simpa using fold_lt v)
  rw [List.append_nil, Nat.shiftLeft_zero, Nat.zero_add] at hg
  simp [Spells, decode, encode, hg, Except.map]

theorem spells_encode {v : Int64} (hv : v ≠ Int64.minValue) : Spells (encode v) v := by
  have hs := spells_encode_unfold v
  rwa [unfold_fold hv] at hs

theorem Spells.ne_minValue {spelling : List Char} {v : Int64} (h : Spells spelling v) :
    v ≠ Int64.minValue := by
  obtain ⟨ds, _, _, hlt, rfl⟩ := decode_ok h
  exact unfold_ne_minValue hlt

theorem Spells.ne_nil {spelling : List Char} {v : Int64} (h : Spells spelling v) :
    spelling ≠ [] := by
  intro he
  subst he
  simp [Spells, decode, gather, Except.map] at h

theorem digit_eq_B {d : Nat} (hd : d < 64) : Base64.digit d = 'B' ↔ d = 1 := by
  revert d; decide

theorem Chain.tight_iff {ds : List Nat} (h : Chain ds) :
    ((ds.map Base64.digit).getLast? = some 'A' → (ds.map Base64.digit).length = 1) ↔
      (ds.getLast? = some 0 → ds.length = 1) := by
  have hlast : (ds.map Base64.digit).getLast? = some 'A' ↔ ds.getLast? = some 0 := by
    rw [List.getLast?_map]
    cases hl : ds.getLast? with
    | none => simp
    | some d => simp [Base64.digit_eq_A (h.lt d (List.mem_of_getLast? hl))]
  rw [hlast, List.length_map]

theorem Chain.map_eq_B {ds : List Nat} (h : Chain ds) :
    ds.map Base64.digit = ['B'] ↔ ds = [1] := by
  constructor
  · intro he
    obtain ⟨d, rfl, hd⟩ := List.map_eq_singleton_iff.mp he
    rw [(digit_eq_B (h.lt d (by simp))).mp hd]
  · intro he
    subst he
    decide

theorem minimal_encode {v : Int64} (hv : v ≠ Int64.minValue) : Minimal (encode v) := by
  refine ⟨(chain_groups _).tight_iff.mpr (groups_tight _), ?_⟩
  intro hb
  have hg := sum_groups (fold v)
  rw [(chain_groups _).map_eq_B.mp hb] at hg
  exact fold_ne_one hv (by simpa [sum] using hg.symm)

/-- Of all spellings of a value, the minimal one is what is written. -/
theorem Spells.encode_eq_iff {spelling : List Char} {v : Int64} (h : Spells spelling v) :
    encode v = spelling ↔ Minimal spelling := by
  constructor
  · intro he
    subst he
    exact minimal_encode h.ne_minValue
  · intro hm
    obtain ⟨ds, hc, hs, hlt, rfl⟩ := decode_ok h
    rw [List.append_nil] at hs
    subst hs
    have hg := hc.groups_sum (hc.tight_iff.mp hm.tight)
    have hone : sum ds ≠ 1 := by
      intro he
      rw [he] at hg
      exact hm.signed (hc.map_eq_B.mpr (by rw [← hg]; simp [groups]))
    rw [encode, fold_unfold hlt hone, hg]

theorem gather_front {total shift n : Nat} {cs rest : List Char}
    (h : gather total shift cs = (.ok n, rest)) :
    ∃ front, cs = front ++ rest ∧ gather total shift front = (.ok n, []) := by
  fun_induction gather total shift cs with
  | case1 => simp at h
  | case2 => simp at h
  | case3 => simp at h
  | case4 total shift c tail digit hv data hf hd =>
    simp only [Prod.mk.injEq] at h
    obtain ⟨hn, rfl⟩ := h
    refine ⟨[c], rfl, ?_⟩
    rw [gather, hv]
    exact (if_neg hf).trans ((if_pos hd).trans (by rw [hn]))
  | case5 total shift c tail digit hv data hf hd ih =>
    obtain ⟨front, rfl, hg⟩ := ih h
    refine ⟨c :: front, rfl, ?_⟩
    rw [gather, hv]
    exact (if_neg hf).trans ((if_neg hd).trans hg)

/-- A value that is read from the front of a text is spelled there. -/
theorem spells_of_decode {cs rest : List Char} {v : Int64} (h : decode cs = (.ok v, rest)) :
    ∃ spelling, cs = spelling ++ rest ∧ Spells spelling v := by
  simp only [decode, Prod.mk.injEq] at h
  obtain ⟨hv, rfl⟩ := h
  cases hg : (gather 0 0 cs).1 with
  | error e => simp [hg, Except.map] at hv
  | ok n =>
    obtain ⟨front, hcs, hf⟩ := gather_front (Prod.ext hg rfl : gather 0 0 cs = (.ok n, _))
    rw [hg] at hv
    exact ⟨front, hcs, by simp [Spells, decode, hf, hv]⟩

theorem decodeAll_of_decode {cs rest : List Char} {v : Int64} (hne : cs ≠ [])
    (hd : decode cs = (.ok v, rest)) : decodeAll cs = (decodeAll rest).after v := by
  rw [decodeAll, dif_neg hne]
  split
  · rename_i w tail hw
    rw [hd, Prod.mk.injEq, Except.ok.injEq] at hw
    rw [hw.1, hw.2]
  · rename_i e tail hw
    rw [hd] at hw
    cases hw

theorem decodeAll_flatten {spellings : List (List Char)} {vs : List Int64}
    (h : List.Forall₂ Spells spellings vs) : decodeAll spellings.flatten = ⟨vs, none, []⟩ := by
  induction h with
  | nil => simp [decodeAll]
  | @cons p v ps vs hp _ ih =>
    rw [List.flatten_cons, decodeAll_of_decode (by simp [hp.ne_nil]) (hp.decode_append _), ih]
    rfl

/-- As many values as were spelled are read, and the text behind them is left alone. -/
theorem decodeTimes_flatten {spellings : List (List Char)} {vs : List Int64}
    (h : List.Forall₂ Spells spellings vs) (rest : List Char) :
    decodeTimes vs.length (spellings.flatten ++ rest) = ⟨vs, none, rest⟩ := by
  induction h with
  | nil => rfl
  | @cons p v ps vs hp _ ih =>
    have hd := hp.decode_append (ps.flatten ++ rest)
    rw [List.flatten_cons, List.append_assoc, List.length_cons]
    simp only [decodeTimes, hd, ih]
    rfl

/-- Reading up to the end finds nothing but spellings, one after another. -/
theorem spells_of_decodeAll {cs rest : List Char} {vs : List Int64}
    (h : decodeAll cs = ⟨vs, none, rest⟩) :
    ∃ spellings, cs = spellings.flatten ∧ List.Forall₂ Spells spellings vs := by
  fun_induction decodeAll cs generalizing vs with
  | case1 =>
    simp only [Scan.mk.injEq, true_and] at h
    exact ⟨[], rfl, h.1 ▸ .nil⟩
  | case2 cs hne v tail hd hlt ih =>
    obtain ⟨p, rfl, hp⟩ := spells_of_decode hd
    cases hs : decodeAll tail with
    | mk ws e last =>
      simp only [hs, Scan.after, Scan.mk.injEq] at h
      obtain ⟨rfl, rfl, rfl⟩ := h
      obtain ⟨ps, rfl, hps⟩ := ih hs
      exact ⟨p :: ps, rfl, .cons hp hps⟩
  | case3 => simp at h

theorem value?_of_mem_encode {v : Int64} {c : Char} (h : c ∈ encode v) :
    (Base64.value? c).isSome := by
  obtain ⟨d, hd, rfl⟩ := List.mem_map.mp h
  rw [Base64.value?_digit ((chain_groups _).lt d hd)]
  rfl

theorem unfold_fold_eq_iff {v : Int64} : unfold (fold v) = v ↔ v ≠ Int64.minValue := by
  constructor
  · intro h
    rw [← h]
    exact unfold_ne_minValue (fold_lt v)
  · exact unfold_fold

theorem map_unfold_fold_eq_iff {vs : List Int64} :
    vs.map (fun v => unfold (fold v)) = vs ↔ Int64.minValue ∉ vs := by
  induction vs with
  | nil => simp
  | cons v vs ih =>
    rw [List.map_cons, List.cons.injEq, unfold_fold_eq_iff, ih, List.mem_cons, not_or, ne_comm]

theorem encode_minValue : encode Int64.minValue = ['B'] := by
  have hfold : fold Int64.minValue = 1 := by decide
  rw [encode, hfold, groups, if_pos (by decide)]
  rfl

theorem spells_map_encode (vs : List Int64) :
    List.Forall₂ Spells (vs.map encode) (vs.map fun v => unfold (fold v)) := by
  rw [List.forall₂_map_left_iff, List.forall₂_map_right_iff, List.forall₂_same]
  intro v _
  exact spells_encode_unfold v

/-- Values written one after another are read back in order, and what follows them is left unread.
The least value alone is lost: it is written like a negative zero and read as zero. -/
theorem decode_joined (vs : List Int64) (rest : List Char) :
    (decodeTimes vs.length (vs.flatMap encode ++ rest) = ⟨vs, none, rest⟩ ↔
      Int64.minValue ∉ vs) ∧
    (decodeAll (vs.flatMap encode) = ⟨vs, none, []⟩ ↔ Int64.minValue ∉ vs) ∧
    encode Int64.minValue = ['B'] ∧ decode ('B' :: rest) = (.ok 0, rest) := by
  have hspells := spells_map_encode vs
  have htimes := decodeTimes_flatten hspells rest
  have hall := decodeAll_flatten hspells
  rw [List.length_map, ← List.flatMap_def] at htimes
  rw [← List.flatMap_def] at hall
  have hzero : Spells ['B'] 0 := rfl
  refine ⟨?_, ?_, encode_minValue, hzero.decode_append rest⟩
  · rw [htimes, Scan.mk.injEq, map_unfold_fold_eq_iff]
    simp
  · rw [hall, Scan.mk.injEq, map_unfold_fold_eq_iff]
    simp

end Templating.Vlq
