import Templating.Proofs.Spellings

namespace Templating.Vlq

/-- Digits that all say another one follows. -/
def Continued (ds : List Nat) : Prop :=
  ∀ d ∈ ds, 32 ≤ d ∧ d < 64

/-- Digits whose data bits have room in a word of 64 bits. -/
structure Roomy (ds : List Nat) : Prop where
  length : ds.length ≤ 13
  top : ∀ d, ds[12]? = some d → d % 32 < 16

/-- The number that digits stand for, each group counting 32 times as much as the one before. -/
def number (ds : List Nat) : Nat :=
  (ds.mapIdx fun i d => d % 32 * Nat.pow 32 i).foldr (· + ·) 0

/-- Half a number, negative where the number is odd. -/
def signedHalf (n : Nat) : Int :=
  if n % 2 = 1 then -(n / 2 : Nat) else (n / 2 : Nat)

/-- How the reading of one value from a text ends, and the text left behind. -/
inductive Ends : List Char → Except Error Int64 → List Char → Prop
  | value {ds : List Nat} {v : Int64} {rest : List Char} : Chain ds → Roomy ds →
      v.toInt = signedHalf (number ds) →
      Ends (ds.map Base64.digit ++ rest) (.ok v) rest
  | invalid {ds : List Nat} {c : Char} {rest : List Char} : Continued ds → Roomy ds →
      Base64.value? c = none →
      Ends (ds.map Base64.digit ++ c :: rest) (.error (.invalidDigit c)) rest
  | crowded {ds : List Nat} {c : Char} {d : Nat} {rest : List Char} : Continued ds → Roomy ds →
      Base64.value? c = some d → ds.length = 12 ∧ 16 ≤ d % 32 ∨ ds.length = 13 →
      Ends (ds.map Base64.digit ++ c :: rest) (.error .overflow) rest
  | cut {ds : List Nat} : Continued ds → Roomy ds →
      Ends (ds.map Base64.digit) (.error .unterminated) []

/-- The digits from the `i`-th on all fit at their place. -/
def FitFrom : Nat → List Nat → Prop
  | _, [] => True
  | i, d :: ds => Fits (5 * i) (d % 32) ∧ FitFrom (i + 1) ds

theorem fits_iff {i data : Nat} (hd : data < 32) :
    Fits (5 * i) data ↔ i < 12 ∨ i = 12 ∧ data < 16 := by
  simp only [Fits, Nat.shiftLeft_eq, UInt64.size]
  constructor
  · intro h
    rcases h with ⟨hs, hlt⟩
    by_cases hi : i = 12
    · subst hi
      omega
    · omega
  · intro h
    rcases h with hi | ⟨rfl, hdata⟩
    · have hp : 2 ^ (5 * i) ≤ 2 ^ 55 := Nat.pow_le_pow_right (by decide) (by omega)
      have hle := Nat.mul_le_mul (Nat.le_of_lt_succ hd) hp
      omega
    · omega

theorem fitFrom_iff {i : Nat} {ds : List Nat} :
    FitFrom i ds ↔ ∀ j d, ds[j]? = some d → Fits (5 * (i + j)) (d % 32) := by
  induction ds generalizing i with
  | nil => simp [FitFrom]
  | cons d ds ih =>
    rw [FitFrom, ih]
    constructor
    · intro h j e hj
      cases j with
      | zero =>
        obtain rfl := Option.some.inj hj
        exact h.1
      | succ j =>
        rw [Nat.add_comm j, ← Nat.add_assoc]
        exact h.2 j e hj
    · intro h
      refine ⟨h 0 d rfl, ?_⟩
      intro j e hj
      rw [Nat.add_assoc, Nat.add_comm 1]
      exact h (j + 1) e hj

theorem roomy_iff {ds : List Nat} : Roomy ds ↔ FitFrom 0 ds := by
  have hfits : ∀ j d : Nat, Fits (5 * (0 + j)) (d % 32) ↔ j < 12 ∨ j = 12 ∧ d % 32 < 16 := by
    intro j d
    rw [Nat.zero_add]
    exact fits_iff (Nat.mod_lt _ (by decide))
  simp only [fitFrom_iff, hfits]
  constructor
  · intro h j d hj
    have hlt := (List.getElem?_eq_some_iff.mp hj).1
    have hlength := h.length
    by_cases hj12 : j = 12
    · subst hj12
      exact .inr ⟨rfl, h.top d hj⟩
    · exact .inl (by omega)
  · intro h
    refine ⟨?_, ?_⟩
    · by_contra hlong
      have hroom := h 13 _ (List.getElem?_eq_getElem (Nat.not_le.mp hlong))
      omega
    · intro d hd
      have := h 12 d hd
      omega

theorem sum_weights (k : Nat) (ds : List Nat) :
    (ds.mapIdx fun i d => d % 32 * Nat.pow 32 (k + i)).foldr (· + ·) 0 =
      Nat.pow 32 k * sum ds := by
  induction ds generalizing k with
  | nil => simp [sum]
  | cons d ds ih =>
    have hnext : (fun i d => d % 32 * Nat.pow 32 (k + (i + 1))) =
        fun i d => d % 32 * Nat.pow 32 (k + 1 + i) := by
      funext i d
      rw [Nat.add_comm i, Nat.add_assoc]
    have hpow : Nat.pow 32 (k + 1) = Nat.pow 32 k * 32 := rfl
    rw [List.mapIdx_cons, List.foldr_cons, hnext, ih, hpow, sum, Nat.mul_add, Nat.mul_assoc,
      Nat.mul_comm (d % 32)]
    rfl

theorem number_eq_sum (ds : List Nat) : number ds = sum ds := by
  have h := sum_weights 0 ds
  simp only [Nat.zero_add] at h
  rw [number, h]
  exact Nat.one_mul _

theorem sum_cons_shift (d : Nat) (ds : List Nat) (i : Nat) :
    sum (d :: ds) <<< (5 * i) = (d % 32) <<< (5 * i) + sum ds <<< (5 * (i + 1)) := by
  simp only [sum, Nat.shiftLeft_eq, Nat.mul_add, Nat.pow_add, Nat.add_mul]
  grind

/-- Digits that say another one follows are added to the total. -/
theorem gather_continued {ds : List Nat} (total i : Nat) (rest : List Char) (hc : Continued ds)
    (hf : FitFrom i ds) :
    gather total (5 * i) (ds.map Base64.digit ++ rest) =
      gather (total + sum ds <<< (5 * i)) (5 * (i + ds.length)) rest := by
  induction ds generalizing total i with
  | nil => simp [sum]
  | cons d ds ih =>
    obtain ⟨hd, hcs⟩ := List.forall_mem_cons.mp hc
    rw [List.map_cons, List.cons_append, gather, Base64.value?_digit hd.2]
    dsimp only
    rw [if_neg (not_not.mpr hf.1), if_neg (Nat.not_lt.mpr hd.1), ← Nat.mul_succ, ih _ _ hcs hf.2,
      sum_cons_shift, Nat.add_assoc, List.length_cons, Nat.succ_add_eq_add_succ]

/-- Behind digits that go on and have room, the reading is up to what follows. -/
theorem gather_behind {ds : List Nat} (rest : List Char) (hc : Continued ds) (hr : Roomy ds) :
    gather 0 0 (ds.map Base64.digit ++ rest) = gather (sum ds) (5 * ds.length) rest := by
  have h := gather_continued 0 0 rest hc (roomy_iff.mp hr)
  simpa using h

theorem Continued.chain {ds : List Nat} {d : Nat} (hc : Continued ds) (hd : d < 32) :
    Chain (ds ++ [d]) := by
  induction ds with
  | nil => exact .last hd
  | cons e ds ih =>
    obtain ⟨he, hcs⟩ := List.forall_mem_cons.mp hc
    exact .more he.1 he.2 (ih hcs)

/-- A chain is read to its end and no further. -/
theorem gather_chain {ds : List Nat} (total i : Nat) (rest : List Char) (hc : Chain ds)
    (hf : FitFrom i ds) :
    gather total (5 * i) (ds.map Base64.digit ++ rest) =
      (.ok (total + sum ds <<< (5 * i)), rest) := by
  induction hc generalizing total i with
  | @last d hd =>
    rw [List.map_singleton, List.singleton_append, gather, Base64.value?_digit (by omega)]
    dsimp only
    rw [if_neg (not_not.mpr hf.1), if_pos hd]
    simp [sum]
  | @more d ds hl hd hc ih =>
    rw [List.map_cons, List.cons_append, gather, Base64.value?_digit hd]
    dsimp only
    rw [if_neg (not_not.mpr hf.1), if_neg (Nat.not_lt.mpr hl), ← Nat.mul_succ, ih _ _ hf.2,
      sum_cons_shift, Nat.add_assoc]

theorem gather_invalid {total shift : Nat} {c : Char} (rest : List Char)
    (hv : Base64.value? c = none) :
    gather total shift (c :: rest) = (.error (.invalidDigit c), rest) := by
  rw [gather, hv]

theorem gather_crowded {total shift d : Nat} {c : Char} (rest : List Char)
    (hv : Base64.value? c = some d) (hf : ¬ Fits shift (d % 32)) :
    gather total shift (c :: rest) = (.error .overflow, rest) := by
  rw [gather, hv]
  exact if_pos hf

theorem Chain.sum_lt {ds : List Nat} (hc : Chain ds) (hr : Roomy ds) : sum ds < UInt64.size := by
  have hg := gather_chain 0 0 [] hc (roomy_iff.mp hr)
  obtain ⟨-, -, -, -, hlt⟩ := gather_ok hg (by decide)
  simpa using hlt

/-- Any text is a run of digits that fit and go on, and something else behind them. -/
theorem exists_front (i : Nat) (cs : List Char) :
    ∃ ds rest, cs = ds.map Base64.digit ++ rest ∧ Continued ds ∧ FitFrom i ds ∧
      ∀ c tail d, rest = c :: tail → Base64.value? c = some d →
        Fits (5 * (i + ds.length)) (d % 32) → d < 32 := by
  induction cs generalizing i with
  | nil => exact ⟨[], [], rfl, by simp [Continued], trivial, by simp⟩
  | cons c cs ih =>
    by_cases hgo : ∃ d, Base64.value? c = some d ∧ Fits (5 * i) (d % 32) ∧ 32 ≤ d
    · obtain ⟨d, hv, hf, hd⟩ := hgo
      obtain ⟨ds, rest, rfl, hc, hfs, hstop⟩ := ih (i + 1)
      refine ⟨d :: ds, rest, ?_, ?_, ⟨hf, hfs⟩, ?_⟩
      · rw [List.map_cons, Base64.digit_of_value? hv, List.cons_append]
      · exact List.forall_mem_cons.mpr ⟨⟨hd, Base64.value?_lt hv⟩, hc⟩
      · rw [List.length_cons, ← Nat.succ_add_eq_add_succ]
        exact hstop
    · refine ⟨[], c :: cs, rfl, by simp [Continued], trivial, ?_⟩
      intro c' tail d he hv hf
      cases he
      by_contra hd
      exact hgo ⟨d, hv, hf, Nat.not_lt.mp hd⟩

theorem Roomy.concat {ds : List Nat} {d : Nat} (hr : Roomy ds)
    (hd : ds.length < 12 ∨ ds.length = 12 ∧ d % 32 < 16) : Roomy (ds ++ [d]) := by
  refine ⟨by rw [List.length_append, List.length_singleton]; omega, ?_⟩
  intro e he
  rw [List.getElem?_append] at he
  split at he
  · exact hr.top e he
  · rename_i hlong
    obtain ⟨hlength, hsmall⟩ : ds.length = 12 ∧ d % 32 < 16 := by
      rcases hd with hd | hd
      · rw [List.getElem?_eq_none (by rw [List.length_singleton]; omega)] at he
        cases he
      · exact hd
    rw [hlength] at he
    obtain rfl := Option.some.inj he
    exact hsmall

theorem decode_of_gather {cs rest : List Char} {e : Error}
    (h : gather 0 0 cs = (.error e, rest)) : decode cs = (.error e, rest) := by
  rw [decode, h]
  rfl

/-- A text ends the reading in the way that its relation says. -/
theorem Ends.decode_eq {cs rest : List Char} {result : Except Error Int64}
    (h : Ends cs result rest) : decode cs = (result, rest) := by
  cases h with
  | @value ds v _ hc hr hv =>
    have hlt := hc.sum_lt hr
    have hval : unfold (sum ds) = v := by
      apply Int64.toInt_inj.mp
      rw [toInt_unfold hlt, hv, number_eq_sum]
      rfl
    have hg := gather_chain 0 0 rest hc (roomy_iff.mp hr)
    rw [Nat.mul_zero, Nat.shiftLeft_zero, Nat.zero_add] at hg
    simp [decode, hg, Except.map, hval]
  | @invalid ds c _ hc hr hv =>
    exact decode_of_gather ((gather_behind _ hc hr).trans (gather_invalid rest hv))
  | @crowded ds c d _ hc hr hv hfull =>
    have hnot : ¬ Fits (5 * ds.length) (d % 32) := by
      rw [fits_iff (Nat.mod_lt _ (by decide))]
      omega
    exact decode_of_gather ((gather_behind _ hc hr).trans (gather_crowded rest hv hnot))
  | @cut ds hc hr =>
    have hg := gather_behind [] hc hr
    rw [List.append_nil] at hg
    exact decode_of_gather hg

theorem exists_ends (cs : List Char) : ∃ result rest, Ends cs result rest := by
  obtain ⟨ds, rest, rfl, hc, hf, hstop⟩ := exists_front 0 cs
  have hr := roomy_iff.mpr hf
  cases rest with
  | nil => exact ⟨_, _, by rw [List.append_nil]; exact .cut hc hr⟩
  | cons c tail =>
    cases hv : Base64.value? c with
    | none => exact ⟨_, _, .invalid hc hr hv⟩
    | some d =>
      by_cases hfit : Fits (5 * (0 + ds.length)) (d % 32)
      · have hd := hstop c tail d rfl hv hfit
        rw [fits_iff (Nat.mod_lt _ (by decide)), Nat.zero_add] at hfit
        have hroom := hr.concat hfit
        have hchain := hc.chain hd
        have hval : (unfold (number (ds ++ [d]))).toInt = signedHalf (number (ds ++ [d])) :=
          toInt_unfold (number_eq_sum _ ▸ hchain.sum_lt hroom)
        have hends : Ends _ _ tail := .value hchain hroom hval
        rw [List.map_append, List.append_assoc, List.map_singleton,
          Base64.digit_of_value? hv] at hends
        exact ⟨_, _, hends⟩
      · refine ⟨_, _, .crowded hc hr hv ?_⟩
        rw [fits_iff (Nat.mod_lt _ (by decide))] at hfit
        have hlength := hr.length
        omega

/-- What is left is the end of the text, and at most thirteen digits and one character are gone. -/
theorem Ends.consumed {cs rest : List Char} {result : Except Error Int64}
    (h : Ends cs result rest) : ∃ front, cs = front ++ rest ∧ front.length ≤ 14 := by
  cases h with
  | @value ds _ _ hc hr hv =>
    refine ⟨ds.map Base64.digit, rfl, ?_⟩
    rw [List.length_map]
    exact Nat.le_succ_of_le hr.length
  | @invalid ds c _ hc hr hv =>
    refine ⟨ds.map Base64.digit ++ [c], List.append_cons .., ?_⟩
    rw [List.length_append, List.length_map]
    exact Nat.succ_le_succ hr.length
  | @crowded ds c _ _ hc hr hv hfull =>
    refine ⟨ds.map Base64.digit ++ [c], List.append_cons .., ?_⟩
    rw [List.length_append, List.length_map]
    exact Nat.succ_le_succ hr.length
  | @cut ds hc hr =>
    refine ⟨ds.map Base64.digit, (List.append_nil _).symm, ?_⟩
    rw [List.length_map]
    exact Nat.le_succ_of_le hr.length

/-- The reading of a value ends in one way, and that is the way the text says. A value fills a word
at most, so its sign can be taken back, and no more than fourteen characters are ever looked at. -/
theorem decode_ends (cs : List Char) :
    (∀ result rest, decode cs = (result, rest) ↔ Ends cs result rest) ∧
    (∀ ds, Chain ds → Roomy ds → number ds < UInt64.size) ∧
    (∀ v rest, decode cs = (.ok v, rest) → (v.toInt.natAbs : Int) ≤ Int64.maxValue.toInt) ∧
    ∃ consumed, cs = consumed ++ (decode cs).2 ∧ consumed.length ≤ 14 := by
  have hiff : ∀ result rest, decode cs = (result, rest) ↔ Ends cs result rest := by
    intro result rest
    refine ⟨?_, Ends.decode_eq⟩
    intro h
    obtain ⟨result', rest', hends⟩ := exists_ends cs
    rw [hends.decode_eq, Prod.mk.injEq] at h
    exact h.1 ▸ h.2 ▸ hends
  refine ⟨hiff, ?_, ?_, ?_⟩
  · intro ds hc hr
    rw [number_eq_sum]
    exact hc.sum_lt hr
  · intro v rest h
    obtain ⟨ds, -, -, hlt, rfl⟩ := decode_ok h
    have hu := toInt_unfold hlt
    simp only [UInt64.size] at hlt
    rw [Int64.toInt_maxValue]
    split at hu <;> omega
  · exact ((hiff _ _).mp rfl).consumed

/-- A fourteenth digit is one too many, also where it adds nothing. -/
example : decode (List.replicate 13 'g' ++ ['A', '/']) = (.error .overflow, ['/']) := by decide

end Templating.Vlq
