import Templating.Vlq

namespace Templating.Vlq

/-- Digit values of one spelling, lowest group first. -/
inductive Chain : List Nat → Prop
  | last : d < 32 → Chain [d]
  | more : 32 ≤ d → d < 64 → Chain ds → Chain (d :: ds)

def sum : List Nat → Nat
  | [] => 0
  | d :: ds => d % 32 + 32 * sum ds

theorem Chain.ne_nil (h : Chain ds) : ds ≠ [] := by
  cases h <;> simp

theorem Chain.lt (h : Chain ds) : ∀ d ∈ ds, d < 64 := by
  induction h with
  | last hd => simp; omega
  | more _ hd _ ih => simp [hd]; exact ih

theorem chain_groups (n : Nat) : Chain (groups n) := by
  fun_induction groups n with
  | case1 n h => exact .last h
  | case2 n h ih => exact .more (by omega) (by omega) ih

theorem sum_groups (n : Nat) : sum (groups n) = n := by
  fun_induction groups n with
  | case1 n h => simp [sum]; omega
  | case2 n h ih => simp only [sum, ih]; omega

/-- The groups of a number end in zero only if the number is zero itself. -/
theorem groups_tight (n : Nat) : (groups n).getLast? = some 0 → (groups n).length = 1 := by
  fun_induction groups n with
  | case1 n h => simp
  | case2 n h ih =>
    intro hl
    obtain ⟨d, ds, hg⟩ := List.exists_cons_of_ne_nil (chain_groups (n / 32)).ne_nil
    rw [hg, List.getLast?_cons_cons, ← hg] at hl
    have hone := ih hl
    rw [hg] at hl hone
    obtain rfl := List.eq_nil_of_length_eq_zero (Nat.succ.inj hone)
    have hs := sum_groups (n / 32)
    simp at hl
    simp [hg, sum, hl] at hs
    omega

theorem Chain.sum_pos (h : Chain ds) (ht : ds.getLast? ≠ some 0) : 0 < sum ds := by
  induction h with
  | last hd => simp [sum] at ht ⊢; omega
  | more hl hd hc ih =>
    obtain ⟨e, es, rfl⟩ := List.exists_cons_of_ne_nil hc.ne_nil
    rw [List.getLast?_cons_cons] at ht
    have := ih ht
    simp only [sum] at this ⊢
    omega

/-- A chain without a zero group at its end is the one that its number is written with. -/
theorem Chain.groups_sum (h : Chain ds) (ht : ds.getLast? = some 0 → ds.length = 1) :
    groups (sum ds) = ds := by
  induction h with
  | last hd => rw [groups]; simp [sum, Nat.mod_eq_of_lt hd, hd]
  | @more d ds hl hd hc ih =>
    obtain ⟨e, es, rfl⟩ := List.exists_cons_of_ne_nil hc.ne_nil
    have hz : (e :: es).getLast? ≠ some 0 := by
      intro he
      rw [← List.getLast?_cons_cons (a := d)] at he
      simpa using ht he
    have hpos := hc.sum_pos hz
    have hbig : ¬ sum (d :: e :: es) < 32 := by simp only [sum] at hpos ⊢; omega
    have hdiv : sum (d :: e :: es) / 32 = sum (e :: es) := by rw [sum]; omega
    have hmod : sum (d :: e :: es) % 32 + 32 = d := by rw [sum]; omega
    rw [groups, if_neg hbig, hdiv, hmod, ih (fun he => absurd he hz)]

theorem size_eq_shifted {shift : Nat} (hs : shift < 64) :
    ∃ k, UInt64.size = (k + 1) <<< shift := by
  refine ⟨1 <<< (64 - shift) - 1, ?_⟩
  have hp := Nat.two_pow_pos (64 - shift)
  rw [Nat.sub_add_cancel (by rwa [Nat.one_shiftLeft]), ← Nat.shiftLeft_add,
    Nat.sub_add_cancel (Nat.le_of_lt hs)]
  rfl

/-- A digit that fits keeps the total below bit 64, once all digits before lie below its shift. -/
theorem Fits.add_lt {total shift data : Nat} (hf : Fits shift data) (ht : total < 1 <<< shift) :
    total + data <<< shift < UInt64.size := by
  obtain ⟨k, hk⟩ := size_eq_shifted hf.1
  have hd := hf.2
  rw [hk] at hd ⊢
  simp only [Nat.shiftLeft_eq, Nat.one_mul] at hd ht ⊢
  have hle : (data + 1) * 2 ^ shift ≤ (k + 1) * 2 ^ shift :=
    Nat.mul_le_mul_right _ (Nat.lt_of_mul_lt_mul_right hd)
  rw [Nat.add_mul] at hle
  omega

/-- What is gathered is a chain at the front of the text, and its number stays below bit 64. -/
theorem gather_ok {total shift n : Nat} {cs rest : List Char}
    (h : gather total shift cs = (.ok n, rest)) (ht : total < 1 <<< shift) :
    ∃ ds, Chain ds ∧ cs = ds.map Base64.digit ++ rest ∧ n = total + sum ds <<< shift ∧
      n < UInt64.size := by
  fun_induction gather total shift cs with
  | case1 => simp at h
  | case2 => simp at h
  | case3 => simp at h
  | case4 total shift c tail digit hv data hf hd =>
    simp only [Prod.mk.injEq, Except.ok.injEq] at h
    obtain ⟨rfl, rfl⟩ := h
    rw [Decidable.not_not] at hf
    refine ⟨[digit], .last hd, by simp [Base64.digit_of_value? hv], by simp [sum, data], ?_⟩
    exact hf.add_lt ht
  | case5 total shift c tail digit hv data hf hd ih =>
    rw [Decidable.not_not] at hf
    have hdata : data < 32 := Nat.mod_lt _ (by decide)
    have hnext : total + data <<< shift < 1 <<< (shift + 5) := by
      simp only [Nat.shiftLeft_eq, Nat.pow_add, Nat.one_mul] at ht ⊢
      have := Nat.mul_le_mul_right (2 ^ shift) (Nat.succ_le_of_lt hdata)
      rw [Nat.succ_mul] at this
      omega
    obtain ⟨ds, hc, rfl, rfl, hlt⟩ := ih h hnext
    refine ⟨digit :: ds, .more (by omega) (Base64.value?_lt hv) hc,
      by simp [Base64.digit_of_value? hv], ?_, hlt⟩
    simp only [sum, Nat.shiftLeft_eq, Nat.pow_add, Nat.add_mul, data]
    grind

theorem gather_groups (total shift n : Nat) (rest : List Char) (hs : shift < 64)
    (hn : n <<< shift < UInt64.size) :
    gather total shift ((groups n).map Base64.digit ++ rest) =
      (.ok (total + n <<< shift), rest) := by
  fun_induction groups n generalizing total shift with
  | case1 n h =>
    have hv := Base64.value?_digit (n := n) (by omega)
    have hf : Fits shift n := ⟨hs, hn⟩
    simp [gather, hv, Nat.mod_eq_of_lt h, hf, h]
  | case2 n h ih =>
    have hv := Base64.value?_digit (n := n % 32 + 32) (by omega)
    have hdata : (n % 32 + 32) % 32 = n % 32 := by omega
    have hsplit : (n % 32) <<< shift + (n / 32) <<< (shift + 5) = n <<< shift := by
      have hdm := Nat.div_add_mod n 32
      simp only [Nat.shiftLeft_eq, Nat.pow_add]
      grind
    have hlow : (n % 32) <<< shift < UInt64.size :=
      Nat.lt_of_le_of_lt (hsplit ▸ Nat.le_add_right _ _) hn
    have hhigh : (n / 32) <<< (shift + 5) < UInt64.size :=
      Nat.lt_of_le_of_lt (hsplit ▸ Nat.le_add_left _ _) hn
    have hf : Fits shift (n % 32) := ⟨hs, hlow⟩
    have hnext : shift + 5 < 64 := by
      have hle := Nat.mul_le_mul_right (2 ^ shift) (Nat.le_of_not_lt h)
      rw [← Nat.shiftLeft_eq n] at hle
      apply (Nat.pow_lt_pow_iff_right (a := 2) (by decide)).mp
      calc
        2 ^ (shift + 5) = 32 * 2 ^ shift := by rw [Nat.pow_add, Nat.mul_comm]
        _ < UInt64.size := Nat.lt_of_le_of_lt hle hn
    simp only [List.map_cons, List.cons_append, gather, hv, hdata, hf]
    rw [if_neg (by simp), if_neg (by omega), ih _ _ hnext hhigh, Nat.add_assoc, hsplit]

end Templating.Vlq
