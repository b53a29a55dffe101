import Templating.Base64

namespace Templating.Base64

/-- The number that four digits spell. -/
def groupOf (a b c d : Char) : Option Nat := do
  return ((← value? a) * 64 + (← value? b)) * 4096 + (← value? c) * 64 + (← value? d)

/-- The bytes of the last group, which a `=` ends. -/
def decodeLast (a b c : Char) : Option (List UInt8) :=
  if c = '=' then do
    let n ← groupOf 'A' 'A' a b
    if n % 16 = 0 then some [UInt8.ofNat (n / 16)] else none
  else do
    let n ← groupOf 'A' a b c
    if n % 4 = 0 then some [UInt8.ofNat (n / 1024), UInt8.ofNat (n / 4 % 256)] else none

/-- The bytes that padded groups of digits stand for. -/
def decode : List Char → Option (List UInt8)
  | [] => some []
  | a :: b :: c :: d :: rest =>
    if d = '=' ∧ rest = [] then decodeLast a b c
    else do
      let n ← groupOf a b c d
      let bytes ← decode rest
      return UInt8.ofNat (n / 65536) :: UInt8.ofNat (n / 256 % 256) :: UInt8.ofNat (n % 256) ::
        bytes
  | _ => none

theorem digit_ne_pad {n : Nat} (h : n < 64) : digit n ≠ '=' := by
  intro he
  have hvalue := value?_digit h
  rw [he] at hvalue
  exact absurd hvalue (by simp [show value? '=' = none by decide])

theorem groupOf_digits {n i j k l : Nat} (hi : i < 64) (hj : j < 64) (hk : k < 64) (hl : l < 64)
    (hn : (i * 64 + j) * 4096 + k * 64 + l = n) :
    groupOf (digit i) (digit j) (digit k) (digit l) = some n := by
  simp [groupOf, value?_digit, hi, hj, hk, hl, hn]

theorem digit_zero : digit 0 = 'A' := by decide

/-- One byte makes two digits. -/
theorem decodeLast_one (a : UInt8) :
    decodeLast (digit (a.toNat * 16 / 64)) (digit (a.toNat * 16 % 64)) '=' = some [a] := by
  have ha := a.toNat_lt
  have hgroup : groupOf 'A' 'A' (digit (a.toNat * 16 / 64)) (digit (a.toNat * 16 % 64)) =
      some (a.toNat * 16) := by
    rw [← digit_zero]
    exact groupOf_digits (by decide) (by decide) (by omega) (by omega) (by omega)
  simp [decodeLast, hgroup]

/-- Two bytes make three digits. -/
theorem decodeLast_two {a b : UInt8} {n : Nat} (hn : n = (a.toNat * 256 + b.toNat) * 4) :
    decodeLast (digit (n / 4096)) (digit (n / 64 % 64)) (digit (n % 64)) = some [a, b] := by
  have ha := a.toNat_lt
  have hb := b.toNat_lt
  have hlow : n % 64 < 64 := Nat.mod_lt _ (by decide)
  have hgroup : groupOf 'A' (digit (n / 4096)) (digit (n / 64 % 64)) (digit (n % 64)) =
      some n := by
    rw [← digit_zero]
    exact groupOf_digits (by decide) (by omega) (by omega) hlow (by omega)
  have hspare : n % 4 = 0 := by omega
  have hhigh : n / 1024 = a.toNat := by omega
  have hrest : n / 4 % 256 = b.toNat := by omega
  simp [decodeLast, digit_ne_pad hlow, hgroup, hspare, hhigh, hrest]

/-- Bytes are read back from their digits. -/
theorem decode_encode (bytes : List UInt8) : decode (encode bytes) = some bytes := by
  fun_induction encode bytes with
  | case1 a b c rest n ih =>
    have ha := a.toNat_lt
    have hb := b.toNat_lt
    have hc := c.toNat_lt
    have hlow : n % 64 < 64 := Nat.mod_lt _ (by decide)
    have hgroup : groupOf (digit (n / 262144)) (digit (n / 4096 % 64)) (digit (n / 64 % 64))
        (digit (n % 64)) = some n :=
      groupOf_digits (by omega) (by omega) (by omega) hlow (by omega)
    have hfirst : n / 65536 = a.toNat := by omega
    have hsecond : n / 256 % 256 = b.toNat := by omega
    have hthird : n % 256 = c.toNat := by omega
    simp [decode, digit_ne_pad hlow, hgroup, ih, hfirst, hsecond, hthird]
  | case2 a b n =>
    rw [decode, if_pos ⟨rfl, rfl⟩, decodeLast_two rfl]
  | case3 a n =>
    rw [decode, if_pos ⟨rfl, rfl⟩, decodeLast_one]
  | case4 => rfl

theorem groupOf_eq_some_iff {a b c d : Char} {n : Nat} :
    groupOf a b c d = some n ↔ ∃ i j k l, value? a = some i ∧ value? b = some j ∧
      value? c = some k ∧ value? d = some l ∧ (i * 64 + j) * 4096 + k * 64 + l = n := by
  simp [groupOf, Option.bind_eq_some_iff]

/-- Four digits are those of the number that they spell. -/
theorem digits_of_groupOf {a b c d : Char} {n : Nat} (h : groupOf a b c d = some n) :
    n < 16777216 ∧ a = digit (n / 262144) ∧ b = digit (n / 4096 % 64) ∧ c = digit (n / 64 % 64) ∧
      d = digit (n % 64) := by
  obtain ⟨i, j, k, l, hi, hj, hk, hl, hn⟩ := groupOf_eq_some_iff.mp h
  have hi' := value?_lt hi
  have hj' := value?_lt hj
  have hk' := value?_lt hk
  have hl' := value?_lt hl
  have ha : n / 262144 = i := by omega
  have hb : n / 4096 % 64 = j := by omega
  have hc : n / 64 % 64 = k := by omega
  have hd : n % 64 = l := by omega
  rw [ha, hb, hc, hd, digit_of_value? hi, digit_of_value? hj, digit_of_value? hk,
    digit_of_value? hl]
  exact ⟨by omega, rfl, rfl, rfl, rfl⟩

theorem toNat_byte {n : Nat} (h : n < 256) : (UInt8.ofNat n).toNat = n :=
  UInt8.toNat_ofNat_of_lt' h

/-- The last group is that of its one or two bytes. -/
theorem encode_of_decodeLast {a b c : Char} {bytes : List UInt8}
    (h : decodeLast a b c = some bytes) : encode bytes = [a, b, c, '='] := by
  unfold decodeLast at h
  split at h
  · rename_i hc
    obtain ⟨n, hn, h⟩ := Option.bind_eq_some_iff.mp h
    obtain ⟨hlt, hhigh, hlow, ha, hb⟩ := digits_of_groupOf hn
    have hhigh := (digit_eq_A (by omega)).mp hhigh.symm
    have hlow := (digit_eq_A (Nat.mod_lt _ (by decide))).mp hlow.symm
    split at h
    · rename_i hspare
      cases h
      have hsame : n / 16 * 16 = n := by omega
      have hfirst : n / 64 % 64 = n / 64 := by omega
      rw [encode, toNat_byte (by omega)]
      simp only [hsame, ha, hb, hc, hfirst]
    · cases h
  · obtain ⟨n, hn, h⟩ := Option.bind_eq_some_iff.mp h
    obtain ⟨hlt, hhigh, ha, hb, hc⟩ := digits_of_groupOf hn
    have hhigh := (digit_eq_A (by omega)).mp hhigh.symm
    split at h
    · rename_i hspare
      cases h
      have hsame : (n / 1024 * 256 + n / 4 % 256) * 4 = n := by omega
      have hfirst : n / 4096 % 64 = n / 4096 := by omega
      rw [encode, toNat_byte (by omega), toNat_byte (by omega)]
      simp only [hsame, ha, hb, hc, hfirst]
    · cases h

/-- The digits that bytes are read from are the ones they are written with. -/
theorem encode_of_decode {digits : List Char} {bytes : List UInt8}
    (h : decode digits = some bytes) : encode bytes = digits := by
  fun_induction decode digits generalizing bytes with
  | case1 => cases h; rfl
  | case2 a b c d rest hlast =>
    obtain ⟨rfl, rfl⟩ := hlast
    exact encode_of_decodeLast h
  | case3 a b c d rest hmore ih =>
    obtain ⟨n, hn, h⟩ := Option.bind_eq_some_iff.mp h
    obtain ⟨tail, htail, h⟩ := Option.bind_eq_some_iff.mp h
    cases h
    obtain ⟨hlt, ha, hb, hc, hd⟩ := digits_of_groupOf hn
    have hsame : (n / 65536 * 256 + n / 256 % 256) * 256 + n % 256 = n := by omega
    rw [encode, toNat_byte (by omega), toNat_byte (by omega),
      toNat_byte (by omega), ih htail]
    simp only [hsame, ha, hb, hc, hd]
  | case4 => cases h

theorem decode_eq_some_iff {digits : List Char} {bytes : List UInt8} :
    decode digits = some bytes ↔ digits = encode bytes := by
  constructor
  · intro h
    exact (encode_of_decode h).symm
  · intro h
    rw [h, decode_encode]

/-- Bytes are written as digits that fill groups of four together with at most two `=`. -/
theorem exists_digits (bytes : List UInt8) : ∃ (values : List Nat) (missing : Nat),
    encode bytes = values.map digit ++ List.replicate missing '=' ∧ missing ≤ 2 ∧
    4 ∣ values.length + missing ∧ ∀ n ∈ values, n < 64 := by
  fun_induction encode bytes with
  | case1 a b c rest n ih =>
    obtain ⟨values, missing, he, hmissing, hgroups, hvalues⟩ := ih
    have ha := a.toNat_lt
    have hb := b.toNat_lt
    have hc := c.toNat_lt
    refine ⟨n / 262144 :: n / 4096 % 64 :: n / 64 % 64 :: n % 64 :: values, missing, ?_, hmissing,
      ?_, ?_⟩
    · rw [he]
      rfl
    · simp only [List.length_cons]
      omega
    · simp only [List.forall_mem_cons]
      exact ⟨by omega, by omega, by omega, by omega, hvalues⟩
  | case2 a b n =>
    have ha := a.toNat_lt
    have hb := b.toNat_lt
    refine ⟨[n / 4096, n / 64 % 64, n % 64], 1, rfl, by decide, ⟨1, rfl⟩, ?_⟩
    simp only [List.forall_mem_cons]
    exact ⟨by omega, by omega, by omega, List.forall_mem_nil _⟩
  | case3 a n =>
    have ha := a.toNat_lt
    refine ⟨[n / 64, n % 64], 2, rfl, by decide, ⟨1, rfl⟩, ?_⟩
    simp only [List.forall_mem_cons]
    exact ⟨by omega, by omega, List.forall_mem_nil _⟩
  | case4 => exact ⟨[], 0, rfl, by decide, ⟨0, rfl⟩, List.forall_mem_nil _⟩

/-- The digits and the padding are all that is ever written. -/
theorem forall_mem_encode {p : Char → Prop} (hdigit : ∀ n < 64, p (digit n)) (hpad : p '=')
    (bytes : List UInt8) : ∀ c ∈ encode bytes, p c := by
  obtain ⟨values, missing, he, -, -, hvalues⟩ := exists_digits bytes
  intro c hc
  rw [he] at hc
  rcases List.mem_append.mp hc with hc | hc
  · obtain ⟨n, hn, rfl⟩ := List.mem_map.mp hc
    exact hdigit n (hvalues n hn)
  · rw [List.eq_of_mem_replicate hc]
    exact hpad

end Templating.Base64
