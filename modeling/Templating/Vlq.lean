import Templating.Base64

namespace Templating.Vlq

inductive Error where
  | invalidDigit (c : Char)
  | unterminated
  | overflow
  deriving Repr, DecidableEq

def Error.message : Error → String
  | .invalidDigit c => "invalid base64 digit '" ++ c.toString ++ "' in mappings"
  | .unterminated => "unterminated VLQ value in mappings"
  | .overflow => "VLQ value overflows in mappings"

/-- The magnitude above the sign bit, in a word of 64 bits. The least value has no room for its
top bit and folds like a negative zero. -/
def fold (v : Int64) : Nat :=
  (2 * v.toInt.natAbs + if v.toInt < 0 then 1 else 0) % UInt64.size

def unfold (n : Nat) : Int64 :=
  if n % 2 = 1 then Int64.ofInt (-(n / 2 : Nat)) else Int64.ofNat (n / 2)

/-- Digit values, lowest group first; a value of 32 or more says that another digit follows. -/
def groups (n : Nat) : List Nat :=
  if n < 32 then [n] else (n % 32 + 32) :: groups (n / 32)

def encode (v : Int64) : List Char :=
  (groups (fold v)).map Base64.digit

/-- A digit whose data bits do not all fit below bit 64 loses information. The 14th digit starts
above that bit and never fits. -/
def Fits (shift data : Nat) : Prop :=
  shift < 64 ∧ data <<< shift < UInt64.size

instance : Decidable (Fits shift data) :=
  inferInstanceAs (Decidable (_ ∧ _))

/-- Adds digits to a total, the next one at bit `shift`. The digit that ends the reading is
consumed, also when it is at fault. -/
def gather (total shift : Nat) : List Char → Except Error Nat × List Char
  | [] => (.error .unterminated, [])
  | c :: rest =>
    match Base64.value? c with
    | none => (.error (.invalidDigit c), rest)
    | some digit =>
      let data := digit % 32
      if ¬ Fits shift data then (.error .overflow, rest)
      else if digit < 32 then (.ok (total + data <<< shift), rest)
      else gather (total + data <<< shift) (shift + 5) rest

/-- One value from the front of a text, and the text after it. -/
def decode (cs : List Char) : Except Error Int64 × List Char :=
  let gathered := gather 0 0 cs
  (gathered.1.map unfold, gathered.2)

theorem gather_rest_lt (total shift : Nat) (c : Char) (cs : List Char) :
    (gather total shift (c :: cs)).2.length < (c :: cs).length := by
  induction cs generalizing total shift c with
  | nil => grind [gather]
  | cons d ds ih => grind [gather]

theorem decode_rest_lt {cs : List Char} (h : cs ≠ []) :
    (decode cs).2.length < cs.length := by
  obtain ⟨c, rest, rfl⟩ := List.exists_cons_of_ne_nil h
  exact gather_rest_lt 0 0 c rest

/-- Values read in order, the error that ended the reading, and the text not consumed. -/
structure Scan where
  values : List Int64
  error : Option Error
  rest : List Char
  deriving Repr

def Scan.after (v : Int64) (s : Scan) : Scan :=
  { s with values := v :: s.values }

def decodeTimes : Nat → List Char → Scan
  | 0, cs => ⟨[], none, cs⟩
  | n + 1, cs =>
    match decode cs with
    | (.ok v, rest) => (decodeTimes n rest).after v
    | (.error e, rest) => ⟨[], some e, rest⟩

/-- Reads until the text is used up. -/
def decodeAll (cs : List Char) : Scan :=
  if h : cs = [] then ⟨[], none, []⟩
  else
    match hd : decode cs with
    | (.ok v, rest) =>
      have : rest.length < cs.length := by simpa [hd] using decode_rest_lt h
      (decodeAll rest).after v
    | (.error e, rest) => ⟨[], some e, rest⟩
termination_by cs.length

end Templating.Vlq
