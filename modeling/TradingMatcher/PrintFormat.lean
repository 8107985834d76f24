import Mathlib.Tactic

/-!
# Printing and scanning integers

Formats of literal characters and decimal integers, padded with zeros to a
width, in the notation of `printf`.  Where no digit follows an integer, scanning
what was printed gives the integers back.
-/

namespace TradingMatcher

namespace PrintFormat

/-- Zeros in front of the digits up to the width. -/
def zeroPadded (width : Nat) (digits : List Char) : List Char :=
  List.replicate (width - digits.length) '0' ++ digits

/-- A decimal integer; the sign counts towards the width. -/
def decimal (width : Nat) (value : Int) : List Char :=
  if value < 0 then '-' :: zeroPadded (width - 1) (Nat.toDigits 10 value.natAbs)
  else zeroPadded width (Nat.toDigits 10 value.natAbs)

/-- The number that a text begins with, and what follows it. -/
def scanNatural (text : List Char) : Option (Nat × List Char) :=
  match text.takeWhile Char.isDigit with
  | [] => none
  | digits => some (Nat.ofDigitChars 10 digits 0, text.dropWhile Char.isDigit)

/-- The integer that a text begins with, and what follows it. -/
def scanInteger (text : List Char) : Option (Int × List Char) :=
  if text.head? = some '-' then
    (scanNatural text.tail).map fun (value, rest) => (-value, rest)
  else (scanNatural text).map fun (value, rest) => (value, rest)

/-- A text that a number can stand before: it does not go on with a digit. -/
def StartsApart (text : List Char) : Prop :=
  ∀ first ∈ text.head?, first.isDigit = false

instance (text : List Char) : Decidable (StartsApart text) :=
  match text with
  | [] => .isTrue nofun
  | first :: _ => decidable_of_iff (first.isDigit = false) (by simp [StartsApart])

section Decimal

variable {width : Nat} {digits rest : List Char}

theorem isDigit_of_mem_zeroPadded (allDigits : ∀ digit ∈ digits,
    digit.isDigit = true) : ∀ digit ∈ zeroPadded width digits,
      digit.isDigit = true := by
  intro digit member
  rcases List.mem_append.mp member with zero | member
  · obtain rfl := List.eq_of_mem_replicate zero
    rfl
  · exact allDigits digit member

theorem ofDigitChars_zeroPadded :
    Nat.ofDigitChars 10 (zeroPadded width digits) 0 =
      Nat.ofDigitChars 10 digits 0 := by
  rw [zeroPadded, Nat.ofDigitChars_append, Nat.ofDigitChars_replicate_zero,
    Nat.mul_zero]

theorem zeroPadded_ne_nil (nonempty : digits ≠ []) :
    zeroPadded width digits ≠ [] := by
  simp [zeroPadded, nonempty]

theorem length_zeroPadded :
    (zeroPadded width digits).length = max width digits.length := by
  rw [zeroPadded, List.length_append, List.length_replicate]
  omega

/-- A number is scanned up to the first character that is no digit. -/
theorem scanNatural_append (allDigits : ∀ digit ∈ digits,
    digit.isDigit = true) (nonempty : digits ≠ [])
    (apart : StartsApart rest) :
    scanNatural (digits ++ rest) =
      some (Nat.ofDigitChars 10 digits 0, rest) := by
  have none : rest.takeWhile Char.isDigit = [] ∧
      rest.dropWhile Char.isDigit = rest := by
    cases rest with
    | nil => exact ⟨rfl, rfl⟩
    | cons first rest =>
        have notDigit := apart first rfl
        simp [notDigit]
  have taken : (digits ++ rest).takeWhile Char.isDigit = digits := by
    rw [List.takeWhile_append_of_pos allDigits, none.1, List.append_nil]
  have dropped : (digits ++ rest).dropWhile Char.isDigit = rest := by
    rw [List.dropWhile_append_of_pos allDigits, none.2]
  rw [scanNatural, taken, dropped]
  cases digits with
  | nil => exact (nonempty rfl).elim
  | cons => rfl

theorem isDigit_of_mem_toDigits (value : Nat) :
    ∀ digit ∈ Nat.toDigits 10 value, digit.isDigit = true :=
  fun _ member =>
    Nat.isDigit_of_mem_toDigits (by decide) (by decide) member

theorem scanNatural_zeroPadded (value : Nat) (apart : StartsApart rest) :
    scanNatural (zeroPadded width (Nat.toDigits 10 value) ++ rest) =
      some (value, rest) := by
  rw [scanNatural_append
    (isDigit_of_mem_zeroPadded (isDigit_of_mem_toDigits value))
    (zeroPadded_ne_nil Nat.toDigits_ne_nil) apart, ofDigitChars_zeroPadded,
    Nat.ofDigitChars_ten_toDigits]

/-- Digits do not begin with a sign. -/
theorem head?_append_ne_minus (allDigits : ∀ digit ∈ digits,
    digit.isDigit = true) (nonempty : digits ≠ []) :
    (digits ++ rest).head? ≠ some '-' := by
  cases digits with
  | nil => exact (nonempty rfl).elim
  | cons first digits =>
      intro sign
      obtain rfl := Option.some.inj sign
      exact absurd (allDigits '-' List.mem_cons_self) (by decide)

/-- Scanning a printed integer gives it back. -/
theorem scanInteger_decimal (value : Int) (apart : StartsApart rest) :
    scanInteger (decimal width value ++ rest) = some (value, rest) := by
  rw [scanInteger, decimal]
  split
  next negative =>
    rw [if_pos (by rfl), List.cons_append, List.tail_cons,
      scanNatural_zeroPadded _ apart, Option.map_some]
    simp only [Option.some.injEq, Prod.mk.injEq, and_true]
    omega
  next notNegative =>
    rw [if_neg (head?_append_ne_minus
      (isDigit_of_mem_zeroPadded (isDigit_of_mem_toDigits _))
      (zeroPadded_ne_nil Nat.toDigits_ne_nil)),
      scanNatural_zeroPadded _ apart, Option.map_some]
    simp only [Option.some.injEq, Prod.mk.injEq, and_true]
    omega

theorem scanNatural_suffix {text : List Char} {value : Nat}
    (scanned : scanNatural text = some (value, rest)) : rest <:+ text := by
  rw [scanNatural] at scanned
  split at scanned
  next => cases scanned
  next =>
    obtain ⟨-, rfl⟩ := Prod.mk.inj (Option.some.inj scanned)
    exact List.dropWhile_suffix _

theorem scanInteger_suffix {text : List Char} {value : Int}
    (scanned : scanInteger text = some (value, rest)) : rest <:+ text := by
  rw [scanInteger] at scanned
  split at scanned
  all_goals
    obtain ⟨⟨natural, last⟩, digits, same⟩ := Option.map_eq_some_iff.mp scanned
    obtain ⟨-, rfl⟩ := Prod.mk.inj same
  · exact (scanNatural_suffix digits).trans (List.tail_suffix text)
  · exact scanNatural_suffix digits

theorem mem_decimal {value : Int} {char : Char}
    (member : char ∈ decimal width value) : char.isDigit = true ∨ char = '-' := by
  have digits (width : Nat) : ∀ digit ∈ zeroPadded width
      (Nat.toDigits 10 value.natAbs), digit.isDigit = true :=
    isDigit_of_mem_zeroPadded (isDigit_of_mem_toDigits value.natAbs)
  rw [decimal] at member
  split at member
  · rcases List.mem_cons.mp member with sign | member
    · exact .inr sign
    · exact .inl (digits _ char member)
  · exact .inl (digits _ char member)

/-- The length of an integer of at most `count` digits. -/
theorem length_decimal_le {value : Int} (count : Nat) (positive : 0 < count)
    (bound : value.natAbs < 10 ^ count) :
    (decimal width value).length ≤ max width (count + 1) := by
  have digits := (Nat.length_toDigits_le_iff (by decide) positive).mpr bound
  rw [decimal]
  split
  · rw [List.length_cons, length_zeroPadded]
    omega
  · rw [length_zeroPadded]
    omega

/-- Without a sign. -/
theorem length_decimal_natCast_le {value : Nat} (count : Nat) (positive : 0 < count)
    (bound : value < 10 ^ count) :
    (decimal width value).length ≤ max width count := by
  have digits := (Nat.length_toDigits_le_iff (by decide) positive).mpr bound
  rw [decimal, if_neg (by omega), length_zeroPadded, Int.natAbs_natCast]
  omega

end Decimal

/-- A character of a format, or a place for an integer. -/
inductive Piece
  | literal (char : Char)
  | integer (width : Nat)
  deriving DecidableEq

/-- The number of places. -/
def arity : List Piece → Nat
  | [] => 0
  | .literal _ :: format => arity format
  | .integer _ :: format => arity format + 1

/-- Print the arguments into their places. -/
def print : List Piece → List Int → List Char
  | .literal char :: format, args => char :: print format args
  | .integer width :: format, arg :: args =>
      decimal width arg ++ print format args
  | _, _ => []

/-- Scan a text for the arguments, up to the end of the format. -/
def scan : List Piece → List Char → Option (List Int × List Char)
  | [], text => some ([], text)
  | .literal char :: format, first :: text =>
      if first = char then scan format text else none
  | .literal _ :: _, [] => none
  | .integer _ :: format, text =>
      (scanInteger text).bind fun (arg, rest) =>
        (scan format rest).map fun (args, rest) => (arg :: args, rest)

/-- What follows an integer is a literal that is no digit, or the end. -/
def Separated : List Piece → Prop
  | [] => True
  | .literal _ :: format => Separated format
  | .integer _ :: .literal char :: format =>
      char.isDigit = false ∧ Separated format
  | .integer _ :: format => format = []

def separatedDecidable : ∀ format, Decidable (Separated format)
  | [] => .isTrue trivial
  | .literal _ :: format => separatedDecidable format
  | .integer _ :: .literal _ :: format =>
      @instDecidableAnd _ _ _ (separatedDecidable format)
  | [.integer _] => .isTrue rfl
  | .integer _ :: .integer _ :: _ => .isFalse (List.cons_ne_nil _ _)

instance (format : List Piece) : Decidable (Separated format) :=
  separatedDecidable format

/-- The literals are characters of one byte. -/
def IsAscii (format : List Piece) : Prop :=
  ∀ piece ∈ format, match piece with
    | .literal char => char.toNat < 128
    | .integer _ => True

instance (format : List Piece) : Decidable (IsAscii format) :=
  @List.decidableBAll _ _ (fun piece => match piece with
    | .literal _ => Nat.decLt _ _
    | .integer _ => .isTrue trivial) format

theorem mem_print {format : List Piece} {args : List Int} {char : Char}
    (member : char ∈ print format args) :
    .literal char ∈ format ∨ char.isDigit = true ∨ char = '-' := by
  induction format generalizing args with
  | nil => cases member
  | cons piece format ih =>
      cases piece with
      | literal first =>
          rw [print] at member
          rcases List.mem_cons.mp member with rfl | member
          · exact .inl List.mem_cons_self
          · exact (ih member).imp_left (List.mem_cons_of_mem _)
      | integer width =>
          cases args with
          | nil => cases member
          | cons arg args =>
              rw [print] at member
              rcases List.mem_append.mp member with member | member
              · exact .inr (mem_decimal member)
              · exact (ih member).imp_left (List.mem_cons_of_mem _)

theorem toNat_lt_of_mem_print {format : List Piece} (isAscii : IsAscii format)
    {args : List Int} {char : Char} (member : char ∈ print format args) :
    char.toNat < 128 := by
  rcases mem_print member with literal | digit | rfl
  · exact isAscii _ literal
  · exact (Char.isDigit_iff_toNat.mp digit).2.trans_lt (by decide)
  · decide

/-- The text goes on apart from a last integer. -/
def Closed (format : List Piece) (rest : List Char) : Prop :=
  ∀ width, format.getLast? = some (.integer width) → StartsApart rest

theorem Closed.tail {piece : Piece} {format : List Piece} {rest : List Char}
    (closed : Closed (piece :: format) rest) : Closed format rest := by
  cases format with
  | nil => exact nofun
  | cons => exact closed

/-- Scanning what was printed gives the arguments back, and leaves the rest. -/
theorem scan_print {format : List Piece} (separated : Separated format)
    {args : List Int} (enough : args.length = arity format) {rest : List Char}
    (closed : Closed format rest) :
    scan format (print format args ++ rest) = some (args, rest) := by
  induction format generalizing args with
  | nil =>
      obtain rfl := List.length_eq_zero_iff.mp enough
      rfl
  | cons piece format ih =>
      cases piece with
      | literal char =>
          rw [print, List.cons_append, scan, if_pos rfl]
          exact ih separated enough closed.tail
      | integer width =>
          cases args with
          | nil => simp [arity] at enough
          | cons arg args =>
              have enoughLater := Nat.succ.inj enough
              have later : Separated format ∧
                  StartsApart (print format args ++ rest) := by
                cases format with
                | nil => exact ⟨trivial, by simpa [print] using closed width rfl⟩
                | cons next format =>
                    cases next with
                    | literal char =>
                        refine ⟨separated.2, fun first starts => ?_⟩
                        obtain rfl := Option.some.inj starts
                        exact separated.1
                    | integer => exact (List.cons_ne_nil _ _ separated).elim
              rw [print, List.append_assoc, scan, scanInteger_decimal _ later.2,
                Option.bind_some]
              simp [ih later.1 enoughLater closed.tail]

/-- Scanning leaves an end of the text. -/
theorem scan_suffix {format : List Piece} {text rest : List Char}
    {args : List Int} (scanned : scan format text = some (args, rest)) :
    rest <:+ text := by
  induction format generalizing text args with
  | nil =>
      obtain ⟨rfl, rfl⟩ := Prod.mk.inj (Option.some.inj scanned)
      exact List.suffix_rfl
  | cons piece format ih =>
      cases piece with
      | literal char =>
          cases text with
          | nil => cases scanned
          | cons first text =>
              obtain ⟨-, later⟩ := Option.ite_none_right_eq_some.mp scanned
              exact (ih later).trans (List.suffix_cons first text)
      | integer width =>
          obtain ⟨⟨arg, middle⟩, first, mapped⟩ :=
            Option.bind_eq_some_iff.mp scanned
          obtain ⟨⟨laterArgs, last⟩, later, same⟩ :=
            Option.map_eq_some_iff.mp mapped
          obtain ⟨rfl, rfl⟩ := Prod.mk.inj same
          exact (ih later).trans (scanInteger_suffix first)

/-- Where the reader of a format string is: among literals, after a percent
sign, or in the width of a zero-padded integer. -/
inductive Reader
  | literals
  | directive
  | width (width : Nat)

/-- The pieces of a format string, of which only the directives for decimal
integers with their length modifiers are read. -/
def pieces : Reader → List Char → List Piece
  | _, [] => []
  | .literals, char :: text =>
      if char = '%' then pieces .directive text
      else .literal char :: pieces .literals text
  | .directive, char :: text =>
      if char = '0' then pieces (.width 0) text
      else if char = 'd' ∨ char = 'u' then .integer 0 :: pieces .literals text
      else pieces .directive text
  | .width width, char :: text =>
      if char.isDigit then
        pieces (.width (10 * width + (char.toNat - '0'.toNat))) text
      else if char = 'd' ∨ char = 'u' then
        .integer width :: pieces .literals text
      else pieces (.width width) text

/-- `snprintf`: as much as fits before the terminator. -/
def snprintf (size : Nat) (format : String) (args : List Int) : List Char :=
  (print (pieces .literals format.toList) args).take (size - 1)

example : snprintf 64 "%04d-%02d|%ld" [7, -3, 12] = "0007--3|12".toList := by
  decide

end PrintFormat

end TradingMatcher
