import Mathlib
import WorkloadAtlas.Number.Numeral
import WorkloadAtlas.Proofs.Shortest
import WorkloadAtlas.Table.Kind
/-!
Numerals without an exponent, and what each reader makes of them: any numeral is read as a double, and one without a
point also as an integer.
-/

namespace WorkloadAtlas.Number

theorem isDigit_of_mem_toDigits {n : Nat} {c : Char} (hc : c ∈ Nat.toDigits 10 n) : isDigit c = true :=
  Nat.isDigit_of_mem_toDigits (by decide) (by decide) hc

theorem digitsValue_eq (digits : List Char) : digitsValue digits = Nat.ofDigitChars 10 digits 0 :=
  rfl

theorem digitsValue_append_zeros (digits : List Char) (k : Nat) :
    digitsValue (digits ++ List.replicate k '0') = digitsValue digits * 10 ^ k := by
  simp only [digitsValue_eq, Nat.ofDigitChars_append, Nat.ofDigitChars_replicate_zero, Nat.mul_comm]

theorem digitsValue_zeros_append (k : Nat) (digits : List Char) :
    digitsValue (List.replicate k '0' ++ digits) = digitsValue digits := by
  simp only [digitsValue_eq, Nat.ofDigitChars_append, Nat.ofDigitChars_replicate_zero, Nat.mul_zero]

theorem ne_of_isDigit {c d : Char} (hc : isDigit c = true) (hd : isDigit d = false) : c ≠ d := by
  rintro rfl
  rw [hc] at hd
  cases hd

theorem cons_ne_of_isDigit {c d : Char} {text rest : List Char} (hc : isDigit c = true) (hd : isDigit d = false) :
    c :: text ≠ d :: rest := by
  intro h
  exact ne_of_isDigit hc hd (List.cons.inj h).1

theorem toNat_of_isDigit {c : Char} (hc : isDigit c = true) : 48 ≤ c.toNat ∧ c.toNat ≤ 57 := by
  unfold isDigit at hc
  rw [Bool.and_eq_true, decide_eq_true_iff, decide_eq_true_iff] at hc
  exact hc

theorem toLower_of_isDigit {c : Char} (hc : isDigit c = true) : c.toLower = c := by
  have hupper : ¬ (65 ≤ c.val ∧ c.val ≤ 90) := by
    intro hupper
    have hle : (65 : Nat) ≤ c.toNat := hupper.1
    have hdigit := toNat_of_isDigit hc
    omega
  exact dif_neg hupper

theorem isDecimalDigit_of_isDigit {c : Char} (hc : isDigit c = true) : Text.isDecimalDigit c = true := by
  unfold Text.isDecimalDigit Text.Range.cover
  apply List.any_eq_true.2
  refine ⟨(0x30, 0x39), List.mem_cons_self, ?_⟩
  rw [Bool.and_eq_true, decide_eq_true_iff, decide_eq_true_iff]
  exact toNat_of_isDigit hc

theorem takeWhile_append {p : Char → Bool} {text rest : List Char} (h : ∀ c ∈ text, p c = true)
    (hrest : ∀ c ∈ rest.head?, p c = false) :
    (text ++ rest).takeWhile p = text ∧ (text ++ rest).dropWhile p = rest := by
  have hstop : rest.takeWhile p = [] ∧ rest.dropWhile p = rest := by
    cases rest with
    | nil => exact ⟨rfl, rfl⟩
    | cons c rest =>
      have hc := hrest c rfl
      simp [hc]
  rw [List.takeWhile_append_of_pos h, List.dropWhile_append_of_pos h, hstop.1, hstop.2, List.append_nil]
  exact ⟨rfl, rfl⟩

theorem natural?_eq {digits : List Char} (hne : digits ≠ []) (h : ∀ c ∈ digits, isDigit c = true) :
    natural? digits = some (digitsValue digits) := by
  have hall : digits.all isDigit = true := List.all_eq_true.2 h
  unfold natural?
  simp [hne, hall]

/-- A signed number of 64 bits, or nothing. -/
def within? (k : Int) : Option Int :=
  if IsSigned k then some k else none

theorem signed?_minus (text : List Char) :
    signed? ('-' :: text) = ((natural? text).map fun n => -(n : Int)).bind within? :=
  rfl

theorem signed?_digit {c : Char} (hc : isDigit c = true) (rest : List Char) :
    signed? (c :: rest) = ((natural? (c :: rest)).map Int.ofNat).bind within? := by
  unfold signed?
  split
  · next h => exact absurd h (cons_ne_of_isDigit hc rfl)
  · next h => exact absurd h (cons_ne_of_isDigit hc rfl)
  · rfl

/-- The texts of numbers without an exponent: a row of digits, maybe with a point inside. -/
structure Numeral where
  negative : Bool
  whole : List Char
  /-- The digits after the point, which is left out if there are none. -/
  fraction : List Char
  digits : ∀ c ∈ whole ++ fraction, isDigit c = true
  whole_ne : whole ≠ []

namespace Numeral

def unsigned (n : Numeral) : List Char :=
  n.whole ++ if n.fraction = [] then [] else '.' :: n.fraction

def text (n : Numeral) : List Char :=
  if n.negative then '-' :: n.unsigned else n.unsigned

/-- The digits without the point, as a number. -/
def count (n : Numeral) : Nat :=
  digitsValue (n.whole ++ n.fraction)

def value (n : Numeral) : ℚ :=
  n.count * 10 ^ (-n.fraction.length : ℤ)

/-- The number that the digits stand for, if the point is left out. -/
def signed (n : Numeral) : Int :=
  if n.negative then -(n.count : Int) else n.count

/-- The numeral of a whole number. -/
def ofInt (k : Int) : Numeral :=
  ⟨k < 0, Nat.toDigits 10 k.natAbs, [], by simpa using fun c => isDigit_of_mem_toDigits, Nat.toDigits_ne_nil⟩

theorem unsigned_ofInt (k : Int) : (ofInt k).unsigned = Nat.toDigits 10 k.natAbs :=
  List.append_nil _

theorem text_ofInt (k : Int) : (toString k).toList = (ofInt k).text := by
  unfold text
  rw [unsigned_ofInt]
  cases k with
  | ofNat k =>
    rw [if_neg (by simp [ofInt])]
    exact Nat.toList_repr
  | negSucc k =>
    have hstring : toString (Int.negSucc k) = "-" ++ toString (k + 1) := rfl
    rw [if_pos (by simp [ofInt]), hstring, String.toList_append]
    exact congrArg ('-' :: ·) Nat.toList_repr

theorem count_ofInt (k : Int) : (ofInt k).count = k.natAbs := by
  unfold count ofInt
  rw [List.append_nil, digitsValue_eq, Nat.ofDigitChars_ten_toDigits]

/-- A numeral for a decimal: it has a point exactly if the exponent is negative. -/
structure LaysOut (n : Numeral) (negative : Bool) (text : List Char) (d : Decimal) : Prop where
  negative : n.negative = negative
  unsigned : text = n.unsigned
  fraction : n.fraction = [] ↔ 0 ≤ d.exponent
  value : n.value = d.value

section Positions

variable {digits : List Char} {d : Decimal}

theorem isDigit_of_mem_replicate {k : Nat} {c : Char} (hc : c ∈ List.replicate k '0') : isDigit c = true := by
  rw [List.eq_of_mem_replicate hc]
  rfl

/-- The point stands in front of all digits, with a single zero before it. -/
theorem exists_in_front (negative : Bool) (hne : digits ≠ []) (hdigits : ∀ c ∈ digits, isDigit c = true)
    (hcount : digitsValue digits = d.digits) (hbefore : digits.length + d.exponent ≤ 0) :
    ∃ n : Numeral, n.LaysOut negative
      ('0' :: '.' :: (List.replicate (-(digits.length + d.exponent)).toNat '0' ++ digits)) d := by
  have hpos := List.length_pos_iff.2 hne
  have hall : ∀ c ∈ ['0'] ++ (List.replicate (-(digits.length + d.exponent)).toNat '0' ++ digits),
      isDigit c = true := by
    intro c hc
    rw [List.mem_append, List.mem_append] at hc
    rcases hc with hc | hc | hc
    · rw [List.mem_singleton.1 hc]
      rfl
    · exact isDigit_of_mem_replicate hc
    · exact hdigits c hc
  refine ⟨⟨negative, ['0'], _, hall, List.cons_ne_nil _ _⟩, rfl, ?_, ?_, ?_⟩
  · simp [unsigned, hne]
  · simp only [List.append_eq_nil_iff, hne, and_false, false_iff]
    omega
  · have hvalue : digitsValue (['0'] ++ (List.replicate (-(digits.length + d.exponent)).toNat '0' ++ digits)) =
        d.digits := by
      rw [← hcount, ← digitsValue_zeros_append _ digits]
      exact digitsValue_zeros_append 1 _
    have hlength : (-((List.replicate (-(digits.length + d.exponent)).toNat '0' ++ digits).length : ℤ)) =
        d.exponent := by
      rw [List.length_append, List.length_replicate]
      omega
    unfold value count Decimal.value
    simp only [hvalue, hlength]

theorem exists_whole (negative : Bool) (hne : digits ≠ []) (hdigits : ∀ c ∈ digits, isDigit c = true)
    (hcount : digitsValue digits = d.digits) (hexponent : 0 ≤ d.exponent) :
    ∃ n : Numeral, n.LaysOut negative (digits ++ List.replicate d.exponent.toNat '0') d := by
  have hall : ∀ c ∈ (digits ++ List.replicate d.exponent.toNat '0') ++ [], isDigit c = true := by
    intro c hc
    rw [List.append_nil, List.mem_append] at hc
    rcases hc with hc | hc
    · exact hdigits c hc
    · exact isDigit_of_mem_replicate hc
  refine ⟨⟨negative, _, [], hall, by simp [hne]⟩, rfl, ?_, ?_, ?_⟩
  · simp [unsigned]
  · simp [hexponent]
  · obtain ⟨k, hk⟩ := Int.eq_ofNat_of_zero_le hexponent
    unfold value count Decimal.value
    simp only [List.append_nil, digitsValue_append_zeros, hcount, hk]
    simp

theorem exists_between (negative : Bool) (hdigits : ∀ c ∈ digits, isDigit c = true)
    (hcount : digitsValue digits = d.digits) {k : Nat} (hk : digits.length + d.exponent = k) (hpos : 0 < k)
    (hexponent : d.exponent < 0) :
    ∃ n : Numeral, n.LaysOut negative (digits.take k ++ '.' :: digits.drop k) d := by
  have hall : ∀ c ∈ digits.take k ++ digits.drop k, isDigit c = true := by
    rw [List.take_append_drop]
    exact hdigits
  have hwhole : digits.take k ≠ [] := by
    apply List.length_pos_iff.1
    rw [List.length_take]
    omega
  have hfraction : digits.drop k ≠ [] := by
    apply List.length_pos_iff.1
    rw [List.length_drop]
    omega
  have hlength : -((digits.drop k).length : ℤ) = d.exponent := by
    rw [List.length_drop]
    omega
  refine ⟨⟨negative, digits.take k, digits.drop k, hall, hwhole⟩, rfl, ?_, ?_, ?_⟩
  · simp [unsigned, hfraction]
  · simp only [hfraction, false_iff, not_le]
    exact hexponent
  · unfold value count Decimal.value
    simp only [List.take_append_drop, hcount, hlength]

theorem exists_positionally (negative : Bool) (d : Decimal) :
    ∃ n : Numeral, n.LaysOut negative (Layout.plain.positionally d).toList d := by
  have hstring : (toString d.digits).toList = Nat.toDigits 10 d.digits := Nat.toList_repr
  have hne : Nat.toDigits 10 d.digits ≠ [] := Nat.toDigits_ne_nil
  have hdigits : ∀ c ∈ Nat.toDigits 10 d.digits, isDigit c = true := fun c => isDigit_of_mem_toDigits
  have hcount : digitsValue (Nat.toDigits 10 d.digits) = d.digits := Nat.ofDigitChars_ten_toDigits
  unfold Layout.positionally
  simp only [hstring]
  split
  · next hbefore =>
    have h := exists_in_front negative hne hdigits hcount hbefore
    simpa [zeros] using h
  · next hbefore =>
    split
    · next hexponent =>
      have h := exists_whole negative hne hdigits hcount hexponent
      simpa [zeros, Layout.plain] using h
    · next hexponent =>
      obtain ⟨k, hk⟩ : ∃ k : Nat, (Nat.toDigits 10 d.digits).length + d.exponent = k :=
        ⟨((Nat.toDigits 10 d.digits).length + d.exponent).toNat, by omega⟩
      have h := exists_between negative hdigits hcount hk (by omega) (by omega)
      rw [hk, Int.toNat_natCast]
      simpa using h

end Positions

theorem exists_unsigned (n : Numeral) : ∃ c rest, n.unsigned = c :: rest ∧ isDigit c = true := by
  obtain ⟨c, rest, hwhole⟩ := List.exists_cons_of_ne_nil n.whole_ne
  refine ⟨c, rest ++ if n.fraction = [] then [] else '.' :: n.fraction, ?_, ?_⟩
  · unfold unsigned
    rw [hwhole, List.cons_append]
  · apply n.digits
    rw [hwhole]
    exact List.mem_cons_self

theorem named?_unsigned (n : Numeral) (negative : Bool) : named? negative n.unsigned = none := by
  obtain ⟨c, rest, hunsigned, hc⟩ := exists_unsigned n
  have hname (first : Char) (name : List Char) (hfirst : isDigit first = false) :
      String.ofList ((c :: rest).map Char.toLower) ≠ String.ofList (first :: name) := by
    intro h
    have hlist := String.ofList_injective h
    rw [List.map_cons, toLower_of_isDigit hc, List.cons.injEq] at hlist
    exact ne_of_isDigit hc hfirst hlist.1
  have hnan := hname 'n' ['a', 'n'] rfl
  have hinf := hname 'i' ['n', 'f'] rfl
  have hinfinity := hname 'i' ['n', 'f', 'i', 'n', 'i', 't', 'y'] rfl
  unfold named?
  rw [hunsigned]
  simp only [beq_iff_eq, Bool.or_eq_true]
  rw [if_neg hnan, if_neg (not_or.2 ⟨hinf, hinfinity⟩)]

/-- The digits before the point and what follows them. -/
theorem takeWhile_unsigned (n : Numeral) {p : Char → Bool} (hp : ∀ c, isDigit c = true → p c = true)
    (hpoint : p '.' = false) :
    n.unsigned.takeWhile p = n.whole ∧
      n.unsigned.dropWhile p = if n.fraction = [] then [] else '.' :: n.fraction := by
  apply takeWhile_append
  · intro c hc
    exact hp c (n.digits c (List.mem_append_left _ hc))
  · intro c hc
    split at hc
    · cases hc
    · cases hc
      exact hpoint

theorem takeWhile_fraction (n : Numeral) {p : Char → Bool} (hp : ∀ c, isDigit c = true → p c = true) :
    n.fraction.takeWhile p = n.fraction ∧ n.fraction.dropWhile p = [] := by
  have hall : ∀ c ∈ n.fraction, p c = true := fun c hc => hp c (n.digits c (List.mem_append_right _ hc))
  have h : (n.fraction ++ []).takeWhile p = n.fraction ∧ (n.fraction ++ []).dropWhile p = [] :=
    takeWhile_append hall fun c hc => nomatch hc
  rwa [List.append_nil] at h

theorem unsigned?_unsigned (n : Numeral) (negative : Bool) :
    unsigned? negative n.unsigned = some (ofDecimal negative n.count (-n.fraction.length)) := by
  obtain ⟨htake, hdrop⟩ := takeWhile_unsigned n (fun c hc => hc) rfl
  obtain ⟨htail, hend⟩ := takeWhile_fraction n fun c hc => hc
  have hempty : n.whole.isEmpty = false := by simp [n.whole_ne]
  unfold unsigned?
  simp only [htake, hdrop, hempty]
  by_cases hnil : n.fraction = []
  · simp [hnil, exponent?, count]
  · simp [hnil, htail, hend, exponent?, count]

/-- Without its sign, if it has one, a numeral is the digits and the point. -/
theorem text_cases (n : Numeral) :
    (n.negative = true ∧ n.text = '-' :: n.unsigned) ∨
      (n.negative = false ∧ n.text = n.unsigned ∧ ∃ c rest, n.unsigned = c :: rest ∧ isDigit c = true) := by
  unfold text
  cases hnegative : n.negative with
  | true => exact .inl ⟨rfl, rfl⟩
  | false => exact .inr ⟨rfl, rfl, exists_unsigned n⟩

/-- A numeral is read as the double nearest to its value. -/
theorem real?_text (n : Numeral) : real? n.text = some (ofDecimal n.negative n.count (-n.fraction.length)) := by
  have hread (negative : Bool) : (named? negative n.unsigned).or (unsigned? negative n.unsigned) =
      some (ofDecimal negative n.count (-n.fraction.length)) := by
    rw [named?_unsigned, unsigned?_unsigned, Option.none_or]
  unfold real?
  rcases text_cases n with ⟨hnegative, htext⟩ | ⟨hnegative, htext, c, rest, hunsigned, hc⟩
  · rw [htext, hnegative]
    exact hread true
  · rw [htext, hnegative, ← hread false, hunsigned]
    split
    next negative unread hsign =>
    split at hsign
    · next h => exact absurd h (cons_ne_of_isDigit hc rfl)
    · next h => exact absurd h (cons_ne_of_isDigit hc rfl)
    · cases hsign
      rfl

theorem natural?_unsigned (n : Numeral) :
    natural? n.unsigned = if n.fraction = [] then some n.count else none := by
  unfold unsigned count
  split
  · next hnil =>
    have hall : ∀ c ∈ n.whole, isDigit c = true := fun c hc => n.digits c (List.mem_append_left _ hc)
    rw [hnil, List.append_nil]
    exact natural?_eq n.whole_ne hall
  · unfold natural?
    have hpoint : isDigit '.' = false := rfl
    simp [hpoint]

/-- A numeral with a point is no integer. -/
theorem signed?_text (n : Numeral) : signed? n.text = if n.fraction = [] then within? n.signed else none := by
  have hnatural := natural?_unsigned n
  unfold signed
  rcases text_cases n with ⟨hnegative, htext⟩ | ⟨hnegative, htext, c, rest, hunsigned, hc⟩
  · rw [htext, signed?_minus, hnatural, hnegative]
    split
    · rfl
    · rfl
  · rw [hunsigned] at hnatural
    rw [htext, hunsigned, signed?_digit hc, hnatural, hnegative]
    split
    · rw [Option.map_some, Option.bind_some, if_neg Bool.false_ne_true, Int.ofNat_eq_natCast]
    · rfl

section Kind

open Table (Kind)

theorem isDigits_unsigned (n : Numeral) (hnil : n.fraction = []) : Kind.isDigits n.unsigned = true := by
  have hall : ∀ c ∈ n.whole, Text.isDecimalDigit c = true := by
    intro c hc
    exact isDecimalDigit_of_isDigit (n.digits c (List.mem_append_left _ hc))
  have hempty : n.whole.isEmpty = false := by simp [n.whole_ne]
  unfold Kind.isDigits unsigned
  rw [if_pos hnil, List.append_nil, hempty, List.all_eq_true.2 hall]
  rfl

theorem isFraction_unsigned (n : Numeral) : Kind.isFraction n.unsigned = !n.fraction.isEmpty := by
  obtain ⟨htake, hdrop⟩ := takeWhile_unsigned n (fun _ => isDecimalDigit_of_isDigit) (by decide)
  obtain ⟨-, hend⟩ := takeWhile_fraction n fun _ => isDecimalDigit_of_isDigit
  have hempty : n.whole.isEmpty = false := by simp [n.whole_ne]
  unfold Kind.isFraction
  simp only [htake, hdrop, hempty]
  by_cases hnil : n.fraction = []
  · simp [hnil, Kind.isExponent]
  · simp [hnil, hend]

theorem isReal_text (n : Numeral) : Kind.isReal n.text = !n.fraction.isEmpty := by
  have hread : (n.unsigned == "inf".toList || n.unsigned == "NaN".toList || Kind.isFraction n.unsigned) =
      !n.fraction.isEmpty := by
    obtain ⟨c, rest, hunsigned, hc⟩ := exists_unsigned n
    have hinf : (n.unsigned == "inf".toList) = false := by
      rw [hunsigned]
      simp [ne_of_isDigit hc (d := 'i') rfl]
    have hnan : (n.unsigned == "NaN".toList) = false := by
      rw [hunsigned]
      simp [ne_of_isDigit hc (d := 'N') rfl]
    rw [hinf, hnan, isFraction_unsigned]
    rfl
  unfold Kind.isReal
  rcases text_cases n with ⟨-, htext⟩ | ⟨-, htext, c, rest, hunsigned, hc⟩
  · rw [htext]
    exact hread
  · rw [← hread, htext, hunsigned]
    split
    · next h => exact absurd h (cons_ne_of_isDigit hc rfl)
    · next h => exact absurd h (cons_ne_of_isDigit hc rfl)
    · rfl

theorem isFlag_text (n : Numeral) : Kind.isFlag n.text = false := by
  have hfirst (c : Char) (rest : List Char) (ht : Kind.fold c ≠ 't') (hf : Kind.fold c ≠ 'f') :
      Kind.isFlag (c :: rest) = false := by
    unfold Kind.isFlag
    simp [ht, hf]
  rcases text_cases n with ⟨-, htext⟩ | ⟨-, htext, c, rest, hunsigned, hc⟩
  · rw [htext]
    exact hfirst _ _ (by decide) (by decide)
  · have hfold : Kind.fold c = c := by
      unfold Kind.fold
      rw [if_neg (by simpa using ne_of_isDigit hc rfl)]
      exact toLower_of_isDigit hc
    rw [htext, hunsigned]
    apply hfirst
    · rw [hfold]
      exact ne_of_isDigit hc rfl
    · rw [hfold]
      exact ne_of_isDigit hc rfl

theorem ofText_text (n : Numeral) : Kind.ofText n.text = if n.fraction = [] then .integer else .real := by
  unfold Kind.ofText
  rw [isFlag_text, isReal_text]
  by_cases hnil : n.fraction = []
  · have hinteger : Kind.isInteger n.text = true := by
      unfold Kind.isInteger
      rcases text_cases n with ⟨-, htext⟩ | ⟨-, htext, c, rest, hunsigned, hc⟩
      · rw [htext]
        exact isDigits_unsigned n hnil
      · rw [← isDigits_unsigned n hnil, htext, hunsigned]
        split
        · next h => exact absurd h (cons_ne_of_isDigit hc rfl)
        · rfl
    simp [hnil, hinteger]
  · simp [hnil]

end Kind

end Numeral

end WorkloadAtlas.Number
