import WorkloadAtlas.Proofs.Nearest
import WorkloadAtlas.Proofs.Numerals
import WorkloadAtlas.Table.Column
/-!
Texts that stand for numbers. A text that is read as an integer is a row of digits with a sign, and stands for the
integer that is read; a text that is read as a finite double is a decimal literal, and the double is nearest to it.
-/

namespace WorkloadAtlas.Number

/-- The sign of a literal, which may be left out. -/
inductive SignMark
  | none
  | plus
  | minus
deriving DecidableEq, Repr

def SignMark.text : SignMark → List Char
  | .none => []
  | .plus => ['+']
  | .minus => ['-']

theorem SignMark.mem_text {sign : SignMark} {c : Char} (h : c ∈ sign.text) : c = '+' ∨ c = '-' := by
  cases sign with
  | none => cases h
  | plus => exact .inl (List.mem_singleton.1 h)
  | minus => exact .inr (List.mem_singleton.1 h)

def SignMark.isMinus : SignMark → Bool
  | .minus => true
  | _ => false

/-- The text of an integer. -/
structure Whole where
  sign : SignMark
  digits : List Char
  digits_ne_nil : digits ≠ []
  isDigit : ∀ c ∈ digits, isDigit c = true

namespace Whole

def text (n : Whole) : List Char :=
  n.sign.text ++ n.digits

def value (n : Whole) : ℤ :=
  if n.sign.isMinus then -(digitsValue n.digits : ℤ) else digitsValue n.digits

theorem mem_text (n : Whole) {c : Char} (h : c ∈ n.text) : Number.isDigit c = true ∨ c = '+' ∨ c = '-' := by
  rcases List.mem_append.1 h with hsign | hdigit
  · exact .inr (SignMark.mem_text hsign)
  · exact .inl (n.isDigit c hdigit)

end Whole

/-- The text of a decimal: digits with at most one point, and maybe a power of ten behind them. -/
structure Literal where
  sign : SignMark
  whole : List Char
  /-- The digits behind the point, if there is a point. -/
  fraction : Option (List Char)
  /-- The mark of the power of ten, and the power. -/
  power : Option (Char × Whole)
  digits_ne_nil : whole ++ fraction.getD [] ≠ []
  isDigit : ∀ c ∈ whole ++ fraction.getD [], isDigit c = true
  isMark : ∀ p ∈ power, p.1 = 'e' ∨ p.1 = 'E'

namespace Literal

def unsigned (l : Literal) : List Char :=
  l.whole ++ (l.fraction.map ('.' :: ·)).getD [] ++ (l.power.map fun p => p.1 :: p.2.text).getD []

def text (l : Literal) : List Char :=
  l.sign.text ++ l.unsigned

/-- The digits without the point. -/
def count (l : Literal) : Nat :=
  digitsValue (l.whole ++ l.fraction.getD [])

/-- The power of ten that the last digit stands at. -/
def exponent (l : Literal) : ℤ :=
  (l.power.map fun p => p.2.value).getD 0 - (l.fraction.getD []).length

def value (l : Literal) : ℚ :=
  if l.sign.isMinus then -(l.count * 10 ^ l.exponent) else l.count * 10 ^ l.exponent

theorem mem_text (l : Literal) {c : Char} (h : c ∈ l.text) :
    Number.isDigit c = true ∨ c ∈ ['+', '-', '.', 'e', 'E'] := by
  have hsigned : c = '+' ∨ c = '-' → c ∈ ['+', '-', '.', 'e', 'E'] := by
    rintro (rfl | rfl)
    · decide
    · decide
  rcases List.mem_append.1 h with hsign | hunsigned
  · exact .inr (hsigned (SignMark.mem_text hsign))
  · rcases List.mem_append.1 hunsigned with hdigits | hpower
    · rcases List.mem_append.1 hdigits with hwhole | hfraction
      · exact .inl (l.isDigit c (List.mem_append_left _ hwhole))
      · cases hpoint : l.fraction with
        | none =>
          rw [hpoint] at hfraction
          cases hfraction
        | some digits =>
          rw [hpoint] at hfraction
          rcases List.mem_cons.1 hfraction with rfl | hdigit
          · exact .inr (by decide)
          · exact .inl (l.isDigit c (List.mem_append_right _ (by rwa [hpoint])))
    · cases hmark : l.power with
      | none =>
        rw [hmark] at hpower
        cases hpower
      | some p =>
        rw [hmark] at hpower
        rcases List.mem_cons.1 hpower with rfl | hpower
        · rcases l.isMark p hmark with hp | hp
          · exact .inr (by rw [hp]; decide)
          · exact .inr (by rw [hp]; decide)
        · exact (p.2.mem_text hpower).imp_right hsigned

end Literal

theorem natural?_eq_some {text : List Char} {n : Nat} (h : natural? text = some n) :
    text ≠ [] ∧ (∀ c ∈ text, isDigit c = true) ∧ digitsValue text = n := by
  rw [natural?] at h
  split at h
  · cases h
  · next hall =>
    simp only [Bool.or_eq_true, List.isEmpty_iff, Bool.not_eq_true', not_or, Bool.not_eq_false,
      List.all_eq_true] at hall
    exact ⟨hall.1, hall.2, Option.some.inj h⟩

/-- The integer that a whole text stands for, of any size. -/
def whole? (text : List Char) : Option ℤ :=
  match text with
  | '-' :: rest => (natural? rest).map fun n => -(n : Int)
  | '+' :: rest => (natural? rest).map Int.ofNat
  | _ => (natural? text).map Int.ofNat

/-- A text starts with a sign or it does not. -/
theorem sign_cases (text : List Char) : (∃ rest, text = '-' :: rest) ∨ (∃ rest, text = '+' :: rest) ∨
    (∀ rest, text = '-' :: rest → False) ∧ (∀ rest, text = '+' :: rest → False) := by
  by_cases hminus : ∃ rest, text = '-' :: rest
  · exact .inl hminus
  · by_cases hplus : ∃ rest, text = '+' :: rest
    · exact .inr (.inl hplus)
    · exact .inr (.inr ⟨fun rest h => hminus ⟨rest, h⟩, fun rest h => hplus ⟨rest, h⟩⟩)

theorem whole?_eq_some {text : List Char} {k : ℤ} (h : whole? text = some k) :
    ∃ n : Whole, text = n.text ∧ n.value = k := by
  rcases sign_cases text with ⟨rest, rfl⟩ | ⟨rest, rfl⟩ | ⟨hminus, hplus⟩
  · cases hn : natural? rest with
    | none =>
      rw [whole?, hn] at h
      cases h
    | some n =>
      rw [whole?, hn] at h
      obtain ⟨hne, hdigits, hvalue⟩ := natural?_eq_some hn
      cases h
      exact ⟨⟨.minus, rest, hne, hdigits⟩, rfl, congrArg (fun n : Nat => -(n : ℤ)) hvalue⟩
  · rw [whole?] at h
    obtain ⟨n, hn, rfl⟩ := Option.map_eq_some_iff.1 h
    obtain ⟨hne, hdigits, hvalue⟩ := natural?_eq_some hn
    exact ⟨⟨.plus, rest, hne, hdigits⟩, rfl, congrArg Int.ofNat hvalue⟩
  · rw [whole?.eq_3 text hminus hplus] at h
    obtain ⟨n, hn, rfl⟩ := Option.map_eq_some_iff.1 h
    obtain ⟨hne, hdigits, hvalue⟩ := natural?_eq_some hn
    exact ⟨⟨.none, text, hne, hdigits⟩, rfl, congrArg Int.ofNat hvalue⟩

theorem signed?_eq (text : List Char) : signed? text = (whole? text).bind within? := by
  rcases sign_cases text with ⟨rest, rfl⟩ | ⟨rest, rfl⟩ | ⟨hminus, hplus⟩
  · rfl
  · rfl
  · rw [signed?.eq_3 text hminus hplus, whole?.eq_3 text hminus hplus]
    rfl

/-- What is read as an integer is the text of this integer. -/
theorem signed?_eq_some {text : List Char} {k : ℤ} (h : signed? text = some k) :
    ∃ n : Whole, text = n.text ∧ n.value = k := by
  rw [signed?_eq] at h
  obtain ⟨k', hwhole, hwithin⟩ := Option.bind_eq_some_iff.1 h
  rw [within?] at hwithin
  split at hwithin
  · cases hwithin
    exact whole?_eq_some hwhole
  · cases hwithin

theorem exponent?_mark {mark : Char} (hmark : mark = 'e' ∨ mark = 'E') (rest : List Char) :
    exponent? (mark :: rest) = whole? rest := by
  have h : (mark == 'e' || mark == 'E') = true := by simpa using hmark
  rcases sign_cases rest with ⟨digits, rfl⟩ | ⟨digits, rfl⟩ | ⟨hminus, hplus⟩
  · rw [exponent?.eq_def]
    simp only [h, ↓reduceIte]
    rfl
  · rw [exponent?.eq_def]
    simp only [h, ↓reduceIte]
    rfl
  · rw [exponent?, h, if_pos rfl, whole?.eq_3 rest hminus hplus]
    · exact hminus
    · exact hplus

theorem exponent?_eq_some {text : List Char} {e : ℤ} (h : exponent? text = some e) :
    ∃ power : Option (Char × Whole), (∀ p ∈ power, p.1 = 'e' ∨ p.1 = 'E') ∧
      text = (power.map fun p => p.1 :: p.2.text).getD [] ∧ (power.map fun p => p.2.value).getD 0 = e := by
  cases text with
  | nil =>
    cases h
    exact ⟨none, by simp, rfl, rfl⟩
  | cons mark rest =>
    by_cases hmark : mark = 'e' ∨ mark = 'E'
    · rw [exponent?_mark hmark] at h
      obtain ⟨n, rfl, rfl⟩ := whole?_eq_some h
      refine ⟨some (mark, n), ?_, rfl, rfl⟩
      intro p hp
      cases hp
      exact hmark
    · have hnone : (mark == 'e' || mark == 'E') = false := by simpa using hmark
      rw [exponent?.eq_def] at h
      simp only [hnone, Bool.false_eq_true, ↓reduceIte] at h
      cases h

/-- The double of digits before and behind a point, with a text behind them that is an exponent. -/
def ofParts? (negative : Bool) (whole fraction rest : List Char) : Option Float :=
  if whole.isEmpty && fraction.isEmpty then none
  else do
    let exponent ← exponent? rest
    some (ofDecimal negative (digitsValue (whole ++ fraction)) (exponent - fraction.length))

theorem ofParts?_eq_some {sign : SignMark} {whole rest : List Char} {fraction : Option (List Char)} {x : Float}
    (hdigits : ∀ c ∈ whole ++ fraction.getD [], isDigit c = true)
    (h : ofParts? sign.isMinus whole (fraction.getD []) rest = some x) :
    ∃ l : Literal, l.sign = sign ∧ whole ++ (fraction.map ('.' :: ·)).getD [] ++ rest = l.unsigned ∧
      ofDecimal sign.isMinus l.count l.exponent = x := by
  unfold ofParts? at h
  split at h
  · cases h
  · next hempty =>
    have hne : whole ++ fraction.getD [] ≠ [] := by
      intro hnil
      obtain ⟨hwhole, hfraction⟩ := List.append_eq_nil_iff.1 hnil
      simp [hwhole, hfraction] at hempty
    obtain ⟨e, he, hx⟩ := Option.bind_eq_some_iff.1 h
    obtain ⟨power, hmark, rfl, rfl⟩ := exponent?_eq_some he
    exact ⟨⟨sign, whole, fraction, power, hne, hdigits, hmark⟩, rfl, rfl, Option.some.inj hx⟩

/-- Digits, maybe with a point, and what stands behind them. -/
theorem exists_parts (negative : Bool) (text : List Char) : ∃ (whole rest : List Char) (fraction : Option (List Char)),
    (∀ c ∈ whole ++ fraction.getD [], isDigit c = true) ∧
    text = whole ++ (fraction.map ('.' :: ·)).getD [] ++ rest ∧
    unsigned? negative text = ofParts? negative whole (fraction.getD []) rest := by
  have hsplit := (List.takeWhile_append_dropWhile (p := isDigit) (l := text)).symm
  have hwhole : ∀ c ∈ text.takeWhile isDigit, isDigit c = true := fun c hc => List.mem_takeWhile_imp hc
  rw [unsigned?]
  generalize text.takeWhile isDigit = whole at hsplit hwhole ⊢
  generalize text.dropWhile isDigit = rest at hsplit ⊢
  subst hsplit
  by_cases hpoint : ∃ tail, rest = '.' :: tail
  · obtain ⟨tail, rfl⟩ := hpoint
    have htail := List.takeWhile_append_dropWhile (p := isDigit) (l := tail)
    have hfraction : ∀ c ∈ tail.takeWhile isDigit, isDigit c = true := fun c hc => List.mem_takeWhile_imp hc
    refine ⟨whole, tail.dropWhile isDigit, some (tail.takeWhile isDigit),
      List.forall_mem_append.2 ⟨hwhole, hfraction⟩, ?_, rfl⟩
    rw [Option.map_some, Option.getD_some, List.append_assoc, List.cons_append, htail]
  · refine ⟨whole, rest, none, List.forall_mem_append.2 ⟨hwhole, List.forall_mem_nil _⟩, ?_, ?_⟩
    · rw [Option.map_none, Option.getD_none, List.append_nil]
    · split
      next fraction after hmatch =>
        split at hmatch
        · next tail => exact absurd ⟨tail, rfl⟩ hpoint
        · cases hmatch
          rfl

/-- What is read without a sign as a double is digits, maybe with a point and a power of ten. -/
theorem unsigned?_eq_some {sign : SignMark} {text : List Char} {x : Float} (h : unsigned? sign.isMinus text = some x) :
    ∃ l : Literal, l.sign = sign ∧ text = l.unsigned ∧ ofDecimal sign.isMinus l.count l.exponent = x := by
  obtain ⟨whole, rest, fraction, hdigits, rfl, hparts⟩ := exists_parts sign.isMinus text
  rw [hparts] at h
  exact ofParts?_eq_some hdigits h

theorem named?_not_finite {negative : Bool} {text : List Char} {x : Float} (h : named? negative text = some x) :
    x.isFinite = false := by
  unfold named? at h
  simp only at h
  split at h
  · cases h
    rfl
  · split at h
    · cases h
      cases hfinite : (ofMagnitude negative double.infinity).isFinite with
      | false => rfl
      | true =>
        have hlt := magnitudeBits_lt hfinite
        rw [magnitudeBits_ofMagnitude negative le_rfl] at hlt
        exact absurd hlt (lt_irrefl _)
    · cases h

/-- The sign in front of a text, and the text behind it. -/
theorem exists_sign (text : List Char) : ∃ (sign : SignMark) (rest : List Char), text = sign.text ++ rest ∧
    real? text = (named? sign.isMinus rest).or (unsigned? sign.isMinus rest) := by
  rcases sign_cases text with ⟨rest, rfl⟩ | ⟨rest, rfl⟩ | ⟨hminus, hplus⟩
  · exact ⟨.minus, rest, rfl, rfl⟩
  · exact ⟨.plus, rest, rfl, rfl⟩
  · refine ⟨.none, text, rfl, ?_⟩
    unfold real?
    split
    next negative rest hmatch =>
      split at hmatch
      · exact (hminus _ rfl).elim
      · exact (hplus _ rfl).elim
      · cases hmatch
        rfl

/-- What is read as a finite double is a decimal literal, and the double is nearest to it. -/
theorem real?_eq_some {text : List Char} {x : Float} (h : real? text = some x) (hx : x.isFinite = true) :
    ∃ l : Literal, text = l.text ∧ IsNearest l.value x := by
  obtain ⟨sign, rest, rfl, hreal⟩ := exists_sign text
  rw [hreal] at h
  rcases Option.or_eq_some_iff.1 h with hnamed | ⟨-, hunsigned⟩
  · rw [named?_not_finite hnamed] at hx
    cases hx
  · obtain ⟨l, hsign, rfl, rfl⟩ := unsigned?_eq_some hunsigned
    refine ⟨l, by rw [Literal.text, hsign], ?_⟩
    rw [Literal.value, hsign]
    exact isNearest_ofDecimal hx

end WorkloadAtlas.Number
