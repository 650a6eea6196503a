import WorkloadAtlas.Proofs.Scalars
/-!
Documents of two levels: sections with fields below them, each field on a line of its own. They are written as text
and as tokens, and what is read from the tokens is their tree.
-/

namespace WorkloadAtlas.Yaml

theorem ne_of_isAlphanum {c x : Char} (hc : c.isAlphanum = true) (hx : x.isAlphanum = false) : c ≠ x := by
  rintro rfl
  rw [hc] at hx
  cases hx

theorem ne_of_isNameChar {c x : Char} (hc : isNameChar c = true) (hx : isNameChar x = false) : c ≠ x := by
  rintro rfl
  rw [hc] at hx
  cases hx

theorem isPrintable_of_isNameChar {c : Char} (h : isNameChar c = true) : IsPrintable c := by
  simp only [isNameChar, Char.isAlphanum, Char.isAlpha, Char.isUpper, Char.isLower, Char.isDigit, Bool.or_eq_true,
    Bool.and_eq_true, decide_eq_true_eq, beq_iff_eq, UInt32.le_iff_toNat_le, ge_iff_le] at h
  rcases h with (((h | h) | h) | rfl) | rfl
  · change 65 ≤ c.toNat ∧ c.toNat ≤ 90 at h
    exact ⟨by omega, by omega⟩
  · change 97 ≤ c.toNat ∧ c.toNat ≤ 122 at h
    exact ⟨by omega, by omega⟩
  · change 48 ≤ c.toNat ∧ c.toNat ≤ 57 at h
    exact ⟨by omega, by omega⟩
  · exact ⟨by decide, by decide⟩
  · exact ⟨by decide, by decide⟩

/-- Words that nothing in a document is mistaken for. -/
structure IsName (text : List Char) : Prop where
  head : ∃ c rest, text = c :: rest ∧ c.isAlphanum = true
  chars : ∀ c ∈ text, isNameChar c = true

theorem IsName.isWord {text : List Char} (h : IsName text) : Plain.IsWord text where
  head := by
    obtain ⟨c, rest, rfl, hc⟩ := h.head
    exact ⟨c, rest, rfl, ne_of_isAlphanum hc rfl, ne_of_isAlphanum hc rfl, ne_of_isAlphanum hc rfl⟩
  chars := by
    intro c hc
    have hname := h.chars c hc
    exact ⟨(isPrintable_of_isNameChar hname).isSpace (ne_of_isNameChar hname rfl), ne_of_isNameChar hname rfl⟩

/-- A word before a colon. A longer one is no key any more. -/
structure Key where
  text : List Char
  isName : IsName text
  length_le : text.length ≤ 1024

inductive Value
  | plain (text : List Char) (isName : IsName text)
  | quoted (text : List Char) (printable : ∀ c ∈ text, IsPrintable c)

structure Field where
  key : Key
  value : Value

structure Section where
  key : Key
  fields : List Field
  fields_ne_nil : fields ≠ []

namespace Value

def written : Value → List Char
  | plain text _ => text
  | quoted text _ => '\'' :: Quoted.doubled text ++ ['\'']

def token : Value → Token
  | plain text _ => .scalar .plain text
  | quoted text _ => .scalar .singleQuoted text

def node : Value → Node
  | plain text _ => .scalar ⟨none, none⟩ .plain text
  | quoted text _ => .scalar ⟨none, none⟩ .singleQuoted text

end Value

namespace Key

def tokens (k : Key) : List Token :=
  [.key, .scalar .plain k.text, .value]

def node (k : Key) : Node :=
  .scalar ⟨none, none⟩ .plain k.text

end Key

namespace Field

/-- The line without the blanks before it. -/
def line (f : Field) : List Char :=
  f.key.text ++ ':' :: ' ' :: (f.value.written ++ ['\n'])

def written (f : Field) : List Char :=
  ' ' :: ' ' :: f.line

def tokens (f : Field) : List Token :=
  f.key.tokens ++ [f.value.token]

def entry (f : Field) : Node × Node :=
  (f.key.node, f.value.node)

end Field

namespace Section

def written (s : Section) : List Char :=
  s.key.text ++ ':' :: '\n' :: s.fields.flatMap Field.written

def tokens (s : Section) : List Token :=
  s.key.tokens ++ .blockMappingStart :: (s.fields.flatMap Field.tokens ++ [.blockEnd])

def node (s : Section) : Node :=
  .mapping ⟨none, none⟩ (s.fields.map Field.entry)

def entry (s : Section) : Node × Node :=
  (s.key.node, s.node)

end Section

namespace Outline

def written (sections : List Section) : List Char :=
  sections.flatMap Section.written

def tokens (sections : List Section) : List Token :=
  .blockMappingStart :: (sections.flatMap Section.tokens ++ [.blockEnd])

def node (sections : List Section) : Node :=
  .mapping ⟨none, none⟩ (sections.map Section.entry)

end Outline

section Trees

variable {handles : Handles} {fuel : Nat} {rest : List Token}

theorem Value.parse (v : Value) : Parse.node handles (fuel + 1) .mapping (v.token :: rest) = .ok ⟨v.node, rest⟩ := by
  cases v with
  | plain text isName => rfl
  | quoted text printable => rfl

theorem Value.endsPart_token (v : Value) : Parse.endsPart (v.token :: rest) = false := by
  cases v with
  | plain text isName => rfl
  | quoted text printable => rfl

/-- An entry is read with its value, and the entries after it are read from what is left. -/
theorem Key.parse (k : Key) {tokens : List Token} {value : Node} {entries : List (Node × Node)}
    {after : List Token} (hstarts : Parse.endsPart tokens = false)
    (hvalue : Parse.node handles (fuel + 1) .mapping tokens = .ok ⟨value, rest⟩)
    (hentries : Parse.blockEntries handles (fuel + 1) rest = .ok ⟨entries, after⟩) :
    Parse.blockEntries handles (fuel + 2) (k.tokens ++ tokens) = .ok ⟨(k.node, value) :: entries, after⟩ := by
  have hscalar : Parse.endsPart (.scalar .plain k.text :: .value :: tokens) = false := rfl
  have hkey : Parse.node handles (fuel + 1) .mapping (.scalar .plain k.text :: .value :: tokens) =
      .ok ⟨k.node, .value :: tokens⟩ := rfl
  change Parse.blockEntries handles (fuel + 2) (.key :: .scalar .plain k.text :: .value :: tokens) = _
  rw [Parse.blockEntries]
  simp only [hscalar, hstarts, Bool.false_eq_true, ↓reduceIte, hkey, hvalue, hentries, bind, Except.bind]
  rfl

theorem Field.parse (fields : List Field) (hfuel : (fields.flatMap Field.tokens).length < fuel) :
    Parse.blockEntries handles fuel (fields.flatMap Field.tokens ++ .blockEnd :: rest) =
      .ok ⟨fields.map Field.entry, rest⟩ := by
  induction fields generalizing fuel with
  | nil =>
    obtain ⟨fuel, rfl⟩ := Nat.exists_eq_add_of_lt hfuel
    rfl
  | cons f fields ih =>
    have hlength : (f.tokens ++ fields.flatMap Field.tokens).length < fuel := hfuel
    have hfield : f.tokens.length = 4 := rfl
    rw [List.length_append, hfield] at hlength
    obtain ⟨fuel, rfl⟩ := Nat.exists_eq_add_of_le' (by omega : 2 ≤ fuel)
    rw [List.flatMap_cons, Field.tokens, List.append_assoc, List.append_assoc]
    exact f.key.parse f.value.endsPart_token f.value.parse (ih (by omega))

theorem Section.parse (s : Section) (hfuel : (s.fields.flatMap Field.tokens).length < fuel) :
    Parse.node handles (fuel + 1) .mapping
        (.blockMappingStart :: (s.fields.flatMap Field.tokens ++ .blockEnd :: rest)) = .ok ⟨s.node, rest⟩ := by
  rw [Parse.node]
  · simp only [Parse.properties, Field.parse s.fields hfuel, bind, Except.bind]
    rfl
  · intro slot rest heq
    cases heq

theorem Section.parse_entries (sections : List Section)
    (hfuel : (sections.flatMap Section.tokens).length < fuel) :
    Parse.blockEntries handles fuel (sections.flatMap Section.tokens ++ .blockEnd :: rest) =
      .ok ⟨sections.map Section.entry, rest⟩ := by
  induction sections generalizing fuel with
  | nil =>
    obtain ⟨fuel, rfl⟩ := Nat.exists_eq_add_of_lt hfuel
    rfl
  | cons s sections ih =>
    have hlength : (s.tokens ++ sections.flatMap Section.tokens).length < fuel := hfuel
    have hsection : s.tokens.length = (s.fields.flatMap Field.tokens).length + 5 := by
      simp only [Section.tokens, Key.tokens, List.length_append, List.length_cons, List.length_nil]
      omega
    rw [List.length_append, hsection] at hlength
    obtain ⟨fuel, rfl⟩ := Nat.exists_eq_add_of_le' (by omega : 2 ≤ fuel)
    rw [List.flatMap_cons, Section.tokens, List.append_assoc, List.append_assoc, List.cons_append, List.append_assoc]
    exact s.key.parse rfl (s.parse (by omega)) (ih (by omega))

theorem Outline.parse (sections : List Section) :
    Parse.document (Outline.tokens sections) = .ok (Outline.node sections) := by
  have hfuel : (sections.flatMap Section.tokens).length < 4 * (Outline.tokens sections).length + 3 := by
    simp only [Outline.tokens, List.length_cons, List.length_append]
    omega
  have hentries : Parse.blockEntries .standard (4 * (Outline.tokens sections).length + 3)
      (sections.flatMap Section.tokens ++ [.blockEnd]) = .ok ⟨sections.map Section.entry, []⟩ :=
    Section.parse_entries sections hfuel
  have hnode : Parse.node .standard (4 * (Outline.tokens sections).length + 4) .block (Outline.tokens sections) =
      .ok ⟨Outline.node sections, []⟩ := by
    rw [Parse.node]
    · simp only [Outline.tokens, Parse.properties] at hentries ⊢
      simp only [hentries, bind, Except.bind]
      rfl
    · intro slot rest heq
      cases heq
  rw [Parse.document]
  · simp only [hnode, bind, Except.bind]
    rfl
  -- The first token starts a mapping, so there are no directives.
  · simp [Outline.tokens]
  · simp [Outline.tokens]
  · simp [Outline.tokens]
  · simp [Outline.tokens]

end Trees

end WorkloadAtlas.Yaml
