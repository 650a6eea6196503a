import WorkloadAtlas.Proofs.Cutting
import WorkloadAtlas.Simulation.Config
/-!
A written balancing config and the simulation that is read from it. Lines and sections that the simulation does not need
may stand around the two lines that it does.
-/

namespace WorkloadAtlas.Simulation.Config

open Yaml (IsName IsPrintable isNameChar Key Node Outline.written)

/-- Words of lower-case letters. -/
structure IsWord (text : List Char) : Prop where
  ne_nil : text ≠ []
  length_le : text.length ≤ 100
  isLower : ∀ c ∈ text, c.isLower = true

theorem IsWord.isName {text : List Char} (h : IsWord text) : IsName text where
  head := by
    obtain ⟨c, rest, rfl⟩ := List.exists_cons_of_ne_nil h.ne_nil
    have hc := h.isLower c List.mem_cons_self
    exact ⟨c, rest, rfl, by simp [Char.isAlphanum, Char.isAlpha, hc]⟩
  chars := by
    intro c hc
    have hlower := h.isLower c hc
    simp [isNameChar, Char.isAlphanum, Char.isAlpha, hlower]

theorem isName_digits {digits : List Char} (hne : digits ≠ []) (h : ∀ c ∈ digits, Number.isDigit c = true) :
    IsName digits where
  head := by
    obtain ⟨c, rest, rfl⟩ := List.exists_cons_of_ne_nil hne
    have hc : c.isDigit = true := h c List.mem_cons_self
    exact ⟨c, rest, rfl, by simp [Char.isAlphanum, hc]⟩
  chars := by
    intro c hc
    have hdigit : c.isDigit = true := h c hc
    simp [isNameChar, Char.isAlphanum, hdigit]

/-- A line of the config that holds a number under a word. -/
structure Line where
  key : List Char
  digits : List Char
  key_isWord : IsWord key
  digits_ne_nil : digits ≠ []
  isDigit : ∀ c ∈ digits, Number.isDigit c = true

def Line.written (line : Line) : List Char :=
  "  ".toList ++ line.key ++ ": ".toList ++ line.digits ++ "\n".toList

/-- A section of the config with at least one line. -/
structure Part where
  name : List Char
  lines : List Line
  name_isWord : IsWord name
  lines_ne_nil : lines ≠ []

def Part.written (part : Part) : List Char :=
  part.name ++ ":\n".toList ++ part.lines.flatMap Line.written

/-- A config: the directory and the number of iterations with lines around them, and parts around their section. -/
structure Document where
  before : List Part
  above : List Line
  dir : List Char
  between : List Line
  count : Nat
  below : List Line
  after : List Part

def Document.written (d : Document) : List Char :=
  d.before.flatMap Part.written ++
    "balancing:\n".toList ++
    d.above.flatMap Line.written ++
    "  results-dir: '".toList ++ Yaml.Quoted.doubled d.dir ++ "'\n".toList ++
    d.between.flatMap Line.written ++
    "  number_of_iterations: ".toList ++ Nat.toDigits 10 d.count ++ "\n".toList ++
    d.below.flatMap Line.written ++
    d.after.flatMap Part.written

def Line.field (line : Line) : Yaml.Field where
  key := ⟨line.key, line.key_isWord.isName, line.key_isWord.length_le.trans (by decide)⟩
  value := .plain line.digits (isName_digits line.digits_ne_nil line.isDigit)

def Part.section (part : Part) : Yaml.Section where
  key := ⟨part.name, part.name_isWord.isName, part.name_isWord.length_le.trans (by decide)⟩
  fields := part.lines.map Line.field
  fields_ne_nil := by simpa using part.lines_ne_nil

theorem Line.written_field (line : Line) : line.field.written = line.written := by
  simp [Yaml.Field.written, Yaml.Field.line, field, Yaml.Value.written, written]

theorem Part.written_section (part : Part) : part.section.written = part.written := by
  simp [Yaml.Section.written, Part.section, written, List.flatMap_map, Line.written_field]

def balancingKey : Key where
  text := "balancing".toList
  isName := ⟨⟨'b', _, rfl, rfl⟩, List.all_eq_true.1 (by decide +kernel)⟩
  length_le := by decide

/-- A name that the config asks for. It holds a character that no word has. -/
structure Title where
  name : String
  isName : IsName name.toList
  length_le : name.toList.length ≤ 1024
  mark : Char
  mark_mem : mark ∈ name.toList
  isLower_mark : mark.isLower = false

namespace Title

def field (title : Title) (value : Yaml.Value) : Yaml.Field where
  key := ⟨title.name.toList, title.isName, title.length_le⟩
  value := value

theorem name_field (title : Title) (value : Yaml.Value) : String.ofList (title.field value).key.text = title.name :=
  String.ofList_toList

theorem written_field (title : Title) (value : Yaml.Value) :
    (title.field value).written = "  ".toList ++ title.name.toList ++ ": ".toList ++ value.written ++ "\n".toList := by
  simp [Yaml.Field.written, Yaml.Field.line, field]

def dir : Title where
  name := "results-dir"
  isName := ⟨⟨'r', _, rfl, rfl⟩, List.all_eq_true.1 (by decide +kernel)⟩
  length_le := by decide
  mark := '-'
  mark_mem := by decide +kernel
  isLower_mark := rfl

def count : Title where
  name := "number_of_iterations"
  isName := ⟨⟨'n', _, rfl, rfl⟩, List.all_eq_true.1 (by decide +kernel)⟩
  length_le := by decide
  mark := '_'
  mark_mem := by decide +kernel
  isLower_mark := rfl

end Title

def dirValue (dir : List Char) (printable : ∀ c ∈ dir, IsPrintable c) : Yaml.Value :=
  .quoted dir printable

def countValue (count : Nat) : Yaml.Value :=
  .plain (Nat.toDigits 10 count) (isName_digits Nat.toDigits_ne_nil fun _ => Number.isDigit_of_mem_toDigits)

namespace Document

variable (d : Document) (printable : ∀ c ∈ d.dir, IsPrintable c)

def fields : List Yaml.Field :=
  d.above.map Line.field ++ Title.dir.field (dirValue d.dir printable) ::
    (d.between.map Line.field ++ Title.count.field (countValue d.count) :: d.below.map Line.field)

def balancing : Yaml.Section where
  key := balancingKey
  fields := d.fields printable
  fields_ne_nil := by simp [fields]

def sections : List Yaml.Section :=
  d.before.map Part.section ++ d.balancing printable :: d.after.map Part.section

theorem written_sections : Yaml.Outline.written (d.sections printable) = d.written := by
  have hlines (lines : List Line) : (lines.map Line.field).flatMap Yaml.Field.written = lines.flatMap Line.written := by
    simp only [List.flatMap_map, Line.written_field]
  have hparts (parts : List Part) :
      (parts.map Part.section).flatMap Yaml.Section.written = parts.flatMap Part.written := by
    simp only [List.flatMap_map, Part.written_section]
  have hheader (rest : List Char) : balancingKey.text ++ ':' :: '\n' :: rest = "balancing:\n".toList ++ rest := rfl
  have hdir : "  results-dir: '".toList = "  ".toList ++ (Title.dir.name.toList ++ (": ".toList ++ ['\''])) := by
    decide +kernel
  have hend : "'\n".toList = '\'' :: "\n".toList := by
    decide +kernel
  have hcount : "  number_of_iterations: ".toList = "  ".toList ++ (Title.count.name.toList ++ ": ".toList) := by
    decide +kernel
  simp only [Yaml.Outline.written, sections, written, List.flatMap_append, List.flatMap_cons, hparts,
    Yaml.Section.written, balancing, hheader, fields, hlines, Title.written_field, dirValue, countValue,
    Yaml.Value.written, hdir, hend, hcount, List.append_assoc, List.cons_append, List.nil_append]

end Document

theorem keyed_eq {α : Type} (document : Node) (key : α → Key) (value : α → Node) (entries : List α) :
    keyed document (entries.map fun e => ((key e).node, value e)) =
      .ok (entries.map fun e => (String.ofList (key e).text, value e)) := by
  induction entries with
  | nil => rfl
  | cons e entries ih =>
    rw [List.map_cons, keyed, ih]
    rfl

/-- A key that stands between others is found. -/
theorem field_eq {entries before after : List (String × Node)} {key : String} {value : Node}
    (hentries : entries = before ++ (key, value) :: after) (hbefore : ∀ e ∈ before, e.1 ≠ key)
    (hafter : ∀ e ∈ after, e.1 ≠ key) : field entries key = .ok value := by
  have hfilter (others : List (String × Node)) (h : ∀ e ∈ others, e.1 ≠ key) : others.filter (·.1 == key) = [] := by
    rw [List.filter_eq_nil_iff]
    intro e he
    simpa using h e he
  rw [field, hentries, List.filter_append, List.filter_cons_of_pos (by simp), hfilter before hbefore,
    hfilter after hafter]
  rfl

/-- No number starts with a zero but zero itself. -/
theorem toDigits_ne_zero_cons {n : Nat} (hn : 0 < n) (rest : List Char) : Nat.toDigits 10 n ≠ '0' :: rest := by
  induction n using Nat.strong_induction_on generalizing rest with
  | _ n ih =>
    by_cases hlt : n < 10
    · rw [Nat.toDigits_of_lt_base hlt]
      intro heq
      have hdigit : n.digitChar = '0' := List.head_eq_of_cons_eq heq
      interval_cases n <;> cases hdigit
    · rw [Nat.toDigits_of_base_le (by decide) (by omega)]
      intro heq
      obtain ⟨c, digits, hdigits⟩ := List.exists_cons_of_ne_nil (Nat.toDigits_ne_nil (n := n / 10) (b := 10))
      have hc : c = '0' := by
        rw [hdigits] at heq
        exact List.head_eq_of_cons_eq heq
      exact ih (n / 10) (by omega) (by omega) digits (hc ▸ hdigits)

theorem hexValue?_of_isDigit {c : Char} (hc : Number.isDigit c = true) :
    Yaml.hexValue? c = some (c.toNat - '0'.toNat) ∧ c.toNat - '0'.toNat < 10 := by
  have hbounds := Number.toNat_of_isDigit hc
  have hzero : '0'.toNat = 48 := rfl
  have hrange : '0' ≤ c ∧ c ≤ '9' := by simpa [Number.isDigit] using hc
  refine ⟨?_, by omega⟩
  rw [Yaml.hexValue?, if_pos hrange]

theorem digits?_ten {digits : List Char} (hne : digits ≠ []) (h : ∀ c ∈ digits, Number.isDigit c = true)
    (hword : Number.IsWord (Number.digitsValue digits)) : digits? 10 digits = some (Number.digitsValue digits) := by
  have hfold (text : List Char) (htext : ∀ c ∈ text, Number.isDigit c = true) (n : Nat) :
      text.foldlM (fun n c => do
        let digit ← Yaml.hexValue? c
        if digit < 10 then some (10 * n + digit) else none) n =
      some (text.foldl (fun n c => 10 * n + (c.toNat - '0'.toNat)) n) := by
    induction text generalizing n with
    | nil => rfl
    | cons c text ih =>
      obtain ⟨hvalue, hlt⟩ := hexValue?_of_isDigit (htext c List.mem_cons_self)
      rw [List.foldlM_cons, List.foldl_cons, ← ih fun c hc => htext c (List.mem_cons_of_mem _ hc)]
      simp only [hvalue, bind, Option.bind, if_pos hlt]
  rw [digits?, hfold digits h 0]
  simp only [List.isEmpty_eq_false_iff.2 hne, Bool.false_eq_true, ↓reduceIte, bind, Option.bind]
  exact if_pos hword

theorem number?_toDigits {n : Nat} (hn : Number.IsWord n) : number? (Nat.toDigits 10 n) = some n := by
  have hdigits : ∀ c ∈ Nat.toDigits 10 n, Number.isDigit c = true := fun _ => Number.isDigit_of_mem_toDigits
  have hvalue : Number.digitsValue (Nat.toDigits 10 n) = n := by
    rw [Number.digitsValue_eq, Nat.ofDigitChars_ten_toDigits]
  have hread := digits?_ten Nat.toDigits_ne_nil hdigits (by rwa [hvalue])
  rw [hvalue] at hread
  rcases Nat.eq_zero_or_pos n with rfl | hpos
  · rfl
  · obtain ⟨c, rest, htext⟩ := List.exists_cons_of_ne_nil (Nat.toDigits_ne_nil (n := n) (b := 10))
    have hzero : c ≠ '0' := by
      rintro rfl
      exact toDigits_ne_zero_cons hpos rest htext
    have hplus : c ≠ '+' := Number.ne_of_isDigit (hdigits c (htext ▸ List.mem_cons_self)) rfl
    rw [htext] at hread ⊢
    simp [number?, hzero, hplus, hread]

/-- A word is no name that holds another character. -/
theorem IsWord.ne {text : List Char} (h : IsWord text) {name : String} {c : Char} (hc : c ∈ name.toList)
    (hlower : c.isLower = false) : String.ofList text ≠ name := by
  rintro rfl
  rw [String.toList_ofList] at hc
  rw [h.isLower c hc] at hlower
  cases hlower

section Read

variable {d : Document} {printable : ∀ c ∈ d.dir, IsPrintable c}

/-- The names of the fields with their values. -/
def named (fields : List Yaml.Field) : List (String × Node) :=
  fields.map fun f => (String.ofList f.key.text, f.value.node)

theorem named_append (a b : List Yaml.Field) : named (a ++ b) = named a ++ named b :=
  List.map_append

/-- A name that the config asks for is found if no other field has it. -/
theorem field_title (title : Title) (value : Yaml.Value) {before after : List Yaml.Field}
    (hothers : ∀ f ∈ before ++ after, String.ofList f.key.text ≠ title.name) :
    field (named (before ++ title.field value :: after)) title.name = .ok value.node := by
  have hne (fields : List Yaml.Field) (h : ∀ f ∈ fields, String.ofList f.key.text ≠ title.name) :
      ∀ e ∈ named fields, e.1 ≠ title.name := by
    intro e he
    obtain ⟨f, hf, rfl⟩ := List.mem_map.1 he
    exact h f hf
  refine field_eq ?_ (hne before fun f hf => hothers f (List.mem_append_left _ hf))
    (hne after fun f hf => hothers f (List.mem_append_right _ hf))
  rw [named_append]
  change named before ++ (String.ofList (title.field value).key.text, value.node) :: named after = _
  rw [Title.name_field]

/-- No line has such a name. -/
theorem lines_ne_title (title : Title) (lines : List Line) :
    ∀ f ∈ lines.map Line.field, String.ofList f.key.text ≠ title.name := by
  intro f hf
  obtain ⟨line, -, rfl⟩ := List.mem_map.1 hf
  exact line.key_isWord.ne title.mark_mem title.isLower_mark

theorem field_balancing (hothers : ∀ part ∈ d.before ++ d.after, part.name ≠ "balancing".toList) :
    field ((d.sections printable).map fun s => (String.ofList s.key.text, s.node)) "balancing" =
      .ok (d.balancing printable).node := by
  have hne (parts : List Part) (h : ∀ part ∈ parts, part.name ≠ "balancing".toList) :
      ∀ e ∈ (parts.map Part.section).map fun s => (String.ofList s.key.text, s.node), e.1 ≠ "balancing" := by
    intro e he
    simp only [List.map_map, List.mem_map, Function.comp_apply] at he
    obtain ⟨part, hpart, rfl⟩ := he
    intro heq
    have hname : part.name = "balancing".toList := by
      rw [← heq, String.toList_ofList]
      rfl
    exact h part hpart hname
  apply field_eq _ (hne d.before fun part hpart => hothers part (List.mem_append_left _ hpart))
    (hne d.after fun part hpart => hothers part (List.mem_append_right _ hpart))
  rw [Document.sections, List.map_append, List.map_cons]
  congr

theorem field_dir : field (named (d.fields printable)) "results-dir" = .ok (dirValue d.dir printable).node := by
  refine field_title Title.dir _ ?_
  simp only [List.forall_mem_append, List.forall_mem_cons]
  refine ⟨lines_ne_title _ d.above, lines_ne_title _ d.between, ?_, lines_ne_title _ d.below⟩
  rw [Title.name_field]
  decide

theorem field_count : field (named (d.fields printable)) "number_of_iterations" = .ok (countValue d.count).node := by
  rw [Document.fields, ← List.cons_append, ← List.append_assoc]
  refine field_title Title.count _ ?_
  simp only [List.forall_mem_append, List.forall_mem_cons]
  refine ⟨⟨lines_ne_title _ d.above, ?_, lines_ne_title _ d.between⟩, lines_ne_title _ d.below⟩
  rw [Title.name_field]
  decide

/-- The two settings are read from the tree, whatever stands around them. -/
theorem settings_node (hcount : Number.IsWord d.count)
    (hothers : ∀ part ∈ d.before ++ d.after, part.name ≠ "balancing".toList) :
    settings (Yaml.Outline.node (d.sections printable)) = .ok ⟨⟨String.ofList d.dir⟩, d.count⟩ := by
  have hroot (document : Node) : keyed document ((d.sections printable).map Yaml.Section.entry) =
      .ok ((d.sections printable).map fun s => (String.ofList s.key.text, s.node)) :=
    keyed_eq document Yaml.Section.key Yaml.Section.node _
  have hfields (document : Node) : keyed document ((d.fields printable).map Yaml.Field.entry) =
      .ok (named (d.fields printable)) :=
    keyed_eq document Yaml.Field.key (fun f => f.value.node) _
  have hentries : entries (Yaml.Outline.node (d.sections printable)) "the document"
      (Yaml.Outline.node (d.sections printable)) = .ok ((d.sections printable).map Yaml.Section.entry) := rfl
  have hinner (document : Node) : entries document "balancing" (d.balancing printable).node =
      .ok ((d.fields printable).map Yaml.Field.entry) := rfl
  have htext (document : Node) : text? document (dirValue d.dir printable).node = some d.dir := rfl
  have hnumber (document : Node) : count? document (countValue d.count).node = some d.count :=
    number?_toDigits hcount
  rw [settings]
  simp only [hentries, hroot, field_balancing hothers, hinner, hfields, field_dir, field_count, htext, hnumber, bind,
    Except.bind]
  rfl

end Read

/-- Reading a config undoes writing it: the simulation is the one of its directory, its number of iterations and the
first iteration, and it is refused where that one is. -/
theorem ofConfig_written (d : Document) (first : Nat) (printable : ∀ c ∈ d.dir, IsPrintable c)
    (hcount : Number.IsWord d.count) (hothers : ∀ part ∈ d.before ++ d.after, part.name ≠ "balancing".toList) :
    ofConfig (String.ofList d.written) first = ofRange ⟨String.ofList d.dir⟩ d.count first := by
  have hne : d.sections printable ≠ [] := by
    simp [Document.sections]
  have hparse := Yaml.parse_written hne
  rw [d.written_sections] at hparse
  have htext : ofText (String.ofList d.written) = .ok ⟨⟨String.ofList d.dir⟩, d.count⟩ := by
    rw [ofText, hparse]
    change (settings (Yaml.Outline.node (d.sections printable))).mapError _ = _
    rw [settings_node hcount hothers]
    rfl
  rw [ofConfig, htext]
  rfl

def seeded : Line where
  key := "seed".toList
  digits := "007".toList
  key_isWord := ⟨by decide, by decide, List.all_eq_true.1 (by decide +kernel)⟩
  digits_ne_nil := by decide
  isDigit := List.all_eq_true.1 (by decide +kernel)

def parsing : Part where
  name := "parsing".toList
  lines := [seeded]
  name_isWord := ⟨by decide, by decide, List.all_eq_true.1 (by decide +kernel)⟩
  lines_ne_nil := by decide

/-- A directory whose name holds quotes, a colon, a hash and blanks at its end. -/
def quoted : Document where
  before := [parsing]
  above := []
  dir := "it's #1: 'old'  ".toList
  between := [seeded]
  count := 3
  below := []
  after := []

theorem ofConfig_written_quoted :
    ofConfig (String.ofList quoted.written) 2 = ofRange ⟨String.ofList quoted.dir⟩ 3 2 :=
  ofConfig_written quoted 2 (by simp [quoted, IsPrintable]) (by decide) (by decide +kernel)

end WorkloadAtlas.Simulation.Config
