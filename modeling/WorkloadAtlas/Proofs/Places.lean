import WorkloadAtlas.Files.Tree
import WorkloadAtlas.Proofs.Columns
/-!
What a write does to a tree. A file is put at one place and nothing else changes; in particular all directories stay,
so that walks end where they ended before. A path that is a name below a directory is written at that name below the
place of the directory, however the path of the directory is spelled.
-/

namespace WorkloadAtlas.Files.Tree

/-- A name that walks take literally. -/
structure IsName (name : String) : Prop where
  ne_empty : name ≠ ""
  ne_here : name ≠ "."
  ne_above : name ≠ ".."
  no_separator : '/' ∉ name.toList

section Insert

variable (tree : Tree) (key : Key) (entry : Entry)

theorem lookup_filter {other : Key} (h : other ≠ key) (entries : List (Key × Entry)) :
    (entries.filter (·.1 != key)).lookup other = entries.lookup other := by
  induction entries with
  | nil => rfl
  | cons first rest ih =>
    obtain ⟨k, e⟩ := first
    by_cases hk : k = key
    · have hne : (other == k) = false := beq_false_of_ne (fun heq => h (heq.trans hk))
      simp only [List.filter_cons, hk, bne_self_eq_false, Bool.false_eq_true, ↓reduceIte, ih]
      rw [← hk, List.lookup_cons, hne]
    · simp only [List.filter_cons, bne_iff_ne.2 hk, ↓reduceIte, List.lookup_cons, ih]

theorem get?_insert (other : Key) :
    (tree.insert key entry).get? other =
      if isGround other then some .directory else if other = key then some entry else tree.get? other := by
  unfold get? insert
  by_cases hground : isGround other = true
  · simp only [hground, ↓reduceIte]
  · simp only [hground, Bool.false_eq_true, ↓reduceIte]
    by_cases h : other = key
    · simp only [h, List.lookup_cons, BEq.rfl, ↓reduceIte]
    · have hne : (other == key) = false := beq_false_of_ne h
      simp only [h, ↓reduceIte, List.lookup_cons, hne, lookup_filter key h]

theorem get?_insert_of_ne {other : Key} (h : other ≠ key) : (tree.insert key entry).get? other = tree.get? other := by
  rw [get?_insert, if_neg h]
  split
  · next hground => rw [get?, if_pos hground]
  · rfl

theorem get?_insert_self (h : isGround key = false) : (tree.insert key entry).get? key = some entry := by
  rw [get?_insert, h]
  simp only [Bool.false_eq_true, ↓reduceIte]

theorem isGround_append {name : String} (h : IsName name) (place : Key) : isGround (place ++ [name]) = false := by
  unfold isGround
  have habove : (name == "..") = false := beq_false_of_ne h.ne_above
  have hroot : place ++ [name] ≠ ["/"] := by
    intro heq
    have hlast := congrArg List.getLast? heq
    simp only [List.getLast?_append, List.getLast?_singleton, Option.some_or, Option.some.injEq] at hlast
    apply h.no_separator
    rw [hlast]
    decide
  rw [List.all_append, List.all_cons, habove, beq_false_of_ne hroot]
  simp only [Bool.false_and, Bool.and_false, Bool.or_false]

/-- The name of a key right below a place. -/
theorem name_below_iff {key place : Key} {name : String} :
    (if key.dropLast == place && key != place then key.getLast? else none) = some name ↔ key = place ++ [name] := by
  constructor
  · intro h
    split at h
    · next hbelow =>
      rw [Bool.and_eq_true, beq_iff_eq] at hbelow
      obtain ⟨front, rfl⟩ := List.getLast?_eq_some_iff.1 h
      rw [← hbelow.1, List.dropLast_concat]
    · cases h
  · rintro rfl
    have hne : (place ++ [name] != place) = true := by
      rw [bne_iff_ne]
      intro heq
      have hlength := congrArg List.length heq
      rw [List.length_append, List.length_singleton] at hlength
      omega
    rw [List.dropLast_concat, BEq.rfl, hne, List.getLast?_concat]
    rfl

theorem mem_below_of_get? {tree : Tree} {place : Key} {name : String} {entry : Entry} (h : IsName name)
    (hget : tree.get? (place ++ [name]) = some entry) : name ∈ tree.below place := by
  rw [get?, isGround_append h place] at hget
  obtain ⟨before, after, hentries, -⟩ := List.lookup_eq_some_iff.1 hget
  unfold below
  rw [hentries, List.mem_filterMap]
  exact ⟨(place ++ [name], entry), List.mem_append_right _ List.mem_cons_self, name_below_iff.2 rfl⟩

theorem below_insert (place : Key) (name : String) :
    (tree.insert (place ++ [name]) entry).below place = name :: (tree.below place).filter (· != name) := by
  have hfirst : (if (place ++ [name]).dropLast == place && place ++ [name] != place then (place ++ [name]).getLast?
      else none) = some name := name_below_iff.2 rfl
  unfold below insert
  simp only [List.filterMap_cons, hfirst, List.filterMap_filter, List.filter_filterMap]
  congr 2
  funext first
  generalize hother : (if first.1.dropLast == place && first.1 != place then first.1.getLast? else none) = found
  cases found with
  | none => exact ite_self none
  | some other =>
    rw [name_below_iff.1 hother]
    by_cases h : other = name
    · simp only [h, bne_self_eq_false, Bool.false_eq_true, ↓reduceIte, Option.filter_some]
    · have hkeep : (place ++ [other] != place ++ [name]) = true := by
        rw [bne_iff_ne]
        intro heq
        exact h (List.singleton_inj.1 (List.append_cancel_left heq))
      simp only [hkeep, bne_iff_ne.2 h, ↓reduceIte, Option.filter_some]

end Insert

/-- All directories of a tree stay. -/
def Keeps (tree tree' : Tree) : Prop :=
  ∀ key, tree.get? key = some .directory → tree'.get? key = some .directory

theorem keeps_insert {tree : Tree} {key : Key} (content : Document) (h : tree.get? key ≠ some .directory) :
    Keeps tree (tree.insert key (.file content)) := by
  intro other hother
  rw [get?_insert_of_ne]
  · exact hother
  · rintro rfl
    exact h hother

theorem Keeps.trans {first second third : Tree} (h : Keeps first second) (h' : Keeps second third) : Keeps first third :=
  fun key hkey => h' key (h key hkey)

/-- A file makes no new directory. -/
theorem keeps_of_insert (tree : Tree) (key : Key) (content : Document) :
    Keeps (tree.insert key (.file content)) tree := by
  intro other hother
  rw [get?_insert] at hother
  split at hother
  · next hground => rw [get?, if_pos hground]
  · split at hother
    · cases hother
    · exact hother

/-- All that stands in a tree stays. -/
def Extends (tree tree' : Tree) : Prop :=
  ∀ key entry, tree.get? key = some entry → tree'.get? key = some entry

theorem Extends.keeps {tree tree' : Tree} (h : Extends tree tree') : Keeps tree tree' :=
  fun key hkey => h key .directory hkey

section Walk

variable {tree tree' : Tree} {key place : Key}

/-- The place that a name leads to from another one. -/
def turn (key : Key) (name : String) : Except Error Key :=
  if name = "" ∨ name = "." then .ok key
  else if name = ".." then .ok (parent key)
  else if nameLimit < name.utf8ByteSize then .error .nameTooLong
  else .ok (key ++ [name])

theorem walk_cons_of_directory {name : String} (rest : List String) (hkey : tree.get? key = some .directory) :
    tree.walk key (name :: rest) = (turn key name).bind fun next => tree.walk next rest := by
  rw [walk, hkey]
  unfold turn
  by_cases hhere : name = "" ∨ name = "."
  · simp only [hhere, ↓reduceIte, Except.bind]
  · by_cases habove : name = ".."
    · rw [if_neg hhere, if_pos habove, if_neg hhere, if_pos habove]
      rfl
    · by_cases hlong : nameLimit < name.utf8ByteSize
      · simp only [hhere, habove, hlong, ↓reduceIte, Except.bind]
      · simp only [hhere, habove, hlong, ↓reduceIte, Except.bind]

theorem walk_cons_eq_ok_iff {name : String} {rest : List String} :
    tree.walk key (name :: rest) = .ok place ↔
      tree.get? key = some .directory ∧ ∃ next, turn key name = .ok next ∧ tree.walk next rest = .ok place := by
  constructor
  · intro h
    have hkey : tree.get? key = some .directory := by
      rw [walk] at h
      split at h
      · cases h
      · cases h
      · assumption
    rw [walk_cons_of_directory rest hkey] at h
    cases hturn : turn key name with
    | error error =>
      rw [hturn] at h
      cases h
    | ok next =>
      rw [hturn] at h
      exact ⟨hkey, next, rfl, h⟩
  · rintro ⟨hkey, next, hturn, hrest⟩
    rw [walk_cons_of_directory rest hkey, hturn]
    exact hrest

theorem walk_append_eq_ok_iff {first second : List String} :
    tree.walk key (first ++ second) = .ok place ↔
      ∃ middle, tree.walk key first = .ok middle ∧ tree.walk middle second = .ok place := by
  induction first generalizing key with
  | nil =>
    constructor
    · intro h
      exact ⟨key, rfl, h⟩
    · rintro ⟨middle, hmiddle, h⟩
      cases hmiddle
      exact h
  | cons name rest ih =>
    rw [List.cons_append]
    simp only [walk_cons_eq_ok_iff, ih]
    constructor
    · rintro ⟨hkey, next, hturn, middle, hmiddle, h⟩
      exact ⟨middle, ⟨hkey, next, hturn, hmiddle⟩, h⟩
    · rintro ⟨middle, ⟨hkey, next, hturn, hmiddle⟩, h⟩
      exact ⟨hkey, next, hturn, middle, hmiddle, h⟩

theorem Keeps.walk (h : Keeps tree tree') {names : List String} (hwalk : tree.walk key names = .ok place) :
    tree'.walk key names = .ok place := by
  induction names generalizing key with
  | nil => exact hwalk
  | cons name rest ih =>
    obtain ⟨hkey, next, hturn, hrest⟩ := walk_cons_eq_ok_iff.1 hwalk
    exact walk_cons_eq_ok_iff.2 ⟨h key hkey, next, hturn, ih hrest⟩

theorem find_eq_ok_iff {tree : Tree} {path : Path} {key : Key} {entry : Entry} :
    tree.find path = .ok (key, entry) ↔
      check path = .ok () ∧ tree.walk (start path) (names path) = .ok key ∧ tree.get? key = some entry := by
  unfold find
  constructor
  · intro h
    obtain ⟨u, hcheck, h⟩ := Table.bind_eq_ok h
    obtain ⟨place, hwalk, h⟩ := Table.bind_eq_ok h
    refine ⟨hcheck, ?_⟩
    split at h
    · cases h
    · next found hplace =>
      cases h
      exact ⟨hwalk, hplace⟩
  · rintro ⟨hcheck, hwalk, hentry⟩
    rw [hcheck, hwalk]
    simp only [bind, Except.bind, hentry]

theorem Extends.find (h : Extends tree tree') {path : Path} {entry : Entry} (hfind : tree.find path = .ok (key, entry)) :
    tree'.find path = .ok (key, entry) := by
  obtain ⟨hcheck, hwalk, hentry⟩ := find_eq_ok_iff.1 hfind
  exact find_eq_ok_iff.2 ⟨hcheck, h.keeps.walk hwalk, h key entry hentry⟩

theorem Extends.isFile (h : Extends tree tree') {path : Path} (hfile : tree.isFile path = true) :
    tree'.isFile path = true := by
  unfold Tree.isFile at hfile ⊢
  split at hfile
  · next hfind => rw [h.find hfind]
  · cases hfile

theorem Extends.read (h : Extends tree tree') {path : Path} {content : Document}
    (hread : tree.read path = .ok content) : tree'.read path = .ok content := by
  unfold Tree.read at hread ⊢
  obtain ⟨⟨key, entry⟩, hfind, hread⟩ := Table.bind_eq_ok hread
  rw [h.find hfind]
  exact hread

theorem turn_name {name : String} (h : IsName name) (hlength : name.utf8ByteSize ≤ nameLimit) (key : Key) :
    turn key name = .ok (key ++ [name]) := by
  simp only [turn, h.ne_empty, h.ne_here, h.ne_above, or_self, ↓reduceIte, Nat.not_lt.2 hlength]

/-- An empty name asks for a directory and leads nowhere else. -/
theorem walk_empty_name_iff : tree.walk key [""] = .ok place ↔ tree.get? key = some .directory ∧ place = key := by
  rw [walk_cons_eq_ok_iff]
  constructor
  · rintro ⟨hkey, next, hturn, hplace⟩
    cases hturn
    cases hplace
    exact ⟨hkey, rfl⟩
  · rintro ⟨hkey, rfl⟩
    exact ⟨hkey, _, rfl, rfl⟩

end Walk

section Write

variable {tree tree' : Tree} {path : Path} {content : Document}

theorem not_mem_of_mem_splitOn {a : Char} {text part : List Char} (h : part ∈ text.splitOn a) : a ∉ part := by
  induction text generalizing part with
  | nil =>
    rw [List.splitOn_nil, List.mem_singleton] at h
    subst h
    exact List.not_mem_nil
  | cons c rest ih =>
    rw [List.splitOn_cons_eq_if_modifyHead] at h
    split at h
    · rcases List.mem_cons.1 h with rfl | h
      · exact List.not_mem_nil
      · exact ih h
    · next hc =>
      cases hrest : rest.splitOn a with
      | nil => exact absurd hrest (List.splitOn_ne_nil a rest)
      | cons first others =>
        rw [hrest] at h ih
        rcases List.mem_cons.1 h with rfl | h
        · have hfirst := ih List.mem_cons_self
          rw [List.mem_cons, not_or]
          refine ⟨?_, hfirst⟩
          rintro rfl
          exact hc BEq.rfl
        · exact ih (List.mem_cons_of_mem _ h)

theorem not_mem_of_mem_names {path : Path} {name : String} (h : name ∈ names path) : '/' ∉ name.toList := by
  obtain ⟨part, hpart, rfl⟩ := List.mem_map.1 h
  rw [String.toList_ofList]
  exact not_mem_of_mem_splitOn hpart

theorem concat_getLastD {names : List String} (h : names.getLastD "" ≠ "") :
    names.dropLast ++ [names.getLastD ""] = names := by
  rcases List.eq_nil_or_concat names with rfl | ⟨front, last, rfl⟩
  · exact absurd rfl h
  · rw [List.concat_eq_append, List.dropLast_concat, List.getLastD_concat]

/-- All that a write does if it succeeds. -/
theorem write_eq_ok (h : tree.write path content = .ok tree') :
    ∃ front name place, names path = front ++ [name] ∧ IsName name ∧ name.utf8ByteSize ≤ nameLimit ∧
      check path = .ok () ∧ tree.walk (start path) front = .ok place ∧ tree.get? place = some .directory ∧
      tree.get? (place ++ [name]) ≠ some .directory ∧ tree' = tree.insert (place ++ [name]) (.file content) := by
  unfold write at h
  obtain ⟨u, hcheck, h⟩ := Table.bind_eq_ok h
  obtain ⟨place, hwalk, h⟩ := Table.bind_eq_ok h
  split at h
  · cases h
  · cases h
  · next hplace =>
    dsimp only at h
    split at h
    · cases h
    · next hname =>
      split at h
      · cases h
      · next hlength =>
        split at h
        · cases h
        · next hfree =>
          cases h
          rw [not_or, not_or] at hname
          have hnames := concat_getLastD hname.1
          have hmem : (names path).getLastD "" ∈ names path := by
            rw [← hnames, List.getLastD_concat]
            exact List.mem_append_right _ List.mem_cons_self
          exact ⟨_, _, place, hnames.symm, ⟨hname.1, hname.2.1, hname.2.2, not_mem_of_mem_names hmem⟩,
            Nat.not_lt.1 hlength, hcheck, hwalk, hplace, hfree, rfl⟩

/-- A write succeeds if its directory is there and has room for a file of the name. -/
theorem write_of_room {tree : Tree} {path : Path} {front : List String} {name : String} {place : Key} (h : IsName name)
    (content : Document) (hnames : names path = front ++ [name]) (hcheck : check path = .ok ())
    (hwalk : tree.walk (start path) front = .ok place) (hplace : tree.get? place = some .directory)
    (hlength : name.utf8ByteSize ≤ nameLimit) (hfree : tree.get? (place ++ [name]) ≠ some .directory) :
    tree.write path content = .ok (tree.insert (place ++ [name]) (.file content)) := by
  have hlast : (front ++ [name]).getLastD "" = name := List.getLastD_concat ..
  unfold write
  rw [hcheck, hnames, List.dropLast_concat, hwalk, hlast]
  simp only [bind, Except.bind, hplace, h.ne_empty, h.ne_here, h.ne_above, or_self, ↓reduceIte,
    Nat.not_lt.2 hlength]

/-- What is written is read back. -/
theorem read_write (h : tree.write path content = .ok tree') : tree'.read path = .ok content := by
  obtain ⟨front, name, place, hnames, hname, hlength, hcheck, hwalk, hplace, hfree, rfl⟩ := write_eq_ok h
  have hkeeps := keeps_insert content hfree
  have hfind : (tree.insert (place ++ [name]) (.file content)).find path = .ok (place ++ [name], .file content) := by
    refine find_eq_ok_iff.2 ⟨hcheck, ?_, get?_insert_self _ _ _ (isGround_append hname place)⟩
    rw [hnames, walk_append_eq_ok_iff]
    refine ⟨place, hkeeps.walk hwalk, ?_⟩
    rw [walk_cons_eq_ok_iff]
    exact ⟨hkeeps place hplace, place ++ [name], turn_name hname hlength place, rfl⟩
  unfold read
  rw [hfind]
  rfl

end Write

section Join

variable {name : String}

theorem names_text (text : String) : names ⟨text⟩ = (text.toList.splitOn '/').map String.ofList :=
  rfl

theorem map_splitOn_of_name (h : IsName name) : (name.toList.splitOn '/').map String.ofList = [name] := by
  rw [List.splitOn_eq_singleton h.no_separator, List.map_singleton, String.ofList_toList]

/-- A name below a directory: its path ends in it, and what stands before it in the path leads where the path of the
directory leads. An empty name at the end of that path is dropped. -/
theorem names_join (h : IsName name) (d : Path) :
    start (d.join ⟨name⟩) = start d ∧ ∃ front, names (d.join ⟨name⟩) = front ++ [name] ∧
      (names d = front ∨ names d = front ++ [""]) := by
  have hrelative : Path.isAbsolute ⟨name⟩ = false := by
    unfold Path.isAbsolute
    cases hname : name.toList with
    | nil => rfl
    | cons c rest =>
      rw [List.head?_cons, beq_eq_false_iff_ne]
      intro hc
      apply h.no_separator
      rw [hname, ← Option.some.inj hc]
      exact List.mem_cons_self
  unfold Path.join
  rw [hrelative, Bool.false_or]
  split
  · next hempty =>
    have htext : d.text = "" := String.isEmpty_iff.1 hempty
    refine ⟨?_, [], map_splitOn_of_name h, .inr ?_⟩
    · unfold start
      rw [hrelative]
      unfold Path.isAbsolute
      rw [htext]
      rfl
    · unfold names
      rw [htext]
      rfl
  · next hnonempty =>
    have hstart (rest : String) : start ⟨d.text ++ rest⟩ = start d := by
      have hne : d.text.toList ≠ [] := by
        intro hnil
        exact hnonempty (String.isEmpty_iff.2 (String.toList_eq_nil_iff.1 hnil))
      unfold start Path.isAbsolute
      rw [String.toList_append, List.head?_append, List.head?_eq_some_head hne, Option.some_or]
    split
    · next hopen =>
      obtain ⟨front, hfront⟩ := List.getLast?_eq_some_iff.1 (beq_iff_eq.1 hopen)
      refine ⟨hstart name, (front.splitOn '/').map String.ofList, ?_, .inr ?_⟩
      · rw [names_text, String.toList_append, hfront, List.append_assoc, List.singleton_append,
          List.splitOn_append_cons_self, List.map_append, map_splitOn_of_name h]
      · unfold names
        rw [hfront, List.splitOn_append_cons_self, List.map_append]
        rfl
    · refine ⟨?_, names d, ?_, .inl rfl⟩
      · rw [String.append_assoc]
        exact hstart _
      · have hseparator : "/".toList = ['/'] := rfl
        rw [names_text, String.toList_append, String.toList_append, hseparator, List.append_assoc,
          List.singleton_append, List.splitOn_append_cons_self, List.map_append, map_splitOn_of_name h]
        rfl

/-- A name below a directory is written at that name below the place of the directory, and never over a directory. -/
theorem write_join {tree tree' : Tree} (h : IsName name) {d : Path} {content : Document}
    (hwrite : tree.write (d.join ⟨name⟩) content = .ok tree') :
    ∃ place, tree.walk (start d) (names d) = .ok place ∧ tree.get? place = some .directory ∧
      tree.get? (place ++ [name]) ≠ some .directory ∧ tree' = tree.insert (place ++ [name]) (.file content) := by
  obtain ⟨hstart, front, hjoin, hnames⟩ := names_join h d
  obtain ⟨front', name', place, hends, -, -, -, hwalk, hplace, hfree, rfl⟩ := write_eq_ok hwrite
  obtain ⟨rfl, hlast⟩ := List.append_inj' (hjoin.symm.trans hends) rfl
  cases hlast
  rw [hstart] at hwalk
  refine ⟨place, ?_, hplace, hfree, rfl⟩
  rcases hnames with hnames | hnames
  · rw [hnames]
    exact hwalk
  · rw [hnames, walk_append_eq_ok_iff]
    exact ⟨place, hwalk, walk_empty_name_iff.2 ⟨hplace, rfl⟩⟩

/-- A write below a directory succeeds if the path can be walked, the name is not too long and no directory has it. -/
theorem write_join_of_room {tree : Tree} (h : IsName name) {d : Path} {place : Key} (content : Document)
    (hcheck : check (d.join ⟨name⟩) = .ok ()) (hwalk : tree.walk (start d) (names d) = .ok place)
    (hplace : tree.get? place = some .directory) (hlength : name.utf8ByteSize ≤ nameLimit)
    (hfree : tree.get? (place ++ [name]) ≠ some .directory) :
    tree.write (d.join ⟨name⟩) content = .ok (tree.insert (place ++ [name]) (.file content)) := by
  obtain ⟨hstart, front, hjoin, hnames⟩ := names_join h d
  have hfront : tree.walk (start d) front = .ok place := by
    rcases hnames with hnames | hnames
    · rw [hnames] at hwalk
      exact hwalk
    · rw [hnames, walk_append_eq_ok_iff] at hwalk
      obtain ⟨middle, hmiddle, hempty⟩ := hwalk
      rw [(walk_empty_name_iff.1 hempty).2]
      exact hmiddle
  exact write_of_room h content hjoin hcheck (hstart ▸ hfront) hplace hlength hfree

end Join

end WorkloadAtlas.Files.Tree
