import WorkloadAtlas.Plot.Gallery
import WorkloadAtlas.Proofs.Endpoints
import WorkloadAtlas.Proofs.Places
import WorkloadAtlas.Workspace
/-!
The files that drawings are put in. Each figure has a file name of its own below the directory of the gallery: the two
overviews have a fixed name, and the name of any other figure starts with the number of its iteration. To draw a figure
either leaves all files alone or writes that one file.
-/

namespace WorkloadAtlas.Plot.Gallery

open Files (Tree)

def iterationLabel (iteration : Nat) (kind : Figure.Single) : String :=
  s!"{iteration}_{fileName kind}.svg"

/-- The name of the file of a figure. -/
def label : Figure → String
  | .allSorted _ => "all_sorted_workloads.svg"
  | .allBoxplots _ => "all_boxplot_workloads.svg"
  | .single kind state => iterationLabel (state.iteration?.getD 0) kind

/-- The names of the files of all figures of a run. -/
def fileNames (sim : Simulation) : List String :=
  ["all_sorted_workloads.svg", "all_boxplot_workloads.svg"] ++
    sim.iterations.flatMap fun i => (Figure.kinds (sim.first < i)).map (iterationLabel i)

theorem iterationLabel_eq (iteration : Nat) (kind : Figure.Single) :
    iterationLabel iteration kind = toString iteration ++ ("_" ++ fileName kind ++ ".svg") := by
  rw [← String.append_assoc, ← String.append_assoc]
  rfl

theorem toList_iterationLabel (iteration : Nat) (kind : Figure.Single) :
    (iterationLabel iteration kind).toList =
      Nat.toDigits 10 iteration ++ '_' :: ((fileName kind).toList ++ ".svg".toList) := by
  have hdigits : (toString iteration).toList = Nat.toDigits 10 iteration := Nat.toList_repr
  have hmark : "_".toList = ['_'] := rfl
  rw [iterationLabel_eq, String.toList_append, String.toList_append, String.toList_append, hdigits, hmark,
    List.append_assoc, List.singleton_append]

theorem not_mem_toDigits {c : Char} (h : c.isDigit = false) (n : Nat) : c ∉ Nat.toDigits 10 n := by
  intro hmem
  have hdigit := Nat.isDigit_of_mem_toDigits (by decide) (by decide) hmem
  rw [h] at hdigit
  cases hdigit

theorem takeWhile_toDigits (n : Nat) (rest : List Char) :
    (Nat.toDigits 10 n ++ '_' :: rest).takeWhile Char.isDigit = Nat.toDigits 10 n := by
  have hdigits : ∀ c ∈ Nat.toDigits 10 n, c.isDigit = true := by
    intro c hc
    exact Nat.isDigit_of_mem_toDigits (by decide) (by decide) hc
  have hmark : ('_' :: rest).takeWhile Char.isDigit = [] := rfl
  rw [List.takeWhile_append_of_pos hdigits, hmark, List.append_nil]

/-- The digits at the front of a name end at its first mark, so they tell the iteration. -/
theorem iterationLabel_inj {i j : Nat} {kind kind' : Figure.Single}
    (h : iterationLabel i kind = iterationLabel j kind') : i = j ∧ kind = kind' := by
  have hlist := congrArg String.toList h
  rw [toList_iterationLabel, toList_iterationLabel] at hlist
  have hdigits := congrArg (List.takeWhile Char.isDigit) hlist
  rw [takeWhile_toDigits, takeWhile_toDigits] at hdigits
  have hiteration : i = j := by
    have hvalue := congrArg (Nat.ofDigitChars 10 · 0) hdigits
    rwa [Nat.ofDigitChars_ten_toDigits, Nat.ofDigitChars_ten_toDigits] at hvalue
  refine ⟨hiteration, ?_⟩
  rw [hdigits] at hlist
  have hname := (List.cons.inj (List.append_cancel_left hlist)).2
  have hnames := String.toList_inj.1 (List.append_cancel_right hname)
  revert hnames
  cases kind <;> cases kind' <;> decide

theorem isName_of_mark {name : String} (hmark : '_' ∈ name.toList) (hseparator : '/' ∉ name.toList) :
    Tree.IsName name := by
  have hne {other : String} (h : '_' ∉ other.toList) : name ≠ other := by
    rintro rfl
    exact h hmark
  exact ⟨hne (by decide), hne (by decide), hne (by decide), hseparator⟩

theorem isName_label (figure : Figure) : Tree.IsName (label figure) := by
  cases figure with
  | allSorted samples =>
    have hmark : '_' ∈ "all_sorted_workloads.svg".toList := by decide
    have hseparator : '/' ∉ "all_sorted_workloads.svg".toList := by decide
    exact isName_of_mark hmark hseparator
  | allBoxplots samples =>
    have hmark : '_' ∈ "all_boxplot_workloads.svg".toList := by decide
    have hseparator : '/' ∉ "all_boxplot_workloads.svg".toList := by decide
    exact isName_of_mark hmark hseparator
  | single kind state =>
    have hname : '/' ∉ (fileName kind).toList := by cases kind <;> decide
    apply isName_of_mark
    · rw [label, toList_iterationLabel]
      exact List.mem_append_right _ List.mem_cons_self
    · rw [label, toList_iterationLabel, List.mem_append, List.mem_cons, List.mem_append]
      rintro (hdigits | hmark | hkind | hend)
      · exact not_mem_toDigits rfl _ hdigits
      · cases hmark
      · exact hname hkind
      · revert hend
        decide

theorem label_overviews {sim : Simulation} {samples : List Loaded} {figure : Figure}
    (h : figure ∈ Figure.overviews samples) : label figure ∈ fileNames sim := by
  apply List.mem_append_left
  rcases List.mem_cons.1 h with rfl | h
  · exact List.mem_cons_self
  · rw [List.mem_singleton.1 h]
    exact List.mem_cons_of_mem _ List.mem_cons_self

theorem label_ofState {sim : Simulation} {state : Progress} {i : Nat} (hi : i ∈ sim.iterations)
    (hiteration : state.iteration? = some i) (hprevious : state.hasPrevious = decide (sim.first < i)) {figure : Figure}
    (h : figure ∈ Figure.ofState state) : label figure ∈ fileNames sim := by
  obtain ⟨kind, hkind, rfl⟩ := List.mem_map.1 h
  apply List.mem_append_right
  rw [List.mem_flatMap]
  refine ⟨i, hi, ?_⟩
  rw [label, hiteration, Option.getD_some, ← hprevious]
  exact List.mem_map_of_mem hkind

theorem sheet_path {g : Gallery} {sim : Simulation} {figure : Figure} {sheet : Sheet}
    (h : g.sheet sim figure = .ok sheet) : sheet.path = g.directory.join ⟨label figure⟩ := by
  cases figure with
  | allSorted samples =>
    cases h
    rfl
  | allBoxplots samples =>
    obtain ⟨misfit, -, h⟩ := Table.bind_eq_ok h
    cases misfit with
    | some iteration => cases h
    | none =>
      obtain ⟨iterations, -, h⟩ := Table.bind_eq_ok h
      cases h
      rfl
  | single kind state =>
    obtain ⟨now, hnow, h⟩ := Table.bind_eq_ok h
    obtain ⟨chart, -, h⟩ := Table.bind_eq_ok h
    cases h
    have hiteration : state.iteration?.getD 0 = now.iteration := by
      unfold Progress.now at hnow
      unfold Progress.iteration?
      cases hnow? : state.now? with
      | none =>
        rw [hnow?] at hnow
        cases hnow
      | some other =>
        rw [hnow?] at hnow
        cases hnow
        rfl
    rw [label, hiteration]
    rfl

/-- All that drawing a figure can do to the files. -/
inductive Hung (g : Gallery) (figure : Figure) (tree : Tree) : Except Failure Unit → Tree → Prop
  | failed (failure : Failure) : Hung g figure tree (.error failure) tree
  | written (place : Files.Key) (drawing : Drawing) :
      tree.walk (Tree.start g.directory) (Tree.names g.directory) = .ok place →
      tree.get? (place ++ [label figure]) ≠ some .directory →
      Hung g figure tree (.ok ()) (tree.insert (place ++ [label figure]) (.file (.drawing drawing)))

theorem hang_of_write_ok {sheet : Sheet} {w : Workspace} {files : Tree}
    (h : w.files.write sheet.path (.drawing sheet.drawing) = .ok files) :
    ∃ w', (hang sheet : Desk (Except Failure Unit)) w = (.ok (), w') ∧ w'.files = files := by
  simp only [hang, bind, StateT.bind, Host.debug, Host.log, Host.write, h]
  exact ⟨_, rfl, rfl⟩

theorem hang_of_write_error {sheet : Sheet} {w : Workspace} {error : Files.Error}
    (h : w.files.write sheet.path (.drawing sheet.drawing) = .error error) :
    ∃ failure w', (hang sheet : Desk (Except Failure Unit)) w = (.error failure, w') ∧ w'.files = w.files := by
  simp only [hang, bind, StateT.bind, Host.debug, Host.log, Host.write, h]
  exact ⟨_, _, rfl, rfl⟩

theorem hung_draw (g : Gallery) (sim : Simulation) (figure : Figure) (w : Workspace) :
    Hung g figure w.files ((g.draw sim figure : Desk (Except Failure Unit)) w).1
      ((g.draw sim figure : Desk (Except Failure Unit)) w).2.files := by
  cases hsheet : g.sheet sim figure with
  | error failure =>
    have hdraw : (g.draw sim figure : Desk (Except Failure Unit)) w = (.error failure, w) := by
      rw [draw, hsheet]
      rfl
    rw [hdraw]
    exact .failed failure
  | ok sheet =>
    have hdraw : (g.draw sim figure : Desk (Except Failure Unit)) w = (hang sheet : Desk _) w := by
      rw [draw, hsheet]
    rw [hdraw]
    cases hwrite : w.files.write sheet.path (.drawing sheet.drawing) with
    | error error =>
      obtain ⟨failure, w', hhang, hfiles⟩ := hang_of_write_error hwrite
      rw [hhang, hfiles]
      exact .failed failure
    | ok files =>
      obtain ⟨w', hhang, hfiles⟩ := hang_of_write_ok hwrite
      rw [sheet_path hsheet] at hwrite
      obtain ⟨place, hwalk, -, hfree, rfl⟩ := Tree.write_join (isName_label figure) hwrite
      rw [hhang, hfiles]
      exact .written place sheet.drawing hwalk hfree

/-- What a figure needs to be drawn: its data are there, and its name fits below the directory of the gallery. -/
structure Drawable (g : Gallery) (sim : Simulation) (figure : Figure) : Prop where
  sheet : ∃ sheet, g.sheet sim figure = .ok sheet
  check : Tree.check (g.directory.join ⟨label figure⟩) = .ok ()
  length : (label figure).utf8ByteSize ≤ Tree.nameLimit

theorem Drawable.draw {g : Gallery} {sim : Simulation} {figure : Figure} (h : Drawable g sim figure)
    {w : Workspace} {place : Files.Key}
    (hwalk : w.files.walk (Tree.start g.directory) (Tree.names g.directory) = .ok place)
    (hplace : w.files.get? place = some .directory)
    (hfree : w.files.get? (place ++ [label figure]) ≠ some .directory) :
    ∃ w' content, (g.draw sim figure : Desk (Except Failure Unit)) w = (.ok (), w') ∧
      w'.files = w.files.insert (place ++ [label figure]) (.file content) := by
  obtain ⟨sheet, hsheet⟩ := h.sheet
  have hwrite := Tree.write_join_of_room (isName_label figure) (.drawing sheet.drawing) h.check hwalk hplace h.length
    hfree
  rw [← sheet_path hsheet] at hwrite
  obtain ⟨w', hhang, hfiles⟩ := hang_of_write_ok hwrite
  refine ⟨w', .drawing sheet.drawing, ?_, hfiles⟩
  rw [Gallery.draw, hsheet]
  exact hhang

end WorkloadAtlas.Plot.Gallery
