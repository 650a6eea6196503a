import Mathlib
import WorkloadAtlas.Program
import WorkloadAtlas.Proofs.Sheets
/-!
Where the workloads of an iteration are looked for. A file that is named from the directory of the iteration lies below
that directory, so no two iterations share it. A file that is named from the root is the same one for all of them.
-/

namespace WorkloadAtlas

namespace Path

/-- What a further component needs in front of it. -/
def gap (dir : Path) : String :=
  if dir.text.isEmpty || dir.endsOpen then "" else "/"

variable {dir file : Path}

theorem text_join (hfile : file.isAbsolute = false) : (dir.join file).text = dir.text ++ dir.gap ++ file.text := by
  rw [join, gap, hfile, Bool.false_or]
  by_cases hempty : dir.text.isEmpty = true
  · have hnone : dir.text = "" := String.isEmpty_iff.1 hempty
    rw [if_pos hempty, hempty, Bool.true_or, if_pos rfl, hnone, String.append_empty, String.empty_append]
  · rw [if_neg hempty, Bool.eq_false_iff.2 hempty, Bool.false_or]
    split
    · rw [String.append_empty]
    · rfl

theorem join_of_absolute (hfile : file.isAbsolute = true) : dir.join file = file := by
  rw [join, hfile, Bool.true_or, if_pos rfl]

end Path

namespace Simulation

theorem toList_toString (i : Nat) : (toString i).toList = Nat.toDigits 10 i :=
  Nat.toList_repr

/-- A number begins and ends with a digit, so it is neither absolute nor open. -/
theorem isAbsolute_number (i : Nat) : (Path.mk (toString i)).isAbsolute = false := by
  rw [Path.isAbsolute, toList_toString, beq_eq_false_iff_ne]
  intro hhead
  exact Plot.Gallery.not_mem_toDigits rfl i (List.mem_of_mem_head? hhead)

variable (sim : Simulation)

theorem text_iterationDir (i : Nat) :
    (sim.iterationDir i).text = sim.resultsDir.text ++ sim.resultsDir.gap ++ toString i :=
  Path.text_join (isAbsolute_number i)

theorem gap_iterationDir (i : Nat) : (sim.iterationDir i).gap = "/" := by
  have hdigits : (sim.iterationDir i).text.toList =
      (sim.resultsDir.text ++ sim.resultsDir.gap).toList ++ Nat.toDigits 10 i := by
    rw [text_iterationDir, String.toList_append, toList_toString]
  have hempty : (sim.iterationDir i).text.isEmpty = false := by
    rw [← Bool.not_eq_true, String.isEmpty_iff]
    intro hnone
    rw [hnone] at hdigits
    exact Nat.toDigits_ne_nil (List.append_eq_nil_iff.1 hdigits.symm).2
  have hopen : (sim.iterationDir i).endsOpen = false := by
    rw [Path.endsOpen, hdigits, List.getLast?_append_of_ne_nil _ Nat.toDigits_ne_nil, beq_eq_false_iff_ne]
    intro hlast
    exact Plot.Gallery.not_mem_toDigits rfl i (List.mem_of_mem_getLast? hlast)
  rw [Path.gap, hempty, hopen]
  rfl

theorem iterationDir_inj {i j : Nat} (h : (sim.iterationDir i).text = (sim.iterationDir j).text) : i = j := by
  rw [text_iterationDir, text_iterationDir, String.append_right_inj] at h
  exact Nat.repr_inj.1 h

end Simulation

namespace Workloads.Layout

/-- The workloads of an iteration lie at the file of the layout, seen from the directory of the iteration. Unless that
file is absolute, the path is the directory, one separator and the file; an absolute file is the path of every
iteration. So two iterations never have one path exactly if the file is not absolute. -/
theorem path_by_iteration (layout : Layout) (sim : Simulation) :
    (∀ i, (layout.path sim i).text =
      if layout.file.isAbsolute then layout.file.text else (sim.iterationDir i).text ++ "/" ++ layout.file.text) ∧
    ((∀ i j, i ≠ j → (layout.path sim i).text ≠ (layout.path sim j).text) ↔ layout.file.isAbsolute = false) := by
  have htext (i : Nat) : (layout.path sim i).text =
      if layout.file.isAbsolute then layout.file.text else (sim.iterationDir i).text ++ "/" ++ layout.file.text := by
    split
    · next habsolute => rw [path, Path.join_of_absolute habsolute]
    · next hrelative => rw [path, Path.text_join (Bool.eq_false_iff.2 hrelative), sim.gap_iterationDir]
  refine ⟨htext, ?_, ?_⟩
  · intro hdiffer
    rw [Bool.eq_false_iff]
    intro habsolute
    apply hdiffer 0 1 Nat.zero_ne_one
    rw [htext, htext, if_pos habsolute, if_pos habsolute]
  · intro hrelative i j hne heq
    rw [htext, htext, hrelative, if_neg Bool.false_ne_true, if_neg Bool.false_ne_true, String.append_left_inj,
      String.append_left_inj] at heq
    exact hne (sim.iterationDir_inj heq)

/-- A command line that names the workloads from the root. -/
def rooted : List String :=
  ["--results-dir", "results", "--num-iter", "2", "--workloads-file", "/w.csv"]

def twofold : Simulation :=
  ⟨⟨"results"⟩, 0, 2, Nat.two_pos, by decide⟩

/-- Such a file is accepted, and then it is the one of both iterations and lies below the directory of neither. -/
theorem absolute_file_shared : ∃ c, CommandLine.read rooted none = .ok c ∧ c.resolve none = .ok twofold ∧
    twofold.iterations = [0, 1] ∧ (c.layout.path twofold 0).text = (c.layout.path twofold 1).text ∧
    ∀ i ∈ twofold.iterations, ¬ (twofold.iterationDir i).text.toList <+: (c.layout.path twofold i).text.toList := by
  obtain ⟨c, hread, hresolve, hfile⟩ : ∃ c, CommandLine.read rooted none = .ok c ∧ c.resolve none = .ok twofold ∧
      c.layout.file = ⟨"/w.csv"⟩ := ⟨_, rfl, rfl, rfl⟩
  have hpath (i : Nat) : c.layout.path twofold i = ⟨"/w.csv"⟩ := by
    rw [path, hfile]
    exact Path.join_of_absolute (by decide)
  refine ⟨c, hread, hresolve, rfl, by rw [hpath, hpath], ?_⟩
  intro i hi
  rw [hpath]
  revert i
  decide +kernel

end Workloads.Layout

end WorkloadAtlas
