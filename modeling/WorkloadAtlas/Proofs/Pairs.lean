import WorkloadAtlas.Proofs.Acceptance
/-!
Small trees of files whose workloads are known: two iterations with a table each, and one whose index is the greatest
there is. Results about runs are read on them where a reader wants to see one happen.
-/

namespace WorkloadAtlas

open Number (IsWord)

namespace Workloads

/-- A file that lists workers in ascending order with finite workloads. -/
structure Tabulated (layout : Layout) (content : Files.Document) (ids : List Int) (values : List Float) : Prop where
  columns : columns? layout content = some (ids.map some, values.map some)
  ordered : ids.Pairwise (· < ·)
  nonempty : ids ≠ []
  lengths : ids.length = values.length
  finite : ∀ v ∈ values, v.isFinite = true

/-- Such a file is loaded as it stands. -/
theorem Tabulated.exists_workloads {layout : Layout} {content : Files.Document} {ids : List Int} {values : List Float}
    (h : Tabulated layout content ids values) (hne : layout.idColumn ≠ layout.valueColumn) {w : Workspace}
    {sim : Simulation} {iteration : Nat} (hfile : w.files.isFile (layout.path sim iteration) = true)
    (hread : w.files.read (layout.path sim iteration) = .ok content) :
    ∃ s, w.workloads sim layout iteration = .ok s ∧ s.workers = ids ∧ s.values = values := by
  obtain ⟨table, htable, hcasts⟩ := casts_of_columns? h.columns
  have hsorted : sortedRows ids values = ids.zip values := by
    apply List.mergeSort_of_pairwise
    have hfirst : ((ids.zip values).map (·.1)).Pairwise (· < ·) := by
      rw [List.map_fst_zip (Nat.le_of_eq h.lengths)]
      exact h.ordered
    exact (List.pairwise_map.1 hfirst).imp fun h => decide_eq_true (Int.le_of_lt h)
  obtain ⟨s, hs⟩ := exists_ofColumns (layout.path sim iteration) layout h.lengths h.finite
    (h.ordered.imp fun h => Int.ne_of_lt h) h.nonempty
  obtain ⟨hworkers, hvalues, -⟩ := ofColumns_eq_ok hs
  rw [hsorted, List.map_fst_zip (Nat.le_of_eq h.lengths)] at hworkers
  rw [hsorted, List.map_snd_zip (Nat.le_of_eq h.lengths.symm)] at hvalues
  refine ⟨s, ?_, hworkers, hvalues⟩
  rw [Workspace.workloads_eq, inFiles_eq_ofTable hfile hread htable, hcasts.ofTable_eq hne, hs]

end Workloads

namespace Run

/-- A simulation of two iterations. -/
def pair : Simulation :=
  ⟨⟨"results"⟩, 3, 2, by decide, by decide⟩

theorem isWord_stop_pair : IsWord pair.stop := by
  decide

theorem iterations_pair : pair.iterations = [3, 4] :=
  rfl

/-- A pair of iterations with a file each. -/
def paired (first second : String) : Workspace :=
  .ofFiles ⟨[(["results"], .directory), (["results", "3"], .directory), (["results", "3", "stats"], .directory),
    (["results", "3", "stats", "new_metrics.csv"], .file (.text first)), (["results", "4"], .directory),
    (["results", "4", "stats"], .directory), (["results", "4", "stats", "new_metrics.csv"], .file (.text second))]⟩

/-- The samples of a pair of tables. -/
structure Pairing (first second : String) (s t : Sample) : Prop where
  former : (paired first second).workloads pair .standard 3 = .ok s
  latter : (paired first second).workloads pair .standard 4 = .ok t

theorem exists_pairing {first second : String} {ids ids' : List Int} {xs ys : List Float}
    (hfirst : Workloads.Tabulated .standard (.text first) ids xs)
    (hsecond : Workloads.Tabulated .standard (.text second) ids' ys) :
    ∃ s t, Pairing first second s t ∧ s.workers = ids ∧ s.values = xs ∧ t.workers = ids' ∧ t.values = ys := by
  have hne : Workloads.Layout.standard.idColumn ≠ Workloads.Layout.standard.valueColumn := by decide
  have hfileFirst : (paired first second).files.isFile (Workloads.Layout.standard.path pair 3) = true := rfl
  have hfileSecond : (paired first second).files.isFile (Workloads.Layout.standard.path pair 4) = true := rfl
  have hreadFirst : (paired first second).files.read (Workloads.Layout.standard.path pair 3) = .ok (.text first) :=
    rfl
  have hreadSecond : (paired first second).files.read (Workloads.Layout.standard.path pair 4) = .ok (.text second) :=
    rfl
  obtain ⟨s, hs, hworkersS, hvaluesS⟩ := hfirst.exists_workloads hne hfileFirst hreadFirst
  obtain ⟨t, ht, hworkersT, hvaluesT⟩ := hsecond.exists_workloads hne hfileSecond hreadSecond
  exact ⟨s, t, ⟨hs, ht⟩, hworkersS, hvaluesS, hworkersT, hvaluesT⟩

section Pairing

variable {first second : String} {s t : Sample}

/-- The samples of a pair by iteration. -/
def Pairing.sample (_ : Pairing first second s t) (i : Nat) : Sample :=
  if i = 3 then s else t

theorem Pairing.found (h : Pairing first second s t) :
    ∀ i ∈ pair.iterations, (paired first second).workloads pair .standard i = .ok (h.sample i) := by
  intro i hi
  rw [iterations_pair] at hi
  simp only [List.mem_cons, List.not_mem_nil, or_false] at hi
  rcases hi with rfl | rfl
  · exact h.former
  · exact h.latter

/-- There is one pair of neighbours. -/
theorem Pairing.agree (h : Pairing first second s t) (hworkers : t.workers = s.workers) :
    ∀ i ∈ pair.iterations, i ≠ pair.first → (h.sample i).workers = (h.sample (i - 1)).workers := by
  intro i hi hne
  rw [iterations_pair] at hi
  simp only [List.mem_cons, List.not_mem_nil, or_false] at hi
  rcases hi with rfl | rfl
  · exact absurd rfl hne
  · exact hworkers

end Pairing

/-- Two workers whose workloads change. -/
def changing : Workspace :=
  paired "edge-id new_metric\n0 1\n1 2\n" "edge-id new_metric\n0 2\n1 -1\n"

/-- Two workers of whom one is replaced. -/
def replaced : Workspace :=
  paired "edge-id new_metric\n0 1\n1 2\n" "edge-id new_metric\n0 2\n7 -1\n"

theorem tabulated_rising :
    Workloads.Tabulated .standard (.text "edge-id new_metric\n0 1\n1 2\n") [0, 1] [1.0, 2.0] :=
  ⟨by decide +kernel, by decide, by decide, rfl, by decide +kernel⟩

theorem tabulated_falling :
    Workloads.Tabulated .standard (.text "edge-id new_metric\n0 2\n1 -1\n") [0, 1] [2.0, -1.0] :=
  ⟨by decide +kernel, by decide, by decide, rfl, by decide +kernel⟩

theorem tabulated_other :
    Workloads.Tabulated .standard (.text "edge-id new_metric\n0 2\n7 -1\n") [0, 7] [2.0, -1.0] :=
  ⟨by decide +kernel, by decide, by decide, rfl, by decide +kernel⟩

/-- The range of the greatest index alone. -/
def greatest : Simulation :=
  ⟨⟨"results"⟩, 0xFFFFFFFFFFFFFFFF, 1, Nat.one_pos, by decide⟩

theorem not_isWord_stop_greatest : ¬ IsWord greatest.stop := by
  decide

/-- A file for the greatest index. -/
def outermost : Workspace :=
  .ofFiles ⟨[(["results"], .directory), (["results", "18446744073709551615"], .directory),
    (["results", "18446744073709551615", "stats"], .directory),
    (["results", "18446744073709551615", "stats", "new_metrics.csv"], .file (.text "edge-id new_metric\n0 1\n1 2\n"))]⟩

theorem workloads_outermost :
    ∃ s, outermost.workloads greatest .standard greatest.last = .ok s ∧ s.values = [1.0, 2.0] := by
  have hne : Workloads.Layout.standard.idColumn ≠ Workloads.Layout.standard.valueColumn := by decide
  have hfile : outermost.files.isFile (Workloads.Layout.standard.path greatest greatest.last) = true := by
    decide +kernel
  have hread : outermost.files.read (Workloads.Layout.standard.path greatest greatest.last) =
      .ok (.text "edge-id new_metric\n0 1\n1 2\n") := by
    rfl
  obtain ⟨s, hs, -, hvalues⟩ := tabulated_rising.exists_workloads hne hfile hread
  exact ⟨s, hs, hvalues⟩

end Run

end WorkloadAtlas
