import WorkloadAtlas.Proofs.Conduct
import WorkloadAtlas.Proofs.Refusals
import WorkloadAtlas.Proofs.Trace
/-!
The keys of the boxplots of all iterations, which have 32 bits: one for each end of the axis, where the upper end is one
past the last iteration, and one for each box. If a number has no key nothing is drawn, and the first such number is
reported. In a run the boxes are those of the iterations of the simulation, so the ends of the axis alone decide. Where
the upper end cannot be calculated at all, that is found out after the lower end is looked at.
-/

namespace WorkloadAtlas

open Number (IsHalfWord IsWord)
open Run (Conduct recorded)

namespace Plot.Gallery

/-- The numbers that need a key: both ends of the axis, and the one under each box. -/
def keys (plot : Boxplot) : List Nat :=
  plot.x.first :: (plot.x.last + 1) :: plot.boxes.map (·.1)

/-- The failure that reports an iteration without a key. -/
def keyless (g : Gallery) (iteration : Nat) : Failure :=
  .render "all boxplot workloads" (g.overviewFile "all_boxplot_workloads")
    s!"iteration {iteration} does not fit on the boxplot axis"

section Misfit

variable {g : Gallery} {sim : Simulation} {samples : List Loaded}

theorem misfit?_of_first (h : ¬ IsHalfWord sim.first) : misfit? sim samples = .ok (some sim.first) :=
  if_pos h

theorem misfit?_of_last (hfirst : IsHalfWord sim.first) (hstop : IsWord sim.stop) (h : ¬ IsHalfWord (sim.last + 1)) :
    misfit? sim samples = .ok (some sim.last) := by
  rw [misfit?, if_neg (not_not_intro hfirst), Simulation.last?_of_isWord hstop]
  exact if_pos h

/-- Without an upper end nothing more is looked at. -/
theorem misfit?_of_not_isWord (hfirst : IsHalfWord sim.first) (hstop : ¬ IsWord sim.stop) :
    misfit? sim samples = .error .overflow := by
  rw [misfit?, if_neg (not_not_intro hfirst), Simulation.last?_of_not_isWord hstop]
  rfl

theorem isHalfWord_stop_iff : IsHalfWord (sim.last + 1) ↔ sim.last < 2 ^ 32 - 1 := by
  change sim.last + 1 < 2 ^ 32 ↔ _
  omega

/-- Below the upper end of the axis every number has a key. -/
theorem isHalfWord_of_le {i : Nat} (h : IsHalfWord (sim.last + 1)) (hi : i ≤ sim.last) : IsHalfWord i :=
  Nat.lt_of_le_of_lt (Nat.le_succ_of_le hi) h

/-- An upper end with a key can be calculated. -/
theorem isWord_of_isHalfWord (h : IsHalfWord (sim.last + 1)) : IsWord sim.stop := by
  rw [← sim.last_add_one]
  exact Nat.lt_trans h (by decide)

theorem misfit?_of_samples (h : IsHalfWord (sim.last + 1)) :
    misfit? sim samples =
      .ok ((samples.map (·.iteration)).find? fun iteration => ¬ IsHalfWord iteration) := by
  have hfirst : IsHalfWord sim.first := isHalfWord_of_le h sim.first_le_last
  rw [misfit?, if_neg (not_not_intro hfirst), Simulation.last?_of_isWord (isWord_of_isHalfWord h)]
  exact if_neg (not_not_intro h)

theorem misfit?_of_sample {before after : List Loaded} {s : Loaded} (h : IsHalfWord (sim.last + 1))
    (hbefore : ∀ t ∈ before, IsHalfWord t.iteration) (hs : ¬ IsHalfWord s.iteration) :
    misfit? sim (before ++ s :: after) = .ok (some s.iteration) := by
  have hnone : (before.map (·.iteration)).find? (fun iteration => ¬ IsHalfWord iteration) = none := by
    rw [List.find?_eq_none]
    intro i hi
    obtain ⟨t, ht, rfl⟩ := List.mem_map.1 hi
    simp [hbefore t ht]
  rw [misfit?_of_samples h, List.map_append, List.find?_append, hnone, Option.none_or, List.map_cons]
  exact congrArg Except.ok (List.find?_cons_of_pos (decide_eq_true hs))

theorem misfit?_eq_none_iff : misfit? sim samples = .ok none ↔
    IsHalfWord (sim.last + 1) ∧ ∀ s ∈ samples, IsHalfWord s.iteration := by
  by_cases hlast : IsHalfWord (sim.last + 1)
  · rw [misfit?_of_samples hlast, and_iff_right hlast, Except.ok.injEq, List.find?_eq_none]
    simp
  · refine iff_of_false ?_ fun h => hlast h.1
    by_cases hfirst : IsHalfWord sim.first
    · by_cases hstop : IsWord sim.stop
      · rw [misfit?_of_last hfirst hstop hlast]
        exact nofun
      · rw [misfit?_of_not_isWord hfirst hstop]
        exact nofun
    · rw [misfit?_of_first hfirst]
      exact nofun

/-- If the first number has a key or the upper end can be calculated, an iteration without a key is found or there is
none. -/
theorem exists_misfit_iff (h : ¬ IsHalfWord sim.first ∨ IsWord sim.stop) :
    (∃ i, misfit? sim samples = .ok (some i)) ↔ misfit? sim samples ≠ .ok none := by
  constructor
  · rintro ⟨i, hi⟩ hnone
    rw [hi] at hnone
    cases hnone
  · intro hne
    by_cases hfirst : IsHalfWord sim.first
    · have hstop := h.resolve_left (not_not_intro hfirst)
      by_cases hlast : IsHalfWord (sim.last + 1)
      · rw [misfit?_of_samples hlast] at hne ⊢
        obtain ⟨i, hi⟩ := Option.ne_none_iff_exists'.1 fun hnone => hne (congrArg Except.ok hnone)
        exact ⟨i, congrArg Except.ok hi⟩
      · exact ⟨_, misfit?_of_last hfirst hstop hlast⟩
    · exact ⟨_, misfit?_of_first hfirst⟩

/-- Over iterations of the simulation no box is without a key unless an end of the axis is. -/
theorem misfit?_of_iterations (h : samples.map (·.iteration) = sim.iterations) :
    (misfit? sim samples = .ok none ↔ sim.last < 2 ^ 32 - 1) ∧
      ∀ i, misfit? sim samples = .ok (some i) → i = if 2 ^ 32 ≤ sim.first then sim.first else sim.last := by
  have hnone : misfit? sim samples = .ok none ↔ IsHalfWord (sim.last + 1) := by
    rw [misfit?_eq_none_iff, and_iff_left_iff_imp]
    intro hlast s hs
    have hmem : s.iteration ∈ sim.iterations := h ▸ List.mem_map_of_mem hs
    exact isHalfWord_of_le hlast (Simulation.mem_iterations.1 hmem).2
  refine ⟨hnone.trans isHalfWord_stop_iff, ?_⟩
  intro i hi
  have hbeyond : ¬ IsHalfWord (sim.last + 1) := by
    rw [← hnone, hi]
    exact nofun
  by_cases hfirst : 2 ^ 32 ≤ sim.first
  · rw [misfit?_of_first (Nat.not_lt.2 hfirst)] at hi
    cases hi
    rw [if_pos hfirst]
  · have hkey : IsHalfWord sim.first := Nat.lt_of_not_le hfirst
    by_cases hstop : IsWord sim.stop
    · rw [misfit?_of_last hkey hstop hbeyond] at hi
      cases hi
      rw [if_neg hfirst]
    · rw [misfit?_of_not_isWord hkey hstop] at hi
      cases hi

theorem sheet_of_misfit {i : Nat} (h : misfit? sim samples = .ok (some i)) :
    g.sheet sim (.allBoxplots samples) = .error (g.keyless i) := by
  rw [sheet, boxplotSheet, h]
  rfl

theorem sheet_of_overflow (h : misfit? sim samples = .error .overflow) :
    g.sheet sim (.allBoxplots samples) = .error .overflow := by
  rw [sheet, boxplotSheet, h]
  rfl

theorem sheet_of_fit (h : misfit? sim samples = .ok none) :
    g.sheet sim (.allBoxplots samples) = .ok ⟨"all boxplot workloads", g.overviewFile "all_boxplot_workloads",
      (boxplots sim.span samples).drawing g.canvas⟩ := by
  have hstop := isWord_of_isHalfWord (misfit?_eq_none_iff.1 h).1
  rw [sheet, boxplotSheet, h, Simulation.iterations?_of_isWord hstop]
  rfl

/-- A file that cannot be written is not taken for an iteration without a key. -/
theorem cause_ne (text : String) (i : Nat) :
    s!"backend error: Drawing backend error: {text}" ≠ s!"iteration {i} does not fit on the boxplot axis" := by
  intro h
  have hlist := congrArg (fun s : String => s.toList.head?) h
  simp only [String.toList_append] at hlist
  cases hlist

/-- A failure reports an iteration without a key only if there is one. -/
theorem keyless_iff (h : ¬ IsHalfWord sim.first ∨ IsWord sim.stop) {w : Workspace} :
    (∃ i, ((g.draw sim (.allBoxplots samples) : Desk (Except Failure Unit)) w).1 = .error (g.keyless i)) ↔
      misfit? sim samples ≠ .ok none := by
  constructor
  · rintro ⟨i, hi⟩ hnone
    obtain ⟨cause, -, -, hcause⟩ := (rendered_draw (sheet_of_fit hnone)).error _ hi
    exact cause_ne cause.message i (Failure.render.inj hcause).2.2.symm
  · intro hne
    obtain ⟨i, hi⟩ := (exists_misfit_iff h).2 hne
    exact ⟨i, congrArg (·.1) (draw_of_error (sheet_of_misfit hi))⟩

/-- With a key for every number no number is changed by its key. -/
theorem toNat_key (h : misfit? sim samples = .ok none) :
    ∀ key ∈ keys (boxplots sim.span samples), (UInt32.ofNat key).toNat = key := by
  obtain ⟨hlast, hsamples⟩ := misfit?_eq_none_iff.1 h
  have hword {key : Nat} (hkey : IsHalfWord key) : (UInt32.ofNat key).toNat = key :=
    UInt32.toNat_ofNat_of_lt' hkey
  intro key hkey
  rcases List.mem_cons.1 hkey with rfl | hkey
  · exact hword (isHalfWord_of_le hlast sim.first_le_last)
  · rcases List.mem_cons.1 hkey with rfl | hkey
    · exact hword hlast
    · obtain ⟨box, hbox, rfl⟩ := List.mem_map.1 hkey
      obtain ⟨s, hs, rfl⟩ := List.mem_map.1 hbox
      exact hword (hsamples s hs)

end Misfit

end Plot.Gallery

namespace Run

/-- The calls so far show only boxplots of the iterations of a simulation. -/
def Shows {σ : Type} (sim : Simulation) (t : (σ × List Attempt) × Workspace) : Prop :=
  ∀ call ∈ t.1.2, ∀ samples, call.figure = .allBoxplots samples → samples.map (·.iteration) = sim.iterations

theorem conduct_recorded {σ : Type} (draw : Visualiser (StateT σ Desk)) (sim : Simulation) :
    Conduct (recorded draw) sim (Shows (σ := σ) sim) := by
  have hcall {figure : Figure}
      (h : ∀ samples, figure = .allBoxplots samples → samples.map (·.iteration) = sim.iterations) :
      Replayable.Ends (Shows (σ := σ) sim) (fun _ => True) (ExceptT.mk (recorded draw sim figure)) fun _ => True := by
    rintro ⟨⟨s, calls⟩, w⟩ hshows
    refine ⟨?_, fun _ _ => trivial, fun _ _ => trivial⟩
    intro call hmem
    rcases List.mem_append.1 hmem with hmem | hmem
    · exact hshows call hmem
    · rw [List.mem_singleton.1 hmem]
      exact h
  refine ⟨fun _ _ h => h, ?_, fun name p => hcall nofun⟩
  intro samples hsamples figure hfigure
  apply hcall
  rintro samples' rfl
  rcases List.mem_cons.1 hfigure with h | h
  · cases h
  · cases List.mem_singleton.1 h
    exact hsamples

end Run

namespace Plot.Gallery

/-- The boxplots of all iterations are refused, and nothing is written or logged, exactly if the last iteration is the
greatest 32-bit number or beyond it, or a sample has an iteration that is no 32-bit number. What is reported is the first
iteration of the simulation if it is too great, or else the last one, or else that of the first such sample. Otherwise
no key differs from its number, and the boxplots are rendered. Where the first iteration is not too great and the number
after the last one has more than 64 bits, the drawing ends in an overflow instead. Every run asks for boxplots whose
boxes stand over the iterations of the simulation in order, so that none of its samples is ever reported. -/
theorem draw_boxplots (g : Gallery) (sim : Simulation) (samples : List Loaded) (w : Workspace) :
    let result := (g.draw sim (.allBoxplots samples) : Desk (Except Failure Unit)) w
    (2 ^ 32 ≤ sim.first ∨ IsWord sim.stop →
      ((∃ i, result.1 = .error (g.keyless i)) ↔ 2 ^ 32 - 1 ≤ sim.last ∨ ∃ s ∈ samples, 2 ^ 32 ≤ s.iteration)) ∧
    (2 ^ 32 ≤ sim.first → result = (.error (g.keyless sim.first), w)) ∧
    (sim.first < 2 ^ 32 → IsWord sim.stop → 2 ^ 32 - 1 ≤ sim.last → result = (.error (g.keyless sim.last), w)) ∧
    (sim.first < 2 ^ 32 → ¬ IsWord sim.stop → result = (.error .overflow, w)) ∧
    (sim.last < 2 ^ 32 - 1 → ∀ (before : List Loaded) (s : Loaded) (after : List Loaded),
      samples = before ++ s :: after → (∀ t ∈ before, t.iteration < 2 ^ 32) → 2 ^ 32 ≤ s.iteration →
      result = (.error (g.keyless s.iteration), w)) ∧
    (sim.last < 2 ^ 32 - 1 → (∀ s ∈ samples, s.iteration < 2 ^ 32) →
      (∀ key ∈ keys (boxplots sim.span samples), (UInt32.ofNat key).toNat = key) ∧
      Rendered ⟨"all boxplot workloads", g.overviewFile "all_boxplot_workloads",
        (boxplots sim.span samples).drawing g.canvas⟩ w result) ∧
    ∀ (σ : Type) (draw : Visualiser (StateT σ Desk)) (layout : Workloads.Layout) (levels : Quantile.Levels) (s : σ)
      (w' : Workspace), ∀ call ∈ (run (recorded draw) sim layout levels (s, []) w').1.2.2,
      ∀ asked, call.figure = .allBoxplots asked →
        (boxplots sim.span asked).boxes.map (·.1) = asked.map (·.iteration) ∧
        asked.map (·.iteration) = sim.iterations ∧
        (∀ t ∈ asked, sim.first ≤ t.iteration ∧ t.iteration ≤ sim.last) ∧
        (misfit? sim asked = .ok none ↔ sim.last < 2 ^ 32 - 1) ∧
        ∀ i, misfit? sim asked = .ok (some i) → i = if 2 ^ 32 ≤ sim.first then sim.first else sim.last := by
  intro result
  have refused {i : Nat} (h : misfit? sim samples = .ok (some i)) : result = (.error (g.keyless i), w) :=
    draw_of_error (sheet_of_misfit h)
  refine ⟨?_, ?_, ?_, ?_, ?_, ?_, ?_⟩
  · intro calculated
    refine (keyless_iff (calculated.imp_left Nat.not_lt.2)).trans ?_
    rw [Ne, misfit?_eq_none_iff, isHalfWord_stop_iff, not_and_or, not_lt]
    simp
  · intro hfirst
    exact refused (misfit?_of_first (Nat.not_lt.2 hfirst))
  · intro hfirst hstop h
    exact refused (misfit?_of_last hfirst hstop (mt isHalfWord_stop_iff.1 (Nat.not_lt.2 h)))
  · intro hfirst hstop
    exact draw_of_error (sheet_of_overflow (misfit?_of_not_isWord hfirst hstop))
  · rintro h before s after rfl hbefore hs
    exact refused (misfit?_of_sample (isHalfWord_stop_iff.2 h) hbefore (Nat.not_lt.2 hs))
  · intro h hsamples
    have hnone : misfit? sim samples = .ok none := misfit?_eq_none_iff.2 ⟨isHalfWord_stop_iff.2 h, hsamples⟩
    exact ⟨toNat_key hnone, rendered_draw (sheet_of_fit hnone)⟩
  · intro σ draw layout levels s w' call hcall asked hfigure
    have hstart : Run.Shows (σ := σ) sim ((s, []), w') := fun _ h => nomatch h
    have hshows := (Run.conduct_recorded draw sim).run layout levels hstart
    have hiterations : asked.map (·.iteration) = sim.iterations := hshows call hcall asked hfigure
    refine ⟨?_, hiterations, ?_, misfit?_of_iterations hiterations⟩
    · rw [boxplots, List.map_map]
      rfl
    · intro t ht
      rw [← Simulation.mem_iterations, ← hiterations]
      exact List.mem_map_of_mem ht

end Plot.Gallery

end WorkloadAtlas
