import WorkloadAtlas.Proofs.Passage
/-!
What a run keeps, whatever its drawings do. The overviews show the samples of all iterations in order, and no other
figure does; so it is enough that overviews of such samples and figures of one iteration keep it.
-/

namespace WorkloadAtlas

open Replayable

theorem Workloads.iterations_of_gather {sample : Nat → Except Error Sample} {count first : Nat}
    {samples : List Loaded} (h : gather sample count first = .ok samples) :
    samples.map (·.iteration) = List.range' first count := by
  induction count generalizing first samples with
  | zero =>
    cases h
    rfl
  | succ count ih =>
    cases hs : sample first with
    | error error =>
      rw [gather, hs] at h
      cases h
    | ok s =>
      rw [gather, hs] at h
      cases hrest : gather sample count (first + 1) with
      | error error =>
        rw [hrest] at h
        cases h
      | ok rest =>
        rw [hrest] at h
        cases h
        rw [List.map_cons, ih hrest, List.range'_succ]

theorem Workloads.iterations_of_gatherAll {sample : Nat → Except Error Sample} {sim : Simulation}
    {samples : List Loaded} (h : gatherAll sample sim = .ok samples) : samples.map (·.iteration) = sim.iterations := by
  by_cases hstop : Number.IsWord sim.stop
  · rw [gatherAll_of_isWord sample hstop] at h
    cases hgather : gather sample sim.count sim.first with
    | error error =>
      rw [hgather] at h
      cases h
    | ok found =>
      rw [hgather] at h
      cases h
      exact iterations_of_gather hgather
  · rw [gatherAll_of_not_isWord sample hstop] at h
    cases h

namespace Run

variable {m : Type → Type} {τ : Type} [Monad m] [Host m] [Replayable m τ] {draw : Visualiser m} {sim : Simulation}
  {kind : τ → Prop} {bounds : Bounds} {layout : Workloads.Layout} {levels : Quantile.Levels}

/-- The states of a kind are not left by lines in the log or by a drawing that a run may make. -/
structure Conduct (draw : Visualiser m) (sim : Simulation) (kind : τ → Prop) : Prop where
  log : LogStable m kind
  overview {samples : List Loaded} : samples.map (·.iteration) = sim.iterations → ∀ figure ∈ Figure.overviews samples,
    Ends kind (fun _ => True) (ExceptT.mk (draw sim figure)) fun _ => True
  single (name : Figure.Single) (p : Progress) :
    Ends kind (fun _ => True) (ExceptT.mk (draw sim (.single name p))) fun _ => True

/-- A position in the loop: some iterations are loaded, with or without reports on them. -/
def Position (sim : Simulation) (bounds : Bounds) (layout : Workloads.Layout) (levels : Quantile.Levels) (k : Nat) :
    Progress × List Report ⊕ List Report → Prop
  | .inl (p, _) => k ≠ sim.count ∧ Progress.Reached sim bounds layout levels k p
  | .inr _ => k = sim.count

namespace Conduct

variable {k : Nat} {p : Progress} {reports : List Report}

theorem drawAll {figures : List Figure} (log : LogStable m kind)
    (each : ∀ figure ∈ figures, Ends kind (fun _ => True) (ExceptT.mk (draw sim figure)) fun _ => True) :
    Ends kind (fun _ => True) (drawAll draw sim figures) fun _ => True := by
  induction figures with
  | nil => exact .pure trivial
  | cons figure rest ih =>
    refine .skip (.log log _) fun _ => .skip (each figure List.mem_cons_self) fun _ => ?_
    exact ih fun other hmem => each other (List.mem_cons_of_mem _ hmem)

theorem advance (log : LogStable m kind) (reached : Progress.Reached sim bounds layout levels k p) :
    Ends kind (fun _ => True) (liftM (p.advance sim : m (Except Failure Nat × Progress)) : ExceptT Failure m _) fun r =>
      ∀ i, r.1 = .ok i → i = sim.first + k ∧ Progress.Reached sim bounds layout levels (k + 1) r.2 := by
  apply Ends.lift
  intro t ht
  have hquiet := Progress.quiet_advance (logStable_files t) p sim fun i _ =>
    Workloads.quiet_load_files (m := m) t sim p.layout i
  rw [hquiet t rfl]
  refine ⟨log.foldl _ ht, ?_⟩
  intro i hi
  have step := Progress.advance_advanced (Workloads.inFiles (files m t) sim p.layout) p sim
  rcases reached.advance step with ⟨hok, hreached⟩ | ⟨failure, hfailure, -⟩
  · exact ⟨Except.ok.inj (hi.symm.trans hok), hreached⟩
  · cases hi.symm.trans hfailure

theorem pass (conduct : Conduct draw sim kind) (reached : Progress.Reached sim bounds layout levels k p) :
    Ends kind (fun _ => True) (pass draw sim p reports) (Position sim bounds layout levels (k + 1)) := by
  refine .bind (advance conduct.log reached) ?_
  rintro ⟨answer, after⟩ hanswer
  refine .bind (.settled hanswer fun _ _ => trivial) ?_
  rintro i ⟨rfl, hafter⟩
  refine .skip .unasked fun iterations => .skip .unasked fun now => ?_
  refine .skip (.lift fun t ht => ?_) fun _ => ?_
  · rw [quiet_logLoaded conduct.log iterations now t ht]
    exact ⟨conduct.log.foldl _ ht, trivial⟩
  · have hdraw : ∀ figure ∈ Figure.ofState after,
        Ends kind (fun _ => True) (ExceptT.mk (draw sim figure)) fun _ => True := by
      intro figure hfigure
      obtain ⟨name, -, rfl⟩ := List.mem_map.1 hfigure
      exact conduct.single name after
    refine .skip (drawAll conduct.log hdraw) fun _ => .skip .unasked fun report => ?_
    refine .bind (.settled (fun last hlast => Simulation.isLast_of_checked hlast) fun _ _ => trivial) ?_
    rintro last rfl
    refine .pure ?_
    split
    · next h => exact Simulation.isLast_add_iff.1 h
    · next h => exact ⟨fun heq => h (Simulation.isLast_add_iff.2 heq), hafter⟩

theorem passes (conduct : Conduct draw sim kind) {n : Nat} (hn : k + n + 1 = sim.count)
    (reached : Progress.Reached sim bounds layout levels k p) :
    Ends kind (fun _ => True) (repeatM (fun (p, reports) => Run.pass draw sim p reports) (p, reports))
      fun _ => True := by
  -- The passes left are counted, since each of them goes to the next iteration.
  induction n generalizing k p reports with
  | zero =>
    refine .ofRepeat (.bind (conduct.pass reached) ?_)
    rintro (⟨after, reports'⟩ | reports') hposition
    · exact absurd hn hposition.1
    · exact .pure trivial
  | succ n ih =>
    refine .ofRepeat (.bind (conduct.pass reached) ?_)
    rintro (⟨after, reports'⟩ | reports') hposition
    · exact ih (by omega) hposition.2
    · exact .pure trivial

theorem overviews (conduct : Conduct draw sim kind) (layout : Workloads.Layout) :
    Ends kind (fun _ => True) (Run.overview draw sim layout) fun _ => True := by
  have hload : Ends kind (fun _ => True) (ExceptT.mk (Workloads.loadAll (m := m) sim layout))
      fun samples => samples.map (·.iteration) = sim.iterations := by
    intro t ht
    have hreplay : replay (ExceptT.mk (Workloads.loadAll (m := m) sim layout)).run t = _ :=
      quiet_loadAll (m := m) t sim layout t rfl
    rw [hreplay]
    exact ⟨conduct.log.foldl _ ht, fun samples => Workloads.iterations_of_gatherAll, fun _ _ => trivial⟩
  refine .skip (.log conduct.log _) fun _ => .bind hload fun samples hsamples => ?_
  refine .skip .unasked fun bounds => .skip (.log conduct.log _) fun _ => ?_
  exact .skip (drawAll conduct.log (conduct.overview hsamples)) fun _ => .pure trivial

/-- A run does not leave the states of the kind, however it ends. -/
theorem run (conduct : Conduct draw sim kind) (layout : Workloads.Layout) (levels : Quantile.Levels) {t : τ}
    (ht : kind t) : kind (replay (run draw sim layout levels) t).2 := by
  have hpos := sim.count_pos
  have hrun : Ends kind (fun _ => True) (ExceptT.mk (WorkloadAtlas.run draw sim layout levels)) fun _ => True := by
    refine .skip (conduct.overviews layout) fun bounds => .skip ?_ fun reports => ?_
    · exact conduct.passes (n := sim.count - 1) (by omega) (Progress.reached_start sim bounds layout levels)
    · exact .skip (.log conduct.log _) fun _ => .pure trivial
  exact (hrun t ht).1

end Conduct

end Run

end WorkloadAtlas
