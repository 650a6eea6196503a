import WorkloadAtlas.Proofs.Cells
import WorkloadAtlas.Proofs.Journey
/-!
Advances through a simulation from states that other simulations have led to. The first advance goes to the first
iteration of its simulation; from there on each one goes to the next iteration, whichever simulation it is given. So a
journey is kept within a simulation from above by the last iteration, and from below by where it began.
-/

namespace WorkloadAtlas

open Number (IsWord)

namespace Progress

/-- The iteration that follows the one loaded last; the first one of the simulation if there is none. -/
def following (p : Progress) (sim : Simulation) : Nat :=
  p.iteration?.elim sim.first (· + 1)

section Advance

variable {sample : Nat → Except Workloads.Error Sample} {sim : Simulation} {p after : Progress}
  {answer : Except Failure Nat}

theorem next_eq_ok {i : Nat} (h : p.next sim = .ok i) : i = p.following sim ∧ p.iteration? ≠ some sim.last := by
  unfold following
  cases hk : p.iteration? with
  | none =>
    rw [next_of_none hk] at h
    cases h
    exact ⟨rfl, nofun⟩
  | some k =>
    by_cases hstop : IsWord sim.stop
    · by_cases hlast : k = sim.last
      · rw [next_of_last hstop (hlast ▸ hk)] at h
        cases h
      · rw [next_of_ne hstop hk hlast, Failure.checked_eq_ok_iff, Number.sum?_eq_some_iff] at h
        exact ⟨h.2, fun heq => hlast (Option.some.inj heq)⟩
    · rw [next_of_not_isWord hstop hk] at h
      cases h

theorem Advance.eq_following {i : Nat} (step : Advance sample sim p (.ok i) after) :
    i = p.following sim ∧ p.iteration? ≠ some sim.last := by
  cases step with
  | taken hn hs hsize => exact next_eq_ok hn

theorem Advance.unchanged {failure : Failure} (step : Advance sample sim p (.error failure) after) : after = p := by
  cases step with
  | exhausted hstop hlast => rfl
  | overflowed hi hbeyond => rfl
  | unloaded hn hs => rfl
  | miscounted hn hs hnow hne => rfl

/-- A state that is not past the last iteration does not get there. -/
theorem following_le_last (inside : ∀ k, p.iteration? = some k → k ≤ sim.last) (h : p.iteration? ≠ some sim.last) :
    p.following sim ≤ sim.last := by
  unfold following
  cases hk : p.iteration? with
  | none =>
    rw [Option.elim_none]
    exact sim.first_le_last
  | some k =>
    have hle := inside k hk
    have hne : k ≠ sim.last := fun heq => h (hk.trans (congrArg some heq))
    exact Nat.lt_of_le_of_ne hle hne

end Advance

/-- Iterations that follow each other without a gap. -/
def Consecutive (indices : List Nat) : Prop :=
  ∃ first, indices = List.range' first indices.length

theorem Consecutive.concat {indices : List Nat} (h : Consecutive indices) {i : Nat}
    (hi : ∀ k, indices.getLast? = some k → i = k + 1) : Consecutive (indices ++ [i]) := by
  obtain ⟨first, hfirst⟩ := h
  generalize indices.length = n at hfirst
  subst hfirst
  cases n with
  | zero => exact ⟨i, rfl⟩
  | succ n =>
    have hlast : (List.range' first (n + 1)).getLast? = some (first + n) := by
      rw [List.range'_1_concat, List.getLast?_concat]
    rw [hi _ hlast]
    refine ⟨first, ?_⟩
    rw [List.length_append, List.length_range', List.length_singleton]
    exact List.range'_1_concat.symm

theorem Consecutive.bounds {indices : List Nat} (h : Consecutive indices) {first last i : Nat}
    (hfirst : indices.head? = some first) (hlast : indices.getLast? = some last) (hi : i ∈ indices) :
    first ≤ i ∧ i ≤ last := by
  obtain ⟨start, hstart⟩ := h
  generalize indices.length = n at hstart
  subst hstart
  obtain ⟨hle, hlt⟩ := List.mem_range'_1.1 hi
  cases n with
  | zero => cases hfirst
  | succ n =>
    rw [List.range'_1_concat, List.getLast?_concat] at hlast
    cases hfirst
    cases hlast
    omega

theorem journey_consecutive (bounds : Bounds) (layout : Workloads.Layout) (levels : Quantile.Levels)
    (calls : List (Simulation × Workspace)) : Consecutive (journey bounds layout levels calls).indices := by
  refine (journey_induction (motive := fun indices p => Settled indices p.stage ∧ Consecutive indices)
    ⟨.start, 0, rfl⟩ ?_ calls).2
  intro indices p after sample sim answer h step
  refine ⟨h.1.advance step, ?_⟩
  cases answer with
  | error failure =>
    rw [Except.toOption, Option.toList_none, List.append_nil]
    exact h.2
  | ok i =>
    refine h.2.concat fun k hk => ?_
    rw [step.eq_following.1, following, h.1.iteration?, hk, Option.elim_some]

/-- An advance that is not called past the last iteration of its simulation does not get past it, wherever the journey
before led and through which simulations. It answers with the iteration after the one loaded last, or with the first one
if there is none; so it stays within the simulation exactly if the state was not more than one iteration short of it. A
journey that began within the simulation has then not left it. At the last iteration none is left, provided that the
number after it is a 64-bit number too, and an advance that fails changes nothing. -/
theorem advance_within (bounds : Bounds) (layout : Workloads.Layout) (levels : Quantile.Levels)
    (calls : List (Simulation × Workspace)) (sim : Simulation) (w : Workspace) :
    let indices := (journey bounds layout levels calls).indices
    let p := (journey bounds layout levels calls).state
    let answer := ((p.advance sim : Desk (Except Failure Nat × Progress)) w).1.1
    let after := ((p.advance sim : Desk (Except Failure Nat × Progress)) w).1.2
    (∀ i, answer = .ok i → (∀ k, p.iteration? = some k → k ≤ sim.last) →
      i = p.following sim ∧ i ≤ sim.last ∧
      (i ∈ sim.iterations ↔ ∀ k, p.iteration? = some k → sim.first ≤ k + 1) ∧
      ((∀ first, indices.head? = some first → sim.first ≤ first) → ∀ k ∈ indices ++ [i], k ∈ sim.iterations)) ∧
    (IsWord sim.stop → p.iteration? = some sim.last → answer = .error (.exhausted sim.count)) ∧
    ∀ failure, answer = .error failure → after = p := by
  intro indices p answer after
  have step : Advance (w.workloads sim p.layout) sim p answer after := by
    have h := advance_advanced (w.workloads sim p.layout) p sim
    rwa [← (advance_eq p sim w).1] at h
  have hiteration : p.iteration? = indices.getLast? := (settled_journey bounds layout levels calls).iteration?
  have hconsecutive : Consecutive indices := journey_consecutive bounds layout levels calls
  clear_value indices p answer after
  refine ⟨?_, fun hstop hlast => step.eq_error_of_next (next_of_last hstop hlast), ?_⟩
  · rintro i rfl inside
    obtain ⟨hi, hne⟩ := step.eq_following
    have hle : i ≤ sim.last := hi ▸ following_le_last inside hne
    have hmem : i ∈ sim.iterations ↔ ∀ k, p.iteration? = some k → sim.first ≤ k + 1 := by
      rw [Simulation.mem_iterations, and_iff_left hle, hi, following]
      cases p.iteration? with
      | none => simp
      | some k => simp
    refine ⟨hi, hle, hmem, ?_⟩
    intro hbegin k hk
    have hall : Consecutive (indices ++ [i]) := by
      refine hconsecutive.concat fun last hlast => ?_
      rw [hi, following, hiteration, hlast, Option.elim_some]
    have hfirst : ∃ first, (indices ++ [i]).head? = some first ∧ sim.first ≤ first := by
      cases indices with
      | nil =>
        rw [following, hiteration] at hi
        exact ⟨i, rfl, Nat.le_of_eq hi.symm⟩
      | cons first rest => exact ⟨first, rfl, hbegin first rfl⟩
    obtain ⟨first, hhead, hbegin⟩ := hfirst
    obtain ⟨hge, hki⟩ := hall.bounds hhead List.getLast?_concat hk
    exact Simulation.mem_iterations.2 ⟨Nat.le_trans hbegin hge, Nat.le_trans hki hle⟩
  · rintro failure rfl
    exact step.unchanged

/-- Three iterations that begin later. -/
def ahead : Simulation :=
  ⟨⟨"results"⟩, 5, 3, by decide, by decide⟩

/-- Files of the first two iterations of all. -/
def twoStored : Workspace :=
  .ofFiles ⟨[(["results"], .directory), (["results", "0"], .directory), (["results", "0", "stats"], .directory),
    (["results", "0", "stats", "new_metrics.csv"], .file (.text "edge-id new_metric\n7 2\n")),
    (["results", "1"], .directory), (["results", "1", "stats"], .directory),
    (["results", "1", "stats", "new_metrics.csv"], .file (.text "edge-id new_metric\n7 3\n"))]⟩

/-- From a state that is more than one iteration short of the simulation the next iteration is loaded, which does not
belong to it. -/
theorem advance_before_first :
    let p := (journey ⟨0.0, 0.0, 0.0⟩ .standard .quartiles [(Workloads.only, twoStored)]).state
    p.iteration? = some 0 ∧
    ((p.advance ahead : Desk (Except Failure Nat × Progress)) twoStored).1.1 = .ok 1 ∧ 1 ∉ ahead.iterations := by
  intro p
  have hanswer : ((p.advance ahead : Desk (Except Failure Nat × Progress)) twoStored).1.1.toOption = some 1 := by
    decide +kernel
  refine ⟨by decide +kernel, ?_, by decide⟩
  generalize ((p.advance ahead : Desk (Except Failure Nat × Progress)) twoStored).1.1 = answer at hanswer ⊢
  cases answer with
  | error failure => cases hanswer
  | ok i =>
    cases hanswer
    rfl

end Progress

end WorkloadAtlas
