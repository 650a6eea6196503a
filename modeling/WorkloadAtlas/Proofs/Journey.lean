import WorkloadAtlas.Proofs.Advance
import WorkloadAtlas.Proofs.Changes
/-!
Journeys: any number of advances from the start, each through a simulation and over files of its own. How many of them
have succeeded and whether the last two samples list the same workers settles what the state can be asked for.
-/

namespace WorkloadAtlas.Progress

/-- A state, and the iterations with which the advances answered that led to it. -/
structure Journey where
  indices : List Nat
  state : Progress

/-- One advance more, through a simulation and over the files of a workspace. -/
def Journey.advance (j : Journey) (call : Simulation × Workspace) : Journey :=
  let (answer, state) := ((j.state.advance call.1 : Desk (Except Failure Nat × Progress)) call.2).1
  ⟨j.indices ++ answer.toOption.toList, state⟩

def journey (bounds : Bounds) (layout : Workloads.Layout) (levels : Quantile.Levels)
    (calls : List (Simulation × Workspace)) : Journey :=
  calls.foldl Journey.advance ⟨[], .start bounds layout levels⟩

/-- The stage that belongs to the iterations loaded so far. Samples that follow each other have equally many workers. -/
inductive Settled : List Nat → Stage → Prop
  | start : Settled [] .start
  | first (now : Loaded) : Settled [now.iteration] (.first now)
  | later {earlier : List Nat} (before : Sample) (now : Loaded) : earlier ≠ [] → before.size = now.sample.size →
      Settled (earlier ++ [now.iteration]) (.later before now)

theorem Settled.taken {indices : List Nat} {p : Progress} (h : Settled indices p.stage) (loaded : Loaded)
    (hsize : ∀ now, p.now? = some now → now.sample.size = loaded.sample.size) :
    Settled (indices ++ [loaded.iteration]) (p.taken loaded).stage := by
  obtain ⟨bounds, layout, levels, stage⟩ := p
  cases h with
  | start => exact .first loaded
  | first now => exact .later now.sample loaded (List.cons_ne_nil _ _) (hsize now rfl)
  | later before now hearlier hbefore =>
    exact .later now.sample loaded (List.append_ne_nil_of_right_ne_nil _ (List.cons_ne_nil _ _)) (hsize now rfl)

theorem Settled.advance {indices : List Nat} {p after : Progress} {sample : Nat → Except Workloads.Error Sample}
    {sim : Simulation} {answer : Except Failure Nat} (h : Settled indices p.stage)
    (step : Advance sample sim p answer after) : Settled (indices ++ answer.toOption.toList) after.stage := by
  cases step with
  | exhausted hstop hlast => rwa [Except.toOption, Option.toList_none, List.append_nil]
  | overflowed hi hbeyond => rwa [Except.toOption, Option.toList_none, List.append_nil]
  | unloaded hn hs => rwa [Except.toOption, Option.toList_none, List.append_nil]
  | miscounted hn hs hnow hne => rwa [Except.toOption, Option.toList_none, List.append_nil]
  | @taken i s hn hs hsize => exact h.taken ⟨i, s⟩ hsize

/-- What holds at the start and is kept by every advance holds wherever a journey leads. -/
theorem journey_induction {motive : List Nat → Progress → Prop} {bounds : Bounds} {layout : Workloads.Layout}
    {levels : Quantile.Levels} (start : motive [] (.start bounds layout levels))
    (advance : ∀ {indices p after sample sim answer}, motive indices p → Advance sample sim p answer after →
      motive (indices ++ answer.toOption.toList) after) (calls : List (Simulation × Workspace)) :
    motive (journey bounds layout levels calls).indices (journey bounds layout levels calls).state := by
  have hrun (j : Journey) (h : motive j.indices j.state) :
      motive (calls.foldl Journey.advance j).indices (calls.foldl Journey.advance j).state := by
    induction calls generalizing j with
    | nil => exact h
    | cons call rest ih =>
      apply ih
      unfold Journey.advance
      rw [(advance_eq j.state call.1 call.2).1]
      exact advance h (advance_advanced _ _ _)
  exact hrun _ start

theorem settled_journey (bounds : Bounds) (layout : Workloads.Layout) (levels : Quantile.Levels)
    (calls : List (Simulation × Workspace)) :
    Settled (journey bounds layout levels calls).indices (journey bounds layout levels calls).state.stage :=
  journey_induction (motive := fun indices p => Settled indices p.stage) .start Settled.advance calls

/-- The sample loaded last lists other workers than the one before. -/
def Differing (p : Progress) : Prop :=
  ∃ before now, p.previous? = some before ∧ p.current = .ok now ∧ now.workers ≠ before.workers

/-- An answer on the changes between the last two samples: there is one if both list the same workers, and otherwise
it is told what is missing. Counts are never the reason. -/
structure Telling {α : Type} (indices : List Nat) (p : Progress) (answer : Except Failure α) : Prop where
  nothing : answer = .error .nothingLoaded ↔ indices = []
  single (i : Nat) : answer = .error (.noPrevious i) ↔ indices = [i]
  others (i : Nat) : answer = .error (.otherWorkers i) ↔ p.iteration? = some i ∧ p.Differing
  ok : (∃ a, answer = .ok a) ↔ p.hasPrevious = true ∧ ¬ p.Differing
  cause (failure : Failure) : answer = .error failure →
    failure = .nothingLoaded ∨ (∃ i, failure = .noPrevious i) ∨ ∃ i, failure = .otherWorkers i

section Answers

variable {α β : Type} {f : α → β} {answer : Except Failure α} {indices : List Nat} {p : Progress}

theorem map_eq_error_iff {failure : Failure} : answer.map f = .error failure ↔ answer = .error failure := by
  cases answer with
  | error failure' => rw [Except.map, Except.error.injEq, Except.error.injEq]
  | ok a =>
    constructor
    · intro h
      cases h
    · intro h
      cases h

theorem exists_map_eq_ok_iff : (∃ b, answer.map f = .ok b) ↔ ∃ a, answer = .ok a := by
  constructor
  · rintro ⟨b, hb⟩
    cases answer with
    | error failure => cases hb
    | ok a => exact ⟨a, rfl⟩
  · rintro ⟨a, rfl⟩
    exact ⟨f a, rfl⟩

theorem Telling.map (h : Telling indices p answer) (f : α → β) : Telling indices p (answer.map f) := by
  constructor
  · rw [map_eq_error_iff, h.nothing]
  · intro i
    rw [map_eq_error_iff, h.single]
  · intro i
    rw [map_eq_error_iff, h.others]
  · rw [exists_map_eq_ok_iff, h.ok]
  · intro failure
    rw [map_eq_error_iff]
    exact h.cause failure

end Answers

section Settled

variable {indices : List Nat} {p : Progress}

theorem Settled.iteration? (h : Settled indices p.stage) : p.iteration? = indices.getLast? := by
  obtain ⟨bounds, layout, levels, stage⟩ := p
  cases h with
  | start => rfl
  | first now => rfl
  | later before now hearlier hsize => rw [List.getLast?_concat]; rfl

theorem Settled.hasPrevious_iff (h : Settled indices p.stage) : p.hasPrevious = true ↔ 2 ≤ indices.length := by
  obtain ⟨bounds, layout, levels, stage⟩ := p
  cases h with
  | start => simp [hasPrevious, previous?]
  | first now => simp [hasPrevious, previous?]
  | later before now hearlier hsize =>
    have hpos := List.length_pos_iff.2 hearlier
    simp [hasPrevious, previous?]
    omega

theorem Settled.size_eq {before now : Sample} (h : Settled indices p.stage) (hbefore : p.previous? = some before)
    (hnow : p.current = .ok now) : before.size = now.size := by
  obtain ⟨bounds, layout, levels, stage⟩ := p
  cases h with
  | start => cases hbefore
  | first loaded => cases hbefore
  | later sample loaded hearlier hsize =>
    cases hbefore
    cases hnow
    exact hsize

theorem not_differing (h : p.previous? = none) : ¬ p.Differing := by
  rintro ⟨before, now, hbefore, -⟩
  rw [h] at hbefore
  cases hbefore

theorem differing_later {bounds : Bounds} {layout : Workloads.Layout} {levels : Quantile.Levels} {before : Sample}
    {now : Loaded} :
    Differing ⟨bounds, layout, levels, .later before now⟩ ↔ now.sample.workers ≠ before.workers := by
  constructor
  · rintro ⟨_, _, ⟨⟩, ⟨⟩, hne⟩
    exact hne
  · intro hne
    exact ⟨before, now.sample, rfl, rfl, hne⟩

theorem Settled.telling_deltas (h : Settled indices p.stage) : Telling indices p p.deltas := by
  have hiteration := h.iteration?
  obtain ⟨bounds, layout, levels, stage⟩ := p
  cases h with
  | start =>
    have hnot : ¬ Differing ⟨bounds, layout, levels, .start⟩ := not_differing rfl
    constructor <;> simp [deltas, hasPrevious, previous?, hnot]
  | first now =>
    have hnot : ¬ Differing ⟨bounds, layout, levels, .first now⟩ := not_differing rfl
    constructor <;> simp [deltas, hasPrevious, previous?, hnot]
  | @later earlier before now hearlier hsize =>
    have hdeltas : deltas ⟨bounds, layout, levels, .later before now⟩ =
        now.sample.deltasFrom before now.iteration := rfl
    have hprevious : hasPrevious ⟨bounds, layout, levels, .later before now⟩ = true := rfl
    have hempty : earlier ++ [now.iteration] ≠ [] := List.append_ne_nil_of_right_ne_nil _ (List.cons_ne_nil _ _)
    have hsingle (i : Nat) : earlier ++ [now.iteration] ≠ [i] := by
      intro heq
      have hlength := congrArg List.length heq
      have hpos := List.length_pos_iff.2 hearlier
      rw [List.length_append, List.length_singleton, List.length_singleton] at hlength
      omega
    rw [List.getLast?_concat] at hiteration
    by_cases hworkers : now.sample.workers = before.workers
    · have hanswer := Sample.deltasFrom_of_workers_eq hworkers now.iteration
      constructor <;> simp [hdeltas, hanswer, hprevious, hempty, hsingle, differing_later, hworkers]
    · have hanswer := Sample.deltasFrom_of_workers_ne hworkers now.iteration
      have hmismatch : now.sample.mismatch before now.iteration = .otherWorkers now.iteration := if_pos hsize.symm
      rw [hmismatch] at hanswer
      constructor <;>
        simp [hdeltas, hanswer, hprevious, hempty, hsingle, differing_later, hworkers, hiteration]

theorem Settled.telling_deltaQuantiles (h : Settled indices p.stage) : Telling indices p p.deltaQuantiles :=
  h.telling_deltas.map _

/-- Of a state without a previous sample the report tells no changes, and otherwise it fails if they cannot be told. -/
theorem report_eq_of_now {now : Loaded} (hnow : p.now? = some now) :
    p.report =
      (if p.hasPrevious then p.deltaQuantiles.map some else .ok none).map fun deltaQuantiles =>
        { iteration := now.iteration
          workers := now.sample.size
          workloads := now.sample.stats
          quantiles := Quantile.ofValues now.sample.values p.levels
          deltaQuantiles } := by
  have hok : p.now = .ok now := by rw [Progress.now, hnow]
  unfold report
  rw [hok]
  cases p.hasPrevious with
  | false => rfl
  | true =>
    cases p.deltaQuantiles with
    | error failure => rfl
    | ok quantiles => rfl

theorem report_of_nothing (hnow : p.now? = none) : p.report = .error .nothingLoaded := by
  have herror : p.now = .error .nothingLoaded := by rw [Progress.now, hnow]
  unfold report
  rw [herror]
  rfl

theorem Settled.eq_nil_iff (h : Settled indices p.stage) : indices = [] ↔ p.now? = none := by
  rw [← List.getLast?_eq_none_iff, ← h.iteration?, Progress.iteration?, Option.map_eq_none_iff]

theorem Settled.report_eq_error_iff (h : Settled indices p.stage) :
    (∃ failure, p.report = .error failure) ↔ indices = [] ∨ p.Differing := by
  cases hnow : p.now? with
  | none =>
    rw [report_of_nothing hnow]
    exact ⟨fun _ => .inl (h.eq_nil_iff.2 hnow), fun _ => ⟨_, rfl⟩⟩
  | some now =>
    have hne : indices ≠ [] := by
      rw [Ne, h.eq_nil_iff, hnow]
      exact Option.some_ne_none now
    rw [report_eq_of_now hnow, or_iff_right hne]
    simp only [map_eq_error_iff]
    cases hprevious : p.hasPrevious with
    | false =>
      have hnot : ¬ p.Differing := not_differing (Option.not_isSome_iff_eq_none.1 (Bool.eq_false_iff.1 hprevious))
      simp [hnot]
    | true =>
      have hok := h.telling_deltaQuantiles.ok
      rw [hprevious, eq_self, true_and] at hok
      simp only [↓reduceIte, map_eq_error_iff]
      cases hquantiles : p.deltaQuantiles with
      | error failure => simpa [hquantiles] using hok
      | ok quantiles => simpa [hquantiles] using hok

theorem Settled.report_eq_ok {r : Report} (h : Settled indices p.stage) (hr : p.report = .ok r) :
    indices.getLast? = some r.iteration ∧ (∃ s, p.current = .ok s ∧ r.workers = s.size) ∧
      r.deltaQuantiles.isSome = p.hasPrevious := by
  cases hnow : p.now? with
  | none =>
    rw [report_of_nothing hnow] at hr
    cases hr
  | some now =>
    have hcurrent : p.current = .ok now.sample := by
      unfold current Progress.now
      rw [hnow]
      rfl
    rw [← h.iteration?, Progress.iteration?, hnow, hcurrent]
    rw [report_eq_of_now hnow] at hr
    cases hprevious : p.hasPrevious with
    | false =>
      rw [hprevious] at hr
      cases hr
      exact ⟨rfl, ⟨now.sample, rfl, rfl⟩, rfl⟩
    | true =>
      rw [hprevious] at hr
      cases hquantiles : p.deltaQuantiles with
      | error failure =>
        rw [hquantiles] at hr
        cases hr
      | ok quantiles =>
        rw [hquantiles] at hr
        cases hr
        exact ⟨rfl, ⟨now.sample, rfl, rfl⟩, rfl⟩

end Settled

/-- Wherever a journey leads, the state has an iteration exactly if it has a current sample, and a previous sample
exactly if two advances have succeeded; it has as many workers as the current one. Changes can be told if there is a
previous sample that lists the same workers, and otherwise the failure says what is missing, with the iteration loaded
last. The report fails only if nothing is loaded or the workers differ. It is on the iteration loaded last. -/
theorem journey_answers (bounds : Bounds) (layout : Workloads.Layout) (levels : Quantile.Levels)
    (calls : List (Simulation × Workspace)) :
    let indices := (journey bounds layout levels calls).indices
    let p := (journey bounds layout levels calls).state
    p.iteration? = indices.getLast? ∧
    (p.iteration?.isSome = true ↔ ∃ s, p.current = .ok s) ∧
    (p.hasPrevious = true ↔ 2 ≤ indices.length) ∧
    (∀ before now, p.previous? = some before → p.current = .ok now → before.size = now.size) ∧
    Telling indices p p.deltas ∧ Telling indices p p.sortedDeltas ∧ Telling indices p p.deltaQuantiles ∧
    ((∃ failure, p.report = .error failure) ↔ indices = [] ∨ p.Differing) ∧
    ∀ r, p.report = .ok r → indices.getLast? = some r.iteration ∧ (∃ s, p.current = .ok s ∧ r.workers = s.size) ∧
      r.deltaQuantiles.isSome = p.hasPrevious := by
  intro indices p
  have h : Settled indices p.stage := settled_journey bounds layout levels calls
  have hcurrent : p.iteration?.isSome = true ↔ ∃ s, p.current = .ok s := by
    unfold iteration? current Progress.now
    cases p.now? with
    | none => simp [Except.map]
    | some now => simp [Except.map]
  refine ⟨h.iteration?, hcurrent, h.hasPrevious_iff, fun before now => h.size_eq, h.telling_deltas,
    h.telling_deltas.map _, h.telling_deltaQuantiles, h.report_eq_error_iff, fun r => h.report_eq_ok⟩

end WorkloadAtlas.Progress
