import WorkloadAtlas.Proofs.Journey
/-!
The state with a slot of its own for the iteration loaded last, for its workloads and for those of the iteration before.
Each slot can be empty whatever the others hold, so that a number has to stand in for an iteration that is not there. An
advance keeps the slots coupled: there is an iteration exactly if there are workloads of it, and none before without
them. Coupled slots are a stage and nothing else, all that is asked of them is answered as the stage answers it, and the
number that stands in is never told.
-/

namespace WorkloadAtlas

structure Slots where
  bounds : Bounds
  layout : Workloads.Layout
  levels : Quantile.Levels
  iteration? : Option Nat
  current? : Option Sample
  previous? : Option Sample

namespace Slots

def start (bounds : Bounds) (layout : Workloads.Layout) (levels : Quantile.Levels) : Slots :=
  ⟨bounds, layout, levels, none, none, none⟩

def next (s : Slots) (sim : Simulation) : Except Failure Nat :=
  match s.iteration? with
  | none => .ok sim.first
  | some iteration => do
    if ← Failure.checked (sim.isLast? iteration) then throw (.exhausted sim.count)
    Failure.checked (Number.sum? iteration 1)

/-- The workloads of the iteration loaded last move to the slot before, and new ones take their place. -/
def shift (s : Slots) (loaded : Loaded) : Slots :=
  { s with iteration? := some loaded.iteration, current? := some loaded.sample, previous? := s.current? }

def receive (s : Slots) (loaded : Loaded) : Except Failure Slots := do
  if let some current := s.current? then
    if current.size ≠ loaded.sample.size then
      throw (.workerCount loaded.iteration current.size loaded.sample.size)
  return s.shift loaded

def advance {m : Type → Type} [Monad m] [Host m] (s : Slots) (sim : Simulation) : m (Except Failure Nat × Slots) := do
  match s.next sim with
  | .error failure => return (.error failure, s)
  | .ok iteration =>
    match ← Workloads.load sim s.layout iteration with
    | .error error => return (.error (.load error), s)
    | .ok sample => match s.receive ⟨iteration, sample⟩ with
      | .error failure => return (.error failure, s)
      | .ok s => return (.ok iteration, s)

def current (s : Slots) : Except Failure Sample :=
  match s.current? with
  | some current => .ok current
  | none => .error .nothingLoaded

def hasPrevious (s : Slots) : Bool :=
  s.previous?.isSome

/-- The number of the iteration loaded last, or one that stands in for it. -/
def iteration (s : Slots) : Nat :=
  s.iteration?.getD 0

def deltas (s : Slots) : Except Failure (List Float) := do
  let current ← s.current
  match s.previous? with
  | none => throw (.noPrevious s.iteration)
  | some previous => current.deltasFrom previous s.iteration

def sortedWorkloads (s : Slots) : Except Failure (List Float) :=
  s.current.map Sample.sorted

def sortedDeltas (s : Slots) : Except Failure (List Float) :=
  s.deltas.map Number.ascending

def workloadQuantiles (s : Slots) : Except Failure (List Quantile) :=
  s.current.map fun sample => Quantile.ofValues sample.values s.levels

def deltaQuantiles (s : Slots) : Except Failure (List Quantile) :=
  s.deltas.map fun deltas => Quantile.ofValues deltas s.levels

def report (s : Slots) : Except Failure Report := do
  let current ← s.current
  let deltaQuantiles ← if s.hasPrevious then s.deltaQuantiles.map some else pure none
  let quantiles ← s.workloadQuantiles
  return { iteration := s.iteration
           workers := current.size
           workloads := current.stats
           quantiles
           deltaQuantiles }

/-- What the slots have to do with each other. -/
structure Coupled (s : Slots) : Prop where
  iteration : s.iteration?.isSome = s.current?.isSome
  previous : s.previous?.isSome = true → s.current?.isSome = true

/-- No number stands in where there are workloads. -/
theorem Coupled.iteration?_eq {s : Slots} (h : s.Coupled) {sample : Sample} (hcurrent : s.current = .ok sample) :
    s.iteration? = some s.iteration := by
  have hsome : s.iteration?.isSome = true := by
    rw [h.iteration]
    unfold current at hcurrent
    cases hslot : s.current? with
    | none =>
      rw [hslot] at hcurrent
      cases hcurrent
    | some current => rfl
  obtain ⟨i, hi⟩ := Option.isSome_iff_exists.1 hsome
  have hiteration : s.iteration = i := by
    rw [Slots.iteration, hi]
    rfl
  rw [hiteration, hi]

/-- The state that slots belong to, if they are coupled. -/
def progress (s : Slots) : Progress where
  bounds := s.bounds
  layout := s.layout
  levels := s.levels
  stage := match s.current?, s.previous? with
    | none, _ => .start
    | some current, none => .first ⟨s.iteration, current⟩
    | some current, some before => .later before ⟨s.iteration, current⟩

end Slots

namespace Progress

/-- The slots of a state. -/
def slots (p : Progress) : Slots :=
  ⟨p.bounds, p.layout, p.levels, p.iteration?, p.now?.map (·.sample), p.previous?⟩

theorem coupled_slots (p : Progress) : p.slots.Coupled := by
  obtain ⟨bounds, layout, levels, stage⟩ := p
  cases stage with
  | start => exact ⟨rfl, fun h => h⟩
  | first now => exact ⟨rfl, fun _ => rfl⟩
  | later before now => exact ⟨rfl, fun _ => rfl⟩

theorem progress_slots (p : Progress) : p.slots.progress = p := by
  obtain ⟨bounds, layout, levels, stage⟩ := p
  cases stage with
  | start => rfl
  | first now => rfl
  | later before now => rfl

/-- Coupled slots are a state and nothing else. -/
theorem slots_progress_iff {s : Slots} : s.progress.slots = s ↔ s.Coupled := by
  constructor
  · intro h
    rw [← h]
    exact s.progress.coupled_slots
  · obtain ⟨bounds, layout, levels, iteration?, current?, previous?⟩ := s
    rintro ⟨hiteration, hprevious⟩
    cases current? with
    | none =>
      obtain rfl : iteration? = none := Option.isNone_iff_eq_none.1 (Option.isSome_eq_false_iff.1 hiteration)
      cases previous? with
      | some before => cases hprevious rfl
      | none => rfl
    | some current =>
      obtain ⟨i, rfl⟩ := Option.isSome_iff_exists.1 hiteration
      cases previous? with
      | none => rfl
      | some before => rfl

section Simulates

variable (p : Progress)

theorem shift_slots (loaded : Loaded) : p.slots.shift loaded = (p.taken loaded).slots := by
  obtain ⟨bounds, layout, levels, stage⟩ := p
  cases stage with
  | start => rfl
  | first now => rfl
  | later before now => rfl

theorem receive_slots (loaded : Loaded) : p.slots.receive loaded = (p.receive loaded).map slots := by
  rw [receive_eq]
  unfold Slots.receive
  cases hnow : p.now? with
  | none =>
    have hcurrent : p.slots.current? = none := by
      rw [slots, hnow]
      rfl
    rw [hcurrent, shift_slots]
    rfl
  | some now =>
    have hcurrent : p.slots.current? = some now.sample := by
      rw [slots, hnow]
      rfl
    rw [hcurrent, shift_slots]
    by_cases hsize : now.sample.size = loaded.sample.size
    · simp only [hsize, ne_eq, not_true_eq_false, ↓reduceIte]
      rfl
    · simp only [hsize, ne_eq, not_false_eq_true, ↓reduceIte]
      rfl

/-- Over any machine the slots advance as the state does. -/
theorem advance_slots {m : Type → Type} [Monad m] [LawfulMonad m] [Host m] (sim : Simulation) :
    p.slots.advance (m := m) sim = (fun r => (r.1, r.2.slots)) <$> p.advance sim := by
  have hnext : p.slots.next sim = p.next sim := rfl
  unfold Slots.advance advance
  rw [hnext]
  cases p.next sim with
  | error failure =>
    dsimp only
    rw [map_pure]
  | ok i =>
    dsimp only
    rw [map_bind]
    refine bind_congr fun loaded => ?_
    cases loaded with
    | error error =>
      dsimp only
      rw [map_pure]
    | ok sample =>
      dsimp only
      rw [receive_slots]
      cases p.receive ⟨i, sample⟩ with
      | error failure =>
        dsimp only [Except.map]
        rw [map_pure]
      | ok after =>
        dsimp only [Except.map]
        rw [map_pure]

theorem current_slots : p.slots.current = p.current := by
  obtain ⟨bounds, layout, levels, stage⟩ := p
  cases stage with
  | start => rfl
  | first now => rfl
  | later before now => rfl

theorem deltas_slots : p.slots.deltas = p.deltas := by
  obtain ⟨bounds, layout, levels, stage⟩ := p
  cases stage with
  | start => rfl
  | first now => rfl
  | later before now => rfl

theorem report_slots : p.slots.report = p.report := by
  have hdeltas := p.deltas_slots
  obtain ⟨bounds, layout, levels, stage⟩ := p
  cases stage with
  | start => rfl
  | first now => rfl
  | later before now =>
    unfold Slots.report report Slots.deltaQuantiles deltaQuantiles
    rw [hdeltas]
    cases deltas ⟨bounds, layout, levels, .later before now⟩ with
    | error failure => rfl
    | ok deltas => rfl

end Simulates

end Progress

namespace Slots

/-- Slots answer as a state does. -/
structure Answers (s : Slots) (p : Progress) : Prop where
  iteration : s.iteration? = p.iteration?
  previous : s.previous? = p.previous?
  current : s.current = p.current
  hasPrevious : s.hasPrevious = p.hasPrevious
  deltas : s.deltas = p.deltas
  sortedWorkloads : s.sortedWorkloads = p.sortedWorkloads
  sortedDeltas : s.sortedDeltas = p.sortedDeltas
  workloadQuantiles : s.workloadQuantiles = p.workloadQuantiles
  deltaQuantiles : s.deltaQuantiles = p.deltaQuantiles
  report : s.report = p.report

theorem answers_slots (p : Progress) : p.slots.Answers p where
  iteration := rfl
  previous := rfl
  current := p.current_slots
  hasPrevious := rfl
  deltas := p.deltas_slots
  sortedWorkloads := congrArg (·.map Sample.sorted) p.current_slots
  sortedDeltas := congrArg (·.map Number.ascending) p.deltas_slots
  workloadQuantiles := congrArg (·.map fun sample => Quantile.ofValues sample.values p.levels) p.current_slots
  deltaQuantiles := congrArg (·.map fun deltas => Quantile.ofValues deltas p.levels) p.deltas_slots
  report := p.report_slots

/-- Slots, and the iterations with which the advances answered that led to them. -/
structure Journey where
  indices : List Nat
  slots : Slots

def Journey.advance (j : Journey) (call : Simulation × Workspace) : Journey :=
  let (answer, slots) := ((j.slots.advance call.1 : Desk (Except Failure Nat × Slots)) call.2).1
  ⟨j.indices ++ answer.toOption.toList, slots⟩

def journey (bounds : Bounds) (layout : Workloads.Layout) (levels : Quantile.Levels)
    (calls : List (Simulation × Workspace)) : Journey :=
  calls.foldl Journey.advance ⟨[], .start bounds layout levels⟩

end Slots

namespace Progress.Journey

/-- The journey of the slots that goes with one of states. -/
def slots (j : Journey) : Slots.Journey :=
  ⟨j.indices, j.state.slots⟩

theorem advance_slots (j : Journey) (call : Simulation × Workspace) :
    j.slots.advance call = (j.advance call).slots := by
  unfold Slots.Journey.advance advance slots
  rw [j.state.advance_slots]
  rfl

end Progress.Journey

namespace Slots

/-- No advance leaves the slots with an iteration alone or with workloads of an earlier one alone. -/
theorem Coupled.advance {s : Slots} (h : s.Coupled) (sim : Simulation) (w : Workspace) :
    ((s.advance sim : Desk (Except Failure Nat × Slots)) w).1.2.Coupled := by
  rw [← Progress.slots_progress_iff.2 h, Progress.advance_slots]
  exact Progress.coupled_slots _

/-- A journey of the slots goes with the journey of the states: it answers with the same iterations, and ends in slots
that are coupled and answer as the state does. Where there are workloads, their iteration is the one loaded. -/
theorem journey_simulates (bounds : Bounds) (layout : Workloads.Layout) (levels : Quantile.Levels)
    (calls : List (Simulation × Workspace)) :
    let j := journey bounds layout levels calls
    let k := Progress.journey bounds layout levels calls
    j.indices = k.indices ∧ j.slots = k.state.slots ∧ j.slots.Coupled ∧ j.slots.Answers k.state ∧
      ∀ sample, j.slots.current = .ok sample → j.slots.iteration? = some j.slots.iteration := by
  intro j k
  have hrun (k : Progress.Journey) :
      calls.foldl Journey.advance k.slots = (calls.foldl Progress.Journey.advance k).slots := by
    induction calls generalizing k with
    | nil => rfl
    | cons call rest ih =>
      rw [List.foldl_cons, List.foldl_cons, k.advance_slots]
      exact ih (k.advance call)
  have hj : j = k.slots := hrun ⟨[], .start bounds layout levels⟩
  rw [hj]
  have hcoupled : k.slots.slots.Coupled := k.state.coupled_slots
  exact ⟨rfl, rfl, hcoupled, answers_slots k.state, fun sample => hcoupled.iteration?_eq⟩

end Slots

end WorkloadAtlas
