import WorkloadAtlas.Progress
import WorkloadAtlas.Proofs.Endpoints
import WorkloadAtlas.Proofs.Surroundings
/-!
What loading gives, as a function of the files. Loading is quiet, and loading all iterations stops at the first
one that cannot be loaded. If the last iteration cannot be calculated none of them is tried.
-/

namespace WorkloadAtlas

open Replayable

namespace Workloads

/-- The workloads of one iteration as they stand in the files. -/
def inFiles (files : Files.Tree) (sim : Simulation) (layout : Layout) (iteration : Nat) : Except Error Sample :=
  let path := layout.path sim iteration
  if files.isFile path then
    match (files.read path).map Files.Document.toBytes with
    | .error error => .error (.malformed path error.message)
    | .ok bytes => ofBytes path layout bytes
  else .error (.missing path)

variable {m : Type → Type} {τ : Type} [Monad m] [Host m] [Replayable m τ] {kind : τ → Prop}
  {sim : Simulation} {layout : Layout}

/-- The line in the log before an iteration is loaded. -/
def announcement (sim : Simulation) (layout : Layout) (iteration : Nat) : Log.Entry :=
  ⟨.debug, .loading, s!"Loading workloads from {(layout.path sim iteration).text}"⟩

theorem quiet_load (stable : LogStable m kind) {files : Files.Tree} {iteration : Nat}
    (isFile : ∀ t, kind t →
      (Replayable.files m t).isFile (layout.path sim iteration) = files.isFile (layout.path sim iteration))
    (read : ∀ t, kind t →
      ((Replayable.files m t).read (layout.path sim iteration)).map Files.Document.toBytes =
        (files.read (layout.path sim iteration)).map Files.Document.toBytes) :
    Quiet kind (load sim layout iteration : m (Except Error Sample)) [announcement sim layout iteration]
      (inFiles files sim layout iteration) := by
  simp only [load, inFiles]
  refine .line stable (.silently stable (.isFile isFile) ?_)
  cases files.isFile (layout.path sim iteration) with
  | false =>
    simp only [Bool.false_eq_true, ↓reduceIte]
    exact .pure _
  | true =>
    simp only [↓reduceIte]
    refine .silently stable (.read read) ?_
    cases (files.read (layout.path sim iteration)).map Files.Document.toBytes with
    | error error => exact .pure _
    | ok bytes => exact .pure _

theorem quiet_load_files (t : τ) (sim : Simulation) (layout : Layout) (iteration : Nat) :
    Quiet (fun t' => Replayable.files m t' = Replayable.files m t)
      (load sim layout iteration : m (Except Error Sample)) [announcement sim layout iteration]
      (inFiles (Replayable.files m t) sim layout iteration) :=
  quiet_load (logStable_files t) (fun _ h => by rw [h]) (fun _ h => by rw [h])

/-- The samples of `count` iterations from `first` on, if `sample` gives the one of each iteration. -/
def gather (sample : Nat → Except Error Sample) : Nat → Nat → Except Error (List Loaded)
  | 0, _ => .ok []
  | count + 1, first =>
    match sample first with
    | .error error => .error error
    | .ok s => (gather sample count (first + 1)).map (⟨first, s⟩ :: ·)

theorem gather_eq_ok {sample : Nat → Except Error Sample} {known : Nat → Sample} {count first : Nat}
    (h : ∀ i ∈ List.range' first count, sample i = .ok (known i)) :
    gather sample count first = .ok ((List.range' first count).map fun i => ⟨i, known i⟩) := by
  induction count generalizing first with
  | zero => rfl
  | succ count ih =>
    have hrest := ih fun i hi => h i (List.mem_cons_of_mem _ hi)
    simp only [gather, h first List.mem_cons_self, hrest, Except.map, List.range'_succ, List.map_cons]

/-- The iterations that are loaded until one of them fails. -/
def tried (sample : Nat → Except Error Sample) : Nat → Nat → List Nat
  | 0, _ => []
  | count + 1, first =>
    first :: match sample first with
      | .error _ => []
      | .ok _ => tried sample count (first + 1)

/-- The first iteration that cannot be loaded is the one that is reported. -/
theorem gather_eq_error {sample : Nat → Except Error Sample} {count first i : Nat} {error : Error}
    (hi : i ∈ List.range' first count) (he : sample i = .error error)
    (before : ∀ j, first ≤ j → j < i → ∃ s, sample j = .ok s) :
    gather sample count first = .error error := by
  induction count generalizing first with
  | zero => cases hi
  | succ count ih =>
    rw [List.range'_succ, List.mem_cons] at hi
    rcases hi with rfl | hi
    · simp only [gather, he]
    · have hlt : first < i := (List.mem_range'_1.1 hi).1
      obtain ⟨s, hs⟩ := before first (Nat.le_refl _) hlt
      simp only [gather, hs, ih hi fun j hj => before j (Nat.le_of_succ_le hj), Except.map]

/-- Files in which the workloads of a simulation are found as they are in `files`. -/
def Alike (sim : Simulation) (layout : Layout) (files files' : Files.Tree) : Prop :=
  ∀ i ∈ sim.iterations,
    files'.isFile (layout.path sim i) = files.isFile (layout.path sim i) ∧
    (files'.read (layout.path sim i)).map Files.Document.toBytes =
      (files.read (layout.path sim i)).map Files.Document.toBytes

theorem Alike.refl (sim : Simulation) (layout : Layout) (files : Files.Tree) : Alike sim layout files files :=
  fun _ _ => ⟨rfl, rfl⟩

theorem quiet_loadFrom (stable : LogStable m kind) {files : Files.Tree}
    (alike : ∀ t, kind t → Alike sim layout files (Replayable.files m t)) {count first : Nat}
    (within : ∀ i ∈ List.range' first count, i ∈ sim.iterations) :
    Quiet kind (loadFrom sim layout count first : m (Except Error (List Loaded)))
      ((tried (inFiles files sim layout) count first).map (announcement sim layout))
      (gather (inFiles files sim layout) count first) := by
  induction count generalizing first with
  | zero => exact .pure _
  | succ count ih =>
    have hfirst := within first List.mem_cons_self
    have hload : Quiet kind (load sim layout first : m (Except Error Sample)) _ _ :=
      quiet_load stable (fun t ht => (alike t ht first hfirst).1) (fun t ht => (alike t ht first hfirst).2)
    unfold loadFrom gather tried
    refine .bind stable hload ?_
    cases inFiles files sim layout first with
    | error error => exact .pure _
    | ok s => exact .bind_nil stable (ih fun i hi => within i (List.mem_cons_of_mem _ hi)) (.pure _)

/-- The samples of all iterations of a simulation, if `sample` gives the one of each iteration. -/
def gatherAll (sample : Nat → Except Error Sample) (sim : Simulation) : Except Failure (List Loaded) :=
  match sim.iterations? with
  | none => .error .overflow
  | some iterations => (gather sample iterations.size iterations.first).mapError .load

/-- The iterations of a simulation that are loaded until one of them fails. -/
def triedAll (sample : Nat → Except Error Sample) (sim : Simulation) : List Nat :=
  match sim.iterations? with
  | none => []
  | some iterations => tried sample iterations.size iterations.first

theorem gatherAll_of_isWord (sample : Nat → Except Error Sample) (h : Number.IsWord sim.stop) :
    gatherAll sample sim = (gather sample sim.count sim.first).mapError .load := by
  rw [gatherAll, Simulation.iterations?_of_isWord h]
  dsimp only
  rw [sim.size_span]
  rfl

theorem gatherAll_of_not_isWord (sample : Nat → Except Error Sample) (h : ¬ Number.IsWord sim.stop) :
    gatherAll sample sim = .error .overflow := by
  rw [gatherAll, Simulation.iterations?_of_not_isWord h]

theorem gatherAll_eq_ok {sample : Nat → Except Error Sample} {known : Nat → Sample} (h : Number.IsWord sim.stop)
    (found : ∀ i ∈ sim.iterations, sample i = .ok (known i)) :
    gatherAll sample sim = .ok (sim.iterations.map fun i => ⟨i, known i⟩) := by
  rw [gatherAll_of_isWord sample h, gather_eq_ok found]
  rfl

theorem gatherAll_eq_error {sample : Nat → Except Error Sample} {i : Nat} {error : Error}
    (h : Number.IsWord sim.stop) (hi : i ∈ sim.iterations) (he : sample i = .error error)
    (before : ∀ j ∈ sim.iterations, j < i → ∃ s, sample j = .ok s) :
    gatherAll sample sim = .error (.load error) := by
  have hrange := List.mem_range'_1.1 hi
  rw [gatherAll_of_isWord sample h, gather_eq_error hi he fun j hj hlt =>
    before j (List.mem_range'_1.2 ⟨hj, by omega⟩) hlt]
  rfl

theorem quiet_loadAll (stable : LogStable m kind) {files : Files.Tree}
    (alike : ∀ t, kind t → Alike sim layout files (Replayable.files m t)) :
    Quiet kind (loadAll sim layout : m (Except Failure (List Loaded)))
      ((triedAll (inFiles files sim layout) sim).map (announcement sim layout))
      (gatherAll (inFiles files sim layout) sim) := by
  unfold loadAll gatherAll triedAll
  by_cases h : Number.IsWord sim.stop
  · rw [Simulation.iterations?_of_isWord h]
    refine .bind_nil stable (quiet_loadFrom stable alike fun i hi => ?_) (.pure _)
    rwa [← sim.toList_span]
  · rw [Simulation.iterations?_of_not_isWord h]
    exact .pure _

end Workloads

/-- The workloads of one iteration as loading finds them in a workspace. -/
def Workspace.workloads (w : Workspace) (sim : Simulation) (layout : Workloads.Layout) (iteration : Nat) :
    Except Workloads.Error Sample :=
  ((Workloads.load sim layout iteration : Desk (Except Workloads.Error Sample)) w).1

theorem Workspace.workloads_eq (w : Workspace) (sim : Simulation) (layout : Workloads.Layout) :
    w.workloads sim layout = Workloads.inFiles w.files sim layout := by
  funext iteration
  exact congrArg Prod.fst (Workloads.quiet_load_files (m := Desk) w sim layout iteration w rfl)

end WorkloadAtlas
