import WorkloadAtlas.Proofs.Loading
/-!
One advance and any number of them. An advance either takes up the workloads of the next iteration or leaves the
state as it was, so that a session of advances loads the iterations of its simulation one after another, however
often it fails in between and whatever happens to the files meanwhile.
-/

namespace WorkloadAtlas.Progress

open Number (IsWord)
open Replayable

/-- One advance, if `sample` gives the workloads of each iteration. -/
def advanced (sample : Nat → Except Workloads.Error Sample) (p : Progress) (sim : Simulation) :
    Except Failure Nat × Progress :=
  match p.next sim with
  | .error failure => (.error failure, p)
  | .ok iteration =>
    match sample iteration with
    | .error error => (.error (.load error), p)
    | .ok s =>
      match p.receive ⟨iteration, s⟩ with
      | .error failure => (.error failure, p)
      | .ok p => (.ok iteration, p)

/-- The state in which `loaded` is the iteration loaded last and what was loaded last is the one before. -/
def taken (p : Progress) (loaded : Loaded) : Progress :=
  { p with stage := match p.now? with
                    | none => .first loaded
                    | some now => .later now.sample loaded }

@[simp] theorem taken_now? (p : Progress) (loaded : Loaded) : (p.taken loaded).now? = some loaded := by
  unfold taken
  cases p.now? <;> rfl

@[simp] theorem taken_iteration? (p : Progress) (loaded : Loaded) :
    (p.taken loaded).iteration? = some loaded.iteration := by
  simp only [iteration?, taken_now?, Option.map_some]

theorem taken_current (p : Progress) (loaded : Loaded) : (p.taken loaded).current = .ok loaded.sample := by
  simp only [current, now, taken_now?, Except.map]

theorem taken_previous? (p : Progress) (loaded : Loaded) :
    (p.taken loaded).previous? = p.current.toOption := by
  unfold taken current now
  cases p.now? <;> rfl

theorem taken_hasPrevious (p : Progress) (loaded : Loaded) :
    (p.taken loaded).hasPrevious = p.iteration?.isSome := by
  unfold hasPrevious iteration?
  rw [taken_previous?]
  unfold current now
  cases p.now? <;> rfl

theorem receive_eq (p : Progress) (loaded : Loaded) :
    p.receive loaded =
      match p.now? with
      | none => .ok (p.taken loaded)
      | some now =>
        if now.sample.size = loaded.sample.size then .ok (p.taken loaded)
        else .error (.workerCount loaded.iteration now.sample.size loaded.sample.size) := by
  unfold receive taken
  cases p.now? <;> rfl

section Next

variable {p : Progress} {sim : Simulation} {i : Nat}

theorem next_of_none (h : p.iteration? = none) : p.next sim = .ok sim.first := by
  rw [next, h]

/-- After the first iteration the end of the simulation matters, which may be too great to be calculated. -/
theorem next_of_not_isWord (hstop : ¬ IsWord sim.stop) (h : p.iteration? = some i) :
    p.next sim = .error .overflow := by
  rw [next, h]
  dsimp only
  rw [Simulation.isLast?_of_not_isWord hstop]
  rfl

theorem next_of_last (hstop : IsWord sim.stop) (h : p.iteration? = some sim.last) :
    p.next sim = .error (.exhausted sim.count) := by
  rw [next, h]
  dsimp only
  rw [Simulation.isLast?_of_isWord hstop, Simulation.isLast_iff.2 rfl]
  rfl

theorem next_of_ne (hstop : IsWord sim.stop) (h : p.iteration? = some i) (hne : i ≠ sim.last) :
    p.next sim = Failure.checked (Number.sum? i 1) := by
  have hlast : sim.isLast i = false := Bool.eq_false_iff.2 fun heq => hne (Simulation.isLast_iff.1 heq)
  rw [next, h]
  dsimp only
  rw [Simulation.isLast?_of_isWord hstop, hlast]
  rfl

theorem next_of_lt (hstop : IsWord sim.stop) (h : p.iteration? = some i) (hlt : i < sim.last) :
    p.next sim = .ok (i + 1) := by
  have hword : IsWord (i + 1) := Nat.lt_of_le_of_lt hlt sim.isWord_last
  rw [next_of_ne hstop h (Nat.ne_of_lt hlt), Number.sum?_of_isWord hword]
  rfl

theorem next_of_beyond (h : p.iteration? = some i) (hbeyond : IsWord sim.stop → i ≠ sim.last ∧ ¬ IsWord (i + 1)) :
    p.next sim = .error .overflow := by
  by_cases hstop : IsWord sim.stop
  · rw [next_of_ne hstop h (hbeyond hstop).1, Number.sum?_of_not_isWord (hbeyond hstop).2]
    rfl
  · exact next_of_not_isWord hstop h

/-- There is no next iteration after the last one, or if the arithmetic on the way to it overflows. -/
theorem next_eq_error {failure : Failure} (h : p.next sim = .error failure) :
    (IsWord sim.stop ∧ p.iteration? = some sim.last ∧ failure = .exhausted sim.count) ∨
      ∃ i, p.iteration? = some i ∧ (IsWord sim.stop → i ≠ sim.last ∧ ¬ IsWord (i + 1)) ∧ failure = .overflow := by
  cases hi : p.iteration? with
  | none =>
    rw [next_of_none hi] at h
    cases h
  | some i =>
    by_cases hstop : IsWord sim.stop
    · by_cases hlast : i = sim.last
      · subst hlast
        rw [next_of_last hstop hi] at h
        cases h
        exact .inl ⟨hstop, rfl, rfl⟩
      · rw [next_of_ne hstop hi hlast] at h
        by_cases hword : IsWord (i + 1)
        · rw [Number.sum?_of_isWord hword] at h
          cases h
        · rw [Number.sum?_of_not_isWord hword] at h
          cases h
          exact .inr ⟨i, rfl, fun _ => ⟨hlast, hword⟩, rfl⟩
    · rw [next_of_not_isWord hstop hi] at h
      cases h
      exact .inr ⟨i, rfl, fun hword => absurd hword hstop, rfl⟩

end Next

theorem advanced_eq_ok {sample : Nat → Except Workloads.Error Sample} {p : Progress} {sim : Simulation} {i : Nat}
    {s : Sample} (hn : p.next sim = .ok i) (hs : sample i = .ok s)
    (hsize : ∀ now, p.now? = some now → now.sample.size = s.size) :
    p.advanced sample sim = (.ok i, p.taken ⟨i, s⟩) := by
  simp only [advanced, hn, hs, receive_eq]
  cases hnow : p.now? with
  | none => rfl
  | some now => simp only [hsize now hnow, ↓reduceIte]

/-- All that one advance can do: four ways to fail, each of which leaves the state alone, and one to succeed. -/
inductive Advance (sample : Nat → Except Workloads.Error Sample) (sim : Simulation) (p : Progress) :
    Except Failure Nat → Progress → Prop
  | exhausted : IsWord sim.stop → p.iteration? = some sim.last →
      Advance sample sim p (.error (.exhausted sim.count)) p
  | overflowed {i : Nat} : p.iteration? = some i → (IsWord sim.stop → i ≠ sim.last ∧ ¬ IsWord (i + 1)) →
      Advance sample sim p (.error .overflow) p
  | unloaded {i : Nat} {error : Workloads.Error} : p.next sim = .ok i → sample i = .error error →
      Advance sample sim p (.error (.load error)) p
  | miscounted {i : Nat} {s : Sample} {now : Loaded} : p.next sim = .ok i → sample i = .ok s →
      p.now? = some now → now.sample.size ≠ s.size →
      Advance sample sim p (.error (.workerCount i now.sample.size s.size)) p
  | taken {i : Nat} {s : Sample} : p.next sim = .ok i → sample i = .ok s →
      (∀ now, p.now? = some now → now.sample.size = s.size) → Advance sample sim p (.ok i) (p.taken ⟨i, s⟩)

theorem advance_advanced (sample : Nat → Except Workloads.Error Sample) (p : Progress) (sim : Simulation) :
    Advance sample sim p (p.advanced sample sim).1 (p.advanced sample sim).2 := by
  cases hn : p.next sim with
  | error failure =>
    simp only [advanced, hn]
    rcases next_eq_error hn with ⟨hstop, hlast, rfl⟩ | ⟨i, hi, hbeyond, rfl⟩
    · exact .exhausted hstop hlast
    · exact .overflowed hi hbeyond
  | ok i =>
    cases hs : sample i with
    | error error =>
      simp only [advanced, hn, hs]
      exact .unloaded hn hs
    | ok s =>
      by_cases hsize : ∀ now, p.now? = some now → now.sample.size = s.size
      · rw [advanced_eq_ok hn hs hsize]
        exact .taken hn hs hsize
      · simp only [Classical.not_forall, exists_prop] at hsize
        obtain ⟨now, hnow, hne⟩ := hsize
        simp only [advanced, hn, hs, receive_eq, hnow, hne, ↓reduceIte]
        exact .miscounted hn hs hnow hne

/-- Where there is no next iteration the advance ends with the reason for that. -/
theorem Advance.eq_error_of_next {sample : Nat → Except Workloads.Error Sample} {p after : Progress}
    {sim : Simulation} {answer : Except Failure Nat} {failure : Failure} (step : Advance sample sim p answer after)
    (hn : p.next sim = .error failure) : answer = .error failure := by
  cases step with
  | exhausted hstop hlast => rw [← hn, next_of_last hstop hlast]
  | overflowed hi hbeyond => rw [← hn, next_of_beyond hi hbeyond]
  | unloaded hn' hs => rw [hn] at hn'; cases hn'
  | miscounted hn' hs hnow hne => rw [hn] at hn'; cases hn'
  | taken hn' hs hsize => rw [hn] at hn'; cases hn'

section Replay

variable {m : Type → Type} {τ : Type} [Monad m] [Host m] [Replayable m τ] {kind : τ → Prop}

/-- The lines that an advance writes to the log. -/
def advanceLines (p : Progress) (sim : Simulation) : List Log.Entry :=
  match p.next sim with
  | .error _ => []
  | .ok i => [Workloads.announcement sim p.layout i]

theorem quiet_advance (stable : LogStable m kind) {files : Files.Tree} (p : Progress) (sim : Simulation)
    (load : ∀ i, p.next sim = .ok i →
      Quiet kind (Workloads.load sim p.layout i : m (Except Workloads.Error Sample))
        [Workloads.announcement sim p.layout i] (Workloads.inFiles files sim p.layout i)) :
    Quiet kind (p.advance sim : m (Except Failure Nat × Progress)) (p.advanceLines sim)
      (p.advanced (Workloads.inFiles files sim p.layout) sim) := by
  unfold advance advanced advanceLines
  cases hn : p.next sim with
  | error failure => exact .pure _
  | ok i =>
    refine .bind stable (load i hn) ?_
    cases hs : Workloads.inFiles files sim p.layout i with
    | error error =>
      simp only [hs]
      exact .pure _
    | ok s =>
      simp only [hs]
      cases p.receive ⟨i, s⟩ with
      | error failure => exact .pure _
      | ok p => exact .pure _

end Replay

/-- At a workspace an advance is settled by the workloads that stand in its files, which stay as they are. -/
theorem advance_eq (p : Progress) (sim : Simulation) (w : Workspace) :
    (((p.advance sim : Desk (Except Failure Nat × Progress)) w).1 =
      p.advanced (w.workloads sim p.layout) sim) ∧
    ((p.advance sim : Desk (Except Failure Nat × Progress)) w).2.files = w.files := by
  have h := quiet_advance (logStable_files w) p sim fun i _ =>
    Workloads.quiet_load_files (m := Desk) w sim p.layout i
  have hw : (p.advance sim : Desk (Except Failure Nat × Progress)) w = _ := h w rfl
  rw [hw, Workspace.workloads_eq]
  exact ⟨rfl, files_foldl_logged (m := Desk) (p.advanceLines sim) w⟩

end WorkloadAtlas.Progress
