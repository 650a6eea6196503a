import WorkloadAtlas.Proofs.Surroundings
import WorkloadAtlas.Run
/-!
The course of a run: what it writes to the log and which figures it has drawn, in which order, and how it ends if
no figure fails. The visualiser is arbitrary; all that is asked of it is that it stays within a kind of states, for
example those in which the files of the run are the same.
-/

namespace WorkloadAtlas.Run

open Replayable

/-- What a run does to its surroundings besides reading them. -/
inductive Event
  | log (entry : Log.Entry)
  | draw (figure : Figure)

/-- The figures that events draw. -/
def drawn : List Event → List Figure
  | [] => []
  | .log _ :: rest => drawn rest
  | .draw figure :: rest => figure :: drawn rest

theorem drawn_append (first second : List Event) : drawn (first ++ second) = drawn first ++ drawn second := by
  induction first with
  | nil => rfl
  | cons event rest ih =>
    cases event with
    | log entry => exact ih
    | draw figure => exact congrArg (figure :: ·) ih

/-- Lines in the log one after another. -/
def lines (entries : List Log.Entry) : List Event :=
  entries.map .log

theorem drawn_lines (entries : List Log.Entry) : drawn (lines entries) = [] := by
  induction entries with
  | nil => rfl
  | cons entry rest ih => exact ih

/-- Each figure is announced and then drawn. -/
def draws : List Figure → List Event
  | [] => []
  | figure :: rest => .log ⟨.info, .program, figure.announcement⟩ :: .draw figure :: draws rest

theorem drawn_draws (figures : List Figure) : drawn (draws figures) = figures := by
  induction figures with
  | nil => rfl
  | cons figure rest ih => exact congrArg (figure :: ·) ih

section Perform

variable {m : Type → Type} [Monad m] [Host m]

/-- Events one after another, up to the first figure that cannot be drawn. -/
def perform (draw : Visualiser m) (sim : Simulation) : List Event → ExceptT Failure m Unit
  | [] => pure ()
  | .log entry :: rest => do
    liftM (Host.log entry : m Unit)
    perform draw sim rest
  | .draw figure :: rest => do
    ExceptT.mk (draw sim figure)
    perform draw sim rest

variable {τ : Type} [Replayable m τ] {draw : Visualiser m} {sim : Simulation} {kind : τ → Prop}

theorem replay_perform_append (first second : List Event) (t : τ) :
    replay (perform draw sim (first ++ second)).run t =
      match replay (perform draw sim first).run t with
      | (.ok (), t') => replay (perform draw sim second).run t'
      | (.error failure, t') => (.error failure, t') := by
  induction first generalizing t with
  | nil => simp only [List.nil_append, perform, replay_run_pure]
  | cons event rest ih =>
    cases event with
    | log entry => simp only [List.cons_append, perform, replay_run_bind, replay_run_liftM, ih]
    | draw figure =>
      simp only [List.cons_append, perform, replay_run_bind]
      obtain ⟨failure | u, t'⟩ := replay (ExceptT.mk (draw sim figure)).run t
      · rfl
      · exact ih t'

theorem replay_perform_lines (entries : List Log.Entry) (t : τ) :
    replay (perform draw sim (lines entries)).run t = (.ok (), entries.foldl (logged m) t) := by
  induction entries generalizing t with
  | nil => exact replay_run_pure _ t
  | cons entry rest ih =>
    have hlines : lines (entry :: rest) = .log entry :: lines rest := rfl
    simp only [hlines, perform, replay_run_bind, replay_run_liftM, ih, List.foldl_cons]
    rfl

/-- A visualiser that stays within a kind of states, as the log does. -/
structure Steady (draw : Visualiser m) (sim : Simulation) (kind : τ → Prop) : Prop where
  log : LogStable m kind
  draw : ∀ t figure, kind t → kind (replay (draw sim figure) t).2

theorem Steady.perform (steady : Steady draw sim kind) (events : List Event) {t : τ} (ht : kind t) :
    kind (replay (perform draw sim events).run t).2 := by
  induction events generalizing t with
  | nil =>
    simp only [Run.perform, replay_run_pure]
    exact ht
  | cons event rest ih =>
    cases event with
    | log entry =>
      simp only [Run.perform, replay_run_bind, replay_run_liftM]
      exact ih (steady.log t entry ht)
    | draw figure =>
      have hdraw : kind (replay (ExceptT.mk (draw sim figure)).run t).2 := steady.draw t figure ht
      simp only [Run.perform, replay_run_bind]
      generalize replay (ExceptT.mk (draw sim figure)).run t = r at hdraw ⊢
      obtain ⟨failure | u, t'⟩ := r
      · exact hdraw
      · exact ih hdraw

/-- The end of a run that performs events and has an outcome of its own if none of them fails. -/
def played {α : Type} (draw : Visualiser m) (sim : Simulation) (events : List Event)
    (outcome : Except Failure α) (t : τ) : Except Failure α × τ :=
  match replay (perform draw sim events).run t with
  | (.ok (), t') => (outcome, t')
  | (.error failure, t') => (.error failure, t')

theorem played_of_drawn {α : Type} (draws : ∀ t figure, (replay (draw sim figure) t).1 = .ok ())
    (events : List Event) (outcome : Except Failure α) (t : τ) :
    (played draw sim events outcome t).1 = outcome := by
  have hperform : (replay (perform draw sim events).run t).1 = .ok () := by
    induction events generalizing t with
    | nil => rw [perform, replay_run_pure]
    | cons event rest ih =>
      cases event with
      | log entry =>
        simp only [perform, replay_run_bind, replay_run_liftM]
        exact ih _
      | draw figure =>
        have hdraw : (replay (ExceptT.mk (draw sim figure)).run t).1 = .ok () := draws t figure
        simp only [perform, replay_run_bind]
        generalize replay (ExceptT.mk (draw sim figure)).run t = r at hdraw ⊢
        obtain ⟨drawn, t'⟩ := r
        subst hdraw
        exact ih t'
  unfold played
  generalize replay (perform draw sim events).run t = r at hperform ⊢
  obtain ⟨performed, t'⟩ := r
  subst hperform
  rfl

/-- In every state of the kind, `x` performs the events up to the first figure that fails; if none fails, it ends
with the outcome. -/
def Course (draw : Visualiser m) (sim : Simulation) (kind : τ → Prop) {α : Type} (x : ExceptT Failure m α)
    (events : List Event) (outcome : Except Failure α) : Prop :=
  ∀ t, kind t → replay x.run t = played draw sim events outcome t

namespace Course

variable {α β : Type} {events : List Event}

theorem ofQuiet {x : m (Except Failure α)} {entries : List Log.Entry} {outcome : Except Failure α}
    (h : Quiet kind x entries outcome) : Course draw sim kind (ExceptT.mk x) (lines entries) outcome := by
  intro t ht
  simp only [played, replay_perform_lines]
  exact h t ht

theorem pure (a : α) : Course draw sim kind (pure a : ExceptT Failure m α) [] (.ok a) :=
  ofQuiet (.pure (Except.ok a))

theorem figure (figure : Figure) :
    Course draw sim kind (ExceptT.mk (draw sim figure)) [.draw figure] (.ok ()) := by
  intro t _
  simp only [played, perform, replay_run_bind, replay_run_pure]
  obtain ⟨failure | u, t'⟩ := replay (ExceptT.mk (draw sim figure)).run t
  · rfl
  · rfl

theorem bind (steady : Steady draw sim kind) {x : ExceptT Failure m α} {a : α} {f : α → ExceptT Failure m β}
    {more : List Event} {outcome : Except Failure β} (hx : Course draw sim kind x events (.ok a))
    (hf : Course draw sim kind (f a) more outcome) :
    Course draw sim kind (x >>= f) (events ++ more) outcome := by
  intro t ht
  have hkind := steady.perform events ht
  rw [replay_run_bind, hx t ht]
  simp only [played, replay_perform_append]
  generalize replay (perform draw sim events).run t = r at hkind ⊢
  obtain ⟨failure | u, t'⟩ := r
  · rfl
  · exact hf t' hkind

/-- What comes after a failure is not reached. -/
theorem bind_error {x : ExceptT Failure m α} {failure : Failure} (f : α → ExceptT Failure m β)
    (hx : Course draw sim kind x events (.error failure)) :
    Course draw sim kind (x >>= f) events (.error failure) := by
  intro t ht
  rw [replay_run_bind, hx t ht]
  simp only [played]
  obtain ⟨failure | u, t'⟩ := replay (perform draw sim events).run t
  · rfl
  · rfl

/-- A rest without events. -/
theorem bind_nil (steady : Steady draw sim kind) {x : ExceptT Failure m α} {a : α}
    {f : α → ExceptT Failure m β} {outcome : Except Failure β} (hx : Course draw sim kind x events (.ok a))
    (hf : Course draw sim kind (f a) [] outcome) : Course draw sim kind (x >>= f) events outcome := by
  have h := bind steady hx hf
  rwa [List.append_nil] at h

/-- A quiet step before the rest of a run. -/
theorem quietly (steady : Steady draw sim kind) {x : m α} {entries : List Log.Entry} {a : α}
    {f : α → ExceptT Failure m β} {outcome : Except Failure β} (hx : Quiet kind x entries a)
    (hf : Course draw sim kind (f a) events outcome) :
    Course draw sim kind (liftM x >>= f) (lines entries ++ events) outcome :=
  bind steady (ofQuiet (hx.map Except.ok)) hf

/-- A line in the log before the rest of a run. -/
theorem line (steady : Steady draw sim kind) {entry : Log.Entry} {f : Unit → ExceptT Failure m β}
    {outcome : Except Failure β} (hf : Course draw sim kind (f ()) events outcome) :
    Course draw sim kind (liftM (Host.log entry : m Unit) >>= f) (.log entry :: events) outcome :=
  quietly steady (.log entry) hf

/-- A settled step before the rest of a run. -/
theorem settledly (steady : Steady draw sim kind) {r : Except Failure α} {a : α}
    {f : α → ExceptT Failure m β} {outcome : Except Failure β} (hr : r = .ok a)
    (hf : Course draw sim kind (f a) events outcome) :
    Course draw sim kind (ExceptT.mk (Pure.pure r) >>= f) events outcome := by
  subst hr
  exact bind steady (ofQuiet (.pure (Except.ok a))) hf

theorem drawAll (steady : Steady draw sim kind) (figures : List Figure) :
    Course draw sim kind (drawAll draw sim figures) (draws figures) (.ok ()) := by
  induction figures with
  | nil => exact pure ()
  | cons f rest ih => exact line steady (bind steady (figure f) ih)

theorem ofRepeat [Nonempty β] {f : α → ExceptT Failure m (α ⊕ β)} {a : α} {outcome : Except Failure β}
    (h : Course draw sim kind (repeatM.body f (repeatM f) a) events outcome) :
    Course draw sim kind (repeatM f a) events outcome := by
  intro t ht
  rw [replay_repeatM, h t ht]

end Course

end Perform

end WorkloadAtlas.Run
