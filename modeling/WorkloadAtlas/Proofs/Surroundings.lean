import WorkloadAtlas.Workspace
/-!
Surroundings whose effects can be replayed: an action there is a function of a state that holds the files.
An action is quiet if, apart from lines in the log, it leaves that state alone. What a quiet action gives back is
then settled by what it reads.
-/

namespace WorkloadAtlas

/-- Surroundings in which an action is a function of a state `τ`. Only the log and the files of that state are
told apart; a line in the log changes no file. -/
class Replayable (m : Type → Type) (τ : outParam Type) [Monad m] [Host m] where
  files : τ → Files.Tree
  replay {α : Type} : m α → τ → α × τ
  replay_pure {α : Type} (a : α) (t : τ) : replay (pure a) t = (a, t)
  replay_map {α β : Type} (f : α → β) (x : m α) (t : τ) :
    replay (f <$> x) t = (f (replay x t).1, (replay x t).2)
  replay_bind {α β : Type} (x : m α) (f : α → m β) (t : τ) :
    replay (x >>= f) t = replay (f (replay x t).1) (replay x t).2
  replay_isFile (path : Path) (t : τ) : replay (Host.isFile path) t = ((files t).isFile path, t)
  replay_read (path : Path) (t : τ) :
    replay (Host.read path) t = (((files t).read path).map Files.Document.toBytes, t)
  files_log (entry : Log.Entry) (t : τ) : files (replay (Host.log entry) t).2 = files t
  /-- A loop is its first pass followed by the loop itself, if that pass does not end it. -/
  replay_repeatM {α β ε : Type} [Nonempty β] (f : α → ExceptT ε m (α ⊕ β)) (a : α) (t : τ) :
    replay (repeatM f a).run t = replay (repeatM.body f (repeatM f) a).run t

instance : Inhabited Workspace := ⟨.ofFiles .empty⟩

instance : Replayable Desk Workspace where
  files w := w.files
  replay x w := x w
  replay_pure _ _ := rfl
  replay_map _ _ _ := rfl
  replay_bind _ _ _ := rfl
  replay_isFile _ _ := rfl
  replay_read _ _ := rfl
  files_log _ _ := rfl
  replay_repeatM f a w := by rw [repeatM_eq_of_monadTail]

/-- The state of a visualiser stands beside the workspace. -/
instance {σ : Type} : Replayable (StateT σ Desk) (σ × Workspace) where
  files t := t.2.files
  replay x t := ((x t.1 t.2).1.1, (x t.1 t.2).1.2, (x t.1 t.2).2)
  replay_pure _ _ := rfl
  replay_map _ _ _ := rfl
  replay_bind _ _ _ := rfl
  replay_isFile _ _ := rfl
  replay_read _ _ := rfl
  files_log _ _ := rfl
  replay_repeatM f a t := by
    have : Nonempty σ := ⟨t.1⟩
    rw [repeatM_eq_of_monadTail]

namespace Replayable

variable {m : Type → Type} {τ : Type} [Monad m] [Host m] [Replayable m τ]

theorem replay_run_pure {α ε : Type} (a : α) (t : τ) :
    replay (pure a : ExceptT ε m α).run t = (.ok a, t) :=
  replay_pure (m := m) (Except.ok a) t

theorem replay_run_liftM {α ε : Type} (x : m α) (t : τ) :
    replay (liftM x : ExceptT ε m α).run t = (.ok (replay x t).1, (replay x t).2) :=
  replay_map Except.ok x t

/-- The second part of a sequence is reached only if the first one does not fail. -/
theorem replay_run_bind {α β ε : Type} (x : ExceptT ε m α) (f : α → ExceptT ε m β) (t : τ) :
    replay (x >>= f).run t =
      match replay x.run t with
      | (.ok a, t') => replay (f a).run t'
      | (.error e, t') => (.error e, t') := by
  have h : replay (x >>= f).run t = replay (x.run >>= ExceptT.bindCont f) t := rfl
  rw [h, replay_bind]
  generalize replay x.run t = r
  obtain ⟨a | a, t'⟩ := r
  · exact replay_pure (m := m) _ t'
  · rfl

theorem replay_run_bind_eq_ok {α β ε : Type} {x : ExceptT ε m α} {f : α → ExceptT ε m β} {t t' : τ} {b : β}
    (h : replay (x >>= f).run t = (.ok b, t')) :
    ∃ a middle, replay x.run t = (.ok a, middle) ∧ replay (f a).run middle = (.ok b, t') := by
  rw [replay_run_bind] at h
  generalize replay x.run t = r at h
  obtain ⟨a | a, middle⟩ := r
  · cases h
  · exact ⟨a, middle, rfl, h⟩

/-- The state after a line in the log. -/
def logged (m : Type → Type) {τ : Type} [Monad m] [Host m] [Replayable m τ] (t : τ) (entry : Log.Entry) : τ :=
  (replay (Host.log entry : m Unit) t).2

theorem replay_run_info {α ε : Type} (message : String) (f : Unit → ExceptT ε m α) (t : τ) :
    replay (liftM (Host.info message : m Unit) >>= f).run t =
      replay (f ()).run (logged m t ⟨.info, .program, message⟩) := by
  rw [replay_run_bind, replay_run_liftM]
  rfl

/-- A step whose outcome does not depend on the state. -/
theorem replay_run_settled {α β ε : Type} (r : Except ε α) (f : α → ExceptT ε m β) (t : τ) :
    replay (ExceptT.mk (pure r) >>= f).run t =
      match r with
      | .ok a => replay (f a).run t
      | .error e => (.error e, t) := by
  have h : replay (ExceptT.mk (pure (f := m) r)).run t = (r, t) := replay_pure (m := m) r t
  rw [replay_run_bind, h]
  cases r <;> rfl

/-- A step whose failures are told in the words of a larger one. -/
theorem replay_run_told {α β ε ε' : Type} (tell : ε → ε') (x : m (Except ε α)) (f : α → ExceptT ε' m β) (t : τ) :
    replay (ExceptT.mk (Except.mapError tell <$> x) >>= f).run t =
      match replay x t with
      | (.ok a, t') => replay (f a).run t'
      | (.error e, t') => (.error (tell e), t') := by
  have h : replay (ExceptT.mk (Except.mapError tell <$> x)).run t =
    (Except.mapError tell (replay x t).1, (replay x t).2) := replay_map _ x t
  rw [replay_run_bind, h]
  generalize replay x t = r
  obtain ⟨a | a, t'⟩ := r
  · rfl
  · rfl

theorem files_foldl_logged (entries : List Log.Entry) (t : τ) :
    files m (entries.foldl (logged m) t) = files m t := by
  induction entries generalizing t with
  | nil => rfl
  | cons entry rest ih => exact (ih _).trans (files_log (m := m) entry t)

/-- In every state of a kind, `x` gives back `a` and does no more than write the lines to the log. -/
def Quiet (kind : τ → Prop) {α : Type} (x : m α) (lines : List Log.Entry) (a : α) : Prop :=
  ∀ t, kind t → replay x t = (a, lines.foldl (logged m) t)

/-- A kind of states that lines in the log do not leave. -/
def LogStable (m : Type → Type) {τ : Type} [Monad m] [Host m] [Replayable m τ] (kind : τ → Prop) : Prop :=
  ∀ t entry, kind t → kind (logged m t entry)

theorem LogStable.foldl {kind : τ → Prop} (h : LogStable m kind) (entries : List Log.Entry) {t : τ}
    (ht : kind t) : kind (entries.foldl (logged m) t) := by
  induction entries generalizing t with
  | nil => exact ht
  | cons entry rest ih => exact ih (h t entry ht)

/-- The states with the same files as `t`. -/
theorem logStable_files (t : τ) : LogStable m fun t' => files m t' = files m t :=
  fun t' entry h => (files_log (m := m) entry t').trans h

namespace Quiet

variable {kind : τ → Prop} {α β : Type} {lines : List Log.Entry}

theorem pure (a : α) : Quiet kind (pure a : m α) [] a :=
  fun t _ => replay_pure (m := m) a t

theorem log (entry : Log.Entry) : Quiet kind (Host.log entry : m Unit) [entry] () :=
  fun _ _ => rfl

theorem map {x : m α} {a : α} (h : Quiet kind x lines a) (f : α → β) : Quiet kind (f <$> x) lines (f a) := by
  intro t ht
  rw [replay_map, h t ht]

theorem bind (stable : LogStable m kind) {x : m α} {a : α} {f : α → m β} {b : β} {more : List Log.Entry}
    (hx : Quiet kind x lines a) (hf : Quiet kind (f a) more b) : Quiet kind (x >>= f) (lines ++ more) b := by
  intro t ht
  rw [replay_bind, hx t ht, hf _ (stable.foldl lines ht), List.foldl_append]

/-- A line in the log before the rest. -/
theorem line (stable : LogStable m kind) {entry : Log.Entry} {f : Unit → m β} {b : β}
    (hf : Quiet kind (f ()) lines b) : Quiet kind (Host.log entry >>= f) (entry :: lines) b :=
  bind stable (log entry) hf

/-- A step without a line in the log before the rest. -/
theorem silently (stable : LogStable m kind) {x : m α} {a : α} {f : α → m β} {b : β} (hx : Quiet kind x [] a)
    (hf : Quiet kind (f a) lines b) : Quiet kind (x >>= f) lines b :=
  bind stable hx hf

/-- A rest that writes no line to the log. -/
theorem bind_nil (stable : LogStable m kind) {x : m α} {a : α} {f : α → m β} {b : β}
    (hx : Quiet kind x lines a) (hf : Quiet kind (f a) [] b) : Quiet kind (x >>= f) lines b := by
  have h := bind stable hx hf
  rwa [List.append_nil] at h

theorem isFile {path : Path} {b : Bool} (h : ∀ t, kind t → (files m t).isFile path = b) :
    Quiet kind (Host.isFile path : m Bool) [] b := by
  intro t ht
  rw [replay_isFile, h t ht]
  rfl

theorem read {path : Path} {r : Except Files.Error (List UInt8)}
    (h : ∀ t, kind t → ((files m t).read path).map Files.Document.toBytes = r) :
    Quiet kind (Host.read path : m (Except Files.Error (List UInt8))) [] r := by
  intro t ht
  rw [replay_read, h t ht]
  rfl

theorem files_replay {t : τ} {x : m α} {a : α} (h : Quiet (fun t' => files m t' = files m t) x lines a) :
    files m (replay x t).2 = files m t := by
  rw [h t rfl]
  exact files_foldl_logged lines t

end Quiet

end Replayable

end WorkloadAtlas
