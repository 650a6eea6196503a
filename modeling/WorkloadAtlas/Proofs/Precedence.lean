import WorkloadAtlas.Proofs.Failures
/-!
What the balancing config can still change once a setting is given on the command line. Its directory can then change
nothing. Its number of iterations cannot either as long as it makes a range that can be walked; the range is checked
before the setting that takes its place is looked at.
-/

namespace WorkloadAtlas

open Files (Tree)

namespace Simulation

/-- From an iteration on there are so many others that are 64-bit numbers. -/
def Walkable (count first : Nat) : Prop :=
  0 < count ∧ Number.IsWord (first + (count - 1))

instance (count first : Nat) : Decidable (Walkable count first) :=
  inferInstanceAs (Decidable (_ ∧ _))

/-- Why a number of iterations makes no range. -/
def refusal (count first : Nat) : Error :=
  if count = 0 then .noIterations else .rangeOverflow first count

variable {dir : Path} {count first : Nat}

theorem ofRange_of_walkable (h : Walkable count first) :
    ofRange dir count first = .ok ⟨dir, first, count, h.1, h.2⟩ := by
  rw [ofRange, dif_pos h.1, dif_pos h.2]

theorem ofRange_of_not_walkable (h : ¬ Walkable count first) :
    ofRange dir count first = .error (refusal count first) := by
  unfold ofRange refusal
  by_cases hcount : 0 < count
  · rw [dif_pos hcount, dif_neg fun hword => h ⟨hcount, hword⟩, if_neg hcount.ne']
  · rw [dif_neg hcount, if_pos (Nat.eq_zero_of_not_pos hcount)]

/-- A refusal tells which number was refused. -/
theorem refusal_inj {other : Nat} (h : refusal count first = refusal other first) : count = other := by
  unfold refusal at h
  split at h
  · next hzero =>
    split at h
    · next hother => rw [hzero, hother]
    · cases h
  · split at h
    · cases h
    · cases h
      rfl

namespace Config

/-- What the config at a path says, or why it cannot be read. -/
def said (path : Path) (files : Tree) : Except Error Settings :=
  match files.read path with
  | .error cause => .error (.unreadable path cause)
  | .ok content =>
    match Text.decode? content.toBytes with
    | none => .error (.unreadable path .notText)
    | some text => ofText (String.ofList text)

end Config

end Simulation

namespace Program

open Simulation (Walkable ofRange refusal)
open Simulation.Config (Settings said)

variable {c : CommandLine} {path : Path}

/-- What the balancing config of a command line says, if one is named. -/
def told (c : CommandLine) (files : Tree) : Option (Except Simulation.Error Settings) :=
  c.config.map fun path => said path files

/-- Settings of a range that can be walked from the first iteration of the command line on. -/
def Sound (c : CommandLine) (told : Option (Except Simulation.Error Settings)) : Prop :=
  ∃ settings, told = some (.ok settings) ∧ Walkable settings.count c.first

/-- What a command line comes to if the config at a path says this. -/
def outcome (c : CommandLine) (path : Path) : Except Simulation.Error Settings → Except Abort Simulation
  | .error error => .error (.config path error)
  | .ok settings =>
    if Walkable settings.count c.first then
      (ofRange (c.resultsDir.getD settings.resultsDir) (c.count.getD settings.count) c.first).mapError .range
    else .error (.config path (refusal settings.count c.first))

theorem told_of_none (hconfig : c.config = none) (files : Tree) : told c files = none := by
  rw [told, hconfig, Option.map_none]

theorem told_of_some (hconfig : c.config = some path) (files : Tree) : told c files = some (said path files) := by
  rw [told, hconfig, Option.map_some]

theorem resolve_some (c : CommandLine) (sim : Simulation) :
    c.resolve (some sim) =
      (ofRange (c.resultsDir.getD sim.resultsDir) (c.count.getD sim.count) c.first).mapError .range := by
  unfold CommandLine.resolve
  cases c.resultsDir with
  | none => cases c.count <;> rfl
  | some dir => cases c.count <;> rfl

theorem resolved_of_none (hconfig : c.config = none) (files : Tree) : resolved c files = c.resolve none := by
  unfold resolved described
  rw [hconfig]
  rfl

theorem resolved_eq (hconfig : c.config = some path) (files : Tree) :
    resolved c files = outcome c path (said path files) := by
  unfold resolved described said Simulation.readConfig
  rw [hconfig]
  simp only [ExceptT.run, ExceptT.mk, bind, StateT.bind, pure, Host.debug, Host.log, Host.read, Workspace.ofFiles]
  cases files.read path with
  | error error => rfl
  | ok content =>
    simp only [Except.map]
    cases Text.decode? content.toBytes with
    | none => rfl
    | some text =>
      simp only [Simulation.ofConfig]
      cases Simulation.Config.ofText (String.ofList text) with
      | error error => rfl
      | ok settings =>
        change ((ofRange settings.resultsDir settings.count c.first).mapError (.config path)).map some >>= c.resolve =
          if Walkable settings.count c.first then _ else _
        by_cases hwalk : Walkable settings.count c.first
        · rw [if_pos hwalk, Simulation.ofRange_of_walkable hwalk]
          exact resolve_some c _
        · rw [if_neg hwalk, Simulation.ofRange_of_not_walkable hwalk]
          rfl

/-- What the flags come to does not fail as what the config comes to. -/
theorem mapError_range_ne (result : Except Simulation.Error Simulation) (error : Simulation.Error) :
    result.mapError Abort.range ≠ .error (Abort.config path error) := by
  intro h
  cases result <;> cases h

/-- Two counts that a flag takes the place of come to the same exactly if both make a range that can be walked. -/
theorem outcome_of_count {n : Nat} (hcount : c.count = some n) (dir : Path) (count other : Nat) :
    outcome c path (.ok ⟨dir, count⟩) = outcome c path (.ok ⟨dir, other⟩) ↔
      count = other ∨ Walkable count c.first ∧ Walkable other c.first := by
  simp only [outcome, hcount, Option.getD_some]
  by_cases hwalk : Walkable count c.first
  · by_cases hother : Walkable other c.first
    · rw [if_pos hwalk, if_pos hother]
      exact iff_of_true rfl (.inr ⟨hwalk, hother⟩)
    · rw [if_pos hwalk, if_neg hother]
      refine iff_of_false (mapError_range_ne _ _) ?_
      rintro (rfl | ⟨-, h⟩)
      · exact hother hwalk
      · exact hother h
  · constructor
    · intro h
      left
      by_cases hother : Walkable other c.first
      · rw [if_neg hwalk, if_pos hother] at h
        exact absurd h.symm (mapError_range_ne _ _)
      · rw [if_neg hwalk, if_neg hother] at h
        exact Simulation.refusal_inj (Abort.config.inj (Except.error.inj h)).2
    · rintro (rfl | ⟨h, -⟩)
      · rfl
      · exact absurd h hwalk

theorem outcome_of_dir {dir : Path} (hdir : c.resultsDir = some dir) (given other : Path) (count : Nat) :
    outcome c path (.ok ⟨given, count⟩) = outcome c path (.ok ⟨other, count⟩) := by
  simp only [outcome, hdir, Option.getD_some]

/-- A setting of the command line comes before that of the balancing config. If the number of iterations is given, two
configs that differ in theirs alone come to the same simulation or the same failure exactly if both numbers make a range
that can be walked from the first iteration on. If the directory is given, two configs that differ in theirs alone
always do. -/
theorem resolved_by_flags (c : CommandLine) (files others : Tree) :
    (c.count.isSome = true →
      (told c files).map (Except.map Settings.resultsDir) = (told c others).map (Except.map Settings.resultsDir) →
      (resolved c files = resolved c others ↔
        told c files = told c others ∨ Sound c (told c files) ∧ Sound c (told c others))) ∧
    (c.resultsDir.isSome = true →
      (told c files).map (Except.map Settings.count) = (told c others).map (Except.map Settings.count) →
      resolved c files = resolved c others) := by
  cases hconfig : c.config with
  | none =>
    rw [resolved_of_none hconfig, resolved_of_none hconfig, told_of_none hconfig, told_of_none hconfig]
    exact ⟨fun _ _ => iff_of_true rfl (.inl rfl), fun _ _ => rfl⟩
  | some path =>
    rw [resolved_eq hconfig, resolved_eq hconfig, told_of_some hconfig, told_of_some hconfig]
    cases said path files with
    | error error =>
      cases said path others with
      | error other =>
        refine ⟨fun _ h => ?_, fun _ h => ?_⟩
        · cases h
          exact iff_of_true rfl (.inl rfl)
        · cases h
          rfl
      | ok other =>
        constructor <;> (intro _ h; cases h)
    | ok settings =>
      obtain ⟨dir, count⟩ := settings
      cases said path others with
      | error other =>
        constructor <;> (intro _ h; cases h)
      | ok other =>
        obtain ⟨otherDir, otherCount⟩ := other
        refine ⟨fun hcount h => ?_, fun hdir h => ?_⟩
        · obtain ⟨n, hn⟩ := Option.isSome_iff_exists.1 hcount
          have hsame : dir = otherDir := Except.ok.inj (Option.some.inj h)
          subst hsame
          rw [outcome_of_count hn]
          simp [Sound]
        · obtain ⟨given, hgiven⟩ := Option.isSome_iff_exists.1 hdir
          have hsame : count = otherCount := Except.ok.inj (Option.some.inj h)
          subst hsame
          exact outcome_of_dir hgiven ..

/-- The tree of a config with these settings. -/
def holding (dir count : String) : Tree :=
  ⟨[(["b.yaml"], .file (.text s!"balancing:\n  results-dir: {dir}\n  number_of_iterations: {count}\n"))]⟩

/-- A command line with a config, before any flag that takes the place of what it says. -/
def configured : CommandLine :=
  .ofGiven { config := some ⟨"b.yaml"⟩ }

theorem resolved_by_flags_sound :
    resolved { configured with count := some 2 } (holding "out" "3") =
        resolved { configured with count := some 2 } (holding "out" "5") ∧
      resolved { configured with resultsDir := some ⟨"r"⟩ } (holding "out" "3") =
        resolved { configured with resultsDir := some ⟨"r"⟩ } (holding "old" "3") := by
  have three : said ⟨"b.yaml"⟩ (holding "out" "3") = .ok ⟨⟨"out"⟩, 3⟩ := by
    decide +kernel
  have five : said ⟨"b.yaml"⟩ (holding "out" "5") = .ok ⟨⟨"out"⟩, 5⟩ := by
    decide +kernel
  have old : said ⟨"b.yaml"⟩ (holding "old" "3") = .ok ⟨⟨"old"⟩, 3⟩ := by
    decide +kernel
  constructor
  · refine ((resolved_by_flags { configured with count := some 2 } _ _).1 rfl ?_).2 (.inr ⟨?_, ?_⟩)
    · rw [told_of_some rfl, told_of_some rfl, three, five]
      rfl
    · rw [told_of_some rfl, three]
      exact ⟨_, rfl, by decide⟩
    · rw [told_of_some rfl, five]
      exact ⟨_, rfl, by decide⟩
  · refine (resolved_by_flags { configured with resultsDir := some ⟨"r"⟩ } _ _).2 rfl ?_
    rw [told_of_some rfl, told_of_some rfl, three, old]
    rfl

/-- A config of no iterations is refused although the command line asks for two. -/
theorem count_kept_from_flag :
    resolved { configured with count := some 2 } (holding "out" "0") = .error (.config ⟨"b.yaml"⟩ .noIterations) ∧
      resolved { configured with count := some 2 } (holding "out" "3") =
        .ok ⟨⟨"out"⟩, 0, 2, by decide, by decide⟩ := by
  have none : said ⟨"b.yaml"⟩ (holding "out" "0") = .ok ⟨⟨"out"⟩, 0⟩ := by
    decide +kernel
  have three : said ⟨"b.yaml"⟩ (holding "out" "3") = .ok ⟨⟨"out"⟩, 3⟩ := by
    decide +kernel
  constructor
  · rw [resolved_eq rfl, none]
    rfl
  · rw [resolved_eq rfl, three]
    rfl

end Program

end WorkloadAtlas
