import WorkloadAtlas.Program
import WorkloadAtlas.Proofs.Directories
import WorkloadAtlas.Proofs.Exhibition
import WorkloadAtlas.Proofs.Passage
/-!
What the program leaves behind when it fails, and when it does not. Before the plot directory is made nothing is
touched; from then on there are new directories on the way to it and drawings in it; the report is written last. All of
this holds of an overflow as well, which alone does not end the program in the way of an error.
-/

namespace WorkloadAtlas

open Files (Tree)
open Number (IsWord)
open Plot Replayable

namespace Report

/-- A text that lists one report on each iteration in order, of which the first one alone has no changes. -/
def Lists (sim : Simulation) (text : String) : Prop :=
  ∃ entries : List Json, text = (Json.list entries).text 0 ∧ entries.length = sim.count ∧
    ∀ k < sim.count, ∃ fields, entries[k]? = some (.object fields) ∧
      fields.lookup "iteration" = some (.count (sim.first + k)) ∧
      (fields.lookup "delta_quantiles" = some .null ↔ k = 0)

theorem lookup_deltas (r : Report) :
    ∃ fields, r.toJson = .object fields ∧ fields.lookup "iteration" = some (.count r.iteration) ∧
      (fields.lookup "delta_quantiles" = some .null ↔ r.deltaQuantiles = none) := by
  refine ⟨_, rfl, rfl, ?_⟩
  cases hdeltas : r.deltaQuantiles with
  | none => exact iff_of_true rfl rfl
  | some quantiles =>
    apply iff_of_false
    · intro h
      cases h
    · exact Option.some_ne_none quantiles

theorem lists_document {sim : Simulation} {reports : List Report} (h : Run.Complete sim reports) :
    Lists sim (document reports) := by
  have hlength : reports.length = sim.count := by
    rw [← List.length_map, h.1, Simulation.iterations, List.length_range']
  refine ⟨reports.map toJson, rfl, by rw [List.length_map, hlength], ?_⟩
  intro k hk
  have hget : reports[k]? = some reports[k] := List.getElem?_eq_getElem (hlength ▸ hk)
  have hiteration : reports[k].iteration = sim.first + k := by
    have hmap := congrArg (fun iterations => iterations[k]?) h.1
    simpa [hget, Simulation.iterations, hk] using hmap
  obtain ⟨fields, hjson, hfirst, hdeltas⟩ := lookup_deltas reports[k]
  refine ⟨fields, ?_, ?_, ?_⟩
  · rw [List.getElem?_map, hget, Option.map_some, hjson]
  · rw [hfirst, hiteration]
  · rw [hdeltas, h.2 _ (List.getElem_mem _), hiteration]
    omega

end Report

namespace Program

/-- The simulation that a command line asks for, as far as it can be told from the files. -/
def resolved (c : CommandLine) (files : Tree) : Except Abort Simulation :=
  (((described c : ExceptT Abort Desk (Option Simulation)).run (.ofFiles files)).1) >>= c.resolve

def greeting : Log.Entry :=
  ⟨.info, .program, "balancer_visualiser 0.1.0"⟩

def purpose (sim : Simulation) : Log.Entry :=
  ⟨.info, .program, s!"Visualising iterations {sim.first}..={sim.last} from {sim.resultsDir.text}"⟩

/-- What is left of a workspace after the line on the iterations, which may not be shown. -/
def announced (threshold : Log.Level) (sim : Simulation) (w : Workspace) : Workspace :=
  if Log.Level.info.shownAt threshold then logged Desk w (purpose sim) else w

/-- The workspace in which the run of a program starts. -/
def outset (threshold : Log.Level) (c : CommandLine) (sim : Simulation) (w : Workspace) : Workspace :=
  let w := logged Desk w greeting
  let w := ((described c : ExceptT Abort Desk (Option Simulation)).run w).2
  let w := announced threshold sim w
  (((c.gallery sim).make : Desk (Except Files.Error Unit)) w).2

section Announce

variable {threshold : Log.Level} {sim : Simulation}

theorem announced_files (threshold : Log.Level) (sim : Simulation) (w : Workspace) :
    (announced threshold sim w).files = w.files := by
  unfold announced
  split
  · rfl
  · rfl

theorem replay_announce (h : IsWord sim.stop ∨ Log.Level.info.shownAt threshold = false)
    (f : Unit → ExceptT Abort Desk Unit) (w : Workspace) :
    replay (announce (m := Desk) threshold sim >>= f).run w = replay (f ()).run (announced threshold sim w) := by
  unfold announce announced
  by_cases hshown : Log.Level.info.shownAt threshold = true
  · have hstop : IsWord sim.stop := h.resolve_right (by simp [hshown])
    rw [if_pos hshown, if_pos hshown, bind_assoc, Simulation.iterations?_of_isWord hstop, Failure.checked,
      Except.mapError, replay_run_settled]
    dsimp only
    rw [replay_run_info]
    rfl
  · rw [if_neg hshown, if_neg hshown, pure_bind]

/-- Without a last iteration there is nothing to tell. -/
theorem replay_announce_beyond (hstop : ¬ IsWord sim.stop) (hshown : Log.Level.info.shownAt threshold = true)
    (f : Unit → ExceptT Abort Desk Unit) (w : Workspace) :
    replay (announce (m := Desk) threshold sim >>= f).run w = (.error .overflow, w) := by
  unfold announce
  rw [if_pos hshown, bind_assoc, Simulation.iterations?_of_not_isWord hstop, Failure.checked, Except.mapError,
    replay_run_settled]
  rfl

end Announce

theorem described_eq (c : CommandLine) (w : Workspace) :
    ((described c : ExceptT Abort Desk (Option Simulation)).run w).1 =
        ((described c : ExceptT Abort Desk (Option Simulation)).run (.ofFiles w.files)).1 ∧
      ((described c : ExceptT Abort Desk (Option Simulation)).run w).2.files = w.files := by
  unfold described
  cases c.config with
  | none => exact ⟨rfl, rfl⟩
  | some path =>
    unfold Simulation.readConfig
    simp only [ExceptT.run, ExceptT.mk, bind, StateT.bind, pure, Host.debug, Host.log, Host.read, Workspace.ofFiles]
    cases w.files.read path with
    | error error => exact ⟨rfl, rfl⟩
    | ok content =>
      simp only [Except.map]
      cases Text.decode? content.toBytes with
      | none => exact ⟨rfl, rfl⟩
      | some text => exact ⟨rfl, rfl⟩

/-- The command line and the files settle a simulation and the levels of its quantiles. -/
structure Ready (c : CommandLine) (files : Tree) (sim : Simulation) (levels : Quantile.Levels) : Prop where
  resolved : resolved c files = .ok sim
  levels : Quantile.Levels.ofList c.quantiles = .ok levels

/-- The plot directory is there, and the run ends in some way. -/
structure Ran (threshold : Log.Level) (c : CommandLine) (w : Workspace) (sim : Simulation) (levels : Quantile.Levels)
    (result : Except Failure (List Report)) (ended : Workspace) : Prop where
  made : (w.files.makeAll (c.plotDirectory sim)).2 = .ok ()
  ends : run (m := Desk) (c.gallery sim).draw sim c.layout levels (outset threshold c sim w) = (result, ended)

/-- All ways in which the program can end. -/
inductive Ending (threshold : Log.Level) (c : CommandLine) (w : Workspace) : Except Abort Unit → Tree → Prop
  | unresolved {abort : Abort} : resolved c w.files = .error abort → Ending threshold c w (.error abort) w.files
  | overflowed {sim : Simulation} : resolved c w.files = .ok sim → ¬ IsWord sim.stop →
      Ending threshold c w (.error .overflow) w.files
  | unlevelled {failure : Failure} : Quantile.Levels.ofList c.quantiles = .error failure →
      Ending threshold c w (.error (.levels failure)) w.files
  | unmade {sim : Simulation} {levels : Quantile.Levels} {error : Files.Error} : Ready c w.files sim levels →
      (w.files.makeAll (c.plotDirectory sim)).2 = .error error →
      Ending threshold c w (.error (.plotDirectory (c.plotDirectory sim) error))
        (w.files.makeAll (c.plotDirectory sim)).1
  | failed {sim : Simulation} {levels : Quantile.Levels} {failure : Failure} {ended : Workspace} :
      Ready c w.files sim levels → Ran threshold c w sim levels (.error failure) ended →
      Ending threshold c w (.error (.ofFailure failure)) ended.files
  | unreported {sim : Simulation} {levels : Quantile.Levels} {reports : List Report} {ended : Workspace} :
      Ready c w.files sim levels → Ran threshold c w sim levels (.ok reports) ended → c.report = none →
      Ending threshold c w (.ok ()) ended.files
  | unwritten {sim : Simulation} {levels : Quantile.Levels} {reports : List Report} {ended : Workspace} {path : Path}
      {error : Files.Error} : Ready c w.files sim levels → Ran threshold c w sim levels (.ok reports) ended →
      c.report = some path → ended.files.write path (.text (Report.document reports)) = .error error →
      Ending threshold c w (.error (.reportFile path error)) ended.files
  | written {sim : Simulation} {levels : Quantile.Levels} {reports : List Report} {ended : Workspace} {path : Path}
      {after : Tree} : Ready c w.files sim levels → Ran threshold c w sim levels (.ok reports) ended →
      c.report = some path → ended.files.write path (.text (Report.document reports)) = .ok after →
      Ending threshold c w (.ok ()) after

theorem ending_of_ran {threshold : Log.Level} {c : CommandLine} {w : Workspace} {sim : Simulation}
    {levels : Quantile.Levels} {reports : List Report} {ended : Workspace} (ready : Ready c w.files sim levels)
    (ran : Ran threshold c w sim levels (.ok reports) ended) (message : String) :
    let last : ExceptT Abort Desk Unit := do
      writeReport c reports
      Host.info (m := Desk) message
    Ending threshold c w (replay last.run ended).1 (replay last.run ended).2.files := by
  intro last
  cases hreport : c.report with
  | none =>
    have hlast : ∃ w', replay last.run ended = (.ok (), w') ∧ w'.files = ended.files := by
      simp only [last, writeReport, hreport]
      exact ⟨_, rfl, rfl⟩
    obtain ⟨w', hlast, hfiles⟩ := hlast
    rw [hlast, hfiles]
    exact .unreported ready ran hreport
  | some path =>
    cases hwrite : ended.files.write path (.text (Report.document reports)) with
    | error error =>
      have hrun : (Host.write (m := Desk) path (.text (Report.document reports))) ended = (.error error, ended) := by
        simp only [Host.write, hwrite]
      have hlast : replay last.run ended = (.error (.reportFile path error), ended) := by
        simp only [last, writeReport, hreport, bind_assoc]
        rw [replay_run_told]
        simp only [replay, hrun]
      rw [hlast]
      exact .unwritten ready ran hreport hwrite
    | ok after =>
      have hrun : (Host.write (m := Desk) path (.text (Report.document reports))) ended =
          (.ok (), { ended with files := after }) := by
        simp only [Host.write, hwrite]
      have hlast : ∃ w', replay last.run ended = (.ok (), w') ∧ w'.files = after := by
        simp only [last, writeReport, hreport, bind_assoc]
        rw [replay_run_told]
        simp only [replay, hrun]
        exact ⟨_, rfl, rfl⟩
      obtain ⟨w', hlast, rfl⟩ := hlast
      rw [hlast]
      exact .written ready ran hreport hwrite

theorem outset_files (threshold : Log.Level) (c : CommandLine) (sim : Simulation) (w : Workspace) :
    (outset threshold c sim w).files = (w.files.makeAll (c.plotDirectory sim)).1 := by
  obtain ⟨-, hfiles⟩ := described_eq c (logged Desk w greeting)
  have hlogged : (logged Desk w greeting).files = w.files := rfl
  rw [hlogged] at hfiles
  rw [← hfiles, ← announced_files threshold sim ((described (m := Desk) c).run (logged Desk w greeting)).2]
  rfl

theorem ending_of_ready {threshold : Log.Level} {c : CommandLine} {w met : Workspace} {sim : Simulation}
    {levels : Quantile.Levels} (ready : Ready c w.files sim levels) (hmet : met.files = w.files)
    (hset : outset threshold c sim w = ((c.gallery sim).make (m := Desk) met).2) (message : String) :
    let rest : ExceptT Abort Desk Unit := do
      ExceptT.mk (Except.mapError (.plotDirectory (c.plotDirectory sim)) <$> (c.gallery sim).make (m := Desk))
      let reports ← ExceptT.mk (Except.mapError .ofFailure <$> run (c.gallery sim).draw sim c.layout levels)
      writeReport c reports
      Host.info (m := Desk) message
    Ending threshold c w (replay rest.run met).1 (replay rest.run met).2.files := by
  intro rest
  have hmake : replay ((c.gallery sim).make (m := Desk)) met =
      ((w.files.makeAll (c.plotDirectory sim)).2, outset threshold c sim w) := by
    rw [hset, ← hmet]
    rfl
  simp only [rest]
  rw [replay_run_told, hmake]
  cases hmade : (w.files.makeAll (c.plotDirectory sim)).2 with
  | error error =>
    dsimp only
    rw [outset_files]
    exact .unmade ready hmade
  | ok u =>
    dsimp only
    rw [replay_run_told]
    have hreplay : replay (run (m := Desk) (c.gallery sim).draw sim c.layout levels) (outset threshold c sim w) =
      run (m := Desk) (c.gallery sim).draw sim c.layout levels (outset threshold c sim w) := rfl
    rw [hreplay]
    generalize hrun : run (m := Desk) (c.gallery sim).draw sim c.layout levels (outset threshold c sim w) = r
    obtain ⟨failure | reports, ended⟩ := r
    · exact .failed ready ⟨hmade, hrun⟩
    · exact ending_of_ran ready ⟨hmade, hrun⟩ message

theorem carryOut_ending (threshold : Log.Level) (c : CommandLine) (w : Workspace) :
    Ending threshold c w (replay (carryOut (m := Desk) threshold c).run w).1
      (replay (carryOut (m := Desk) threshold c).run w).2.files := by
  obtain ⟨hvalue, hfiles⟩ := described_eq c (logged Desk w greeting)
  have hresolved : ((described (m := Desk) c).run (logged Desk w greeting)).1 >>= c.resolve = resolved c w.files := by
    rw [hvalue]
    rfl
  have hreplay : replay (described (m := Desk) c).run (logged Desk w greeting) =
    (described (m := Desk) c).run (logged Desk w greeting) := rfl
  have hgreeting : (⟨.info, .program, "balancer_visualiser 0.1.0"⟩ : Log.Entry) = greeting := rfl
  have hset (sim : Simulation) : outset threshold c sim w = ((c.gallery sim).make (m := Desk)
    (announced threshold sim ((described (m := Desk) c).run (logged Desk w greeting)).2)).2 := rfl
  unfold carryOut
  rw [replay_run_info, replay_run_bind, hgreeting, hreplay]
  generalize (described (m := Desk) c).run (logged Desk w greeting) = r at hfiles hresolved hset ⊢
  obtain ⟨abort | found, met⟩ := r
  · have hended : met.files = w.files := hfiles
    dsimp only
    rw [hended]
    exact .unresolved hresolved.symm
  · dsimp only at hresolved hset ⊢
    have hresolve : c.resolve found = resolved c w.files := hresolved
    have hmet : met.files = w.files := hfiles
    rw [replay_run_settled, hresolve]
    cases hsim : resolved c w.files with
    | error abort =>
      dsimp only
      rw [hmet]
      exact .unresolved hsim
    | ok sim =>
      dsimp only
      by_cases hstop : IsWord sim.stop ∨ Log.Level.info.shownAt threshold = false
      · have hended : (announced threshold sim met).files = w.files := (announced_files threshold sim met).trans hmet
        rw [replay_announce hstop, replay_run_settled]
        cases hlevels : Quantile.Levels.ofList c.quantiles with
        | error failure =>
          simp only [Except.mapError]
          rw [hended]
          exact .unlevelled hlevels
        | ok levels =>
          simp only [Except.mapError]
          exact ending_of_ready ⟨hsim, hlevels⟩ hended (hset sim) _
      · obtain ⟨hbeyond, hshown⟩ := not_or.1 hstop
        rw [replay_announce_beyond hbeyond (Bool.eq_true_of_not_eq_false hshown), hmet]
        exact .overflowed hsim hbeyond

/-- A new directory on the way to another one. -/
def OnWay (d : Path) (before after : Tree) (key : Files.Key) : Prop :=
  before.get? key = none ∧ after.get? key = some .directory ∧
    ∃ front, front <+: Tree.steps d ∧ after.walk (Tree.start d) front = .ok key

/-- The file of a plot in a directory. -/
def IsPlot (d : Path) (sim : Simulation) (after : Tree) (key : Files.Key) : Prop :=
  ∃ place name drawing, after.walk (Tree.start d) (Tree.names d) = .ok place ∧ name ∈ Gallery.fileNames sim ∧
    key = place ++ [name] ∧ after.get? key = some (.file (.drawing drawing))

/-- The files are those from before up to plots in a directory and new directories on the way to it. In particular this
holds of the file that any path names, that of the report included. -/
structure Remains (d : Path) (sim : Simulation) (before after : Tree) : Prop where
  changed : ∀ key, after.get? key ≠ before.get? key → OnWay d before after key ∨ IsPlot d sim after key
  found : ∀ path key entry, after.find path = .ok (key, entry) →
    before.get? key = some entry ∨ OnWay d before after key ∨ IsPlot d sim after key
  stays : ∀ path key entry, before.find path = .ok (key, entry) →
    after.find path = .ok (key, entry) ∨ IsPlot d sim after key

section Frame

variable {threshold : Log.Level} {c : CommandLine} {w : Workspace} {sim : Simulation} {levels : Quantile.Levels}

theorem changed_of_painted {g : Gallery} {before after : Tree}
    (painted : Run.Painted g sim (before.makeAll g.directory).1 after) {key : Files.Key}
    (hkey : after.get? key ≠ before.get? key) :
    OnWay g.directory before after key ∨ IsPlot g.directory sim after key := by
  have made := Tree.made_makeAll before g.directory
  by_cases hpainted : after.get? key = (before.makeAll g.directory).1.get? key
  · left
    rw [hpainted] at hkey
    obtain ⟨hdirectory, front, hfront, hwalk⟩ := made.fresh key hkey
    refine ⟨?_, hpainted.trans hdirectory, front, hfront, painted.keeps.walk hwalk⟩
    cases hbefore : before.get? key with
    | none => rfl
    | some entry =>
      rw [hbefore, made.grows key entry hbefore] at hkey
      exact absurd rfl hkey
  · right
    obtain ⟨place, name, drawing, hwalk, hname, heq, hfile⟩ := painted.drawings key hpainted
    exact ⟨place, name, drawing, painted.keeps.walk hwalk, hname, heq, hfile⟩

theorem Remains.refl (d : Path) (sim : Simulation) (tree : Tree) : Remains d sim tree tree where
  changed _ hkey := absurd rfl hkey
  found _ _ _ hfind := .inl (Tree.find_eq_ok_iff.1 hfind).2.2
  stays _ _ _ hfind := .inl hfind

theorem remains_of_painted {g : Gallery} {before after : Tree}
    (painted : Run.Painted g sim (before.makeAll g.directory).1 after) : Remains g.directory sim before after := by
  have hkeeps := (Tree.made_makeAll before g.directory).grows.keeps.trans painted.keeps
  refine ⟨fun key hkey => changed_of_painted painted hkey, ?_, ?_⟩
  · intro path key entry hfind
    obtain ⟨-, -, hentry⟩ := Tree.find_eq_ok_iff.1 hfind
    by_cases hkey : after.get? key = before.get? key
    · exact .inl (hkey.symm.trans hentry)
    · exact .inr (changed_of_painted painted hkey)
  · intro path key entry hfind
    obtain ⟨hcheck, hwalk, hentry⟩ := Tree.find_eq_ok_iff.1 hfind
    by_cases hkey : after.get? key = before.get? key
    · exact .inl (Tree.find_eq_ok_iff.2 ⟨hcheck, hkeeps.walk hwalk, hkey.trans hentry⟩)
    · rcases changed_of_painted painted hkey with ⟨hnone, -⟩ | hplot
      · rw [hentry] at hnone
        cases hnone
      · exact .inr hplot

/-- However a run ends, it leaves drawings and nothing else. -/
theorem Ran.sound {result : Except Failure (List Report)} {ended : Workspace}
    (ran : Ran threshold c w sim levels result ended) :
    Run.Painted (c.gallery sim) sim (w.files.makeAll (c.plotDirectory sim)).1 ended.files ∧
      (∀ reports, result = .ok reports → Run.Complete sim reports) ∧
      ∀ failure, result = .error failure → Run.Proper sim failure := by
  have hends := Run.ends_run (c.gallery sim) sim (outset threshold c sim w).files c.layout levels
    (outset threshold c sim w) (.refl _ _ _)
  have hrun : replay (ExceptT.mk (run (m := Desk) (c.gallery sim).draw sim c.layout levels)).run
    (outset threshold c sim w) = (result, ended) := ran.ends
  rw [hrun, outset_files] at hends
  exact hends

theorem Ready.unique {files : Tree} {sim' : Simulation} {levels' : Quantile.Levels} (ready : Ready c files sim levels)
    (ready' : Ready c files sim' levels') : sim = sim' ∧ levels = levels' := by
  cases ready.resolved.symm.trans ready'.resolved
  cases ready.levels.symm.trans ready'.levels
  exact ⟨rfl, rfl⟩

end Frame

theorem levels_ofList_eq_error {levels : List Float} (h : ∃ level ∈ levels, Quantile.isLevel level = false) :
    ∃ failure, Quantile.Levels.ofList levels = .error failure := by
  unfold Quantile.Levels.ofList
  split
  · exact ⟨_, rfl⟩
  · next hfind =>
    obtain ⟨level, hmem, hlevel⟩ := h
    have hnone := List.find?_eq_none.1 hfind level hmem
    rw [hlevel] at hnone
    exact absurd rfl hnone

/-- What the program tells its caller after an attempt. -/
def concluded : Except Abort Unit → Outcome
  | .error abort => .aborted abort
  | .ok () => .done

/-- Any end but an overflow is told to the caller as an error. -/
theorem exitCode_aborted {abort : Abort} (h : abort ≠ .overflow) : (concluded (.error abort)).exitCode = 1 := by
  cases abort with
  | overflow => exact absurd rfl h
  | _ => rfl

theorem exitCode_aborted_ne_zero (abort : Abort) : (concluded (.error abort)).exitCode ≠ 0 := by
  by_cases h : abort = .overflow
  · rw [h]
    decide
  · rw [exitCode_aborted h]
    decide

theorem ofFailure_ne_overflow {failure : Failure} (h : failure ≠ .overflow) : Abort.ofFailure failure ≠ .overflow := by
  cases failure with
  | overflow => exact absurd rfl h
  | _ => exact nofun

/-- Nothing is added up before a simulation is settled. -/
theorem ne_overflow_of_resolved {c : CommandLine} {files : Tree} {abort : Abort} (h : resolved c files = .error abort) :
    abort ≠ .overflow := by
  rintro rfl
  have hdescribed : ((described (m := Desk) c).run (.ofFiles files)).1 ≠ .error .overflow := by
    unfold described
    cases c.config with
    | none => exact nofun
    | some path =>
      have hmap (answer : Except Simulation.Error Simulation) :
          (answer.mapError (Abort.config path)).map some ≠ .error .overflow := by
        cases answer with
        | error error => exact nofun
        | ok sim => exact nofun
      exact hmap _
  have hresolve (found : Option Simulation) : c.resolve found ≠ .error .overflow := by
    unfold CommandLine.resolve
    cases c.resultsDir.or (found.map (·.resultsDir)) with
    | none => exact nofun
    | some dir =>
      cases c.count.or (found.map (·.count)) with
      | none => exact nofun
      | some count =>
        dsimp only
        cases Simulation.ofRange dir count c.first with
        | error error => exact nofun
        | ok sim => exact nofun
  unfold resolved at h
  cases hfound : ((described (m := Desk) c).run (.ofFiles files)).1 with
  | error abort =>
    rw [hfound] at h hdescribed
    cases h
    exact hdescribed rfl
  | ok found =>
    rw [hfound] at h
    exact hresolve found h

theorem start_eq {words : List String} {environment : Option String} {c : CommandLine}
    (hread : CommandLine.read words environment = .ok c) (threshold : Log.Level) (w : Workspace) :
    (start threshold words environment : Desk Outcome) w =
      (concluded (replay (carryOut (m := Desk) threshold c).run w).1,
        (replay (carryOut (m := Desk) threshold c).run w).2) := by
  have hreplay : (start threshold words environment : Desk Outcome) w =
    replay (start threshold words environment : Desk Outcome) w := rfl
  rw [hreplay]
  unfold start
  rw [hread]
  dsimp only
  rw [replay_bind]
  generalize replay (carryOut (m := Desk) threshold c).run w = r
  obtain ⟨abort | u, w'⟩ := r
  · rfl
  · rfl

/-- After a run that does not fail, the program fails only if the report cannot be written. -/
theorem Ending.eq_ok {threshold : Log.Level} {c : CommandLine} {w : Workspace} {result : Except Abort Unit}
    {after tree : Tree} (hending : Ending threshold c w result after) {sim : Simulation} {levels : Quantile.Levels}
    {reports : List Report} {ended : Workspace} {path : Path} (calculated : IsWord sim.stop)
    (ready : Ready c w.files sim levels) (ran : Ran threshold c w sim levels (.ok reports) ended)
    (hreport : c.report = some path)
    (hwrite : ended.files.write path (.text (Report.document reports)) = .ok tree) : result = .ok () := by
  cases hending with
  | unresolved hresolved => cases ready.resolved.symm.trans hresolved
  | overflowed hresolved hbeyond =>
    cases ready.resolved.symm.trans hresolved
    exact absurd calculated hbeyond
  | unlevelled hlevels => cases ready.levels.symm.trans hlevels
  | unmade ready' hmade =>
    obtain ⟨rfl, rfl⟩ := ready.unique ready'
    cases ran.made.symm.trans hmade
  | failed ready' ran' =>
    obtain ⟨rfl, rfl⟩ := ready.unique ready'
    cases ran.ends.symm.trans ran'.ends
  | unreported ready' ran' hreport' => rfl
  | unwritten ready' ran' hreport' hwrite' =>
    obtain ⟨rfl, rfl⟩ := ready.unique ready'
    cases ran.ends.symm.trans ran'.ends
    cases hreport.symm.trans hreport'
    cases hwrite.symm.trans hwrite'
  | written ready' ran' hreport' hwrite' => rfl

/-- A command line with a level that is out of range. -/
def unlevelled : List String :=
  ["--results-dir", "results", "--num-iter", "2", "--iteration-0", "3", "--quantile", "101"]

/-- A command line that names one path for the plots and for the report, and an iteration that is too large for the
boxplots. -/
def shared : List String :=
  ["--results-dir", "r", "--num-iter", "1", "--iteration-0", "5000000000", "--out-dir", "d", "--report", "d"]

/-- The simulation that it asks for. -/
def far : Simulation :=
  ⟨⟨"r"⟩, 5000000000, 1, Nat.one_pos, by decide⟩

/-- The workloads of that iteration. -/
def sharedFiles : Tree :=
  ⟨[(["r"], .directory), (["r", "5000000000"], .directory), (["r", "5000000000", "stats"], .directory),
    (["r", "5000000000", "stats", "new_metrics.csv"], .file Run.solo)]⟩

theorem far_fails (threshold : Log.Level) : ∃ c levels failure, CommandLine.read shared none = .ok c ∧
    c.report = some ⟨"d"⟩ ∧ c.plotDirectory far = ⟨"d"⟩ ∧ Ready c sharedFiles far levels ∧
    (run (m := Desk) (c.gallery far).draw far c.layout levels (outset threshold c far (.ofFiles sharedFiles))).1 =
      .error failure := by
  obtain ⟨c, levels, hread, hreport, hdirectory, ready, hfails⟩ : ∃ c levels, CommandLine.read shared none = .ok c ∧
      c.report = some ⟨"d"⟩ ∧ c.plotDirectory far = ⟨"d"⟩ ∧ Ready c sharedFiles far levels ∧
      (run (m := Desk) (c.gallery far).draw far c.layout levels
        (outset threshold c far (.ofFiles sharedFiles))).1.isOk = false := by
    refine ⟨_, _, rfl, rfl, rfl, ⟨rfl, rfl⟩, ?_⟩
    cases threshold with
    | _ => decide +kernel
  cases hrun : (run (m := Desk) (c.gallery far).draw far c.layout levels
    (outset threshold c far (.ofFiles sharedFiles))).1 with
  | error failure => exact ⟨c, levels, failure, hread, hreport, hdirectory, ready, hrun⟩
  | ok reports =>
    rw [hrun] at hfails
    cases hfails

/-- A command line for a pair of iterations and a report on them. -/
def reporting : List String :=
  ["--results-dir", "results", "--num-iter", "2", "--iteration-0", "3", "--out-dir", "plots", "--report", "r.json"]

theorem reporting_succeeds (threshold : Log.Level) : ∃ c, CommandLine.read reporting none = .ok c ∧
    c.report = some ⟨"r.json"⟩ ∧ resolved c Run.soloFiles = .ok Run.pair ∧
    ((start threshold reporting none : Desk Outcome) (.ofFiles Run.soloFiles)).1.exitCode = 0 := by
  obtain ⟨c, levels, hread, hreport, hgallery, hlayout, ready⟩ : ∃ c levels, CommandLine.read reporting none = .ok c ∧
      c.report = some ⟨"r.json"⟩ ∧ c.gallery Run.pair = .standard ⟨"plots"⟩ ∧ c.layout = .standard ∧
      Ready c Run.soloFiles Run.pair levels :=
    ⟨_, _, rfl, rfl, rfl, rfl, rfl, rfl⟩
  have hdirectory : c.plotDirectory Run.pair = ⟨"plots"⟩ := congrArg Gallery.directory hgallery
  have hmade : Run.soloFiles.makeAll (c.plotDirectory Run.pair) = (Run.soloFiles, .ok ()) := by
    rw [hdirectory]
    rfl
  have houtset : (outset threshold c Run.pair (.ofFiles Run.soloFiles)).files = Run.soloFiles :=
    (outset_files threshold c Run.pair (.ofFiles Run.soloFiles)).trans (congrArg (·.1) hmade)
  obtain ⟨reports, ended, hrun⟩ := Gallery.exists_run_solo houtset levels
  have ran : Ran threshold c (.ofFiles Run.soloFiles) Run.pair levels (.ok reports) ended := by
    refine ⟨congrArg (·.2) hmade, ?_⟩
    rw [hgallery, hlayout]
    exact hrun
  have hfree : ended.files.get? ["r.json"] = none := by
    by_contra hget
    obtain ⟨painted, -⟩ := ran.sound
    have hbefore : ((Workspace.ofFiles Run.soloFiles).files.makeAll (c.plotDirectory Run.pair)).1 = Run.soloFiles :=
      congrArg (·.1) hmade
    obtain ⟨place, name, drawing, hplace, -, hkey, -⟩ := painted.drawings ["r.json"] (by rw [hbefore]; exact hget)
    have hplots : Run.soloFiles.walk (Tree.start ⟨"plots"⟩) (Tree.names ⟨"plots"⟩) = .ok ["plots"] := rfl
    rw [hgallery, hbefore] at hplace
    obtain rfl : place = ["plots"] := Except.ok.inj (hplace.symm.trans hplots)
    cases congrArg List.length hkey
  have hname : Tree.IsName "r.json" := ⟨by decide, by decide, by decide, by decide⟩
  have hnames : Tree.names ⟨"r.json"⟩ = [] ++ ["r.json"] := rfl
  have hroom : ended.files.get? ([] ++ ["r.json"]) ≠ some .directory := by
    rw [List.nil_append, hfree]
    exact nofun
  have hwrite := Tree.write_of_room hname (.text (Report.document reports)) hnames rfl rfl rfl (by decide) hroom
  have hending := carryOut_ending threshold c (.ofFiles Run.soloFiles)
  refine ⟨c, hread, hreport, ready.resolved, ?_⟩
  rw [start_eq hread, hending.eq_ok Run.isWord_stop_pair ready ran hreport hwrite]
  rfl

theorem find_of_isDirectory {tree : Tree} (h : tree.isDirectory ⟨"d"⟩ = true) :
    tree.find ⟨"d"⟩ = .ok (["d"], .directory) := by
  unfold Tree.isDirectory at h
  split at h
  · next key hfind =>
    obtain ⟨-, hwalk, -⟩ := Tree.find_eq_ok_iff.1 hfind
    have hnames : Tree.names ⟨"d"⟩ = ["d"] := rfl
    rw [hnames, Tree.walk_cons_eq_ok_iff] at hwalk
    obtain ⟨-, next, hturn, hnext⟩ := hwalk
    cases hturn
    cases hnext
    exact hfind
  · cases h

end Program

end WorkloadAtlas
