import Mathlib.Data.List.Chain
import WorkloadAtlas.Proofs.Advance
/-!
Sessions: any number of advances through one simulation, between which the files may change in any way. The
advances that succeed load the iterations one after another from the first to the last; one that fails leaves the
state as it was, and after the last iteration none succeeds. If the number after the last iteration is too great, the
first advance is the only one that is not an overflow.
-/

namespace WorkloadAtlas.Progress

open Number (IsWord)

/-- An advance, or a change of the files between two of them. -/
inductive Action
  | edit (change : Files.Tree → Files.Tree)
  | advance

/-- One advance of a session: the state and the workspace that it met, its answer, and the state it left. -/
structure Call where
  before : Progress
  workspace : Workspace
  answer : Except Failure Nat
  after : Progress

/-- The advances of a session. -/
def session (sim : Simulation) : Progress → Workspace → List Action → List Call
  | _, _, [] => []
  | p, w, .edit change :: rest => session sim p { w with files := change w.files } rest
  | p, w, .advance :: rest =>
    let ((answer, after), w') := (p.advance sim : Desk (Except Failure Nat × Progress)) w
    ⟨p, w, answer, after⟩ :: session sim after w' rest

/-- The iterations with which the successful advances answered. -/
def indices (calls : List Call) : List Nat :=
  calls.filterMap (·.answer.toOption)

/-- The state after `k` successful advances from the start. -/
structure Reached (sim : Simulation) (bounds : Bounds) (layout : Workloads.Layout) (levels : Quantile.Levels)
    (k : Nat) (p : Progress) : Prop where
  le_count : k ≤ sim.count
  iteration? : p.iteration? = if k = 0 then none else some (sim.first + k - 1)
  bounds : p.bounds = bounds
  layout : p.layout = layout
  levels : p.levels = levels

section Reached

variable {sim : Simulation} {bounds : Bounds} {layout : Workloads.Layout} {levels : Quantile.Levels} {k : Nat}
  {p : Progress}

theorem reached_start (sim : Simulation) (bounds : Bounds) (layout : Workloads.Layout)
    (levels : Quantile.Levels) : Reached sim bounds layout levels 0 (.start bounds layout levels) :=
  ⟨Nat.zero_le _, rfl, rfl, rfl, rfl⟩

theorem Reached.iteration?_of_ne (h : Reached sim bounds layout levels k p) (hk : k ≠ 0) :
    p.iteration? = some (sim.first + k - 1) := by
  rw [h.iteration?, if_neg hk]

/-- Behind the first iteration the end of the simulation is calculated. -/
theorem Reached.next_beyond (h : Reached sim bounds layout levels k p) (hstop : ¬ IsWord sim.stop)
    (hk : k ≠ 0) : p.next sim = .error .overflow :=
  Progress.next_of_not_isWord hstop (h.iteration?_of_ne hk)

theorem Reached.next (h : Reached sim bounds layout levels k p) (calculated : IsWord sim.stop ∨ k = 0) :
    p.next sim = if k = sim.count then .error (.exhausted sim.count) else .ok (sim.first + k) := by
  have hpos := sim.count_pos
  have hle := h.le_count
  cases k with
  | zero => rw [next_of_none h.iteration?, if_neg hpos.ne, Nat.add_zero]
  | succ k =>
    have hstop : IsWord sim.stop := calculated.resolve_right (Nat.succ_ne_zero k)
    have hi : p.iteration? = some (sim.first + k) := h.iteration?_of_ne (Nat.succ_ne_zero k)
    by_cases hk : k + 1 = sim.count
    · have hlast : sim.first + k = sim.last := Simulation.isLast_iff.1 (Simulation.isLast_add_iff.2 hk)
      rw [if_pos hk, next_of_last hstop (hlast ▸ hi)]
    · have hlt : sim.first + k < sim.last := by
        rw [Simulation.last_eq]
        omega
      rw [if_neg hk, next_of_lt hstop hi hlt]
      rfl

theorem Reached.taken (h : Reached sim bounds layout levels k p) (hk : k ≠ sim.count) (s : Sample) :
    Reached sim bounds layout levels (k + 1) (p.taken ⟨sim.first + k, s⟩) := by
  have hle := h.le_count
  refine ⟨by omega, ?_, h.bounds, h.layout, h.levels⟩
  simp only [taken_iteration?, Nat.add_eq_zero_iff, Nat.one_ne_zero, and_false, ↓reduceIte, Option.some.injEq]
  omega

/-- An advance either takes the next iteration or leaves the state alone. -/
theorem Reached.advance (h : Reached sim bounds layout levels k p)
    {sample : Nat → Except Workloads.Error Sample} {answer : Except Failure Nat} {after : Progress}
    (step : Advance sample sim p answer after) :
    (answer = .ok (sim.first + k) ∧ Reached sim bounds layout levels (k + 1) after) ∨
      (∃ failure, answer = .error failure ∧ after = p) := by
  cases step with
  | exhausted hstop hlast => exact .inr ⟨_, rfl, rfl⟩
  | overflowed hi hbeyond => exact .inr ⟨_, rfl, rfl⟩
  | unloaded hn hs => exact .inr ⟨_, rfl, rfl⟩
  | miscounted hn hs hnow hne => exact .inr ⟨_, rfl, rfl⟩
  | @taken i s hn hs hsize =>
    by_cases calculated : IsWord sim.stop ∨ k = 0
    · rw [h.next calculated] at hn
      split at hn
      · cases hn
      · next hk =>
        cases hn
        exact .inl ⟨rfl, h.taken hk s⟩
    · obtain ⟨hstop, hk⟩ := not_or.1 calculated
      rw [h.next_beyond hstop hk] at hn
      cases hn

/-- Only after the last iteration there is none left. -/
theorem Reached.exhausted_iff (h : Reached sim bounds layout levels k p) (hstop : IsWord sim.stop)
    {sample : Nat → Except Workloads.Error Sample} {answer : Except Failure Nat} {after : Progress}
    (step : Advance sample sim p answer after) :
    answer = .error (.exhausted sim.count) ↔ k = sim.count := by
  have hnext := h.next (.inl hstop)
  constructor
  · intro hanswer
    cases step with
    | exhausted hstop hlast =>
      rw [next_of_last hstop hlast] at hnext
      split at hnext
      · assumption
      · cases hnext
    | overflowed hi hbeyond => cases hanswer
    | unloaded hn hs => cases hanswer
    | miscounted hn hs hnow hne => cases hanswer
    | taken hn hs hsize => cases hanswer
  · intro hk
    rw [if_pos hk] at hnext
    exact step.eq_error_of_next hnext

/-- The next iteration is taken exactly if it can be loaded and has as many workers as the current one. -/
theorem Reached.ok_iff (h : Reached sim bounds layout levels k p) (calculated : IsWord sim.stop ∨ k = 0)
    (hk : k ≠ sim.count) {sample : Nat → Except Workloads.Error Sample} {answer : Except Failure Nat}
    {after : Progress} (step : Advance sample sim p answer after) :
    answer = .ok (sim.first + k) ↔
      ∃ s, sample (sim.first + k) = .ok s ∧ ∀ now, p.current = .ok now → now.size = s.size := by
  have hnext := h.next calculated
  rw [if_neg hk] at hnext
  have hcurrent {now : Loaded} (hnow : p.now? = some now) : p.current = .ok now.sample := by
    simp only [current, Progress.now, hnow, Except.map]
  cases step with
  | exhausted hstop hlast =>
    rw [next_of_last hstop hlast] at hnext
    cases hnext
  | overflowed hi hbeyond =>
    rw [next_of_beyond hi hbeyond] at hnext
    cases hnext
  | unloaded hn hs =>
    cases hn.symm.trans hnext
    constructor
    · intro hok
      cases hok
    · rintro ⟨s, hs', -⟩
      cases hs.symm.trans hs'
  | miscounted hn hs hnow hne =>
    cases hn.symm.trans hnext
    constructor
    · intro hok
      cases hok
    · rintro ⟨s, hs', hsize⟩
      cases hs.symm.trans hs'
      exact absurd (hsize _ (hcurrent hnow)) hne
  | @taken i s hn hs hsize =>
    cases hn.symm.trans hnext
    constructor
    · intro _
      refine ⟨s, hs, ?_⟩
      intro now hnow
      unfold current Progress.now at hnow
      cases hp : p.now? with
      | none =>
        rw [hp] at hnow
        cases hnow
      | some loaded =>
        rw [hp] at hnow
        cases hnow
        exact hsize loaded hp
    · intro _
      rfl

end Reached

theorem session_advance (sim : Simulation) (p : Progress) (w : Workspace) (rest : List Action) :
    session sim p w (.advance :: rest) =
      ⟨p, w, (p.advanced (w.workloads sim p.layout) sim).1, (p.advanced (w.workloads sim p.layout) sim).2⟩ ::
        session sim (p.advanced (w.workloads sim p.layout) sim).2
          ((p.advance sim : Desk (Except Failure Nat × Progress)) w).2 rest := by
  rw [← (advance_eq p sim w).1]
  rfl

section Session

variable {sim : Simulation} {bounds : Bounds} {layout : Workloads.Layout} {levels : Quantile.Levels}

/-- What one advance of a session met and did. -/
def Call.Sound (sim : Simulation) (call : Call) : Prop :=
  Advance (call.workspace.workloads sim call.before.layout) sim call.before call.answer call.after

theorem session_sound {p : Progress} {w : Workspace} {actions : List Action} :
    ∀ call ∈ session sim p w actions, call.Sound sim := by
  induction actions generalizing p w with
  | nil => exact fun _ h => nomatch h
  | cons action rest ih =>
    cases action with
    | edit change => exact ih
    | advance =>
      have hs := session_advance sim p w rest
      intro call hcall
      rw [hs, List.mem_cons] at hcall
      rcases hcall with rfl | hcall
      · exact advance_advanced _ _ _
      · exact ih call hcall

/-- Each advance meets the state that the one before left. -/
theorem session_chain {p : Progress} {w : Workspace} {actions : List Action} :
    List.IsChain (fun a b => b.before = a.after) (session sim p w actions) ∧
      ∀ call ∈ (session sim p w actions).head?, call.before = p := by
  induction actions generalizing p w with
  | nil => exact ⟨.nil, fun _ h => nomatch h⟩
  | cons action rest ih =>
    cases action with
    | edit change => exact ih
    | advance =>
      have hs := session_advance sim p w rest
      rw [hs]
      refine ⟨List.isChain_cons.2 ⟨fun b hb => ih.2 b hb, ih.1⟩, fun call hcall => ?_⟩
      cases hcall
      rfl

/-- Before each advance, as many iterations are loaded as advances have succeeded. -/
theorem session_reached {p : Progress} {w : Workspace} {actions : List Action} {k : Nat}
    (h : Reached sim bounds layout levels k p) {done rest : List Call} {call : Call}
    (hs : session sim p w actions = done ++ call :: rest) :
    Reached sim bounds layout levels (k + (indices done).length) call.before := by
  -- Edits leave the state alone, so only the advances before the call count, and of these those that succeed.
  induction actions generalizing p w k done with
  | nil => exact absurd hs.symm (List.append_ne_nil_of_right_ne_nil _ (List.cons_ne_nil _ _))
  | cons action actions ih =>
    cases action with
    | edit change => exact ih h hs
    | advance =>
      have hcons := session_advance sim p w actions
      rw [hcons] at hs
      cases done with
      | nil =>
        obtain ⟨rfl, -⟩ := List.cons.inj hs
        exact h
      | cons first done =>
        obtain ⟨rfl, htail⟩ := List.cons.inj hs
        have hstep := h.advance (advance_advanced (w.workloads sim p.layout) p sim)
        generalize p.advanced (w.workloads sim p.layout) sim = r at hstep htail
        obtain ⟨answer, after⟩ := r
        rcases hstep with ⟨rfl, hnext⟩ | ⟨failure, rfl, rfl⟩
        · have hafter := ih hnext htail
          simpa only [indices, List.filterMap_cons, Except.toOption, List.length_cons, Nat.add_assoc,
            Nat.add_comm 1] using hafter
        · have hafter := ih h htail
          simpa only [indices, List.filterMap_cons, Except.toOption] using hafter

/-- The successful advances answer with the iterations in order. -/
theorem indices_session {p : Progress} {k : Nat} (w : Workspace) (actions : List Action)
    (h : Reached sim bounds layout levels k p) :
    ∃ n, k + n ≤ sim.count ∧ indices (session sim p w actions) = List.range' (sim.first + k) n := by
  induction actions generalizing p w k with
  | nil => exact ⟨0, h.le_count, rfl⟩
  | cons action actions ih =>
    cases action with
    | edit change => exact ih _ h
    | advance =>
      have hcons := session_advance sim p w actions
      rw [hcons]
      have hstep := h.advance (advance_advanced (w.workloads sim p.layout) p sim)
      generalize p.advanced (w.workloads sim p.layout) sim = r at hstep
      obtain ⟨answer, after⟩ := r
      rcases hstep with ⟨rfl, hnext⟩ | ⟨failure, rfl, rfl⟩
      · obtain ⟨n, hle, hn⟩ := ih _ hnext
        refine ⟨n + 1, by omega, ?_⟩
        rw [List.range'_succ, Nat.add_assoc, ← hn]
        rfl
      · exact ih _ h

/-- A session from the start loads the iterations of its simulation in order and at most once. An advance takes
the next one exactly if it can be loaded, in the files as they are at that moment, with as many workers as the
current one; what was current is then the one before. An advance that fails leaves the whole state as it was, and
once all iterations are loaded every further one fails. That takes a simulation whose end can be calculated; if the
number after its last iteration is too great, an overflow follows the first iteration. -/
theorem session_in_order (sim : Simulation) (bounds : Bounds) (layout : Workloads.Layout)
    (levels : Quantile.Levels) (w : Workspace) (actions : List Action) :
    let calls := session sim (.start bounds layout levels) w actions
    (∃ n ≤ sim.count, indices calls = List.range' sim.first n) ∧
    (∀ i ∈ indices calls, i ≤ sim.last) ∧
    (∀ call ∈ calls, ∀ i, call.answer = .ok i →
      ∃ s, call.workspace.workloads sim layout i = .ok s ∧ call.after.iteration? = some i ∧
        call.after.current = .ok s ∧ call.after.previous? = call.before.current.toOption ∧
        call.after.bounds = bounds ∧ call.after.layout = layout ∧ call.after.levels = levels) ∧
    (∀ call ∈ calls, ∀ failure, call.answer = .error failure → call.after = call.before) ∧
    List.IsChain (fun a b => b.before = a.after) calls ∧
    (∀ call ∈ calls.head?, call.before = .start bounds layout levels) ∧
    ∀ done call rest, calls = done ++ call :: rest →
      let k := (indices done).length
      ((IsWord sim.stop ∨ k = 0) → k ≠ sim.count → (call.answer = .ok (sim.first + k) ↔
        ∃ s, call.workspace.workloads sim layout (sim.first + k) = .ok s ∧
          ∀ now, call.before.current = .ok now → now.size = s.size)) ∧
      (IsWord sim.stop → (call.answer = .error (.exhausted sim.count) ↔ k = sim.count)) ∧
      (¬ IsWord sim.stop → k ≠ 0 → call.answer = .error .overflow) := by
  intro calls
  have start := reached_start sim bounds layout levels
  have met {done rest : List Call} {call : Call} (h : calls = done ++ call :: rest) :
      Reached sim bounds layout levels (indices done).length call.before ∧ call.Sound sim := by
    have hreached := session_reached start h
    rw [Nat.zero_add] at hreached
    exact ⟨hreached, session_sound call (h ▸ List.mem_append_right done List.mem_cons_self)⟩
  obtain ⟨n, hle, hn⟩ := indices_session w actions start
  rw [Nat.zero_add] at hle
  refine ⟨⟨n, hle, hn⟩, fun i hi => ?_, fun call hcall i hi => ?_, fun call hcall failure hfailure => ?_,
    session_chain.1, session_chain.2, fun done call rest h => ?_⟩
  · rw [hn, Nat.add_zero, List.mem_range'_1] at hi
    simp only [Simulation.last, Simulation.stop]
    omega
  · obtain ⟨done, rest, h⟩ := List.append_of_mem hcall
    obtain ⟨hreached, hsound⟩ := met h
    have hstep := hreached.advance hsound
    unfold Call.Sound at hsound
    rw [hi] at hsound hstep
    rw [hreached.layout] at hsound
    generalize call.after = after at hsound hstep ⊢
    cases hsound with
    | @taken i s hnext hs hsize =>
      rcases hstep with ⟨-, hafter⟩ | ⟨failure, hfailure, -⟩
      · exact ⟨s, hs, taken_iteration? _ _, taken_current _ _, taken_previous? _ _, hafter.bounds, hafter.layout,
          hafter.levels⟩
      · cases hfailure
  · obtain ⟨done, rest, h⟩ := List.append_of_mem hcall
    obtain ⟨hreached, hsound⟩ := met h
    rcases hreached.advance hsound with ⟨hok, -⟩ | ⟨_, -, hafter⟩
    · rw [hok] at hfailure
      cases hfailure
    · exact hafter
  · obtain ⟨hreached, hsound⟩ := met h
    refine ⟨fun calculated hk => ?_, fun hstop => hreached.exhausted_iff hstop hsound, fun hstop hk => ?_⟩
    · rw [hreached.ok_iff calculated hk hsound, hreached.layout]
    · exact hsound.eq_error_of_next (hreached.next_beyond hstop hk)

end Session

end WorkloadAtlas.Progress
