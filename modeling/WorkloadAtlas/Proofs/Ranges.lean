import WorkloadAtlas.Proofs.Pairs
import WorkloadAtlas.Proofs.Precedence
/-!
Which ranges of iterations are accepted, and how an accepted one is walked. The range is checked by its last iteration,
but the last iteration is counted back from the number after it, which is no 64-bit number if the range reaches the
greatest index.
-/

namespace WorkloadAtlas.Simulation

open Number (IsWord)

section Walk

variable (sim : Simulation)

theorem last_sub_first : sim.last - sim.first + 1 = sim.count := by
  have hpos := sim.count_pos
  rw [last_eq]
  omega

theorem length_iterations : sim.iterations.length = sim.count :=
  List.length_range'

theorem iterations_ascend : sim.iterations.Pairwise (· < ·) :=
  List.pairwise_lt_range'

theorem head?_iterations : sim.iterations.head? = some sim.first := by
  rw [iterations, List.head?_range', if_neg sim.count_pos.ne']

theorem iterations_eq_concat : sim.iterations = List.range' sim.first (sim.count - 1) ++ [sim.last] := by
  rw [last_eq, ← List.range'_1_concat, Nat.sub_add_cancel sim.count_pos]
  rfl

theorem filter_isLast : sim.iterations.filter sim.isLast = [sim.last] := by
  have hbefore : (List.range' sim.first (sim.count - 1)).filter sim.isLast = [] := by
    refine List.filter_eq_nil_iff.2 fun i hi => ?_
    rw [isLast_iff, last_eq]
    exact Nat.ne_of_lt (List.mem_range'_1.1 hi).2
  have hlast : [sim.last].filter sim.isLast = [sim.last] :=
    List.filter_cons_of_pos (isLast_iff.2 rfl)
  rw [iterations_eq_concat, List.filter_append, hbefore, hlast, List.nil_append]

end Walk

section Word

variable {dir : Path} {count first : UInt64} {sim : Simulation}

theorem ofRange_eq_ok_iff (dir : Path) (count first : Nat) (sim : Simulation) :
    ofRange dir count first = .ok sim ↔
      Walkable count first ∧ sim.resultsDir = dir ∧ sim.first = first ∧ sim.count = count := by
  by_cases hwalk : Walkable count first
  · rw [ofRange_of_walkable hwalk, and_iff_right hwalk, Except.ok.injEq]
    constructor
    · rintro rfl
      exact ⟨rfl, rfl, rfl⟩
    · obtain ⟨dir', first', count', hpos, hword⟩ := sim
      rintro ⟨rfl, rfl, rfl⟩
      rfl
  · rw [ofRange_of_not_walkable hwalk]
    exact iff_of_false nofun fun h => hwalk h.1

/-- Taken round the end of the 64-bit numbers and back, the last iteration is the right one all the same. -/
theorem wrapped_last (hfirst : sim.first = first.toNat) (hcount : sim.count = count.toNat) :
    (first + count - 1).toNat = sim.last := by
  have hpos := sim.count_pos
  have hword : sim.first + (sim.count - 1) < 2 ^ 64 := sim.last_word
  rw [last_eq, UInt64.toNat_sub, UInt64.toNat_add, UInt64.toNat_one]
  rw [hfirst, hcount] at *
  omega

/-- A range is accepted exactly if it has an iteration and its last one is a 64-bit number; that it has none is found
first. An accepted range has the asked number of iterations. They ascend from the first one on, and only the last of
them is the last one. In 64-bit arithmetic the last iteration is reached without leaving the 64-bit numbers, and with it
all that the range is asked for, unless it ends at the greatest of them: there the sum on the way is too great by one,
and nothing is answered. -/
theorem ofRange_walk (dir : Path) (count first : UInt64) :
    (count = 0 → ofRange dir count.toNat first.toNat = .error .noIterations) ∧
    (count ≠ 0 → 2 ^ 64 ≤ first.toNat + count.toNat - 1 →
      ofRange dir count.toNat first.toNat = .error (.rangeOverflow first.toNat count.toNat)) ∧
    ((∃ sim, ofRange dir count.toNat first.toNat = .ok sim) ↔
      1 ≤ count.toNat ∧ first.toNat + count.toNat - 1 ≤ 2 ^ 64 - 1) ∧
    ∀ sim, ofRange dir count.toNat first.toNat = .ok sim →
      (sim.resultsDir = dir ∧ sim.first = first.toNat ∧ sim.count = count.toNat) ∧
      (first.toNat + count.toNat ≠ 2 ^ 64 →
        Number.sum? sim.first sim.count = some sim.stop ∧ Number.difference? sim.stop 1 = some sim.last ∧
        sim.last? = some sim.last ∧ (∃ span, sim.iterations? = some span ∧ span.toList = sim.iterations) ∧
        ∀ i, sim.isLast? i = some (sim.isLast i)) ∧
      (first.toNat + count.toNat = 2 ^ 64 →
        Number.sum? sim.first sim.count = none ∧ sim.last? = none ∧ sim.iterations? = none ∧
        (∀ i, sim.isLast? i = none) ∧ (first + count - 1).toNat = sim.last) ∧
      IsWord sim.last ∧ sim.last - sim.first + 1 = sim.count ∧
      sim.iterations.length = sim.count ∧ sim.iterations.Pairwise (· < ·) ∧ sim.iterations.head? = some sim.first ∧
      (∀ i, i ∈ sim.iterations ↔ sim.first ≤ i ∧ i ≤ sim.last) ∧
      (∀ i, sim.isLast i = true ↔ i = sim.last) ∧ sim.iterations.filter sim.isLast = [sim.last] := by
  have hrange : Walkable count.toNat first.toNat ↔
      1 ≤ count.toNat ∧ first.toNat + count.toNat - 1 ≤ 2 ^ 64 - 1 := by
    change 0 < count.toNat ∧ first.toNat + (count.toNat - 1) < 2 ^ 64 ↔ _
    omega
  refine ⟨?_, ?_, ?_, ?_⟩
  · rintro rfl
    exact ofRange_of_not_walkable fun h => Nat.lt_irrefl 0 h.1
  · intro hcount hlast
    have hne : count.toNat ≠ 0 := fun h => hcount (UInt64.toNat_inj.1 h)
    have hnot : ¬ Walkable count.toNat first.toNat := by
      rw [hrange]
      omega
    rw [ofRange_of_not_walkable hnot, refusal, if_neg hne]
  · rw [← hrange]
    constructor
    · rintro ⟨sim, h⟩
      exact ((ofRange_eq_ok_iff ..).1 h).1
    · intro hwalk
      exact ⟨_, ofRange_of_walkable hwalk⟩
  · intro sim h
    obtain ⟨-, hdir, hfirst, hcount⟩ := (ofRange_eq_ok_iff ..).1 h
    refine ⟨⟨hdir, hfirst, hcount⟩, ?_, ?_, sim.isWord_last, sim.last_sub_first, sim.length_iterations,
      sim.iterations_ascend, sim.head?_iterations, fun i => mem_iterations, fun i => isLast_iff, sim.filter_isLast⟩
    · intro hsum
      have hstop : IsWord sim.stop := by
        rw [isWord_stop_iff, hfirst, hcount]
        exact hsum
      exact ⟨Number.sum?_of_isWord hstop, Number.difference?_of_le sim.stop_pos, last?_of_isWord hstop,
        ⟨sim.span, iterations?_of_isWord hstop, sim.toList_span⟩, isLast?_of_isWord hstop⟩
    · intro hsum
      have hstop : ¬ IsWord sim.stop := by
        rw [isWord_stop_iff, hfirst, hcount]
        exact not_not_intro hsum
      exact ⟨Number.sum?_of_not_isWord hstop, last?_of_not_isWord hstop, iterations?_of_not_isWord hstop,
        isLast?_of_not_isWord hstop, wrapped_last hfirst hcount⟩

/-- The range of the greatest index alone is accepted, but the sum that its last iteration is counted back from is no
64-bit number, so that nothing can be told of it. -/
theorem ofRange_greatest :
    ∃ sim, ofRange ⟨"results"⟩ 1 0xFFFFFFFFFFFFFFFF = .ok sim ∧ sim.last = 0xFFFFFFFFFFFFFFFF ∧
      Number.sum? sim.first sim.count = none ∧ sim.last? = none ∧ sim.iterations? = none ∧
      sim.isLast? 0xFFFFFFFFFFFFFFFF = none :=
  ⟨Run.greatest, rfl, rfl, rfl, rfl, rfl, rfl⟩

end Word

end WorkloadAtlas.Simulation
