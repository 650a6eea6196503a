import WorkloadAtlas.Failure
import WorkloadAtlas.Simulation
/-!
The iterations of a simulation over the natural numbers, and which of them the checked arithmetic of the program comes
to: all, unless the number after the last iteration has more than 64 bits. Then the arithmetic comes to nothing.
-/

namespace WorkloadAtlas

open Number (IsWord)

namespace Number

variable {a b : Nat}

theorem sum?_of_isWord (h : IsWord (a + b)) : sum? a b = some (a + b) :=
  if_pos h

theorem sum?_of_not_isWord (h : ¬ IsWord (a + b)) : sum? a b = none :=
  if_neg h

theorem sum?_eq_some_iff {c : Nat} : sum? a b = some c ↔ IsWord (a + b) ∧ c = a + b := by
  by_cases h : IsWord (a + b)
  · rw [sum?_of_isWord h, and_iff_right h, Option.some.injEq, eq_comm]
  · rw [sum?_of_not_isWord h]
    exact iff_of_false nofun fun hsum => h hsum.1

theorem difference?_of_le (h : b ≤ a) : difference? a b = some (a - b) :=
  if_pos h

end Number

namespace Failure

theorem checked_eq_ok_iff {α : Type} {x : Option α} {a : α} : checked x = .ok a ↔ x = some a := by
  cases x with
  | none => exact iff_of_false nofun nofun
  | some b => rw [checked, Except.ok.injEq, Option.some.injEq]

end Failure

namespace Simulation

/-- The number after the last iteration; it is `2 ^ 64` when the range reaches the greatest index. -/
def stop (sim : Simulation) : Nat :=
  sim.first + sim.count

/-- The last iteration, which is itself read. -/
def last (sim : Simulation) : Nat :=
  sim.stop - 1

def isLast (sim : Simulation) (iteration : Nat) : Bool :=
  iteration == sim.last

def iterations (sim : Simulation) : List Nat :=
  List.range' sim.first sim.count

section Range

variable {sim : Simulation} {i k : Nat}

theorem last_eq (sim : Simulation) : sim.last = sim.first + (sim.count - 1) := by
  have hpos := sim.count_pos
  rw [last, stop]
  omega

theorem first_le_last (sim : Simulation) : sim.first ≤ sim.last := by
  rw [last_eq]
  exact Nat.le_add_right _ _

theorem stop_pos (sim : Simulation) : 1 ≤ sim.stop := by
  have hpos := sim.count_pos
  rw [stop]
  omega

theorem last_add_one (sim : Simulation) : sim.last + 1 = sim.stop :=
  Nat.sub_add_cancel sim.stop_pos

theorem isWord_last (sim : Simulation) : IsWord sim.last := by
  rw [last_eq]
  exact sim.last_word

/-- The number after the last iteration is the only one of the range that may be too great. -/
theorem isWord_stop_iff (sim : Simulation) : IsWord sim.stop ↔ sim.first + sim.count ≠ 0x10000000000000000 := by
  have hlast : sim.stop - 1 < 0x10000000000000000 := sim.isWord_last
  have hpos := sim.stop_pos
  change sim.stop < 0x10000000000000000 ↔ sim.stop ≠ 0x10000000000000000
  omega

theorem mem_iterations : i ∈ sim.iterations ↔ sim.first ≤ i ∧ i ≤ sim.last := by
  have hpos := sim.count_pos
  rw [iterations, List.mem_range'_1, last_eq]
  omega

theorem isLast_iff : sim.isLast i = true ↔ i = sim.last :=
  beq_iff_eq

/-- Counted from the first iteration, the last one is the one that makes up the number of iterations. -/
theorem isLast_add_iff : sim.isLast (sim.first + k) = true ↔ k + 1 = sim.count := by
  have hpos := sim.count_pos
  rw [isLast_iff, last_eq]
  omega

end Range

/-- The iterations as the program keeps them. -/
def span (sim : Simulation) : Span :=
  ⟨sim.first, sim.last⟩

theorem size_span (sim : Simulation) : sim.span.size = sim.count := by
  change sim.last + 1 - sim.first = sim.count
  rw [last_add_one, stop, Nat.add_sub_cancel_left]

theorem toList_span (sim : Simulation) : sim.span.toList = sim.iterations := by
  rw [Span.toList, size_span]
  rfl

section Checked

variable {sim : Simulation}

theorem last?_of_isWord (h : IsWord sim.stop) : sim.last? = some sim.last := by
  rw [last?, Number.sum?_of_isWord h]
  exact Number.difference?_of_le sim.stop_pos

theorem last?_of_not_isWord (h : ¬ IsWord sim.stop) : sim.last? = none := by
  rw [last?, Number.sum?_of_not_isWord h]
  rfl

theorem isLast?_of_isWord (h : IsWord sim.stop) (i : Nat) : sim.isLast? i = some (sim.isLast i) := by
  rw [isLast?, last?_of_isWord h]
  rfl

theorem isLast?_of_not_isWord (h : ¬ IsWord sim.stop) (i : Nat) : sim.isLast? i = none := by
  rw [isLast?, last?_of_not_isWord h]
  rfl

/-- What the program takes for the answer is the right one. -/
theorem isLast_of_checked {i : Nat} {b : Bool} (h : Failure.checked (sim.isLast? i) = .ok b) : b = sim.isLast i := by
  rw [Failure.checked_eq_ok_iff] at h
  by_cases hstop : IsWord sim.stop
  · rw [isLast?_of_isWord hstop] at h
    exact (Option.some.inj h).symm
  · rw [isLast?_of_not_isWord hstop] at h
    cases h

theorem iterations?_of_isWord (h : IsWord sim.stop) : sim.iterations? = some sim.span := by
  rw [iterations?, last?_of_isWord h]
  rfl

theorem iterations?_of_not_isWord (h : ¬ IsWord sim.stop) : sim.iterations? = none := by
  rw [iterations?, last?_of_not_isWord h]
  rfl

end Checked

end Simulation

end WorkloadAtlas
