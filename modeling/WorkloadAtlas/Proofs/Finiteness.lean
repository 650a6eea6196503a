import WorkloadAtlas.Proofs.Axes
import WorkloadAtlas.Proofs.Numerals
import WorkloadAtlas.Proofs.Ranks
/-!
Which numbers of a report are finite. The extremes and the levels always are; the mean, the deviation and the quantiles
are as long as the workloads keep away from the greatest double, each of them by a distance of its own. What is not
finite has no number in the document.
-/

namespace WorkloadAtlas

open Number

namespace Number.Layout

theorem exists_head {digits : List Char} (hne : digits ≠ []) (hdigits : ∀ c ∈ digits, isDigit c = true)
    (rest : List Char) : ∃ c tail, digits ++ rest = c :: tail ∧ isDigit c = true := by
  obtain ⟨c, tail, rfl⟩ := List.exists_cons_of_ne_nil hne
  exact ⟨c, tail ++ rest, List.cons_append, hdigits c List.mem_cons_self⟩

/-- Whatever the layout is, a decimal starts with a digit. -/
theorem decimal_head (l : Layout) (d : Decimal) :
    ∃ c tail, (l.decimal d).toList = c :: tail ∧ isDigit c = true := by
  have hstring : (toString d.digits).toList = Nat.toDigits 10 d.digits := Nat.toList_repr
  have hne : Nat.toDigits 10 d.digits ≠ [] := Nat.toDigits_ne_nil
  have hdigits : ∀ c ∈ Nat.toDigits 10 d.digits, isDigit c = true := fun c => isDigit_of_mem_toDigits
  have htake (k : Nat) (hk : 0 < k) (rest : List Char) :
      ∃ c tail, (Nat.toDigits 10 d.digits).take k ++ rest = c :: tail ∧ isDigit c = true := by
    apply exists_head _ fun c hc => hdigits c (List.mem_of_mem_take hc)
    intro hnil
    rcases List.take_eq_nil_iff.1 hnil with hzero | hnil
    · exact hk.ne' hzero
    · exact hne hnil
  simp only [decimal]
  split
  · unfold positionally
    simp only [hstring]
    split
    · refine ⟨'0', _, by simp only [String.toList_append]; rfl, rfl⟩
    · split
      · simp only [String.toList_append, String.toList_ofList, List.append_assoc]
        exact exists_head hne hdigits _
      · simp only [String.toList_append, String.toList_ofList, List.append_assoc]
        exact htake _ (by omega) _
  · unfold exponentially
    simp only [hstring, String.toList_append, String.toList_ofList, List.append_assoc]
    exact htake 1 (by norm_num) _

/-- A finite double starts with a digit or its sign. -/
theorem text_head (l : Layout) {x : Float} (hx : x.isFinite = true) :
    ∃ c tail, (l.text x).toList = c :: tail ∧ (c = '-' ∨ isDigit c = true) := by
  have hsigned (s : String) (hs : ∃ c tail, s.toList = c :: tail ∧ isDigit c = true) :
      ∃ c tail, ((if isNegative x then "-" else "") ++ s).toList = c :: tail ∧ (c = '-' ∨ isDigit c = true) := by
    rw [String.toList_append]
    cases isNegative x with
    | true => exact ⟨'-', s.toList, rfl, .inl rfl⟩
    | false =>
      obtain ⟨c, tail, htail, hc⟩ := hs
      exact ⟨c, tail, htail, .inr hc⟩
  unfold text
  simp only [isNaN_of_isFinite hx, hx, Bool.false_eq_true, ↓reduceIte]
  split
  · rw [String.append_assoc]
    exact hsigned _ ⟨'0', l.wholeEnd.toList, String.toList_append, rfl⟩
  · exact hsigned _ (decimal_head l _)

theorem text_ne_null (l : Layout) {x : Float} (hx : x.isFinite = true) : l.text x ≠ "null" := by
  obtain ⟨c, tail, hhead, hc⟩ := l.text_head hx
  intro hnull
  have hfirst : "null".toList = ['n', 'u', 'l', 'l'] := by decide +kernel
  rw [hnull, hfirst] at hhead
  obtain ⟨rfl, -⟩ := List.cons.inj hhead
  rcases hc with h | h
  · exact absurd h (by decide)
  · exact absurd h (by decide)

end Number.Layout

namespace Json

mutual

/-- The values in a value that hold no others. -/
def scalars : Json → List Json
  | .list items => itemScalars items
  | .object fields => fieldScalars fields
  | .null => [.null]
  | .count n => [.count n]
  | .real x => [.real x]

def itemScalars : List Json → List Json
  | [] => []
  | item :: rest => scalars item ++ itemScalars rest

def fieldScalars : List (String × Json) → List Json
  | [] => []
  | (_, value) :: rest => scalars value ++ fieldScalars rest

end

/-- How many of them are written as null. -/
def nulls (j : Json) : Nat :=
  j.scalars.countP fun value => value.text 0 == "null"

theorem nulls_null : nulls .null = 1 := rfl

theorem nulls_count (n : Nat) : nulls (.count n) = 0 := by
  have hne : (toString n == "null") = false := by
    rw [beq_eq_false_iff_ne]
    intro hnull
    have hdigits : (toString n).toList = Nat.toDigits 10 n := Nat.toList_repr
    have hfirst : 'n' ∈ "null".toList := by decide +kernel
    rw [← hnull, hdigits] at hfirst
    exact absurd (isDigit_of_mem_toDigits hfirst) (by decide)
  simp only [nulls, scalars, List.countP_cons, List.countP_nil, text, hne, Bool.false_eq_true, ↓reduceIte]

theorem nulls_real (x : Float) : nulls (.real x) = if x.isFinite then 0 else 1 := by
  simp only [nulls, scalars, List.countP_cons, List.countP_nil, text]
  by_cases hx : x.isFinite = true
  · have hne := beq_eq_false_iff_ne.2 (Layout.report.text_ne_null hx)
    simp only [hx, ↓reduceIte, hne, Bool.false_eq_true]
  · simp only [hx, Bool.false_eq_true, ↓reduceIte, beq_self_eq_true]

theorem nulls_list (items : List Json) : nulls (.list items) = (items.map nulls).sum := by
  have hitems : itemScalars items = items.flatMap scalars := by
    induction items with
    | nil => rfl
    | cons item rest ih => rw [itemScalars, ih, List.flatMap_cons]
  rw [nulls, scalars, hitems, List.countP_flatMap]
  rfl

theorem nulls_object (fields : List (String × Json)) : nulls (.object fields) = (fields.map (·.2.nulls)).sum := by
  have hfields : fieldScalars fields = fields.flatMap (·.2.scalars) := by
    induction fields with
    | nil => rfl
    | cons field rest ih => rw [fieldScalars, ih, List.flatMap_cons]
  rw [nulls, scalars, hfields, List.countP_flatMap]
  rfl

end Json

namespace Report

/-- Levels and quantiles in their order. -/
def pairs (quantiles : List Quantile) : List Float :=
  quantiles.flatMap fun q => [q.level, q.value]

/-- All numbers of a report that are doubles. -/
def numbers (r : Report) : List Float :=
  [r.workloads.mean, r.workloads.std, r.workloads.min, r.workloads.max] ++ pairs r.quantiles ++
    pairs (r.deltaQuantiles.getD [])

/-- How many of some numbers are not finite. -/
def strays (numbers : List Float) : Nat :=
  numbers.countP fun x => !x.isFinite

theorem strays_append (xs ys : List Float) : strays (xs ++ ys) = strays xs + strays ys :=
  List.countP_append

theorem strays_cons (x : Float) (xs : List Float) : strays (x :: xs) = (Json.real x).nulls + strays xs := by
  rw [strays, List.countP_cons, Json.nulls_real, Nat.add_comm]
  cases x.isFinite with
  | true => rfl
  | false => rfl

theorem nulls_quantilesJson (quantiles : List Quantile) :
    (quantilesJson quantiles).nulls = strays (pairs quantiles) := by
  rw [quantilesJson, Json.nulls_list]
  induction quantiles with
  | nil => rfl
  | cons q rest ih =>
    have hpairs : pairs (q :: rest) = q.level :: q.value :: pairs rest := rfl
    rw [hpairs, strays_cons, strays_cons, ← ih, List.map_cons, List.map_cons, List.sum_cons, Json.nulls_object,
      ← Nat.add_assoc]
    rfl

/-- A document has a null for every number that is not finite, and one for quantiles of changes that are missing. -/
theorem nulls_toJson (r : Report) :
    r.toJson.nulls = strays r.numbers + if r.deltaQuantiles.isNone then 1 else 0 := by
  have hstats : (statsJson r.workloads).nulls =
      strays [r.workloads.mean, r.workloads.std, r.workloads.min, r.workloads.max] := by
    simp only [statsJson, Json.nulls_object, strays_cons, List.map_cons, List.map_nil, List.sum_cons, List.sum_nil]
    rfl
  rw [toJson, Json.nulls_object, numbers, strays_append, strays_append, ← hstats, ← nulls_quantilesJson]
  simp only [List.map_cons, List.map_nil, List.sum_cons, List.sum_nil, Json.nulls_count]
  cases r.deltaQuantiles with
  | none =>
    have hnone : strays (pairs []) = 0 := rfl
    simp only [Option.getD_none, Option.isNone_none, ↓reduceIte, Json.nulls_null, hnone]
    omega
  | some quantiles =>
    simp only [Option.getD_some, Option.isNone_some, Bool.false_eq_true, ↓reduceIte, ← nulls_quantilesJson]
    omega

theorem strays_eq_zero {numbers : List Float} (h : ∀ x ∈ numbers, x.isFinite = true) : strays numbers = 0 := by
  rw [strays, List.countP_eq_zero]
  intro x hx
  rw [h x hx]
  exact Bool.false_ne_true

end Report

namespace Sample

/-- No workload of the sample is greater than a power of two, with or without its sign. -/
def AtMost (s : Sample) (e : Nat) : Prop :=
  ∀ v ∈ s.values, |value v| ≤ 2 ^ e

variable {s : Sample} {e : Nat}

theorem isFinite_extremes (s : Sample) : s.stats.min.isFinite = true ∧ s.stats.max.isFinite = true := by
  have hmem {choice : Float → Float → Float} (h : ∀ x y, choice x y = x ∨ choice x y = y) :
      s.values.tail.foldl choice (s.values.head s.nonempty) ∈ s.values := by
    have hfold := Stats.foldl_mem h s.values.tail (s.values.head s.nonempty)
    rwa [List.cons_head_tail] at hfold
  exact ⟨s.finite _ (hmem Stats.lesser_choice), s.finite _ (hmem Stats.greater_choice)⟩

theorem AtMost.within (h : s.AtMost e) : ∀ v ∈ s.values, Within (2 ^ e) v :=
  fun v hv => ⟨s.finite v hv, h v hv⟩

theorem size_pos (s : Sample) : 0 < s.size :=
  List.length_pos_iff.2 s.nonempty

theorem stats_eq (s : Sample) :
    s.stats.mean = Stats.sum s.values / Float.ofNat s.values.length ∧ s.stats.std = Stats.deviation s.values := by
  have hvalues := List.cons_head_tail s.nonempty
  constructor
  · conv_rhs => rw [← hvalues]
    rfl
  · conv_rhs => rw [← hvalues]
    rfl

theorem AtMost.isFinite_mean (h : s.AtMost e) (room : Room s.size e) : s.stats.mean.isFinite = true := by
  rw [s.stats_eq.1]
  exact (Stats.within_mean room h.within s.size_pos).1

theorem AtMost.isFinite_std (h : s.AtMost e) (room : Room s.size (2 * e + 5)) : s.stats.std.isFinite = true := by
  rw [s.stats_eq.2]
  exact Stats.isFinite_deviation room h.within s.size_pos

/-- Changes are at most twice as great as the workloads. -/
theorem AtMost.within_changes {before : Sample} (h : s.AtMost e) (hbefore : before.AtMost e) (he : Room 1 (e + 1)) :
    ∀ d ∈ List.zipWith (· - ·) s.values before.values, Within (2 ^ (e + 1)) d := by
  intro d hd
  rw [← List.map_uncurry_zip_eq_zipWith, List.mem_map] at hd
  obtain ⟨⟨x, y⟩, hxy, rfl⟩ := hd
  obtain ⟨hx, hy⟩ := List.of_mem_zip hxy
  exact (h.within x hx).difference (hbefore.within y hy) (he.representable_power Nat.one_pos)

end Sample

namespace Run

section Reports

variable {σ : Type} {draw : Visualiser (StateT σ Desk)} {sim : Simulation} {layout : Workloads.Layout}
  {levels : Quantile.Levels} {w : Workspace}

theorem eq_ok_of_conclude {α : Type} {ended : Except Failure Unit} {outcome : Except Failure α} {a : α}
    (h : conclude ended outcome = .ok a) : outcome = .ok a := by
  cases ended with
  | error failure => cases h
  | ok u => exact h

/-- The reports of a run that succeeds are those of its itinerary. -/
theorem reports_of_run {s : σ} {reports : List Report} (spares : Spares draw sim layout w)
    (succeeds : (run draw sim layout levels s w).1.1 = .ok reports) :
    ∃ (sample : Nat → Sample) (bounds : Bounds), (∀ i ∈ sim.iterations, w.workloads sim layout i = .ok (sample i)) ∧
      reports = sim.iterations.map (Itinerary.reportAt ⟨sim, layout, levels, sample, bounds⟩) := by
  have settled {events : List Event} {outcome : Except Failure (List Report)}
      (plain : Course draw sim (Spared sim layout w) (ExceptT.mk (run draw sim layout levels)) events outcome)
      (beside : Course (recorded draw) sim (Spared sim layout w)
        (ExceptT.mk (run (recorded draw) sim layout levels)) events outcome) : outcome = .ok reports := by
    obtain ⟨hsame, ended, -, hresult⟩ := follows_of_course s plain beside
    rw [hsame] at succeeds
    exact eq_ok_of_conclude (hresult.symm.trans succeeds)
  have spares' := spares.recorded
  by_cases hstop : IsWord sim.stop
  · cases prospect sim (w.workloads sim layout) with
    | unloaded i error hi he before =>
      cases settled (run_unloaded spares levels hstop hi he before) (run_unloaded spares' levels hstop hi he before)
    | differing sample i found hi hne differ before =>
      have hb := ofLoaded_differing hi hne differ before
      cases settled (run_unbounded spares levels hstop found hb) (run_unbounded spares' levels hstop found hb)
    | fitting sample found agree =>
      obtain ⟨bounds, hb⟩ := ofLoaded_agreeing agree
      have hok := settled (run_bounded spares levels hstop found hb) (run_bounded spares' levels hstop found hb)
      exact ⟨sample, bounds, found, (Except.ok.inj hok).symm⟩
  · cases settled (run_beyond spares levels hstop) (run_beyond spares' levels hstop)

theorem Itinerary.mem_reports {plan : Itinerary} {k : Nat} {r : Report}
    (h : (plan.sim.iterations.map plan.reportAt)[k]? = some r) :
    plan.sim.first + k ∈ plan.sim.iterations ∧ r = plan.reportAt (plan.sim.first + k) := by
  rw [List.getElem?_map, Option.map_eq_some_iff] at h
  obtain ⟨i, hi, rfl⟩ := h
  have hmem := List.mem_of_getElem? hi
  obtain ⟨hk, hget⟩ := List.getElem?_eq_some_iff.1 hi
  have hindex : plan.sim.first + k = i := by
    simpa [Simulation.iterations] using hget
  rw [hindex]
  exact ⟨hmem, rfl⟩

/-- The document of an itinerary has one null besides those of numbers that are not finite. -/
theorem Itinerary.nulls_document (plan : Itinerary) :
    (Json.list ((plan.sim.iterations.map plan.reportAt).map Report.toJson)).nulls =
      Report.strays ((plan.sim.iterations.map plan.reportAt).flatMap Report.numbers) + 1 := by
  have hpos := plan.sim.count_pos
  obtain ⟨n, hn⟩ : ∃ n, plan.sim.count = n + 1 := ⟨plan.sim.count - 1, by omega⟩
  have hlater (indices : List Nat) (h : ∀ i ∈ indices, i ≠ plan.sim.first) :
      (Json.list ((indices.map plan.reportAt).map Report.toJson)).nulls =
        Report.strays ((indices.map plan.reportAt).flatMap Report.numbers) := by
    induction indices with
    | nil => rfl
    | cons i rest ih =>
      have hne := h i List.mem_cons_self
      have hrest := ih fun i hi => h i (List.mem_cons_of_mem _ hi)
      rw [Json.nulls_list] at hrest ⊢
      simp only [List.map_cons, List.sum_cons, List.flatMap_cons, Report.strays_append, Report.nulls_toJson, hrest]
      simp only [reportAt, hne, ↓reduceIte, Option.isNone_some, Bool.false_eq_true, Nat.add_zero]
  have hrest := hlater (List.range' (plan.sim.first + 1) n) fun i hi => by
    have := List.mem_range'_1.1 hi
    omega
  rw [Json.nulls_list] at hrest ⊢
  rw [Simulation.iterations, hn, List.range'_succ]
  simp only [List.map_cons, List.sum_cons, List.flatMap_cons, Report.strays_append, Report.nulls_toJson, hrest]
  simp only [reportAt, ↓reduceIte, Option.isNone_none]
  omega

/-- The changes that an itinerary reports on; the first iteration has none. -/
def Itinerary.changesAt (plan : Itinerary) (i : Nat) : List Float :=
  List.zipWith (· - ·) (plan.sample i).values (plan.sample (i - 1)).values

theorem Itinerary.mem_deltaQuantiles {plan : Itinerary} {i : Nat} {q : Quantile}
    (hq : q ∈ (plan.reportAt i).deltaQuantiles.getD []) :
    i ≠ plan.sim.first ∧ q ∈ Quantile.ofValues (plan.changesAt i) plan.levels := by
  unfold reportAt at hq
  by_cases hfirst : i = plan.sim.first
  · simp only [hfirst, ↓reduceIte] at hq
    cases hq
  · simp only [hfirst, ↓reduceIte] at hq
    exact ⟨hfirst, hq⟩

theorem Itinerary.isFinite_change {plan : Itinerary} {i e : Nat} {q : Quantile} (h : (plan.sample i).AtMost e)
    (hbefore : i ≠ plan.sim.first → (plan.sample (i - 1)).AtMost e) (hcount : (plan.sample i).size < 2 ^ 53)
    (room : Room 3 (e + 1)) (hq : q ∈ (plan.reportAt i).deltaQuantiles.getD []) : q.value.isFinite = true := by
  obtain ⟨hfirst, hq⟩ := Itinerary.mem_deltaQuantiles hq
  apply Quantile.isFinite_value hq room (h.within_changes (hbefore hfirst) (room.mono (by norm_num) le_rfl))
  have hsize : (plan.sample i).size = (plan.sample i).values.length := rfl
  rw [changesAt, List.length_zipWith]
  omega

/-- If the workloads keep away from the greatest double, then all numbers of a report are finite. -/
theorem Itinerary.isFinite_numbers {plan : Itinerary} {i e : Nat} (h : (plan.sample i).AtMost e)
    (hbefore : i ≠ plan.sim.first → (plan.sample (i - 1)).AtMost e)
    (room : Room (plan.sample i).size (2 * e + 5)) : ∀ x ∈ (plan.reportAt i).numbers, x.isFinite = true := by
  have hpos := (plan.sample i).size_pos
  have narrow : Room (2 ^ 2) (e + 1) := (room.mono le_rfl (show 2 + (e + 1) ≤ 2 * e + 5 by omega)).of_higher hpos
    (by norm_num)
  have hextremes := (plan.sample i).isFinite_extremes
  intro x hx
  unfold Report.numbers at hx
  rw [List.mem_append, List.mem_append] at hx
  rcases hx with (hstats | hquantiles) | hchanges
  · simp only [List.mem_cons, List.not_mem_nil, or_false] at hstats
    rcases hstats with rfl | rfl | rfl | rfl
    · exact h.isFinite_mean (room.mono le_rfl (by omega))
    · exact h.isFinite_std room
    · exact hextremes.1
    · exact hextremes.2
  · obtain ⟨q, hq, hx⟩ := List.mem_flatMap.1 hquantiles
    rw [List.mem_pair] at hx
    rcases hx with rfl | rfl
    · exact Quantile.isFinite_level hq
    · exact Quantile.isFinite_value hq (narrow.mono (by norm_num) (Nat.le_succ e)) h.within room.counts
  · obtain ⟨q, hq, hx⟩ := List.mem_flatMap.1 hchanges
    rw [List.mem_pair] at hx
    rcases hx with rfl | rfl
    · exact Quantile.isFinite_level (Itinerary.mem_deltaQuantiles hq).2
    · exact Itinerary.isFinite_change h hbefore room.counts (narrow.mono (by norm_num) le_rfl) hq

/-- The numbers in the reports of a run that succeeds. The extremes and the levels are finite without any condition. The
others are finite if the workloads are at most a power of two that leaves room: the mean for a sum of as many values as
there are workers, the deviation for a sum of as many squares, and a quantile for three times a value, or twice as much
in the case of changes. The document has a null for each number that is not finite, and one more, since the first
iteration alone has no quantiles of changes. -/
theorem finite_reports (draw : Visualiser (StateT σ Desk)) (sim : Simulation) (layout : Workloads.Layout)
    (levels : Quantile.Levels) (s : σ) (w : Workspace) (reports : List Report) (spares : Spares draw sim layout w)
    (succeeds : (run draw sim layout levels s w).1.1 = .ok reports) :
    ∃ sample : Nat → Sample, (∀ i ∈ sim.iterations, w.workloads sim layout i = .ok (sample i)) ∧
      reports.map (·.iteration) = sim.iterations ∧
      (∀ k r, reports[k]? = some r →
        r.workers = (sample (sim.first + k)).size ∧ (r.deltaQuantiles = none ↔ k = 0) ∧
        r.workloads.min.isFinite = true ∧ r.workloads.max.isFinite = true ∧
        (∀ q ∈ r.quantiles ++ r.deltaQuantiles.getD [], q.level.isFinite = true) ∧
        ∀ e, (sample (sim.first + k)).AtMost e →
          (Room r.workers e → r.workloads.mean.isFinite = true) ∧
          (Room r.workers (2 * e + 5) → r.workloads.std.isFinite = true) ∧
          (r.workers < 2 ^ 53 → Room 3 e → ∀ q ∈ r.quantiles, q.value.isFinite = true) ∧
          (r.workers < 2 ^ 53 → Room 3 (e + 1) → (k ≠ 0 → (sample (sim.first + k - 1)).AtMost e) →
            ∀ q ∈ r.deltaQuantiles.getD [], q.value.isFinite = true)) ∧
      (Json.list (reports.map Report.toJson)).nulls = Report.strays (reports.flatMap Report.numbers) + 1 ∧
      ∀ e, (∀ i ∈ sim.iterations, (sample i).AtMost e ∧ Room (sample i).size (2 * e + 5)) →
        (∀ r ∈ reports, ∀ x ∈ r.numbers, x.isFinite = true) ∧
        (Json.list (reports.map Report.toJson)).nulls = 1 := by
  obtain ⟨sample, bounds, found, rfl⟩ := reports_of_run spares succeeds
  have hnulls := Itinerary.nulls_document ⟨sim, layout, levels, sample, bounds⟩
  have hindex (k : Nat) : sim.first + k = sim.first ↔ k = 0 := by omega
  refine ⟨sample, found, ?_, ?_, hnulls, ?_⟩
  · rw [List.map_map]
    exact List.map_id _
  · intro k r hr
    obtain ⟨-, rfl⟩ := Itinerary.mem_reports hr
    have hextremes := (sample (sim.first + k)).isFinite_extremes
    refine ⟨rfl, ?_, hextremes.1, hextremes.2, ?_, ?_⟩
    · rw [← hindex k]
      simp only [Itinerary.reportAt, ite_eq_left_iff, reduceCtorEq, imp_false, not_not]
    · intro q hq
      rcases List.mem_append.1 hq with hq | hq
      · exact Quantile.isFinite_level hq
      · exact Quantile.isFinite_level (Itinerary.mem_deltaQuantiles hq).2
    · intro e hmost
      refine ⟨hmost.isFinite_mean, hmost.isFinite_std, ?_, ?_⟩
      · intro hcount room q hq
        exact Quantile.isFinite_value hq room hmost.within hcount
      · intro hcount room hbefore q hq
        exact Itinerary.isFinite_change hmost (fun hne => hbefore fun hk => hne ((hindex k).2 hk)) hcount room hq
  · intro e hmost
    have hfinite : ∀ r ∈ sim.iterations.map (Itinerary.reportAt ⟨sim, layout, levels, sample, bounds⟩),
        ∀ x ∈ r.numbers, x.isFinite = true := by
      intro r hr
      obtain ⟨i, hi, rfl⟩ := List.mem_map.1 hr
      have hrange := List.mem_range'_1.1 hi
      apply Itinerary.isFinite_numbers (hmost i hi).1 _ (hmost i hi).2
      intro hne
      have hfirst : i ≠ sim.first := hne
      exact (hmost (i - 1) (List.mem_range'_1.2 (by omega))).1
    refine ⟨hfinite, ?_⟩
    rw [hnulls, Report.strays_eq_zero]
    intro x hx
    obtain ⟨r, hr, hx⟩ := List.mem_flatMap.1 hx
    exact hfinite r hr x hx

end Reports

/-- A run over small workloads: all numbers that it reports are finite, and its document has a single null. -/
theorem finite_reports_paired : ∃ reports,
    Spares blank pair .standard (paired "edge-id new_metric\n0 1\n1 2\n" "edge-id new_metric\n0 2\n1 -1\n") ∧
    (run blank pair .standard .quartiles ()
      (paired "edge-id new_metric\n0 1\n1 2\n" "edge-id new_metric\n0 2\n1 -1\n")).1.1 = .ok reports ∧
    (∀ r ∈ reports, ∀ x ∈ r.numbers, x.isFinite = true) ∧ (Json.list (reports.map Report.toJson)).nulls = 1 := by
  obtain ⟨s, t, hpairing, hworkersS, hs, hworkersT, ht⟩ := exists_pairing tabulated_rising tabulated_falling
  have hrun := hpairing.run_blank (hworkersT.trans hworkersS.symm)
  have hspares := blank_spares pair .standard
    (paired "edge-id new_metric\n0 1\n1 2\n" "edge-id new_metric\n0 2\n1 -1\n")
  refine ⟨_, hspares, hrun, ?_⟩
  obtain ⟨sample, found, -, -, -, hfinite⟩ := finite_reports blank pair .standard .quartiles () _ _ hspares hrun
  have hsmall : ∀ v ∈ [(1.0 : Float), 2.0, -1.0], |value v| ≤ 2 ^ 1 := by decide +kernel
  have room : Room 2 (2 * 1 + 5) := ⟨by norm_num, by decide +kernel⟩
  have hpair : pair.iterations = [3, 4] := rfl
  apply hfinite 1
  intro i hi
  have hfound := found i hi
  rw [hpair] at hi
  simp only [List.mem_cons, List.not_mem_nil, or_false] at hi
  rcases hi with rfl | rfl
  · rw [← Except.ok.inj (hpairing.former.symm.trans hfound), Sample.AtMost, Sample.size, hs]
    exact ⟨fun v hv => hsmall v (by grind), room⟩
  · rw [← Except.ok.inj (hpairing.latter.symm.trans hfound), Sample.AtMost, Sample.size, ht]
    exact ⟨fun v hv => hsmall v (by grind), room⟩

/-- Next to the greatest double a sum overflows, and so do the distance of two workloads and the change of one. -/
theorem near_greatest_not_finite : ∃ first second,
    (run blank pair .standard .quartiles ()
      (paired "edge-id new_metric\n0 1e308\n1 1e308\n" "edge-id new_metric\n0 -1e308\n1 1e308\n")).1.1 =
        .ok [first, second] ∧
    first.workloads.mean.isFinite = false ∧ first.workloads.std.isFinite = false ∧
    (∃ q ∈ second.quantiles, q.value.isFinite = false) ∧
    ∃ q ∈ second.deltaQuantiles.getD [], q.value.isFinite = false := by
  have hfirst : Workloads.Tabulated .standard (.text "edge-id new_metric\n0 1e308\n1 1e308\n") [0, 1] [1e308, 1e308] :=
    ⟨by decide +kernel, by decide, by decide, rfl, by decide +kernel⟩
  have hsecond :
      Workloads.Tabulated .standard (.text "edge-id new_metric\n0 -1e308\n1 1e308\n") [0, 1] [-1e308, 1e308] :=
    ⟨by decide +kernel, by decide, by decide, rfl, by decide +kernel⟩
  obtain ⟨s, t, hpairing, hworkersS, hs, hworkersT, ht⟩ := exists_pairing hfirst hsecond
  have hrun := hpairing.run_blank (hworkersT.trans hworkersS.symm)
  rw [hs, ht] at hrun
  have hmedian : 50.0 ∈ Quantile.Levels.quartiles.toList := .tail _ (.tail _ (.head _))
  refine ⟨_, _, hrun, ?_, ?_, ?_, ?_⟩
  · rw [s.stats_eq.1, hs]
    decide +kernel
  · rw [s.stats_eq.2, hs]
    decide +kernel
  · exact ⟨_, Quantile.mem_ofValues_of_sorted (by decide +kernel) (List.cons_ne_nil _ _) hmedian, by decide +kernel⟩
  · exact ⟨_, Quantile.mem_ofValues_of_sorted (by decide +kernel) (List.cons_ne_nil _ _) hmedian, by decide +kernel⟩

end Run

end WorkloadAtlas
