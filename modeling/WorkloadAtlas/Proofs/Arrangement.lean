import WorkloadAtlas.Proofs.Acceptance
/-!
The order of the rows in a file does not matter. What is made of them once both columns are cast is a relation between
the rows as a whole and the outcome: it is kept by every permutation of the rows, and it leaves no choice. This holds
of the failures as well, whichever way rows of one worker are sorted among each other.
-/

namespace WorkloadAtlas

/-- The sample lists the rows by ascending worker, each of them once. -/
structure Sample.Arranges (s : Sample) (rows : List (Int × Float)) : Prop where
  ordered : s.workers.Pairwise (· < ·)
  perm : (s.workers.zip s.values).Perm rows

namespace Sample.Arranges

variable {s t : Sample} {rows rows' : List (Int × Float)}

theorem map_fst (s : Sample) : (s.workers.zip s.values).map (·.1) = s.workers :=
  List.map_fst_zip (Nat.le_of_eq s.lengths_eq)

theorem map_snd (s : Sample) : (s.workers.zip s.values).map (·.2) = s.values :=
  List.map_snd_zip (Nat.le_of_eq s.lengths_eq.symm)

theorem perm_workers (h : s.Arranges rows) : s.workers.Perm (rows.map (·.1)) := by
  have hperm := h.perm.map (·.1)
  rwa [map_fst] at hperm

theorem nodup (h : s.Arranges rows) : (rows.map (·.1)).Nodup :=
  h.perm_workers.nodup_iff.1 (h.ordered.imp Int.ne_of_lt)

theorem trans (h : s.Arranges rows) (hperm : rows.Perm rows') : s.Arranges rows' :=
  ⟨h.ordered, h.perm.trans hperm⟩

theorem finite (h : s.Arranges rows) : ∀ v ∈ rows.map (·.2), v.isFinite = true := by
  intro v hv
  have hperm := h.perm.map (·.2)
  rw [map_snd] at hperm
  exact s.finite v (hperm.mem_iff.2 hv)

theorem ne_nil (h : s.Arranges rows) : rows ≠ [] := by
  rintro rfl
  have hnil := congrArg (List.map (·.2)) (List.perm_nil.1 h.perm)
  rw [map_snd] at hnil
  exact s.nonempty hnil

/-- No two samples list the same rows. -/
theorem unique (h : s.Arranges rows) (h' : t.Arranges rows) : s = t := by
  have hstrict {u : Sample} (hu : u.Arranges rows) : (u.workers.zip u.values).Pairwise (·.1 < ·.1) := by
    apply List.pairwise_map.1
    rw [map_fst]
    exact hu.ordered
  have hrows : s.workers.zip s.values = t.workers.zip t.values := by
    refine List.Perm.eq_of_pairwise ?_ (hstrict h) (hstrict h') (h.perm.trans h'.perm.symm)
    intro a b _ _ hab hba
    exact absurd (Int.lt_trans hab hba) (Int.lt_irrefl a.1)
  have hworkers : s.workers = t.workers := by rw [← map_fst s, hrows, map_fst t]
  have hvalues : s.values = t.values := by rw [← map_snd s, hrows, map_snd t]
  cases s
  cases t
  subst hworkers hvalues
  rfl

end Sample.Arranges

namespace Workloads

/-- The least of the workers that are listed more than once. -/
structure IsLeastRepeated (worker : Int) (ids : List Int) : Prop where
  repeated : 2 ≤ ids.count worker
  least : ∀ other, 2 ≤ ids.count other → worker ≤ other

section Repeated

variable {ids ids' : List Int} {a b : Int}

theorem IsLeastRepeated.unique (ha : IsLeastRepeated a ids) (hb : IsLeastRepeated b ids) : a = b :=
  Int.le_antisymm (ha.least b hb.repeated) (hb.least a ha.repeated)

theorem IsLeastRepeated.perm (h : IsLeastRepeated a ids) (hperm : ids.Perm ids') : IsLeastRepeated a ids' := by
  constructor
  · rw [← hperm.count_eq]
    exact h.repeated
  · intro other hother
    rw [← hperm.count_eq] at hother
    exact h.least other hother

theorem IsLeastRepeated.not_nodup (h : IsLeastRepeated a ids) : ¬ ids.Nodup := by
  intro hnodup
  have hle := List.nodup_iff_count.1 hnodup a
  have hrepeated := h.repeated
  omega

/-- Where the ids ascend, the first one that stands twice in a row is the least that is repeated at all. -/
theorem isLeastRepeated_of_repeated? (hsorted : ids.Pairwise (· ≤ ·)) (h : repeated? ids = some a) :
    IsLeastRepeated a ids := by
  induction ids with
  | nil => cases h
  | cons first rest ih =>
    cases rest with
    | nil => cases h
    | cons second rest =>
      have hcons := List.pairwise_cons.1 hsorted
      have hmem {other : Int} (hother : 2 ≤ (first :: second :: rest).count other) :
          other = first ∨ 2 ≤ (second :: rest).count other := by
        by_cases heq : other = first
        · exact .inl heq
        · rw [List.count_cons_of_ne (Ne.symm heq)] at hother
          exact .inr hother
      unfold repeated? at h
      split at h
      · next heq =>
        cases h
        refine ⟨?_, ?_⟩
        · rw [← heq, List.count_cons_self, List.count_cons_self]
          omega
        · intro other hother
          rcases hmem hother with rfl | htail
          · exact Int.le_refl _
          · exact hcons.1 other (List.count_pos_iff.1 (by omega))
      · next hne =>
        obtain ⟨hrepeated, hleast⟩ := ih hcons.2 h
        -- The first id lies below the second one, so it is not among the others.
        have hfirst : (second :: rest).count first = 0 := by
          apply List.count_eq_zero.2
          intro hfirst
          have hsecond := hcons.1 second List.mem_cons_self
          rcases List.mem_cons.1 hfirst with heq | hlater
          · exact hne heq
          · have hle := (List.pairwise_cons.1 hcons.2).1 first hlater
            omega
        have hge : first ≠ a := by
          rintro rfl
          omega
        refine ⟨?_, ?_⟩
        · rw [List.count_cons_of_ne hge]
          exact hrepeated
        · intro other hother
          rcases hmem hother with rfl | htail
          · rw [List.count_cons_self] at hother
            omega
          · exact hleast other htail

end Repeated

/-- The checks of rows that stand in ascending order of their workers, and the sample that passes them. -/
def settle (path : Path) (layout : Layout) (rows : List (Int × Float)) : Except Error Sample :=
  let workers := rows.map (·.1)
  let values := rows.map (·.2)
  if values.any fun v => !v.isFinite then .error (.badColumn path layout.valueColumn)
  else match repeated? workers with
    | some worker => .error (.repeatedWorker path worker)
    | none => (Sample.ofColumns workers values).mapError (.noSample path)

theorem ofColumns_eq_settle (path : Path) (layout : Layout) (ids : List Int) (values : List Float) :
    ofColumns path layout ids values = settle path layout (sortedRows ids values) := rfl

/-- What becomes of rows, whatever their order. A workload that is not finite comes first, and then the least worker
that is listed more than once. -/
inductive Settles (path : Path) (layout : Layout) (rows : List (Int × Float)) : Except Error Sample → Prop
  | notFinite {v : Float} : v ∈ rows.map (·.2) → v.isFinite = false →
      Settles path layout rows (.error (.badColumn path layout.valueColumn))
  | repeated {worker : Int} : (∀ v ∈ rows.map (·.2), v.isFinite = true) → IsLeastRepeated worker (rows.map (·.1)) →
      Settles path layout rows (.error (.repeatedWorker path worker))
  | empty : rows = [] → Settles path layout rows (.error (.noSample path .empty))
  | sample {s : Sample} : s.Arranges rows → Settles path layout rows (.ok s)

section Settles

variable {path : Path} {layout : Layout} {rows rows' : List (Int × Float)} {outcome outcome' : Except Error Sample}

theorem Settles.perm (h : Settles path layout rows outcome) (hperm : rows.Perm rows') :
    Settles path layout rows' outcome := by
  have hids := hperm.map (·.1)
  have hvalues := hperm.map (·.2)
  cases h with
  | notFinite hv hfinite => exact .notFinite (hvalues.mem_iff.1 hv) hfinite
  | repeated finite least => exact .repeated (fun v hv => finite v (hvalues.mem_iff.2 hv)) (least.perm hids)
  | empty hnil =>
    subst hnil
    exact .empty (List.nil_perm.1 hperm)
  | sample h => exact .sample (h.trans hperm)

/-- Rows in ascending order settle as the relation says. -/
theorem settles_settle (path : Path) (layout : Layout) (hsorted : (rows.map (·.1)).Pairwise (· ≤ ·)) :
    Settles path layout rows (settle path layout rows) := by
  cases hany : (rows.map (·.2)).any (fun v => !v.isFinite) with
  | true =>
    obtain ⟨v, hv, hfinite⟩ := List.any_eq_true.1 hany
    simp only [settle, hany, ↓reduceIte]
    rw [Bool.not_eq_true'] at hfinite
    exact .notFinite hv hfinite
  | false =>
    have finite : ∀ v ∈ rows.map (·.2), v.isFinite = true := by
      intro v hv
      have hfinite := List.any_eq_false.1 hany v hv
      rwa [Bool.not_eq_true', Bool.not_eq_false] at hfinite
    simp only [settle, hany, Bool.false_eq_true, ↓reduceIte]
    cases hrepeated : repeated? (rows.map (·.1)) with
    | some worker => exact .repeated finite (isLeastRepeated_of_repeated? hsorted hrepeated)
    | none =>
      cases rows with
      | nil => exact .empty rfl
      | cons row rest =>
        have hlengths : ((row :: rest).map (·.1)).length = ((row :: rest).map (·.2)).length := by
          rw [List.length_map, List.length_map]
        rw [Sample.ofColumns_ok hlengths finite (List.cons_ne_nil _ _)]
        have hnodup := (repeated?_eq_none_iff hsorted).1 hrepeated
        refine .sample ⟨?_, ?_⟩
        · exact hsorted.imp₂ (fun a b hab hne => Int.lt_iff_le_and_ne.2 ⟨hab, hne⟩) hnodup
        · exact .of_eq (List.zip_of_prod rfl rfl).symm

/-- The rows leave no choice of what becomes of them. -/
theorem Settles.unique (h : Settles path layout rows outcome) (h' : Settles path layout rows outcome') :
    outcome = outcome' := by
  have hbad {v : Float} (hv : v ∈ rows.map (·.2)) (hfinite : v.isFinite = false) :
      ¬ ∀ v ∈ rows.map (·.2), v.isFinite = true := by
    intro finite
    rw [finite v hv] at hfinite
    cases hfinite
  cases h with
  | notFinite hv hfinite =>
    cases h' with
    | notFinite => rfl
    | repeated finite => exact absurd finite (hbad hv hfinite)
    | empty hnil =>
      subst hnil
      cases hv
    | sample arranges => exact absurd arranges.finite (hbad hv hfinite)
  | repeated finite least =>
    cases h' with
    | notFinite hv hfinite => exact absurd finite (hbad hv hfinite)
    | repeated _ least' => rw [least.unique least']
    | empty hnil =>
      subst hnil
      exact absurd .nil least.not_nodup
    | sample arranges => exact absurd arranges.nodup least.not_nodup
  | empty hnil =>
    subst hnil
    cases h' with
    | notFinite hv => cases hv
    | repeated _ least => exact absurd .nil least.not_nodup
    | empty => rfl
    | sample arranges => exact absurd rfl arranges.ne_nil
  | sample arranges =>
    cases h' with
    | notFinite hv hfinite => exact absurd arranges.finite (hbad hv hfinite)
    | repeated _ least => exact absurd arranges.nodup least.not_nodup
    | empty hnil => exact absurd hnil arranges.ne_nil
    | sample arranges' => rw [arranges.unique arranges']

theorem settles_ofColumns (path : Path) (layout : Layout) (rows : List (Int × Float)) :
    Settles path layout rows (ofColumns path layout (rows.map (·.1)) (rows.map (·.2))) := by
  have hzip : (rows.map (·.1)).zip (rows.map (·.2)) = rows := (List.zip_of_prod rfl rfl).symm
  have hperm := perm_sortedRows (rows.map (·.1)) (rows.map (·.2))
  rw [hzip] at hperm
  rw [ofColumns_eq_settle]
  exact (settles_settle path layout (pairwise_sortedRows _ _)).perm hperm

end Settles

/-- Two tables whose rows are the same but for their order end alike, be it in the same sample or in the same failure.
A workload that is not finite is reported before a worker that is repeated, and of the repeated workers the least one is
named. It makes no difference in which order rows of one worker are checked, as long as all workers ascend. -/
theorem ofTable_arrangement (path : Path) (layout : Layout) (table table' : Table) (rows rows' : List (Int × Float))
    (casts : Casts layout table (rows.map (·.1)) (rows.map (·.2)))
    (casts' : Casts layout table' (rows'.map (·.1)) (rows'.map (·.2))) (arranged : rows.Perm rows') :
    ofTable path layout table = ofTable path layout table' ∧
    (layout.idColumn ≠ layout.valueColumn → Settles path layout rows (ofTable path layout table) ∧
      ∀ sorted : List (Int × Float), sorted.Perm rows → (sorted.map (·.1)).Pairwise (· ≤ ·) →
        settle path layout sorted = ofTable path layout table) := by
  by_cases hne : layout.idColumn = layout.valueColumn
  · obtain ⟨hids, hvalues⟩ := casts.views path
    obtain ⟨hids', hvalues'⟩ := casts'.views path
    refine ⟨?_, fun h => absurd hne h⟩
    unfold ofTable
    rw [hids, hvalues, hids', hvalues']
    simp only [bind, Except.bind, hne, ↓reduceIte]
  · rw [casts.ofTable_eq hne, casts'.ofTable_eq hne]
    have hsettles := settles_ofColumns path layout rows
    refine ⟨?_, fun _ => ⟨hsettles, ?_⟩⟩
    · exact (hsettles.perm arranged).unique (settles_ofColumns path layout rows')
    · intro sorted hperm hsorted
      exact ((settles_settle path layout hsorted).perm hperm).unique hsettles

/-- A table of the standard layout. -/
def tableOf (rows : List (Int × Float)) : Table :=
  ⟨[("edge-id", .integers (rows.map fun row => some row.1)), ("new_metric", .reals (rows.map fun row => some row.2))]⟩

theorem casts_tableOf (rows : List (Int × Float)) :
    Casts .standard (tableOf rows) (rows.map (·.1)) (rows.map (·.2)) :=
  ⟨⟨_, rfl, (List.map_map ..).symm⟩, ⟨_, rfl, (List.map_map ..).symm⟩⟩

/-- Two workers that are both repeated: the lesser one is named, from the first row on as from the last. -/
theorem ofTable_arrangement_reversed :
    let path : Path := ⟨"new_metrics.csv"⟩
    let rows : List (Int × Float) := [(7, 1.0), (3, 2.0), (7, 4.0), (3, 8.0)]
    rows.Perm rows.reverse ∧
    ofTable path .standard (tableOf rows) = .error (.repeatedWorker path 3) ∧
    ofTable path .standard (tableOf rows.reverse) = .error (.repeatedWorker path 3) := by
  intro path rows
  have arranged : rows.Perm rows.reverse := (List.reverse_perm rows).symm
  obtain ⟨heq, hsettles⟩ := ofTable_arrangement path .standard (tableOf rows) (tableOf rows.reverse) rows rows.reverse
    (casts_tableOf rows) (casts_tableOf rows.reverse) arranged
  have finite : ∀ v ∈ rows.map (·.2), v.isFinite = true := by decide +kernel
  have least : IsLeastRepeated 3 (rows.map (·.1)) := by
    refine ⟨by decide, fun other hother => ?_⟩
    have hmem : other ∈ [7, 3, 7, 3] := List.count_pos_iff.1 (Nat.lt_of_lt_of_le Nat.zero_lt_two hother)
    simp only [List.mem_cons, List.not_mem_nil, or_false] at hmem
    omega
  have hnamed := (hsettles (by decide)).1.unique (.repeated finite least)
  exact ⟨arranged, hnamed, heq.symm.trans hnamed⟩

end Workloads

end WorkloadAtlas
