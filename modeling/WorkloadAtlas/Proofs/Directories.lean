import WorkloadAtlas.Proofs.Places
/-!
What making a directory does to a tree. Whether it succeeds or not, nothing that stands there is touched, and whatever
is new is a directory on the way to the one that is asked for.
-/

namespace WorkloadAtlas.Files.Tree

/-- The names that lead on from a place. -/
def isStep (name : String) : Bool :=
  name != "" && name != "."

/-- The way of a path without the names that lead nowhere. -/
def steps (path : Path) : List String :=
  (names path).filter isStep

/-- What making the directories along `way` may do. -/
structure Made (start : Key) (way : List String) (before after : Tree) : Prop where
  grows : Extends before after
  fresh : ∀ key, after.get? key ≠ before.get? key →
    after.get? key = some .directory ∧ ∃ front, front <+: way ∧ after.walk start front = .ok key

section Made

variable {start : Key} {way : List String} {tree middle after : Tree}

theorem Made.refl (start : Key) (way : List String) (tree : Tree) : Made start way tree tree :=
  ⟨fun _ _ h => h, fun _ h => absurd rfl h⟩

theorem Made.trans (first : Made start way tree middle) (second : Made start way middle after) :
    Made start way tree after := by
  constructor
  · intro key entry h
    exact second.grows key entry (first.grows key entry h)
  · intro key hkey
    by_cases h : after.get? key = middle.get? key
    · rw [h] at hkey
      obtain ⟨hdirectory, front, hfront, hwalk⟩ := first.fresh key hkey
      rw [h]
      exact ⟨hdirectory, front, hfront, second.grows.keeps.walk hwalk⟩
    · exact second.fresh key h

theorem walk_filter {key place : Key} {names : List String} (h : tree.walk key names = .ok place) :
    tree.walk key (names.filter isStep) = .ok place := by
  induction names generalizing key with
  | nil => exact h
  | cons name rest ih =>
    obtain ⟨hkey, next, hturn, hrest⟩ := walk_cons_eq_ok_iff.1 h
    by_cases hstep : isStep name = true
    · rw [List.filter_cons_of_pos hstep]
      exact walk_cons_eq_ok_iff.2 ⟨hkey, next, hturn, ih hrest⟩
    · rw [List.filter_cons_of_neg hstep]
      have hstays : name = "" ∨ name = "." := by
        simpa only [isStep, Bool.and_eq_true, bne_iff_ne, ne_eq, Classical.not_and_iff_not_or_not,
          Classical.not_not] using hstep
      rw [turn, if_pos hstays] at hturn
      cases hturn
      exact ih hrest

theorem filter_dropWhile_empty (names : List String) :
    (names.dropWhile (· == "")).filter isStep = names.filter isStep := by
  induction names with
  | nil => rfl
  | cons name rest ih =>
    by_cases h : name = ""
    · subst h
      exact ih
    · rw [List.dropWhile_cons, beq_false_of_ne h]
      rfl

theorem filter_trimmed (names : List String) :
    (names.reverse.dropWhile (· == "")).reverse.filter isStep = names.filter isStep := by
  rw [List.filter_reverse, filter_dropWhile_empty, List.filter_reverse, List.reverse_reverse]

/-- A new directory below a place that is walked to. -/
theorem made_insert {names : List String} {key : Key} {name : String} (hname : name ≠ "" ∧ name ≠ "." ∧ name ≠ "..")
    (hlength : name.utf8ByteSize ≤ nameLimit) (hwalk : tree.walk start names = .ok key)
    (hkey : tree.get? key = some .directory) (hfree : tree.get? (key ++ [name]) = none)
    (hway : (names ++ [name]).filter isStep <+: way) :
    Made start way tree (tree.insert (key ++ [name]) .directory) := by
  have hgrows : Extends tree (tree.insert (key ++ [name]) .directory) := by
    intro other entry hother
    rw [get?_insert_of_ne]
    · exact hother
    · rintro rfl
      rw [hfree] at hother
      cases hother
  refine ⟨hgrows, ?_⟩
  intro other hother
  have heq : other = key ++ [name] := Classical.byContradiction fun hne => hother (get?_insert_of_ne _ _ _ hne)
  subst heq
  have hdirectory : (tree.insert (key ++ [name]) .directory).get? (key ++ [name]) = some .directory := by
    rw [get?_insert]
    simp only [↓reduceIte, ite_self]
  refine ⟨hdirectory, _, hway, walk_filter ?_⟩
  rw [walk_append_eq_ok_iff]
  refine ⟨key, hgrows.keeps.walk hwalk, ?_⟩
  rw [walk_cons_eq_ok_iff]
  refine ⟨hgrows _ _ hkey, key ++ [name], ?_, rfl⟩
  simp only [turn, hname.1, hname.2.1, hname.2.2, or_self, ↓reduceIte, Nat.not_lt.2 hlength]

theorem made_of_makeOne {names : List String} (hway : names.filter isStep <+: way)
    (h : tree.makeOne start names = .ok after) : Made start way tree after := by
  rw [← filter_trimmed] at hway
  unfold makeOne at h
  generalize (names.reverse.dropWhile (· == "")).reverse = trimmed at h hway
  obtain ⟨key, hwalk, h⟩ := Table.bind_eq_ok h
  split at h
  · cases h
  · cases h
  · next hkey =>
    dsimp only at h
    split at h
    · cases h
    · next hname =>
      split at h
      · cases h
      · next hlength =>
        split at h
        · cases h
        · next hfree =>
          cases h
          rw [not_or, not_or] at hname
          rw [← concat_getLastD hname.1] at hway
          exact made_insert hname (Nat.not_lt.1 hlength) hwalk hkey hfree hway

theorem Made.makeWith {names : List String} {above : Tree → Attempt} (habove : ∀ t, Made start way t (above t).1)
    (hway : names.filter isStep <+: way) : Made start way tree (tree.makeWith start names above).1 := by
  unfold Tree.makeWith
  simp only
  split
  · next made hmade => exact made_of_makeOne hway hmade
  · next hmade =>
    have hfirst := habove tree
    split
    · next made error hmade =>
      rw [hmade] at hfirst
      exact hfirst
    · next made hmade =>
      rw [hmade] at hfirst
      split
      · next done hdone => exact hfirst.trans (made_of_makeOne hway hdone)
      · split
        · split
          · exact hfirst
          · exact hfirst
        · exact hfirst
  · split
    · split
      · exact .refl start way tree
      · exact .refl start way tree
    · exact .refl start way tree

theorem Made.makeChain {back : List String} (hback : back.reverse.filter isStep <+: way) :
    Made start way tree (tree.makeChain start back).1 := by
  induction back generalizing tree with
  | nil => exact .refl start way tree
  | cons name above ih =>
    have habove : above.reverse.filter isStep <+: way := by
      apply List.IsPrefix.trans _ hback
      rw [List.reverse_cons, List.filter_append]
      exact List.prefix_append _ _
    exact .makeWith (fun t => ih habove) hback

end Made

theorem made_makeAll (tree : Tree) (path : Path) : Made (start path) (steps path) tree (tree.makeAll path).1 := by
  unfold makeAll
  split
  · exact .refl _ _ tree
  · split
    · exact .refl _ _ tree
    · apply Made.makeWith
      · intro t
        apply Made.makeChain
        have hfront : ((steps path).reverse.drop 1).reverse = (steps path).dropLast := by
          rw [List.drop_one, ← List.dropLast_reverse, List.reverse_reverse]
        have hsteps : (steps path).dropLast.filter isStep = (steps path).dropLast := by
          rw [List.filter_eq_self]
          intro name hname
          exact (List.mem_filter.1 (List.dropLast_subset _ hname)).2
        have hplain : ((names path).filter fun name => name != "" && name != ".") = steps path := rfl
        rw [hplain, hfront, hsteps]
        exact List.dropLast_prefix _
      · exact List.prefix_refl _

end WorkloadAtlas.Files.Tree
