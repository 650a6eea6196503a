import WorkloadAtlas.Proofs.Arithmetic
/-!
How far the statistics of doubles reach. Values of at most a power of two have a sum of at most as many times that
power, in whatever order they are added, and from there bounds follow for the mean and for the deviation. Nothing
becomes infinite as long as these bounds lie below the overflow.
-/

namespace WorkloadAtlas.Number

/-- A finite double of at most a magnitude. -/
def Within (u : ℚ) (x : Float) : Prop :=
  x.isFinite = true ∧ |value x| ≤ u

/-- Multiples of a power of two that doubles count without a gap and without overflow. -/
structure Room (n j : Nat) : Prop where
  counts : n < 2 ^ 53
  below : (n : ℚ) * 2 ^ j < overflow

namespace Room

variable {n k i j : Nat}

theorem mono (h : Room n j) (hk : k ≤ n) (hi : i ≤ j) : Room k i := by
  refine ⟨hk.trans_lt h.counts, LE.le.trans_lt ?_ h.below⟩
  exact mul_le_mul (by exact_mod_cast hk) (pow_le_pow_right₀ one_le_two hi) (pow_nonneg zero_le_two _)
    (Nat.cast_nonneg _)

theorem representable (h : Room n j) : Representable (n * 2 ^ j) :=
  representable_of_nat h.counts.le h.below

theorem representable_power (h : Room n j) (hn : 0 < n) : Representable (2 ^ j) := by
  have hone := (h.mono hn le_rfl).representable
  rwa [Nat.cast_one, one_mul] at hone

/-- Multiples of a lower power of two. -/
theorem of_higher (h : Room n (i + j)) (hn : 0 < n) (hi : i < 53) : Room (2 ^ i) j := by
  have hone := (h.mono hn le_rfl).below
  refine ⟨Nat.pow_lt_pow_right (by norm_num) hi, ?_⟩
  push_cast
  rwa [Nat.cast_one, one_mul, pow_add] at hone

end Room

theorem value_lt_overflow {b : Binary} (h : b.IsDouble) : b.value < overflow :=
  h.lt_threshold.trans threshold_lt_overflow

theorem representable_value {x : Float} (hx : x.isFinite = true) : Representable (value x) := by
  have hdouble := isDouble_magnitude hx
  have hpositive : Representable (magnitude x).value := by
    refine ⟨?_, (magnitude x).significand, (magnitude x).exponent, ?_, ?_, hdouble.least_le⟩
    · rw [abs_of_nonneg (value_nonneg _)]
      exact value_lt_overflow hdouble
    · rw [Binary.value, Int.cast_natCast]
    · rw [abs_of_nonneg (by omega)]
      exact_mod_cast hdouble.significand_lt.le
  rw [value]
  split
  · exact hpositive.neg
  · exact hpositive

namespace Within

variable {u v : ℚ} {x y : Float}

theorem mono (h : Within u x) (huv : u ≤ v) : Within v x :=
  ⟨h.1, h.2.trans huv⟩

theorem nonneg (h : Within u x) : 0 ≤ u :=
  (abs_nonneg _).trans h.2

theorem add (hx : Within u x) (hy : Within v y) (hsum : Representable (u + v)) : Within (u + v) (x + y) :=
  (rounds_add hx.1 hy.1).abs_value_le hsum ((abs_add_le _ _).trans (add_le_add hx.2 hy.2))

theorem sub (hx : Within u x) (hy : Within v y) (hsum : Representable (u + v)) : Within (u + v) (x - y) :=
  (rounds_sub hx.1 hy.1).abs_value_le hsum ((abs_sub _ _).trans (add_le_add hx.2 hy.2))

theorem mul (hx : Within u x) (hy : Within v y) (hproduct : Representable (u * v)) : Within (u * v) (x * y) := by
  apply (rounds_mul hx.1 hy.1).abs_value_le hproduct
  rw [abs_mul]
  exact mul_le_mul hx.2 hy.2 (abs_nonneg _) hx.nonneg

/-- The difference of values of at most a power of two is at most the next one. -/
theorem difference {e : Nat} (hx : Within (2 ^ e) x) (hy : Within (2 ^ e) y) (hnext : Representable (2 ^ (e + 1))) :
    Within (2 ^ (e + 1)) (x - y) := by
  have hsum : (2 : ℚ) ^ e + 2 ^ e = 2 ^ (e + 1) := by rw [pow_succ, mul_two]
  rw [← hsum] at hnext ⊢
  exact hx.sub hy hnext

end Within

theorem value_zero : (0.0 : Float).isFinite = true ∧ value 0.0 = 0 := by
  have hfinite : (0.0 : Float).isFinite = true := by decide +kernel
  exact ⟨hfinite, by rw [value_eq hfinite, unpack_zero]; rfl⟩

theorem within_zero {u : ℚ} (hu : 0 ≤ u) : Within u 0.0 := by
  refine ⟨value_zero.1, ?_⟩
  rw [value_zero.2, abs_zero]
  exact hu

/-- A quotient by a count. -/
theorem Within.div {u : ℚ} {n : Nat} {x y : Float} (hx : Within (n * u) x) (hu : Representable u)
    (hy : y.isFinite = true) (hvalue : value y = n) (hn : 0 < n) : Within u (x / y) := by
  have hcount : (0 : ℚ) < n := by exact_mod_cast hn
  have hrounds := rounds_div hx.1 hy (by rw [hvalue]; exact hcount.ne')
  apply hrounds.abs_value_le hu
  rw [hvalue, abs_div, abs_of_pos hcount, div_le_iff₀' hcount]
  exact hx.2

/-- A mean that moves towards another one by at most their rounded distance `d` does not pass twice its bound. -/
theorem moved_le {a b c d p : ℚ} (hlow : -(2 * c) ≤ a) (ha : a ≤ 2 * c) (hb : b ≤ c)
    (hd : ∀ k : Nat, k ≤ 3 → b - a ≤ k * c → d ≤ k * c) (hp : p ≤ max d 0) : a + p ≤ 2 * c := by
  -- The nearer the mean already is to the bound, the less there is left to move.
  rcases le_or_gt d 0 with hnonpos | hpos
  · rw [max_eq_right hnonpos] at hp
    linarith
  · rw [max_eq_left hpos.le] at hp
    rcases le_or_gt a (-c) with hfar | hnear
    · have h := hd 3 le_rfl (by push_cast; linarith)
      push_cast at h
      linarith
    · rcases le_or_gt a 0 with hneg | hnonneg
      · have h := hd 2 (by norm_num) (by push_cast; linarith)
        push_cast at h
        linarith
      · rcases le_or_gt a c with hsmall | hlarge
        · have h := hd 1 (by norm_num) (by push_cast; linarith)
          push_cast at h
          linarith
        · have h := hd 0 (by norm_num) (by push_cast; linarith)
          push_cast at h
          linarith

/-- A part of at most one of a double lies between it and zero. -/
theorem part_bounds {x t : Float} (hx : x.isFinite = true) (ht : t.isFinite = true) (hlow : 0 ≤ value t)
    (hhigh : value t ≤ 1) :
    (x * t).isFinite = true ∧ min (value x) 0 ≤ value (x * t) ∧ value (x * t) ≤ max (value x) 0 := by
  have hvalue := representable_value hx
  have hrounds := rounds_mul hx ht
  rcases le_total (value x) 0 with h | h
  · rw [min_eq_left h, max_eq_right h]
    exact hrounds.between _ _ hvalue representable_zero (le_mul_of_le_one_right h hhigh)
      (mul_nonpos_of_nonpos_of_nonneg h hlow)
  · rw [min_eq_right h, max_eq_left h]
    exact hrounds.between _ _ representable_zero hvalue (mul_nonneg h hlow) (mul_le_of_le_one_right h hhigh)

theorem part_of_total {x y : Float} (hx : x.isFinite = true) (hy : y.isFinite = true) (hpos : 0 < value x)
    (hle : value x ≤ value y) : (x / y).isFinite = true ∧ 0 ≤ value (x / y) ∧ value (x / y) ≤ 1 := by
  have htotal := hpos.trans_le hle
  exact (rounds_div hx hy htotal.ne').between 0 1 representable_zero representable_one (div_nonneg hpos.le htotal.le)
    ((div_le_one htotal).2 hle)

/-- A mean of at most twice a magnitude moves by a part of at most one towards a mean of at most that magnitude. -/
theorem within_moved {e : Nat} {x y t : Float} (room : Room 3 e) (hx : Within (2 * 2 ^ e) x) (hy : Within (2 ^ e) y)
    (ht : t.isFinite = true) (hlow : 0 ≤ value t) (hhigh : value t ≤ 1) :
    Within (3 * 2 ^ e) (y - x) ∧ Within (2 * 2 ^ e) (x + (y - x) * t) := by
  have hmultiple : ∀ k : Nat, k ≤ 3 → Representable (k * 2 ^ e) :=
    fun k hk => (room.mono hk le_rfl).representable
  have hthree := hmultiple 3 le_rfl
  have htwo := hmultiple 2 (by norm_num)
  push_cast at hthree htwo
  obtain ⟨hxLow, hxHigh⟩ := abs_le.1 hx.2
  obtain ⟨hyLow, hyHigh⟩ := abs_le.1 hy.2
  generalize (2 : ℚ) ^ e = c at *
  have hrounds := rounds_sub hy.1 hx.1
  have hdistance : Within (3 * c) (y - x) := hrounds.abs_value_le hthree (abs_le.2 ⟨by linarith, by linarith⟩)
  obtain ⟨hfinite, hlower, hupper⟩ := part_bounds hdistance.1 ht hlow hhigh
  refine ⟨hdistance, (rounds_add hx.1 hfinite).abs_value_le htwo (abs_le.2 ⟨?_, ?_⟩)⟩
  · have hneg : -value x + -value ((y - x) * t) ≤ 2 * c := by
      apply moved_le (b := -value y) (d := -value (y - x)) (by linarith) (by linarith) (by linarith)
      · intro k hk hle
        have hbetween := hrounds.between (-(k * c)) (3 * c) (hmultiple k hk).neg hthree (by linarith) (by linarith)
        linarith
      · rw [← neg_zero, max_neg_neg]
        linarith
    linarith
  · apply moved_le hxLow hxHigh hyHigh _ hupper
    intro k hk hle
    exact (hrounds.between (-(3 * c)) (k * c) hthree.neg (hmultiple k hk) (by linarith) hle).2.2

end WorkloadAtlas.Number

namespace WorkloadAtlas.Stats

open Number

section Runs

variable {size : Nat} {values : List Float}

theorem flatten_runs (hsize : 0 < size) (values : List Float) : (runs size values).flatten = values := by
  fun_induction runs size values with
  | case1 values h =>
    rcases h with h | h
    · exact absurd h hsize.ne'
    · exact h.symm
  | case2 values h ih => rw [List.flatten_cons, ih, List.take_append_drop]

theorem mem_of_mem_runs (hsize : 0 < size) {run : List Float} (hrun : run ∈ runs size values) {v : Float}
    (hv : v ∈ run) : v ∈ values := by
  rw [← flatten_runs hsize values]
  exact List.mem_flatten.2 ⟨run, hrun, hv⟩

theorem length_of_mem_runs (hsize : 0 < size) {run : List Float} (hrun : run ∈ runs size values) :
    0 < run.length ∧ run.length ≤ size := by
  fun_induction runs size values with
  | case1 values h => cases hrun
  | case2 values h ih =>
    rcases List.mem_cons.1 hrun with rfl | hrun
    · have hpos : 0 < values.length := List.length_pos_iff.2 fun e => h (.inr e)
      rw [List.length_take]
      omega
    · exact ih hrun

/-- Values that fill all runs. -/
theorem length_of_full_runs (hsize : 0 < size) (hfull : size ∣ values.length) :
    (∀ run ∈ runs size values, run.length = size) ∧ size * (runs size values).length = values.length := by
  fun_induction runs size values with
  | case1 values h =>
    rcases h with h | rfl
    · exact absurd h hsize.ne'
    · exact ⟨List.forall_mem_nil _, Nat.mul_zero _⟩
  | case2 values h ih =>
    have hpos : 0 < values.length := List.length_pos_iff.2 fun e => h (.inr e)
    have hle := Nat.le_of_dvd hpos hfull
    have hdrop : (values.drop size).length = values.length - size := List.length_drop
    obtain ⟨hlengths, hcount⟩ := ih (by rw [hdrop]; exact Nat.dvd_sub hfull (Nat.dvd_refl _))
    refine ⟨?_, ?_⟩
    · intro run hrun
      rcases List.mem_cons.1 hrun with rfl | hrun
      · rw [List.length_take]
        omega
      · exact hlengths run hrun
    · rw [List.length_cons, Nat.mul_succ, hcount, hdrop]
      omega

end Runs

section Sums

variable {n j : Nat} {values : List Float}

/-- Two sums of at most as many times a power of two as they have terms. -/
theorem within_add {k l : Nat} {x y : Float} (room : Room (k + l) j) (hx : Within (k * 2 ^ j) x)
    (hy : Within (l * 2 ^ j) y) : Within ((k + l : Nat) * 2 ^ j) (x + y) := by
  have hsum : ((k + l : Nat) : ℚ) * 2 ^ j = k * 2 ^ j + l * 2 ^ j := by
    push_cast
    ring
  have hrepresentable := room.representable
  rw [hsum] at hrepresentable ⊢
  exact hx.add hy hrepresentable

theorem within_foldl {k : Nat} {start : Float} (room : Room (k + values.length) j) (hstart : Within (k * 2 ^ j) start)
    (hvalues : ∀ v ∈ values, Within (2 ^ j) v) :
    Within ((k + values.length : Nat) * 2 ^ j) (values.foldl (· + ·) start) := by
  -- The sum so far is free, together with the number of its terms.
  induction values generalizing k start with
  | nil => exact hstart
  | cons v rest ih =>
    have hlength : k + (v :: rest).length = k + 1 + rest.length := by
      rw [List.length_cons]
      omega
    have hv := hvalues v List.mem_cons_self
    rw [← one_mul (2 ^ j : ℚ), ← Nat.cast_one] at hv
    rw [hlength] at room ⊢
    exact ih room (within_add (room.mono (by omega) le_rfl) hstart hv)
      fun v hv => hvalues v (List.mem_cons_of_mem _ hv)

theorem within_plainSum (room : Room values.length j) (hvalues : ∀ v ∈ values, Within (2 ^ j) v) :
    Within (values.length * 2 ^ j) (plainSum values) := by
  have hstart : Within ((0 : Nat) * 2 ^ j) 0.0 := within_zero (by rw [Nat.cast_zero, zero_mul])
  have h := within_foldl (by rwa [Nat.zero_add]) hstart hvalues
  rwa [Nat.zero_add] at h

theorem within_zipWith {k l : Nat} (room : Room (k + l) j) :
    ∀ {xs ys : List Float}, (∀ x ∈ xs, Within (k * 2 ^ j) x) → (∀ y ∈ ys, Within (l * 2 ^ j) y) →
      ∀ z ∈ List.zipWith (· + ·) xs ys, Within ((k + l : Nat) * 2 ^ j) z := by
  intro xs ys hxs hys z hz
  rw [← List.map_uncurry_zip_eq_zipWith, List.mem_map] at hz
  obtain ⟨⟨x, y⟩, hxy, rfl⟩ := hz
  obtain ⟨hx, hy⟩ := List.of_mem_zip hxy
  exact within_add room (hxs x hx) (hys y hy)

/-- Lanes of as many terms as there are runs. -/
theorem within_lanes {width k : Nat} {lanes : List Float} {blocks : List (List Float)}
    (room : Room (k + blocks.length) j) (hlength : lanes.length = width) (hlanes : ∀ x ∈ lanes, Within (k * 2 ^ j) x)
    (hlengths : ∀ run ∈ blocks, run.length = width) (hblocks : ∀ run ∈ blocks, ∀ v ∈ run, Within (2 ^ j) v) :
    (blocks.foldl (List.zipWith (· + ·)) lanes).length = width ∧
      ∀ x ∈ blocks.foldl (List.zipWith (· + ·)) lanes, Within ((k + blocks.length : Nat) * 2 ^ j) x := by
  induction blocks generalizing k lanes with
  | nil => exact ⟨hlength, hlanes⟩
  | cons run rest ih =>
    have hcount : k + (run :: rest).length = k + 1 + rest.length := by
      rw [List.length_cons]
      omega
    have hrun := hlengths run List.mem_cons_self
    have hvalues : ∀ v ∈ run, Within ((1 : Nat) * 2 ^ j) v := by
      intro v hv
      rw [Nat.cast_one, one_mul]
      exact hblocks run List.mem_cons_self v hv
    rw [hcount] at room ⊢
    apply ih room
    · rw [List.length_zipWith, hlength, hrun, Nat.min_self]
    · exact within_zipWith (room.mono (by omega) le_rfl) hlanes hvalues
    · exact fun run hrun => hlengths run (List.mem_cons_of_mem _ hrun)
    · exact fun run hrun => hblocks run (List.mem_cons_of_mem _ hrun)

theorem within_foldLanes {width k : Nat} {lanes : List Float} (room : Room (k + k) j)
    (hlength : lanes.length = width + width) (hlanes : ∀ x ∈ lanes, Within (k * 2 ^ j) x) :
    (foldLanes lanes).length = width ∧ ∀ x ∈ foldLanes lanes, Within ((k + k : Nat) * 2 ^ j) x := by
  constructor
  · unfold foldLanes
    rw [List.length_zipWith, List.length_take, List.length_drop]
    omega
  · exact within_zipWith room (fun x hx => hlanes x (List.mem_of_mem_take hx))
      fun x hx => hlanes x (List.mem_of_mem_drop hx)

theorem within_blockSum {block : List Float} (room : Room block.length j) (hfull : 16 ∣ block.length)
    (hblock : ∀ v ∈ block, Within (2 ^ j) v) : Within (block.length * 2 ^ j) (blockSum block) := by
  obtain ⟨hlengths, hcount⟩ := length_of_full_runs (by norm_num) hfull
  have hruns : ∀ run ∈ runs 16 block, ∀ v ∈ run, Within (2 ^ j) v :=
    fun run hrun v hv => hblock v (mem_of_mem_runs (by norm_num) hrun hv)
  have hstart : ∀ x ∈ List.replicate 16 (0.0 : Float), Within ((0 : Nat) * 2 ^ j) x := by
    intro x hx
    rw [List.eq_of_mem_replicate hx, Nat.cast_zero, zero_mul]
    exact within_zero le_rfl
  obtain ⟨k, hk⟩ : ∃ k, (runs 16 block).length = k := ⟨_, rfl⟩
  rw [hk] at hcount
  rw [← hcount] at room ⊢
  obtain ⟨hsixteen, hlanes⟩ := within_lanes (k := 0) (room.mono (by omega) le_rfl) List.length_replicate hstart hlengths
    hruns
  rw [hk, Nat.zero_add] at hlanes
  obtain ⟨height, hhalf⟩ := within_foldLanes (room.mono (by omega) le_rfl) (show _ = 8 + 8 from hsixteen) hlanes
  obtain ⟨hfour, hquarter⟩ := within_foldLanes (room.mono (by omega) le_rfl) (show _ = 4 + 4 from height) hhalf
  simp only [blockSum]
  generalize foldLanes (foldLanes _) = lanes at hfour hquarter ⊢
  match lanes, hfour with
  | [a, b, c, d], _ =>
    have ha := hquarter a (by simp)
    have hb := hquarter b (by simp)
    have hc := hquarter c (by simp)
    have hd := hquarter d (by simp)
    have h := within_add (room.mono (by omega) le_rfl) (within_add (room.mono (by omega) le_rfl) ha hc)
      (within_add (room.mono (by omega) le_rfl) hb hd)
    have hsum : k + k + (k + k) + (k + k + (k + k)) + (k + k + (k + k) + (k + k + (k + k))) = 16 * k := by omega
    rw [hsum] at h
    exact h

theorem within_pairwiseSum {blocks : List (List Float)} (room : Room (128 * blocks.length) j)
    (hlengths : ∀ block ∈ blocks, block.length = 128) (hblocks : ∀ block ∈ blocks, ∀ v ∈ block, Within (2 ^ j) v) :
    Within ((128 * blocks.length : Nat) * 2 ^ j) (pairwiseSum blocks) := by
  fun_induction pairwiseSum blocks with
  | case1 => exact within_zero (by rw [List.length_nil, Nat.mul_zero, Nat.cast_zero, zero_mul])
  | case2 block =>
    have hlength := hlengths block List.mem_cons_self
    have hcount : 128 * [block].length = block.length := by rw [hlength, List.length_singleton]
    rw [hcount] at room ⊢
    exact within_blockSum room (by rw [hlength]; norm_num) (hblocks block List.mem_cons_self)
  | case3 first second rest ihFirst ihSecond =>
    generalize first :: second :: rest = blocks at *
    have htake : (blocks.take (blocks.length / 2)).length = blocks.length / 2 := by
      rw [List.length_take]
      omega
    have hdrop : (blocks.drop (blocks.length / 2)).length = blocks.length - blocks.length / 2 := List.length_drop
    have hcount : 128 * blocks.length =
        128 * (blocks.take (blocks.length / 2)).length + 128 * (blocks.drop (blocks.length / 2)).length := by omega
    rw [hcount] at room ⊢
    exact within_add room
      (ihFirst (room.mono (by omega) le_rfl) (fun block h => hlengths block (List.mem_of_mem_take h))
        fun block h => hblocks block (List.mem_of_mem_take h))
      (ihSecond (room.mono (by omega) le_rfl) (fun block h => hlengths block (List.mem_of_mem_drop h))
        fun block h => hblocks block (List.mem_of_mem_drop h))

theorem within_sum (room : Room values.length j) (hvalues : ∀ v ∈ values, Within (2 ^ j) v) :
    Within (values.length * 2 ^ j) (sum values) := by
  obtain ⟨rest, hrest⟩ : ∃ rest, rest = values.length % 128 := ⟨_, rfl⟩
  have hle : rest ≤ values.length := by omega
  have hdrop : (values.drop rest).length = values.length - rest := List.length_drop
  have htake : (values.take rest).length = rest := List.length_take_of_le hle
  have hfull : 128 ∣ (values.drop rest).length := by omega
  obtain ⟨hlengths, hcount⟩ := length_of_full_runs (by norm_num) hfull
  have hlength : values.length = 128 * (runs 128 (values.drop rest)).length + (values.take rest).length := by omega
  have hblocks : ∀ block ∈ runs 128 (values.drop rest), ∀ v ∈ block, Within (2 ^ j) v :=
    fun block hblock v hv => hvalues v (List.mem_of_mem_drop (mem_of_mem_runs (by norm_num) hblock hv))
  have hfirst := within_pairwiseSum (room.mono (by omega) le_rfl) hlengths hblocks
  have hlast : Within ((values.take rest).length * 2 ^ j) (plainSum (values.take rest)) :=
    within_plainSum (room.mono (by omega) le_rfl) fun v hv => hvalues v (List.mem_of_mem_take hv)
  rw [hlength] at room
  have h := within_add room hfirst hlast
  rw [← hlength] at h
  rwa [sum, ← hrest]

theorem within_mean (room : Room values.length j) (hvalues : ∀ v ∈ values, Within (2 ^ j) v)
    (hpos : 0 < values.length) : Within (2 ^ j) (sum values / Float.ofNat values.length) := by
  obtain ⟨hfinite, hvalue⟩ := value_ofNat room.counts
  exact (within_sum room hvalues).div (room.representable_power hpos) hfinite hvalue hpos

end Sums

section Deviation

/-- The running state of the deviation of values of at most a power of two. -/
structure Moments.Extent (e k : Nat) (s : Moments) : Prop where
  finite : s.weight.isFinite = true
  weight : value s.weight = k
  mean : Within (2 * 2 ^ e) s.mean
  squares : Within (k * 2 ^ (2 * e + 5)) s.squares

variable {e : Nat} {values : List Float}

/-- The squared distances of some values from one of at most the same magnitude. -/
theorem within_squares {c : Float} (room : Room values.length (2 * e + 2)) (hpos : 0 < values.length)
    (hvalues : ∀ v ∈ values, Within (2 ^ e) v) (hc : Within (2 ^ e) c) :
    Within (values.length * 2 ^ (2 * e + 2)) (plainSum (values.map fun v => (v - c) * (v - c))) := by
  have hsquare : (2 : ℚ) ^ (e + 1) * 2 ^ (e + 1) = 2 ^ (2 * e + 2) := by
    rw [← pow_add]
    congr 1
    omega
  have hdistances : ∀ q ∈ values.map fun v => (v - c) * (v - c), Within (2 ^ (2 * e + 2)) q := by
    intro q hq
    obtain ⟨v, hv, rfl⟩ := List.mem_map.1 hq
    have hdistance := (hvalues v hv).difference hc ((room.mono le_rfl (by omega)).representable_power hpos)
    rw [← hsquare]
    apply hdistance.mul hdistance
    rw [hsquare]
    exact room.representable_power hpos
  rw [← List.length_map (fun v => (v - c) * (v - c))] at room ⊢
  exact within_plainSum room hdistances

theorem room_four {n : Nat} (room : Room n (2 * e + 5)) (hpos : 0 < n) : Room (2 ^ 2) e :=
  (room.mono le_rfl (show 2 + e ≤ 2 * e + 5 by omega)).of_higher hpos (by norm_num)

/-- What the distance of two means adds to the squares: it is at most four times the magnitude, and so is the distance
that is left after the move, so their product takes four more binades. -/
theorem within_spread {n : Nat} {weight mean moved shift : Float} (room : Room n (2 * e + 5)) (hpos : 0 < n)
    (hweight : Within n weight) (hmean : Within (2 ^ e) mean) (hmoved : Within (2 * 2 ^ e) moved)
    (hshift : Within (3 * 2 ^ e) shift) : Within (n * 2 ^ (2 * e + 4)) (weight * (mean - moved) * shift) := by
  have hfour : (3 : ℚ) * 2 ^ e ≤ 2 ^ (e + 2) := by
    rw [pow_add]
    linarith [hmean.nonneg]
  have hsum : (2 : ℚ) ^ e + 2 * 2 ^ e = 3 * 2 ^ e := by ring
  have hthree : Representable (3 * 2 ^ e) := by
    have h := ((room_four room hpos).mono (show 3 ≤ 2 ^ 2 by norm_num) le_rfl).representable
    rwa [Nat.cast_ofNat] at h
  have hsquare : (n : ℚ) * 2 ^ (e + 2) * 2 ^ (e + 2) = n * 2 ^ (2 * e + 4) := by
    rw [mul_assoc, ← pow_add]
    congr 2
    omega
  have hback := hmean.sub hmoved (by rwa [hsum])
  rw [hsum] at hback
  have hweighted := hweight.mul (hback.mono hfour) (room.mono le_rfl (by omega)).representable
  rw [← hsquare]
  apply hweighted.mul (hshift.mono hfour)
  rw [hsquare]
  exact (room.mono le_rfl (by omega)).representable

theorem Moments.Extent.add {k : Nat} {s : Moments} {run : List Float} (h : s.Extent e k) (hpos : 0 < run.length)
    (room : Room (k + run.length) (2 * e + 5)) (hrun : ∀ v ∈ run, Within (2 ^ e) v) :
    (s.add run).Extent e (k + run.length) := by
  have own : Room run.length (2 * e + 5) := room.mono (by omega) le_rfl
  have narrow (j : Nat) (hj : j ≤ 2 * e + 5) : Room run.length j := own.mono le_rfl hj
  obtain ⟨hweightFinite, hweight⟩ := value_ofNat own.counts
  have hmean : Within (2 ^ e) (plainSum run / Float.ofNat run.length) :=
    (within_plainSum (narrow e (by omega)) hrun).div ((narrow e (by omega)).representable_power hpos) hweightFinite
      hweight hpos
  have hsquares := within_squares (narrow (2 * e + 2) (by omega)) hpos hrun hmean
  simp only [Moments.add]
  generalize plainSum run / Float.ofNat run.length = mean at *
  generalize plainSum (run.map fun v => (v - mean) * (v - mean)) = squares at *
  generalize Float.ofNat run.length = weight at *
  have htotal : (s.weight + weight).isFinite = true ∧ value (s.weight + weight) = (k + run.length : Nat) := by
    have hrounds := rounds_add h.finite hweightFinite
    rw [h.weight, hweight, ← Nat.cast_add] at hrounds
    exact hrounds.exact (representable_natCast room.counts.le)
  have hpart := part_of_total hweightFinite htotal.1 (by rw [hweight]; exact_mod_cast hpos)
    (by rw [hweight, htotal.2]; exact_mod_cast Nat.le_add_left _ _)
  obtain ⟨hshift, hmoved⟩ := within_moved ((room_four own hpos).mono (by norm_num) le_rfl) h.mean hmean hpart.1
    hpart.2.1 hpart.2.2
  generalize s.mean + (mean - s.mean) * (weight / (s.weight + weight)) = moved at *
  refine ⟨htotal.1, htotal.2, hmoved, ?_⟩
  have hspread := within_spread own hpos ⟨hweightFinite, by rw [hweight, abs_of_nonneg (Nat.cast_nonneg _)]⟩ hmean
    hmoved hshift
  have hwide : (run.length : ℚ) * 2 ^ (2 * e + 2) ≤ run.length * 2 ^ (2 * e + 4) :=
    mul_le_mul_of_nonneg_left (pow_le_pow_right₀ one_le_two (by omega)) (Nat.cast_nonneg _)
  have htwice : (run.length : ℚ) * 2 ^ (2 * e + 4) + run.length * 2 ^ (2 * e + 4) = run.length * 2 ^ (2 * e + 5) := by
    rw [pow_succ _ (2 * e + 4)]
    ring
  have hdistances := (hsquares.mono hwide).add hspread (by
    rw [htwice]
    exact own.representable)
  rw [htwice] at hdistances
  exact within_add room h.squares hdistances

theorem Moments.Extent.foldl {k : Nat} {s : Moments} (h : s.Extent e k) (blocks : List (List Float))
    (room : Room (k + blocks.flatten.length) (2 * e + 5)) (hlengths : ∀ run ∈ blocks, 0 < run.length)
    (hblocks : ∀ run ∈ blocks, ∀ v ∈ run, Within (2 ^ e) v) :
    (blocks.foldl Moments.add s).Extent e (k + blocks.flatten.length) := by
  induction blocks generalizing k s with
  | nil => exact h
  | cons run rest ih =>
    have hcount : k + (run :: rest).flatten.length = k + run.length + rest.flatten.length := by
      rw [List.flatten_cons, List.length_append]
      omega
    rw [hcount] at room ⊢
    have hnext := h.add (hlengths run List.mem_cons_self) (room.mono (by omega) le_rfl)
      (hblocks run List.mem_cons_self)
    exact ih hnext room (fun run hrun => hlengths run (List.mem_cons_of_mem _ hrun))
      fun run hrun => hblocks run (List.mem_cons_of_mem _ hrun)

theorem isFinite_deviation (room : Room values.length (2 * e + 5)) (hvalues : ∀ v ∈ values, Within (2 ^ e) v)
    (hpos : 0 < values.length) : (deviation values).isFinite = true := by
  have hnone : Moments.Extent e 0 ⟨0.0, 0.0, 0.0⟩ := by
    refine ⟨value_zero.1, ?_, within_zero (mul_nonneg zero_le_two (pow_nonneg zero_le_two _)), within_zero ?_⟩
    · rw [value_zero.2, Nat.cast_zero]
    · rw [Nat.cast_zero, zero_mul]
  have hflatten := flatten_runs (show 0 < 128 by norm_num) values
  have h := hnone.foldl (runs 128 values) (by rwa [hflatten, Nat.zero_add])
    (fun run hrun => (length_of_mem_runs (by norm_num) hrun).1)
    fun run hrun v hv => hvalues v (mem_of_mem_runs (by norm_num) hrun hv)
  rw [hflatten, Nat.zero_add] at h
  have hvariance := h.squares.div (room.representable_power hpos) h.finite h.weight hpos
  simp only [deviation]
  split
  · exact isFinite_sqrt value_zero.1 (by decide +kernel)
  · next hnot => exact isFinite_sqrt hvariance.1 hnot

end Deviation

end WorkloadAtlas.Stats
