import McpFramework.Lib.Buckets
import Mathlib.Algebra.Order.Floor.Semiring
import Mathlib.Data.List.Destutter
import Mathlib.Data.Rat.Floor
import Mathlib.Tactic.FieldSimp
import Mathlib.Tactic.Linarith
import Mathlib.Tactic.Positivity

/-!
# Metrics — Histogram

The latency histogram of a tool (`metrics/histogram.rs`): one counter for each
bucket, and quantiles by linear interpolation inside the bucket of the rank.

A float is a rational here and sums are exact; a float that is not finite is
`none`.
-/

namespace McpFramework.Metrics

open Lib

/-! ## Bounds -/

/-- Upper bounds in milliseconds, the buckets of a histogram. -/
structure Bounds where
  values : List ℚ
  ne_nil : values ≠ []
  ascending : values.Pairwise (· < ·)
  positive : ∀ b ∈ values, 0 < b

def DEFAULT_METRICS_LATENCY_BUCKETS_MS : List ℚ :=
  [1, 5, 10, 25, 50, 100, 250, 500, 1000, 2500, 5000, 10000]

/-- What is consecutively equal in an ascending list is equal. -/
theorem pairwise_lt_destutter {l : List ℚ} (h : l.Pairwise (· ≤ ·)) :
    (l.destutter (· ≠ ·)).Pairwise (· < ·) := by
  have hle := h.sublist (List.destutter_sublist (· ≠ ·) l)
  have hne := List.isChain_destutter (· ≠ ·) l
  generalize l.destutter (· ≠ ·) = ds at hle hne
  refine List.isChain_iff_pairwise.mp ?_
  induction ds with
  | nil => exact .nil
  | cons a ds ih =>
    cases ds with
    | nil => exact .singleton a
    | cons b ds =>
      obtain ⟨hab, hne⟩ := List.isChain_cons_cons.mp hne
      obtain ⟨ha, hle⟩ := List.pairwise_cons.mp hle
      exact .cons_cons (lt_of_le_of_ne (ha b List.mem_cons_self) hab) (ih hle hne)

/-- The finite positive ones of the configured bounds, ascending and each once;
the default ones if there are none. -/
def sortedBounds (latencyBucketsMs : List (Option ℚ)) : Bounds :=
  let bounds := (sorted ((latencyBucketsMs.filterMap id).filter fun v => decide (0 < v))).destutter
    (· ≠ ·)
  if h : bounds = [] then
    ⟨DEFAULT_METRICS_LATENCY_BUCKETS_MS, by simp [DEFAULT_METRICS_LATENCY_BUCKETS_MS],
      by simp [DEFAULT_METRICS_LATENCY_BUCKETS_MS]; norm_num,
      by simp [DEFAULT_METRICS_LATENCY_BUCKETS_MS]⟩
  else
    ⟨bounds, h, pairwise_lt_destutter (pairwise_sorted _), fun b hb => by
      have hmem := (sorted_perm _).subset ((List.destutter_sublist _ _).subset hb)
      exact of_decide_eq_true (List.mem_filter.mp hmem).2⟩

/-! ## The histogram -/

/-- The last counter is the overflow bucket, for what exceeds every bound. -/
structure Histogram where
  bounds : Bounds
  counts : List Nat
  sumMs : ℚ
  count : Nat
  length_counts : counts.length = bounds.values.length + 1

namespace Histogram

def new (bounds : Bounds) : Histogram :=
  { bounds := bounds, counts := List.replicate (bounds.values.length + 1) 0, sumMs := 0
    count := 0, length_counts := List.length_replicate }

def observe (h : Histogram) (ms : ℚ) : Histogram :=
  { h with
    counts := increment h.counts (bucketOf h.bounds.values ms)
    sumMs := h.sumMs + ms
    count := h.count + 1
    length_counts := by rw [length_increment, h.length_counts] }

def meanMs (h : Histogram) : ℚ := if h.count = 0 then 0 else h.sumMs / h.count

/-- The lower edge of a bucket. -/
def lowerEdge (bounds : List ℚ) (i : Nat) : ℚ := if i = 0 then 0 else bounds.getD (i - 1) 0

/-- What is answered for a rank in the `i`-th bucket. The overflow bucket has no
finite upper bound: its lower edge is reported. -/
def interpolate (bounds : List ℚ) (rank : ℚ) (i cumulative bucketCount : Nat) : ℚ :=
  let lower := lowerEdge bounds i
  match bounds[i]? with
  | none => lower
  | some upper =>
    let posInBucket := rank - cumulative
    let frac := posInBucket / bucketCount
    lower + frac * (upper - lower)

/-- The loop over the counters, from the `i`-th on. -/
def quantileLoop (bounds : List ℚ) (rank : ℚ) : List Nat → Nat → Nat → ℚ
  | [], _, _ => bounds.getLast?.getD 0
  | bucketCount :: counts, i, cumulative =>
    let next := cumulative + bucketCount
    if rank ≤ (next : ℚ) ∧ bucketCount > 0 then interpolate bounds rank i cumulative bucketCount
    else quantileLoop bounds rank counts (i + 1) next

def quantile (h : Histogram) (q : ℚ) : ℚ :=
  if h.count = 0 then 0
  else quantileLoop h.bounds.values (q * h.count) h.counts 0 0

/-- The loop over the bounds; `counts` are the counters from the same place on. -/
def cumulativeLoop : List ℚ → List Nat → Nat → List (ℚ × Nat)
  | bound :: bounds, count :: counts, cumulative =>
    (bound, cumulative + count) :: cumulativeLoop bounds counts (cumulative + count)
  | _, _, _ => []

def cumulativeBuckets (h : Histogram) : List (ℚ × Nat) :=
  cumulativeLoop h.bounds.values h.counts 0

/-- A histogram after a sequence of observations. -/
def observing (bounds : Bounds) (observations : List ℚ) : Histogram :=
  observations.foldl observe (new bounds)

/-! ## What is counted -/

/-- The counters hold these observations. -/
structure Counted (h : Histogram) (observations : List ℚ) : Prop where
  before : ∀ i, countBefore h.counts i =
    observations.countP fun ms => decide (bucketOf h.bounds.values ms < i)
  count : h.count = observations.length

variable {h : Histogram} {observations : List ℚ}

theorem counted_new (bounds : Bounds) : Counted (new bounds) [] :=
  ⟨fun i => by simp [countBefore, new], rfl⟩

theorem Counted.observe (hc : Counted h observations) (ms : ℚ) :
    Counted (h.observe ms) (observations ++ [ms]) := by
  have hbucket : bucketOf h.bounds.values ms < h.counts.length := by
    rw [h.length_counts, Nat.lt_succ_iff]
    exact bucketOf_le_length _ ms
  refine ⟨fun i => ?_, by simp [Histogram.observe, hc.count]⟩
  show countBefore (increment _ _) i = _
  rw [countBefore_increment hbucket, hc.before i, List.countP_append, List.countP_singleton]
  simp only [decide_eq_true_eq]
  rfl

theorem bounds_observing (bounds : Bounds) (observations : List ℚ) :
    (observing bounds observations).bounds = bounds := by
  have hfold : ∀ (observations : List ℚ) (h : Histogram),
      (observations.foldl Histogram.observe h).bounds = h.bounds := by
    intro observations
    induction observations with
    | nil => exact fun _ => rfl
    | cons ms observations ih => exact fun h => ih (h.observe ms)
  exact hfold observations (new bounds)

theorem counted_observing (bounds : Bounds) (observations : List ℚ) :
    Counted (observing bounds observations) observations := by
  have hfold : ∀ (observations before : List ℚ) (h : Histogram), Counted h before →
      Counted (observations.foldl Histogram.observe h) (before ++ observations) := by
    intro observations
    induction observations with
    | nil =>
      intro before h hc
      rw [List.append_nil]
      exact hc
    | cons ms observations ih =>
      intro before h hc
      have hrest := ih (before ++ [ms]) (h.observe ms) (hc.observe ms)
      rwa [List.append_assoc] at hrest
  exact hfold observations [] (new bounds) (counted_new bounds)

/-- Up to a bound are the buckets up to its own. -/
theorem Counted.upTo (hc : Counted h observations) {i : Nat} (hi : i < h.bounds.values.length) :
    countBefore h.counts (i + 1) =
      observations.countP fun ms => decide (ms ≤ h.bounds.values[i]) := by
  rw [hc.before]
  refine List.countP_congr fun ms _ => ?_
  rw [decide_eq_true_eq, decide_eq_true_eq, Nat.lt_succ_iff,
    bucketOf_le_iff h.bounds.ascending hi]

theorem Counted.sum (hc : Counted h observations) : h.counts.sum = observations.length := by
  rw [← countBefore_length, hc.before, h.length_counts, List.countP_eq_length]
  intro ms _
  exact decide_eq_true (Nat.lt_succ_of_le (bucketOf_le_length _ ms))

theorem cumulativeLoop_eq {f : ℚ → Nat} {bounds : List ℚ} {counts : List Nat} {cumulative : Nat}
    (hlength : bounds.length ≤ counts.length)
    (hf : ∀ i (hi : i < bounds.length), cumulative + countBefore counts (i + 1) = f bounds[i]) :
    cumulativeLoop bounds counts cumulative = bounds.map fun b => (b, f b) := by
  induction bounds generalizing counts cumulative with
  | nil => cases counts <;> rfl
  | cons b bounds ih =>
    cases counts with
    | nil => simp at hlength
    | cons n counts =>
      have hhead : cumulative + n = f b := by
        simpa [countBefore] using hf 0 (Nat.zero_lt_succ _)
      rw [cumulativeLoop, List.map_cons, hhead]
      refine congrArg _ (ih (by simpa using hlength) fun i hi => ?_)
      have htail := hf (i + 1) (by simpa using hi)
      simp only [countBefore, List.take_succ_cons, List.sum_cons, List.getElem_cons_succ] at htail ⊢
      omega

theorem Counted.cumulativeBuckets (hc : Counted h observations) :
    h.cumulativeBuckets =
      h.bounds.values.map fun b => (b, observations.countP fun ms => decide (ms ≤ b)) := by
  refine cumulativeLoop_eq (by rw [h.length_counts]; exact Nat.le_succ _) fun i hi => ?_
  rw [Nat.zero_add, hc.upTo hi]

/-! ## The bucket of a rank -/

/-- The loop stops at the bucket that the rank falls into. -/
theorem quantileLoop_spec (bounds : List ℚ) {rank : ℚ} {counts : List Nat} {i c : Nat}
    (hlow : (c : ℚ) < rank) (hhigh : rank ≤ ((c + counts.sum : ℕ) : ℚ)) :
    ∃ j, ∃ hj : j < counts.length, ((c + countBefore counts j : ℕ) : ℚ) < rank ∧
      rank ≤ ((c + countBefore counts (j + 1) : ℕ) : ℚ) ∧
      quantileLoop bounds rank counts i c =
        interpolate bounds rank (i + j) (c + countBefore counts j) counts[j] := by
  induction counts generalizing i c with
  | nil =>
    rw [List.sum_nil, Nat.add_zero] at hhigh
    exact absurd hhigh (not_le.mpr hlow)
  | cons n counts ih =>
    by_cases hstop : rank ≤ ((c + n : ℕ) : ℚ)
    · have hn : n > 0 := by
        refine Nat.pos_of_ne_zero fun hzero => ?_
        rw [hzero, Nat.add_zero] at hstop
        exact absurd hstop (not_le.mpr hlow)
      refine ⟨0, Nat.zero_lt_succ _, by simpa using hlow, by simpa [countBefore] using hstop, ?_⟩
      rw [quantileLoop, if_pos ⟨hstop, hn⟩]
      simp
    · obtain ⟨j, hj, hjlow, hjhigh, hloop⟩ := ih (i := i + 1) (not_le.mp hstop)
        (by rwa [Nat.add_assoc, ← List.sum_cons])
      have hshift : ∀ k, c + countBefore (n :: counts) (k + 1) = c + n + countBefore counts k := by
        intro k
        simp [countBefore, Nat.add_assoc]
      refine ⟨j + 1, Nat.succ_lt_succ hj, by rwa [hshift], by rwa [hshift], ?_⟩
      rw [quantileLoop, if_neg fun h => hstop h.1, hloop, hshift, List.getElem_cons_succ,
        Nat.add_right_comm, Nat.add_assoc i j 1]

/-! ## Inside a bucket -/

section Interpolation

variable {bounds : Bounds} {rank rank' : ℚ} {i c n : Nat}

theorem lowerEdge_succ (h : i < bounds.values.length) :
    lowerEdge bounds.values (i + 1) = bounds.values[i] := by
  rw [lowerEdge, if_neg (Nat.succ_ne_zero i), Nat.add_sub_cancel,
    List.getD_eq_getElem?_getD, List.getElem?_eq_getElem h, Option.getD_some]

theorem lowerEdge_lt (h : i < bounds.values.length) :
    lowerEdge bounds.values i < bounds.values[i] := by
  cases i with
  | zero => exact bounds.positive _ (List.getElem_mem h)
  | succ i =>
    have hi : i < bounds.values.length := by omega
    rw [lowerEdge_succ hi]
    exact List.pairwise_iff_getElem.mp bounds.ascending i (i + 1) hi h (Nat.lt_succ_self i)

theorem interpolate_of_lt (h : i < bounds.values.length) :
    interpolate bounds.values rank i c n = lowerEdge bounds.values i +
      (rank - c) / n * (bounds.values[i] - lowerEdge bounds.values i) := by
  rw [interpolate, List.getElem?_eq_getElem h]

/-- The overflow bucket answers the last bound. -/
theorem interpolate_overflow (bounds : Bounds) (rank : ℚ) (c n : Nat) :
    bounds.values.getLast? =
      some (interpolate bounds.values rank bounds.values.length c n) := by
  have hpos : 0 < bounds.values.length := List.length_pos_iff.mpr bounds.ne_nil
  obtain ⟨i, hi⟩ : ∃ i, bounds.values.length = i + 1 :=
    ⟨bounds.values.length - 1, by omega⟩
  have hlt : i < bounds.values.length := by omega
  rw [interpolate, List.getElem?_eq_none (Nat.le_refl _)]
  show _ = some (lowerEdge bounds.values bounds.values.length)
  rw [hi, lowerEdge_succ hlt, List.getLast?_eq_getElem?, hi, Nat.add_sub_cancel,
    List.getElem?_eq_getElem hlt]

theorem interpolate_mem (h : i < bounds.values.length) (hlow : (c : ℚ) < rank)
    (hhigh : rank ≤ ((c + n : ℕ) : ℚ)) :
    lowerEdge bounds.values i ≤ interpolate bounds.values rank i c n ∧
      interpolate bounds.values rank i c n ≤ bounds.values[i] := by
  push_cast at hhigh
  have hn : (0 : ℚ) < n := by linarith
  have hedge := lowerEdge_lt h
  have hfrac : 0 ≤ (rank - c) / n := div_nonneg (by linarith) hn.le
  have hfrac' : (rank - c) / n ≤ 1 := (div_le_one hn).mpr (by linarith)
  have hwidth : 0 ≤ bounds.values[i] - lowerEdge bounds.values i := by linarith
  rw [interpolate_of_lt h]
  constructor
  · have := mul_nonneg hfrac hwidth
    linarith
  · have := mul_le_of_le_one_left hwidth hfrac'
    linarith

theorem interpolate_mono (h : i ≤ bounds.values.length) (hrank : rank ≤ rank') :
    interpolate bounds.values rank i c n ≤ interpolate bounds.values rank' i c n := by
  rcases Nat.lt_or_eq_of_le h with hlt | rfl
  · rw [interpolate_of_lt hlt, interpolate_of_lt hlt]
    have hedge := lowerEdge_lt hlt
    have hwidth : 0 ≤ bounds.values[i] - lowerEdge bounds.values i := by linarith
    have hfrac : (rank - c) / n ≤ (rank' - c) / n :=
      div_le_div_of_nonneg_right (by linarith) (Nat.cast_nonneg n)
    have := mul_le_mul_of_nonneg_right hfrac hwidth
    linarith
  · have hlast := interpolate_overflow bounds rank c n
    rw [interpolate_overflow bounds rank' c n] at hlast
    exact (Option.some.inj hlast).ge

theorem lowerEdge_mono {j : Nat} (h : i ≤ j) (hj : j ≤ bounds.values.length) :
    lowerEdge bounds.values i ≤ lowerEdge bounds.values j := by
  induction j, h using Nat.le_induction with
  | base => exact le_refl _
  | succ j hij ih =>
    have hlt : j < bounds.values.length := by omega
    rw [lowerEdge_succ hlt]
    exact le_trans (ih hlt.le) (lowerEdge_lt hlt).le

end Interpolation

/-! ## Quantiles -/

/-- The bucket whose counter takes the sum over the rank. -/
def AtRank (h : Histogram) (rank : ℚ) (i : Nat) : Prop :=
  i ≤ h.bounds.values.length ∧ (countBefore h.counts i : ℚ) < rank ∧
    rank ≤ (countBefore h.counts (i + 1) : ℚ)

/-- The closed interval of a bucket; that of the overflow bucket is its edge. -/
def InBucket (bounds : List ℚ) (i : Nat) (answer : ℚ) : Prop :=
  lowerEdge bounds i ≤ answer ∧ answer ≤ (bounds[i]?).getD (lowerEdge bounds i)

theorem quantile_spec (hc : Counted h observations) (hne : observations ≠ []) {q : ℚ}
    (hq : 0 < q) (hq' : q ≤ 1) :
    ∃ i c n, AtRank h (q * observations.length) i ∧ c = countBefore h.counts i ∧
      c + n = countBefore h.counts (i + 1) ∧
      h.quantile q = interpolate h.bounds.values (q * observations.length) i c n := by
  have hlen : (0 : ℚ) < observations.length := by
    exact_mod_cast List.length_pos_iff.mpr hne
  have hcount : h.count ≠ 0 := by
    rw [hc.count]
    exact (List.length_pos_iff.mpr hne).ne'
  have hlow : ((0 : ℕ) : ℚ) < q * observations.length := by
    rw [Nat.cast_zero]
    exact mul_pos hq hlen
  have hhigh : q * observations.length ≤ ((0 + h.counts.sum : ℕ) : ℚ) := by
    rw [Nat.zero_add, hc.sum]
    exact mul_le_of_le_one_left hlen.le hq'
  obtain ⟨i, hi, hilow, hihigh, hloop⟩ :=
    quantileLoop_spec h.bounds.values (i := 0) hlow hhigh
  simp only [Nat.zero_add] at hilow hihigh hloop
  refine ⟨i, countBefore h.counts i, h.counts[i], ⟨?_, hilow, hihigh⟩, rfl,
    (countBefore_succ hi).symm, ?_⟩
  · rw [h.length_counts] at hi
    omega
  · rw [quantile, if_neg hcount, hc.count, hloop]

theorem interpolate_inBucket {rank : ℚ} {i c n : Nat} (hi : i ≤ h.bounds.values.length)
    (hlow : (c : ℚ) < rank) (hhigh : rank ≤ ((c + n : ℕ) : ℚ)) :
    InBucket h.bounds.values i (interpolate h.bounds.values rank i c n) := by
  rcases Nat.lt_or_eq_of_le hi with hlt | rfl
  · obtain ⟨hle, hle'⟩ := interpolate_mem hlt hlow hhigh
    refine ⟨hle, ?_⟩
    rw [List.getElem?_eq_getElem hlt, Option.getD_some]
    exact hle'
  · have hnone := List.getElem?_eq_none (Nat.le_refl h.bounds.values.length)
    rw [InBucket, interpolate, hnone]
    exact ⟨le_refl _, le_refl _⟩

/-- What lies in an earlier bucket is no larger. -/
theorem inBucket_mono {bounds : Bounds} {i j : Nat} {x y : ℚ} (hij : i < j)
    (hj : j ≤ bounds.values.length) (hx : InBucket bounds.values i x)
    (hy : InBucket bounds.values j y) : x ≤ y := by
  have hi : i < bounds.values.length := by omega
  have hupper := hx.2
  rw [List.getElem?_eq_getElem hi, Option.getD_some, ← lowerEdge_succ hi] at hupper
  calc x ≤ lowerEdge bounds.values (i + 1) := hupper
    _ ≤ lowerEdge bounds.values j := lowerEdge_mono hij hj
    _ ≤ y := hy.1

/-- A larger quantile is answered from the same bucket, further on, or from a
later one. -/
theorem quantile_mono (hc : Counted h observations) (hne : observations ≠ []) {q q' : ℚ}
    (hq : 0 < q) (hle : q ≤ q') (hq' : q' ≤ 1) : h.quantile q ≤ h.quantile q' := by
  obtain ⟨i, c, n, hi, hbefore, hafter, hquantile⟩ := quantile_spec hc hne hq (le_trans hle hq')
  obtain ⟨j, d, m, hj, hbefore', hafter', hquantile'⟩ :=
    quantile_spec hc hne (lt_of_lt_of_le hq hle) hq'
  have hrank : q * observations.length ≤ q' * observations.length :=
    mul_le_mul_of_nonneg_right hle (Nat.cast_nonneg _)
  have hij : i ≤ j := by
    refine Nat.le_of_not_lt fun hji => ?_
    have hcount : countBefore h.counts (j + 1) ≤ countBefore h.counts i := countBefore_mono _ hji
    have hcast : (countBefore h.counts (j + 1) : ℚ) ≤ countBefore h.counts i := by
      exact_mod_cast hcount
    linarith [hi.2.1, hj.2.2]
  rw [hquantile, hquantile']
  rcases Nat.lt_or_eq_of_le hij with hlt | rfl
  · refine inBucket_mono hlt hj.1 (interpolate_inBucket hi.1 ?_ ?_)
      (interpolate_inBucket hj.1 ?_ ?_)
    · rw [hbefore]
      exact hi.2.1
    · rw [hafter]
      exact hi.2.2
    · rw [hbefore']
      exact hj.2.1
    · rw [hafter']
      exact hj.2.2
  · obtain rfl : d = c := hbefore'.trans hbefore.symm
    obtain rfl : m = n := by omega
    exact interpolate_mono hi.1 hrank

/-- The observation of a rank was counted in the bucket of the rank. -/
theorem bucketOf_kthSmallest (hc : Counted h observations) {rank : ℚ} {i : Nat}
    (hi : AtRank h rank i) {x : ℚ} (hx : kthSmallest observations (⌈rank⌉₊ - 1) = some x) :
    bucketOf h.bounds.values x = i := by
  obtain ⟨hle, hlow, hhigh⟩ := hi
  have hceil : countBefore h.counts i < ⌈rank⌉₊ := Nat.lt_ceil.mpr hlow
  have hceil' : ⌈rank⌉₊ ≤ countBefore h.counts (i + 1) := Nat.ceil_le.mpr hhigh
  have hbucket : ∀ j, j < h.bounds.values.length → (bucketOf h.bounds.values x ≤ j ↔
      ⌈rank⌉₊ - 1 < countBefore h.counts (j + 1)) := fun j hj => by
    rw [bucketOf_le_iff h.bounds.ascending hj, kthSmallest_le_iff hx, hc.upTo hj]
  refine Nat.le_antisymm ?_ (Nat.le_of_not_lt fun hlt => ?_)
  · rcases Nat.lt_or_eq_of_le hle with hlt | rfl
    · exact (hbucket i hlt).mpr (by omega)
    · exact bucketOf_le_length _ x
  · cases i with
    | zero => exact absurd hlt (Nat.not_lt_zero _)
    | succ i =>
      have := (hbucket i (by omega)).mp (Nat.le_of_lt_succ hlt)
      omega

/-- What is counted in a bucket exceeds the bounds before it. -/
theorem lt_of_bucketOf {bounds : Bounds} {x : ℚ} {j : Nat} (hj : j < bounds.values.length)
    (h : j < bucketOf bounds.values x) : bounds.values[j] < x :=
  not_le.mp fun hle => absurd ((bucketOf_le_iff bounds.ascending hj x).mpr hle) (not_le.mpr h)

/-- The order statistic of a quantile, and the bucket both are in. -/
theorem exists_kthSmallest_at (hc : Counted h observations) (hne : observations ≠ []) {q : ℚ}
    (hq : 0 < q) (hq' : q ≤ 1) :
    ∃ x ∈ observations, kthSmallest observations (⌈q * observations.length⌉₊ - 1) = some x ∧
      ∃ i, ∃ c n : Nat, AtRank h (q * observations.length) i ∧ (c : ℚ) < q * observations.length ∧
        q * observations.length ≤ ((c + n : ℕ) : ℚ) ∧ bucketOf h.bounds.values x = i ∧
        h.quantile q = interpolate h.bounds.values (q * observations.length) i c n := by
  obtain ⟨i, c, n, hi, hbefore, hafter, hquantile⟩ := quantile_spec hc hne hq hq'
  have hrank : ⌈q * observations.length⌉₊ ≤ observations.length :=
    Nat.ceil_le.mpr (mul_le_of_le_one_left (Nat.cast_nonneg _) hq')
  have hpos : 0 < observations.length := List.length_pos_iff.mpr hne
  have hindex : ⌈q * observations.length⌉₊ - 1 < observations.length := by omega
  obtain ⟨x, hmem, hx⟩ := exists_kthSmallest hindex
  refine ⟨x, hmem, hx, i, c, n, hi, ?_, ?_, bucketOf_kthSmallest hc hi hx, hquantile⟩
  · rw [hbefore]
    exact hi.2.1
  · rw [hafter]
    exact hi.2.2

/-- **Correct to the bucket.** After any observations the counters add up to their
number and the cumulative buckets count what is at most each bound; quantiles
grow with `q`; and each lies in the closed interval of the bucket that the
observation of its rank was counted in, or is the last bound where that
observation exceeds them all. -/
theorem quantiles_correct_to_bucket (bounds : Bounds) {observations : List ℚ}
    (hnonneg : ∀ ms ∈ observations, 0 ≤ ms) (hne : observations ≠ []) :
    (observing bounds observations).counts.sum = observations.length ∧
    (observing bounds observations).cumulativeBuckets =
      bounds.values.map (fun b => (b, observations.countP fun ms => decide (ms ≤ b))) ∧
    (∀ q q' : ℚ, 0 < q → q ≤ q' → q' ≤ 1 →
      (observing bounds observations).quantile q ≤ (observing bounds observations).quantile q') ∧
    ∀ q : ℚ, 0 < q → q ≤ 1 → ∃ x, kthSmallest observations (⌈q * observations.length⌉₊ - 1) = some x ∧
      ((∃ i, ∃ hi : i < bounds.values.length, lowerEdge bounds.values i ≤ x ∧
          x ≤ bounds.values[i] ∧ bucketOf bounds.values x = i ∧
          lowerEdge bounds.values i ≤ (observing bounds observations).quantile q ∧
          (observing bounds observations).quantile q ≤ bounds.values[i]) ∨
        (∀ b ∈ bounds.values, b < x) ∧
          bounds.values.getLast? = some ((observing bounds observations).quantile q)) := by
  have hc := counted_observing bounds observations
  have hbounds := bounds_observing bounds observations
  generalize observing bounds observations = h at hc hbounds
  subst hbounds
  refine ⟨hc.sum, hc.cumulativeBuckets, fun q q' hq hle hq' => quantile_mono hc hne hq hle hq',
    fun q hpos hle => ?_⟩
  obtain ⟨x, hmem, hx, i, c, n, hi, hlow, hhigh, hbucket, hquantile⟩ :=
    exists_kthSmallest_at hc hne hpos hle
  refine ⟨x, hx, ?_⟩
  rw [hquantile]
  rcases Nat.lt_or_eq_of_le hi.1 with hlt | rfl
  · refine .inl ⟨i, hlt, ?_, (bucketOf_le_iff h.bounds.ascending hlt x).mp hbucket.le, hbucket,
      interpolate_mem hlt hlow hhigh⟩
    cases i with
    | zero => exact hnonneg x hmem
    | succ i =>
      rw [lowerEdge_succ (by omega)]
      exact (lt_of_bucketOf (by omega) (by omega)).le
  · refine .inr ⟨fun b hb => ?_, interpolate_overflow h.bounds _ c n⟩
    obtain ⟨j, hj, rfl⟩ := List.getElem_of_mem hb
    exact lt_of_bucketOf hj (by omega)

/-- The buckets up to 10 and 50 ms. -/
def twoBounds : Bounds :=
  ⟨[10, 50], by simp, by norm_num, by norm_num⟩

theorem buckets_of_three_observations :
    (observing twoBounds [5, 40, 80]).cumulativeBuckets = [(10, 1), (50, 2)] := by
  have hnonneg : ∀ ms ∈ ([5, 40, 80] : List ℚ), 0 ≤ ms := by norm_num
  rw [(quantiles_correct_to_bucket twoBounds hnonneg (by simp)).2.1]
  norm_num [twoBounds]

end Histogram
end McpFramework.Metrics
