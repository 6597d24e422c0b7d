import IdenGrid.Control.MonitorIsolation
import IdenGrid.Lib.Results
import Mathlib.Data.Finset.Max
import Mathlib.Algebra.Order.BigOperators.Group.List
import Mathlib.Algebra.Order.Field.Rat
import Mathlib.Tactic.Linarith

/-! # The verdict of a probe

`FailClosed` is what a probe of a node should guarantee: it comes to a verdict, `online` exactly if
the samples are `Healthy`; the latency is between the shortest and the longest duration; a rejected
probe leaves the stored metrics alone; and the address that is stored is the text of a global one.

`failClosed_iff`: it does exactly if no sample makes `_probe_sample` raise, the address in the
documents that are accepted is a text, and the roundings of the mean carry it past no
half-millisecond, as they never do where none is that near to the durations (`Plain`). `ip_address` also
takes an integer, and that is stored; and the mean of equal durations can be above them. -/

namespace IdenGrid.Control.Verdict

open IdenGrid.Lib.Unicode IdenGrid.Lib.Double IdenGrid.Lib.Json
open IdenGrid.Control.Nodes IdenGrid.Control.Monitor

/-! ## The mean without the shortest and the longest -/

theorem length_trimmed (durations : List ℚ) : (trimmed durations).length = durations.length - 2 := by
  unfold trimmed
  rw [List.length_dropLast, List.length_drop, List.length_insertionSort]
  omega

theorem mem_of_mem_trimmed {durations : List ℚ} {d : ℚ} (h : d ∈ trimmed durations) :
    d ∈ durations := by
  have := List.mem_of_mem_drop (List.dropLast_subset _ h)
  rwa [List.mem_insertionSort] at this

theorem trimmed_ne_nil {durations : List ℚ} (h : 3 ≤ durations.length) : trimmed durations ≠ [] := by
  intro hnil
  have := length_trimmed durations
  rw [hnil, List.length_nil] at this
  omega

/-- The mean is finite, and its roundings carry it past no half-millisecond: in whole milliseconds
some duration is not longer, and some is not shorter. -/
def Steady (durations : List ℚ) : Prop :=
  ∃ ms, meanMillis durations = some ms ∧
    (∃ d ∈ durations, roundEven (d * 1000) ≤ roundEven ms) ∧
    ∃ d ∈ durations, roundEven ms ≤ roundEven (d * 1000)

theorem meanMillis_nonneg {durations : List ℚ} (h : ∀ d ∈ durations, 0 ≤ d) {ms : ℚ}
    (hms : meanMillis durations = some ms) : 0 ≤ ms := by
  obtain ⟨m, hm, hms⟩ := Option.bind_eq_some_iff.mp hms
  have hmean := mean_nonneg (fun d hd => h d (mem_of_mem_trimmed hd)) hm
  exact fl_nonneg (mul_nonneg hmean (by norm_num)) hms

/-- **Where the mean is steady, the latency is between the shortest and the longest duration.** -/
theorem Steady.between {durations : List ℚ} (h : Steady durations) (hpos : ∀ d ∈ durations, 0 ≤ d)
    {latency : ℤ} (hl : latencyOf durations = some latency) {lo hi : ℚ}
    (hbounds : ∀ d ∈ durations, lo ≤ d ∧ d ≤ hi) :
    roundEven (lo * 1000) ≤ latency ∧ latency ≤ roundEven (hi * 1000) := by
  obtain ⟨ms, hms, ⟨d, hd, hlow⟩, ⟨e, he, hhigh⟩⟩ := h
  have hzero : 0 ≤ roundEven ms := roundEven_nonneg (meanMillis_nonneg hpos hms)
  rw [latencyOf, hms, Option.map_some, max_eq_right hzero] at hl
  obtain rfl := Option.some.inj hl
  have h1 : lo * 1000 ≤ d * 1000 := by linarith [(hbounds d hd).1]
  have h2 : e * 1000 ≤ hi * 1000 := by linarith [(hbounds e he).2]
  exact ⟨(roundEven_mono h1).trans hlow, hhigh.trans (roundEven_mono h2)⟩

/-- **Conversely**, a latency between the shortest and the longest duration is that of a steady
mean. -/
theorem steady_of_between {durations : List ℚ} (hne : durations ≠ [])
    (hpos : ∀ d ∈ durations, 0 ≤ d) {latency : ℤ} (hl : latencyOf durations = some latency)
    (h : ∀ lo hi, (∀ d ∈ durations, lo ≤ d ∧ d ≤ hi) →
      roundEven (lo * 1000) ≤ latency ∧ latency ≤ roundEven (hi * 1000)) : Steady durations := by
  obtain ⟨ms, hms, hlatency⟩ := Option.map_eq_some_iff.mp hl
  rw [max_eq_right (roundEven_nonneg (meanMillis_nonneg hpos hms))] at hlatency
  subst hlatency
  have hne : durations.toFinset.Nonempty := List.toFinset_nonempty_iff _ |>.mpr hne
  obtain ⟨lo, hlo, hmin⟩ := durations.toFinset.exists_min_image id hne
  obtain ⟨hi, hhi, hmax⟩ := durations.toFinset.exists_max_image id hne
  obtain ⟨h1, h2⟩ := h lo hi fun d hd =>
    ⟨hmin d (List.mem_toFinset.mpr hd), hmax d (List.mem_toFinset.mpr hd)⟩
  exact ⟨ms, hms, ⟨lo, List.mem_toFinset.mp hlo, h1⟩, ⟨hi, List.mem_toFinset.mp hhi, h2⟩⟩

/-- There are no more than `2 ^ 52` durations and none is above `2 ^ 900` seconds; and to lower the
shortest and to raise the longest by `2 ^ -52` of itself for each of them makes no other whole number of
milliseconds. -/
structure Clear (durations : List ℚ) : Prop where
  few : durations.length ≤ 2 ^ 52
  room : ∃ lo ∈ durations, ∃ hi ∈ durations, (∀ d ∈ durations, lo ≤ d ∧ d ≤ hi) ∧ hi ≤ 2 ^ 900 ∧
    roundEven (lo * 1000 * (1 - durations.length / 2 ^ 52)) = roundEven (lo * 1000) ∧
    roundEven (hi * 1000 * (1 + durations.length / 2 ^ 52)) = roundEven (hi * 1000)

example : Clear [1 / 50, 3 / 100, 1 / 25] := ⟨by decide, 1 / 50, by simp, 1 / 25, by simp,
  by decide +kernel, by decide +kernel, by decide +kernel, by decide +kernel⟩

section Clear

variable {durations : List ℚ}

theorem roundoff_mul (n : ℕ) : (n : ℚ) * (2 * roundoff) = n / 2 ^ 52 := by
  rw [roundoff, div_eq_mul_inv]
  norm_num

theorem length_div_le (hfew : durations.length ≤ 2 ^ 52) : (durations.length : ℚ) / 2 ^ 52 ≤ 1 := by
  rw [div_le_one (by norm_num)]
  exact_mod_cast hfew

theorem length_trimmed_add (hlen : 3 ≤ durations.length) :
    (trimmed durations).length + 2 = durations.length := by
  rw [length_trimmed]
  omega

/-- As many roundings as there are durations do not double a number. -/
theorem roundoff_pow_le_two (hlen : 3 ≤ durations.length) (hfew : durations.length ≤ 2 ^ 52) :
    (1 + roundoff) ^ ((trimmed durations).length + 2) ≤ 1 + durations.length / 2 ^ 52 ∧
      (1 + roundoff) ^ ((trimmed durations).length + 2) ≤ 2 := by
  have hpow := one_add_roundoff_pow_le hfew
  have hcount := length_div_le hfew
  rw [roundoff_mul] at hpow
  rw [length_trimmed_add hlen]
  exact ⟨hpow, by linarith only [hpow, hcount]⟩

theorem roundEven_nonpos {x : ℚ} (h : x ≤ 1 / 2) : roundEven x ≤ 0 :=
  (roundEven_mono h).trans (by norm_num [roundEven])

/-- The mean is finite and not above the longest duration with an error for each of them. -/
theorem meanMillis_le {hi : ℚ} (hlen : 3 ≤ durations.length) (hfew : durations.length ≤ 2 ^ 52)
    (h : ∀ d ∈ durations, 0 ≤ d ∧ d ≤ hi) (hnormal : 2 ^ (-1022 : ℤ) ≤ hi) (hlarge : hi ≤ 2 ^ 900) :
    ∃ ms, meanMillis durations = some ms ∧ ms ≤ hi * 1000 * (1 + durations.length / 2 ^ 52) := by
  have hpos : 0 < hi := (two_zpow_pos _).trans_le hnormal
  have hone : 1 ≤ 1 + roundoff := le_add_of_nonneg_right roundoff_pos.le
  have hk := length_trimmed_add hlen
  obtain ⟨hpow, htwo⟩ := roundoff_pow_le_two hlen hfew
  have hsmall : ∀ {c : ℚ}, 0 ≤ c → c ≤ 2 ^ 52 →
      c * hi * (1 + roundoff) ^ ((trimmed durations).length + 2) < 2 ^ 1024 := by
    intro c hc hle
    calc c * hi * (1 + roundoff) ^ ((trimmed durations).length + 2)
        ≤ 2 ^ 52 * 2 ^ 900 * 2 := by gcongr
      _ = 2 ^ 953 := by rw [← pow_add, ← pow_succ]
      _ < 2 ^ 1024 := pow_lt_pow_right₀ one_lt_two (by decide)
  have hfew' : ((trimmed durations).length : ℚ) ≤ 2 ^ 52 := by exact_mod_cast (by omega)
  obtain ⟨m, hm, hmle⟩ := mean_le hnormal (trimmed_ne_nil hlen)
    (fun d hd => h d (mem_of_mem_trimmed hd)) (by omega) (by
      refine lt_of_le_of_lt ?_ (hsmall (Nat.cast_nonneg _) hfew')
      exact mul_le_mul_of_nonneg_left (pow_le_pow_right₀ hone (Nat.le_succ _))
        (mul_nonneg (Nat.cast_nonneg _) hpos.le))
  have hprod : hi * (1 + roundoff) ^ ((trimmed durations).length + 1) * 1000 * (1 + roundoff) =
      1000 * hi * (1 + roundoff) ^ ((trimmed durations).length + 2) := by ring
  have hzero : 0 ≤ m * 1000 :=
    mul_nonneg (mean_nonneg (fun d hd => (h d (mem_of_mem_trimmed hd)).1) hm) (by norm_num)
  have hscaled : m * 1000 ≤ hi * (1 + roundoff) ^ ((trimmed durations).length + 1) * 1000 :=
    mul_le_mul_of_nonneg_right hmle (by norm_num)
  have hbound : 2 ^ (-1022 : ℤ) ≤ hi * (1 + roundoff) ^ ((trimmed durations).length + 1) * 1000 :=
    calc (2 : ℚ) ^ (-1022 : ℤ) ≤ hi := hnormal
      _ ≤ hi * (1 + roundoff) ^ ((trimmed durations).length + 1) :=
        le_mul_of_one_le_right hpos.le (one_le_pow₀ hone)
      _ ≤ _ := le_mul_of_one_le_right (by positivity) (by norm_num)
  obtain ⟨ms, hms, hmsle⟩ := fl_le hzero hscaled hbound (by
    rw [hprod]
    exact hsmall (by norm_num) (by norm_num))
  refine ⟨ms, by rw [meanMillis, hm]; exact hms, hmsle.trans ?_⟩
  rw [hprod, mul_comm (1000 : ℚ)]
  exact mul_le_mul_of_nonneg_left hpow (by positivity)

/-- The mean is not below the shortest duration with an error for each of them. -/
theorem le_meanMillis {lo ms : ℚ} (hlen : 3 ≤ durations.length) (hfew : durations.length ≤ 2 ^ 52)
    (h : ∀ d ∈ durations, lo ≤ d) (hms : meanMillis durations = some ms)
    (hlow : 1 / 2 ≤ lo * 1000 * (1 - durations.length / 2 ^ 52)) :
    lo * 1000 * (1 - durations.length / 2 ^ 52) ≤ ms := by
  have hk := length_trimmed_add hlen
  have hcount := length_div_le hfew
  have hpos : 0 < lo := by
    by_contra hneg
    have := mul_nonpos_of_nonpos_of_nonneg (show lo * 1000 ≤ 0 by linarith) (sub_nonneg.mpr hcount)
    linarith
  have hnonneg : 0 ≤ 1 - roundoff := by norm_num [roundoff]
  have hless : 1 - roundoff ≤ 1 := sub_le_self _ roundoff_pos.le
  have hpow : 1 - durations.length / 2 ^ 52 ≤ (1 - roundoff) ^ durations.length := by
    refine le_trans ?_ (one_sub_roundoff_pow_ge durations.length)
    have : 0 ≤ (durations.length : ℚ) * roundoff := mul_nonneg (Nat.cast_nonneg _) roundoff_pos.le
    rw [← roundoff_mul]
    linarith
  have hle : lo * 1000 * (1 - durations.length / 2 ^ 52) ≤
      lo * 1000 * (1 - roundoff) ^ durations.length :=
    mul_le_mul_of_nonneg_left hpow (by positivity)
  -- every partial result is above half a thousandth of a millisecond
  have hnormal : ∀ j ≤ durations.length, 2 ^ (-1022 : ℤ) ≤ lo * (1 - roundoff) ^ j := by
    intro j hj
    have hmore := mul_le_mul_of_nonneg_left (pow_le_pow_of_le_one hnonneg hless hj) hpos.le
    have htiny : (2 : ℚ) ^ (-1022 : ℤ) ≤ 2 ^ (-11 : ℤ) :=
      zpow_le_zpow_right₀ (by norm_num) (by norm_num)
    have hvalue : (2 : ℚ) ^ (-11 : ℤ) ≤ 1 / 2000 := by norm_num
    have hlast : 1 / 2000 ≤ lo * (1 - roundoff) ^ durations.length := by linarith only [hlow.trans hle]
    exact htiny.trans (hvalue.trans (hlast.trans hmore))
  obtain ⟨m, hm, hms⟩ := Option.bind_eq_some_iff.mp hms
  have hmean := le_mean (trimmed_ne_nil hlen) (fun d hd => h d (mem_of_mem_trimmed hd)) (by omega)
    (hnormal _ (by omega)) hm
  have hscaled := mul_le_mul_of_nonneg_right hmean (show (0 : ℚ) ≤ 1000 by norm_num)
  have hrounded := le_fl hscaled (by
    have := hnormal ((trimmed durations).length + 1) (by omega)
    linarith only [this, mul_nonneg hpos.le (pow_nonneg hnonneg ((trimmed durations).length + 1))]) hms
  have hprod : lo * (1 - roundoff) ^ ((trimmed durations).length + 1) * 1000 * (1 - roundoff) =
      lo * 1000 * (1 - roundoff) ^ durations.length := by
    rw [← hk]
    ring
  exact hle.trans (hprod ▸ hrounded)

/-- **Away from the half-milliseconds the roundings of the mean carry it past none.** -/
theorem Clear.steady (h : Clear durations) (hlen : 3 ≤ durations.length)
    (hpos : ∀ d ∈ durations, 0 ≤ d) : Steady durations := by
  obtain ⟨lo, hlo, hi, hhi, hbounds, hlarge, hlow, hhigh⟩ := h.room
  have hzero : 0 ≤ hi := hpos hi hhi
  -- a longest duration below the normal range is as good as one at its end
  have hlongest : ∀ d ∈ durations, 0 ≤ d ∧ d ≤ max hi (2 ^ (-1022 : ℤ)) := fun d hd =>
    ⟨hpos d hd, (hbounds d hd).2.trans (le_max_left _ _)⟩
  obtain ⟨ms, hms, hmsle⟩ := meanMillis_le hlen h.few hlongest (le_max_right _ _)
    (max_le hlarge ((zpow_le_zpow_right₀ (by norm_num) (by norm_num)).trans_eq (zpow_natCast 2 900)))
  refine ⟨ms, hms, ⟨lo, hlo, ?_⟩, hi, hhi, ?_⟩
  · rw [← hlow]
    rcases le_total (lo * 1000 * (1 - durations.length / 2 ^ 52)) (1 / 2) with hle | hle
    · exact (roundEven_nonpos hle).trans (roundEven_nonneg (meanMillis_nonneg hpos hms))
    · exact roundEven_mono (le_meanMillis hlen h.few (fun d hd => (hbounds d hd).1) hms hle)
  · rcases le_total (2 ^ (-1022 : ℤ)) hi with hnormal | htiny
    · rw [max_eq_left hnormal] at hmsle
      exact (roundEven_mono hmsle).trans_eq hhigh
    · clear hlarge
      rw [max_eq_right htiny] at hmsle
      refine (roundEven_nonpos (hmsle.trans ?_)).trans
        (roundEven_nonneg (mul_nonneg hzero (by norm_num)))
      have hcount := length_div_le h.few
      calc (2 : ℚ) ^ (-1022 : ℤ) * 1000 * (1 + durations.length / 2 ^ 52)
          ≤ 2 ^ (-12 : ℤ) * 1000 * (1 + 1) := by
            gcongr
            · norm_num
            · norm_num
        _ ≤ 1 / 2 := by norm_num

end Clear

/-! ## What is accepted -/

/-- The resources that make a node `online` and not `degraded`. -/
def Plenty (payload : Payload) : Prop :=
  128 * 1024 * 1024 ≤ payload.memoryAvailableBytes ∧
    2 * 1024 * 1024 * 1024 ≤ payload.diskFreeBytes ∧
    payload.activeConnections * 5 < payload.maxConnections * 4

theorem healthOf_eq_online {payload : Payload} {expected : Option String} :
    healthOf payload expected = .online ↔
      (∀ ip, expected = some ip → ip ≠ "" → payload.publicIpv4 = .str (text ip)) ∧
        Plenty payload := by
  have hexpected : (expected.any fun ip => ip ≠ "" ∧ payload.publicIpv4 ≠ .str (text ip)) = false ↔
      ∀ ip, expected = some ip → ip ≠ "" → payload.publicIpv4 = .str (text ip) := by
    rcases expected with _ | ip <;> simp
  rw [← hexpected]
  unfold healthOf Plenty
  split_ifs with h1 h2
  · exact ⟨fun h => absurd h (by decide), fun h => absurd (h1.symm.trans h.1) Bool.noConfusion⟩
  · simp only [false_iff, not_and]
    intro _ h3 h4
    omega
  · simp only [true_iff]
    push Not at h2
    exact ⟨Bool.eq_false_iff.mpr h1, h2.1, h2.2.1, h2.2.2⟩

theorem healthOf_ne_offline (payload : Payload) (expected : Option String) :
    healthOf payload expected ≠ .offline := by
  unfold healthOf
  split_ifs <;> simp

/-- `_probe` accepts samples that are not fatal, are enough and agree in their address. -/
theorem judge_eq_accepted {c : Config} {expected : Option String} {samples : List Sample}
    {health : HealthStatus} {latency : ℤ} {payload : Payload} :
    judge c expected samples = some (.accepted health latency payload) ↔
      fatalErrors samples = [] ∧ c.minSuccess ≤ (successes samples).length ∧
        (successes samples).getLast?.map Prod.fst = some payload ∧
        (∀ e ∈ successes samples, e.1.publicIpv4 = payload.publicIpv4) ∧
        health = healthOf payload expected ∧
        latencyOf ((successes samples).map Prod.snd) = some latency := by
  unfold judge
  rcases hf : fatalErrors samples with _ | ⟨error, _⟩
  · by_cases hc : (successes samples).length < c.minSuccess
    · simp [hc, Nat.not_le.mpr hc]
    · rw [if_neg hc]
      rcases hl : (successes samples).getLast? with _ | ⟨last, d⟩
      · simp
      · simp only [Nat.not_lt.mp hc, Option.map_some, Option.some.injEq, true_and]
        split_ifs with hip
        · simp only [Option.some.injEq, reduceCtorEq, false_iff, not_and]
          rintro rfl hall
          obtain ⟨e, he, hne⟩ := List.any_eq_true.mp hip
          exact absurd (hall e he) (of_decide_eq_true hne)
        · have hall : ∀ e ∈ successes samples, e.1.publicIpv4 = last.publicIpv4 := by
            simpa [List.any_eq_true] using hip
          rw [Option.map_eq_some_iff]
          constructor
          · rintro ⟨ms, hms, h⟩
            obtain ⟨rfl, rfl, rfl⟩ := Probe.accepted.inj h
            exact ⟨rfl, hall, rfl, hms⟩
          · rintro ⟨rfl, -, rfl, hms⟩
            exact ⟨latency, hms, rfl⟩
  · simp

/-- Samples that would be accepted have a verdict exactly if the mean of their durations is finite;
all others have one. -/
theorem judge_isSome_iff {c : Config} {expected : Option String} {samples : List Sample} :
    (∃ result, judge c expected samples = some result) ↔
      (fatalErrors samples = [] → c.minSuccess ≤ (successes samples).length →
        ∀ d ∈ (successes samples).getLast?,
          (∀ e ∈ successes samples, e.1.publicIpv4 = d.1.publicIpv4) →
          ∃ latency, latencyOf ((successes samples).map Prod.snd) = some latency) := by
  unfold judge
  rcases hf : fatalErrors samples with _ | ⟨error, _⟩
  · by_cases hc : (successes samples).length < c.minSuccess
    · simp [hc, Nat.not_le.mpr hc]
    · rw [if_neg hc]
      rcases hl : (successes samples).getLast? with _ | d
      · simp
      · simp only [Option.mem_def, Option.some.injEq, forall_eq', true_imp_iff, Nat.not_lt.mp hc]
        split_ifs with hip
        · have hall : ¬ ∀ e ∈ successes samples, e.1.publicIpv4 = d.1.publicIpv4 := by
            simpa [List.any_eq_true] using hip
          exact iff_of_true ⟨_, rfl⟩ fun h => absurd h hall
        · have hall : ∀ e ∈ successes samples, e.1.publicIpv4 = d.1.publicIpv4 := by
            simpa [List.any_eq_true] using hip
          simp only [Option.map_eq_some_iff]
          constructor
          · rintro ⟨_, latency, hlatency, -⟩ -
            exact ⟨latency, hlatency⟩
          · intro h
            obtain ⟨latency, hlatency⟩ := h hall
            exact ⟨_, latency, hlatency, rfl⟩
  · simp

/-- A probe that is not accepted makes no node `online`. -/
theorem judge_rejected_ne_online {c : Config} {expected : Option String} {samples : List Sample}
    {health : HealthStatus} {lastError : String}
    (h : judge c expected samples = some (.rejected health lastError)) : health ≠ .online := by
  unfold judge at h
  rcases hf : fatalErrors samples with _ | ⟨error, _⟩
  · simp only [hf] at h
    by_cases hc : (successes samples).length < c.minSuccess
    · rw [if_pos hc] at h
      obtain ⟨rfl, -⟩ := Probe.rejected.inj (Option.some.inj h)
      simp
    · rw [if_neg hc] at h
      rcases hl : (successes samples).getLast? with _ | ⟨last, d⟩
      · simp only [hl] at h
        obtain ⟨rfl, -⟩ := Probe.rejected.inj (Option.some.inj h)
        simp
      · simp only [hl] at h
        split_ifs at h
        · obtain ⟨rfl, -⟩ := Probe.rejected.inj (Option.some.inj h)
          simp
        · obtain ⟨latency, -, haccepted⟩ := Option.map_eq_some_iff.mp h
          cases haccepted
  · simp only [hf] at h
    obtain ⟨rfl, -⟩ := Probe.rejected.inj (Option.some.inj h)
    simp

theorem address_of_checkCounts {fields : List (List ℕ × Value)} {expectedNode : List ℕ}
    {counts : Counts} (h : checkCounts fields expectedNode = .ok counts) :
    ∃ value, counts.publicIpv4 = addressCell value ∧
      (address value).any Lib.Ipv4.isGlobal = true := by
  unfold checkCounts at h
  by_cases hnode : namesNode fields expectedNode = false
  · simp [hnode] at h
  rw [if_neg hnode] at h
  split at h
  · next active maximum accepted denied _ _ _ _ =>
    by_cases hmetrics : maximum ≤ 0 ∨ maximum < active
    · simp [hmetrics] at h
    rw [if_neg hmetrics] at h
    split at h
    · simp at h
    · next value _ =>
      by_cases haddress : (address value).any Lib.Ipv4.isGlobal = false
      · simp [haddress] at h
      rw [if_neg haddress] at h
      split at h
      · next memTotal memAvailable diskTotal diskFree _ _ _ _ =>
        by_cases hresources : memTotal ≤ 0 ∨ memTotal < memAvailable ∨ diskTotal ≤ 0 ∨
            diskTotal < diskFree
        · simp [hresources] at h
        · rw [if_neg hresources] at h
          obtain rfl := Except.ok.inj h
          exact ⟨value, rfl, by simpa using haddress⟩
      · simp at h
  · simp at h

/-- The address of a document that passes the validation is a global one. -/
theorem address_of_readStatus {depth : ℕ} {content expectedNode : List ℕ} {payload : Payload}
    (h : readStatus depth content expectedNode = .ok payload) :
    ∃ value, payload.publicIpv4 = addressCell value ∧
      (address value).any Lib.Ipv4.isGlobal = true := by
  have hvalid : ∃ document, validatePayload document expectedNode = .ok payload := by
    unfold readStatus at h
    split at h
    · simp at h
    · simp at h
    · exact ⟨_, h⟩
  obtain ⟨document, hdocument⟩ := hvalid
  unfold validatePayload at hdocument
  split at hdocument
  · next fields =>
    obtain ⟨counts, hcounts, h⟩ := Lib.Results.bind_eq_ok.mp hdocument
    obtain ⟨load, -, h⟩ := Lib.Results.bind_eq_ok.mp h
    obtain ⟨uptime, -, h⟩ := Lib.Results.bind_eq_ok.mp h
    obtain ⟨version, -, h⟩ := Lib.Results.bind_eq_ok.mp h
    obtain rfl := Except.ok.inj h
    exact address_of_checkCounts hcounts
  · simp at hdocument

/-- An address that is given as a text is the text of a global address. -/
theorem text_of_readStatus {depth : ℕ} {content expectedNode t : List ℕ} {payload : Payload}
    (h : readStatus depth content expectedNode = .ok payload) (ht : payload.publicIpv4 = .str t) :
    ∃ n < 2 ^ 32, Lib.Ipv4.isGlobal n = true ∧ t = Lib.Ipv4.render n := by
  obtain ⟨value, hcell, haddress⟩ := address_of_readStatus h
  obtain ⟨n, hn, hglobal⟩ := (Option.any_eq_true _ _).mp haddress
  rw [ht] at hcell
  cases value with
  | str t' =>
    obtain rfl := Cell.str.inj hcell
    obtain ⟨hlt, rfl⟩ := Lib.Ipv4.parse_eq_some.mp hn
    exact ⟨n, hlt, hglobal, rfl⟩
  | int m => exact Cell.noConfusion hcell
  | bool b => exact Cell.noConfusion hcell
  | null => exact absurd hn (Option.some_ne_none n).symm
  | float x => exact absurd hn (Option.some_ne_none n).symm
  | arr xs => exact absurd hn (Option.some_ne_none n).symm
  | obj fs => exact absurd hn (Option.some_ne_none n).symm

/-! ## What a probe guarantees -/

section Probe

variable (c : Config) (depth : ℕ) (node : EdgeNode) (behaviour : Behaviour)

/-- No sample is fatal: every answer that comes is a document that passes the validation. -/
def Passing : Prop :=
  ∀ i < c.sampleCount, ∀ content, (behaviour i).1 = .body content →
    ∃ payload, readStatus depth content (text node.name) = .ok payload

/-- The samples that make a node `online`. -/
structure Healthy : Prop where
  passing : Passing c depth node behaviour
  quorum : c.minSuccess ≤ (documents c depth node behaviour).length
  agree : ∀ d ∈ documents c depth node behaviour, ∀ e ∈ documents c depth node behaviour,
    d.1.publicIpv4 = e.1.publicIpv4
  expected : ∀ ip, node.expectedPublicIpv4 = some ip → ip ≠ "" →
    ∀ d ∈ documents c depth node behaviour, d.1.publicIpv4 = .str (text ip)
  resources : ∀ d ∈ (documents c depth node behaviour).getLast?, Plenty d.1

/-- The durations of the successful samples. -/
def durations : List ℚ := (documents c depth node behaviour).map Prod.snd

structure FailClosed : Prop where
  decided : ∃ result, probe c depth node behaviour = some result
  online : ∀ result, probe c depth node behaviour = some result →
    (result.health = .online ↔ Healthy c depth node behaviour)
  trimmed : ∀ health latency payload,
    probe c depth node behaviour = some (.accepted health latency payload) →
      Monitor.trimmed (durations c depth node behaviour) ≠ []
  latency : ∀ health latency payload,
    probe c depth node behaviour = some (.accepted health latency payload) →
      ∀ lo hi, (∀ d ∈ durations c depth node behaviour, lo ≤ d ∧ d ≤ hi) →
        roundEven (lo * 1000) ≤ latency ∧ latency ≤ roundEven (hi * 1000)
  kept : ∀ result, probe c depth node behaviour = some result → result.health = .offline ∨
      result = .rejected .quarantined "health probe public IPv4 inconsistent between samples" →
    ∀ t, (updateNode node result t).status = node.status ∧
      (updateNode node result t).lastSeenAt = node.lastSeenAt
  address : ∀ health latency payload,
    probe c depth node behaviour = some (.accepted health latency payload) →
      ∀ t, ∃ n < 2 ^ 32, Lib.Ipv4.isGlobal n = true ∧
        (updateNode node (.accepted health latency payload) t).status.actualPublicIpv4 =
          some (.str (Lib.Ipv4.render n))

/-- No sample makes the probe raise; and in documents that are going to be accepted the address is a
text, and their durations are `Clear`, or at least `Steady`. -/
structure Plain (Timed : List ℚ → Prop) : Prop where
  answered : Answered c depth node behaviour
  accepted : Passing c depth node behaviour →
    c.minSuccess ≤ (documents c depth node behaviour).length →
    (∀ d ∈ documents c depth node behaviour, ∀ e ∈ documents c depth node behaviour,
      d.1.publicIpv4 = e.1.publicIpv4) →
    (∀ d ∈ documents c depth node behaviour, ∃ t, d.1.publicIpv4 = .str t) ∧
      Timed (durations c depth node behaviour)

variable {c depth node behaviour}

theorem mem_documents {d : Payload × ℚ} (h : d ∈ documents c depth node behaviour) :
    0 ≤ d.2 ∧ ∃ content, readStatus depth content (text node.name) = .ok d.1 := by
  obtain ⟨i, -, hi⟩ := List.mem_filterMap.mp h
  cases hb : (behaviour i).1 with
  | failed | invalidUrl =>
    rw [hb] at hi
    exact absurd hi.symm (Option.some_ne_none d)
  | body content =>
    simp only [hb] at hi
    rcases hr : readStatus depth content (text node.name) with _ | payload
    · rw [hr] at hi
      exact absurd hi.symm (Option.some_ne_none d)
    · rw [hr] at hi
      obtain rfl := Option.some.inj hi
      exact ⟨le_max_left _ _, content, hr⟩

theorem durations_nonneg : ∀ d ∈ durations c depth node behaviour, 0 ≤ d := by
  intro d hd
  obtain ⟨e, he, rfl⟩ := List.mem_map.mp hd
  exact (mem_documents he).1

/-- **What a probe accepts.** -/
theorem probe_eq_accepted {health : HealthStatus} {latency : ℤ} {payload : Payload} :
    probe c depth node behaviour = some (.accepted health latency payload) ↔
      Answered c depth node behaviour ∧ Passing c depth node behaviour ∧
      c.minSuccess ≤ (documents c depth node behaviour).length ∧
      (documents c depth node behaviour).getLast?.map Prod.fst = some payload ∧
      (∀ e ∈ documents c depth node behaviour, e.1.publicIpv4 = payload.publicIpv4) ∧
      health = healthOf payload node.expectedPublicIpv4 ∧
      latencyOf (durations c depth node behaviour) = some latency := by
  rw [probe_eq_some, judge_eq_accepted, successes_samples]
  exact and_congr_right fun hanswered => and_congr (fatalErrors_samples hanswered) Iff.rfl

/-- The last document is one of them. -/
theorem mem_of_last {payload : Payload}
    (h : (documents c depth node behaviour).getLast?.map Prod.fst = some payload) :
    ∃ d, (documents c depth node behaviour).getLast? = some (payload, d) ∧
      (payload, d) ∈ documents c depth node behaviour := by
  obtain ⟨⟨p, d⟩, hlast, rfl⟩ := Option.map_eq_some_iff.mp h
  exact ⟨d, hlast, List.mem_of_getLast? hlast⟩

theorem last_of_quorum (h : c.minSuccess ≤ (documents c depth node behaviour).length) :
    ∃ last, (documents c depth node behaviour).getLast? = some last := by
  refine Option.ne_none_iff_exists'.mp (mt List.getLast?_eq_none_iff.mp fun hnil => ?_)
  rw [hnil, List.length_nil] at h
  have := c.quorum
  omega

/-- **A probe comes to a verdict** exactly if no sample makes it raise and, where it is going to
accept, the mean of the durations is finite. -/
theorem decided_iff : (∃ result, probe c depth node behaviour = some result) ↔
    Answered c depth node behaviour ∧ (Passing c depth node behaviour →
      c.minSuccess ≤ (documents c depth node behaviour).length →
      (∀ d ∈ documents c depth node behaviour, ∀ e ∈ documents c depth node behaviour,
        d.1.publicIpv4 = e.1.publicIpv4) →
      ∃ latency, latencyOf (durations c depth node behaviour) = some latency) := by
  constructor
  · rintro ⟨result, h⟩
    obtain ⟨hanswered, hjudge⟩ := probe_eq_some.mp h
    refine ⟨hanswered, fun hpassing hquorum hagree => ?_⟩
    obtain ⟨last, hlast⟩ := last_of_quorum hquorum
    have hlatency := judge_isSome_iff.mp ⟨result, hjudge⟩
    rw [fatalErrors_samples hanswered, successes_samples] at hlatency
    exact hlatency hpassing hquorum last hlast fun e he =>
      hagree e he last (List.mem_of_getLast? hlast)
  · rintro ⟨hanswered, hlatency⟩
    have hjudge : ∃ result,
        judge c node.expectedPublicIpv4 (samples c depth node behaviour) = some result := by
      rw [judge_isSome_iff, fatalErrors_samples hanswered, successes_samples]
      intro hpassing hquorum last _ hagree
      exact hlatency hpassing hquorum fun d hd e he => (hagree d hd).trans (hagree e he).symm
    obtain ⟨result, hjudge⟩ := hjudge
    exact ⟨result, probe_eq_some.mpr ⟨hanswered, hjudge⟩⟩

theorem online_iff {result : Probe} (h : probe c depth node behaviour = some result) :
    result.health = .online ↔ Healthy c depth node behaviour := by
  constructor
  · intro honline
    cases result with
    | rejected health lastError =>
      exact absurd honline (judge_rejected_ne_online (probe_eq_some.mp h).2)
    | accepted health latency payload =>
      obtain ⟨-, hpassing, hquorum, hlast, hagree, rfl, -⟩ := probe_eq_accepted.mp h
      obtain ⟨hexpected, hplenty⟩ := healthOf_eq_online.mp honline
      refine ⟨hpassing, hquorum, fun d hd e he => (hagree d hd).trans (hagree e he).symm,
        fun ip hip hne d hd => (hagree d hd).trans (hexpected ip hip hne), fun d hd => ?_⟩
      rw [Option.mem_def.mp hd] at hlast
      obtain rfl := Option.some.inj hlast
      exact hplenty
  · intro hh
    obtain ⟨last, hlast⟩ := last_of_quorum hh.quorum
    have hmem := List.mem_of_getLast? hlast
    obtain ⟨hanswered, hlatency⟩ := decided_iff.mp ⟨result, h⟩
    obtain ⟨latency, hlatency⟩ := hlatency hh.passing hh.quorum hh.agree
    have haccepted := probe_eq_accepted.mpr ⟨hanswered, hh.passing, hh.quorum,
      congrArg (Option.map Prod.fst) hlast, fun e he => hh.agree e he last hmem, rfl, hlatency⟩
    obtain rfl := Option.some.inj (h.symm.trans haccepted)
    exact healthOf_eq_online.mpr ⟨fun ip hip hne => hh.expected ip hip hne last hmem,
      hh.resources last hlast⟩

theorem kept_of_rejected {result : Probe} (h : probe c depth node behaviour = some result)
    (hresult : result.health = .offline ∨
      result = .rejected .quarantined "health probe public IPv4 inconsistent between samples")
    (t : Readings) : (updateNode node result t).status = node.status ∧
      (updateNode node result t).lastSeenAt = node.lastSeenAt := by
  cases result with
  | rejected health lastError => exact ⟨rfl, rfl⟩
  | accepted health latency payload =>
    obtain ⟨-, -, -, -, -, rfl, -⟩ := probe_eq_accepted.mp h
    rcases hresult with hoffline | hrejected
    · exact absurd hoffline (healthOf_ne_offline _ _)
    · exact Probe.noConfusion hrejected

theorem length_durations (h : c.minSuccess ≤ (documents c depth node behaviour).length) :
    3 ≤ (durations c depth node behaviour).length := by
  unfold durations
  rw [List.length_map]
  exact le_trans c.quorum.1 h

/-- **The verdict is fail-closed exactly if the answers are plain.** Where a half-millisecond is as near
to a duration as the errors of the mean reach, that depends on each of its roundings, and on nothing but
the durations otherwise. -/
theorem failClosed_iff :
    (Plain c depth node behaviour Clear → FailClosed c depth node behaviour) ∧
      (FailClosed c depth node behaviour ↔ Plain c depth node behaviour Steady) := by
  have hclear : Plain c depth node behaviour Clear → Plain c depth node behaviour Steady := by
    rintro ⟨hanswered, haccepted⟩
    refine ⟨hanswered, fun hpassing hquorum hagree => ?_⟩
    obtain ⟨htexts, hclear⟩ := haccepted hpassing hquorum hagree
    exact ⟨htexts, hclear.steady (length_durations hquorum) durations_nonneg⟩
  suffices hiff : FailClosed c depth node behaviour ↔ Plain c depth node behaviour Steady from
    ⟨fun h => hiff.mpr (hclear h), hiff⟩
  constructor
  · intro h
    obtain ⟨hanswered, hlatency⟩ := decided_iff.mp h.decided
    refine ⟨hanswered, fun hpassing hquorum hagree => ?_⟩
    obtain ⟨latency, hlatency⟩ := hlatency hpassing hquorum hagree
    obtain ⟨last, hlast⟩ := last_of_quorum hquorum
    have hmem := List.mem_of_getLast? hlast
    have haccepted := probe_eq_accepted.mpr ⟨hanswered, hpassing, hquorum,
      congrArg (Option.map Prod.fst) hlast, fun e he => hagree e he last hmem, rfl, hlatency⟩
    obtain ⟨n, -, -, hn⟩ := h.address _ _ _ haccepted ⟨0, 0, 0⟩
    have hne : durations c depth node behaviour ≠ [] :=
      List.length_pos_iff.mp (lt_of_lt_of_le (by decide) (length_durations hquorum))
    exact ⟨fun d hd => ⟨_, (hagree d hd last hmem).trans (Option.some.inj hn)⟩,
      steady_of_between hne durations_nonneg hlatency (h.latency _ _ _ haccepted)⟩
  · rintro ⟨hanswered, haccepted⟩
    refine ⟨decided_iff.mpr ⟨hanswered, fun hpassing hquorum hagree => ?_⟩,
      fun result => online_iff, ?_, ?_, fun result => kept_of_rejected, ?_⟩
    · obtain ⟨-, ms, hms, -⟩ := haccepted hpassing hquorum hagree
      exact ⟨_, congrArg (Option.map _) hms⟩
    · intro health latency payload h
      obtain ⟨-, -, hquorum, -⟩ := probe_eq_accepted.mp h
      exact trimmed_ne_nil (length_durations hquorum)
    · intro health latency payload h lo hi hbounds
      obtain ⟨-, hpassing, hquorum, -, hagree, -, hlatency⟩ := probe_eq_accepted.mp h
      obtain ⟨-, hsteady⟩ := haccepted hpassing hquorum
        fun d hd e he => (hagree d hd).trans (hagree e he).symm
      exact hsteady.between durations_nonneg hlatency hbounds
    · intro health latency payload h t
      obtain ⟨-, hpassing, hquorum, hlast, hagree, -, -⟩ := probe_eq_accepted.mp h
      obtain ⟨d, -, hmem⟩ := mem_of_last hlast
      obtain ⟨content, hread⟩ := (mem_documents hmem).2
      obtain ⟨htexts, -⟩ := haccepted hpassing hquorum
        fun d hd e he => (hagree d hd).trans (hagree e he).symm
      obtain ⟨ip, hip⟩ := htexts _ hmem
      obtain ⟨n, hlt, hglobal, rfl⟩ := text_of_readStatus hread hip
      exact ⟨n, hlt, hglobal, congrArg some hip⟩

end Probe

/-! ## An address that is an integer, a load beyond all floats, and a mean above its numbers -/

/-- A status document with this address and this load. -/
def answer (publicIpv4 load1m : List ℕ) : List ℕ :=
  text "\x7b\"node\":\"edge-a\"," ++ text "\"active_connections\":3," ++
    text "\"max_connections\":64," ++ text "\"accepted_connections\":9," ++
    text "\"denied_connections\":0," ++ text "\"public_ipv4\":" ++ publicIpv4 ++
    text ",\"memory_total_bytes\":4294967296," ++ text "\"memory_available_bytes\":2147483648," ++
    text "\"disk_total_bytes\":68719476736," ++ text "\"disk_free_bytes\":34359738368," ++
    text "\"load_1m\":" ++ load1m ++ text ",\"uptime_seconds\":1,\"agent_version\":\"1\"\x7d"

/-- The address in the payload that a probe has accepted. -/
def addressOf : Probe → Option Cell
  | .accepted _ _ payload => some payload.publicIpv4
  | .rejected _ _ => none

/-- The latency that a probe stores. -/
def latencyMsOf : Probe → Option ℤ
  | .accepted _ latencyMs _ => some latencyMs
  | .rejected _ _ => none

/-- The float 0.0225. -/
def shortOfHalf : ℚ := 3242591731706757 / 2 ^ 57

/-- 8.8.8.8 as an integer is accepted and stored as such; a load of four hundred and one digits ends
the run without a verdict; and five answers after 0.0225 s each have a latency of 23 ms, as the mean
of three of them is 0.022500000000000003. -/
theorem not_failClosed :
    ¬ FailClosed {} 1 (fleetNode 1 "edge-a" "https://a.example")
        (answering (answer (text "134744072") (text "0.5"))) ∧
      ¬ FailClosed {} 1 (fleetNode 1 "edge-a" "https://a.example")
        (answering (answer (text "\"8.8.8.8\"") hugeUptime)) ∧
      ¬ FailClosed {} 1 (fleetNode 1 "edge-a" "https://a.example")
        (fun _ => (.body (answer (text "\"8.8.8.8\"") (text "0.5")), shortOfHalf)) := by
  refine ⟨?_, ?_, ?_⟩
  · intro h
    have hint : (probe {} 1 (fleetNode 1 "edge-a" "https://a.example")
        (answering (answer (text "134744072") (text "0.5")))).bind addressOf =
          some (.int 134744072) := by
      decide +kernel
    obtain ⟨result, hresult, hcell⟩ := Option.bind_eq_some_iff.mp hint
    cases result with
    | rejected health lastError => exact absurd hcell.symm (Option.some_ne_none _)
    | accepted health latency payload =>
      obtain ⟨n, -, -, hn⟩ := h.address _ _ _ hresult ⟨0, 0, 0⟩
      exact Cell.noConfusion ((Option.some.inj hn).symm.trans (Option.some.inj hcell))
  · intro h
    obtain ⟨result, hresult⟩ := h.decided
    obtain ⟨hanswered, -⟩ := probe_eq_some.mp hresult
    have hraises : readStatus 1 (answer (text "\"8.8.8.8\"") hugeUptime) (text "edge-a") =
        .error .uncaught := by
      decide +kernel
    exact hanswered.decodes 0 (by decide) _ rfl (readStatus_eq_uncaught.mp hraises)
  · intro h
    have hlate : (probe {} 1 (fleetNode 1 "edge-a" "https://a.example")
        (fun _ => (.body (answer (text "\"8.8.8.8\"") (text "0.5")), shortOfHalf))).bind
          latencyMsOf = some 23 := by
      decide +kernel
    obtain ⟨result, hresult, hlatency⟩ := Option.bind_eq_some_iff.mp hlate
    cases result with
    | rejected health lastError => exact absurd hlatency.symm (Option.some_ne_none _)
    | accepted health latency payload =>
      obtain rfl := Option.some.inj hlatency
      have hpos : max 0 shortOfHalf = shortOfHalf := max_eq_right (by norm_num [shortOfHalf])
      obtain ⟨-, hle⟩ := h.latency _ _ _ hresult shortOfHalf shortOfHalf fun d hd => by
        obtain ⟨e, he, rfl⟩ := List.mem_map.mp hd
        obtain ⟨i, -, hi⟩ := List.mem_filterMap.mp he
        simp only at hi
        split at hi
        · obtain rfl := Option.some.inj hi
          exact ⟨hpos.ge, hpos.le⟩
        · exact absurd hi.symm (Option.some_ne_none _)
      exact absurd hle (by decide +kernel)

end IdenGrid.Control.Verdict
