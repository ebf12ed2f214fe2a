import Mathlib.Data.Rat.Floor
import Workshop.Jobs.RateLimit
import Workshop.Jobs.Timeout

/-!
# The rate limit check

`PgCheckRateLimit` (`src/workshop/PGQueue.cxx`) with all its conversions: the statement orders the
starts of the plan in the window from the last one to the first, skips `max_count - 1` of them, and
returns the time until the next one leaves the window as a decimal number, of which `strtoul` reads
the whole seconds.  Times are rational numbers of seconds here, and the text of a number is a
parameter; on the time stamps of the table the function agrees with `checkRateLimit`
(`checkRateLimit_eq`).

The result is positive exactly if enough of the starts lie in the window and not in its first second
(`pgCheckRateLimit_pos_iff`), where the window starts `duration` before now.
-/

namespace Workshop.Jobs

open Workshop.Lib

/-! ## The function -/

/-- `check_rate_limit`, on the `time_started` values of the plan. -/
def checkRateLimitQuery (starts : List ℚ) (now : ℚ) (duration : ℤ) (offset : ℕ) : Option ℚ :=
  ((starts.filter fun started => now - duration ≤ started).insertionSort (· ≥ ·))[offset]?.map
    fun started => started + duration - now

/-- `PgCheckRateLimit`.  The offset is the `unsigned` `max_count - 1`, `numericText` is how
PostgreSQL writes a number, and `std::chrono::seconds` is a signed 64-bit number. -/
def pgCheckRateLimit (numericText : ℚ → String) (starts : List ℚ) (now : ℚ) (duration : ℤ)
    (maxCount : ℕ) : ℤ :=
  let offset := (maxCount + (2 ^ 32 - 1)) % 2 ^ 32
  -- `GetOnlyStringChecked` returns an empty string if there is no row
  let value := ((checkRateLimitQuery starts now duration offset).map numericText).getD ""
  if value = "" then 0
  else (((strtoul 10 value.toList).elim 0 Prod.fst : ℕ) : ℤ).bmod (2 ^ 64)

/-- Numbers that are not negative are written as their whole digits, a point and a fraction. -/
def WritesDecimals (numericText : ℚ → String) : Prop :=
  ∀ x : ℚ, 0 ≤ x → ∃ fraction,
    (numericText x).toList = Nat.toDigits 10 ⌊x⌋.toNat ++ '.' :: fraction

/-- A number with six digits behind the point, which is how PostgreSQL writes seconds. -/
def secondsText (x : ℚ) : String :=
  String.ofList (Nat.toDigits 10 ⌊x⌋.toNat ++
    '.' :: (Nat.toDigits 10 (10 ^ 6 + ⌊x * 10 ^ 6⌋.toNat % 10 ^ 6)).tail)

lemma writesDecimals_secondsText : WritesDecimals secondsText :=
  fun _ _ => ⟨_, String.toList_ofList⟩

/-- The number of starts `PgCheckRateLimit` looks for. -/
def lookedFor (maxCount : ℕ) : ℕ := if maxCount = 0 then 2 ^ 32 else maxCount

lemma lookedFor_eq {maxCount : ℕ} (hbound : maxCount < 2 ^ 32) :
    lookedFor maxCount = (maxCount + (2 ^ 32 - 1)) % 2 ^ 32 + 1 := by
  simp only [lookedFor]
  split <;> omega

/-! ## Its result -/

lemma pgCheckRateLimit_of_some {numericText : ℚ → String} (htext : WritesDecimals numericText)
    {starts : List ℚ} {now delta : ℚ} {duration : ℤ} {maxCount : ℕ}
    (h : checkRateLimitQuery starts now duration ((maxCount + (2 ^ 32 - 1)) % 2 ^ 32) = some delta)
    (hlo : 0 ≤ delta) (hhi : ⌊delta⌋ < 2 ^ 63) :
    pgCheckRateLimit numericText starts now duration maxCount = ⌊delta⌋ := by
  obtain ⟨fraction, htext⟩ := htext delta hlo
  have hfloor : 0 ≤ ⌊delta⌋ := Int.floor_nonneg.mpr hlo
  have hne : numericText delta ≠ "" := by
    intro hempty
    rw [hempty] at htext
    simp at htext
  simp only [pgCheckRateLimit, h, Option.map_some, Option.getD_some]
  rw [if_neg hne, htext, strtoul_toDigits (by omega) (by decide)]
  simp only [Option.elim_some]
  rw [Int.toNat_of_nonneg hfloor, Int.bmod_eq_of_le (by omega) (by omega)]

lemma pgCheckRateLimit_of_none {numericText : ℚ → String} {starts : List ℚ} {now : ℚ}
    {duration : ℤ} {maxCount : ℕ}
    (h : checkRateLimitQuery starts now duration ((maxCount + (2 ^ 32 - 1)) % 2 ^ 32) = none) :
    pgCheckRateLimit numericText starts now duration maxCount = 0 := by
  simp only [pgCheckRateLimit, h]
  rfl

/-- **What the check sees**: the result is positive exactly if enough starts lie in the window, but
not in its first second. -/
theorem pgCheckRateLimit_pos_iff {numericText : ℚ → String} (htext : WritesDecimals numericText)
    {starts : List ℚ} {now : ℚ} {duration : ℤ} {maxCount : ℕ} (hbound : maxCount < 2 ^ 32)
    (hduration : duration < 2 ^ 63) (hpast : ∀ started ∈ starts, started ≤ now) :
    0 < pgCheckRateLimit numericText starts now duration maxCount ↔
      lookedFor maxCount ≤ starts.countP fun started => now - duration + 1 ≤ started := by
  obtain ⟨recent, hrecent⟩ : ∃ recent, recent = (starts.filter fun started =>
    decide (now - duration ≤ started)).insertionSort (· ≥ ·) := ⟨_, rfl⟩
  have hmem : ∀ x ∈ recent, now - duration ≤ x ∧ x ≤ now := by
    intro x hx
    rw [hrecent, List.mem_insertionSort, List.mem_filter, decide_eq_true_eq] at hx
    exact ⟨hx.2, hpast x hx.1⟩
  obtain ⟨k, hk⟩ : ∃ k, k = (maxCount + (2 ^ 32 - 1)) % 2 ^ 32 := ⟨_, rfl⟩
  have hquery : checkRateLimitQuery starts now duration k =
      recent[k]?.map fun started => started + duration - now := by
    rw [checkRateLimitQuery, hrecent]
  have hwindow : now - duration ≤ now - duration + 1 := by linarith
  rw [lookedFor_eq hbound, ← hk, Nat.succ_le_iff, lt_countP_iff_window starts hwindow, ← hrecent]
  cases hx : recent[k]? with
  | none =>
      rw [hx] at hquery
      rw [pgCheckRateLimit_of_none (hk ▸ hquery)]
      simp
  | some x =>
      rw [hx, Option.map_some] at hquery
      obtain ⟨hlo, hhi⟩ := hmem x (List.mem_of_getElem? hx)
      have hdelta : x + duration - now ≤ duration := by linarith
      have hfloor : ⌊x + duration - now⌋ ≤ duration := by
        exact_mod_cast (Int.floor_le _).trans hdelta
      rw [pgCheckRateLimit_of_some htext (hk ▸ hquery) (by linarith) (by omega), Int.floor_pos]
      constructor
      · intro h
        exact ⟨x, rfl, by linarith⟩
      · rintro ⟨y, hy, hle⟩
        rw [Option.some.injEq] at hy
        subst hy
        linarith

lemma parseRateLimit_maxCount {env : PlanEnv} {s : String} {L : RateLimit}
    (h : env.parseRateLimit s = .ok L) : L.maxCount < 2 ^ 32 := by
  unfold PlanEnv.parseRateLimit at h
  split at h
  · cases h
  · split at h
    · obtain ⟨duration, -, hresult⟩ := bind_eq_ok_iff.mp h
      obtain rfl := Except.ok.inj hresult
      exact Nat.mod_lt _ (by omega)
    · cases h

/-- **When the check is exact.**  It answers whether `max_count` starts lie in the window, exactly
if those starts, should there be so many, do not need one in the first second of the window; a
`max_count` of zero counts as 2^32. -/
theorem pgCheckRateLimit_exact_iff {env : PlanEnv} {s : String} {L : RateLimit}
    (hparse : env.parseRateLimit s = .ok L) (hduration : L.duration < 2 ^ 63)
    {numericText : ℚ → String} (htext : WritesDecimals numericText) {starts : List ℚ} {now : ℚ}
    (hpast : ∀ started ∈ starts, started ≤ now) :
    (0 < pgCheckRateLimit numericText starts now L.duration L.maxCount ↔
        L.maxCount ≤ starts.countP fun started => now - L.duration < started) ↔
      (L.maxCount ≤ (starts.countP fun started => now - L.duration < started) →
        lookedFor L.maxCount ≤ starts.countP fun started => now - L.duration + 1 ≤ started) := by
  rw [pgCheckRateLimit_pos_iff htext (parseRateLimit_maxCount hparse) hduration hpast]
  have hfewer : (starts.countP fun started => decide (now - L.duration + 1 ≤ started)) ≤
      starts.countP fun started => decide (now - L.duration < started) := by
    refine List.countP_mono_left fun x _ hx => ?_
    rw [decide_eq_true_eq] at hx ⊢
    linarith
  have hlooked : L.maxCount ≤ lookedFor L.maxCount := by
    simp only [lookedFor]
    split <;> omega
  constructor
  · exact fun h => h.mpr
  · intro h
    exact ⟨fun hle => hlooked.trans (hle.trans hfewer), h⟩

theorem pgCheckRateLimit_exact_two :
    0 < pgCheckRateLimit secondsText [9000, 9100] 9120 300 2 ↔
      2 ≤ ([9000, 9100] : List ℚ).countP fun started => 9120 - 300 < started :=
  have hparse : smallEnv.parseRateLimit "2/5 minutes" = .ok ⟨300, 2⟩ := by decide +kernel
  (pgCheckRateLimit_exact_iff hparse (by norm_num) writesDecimals_secondsText
    (by norm_num : ∀ started ∈ ([9000, 9100] : List ℚ), started ≤ 9120)).mpr
      fun _ => by decide +kernel

/-- A start half a second after the window began is not seen. -/
theorem pgCheckRateLimit_first_second :
    smallEnv.parseRateLimit "1/5 minutes" = .ok ⟨300, 1⟩ ∧
      1 ≤ ([17641 / 2] : List ℚ).countP (fun started => 9120 - 300 < started) ∧
      pgCheckRateLimit secondsText [17641 / 2] 9120 300 1 = 0 := by
  refine ⟨by decide +kernel, by decide +kernel, by decide +kernel⟩

/-! ## In the system -/

/-- A time point or a duration in microseconds, in seconds. -/
def inSeconds (t : ℤ) : ℚ := t / 10 ^ 6

lemma inSeconds_le_iff {a b : ℤ} : inSeconds a ≤ inSeconds b ↔ a ≤ b := by
  rw [inSeconds, inSeconds, div_le_div_iff_of_pos_right (by norm_num), Int.cast_le]

lemma inSeconds_add (t duration : ℤ) :
    inSeconds t + duration = inSeconds (t + duration * second) := by
  simp only [inSeconds, second]
  push_cast
  ring

lemma inSeconds_sub (a b : ℤ) : inSeconds a - inSeconds b = inSeconds (a - b) := by
  simp only [inSeconds]
  push_cast
  ring

lemma floor_inSeconds (t : ℤ) : ⌊inSeconds t⌋ = t / second := by
  have h := Rat.floor_intCast_div_natCast t (10 ^ 6)
  push_cast at h
  exact h

/-- The unit of time changes neither the window nor the order. -/
lemma checkRateLimitQuery_inSeconds (starts : List ℤ) (now duration : ℤ) (k : ℕ) :
    checkRateLimitQuery (starts.map inSeconds) (inSeconds now) duration k =
      ((starts.filter fun started => decide (now - duration * second ≤ started)).insertionSort
        (· ≥ ·))[k]?.map fun started => inSeconds (started + duration * second - now) := by
  have hwindow : ((starts.map inSeconds).filter fun started =>
      decide (inSeconds now - duration ≤ started)) =
        (starts.filter fun started =>
          decide (now - duration * second ≤ started)).map inSeconds := by
    rw [List.filter_map]
    congr 1
    refine List.filter_congr fun x _ => decide_eq_decide.mpr ?_
    rw [sub_le_iff_le_add, inSeconds_add, inSeconds_le_iff, sub_le_iff_le_add]
  rw [checkRateLimitQuery, hwindow, ← List.map_insertionSort (· ≥ ·) (· ≥ ·), List.getElem?_map,
    Option.map_map]
  · congr 1
    funext x
    rw [Function.comp_apply, inSeconds_add, inSeconds_sub]
  · exact fun a _ b _ => inSeconds_le_iff.symm

/-- The function of the model of the queue is this one, on time stamps in microseconds. -/
theorem checkRateLimit_eq {numericText : ℚ → String} (htext : WritesDecimals numericText)
    {table : JobTable} {now duration : ℤ} {p : String} {maxCount : ℕ}
    (hduration : duration < 2 ^ 63)
    (hpast : ∀ r ∈ table.rows, ∀ started, r.timeStarted = some started → started ≤ now) :
    checkRateLimit table now p duration maxCount =
      pgCheckRateLimit numericText
        (((table.rows.filter fun r => r.planName == p).filterMap JobRow.timeStarted).map inSeconds)
        (inSeconds now) duration maxCount := by
  obtain ⟨starts, hstarts⟩ : ∃ starts, starts =
    (table.rows.filter fun r => r.planName == p).filterMap JobRow.timeStarted := ⟨_, rfl⟩
  obtain ⟨recent, hrecent⟩ : ∃ recent, recent = (starts.filter fun started =>
    decide (now - duration * second ≤ started)).insertionSort (· ≥ ·) := ⟨_, rfl⟩
  obtain ⟨k, hk⟩ : ∃ k, k = (maxCount + (2 ^ 32 - 1)) % 2 ^ 32 := ⟨_, rfl⟩
  have hmem : ∀ x ∈ recent, now - duration * second ≤ x ∧ x ≤ now := by
    intro x hx
    rw [hrecent, List.mem_insertionSort, List.mem_filter, decide_eq_true_eq] at hx
    obtain ⟨hx, hlo⟩ := hx
    rw [hstarts, List.mem_filterMap] at hx
    obtain ⟨r, hr, hstarted⟩ := hx
    exact ⟨hlo, hpast r (List.mem_of_mem_filter hr) x hstarted⟩
  have hquery : checkRateLimitQuery (starts.map inSeconds) (inSeconds now) duration k =
      recent[k]?.map fun started => inSeconds (started + duration * second - now) := by
    rw [checkRateLimitQuery_inSeconds, hrecent]
  rw [← hstarts]
  cases hx : recent[k]? with
  | none =>
      rw [hx, Option.map_none] at hquery
      rw [pgCheckRateLimit_of_none (hk ▸ hquery)]
      simp only [checkRateLimit]
      rw [← hstarts, ← hrecent, ← hk, hx]
  | some x =>
      rw [hx, Option.map_some] at hquery
      obtain ⟨hlo, hhi⟩ := hmem x (List.mem_of_getElem? hx)
      have hnonneg : 0 ≤ x + duration * second - now := by omega
      have hpositive : 0 ≤ inSeconds (x + duration * second - now) :=
        div_nonneg (by exact_mod_cast hnonneg) (by norm_num)
      have hsmall : ⌊inSeconds (x + duration * second - now)⌋ < 2 ^ 63 := by
        rw [floor_inSeconds]
        simp only [second]
        omega
      rw [pgCheckRateLimit_of_some htext (hk ▸ hquery) hpositive hsmall, floor_inSeconds,
        ← Int.tdiv_eq_ediv_of_nonneg hnonneg]
      simp only [checkRateLimit]
      rw [← hstarts, ← hrecent, ← hk, hx]

end Workshop.Jobs
