import SsdCache.Proof.Queries

/-!
# Delays

The due time of an access is `observed_at + copy_delay` in 64-bit ticks. On Windows its text is
that of the calendar between 1970 and year 3000, and from outside these years the text of a time
that `gmtime_s` refused; the worker's query compares texts.

* `windowsFormatUtc_eq`, `windowsParseUtc_eq`, `recordAccess_windows`: in these years the text and
  the rows of an access are those of the calendar.
* `windowsFormatUtc_le_iff`: when the text of any due time is at or before that of now.
* `delay_honoured_iff`: **a job is due when its delay is over if and only if** the sum fits
  and is before year 3001, or wraps to the right side.
-/

namespace SsdCache

open Civil Sql

variable {s t now d : ℤ}

theorem castSeconds_nonpos (h : t ≤ 0) : castSeconds t ≤ 0 := by
  have hpos : 0 ≤ castSeconds (-t) := Int.tdiv_nonneg (by omega) (by decide)
  have hneg : castSeconds (-t) = -castSeconds t := Int.neg_tdiv ..
  omega

/-- The floor of a time point is compared with now as its seconds are. -/
theorem floor_le_now (hnow : 0 ≤ now) :
    floorToSeconds s ≤ now ↔ castSeconds s ≤ castSeconds now := by
  rw [castSeconds_eq hnow]
  unfold floorToSeconds ticksPerSecond
  omega

/-! ## The codec on Windows -/

/-- The first tick of year 3001. -/
def year3001 : ℤ := rawYear3001 * ticksPerSecond

/-- The runtime takes the time point. -/
def RuntimeTakes (t : ℤ) : Prop := 0 ≤ castSeconds t ∧ castSeconds t < rawYear3001

theorem windowsFormatUtc_eq (h : RuntimeTakes t) : windowsFormatUtc t = formatUtc t := by
  unfold RuntimeTakes at h
  rw [windowsFormatUtc, gmtimeS, if_pos h, formatUtc]

/-- The text of a time that was refused. -/
def refusedText : Text := printUtc ⟨-1, -1, -1, -1, -1, -1⟩

theorem windowsFormatUtc_refused (h : ¬ RuntimeTakes t) : windowsFormatUtc t = refusedText := by
  unfold RuntimeTakes at h
  rw [windowsFormatUtc, gmtimeS, if_neg h, refusedText]

theorem castSeconds_of_takes {t : ℤ} (h : RuntimeTakes t) : castSeconds t < 253402300800 := by
  have hlast : castSeconds t < 32535216000 := h.2
  omega

/-- What was written is read as the calendar reads it. -/
theorem windowsParseUtc_eq (h : RuntimeTakes t) :
    windowsParseUtc (formatUtc t) = parseUtc (formatUtc t) := by
  have hlast := castSeconds_of_takes h
  obtain ⟨h0, h1⟩ := h
  rw [formatUtc_eq (by omega) hlast, windowsParseUtc, parseUtc, scanUtc_fixed h0 hlast,
    Option.bind_some, Option.bind_some, mkgmtime, timegm_gmtime, if_pos ⟨h0, h1⟩]

/-- Two ways of writing time points that agree on an access leave the same index. -/
theorem recordAccessWith_congr {f g : ℤ → Text} (ix : CacheIndex) {event : AccessEvent}
    (hseen : f event.observedAt = g event.observedAt)
    (hdue : f (addSeconds event.observedAt d) = g (addSeconds event.observedAt d)) :
    ix.recordAccessWith f event d = ix.recordAccessWith g event d := by
  have hfile : CacheIndex.accessFile f event = CacheIndex.accessFile g event := by
    funext row
    cases row with
    | none => simp only [CacheIndex.accessFile, hseen]
    | some row => simp only [CacheIndex.accessFile, hseen]
  have hjob : CacheIndex.accessJob f event d = CacheIndex.accessJob g event d := by
    funext row
    cases row with
    | none => simp only [CacheIndex.accessJob, hdue]
    | some row => simp only [CacheIndex.accessJob, hdue]
  unfold CacheIndex.recordAccessWith
  simp only [hfile, hjob]

/-- **Between 1970 and year 3000** an access leaves the rows that it leaves with the calendar. -/
theorem recordAccess_windows (ix : CacheIndex) {event : AccessEvent}
    (hseen : RuntimeTakes event.observedAt) (hdue : RuntimeTakes (addSeconds event.observedAt d)) :
    ix.recordAccessWith windowsFormatUtc event d = ix.recordAccess event d :=
  recordAccessWith_congr ix (windowsFormatUtc_eq hseen) (windowsFormatUtc_eq hdue)

/-! ## Order of texts -/

/-- The year of a time from 1970 on has four digits. -/
theorem gmtime_year {raw : ℤ} (h0 : 0 ≤ raw) (h1 : raw < 253402300800) :
    1970 ≤ (gmtime raw).tmYear + 1900 ∧ (gmtime raw).tmYear + 1900 < 10000 := by
  have hlo := months_mono (show 0 ≤ raw / 86400 by omega)
  have hhi := months_mono (show raw / 86400 ≤ 2932896 by omega)
  rw [show months 0 = 23638 by decide] at hlo
  rw [show months 2932896 = 119997 by decide] at hhi
  simp only [gmtime, civilFromDays]
  omega

/-- A time that was refused is written with year 1899, before everything since 1970. -/
theorem refusedText_lt (h : RuntimeTakes now) : refusedText < formatUtc now := by
  have hlast := castSeconds_of_takes h
  obtain ⟨hlow, hhigh⟩ := gmtime_year h.1 hlast
  have hrefused : refusedText = fixed 4 1899 ++ "-00--1T-1:-1:-1Z".toList := by decide
  rw [formatUtc_eq (by have := h.1; omega) hlast, hrefused]
  unfold fixedUtc
  exact append_lt _ _ (by simp) (fixed_lt (by omega) (by omega))

/-- The text of a due time reads as due: its time has come, or it is refused as too late. -/
def ReadsDue (s now : ℤ) : Prop := floorToSeconds s ≤ now ∨ year3001 ≤ s

instance (s now : ℤ) : Decidable (ReadsDue s now) := inferInstanceAs (Decidable (_ ∨ _))

theorem year3001_le_iff : year3001 ≤ s ↔ rawYear3001 ≤ castSeconds s := by
  unfold year3001 rawYear3001 ticksPerSecond
  rcases le_or_gt 0 s with h0 | h0
  · rw [castSeconds_eq h0]
    omega
  · have hneg := castSeconds_nonpos h0.le
    omega

/-- Between 1970 and year 3000. -/
theorem runtimeTakes_of_range (h0 : 0 ≤ now) (h1 : now < year3001) : RuntimeTakes now := by
  refine ⟨by rw [castSeconds_eq h0]; omega, ?_⟩
  rw [← not_le, ← year3001_le_iff, not_le]
  exact h1

/-- **When a due time is read as due.** -/
theorem windowsFormatUtc_le_iff (h0 : 0 ≤ now) (h1 : now < year3001) :
    windowsFormatUtc s ≤ windowsFormatUtc now ↔ ReadsDue s now := by
  have hnow := runtimeTakes_of_range h0 h1
  have hlast := castSeconds_of_takes hnow
  obtain ⟨hnow0, -⟩ := hnow
  unfold ReadsDue
  rw [windowsFormatUtc_eq (runtimeTakes_of_range h0 h1), floor_le_now h0, year3001_le_iff]
  by_cases hs : RuntimeTakes s
  · obtain ⟨hs0, hs1⟩ := hs
    have hslast := castSeconds_of_takes ⟨hs0, hs1⟩
    rw [windowsFormatUtc_eq ⟨hs0, hs1⟩, format_le_cast (by omega) hslast (by omega) hlast,
      or_iff_left (not_le.2 hs1)]
  · rw [windowsFormatUtc_refused hs]
    refine iff_of_true (refusedText_lt (runtimeTakes_of_range h0 h1)).le ?_
    unfold RuntimeTakes at hs
    omega

/-! ## The delay -/

/-- The due time over unbounded integers. -/
def exactDue (t d : ℤ) : ℤ := t + d * ticksPerSecond

/-- The 64-bit sum is the exact one and is before year 3001, or it has wrapped and reads as the
exact one would. -/
def DelayKept (t d now : ℤ) : Prop :=
  (-9223372036854775808 ≤ exactDue t d ∧ exactDue t d < year3001) ∨
  (9223372036854775808 ≤ exactDue t d ∧ ¬ ReadsDue (addSeconds t d) now) ∨
  (exactDue t d < -9223372036854775808 ∧ ReadsDue (addSeconds t d) now)

instance (t d now : ℤ) : Decidable (DelayKept t d now) :=
  inferInstanceAs (Decidable (_ ∨ _ ∨ _))

/-- A sum that fits does not wrap. -/
theorem addSeconds_eq_exactDue (h0 : -9223372036854775808 ≤ exactDue t d)
    (h1 : exactDue t d < 9223372036854775808) : addSeconds t d = exactDue t d := by
  unfold exactDue at h0 h1
  exact Int.bmod_eq_of_le (by omega) (by omega)

/-- A time reads on the side of now that it is on if and only if it is before year 3001. -/
theorem readsDue_iff_before (h0 : 0 ≤ now) (h1 : now < year3001) :
    (ReadsDue s now ↔ floorToSeconds s ≤ now) ↔ s < year3001 := by
  unfold ReadsDue
  rcases lt_or_ge s year3001 with hs | hs
  · exact iff_of_true (or_iff_left (not_le.2 hs)) hs
  · have hlate := year3001_le_iff.1 hs
    have hnow := (runtimeTakes_of_range h0 h1).2
    have hnot : ¬ floorToSeconds s ≤ now := by
      rw [floor_le_now h0]
      omega
    rw [iff_false_right hnot]
    exact iff_of_false (fun h => h (.inr hs)) (not_lt.2 hs)

/-- **The due time reads as the exact one if and only if the delay is kept.** -/
theorem readsDue_iff_delayKept (h0 : 0 ≤ now) (h1 : now < year3001) :
    (ReadsDue (addSeconds t d) now ↔ floorToSeconds (exactDue t d) ≤ now) ↔
      DelayKept t d now := by
  have hfloor := floor_le_now (s := exactDue t d) h0
  have hnow := runtimeTakes_of_range h0 h1
  have hyear : year3001 < 9223372036854775808 := by decide
  unfold DelayKept
  rcases lt_or_ge (exactDue t d) (-9223372036854775808) with hunder | hlow
  · -- far in the past: the delay is over
    have hneg := castSeconds_nonpos (show exactDue t d ≤ 0 by omega)
    have hover : floorToSeconds (exactDue t d) ≤ now := hfloor.2 (hneg.trans hnow.1)
    rw [iff_true_right hover]
    constructor
    · exact fun h => .inr (.inr ⟨hunder, h⟩)
    · rintro (⟨h, -⟩ | ⟨h, -⟩ | ⟨-, h⟩)
      · omega
      · omega
      · exact h
  rcases lt_or_ge (exactDue t d) 9223372036854775808 with hhigh | hlarge
  · -- the sum fits
    rw [addSeconds_eq_exactDue hlow hhigh, readsDue_iff_before h0 h1]
    constructor
    · exact fun h => .inl ⟨hlow, h⟩
    · rintro (⟨-, h⟩ | ⟨h, -⟩ | ⟨h, -⟩)
      · exact h
      · omega
      · omega
  · -- far in the future: the delay is not over
    have hlate := year3001_le_iff.1 (show year3001 ≤ exactDue t d by omega)
    have hnot : ¬ floorToSeconds (exactDue t d) ≤ now := fun h => by
      have hle := hfloor.1 h
      have hlast := hnow.2
      omega
    rw [iff_false_right hnot]
    constructor
    · exact fun h => .inr (.inl ⟨hlarge, h⟩)
    · rintro (⟨-, h⟩ | ⟨-, h⟩ | ⟨h, -⟩)
      · omega
      · exact h
      · omega

/-! ## The job -/

variable {ix : CacheIndex} {event : AccessEvent} {clock : ℤ} {jobs : List PendingJob}

/-- The job of an access is returned if and only if its text is at or before that of now. -/
theorem dueJobs_of_recordAccess {format : ℤ → Text} {parse : Text → Option ℤ}
    (hkind : shouldScheduleCopy event.kind = true) (hpath : event.relativePath ≠ [])
    (hjobs : (ix.recordAccessWith format event d).IsDueJobsWith format parse clock now (-1) jobs) :
    (∃ job ∈ jobs, job.relativePath = event.relativePath) ↔
      format (addSeconds event.observedAt d) ≤ format now := by
  obtain ⟨l, hl, rfl⟩ := hjobs
  obtain ⟨row, hrow, hdue⟩ : ∃ row, (ix.recordAccessWith format event d).pendingJobs.lookup
      event.relativePath = some row ∧
        row.dueUtc = format (addSeconds event.observedAt d) := by
    simp only [CacheIndex.recordAccessWith, if_neg hpath, if_pos hkind, lookup_upsert, if_true]
    cases ix.pendingJobs.lookup event.relativePath with
    | none => exact ⟨_, rfl, rfl⟩
    | some row => exact ⟨_, rfl, rfl⟩
  constructor
  · rintro ⟨job, hjob, hp⟩
    obtain ⟨⟨p, row'⟩, hm, rfl⟩ := List.mem_map.1 hjob
    obtain ⟨hrow', hle⟩ := hl.mem hm
    obtain rfl : p = event.relativePath := hp
    obtain rfl : row = row' := Option.some.inj (hrow.symm.trans hrow')
    exact hdue ▸ of_decide_eq_true hle
  · intro hle
    have hmem : (event.relativePath, row) ∈ l :=
      hl.mem_of_neg (by decide) hrow (decide_eq_true (hdue ▸ hle))
    exact ⟨_, List.mem_map_of_mem hmem, rfl⟩

/-- After the access is recorded with the delay, its job is due exactly when the delay is
over. -/
def DelayHonoured (ix : CacheIndex) (event : AccessEvent) (d now : ℤ) : Prop :=
  ∀ clock jobs,
    (ix.recordAccessWith windowsFormatUtc event d).IsDueJobsWith windowsFormatUtc windowsParseUtc
      clock now (-1) jobs →
    ((∃ job ∈ jobs, job.relativePath = event.relativePath) ↔
      floorToSeconds (exactDue event.observedAt d) ≤ now)

/-- The due jobs after an access, on Windows. -/
def dueAfter (ix : CacheIndex) (event : AccessEvent) (d now : ℤ) : List PendingJob :=
  (select (fun row => row.2.dueUtc ≤ windowsFormatUtc now) (fun row => row.2.dueUtc) (-1)
    (ix.recordAccessWith windowsFormatUtc event d).pendingJobs).map
      (CacheIndex.readPendingJobWith windowsParseUtc 0)

theorem dueAfter_isDueJobs (ix : CacheIndex) (event : AccessEvent) (d now : ℤ) :
    (ix.recordAccessWith windowsFormatUtc event d).IsDueJobsWith windowsFormatUtc windowsParseUtc
      0 now (-1) (dueAfter ix event d now) := ⟨_, select_isSelect .., rfl⟩

/-- **A delay is honoured if and only if** the due time fits 64 bits and is before year 3001,
or wraps to the right side of now. -/
theorem delay_honoured_iff (hkind : shouldScheduleCopy event.kind = true)
    (hpath : event.relativePath ≠ []) (h0 : 0 ≤ now) (h1 : now < year3001) :
    DelayHonoured ix event d now ↔ DelayKept event.observedAt d now := by
  rw [← readsDue_iff_delayKept h0 h1, ← windowsFormatUtc_le_iff h0 h1]
  constructor
  · intro h
    have hanswer := dueAfter_isDueJobs ix event d now
    rw [← h 0 _ hanswer, dueJobs_of_recordAccess hkind hpath hanswer]
  · intro h clock jobs hjobs
    rw [dueJobs_of_recordAccess hkind hpath hjobs, h]

/-- A delay of a minute, on 14 November 2023. -/
theorem delay_honoured_minute :
    DelayHonoured {} { relativePath := [0x61], observedAt := 17000000000000000 } 60
      17000000600000000 := by
  refine (delay_honoured_iff (by decide) (by decide) (by decide) (by decide)).2 ?_
  exact .inl ⟨by decide, by decide⟩

/-- **A delay of a thousand years** leads out of the years that the runtime takes, and the job
is due at once. -/
theorem long_delay_due_at_once :
    ¬ DelayHonoured {} { relativePath := [0x61], observedAt := 17000000000000000 } 31557600000
      17000000000000000 := by
  intro h
  have hanswer := dueAfter_isDueJobs {} { relativePath := [0x61], observedAt := 17000000000000000 }
    31557600000 17000000000000000
  have hdue := (dueJobs_of_recordAccess (by decide) (by decide) hanswer).2 (by decide)
  exact absurd ((h 0 _ hanswer).1 hdue) (by decide)

end SsdCache
