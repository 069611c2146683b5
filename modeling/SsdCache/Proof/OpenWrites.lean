import SsdCache.Proof.QuietPeriod
import SsdCache.Proof.Sequential

/-!
# Copies of files that are being written

A `WriteObserved` event schedules no copy, and moves no job row. So a file whose write is open
has a job only beside it: from before the write, or from a `ReadOpen` during it
(`JobBeside`).

* `copies_closed`: if no batch finds such a job due, it copies no file with an open write.
* `never_copied_while_written`: then no file is copied before its writes are closed and due, in
  every sequence of events and batches.
* `copied_while_written`: a read schedules a copy, a write begins, and the file is
  copied in the middle of it.
-/

namespace SsdCache

open Atomic

variable {V : Type} {sv : Service V} {w w' : World V} {h : History V} {c : State V} {a : Call}
variable {p : WString} {l : Event} {t : Party}

/-- A `WriteObserved` event of `p` was recorded. -/
def WriteObserved (p : WString) (l : Event) : Prop :=
  ∃ e ∈ recorded p l, e.1.kind = .writeObserved

/-- A `ReadOpen` event of `p` was recorded. -/
def ReadOpened (p : WString) (l : Event) : Prop := ∃ e ∈ recorded p l, e.1.kind = .readOpen

/-- A `WriteClosed` event of `p` was recorded. -/
def WriteClosed (p : WString) (l : Event) : Prop := ∃ e ∈ recorded p l, e.1.kind = .writeClosed

/-- A `WriteClosed` event of `p` was recorded, whose copy is due at `now`. -/
def WriteClosedBy (now : ℤ) (p : WString) (l : Event) : Prop :=
  ∃ e ∈ recorded p l, e.1.kind = .writeClosed ∧ floorToSeconds (addSeconds e.1.observedAt e.2) ≤ now

instance (p : WString) (l : Event) : Decidable (WriteObserved p l) :=
  inferInstanceAs (Decidable (∃ e ∈ recorded p l, _))

instance (p : WString) (l : Event) : Decidable (ReadOpened p l) :=
  inferInstanceAs (Decidable (∃ e ∈ recorded p l, _))

instance (p : WString) (l : Event) : Decidable (WriteClosed p l) :=
  inferInstanceAs (Decidable (∃ e ∈ recorded p l, _))

instance (now : ℤ) (p : WString) (l : Event) : Decidable (WriteClosedBy now p l) :=
  inferInstanceAs (Decidable (∃ e ∈ recorded p l, _))

/-- A write of `p` was observed and not closed. -/
def OpenWrite (p : WString) (h : History V) : Prop :=
  Since (fun _ _ => WriteObserved p) (fun _ _ => WriteClosed p) h

/-- A write of `p` was observed, and no close that is due at `now` followed. -/
def UnsettledWrite (now : ℤ) (p : WString) (h : History V) : Prop :=
  Since (fun _ _ => WriteObserved p) (fun _ _ => WriteClosedBy now p) h

instance (p : WString) (h : History V) : Decidable (OpenWrite p h) :=
  inferInstanceAs (Decidable (Since _ _ h))

instance (now : ℤ) (p : WString) (h : History V) : Decidable (UnsettledWrite now p h) :=
  inferInstanceAs (Decidable (Since _ _ h))

/-- When `run_due_once(now)` copies `p`, every write of `p` was closed and is due. -/
def NeverWhileWritten : Condition V := fun h _ l =>
  ∀ p ∈ copiedPath l, ∃ now ∈ cutoff h, ¬ UnsettledWrite now p h

instance (h : History V) (w : World V) (l : Event) : Decidable (NeverWhileWritten h w l) :=
  inferInstanceAs (Decidable (∀ p ∈ copiedPath l, ∃ now ∈ cutoff h, _))

/-! ## When it is so -/

/-- A write of `p` is open that has a job beside it: one was pending when the write was observed,
or a `ReadOpen` of `p` came while the write was open. -/
def JobBeside (p : WString) (h : History V) : Prop :=
  Since (fun h w l => (WriteObserved p l ∧ w.index.job p ≠ none) ∨ (ReadOpened p l ∧ OpenWrite p h))
    (fun _ _ => WriteClosed p) h

instance (p : WString) (h : History V) : Decidable (JobBeside p h) :=
  inferInstanceAs (Decidable (Since _ _ h))

/-- A write with a job beside it is closed before the job is due: when a batch is queried, no row
of such a file is. -/
def ClosedInTime : Condition V := fun h w l =>
  ∀ now ∈ batchStart l, ∀ row ∈ Sql.rows w.index.pendingJobs,
    JobBeside row.1 h → ¬ row.2.dueUtc ≤ formatUtc now

instance (h : History V) (w : World V) (l : Event) : Decidable (ClosedInTime h w l) :=
  inferInstanceAs (Decidable (∀ now ∈ batchStart l, ∀ row ∈ _, _ → _))

/-! ## Open writes -/

/-- A file whose write is open, with no job beside it, has no job row. -/
def Rowless (x : History V × World V) : Prop :=
  ∀ p, OpenWrite p x.1 → ¬ JobBeside p x.1 → x.2.index.job p = none

/-- Only a `ReadOpen` or a `WriteClosed` event schedules a copy. -/
theorem opened_or_closed {d : ℤ} (hs : scheduled p l = some d) : ReadOpened p l ∨ WriteClosed p l := by
  unfold scheduled at hs
  obtain ⟨e, he, hkind⟩ := Option.bind_eq_some_iff.1 hs
  split at hkind
  · rename_i hk
    have hcases : e.1.kind = .readOpen ∨ e.1.kind = .writeClosed := by
      simpa only [shouldScheduleCopy, Bool.or_eq_true, decide_eq_true_eq] using hk
    exact hcases.imp (fun hread => ⟨e, he, hread⟩) fun hclosed => ⟨e, he, hclosed⟩
  · cases hkind

/-- The event of a step has one kind. -/
theorem not_writeObserved (hl : ReadOpened p l ∨ WriteClosed p l) : ¬ WriteObserved p l := by
  rintro ⟨e, he, hkind⟩
  rcases hl with ⟨e', he', hkind'⟩ | ⟨e', he', hkind'⟩ <;>
  · obtain rfl : e = e' := Option.some.inj (he.symm.trans he')
    rw [hkind] at hkind'
    cases hkind'

theorem not_writeObserved_of_none (hl : recorded p l = none) : ¬ WriteObserved p l := by
  rintro ⟨e, he, -⟩
  rw [hl] at he
  cases he

theorem openWrite_of_cons (hl : recorded p l = none) (hopen : OpenWrite p ((w, l) :: h)) :
    OpenWrite p h := (hopen.resolve_left (not_writeObserved_of_none hl)).2

/-- **One call leaves open writes without rows**: an observed write puts none, and a retry is of
a file without an open write. -/
theorem rowless_step {r : Except String a.Answer} (hx : exec sv w a r w') (hI : Rowless (h, w))
    (hretry : ∀ p due m, a.written r = some (.upsertPendingJob p due m) → ¬ OpenWrite p h) :
    Rowless (acted w t r h, w') := by
  intro p hopen hbeside
  have hnone : w.index.job p = none := by
    rcases hopen with hwrite | ⟨hclosed, hopen⟩
    · by_contra hjob
      exact hbeside (.inl (.inl ⟨hwrite, hjob⟩))
    · exact hI p hopen fun hb => hbeside (.inr ⟨hclosed, hb⟩)
  have hsched : scheduled p (.act t a r) = none := by
    by_contra hsome
    obtain ⟨d, hd⟩ := Option.ne_none_iff_exists'.1 hsome
    have hkinds : ReadOpened p (.act t a r) ∨ WriteClosed p (.act t a r) := opened_or_closed hd
    obtain ⟨hclosed, hopen⟩ := hopen.resolve_left (not_writeObserved hkinds)
    exact hbeside (.inl (.inr ⟨hkinds.resolve_right hclosed, hopen⟩))
  rw [show (acted w t r h, w').2.index.job p = _ from exec_job hx p]
  cases hu : a.written r with
  | none => exact hnone
  | some u =>
    by_contra hrow
    obtain ⟨row, hrow⟩ := Option.ne_none_iff_exists'.1 hrow
    have hput : ∀ due m, u ≠ .upsertPendingJob p due m := by
      rintro due m rfl
      have hrec : recorded p (.act t a r) = none := by
        unfold recorded
        rw [show committed (.act t a r) = some _ from hu]
      exact hretry p due m hu (openWrite_of_cons hrec hopen)
    obtain ⟨row', hrow', -⟩ := due_of_row hsched (show committed (.act t a r) = some u from hu) hrow hput
    rw [hnone] at hrow'
    cases hrow'

/-! ## The batch -/

/-- No access was recorded since the batch was queried. -/
def NoNewDues (h : History V) : Prop := ∀ p, newDues p h = []

/-- What a batch sees when it copies or retries: no access since the query, and no open write of
the file that it copies. -/
structure CopiesClosed (h : History V) (l : Event) : Prop where
  fresh : (copiedPath l).isSome ∨ (retried l).isSome → NoNewDues h
  closed : ∀ p ∈ copiedPath l, ¬ OpenWrite p h

theorem copiesClosed_of_none (hcopied : copiedPath l = none) (hretried : retried l = none) :
    CopiesClosed h l where
  fresh hl := by
    rw [hcopied, hretried] at hl
    rcases hl with hl | hl <;> cases hl
  closed p hp := by
    rw [hcopied] at hp
    cases hp

/-- The contract of one call at a time. -/
abbrev closedContract (sv : Service V) (t : Party) : Contract calls String (History V × World V) :=
  serialContract sv sequential ClosedInTime (fun x a r _ => ∀ t, CopiesClosed x.1 (.act t a r)) t

/-- Inside a batch, with `js` left: no file that it found has an open write. -/
structure FoundClosed (js : List PendingJob) (x : History V × World V) : Prop where
  rowless : Rowless x
  fresh : NoNewDues x.1
  closed : ∀ j ∈ js, ¬ OpenWrite j.relativePath x.1

theorem rowless_tick {clock : ℤ} (hI : Rowless (h, w)) :
    Rowless ((w, .env) :: h, { w with clock }) := fun p hopen hbeside =>
  hI p (openWrite_of_cons rfl hopen) fun hb => hbeside (.inr ⟨by rintro ⟨-, ⟨⟩, -⟩, hb⟩)

theorem stable_rowless : (closedContract sv t).Stable Rowless := stable_of_tick fun _ => rowless_tick

theorem FoundClosed.tail {j : PendingJob} {js : List PendingJob} {x : History V × World V}
    (hx : FoundClosed (j :: js) x) : FoundClosed js x :=
  { hx with closed := fun k hk => hx.closed k (List.mem_cons_of_mem j hk) }

theorem stable_foundClosed {js : List PendingJob} : (closedContract sv t).Stable (FoundClosed js) :=
  stable_of_tick fun _ hI => ⟨rowless_tick hI.rowless, fun p => hI.fresh p,
    fun j hj hopen => hI.closed j hj (openWrite_of_cons rfl hopen)⟩

theorem Call.ByBatch.recorded {r : Except String a.Answer} (ha : a.ByBatch) :
    recorded p (.act t a r) = none := by
  cases a with
  | update u =>
    cases r with
    | error e => rfl
    | ok v =>
      cases u with
      | recordAccess event delay => exact ha.elim
      | _ => rfl
  | _ => rfl

theorem Call.ByBatch.batchStart {r : Except String a.Answer} (ha : a.ByBatch) :
    batchStart (.act t a r) = none := by
  cases a with
  | query k =>
    cases k with
    | dueJobs now limit => exact ha.elim
    | _ => rfl
  | _ => rfl

theorem Call.Plain.retried {r : Except String a.Answer} (ha : a.Plain) :
    retried (.act t a r) = none := by
  cases a with
  | update u =>
    cases r with
    | error e => rfl
    | ok v =>
      cases u with
      | upsertPendingJob p due m => exact ha.elim
      | _ => rfl
  | _ => rfl

/-- A call of a batch, which copies and retries only what it found. -/
theorem found_triple {js : List PendingJob} (ha : a.ByBatch)
    (hcopy : ∀ u r, ∀ p ∈ copiedPath (.act u a r), ∃ j ∈ js, p = j.relativePath)
    (hretry : ∀ r p due m, a.written r = some (.upsertPendingJob p due m) →
      ∃ j ∈ js, p = j.relativePath) :
    (closedContract sv .worker).Triple (FoundClosed js) a
      (onOk (α := a.Answer) (fun _ => FoundClosed js) Rowless) := by
  refine Contract.Triple.mono (serial_triple stable_foundClosed fun {h w r w'} hx _ hI =>
    ⟨fun u => ⟨fun _ => hI.fresh, fun p hp hopen => ?_⟩,
      show FoundClosed js (acted w .worker r h, w') from ⟨?_, fun p => ?_, fun j hj hopen => ?_⟩⟩)
    (onOk_of_forall fun _ hz => hz.rowless)
  · obtain ⟨j, hj, rfl⟩ := hcopy u r p hp
    exact hI.closed j hj hopen
  · refine rowless_step hx hI.rowless fun p due m hw => ?_
    obtain ⟨j, hj, rfl⟩ := hretry r p due m hw
    exact hI.closed j hj
  · have hsched : scheduled p (.act .worker a r) = none := by
      unfold scheduled
      rw [ha.recorded, Option.bind_none]
    simp only [newDues, ha.batchStart, hsched, hI.fresh p, Option.isSome_none, Bool.false_eq_true,
      if_false, Option.toList_none, List.nil_append]
  · exact hI.closed j hj (openWrite_of_cons ha.recorded hopen)

/-- **A batch finds no file with an open write**: its row would be beside the write, and not due. -/
theorem found_query {now : ℤ} : (closedContract sv .worker).Triple Rowless
    (.query (.dueJobs now sv.settings.dueBatchSize)) (onOk FoundClosed Rowless) :=
  serial_triple stable_rowless fun {h w r w'} hx hc hI => by
    refine ⟨fun _ => copiesClosed_of_none rfl rfl, ?_⟩
    cases r with
    | error e => exact rowless_step (a := .query (.dueJobs now _)) hx hI nofun
    | ok jobs =>
      refine ⟨rowless_step (a := .query (.dueJobs now _)) hx hI nofun, fun p => rfl,
        fun j hj hopen => ?_⟩
      have hopen : OpenWrite j.relativePath h := openWrite_of_cons rfl hopen
      obtain ⟨row, hrow, hdue, -⟩ := CacheIndex.IsDueJobs.job hx.1 hj
      by_cases hbeside : JobBeside j.relativePath h
      · exact hc now rfl (j.relativePath, row) (Sql.mem_rows.2 hrow) hbeside hdue
      · have hnone : w.index.job j.relativePath = none := hI _ hopen hbeside
        rw [hnone] at hrow
        cases hrow

/-- A batch copies no file with an open write. -/
def closedBatch (now : ℤ) : BatchOutline (closedContract sv .worker) sv now := by
  refine .perJob Rowless FoundClosed Rowless Rowless (fun hx => hx.rowless) FoundClosed.tail
    (fun _ => stable_foundClosed) stable_rowless stable_rowless found_query
    (fun {a js} ha hj => found_triple ha (fun u r p hp => ?_) fun r p due m hw => ?_)
    (fun j js s c b => ?_) fun j js m => ?_
  · have hnone : copiedPath (.act u a r) = none := Call.copiedPath_of_not_onJob hj
    cases hnone.symm.trans hp
  · exact absurd hw (ha.plain hj).written
  · exact found_triple trivial (fun _ _ p hp => ⟨j, List.mem_cons_self, (Option.some.inj hp).symm⟩)
      fun r p due m hw => by cases r <;> cases hw
  · refine found_triple trivial (fun _ _ _ hp => by cases hp) fun r p due m' hw => ?_
    cases r with
    | error e => cases hw
    | ok v =>
      cases hw
      exact ⟨j, List.mem_cons_self, rfl⟩

/-- One call at a time. -/
def closedOutline : SerialOutline sv sequential ClosedInTime where
  keep x a r _ := ∀ t, CopiesClosed x.1 (.act t a r)
  inv := Rowless
  alone hm := sequential_idle hm
  tick _ := rowless_tick
  body {t h c o} hm _ hinv := by
    have hcall : Rowless ((c.world, .call t o) :: h, c.world) := fun p hopen hbeside =>
      hinv p (openWrite_of_cons rfl hopen) fun hb => hbeside (.inr ⟨by rintro ⟨-, ⟨⟩, -⟩, hb⟩)
    rcases (sequential_cases hm).2 with ⟨event, rfl, rfl⟩ | ⟨now, rfl, rfl⟩
    · refine (recordEvent_only event).safe stable_rowless ?_ hcall
      intro y a r z ha hy hs
      obtain ⟨h, w⟩ := y
      obtain ⟨h', w'⟩ := z
      obtain ⟨hx, -, hz⟩ := hs
      cases hz
      have hplain : a.Plain := Call.ByOthers.plain (t := .events) ha
      refine ⟨fun u => ?_, ?_⟩
      · have hcopied : copiedPath (.act u a r) = none := Call.ByOthers.copiedPath (t := .events) ha
        have hretried : retried (.act u a r) = none := hplain.retried
        exact copiesClosed_of_none hcopied hretried
      · exact rowless_step hx hy fun p due m hw => absurd hw hplain.written
    · exact (closedBatch now).body_safe stable_rowless id id hcall

/-- **Where no job beside an open write comes due, no file with an open write is copied**, and no
access is recorded during a batch. -/
theorem copies_closed (hrun : Run (system sv sequential) (.idle w) h c) (hm : Meets ClosedInTime h) :
    Meets (fun h _ l => CopiesClosed h l) h :=
  closedOutline.outline.meets_of_run (fun hkeep => hkeep _) (fun _ => ⟨nofun, nofun⟩) ⟨nofun, nofun⟩
    (by rintro p ⟨⟩) hrun hm

/-! ## Runs -/

/-- A close schedules a copy. -/
theorem scheduled_of_writeClosed {e : AccessEvent × ℤ} (he : e ∈ recorded p l)
    (hk : e.1.kind = .writeClosed) : scheduled p l = some (addSeconds e.1.observedAt e.2) := by
  unfold scheduled
  rw [he, Option.bind_some, hk]
  rfl

/-- Once every access of `p` is due, a write is settled as soon as it is closed. -/
theorem openWrite_of_unsettled {now : ℤ} :
    ∀ {h : History V}, (∀ d ∈ dues p h, floorToSeconds d ≤ now) → UnsettledWrite now p h → OpenWrite p h
  | (_, _) :: _, _, .inl hw => .inl hw
  | (w, l) :: h, hdue, .inr ⟨hnot, hu⟩ => by
    refine .inr ⟨?_, openWrite_of_unsettled (fun d hd => hdue d (List.mem_append_right _ hd)) hu⟩
    rintro ⟨e, he, hk⟩
    have hmem : addSeconds e.1.observedAt e.2 ∈ dues p ((w, l) :: h) :=
      List.mem_append_left _ (by rw [scheduled_of_writeClosed he hk]; exact List.mem_singleton_self _)
    exact hnot ⟨e, he, hk, hdue _ hmem⟩

/-- **No file is copied while it is being written**, in every sequence of events and batches with
accesses in order, if every write that has a job beside it is closed before the job is due. -/
theorem never_copied_while_written (hrun : Run (system sv sequential) (.idle w) h c)
    (hordered : Meets Ordered h) (hm : Meets ClosedInTime h) : Meets NeverWhileWritten h := by
  have hclosed := copies_closed hrun hm
  have htimely : Meets (Timely False) h := by
    refine (hordered.and hclosed).mono fun {h w l} hl => ⟨hl.1, fun q hq d hd => ?_, nofun⟩
    have hnone : newDues q.1 h = [] := hl.2.fresh (.inr (Option.isSome_iff_exists.2 ⟨q, hq⟩)) q.1
    rw [hnone] at hd
    cases hd
  have hdue := copies_due (run_concurrent sequential_concurrent hrun) htimely
  refine (hdue.and hclosed).mono fun {h w l} hl p hp => ?_
  obtain ⟨now, hcut, hrange, -, hby⟩ := hl.1 p hp
  have hnone : newDues p h = [] := hl.2.fresh (.inl (Option.isSome_iff_exists.2 ⟨p, hp⟩)) p
  have hall : ∀ d ∈ dues p h, floorToSeconds d ≤ now := by
    intro d hd
    rcases hby d hd with hnew | hold
    · rw [hnone] at hnew
      cases hnew
    · exact hold.trans (floor_le hrange.1)
  exact ⟨now, hcut, fun hu => hl.2.closed p hp (openWrite_of_unsettled hall hu)⟩

/-- A file is opened at second 0 and written from second 50 on, and another one is written from
second 55 on; the batch runs at `now`. -/
def writeSchedule (closed : List (Move Party Operation ℤ)) (now : ℤ) :
    List (Move Party Operation ℤ) :=
  .call .events (.recordEvent { relativePath := [97], observedAt := 0 }) :: steps .events 3 ++
  .call .events (.recordEvent
    { relativePath := [97], kind := .writeObserved, observedAt := 500000000 }) :: steps .events 2 ++
  .call .events (.recordEvent
    { relativePath := [98], kind := .writeObserved, observedAt := 550000000 }) :: steps .events 2 ++
  closed ++ .call .worker (.runDueOnce now) :: steps .worker 2

/-- With its write closed at second 55, the first file is copied at second 115. The other one is
not: its write schedules nothing. -/
theorem copied_after_close :
    ∃ h c, Run (system (diskService {}) sequential) (.idle { volume := {}, clock := 0 }) h c ∧
      Once (fun _ _ => Copies [97]) h ∧ OpenWrite [98] h ∧ c.world.index.job [98] = none ∧
      Meets NeverWhileWritten h := by
  obtain ⟨h, c, hrun, hordered, hm, hcopy, hopen, hjob⟩ := exists_run {} sequential
    { volume := {}, clock := 0 }
    (writeSchedule (.call .events (.recordEvent
      { relativePath := [97], kind := .writeClosed, observedAt := 550000000 }) :: steps .events 3)
      1150000000)
    (fun x => Meets Ordered x.1 ∧ Meets ClosedInTime x.1 ∧ Once (fun _ _ => Copies [97]) x.1 ∧
      OpenWrite [98] x.1 ∧ x.2.world.index.job [98] = none) (by decide +kernel)
  exact ⟨h, c, hrun, hcopy, hopen, hjob, never_copied_while_written hrun hordered hm⟩

/-- **A file that was opened for reading is copied while it is being written**: the write
moves no due time. -/
theorem copied_while_written :
    ∃ h c, Run (system (diskService {}) sequential) (.idle { volume := {}, clock := 0 }) h c ∧
      Meets Ordered h ∧ ¬ Meets NeverWhileWritten h := by
  obtain ⟨h, c, hrun, hbroken⟩ := exists_run {} sequential { volume := {}, clock := 0 }
    (writeSchedule [] 600000000) (fun x => Meets Ordered x.1 ∧ ¬ Meets NeverWhileWritten x.1)
    (by decide +kernel)
  exact ⟨h, c, hrun, hbroken⟩

end SsdCache
