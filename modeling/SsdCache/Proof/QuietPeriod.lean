import SsdCache.Proof.Batch
import SsdCache.Proof.Dues
import SsdCache.Spec.Replay

/-!
# The quiet period under concurrency

A batch checks the due times once, when it is queried. An access that arrives later
is seen neither by the copy that follows nor by the retry after a failed one.

* `copies_due`: whatever the interleaving, at a copy of `p` every access of `p` recorded
  before the batch was queried is due, if no retry comes before an access.
* `quiet_period`: so is every access, if those recorded since the query are.
* `quiet_period_broken`: without that, a file is copied the moment it was accessed.
-/

namespace SsdCache

open Atomic

variable {V : Type} {sv : Service V} {w : World V} {h : History V} {c : State V} {a : Call}
variable {atClock : Prop}

/-- No retry puts a job before an access recorded since its batch was queried. -/
def RetriesLate : Condition V := fun h _ l =>
  ∀ q ∈ retried l, ∀ d ∈ newDues q.1 h, floorToSeconds d ≤ floorToSeconds q.2

instance (h : History V) (w : World V) (l : Event) : Decidable (RetriesLate h w l) :=
  inferInstanceAs (Decidable (∀ q ∈ retried l, ∀ d ∈ newDues q.1 h, _))

/-- The time a batch is called with. -/
def calledWith : Event → Option ℤ
  | .call _ (.runDueOnce nowUtc) => some nowUtc
  | _ => none

/-- Accesses are in order, retries are late, and if `atClock`, batches are not called
with a time in the future. -/
def Timely (atClock : Prop) : Condition V := fun h w l =>
  Ordered h w l ∧ RetriesLate h w l ∧ (atClock → ∀ now ∈ calledWith l, now ≤ w.clock)

instance [Decidable atClock] (h : History V) (w : World V) (l : Event) :
    Decidable (Timely atClock h w l) :=
  inferInstanceAs (Decidable (_ ∧ _ ∧ (atClock → ∀ now ∈ calledWith l, _)))

/-- When the worker copies `p`, every access of `p` recorded before the batch was queried
is due. -/
def CopiesDue (atClock : Prop) : Condition V := fun h w l =>
  ∀ p ∈ copiedPath l, ∃ now, cutoff h = some now ∧ InRange now ∧ (atClock → now ≤ w.clock) ∧
    DueBy now p h

/-! ## The worker's outline -/

/-- What the other threads do to the worker: no batch begins, rows stay late, what is
due stays due. -/
structure DueMove (x y : History V × World V) : Prop where
  clock : x.2.clock ≤ y.2.clock
  rows : RowsLate x → RowsLate y
  batch : cutoff y.1 = cutoff x.1
  due : ∀ {now p}, DueBy now p x.1 → DueBy now p y.1

/-- The worker among threads that leave what is due. -/
def dueContract (sv : Service V) (atClock : Prop) : Contract calls String (History V × World V) :=
  (system sv concurrent).contract (Timely atClock) .worker DueMove
    (fun x a r _ => CopiesDue atClock x.1 x.2 (.act .worker a r))
    (fun _ => ⟨le_rfl, id, rfl, id⟩)
    (fun h h' => ⟨h.clock.trans h'.clock, h'.rows ∘ h.rows, h'.batch.trans h.batch, h'.due ∘ h.due⟩)

/-- Inside a batch, with `js` left: all that the batch found is due. -/
structure BatchDue (atClock : Prop) (now : ℤ) (js : List PendingJob) (x : History V × World V) :
    Prop where
  rows : RowsLate x
  batch : cutoff x.1 = some now
  range : InRange now
  clock : atClock → now ≤ x.2.clock
  due : ∀ j ∈ js, DueBy now j.relativePath x.1

theorem BatchDue.tail {now : ℤ} {j : PendingJob} {js : List PendingJob} {x : History V × World V}
    (hx : BatchDue atClock now (j :: js) x) : BatchDue atClock now js x :=
  { hx with due := fun k hk => hx.due k (List.mem_cons_of_mem j hk) }

theorem stable_batchDue {now : ℤ} {js : List PendingJob} :
    (dueContract sv atClock).Stable (BatchDue atClock now js) := fun _ _ hr hx =>
  { rows := hr.rows hx.rows
    batch := hr.batch.trans hx.batch
    range := hx.range
    clock := fun ha => (hx.clock ha).trans hr.clock
    due := fun j hj => hr.due (hx.due j hj) }

/-- Calls that begin no batch and write no retry. -/
def Call.Plain : Call → Prop
  | .query (.dueJobs _ _) | .update (.upsertPendingJob _ _ _) => False
  | _ => True

theorem Call.Plain.batchStart {t : Party} {r : Except String a.Answer} (ha : a.Plain) :
    batchStart (.act t a r) = none := by
  unfold SsdCache.batchStart
  split
  · rename_i heq
    cases heq
    exact ha.elim
  · rfl

theorem Call.Plain.written {r : Except String a.Answer} (ha : a.Plain) {p : WString} {due : ℤ}
    {m : String} : a.written r ≠ some (.upsertPendingJob p due m) := by
  intro hw
  cases Call.eq_of_written hw
  exact ha

theorem Call.ByPass.plain (ha : a.ByPass) : a.Plain := by
  cases a with
  | update u =>
    cases u with
    | recordError p m => trivial
    | _ => exact ha.elim
  | query q =>
    cases q with
    | pendingJob p => trivial
    | _ => exact ha.elim
  | _ => trivial

theorem Call.ByPass.copiedPath {t : Party} (ha : a.ByPass) (r : Except String a.Answer) :
    copiedPath (.act t a r) = none := by
  cases a with
  | copyAndHash p s c m => exact ha.elim
  | _ => rfl

theorem Call.ByOthers.plain {t : Party} (ha : a.ByOthers t) : a.Plain := by
  cases a with
  | update u =>
    cases u with
    | upsertPendingJob p due m => cases t <;> exact ha
    | _ => trivial
  | query q =>
    cases q with
    | dueJobs now limit => cases t <;> exact ha
    | _ => trivial
  | _ => trivial

theorem Call.ByOthers.copiedPath {t u : Party} {r : Except String a.Answer} (ha : a.ByOthers t) :
    copiedPath (.act u a r) = none := by
  cases a with
  | copyAndHash p s c m => cases t <;> exact ha.elim
  | _ => rfl

/-- A step that begins no batch keeps what is due. -/
theorem batchDue_step {now : ℤ} {js : List PendingJob} {r : Except String a.Answer} {w' : World V}
    (hI : BatchDue atClock now js (h, w)) (hx : exec sv w a r w')
    (hb : batchStart (.act .worker a r) = none)
    (hrows : RowsLate (acted w .worker r h, w')) :
    BatchDue atClock now js (acted w .worker r h, w') where
  rows := hrows
  batch := by
    show (batchStart _).or (cutoff h) = some now
    rw [hb]
    exact hI.batch
  range := hI.range
  clock ha := by
    rw [show (acted w .worker r h, w').2.clock = w.clock from exec_clock hx]
    exact hI.clock ha
  due j hj := (hI.due j hj).cons hb

/-- The triple of a call inside a batch. -/
theorem due_triple {now : ℤ} {js : List PendingJob}
    {R : Except String a.Answer → History V × World V → Prop}
    (hb : ∀ r, batchStart (.act .worker a r) = none)
    (hretry : ∀ {h : History V} {w : World V} {r}, BatchDue atClock now js (h, w) → RetriesLate h w (.act .worker a r) →
      ∀ p due m, a.written r = some (.upsertPendingJob p due m) →
        ∀ d ∈ dues p h, floorToSeconds d ≤ floorToSeconds due)
    (hcopy : ∀ r, ∀ p ∈ copiedPath (.act .worker a r), ∃ j ∈ js, p = j.relativePath)
    (hR : ∀ r z, BatchDue atClock now js z → R r z) :
    (dueContract sv atClock).Triple (BatchDue atClock now js) a R :=
  Machine.triple rfl stable_batchDue fun {h w r w'} hx hc hI => by
    constructor
    · intro p hp
      obtain ⟨j, hj, rfl⟩ := hcopy r p hp
      exact ⟨now, hI.batch, hI.range, hI.clock, hI.due j hj⟩
    · exact hR _ _ (batchDue_step hI hx (hb r)
        (rowsLate_step hx hc.1 hI.rows (hretry hI hc.2.1)))

/-- A plain call inside a batch. -/
theorem due_plain {now : ℤ} {js : List PendingJob}
    {R : Except String a.Answer → History V × World V → Prop} (ha : a.Plain)
    (hcopy : ∀ r, ∀ p ∈ copiedPath (.act .worker a r), ∃ j ∈ js, p = j.relativePath)
    (hR : ∀ r z, BatchDue atClock now js z → R r z) :
    (dueContract sv atClock).Triple (BatchDue atClock now js) a R :=
  due_triple (fun _ => ha.batchStart) (fun _ _ _ _ _ hw => absurd hw ha.written) hcopy hR

/-- A plain call that copies nothing. -/
theorem due_other {now : ℤ} {js : List PendingJob} (ha : a.Plain)
    (hcopy : ∀ r, copiedPath (.act .worker a r) = none) :
    (dueContract sv atClock).Triple (BatchDue atClock now js) a
      (onOk (α := a.Answer) (fun _ => BatchDue atClock now js) RowsLate) := by
  refine due_plain ha (fun r p hp => ?_) (onOk_of_forall fun _ hz => hz.rows)
  rw [hcopy r] at hp
  cases hp

theorem Call.ByBatch.plain (ha : a.ByBatch) (hj : ¬ a.OnJob) : a.Plain := by
  cases a with
  | update u =>
    cases u with
    | upsertPendingJob p due m => exact absurd trivial hj
    | _ => trivial
  | query k =>
    cases k with
    | dueJobs now limit => exact ha.elim
    | _ => trivial
  | _ => trivial

theorem Call.copiedPath_of_not_onJob {t : Party} {r : Except String a.Answer} (hj : ¬ a.OnJob) :
    copiedPath (.act t a r) = none := by
  cases a with
  | copyAndHash p s c b => exact absurd trivial hj
  | _ => rfl

/-- The query of a batch answers what is due. -/
theorem due_query {now : ℤ} : (dueContract sv atClock).Triple
    (fun x => RowsLate x ∧ (atClock → now ≤ x.2.clock))
    (.query (.dueJobs now sv.settings.dueBatchSize)) (onOk (BatchDue atClock now) RowsLate) :=
  Machine.triple rfl (fun _ _ hr hx => ⟨hr.rows hx.1, fun ha => (hx.2 ha).trans hr.clock⟩)
    fun {h w r w'} hx hc hI => by
      have hx : exec sv w (.query (.dueJobs now sv.settings.dueBatchSize)) r w' := hx
      have hclock : w'.clock = w.clock := exec_clock hx
      have hrows := rowsLate_step hx hc.1 hI.1 fun p due m hw => by cases r <;> cases hw
      refine ⟨nofun, ?_⟩
      cases r with
      | error e => exact hrows
      | ok jobs =>
        have hnow : InRange now := hc.1.2.1 now rfl
        exact
          { rows := hrows
            batch := rfl
            range := hnow
            clock := fun ha => (hI.2 ha).trans hclock.ge
            due := fun j hj => dueBy_of_query hI.1 hnow hx.1 hj rfl }

/-- A batch copies what is due. -/
def dueBatch (now : ℤ) : BatchOutline (dueContract sv atClock) sv now := by
  refine .perJob (fun x => RowsLate x ∧ (atClock → now ≤ x.2.clock)) (BatchDue atClock now) RowsLate
    RowsLate BatchDue.rows BatchDue.tail (fun _ => stable_batchDue) (fun _ _ hr => hr.rows)
    (fun _ _ hr => hr.rows) due_query (fun ha hj => ?_) (fun j js s c b => ?_) fun j js m => ?_
  · exact due_other (ha.plain hj) fun _ => Call.copiedPath_of_not_onJob hj
  · exact due_plain trivial (fun _ p hp => ⟨j, List.mem_cons_self, (Option.some.inj hp).symm⟩)
      (onOk_of_forall fun _ hz => hz.rows)
  · refine due_triple (fun r => by cases r <;> rfl) (fun {h w r} hI hc p due m' hw d hd => ?_)
      (fun _ _ hp => by cases hp) (onOk_of_forall fun _ hz => hz.rows)
    -- accesses before the query are due before the batch, later ones before the retry
    cases r with
    | error e => cases hw
    | ok _ =>
      cases hw
      rcases hI.due j List.mem_cons_self d hd with hnew | hold
      · exact hc _ rfl d hnew
      · exact hold.trans (floorToSeconds_mono hI.range.1 (le_retryDue hI.range j))

/-- A call of the worker outside a batch. -/
theorem idle_triple {R : Except String a.Answer → History V × World V → Prop} (ha : a.Plain)
    (hcopy : ∀ r, copiedPath (.act .worker a r) = none)
    (hR : ∀ {h w r w'}, exec sv w a r w' → RowsLate (acted w .worker r h, w') →
      R r (acted w .worker r h, w')) :
    (dueContract sv atClock).Triple RowsLate a R :=
  Machine.triple rfl (fun _ _ hr => hr.rows) fun {h w r w'} hx hc hI => by
    refine ⟨fun p hp => ?_, hR hx (rowsLate_step hx hc.1 hI fun _ _ _ hw => absurd hw ha.written)⟩
    rw [hcopy r] at hp
    cases hp

/-- A pass of the worker loop reads the clock before its batch. -/
def dueWorker : WorkerOutline (dueContract sv atClock) sv :=
  .constant RowsLate (fun _ _ hr => hr.rows) dueBatch
    (fun ha => idle_triple ha.plain ha.copiedPath fun _ => id)
    (idle_triple trivial (fun _ => rfl) fun {_ w r w'} hx hz => by
      cases r with
      | error e => exact hz
      | ok t =>
        have hclock : w'.clock = w.clock := exec_clock hx
        obtain ⟨-, ht, -⟩ := exec_memoryCall hx
        exact ⟨hz, fun _ => by rw [show t = w.clock from ht]; exact hclock.ge⟩)
    id id

/-- A step that is no write and begins no batch is a move that leaves what is due. -/
theorem dueMove_frame {l : Event} {w' : World V} (hclock : w.clock ≤ w'.clock)
    (hb : batchStart l = none) (hrows : RowsLate (h, w) → RowsLate ((w, l) :: h, w')) :
    DueMove (h, w) ((w, l) :: h, w') where
  clock := hclock
  rows := hrows
  batch := by
    show (batchStart l).or (cutoff h) = cutoff h
    rw [hb]
    rfl
  due hd := hd.cons hb

/-- The worker against the other threads. -/
def dueSolo : Solo (system sv concurrent) (Timely atClock) .worker where
  quiet := DueMove
  keep x a r _ := CopiesDue atClock x.1 x.2 (.act .worker a r)
  refl _ := ⟨le_rfl, id, rfl, id⟩
  trans h h' :=
    ⟨h.clock.trans h'.clock, h'.rows ∘ h.rows, h'.batch.trans h.batch, h'.due ∘ h.due⟩
  inv := RowsLate
  stable hr := hr.rows
  call _ := dueMove_frame le_rfl rfl fun hI => ⟨hI.range, hI.late⟩
  env he _ := by
    obtain ⟨clock, hle, rfl⟩ := he
    exact dueMove_frame hle rfl rowsLate_tick
  allowed := Call.ByOthers
  others := concurrent_others
  quiet_others {t x a r y} ht ha hs := by
    obtain ⟨h, w⟩ := x
    obtain ⟨h', w'⟩ := y
    obtain ⟨hx, hc, hz⟩ := hs
    cases hz
    have hplain : a.Plain := ha.plain
    exact dueMove_frame (exec_clock hx).ge hplain.batchStart fun hI =>
      rowsLate_step hx hc.1 hI fun _ _ _ hw => absurd hw hplain.written
  body {h c o} hm hc hinv := by
    have hcall : RowsLate ((c.world, .call .worker o) :: h, c.world) := ⟨hinv.range, hinv.late⟩
    rcases concurrent_cases hm with ⟨_, ht, -⟩ | ⟨now, -, rfl⟩ | ⟨-, rfl⟩ | ⟨ht, -⟩
    · cases ht
    · exact (dueBatch now).body_safe (fun _ _ hr => hr.rows) id id
        ⟨hcall, fun ha => hc.2.2 ha now rfl⟩
    · exact dueWorker.safe hcall
    · cases ht

/-- **At every copy of `p`, each access of `p` recorded before the batch was queried is
due**, in every run whose retries come after the accesses recorded since the query. -/
theorem copies_due (hrun : Run (system sv concurrent) (.idle w) h c)
    (hm : Meets (Timely atClock) h) : Meets (CopiesDue atClock) h := by
  have h0 : RowsLate (([] : History V), w) := ⟨(by rintro _ _ ⟨⟩), by rintro _ _ _ - ⟨⟩⟩
  refine dueSolo.meets_of_run id ?_ nofun nofun h0 hrun hm
  intro t h w a r _ ha p hp
  have hnone : copiedPath (.act t a r) = none := Call.ByOthers.copiedPath ha
  rw [hp] at hnone
  cases hnone

/-! ## The quiet period -/

/-- When the worker copies `p`, every access of `p` recorded before is due. -/
def QuietPeriod : Condition V := fun h w l =>
  ∀ p ∈ copiedPath l, ∀ d ∈ dues p h, floorToSeconds d ≤ w.clock

instance (h : History V) (w : World V) (l : Event) : Decidable (QuietPeriod h w l) :=
  inferInstanceAs (Decidable (∀ p ∈ copiedPath l, ∀ d ∈ dues p h, _))

/-- When the worker copies `p`, every access of `p` recorded since the batch was queried
is due. -/
def NewAccessesDue : Condition V := fun h w l =>
  ∀ p ∈ copiedPath l, ∀ d ∈ newDues p h, floorToSeconds d ≤ w.clock

instance (h : History V) (w : World V) (l : Event) : Decidable (NewAccessesDue h w l) :=
  inferInstanceAs (Decidable (∀ p ∈ copiedPath l, ∀ d ∈ newDues p h, _))

/-- The conditions of the quiet period. -/
def Prompt : Condition V := fun h w l => Timely True h w l ∧ NewAccessesDue h w l

instance (h : History V) (w : World V) (l : Event) : Decidable (Prompt h w l) :=
  inferInstanceAs (Decidable (_ ∧ _))

/-- **The quiet period holds** in every run whose copies and retries come after the
accesses recorded since the batch was queried. -/
theorem quiet_period (hrun : Run (system sv concurrent) (.idle w) h c) (hm : Meets Prompt h) :
    Meets QuietPeriod h := by
  have hdue : Meets (CopiesDue True) h := copies_due hrun (hm.mono fun hp => hp.1)
  refine (hm.and hdue).mono fun {h w l} hl p hp d hd => ?_
  obtain ⟨hprompt, hdue⟩ := hl
  obtain ⟨now, -, hrange, hclock, hby⟩ := hdue p hp
  rcases hby d hd with hnew | hold
  · exact hprompt.2 p hp d hnew
  · exact (hold.trans (floor_le hrange.1)).trans (hclock trivial)

/-- A file is accessed at second 0, and its copy runs at second 60; `late` happens between
the query of the batch and the copy. -/
def quietSchedule (late : List (Move Party Operation ℤ)) : List (Move Party Operation ℤ) :=
  .call .events (.recordEvent { relativePath := [97], observedAt := 0 }) :: steps .events 3 ++
  [.env 600000000, .call .worker (.runDueOnce 600000000), .act .worker] ++ late ++ steps .worker 1

/-- The file is accessed after the query, and that access is due as well when the worker comes
to the copy. -/
theorem quiet_period_undisturbed :
    ∃ h c, Run (system (diskService {}) concurrent) (.idle { volume := {}, clock := 0 }) h c ∧
      Once (fun h _ l => Copies [97] l ∧ newDues [97] h = [1200000000]) h ∧ Meets QuietPeriod h := by
  obtain ⟨h, c, hrun, hm, hcopy⟩ := exists_run {} concurrent { volume := {}, clock := 0 }
    (quietSchedule (.call .events (.recordEvent { relativePath := [97], observedAt := 600000000 }) ::
      steps .events 3 ++ [.env 1200000000]))
    (fun x => Meets Prompt x.1 ∧ Once (fun h _ l => Copies [97] l ∧ newDues [97] h = [1200000000]) x.1)
    (by decide +kernel)
  exact ⟨h, c, hrun, hcopy, quiet_period hrun hm⟩

/-- **An access between the query of the batch and the copy is copied at once**: the due
time of the row is not looked at again. -/
theorem quiet_period_broken :
    ∃ h c, Run (system (diskService {}) concurrent) (.idle { volume := {}, clock := 0 }) h c ∧
      Meets (Timely True) h ∧ ¬ Meets QuietPeriod h := by
  obtain ⟨h, c, hrun, hbroken⟩ := exists_run {} concurrent { volume := {}, clock := 0 }
    (quietSchedule (.call .events (.recordEvent { relativePath := [97], observedAt := 600000000 }) ::
      steps .events 3))
    (fun x => Meets (Timely True) x.1 ∧ ¬ Meets QuietPeriod x.1) (by decide +kernel)
  exact ⟨h, c, hrun, hbroken⟩

end SsdCache
