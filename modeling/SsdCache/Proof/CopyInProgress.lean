import SsdCache.Proof.Owed
import SsdCache.Proof.QuietPeriod

/-!
# Accesses during a copy

An access of `p` that is recorded after the batch began to copy `p` is *late*
(`LateAccess`): it may be about a newer version of the file, so its job has to
outlive the batch. The worker books by path what the engine did: after a copy that left
the file in the cache, and after a removal of a cache file, stale or evicted, it deletes
the row of the path, whatever was recorded meanwhile (`Booking`).

* `bookings_handled`: in a run in which late accesses and bookings of a path keep apart, no
  branch of a batch deletes a row that a late access wrote.
* `late_access_kept`: there every late access keeps its row.
* `late_access_lost`: a run of the service in which an access comes between the copy and its
  booking, and is lost.
-/

namespace SsdCache

open Atomic

variable {V : Type} {sv : Service V} {menu : Menu V} {w w' : World V} {h : History V}
variable {c c' : State V} {a : Call} {p : WString} {l : Event} {t : Party}

/-- The current batch has begun to copy `p`. -/
def CopyBegun (p : WString) (h : History V) : Prop :=
  Since (fun _ _ l => Copies p l) (fun _ _ l => (batchStart l).isSome = true) h

instance (p : WString) (h : History V) : Decidable (CopyBegun p h) :=
  inferInstanceAs (Decidable (Since _ _ h))

/-- An access of `p` was recorded after the batch began to copy `p`, with no `Delete`
event of `p` after it. -/
def LateAccess (p : WString) (h : History V) : Prop :=
  Since (fun h _ l => Accesses p l ∧ CopyBegun p h)
    (fun _ _ l => Deletes p l ∨ (batchStart l).isSome = true) h

instance (p : WString) (h : History V) : Decidable (LateAccess p h) :=
  inferInstanceAs (Decidable (Since _ _ h))

/-- Every late access has a row in `pending_jobs`. -/
def LateAccessesKept (h : History V) (c : State V) : Prop :=
  ∀ p, LateAccess p h → p ∈ c.world.index.pendingJobs

/-! ## When it is -/

/-- A call of the worker threw, which ends its batch. -/
def BatchThrows : Event → Prop
  | .act .worker _ (.error _) => True
  | _ => False

instance (l : Event) : Decidable (BatchThrows l) :=
  match l with
  | .act .worker _ (.error _) => .isTrue trivial
  | .act .worker _ (.ok _) | .act .events _ _ | .act .control _ _ | .act .freeProcess _ _
  | .call _ _ | .env => .isFalse id

/-- The file of `p` was copied, or its cache file removed, and the call that books it by
deleting the row of `p` is still to come. -/
def Booking (p : WString) (h : History V) : Prop :=
  Since (fun _ _ l => Caches p l ∨ Removes p l) (fun _ _ l => dropped l = some p ∨ BatchThrows l) h

instance (p : WString) (h : History V) : Decidable (Booking p h) :=
  inferInstanceAs (Decidable (Since _ _ h))

/-- The path whose cache file a step removed. -/
def removedPath : Event → Option WString
  | .act _ (.removeCachedFile p _) _ => some p
  | _ => none

/-- Late accesses of a path do not come while the path is being booked, and its cache file
is not removed after one. -/
structure BooksApart (h : History V) (_ : World V) (l : Event) : Prop where
  access : ∀ p ∈ eventPath l, Accesses p l → CopyBegun p h → ¬ Booking p h
  removal : ∀ p ∈ removedPath l, Removes p l → ¬ LateAccess p h

instance (h : History V) (w : World V) (l : Event) : Decidable (BooksApart h w l) :=
  decidable_of_iff ((∀ p ∈ eventPath l, Accesses p l → CopyBegun p h → ¬ Booking p h) ∧
    ∀ p ∈ removedPath l, Removes p l → ¬ LateAccess p h)
    ⟨fun ⟨ha, hr⟩ => ⟨ha, hr⟩, fun hl => ⟨hl.access, hl.removal⟩⟩

/-! ## One step -/

theorem eventPath_of_accesses (ha : Accesses p l) : p ∈ eventPath l := by
  obtain ⟨d, hd⟩ := Option.isSome_iff_exists.1 ha
  exact eventPath_of_scheduled hd

/-- The record of an access begins no batch. -/
theorem batchStart_of_accesses (ha : Accesses p l) : batchStart l = none := by
  obtain ⟨u, hu, -⟩ := job_of_accesses ha
  unfold batchStart
  split
  · cases hu
  · rfl

/-- A late access comes after its copy has begun. -/
theorem LateAccess.begun : ∀ {h : History V}, LateAccess p h → CopyBegun p h
  | _ :: _, .inl ⟨haccess, hbegun⟩ =>
    .inr ⟨by simp [batchStart_of_accesses haccess], hbegun⟩
  | _ :: _, .inr ⟨hnot, hlate⟩ => .inr ⟨fun hbatch => hnot (.inr hbatch), LateAccess.begun hlate⟩

theorem copyBegun_of_cons (hcopy : ¬ Copies p l) (hbegun : CopyBegun p ((w, l) :: h)) :
    CopyBegun p h := (hbegun.resolve_left hcopy).2

theorem not_late_cons (haccess : Accesses p l → ¬ CopyBegun p h) (hlate : ¬ LateAccess p h) :
    ¬ LateAccess p ((w, l) :: h) := by
  rintro (⟨ha, hbegun⟩ | ⟨-, hbefore⟩)
  · exact haccess ha hbegun
  · exact hlate hbefore

theorem booking_cons (hdrop : dropped l ≠ some p) (hthrow : ¬ BatchThrows l) (hb : Booking p h) :
    Booking p ((w, l) :: h) := .inr ⟨fun hend => hend.elim hdrop hthrow, hb⟩

/-! ## The worker's outline -/

/-- What the other threads leave as it is: what the batch has begun to copy, and that there
is no late access of what is being booked. -/
structure BookingKept (x y : History V × World V) : Prop where
  begun : ∀ p, CopyBegun p y.1 → CopyBegun p x.1
  booked : ∀ p, Booking p x.1 → ¬ LateAccess p x.1 → Booking p y.1 ∧ ¬ LateAccess p y.1

/-- A job row is dropped only while no late access of its path is pending. -/
def DropsHandled (h : History V) (_ : World V) (l : Event) : Prop :=
  ∀ p ∈ dropped l, ¬ LateAccess p h

/-- The worker among threads that leave its bookings alone. -/
def bookContract (sv : Service V) : Contract calls String (History V × World V) :=
  (system sv concurrent).contract BooksApart .worker BookingKept
    (fun x a r _ => DropsHandled x.1 x.2 (.act .worker a r))
    (fun _ => ⟨fun _ => id, fun _ => And.intro⟩)
    (fun hxy hyz => ⟨fun p hp => hxy.begun p (hyz.begun p hp),
      fun p hb hl => (hxy.booked p hb hl).elim (hyz.booked p)⟩)

/-- The jobs that are left of the batch: no file twice, and none of them copied yet. -/
structure Ahead (js : List PendingJob) (x : History V × World V) : Prop where
  nodup : (js.map (·.relativePath)).Nodup
  fresh : ∀ j ∈ js, ¬ CopyBegun j.relativePath x.1

/-- What was done to `p` is to be booked, and no late access of `p` is pending. -/
structure ToBook (p : WString) (js : List PendingJob) (x : History V × World V) : Prop where
  ahead : Ahead js x
  booking : Booking p x.1
  handled : ¬ LateAccess p x.1

theorem Ahead.tail {j : PendingJob} {js : List PendingJob} {x : History V × World V}
    (hx : Ahead (j :: js) x) : Ahead js x where
  nodup := (List.nodup_cons.1 hx.nodup).2
  fresh k hk := hx.fresh k (List.mem_cons_of_mem j hk)

/-- A step that copies none of them leaves the jobs ahead. -/
theorem Ahead.cons {js : List PendingJob} (hx : Ahead js (h, w))
    (hcopy : ∀ j ∈ js, ¬ Copies j.relativePath l) : Ahead js ((w, l) :: h, w') where
  nodup := hx.nodup
  fresh j hj hbegun := hx.fresh j hj (copyBegun_of_cons (hcopy j hj) hbegun)

theorem stable_ahead {js : List PendingJob} : (bookContract sv).Stable (Ahead js) :=
  fun _ _ hr hx => ⟨hx.nodup, fun j hj hbegun => hx.fresh j hj (hr.begun _ hbegun)⟩

theorem stable_toBook {js : List PendingJob} : (bookContract sv).Stable (ToBook p js) := by
  intro x y hr hx
  obtain ⟨hbooking, hhandled⟩ := hr.booked p hx.booking hx.handled
  exact ⟨stable_ahead hr hx.ahead, hbooking, hhandled⟩

/-- A call of the worker. -/
theorem book_triple {P : History V × World V → Prop}
    {R : Except String a.Answer → History V × World V → Prop} (hP : (bookContract sv).Stable P)
    (hcall : ∀ {h : History V} {w r w'}, exec sv w a r w' → BooksApart h w (.act .worker a r) →
      P (h, w) → DropsHandled h w (.act .worker a r) ∧ R r (acted w .worker r h, w')) :
    (bookContract sv).Triple P a R := Machine.triple rfl hP hcall

/-- The calls that neither record an access nor copy, and drop no row. -/
def Call.Books : Call → Prop
  | .query (.dueJobs _ _) | .copyAndHash _ _ _ _ => False
  | .update (.removePendingJob _) | .update (.deleteRecord _) | .update (.markRemoved _) => False
  | .update (.recordAccess _ _) => False
  | _ => True

theorem Call.Books.copiedPath {r : Except String a.Answer} (ha : a.Books) :
    copiedPath (.act t a r) = none := by
  cases a with
  | copyAndHash p s k b => exact ha.elim
  | _ => rfl

theorem Call.Books.not_copies {r : Except String a.Answer} (ha : a.Books) :
    ¬ Copies p (.act t a r) := by
  rw [copies_iff, ha.copiedPath]
  exact nofun

theorem Call.Books.dropped {r : Except String a.Answer} (ha : a.Books) :
    dropped (.act t a r) = none := by
  cases a with
  | update u =>
    cases u with
    | removePendingJob q => exact ha.elim
    | deleteRecord q => exact ha.elim
    | markRemoved q => exact ha.elim
    | _ => cases r <;> rfl
  | _ => rfl

theorem Call.Books.not_accesses {r : Except String a.Answer} (ha : a.Books) :
    ¬ Accesses p (.act t a r) := by
  have hnone : scheduled p (.act t a r) = none :=
    Call.scheduled_of_no_access fun event d heq => by
      subst heq
      exact ha
  unfold Accesses
  rw [hnone]
  exact Bool.false_ne_true

theorem Call.Books.handled {r : Except String a.Answer} (ha : a.Books) :
    DropsHandled h w (.act t a r) := by
  intro p hp
  rw [ha.dropped] at hp
  cases hp

/-- A call that leaves the jobs ahead. -/
theorem ahead_books {js : List PendingJob} (ha : a.Books) :
    (bookContract sv).Triple (Ahead js) a (onOk (α := a.Answer) (fun _ => Ahead js) (fun _ => True)) :=
  book_triple stable_ahead fun {h w r w'} _ _ hx => by
    refine ⟨ha.handled, ?_⟩
    cases r with
    | error e => trivial
    | ok v => exact hx.cons fun j _ => ha.not_copies

/-- A call on the way to a booking. -/
theorem toBook_books {js : List PendingJob} (ha : a.Books) :
    (bookContract sv).Triple (ToBook p js) a
      (onOk (α := a.Answer) (fun _ => ToBook p js) (fun _ => True)) :=
  book_triple stable_toBook fun {h w r w'} _ _ hx => by
    refine ⟨ha.handled, ?_⟩
    cases r with
    | error e => trivial
    | ok v =>
      have hnone : dropped (.act .worker a (.ok v)) = none := ha.dropped
      have hdrop : dropped (.act .worker a (.ok v)) ≠ some p := hnone ▸ nofun
      exact ⟨hx.ahead.cons fun j _ => ha.not_copies, booking_cons hdrop nofun hx.booking,
        not_late_cons (fun haccess => absurd haccess ha.not_accesses) hx.handled⟩

/-- A removal of a cache file without error is to be booked; no late access was pending. -/
theorem ahead_remove {js : List PendingJob} {v cache : WString} :
    (bookContract sv).Triple (Ahead js) (.removeCachedFile v cache)
      (onOk (fun (r : RemoveResult) x => if r.Clean then ToBook v js x else Ahead js x)
        (fun _ => True)) :=
  book_triple stable_ahead fun {h w r w'} _ hc hx => by
    refine ⟨nofun, ?_⟩
    cases r with
    | error e => trivial
    | ok r =>
      have hahead : Ahead js (acted w .worker (.ok r) h, w') := hx.cons fun _ _ => nofun
      dsimp only [onOk]
      split
      · rename_i hclean
        have hremoves : Removes v (.act .worker (.removeCachedFile v cache) (.ok r)) :=
          removes_act.2 ⟨rfl, hclean⟩
        exact ⟨hahead, .inl (.inr hremoves), not_late_cons nofun (hc.removal v rfl hremoves)⟩
      · exact hahead

/-- The call that books deletes the row, which no late access wrote. -/
theorem toBook_drops {js : List PendingJob} {u : Update}
    (hu : ∀ q ∈ dropped (.act .worker (.update u) (.ok ())), q = p) :
    (bookContract sv).Triple (ToBook p js) (.update u)
      (onOk (α := Unit) (fun _ => Ahead js) (fun _ => True)) :=
  book_triple stable_toBook fun {h w r w'} _ _ hx => by
    cases r with
    | error e => exact ⟨nofun, trivial⟩
    | ok v =>
      refine ⟨fun q hq => ?_, hx.ahead.cons fun _ _ => nofun⟩
      obtain rfl := hu q hq
      exact hx.handled

/-- **A batch drops no row that a late access wrote**, in every branch. -/
def bookBatch (now : ℤ) : BatchOutline (bookContract sv) sv now where
  start _ := True
  loop js := Ahead js
  removed v js := ToBook v js
  missing _ js := Ahead js
  failed _ js := Ahead js
  erred _ js := Ahead js
  retried _ js := Ahead js
  cached j js := ToBook j.relativePath js
  marked j js := ToBook j.relativePath js
  post _ := True
  thrown _ := True
  -- the query answers no path twice, and nothing of the batch is copied yet
  due := book_triple (fun _ _ _ => id) fun {h w r w'} hx _ _ => by
    refine ⟨fun p hp => (by cases r <;> cases hp), ?_⟩
    cases r with
    | error e => trivial
    | ok jobs =>
      obtain ⟨hjobs, -⟩ := hx
      exact ⟨CacheIndex.IsDueJobs.nodup hjobs,
        fun j _ hbegun => hbegun.elim nofun fun hnot => hnot.1 rfl⟩
  record _ _ := ahead_books trivial
  victims _ := ahead_books trivial
  free _ := ahead_books trivial
  evict _ _ _ _ := ahead_remove
  mark v js := toBook_drops fun q hq => (Option.some.inj hq).symm
  copy j js := book_triple stable_ahead fun {h w r w'} _ _ hx => by
    refine ⟨fun p hp => (by cases r <;> cases hp), ?_⟩
    cases r with
    | error e => trivial
    | ok r =>
      have hahead : Ahead js (acted w .worker (.ok r) h, w') := hx.tail.cons fun k hk hcopy => by
        -- another job of the batch is of another file
        rw [copies_iff] at hcopy
        have hsame : j.relativePath = k.relativePath := Option.some.inj hcopy
        have hnodup : j.relativePath ∉ js.map (·.relativePath) := (List.nodup_cons.1 hx.nodup).1
        rw [hsame] at hnodup
        exact hnodup (List.mem_map_of_mem hk)
      have hlate : ¬ LateAccess j.relativePath (acted w .worker (.ok r) h) :=
        not_late_cons nofun fun hlate => hx.fresh j List.mem_cons_self hlate.begun
      have hbook (hcached : r.action.Cached) :
          ToBook j.relativePath js (acted w .worker (.ok r) h, w') :=
        ⟨hahead, .inl (.inl (caches_act.2 ⟨rfl, hcached⟩)), hlate⟩
      dsimp only [onOk]
      cases hr : CopyResult.action r
      case cancelled => trivial
      case sourceMissing => exact hahead
      case failed => exact hahead
      all_goals exact hbook (by rw [hr]; trivial)
  remove _ _ := ahead_remove
  error _ _ _ := ahead_books trivial
  retry _ _ _ := ahead_books trivial
  push _ _ := ahead_books trivial
  cache _ _ _ _ _ _ := toBook_books trivial
  drop j js := toBook_drops fun q hq => (Option.some.inj hq).symm
  done _ := trivial
  stable_loop _ := stable_ahead
  stable_post _ _ _ := id
  stable_thrown _ _ _ := id

theorem Call.ByPass.dropped (ha : a.ByPass) (r : Except String a.Answer) :
    dropped (.act t a r) = none := by
  cases a with
  | update u =>
    cases u with
    | recordError p m => cases r <;> rfl
    | _ => exact ha.elim
  | _ => rfl

/-- Outside its batch a pass drops nothing. -/
def bookWorker : WorkerOutline (bookContract sv) sv :=
  .constant (fun _ => True) (fun _ _ _ => id) bookBatch
    (fun ha => book_triple (fun _ _ _ => id) fun {h w r w'} _ _ _ => by
      refine ⟨fun p hp => ?_, trivial⟩
      rw [ha.dropped r] at hp
      cases hp)
    (book_triple (fun _ _ _ => id) fun {h w r w'} _ _ _ => by
      refine ⟨nofun, ?_⟩
      cases r <;> trivial)
    (fun _ => trivial) fun _ => trivial

/-! ## Runs -/

/-- The other threads leave the bookings alone. -/
theorem bookingKept_others {r : Except String a.Answer} (ht : t ≠ .worker) (ha : a.ByOthers t)
    (hc : BooksApart h w (.act t a r)) : BookingKept (h, w) (acted w t r h, w') where
  begun p hbegun := copyBegun_of_cons (by
    rw [copies_iff, Call.ByOthers.copiedPath ha]
    exact nofun) hbegun
  booked p hb hlate := by
    have hdrop : dropped (.act t a r) ≠ some p := by
      rw [Call.ByOthers.dropped ht ha]
      exact nofun
    have hthrow : ¬ BatchThrows (.act t a r) := by
      cases t with
      | worker => exact absurd rfl ht
      | _ => exact id
    exact ⟨booking_cons hdrop hthrow hb, not_late_cons
      (fun haccess hbegun => hc.access p (eventPath_of_accesses haccess) haccess hbegun hb) hlate⟩

/-- The worker against the other threads. -/
def bookSolo : Solo (system sv concurrent) BooksApart .worker where
  quiet := BookingKept
  keep x a r _ := DropsHandled x.1 x.2 (.act .worker a r)
  refl _ := ⟨fun _ => id, fun _ => And.intro⟩
  trans hxy hyz := ⟨fun p hp => hxy.begun p (hyz.begun p hp),
    fun p hb hl => (hxy.booked p hb hl).elim (hyz.booked p)⟩
  inv _ := True
  stable _ := id
  call _ := ⟨fun _ => copyBegun_of_cons nofun,
    fun _ hb hl => ⟨booking_cons nofun id hb, not_late_cons nofun hl⟩⟩
  env _ _ := ⟨fun _ => copyBegun_of_cons nofun,
    fun _ hb hl => ⟨booking_cons nofun id hb, not_late_cons nofun hl⟩⟩
  allowed := Call.ByOthers
  others := concurrent_others
  quiet_others {t x a r y} ht ha hs := by
    obtain ⟨h, w⟩ := x
    obtain ⟨h', w'⟩ := y
    obtain ⟨-, hc, hz⟩ := hs
    cases hz
    exact bookingKept_others ht ha hc
  body {h c o} hm _ _ := by
    rcases concurrent_cases hm with ⟨_, ht, -⟩ | ⟨now, -, rfl⟩ | ⟨-, rfl⟩ | ⟨ht, -⟩
    · cases ht
    · exact (bookBatch now).body_safe (fun _ _ _ => id) (fun _ => trivial) (fun _ => trivial) trivial
    · exact bookWorker.safe trivial
    · cases ht

/-- **No branch of a batch deletes the row of a late access**, in every run in which late
accesses and bookings keep apart. -/
theorem bookings_handled (hrun : Run (system sv concurrent) (.idle w) h c)
    (hm : Meets BooksApart h) : Meets DropsHandled h := by
  refine bookSolo.meets_of_run id ?_ nofun nofun trivial hrun hm
  intro t h w a r ht ha p hp
  have hnone : dropped (.act t a r) = none := Call.ByOthers.dropped ht ha
  rw [hp] at hnone
  cases hnone

/-- **One step keeps the rows of late accesses.** -/
theorem late_access_step (hI : LateAccessesKept h c) (hc : DropsHandled h c.world l)
    (hs : Step (system sv menu) c l c') : LateAccessesKept ((c.world, l) :: h) c' := by
  intro p hlate
  have hbefore : LateAccess p h → c.world.index.job p ≠ none := fun hp =>
    CacheIndex.mem_pendingJobs.1 (hI p hp)
  exact CacheIndex.mem_pendingJobs.2
    (owed_step (fun ha => ha.1) .inl (fun hd => .inl (hc p hd)) hbefore (step_job hs p) hlate)

/-- **No access is lost to a copy in progress**, in every run in which no late access comes
between what the worker does to its file and the call that books it. -/
theorem late_access_kept (hrun : Run (system sv concurrent) (.idle w) h c)
    (hm : Meets BooksApart h) : LateAccessesKept h c :=
  hrun.invariant (fun _ hp => absurd hp not_since_nil) late_access_step (bookings_handled hrun hm)

/-! ## A run that loses one -/

/-- An index with one job, due at second 60. -/
def oneJobIndex (p : WString) : CacheIndex :=
  ({} : CacheIndex).recordAccess { relativePath := p, observedAt := 0 } 60

/-- An index with jobs of two files, due at second 60. -/
def twoJobIndex : CacheIndex :=
  (oneJobIndex [97]).recordAccess { relativePath := [98], observedAt := 0 } 60

/-- An access of `p`, recorded at `now`. -/
def accessNow (p : WString) (now : ℤ) : List (Move Party Operation ℤ) :=
  .call .events (.recordEvent { relativePath := p, observedAt := now }) :: steps .events 3

/-- The worker copies the first job's file, and an access of `p` is recorded before the
bookkeeping. -/
def lateSchedule (p : WString) (now : ℤ) (tail : List (Move Party Operation ℤ)) :
    List (Move Party Operation ℤ) :=
  .call .worker (.runDueOnce now) :: steps .worker 2 ++ accessNow p now ++ tail

/-- The first file is accessed when its copy is booked, and the second one when its copy has
failed: both rows outlive the batch. -/
theorem late_access_kept_after_booking :
    ∃ h c, Run (system (diskService {}) concurrent)
        (.idle { index := twoJobIndex, volume := { script := [.copied, .failed] },
                 clock := 600000000 }) h c ∧
      (∀ t, (c.prog t).Done) ∧ LateAccess [97] h ∧ LateAccess [98] h ∧ LateAccessesKept h c := by
  obtain ⟨h, c, hrun, hm, hidle, hfirst, hsecond⟩ := exists_run {} concurrent
    { index := twoJobIndex, volume := { script := [.copied, .failed] }, clock := 600000000 }
    (.call .worker (.runDueOnce 600000000) :: steps .worker 4 ++ accessNow [98] 600000000 ++
      steps .worker 1 ++ accessNow [97] 600000000 ++ steps .worker 3)
    (fun x => Meets BooksApart x.1 ∧ allIdle x.2 = true ∧ LateAccess [97] x.1 ∧ LateAccess [98] x.1)
    (by decide +kernel)
  exact ⟨h, c, hrun, allIdle_iff.1 hidle, hfirst, hsecond, late_access_kept hrun hm⟩

/-- **An access recorded between the copy and the bookkeeping is lost**: the row it
wrote is deleted with the one that was copied. -/
theorem late_access_lost :
    ∃ h c, Run (system (diskService {}) concurrent)
        (.idle { index := oneJobIndex [97], volume := {}, clock := 600000000 }) h c ∧
      (∀ t, (c.prog t).Done) ∧ ¬ LateAccessesKept h c := by
  obtain ⟨h, c, hrun, hidle, hlate, hrow⟩ := exists_run {} concurrent
    { index := oneJobIndex [97], volume := {}, clock := 600000000 }
    (lateSchedule [97] 600000000 (steps .worker 2))
    (fun x => allIdle x.2 = true ∧ LateAccess [97] x.1 ∧ x.2.world.index.job [97] = none)
    (by decide +kernel)
  exact ⟨h, c, hrun, allIdle_iff.1 hidle, fun hkept =>
    CacheIndex.mem_pendingJobs.1 (hkept _ hlate) hrow⟩

end SsdCache
