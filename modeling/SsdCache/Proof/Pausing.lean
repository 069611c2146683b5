import SsdCache.Proof.CopyInProgress

/-!
# Pausing

`set_paused(true)` sets a flag. The worker looks at it twice in a pass, the second time when
it has popped an entry, and the event thread before it records an event; a batch does not
look. So what a pause can come too late for is a pass that is past its second check
(`PastCheck`), the batch that is under way (`jobsLeft`, `inHand`), and an event that has been
let through.

* `pauseInEffect_of_returned`: when `set_paused(true)` has returned, the flag is set.
* `worker_keeps`, `deletes_caught`: in a pause no batch begins and no `Delete` event is written
  but those that it came too late for, and a batch copies and drops its own jobs only.
* `pause_effective`: if there is nothing that the pause comes too late for, no copy begins
  while it lasts and no pending job is lost.
* `copy_in_pause`: a pause within a batch does not stop the rest of it.
-/

namespace SsdCache

open Atomic

variable {V : Type} {sv : Service V} {w w' : World V} {h : History V} {c c' : State V}
variable {a : Call} {p : WString} {l : Event} {t : Party}

/-! ## Pauses -/

/-- What a step set the pause flag to. -/
def pausedTo : Event → Option Bool
  | .act _ (.memory (.exchangePaused paused)) (.ok _) => some paused
  | _ => none

/-- A step that set the pause flag. -/
def Pauses (l : Event) : Prop := pausedTo l = some true

/-- A step that cleared it. -/
def Resumes (l : Event) : Prop := pausedTo l = some false

instance (l : Event) : Decidable (Pauses l) := inferInstanceAs (Decidable (_ = _))

instance (l : Event) : Decidable (Resumes l) := inferInstanceAs (Decidable (_ = _))

/-- The flag was set and not cleared since. -/
def PauseInEffect (h : History V) : Prop :=
  Since (fun _ _ l => Pauses l) (fun _ _ l => Resumes l) h

instance (h : History V) : Decidable (PauseInEffect h) := inferInstanceAs (Decidable (Since _ _ h))

/-- What the control thread asks `set_paused` for. -/
def asks : Event → Option Bool
  | .call .control (.setPaused paused) => some paused
  | _ => none

/-- `set_paused(true)` was called, and `set_paused(false)` was not called since. -/
def PauseAsked (h : History V) : Prop :=
  Since (fun _ _ l => asks l = some true) (fun _ _ l => asks l = some false) h

instance (h : History V) : Decidable (PauseAsked h) := inferInstanceAs (Decidable (Since _ _ h))

/-- What a step leaves of the current batch. -/
def leftAfter (l : Event) (n : ℕ) : ℕ :=
  match l with
  | .act _ (.query (.dueJobs _ _)) (.ok jobs) => List.length (show List PendingJob from jobs)
  | .act .worker (.copyAndHash _ _ _ _) (.ok r) =>
    if CopyResult.action r = .cancelled then 0 else n - 1
  | .act .worker _ (.error _) => 0
  | _ => n

/-- How many jobs of the current batch are still to be copied. -/
def jobsLeft : History V → ℕ
  | [] => 0
  | (_, l) :: h => leftAfter l (jobsLeft h)

/-- The file in hand after a step. -/
def handAfter (l : Event) (p : Option WString) : Option WString :=
  match l with
  | .act _ (.query (.dueJobs _ _)) (.ok _) => none
  | .act .worker (.copyAndHash q _ _ _) (.ok r) =>
    if CopyResult.action r = .cancelled ∨ CopyResult.action r = .failed then none else some q
  | .act .worker (.removeCachedFile _ _) (.ok r) => if RemoveResult.errorMessage r = "" then p else none
  | .act .worker (.update (.removePendingJob _)) (.ok _) => none
  | .act .worker (.update (.markRemoved _)) (.ok _) => none
  | .act .worker _ (.error _) => none
  | _ => p

/-- The file whose copy has begun and has not failed, and is not booked yet. -/
def inHand : History V → Option WString
  | [] => none
  | (_, l) :: h => handAfter l (inHand h)

/-- A job of `p` is pending, and its copy has not begun: `p` is not in hand, or it was
accessed again meanwhile. -/
def Waiting (p : WString) (h : History V) (w : World V) : Prop :=
  w.index.job p ≠ none ∧ (inHand h = some p → LateAccess p h)

instance (p : WString) (h : History V) (w : World V) : Decidable (Waiting p h w) :=
  inferInstanceAs (Decidable (_ ∧ (_ → _)))

/-- The job of `p` was waiting when the flag was set. -/
def Held (p : WString) (h : History V) : Prop :=
  Since (fun h w l => Pauses l ∧ Waiting p h w) (fun _ _ l => Resumes l) h

instance (p : WString) (h : History V) : Decidable (Held p h) :=
  inferInstanceAs (Decidable (Since _ _ h))

/-- No copy begins while a pause is in effect. -/
def CopiesUnpaused : Condition V := fun h _ l => (copiedPath l).isSome = true → ¬ PauseInEffect h

instance (h : History V) (w : World V) (l : Event) : Decidable (CopiesUnpaused h w l) :=
  inferInstanceAs (Decidable (_ → _))

/-- **Pausing is effective**: when `set_paused(true)` has returned the pause is in effect, no
copy begins in a pause, and the jobs that were waiting when it took effect are pending still. -/
structure PauseEffective (h : History V) (c : State V) : Prop where
  returned : PauseAsked h → (c.prog .control).Done → PauseInEffect h
  copies : Meets CopiesUnpaused h
  held : ∀ p, Held p h → p ∈ c.world.index.pendingJobs

/-! ## When it is -/

/-- What a thread found when it looked at the flag. -/
def looked (t : Party) : Event → Option Bool
  | .act u (.memory .loadPaused) (.ok paused) => if u = t then some (show Bool from paused) else none
  | _ => none

/-- The worker begins a pass. -/
def beginsPass : Event → Bool
  | .act .worker (.memory .loadStopRequested) _ => true
  | _ => false

/-- An entry was popped. -/
def pops : Event → Bool
  | .act _ (.memory .popDue) (.ok next) => Option.isSome (show Option HeapEntry from next)
  | _ => false

/-- The pass has popped an entry. -/
def EntryPopped (h : History V) : Prop :=
  Since (fun _ _ l => pops l = true) (fun _ _ l => beginsPass l = true) h

/-- The pass has popped an entry and found the flag clear after that. -/
def PastCheck (h : History V) : Prop :=
  Since (fun h _ l => looked .worker l = some false ∧ EntryPopped h)
    (fun _ _ l => beginsPass l = true) h

/-- The event thread found the flag clear when it looked last. -/
def LetThrough (h : History V) : Prop :=
  Since (fun _ _ l => looked .events l = some false) (fun _ _ l => looked .events l = some true) h

/-- A pause that is in effect came when `late` was true, and what `again` matches has not
happened since. -/
def CameLate (late : History V → Prop) (again : Event → Prop) (h : History V) : Prop :=
  Since (fun h _ l => Pauses l ∧ late h) (fun _ _ l => Resumes l ∨ again l) h

/-- The pause came when this pass was past its second check. -/
def CaughtPass (h : History V) : Prop := CameLate PastCheck (fun l => beginsPass l = true) h

/-- The pause came when this event had been let through. -/
def CaughtEvent (h : History V) : Prop :=
  CameLate LetThrough (fun l => (looked .events l).isSome = true) h

instance (h : History V) : Decidable (EntryPopped h) := inferInstanceAs (Decidable (Since _ _ h))

instance (h : History V) : Decidable (PastCheck h) := inferInstanceAs (Decidable (Since _ _ h))

instance (h : History V) : Decidable (LetThrough h) := inferInstanceAs (Decidable (Since _ _ h))

instance (h : History V) : Decidable (CaughtPass h) := inferInstanceAs (Decidable (Since _ _ h))

instance (h : History V) : Decidable (CaughtEvent h) := inferInstanceAs (Decidable (Since _ _ h))

/-- The file that a `Delete` event marked removed. -/
def deletedPath : Event → Option WString
  | .act .events (.update (.markRemoved p)) (.ok _) => some p
  | _ => none

/-- The jobs that a step found due. -/
def batchJobs : Event → List PendingJob
  | .act _ (.query (.dueJobs _ _)) (.ok jobs) => jobs
  | _ => []

/-- A pause comes when no job of the batch is left and the file in hand was not accessed
since its copy began. The pass that is past its second check when the pause comes finds no
job due, and the event that has been let through is no `Delete`. -/
structure PausesBetween (h : History V) (_ : World V) (l : Event) : Prop where
  left : Pauses l → jobsLeft h = 0
  hand : Pauses l → ∀ p ∈ inHand h, ¬ LateAccess p h
  batch : batchJobs l ≠ [] → ¬ CaughtPass h
  delete : (deletedPath l).isSome = true → ¬ CaughtEvent h

instance (h : History V) (w : World V) (l : Event) : Decidable (PausesBetween h w l) :=
  decidable_of_iff ((Pauses l → jobsLeft h = 0) ∧ (Pauses l → ∀ p ∈ inHand h, ¬ LateAccess p h) ∧
    (batchJobs l ≠ [] → ¬ CaughtPass h) ∧ ((deletedPath l).isSome = true → ¬ CaughtEvent h))
    ⟨fun ⟨hl, hh, hb, hd⟩ => ⟨hl, hh, hb, hd⟩, fun hl => ⟨hl.left, hl.hand, hl.batch, hl.delete⟩⟩

/-! ## The flag -/

theorem eq_of_pausedTo {b : Bool} (hl : pausedTo l = some b) :
    ∃ t r, l = .act t (.memory (.exchangePaused b)) (.ok r) := by
  unfold pausedTo at hl
  split at hl
  · cases hl
    exact ⟨_, _, rfl⟩
  · cases hl

/-- While a pause is in effect the flag is set. -/
def FlagSet (h : History V) (w : World V) : Prop := PauseInEffect h → w.memory.paused = true

/-- **One step keeps the flag of a pause.** -/
theorem flagSet_step (hI : FlagSet h c.world) (hs : Step (system sv started) c l c') :
    FlagSet ((c.world, l) :: h) c'.world := by
  intro hpaused
  have hbefore : pausedTo l = none → c.world.memory.paused = true := fun hnone => by
    rcases hpaused with hpause | ⟨-, hpaused⟩
    · rw [Pauses, hnone] at hpause
      cases hpause
    · exact hI hpaused
  cases hs with
  | call hd hm => exact hbefore rfl
  | env he =>
    obtain ⟨clock, -, rfl⟩ := he
    exact hbefore rfl
  | @act t a k r w' hk hx =>
    by_cases ha : ∃ b, a = .memory (.exchangePaused b)
    · obtain ⟨b, rfl⟩ := ha
      cases r with
      | error e => exact (show False from hx).elim
      | ok v =>
        obtain ⟨-, -, rfl⟩ := exec_memoryCall (show exec sv _ _ _ _ from hx)
        cases b with
        | true => rfl
        | false => exact (hpaused.elim nofun fun hnot => hnot.1 rfl).elim
    · push Not at ha
      have hnone : pausedTo (.act t a r) = none := by
        unfold pausedTo
        split
        · rename_i heq
          cases heq
          exact absurd rfl (ha _)
        · rfl
      have hkept : w'.memory.paused = c.world.memory.paused := exec_paused hx ha
      exact hkept.trans (hbefore hnone)

/-- The flag is that of a pause before every step. -/
def FlagKept : Condition V := fun h w _ => FlagSet h w

theorem flagKept_of_run (hrun : Run (system sv started) (.idle w) h c) : Meets FlagKept h := by
  have hflag {h : History V} {c : State V} (hrun : Run (system sv started) (.idle w) h c)
      (hm : Meets (fun _ _ _ => True) h) : FlagSet h c.world :=
    hrun.invariant (I := fun h c => FlagSet h c.world) (fun hp => absurd hp not_since_nil)
      (fun hI _ hs => flagSet_step hI hs) hm
  exact hrun.throughout hflag (meets_of_forall (fun _ _ _ => trivial) h)

/-- **A thread that finds the flag clear is in no pause.** -/
theorem not_paused_of_look {r : Bool} (hflag : FlagSet h w)
    (hx : exec sv w (.memory .loadPaused) (.ok r) w') (hr : r = false) :
    ¬ PauseInEffect (acted w t (a := .memory .loadPaused) (.ok r) h) := by
  rintro (hpause | ⟨-, hpaused⟩)
  · cases hpause
  · obtain ⟨-, hlook, -⟩ := exec_memoryCall hx
    rw [hr, show (MemoryCall.run w.memory w.clock .loadPaused).1 = w.memory.paused from rfl,
      hflag hpaused] at hlook
    cases hlook

/-- **A step after which a pause is still the one that came late**, or comes late itself. -/
theorem cameLate_cons {late : History V → Prop} {again : Event → Prop} (hlate : late h)
    (hagain : ¬ again l) (hbefore : PauseInEffect h → CameLate late again h)
    (hpaused : PauseInEffect ((w, l) :: h)) : CameLate late again ((w, l) :: h) := by
  rcases hpaused with hpause | ⟨hnot, hpaused⟩
  · exact .inl ⟨hpause, hlate⟩
  · exact .inr ⟨fun hend => hend.elim hnot hagain, hbefore hpaused⟩


/-! ## The control thread -/

/-- The calls that leave the flag alone. -/
def Call.LeavesFlag (a : Call) : Prop := ∀ b, a ≠ .memory (.exchangePaused b)

theorem Call.LeavesFlag.pausedTo {r : Except String a.Answer} (ha : a.LeavesFlag) :
    pausedTo (.act t a r) = none := by
  unfold SsdCache.pausedTo
  split
  · rename_i heq
    cases heq
    exact absurd rfl (ha _)
  · rfl

theorem pauseInEffect_frame (hl : pausedTo l = none) :
    PauseInEffect ((w, l) :: h) ↔ PauseInEffect h := by
  refine since_frame ?_ ?_
  · simp [Pauses, hl]
  · simp [Resumes, hl]

theorem pauseAsked_frame (hl : asks l = none) : PauseAsked ((w, l) :: h) ↔ PauseAsked h := by
  refine since_frame ?_ ?_
  · simp [hl]
  · simp [hl]

/-- A step that neither asks for a pause nor sets the flag. -/
structure SamePause (x y : History V × World V) : Prop where
  asked : PauseAsked y.1 ↔ PauseAsked x.1
  inEffect : PauseInEffect y.1 ↔ PauseInEffect x.1

theorem samePause_cons (hasks : asks l = none) (hset : pausedTo l = none) :
    SamePause (h, w) ((w, l) :: h, w') := ⟨pauseAsked_frame hasks, pauseInEffect_frame hset⟩

/-- The control thread among threads that leave the flag alone. -/
def askContract (sv : Service V) : Contract calls String (History V × World V) :=
  (system sv started).contract (fun _ _ _ => True) .control SamePause (fun _ _ _ _ => True)
    (fun _ => ⟨.rfl, .rfl⟩)
    (fun hxy hyz => ⟨hyz.asked.trans hxy.asked, hyz.inEffect.trans hxy.inEffect⟩)

/-- A pause that was asked for is in effect. -/
def Granted (x : History V × World V) : Prop := PauseAsked x.1 → PauseInEffect x.1

theorem stable_granted : (askContract sv).Stable Granted := fun _ _ hr hx hasked =>
  hr.inEffect.2 (hx (hr.asked.1 hasked))

/-- Programs of the control thread that leave the flag alone. -/
theorem granted_of_only {c : Task Unit} (hc : c.Only Call.LeavesFlag) {x : History V × World V}
    (hx : Granted x) : c.Safe (askContract sv) (fun _ => Granted) x := by
  refine Prog.Only.safe stable_granted ?_ hc hx
  rintro ⟨h, w⟩ a r ⟨h', w'⟩ ha hy ⟨-, -, hz⟩
  cases hz
  exact ⟨trivial, fun hasked =>
    (pauseInEffect_frame ha.pausedTo).2 (hy ((pauseAsked_frame rfl).1 hasked))⟩

/-- The flag is set to what was asked for. -/
theorem exchange_granted (paused : Bool) : (askContract sv).Triple
    (fun x => PauseAsked x.1 → paused = true) (.memory (.exchangePaused paused))
    (fun _ => Granted) := by
  have hstep : (askContract sv).step =
      (system sv started).next (fun _ _ _ => True) .control := rfl
  refine Machine.triple hstep (fun _ _ hr hx hasked => hx (hr.asked.1 hasked)) ?_
  intro h w r w' hx _ hy
  refine ⟨trivial, fun hasked => ?_⟩
  cases r with
  | error e => exact (show False from hx).elim
  | ok v =>
    have hpaused : paused = true := hy ((pauseAsked_frame rfl).1 hasked)
    exact .inl (congrArg some hpaused)

theorem setPaused_granted (paused : Bool) {x : History V × World V}
    (hx : PauseAsked x.1 → paused = true) :
    (setPaused paused).Safe (askContract sv) (fun _ => Granted) x :=
  Prog.safe_perform (exchange_granted paused) hx
    (fun _ _ hz => Prog.safe_ret stable_granted hz) fun _ _ hz _ hr => stable_granted hr hz

theorem start_leavesFlag : start.Only Call.LeavesFlag := by
  refine start_byStart.mono fun {a} ha b hab => ?_
  rw [hab] at ha
  exact ha

theorem stop_leavesFlag : stop.Only Call.LeavesFlag := by
  refine Prog.Only.bind (Prog.only_perform fun b => nofun) fun _ => ?_
  refine Prog.Only.bind (Prog.only_perform fun b => nofun) fun (joinable : Bool) => ?_
  exact Prog.only_ite (Prog.only_perform fun b => nofun) trivial

/-- The control thread against the other threads. -/
def askSolo : Solo (system sv started) (fun _ _ _ => True) .control where
  quiet := SamePause
  keep _ _ _ _ := True
  refl _ := ⟨.rfl, .rfl⟩
  trans hxy hyz := ⟨hyz.asked.trans hxy.asked, hyz.inEffect.trans hxy.inEffect⟩
  inv := Granted
  stable hq hx hasked := hq.inEffect.2 (hx (hq.asked.1 hasked))
  call {t h w o} ht := by
    refine samePause_cons ?_ rfl
    cases t with
    | control => exact absurd rfl ht
    | _ => rfl
  env _ _ := samePause_cons rfl rfl
  allowed _ := Call.LeavesFlag
  others {t c o} ht hm := by
    rcases started_cases hm with ⟨event, -, rfl⟩ | ⟨-, rfl, -⟩ | ⟨hcontrol, -⟩
    · refine (recordEvent_only event).mono fun {a} ha b hab => ?_
      rw [hab] at ha
      exact ha
    · refine (workerIteration_only sv).mono fun {a} ha b hab => ?_
      rw [hab] at ha
      rcases ha with ha | (ha | ha) | ha
      · exact ha
      · exact ha
      · exact ha
      · exact ha
    · exact absurd hcontrol ht
  quiet_others {t x a r y} _ ha hs := by
    obtain ⟨h, w⟩ := x
    obtain ⟨h', w'⟩ := y
    obtain ⟨-, -, hz⟩ := hs
    cases hz
    exact samePause_cons rfl ha.pausedTo
  body {h c o} hm _ hinv := by
    have hquiet (hasks : asks (.call .control o) = none) :
        Granted ((c.world, .call .control o) :: h, c.world) := fun hasked =>
      (pauseInEffect_frame rfl).2 (hinv ((pauseAsked_frame hasks).1 hasked))
    rcases started_cases hm with ⟨_, ht, -⟩ | ⟨ht, -, -⟩ | ⟨-, rfl | rfl | ⟨paused, rfl⟩⟩
    · cases ht
    · cases ht
    · exact granted_of_only start_leavesFlag (hquiet rfl)
    · exact granted_of_only stop_leavesFlag (hquiet rfl)
    · refine setPaused_granted paused fun hasked => ?_
      rcases hasked with hasked | ⟨hnot, -⟩
      · exact Option.some.inj hasked
      · cases paused with
        | true => rfl
        | false => exact absurd rfl hnot

/-- **When `set_paused(true)` has returned, the pause is in effect**, until `set_paused(false)`
is called. -/
theorem pauseInEffect_of_returned (hrun : Run (system sv started) (.idle w) h c)
    (hasked : PauseAsked h) (hd : (c.prog .control).Done) : PauseInEffect h :=
  askSolo.inv_of_run (fun hp => absurd hp not_since_nil) hrun
    (meets_of_forall (fun _ _ _ => trivial) h) hd hasked

/-! ## The worker -/

/-- What the worker's own steps keep: in a pause it begins the batch of a pass that the pause
came too late for; a copy is of a job of the batch, and a row dropped is that of the file in
hand, unless it is evicted for a job of the batch. -/
structure WithinBatch (h : History V) (l : Event) : Prop where
  begun : (batchStart l).isSome = true → PauseInEffect h → CaughtPass h
  copy : (copiedPath l).isSome = true → 0 < jobsLeft h
  drop : ∀ p ∈ dropped l, 0 < jobsLeft h ∨ inHand h = some p

/-- The pass is past its second check, and if there is a pause it came later. -/
structure Checked (h : History V) : Prop where
  past : PastCheck h
  caught : PauseInEffect h → CaughtPass h

/-- The pass and the batch are where they were. -/
structure SameBatch (x y : History V × World V) : Prop where
  left : jobsLeft y.1 = jobsLeft x.1
  hand : inHand y.1 = inHand x.1
  popped : EntryPopped x.1 → EntryPopped y.1
  checked : Checked x.1 → Checked y.1

/-- The worker among threads that leave its batch alone. -/
def pauseContract (sv : Service V) : Contract calls String (History V × World V) :=
  (system sv started).contract FlagKept .worker SameBatch
    (fun x a r _ => WithinBatch x.1 (.act .worker a r)) (fun _ => ⟨rfl, rfl, id, id⟩)
    (fun hxy hyz => ⟨hyz.left.trans hxy.left, hyz.hand.trans hxy.hand, hyz.popped ∘ hxy.popped,
      hyz.checked ∘ hxy.checked⟩)

/-- `n` jobs of the batch are left, and `q` is in hand. -/
structure AtJob (n : ℕ) (q : Option WString) (x : History V × World V) : Prop where
  left : jobsLeft x.1 = n
  hand : inHand x.1 = q

theorem stable_atJob {n : ℕ} {q : Option WString} : (pauseContract sv).Stable (AtJob n q) :=
  fun _ _ hr hx => ⟨hr.left.trans hx.left, hr.hand.trans hx.hand⟩

theorem stable_checked : (pauseContract sv).Stable fun x => Checked x.1 :=
  fun _ _ hr => hr.checked

/-- A step that does not begin a pass leaves it past its check. -/
theorem Checked.cons (hx : Checked h) (hbegins : beginsPass l = false) :
    Checked ((w, l) :: h) where
  past := .inr ⟨ne_true_of_eq_false hbegins, hx.past⟩
  caught := cameLate_cons hx.past (ne_true_of_eq_false hbegins) hx.caught

/-- A call of the worker. -/
theorem pause_triple {P : History V × World V → Prop}
    {R : Except String a.Answer → History V × World V → Prop} (hP : (pauseContract sv).Stable P)
    (hcall : ∀ {h : History V} {w r w'}, exec sv w a r w' → FlagKept h w (.act .worker a r) → P (h, w) →
      WithinBatch h (.act .worker a r) ∧ R r (acted w .worker r h, w')) :
    (pauseContract sv).Triple P a R := Machine.triple rfl hP hcall

theorem withinBatch_of_none (hbegin : batchStart l = none) (hcopy : copiedPath l = none)
    (hdrop : dropped l = none) : WithinBatch h l where
  begun hb := by
    rw [hbegin] at hb
    cases hb
  copy hc := by
    rw [hcopy] at hc
    cases hc
  drop p hp := by
    rw [hdrop] at hp
    cases hp

theorem Call.Books.batchStart {r : Except String a.Answer} (ha : a.Books) :
    batchStart (.act t a r) = none := by
  cases a with
  | query k =>
    cases k with
    | dueJobs now limit => exact ha.elim
    | _ => cases r <;> rfl
  | _ => rfl

theorem Call.Books.withinBatch {r : Except String a.Answer} (ha : a.Books) :
    WithinBatch h (.act .worker a r) := withinBatch_of_none ha.batchStart ha.copiedPath ha.dropped

/-- A call that leaves what is left of the batch and what is in hand. -/
theorem atJob_call {n : ℕ} {q : Option WString} (ha : a.Books)
    (hleft : ∀ v, leftAfter (.act .worker a (.ok v)) n = n)
    (hhand : ∀ v, handAfter (.act .worker a (.ok v)) q = q) :
    (pauseContract sv).Triple (AtJob n q) a
      (onOk (α := a.Answer) (fun _ => AtJob n q) (fun _ => True)) :=
  pause_triple stable_atJob fun {h w r w'} _ _ hI => by
    refine ⟨ha.withinBatch, ?_⟩
    cases r with
    | error e => trivial
    | ok v =>
      refine ⟨?_, ?_⟩
      · show leftAfter _ (jobsLeft h) = n
        rw [hI.left]
        exact hleft v
      · show handAfter _ (inHand h) = q
        rw [hI.hand]
        exact hhand v

/-- A removal of a cache file. -/
theorem atJob_remove {n : ℕ} {q : Option WString} {v cache : WString}
    (hv : 0 < n ∨ q = some v) :
    (pauseContract sv).Triple (AtJob n q) (.removeCachedFile v cache)
      (onOk (fun (r : RemoveResult) x =>
        if r.Clean then jobsLeft x.1 = n ∧ (0 < n ∨ inHand x.1 = some v) else AtJob n none x)
        (fun _ => True)) :=
  pause_triple stable_atJob fun {h w r w'} _ _ hI => by
    refine ⟨Call.Books.withinBatch trivial, ?_⟩
    cases r with
    | error e => trivial
    | ok r =>
      have hleft : jobsLeft (acted w .worker (.ok r) h) = n := hI.left
      dsimp only [onOk]
      split
      · rename_i hclean
        exact ⟨hleft, hv.imp_right fun hq => (if_pos hclean).trans (hI.hand.trans hq)⟩
      · rename_i hclean
        exact ⟨hleft, if_neg hclean⟩

/-- A copy takes the next job of the batch in hand, unless it fails. -/
theorem atJob_copy {n : ℕ} {q s k : WString} {b : Bool} :
    (pauseContract sv).Triple (AtJob (n + 1) none) (.copyAndHash q s k b)
      (onOk (fun (r : CopyResult) x => r.action ≠ .cancelled →
        AtJob n (if r.action = .failed then none else some q) x) (fun _ => True)) :=
  pause_triple stable_atJob fun {h w r w'} _ _ hI => by
    refine ⟨⟨nofun, fun _ => ?_, fun p hp => (by cases r <;> cases hp)⟩, ?_⟩
    · rw [show jobsLeft h = n + 1 from hI.left]
      exact Nat.succ_pos n
    · cases r with
      | error e => trivial
      | ok r =>
        intro hr
        refine ⟨?_, ?_⟩
        · show (if _ then _ else jobsLeft h - 1) = n
          rw [if_neg hr, show jobsLeft h = n + 1 from hI.left]
          rfl
        · show (if _ then _ else _) = _
          simp only [hr, false_or]

/-- A row that is dropped is that of a file in hand, or there is a job to evict it for. -/
theorem atJob_drop {P : History V × World V → Prop} {n : ℕ} {u : Update} {v : WString}
    (hP : (pauseContract sv).Stable P)
    (hI : ∀ {x}, P x → jobsLeft x.1 = n ∧ (0 < n ∨ inHand x.1 = some v))
    (hu : ∀ q ∈ dropped (.act .worker (.update u) (.ok ())), q = v)
    (hhand : ∀ q, handAfter (.act .worker (.update u) (.ok ())) q = none) :
    (pauseContract sv).Triple P (.update u)
      (onOk (α := Unit) (fun _ => AtJob n none) (fun _ => True)) :=
  pause_triple hP fun {h w r w'} _ _ hx => by
    obtain ⟨hleft, hv⟩ := hI hx
    cases r with
    | error e => exact ⟨withinBatch_of_none rfl rfl rfl, trivial⟩
    | ok v =>
      refine ⟨⟨nofun, nofun, fun p hp => ?_⟩, hleft, hhand _⟩
      obtain rfl := hu p hp
      rw [show jobsLeft h = n from hleft]
      exact hv

/-- A batch copies and drops only its own jobs. -/
def pauseBatch (now : ℤ) : BatchOutline (pauseContract sv) sv now where
  start x := Checked x.1
  loop js := AtJob js.length none
  removed v js x := jobsLeft x.1 = js.length ∧ (0 < js.length ∨ inHand x.1 = some v)
  missing j js := AtJob js.length (some j.relativePath)
  failed _ js := AtJob js.length none
  erred _ js := AtJob js.length none
  retried _ js := AtJob js.length none
  cached j js := AtJob js.length (some j.relativePath)
  marked j js := AtJob js.length (some j.relativePath)
  post _ := True
  thrown _ := True
  due := pause_triple stable_checked fun {h w r w'} _ _ hx => by
    refine ⟨⟨fun _ => hx.caught, nofun, fun p hp => (by cases r <;> cases hp)⟩, ?_⟩
    cases r with
    | error e => trivial
    | ok jobs => exact ⟨rfl, rfl⟩
  record _ _ := atJob_call trivial (fun _ => rfl) fun _ => rfl
  victims _ := atJob_call trivial (fun _ => rfl) fun _ => rfl
  free _ := atJob_call trivial (fun _ => rfl) fun _ => rfl
  evict v j js _ := atJob_remove (.inl (Nat.succ_pos js.length))
  -- a file is evicted for a job of the batch
  mark v js := atJob_drop (fun _ _ hr hx => ⟨hr.left.trans hx.1, hx.2.imp_right hr.hand.trans⟩) id
    (fun q hq => (Option.some.inj hq).symm) fun _ => rfl
  copy j js := atJob_copy.mono fun r z hz => by
    cases r with
    | error e => trivial
    | ok r =>
      dsimp only [onOk] at hz ⊢
      cases hr : CopyResult.action r
      case cancelled => trivial
      all_goals
        rw [hr] at hz
        exact hz nofun
  remove j js := atJob_remove (.inr rfl)
  error j js m := atJob_call trivial (fun _ => rfl) fun _ => rfl
  retry j js m := atJob_call trivial (fun _ => rfl) fun _ => rfl
  push j js := atJob_call trivial (fun _ => rfl) fun _ => rfl
  cache j js _ _ _ _ := atJob_call trivial (fun _ => rfl) fun _ => rfl
  -- the row dropped is that of the file in hand
  drop j js := atJob_drop stable_atJob (fun hx => ⟨hx.left, .inr hx.hand⟩)
    (fun q hq => (Option.some.inj hq).symm) fun _ => rfl
  done _ := trivial
  stable_loop _ := stable_atJob
  stable_post _ _ _ := id
  stable_thrown _ _ _ := id

/-- A call of a pass outside its batch. -/
theorem pass_triple {P : History V × World V → Prop}
    {R : Except String a.Answer → History V × World V → Prop} (ha : a.Books)
    (hP : (pauseContract sv).Stable P)
    (hR : ∀ {h : History V} {w r w'}, exec sv w a r w' → FlagKept h w (.act .worker a r) → P (h, w) →
      R r (acted w .worker r h, w')) : (pauseContract sv).Triple P a R :=
  pause_triple hP fun hx hflag hp => ⟨ha.withinBatch, hR hx hflag hp⟩

/-- **The pass begins its batch past its second check**, which no pause was in effect at. -/
def pauseWorker : WorkerOutline (pauseContract sv) sv where
  start _ := True
  idle _ := True
  running _ := True
  exiting _ := True
  popped _ x := EntryPopped x.1
  checked _ x := Checked x.1
  ready _ x := Checked x.1
  thrown _ := True
  batch := pauseBatch
  loadStop := pass_triple trivial (fun _ _ _ => id) fun {_ _ r _} _ _ _ => by
    rcases r with e | (_ | _) <;> trivial
  exit := pass_triple trivial (fun _ _ _ => id) fun _ _ _ => trivial
  loadPaused := pass_triple trivial (fun _ _ _ => id) fun {_ _ r _} _ _ _ => by
    rcases r with e | (_ | _) <;> trivial
  popDue := pass_triple trivial (fun _ _ _ => id) fun {h w r w'} _ _ _ => by
    rcases r with e | (_ | e)
    · trivial
    · trivial
    · exact .inl rfl
  recheck e := pass_triple trivial (fun _ _ hr => hr.popped) fun {h w r w'} hx hflag hpopped => by
    rcases r with e | (_ | _)
    · trivial
    · -- the flag is clear, so there is no pause to be late
      exact ⟨.inl ⟨rfl, hpopped⟩, fun hpaused => absurd hpaused (not_paused_of_look hflag hx rfl)⟩
    · exact .inr ⟨Bool.false_ne_true, hpopped⟩
  putBack e := pass_triple trivial (fun _ _ hr => hr.popped) fun _ _ _ => trivial
  lookup e := pass_triple trivial stable_checked fun {h w r w'} _ _ hx => by
    rcases r with e | (_ | j)
    · trivial
    · trivial
    · dsimp only [onOk, Option.elim]
      split
      · trivial
      · exact hx.cons rfl
  now e := pass_triple trivial stable_checked fun {h w r w'} _ _ hx => by
    cases r with
    | error e => trivial
    | ok v => exact hx.cons rfl
  thrown_of_batch _ := trivial
  handler _ _ := pass_triple trivial (fun _ _ _ => id) fun _ _ _ => trivial
  idle_of_post _ := trivial
  stable_idle _ _ _ := id

/-- A step that is none of the worker's leaves its pass where it is. -/
theorem sameBatch_frame (hleft : ∀ n, leftAfter l n = n) (hhand : ∀ q, handAfter l q = q)
    (hbegins : beginsPass l = false) : SameBatch (h, w) ((w, l) :: h, w') where
  left := hleft _
  hand := hhand _
  popped hx := .inr ⟨ne_true_of_eq_false hbegins, hx⟩
  checked hx := hx.cons hbegins

/-- The other threads leave the batch alone. -/
theorem sameBatch_others {r : Except String a.Answer} (ht : t ≠ .worker) (ha : a.ByOthers t) :
    SameBatch (h, w) (acted w t r h, w') := by
  have hplain : a.Plain := ha.plain
  refine sameBatch_frame (fun n => ?_) (fun q => ?_) ?_
  · unfold leftAfter
    split
    · rename_i heq
      cases heq
      exact hplain.elim
    · rename_i heq
      cases heq
      exact absurd rfl ht
    · rename_i heq
      cases heq
      exact absurd rfl ht
    · rfl
  · unfold handAfter
    split
    · rename_i heq
      cases heq
      exact hplain.elim
    all_goals first
      | rfl
      | rename_i heq
        cases heq
        exact absurd rfl ht
  · cases t with
    | worker => exact absurd rfl ht
    | _ => rfl

/-- The worker against the other threads. -/
def pauseSolo : Solo (system sv started) FlagKept .worker where
  quiet := SameBatch
  keep x a r _ := WithinBatch x.1 (.act .worker a r)
  refl _ := ⟨rfl, rfl, id, id⟩
  trans hxy hyz := ⟨hyz.left.trans hxy.left, hyz.hand.trans hxy.hand, hyz.popped ∘ hxy.popped,
    hyz.checked ∘ hxy.checked⟩
  inv _ := True
  stable _ := id
  call _ := sameBatch_frame (fun _ => rfl) (fun _ => rfl) rfl
  env _ _ := sameBatch_frame (fun _ => rfl) (fun _ => rfl) rfl
  allowed := Call.ByOthers
  others ht hm := concurrent_others ht (started_concurrent hm)
  quiet_others {t x a r y} ht ha hs := by
    obtain ⟨h, w⟩ := x
    obtain ⟨h', w'⟩ := y
    obtain ⟨-, -, hz⟩ := hs
    cases hz
    exact sameBatch_others ht ha
  body {h c o} hm _ _ := by
    rcases started_cases hm with ⟨_, ht, -⟩ | ⟨-, rfl, -⟩ | ⟨ht, -⟩
    · cases ht
    · exact pauseWorker.safe trivial
    · cases ht

/-- **The worker begins no batch in a pause but the one that it came too late for, and copies
and drops rows within its batch**, whatever the others do. -/
theorem worker_keeps (hrun : Run (system sv started) (.idle w) h c) :
    Meets (fun h _ l => WithinBatch h l) h := by
  refine pauseSolo.meets_of_run id ?_ ⟨nofun, nofun, nofun⟩ ⟨nofun, nofun, nofun⟩ trivial hrun
    (flagKept_of_run hrun)
  -- the other threads begin no batch, and neither copy nor drop
  intro t h w a r ht ha
  have hplain : Call.Plain a := Call.ByOthers.plain ha
  exact withinBatch_of_none hplain.batchStart (Call.ByOthers.copiedPath ha)
    (Call.ByOthers.dropped ht ha)

/-! ## Events -/

/-- A `Delete` event that is written in a pause was let through before it. -/
def DeletesCaught (h : History V) (_ : World V) (l : Event) : Prop :=
  (deletedPath l).isSome = true → PauseInEffect h → CaughtEvent h

/-- The event was let through, and if there is a pause it came later. -/
structure Admitted (h : History V) : Prop where
  through : LetThrough h
  caught : PauseInEffect h → CaughtEvent h

/-- A step that is no look of the event thread leaves its event where it is. -/
theorem Admitted.cons (hx : Admitted h) (hlook : looked .events l = none) :
    Admitted ((w, l) :: h) where
  through := .inr ⟨fun hp => (nomatch hlook.symm.trans hp), hx.through⟩
  caught := cameLate_cons hx.through (by rw [hlook]; exact nofun) hx.caught

/-- The event thread among the others. -/
def admitContract (sv : Service V) : Contract calls String (History V × World V) :=
  (system sv started).contract FlagKept .events
    (fun x y => Admitted x.1 → Admitted y.1)
    (fun x a r _ => DeletesCaught x.1 x.2 (.act .events a r)) (fun _ => id) (fun hxy hyz => hyz ∘ hxy)

/-- A call of the event thread. -/
theorem admit_triple {P : History V × World V → Prop}
    {R : Except String a.Answer → History V × World V → Prop} (hP : (admitContract sv).Stable P)
    (hcall : ∀ {h : History V} {w r w'}, exec sv w a r w' → FlagKept h w (.act .events a r) → P (h, w) →
      DeletesCaught h w (.act .events a r) ∧ R r (acted w .events r h, w')) :
    (admitContract sv).Triple P a R := Machine.triple rfl hP hcall

/-- The look at the flag: an event that gets through is in no pause yet. -/
theorem events_look : (admitContract sv).Triple (fun _ => True) (.memory .loadPaused)
    (onOk (fun (paused : Bool) x => paused = false → Admitted x.1) fun _ => True) :=
  admit_triple (fun _ _ _ => id) fun {h w r w'} hx hflag _ => by
    refine ⟨nofun, ?_⟩
    cases r with
    | error e => trivial
    | ok paused =>
      intro hclear
      exact ⟨.inl (congrArg some hclear),
        fun hpaused => absurd hpaused (not_paused_of_look hflag hx hclear)⟩

/-- A deletion is marked for an event that was let through. -/
theorem events_markRemoved : (admitContract sv).Triple (fun x => Admitted x.1)
    (.update (.markRemoved p)) (fun _ _ => True) :=
  admit_triple (fun _ _ hr => hr) fun _ _ hx => ⟨fun _ => hx.caught, trivial⟩

/-- A call that marks no file removed. -/
theorem events_other (hnone : ∀ r, deletedPath (.act .events a r) = none) :
    (admitContract sv).Triple (fun _ => True) a (fun _ _ => True) :=
  admit_triple (fun _ _ _ => id) fun {h w r w'} _ _ _ => by
    refine ⟨fun hdel => ?_, trivial⟩
    rw [hnone r] at hdel
    cases hdel

/-- **The event thread writes a `Delete` in no pause but one that it was let through before.** -/
theorem recordEvent_admitted (event : AccessEvent) {x : History V × World V} :
    (recordEvent sv event).Safe (admitContract sv) (fun _ _ => True) x := by
  unfold recordEvent
  split
  · exact Prog.safe_ret (fun _ _ _ => id) trivial
  · refine Prog.safe_perform events_look trivial (fun (paused : Bool) z hz => ?_)
      fun _ _ _ _ _ => trivial
    unfold narrowPath
    split
    · by_cases hpaused : paused = true
      · rw [if_pos hpaused]
        exact Prog.safe_ret (fun _ _ _ => id) trivial
      · have hadmitted : Admitted z.1 := hz (Bool.eq_false_iff.2 hpaused)
        rw [if_neg hpaused]
        split
        · exact Prog.safe_perform_last events_markRemoved (fun _ _ _ _ => id) hadmitted
        · refine Prog.safe_perform (events_other fun r => by cases r <;> rfl) trivial (fun _ z _ => ?_)
            fun _ _ _ _ _ => trivial
          split
          · exact Prog.safe_perform_last (events_other fun r => by cases r <;> rfl)
              (fun _ _ _ _ => id) trivial
          · exact Prog.safe_ret (fun _ _ _ => id) trivial
    · exact Prog.safe_throw (fun _ _ _ => id) trivial

/-- The event thread against the other threads. -/
def admitSolo : Solo (system sv started) FlagKept .events where
  quiet x y := Admitted x.1 → Admitted y.1
  keep x a r _ := DeletesCaught x.1 x.2 (.act .events a r)
  refl _ := id
  trans hxy hyz := hyz ∘ hxy
  inv _ := True
  stable _ := id
  call _ hx := hx.cons rfl
  env _ _ hx := hx.cons rfl
  allowed _ _ := True
  others _ _ := Prog.only_of_forall (fun _ => trivial) _
  quiet_others {t x a r y} ht _ hs hx := by
    obtain ⟨h, w⟩ := x
    obtain ⟨h', w'⟩ := y
    obtain ⟨-, -, hz⟩ := hs
    cases hz
    refine hx.cons ?_
    unfold looked
    split
    · rename_i heq
      cases heq
      exact if_neg ht
    · rfl
  body {h c o} hm _ _ := by
    rcases started_cases hm with ⟨event, -, rfl⟩ | ⟨ht, -⟩ | ⟨ht, -⟩
    · exact recordEvent_admitted event
    · cases ht
    · cases ht

/-- **A `Delete` that is written in a pause was let through before it.** -/
theorem deletes_caught (hrun : Run (system sv started) (.idle w) h c) : Meets DeletesCaught h := by
  refine admitSolo.meets_of_run id ?_ nofun nofun trivial hrun (flagKept_of_run hrun)
  intro t h w a r ht _ hdel
  cases t with
  | events => exact absurd rfl ht
  | _ => cases hdel

/-! ## Runs -/

theorem Held.paused (hp : Held p h) : PauseInEffect h := since_mono And.left id hp

/-- What holds after every step: in a pause no job of a batch is left, and a job that waits
for its end is not that of the file in hand. -/
structure PauseKept (h : History V) (c : State V) : Prop where
  between : PauseInEffect h → jobsLeft h = 0
  copies : Meets CopiesUnpaused h
  held : ∀ p, Held p h → c.world.index.job p ≠ none ∧ inHand h ≠ some p

theorem deletedPath_of_deletes (hl : Deletes p l) : (deletedPath l).isSome = true := by
  cases l with
  | act t a r =>
    cases t with
    | events =>
      cases Call.eq_of_written (show a.written r = some (.markRemoved p) from hl)
      cases r with
      | ok v => rfl
      | error e => cases (show Call.written _ (.error e) = some (.markRemoved p) from hl)
    | _ => exact hl.elim
  | _ => exact hl.elim

theorem batchStart_of_jobs (hl : batchJobs l ≠ []) : (batchStart l).isSome = true := by
  cases l with
  | act t a r =>
    cases a with
    | query k =>
      cases k with
      | dueJobs now limit =>
        cases r with
        | ok jobs => rfl
        | error e => exact absurd rfl hl
      | _ => exact absurd rfl hl
    | _ => exact absurd rfl hl
  | _ => exact absurd rfl hl

/-- Only a batch that finds jobs makes jobs to be left. -/
theorem left_of_leftAfter {n : ℕ} (hl : 0 < leftAfter l n) : 0 < n ∨ batchJobs l ≠ [] := by
  unfold leftAfter at hl
  split at hl
  · exact .inr (List.ne_nil_of_length_pos hl)
  · split at hl
    · exact absurd hl (lt_irrefl 0)
    · exact .inl (lt_of_lt_of_le hl (Nat.sub_le n 1))
  · exact absurd hl (lt_irrefl 0)
  · exact .inl hl

/-- Only a copy takes a file in hand. -/
theorem hand_of_handAfter {q : Option WString} (hl : handAfter l q = some p) :
    copiedPath l = some p ∨ q = some p := by
  unfold handAfter at hl
  split at hl
  · cases hl
  · split at hl
    · cases hl
    · cases hl
      exact .inl rfl
  · split at hl
    · exact .inr hl
    · cases hl
  · cases hl
  · cases hl
  · cases hl
  · exact .inr hl

/-- **One step keeps a job**, if it does not drop it. -/
theorem job_kept (hs : Step (system sv started) c l c') (hjob : c.world.index.job p ≠ none)
    (hdrop : dropped l ≠ some p) (hdel : ¬ Deletes p l) : c'.world.index.job p ≠ none := by
  rw [step_job hs p]
  cases hu : committed l with
  | none => exact hjob
  | some u => exact fun hnone => (dropped_or_deletes hu hjob hnone).elim hdrop hdel

/-- **One step keeps what a pause promises.** -/
theorem pauseKept_step (hI : PauseKept h c) (hc : PausesBetween h c.world l)
    (hb : WithinBatch h l) (hd : DeletesCaught h c.world l)
    (hs : Step (system sv started) c l c') : PauseKept ((c.world, l) :: h) c' where
  between hpaused := by
    refine Nat.eq_zero_of_not_pos fun hleft => ?_
    rcases hpaused with hpause | ⟨-, hpaused⟩
    · -- the pause came now, when no job was left
      have hzero : jobsLeft h = 0 := hc.left hpause
      obtain ⟨t, r, rfl⟩ := eq_of_pausedTo hpause
      cases t <;> exact absurd (hzero ▸ hleft : 0 < 0) (lt_irrefl 0)
    · rcases left_of_leftAfter hleft with hbefore | hjobs
      · exact absurd (hI.between hpaused) hbefore.ne'
      · -- only the pass that the pause came too late for begins a batch
        exact hc.batch hjobs (hb.begun (batchStart_of_jobs hjobs) hpaused)
  copies := ⟨fun hcopy hpaused => (hb.copy hcopy).ne' (hI.between hpaused), hI.copies⟩
  held p hheld := by
    rcases hheld with ⟨hpause, hjob, hlate⟩ | ⟨-, hheld⟩
    · -- the file in hand was not accessed again, so the job that waits is another's
      have hhand : inHand h ≠ some p := fun hhand => hc.hand hpause p hhand (hlate hhand)
      obtain ⟨t, r, rfl⟩ := eq_of_pausedTo hpause
      exact ⟨job_kept hs hjob nofun (by cases t <;> exact nofun),
        fun hafter => (hand_of_handAfter hafter).elim nofun hhand⟩
    · have hpaused : PauseInEffect h := Held.paused hheld
      have hzero : ¬ 0 < jobsLeft h := fun hleft => hleft.ne' (hI.between hpaused)
      obtain ⟨hjob, hhand⟩ := hI.held p hheld
      refine ⟨job_kept hs hjob (fun hdrop => ?_) fun hdel => ?_, fun hafter => ?_⟩
      · exact (hb.drop p hdrop).elim hzero hhand
      · have hdeleted : (deletedPath l).isSome = true := deletedPath_of_deletes hdel
        exact hc.delete hdeleted (hd hdeleted hpaused)
      · rcases hand_of_handAfter hafter with hcopy | hbefore
        · exact hzero (hb.copy (by rw [hcopy]; rfl))
        · exact hhand hbefore

/-- **Pausing is effective** in every run whose pauses come too late for nothing. -/
theorem pause_effective (hrun : Run (system sv started) (.idle w) h c)
    (hm : Meets PausesBetween h) : PauseEffective h c := by
  have h0 : PauseKept ([] : History V) (.idle w : State V) :=
    { between := fun _ => rfl
      copies := trivial
      held := fun _ hp => absurd hp not_since_nil }
  have hI : PauseKept h c := by
    refine hrun.invariant h0 ?_ (hm.and ((worker_keeps hrun).and (deletes_caught hrun)))
    intro h c l c' hI ⟨hc, hb, hd⟩ hs
    exact pauseKept_step hI hc hb hd hs
  exact ⟨pauseInEffect_of_returned hrun, hI.copies,
    fun p hp => CacheIndex.mem_pendingJobs.2 (hI.held p hp).1⟩

/-! ## A pause within a batch -/

/-- The service starts, the worker begins the first copy, and the pause comes. -/
def pauseSchedule (tail : List (Move Party Operation ℤ)) : List (Move Party Operation ℤ) :=
  .call .control .start :: steps .control 5 ++
  .call .worker .workerIteration :: steps .worker 8 ++
  .call .control (.setPaused true) :: steps .control 1 ++ tail

/-- In batches of one the next pass finds the flag set: the other file is not copied, and its
job stays. -/
theorem pause_effective_after_copy :
    ∃ h c, Run (system (diskService { dueBatchSize := 1 }) started)
        (.idle { index := twoJobIndex, volume := {}, clock := 600000000 }) h c ∧
      PauseAsked h ∧ Held [97] h ∧ PauseEffective h c := by
  obtain ⟨h, c, hrun, hm, hasked, hheld⟩ := exists_run { dueBatchSize := 1 } started
    { index := twoJobIndex, volume := {}, clock := 600000000 }
    (pauseSchedule (steps .worker 2 ++ .call .worker .workerIteration :: steps .worker 2))
    (fun x => Meets PausesBetween x.1 ∧ PauseAsked x.1 ∧ Held [97] x.1) (by decide +kernel)
  exact ⟨h, c, hrun, hasked, hheld, pause_effective hrun hm⟩

/-- **A pause within a batch does not stop it**: the other file is copied after
`set_paused(true)` has returned. -/
theorem copy_in_pause :
    ∃ h c, Run (system (diskService {}) started)
        (.idle { index := twoJobIndex, volume := {}, clock := 600000000 }) h c ∧
      PauseAsked h ∧ (c.prog .control).Done ∧ ¬ PauseEffective h c := by
  obtain ⟨h, c, hrun, hasked, hd, hcopy⟩ := exists_run {} started
    { index := twoJobIndex, volume := {}, clock := 600000000 } (pauseSchedule (steps .worker 3))
    (fun x => PauseAsked x.1 ∧ (x.2.prog .control).Done ∧ ¬ Meets CopiesUnpaused x.1)
    (by decide +kernel)
  exact ⟨h, c, hrun, hasked, hd, fun heff => hcopy heff.copies⟩

end SsdCache
