import SsdCache.Proof.QuietPeriod
import SsdCache.Proof.Sequential
import Mathlib.Data.List.Chain

/-!
# Bursts of accesses

Events, worker iterations, stops and starts run one at a time. A copied path has no
row until its next access, and a batch names no path twice, so between two accesses of
a path there is one copy at most; and none between accesses that are closer than the
copy delay, since the row is due after the later one.

* `orderly_of_run`: what every step of such a run keeps.
* `burst_copied_once`: a burst of accesses is copied at most once, when it is due.
* `burst_copied_twice`: a copy whose row cannot be removed is made again.
-/

namespace SsdCache

open Atomic

variable {V : Type} {sv : Service V} {w w' : World V} {h : History V} {c : State V} {a : Call}
variable {p : WString} {l : Event} {t : Party}

/-- When the access of `p` that a step recorded was observed. -/
def accessTime (p : WString) (l : Event) : Option ℤ :=
  (recorded p l).bind fun e => if shouldScheduleCopy e.1.kind then some e.1.observedAt else none

/-- When the accesses of `p` were observed. -/
def accessTimes (p : WString) (h : History V) : List ℤ := h.filterMap fun x => accessTime p x.2

/-- The copies of `p`, with the worlds they were made in. -/
def copiesOf (p : WString) (h : History V) : History V := h.filter fun x => Copies p x.2

/-- How often `p` was copied since its last access. -/
def copiesSince (p : WString) : History V → ℕ
  | [] => 0
  | (_, l) :: h => if Accesses p l then 0 else (if Copies p l then 1 else 0) + copiesSince p h

/-- The engine copies. -/
def copied : Event → Bool
  | .act _ (.copyAndHash _ _ _ _) (.ok r) => CopyResult.action r = .copied
  | .act _ (.copyAndHash _ _ _ _) (.error _) => false
  | _ => true

/-- What it copied is written down. -/
def booked : Event → Bool
  | .act _ (.update (.markCached _ _ _ _ _)) (.error _) => false
  | .act _ (.update (.removePendingJob _)) (.error _) => false
  | _ => true

/-- Clock readings and due times are between 1970 and year 9999, and the engine copies. -/
def Copying : Condition V := fun _ w l =>
  copied l = true ∧ InRange w.clock ∧ ∀ p ∈ eventPath l, ∀ e ∈ recorded p l,
    shouldScheduleCopy e.1.kind = true → InRange (e.1.observedAt + e.2 * ticksPerSecond)

/-- The same, and the calls that book a copy return. -/
def Serving : Condition V := fun h w l => Copying h w l ∧ booked l = true

/-- At time `t`, every access was observed and every copy made. -/
def Passed (sv : Service V) (t : ℤ) (h : History V) : Prop :=
  ∀ x ∈ h, (∀ p, Copies p x.2 → x.1.clock ≤ t) ∧
    ∀ p, ∀ d ∈ scheduled p x.2, d ≤ t + sv.settings.copyDelay * ticksPerSecond

/-- What every step keeps: a copy is the first since the access and since the batch was
queried, no job is retried, and accesses come in the order observed. -/
def Orderly (sv : Service V) : Condition V := fun h _ l =>
  (∀ p, Copies p l → copiesSince p h = 0 ∧ newDues p h = []) ∧ retried l = none ∧
    calledWith l = none ∧ (∀ now ∈ batchStart l, InRange now) ∧
    ∀ p, ∀ d ∈ scheduled p l, ∃ o, accessTime p l = some o ∧
      d = o + sv.settings.copyDelay * ticksPerSecond ∧ Passed sv o h

theorem Passed.mono {t u : ℤ} (htu : t ≤ u) (hp : Passed sv t h) : Passed sv u h := by
  intro x hx
  refine ⟨fun p hc => ((hp x hx).1 p hc).trans htu, fun p d hd => ?_⟩
  exact ((hp x hx).2 p d hd).trans (by omega)

/-- A step that is neither a copy nor a write copies nothing. -/
theorem copiesSince_frame (hc : copyAnswer p l = none) (hu : committed l = none) :
    copiesSince p ((w, l) :: h) = copiesSince p h := by
  simp [copiesSince, Accesses, Copies, scheduled, recorded, hc, hu]

theorem passed_frame {u : ℤ} (hc : ∀ p, copyAnswer p l = none) (hu : committed l = none)
    (hp : Passed sv u h) : Passed sv u ((w, l) :: h) := by
  refine List.forall_mem_cons.2 ⟨⟨fun p hcopy => ?_, fun p d hd => ?_⟩, hp⟩
  · simp [Copies, hc p] at hcopy
  · simp [scheduled, recorded, hu] at hd

/-! ## Calls that neither copy nor schedule -/

/-- Calls that make no copy, record no access, put no row and begin no batch. -/
def Call.Steady : Call → Prop
  | .copyAndHash _ _ _ _ | .query (.dueJobs _ _) => False
  | .update (.recordAccess _ _) | .update (.upsertPendingJob _ _ _) => False
  | _ => True

theorem Call.ByControl.steady (ha : a.ByControl) : a.Steady := by
  cases a with
  | query q => cases q <;> trivial
  | update u => exact ha.elim
  | copyAndHash p s c m => exact ha
  | _ => trivial

theorem Call.ByPass.steady (ha : a.ByPass) : a.Steady := by
  cases a with
  | query q =>
    cases q with
    | pendingJob p => trivial
    | _ => exact ha.elim
  | update u =>
    cases u with
    | recordError p m => trivial
    | _ => exact ha.elim
  | copyAndHash p s c m => exact ha
  | _ => trivial

namespace Call.Steady

variable {r : Except String a.Answer}

theorem copies (ha : a.Steady) : ¬ Copies p (.act t a r) := by
  cases a with
  | copyAndHash q s c m => exact ha.elim
  | _ => simp [Copies, copyAnswer]

theorem not_puts (ha : a.Steady) : ¬ a.Puts := by
  cases a with
  | update u =>
    cases u with
    | recordAccess event d => exact ha.elim
    | upsertPendingJob q due m => exact ha.elim
    | _ => exact id
  | _ => exact id

theorem written (ha : a.Steady) {u : Update} (hu : a.written r = some u) :
    (∀ event d, u ≠ .recordAccess event d) ∧ ∀ q due m, u ≠ .upsertPendingJob q due m := by
  cases Call.eq_of_written hu
  constructor
  · rintro event d rfl
    exact ha
  · rintro q due m rfl
    exact ha

theorem scheduled (ha : a.Steady) : scheduled p (.act t a r) = none :=
  Call.scheduled_of_not_puts ha.not_puts

theorem retried (ha : a.Steady) : retried (.act t a r) = none := by
  cases hu : a.written r with
  | none => simp [SsdCache.retried, committed, hu]
  | some u =>
    have hne := (ha.written hu).2
    cases u with
    | upsertPendingJob q due m => exact absurd rfl (hne q due m)
    | _ => simp [SsdCache.retried, committed, hu]

theorem batchStart (ha : a.Steady) : batchStart (.act t a r) = none := by
  cases a with
  | query q =>
    cases q with
    | dueJobs now limit => exact ha.elim
    | _ => rfl
  | _ => rfl

theorem job (ha : a.Steady) (hx : exec sv w a r w') (hj : w.index.job p = none) :
    w'.index.job p = none := by
  rw [exec_job hx, hj]
  cases hu : a.written r with
  | none => rfl
  | some u =>
    obtain ⟨hrec, hup⟩ := ha.written hu
    cases u with
    | recordAccess event d => exact absurd rfl (hrec event d)
    | upsertPendingJob q due m => exact absurd rfl (hup q due m)
    | _ => simp [Update.onJob]

theorem orderly (ha : a.Steady) : Orderly sv h w (.act t a r) := by
  refine ⟨fun p hc => absurd hc ha.copies, ha.retried, rfl, ?_, ?_⟩
  · rw [ha.batchStart]
    rintro now ⟨⟩
  · intro p
    rw [ha.scheduled]
    rintro d ⟨⟩

theorem copiesSince (ha : a.Steady) : copiesSince p (acted w t r h) = copiesSince p h := by
  have hacc : ¬ Accesses p (.act t a r) := by simp [Accesses, ha.scheduled]
  rw [SsdCache.copiesSince, if_neg hacc, if_neg ha.copies, zero_add]

theorem newDues (ha : a.Steady) : newDues p (acted w t r h) = newDues p h := by
  simp [SsdCache.newDues, ha.batchStart, ha.scheduled]

theorem passed (ha : a.Steady) {u : ℤ} (hp : Passed sv u h) : Passed sv u (acted w t r h) := by
  refine List.forall_mem_cons.2 ⟨⟨fun p hc => absurd hc ha.copies, fun p => ?_⟩, hp⟩
  rw [ha.scheduled]
  rintro d ⟨⟩

end Call.Steady

/-! ## The outline -/

/-- Between two operations: a copied path has no row until its next access. -/
structure Settled (sv : Service V) (x : History V × World V) : Prop where
  passed : Passed sv x.2.clock x.1
  single : ∀ p, copiesSince p x.1 = 0 ∨ x.2.index.job p = none

/-- Inside a batch, with `js` left; the row of `k` is about to go. -/
structure Left (sv : Service V) (k : Option WString) (js : List PendingJob)
    (x : History V × World V) : Prop where
  passed : Passed sv x.2.clock x.1
  fresh : ∀ p, newDues p x.1 = []
  nodup : (js.map (·.relativePath)).Nodup
  single : ∀ p, copiesSince p x.1 = 0 ∨
    (p ∉ js.map (·.relativePath) ∧ (x.2.index.job p = none ∨ k = some p))

theorem Left.settled {js : List PendingJob} {x : History V × World V} (hx : Left sv none js x) :
    Settled sv x :=
  ⟨hx.passed, fun p => (hx.single p).imp_right fun hp => hp.2.elim id fun hk => by cases hk⟩

theorem Left.tail {j : PendingJob} {js : List PendingJob} {k : Option WString}
    {x : History V × World V} (hx : Left sv k (j :: js) x) : Left sv k js x :=
  ⟨hx.passed, hx.fresh, hx.nodup.of_cons,
    fun p => (hx.single p).imp_right fun hp => ⟨fun hmem => hp.1 (List.mem_cons_of_mem _ hmem), hp.2⟩⟩

/-- The contract of one call at a time. -/
abbrev burstContract (sv : Service V) (t : Party) : Contract calls String (History V × World V) :=
  serialContract sv sequentialService Serving (fun x a r _ => ∀ t, Orderly sv x.1 x.2 (.act t a r)) t

theorem passed_tick {clock : ℤ} (hle : w.clock ≤ clock) (hp : Passed sv w.clock h) :
    Passed sv clock ((w, .env) :: h) :=
  passed_frame (fun _ => rfl) rfl (hp.mono hle)

theorem settled_tick {clock : ℤ} (hle : w.clock ≤ clock) (hI : Settled sv (h, w)) :
    Settled sv ((w, .env) :: h, { w with clock }) :=
  ⟨passed_tick hle hI.passed, fun p => by rw [copiesSince_frame rfl rfl]; exact hI.single p⟩

theorem stable_settled : (burstContract sv t).Stable (Settled sv) := stable_of_tick settled_tick

theorem stable_left {k : Option WString} {js : List PendingJob} :
    (burstContract sv t).Stable (Left sv k js) :=
  stable_of_tick fun hle hI => ⟨passed_tick hle hI.passed, hI.fresh, hI.nodup,
    fun p => by rw [copiesSince_frame rfl rfl]; exact hI.single p⟩

theorem Settled.steady {r : Except String a.Answer} (ha : a.Steady) (hx : exec sv w a r w')
    (hI : Settled sv (h, w)) : Settled sv (acted w t r h, w') where
  passed := by
    rw [exec_clock hx]
    exact ha.passed hI.passed
  single p := by
    rw [ha.copiesSince]
    exact (hI.single p).imp_right (ha.job hx)

theorem Left.steady {r : Except String a.Answer} {k : Option WString} {js : List PendingJob}
    (ha : a.Steady) (hx : exec sv w a r w') (hI : Left sv k js (h, w)) :
    Left sv k js (acted w t r h, w') where
  passed := by
    rw [exec_clock hx]
    exact ha.passed hI.passed
  fresh p := by rw [ha.newDues, hI.fresh]
  nodup := hI.nodup
  single p := by
    rw [ha.copiesSince]
    exact (hI.single p).imp_right fun hp => ⟨hp.1, hp.2.imp_left (ha.job hx)⟩

/-- A steady call between operations. -/
theorem settled_triple {R : Except String a.Answer → History V × World V → Prop} (ha : a.Steady)
    (hR : ∀ {h w r w'}, exec sv w a r w' → InRange w.clock → Settled sv (acted w t r h, w') →
      R r (acted w t r h, w')) : (burstContract sv t).Triple (Settled sv) a R :=
  serial_triple stable_settled fun hx hc hI => ⟨fun _ => ha.orderly, hR hx hc.1.2.1 (hI.steady ha hx)⟩

/-- A steady call inside a batch. -/
theorem left_triple {R : Except String a.Answer → History V × World V → Prop}
    {k : Option WString} {js : List PendingJob} (ha : a.Steady)
    (hR : ∀ {h w r w'}, Serving h w (.act t a r) → Left sv k js (acted w t r h, w') →
      R r (acted w t r h, w')) : (burstContract sv t).Triple (Left sv k js) a R :=
  serial_triple stable_left fun hx hc hI => ⟨fun _ => ha.orderly, hR hc (hI.steady ha hx)⟩

theorem left_other {js : List PendingJob} (ha : a.Steady) :
    (burstContract sv t).Triple (Left sv none js) a
      (onOk (α := a.Answer) (fun _ => Left sv none js) (Settled sv)) :=
  left_triple ha fun {_ _ r _} _ hz => onOk_of_forall (fun _ => Left.settled) r _ hz

/-- What the batch finds was not copied since its last access. -/
theorem left_of_query {now : ℤ} {jobs : List PendingJob}
    (hx : exec sv w (.query (.dueJobs now sv.settings.dueBatchSize)) (.ok jobs) w')
    (hI : Settled sv (h, w)) :
    Left sv none jobs
      (acted w .worker (a := .query (.dueJobs now sv.settings.dueBatchSize)) (.ok jobs) h, w') where
  passed := by
    rw [exec_clock hx]
    exact passed_frame (fun _ => rfl) rfl hI.passed
  fresh p := rfl
  nodup := hx.1.nodup
  single p := by
    have hjob : w'.index.job p = w.index.job p := exec_job hx p
    rw [hjob, copiesSince_frame rfl rfl]
    refine (hI.single p).imp_right fun hnone => ⟨fun hmem => ?_, .inl hnone⟩
    obtain ⟨j, hj, rfl⟩ := List.mem_map.1 hmem
    obtain ⟨row, hrow, -⟩ := hx.1.job hj
    rw [hnone] at hrow
    cases hrow

/-- The copy of the first job left. -/
theorem left_of_copy {j : PendingJob} {js : List PendingJob} {s c : WString} {m : Bool}
    {r : Except String CopyResult} (hx : exec sv w (.copyAndHash j.relativePath s c m) r w')
    (hI : Left sv none (j :: js) (h, w)) :
    Orderly sv h w (.act t (.copyAndHash j.relativePath s c m) r) ∧
      Left sv (some j.relativePath) js
        (acted w t (a := .copyAndHash j.relativePath s c m) r h, w') := by
  have hfirst : copiesSince j.relativePath h = 0 :=
    (hI.single j.relativePath).resolve_right fun hp => hp.1 List.mem_cons_self
  have hcopy : ∀ {p}, Copies p (.act t (.copyAndHash j.relativePath s c m) r) → p = j.relativePath := by
    intro p hp
    by_contra hne
    simp [Copies, copyAnswer, hne] at hp
  refine ⟨⟨fun p hp => ?_, rfl, rfl, nofun, nofun⟩, ?_, hI.fresh, hI.nodup.of_cons, fun p => ?_⟩
  · rw [hcopy hp]
    exact ⟨hfirst, hI.fresh _⟩
  · rw [exec_clock hx]
    exact List.forall_mem_cons.2 ⟨⟨fun p _ => le_rfl, nofun⟩, hI.passed⟩
  · by_cases hp : p = j.relativePath
    · rw [hp]
      exact .inr ⟨(List.nodup_cons.1 hI.nodup).1, .inr rfl⟩
    · have hjob : w'.index.job p = w.index.job p := exec_job hx p
      rw [hjob, copiesSince_frame (by simp [copyAnswer, hp]) rfl]
      exact (hI.tail.single p).imp_right fun hq => ⟨hq.1, .inl (hq.2.resolve_right nofun)⟩

/-- No call comes from a point that is not reached. -/
theorem triple_of_false {R : Except String a.Answer → History V × World V → Prop} :
    (burstContract sv t).Triple (fun _ => False) a R :=
  ⟨fun _ _ _ => id, fun hy => hy.elim⟩

/-- A batch of an engine that copies. -/
def burstBatch (now : ℤ) : BatchOutline (burstContract sv .worker) sv now where
  start x := Settled sv x ∧ InRange now
  loop js := Left sv none js
  removed _ js := Left sv none js
  missing _ _ _ := False
  failed _ _ _ := False
  erred _ _ _ := False
  retried _ _ _ := False
  cached j js := Left sv (some j.relativePath) js
  marked j js := Left sv (some j.relativePath) js
  post := Settled sv
  thrown := Settled sv
  due := by
    refine serial_triple (stable_of_tick fun hle hI => ⟨settled_tick hle hI.1, hI.2⟩) ?_
    intro h w r w' hx hc hI
    cases r with
    | error e =>
      have hclock : w'.clock = w.clock := exec_clock hx
      refine ⟨fun t => ⟨nofun, rfl, rfl, nofun, nofun⟩, ?_, fun p => ?_⟩
      · rw [hclock]
        exact passed_frame (fun _ => rfl) rfl hI.1.passed
      · have hjob : w'.index.job p = w.index.job p := exec_job hx p
        rw [hjob, copiesSince_frame rfl rfl]
        exact hI.1.single p
    | ok jobs =>
      refine ⟨fun t => ⟨nofun, rfl, rfl, ?_, nofun⟩, left_of_query hx hI.1⟩
      rintro _ ⟨⟩
      exact hI.2
  record _ _ := left_other trivial
  victims _ := left_other trivial
  free _ := left_other trivial
  evict v j js _ := left_triple trivial fun {_ _ r _} _ hz => by
    cases r with
    | error e => exact hz.settled
    | ok r =>
      dsimp only [onOk]
      split <;> exact hz
  mark _ _ := left_other trivial
  copy j js := serial_triple stable_left fun {h w r w'} hx hc hI => by
    refine ⟨fun t => (left_of_copy hx hI).1, ?_⟩
    cases r with
    | error e => exact absurd hc.1.1 Bool.false_ne_true
    | ok r =>
      have hr : CopyResult.action r = .copied := of_decide_eq_true hc.1.1
      dsimp only [onOk]
      rw [hr]
      exact (left_of_copy hx hI).2
  remove _ _ := triple_of_false
  error _ _ _ := triple_of_false
  retry _ _ _ := triple_of_false
  push _ _ := triple_of_false
  cache _ _ _ _ _ _ := left_triple trivial fun {_ _ r _} hc hz => by
    cases r with
    | error e => exact absurd hc.2 Bool.false_ne_true
    | ok _ => exact hz
  drop j js := serial_triple stable_left fun {h w r w'} hx hc hI => by
    have ha : Call.Steady (.update (.removePendingJob j.relativePath)) := trivial
    refine ⟨fun _ => ha.orderly, ?_⟩
    cases r with
    | error e => exact absurd hc.2 Bool.false_ne_true
    | ok _ =>
      have hz := hI.steady (t := .worker) ha hx
      refine ⟨hz.passed, hz.fresh, hz.nodup, fun p => (hz.single p).imp_right fun hp => ⟨hp.1, ?_⟩⟩
      rcases hp.2 with hnone | hk
      · exact .inl hnone
      · cases hk
        left
        rw [exec_job hx]
        simp [Call.written, Update.onJob]
  done hx := hx.settled
  stable_loop _ := stable_left
  stable_post := stable_settled
  stable_thrown := stable_settled

/-- A pass of the worker loop. -/
def burstWorker : WorkerOutline (burstContract sv .worker) sv :=
  .constant (Settled sv) stable_settled burstBatch
    (fun ha => settled_triple ha.steady fun _ _ => id)
    (settled_triple trivial fun {_ w r w'} hx hrange hz => by
      cases r with
      | error e => exact hz
      | ok t =>
        obtain ⟨-, ht, -⟩ := exec_memoryCall hx
        exact ⟨hz, by rw [show t = w.clock from ht]; exact hrange⟩)
    id id

/-- While an event is recorded: nothing that was copied or accessed is later. -/
def Recording (sv : Service V) (event : AccessEvent) (x : History V × World V) : Prop :=
  Settled sv x ∧ Passed sv event.observedAt x.1 ∧ event.observedAt ≤ x.2.clock

theorem accessTime_recordAccess {event : AccessEvent} {d : ℤ}
    (hp : p = event.relativePath ∧ p ≠ [] ∧ shouldScheduleCopy event.kind = true) :
    accessTime p (.act t (.update (.recordAccess event d)) (.ok ())) = some event.observedAt := by
  rw [accessTime, recorded_recordAccess, if_pos ⟨hp.1, hp.2.1⟩, Option.bind_some]
  exact if_pos hp.2.2

/-- The access itself. -/
theorem recording_access {event : AccessEvent}
    (hx : exec sv w (.update (.recordAccess event sv.settings.copyDelay)) (.ok ()) w')
    (hc : Serving h w (.act t (.update (.recordAccess event sv.settings.copyDelay)) (.ok ())))
    (hI : Recording sv event (h, w)) :
    (∀ u, Orderly sv h w (.act u (.update (.recordAccess event sv.settings.copyDelay)) (.ok ()))) ∧
      Recording sv event (acted w t
        (a := .update (.recordAccess event sv.settings.copyDelay)) (.ok ()) h, w') := by
  obtain ⟨hset, hpassed, hle⟩ := hI
  have hsched : ∀ {u p d}, d ∈ scheduled p (.act u (.update (.recordAccess event sv.settings.copyDelay))
      (.ok ())) → (p = event.relativePath ∧ p ≠ [] ∧ shouldScheduleCopy event.kind = true) ∧
        d = event.observedAt + sv.settings.copyDelay * ticksPerSecond := by
    intro u p d hd
    rw [scheduled_recordAccess] at hd
    split at hd
    · rename_i hp
      cases hd
      refine ⟨hp, addSeconds_eq (hc.1.2.2 p ?_ (event, _) ?_ hp.2.2)⟩
      · simp [eventPath, committed, Call.written, hp.1]
      · exact recorded_recordAccess.trans (if_pos ⟨hp.1, hp.2.1⟩)
    · cases hd
  have hcons : ∀ {u}, event.observedAt ≤ u → Passed sv u h → Passed sv u (acted w t
      (a := .update (.recordAccess event sv.settings.copyDelay)) (.ok ()) h) := by
    intro u hu hp
    refine List.forall_mem_cons.2 ⟨⟨nofun, fun p d hd => ?_⟩, hp⟩
    rw [(hsched hd).2]
    omega
  have hclock : w'.clock = w.clock := exec_clock hx
  refine ⟨fun u => ⟨nofun, rfl, rfl, nofun, fun p d hd => ?_⟩, ⟨?_, fun p => ?_⟩, hcons le_rfl hpassed, ?_⟩
  · obtain ⟨hp, rfl⟩ := hsched hd
    exact ⟨_, accessTime_recordAccess hp, rfl, hpassed⟩
  · rw [hclock]
    exact hcons hle hset.passed
  · rw [copiesSince, exec_job hx]
    split
    · exact .inl rfl
    · rename_i hacc
      rw [if_neg (by simp [Copies, copyAnswer]), zero_add]
      refine (hset.single p).imp_right fun hnone => ?_
      have hp : ¬ (p = event.relativePath ∧ p ≠ [] ∧ shouldScheduleCopy event.kind = true) := by
        intro hp
        exact hacc (congrArg Option.isSome (scheduled_recordAccess.trans (if_pos hp)))
      have hnone : w.index.job p = none := hnone
      rw [hnone]
      exact if_neg hp
  · rw [hclock]
    exact hle

theorem stable_recording {event : AccessEvent} : (burstContract sv t).Stable (Recording sv event) :=
  stable_of_tick fun hle hI =>
    ⟨settled_tick hle hI.1, passed_frame (fun _ => rfl) rfl hI.2.1, hI.2.2.trans hle⟩

/-- One call of an event. -/
theorem recording_step {event : AccessEvent} {r : Except String a.Answer}
    (ha : a.Records sv event) (hx : exec sv w a r w') (hc : Serving h w (.act t a r))
    (hI : Recording sv event (h, w)) :
    (∀ u, Orderly sv h w (.act u a r)) ∧ Recording sv event (acted w t r h, w') := by
  have hclock : w'.clock = w.clock := exec_clock hx
  have steady : a.Steady →
      (∀ u, Orderly sv h w (.act u a r)) ∧ Recording sv event (acted w t r h, w') :=
    fun hs => ⟨fun _ => hs.orderly, hI.1.steady hs hx, hs.passed hI.2.1, hI.2.2.trans hclock.ge⟩
  cases a with
  | update u =>
    rcases ha with rfl | rfl
    · exact steady trivial
    · cases r with
      | ok _ => exact recording_access hx hc hI
      | error e =>
        refine ⟨fun u => ⟨nofun, rfl, rfl, nofun, nofun⟩, ⟨?_, fun p => ?_⟩, ?_, hI.2.2.trans hclock.ge⟩
        · rw [hclock]
          exact passed_frame (fun _ => rfl) rfl hI.1.passed
        · have hjob : w'.index.job p = w.index.job p := exec_job hx p
          rw [hjob, copiesSince_frame rfl rfl]
          exact hI.1.single p
        · exact passed_frame (fun _ => rfl) rfl hI.2.1
  | memory m => exact steady trivial
  | _ => exact ha.elim

/-- One operation at a time. -/
def burstOutline : SerialOutline sv sequentialService Serving where
  keep x a r _ := ∀ t, Orderly sv x.1 x.2 (.act t a r)
  inv := Settled sv
  alone hm := (sequentialService_cases hm).1
  tick := settled_tick
  body {t h c o} hm hc hinv := by
    have hcall : Settled sv ((c.world, .call t o) :: h, c.world) :=
      ⟨passed_frame (fun _ => rfl) rfl hinv.passed,
        fun p => by rw [copiesSince_frame rfl rfl]; exact hinv.single p⟩
    have control : (o.body sv).Only Call.ByControl → (o.body sv).Safe (burstContract sv t)
        (fun _ => Settled sv) ((c.world, .call t o) :: h, c.world) := by
      intro honly
      refine honly.safe stable_settled ?_ hcall
      intro y a r z ha hI hs
      obtain ⟨hx, -, hz⟩ := hs
      obtain ⟨h, w⟩ := y
      obtain ⟨h', w'⟩ := z
      cases hz
      have hsteady : a.Steady := ha.steady
      exact ⟨fun _ => hsteady.orderly, hI.steady hsteady hx⟩
    rcases (sequentialService_cases hm).2 with
      ⟨event, rfl, rfl, hnow⟩ | ⟨rfl, rfl⟩ | ⟨rfl, rfl | rfl | rfl⟩
    · have hstart : Recording sv event ((c.world, .call .events (.recordEvent event)) :: h, c.world) :=
        ⟨hcall, by rw [hnow]; exact hcall.passed, hnow.le⟩
      refine Prog.safe_mono (fun _ _ hI => hI.1)
        ((recordEvent_records event).safe stable_recording ?_ hstart)
      intro y a r z ha hI hs
      obtain ⟨hx, hcond, hz⟩ := hs
      obtain ⟨h, w⟩ := y
      obtain ⟨h', w'⟩ := z
      cases hz
      exact recording_step ha hx hcond hI
    · exact burstWorker.safe hcall
    · exact control start_only
    · exact control (Prog.only_perform trivial)
    · exact control joinWorker_only

/-- **Every step of a run is orderly.** -/
theorem orderly_of_run (hrun : Run (system sv sequentialService) (.idle w) h c)
    (hm : Meets Serving h) : Meets (Orderly sv) h := by
  have h0 : Settled sv ([], w) := ⟨fun _ hx => absurd hx List.not_mem_nil, fun _ => .inl rfl⟩
  refine burstOutline.outline.meets_of_run (fun hkeep => hkeep _) ?_ ?_ h0 hrun hm
  · intro t h c o hmenu
    refine ⟨nofun, rfl, ?_, nofun, nofun⟩
    rcases (sequentialService_cases hmenu).2 with ⟨event, -, rfl, -⟩ | ⟨-, rfl⟩ | ⟨-, rfl | rfl | rfl⟩
    all_goals rfl
  · exact ⟨nofun, rfl, rfl, nofun, nofun⟩

/-- A scheduled copy is due when the access asks for it. -/
theorem due_of_scheduled {d : ℤ} (hc : Serving h w l) (hd : scheduled p l = some d) : InRange d := by
  have hpath := eventPath_of_scheduled hd
  unfold scheduled at hd
  obtain ⟨e, he, hd⟩ := Option.bind_eq_some_iff.1 hd
  split at hd
  · rename_i hk
    cases hd
    have hrange := hc.1.2.2 p hpath e he hk
    rw [addSeconds_eq hrange]
    exact hrange
  · cases hd

/-- An orderly run keeps the quiet period. -/
theorem timely_of_orderly (hc : Meets Serving h) (ho : Meets (Orderly sv) h) :
    Meets (Timely True) h := by
  refine (hc.and ho).mono fun {h w l} hl => ⟨⟨fun p _ d' hd' => ?_, ?_, ?_⟩, ?_, fun _ => ?_⟩
  · refine ⟨due_of_scheduled hl.1 hd', fun d hd => ?_⟩
    obtain ⟨o, -, rfl, hpassed⟩ := hl.2.2.2.2.2 p d' hd'
    obtain ⟨x, hx, hs⟩ := mem_dues.1 hd
    exact (hpassed x hx).2 p d hs
  · exact hl.2.2.2.2.1
  · rw [hl.2.2.1]
    rintro q ⟨⟩
  · intro q hq
    rw [hl.2.2.1] at hq
    cases hq
  · rw [hl.2.2.2.1]
    rintro now ⟨⟩

/-! ## Bursts -/

/-- Consecutive accesses are at most `copy_delay - 1` seconds apart, newest first. -/
def IsBurst (sv : Service V) (times : List ℤ) : Prop :=
  times.IsChain fun later earlier =>
    later ≤ earlier + (sv.settings.copyDelay - 1) * ticksPerSecond

/-- In the window from the first access of a burst on, copies happen after the last one. -/
structure BurstWindow (sv : Service V) (p : WString) (late : History V) (first : World V × Event)
    (early : History V) : Prop where
  since : (copiesOf p late).length = copiesSince p (late ++ first :: early)
  once : (copiesOf p late).length ≤ 1
  last : ∃ o, (accessTimes p (late ++ [first])).head? = some o ∧
    o + sv.settings.copyDelay * ticksPerSecond ∈ dues p (late ++ first :: early) ∧
    InRange (o + sv.settings.copyDelay * ticksPerSecond) ∧
    ∀ x ∈ copiesOf p late,
      floorToSeconds (o + sv.settings.copyDelay * ticksPerSecond) ≤ x.1.clock

/-- What the steps of a run keep. -/
def Kept (sv : Service V) : Condition V := fun h w l =>
  (Serving h w l ∧ Orderly sv h w l) ∧ CopiesDue True h w l

theorem kept_of_run (hrun : Run (system sv sequentialService) (.idle w) h c)
    (hm : Meets Serving h) : Meets (Kept sv) h := by
  have ho := orderly_of_run hrun hm
  exact (hm.and ho).and
    (copies_due (run_concurrent sequentialService_concurrent hrun) (timely_of_orderly hm ho))

/-- An access of `p` was observed at a time, and scheduled. -/
theorem accessTime_of_accesses (hk : Kept sv h w l) (ha : Accesses p l) :
    ∃ o, accessTime p l = some o ∧
      scheduled p l = some (o + sv.settings.copyDelay * ticksPerSecond) ∧
      InRange (o + sv.settings.copyDelay * ticksPerSecond) ∧ Passed sv o h := by
  obtain ⟨d, hd⟩ := Option.isSome_iff_exists.1 ha
  obtain ⟨o, ho, rfl, hpassed⟩ := hk.1.2.2.2.2.2 p d hd
  exact ⟨o, ho, hd, due_of_scheduled hk.1.1 hd, hpassed⟩

/-- An access and a copy are different steps. -/
theorem not_copies_of_accesses (ha : Accesses p l) : ¬ Copies p l := by
  intro hc
  rw [copies_iff] at hc
  unfold copiedPath at hc
  split at hc
  · cases ha
  · cases hc

theorem accessTime_eq_none (ha : ¬ Accesses p l) : accessTime p l = none := by
  unfold Accesses scheduled at ha
  unfold accessTime
  cases hr : recorded p l with
  | none => rfl
  | some e =>
    rw [hr, Option.bind_some] at ha
    rw [Option.bind_some]
    split
    · rename_i hk
      exact absurd (by rw [if_pos hk]; rfl) ha
    · rfl

theorem accessTimes_access {x : World V × Event} {o : ℤ} (ho : accessTime p x.2 = some o) :
    accessTimes p (x :: h) = o :: accessTimes p h :=
  List.filterMap_cons_some ho

theorem accessTimes_other (ha : ¬ Accesses p l) : accessTimes p ((w, l) :: h) = accessTimes p h :=
  List.filterMap_cons_none (accessTime_eq_none ha)

variable {first : World V × Event} {early : History V}

/-- The window of a burst that has one more access: nothing was copied before it. -/
theorem BurstWindow.access {late : History V} {o : ℤ} (hW : BurstWindow sv p late first early)
    (ho : accessTime p l = some o)
    (hd : scheduled p l = some (o + sv.settings.copyDelay * ticksPerSecond))
    (hrange : InRange (o + sv.settings.copyDelay * ticksPerSecond))
    (hpassed : Passed sv o (late ++ first :: early))
    (hgap : ∀ last ∈ (accessTimes p (late ++ [first])).head?,
      o ≤ last + (sv.settings.copyDelay - 1) * ticksPerSecond) :
    BurstWindow sv p ((w, l) :: late) first early := by
  have ha : Accesses p l := by
    rw [Accesses, hd]
    rfl
  obtain ⟨last, hlast, -, hlastRange, hcopies⟩ := hW.last
  have hnone : copiesOf p late = [] := by
    -- a copy would come after the last access is due, but before this one was observed
    refine List.eq_nil_iff_forall_not_mem.2 fun x hx => ?_
    have hafter := hcopies x hx
    have hbefore : x.1.clock ≤ o := by
      obtain ⟨hmem, hcopy⟩ := List.mem_filter.1 hx
      exact (hpassed x (List.mem_append_left _ hmem)).1 p (of_decide_eq_true hcopy)
    have hfloor := lt_floor_add hlastRange.1
    have hclose := hgap last hlast
    unfold ticksPerSecond at *
    omega
  have hcons : copiesOf p ((w, l) :: late) = [] := by
    rw [copiesOf, List.filter_cons_of_neg (by simp [not_copies_of_accesses ha])]
    exact hnone
  refine ⟨?_, by rw [hcons]; exact Nat.zero_le 1, o, ?_, List.mem_append_left _ ?_, hrange, ?_⟩
  · rw [hcons, List.cons_append, copiesSince, if_pos ha]
    rfl
  · rw [List.cons_append, accessTimes_access ho]
    rfl
  · rw [hd]
    exact List.mem_singleton_self _
  · rw [hcons]
    rintro x ⟨⟩

/-- The window with one more step that is no access. -/
theorem BurstWindow.other {late : History V} (hW : BurstWindow sv p late first early)
    (hk : Kept sv (late ++ first :: early) w l) (ha : ¬ Accesses p l) :
    BurstWindow sv p ((w, l) :: late) first early := by
  obtain ⟨last, hlast, hdue, hrange, hcopies⟩ := hW.last
  have htimes : accessTimes p ((w, l) :: late ++ [first]) = accessTimes p (late ++ [first]) :=
    accessTimes_other ha
  have hdue' : last + sv.settings.copyDelay * ticksPerSecond ∈
      dues p ((w, l) :: late ++ first :: early) := List.mem_append_right _ hdue
  by_cases hc : Copies p l
  · have hcons : copiesOf p ((w, l) :: late) = (w, l) :: copiesOf p late :=
      List.filter_cons_of_pos (decide_eq_true hc)
    obtain ⟨hzero, hnew⟩ := hk.1.2.1 p hc
    have hnone : (copiesOf p late).length = 0 := hW.since.trans hzero
    obtain ⟨now, -, hnow, hclock, hby⟩ := hk.2 p (copies_iff.1 hc)
    refine ⟨?_, by rw [hcons, List.length_cons, hnone], last, by rw [htimes, hlast], hdue', hrange, ?_⟩
    · rw [hcons, List.length_cons, hnone, List.cons_append, copiesSince, if_neg ha, if_pos hc, hzero]
    · rw [hcons]
      refine List.forall_mem_cons.2 ⟨?_, hcopies⟩
      rcases hby _ hdue with hmem | hold
      · rw [hnew] at hmem
        cases hmem
      · exact (hold.trans (floor_le hnow.1)).trans (hclock trivial)
  · have hcons : copiesOf p ((w, l) :: late) = copiesOf p late :=
      List.filter_cons_of_neg (by simp [hc])
    refine ⟨?_, by rw [hcons]; exact hW.once, last, by rw [htimes, hlast], hdue', hrange, ?_⟩
    · rw [hcons, List.cons_append, copiesSince, if_neg ha, if_neg hc, zero_add, hW.since]
    · rw [hcons]
      exact hcopies

/-- **The window of a burst**, by induction on the steps after its first access. -/
theorem burstWindow (hfirst : Accesses p first.2) : ∀ late : History V,
    Meets (Kept sv) (late ++ first :: early) → IsBurst sv (accessTimes p (late ++ [first])) →
      BurstWindow sv p late first early
  | [], hk, _ => by
    obtain ⟨o, ho, hd, hrange, -⟩ := accessTime_of_accesses hk.1 hfirst
    refine ⟨?_, Nat.zero_le 1, o, ?_, List.mem_append_left _ ?_, hrange, ?_⟩
    · show 0 = copiesSince p (first :: early)
      rw [copiesSince, if_pos hfirst]
    · show (accessTimes p [first]).head? = some o
      rw [accessTimes_access ho]
      rfl
    · rw [hd]
      exact List.mem_singleton_self _
    · rintro x ⟨⟩
  | (w, l) :: late, hk, hb => by
    by_cases ha : Accesses p l
    · obtain ⟨o, ho, hd, hrange, hpassed⟩ := accessTime_of_accesses hk.1 ha
      rw [List.cons_append, accessTimes_access ho] at hb
      obtain ⟨hgap, htail⟩ := List.isChain_cons.1 hb
      exact (burstWindow hfirst late hk.2 htail).access ho hd hrange hpassed hgap
    · rw [List.cons_append, accessTimes_other ha] at hb
      exact (burstWindow hfirst late hk.2 hb).other hk.1 ha

/-- **A burst of accesses is copied at most once**: in the window from its first access of
`p` on, in which the accesses of `p` are at most `copy_delay - 1` seconds apart, `p` is
copied at most once, and not before the copy delay after the last access has elapsed. -/
theorem burst_copied_once {late : History V}
    (hrun : Run (system sv sequentialService) (.idle w) (late ++ first :: early) c)
    (hm : Meets Serving (late ++ first :: early)) (hfirst : Accesses p first.2)
    (hburst : IsBurst sv (accessTimes p (late ++ [first]))) :
    (copiesOf p late).length ≤ 1 ∧
      ∀ last ∈ (accessTimes p (late ++ [first])).head?, ∀ x ∈ copiesOf p late,
        floorToSeconds (last + sv.settings.copyDelay * ticksPerSecond) ≤ x.1.clock := by
  have hW := burstWindow hfirst late (kept_of_run hrun hm) hburst
  obtain ⟨o, ho, -, -, hcopies⟩ := hW.last
  refine ⟨hW.once, fun last hlast => ?_⟩
  rw [Option.mem_def, ho, Option.some.injEq] at hlast
  rw [← hlast]
  exact hcopies

instance (h : History V) (w : World V) (l : Event) : Decidable (Copying h w l) :=
  inferInstanceAs (Decidable (_ ∧ _ ∧ ∀ p ∈ eventPath l, ∀ e ∈ recorded p l,
    shouldScheduleCopy e.1.kind = true → _))

instance (h : History V) (w : World V) (l : Event) : Decidable (Serving h w l) :=
  inferInstanceAs (Decidable (_ ∧ _))

instance (times : List ℤ) : Decidable (IsBurst sv times) :=
  inferInstanceAs (Decidable (List.IsChain _ times))

/-- A file is accessed at seconds 0 and 30, and the worker looks at second 90. -/
def burstSchedule : List (Move Party Operation ℤ) :=
  .call .control .start :: steps .control 5 ++
  .call .events (.recordEvent { relativePath := [97], observedAt := 0 }) :: steps .events 3 ++
  .env 300000000 ::
  .call .events (.recordEvent { relativePath := [97], observedAt := 300000000 }) :: steps .events 3 ++
  .env 900000000 ::
  .call .worker .workerIteration :: steps .worker 5 ++
  .call .worker .workerIteration :: steps .worker 10

/-- The window from a step on is a burst of `n` accesses. -/
def BurstFrom (sv : Service V) (p : WString) (n : ℕ) (late : History V) : History V → Prop
  | first :: _ => Accesses p first.2 ∧ IsBurst sv (accessTimes p (late ++ [first])) ∧
    (accessTimes p (late ++ [first])).length = n
  | [] => False

instance (n : ℕ) (late : History V) : (h : History V) → Decidable (BurstFrom sv p n late h)
  | first :: _ => inferInstanceAs (Decidable (Accesses p first.2 ∧ _ ∧ _))
  | [] => .isFalse id

theorem burst_of_two_copied_once :
    ∃ late first early c, Run (system (diskService {}) sequentialService)
        (.idle { volume := {}, clock := 0 }) (late ++ first :: early) c ∧
      (accessTimes [97] (late ++ [first])).length = 2 ∧ (copiesOf [97] late).length = 1 := by
  obtain ⟨h, c, hrun, hm, hburst, hcopied⟩ := exists_run {} sequentialService
    { volume := {}, clock := 0 } burstSchedule
    (fun x => Meets Serving x.1 ∧ BurstFrom (diskService {}) [97] 2 (x.1.take 24) (x.1.drop 24) ∧
      copiesOf [97] (x.1.take 24) ≠ []) (by decide +kernel)
  rw [← List.take_append_drop 24 h] at hrun hm
  generalize h.take 24 = late at *
  generalize h.drop 24 = rest at *
  cases rest with
  | nil => exact hburst.elim
  | cons first early =>
    obtain ⟨hfirst, hchain, htwo⟩ := hburst
    have honce := (burst_copied_once hrun hm hfirst hchain).1
    exact ⟨late, first, early, c, hrun, htwo,
      le_antisymm honce (List.length_pos_iff.2 hcopied)⟩

/-! ## A copy that is not booked -/

/-- The answers while `remove_pending_job(p)` finds the database busy. -/
def answerUnremoved (p : WString) (w : World Disk) :
    (a : Call) → Option (Except String a.Answer × World Disk)
  | .update (.removePendingJob q) =>
    if q = p then some (.error "database is locked", w) else answer w (.update (.removePendingJob q))
  | a => answer w a

theorem exec_answerUnremoved {sv : Service Disk} (hsv : sv.platform = Disk.platform)
    {w w' : World Disk} {r : Except String a.Answer} (h : answerUnremoved p w a = some (r, w')) :
    exec sv w a r w' := by
  cases a with
  | update u =>
    cases u with
    | removePendingJob q =>
      simp only [answerUnremoved] at h
      split at h
      · cases h
        exact ⟨w.index, rfl, rfl⟩
      · exact exec_answer hsv h
    | _ => exact exec_answer hsv h
  | _ => exact exec_answer hsv h

/-- Plays schedules on a disk with such a database. -/
def unremovedPlayer (sv : Service Disk) (hsv : sv.platform = Disk.platform) (menu : Menu Disk)
    (p : WString) : Player (system sv menu) ℤ :=
  { player sv hsv menu with act := answerUnremoved p, act_ok := exec_answerUnremoved hsv }

/-- A schedule that plays to a state with property `P` on such a disk. -/
theorem exists_unremoved (settings : SchedulerSettings) (menu : Menu Disk) (p : WString)
    (w : World Disk) (ms : List (Move Party Operation ℤ)) (P : History Disk × State Disk → Prop)
    [DecidablePred P]
    (hP : ((unremovedPlayer (diskService settings) rfl menu p).play ms ([], .idle w)).any
      (fun x => decide (P x)) = true) :
    ∃ h c, Run (system (diskService settings) menu) (.idle w) h c ∧ P (h, c) :=
  (unremovedPlayer _ rfl menu p).exists_run ms P hP

/-- Two files are accessed at second 0, and the worker looks twice at second 60. -/
def unremovedSchedule : List (Move Party Operation ℤ) :=
  .call .control .start :: steps .control 5 ++
  .call .events (.recordEvent { relativePath := [98], observedAt := 0 }) :: steps .events 3 ++
  .call .events (.recordEvent { relativePath := [97], observedAt := 0 }) :: steps .events 3 ++
  .env 600000000 ::
  .call .worker .workerIteration :: steps .worker 11 ++
  .call .worker .workerIteration :: steps .worker 11

/-- **A burst of one access is copied twice** when the row of its job cannot be removed after the
copy: the row is due still, and the batch for the other file finds it. -/
theorem burst_copied_twice :
    ∃ late first early c, Run (system (diskService {}) sequentialService)
        (.idle { volume := {}, clock := 0 }) (late ++ first :: early) c ∧
      Meets Copying (late ++ first :: early) ∧ Accesses [97] first.2 ∧
      (accessTimes [97] (late ++ [first])).length = 1 ∧ (copiesOf [97] late).length = 2 := by
  obtain ⟨h, c, hrun, hm, hburst, htwice⟩ := exists_unremoved {} sequentialService [97]
    { volume := {}, clock := 0 } unremovedSchedule
    (fun x => Meets Copying x.1 ∧ BurstFrom (diskService {}) [97] 1 (x.1.take 26) (x.1.drop 26) ∧
      (copiesOf [97] (x.1.take 26)).length = 2) (by decide +kernel)
  rw [← List.take_append_drop 26 h] at hrun hm
  generalize h.take 26 = late at *
  generalize h.drop 26 = rest at *
  cases rest with
  | nil => exact hburst.elim
  | cons first early => exact ⟨late, first, early, c, hrun, hm, hburst.1, hburst.2.2, htwice⟩

end SsdCache
