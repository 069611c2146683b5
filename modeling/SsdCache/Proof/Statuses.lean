import SsdCache.Proof.Lifetimes

/-!
# What the service reports

`service_main` and the handler of a stop both write `status_` and report it, without a lock.
While the service is reported as running and no stop has been signalled, the status is the
handler's (`Snapshot.Open`); before and after that it is `service_main`'s. Which of the two a
thread has, and what it has written, is its place. A thread writes only what it has
(`Writable`), and until it hands it on the other neither writes nor reports it (`Leaves`): no
step of the other falls between the four assignments of a `set_status`, and `storeStatus` may
make them at once.

* `course_followed`: **the service reports its states in the order that the service control
  manager asks for**, and signals and closes only an event that it has created, in every run
  in which no call of `service_main` fails.
-/

namespace SsdCache.ServiceMain.Statuses

open Atomic

variable {V : Type} {s : Hosting V} {w w' : MainWorld V} {h : MainHistory V} {c : MainState V}

/-! ## What is claimed -/

def startPending : ServiceStatus :=
  { currentState := .startPending, checkPoint := 1, waitHint := 3000 }

def running : ServiceStatus := { currentState := .running }

def stopPending : ServiceStatus :=
  { currentState := .stopPending, checkPoint := 1, waitHint := 3000 }

def stopped (win32ExitCode : UInt32) : ServiceStatus := { currentState := .stopped, win32ExitCode }

/-- The error of a `CreateEventW`. -/
def refusal : MainEvent → Option UInt32
  | .act _ (.inr .createStopEvent) (.ok (error : Option UInt32)) => error
  | _ => none

/-- The error of the last `CreateEventW` that failed. -/
def refused : MainHistory V → Option UInt32
  | [] => none
  | (_, l) :: h => (refusal l).or (refused h)

/-- The reports, newest first, are on their way to the end of the service, or to its end with
the error with which the event could not be created. -/
def OnCourse (refused : Option UInt32) (reported : List ServiceStatus) : Prop :=
  refused = none ∧ reported.reverse <+: [startPending, running, stopPending, stopped 0] ∨
    ∃ error, refused = some error ∧ reported.reverse <+: [startPending, stopped error]

/-- All reports have been made. -/
def Concluded (refused : Option UInt32) (reported : List ServiceStatus) : Prop :=
  refused = none ∧ reported = [stopped 0, stopPending, running, startPending] ∨
    ∃ error, refused = some error ∧ reported = [stopped error, startPending]

/-- What a call needs of the event. -/
def NeedsEvent (w : MainWorld V) : mainCalls.Act → Prop
  | .inl (.inr .signalStop) | .inr .waitForStopEvent | .inr .closeStopEvent => w.eventOpen = true
  | .inr .createStopEvent => w.eventOpen = false
  | _ => True

def UsesEvent (_ : MainHistory V) (w : MainWorld V) (l : MainEvent) : Prop :=
  ∀ t a r, l = .act t a r → NeedsEvent w a

/-- No call of `service_main` fails, but perhaps the event. -/
def smooth : MainEvent → Bool
  | .act .serviceMain _ (.error _) => false
  | l => startingSource l

abbrev Smooth (_ : MainHistory V) (_ : MainWorld V) (l : MainEvent) : Prop := smooth l = true

/-! ## The world -/

/-- What the two threads write, and the error that `service_main` was answered. -/
structure Snapshot where
  status : ServiceStatus := {}
  reported : List ServiceStatus := []
  eventOpen : Bool := false
  signalled : Bool := false
  refused : Option UInt32 := none
  deriving DecidableEq

def snapshot (x : MainHistory V × MainWorld V) : Snapshot where
  status := x.2.status
  reported := x.2.reported
  eventOpen := x.2.eventOpen
  signalled := x.2.host.stopSignalled
  refused := refused x.1

namespace Snapshot

/-- The service is reported as running, or its stop as pending. -/
def Serving (x : Snapshot) : Prop :=
  x.eventOpen = true ∧ x.refused = none ∧
    (x.reported = [running, startPending] ∧ x.signalled = false ∨
      x.reported = [stopPending, running, startPending] ∧ x.status = stopPending)

instance (x : Snapshot) : Decidable x.Serving := inferInstanceAs (Decidable (_ ∧ _))

/-- The status is the handler's. -/
def Open (x : Snapshot) : Prop := x.Serving ∧ x.signalled = false

instance (x : Snapshot) : Decidable x.Open := inferInstanceAs (Decidable (_ ∧ _))

structure Sane (x : Snapshot) : Prop where
  course : OnCourse x.refused x.reported
  running : x.reported.head?.map (·.currentState) = some .running → x.Open

end Snapshot

namespace Snapshot

/-- The snapshot after a call. -/
def after (x : Snapshot) : (a : mainCalls.Act) → Except String (mainCalls.Resp a) → Snapshot
  | .inl (.inr .signalStop), _ => { x with signalled := true }
  | .inr (.storeStatus state win32ExitCode), _ =>
    { x with status := x.status.set state win32ExitCode }
  | .inr .reportStatus, _ => { x with reported := x.status :: x.reported }
  | .inr .createStopEvent, .ok (error : Option UInt32) =>
    if error.isNone then { x with eventOpen := true } else { x with refused := error }
  | .inr .closeStopEvent, _ => { x with eventOpen := false }
  | _, _ => x

end Snapshot

/-- The calls that write to the snapshot. -/
def writes : mainCalls.Act → Bool
  | .inl (.inr .signalStop) => true
  | .inr (.storeStatus _ _) | .inr .reportStatus => true
  | .inr .createStopEvent | .inr .closeStopEvent => true
  | _ => false

def waits : mainCalls.Act → Bool
  | .inr .waitForStopEvent => true
  | _ => false

theorem after_of_not_writes {a : mainCalls.Act} (ha : writes a = false) (x : Snapshot)
    (r : Except String (mainCalls.Resp a)) : x.after a r = x := by
  rcases a with (a | a) | a
  · rfl
  · cases a with
    | signalStop => cases ha
    | _ => rfl
  · cases a with
    | storeStatus | reportStatus | createStopEvent | closeStopEvent => cases ha
    | _ => rfl

/-- A call of the host signals the event or leaves it. -/
theorem signalled_of_does {faults : Faults} {w w' : HostWorld V} {a : HostCall}
    {r : Except String a.Answer} (ha : a ≠ .signalStop) (hx : a.Does faults w r w') :
    w'.stopSignalled = w.stopSignalled := by
  cases r with
  | error e =>
    cases a with
    | loadConfig | openIndex | connect => rw [hx.2]
    | saveConfig config =>
      obtain ⟨-, config', rfl⟩ := hx
      rfl
    | _ => exact hx.elim
  | ok v =>
    cases a with
    | signalStop => exact absurd rfl ha
    | loadConfig | loadCachingActive | controlService => rw [hx.2]
    | drive a =>
      obtain ⟨drives, -, rfl⟩ := hx
      rfl
    | setPublishedPaused paused =>
      obtain rfl := hx
      split
      · rfl
      · rfl
    | _ =>
      obtain rfl := hx
      rfl

/-- **What a call does to the snapshot.** -/
theorem snapshot_of_exec {t : HostParty} {a : mainCalls.Act} {r : Except String (mainCalls.Resp a)}
    (hx : mainExec s w a r w') :
    snapshot ((w, .act t a r) :: h, w') = (snapshot (h, w)).after a r := by
  rcases a with (a | a) | a
  · obtain ⟨-, host, ⟨service, -, rfl⟩, rfl⟩ := hx
    rfl
  · obtain ⟨-, host, hdoes, rfl⟩ := hx
    by_cases ha : a = .signalStop
    · subst ha
      cases r with
      | error e => exact hdoes.elim
      | ok v =>
        obtain rfl := hdoes
        rfl
    · have hwrites : writes (Sum.inl (Sum.inr a)) = false := by
        cases a with
        | signalStop => exact absurd rfl ha
        | _ => rfl
      rw [after_of_not_writes hwrites]
      change ({ snapshot (h, w) with signalled := host.stopSignalled } : Snapshot) = snapshot (h, w)
      rw [signalled_of_does ha hdoes]
      rfl
  · obtain ⟨-, hdoes⟩ := hx
    cases r with
    | error e =>
      cases a with
      | spawnReader =>
        obtain rfl := hdoes
        rfl
      | _ => exact hdoes.elim
    | ok v =>
      cases a with
      | createStopEvent =>
        obtain rfl := hdoes
        cases v with
        | none => rfl
        | some error => rfl
      | connectPort =>
        obtain rfl := hdoes
        cases v with
        | true => rfl
        | false => rfl
      | waitForStopEvent | readerJoinable | loadStopRequested | portOpen | joinReader =>
        obtain ⟨-, rfl⟩ := hdoes
        rfl
      | _ =>
        obtain rfl := hdoes
        rfl

/-! ## Places -/

/-- At a snapshot that nobody else writes to, in the wait for the stop, or anywhere. -/
inductive Place
  | held (x : Snapshot)
  | serving
  | anywhere

/-- A thread that finds the status open finds the service running. -/
def Snapshot.Ready (x : Snapshot) : Prop := x.Open → x.status = running

/-- What the steps of the others leave to a thread. -/
def Leaves (t : HostParty) (x y : Snapshot) : Prop :=
  (x.Sane → y.Sane) ∧
    match t with
    | .serviceMain => (x.Open → y.Serving) ∧ (¬ x.Open → y = x)
    | .controls => (x.Open → y = x) ∧ (¬ x.Open → y.Ready)
    | _ => True

def Knows (t : HostParty) (q : Place) (x : Snapshot) : Prop :=
  x.Sane ∧
    match t, q with
    | .serviceMain, .held y => x = y ∧ ¬ y.Open
    | .serviceMain, .serving => x.Serving
    | .serviceMain, .anywhere => False
    | .controls, .held y => x = y ∧ y.Open
    | .controls, _ => x.Ready
    | _, _ => True

theorem Leaves.refl (t : HostParty) (x : Snapshot) : Leaves t x x := by
  refine ⟨id, ?_⟩
  cases t with
  | serviceMain => exact ⟨fun h => h.1, fun _ => rfl⟩
  | controls => exact ⟨fun _ => rfl, fun h hx => absurd hx h⟩
  | _ => trivial

theorem Leaves.trans {t : HostParty} {x y z : Snapshot} (h₁ : Leaves t x y) (h₂ : Leaves t y z) :
    Leaves t x z := by
  refine ⟨fun hx => h₂.1 (h₁.1 hx), ?_⟩
  cases t with
  | serviceMain =>
    obtain ⟨-, hopen₁, hclosed₁⟩ := h₁
    obtain ⟨-, hopen₂, hclosed₂⟩ := h₂
    refine ⟨fun hx => ?_, fun hx => ?_⟩
    · by_cases hy : y.Open
      · exact hopen₂ hy
      · rw [hclosed₂ hy]
        exact hopen₁ hx
    · obtain rfl := hclosed₁ hx
      exact hclosed₂ hx
  | controls =>
    obtain ⟨-, hopen₁, hclosed₁⟩ := h₁
    obtain ⟨-, hopen₂, hclosed₂⟩ := h₂
    refine ⟨fun hx => ?_, fun hx => ?_⟩
    · obtain rfl := hopen₁ hx
      exact hopen₂ hx
    · by_cases hy : y.Open
      · rw [hopen₂ hy]
        exact hclosed₁ hx
      · exact hclosed₂ hy
  | _ => trivial

theorem Knows.stable {t : HostParty} {q : Place} {x y : Snapshot} (hr : Leaves t x y)
    (hq : Knows t q x) : Knows t q y := by
  refine ⟨hr.1 hq.1, ?_⟩
  cases t with
  | serviceMain =>
    obtain ⟨-, hopen, hclosed⟩ := hr
    cases q with
    | held z =>
      obtain ⟨-, rfl, hz⟩ := hq
      exact ⟨hclosed hz, hz⟩
    | serving =>
      by_cases hx : x.Open
      · exact hopen hx
      · rw [show y = x from hclosed hx]
        exact hq.2
    | anywhere => exact hq.2.elim
  | controls =>
    obtain ⟨-, hopen, hclosed⟩ := hr
    have hready (hx : x.Ready) : y.Ready := by
      by_cases ho : x.Open
      · rw [show y = x from hopen ho]
        exact hx
      · exact hclosed ho
    cases q with
    | held z =>
      obtain ⟨-, rfl, hz⟩ := hq
      exact ⟨hopen hz, hz⟩
    | serving => exact hready hq.2
    | anywhere => exact hready hq.2
  | _ => trivial

/-- The snapshot when `service_main` goes on. -/
def stopping : Snapshot where
  status := stopPending
  reported := [stopPending, running, startPending]
  eventOpen := true
  signalled := true

/-- Where a thread is when it has written. -/
def Place.enter (t : HostParty) (x : Snapshot) : Place :=
  match t with
  | .serviceMain => if x.Open then .serving else .held x
  | _ => if x.Open then .held x else .anywhere

def Place.next (t : HostParty) (q : Place) (a : mainCalls.Act)
    (r : Except String (mainCalls.Resp a)) : Place :=
  match q with
  | .held x => if writes a = true then .enter t (x.after a r) else .held x
  | .serving => if waits a = true then .held stopping else .serving
  | .anywhere => .anywhere

/-- What a call needs of the snapshot. -/
def Snapshot.Needs (x : Snapshot) : mainCalls.Act → Prop
  | .inl (.inr .signalStop) | .inr .closeStopEvent => x.eventOpen = true
  | .inr .createStopEvent => x.eventOpen = false
  | _ => True

/-- A thread may write from a snapshot that is its own. -/
def Writable (t : HostParty) (q : Place) (a : mainCalls.Act) : Prop :=
  ∃ x, q = .held x ∧ x.Needs a ∧ ∀ r, (x.after a r).Sane ∧
    match t with
    | .serviceMain => (x.after a r).Ready
    | .controls => (x.after a r).Serving
    | _ => False

def Allows (t : HostParty) (q : Place) (a : mainCalls.Act) : Prop :=
  (writes a = true → Writable t q a) ∧ (waits a = true → t = .serviceMain ∧ q = .serving)

/-- The event is there when it is used, and the reports stay on course. -/
def Guard (x : MainHistory V × MainWorld V) (a : mainCalls.Act) : Prop :=
  NeedsEvent x.2 a ∧ ∀ r, ((snapshot x).after a r).Sane

/-! ### Steps -/

theorem guard_of_writable {t : HostParty} {q : Place} {a : mainCalls.Act}
    (hq : Knows t q (snapshot (h, w))) (ha : Writable t q a) (hwaits : waits a = false) :
    Guard (h, w) a := by
  obtain ⟨x, rfl, hneeds, hafter⟩ := ha
  have hx : snapshot (h, w) = x := by
    cases t with
    | serviceMain | controls => exact hq.2.1
    | worker | reader => exact (hafter (.error "")).2.elim
  subst hx
  refine ⟨?_, fun r => (hafter r).1⟩
  rcases a with (a | a) | a
  · trivial
  · cases a with
    | signalStop => exact hneeds
    | _ => trivial
  · cases a with
    | waitForStopEvent => cases hwaits
    | createStopEvent | closeStopEvent => exact hneeds
    | _ => trivial

/-- A writing step hands the snapshot on. -/
theorem write_step {t : HostParty} {q : Place} {a : mainCalls.Act}
    {r : Except String (mainCalls.Resp a)} {x : Snapshot} (hwrites : writes a = true)
    (hq : Knows t q x) (ha : Writable t q a) :
    (∀ u, u ≠ t → Leaves u x (x.after a r)) ∧ Knows t (q.next t a r) (x.after a r) := by
  obtain ⟨y, rfl, -, hafter⟩ := ha
  obtain ⟨hsane, hafter⟩ := hafter r
  have hnext : (Place.held y).next t a r = .enter t (y.after a r) := if_pos hwrites
  rw [hnext]
  cases t with
  | serviceMain =>
    obtain ⟨-, rfl, hclosed⟩ := hq
    refine ⟨fun u hu => ⟨fun _ => hsane, ?_⟩, hsane, ?_⟩
    · cases u with
      | serviceMain => exact absurd rfl hu
      | controls => exact ⟨fun h => absurd h hclosed, fun _ => hafter⟩
      | worker | reader => trivial
    · by_cases hopen : (x.after a r).Open
      · have henter : Place.enter .serviceMain (x.after a r) = .serving := if_pos hopen
        rw [henter]
        exact hopen.1
      · have henter : Place.enter .serviceMain (x.after a r) = .held (x.after a r) := if_neg hopen
        rw [henter]
        exact ⟨rfl, hopen⟩
  | controls =>
    obtain ⟨-, rfl, hopened⟩ := hq
    refine ⟨fun u hu => ⟨fun _ => hsane, ?_⟩, hsane, ?_⟩
    · cases u with
      | controls => exact absurd rfl hu
      | serviceMain => exact ⟨fun _ => hafter, fun h => absurd hopened h⟩
      | worker | reader => trivial
    · by_cases hopen : (x.after a r).Open
      · have henter : Place.enter .controls (x.after a r) = .held (x.after a r) := if_pos hopen
        rw [henter]
        exact ⟨rfl, hopen⟩
      · have henter : Place.enter .controls (x.after a r) = .anywhere := if_neg hopen
        rw [henter]
        exact fun h => absurd h hopen
  | worker | reader => exact hafter.elim

theorem snapshot_ext {x y : Snapshot} (hstatus : x.status = y.status)
    (hreported : x.reported = y.reported) (heventOpen : x.eventOpen = y.eventOpen)
    (hsignalled : x.signalled = y.signalled) (hrefused : x.refused = y.refused) : x = y := by
  cases x
  cases y
  simp only [Snapshot.mk.injEq]
  exact ⟨hstatus, hreported, heventOpen, hsignalled, hrefused⟩

/-- The wait ends when the handler has signalled. -/
theorem knows_stopping {r : Except String Unit} (hq : Knows .serviceMain .serving (snapshot (h, w)))
    (hx : mainExec s w (.inr .waitForStopEvent) r w') :
    Knows .serviceMain (.held stopping) (snapshot (h, w)) := by
  obtain ⟨-, hdoes⟩ := hx
  cases r with
  | error e => exact hdoes.elim
  | ok v =>
    obtain ⟨hsane, heventOpen, hrefused, hserving⟩ := hq
    have hsignalled : (snapshot (h, w)).signalled = true := hdoes.1
    refine ⟨hsane, ?_, by decide⟩
    rcases hserving with ⟨-, hnot⟩ | ⟨hreported, hstatus⟩
    · rw [hsignalled] at hnot
      cases hnot
    · exact snapshot_ext hstatus hreported heventOpen hsignalled hrefused

/-- The other steps leave the snapshot. -/
theorem read_step {t : HostParty} {q : Place} {a : mainCalls.Act}
    {r : Except String (mainCalls.Resp a)} (hwrites : writes a = false)
    (hq : Knows t q (snapshot (h, w))) (ha : Allows t q a) (hx : mainExec s w a r w') :
    Guard (h, w) a ∧
      (∀ u, u ≠ t → Leaves u (snapshot (h, w)) (snapshot ((w, .act t a r) :: h, w'))) ∧
      Knows t (q.next t a r) (snapshot ((w, .act t a r) :: h, w')) := by
  have hsame : snapshot ((w, .act t a r) :: h, w') = snapshot (h, w) := by
    rw [snapshot_of_exec hx, after_of_not_writes hwrites]
  have hsane (r : Except String (mainCalls.Resp a)) : ((snapshot (h, w)).after a r).Sane := by
    rw [after_of_not_writes hwrites]
    exact hq.1
  rw [hsame]
  by_cases hwaits : waits a = true
  · obtain ⟨rfl, rfl⟩ := ha.2 hwaits
    obtain rfl : a = .inr .waitForStopEvent := by
      rcases a with (a | a) | a
      · cases hwaits
      · cases hwaits
      · cases a with
        | waitForStopEvent => rfl
        | _ => cases hwaits
    exact ⟨⟨hq.2.1, hsane⟩, fun u _ => Leaves.refl u _, knows_stopping hq hx⟩
  · have hnext : q.next t a r = q := by
      cases q with
      | held x => exact if_neg (by rw [hwrites]; decide)
      | serving => exact if_neg hwaits
      | anywhere => rfl
    rw [hnext]
    refine ⟨⟨?_, hsane⟩, fun u _ => Leaves.refl u _, hq⟩
    rcases a with (a | a) | a
    · trivial
    · cases a with
      | signalStop => cases hwrites
      | _ => trivial
    · cases a with
      | createStopEvent | closeStopEvent => cases hwrites
      | waitForStopEvent => exact absurd rfl hwaits
      | _ => trivial

/-- A writing call does not fail. -/
theorem returns_of_exec {a : mainCalls.Act} {r : Except String (mainCalls.Resp a)}
    (hwrites : writes a = true) (hx : mainExec s w a r w') : ∃ v, r = .ok v := by
  cases r with
  | ok v => exact ⟨v, rfl⟩
  | error e =>
    rcases a with (a | a) | a
    · cases hwrites
    · obtain ⟨-, host, hdoes, -⟩ := hx
      cases a with
      | signalStop => exact hdoes.elim
      | _ => cases hwrites
    · obtain ⟨-, hdoes⟩ := hx
      cases a with
      | storeStatus | reportStatus | createStopEvent | closeStopEvent => exact hdoes.elim
      | _ => cases hwrites

/-- The reports as places of the threads. -/
def reportPlaces (s : Hosting V) : Places (serviceProcess s) Smooth Place where
  knows t q x := Knows t q (snapshot x)
  rely t x y := Leaves t (snapshot x) (snapshot y)
  guard _ x a := Guard x a
  allows := Allows
  moves t q a r q' := q' = q.next t a r ∧ smooth (.act t a r) = true ∧
    (writes a = true → ∃ v, r = .ok v)
  refl t x := Leaves.refl t (snapshot x)
  trans h₁ h₂ := h₁.trans h₂
  stable hr hq := hq.stable hr
  step {t q x a r y} hq ha hs := by
    obtain ⟨h, w⟩ := x
    obtain ⟨history, w'⟩ := y
    obtain ⟨hx, hsmooth, hhistory⟩ := hs
    obtain rfl : history = (w, .act t a r) :: h := hhistory
    cases hwrites : writes a with
    | true =>
      have hwritable : Writable t q a := ha.1 hwrites
      have hwaits : waits a = false := by
        rcases a with (a | a) | a
        · rfl
        · rfl
        · cases a with
          | waitForStopEvent => cases hwrites
          | _ => rfl
      obtain ⟨hothers, hq'⟩ := write_step (r := r) hwrites hq hwritable
      rw [← snapshot_of_exec hx] at hothers hq'
      exact ⟨guard_of_writable hq hwritable hwaits, hothers, _,
        ⟨rfl, hsmooth, fun _ => returns_of_exec hwrites hx⟩, hq'⟩
    | false =>
      obtain ⟨hguard, hothers, hq'⟩ := read_step hwrites hq ha hx
      refine ⟨hguard, hothers, _, ⟨rfl, hsmooth, fun h => ?_⟩, hq'⟩
      cases h
  call {_ u h w _} _ := Leaves.refl u (snapshot (h, w))
  env {t h w w'} he _ := by
    obtain ⟨host, ⟨service, ⟨clock, -, rfl⟩, rfl⟩, rfl⟩ := he
    exact Leaves.refl t (snapshot (h, w))

/-! ## The programs -/

variable {α : Type} {t : HostParty} {q : Place} {x : Snapshot} {R : Except String α → Place → Prop}

abbrev Leads (s : Hosting V) (t : HostParty) (c : MainTask α) (q : Place)
    (R : Except String α → Place → Prop) : Prop := (reportPlaces s).Leads t c q R

/-- The calls that neither write nor wait. -/
def Quiet (a : mainCalls.Act) : Prop := writes a = false ∧ waits a = false

theorem Quiet.allows {a : mainCalls.Act} (ha : Quiet a) (t : HostParty) (q : Place) :
    Allows t q a := by
  refine ⟨fun h => ?_, fun h => ?_⟩
  · rw [ha.1] at h
    cases h
  · rw [ha.2] at h
    cases h

theorem Quiet.next {a : mainCalls.Act} (ha : Quiet a) (t : HostParty) (q : Place)
    (r : Except String (mainCalls.Resp a)) : q.next t a r = q := by
  cases q with
  | held x => exact if_neg (by rw [ha.1]; decide)
  | serving => exact if_neg (by rw [ha.2]; decide)
  | anywhere => rfl

theorem leads_quiet {c : MainTask α} (hc : c.Only Quiet) :
    Leads s t c q fun _ q' => q' = q :=
  Places.leads_only (P := reportPlaces s) hc fun ha =>
    ⟨ha.allows t q, fun _ _ hq' => hq'.1.trans (ha.next t q _)⟩

/-- A call that writes. -/
theorem leads_write {a : mainCalls.Act} {k : Except String (mainCalls.Resp a) → MainTask α}
    (hwrites : writes a = true) (ha : Writable t (.held x) a)
    (hk : ∀ v, Leads s t (k (.ok v)) (.enter t (x.after a (.ok v))) R) :
    Leads s t (.call a k) (.held x) R := by
  refine Places.leads_call (P := reportPlaces s) ⟨fun _ => ha, fun h => ?_⟩ fun r q' hq' => ?_
  · rcases a with (a | a) | a
    · cases h
    · cases h
    · cases a with
      | waitForStopEvent => cases hwrites
      | _ => cases h
  · obtain ⟨rfl, -, hreturns⟩ := hq'
    obtain ⟨v, rfl⟩ := hreturns hwrites
    have hnext : (Place.held x).next t a (.ok v) = .enter t (x.after a (.ok v)) := if_pos hwrites
    rw [hnext]
    exact hk v

theorem leads_write_main {a : MainCall} {f : a.Answer → MainTask α} (hwrites : writes (.inr a) = true)
    (ha : Writable t (.held x) (.inr a))
    (hf : ∀ v, Leads s t (f v) (.enter t (x.after (.inr a) (.ok v))) R) :
    Leads s t ((main a).bind f) (.held x) R := leads_write hwrites ha hf

/-! ### The handler -/

/-- The service is reported as running. -/
def ready : Snapshot where
  status := running
  reported := [running, startPending]
  eventOpen := true

/-- The handler has stored that the stop is pending, reported it, and signalled. -/
def stored : Snapshot := { ready with status := stopPending }

def pending : Snapshot := { stored with reported := [stopPending, running, startPending] }

theorem sane_stored : stored.Sane :=
  ⟨.inl ⟨rfl, [stopPending, stopped 0], rfl⟩, fun _ => by decide⟩

theorem sane_pending : pending.Sane := ⟨.inl ⟨rfl, [stopped 0], rfl⟩, fun h => by cases h⟩

theorem sane_stopping : stopping.Sane := ⟨.inl ⟨rfl, [stopped 0], rfl⟩, fun h => by cases h⟩

theorem serving_stored : stored.Serving := by decide

theorem serving_pending : pending.Serving := by decide

theorem serving_stopping : stopping.Serving := by decide

/-- The stop is stored, reported and then signalled. -/
theorem leads_stop {control : Control} (hcontrol : control = .stop ∨ control = .shutdown) :
    Leads s .controls (controlHandler control) (.held ready) fun _ q' => q' = .anywhere := by
  have hstore : Writable .controls (.held ready) (.inr (.storeStatus .stopPending 0)) :=
    ⟨ready, rfl, trivial, fun _ => ⟨sane_stored, serving_stored⟩⟩
  have hreport : Writable .controls (.held stored) (.inr .reportStatus) :=
    ⟨stored, rfl, trivial, fun _ => ⟨sane_pending, serving_pending⟩⟩
  have hsignal : Writable .controls (.held pending) (.inl (.inr .signalStop)) :=
    ⟨pending, rfl, rfl, fun _ => ⟨sane_stopping, serving_stopping⟩⟩
  have hreply : Leads s .controls (hosted (host (.reply control .noError))) .anywhere
      fun _ q' => q' = .anywhere :=
    leads_quiet ((Prog.only_perform (S := hostCalls) (A := fun a => Quiet (Sum.inl a))
      (a := Sum.inr (.reply control .noError)) ⟨rfl, rfl⟩).left (T := mainOnly) id)
  rcases hcontrol with rfl | rfl <;>
  · refine leads_write rfl hstore fun _ => ?_
    refine leads_write (x := stored) rfl hreport fun _ => ?_
    refine leads_write (x := pending) rfl hsignal fun _ => ?_
    exact hreply

/-- Other controls leave the reports. -/
theorem leads_other {control : Control} (hcontrol : ¬ (control = .stop ∨ control = .shutdown)) :
    Leads s .controls (controlHandler control) q fun _ q' => q' = q := by
  have hswitching {a : hostCalls.Act} (ha : Switching a) : Quiet (Sum.inl a) := by
    rcases a with a | a
    · exact ha.elim
    · cases a with
      | signalStop => exact ha.elim
      | _ => exact ⟨rfl, rfl⟩
  have hthunk : (hosted (handlerThunk control)).Only Quiet :=
    (handlerThunk_only (A := fun a => Quiet (Sum.inl a)) hswitching
      fun hc => absurd hc hcontrol).left (T := mainOnly) id
  cases control with
  | stop => exact absurd (.inl rfl) hcontrol
  | shutdown => exact absurd (.inr rfl) hcontrol
  | _ => exact leads_quiet hthunk

/-! ### The worker and the reader -/

theorem quiet_task {c : Task α} : (hosted (lift c)).Only Quiet := by
  have hall : c.Only fun _ => True := Prog.only_of_forall (fun _ => trivial) c
  have hlift : (lift c).Only fun a => Quiet (Sum.inl a) :=
    hall.left (T := hostOnly) fun _ => ⟨rfl, rfl⟩
  exact hlift.left (T := mainOnly) id

theorem quiet_threadPass {pass : MainTask Unit} (hpass : pass.Only Quiet) :
    (threadPass pass).Only Quiet :=
  Prog.Only.tryCatch hpass fun _ => Prog.only_perform ⟨rfl, rfl⟩

theorem quiet_readerLoop : (readerLoop s).Only Quiet := by
  have hmain {a : MainCall} (ha : Quiet (Sum.inr a)) : (main a).Only Quiet := Prog.only_perform ha
  have hreading {a : hostCalls.Act} (ha : Reading a) : Quiet (Sum.inl a) := by
    rcases a with a | a
    · exact ⟨rfl, rfl⟩
    · cases a with
      | signalStop => exact ha.elim
      | _ => exact ⟨rfl, rfl⟩
  refine Prog.Only.bind (hmain (a := .loadStopRequested) ⟨rfl, rfl⟩) fun (stopRequested : Bool) => ?_
  refine Prog.only_ite (hmain (a := .exitReader) ⟨rfl, rfl⟩) ?_
  have hget : (hosted (host .getMessage)).Only Quiet :=
    (Prog.only_perform (S := hostCalls) (A := fun a => Quiet (Sum.inl a))
      (a := Sum.inr HostCall.getMessage) ⟨rfl, rfl⟩).left (T := mainOnly) id
  refine Prog.Only.bind hget fun (message : Option CachemonEvent) => ?_
  cases message with
  | some message =>
    exact ((reading_handleMessage message).mono hreading).left (T := mainOnly) id
  | none =>
    refine Prog.Only.bind (hmain (a := .loadStopRequested) ⟨rfl, rfl⟩)
      fun (stopRequested : Bool) => ?_
    exact Prog.only_ite (hmain (a := .exitReader) ⟨rfl, rfl⟩) trivial

/-! ### `service_main` -/

/-- `c` returns and leaves `service_main` where it is. -/
abbrev Passes (s : Hosting V) (c : MainTask α) (q : Place) : Prop :=
  Leads s .serviceMain c q fun r q' => (∃ v, r = .ok v) ∧ q' = q

theorem returns_of_smooth {a : mainCalls.Act} {r : Except String (mainCalls.Resp a)}
    (h : smooth (.act .serviceMain a r) = true) : ∃ v, r = .ok v := by
  cases r with
  | ok v => exact ⟨v, rfl⟩
  | error e => cases h

theorem passes_quiet {c : MainTask α} (hc : c.Only Quiet) (hr : c.Rethrows) : Passes s c q :=
  Places.leads_returns (P := reportPlaces s) (fun ha => ⟨ha.allows .serviceMain q,
    fun _ _ hq' => ⟨returns_of_smooth hq'.2.1, hq'.1.trans (ha.next _ q _)⟩⟩) hc hr

theorem passes_main {a : MainCall} (ha : Quiet (.inr a)) : Passes s (main a) q :=
  passes_quiet (Prog.only_perform ha) (Prog.rethrows_perform _)

theorem passes_host {a : HostCall} (ha : Quiet (.inl (.inr a))) :
    Passes s (hosted (host a)) q := by
  have honly : (host a).Only fun a => Quiet (Sum.inl a) :=
    Prog.only_perform (S := hostCalls) (a := Sum.inr a) ha
  have hrethrows : (host a).Rethrows := Prog.rethrows_perform (S := hostCalls) (Sum.inr a)
  exact passes_quiet (honly.left (T := mainOnly) id) hrethrows.left

theorem passes_task {c : Task α} (hc : c.Rethrows) : Passes s (hosted (lift c)) q := by
  have hall : c.Only fun _ => True := Prog.only_of_forall (fun _ => trivial) c
  have honly : (lift c).Only fun a => Quiet (Sum.inl a) :=
    hall.left (T := hostOnly) fun _ => ⟨rfl, rfl⟩
  exact passes_quiet (honly.left (T := mainOnly) id) (hc.left (T := hostOnly)).left

/-- **Sequencing** after a program that returns. -/
theorem leads_seq {β : Type} {c : MainTask β} {f : β → MainTask α} {q₁ : Place}
    (hc : Leads s .serviceMain c q fun r q' => (∃ v, r = .ok v) ∧ q' = q₁)
    (hf : ∀ v, Leads s .serviceMain (f v) q₁ R) : Leads s .serviceMain (c.bind f) q R := by
  refine Places.Leads.bind hc (fun e q' hq' => ?_) fun v q' hq' => ?_
  · obtain ⟨⟨v, hv⟩, -⟩ := hq'
    cases hv
  · obtain ⟨-, rfl⟩ := hq'
    exact hf v

/-- The rest runs when the stop has been signalled. -/
theorem leads_wait : Leads s .serviceMain (main .waitForStopEvent) .serving fun r q' =>
    (∃ v, r = .ok v) ∧ q' = .held stopping :=
  Places.leads_last (P := reportPlaces s) ⟨(fun h => by cases h), fun _ => ⟨rfl, rfl⟩⟩
    fun _ _ hq' => ⟨returns_of_smooth hq'.2.1, hq'.1⟩

theorem rethrows_stop : stop.Rethrows := by
  refine Prog.Rethrows.bind (Prog.rethrows_perform _) fun _ => ?_
  refine Prog.Rethrows.bind (Prog.rethrows_perform _) fun (joinable : Bool) => ?_
  cases joinable with
  | true => exact Prog.rethrows_perform _
  | false => exact trivial

theorem rethrows_start : start.Rethrows := by
  refine Prog.Rethrows.bind ?_ fun _ => ?_
  · refine Prog.Rethrows.bind (Prog.rethrows_perform _) fun (exchanged : Bool) => ?_
    cases exchanged with
    | true => exact trivial
    | false => exact Prog.rethrows_perform _
  · refine Prog.Rethrows.bind (Prog.rethrows_perform _) fun (joinable : Bool) => ?_
    cases joinable with
    | true => exact trivial
    | false =>
      refine Prog.Rethrows.bind ?_ fun _ => Prog.rethrows_perform _
      exact Prog.Rethrows.bind (Prog.rethrows_perform _) fun _ => Prog.rethrows_perform _

theorem rethrows_cleanupPaths (ignored isDirectory : WString → Bool) :
    ∀ relativePaths, (cleanupPaths ignored isDirectory relativePaths).Rethrows := by
  intro relativePaths
  induction relativePaths with
  | nil => exact trivial
  | cons p ps ih =>
    unfold cleanupPaths
    split
    · exact Prog.Rethrows.bind (Prog.rethrows_perform _) fun _ => ih
    · split
      · exact Prog.Rethrows.bind (Prog.rethrows_perform _) fun _ => ih
      · exact ih

theorem rethrows_cleanup (ignored isDirectory : WString → Bool) :
    (cleanupInvalidCacheRecords ignored isDirectory).Rethrows := by
  refine Prog.Rethrows.bind ?_ fun _ => ?_
  · refine Prog.Rethrows.bind ?_ fun (recorded : Bool) => ?_
    · refine Prog.Rethrows.bind (Prog.rethrows_perform _) fun (job : Option PendingJob) => ?_
      split
      · exact trivial
      · exact Prog.Rethrows.bind (Prog.rethrows_perform _) fun _ => trivial
    · cases recorded with
      | true => exact Prog.rethrows_perform _
      | false => exact trivial
  · refine Prog.Rethrows.bind (Prog.rethrows_perform _) fun _ => ?_
    exact Prog.Rethrows.bind (Prog.rethrows_perform _) fun _ => rethrows_cleanupPaths _ _ _

theorem passes_applyCachingMode (mode : Option AppMode) :
    Passes s (hosted (applyCachingMode mode)) q := by
  have honly : (applyCachingMode mode).Only fun a => Quiet (Sum.inl a) := by
    refine (switching_applyCachingMode mode).mono fun {a} ha => ?_
    rcases a with a | a
    · exact ha.elim
    · cases a with
      | signalStop => exact ha.elim
      | _ => exact ⟨rfl, rfl⟩
  have hrethrows : (applyCachingMode mode).Rethrows :=
    Prog.Rethrows.bind (Prog.rethrows_perform (S := hostCalls) (Sum.inr (.storeCachingActive _)))
      fun _ => Prog.rethrows_perform (S := hostCalls) (Sum.inr (.setPublishedPaused _))
  exact passes_quiet (honly.left (T := mainOnly) id) hrethrows.left

/-- A call on the reader or the port, when its flag says so. -/
theorem passes_flagged {a b : MainCall} (ha : Quiet (.inr a)) (hb : Quiet (.inr b))
    {f : a.Answer → Bool} {v : b.Answer} : Passes s
    ((main a).bind fun flag => if f flag = true then main b else .ret v) q := by
  refine leads_seq (passes_main ha) fun flag => ?_
  split
  · exact passes_main hb
  · exact Places.leads_ret ⟨⟨v, rfl⟩, rfl⟩

theorem passes_sourceStop : Passes s sourceStop q := by
  refine leads_seq (passes_main ⟨rfl, rfl⟩) fun _ => ?_
  refine leads_seq (passes_flagged (a := .readerJoinable) (b := .cancelSynchronousIo)
    (f := id) (v := ()) ⟨rfl, rfl⟩ ⟨rfl, rfl⟩) fun _ => ?_
  refine leads_seq (passes_flagged (a := .portOpen) (b := .closePort)
    (f := id) (v := ()) ⟨rfl, rfl⟩ ⟨rfl, rfl⟩) fun _ => ?_
  exact passes_flagged (a := .readerJoinable) (b := .joinReader)
    (f := id) (v := ()) ⟨rfl, rfl⟩ ⟨rfl, rfl⟩

/-- A call that neither writes nor waits, and the rest for its answer. -/
theorem leads_then {a : MainCall} {f : a.Answer → MainTask α} (ha : Quiet (.inr a))
    (hf : ∀ v, smooth (.act .serviceMain (.inr a) (.ok v)) = true →
      Leads s .serviceMain (f v) q R) : Leads s .serviceMain ((main a).bind f) q R := by
  refine Places.leads_then (P := reportPlaces s) (ha.allows _ q) (fun e q' hq' => ?_)
    fun v q' hq' => ?_
  · cases hq'.2.1
  · obtain ⟨hnext, hsmooth, -⟩ := hq'
    rw [ha.next] at hnext
    subst hnext
    exact hf v hsmooth

theorem passes_sourceStart : Passes s sourceStart q := by
  refine leads_then (a := .readerJoinable) ⟨rfl, rfl⟩ fun (joinable : Bool) _ => ?_
  cases joinable with
  | true => exact Places.leads_ret ⟨⟨(), rfl⟩, rfl⟩
  | false =>
    refine leads_then (a := .connectPort) ⟨rfl, rfl⟩ fun (connected : Bool) hconnected => ?_
    obtain rfl : connected = true := hconnected
    refine leads_then (a := .registerService) ⟨rfl, rfl⟩ fun (registered : Bool) hregistered => ?_
    obtain rfl : registered = true := hregistered
    refine leads_then (a := .storeStopRequested false) ⟨rfl, rfl⟩ fun _ _ => ?_
    exact passes_main ⟨rfl, rfl⟩

/-- `c` returns, and the stop has been signalled meanwhile. -/
abbrev Stops (s : Hosting V) (c : MainTask α) : Prop :=
  Leads s .serviceMain c .serving fun r q' => (∃ v, r = .ok v) ∧ q' = .held stopping

/-- What cleans up after it. -/
theorem stops_ensuring {c : MainTask α} {d : MainTask Unit} (hc : Stops s c)
    (hd : Passes s d (.held stopping)) : Stops s (c.ensuring d) := by
  refine Places.Leads.ensuring hc (fun v q' hq' => ?_) fun e q' hq' => ?_
  · obtain ⟨-, rfl⟩ := hq'
    exact leads_seq hd fun _ => Places.leads_ret ⟨⟨v, rfl⟩, rfl⟩
  · obtain ⟨⟨v, hv⟩, -⟩ := hq'
    cases hv

theorem stops_serve (config : AppConfig) : Stops s (serve config) := by
  have hdown : Passes s (do main .unpublish; hosted (lift stop)) (.held stopping) :=
    leads_seq (passes_main ⟨rfl, rfl⟩) fun _ => passes_task rethrows_stop
  unfold serve
  split
  · exact leads_seq leads_wait fun _ => hdown
  · refine leads_seq (passes_main ⟨rfl, rfl⟩) fun _ => ?_
    refine stops_ensuring ?_ (leads_seq passes_sourceStop fun _ => passes_main ⟨rfl, rfl⟩)
    refine leads_seq passes_sourceStart fun _ => ?_
    refine leads_seq leads_wait fun _ => ?_
    exact leads_seq passes_sourceStop fun _ => hdown

theorem stops_runScheduler (config : AppConfig) : Stops s (runScheduler config) := by
  refine leads_seq (passes_main ⟨rfl, rfl⟩) fun _ => ?_
  refine stops_ensuring ?_ (leads_seq (passes_task rethrows_stop) fun _ => passes_main ⟨rfl, rfl⟩)
  refine leads_seq (passes_task rethrows_start) fun _ => ?_
  refine leads_seq (passes_host ⟨rfl, rfl⟩) fun _ => ?_
  exact leads_seq (passes_applyCachingMode config.mode) fun _ => stops_serve config

/-- **`run_worker` returns** when the stop has been signalled. -/
theorem stops_runWorkerBody (filters : Filters) : Stops s (runWorkerBody filters) := by
  refine leads_seq (passes_host ⟨rfl, rfl⟩) fun config => ?_
  refine leads_seq (passes_main ⟨rfl, rfl⟩) fun _ => ?_
  refine stops_ensuring ?_ (passes_main ⟨rfl, rfl⟩)
  refine leads_seq (passes_host ⟨rfl, rfl⟩) fun _ => ?_
  exact leads_seq (passes_task (rethrows_cleanup _ _)) fun _ => stops_runScheduler config

/-! ### The snapshots of `service_main` -/

/-- `service_main`'s own. -/
structure Own (x : Snapshot) : Prop where
  course : OnCourse x.refused x.reported
  silent : x.reported.head?.map (·.currentState) ≠ some .running
  closed : ¬ x.Open

theorem enter_own (hx : Own x) : Place.enter .serviceMain x = .held x := if_neg hx.closed

theorem Own.sane (hx : Own x) : x.Sane := ⟨hx.course, fun h => absurd h hx.silent⟩

theorem Own.ready (hx : Own x) : x.Ready := fun h => absurd h hx.closed

/-- `set_status` brings `service_main` from one of its snapshots to another. -/
theorem leads_setStatus {state : ServiceState} {win32ExitCode : UInt32} {y : Snapshot}
    (hstored : Own (x.after (.inr (.storeStatus state win32ExitCode)) (.ok ())))
    (hy : y = (x.after (.inr (.storeStatus state win32ExitCode)) (.ok ())).after
      (.inr .reportStatus) (.ok ()))
    (hreported : y.Sane ∧ y.Ready) :
    Leads s .serviceMain (setStatus state win32ExitCode) (.held x) fun r q' =>
      (∃ v, r = .ok v) ∧ q' = .enter .serviceMain y := by
  subst hy
  refine leads_write rfl ⟨x, rfl, trivial, fun _ => ⟨hstored.sane, hstored.ready⟩⟩ fun _ => ?_
  have henter : Place.enter .serviceMain (x.after (.inr (.storeStatus state win32ExitCode)) (.ok ())) =
      .held (x.after (.inr (.storeStatus state win32ExitCode)) (.ok ())) := if_neg hstored.closed
  have hreport : Leads s .serviceMain (main .reportStatus)
      (.held (x.after (.inr (.storeStatus state win32ExitCode)) (.ok ()))) fun r q' =>
      (∃ v, r = .ok v) ∧ q' = .enter .serviceMain
        ((x.after (.inr (.storeStatus state win32ExitCode)) (.ok ())).after
          (.inr .reportStatus) (.ok ())) :=
    leads_write rfl ⟨_, rfl, trivial, fun _ => hreported⟩ fun v => Places.leads_ret ⟨⟨v, rfl⟩, rfl⟩
  exact henter ▸ hreport

/-- `SERVICE_START_PENDING` has been reported. -/
def started : Snapshot := { status := startPending, reported := [startPending] }

def opened : Snapshot := { started with eventOpen := true }

/-- The event could not be created. -/
def eventless (error : UInt32) : Snapshot := { started with refused := some error }

/-- `SERVICE_STOPPED` has been reported. -/
def concluded : Snapshot where
  status := stopped 0
  reported := [stopped 0, stopPending, running, startPending]
  eventOpen := true
  signalled := true

/-- So it has, but there is no event. -/
def failed (error : UInt32) : Snapshot :=
  { eventless error with status := stopped error, reported := [stopped error, startPending] }

/-- Without an event the service is not running. -/
theorem closed_of_not_eventOpen (heventOpen : x.eventOpen = false) : ¬ x.Open := by
  intro hopen
  have : x.eventOpen = true := hopen.1.1
  rw [heventOpen] at this
  cases this

theorem own_started : Own started :=
  ⟨.inl ⟨rfl, [running, stopPending, stopped 0], rfl⟩, by decide, by decide⟩

theorem own_opened : Own opened :=
  ⟨.inl ⟨rfl, [running, stopPending, stopped 0], rfl⟩, by decide, by decide⟩

theorem own_eventless (error : UInt32) : Own (eventless error) := by
  refine ⟨.inr ⟨error, rfl, [stopped error], rfl⟩, fun h => ?_, closed_of_not_eventOpen rfl⟩
  cases h

theorem own_concluded : Own concluded := ⟨.inl ⟨rfl, [], rfl⟩, by decide, by decide⟩

theorem own_failed (error : UInt32) : Own (failed error) := by
  refine ⟨.inr ⟨error, rfl, [], rfl⟩, fun h => ?_, closed_of_not_eventOpen rfl⟩
  cases h

theorem sane_ready : ready.Sane :=
  ⟨.inl ⟨rfl, [stopPending, stopped 0], rfl⟩, fun _ => by decide⟩

/-- Where `service_main` rests. -/
def Rest (t : HostParty) (q : Place) : Prop :=
  match t with
  | .serviceMain => q = .held { concluded with eventOpen := false } ∨ ∃ e, q = .held (failed e)
  | .controls => q = .held ready ∨ q = .anywhere
  | _ => True

theorem leads_serviceMain (filters : Filters) :
    Leads s .serviceMain (serviceMain filters) (.held {}) fun _ q' => Rest .serviceMain q' := by
  have hstart : Own { status := startPending } := ⟨.inl ⟨rfl, _, rfl⟩, by decide, by decide⟩
  refine leads_seq (leads_setStatus (y := started) hstart rfl
    ⟨own_started.sane, own_started.ready⟩) fun _ => ?_
  have hcreate : Writable .serviceMain (.held started) (.inr .createStopEvent) := by
    refine ⟨started, rfl, rfl, fun r => ?_⟩
    rcases r with e | error | error
    · exact ⟨own_started.sane, own_started.ready⟩
    · exact ⟨own_opened.sane, own_opened.ready⟩
    · exact ⟨(own_eventless error).sane, (own_eventless error).ready⟩
  refine leads_write_main (x := started) rfl hcreate fun (error : Option UInt32) => ?_
  cases error with
  | some error =>
    -- no event, no worker
    have hstored : Own { eventless error with status := stopped error } :=
      ⟨(own_eventless error).course, (own_eventless error).silent, closed_of_not_eventOpen rfl⟩
    refine (leads_setStatus (x := eventless error) (y := failed error) hstored rfl
      ⟨(own_failed error).sane, (own_failed error).ready⟩).mono fun r q' hq' => ?_
    obtain ⟨-, rfl⟩ := hq'
    exact .inr ⟨error, enter_own (own_failed error)⟩
  | none =>
    have hrun : Own { opened with status := running } :=
      ⟨.inl ⟨rfl, [running, stopPending, stopped 0], rfl⟩, by decide, by decide⟩
    have hstop : Own { stopping with status := stopped 0 } :=
      ⟨.inl ⟨rfl, [stopped 0], rfl⟩, by decide, by decide⟩
    have hbody : Leads s .serviceMain (do
        setStatus .running 0
        runWorkerBody filters
        setStatus .stopped 0) (.held opened) fun r q' =>
        (∃ v, r = .ok v) ∧ q' = .held concluded := by
      refine leads_seq (leads_setStatus (y := ready) hrun rfl ⟨sane_ready, fun _ => rfl⟩) fun _ => ?_
      refine leads_seq (stops_runWorkerBody filters) fun _ => ?_
      exact leads_setStatus (y := concluded) hstop rfl ⟨own_concluded.sane, own_concluded.ready⟩
    have hcaught : Leads s .serviceMain (Prog.tryCatch (do
        setStatus .running 0
        runWorkerBody filters
        setStatus .stopped 0) fun _ => setStatus .stopped serviceSpecificError) (.held opened)
        fun r q' => (∃ v, r = .ok v) ∧ q' = .held concluded := by
      refine Places.Leads.tryCatch hbody (fun _ _ hq' => hq') fun e q' hq' => ?_
      obtain ⟨⟨v, hv⟩, -⟩ := hq'
      cases hv
    have hclosed : Own { concluded with eventOpen := false } :=
      ⟨.inl ⟨rfl, [], rfl⟩, by decide, by decide⟩
    refine leads_seq hcaught fun _ => ?_
    refine leads_write (x := concluded) rfl
      ⟨concluded, rfl, rfl, fun _ => ⟨hclosed.sane, hclosed.ready⟩⟩ fun _ => ?_
    exact Places.leads_ret (.inl (enter_own hclosed))

/-! ## Runs -/

theorem bodies_lead : (reportPlaces s).Bodies Rest := by
  intro t h c o q hm _ hrest hq
  have hcall {q' : Place} (hq' : Knows t q' (snapshot (h, c.world))) :
      (reportPlaces s).knows t q' ((c.world, .call t o) :: h, c.world) := hq'
  cases t with
  | serviceMain => cases o <;> cases hm
  | worker =>
    cases o with
    | workerPass =>
      refine ⟨q, hcall hq, (leads_quiet (quiet_threadPass quiet_task)).mono fun _ _ _ => trivial⟩
    | control | readerPass => cases hm
  | reader =>
    cases o with
    | readerPass =>
      exact ⟨q, hcall hq, (leads_quiet (quiet_threadPass quiet_readerLoop)).mono fun _ _ _ => trivial⟩
    | control | workerPass => cases hm
  | controls =>
    cases o with
    | workerPass | readerPass => cases hm
    | control control =>
      have hhead : (snapshot (h, c.world)).reported.head?.map (·.currentState) = some .running :=
        of_decide_eq_true hm
      have hopen : (snapshot (h, c.world)).Open := hq.1.running hhead
      have hready : snapshot (h, c.world) = ready := by
        rcases hrest with rfl | rfl
        · exact hq.2.1
        · have hstatus : (snapshot (h, c.world)).status = running := hq.2 hopen
          obtain ⟨⟨heventOpen, hrefused, hreported⟩, hsignalled⟩ := hopen
          rcases hreported with ⟨hreported, -⟩ | ⟨hreported, -⟩
          · exact snapshot_ext hstatus hreported heventOpen hsignalled hrefused
          · rw [hreported] at hhead
            cases hhead
      refine ⟨.held ready, hcall ⟨hq.1, hready, by decide⟩, ?_⟩
      by_cases hcontrol : control = .stop ∨ control = .shutdown
      · exact (leads_stop hcontrol).mono fun _ _ hq' => .inr hq'
      · exact (leads_other hcontrol).mono fun _ _ hq' => .inl hq'

theorem begins_launched {x : HostWorld V} (hx : Fresh x) (filters : Filters) :
    (reportPlaces s).Begins Rest (launched filters x) := by
  have hfresh : snapshot ([], (launched filters x).world) = {} := by
    simp only [launched, snapshot, refused, hx.stopSignalled]
  have hown : Own {} := ⟨.inl ⟨rfl, _, rfl⟩, by decide, by decide⟩
  have hknows {t : HostParty} {q : Place} (hq : Knows t q {}) :
      (reportPlaces s).knows t q ([], (launched filters x).world) := by
    have hq : Knows t q (snapshot ([], (launched filters x).world)) := hfresh ▸ hq
    exact hq
  intro t
  cases t with
  | serviceMain =>
    exact ⟨.held {}, hknows ⟨hown.sane, rfl, hown.closed⟩, leads_serviceMain filters⟩
  | controls =>
    exact ⟨.anywhere, hknows ⟨hown.sane, hown.ready⟩, Places.leads_ret (.inr rfl)⟩
  | worker | reader =>
    exact ⟨.anywhere, hknows ⟨hown.sane, trivial⟩, Places.leads_ret trivial⟩

/-- Reports and refusals stay on course with every call. -/
theorem onCourse_of_run {c₀ : MainState V} (h0 : OnCourse none c₀.world.reported)
    (hrun : Run (serviceProcess s) c₀ h c)
    (hm : Meets (fun h w l => ∀ t a r, l = .act t a r → Guard (h, w) a) h) :
    OnCourse (refused h) c.world.reported := by
  induction hrun with
  | init => exact h0
  | @step h c c' l hrun hs ih =>
    have hold : OnCourse (refused h) c.world.reported := ih hm.2
    cases hs with
    | call => exact hold
    | env he =>
      obtain ⟨host, -, rfl⟩ := he
      exact hold
    | @act t a k r w' hk hx =>
      have hsane : ((snapshot (h, c.world)).after a r).Sane := (hm.1 t a r rfl).2 r
      rw [← snapshot_of_exec (t := t) hx] at hsane
      exact hsane.course

/-- **The service reports its states in order.** In every run of the process in which no call
of `service_main` fails but perhaps the creation of the event, whatever the handler, the
worker and the reader do between its calls: the service reports that it starts, runs, stops
and has stopped, each once, in this order and with the check points of a busy service; the
event is signalled and waited for only while it exists; and `service_main` ends when
everything has been reported. When the event cannot be created, the service reports that it
starts and then that it has stopped with the error of `CreateEventW`. -/
theorem course_followed {filters : Filters} {x : HostWorld V} (hx : Fresh x)
    (hrun : Run (serviceProcess s) (launched filters x) h c) (hsmooth : Meets Smooth h) :
    OnCourse (refused h) c.world.reported ∧ Meets UsesEvent h ∧
      ((c.prog .serviceMain).Done → Concluded (refused h) c.world.reported) := by
  have hguard : Meets (fun h w l => ∀ t a r, l = .act t a r → Guard (h, w) a) h :=
    Places.guard_of_run bodies_lead (begins_launched hx filters) hrun hsmooth
  have hbegin : OnCourse none ([] : List ServiceStatus) := .inl ⟨rfl, _, rfl⟩
  refine ⟨onCourse_of_run hbegin hrun hguard, hguard.mono fun hg t a r hl => (hg t a r hl).1,
    fun hd => ?_⟩
  obtain ⟨q, hrest, hknows⟩ :=
    Places.rests_of_run bodies_lead (begins_launched hx filters) hrun hsmooth hd
  have hknows : Knows .serviceMain q (snapshot (h, c.world)) := hknows
  rcases hrest with rfl | ⟨error, rfl⟩
  · have hend : snapshot (h, c.world) = { concluded with eventOpen := false } := hknows.2.1
    exact .inl ⟨congrArg Snapshot.refused hend, congrArg Snapshot.reported hend⟩
  · have hend : snapshot (h, c.world) = failed error := hknows.2.1
    exact .inr ⟨error, congrArg Snapshot.refused hend, congrArg Snapshot.reported hend⟩

/-- A service that is started and stopped. -/
theorem course_followed_stopped : ∃ h c,
    Run (serviceProcess diskHosting) (launched noFilters sourced) h c ∧
    OnCourse (refused h) c.world.reported ∧ Meets UsesEvent h ∧
    c.world.reported = [stopped 0, stopPending, running, startPending] ∧
    Concluded (refused h) c.world.reported := by
  obtain ⟨h, c, hrun, hreported, hsmooth, hdone⟩ := exists_serviceRun true wholeLife
    (fun x => x.2.world.reported = [stopped 0, stopPending, running, startPending] ∧
      Meets Smooth x.1 ∧ (x.2.prog .serviceMain).Done)
    (by decide +kernel)
  obtain ⟨hcourse, hevent, hconcluded⟩ :=
    course_followed (s := diskHosting) ⟨rfl, rfl, rfl⟩ hrun hsmooth
  exact ⟨h, c, hrun, hcourse, hevent, hreported, hconcluded hdone⟩

/-- Without the driver, a stop on its way is reported after the service has stopped. -/
example : ∃ h c, Run (serviceProcess diskHosting) (launched noFilters sourced) h c ∧
    c.world.reported = [stopPending, stopped serviceSpecificError, running, startPending] ∧
    (c.prog .serviceMain).Done :=
  exists_serviceRun false
    (hostSteps .serviceMain 22 ++ .call .controls (.control .stop) :: hostSteps .serviceMain 9 ++
      .call .worker .workerPass :: hostSteps .worker 2 ++ hostSteps .serviceMain 6 ++
      hostSteps .controls 4)
    (fun x => x.2.world.reported = [stopPending, stopped serviceSpecificError, running, startPending] ∧
      (x.2.prog .serviceMain).Done) (by decide +kernel)

end SsdCache.ServiceMain.Statuses
