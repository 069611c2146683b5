import SsdCache.Atomic.Local
import SsdCache.Proof.Messages
import SsdCache.Spec.DriverPort

/-!
# What the driver reports

Each callback follows a protocol of its calls (`reporting`): it sends at most once, after
`CachemonShouldIgnore` has let the request pass. Expanded to the steps on the globals, this
says what has happened since the callback was entered (`Reports`).

* `sent_reports`: **every message is the event of its callback's own request**, of the kind
  of the operation, and no message reports an access of a process that stays registered.
-/

namespace SsdCache.ClientPort

open Atomic

/-! ## What is claimed -/

/-- The request and the kind that an operation reports, if it reports any. -/
def PortOperation.reports : PortOperation → Option (Request × AccessKind)
  | postCreate data draining success desiredAccess =>
    if draining = false ∧ success = true ∧ desiredAccess &&& readAccess ≠ 0 then
      some (data, .readOpen)
    else none
  | preRead data => some (data, .readOpen)
  | preWrite data => some (data, .writeObserved)
  | preCleanup data => some (data, .writeClosed)
  | preSetInformation data infoClass =>
    if infoClass ∈ renameClasses then some (data, .rename)
    else if infoClass ∈ dispositionClasses then some (data, .delete)
    else none
  | connect | disconnect | message _ _ | unload => none

/-- Thread `t` enters a callback. -/
def enters (t : ThreadId) : PortEvent → Bool
  | .call u _ => decide (u = t)
  | _ => false

/-- Thread `t` sends a message. -/
def sends (t : ThreadId) : PortEvent → Bool
  | .act u (.sendMessage _) _ => decide (u = t)
  | _ => false

/-- Thread `t` finds the handle of its request marked as written. -/
def findsWritten (t : ThreadId) : PortEvent → Bool
  | .act u (.handle (.loadWriteObserved _)) (.ok writeObserved) => decide (u = t) && writeObserved
  | _ => false

/-- The callback that thread `t` entered last. -/
def lastCall (t : ThreadId) : PortHistory → Option PortOperation
  | [] => none
  | (_, .call u o) :: h => if u = t then some o.2 else lastCall t h
  | (_, .act _ _ _) :: h | (_, .env) :: h => lastCall t h

/-- What has happened since, on any thread. -/
def sinceCall (t : ThreadId) : PortHistory → PortHistory
  | [] => []
  | x :: h => if enters t x.2 = true then [x] else x :: sinceCall t h

/-- Thread `t`, in a callback for `data`, may send this event as an access of this kind. -/
structure Reports (t : ThreadId) (h : PortHistory) (data : Request) (kind : AccessKind)
    (event : CachemonEvent) : Prop where
  event : event = data.event kind
  user : data.generated = false ∧ data.paging = false
  first : ∀ x ∈ sinceCall t h, sends t x.2 = false
  foreign : data.requestorPid ≠ 0 →
    ∃ x ∈ sinceCall t h, x.1.servicePid ≠ data.requestorPid.toUInt64
  written : kind = .writeClosed → ∃ x ∈ sinceCall t h, findsWritten t x.2 = true

/-- A message is that of the sender's callback. -/
def SendsOwn (h : PortHistory) (_ : PortWorld) (l : PortEvent) : Prop :=
  ∀ t event r, l = .act t (.sendMessage event) r → ∃ o data kind, lastCall t h = some o ∧
    o.reports = some (data, kind) ∧ Reports t h data kind event

/-- What the service makes of the event. -/
def Decodes (data : Request) (kind : AccessKind) (event : CachemonEvent) : Prop :=
  ∀ fold sourceUnc, 0 ∉ data.name →
    readIdentity fold sourceUnc event =
        mapObservedSourcePath fold sourceUnc (data.name.take (cachemonMaxRelativeChars - 1)) ∧
      ∀ identity observedAt, accessEvent event identity observedAt =
        { sourceRootId := identity.sourceRootId
          relativePath := identity.relativePath
          kind := kind
          sizeHint := 0
          requestorPid := data.requestorPid.toUInt64
          observedAt := observedAt }

/-- A message is one that the sender's callback may send. -/
def SendsReports (h : PortHistory) (_ : PortWorld) (l : PortEvent) : Prop :=
  ∀ t event r, l = .act t (.sendMessage event) r → ∃ o data kind, lastCall t h = some o ∧
    o.reports = some (data, kind) ∧ Reports t h data kind event ∧ Decodes data kind event

/-! ## Histories -/

variable {h h' : PortHistory} {c : PortState} {t u : ThreadId} {w : PortWorld} {l : PortEvent}

/-- `h'` goes on after `h` while the callback of thread `t` goes on, without a message. -/
structure Extends (t : ThreadId) (h h' : PortHistory) : Prop where
  call : lastCall t h' = lastCall t h
  old : ∀ x ∈ sinceCall t h, x ∈ sinceCall t h'
  new : ∀ x ∈ sinceCall t h', sends t x.2 = true → x ∈ sinceCall t h

theorem Extends.refl (h : PortHistory) : Extends t h h := ⟨rfl, fun _ => id, fun _ hx _ => hx⟩

theorem Extends.trans {h'' : PortHistory} (h₁ : Extends t h h') (h₂ : Extends t h' h'') :
    Extends t h h'' where
  call := h₂.call.trans h₁.call
  old x hx := h₂.old x (h₁.old x hx)
  new x hx hs := h₁.new x (h₂.new x hx hs) hs

theorem sinceCall_cons (hl : enters t l = false) :
    sinceCall t ((w, l) :: h) = (w, l) :: sinceCall t h := if_neg (by rw [hl]; decide)

theorem lastCall_cons (hl : enters t l = false) : lastCall t ((w, l) :: h) = lastCall t h := by
  cases l with
  | call u o => exact if_neg (of_decide_eq_false hl)
  | act u a r => rfl
  | env => rfl

/-- A step that is no entry and no message of thread `t`. -/
theorem extends_cons (hl : enters t l = false) (hs : sends t l = false) :
    Extends t h ((w, l) :: h) := by
  refine ⟨lastCall_cons hl, fun x hx => ?_, fun x hx hsends => ?_⟩
  · rw [sinceCall_cons hl]
    exact List.mem_cons_of_mem _ hx
  · rw [sinceCall_cons hl] at hx
    rcases List.mem_cons.1 hx with rfl | hx
    · rw [hs] at hsends
      cases hsends
    · exact hx

/-! ## The protocol of a callback -/

/-- Whether the request was let pass, the handle was found written, and the message is sent. -/
structure Reporting where
  passed : Bool := false
  written : Bool := false
  sent : Bool := false

/-- A callback that reports an access of this kind. -/
def reporting (kind : Option AccessKind) : Protocol driverCalls Empty Reporting where
  rest := {}
  next
    | q, .shouldIgnore, .ok ignored => { q with passed := q.passed || !ignored }
    | q, .loadWriteObserved _, .ok writeObserved => { q with written := q.written || writeObserved }
    | q, .sendMessage _, _ => { q with sent := true }
    | q, _, _ => q
  allows
    | q, .sendMessage k =>
      kind = some k ∧ q.passed = true ∧ q.sent = false ∧ (k = .writeClosed → q.written = true)
    | _, _ => True
  answers _ _ := True

variable {kind : AccessKind} {q : Reporting} {α : Type}

/-- A callback that keeps to the protocol, wherever it ends. -/
abbrev Follows (kind : Option AccessKind) (c : Callback α) (q : Reporting) : Prop :=
  c.Safe (reporting kind).contract (fun _ _ => True) q

/-- **One call, then the rest.** -/
theorem follows_call {e : Option AccessKind} {a : DriverCall} {f : a.Answer → Callback α}
    (ha : (reporting e).allows q a)
    (hf : ∀ v, Follows e (f v) ((reporting e).next q a (.ok v))) :
    Follows e ((driver a).bind f) q :=
  Protocol.safe_then ha (fun x => x.elim) fun v _ => hf v

theorem follows_last {e : Option AccessKind} {a : DriverCall} (ha : (reporting e).allows q a) :
    Follows e (driver a) q := Protocol.safe_last ha fun _ _ => trivial

theorem follows_done {e : Option AccessKind} (v : α) : Follows e (.ret v : Callback α) q :=
  fun _ _ => trivial

/-- `CachemonSendEvent` sends once, if nothing was sent before. -/
theorem follows_sendEvent (hsent : q.sent = false) (hw : kind = .writeClosed → q.written = true) :
    Follows (some kind) (cachemonSendEvent kind) q := by
  refine follows_call trivial fun _ => follows_call trivial fun (ignored : Bool) => ?_
  cases ignored with
  | true => exact follows_done ()
  | false =>
    refine follows_call trivial fun (resolved : Bool) => ?_
    cases resolved with
    | true =>
      have hpassed : (q.passed || !false) = true := by simp
      exact follows_call ⟨rfl, hpassed, hsent, hw⟩ fun _ => follows_last trivial
    | false => exact follows_done ()

theorem follows_markWritten (context : Option ContextId) (hsent : q.sent = false) :
    Follows (some .writeObserved) (markWritten context) q := by
  have hsend : Follows (some .writeObserved) (cachemonSendEvent .writeObserved) q :=
    follows_sendEvent hsent fun hk => by cases hk
  cases context with
  | some context => exact follows_call trivial fun _ => follows_call trivial fun _ => hsend
  | none => exact hsend

theorem follows_preWrite : Follows (some .writeObserved) cachemonPreWrite {} := by
  refine follows_call trivial fun (ignored : Bool) => ?_
  cases ignored with
  | true => exact follows_done ()
  | false =>
    refine follows_call trivial fun (found : Option ContextId) => ?_
    cases found with
    | some context => exact follows_markWritten _ rfl
    | none =>
      refine follows_call trivial fun (allocated : Option ContextId) => ?_
      cases allocated with
      | some context =>
        exact follows_call trivial fun _ => follows_call trivial fun _ => follows_markWritten _ rfl
      | none => exact follows_markWritten _ rfl

theorem follows_dropContext {e : Option AccessKind} (context : ContextId) :
    Follows e (dropContext context) q := follows_call trivial fun _ => follows_last trivial

theorem follows_preCleanup : Follows (some .writeClosed) cachemonPreCleanup {} := by
  refine follows_call trivial fun _ => follows_call trivial fun (found : Option ContextId) => ?_
  cases found with
  | none => exact follows_done ()
  | some context =>
    refine follows_call trivial fun (writeObserved : Bool) => ?_
    cases writeObserved with
    | false => exact follows_dropContext context
    | true =>
      refine Prog.safe_bind (Prog.safe_mono (fun r z _ => ?_) (follows_sendEvent rfl fun _ => rfl))
      cases r with
      | ok v => exact follows_dropContext context
      | error e => exact e.elim

/-- What an operation callback reports is what the operation reports. -/
theorem follows_postCreate (data : Request) (draining success : Bool) (desiredAccess : UInt32) :
    Follows (((PortOperation.postCreate data draining success desiredAccess).reports).map Prod.snd)
      (cachemonPostCreate draining success desiredAccess) {} := by
  unfold cachemonPostCreate PortOperation.reports
  cases draining with
  | true => exact follows_done ()
  | false =>
    cases success with
    | false => exact follows_done ()
    | true =>
      by_cases hread : desiredAccess &&& readAccess ≠ 0
      · simp only [hread, ne_eq, not_false_eq_true, and_self, if_true]
        exact follows_sendEvent rfl fun hk => by cases hk
      · simp only [hread, and_false, if_false]
        exact follows_done ()

theorem follows_preSetInformation (data : Request) (infoClass : UInt32) :
    Follows (((PortOperation.preSetInformation data infoClass).reports).map Prod.snd)
      (cachemonPreSetInformation infoClass) {} := by
  unfold cachemonPreSetInformation
  simp only [PortOperation.reports]
  by_cases hrename : infoClass ∈ renameClasses
  · simp only [hrename, if_true]
    exact follows_sendEvent rfl fun hk => by cases hk
  · by_cases hdisposition : infoClass ∈ dispositionClasses
    · simp only [hrename, hdisposition, if_false, if_true]
      exact follows_sendEvent rfl fun hk => by cases hk
    · simp only [hrename, hdisposition, if_false]
      exact follows_done ()

/-! ## The steps under it -/

/-- Thread `t` is in a callback for `data` that began operation `o`, at local state `q`. -/
structure Since (t : ThreadId) (o : PortOperation) (data : Request) (q : Reporting)
    (h : PortHistory) : Prop where
  call : lastCall t h = some o
  user : q.passed = true → data.generated = false ∧ data.paging = false
  foreign : q.passed = true → data.requestorPid ≠ 0 →
    ∃ x ∈ sinceCall t h, x.1.servicePid ≠ data.requestorPid.toUInt64
  written : q.written = true → ∃ x ∈ sinceCall t h, findsWritten t x.2 = true
  first : q.sent = false → ∀ x ∈ sinceCall t h, sends t x.2 = false

variable {o : PortOperation} {data : Request} {x y : PortHistory × PortWorld}

theorem Since.extends (he : Extends t h h') (hq : Since t o data q h) : Since t o data q h' where
  call := he.call.trans hq.call
  user := hq.user
  foreign hp hpid := by
    obtain ⟨x, hx, hne⟩ := hq.foreign hp hpid
    exact ⟨x, he.old x hx, hne⟩
  written hw := by
    obtain ⟨x, hx, hf⟩ := hq.written hw
    exact ⟨x, he.old x hx, hf⟩
  first hs x hx := by
    by_contra hsends
    rw [Bool.not_eq_false] at hsends
    exact Bool.false_ne_true ((hq.first hs x (he.new x hx hsends)).symm.trans hsends)

/-- The messages of thread `t` are as claimed. -/
def Reported (t : ThreadId) (h : PortHistory) (event : CachemonEvent) : Prop :=
  ∃ o data kind, lastCall t h = some o ∧ o.reports = some (data, kind) ∧
    Reports t h data kind event

def reportContract (t : ThreadId) : Contract portCalls Empty (PortHistory × PortWorld) :=
  portDriver.contract (fun _ _ _ => True) t (fun x y => Extends t x.1 y.1)
    (fun x a _ _ => ∀ event, a = .sendMessage event → Reported t x.1 event)
    (fun x => Extends.refl x.1) Extends.trans

/-- In this state of the callback, with what more is known of its history. -/
def In (t : ThreadId) (o : PortOperation) (data : Request) (q : Reporting)
    (x : PortHistory × PortWorld) : Prop := Since t o data q x.1

theorem stable_in : (reportContract t).Stable (In t o data q) := fun _ _ he hx => hx.extends he

/-- The call is no message. -/
def PortCall.Silent : PortCall → Prop
  | .sendMessage _ => False
  | _ => True

theorem PortCall.Silent.ne {a : PortCall} (ha : a.Silent) (event : CachemonEvent) :
    a ≠ .sendMessage event := fun he => by
  rw [he] at ha
  exact ha

/-- A call that is no message goes on. -/
theorem extends_act {a : PortCall} {r : Except Empty a.Answer} (ha : a.Silent) : Extends t h ((w, .act t a r) :: h) := by
  refine extends_cons rfl ?_
  cases a with
  | sendMessage event => exact ha.elim
  | _ => rfl

/-- What a call that is no message leaves. -/
theorem in_next {a : PortCall} {r : Except Empty a.Answer} {z : PortHistory × PortWorld}
    (ha : a.Silent) (hx : In t o data q x) (hr : Extends t x.1 y.1)
    (hz : z.1 = (y.2, .act t a r) :: y.1) : In t o data q z := by
  have hext : Extends t y.1 z.1 := by
    rw [hz]
    exact extends_act ha
  exact Since.extends (hr.trans hext) hx

/-- **A call that is no message, then the rest.** -/
theorem safe_call {β : Type} {a : PortCall} {f : a.Answer → PortTask β}
    {R : Except Empty β → PortHistory × PortWorld → Prop} (ha : a.Silent) (hx : In t o data q x)
    (hf : ∀ v (y z : PortHistory × PortWorld), portExec y.2 a (.ok v) z.2 →
      z.1 = (y.2, .act t a (.ok v)) :: y.1 → In t o data q z →
      (f v).Safe (reportContract t) R z) : ((port a).bind f).Safe (reportContract t) R x := by
  intro y hy r z hs
  obtain ⟨hexec, -, hz⟩ := hs
  refine ⟨fun event he => absurd he (ha.ne event), ?_⟩
  cases r with
  | ok v => exact hf v y z hexec hz (in_next ha hx hy hz)
  | error e => exact e.elim

/-- One such call at the end. -/
theorem safe_call_last {a : PortCall} {R : Except Empty a.Answer → PortHistory × PortWorld → Prop}
    (ha : a.Silent) (hx : In t o data q x) (hR : ∀ r, (reportContract t).Stable (R r))
    (hpost : ∀ r (y z : PortHistory × PortWorld), z.1 = (y.2, .act t a r) :: y.1 →
      In t o data q z → R r z) : (port a).Safe (reportContract t) R x := by
  intro y hy r z hs
  obtain ⟨-, -, hz⟩ := hs
  refine ⟨fun event he => absurd he (ha.ne event), ?_⟩
  cases r with
  | ok v => exact fun z' hz' => hR _ hz' (hpost _ y z hz (in_next ha hx hy hz))
  | error e => exact e.elim

theorem safe_stop {v : α} {R : Except Empty α → PortHistory × PortWorld → Prop}
    (hR : (reportContract t).Stable (R (.ok v))) (hx : R (.ok v) x) :
    (Prog.ret v : PortTask α).Safe (reportContract t) R x := Prog.safe_ret hR hx

/-- The local state after `CachemonShouldIgnore`. -/
def Reporting.asked (q : Reporting) (ignored : Bool) : Reporting :=
  { q with passed := q.passed || !ignored }

theorem in_ignored (hx : In t o data q x) : In t o data (q.asked true) x := by
  have hq : q.asked true = q := by simp [Reporting.asked]
  rwa [hq]

theorem in_passed (hx : In t o data q x) (huser : data.generated = false ∧ data.paging = false)
    (hforeign : data.requestorPid ≠ 0 →
      ∃ s ∈ sinceCall t x.1, s.1.servicePid ≠ data.requestorPid.toUInt64) :
    In t o data (q.asked false) x where
  call := hx.call
  user _ := huser
  foreign _ := hforeign
  written := hx.written
  first := hx.first

/-- The step that loaded the pid is one of the callback. -/
theorem mem_sinceCall {a : PortCall} {r : Except Empty a.Answer} {z : PortHistory × PortWorld}
    (hz : z.1 = (y.2, .act t a r) :: y.1) : (y.2, .act t a r) ∈ sinceCall t z.1 := by
  rw [hz, sinceCall_cons rfl]
  exact List.mem_cons_self ..

/-- `CachemonShouldIgnore` lets a request pass that is no generated or paging I/O, and not of
the process registered at one of its reads. -/
theorem safe_shouldIgnore (hx : In t o data q x) :
    (cachemonShouldIgnore data).Safe (reportContract t)
      (fun r z => ∃ ignored, r = .ok ignored ∧ In t o data (q.asked ignored) z) x := by
  have hstable : ∀ r : Except Empty Bool, (reportContract t).Stable
      fun z => ∃ ignored, r = .ok ignored ∧ In t o data (q.asked ignored) z :=
    fun r _ _ he ⟨ignored, hr, hz⟩ => ⟨ignored, hr, stable_in he hz⟩
  have hignored : ∀ {z}, In t o data q z → (Prog.ret true : PortTask Bool).Safe (reportContract t)
      (fun r z => ∃ ignored, r = .ok ignored ∧ In t o data (q.asked ignored) z) z :=
    fun hz => safe_stop (hstable _) ⟨true, rfl, in_ignored hz⟩
  unfold cachemonShouldIgnore
  by_cases hgenerated : data.generated = true
  · rw [if_pos hgenerated]
    exact hignored hx
  by_cases hpaging : data.paging = true
  · rw [if_neg hgenerated, if_pos hpaging]
    exact hignored hx
  rw [if_neg hgenerated, if_neg hpaging]
  have huser : data.generated = false ∧ data.paging = false :=
    ⟨Bool.eq_false_of_not_eq_true hgenerated, Bool.eq_false_of_not_eq_true hpaging⟩
  have hpassed : ∀ {z}, In t o data q z → (data.requestorPid ≠ 0 →
      ∃ s ∈ sinceCall t z.1, s.1.servicePid ≠ data.requestorPid.toUInt64) →
      (Prog.ret false : PortTask Bool).Safe (reportContract t)
        (fun r z => ∃ ignored, r = .ok ignored ∧ In t o data (q.asked ignored) z) z :=
    fun hz hforeign => safe_stop (hstable _) ⟨false, rfl, in_passed hz huser hforeign⟩
  refine safe_call trivial hx fun (pid : UInt64) y z hexec hz hin => ?_
  obtain ⟨hpid, -⟩ := hexec
  by_cases hzero : pid ≠ 0
  · rw [if_pos hzero]
    refine safe_call trivial hin fun (pid : UInt64) y' z' hexec' hz' hin' => ?_
    obtain ⟨hpid', -⟩ := hexec'
    by_cases hsame : data.requestorPid.toUInt64 = pid
    · rw [decide_eq_true hsame]
      exact hignored hin'
    · rw [decide_eq_false hsame]
      exact hpassed hin' fun _ => ⟨_, mem_sinceCall hz', fun he => hsame (he.symm.trans hpid'.symm)⟩
  · -- no process is registered at the first read
    rw [if_neg hzero]
    rw [not_not] at hzero
    refine hpassed hin fun hrequestor => ⟨_, mem_sinceCall hz, fun he => hrequestor ?_⟩
    have hreq : data.requestorPid.toUInt64 = 0 := by rw [← he, ← hpid, hzero]
    exact UInt32.toUInt64_inj.1 hreq

/-- A message of a request that was let pass is as claimed, and the last one. -/
theorem safe_sendToClient {kind : AccessKind} (ho : o.reports = some (data, kind))
    (hpassed : q.passed = true) (hsent : q.sent = false)
    (hwritten : kind = .writeClosed → q.written = true) (hx : In t o data q x) :
    (sendToClient t (data.event kind)).Safe (reportContract t)
      (fun _ => In t o data { q with sent := true }) x := by
  have hdone : ∀ {z}, In t o data q z → In t o data { q with sent := true } z := fun hz =>
    { hz with first := fun h => by cases h }
  refine safe_call trivial hx fun _ y z _ _ hin => ?_
  refine safe_call trivial hin fun (connected : Bool) y' z' _ _ hin' => ?_
  cases connected with
  | false =>
    refine safe_call trivial hin' fun _ _ z _ _ hz => safe_stop stable_in (hdone hz)
  | true =>
    intro y hy r z hs
    obtain ⟨-, -, hz⟩ := hs
    have hat : In t o data q y := stable_in hy hin'
    refine ⟨fun event he => ?_, ?_⟩
    · cases he
      exact ⟨o, data, kind, hat.call, ho, rfl, hat.user hpassed, hat.first hsent,
        hat.foreign hpassed, fun hk => hat.written (hwritten hk)⟩
    · have hnext : In t o data { q with sent := true } z := by
        have hmem : ∀ s ∈ sinceCall t y.1, s ∈ sinceCall t z.1 := fun s hs => by
          rw [hz, sinceCall_cons rfl]
          exact List.mem_cons_of_mem _ hs
        refine ⟨?_, hat.user, fun hp hpid => ?_, fun hw => ?_, fun h => by cases h⟩
        · rw [hz]
          exact hat.call
        · obtain ⟨s, hs, hne⟩ := hat.foreign hp hpid
          exact ⟨s, hmem s hs, hne⟩
        · obtain ⟨s, hs, hf⟩ := hat.written hw
          exact ⟨s, hmem s hs, hf⟩
      cases r with
      | error e => exact e.elim
      | ok status =>
        exact safe_call trivial hnext fun _ _ z _ _ hz => safe_stop stable_in hz

/-- The steps of a driver call bring the callback where its protocol says. -/
theorem safe_implement {a : DriverCall}
    (hdata : ∀ d k, o.reports = some (d, k) → d = data)
    (ha : (reporting (o.reports.map Prod.snd)).allows q a) (hx : In t o data q x) :
    (implement t data a).Safe (reportContract t)
      (fun r z => True ∧ In t o data ((reporting (o.reports.map Prod.snd)).next q a r) z) x := by
  cases a with
  | shouldIgnore =>
    refine Prog.safe_mono (fun r z hz => ?_) (safe_shouldIgnore hx)
    obtain ⟨ignored, rfl, hz⟩ := hz
    exact ⟨trivial, hz⟩
  | sendMessage kind =>
    obtain ⟨hkind, hpassed, hsent, hwritten⟩ := ha
    obtain ⟨⟨d, k⟩, hreports, rfl⟩ := Option.map_eq_some_iff.1 hkind
    obtain rfl := hdata d k hreports
    exact Prog.safe_mono (fun _ _ hz => ⟨trivial, hz⟩)
      (safe_sendToClient hreports hpassed hsent hwritten hx)
  | loadWriteObserved context =>
    refine safe_call_last trivial hx (fun r _ _ he hz => ⟨trivial, hz.2.extends he⟩)
      fun r y z hz hin => ⟨trivial, ?_⟩
    cases r with
    | error e => exact e.elim
    | ok writeObserved =>
      refine { hin with written := fun hw => ?_ }
      rcases Bool.or_eq_true_iff.1 hw with hw | hw
      · exact hin.written hw
      · refine ⟨_, mem_sinceCall hz, ?_⟩
        have hload : writeObserved = true := hw
        simp [findsWritten, hload]
  | _ =>
    refine safe_call_last trivial hx (fun r _ _ he hz => ⟨trivial, ?_⟩)
      fun r y z _ hin => ⟨trivial, ?_⟩
    · exact Since.extends he hz.2
    · cases r with
      | error e => exact e.elim
      | ok v => exact hin

theorem safe_operationCallback {callback : Callback Unit}
    (hdata : ∀ d k, o.reports = some (d, k) → d = data)
    (hfollows : Follows (o.reports.map Prod.snd) callback {}) (hx : In t o data {} x) :
    (operationCallback t data callback).Safe (reportContract t) (fun _ _ => True) x := by
  refine safe_call trivial hx fun _ y z _ _ hin => ?_
  have hanswers : ∀ a, ∃ r, (reporting (o.reports.map Prod.snd)).answers a r :=
    fun a => ⟨.ok (handleAnswer a), trivial⟩
  have hcalls := Protocol.safe_expand (I := In t o data) (K := reportContract t) hanswers
    (fun _ => stable_in) (fun ha hz => safe_implement hdata ha hz) hfollows hin
  refine Prog.safe_bind (Prog.safe_mono (fun r z hz => ?_) hcalls)
  obtain ⟨q, -, hz⟩ := hz
  cases r with
  | error e => exact e.elim
  | ok v => exact safe_call_last trivial hz (fun _ _ _ _ _ => trivial) fun _ _ _ _ _ => trivial

/-! ## The other callbacks -/

theorem safe_silent {c : PortTask Unit} (hc : c.Only PortCall.Silent) :
    c.Safe (reportContract t) (fun _ _ => True) x :=
  hc.safe (fun _ _ _ h => h) (fun ha _ _ => ⟨fun event he => absurd he (ha.ne event), trivial⟩)
    trivial

theorem silent_connect : (PortOperation.body t .connect).Only PortCall.Silent := by
  refine Prog.Only.bind (Prog.only_perform trivial) fun _ => ?_
  refine Prog.Only.bind (Prog.only_perform trivial) fun _ => ?_
  refine Prog.Only.bind (Prog.only_perform trivial) fun (connected : Bool) => ?_
  cases connected with
  | true =>
    refine Prog.Only.bind (Prog.only_perform trivial) fun _ => ?_
    exact Prog.Only.bind (Prog.only_perform trivial) fun _ => Prog.only_perform trivial
  | false => exact Prog.Only.bind (Prog.only_perform trivial) fun _ => Prog.only_perform trivial

theorem silent_dropClient {rest : PortTask Unit} (hrest : rest.Only PortCall.Silent) :
    (dropClient t rest).Only PortCall.Silent := by
  have hend : (rest.bind fun _ => port (.releaseFastMutex t)).Only PortCall.Silent :=
    hrest.bind fun _ => Prog.only_perform trivial
  refine Prog.Only.bind (Prog.only_perform trivial) fun _ => ?_
  refine Prog.Only.bind (Prog.only_perform trivial) fun (connected : Bool) => ?_
  cases connected with
  | true =>
    refine Prog.Only.bind (Prog.only_perform trivial) fun _ => ?_
    exact Prog.Only.bind (Prog.only_perform trivial) fun _ => hend
  | false => exact hend

theorem silent_message (inputBufferLength : UInt32) (command : CachemonCommand) :
    (PortOperation.body t (.message inputBufferLength command)).Only PortCall.Silent := by
  refine Prog.Only.bind ?_ fun _ => trivial
  unfold cachemonMessage
  split
  · exact trivial
  · split
    · exact trivial
    · split
      · exact Prog.Only.bind (Prog.only_perform trivial) fun _ => trivial
      · exact trivial

theorem silent_unload : (cachemonUnload t).Only PortCall.Silent := by
  have hunregister : unregister.Only PortCall.Silent := by
    refine Prog.Only.bind (Prog.only_perform trivial) fun (registered : Bool) => ?_
    cases registered with
    | true => exact Prog.Only.bind (Prog.only_perform trivial) fun _ => Prog.only_perform trivial
    | false => exact trivial
  have hnothing : (pure () : PortTask Unit).Only PortCall.Silent := trivial
  have hend : ((dropClient t (pure ())).bind fun _ => unregister).Only PortCall.Silent :=
    (silent_dropClient hnothing).bind fun _ => hunregister
  refine Prog.Only.bind (Prog.only_perform trivial) fun (listening : Bool) => ?_
  cases listening with
  | true =>
    refine Prog.Only.bind (Prog.only_perform trivial) fun _ => ?_
    exact Prog.Only.bind (Prog.only_perform trivial) fun _ => hend
  | false => exact hend

/-! ## Runs -/

/-- A callback has just been entered. -/
theorem in_entered (w : PortWorld) (h : PortHistory) :
    In t o data {} ((w, .call t (t, o)) :: h, w) := by
  have hentered : Since t o data {} ((w, .call t (t, o)) :: h) := by
    refine ⟨if_pos rfl, fun hp => ?_, fun hp => ?_, fun hw => ?_, fun _ x hx => ?_⟩
    · cases hp
    · cases hp
    · cases hw
    · have henters : enters t (.call t (t, o)) = true := decide_eq_true rfl
      have hsince : sinceCall t ((w, .call t (t, o)) :: h) = [(w, .call t (t, o))] := if_pos henters
      rw [hsince, List.mem_singleton] at hx
      subst hx
      rfl
  exact hentered

theorem safe_body (w : PortWorld) (h : PortHistory) :
    (o.body t).Safe (reportContract t) (fun _ _ => True) ((w, .call t (t, o)) :: h, w) := by
  cases o with
  | postCreate data draining success desiredAccess =>
    refine safe_operationCallback (fun d k hreports => ?_)
      (follows_postCreate data draining success desiredAccess) (in_entered w h)
    simp only [PortOperation.reports, Option.ite_none_right_eq_some] at hreports
    exact (congrArg Prod.fst (Option.some.inj hreports.2)).symm
  | preRead data =>
    have hfollows : Follows (some .readOpen) cachemonPreRead {} :=
      follows_sendEvent rfl fun hk => by cases hk
    refine safe_operationCallback (o := .preRead data) (fun d k hreports => ?_) hfollows
      (in_entered w h)
    exact (congrArg Prod.fst (Option.some.inj hreports)).symm
  | preWrite data =>
    refine safe_operationCallback (o := .preWrite data) (fun d k hreports => ?_) follows_preWrite
      (in_entered w h)
    exact (congrArg Prod.fst (Option.some.inj hreports)).symm
  | preCleanup data =>
    refine safe_operationCallback (o := .preCleanup data) (fun d k hreports => ?_) follows_preCleanup
      (in_entered w h)
    exact (congrArg Prod.fst (Option.some.inj hreports)).symm
  | preSetInformation data infoClass =>
    refine safe_operationCallback (fun d k hreports => ?_)
      (follows_preSetInformation data infoClass) (in_entered w h)
    simp only [PortOperation.reports] at hreports
    split_ifs at hreports
    · exact (congrArg Prod.fst (Option.some.inj hreports)).symm
    · exact (congrArg Prod.fst (Option.some.inj hreports)).symm
  | connect => exact safe_silent silent_connect
  | disconnect => exact safe_silent (silent_dropClient (Prog.only_perform trivial))
  | message n command => exact safe_silent (silent_message n command)
  | unload => exact safe_silent silent_unload

def reportOutline : Outline portDriver (fun _ _ _ => True) where
  contract := reportContract
  idle _ _ := True
  step_eq _ := rfl
  stable _ _ _ _ := id
  act {t u x a r y} htu hs _ := by
    obtain ⟨-, -, hy⟩ := hs
    have hsends : sends u (.act t a r : PortEvent) = false := by
      cases a with
      | sendMessage event => exact decide_eq_false htu
      | _ => rfl
    have hext : Extends u x.1 y.1 := by
      rw [hy]
      exact extends_cons rfl hsends
    exact hext
  call {t u h w o} htu := extends_cons (decide_eq_false htu) rfl
  env he := he.elim
  body {t h c o} hm _ _ := by
    obtain ⟨t', o⟩ := o
    obtain rfl : t' = t := hm
    exact safe_body c.world h

theorem convertKind_code (kind : AccessKind) : convertKind kind.code = kind := by
  cases kind with
  | readOpen | writeObserved | writeClosed | rename | delete => rfl

/-- The service decodes the event of a request as an access of its kind. -/
theorem decodes_event (data : Request) (kind : AccessKind) :
    Decodes data kind (data.event kind) := by
  intro fold sourceUnc hname
  refine ⟨readIdentity_sentEvent hname _ _, fun identity observedAt => ?_⟩
  simp only [accessEvent, Request.event, sentEvent, convertKind_code]

/-- **Messages are the sender's own**, in every run. -/
theorem meets_sendsOwn {h : PortHistory} {c : PortState} (hrun : PortRun h c) :
    Meets SendsOwn h := by
  induction hrun with
  | init => trivial
  | @step h c c' l hrun hs ih =>
    refine ⟨?_, ih⟩
    rintro t event r rfl
    have hm : Meets (fun _ _ _ => True) h := meets_of_forall (fun _ _ _ => trivial) h
    exact reportOutline.keep_of_run (fun _ => trivial) hrun hm trivial hs event rfl

/-- **Messages report what happened.** In every run of the callbacks, a message that a thread
sends is the event of the request of the callback it is in, as an access of the operation's
kind; it is the first message of the callback; the request is no generated or paging I/O, and
the requesting process was not registered throughout the callback; a close is reported of a
handle found written. The service decodes it as an access of that kind, by that process, of
the name's path on the source. -/
theorem sent_reports {h : PortHistory} {c : PortState} (hrun : PortRun h c) :
    Meets SendsReports h := by
  refine (meets_sendsOwn hrun).mono fun hown t event r hl => ?_
  obtain ⟨o, data, kind, hcall, hreports, hsent⟩ := hown t event r hl
  refine ⟨o, data, kind, hcall, hreports, hsent, ?_⟩
  rw [hsent.event]
  exact decodes_event data kind

/-- Process 9 registers, and the read of process 7 is sent. -/
theorem sent_reports_read : ∃ h c, PortRun h c ∧
    (∃ x ∈ h, sends 2 x.2 = true) ∧ Meets SendsReports h := by
  obtain ⟨h, c, hrun, hsent⟩ := exists_portRun
    (portSteps 1 .connect 5 ++ portSteps 1 (.message 1056 ⟨1, 1, 9⟩) 1 ++
      portSteps 2 (.preRead { requestorPid := 7, name := wide "a" }) 11)
    (fun x => ∃ y ∈ x.1, sends 2 y.2 = true) (by decide)
  exact ⟨h, c, hrun, hsent, sent_reports hrun⟩

end SsdCache.ClientPort
