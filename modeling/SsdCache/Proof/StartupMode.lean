import SsdCache.Atomic.Local
import SsdCache.Proof.Batch
import SsdCache.Proof.Queries
import SsdCache.Proof.Threads
import SsdCache.Spec.Hosting

/-!
# The mode of the running service

The startup and the control thread write the two flags of the pipeline, one after the
other and without a lock around both. What each of them has written, and what the worker
has found due, are local states of the threads, to which their programs keep
(`runWorker_safe`, `handlerThunk_safe`, `workerIteration_safe`).

* `written_step`: after the startup's writes a flag is what the last control wrote, or what
  the startup wrote if there was none; unless the startup wrote over a control.
* `mode_followed`: **the pipeline follows the acknowledged mode** in every run in which it did
  not, and nothing is copied early in every run in which nothing is due early.
* `mode_overwritten`: runs in which it did, and in which a job is due early.
-/

namespace SsdCache

open Atomic

variable {V : Type} {s : Hosting V} {sv : Service V} {w w' : HostWorld V} {h : HostHistory V}
variable {c c' : HostState V} {l : HostEvent}

/-! ## What the threads did -/

/-- How far the startup is: it has read the mode of the configuration file, published the
scheduler, stored the first flag, and stored both. -/
inductive Startup
  | unread
  | loaded (mode : Option AppMode)
  | published (mode : Option AppMode)
  | stored (mode : Option AppMode)
  | applied (mode : Option AppMode)
  deriving DecidableEq

/-- Calls that neither move the flags of the pipeline, nor let it run, nor copy. -/
def Harmless : hostCalls.Act → Prop
  | .inl (.memory (.exchangePaused _)) | .inl (.copyAndHash _ _ _ _) => False
  | .inr (.storeCachingActive _) | .inr (.setPublishedPaused _) | .inr .publish => False
  | _ => True

/-- The flags and the replies do not throw. -/
def HostAnswers (a : hostCalls.Act) : Except String (hostCalls.Resp a) → Prop
  | .ok _ => True
  | .error _ =>
    match a with
    | .inl _ => True
    -- the file, the database and the port may throw
    | .inr .loadConfig | .inr (.saveConfig _) | .inr .openIndex | .inr .connect => True
    | .inr _ => False

/-- The order in which the startup goes. -/
def startupProtocol : Protocol hostCalls String Startup where
  rest := .unread
  next q a r :=
    match q, a, r with
    | .unread, .inr .loadConfig, .ok config => .loaded (show AppConfig from config).mode
    | .loaded mode, .inr .publish, .ok _ => .published mode
    | .published mode, .inr (.storeCachingActive _), .ok _ => .stored mode
    | .stored mode, .inr (.setPublishedPaused _), .ok _ => .applied mode
    | q, _, _ => q
  allows q a :=
    match a with
    | .inr .publish => ∃ mode, q = .loaded mode
    | .inr (.storeCachingActive active) =>
      ∃ mode, q = .published mode ∧ active = modeEnablesCaching mode
    | .inr (.setPublishedPaused paused) =>
      ∃ mode, q = .stored mode ∧ paused = !modeEnablesCaching mode
    | a => Harmless a
  answers := HostAnswers

/-- What the controls wrote last, and the mode of the last one that was acknowledged. -/
structure Controlled where
  stored : Option Bool := none
  paused : Option Bool := none
  acked : Option AppMode := none
  deriving DecidableEq

/-- What the control thread writes. -/
def controlProtocol : Protocol hostCalls String Controlled where
  rest := {}
  next q a r :=
    match a, r with
    | .inr (.storeCachingActive active), .ok _ => { q with stored := some active }
    | .inr (.setPublishedPaused paused), .ok _ => { q with paused := some paused }
    | .inr (.reply (.mode mode) .noError), .ok _ => { q with acked := some mode }
    | _, _ => q
  allows _ a :=
    match a with
    | .inl _ | .inr .publish => False
    | _ => True
  answers := HostAnswers

/-- Both flags were written as the last acknowledged mode wants them. -/
def Controlled.Settled (q : Controlled) : Prop :=
  q.stored = q.acked.map (fun mode => modeEnablesCaching (some mode)) ∧
    q.paused = q.acked.map fun mode => !modeEnablesCaching (some mode)

/-- Whether the last batch found a job; only such a batch copies. -/
def batchProtocol : Protocol calls String Bool where
  rest := false
  next q a r :=
    match a, r with
    | .query (.dueJobs _ _), .ok jobs => !List.isEmpty (show List PendingJob from jobs)
    | _, _ => q
  allows q a :=
    match a with
    | .copyAndHash _ _ _ _ => q = true
    | a => Harmless (.inl a)
  answers _ _ := True

/-- A thread that moves no flags. -/
def harmlessProtocol : Protocol hostCalls String Unit where
  rest := ()
  next q _ _ := q
  allows _ a := Harmless a
  answers _ _ := True

/-! ## The programs keep to it -/

theorem batch_call {a : Call} (ha : a.ByBatch) : batchProtocol.contract.Triple (· = true) a
    (onOk (fun _ => (· = true)) fun _ => True) := by
  refine ⟨Protocol.stable _, ?_⟩
  rintro q r q' rfl ⟨-, rfl⟩
  have hallows : batchProtocol.allows true a := by
    cases a with
    | copyAndHash p s c m => rfl
    | memory m => cases m <;> first | exact ha.elim | trivial
    | _ => trivial
  have hnext : batchProtocol.next true a r = true := by
    cases a with
    | query q => cases q <;> first | exact ha.elim | rfl
    | _ => rfl
  refine ⟨hallows, ?_⟩
  cases r with
  | ok v => exact hnext
  | error e => trivial

/-- The loop of a batch that found a job. -/
def foundBatch (sv : Service V) (now : ℤ) : BatchOutline batchProtocol.contract sv now :=
  .uniform (fun _ => False) (· = true) (fun _ => True) (fun _ => True) (fun _ _ => trivial)
    (Protocol.stable _) (Protocol.stable _) (Protocol.stable _)
    ⟨Protocol.stable _, fun h => h.elim⟩ batch_call

theorem runDueOnce_safe (now : ℤ) (q : Bool) :
    (runDueOnce sv now).Safe batchProtocol.contract (fun _ _ => True) q := by
  refine Protocol.safe_then trivial (fun _ _ => trivial) fun (jobs : List PendingJob) _ => ?_
  cases jobs with
  | nil => exact fun _ _ => trivial
  | cons j js =>
    have hjobs := (foundBatch sv now).runJobs_safe (j :: js) 0 (x := true) rfl
    exact Prog.safe_mono (fun _ _ _ => trivial) hjobs

theorem runBatch_safe (e : HeapEntry) (q : Bool) :
    (runBatch sv e).Safe batchProtocol.contract (fun _ _ => True) q := by
  have hbody : (batchBody sv).Safe batchProtocol.contract (fun _ _ => True) q := by
    refine Protocol.safe_then trivial (fun _ _ => trivial) fun (now : ℤ) _ => ?_
    refine Prog.safe_bind (Prog.safe_mono (fun r z _ => ?_) (runDueOnce_safe now q))
    cases r with
    | ok v => exact fun _ _ => trivial
    | error error => exact fun _ _ => trivial
  refine Prog.safe_tryCatch (Prog.safe_mono (fun r z _ => ?_) hbody)
  cases r with
  | ok v => trivial
  | error error => exact Protocol.safe_last trivial fun _ _ => trivial

/-- **A pass of the worker** copies only in a batch that found a job. -/
theorem workerIteration_safe (q : Bool) :
    (workerIteration sv).Safe batchProtocol.contract (fun _ _ => True) q := by
  refine Protocol.safe_then trivial (fun _ _ => trivial) fun (stop : Bool) _ => ?_
  cases stop with
  | true => exact Protocol.safe_last trivial fun _ _ => trivial
  | false =>
    refine Protocol.safe_then trivial (fun _ _ => trivial) fun (paused : Bool) _ => ?_
    cases paused with
    | true => exact fun _ _ => trivial
    | false =>
      refine Protocol.safe_then trivial (fun _ _ => trivial) fun (next : Option HeapEntry) _ => ?_
      cases next with
      | none => exact fun _ _ => trivial
      | some e =>
        refine Protocol.safe_then trivial (fun _ _ => trivial) fun (paused : Bool) _ => ?_
        cases paused with
        | true => exact Protocol.safe_last trivial fun _ _ => trivial
        | false =>
          refine Protocol.safe_then trivial (fun _ _ => trivial) ?_
          intro (job : Option PendingJob) _
          cases job with
          | none => exact fun _ _ => trivial
          | some j =>
            change (if j.dueUtc ≠ e.dueUtc then pure () else runBatch sv e).Safe _ _ _
            split
            · exact fun _ _ => trivial
            · exact runBatch_safe e _

/-- The calls of the startup on the scheduler and the index. -/
def Preparing (a : hostCalls.Act) : Prop := ∃ b : Call, a = Sum.inl b ∧ (b.ByCleanup ∨ b.ByStart)

theorem preparing_loaded {mode : Option AppMode} {a : hostCalls.Act} (ha : Preparing a) :
    startupProtocol.allows (.loaded mode) a ∧
      ∀ r, startupProtocol.next (.loaded mode) a r = .loaded mode := by
  obtain ⟨b, rfl, hb⟩ := ha
  refine ⟨?_, fun _ => rfl⟩
  cases b with
  | memory m => cases m <;> first | exact (hb.elim id id).elim | trivial
  | copyAndHash p s c m => exact (hb.elim id id).elim
  | _ => trivial

/-- **The startup** writes what the mode that it read wants. -/
theorem runWorker_safe (filters : Filters) :
    (runWorker filters).Safe startupProtocol.contract (fun _ _ => True) .unread := by
  refine Protocol.safe_then trivial (fun _ _ => trivial) fun _ _ => ?_
  refine Protocol.safe_then trivial (fun _ _ => trivial) fun (config : AppConfig) _ => ?_
  refine Protocol.safe_then trivial (fun _ _ => trivial) fun _ _ => ?_
  have hcleanup := (cleanup_only filters.pathIgnored filters.isDirectory).left (T := hostOnly)
    (B := Preparing) fun ha => ⟨_, rfl, .inl ha⟩
  have hstart := start_byStart.left (T := hostOnly) (B := Preparing) fun ha => ⟨_, rfl, .inr ha⟩
  -- the cleanup and the start of the scheduler leave the startup where it is
  refine Protocol.safe_only_then preparing_loaded hcleanup (fun _ => trivial) fun _ => ?_
  refine Protocol.safe_only_then preparing_loaded hstart (fun _ => trivial) fun _ => ?_
  refine Protocol.safe_then ⟨_, rfl⟩ (fun _ _ => trivial) fun _ _ => ?_
  -- both flags get the mode that was read
  have happly : (applyCachingMode config.mode).Safe startupProtocol.contract (fun _ _ => True)
      (.published config.mode) := by
    refine Protocol.safe_then ⟨_, rfl, rfl⟩ (fun _ _ => trivial) fun _ _ => ?_
    exact Protocol.safe_last ⟨_, rfl, rfl⟩ fun _ _ => trivial
  refine Prog.safe_bind (Prog.safe_mono (fun r q _ => ?_) happly)
  cases r with
  | error e => exact fun _ _ => trivial
  | ok v =>
    have hend : (Prog.ret () : HostTask Unit).Safe startupProtocol.contract (fun _ _ => True) q :=
      fun _ _ => trivial
    have hconnect : (host .connect).Safe startupProtocol.contract (fun _ _ => True) q :=
      Protocol.safe_last trivial fun _ _ => trivial
    exact Prog.safe_ite (fun _ => hend) fun _ => hconnect

/-- The calls on the drives. -/
def OnDrives (a : hostCalls.Act) : Prop := ∃ b, a = Sum.inr (HostCall.drive b)

theorem drive_only (b : MountCall) : (host (.drive b)).Only OnDrives :=
  Prog.only_perform (S := hostCalls) (a := Sum.inr (HostCall.drive b)) ⟨b, rfl⟩

theorem moveToMonitor_only (config : AppConfig) :
    (moveCacheToMonitorLetter config).Only OnDrives := by
  refine Prog.Only.bind (drive_only _) fun (sourceVolume : Option WString) => ?_
  cases sourceVolume with
  | none => exact trivial
  | some volume =>
    refine Prog.Only.bind (drive_only _) fun (cacheVolume : Option WString) => ?_
    refine Prog.only_ite trivial ?_
    exact Prog.Only.bind (drive_only _) fun _ => drive_only _

theorem moveToSource_only (config : AppConfig) :
    (moveCacheToSourceLetter config).Only OnDrives := by
  refine Prog.Only.bind (drive_only _) fun (cacheVolume : Option WString) => ?_
  cases cacheVolume with
  | none => exact trivial
  | some volume =>
    refine Prog.Only.bind (drive_only _) fun _ => ?_
    exact Prog.Only.bind (drive_only _) fun _ => drive_only _

/-- After a control has done its work, its reply leaves the flags as the acknowledged mode
wants them; an exception leaves them so at once. -/
def Concluding (control : Control) : Except String ControlResult → Controlled → Prop
  | .ok result, q =>
    (controlProtocol.next q (Sum.inr (HostCall.reply control result)) (.ok ())).Settled
  | .error _, q => q.Settled

variable {q : Controlled}

theorem concluding_refused {control : Control} {result : ControlResult}
    (hresult : result ≠ .noError) (hq : q.Settled) : Concluding control (.ok result) q := by
  cases control with
  | mode mode => cases result <;> first | exact absurd rfl hresult | exact hq
  | _ => exact hq

/-- A control that persists its mode and applies it. -/
theorem switchMode_safe (config : AppConfig) (mode : AppMode) (hq : q.Settled) :
    (switchMode config mode).Safe controlProtocol.contract (Concluding (.mode mode)) q := by
  have happly : (applyCachingMode (some mode)).Safe controlProtocol.contract
      (fun r q' => r = .ok () ∧ q' = { q with
        stored := some (modeEnablesCaching (some mode))
        paused := some (!modeEnablesCaching (some mode)) }) q := by
    refine Protocol.safe_then trivial (fun _ => False.elim) fun _ _ => ?_
    refine Protocol.safe_last trivial fun r hr => ?_
    cases r with
    | ok v => exact ⟨rfl, rfl⟩
    | error e => exact hr.elim
  refine Protocol.safe_then trivial (fun _ _ => hq) fun _ _ => ?_
  refine Prog.safe_bind (Prog.safe_mono ?_ happly)
  rintro r q' ⟨rfl, rfl⟩
  exact Protocol.safe_end ⟨rfl, rfl⟩

theorem handleControl_safe (control : Control) (hq : q.Settled) :
    (handleControl control).Safe controlProtocol.contract (Concluding control) q := by
  have hdrives {a : hostCalls.Act} (ha : OnDrives a) :
      controlProtocol.allows q a ∧ ∀ r, controlProtocol.next q a r = q := by
    obtain ⟨b, rfl⟩ := ha
    exact ⟨trivial, fun _ => rfl⟩
  have hrefused {mode : AppMode} : (Prog.ret .serviceSpecificError : HostTask ControlResult).Safe
      controlProtocol.contract (Concluding (.mode mode)) q :=
    Protocol.safe_end (concluding_refused nofun hq)
  cases control with
  | stop =>
    exact Protocol.safe_then trivial (fun _ => False.elim) fun _ _ => Protocol.safe_end hq
  | shutdown =>
    exact Protocol.safe_then trivial (fun _ => False.elim) fun _ _ => Protocol.safe_end hq
  | paramChange => exact Protocol.safe_end hq
  | other => exact Protocol.safe_then trivial (fun _ _ => hq) fun _ _ => Protocol.safe_end hq
  | mode mode =>
    cases mode with
    | disabled =>
      refine Protocol.safe_then trivial (fun _ _ => hq) fun (config : AppConfig) _ => ?_
      exact switchMode_safe config .disabled hq
    | monitor =>
      refine Protocol.safe_then trivial (fun _ _ => hq) fun (config : AppConfig) _ => ?_
      -- the move of the volume writes no flag; if it fails the control is refused
      refine Protocol.safe_only_then hdrives (moveToMonitor_only config) (fun _ => hq)
        fun moved => ?_
      exact Prog.safe_ite (fun _ => switchMode_safe config .monitor hq) fun _ => hrefused
    | serve =>
      refine Protocol.safe_then trivial (fun _ _ => hq) fun (config : AppConfig) _ => ?_
      refine Protocol.safe_only_then hdrives (moveToSource_only config) (fun _ => hq)
        fun moved => ?_
      exact Prog.safe_ite (fun _ => switchMode_safe config .serve hq) fun _ => hrefused

/-- **A control** leaves the flags as the acknowledged mode wants them. -/
theorem handlerThunk_safe (control : Control) (hq : q.Settled) :
    (handlerThunk control).Safe controlProtocol.contract (fun _ => Controlled.Settled) q := by
  refine Prog.safe_bind (Prog.safe_mono (fun r q' hr => ?_) (handleControl_safe control hq))
  cases r with
  | error e => exact fun _ hq' => hq' ▸ hr
  | ok result =>
    refine Protocol.safe_last trivial fun r hreply => ?_
    cases r with
    | ok v => exact hr
    | error e => exact hreply.elim

theorem harmless_byEvents {a : Call} (ha : a.ByEvents) : Harmless (Sum.inl a) := by
  cases a with
  | memory m => cases m <;> first | exact ha.elim | trivial
  | copyAndHash p s c m => exact ha.elim
  | _ => trivial

theorem converted_only (value : Except String String) : (converted value).Only Harmless := by
  cases value <;> trivial

theorem activityEventMessage_only (event : AccessEvent) :
    (activityEventMessage event).Only Harmless :=
  Prog.Only.bind (converted_only _) fun _ => trivial

theorem onActivity_only (filters : Filters) (event : AccessEvent) :
    (onActivity sv filters event).Only Harmless := by
  have hget (a : HostCall) (ha : Harmless (Sum.inr a)) : (host a).Only Harmless :=
    Prog.only_perform (S := hostCalls) (a := Sum.inr a) ha
  refine Prog.Only.bind (hget .loadCachingActive trivial) fun (active : Bool) => ?_
  refine Prog.only_ite ?_ trivial
  refine Prog.Only.bind ?_ fun enriched => ?_
  · refine Prog.Only.bind (hget (.processImage _) trivial) fun (image : WString) => ?_
    exact Prog.Only.bind (converted_only _) fun _ => trivial
  · refine Prog.Only.bind ?_ fun (ignored : Bool) => ?_
    · refine Prog.only_ite ?_ trivial
      exact Prog.Only.bind (activityEventMessage_only _) fun _ => trivial
    · refine Prog.only_ite trivial ?_
      refine Prog.Only.bind (activityEventMessage_only _) fun _ => ?_
      exact (recordEvent_only enriched).left harmless_byEvents

/-- **A pass of the reader** moves no flags. -/
theorem readerIteration_only (filters : Filters) (fold : CaseFold) (sourceUnc : WString) :
    (readerIteration sv filters fold sourceUnc).Only Harmless := by
  have hget : (host .getMessage).Only Harmless :=
    Prog.only_perform (S := hostCalls) (a := Sum.inr HostCall.getMessage) trivial
  refine Prog.Only.bind hget fun (message : Option CachemonEvent) => ?_
  cases message with
  | none => exact trivial
  | some message =>
    cases hid : readIdentity fold sourceUnc message with
    | none => simp only [hid]; exact trivial
    | some identity =>
      simp only [hid]
      have hread : (memory .now).Only fun a => a = Call.memory .now := Prog.only_perform rfl
      have hnow : (lift (memory .now)).Only Harmless :=
        hread.left fun ha => by subst ha; trivial
      exact Prog.Only.bind hnow fun (now : ℤ) => onActivity_only filters _

/-! ## Runs -/

theorem hostExec_answers {faults : Faults} {a : hostCalls.Act}
    {r : Except String (hostCalls.Resp a)} (hx : hostExec sv faults w a r w') :
    HostAnswers a r := by
  cases r with
  | ok v => trivial
  | error e =>
    cases a with
    | inl a => trivial
    | inr a => cases a <;> trivial

/-- How far the startup of a run is. -/
abbrev reached (h : HostHistory V) : Startup := startupProtocol.localState .serviceMain h

/-- What the controls of a run wrote. -/
abbrev controlled (h : HostHistory V) : Controlled := controlProtocol.localState .controls h

/-- The protocol of the worker thread. -/
def workerProtocol : Protocol hostCalls String Bool := batchProtocol.onLeft

/-- Whether the last batch of a run found a job. -/
abbrev foundDue (h : HostHistory V) : Bool := workerProtocol.localState .worker h

/-- Each thread does what its local state allows. -/
structure InOrder (h : HostHistory V) (w : HostWorld V) (l : HostEvent) : Prop where
  startup : startupProtocol.Allowed .serviceMain h w l
  controls : controlProtocol.Allowed .controls h w l
  worker : workerProtocol.Allowed .worker h w l
  reader : harmlessProtocol.Allowed .reader h w l

theorem controls_safe {o : HostOperation} {q : Controlled} (hm : hostMenu .controls c o = true)
    (hq : q.Settled) :
    (o.body s).Safe controlProtocol.contract (fun _ => Controlled.Settled) q := by
  cases o with
  | control control => exact handlerThunk_safe control hq
  | workerPass => cases hm
  | readerPass => cases hm

theorem worker_safe {o : HostOperation} {q : Bool} (hm : hostMenu .worker c o = true) :
    (o.body s).Safe workerProtocol.contract (fun _ _ => True) q := by
  cases o with
  | control control => cases hm
  | workerPass => exact Protocol.safe_onLeft (E := fun _ => True) (workerIteration_safe q)
  | readerPass => cases hm

theorem reader_safe {o : HostOperation} {q : Unit} (hm : hostMenu .reader c o = true) :
    (o.body s).Safe harmlessProtocol.contract (fun _ _ => True) q := by
  cases o with
  | control control => cases hm
  | workerPass => cases hm
  | readerPass =>
    have hharmless {a : hostCalls.Act} (ha : Harmless a) :
        harmlessProtocol.allows q a ∧ ∀ r, harmlessProtocol.next q a r = q := ⟨ha, fun _ => rfl⟩
    have honly : (readerIteration s.sv s.filters s.fold s.sourceUnc).Only Harmless :=
      readerIteration_only s.filters s.fold s.sourceUnc
    exact Prog.safe_mono (fun _ _ _ => trivial) (Protocol.safe_only hharmless honly)

/-- **In every run each thread keeps to its protocol.** -/
theorem inOrder_of_run (hrun : Run (hosting s) (starting s.filters w) h c) : Meets InOrder h := by
  have hstartup : Meets (startupProtocol.Allowed .serviceMain) h :=
    Protocol.allowed_of_run (E := fun _ => True) hostExec_answers (fun hm => by cases hm)
      (runWorker_safe s.filters) hrun
  have hcontrols : Meets (controlProtocol.Allowed .controls) h :=
    Protocol.allowed_of_run hostExec_answers controls_safe (Protocol.safe_end ⟨rfl, rfl⟩) hrun
  have hworker : Meets (workerProtocol.Allowed .worker) h := by
    refine Protocol.allowed_of_run (E := fun _ => True) (fun {_ a _ _} _ => ?_)
      (fun hm _ => worker_safe hm) (Protocol.safe_end trivial) hrun
    cases a <;> trivial
  have hreader : Meets (harmlessProtocol.Allowed .reader) h :=
    Protocol.allowed_of_run (E := fun _ => True) (fun _ => trivial) (fun hm _ => reader_safe hm)
      (Protocol.safe_end trivial) hrun
  exact ((hstartup.and hcontrols).and (hworker.and hreader)).mono
    fun ⟨⟨hs, hc⟩, hw, hr⟩ => ⟨hs, hc, hw, hr⟩

/-! ## The flags -/

/-- What the flags are, by what the startup and the controls wrote: the last control's value,
and the startup's if there was none. -/
def Written (q : Controlled) (w : HostWorld V) : Startup → Prop
  | .unread | .loaded _ => True
  | .published _ => w.published = true
  | .stored mode => w.published = true ∧ w.cachingActive = q.stored.getD (modeEnablesCaching mode)
  | .applied mode =>
    w.published = true ∧ w.cachingActive = q.stored.getD (modeEnablesCaching mode) ∧
      w.service.memory.paused = q.paused.getD (!modeEnablesCaching mode)

/-- What the startup writes to `caching_active_` in a step. -/
def startupStore : HostEvent → Option Bool
  | .act .serviceMain (.inr (.storeCachingActive active)) _ => some active
  | _ => none

/-- What it writes to `paused_`. -/
def startupPause : HostEvent → Option Bool
  | .act .serviceMain (.inr (.setPublishedPaused paused)) _ => some paused
  | _ => none

/-- The startup writes over no control: when it writes a flag, the last control that wrote
it, if there was one, wrote the same. -/
def OverwritesNone (h : HostHistory V) (_ : HostWorld V) (l : HostEvent) : Prop :=
  (∀ active ∈ startupStore l, ∀ b ∈ (controlled h).stored, b = active) ∧
    ∀ paused ∈ startupPause l, ∀ b ∈ (controlled h).paused, b = paused

instance (h : HostHistory V) (w : HostWorld V) (l : HostEvent) : Decidable (OverwritesNone h w l) :=
  inferInstanceAs (Decidable (_ ∧ _))

/-- The scheduler's calls leave the flags, except `set_paused`. -/
theorem hostExec_scheduler {faults : Faults} {a : Call} {r : Except String a.Answer}
    (ha : ∀ b, a ≠ .memory (.exchangePaused b)) (hx : hostExec sv faults w (.inl a) r w') :
    w'.published = w.published ∧ w'.cachingActive = w.cachingActive ∧
      w'.service.memory.paused = w.service.memory.paused := by
  obtain ⟨service, hx, rfl⟩ := hx
  exact ⟨rfl, rfl, exec_paused hx ha⟩

/-- A harmless call leaves the flags. -/
theorem hostExec_harmless {faults : Faults} {a : hostCalls.Act}
    {r : Except String (hostCalls.Resp a)} (ha : Harmless a) (hx : hostExec sv faults w a r w') :
    w'.published = w.published ∧ w'.cachingActive = w.cachingActive ∧
      w'.service.memory.paused = w.service.memory.paused := by
  cases a with
  | inl a =>
    refine hostExec_scheduler ?_ hx
    rintro b rfl
    exact ha
  | inr a =>
    cases r with
    | error e =>
      cases a with
      | loadConfig => obtain ⟨-, rfl⟩ := hx; exact ⟨rfl, rfl, rfl⟩
      | openIndex => obtain ⟨-, rfl⟩ := hx; exact ⟨rfl, rfl, rfl⟩
      | connect => obtain ⟨-, rfl⟩ := hx; exact ⟨rfl, rfl, rfl⟩
      | saveConfig config => obtain ⟨-, _, rfl⟩ := hx; exact ⟨rfl, rfl, rfl⟩
      | _ => exact hx.elim
    | ok v =>
      cases a with
      | storeCachingActive active => exact ha.elim
      | setPublishedPaused paused => exact ha.elim
      | publish => exact ha.elim
      | loadConfig => obtain ⟨-, rfl⟩ := hx; exact ⟨rfl, rfl, rfl⟩
      | loadCachingActive => obtain ⟨-, rfl⟩ := hx; exact ⟨rfl, rfl, rfl⟩
      | controlService mode => obtain ⟨-, rfl⟩ := hx; exact ⟨rfl, rfl, rfl⟩
      | drive a => obtain ⟨_, -, rfl⟩ := hx; exact ⟨rfl, rfl, rfl⟩
      | _ => cases hx; exact ⟨rfl, rfl, rfl⟩

/-- **What the startup did stays in the flags.** -/
theorem Written.same {q : Controlled} {phase : Startup} (hI : Written q w phase)
    (hsame : w'.published = w.published ∧ w'.cachingActive = w.cachingActive ∧
      w'.service.memory.paused = w.service.memory.paused) : Written q w' phase := by
  obtain ⟨hpublished, hactive, hpaused⟩ := hsame
  cases phase with
  | unread => trivial
  | loaded mode => trivial
  | published mode => exact hpublished.trans hI
  | stored mode => exact ⟨hpublished.trans hI.1, hactive.trans hI.2⟩
  | applied mode => exact ⟨hpublished.trans hI.1, hactive.trans hI.2.1, hpaused.trans hI.2.2⟩

/-- The startup's harmless calls: only the read of the configuration brings it further. -/
theorem startup_harmless {a : hostCalls.Act} (ha : Harmless a) (phase : Startup)
    (r : Except String (hostCalls.Resp a)) : startupProtocol.next phase a r = phase ∨
      phase = .unread ∧ ∃ mode, startupProtocol.next phase a r = .loaded mode := by
  cases a with
  | inl a => exact .inl (by cases phase <;> rfl)
  | inr a =>
    cases a with
    | loadConfig =>
      cases phase with
      | unread =>
        cases r with
        | ok config => exact .inr ⟨rfl, _, rfl⟩
        | error e => exact .inl rfl
      | _ => exact .inl rfl
    | publish => exact ha.elim
    | storeCachingActive active => exact ha.elim
    | setPublishedPaused paused => exact ha.elim
    | _ => exact .inl (by cases phase <;> rfl)

/-- A step of the startup. -/
theorem written_startup {faults : Faults} {a : hostCalls.Act} {r : Except String (hostCalls.Resp a)}
    {q : Controlled} {phase : Startup} (ha : startupProtocol.allows phase a)
    (hx : hostExec sv faults w a r w')
    (hstore : ∀ active, a = .inr (.storeCachingActive active) → ∀ b ∈ q.stored, b = active)
    (hpause : ∀ paused, a = .inr (.setPublishedPaused paused) → ∀ b ∈ q.paused, b = paused)
    (hI : Written q w phase) : Written q w' (startupProtocol.next phase a r) := by
  by_cases hharmless : Harmless a
  · have hsame := hI.same (hostExec_harmless hharmless hx)
    rcases startup_harmless hharmless phase r with hphase | ⟨-, mode, hphase⟩
    · rwa [hphase]
    · rw [hphase]
      trivial
  cases a with
  | inl a => exact absurd ha hharmless
  | inr a =>
    cases a with
    | publish =>
      obtain ⟨mode, rfl⟩ := ha
      cases r with
      | error e => exact hx.elim
      | ok v => cases hx; exact rfl
    | storeCachingActive active =>
      obtain ⟨mode, rfl, rfl⟩ := ha
      cases r with
      | error e => exact hx.elim
      | ok v =>
        -- a control that stored before has stored the same
        cases hx
        refine ⟨hI, ?_⟩
        cases hq : q.stored with
        | none => rfl
        | some b => exact (hstore _ rfl b hq).symm
    | setPublishedPaused paused =>
      obtain ⟨mode, rfl, rfl⟩ := ha
      cases r with
      | error e => exact hx.elim
      | ok v =>
        -- the scheduler is published
        obtain ⟨hpublished, hactive⟩ := hI
        have hw' : w' = _ := hx
        rw [hpublished, if_pos rfl] at hw'
        subst hw'
        refine ⟨rfl, hactive, ?_⟩
        cases hq : q.paused with
        | none => rfl
        | some b => exact (hpause _ rfl b hq).symm
    | _ => exact absurd trivial hharmless

/-- `Written` is about what was written, and not about what was acknowledged. -/
theorem Written.congr {q q' : Controlled} {phase : Startup} (hstored : q'.stored = q.stored)
    (hpaused : q'.paused = q.paused) (hI : Written q w phase) : Written q' w phase := by
  cases phase with
  | stored mode => exact ⟨hI.1, by rw [hstored]; exact hI.2⟩
  | applied mode => exact ⟨hI.1, by rw [hstored]; exact hI.2.1, by rw [hpaused]; exact hI.2.2⟩
  | _ => exact hI

/-- The harmless calls of the control thread write no flag. -/
theorem controls_harmless {a : hostCalls.Act} (ha : Harmless a) (q : Controlled)
    (r : Except String (hostCalls.Resp a)) :
    (controlProtocol.next q a r).stored = q.stored ∧
      (controlProtocol.next q a r).paused = q.paused := by
  cases a with
  | inl a => exact ⟨rfl, rfl⟩
  | inr a =>
    cases a with
    | publish => exact ha.elim
    | storeCachingActive active => exact ha.elim
    | setPublishedPaused paused => exact ha.elim
    | reply control result =>
      -- the reply moves what is acknowledged and nothing else
      cases r <;> cases control <;> cases result <;> exact ⟨rfl, rfl⟩
    | _ => exact ⟨rfl, rfl⟩

/-- A step of the control thread. -/
theorem written_controls {faults : Faults} {a : hostCalls.Act}
    {r : Except String (hostCalls.Resp a)} {q : Controlled} {phase : Startup}
    (ha : controlProtocol.allows q a)
    (hx : hostExec sv faults w a r w') (hI : Written q w phase) :
    Written (controlProtocol.next q a r) w' phase := by
  by_cases hharmless : Harmless a
  · obtain ⟨hstored, hpaused⟩ := controls_harmless hharmless q r
    exact (hI.same (hostExec_harmless hharmless hx)).congr hstored hpaused
  cases a with
  | inl a => exact (show False from ha).elim
  | inr a =>
    cases a with
    | publish => exact (show False from ha).elim
    | storeCachingActive active =>
      cases r with
      | error e => exact hx.elim
      | ok v =>
        cases hx
        cases phase with
        | stored mode => exact ⟨hI.1, rfl⟩
        | applied mode => exact ⟨hI.1, rfl, hI.2.2⟩
        | _ => exact hI
    | setPublishedPaused paused =>
      cases r with
      | error e => exact hx.elim
      | ok v =>
        have hw' : w' = if w.published then
            { w with service := { w.service with memory := { w.service.memory with paused } } }
          else w := hx
        cases hpublished : w.published with
        | true =>
          rw [hpublished, if_pos rfl] at hw'
          subst hw'
          cases phase with
          | unread => trivial
          | loaded mode => trivial
          | published mode => exact rfl
          | stored mode => exact ⟨rfl, hI.2⟩
          | applied mode => exact ⟨rfl, hI.2.1, rfl⟩
        | false =>
          -- the startup has yet to write
          have hunpublished : ¬ w.published = true := by rw [hpublished]; exact Bool.false_ne_true
          rw [if_neg hunpublished] at hw'
          subst hw'
          cases phase with
          | unread => trivial
          | loaded mode => trivial
          | published mode => exact absurd hI hunpublished
          | stored mode => exact absurd hI.1 hunpublished
          | applied mode => exact absurd hI.1 hunpublished
    | _ => exact absurd trivial hharmless

/-- What the worker may do: call what is harmless, and copy in a batch that found a job. -/
theorem worker_allows {a : hostCalls.Act} {found : Bool} (ha : workerProtocol.allows found a) :
    Harmless a ∨ ∃ p source cache compare, a = .inl (.copyAndHash p source cache compare) ∧
      found = true := by
  cases a with
  | inr a => exact (show False from ha).elim
  | inl a =>
    cases a with
    | copyAndHash p source cache compare => exact .inr ⟨p, source, cache, compare, rfl, ha⟩
    | _ => exact .inl ha

/-- **One step keeps what was written.** -/
theorem written_step (hI : Written (controlled h) c.world (reached h)) (hk : InOrder h c.world l)
    (hl : OverwritesNone h c.world l) (hs : Step (hosting s) c l c') :
    Written (controlled ((c.world, l) :: h)) c'.world (reached ((c.world, l) :: h)) := by
  cases hs with
  | call hd hm => exact hI
  | env he =>
    obtain ⟨service, ⟨clock, -, rfl⟩, rfl⟩ := he
    exact hI.same ⟨rfl, rfl, rfl⟩
  | @act t a k r w' hp hx =>
    have hx : hostExec s.sv s.faults c.world a r w' := hx
    -- the startup and the control thread move their own local states only
    have hreached (ht : t ≠ .serviceMain) : reached ((c.world, .act t a r) :: h) = reached h :=
      Protocol.localState_ne ht
    have hcontrolled (ht : t ≠ .controls) :
        controlled ((c.world, .act t a r) :: h) = controlled h := Protocol.localState_ne ht
    cases t with
    | serviceMain =>
      have hnext : reached ((c.world, .act .serviceMain a r) :: h) =
          startupProtocol.next (reached h) a r := Protocol.localState_self
      rw [hnext, hcontrolled nofun]
      refine written_startup (hk.startup a r rfl) hx ?_ ?_ hI
      · rintro active rfl
        exact hl.1 active rfl
      · rintro paused rfl
        exact hl.2 paused rfl
    | controls =>
      have hnext : controlled ((c.world, .act .controls a r) :: h) =
          controlProtocol.next (controlled h) a r := Protocol.localState_self
      rw [hreached nofun, hnext]
      exact written_controls (hk.controls a r rfl) hx hI
    | worker =>
      rw [hreached nofun, hcontrolled nofun]
      rcases worker_allows (hk.worker a r rfl) with ha | ⟨p, source, cache, compare, rfl, -⟩
      · exact hI.same (hostExec_harmless ha hx)
      · have hcopy : ∀ b, Call.copyAndHash p source cache compare ≠ .memory (.exchangePaused b) :=
          fun b => nofun
        exact hI.same (hostExec_scheduler hcopy hx)
    | reader =>
      rw [hreached nofun, hcontrolled nofun]
      exact hI.same (hostExec_harmless (hk.reader a r rfl) hx)

theorem written_of_run (hrun : Run (hosting s) (starting s.filters w) h c)
    (hm : Meets OverwritesNone h) : Written (controlled h) c.world (reached h) :=
  hrun.invariant (I := fun h c => Written (controlled h) c.world (reached h)) trivial
    (fun hI hc hs => written_step hI hc.1 hc.2 hs) ((inOrder_of_run hrun).and hm)

/-- Between two controls the flags are as the last acknowledged one wants them. -/
theorem settled_of_run (hrun : Run (hosting s) (starting s.filters w) h c)
    (hd : (c.prog .controls).Done) : (controlled h).Settled := by
  have hsafe : (c.prog .controls).Safe controlProtocol.contract (fun _ => Controlled.Settled)
      (controlled h) :=
    Protocol.safe_of_run hostExec_answers controls_safe (Protocol.safe_end ⟨rfl, rfl⟩) hrun
  obtain ⟨-, hsettled⟩ := hsafe.done hd
  exact hsettled

/-! ## The first copies -/

/-- The startup has yet to pause the scheduler. -/
def Startup.Awaits : Startup → Prop
  | .unread => True
  | .loaded mode | .published mode | .stored mode => modeEnablesCaching mode = false
  | .applied _ => False

instance (phase : Startup) : Decidable phase.Awaits :=
  match phase with
  | .unread => .isTrue trivial
  | .loaded _ | .published _ | .stored _ => inferInstanceAs (Decidable (_ = false))
  | .applied _ => .isFalse id

/-- Whether a copy begins in a step. -/
def hostCopies : HostEvent → Bool
  | .act _ (.inl (.copyAndHash _ _ _ _)) _ => true
  | _ => false

/-- Nothing is copied before the startup has paused the scheduler. -/
def CopiesInTurn (h : HostHistory V) (_ : HostWorld V) (l : HostEvent) : Prop :=
  hostCopies l = true → ¬ (reached h).Awaits

instance (h : HostHistory V) (w : HostWorld V) (l : HostEvent) : Decidable (CopiesInTurn h w l) :=
  inferInstanceAs (Decidable (_ → _))

/-- The arguments with which the worker asks for due jobs. -/
def askedDue : HostEvent → Option (ℤ × ℤ)
  | .act .worker (.inl (.query (.dueJobs nowUtc limit))) _ => some (nowUtc, limit)
  | _ => none

/-- When the worker asks for due jobs before that, there are none. -/
def NothingDueEarly (h : HostHistory V) (w : HostWorld V) (l : HostEvent) : Prop :=
  ∀ asked ∈ askedDue l, (reached h).Awaits →
    w.service.index.dueJobs w.service.clock asked.1 asked.2 = []

instance (h : HostHistory V) (w : HostWorld V) (l : HostEvent) :
    Decidable (NothingDueEarly h w l) :=
  inferInstanceAs (Decidable (∀ _ ∈ _, _))

/-- The startup goes on, and does not come back to where it has to pause. -/
theorem awaits_next {a : hostCalls.Act} {r : Except String (hostCalls.Resp a)} {phase : Startup}
    (hnext : (startupProtocol.next phase a r).Awaits) : phase.Awaits := by
  simp only [startupProtocol] at hnext
  split at hnext
  · trivial
  · exact hnext
  · exact hnext
  · exact hnext.elim
  · exact hnext

/-- **A batch that finds a job early** is one in which something is due early. -/
theorem foundDue_step (hI : foundDue h = true → ¬ (reached h).Awaits)
    (hl : NothingDueEarly h c.world l) (hs : Step (hosting s) c l c') :
    foundDue ((c.world, l) :: h) = true → ¬ (reached ((c.world, l) :: h)).Awaits := by
  cases hs with
  | call hd hm => exact hI
  | env he => exact hI
  | @act t a k r w' hp hx =>
    have hx : hostExec s.sv s.faults c.world a r w' := hx
    have hreached (ht : t ≠ .serviceMain) : reached ((c.world, .act t a r) :: h) = reached h :=
      Protocol.localState_ne ht
    have hfound (ht : t ≠ .worker) : foundDue ((c.world, .act t a r) :: h) = foundDue h :=
      Protocol.localState_ne ht
    cases t with
    | serviceMain =>
      have hnext : reached ((c.world, .act .serviceMain a r) :: h) =
          startupProtocol.next (reached h) a r := Protocol.localState_self
      rw [hnext, hfound nofun]
      exact fun hdue hawaits => hI hdue (awaits_next hawaits)
    | controls =>
      rw [hreached nofun, hfound nofun]
      exact hI
    | reader =>
      rw [hreached nofun, hfound nofun]
      exact hI
    | worker =>
      have hnext : foundDue ((c.world, .act .worker a r) :: h) =
          workerProtocol.next (foundDue h) a r := Protocol.localState_self
      rw [hreached nofun, hnext]
      intro hdue hawaits
      cases a with
      | inr a => exact hI hdue hawaits
      | inl a =>
        cases a with
        | query q =>
          cases q with
          | dueJobs nowUtc limit =>
            cases r with
            | error e => exact hI hdue hawaits
            | ok jobs =>
              -- an early batch finds what the index has due, which is nothing
              obtain ⟨service, ⟨hjobs, -⟩, rfl⟩ := hx
              have hdueJobs :
                  c.world.service.index.dueJobs c.world.service.clock nowUtc limit = [] :=
                hl (nowUtc, limit) rfl hawaits
              have hnone : jobs = [] := CacheIndex.IsDueJobs.eq_nil hjobs hdueJobs
              subst hnone
              cases hdue
          | _ => exact hI hdue hawaits
        | _ => exact hI hdue hawaits

/-- Only the worker copies, in a batch that found a job. -/
theorem copies_inTurn (hI : foundDue h = true → ¬ (reached h).Awaits) (hk : InOrder h w l) :
    CopiesInTurn h w l := by
  intro hcopies
  cases l with
  | call t o => cases hcopies
  | env => cases hcopies
  | act t a r =>
    cases a with
    | inr a => cases hcopies
    | inl a =>
      cases a with
      | copyAndHash p source cache compare =>
        cases t with
        | serviceMain => exact (show False from hk.startup _ r rfl).elim
        | controls => exact (show False from hk.controls _ r rfl).elim
        | reader => exact (show False from hk.reader _ r rfl).elim
        | worker => exact hI (hk.worker _ r rfl)
      | _ => cases hcopies

theorem copies_of_run (hrun : Run (hosting s) (starting s.filters w) h c)
    (hm : Meets NothingDueEarly h) : Meets CopiesInTurn h := by
  have hfound : ∀ {h c}, Run (hosting s) (starting s.filters w) h c → Meets NothingDueEarly h →
      foundDue h = true → ¬ (reached h).Awaits := fun hrun =>
    hrun.invariant (I := fun h _ => foundDue h = true → ¬ (reached h).Awaits) nofun foundDue_step
  have hall : Meets (fun h (_ : HostWorld V) _ => foundDue h = true → ¬ (reached h).Awaits) h :=
    hrun.throughout hfound hm
  exact (hall.and (inOrder_of_run hrun)).mono fun ⟨hI, hk⟩ => copies_inTurn hI hk

/-! ## The mode -/

/-- **The pipeline follows the acknowledged mode**, when the startup has written its own and
no control is being handled, if it did not write over a control; and nothing is copied before
the startup has paused the scheduler, if nothing was due then. -/
theorem mode_followed (hrun : Run (hosting s) (starting s.filters w) h c) :
    (Meets OverwritesNone h → ∀ mode, reached h = .applied mode → (c.prog .controls).Done →
      c.world.cachingActive = modeEnablesCaching ((controlled h).acked.or mode) ∧
      (!c.world.service.memory.paused) = modeEnablesCaching ((controlled h).acked.or mode)) ∧
    (Meets NothingDueEarly h → Meets CopiesInTurn h) := by
  refine ⟨fun hm mode hreached hd => ?_, copies_of_run hrun⟩
  have hwritten : Written (controlled h) c.world (reached h) := written_of_run hrun hm
  obtain ⟨hstored, hpaused⟩ := settled_of_run hrun hd
  rw [hreached] at hwritten
  obtain ⟨-, hactive, hpause⟩ := hwritten
  rw [hactive, hpause, hstored, hpaused]
  cases (controlled h).acked with
  | none => exact ⟨rfl, Bool.not_not _⟩
  | some acked => exact ⟨rfl, Bool.not_not _⟩

/-! ## A control during the startup -/

/-- A service on a disk. -/
def diskHosting : Hosting Disk where
  sv := diskService {}
  faults := noFaults
  filters := noFilters
  fold := asciiLower
  sourceUnc := []

/-- The process is started on an index with a due job, and this mode in the file. -/
def dueAtStart (mode : Option AppMode) : HostWorld Disk where
  service := { jobDue [97] with memory := {} }
  config := { mode }

/-- The next `n` calls of a thread. -/
def hostSteps (t : HostParty) (n : ℕ) : List (Move HostParty HostOperation ℤ) :=
  List.replicate n (.act t)

theorem exists_hostingRun (mode : Option AppMode) (ms : List (Move HostParty HostOperation ℤ))
    (p : HostHistory Disk × HostState Disk → Prop) [DecidablePred p]
    (hp : ((hostPlayer diskHosting rfl).play ms ([], starting noFilters (dueAtStart mode))).any
      (fun x => decide (p x)) = true) :
    ∃ h c, Run (hosting diskHosting) (starting noFilters (dueAtStart mode)) h c ∧ p (h, c) :=
  (hostPlayer diskHosting rfl).exists_run ms p hp

/-- A service that starts disabled, and is then switched to Monitor: the worker copies the
due job after that. -/
theorem mode_followed_monitor : ∃ h c,
    Run (hosting diskHosting) (starting noFilters (dueAtStart (some .disabled))) h c ∧
    (∃ x ∈ h, hostCopies x.2 = true) ∧ Meets CopiesInTurn h ∧
    c.world.cachingActive = true ∧ (!c.world.service.memory.paused) = true := by
  obtain ⟨h, c, hrun, hcopied, hwrites, hdue, hreached, hdone, hacked⟩ := exists_hostingRun
    (some .disabled)
    (hostSteps .serviceMain 15 ++ .call .controls (.control (.mode .monitor)) ::
      hostSteps .controls 6 ++ .call .worker .workerPass :: hostSteps .worker 8)
    (fun x => (∃ y ∈ x.1, hostCopies y.2 = true) ∧ Meets OverwritesNone x.1 ∧
      Meets NothingDueEarly x.1 ∧ reached x.1 = .applied (some .disabled) ∧
      (x.2.prog .controls).Done ∧ (controlled x.1).acked = some .monitor)
    (by decide +kernel)
  obtain ⟨hflags, hcopies⟩ := mode_followed (s := diskHosting) hrun
  obtain ⟨hactive, hpaused⟩ := hflags hwrites _ hreached hdone
  rw [hacked] at hactive hpaused
  exact ⟨h, c, hrun, hcopied, hcopies hdue, hactive, hpaused⟩

/-- A control that disables the service while it starts: the startup activates the pipeline
again. And a service that starts disabled: the worker copies before the startup pauses it. -/
theorem mode_overwritten :
    (∃ h c, Run (hosting diskHosting) (starting noFilters (dueAtStart none)) h c ∧
      reached h = .applied none ∧ (∀ t, (c.prog t).Done) ∧
      (controlled h).acked = some .disabled ∧
      c.world.cachingActive = true ∧ c.world.service.memory.paused = false) ∧
    ∃ h c, Run (hosting diskHosting) (starting noFilters (dueAtStart (some .disabled))) h c ∧
      reached h = .loaded (some .disabled) ∧ ¬ Meets CopiesInTurn h := by
  refine ⟨?_, exists_hostingRun (some .disabled)
    (hostSteps .serviceMain 12 ++ .call .worker .workerPass :: hostSteps .worker 8)
    (fun x => reached x.1 = .loaded (some .disabled) ∧ ¬ Meets CopiesInTurn x.1)
    (by decide +kernel)⟩
  obtain ⟨h, c, hrun, hreached, hmain, hcontrols, hworker, hreader, hend⟩ := exists_hostingRun none
    (hostSteps .serviceMain 12 ++ .call .controls (.control (.mode .disabled)) ::
      hostSteps .controls 5 ++ hostSteps .serviceMain 3)
    (fun x => reached x.1 = .applied none ∧ (x.2.prog .serviceMain).Done ∧
      (x.2.prog .controls).Done ∧ (x.2.prog .worker).Done ∧ (x.2.prog .reader).Done ∧
      (controlled x.1).acked = some .disabled ∧ x.2.world.cachingActive = true ∧
      x.2.world.service.memory.paused = false)
    (by decide +kernel)
  refine ⟨h, c, hrun, hreached, fun t => ?_, hend⟩
  cases t with
  | serviceMain => exact hmain
  | controls => exact hcontrols
  | worker => exact hworker
  | reader => exact hreader

end SsdCache
