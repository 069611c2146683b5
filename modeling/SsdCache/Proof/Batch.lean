import SsdCache.Spec.System

/-!
# Proof outlines of a batch and of the worker

`BatchOutline` lists the assertions at the points of `run_due_once` between two
calls, with one triple for each call. `BatchOutline.safe` is the proof of the
program from them, made once: a property of batches is proved by giving the
assertions that carry it. `WorkerOutline` does the same for one pass of the worker
loop around it.
-/

namespace SsdCache

open Atomic

variable {V X : Type}

/-- Assertions for `run_due_once(now)`; the list is what is left of the batch. -/
structure BatchOutline (K : Contract calls String X) (sv : Service V) (now : ℤ) where
  /-- Before `due_jobs`. -/
  start : X → Prop
  /-- At the head of the loop. -/
  loop : List PendingJob → X → Prop
  /-- The cache file of the path is removed, `mark_removed` comes. -/
  removed : WString → List PendingJob → X → Prop
  /-- The source is missing, the removal comes. -/
  missing : PendingJob → List PendingJob → X → Prop
  /-- The job failed, `record_error` comes. -/
  failed : PendingJob → List PendingJob → X → Prop
  /-- The error is recorded, `upsert_pending_job` comes. -/
  erred : PendingJob → List PendingJob → X → Prop
  /-- The row has its retry time, the heap push comes. -/
  retried : PendingJob → List PendingJob → X → Prop
  /-- The file is in the cache, `mark_cached` comes. -/
  cached : PendingJob → List PendingJob → X → Prop
  /-- The record says so, `remove_pending_job` comes. -/
  marked : PendingJob → List PendingJob → X → Prop
  /-- The batch returned. -/
  post : X → Prop
  /-- A call of the batch threw. -/
  thrown : X → Prop
  due : K.Triple start (.query (.dueJobs now sv.settings.dueBatchSize)) (onOk loop thrown)
  record : ∀ p js, K.Triple (loop js) (.query (.fileRecord p)) (onOk (fun _ => loop js) thrown)
  victims : ∀ js, K.Triple (loop js) (.query .cachedFilesByLastAccess) (onOk (fun _ => loop js) thrown)
  free : ∀ js, K.Triple (loop js) (.freeBytes sv.settings.cacheRoot) (onOk (fun _ => loop js) thrown)
  evict : ∀ v j js, v ≠ j.relativePath →
    K.Triple (loop (j :: js)) (.removeCachedFile v (sv.pathResolver.cacheAbsolute v))
      (onOk (fun (r : RemoveResult) x => if r.Clean then removed v (j :: js) x else loop (j :: js) x) thrown)
  mark : ∀ v js, K.Triple (removed v js) (.update (.markRemoved v)) (onOk (fun _ => loop js) thrown)
  copy : ∀ j js, K.Triple (loop (j :: js))
    (.copyAndHash j.relativePath (sv.pathResolver.sourceAbsolute j.relativePath)
      (sv.pathResolver.cacheAbsolute j.relativePath) sv.settings.compareHashBeforeOverwrite)
    (onOk (fun (r : CopyResult) x =>
      match r.action with
      | .cancelled => post x
      | .sourceMissing => missing j js x
      | .failed => failed j js x
      | .copied | .skippedSameSize | .skippedHashMatch => cached j js x) thrown)
  remove : ∀ j js, K.Triple (missing j js)
    (.removeCachedFile j.relativePath (sv.pathResolver.cacheAbsolute j.relativePath))
    (onOk (fun (r : RemoveResult) x => if r.Clean then removed j.relativePath js x else failed j js x) thrown)
  error : ∀ j js m, K.Triple (failed j js) (.update (.recordError j.relativePath m))
    (onOk (fun _ => erred j js) thrown)
  retry : ∀ j js m, K.Triple (erred j js)
    (.update (.upsertPendingJob j.relativePath (retryDue now j) m)) (onOk (fun _ => retried j js) thrown)
  push : ∀ j js, K.Triple (retried j js)
    (.memory (.push j.relativePath (floorToSeconds (retryDue now j)))) (onOk (fun _ => loop js) thrown)
  cache : ∀ j js s c hash t, K.Triple (cached j js)
    (.update (.markCached j.relativePath s c hash t)) (onOk (fun _ => marked j js) thrown)
  drop : ∀ j js, K.Triple (marked j js) (.update (.removePendingJob j.relativePath))
    (onOk (fun _ => loop js) thrown)
  done : ∀ {x}, loop [] x → post x
  stable_loop : ∀ js, K.Stable (loop js)
  stable_post : K.Stable post
  stable_thrown : K.Stable thrown

/-- The calls of a batch after its query. -/
def Call.ByBatch : Call → Prop
  | .query (.fileRecord _) | .query .cachedFilesByLastAccess => True
  | .copyAndHash _ _ _ _ | .removeCachedFile _ _ | .freeBytes _ | .memory (.push _ _) => True
  | .update (.recordAccess _ _) | .update (.deleteRecord _) => False
  | .update _ => True
  | _ => False

/-- The two calls that give a job its retry time. -/
def Call.Retries : Call → Prop
  | .update (.upsertPendingJob _ _ _) | .memory (.push _ _) => True
  | _ => False

/-- A batch with one assertion `I` from its query on, and `R` where a row has its retry time
and the heap push comes: it ends in `P`, or in `E` when a call throws. -/
def BatchOutline.retrying {K : Contract calls String X} {sv : Service V} {now : ℤ}
    (start I : X → Prop) (R : PendingJob → X → Prop) (P E : X → Prop) (hIP : ∀ x, I x → P x)
    (hI : K.Stable I) (hP : K.Stable P) (hE : K.Stable E)
    (due : K.Triple start (.query (.dueJobs now sv.settings.dueBatchSize)) (onOk (fun _ => I) E))
    (call : ∀ {a : Call}, a.ByBatch → ¬ a.Retries → K.Triple I a (onOk (fun _ => I) E))
    (retry : ∀ j m, K.Triple I (.update (.upsertPendingJob j.relativePath (retryDue now j) m))
      (onOk (fun _ => R j) E))
    (push : ∀ j, K.Triple (R j) (.memory (.push j.relativePath (floorToSeconds (retryDue now j))))
      (onOk (fun _ => I) E)) : BatchOutline K sv now where
  start := start
  loop _ := I
  removed _ _ := I
  missing _ _ := I
  failed _ _ := I
  erred _ _ := I
  retried j _ := R j
  cached _ _ := I
  marked _ _ := I
  post := P
  thrown := E
  due := due
  record _ _ := call trivial id
  victims _ := call trivial id
  free _ := call trivial id
  evict _ _ _ _ := .mono (call trivial id) fun r z hz => by
    cases r with
    | error e => exact hz
    | ok r =>
      dsimp only [onOk]
      split <;> exact hz
  mark _ _ := call trivial id
  copy _ _ := .mono (call trivial id) fun r z hz => by
    cases r with
    | error e => exact hz
    | ok r =>
      dsimp only [onOk]
      cases CopyResult.action r
      case cancelled => exact hIP z hz
      all_goals exact hz
  remove _ _ := .mono (call trivial id) fun r z hz => by
    cases r with
    | error e => exact hz
    | ok r =>
      dsimp only [onOk]
      split <;> exact hz
  error _ _ _ := call trivial id
  retry j _ m := retry j m
  push j _ := push j
  cache _ _ _ _ _ _ := call trivial id
  drop _ _ := call trivial id
  done := hIP _
  stable_loop _ := hI
  stable_post := hP
  stable_thrown := hE

/-- A batch with one assertion `I` from its query on, which all its calls keep. -/
def BatchOutline.uniform {K : Contract calls String X} {sv : Service V} {now : ℤ}
    (start I P E : X → Prop) (hIP : ∀ x, I x → P x) (hI : K.Stable I) (hP : K.Stable P)
    (hE : K.Stable E)
    (due : K.Triple start (.query (.dueJobs now sv.settings.dueBatchSize)) (onOk (fun _ => I) E))
    (call : ∀ {a : Call}, a.ByBatch → K.Triple I a (onOk (fun _ => I) E)) : BatchOutline K sv now :=
  .retrying start I (fun _ => I) P E hIP hI hP hE due (fun ha _ => call ha) (fun _ _ => call trivial)
    fun _ => call trivial

/-- The same when the exceptions of the calls keep `I` as well. -/
def BatchOutline.constant {K : Contract calls String X} {sv : Service V} {now : ℤ}
    (start I E : X → Prop) (hIE : ∀ x, I x → E x) (hI : K.Stable I) (hE : K.Stable E)
    (due : K.Triple start (.query (.dueJobs now sv.settings.dueBatchSize)) (onOk (fun _ => I) E))
    (call : ∀ {a : Call}, a.ByBatch → K.Triple I a (fun _ => I)) : BatchOutline K sv now :=
  .uniform start I E E hIE hI hE hE due fun ha =>
    .mono (call ha) fun r z hz => onOk_of_forall hIE r z hz

/-- The calls of a batch that act on the job at the head of the loop. -/
def Call.OnJob : Call → Prop
  | .copyAndHash _ _ _ _ | .update (.upsertPendingJob _ _ _) => True
  | _ => False

/-- A batch with an assertion `I` about the jobs that are left, one of which is copied and may
be retried: it ends in `P`, or in `E` when a call throws. -/
def BatchOutline.perJob {K : Contract calls String X} {sv : Service V} {now : ℤ}
    (start : X → Prop) (I : List PendingJob → X → Prop) (P E : X → Prop)
    (hIP : ∀ {js x}, I js x → P x) (tail : ∀ {j js x}, I (j :: js) x → I js x)
    (hI : ∀ js, K.Stable (I js)) (hP : K.Stable P) (hE : K.Stable E)
    (due : K.Triple start (.query (.dueJobs now sv.settings.dueBatchSize)) (onOk I E))
    (call : ∀ {a : Call} {js}, a.ByBatch → ¬ a.OnJob → K.Triple (I js) a (onOk (fun _ => I js) E))
    (copy : ∀ j js s c b, K.Triple (I (j :: js)) (.copyAndHash j.relativePath s c b)
      (onOk (fun _ => I (j :: js)) E))
    (retry : ∀ j js m, K.Triple (I (j :: js))
      (.update (.upsertPendingJob j.relativePath (retryDue now j) m)) (onOk (fun _ => I (j :: js)) E)) :
    BatchOutline K sv now where
  start := start
  loop js := I js
  removed _ js := I js
  missing j js := I (j :: js)
  failed j js := I (j :: js)
  erred j js := I (j :: js)
  retried _ js := I js
  cached _ js := I js
  marked _ js := I js
  post := P
  thrown := E
  due := due
  record _ _ := call trivial id
  victims _ := call trivial id
  free _ := call trivial id
  evict _ _ _ _ := .mono (call trivial id) fun r z hz => by
    cases r with
    | error e => exact hz
    | ok r =>
      dsimp only [onOk]
      split <;> exact hz
  mark _ _ := call trivial id
  copy j js := .mono (copy j js _ _ _) fun r z hz => by
    cases r with
    | error e => exact hz
    | ok r =>
      have hrest : I js z := tail hz
      dsimp only [onOk]
      cases CopyResult.action r
      case cancelled => exact hIP hrest
      case sourceMissing => exact hz
      case failed => exact hz
      all_goals exact hrest
  remove j js := .mono (call trivial id) fun r z hz => by
    cases r with
    | error e => exact hz
    | ok r =>
      dsimp only [onOk]
      split
      · exact tail hz
      · exact hz
  error _ _ _ := call trivial id
  retry j js m := .mono (retry j js m) fun r z hz => by
    cases r with
    | error e => exact hz
    | ok r => exact tail hz
  push _ _ := call trivial id
  cache _ _ _ _ _ _ := call trivial id
  drop _ _ := call trivial id
  done := hIP
  stable_loop := hI
  stable_post := hP
  stable_thrown := hE

namespace BatchOutline

variable {K : Contract calls String X} {sv : Service V} {now : ℤ} (B : BatchOutline K sv now)
variable {x : X}

/-- What a part of the batch guarantees: an exception leaves `thrown`. -/
def Post {α : Type} (Q : α → X → Prop) : Except String α → X → Prop := onOk Q B.thrown

theorem stable_thrown' : ∀ z, B.thrown z → ∀ z', K.rely z z' → B.thrown z' :=
  fun _ hz _ hr => B.stable_thrown hr hz

theorem evictVictims_safe (j : PendingJob) (js : List PendingJob) (required : UInt64) :
    ∀ (victims : List CachedFileRef) (free : UInt64) {x : X}, B.loop (j :: js) x →
      (evictVictims sv j.relativePath required victims free).Safe K
        (B.Post fun _ => B.loop (j :: js)) x := by
  intro victims
  induction victims with
  | nil => exact fun _ _ hx => Prog.safe_ret (B.stable_loop _) hx
  | cons v vs ih =>
    intro free x hx
    rw [evictVictims]
    split
    · exact Prog.safe_ret (B.stable_loop _) hx
    · split
      · -- the file that comes in is no victim
        exact ih free hx
      · rename_i hne
        refine Prog.safe_perform (B.evict _ j js hne) hx (fun (r : RemoveResult) z hz => ?_)
          (fun _ => B.stable_thrown')
        dsimp only [onOk] at hz
        by_cases hc : r.Clean
        · rw [if_pos hc] at hz ⊢
          refine Prog.safe_perform (B.mark _ _) hz (fun _ z hz => ?_) (fun _ => B.stable_thrown')
          exact Prog.safe_perform (B.free _) hz (fun _ z hz => ih _ hz) (fun _ => B.stable_thrown')
        · -- a victim that could not be removed is left as it is
          rw [if_neg hc] at hz ⊢
          exact ih free hz

theorem makeRoomFor_safe (j : PendingJob) (js : List PendingJob) (hx : B.loop (j :: js) x) :
    (makeRoomFor sv j.relativePath).Safe K (B.Post fun _ => B.loop (j :: js)) x := by
  unfold makeRoomFor
  split
  · exact Prog.safe_ret (B.stable_loop _) hx
  · refine Prog.safe_perform (B.record _ _) hx (fun record z hz => ?_) (fun _ => B.stable_thrown')
    refine Prog.safe_perform (B.free _) hz (fun free z hz => ?_) (fun _ => B.stable_thrown')
    cases free with
    | none => exact Prog.safe_ret (B.stable_loop _) hz
    | some free =>
      dsimp only
      split
      · exact Prog.safe_ret (B.stable_loop _) hz
      · refine Prog.safe_perform (B.victims _) hz (fun victims z hz => ?_) (fun _ => B.stable_thrown')
        exact B.evictVictims_safe j js _ victims free hz

theorem retryLater_safe (j : PendingJob) (js : List PendingJob) (message reason : String)
    (hx : B.failed j js x) :
    (retryLater now j message reason).Safe K (B.Post fun _ => B.loop js) x := by
  refine Prog.safe_perform (B.error j js message) hx (fun _ z hz => ?_) (fun _ => B.stable_thrown')
  refine Prog.safe_perform (B.retry j js reason) hz (fun _ z hz => ?_) (fun _ => B.stable_thrown')
  exact Prog.safe_perform_last (B.push j js)
    (Contract.stable_onOk (fun _ => B.stable_loop _) B.stable_thrown) hz

/-- The rest of a sequence, after a part with postcondition `Q`. -/
theorem bind_safe {α β : Type} {Q : α → X → Prop} {R : β → X → Prop} {c : Task α} {f : α → Task β}
    (hc : c.Safe K (B.Post Q) x) (hf : ∀ v z, Q v z → (f v).Safe K (B.Post R) z) :
    (c.bind f).Safe K (B.Post R) x := by
  refine Prog.safe_bind (Prog.safe_mono (fun r z hr => ?_) hc)
  cases r with
  | ok v => exact hf v z hr
  | error e => exact B.stable_thrown' z hr

/-- **The loop of the batch**, by induction on the jobs left. -/
theorem runJobs_safe : ∀ (jobs : List PendingJob) (completed : ℕ) {x : X}, B.loop jobs x →
    (runJobs sv now jobs completed).Safe K (B.Post fun _ => B.post) x := by
  intro jobs
  induction jobs with
  | nil => exact fun _ _ hx => Prog.safe_ret B.stable_post (B.done hx)
  | cons j js ih =>
    intro completed x hx
    rw [runJobs]
    refine B.bind_safe (B.makeRoomFor_safe j js hx) fun _ z hz => ?_
    refine Prog.safe_perform (B.copy j js) hz (fun (r : CopyResult) z hz => ?_) (fun _ => B.stable_thrown')
    -- the three outcomes that leave the file in the cache go on alike
    have done : ∀ {z}, B.cached j js z →
        ((update (.markCached j.relativePath r.sourceSizeBytes r.cachedSizeBytes r.hashHex
          r.completedAt)).bind fun _ => (update (.removePendingJob j.relativePath)).bind fun _ =>
            runJobs sv now js (completed + 1)).Safe K (B.Post fun _ => B.post) z := by
      intro z hz
      refine Prog.safe_perform (B.cache j js _ _ _ _) hz (fun _ z hz => ?_) (fun _ => B.stable_thrown')
      exact Prog.safe_perform (B.drop j js) hz (fun _ z hz => ih _ hz) (fun _ => B.stable_thrown')
    dsimp only [onOk] at hz
    cases ha : r.action <;> simp only [ha] at hz ⊢
    case cancelled => exact Prog.safe_ret B.stable_post hz
    case sourceMissing =>
      refine Prog.safe_perform (B.remove j js) hz (fun (r' : RemoveResult) z hz => ?_) (fun _ => B.stable_thrown')
      dsimp only [onOk] at hz
      by_cases hc : r'.Clean
      · rw [if_pos hc] at hz ⊢
        exact Prog.safe_perform (B.mark _ _) hz (fun _ z hz => ih _ hz) (fun _ => B.stable_thrown')
      · rw [if_neg hc] at hz ⊢
        exact B.bind_safe (B.retryLater_safe j js _ _ hz) fun _ z hz => ih _ hz
    case failed => exact B.bind_safe (B.retryLater_safe j js _ _ hz) fun _ z hz => ih _ hz
    case copied => exact done hz
    case skippedSameSize => exact done hz
    case skippedHashMatch => exact done hz

/-- **A batch whose calls meet their triples is safe.** -/
theorem safe (hx : B.start x) : (runDueOnce sv now).Safe K (B.Post fun _ => B.post) x :=
  Prog.safe_perform B.due hx (fun jobs _ hz => B.runJobs_safe jobs 0 hz) fun _ => B.stable_thrown'

/-- The operation of a batch ends as the batch does. -/
theorem body_safe {I : X → Prop} (hI : K.Stable I) (hpost : ∀ {x}, B.post x → I x)
    (hthrown : ∀ {x}, B.thrown x → I x) (hx : B.start x) :
    ((Operation.runDueOnce now).body sv).Safe K (fun _ => I) x := by
  refine Prog.safe_bind (Prog.safe_mono (fun r z hz => ?_) (B.safe hx))
  cases r with
  | ok v => exact fun y hy => hI hy (hpost hz)
  | error e => exact fun y hy => hI hy (hthrown hz)

end BatchOutline

/-- Assertions for one pass of `worker_loop`. -/
structure WorkerOutline (K : Contract calls String X) (sv : Service V) where
  /-- When a pass begins. -/
  start : X → Prop
  /-- When it has ended. -/
  idle : X → Prop
  /-- No stop was requested. -/
  running : X → Prop
  /-- A stop was requested, the thread ends. -/
  exiting : X → Prop
  /-- The entry was popped. -/
  popped : HeapEntry → X → Prop
  /-- The pause flag was clear after the pop. -/
  checked : HeapEntry → X → Prop
  /-- The index still has the job of the entry. -/
  ready : HeapEntry → X → Prop
  /-- The batch threw. -/
  thrown : X → Prop
  batch : ∀ now, BatchOutline K sv now
  loadStop : K.Triple start (.memory .loadStopRequested)
    (onOk (fun (b : Bool) x => if b then exiting x else running x) idle)
  exit : K.Triple exiting (.memory .exit) (fun _ => idle)
  loadPaused : K.Triple running (.memory .loadPaused)
    (onOk (fun (b : Bool) x => if b then idle x else running x) idle)
  popDue : K.Triple running (.memory .popDue)
    (onOk (fun (next : Option HeapEntry) x => next.elim (idle x) fun e => popped e x) idle)
  recheck : ∀ e, K.Triple (popped e) (.memory .loadPaused)
    (onOk (fun (b : Bool) x => if b then popped e x else checked e x) idle)
  putBack : ∀ e, K.Triple (popped e)
    (.memory (.push e.relativePath (floorToSeconds e.dueUtc))) (fun _ => idle)
  lookup : ∀ e, K.Triple (checked e) (.query (.pendingJob e.relativePath))
    (onOk (fun (job : Option PendingJob) x =>
      job.elim (idle x) fun j => if j.dueUtc ≠ e.dueUtc then idle x else ready e x) idle)
  now : ∀ e, K.Triple (ready e) (.memory .now) (onOk (fun (t : ℤ) => (batch t).start) thrown)
  thrown_of_batch : ∀ {t x}, (batch t).thrown x → thrown x
  handler : ∀ p m, K.Triple thrown (.update (.recordError p m)) (fun _ => idle)
  idle_of_post : ∀ {t x}, (batch t).post x → idle x
  stable_idle : K.Stable idle

/-- The calls of a pass outside its batch, but for the clock. -/
def Call.ByPass : Call → Prop
  | .memory .loadStopRequested | .memory .exit | .memory .loadPaused | .memory .popDue => True
  | .memory (.push _ _) | .query (.pendingJob _) | .update (.recordError _ _) => True
  | _ => False

/-- A pass with one assertion `I` outside its batch, which all its calls keep. -/
def WorkerOutline.constant {K : Contract calls String X} {sv : Service V} (I : X → Prop)
    (hI : K.Stable I) (batch : ∀ now, BatchOutline K sv now)
    (call : ∀ {a : Call}, a.ByPass → K.Triple I a (fun _ => I))
    (now : K.Triple I (.memory .now) (onOk (fun (t : ℤ) => (batch t).start) I))
    (thrown : ∀ {t x}, (batch t).thrown x → I x) (post : ∀ {t x}, (batch t).post x → I x) :
    WorkerOutline K sv where
  start := I
  idle := I
  running := I
  exiting := I
  popped _ := I
  checked _ := I
  ready _ := I
  thrown := I
  batch := batch
  loadStop := .mono (call trivial) fun r z hz => by
    rcases r with e | (_ | _) <;> exact hz
  exit := call trivial
  loadPaused := .mono (call trivial) fun r z hz => by
    rcases r with e | (_ | _) <;> exact hz
  popDue := .mono (call trivial) fun r z hz => by
    rcases r with e | (_ | e) <;> exact hz
  recheck _ := .mono (call trivial) fun r z hz => by
    rcases r with e | (_ | _) <;> exact hz
  putBack _ := call trivial
  lookup e := .mono (call trivial) fun r z hz => by
    rcases r with e | (_ | j)
    · exact hz
    · exact hz
    · dsimp only [onOk, Option.elim]
      split <;> exact hz
  now _ := now
  thrown_of_batch := thrown
  handler _ _ := call trivial
  idle_of_post := post
  stable_idle := hI

namespace WorkerOutline

variable {K : Contract calls String X} {sv : Service V} (O : WorkerOutline K sv) {x : X}

/-- Every way out of a pass leaves the idle assertion. -/
def Post {α : Type} : Except String α → X → Prop := fun _ => O.idle

theorem stable_idle' : ∀ z, O.idle z → ∀ z', K.rely z z' → O.idle z' :=
  fun _ hz _ hr => O.stable_idle hr hz

theorem runBatch_safe (e : HeapEntry) (hx : O.ready e x) : (runBatch sv e).Safe K O.Post x := by
  -- `now` and the batch may throw; both exceptions go to the handler
  have handler : ∀ {z}, O.thrown z → ∀ error : String,
      (update (.recordError e.relativePath error)).Safe K O.Post z := fun hz error =>
    Prog.safe_perform_last (O.handler e.relativePath error) (fun _ => O.stable_idle) hz
  refine Prog.safe_tryCatch ?_
  refine Prog.safe_perform (O.now e) hx (fun t z hz => ?_) (fun error z hz z' hr => ?_)
  · refine Prog.safe_bind (Prog.safe_mono (fun r z hr => ?_) ((O.batch t).safe hz))
    cases r with
    | ok v =>
      exact Prog.safe_ret (Q := Prog.catchPost K O.Post _) O.stable_idle (O.idle_of_post hr)
    | error error =>
      intro z' hrely
      exact handler (O.thrown_of_batch ((O.batch t).stable_thrown hrely hr)) error
  · exact handler ((O.handler [] "").stable hr hz) error

theorem runEntry_safe (e : HeapEntry) (hx : O.popped e x) : (runEntry sv e).Safe K O.Post x := by
  refine Prog.safe_perform (O.recheck e) hx (fun (paused : Bool) z hz => ?_) (fun _ => O.stable_idle')
  cases paused with
  | true =>
    -- a pause came after the pop
    exact Prog.safe_perform_last (O.putBack e) (fun _ => O.stable_idle) hz
  | false =>
    refine Prog.safe_perform (O.lookup e) hz (fun (job : Option PendingJob) z hz => ?_)
      (fun _ => O.stable_idle')
    cases job with
    | none => exact Prog.safe_ret O.stable_idle hz
    | some j =>
      dsimp only [onOk, Option.elim] at hz ⊢
      split
      · -- the entry is stale
        rename_i hne
        rw [if_pos hne] at hz
        exact Prog.safe_ret O.stable_idle hz
      · rename_i heq
        rw [if_neg heq] at hz
        exact O.runBatch_safe e hz

/-- **A pass of the worker loop whose calls meet their triples is safe.** -/
theorem safe (hx : O.start x) : (workerIteration sv).Safe K O.Post x := by
  refine Prog.safe_perform O.loadStop hx (fun (stop : Bool) z hz => ?_) (fun _ => O.stable_idle')
  cases stop with
  | true => exact Prog.safe_perform_last O.exit (fun _ => O.stable_idle) hz
  | false =>
    refine Prog.safe_perform O.loadPaused hz (fun (paused : Bool) z hz => ?_)
      (fun _ => O.stable_idle')
    cases paused with
    | true => exact Prog.safe_ret O.stable_idle hz
    | false =>
      refine Prog.safe_perform O.popDue hz (fun (next : Option HeapEntry) z hz => ?_)
        (fun _ => O.stable_idle')
      cases next with
      | none => exact Prog.safe_ret O.stable_idle hz
      | some e => exact O.runEntry_safe e hz

end WorkerOutline

/-! ## What a pass calls -/

/-- The body of the `try` block. -/
def batchBody (sv : Service V) : Task Unit := do
  let nowUtc : ℤ ← memory .now
  let _ ← runDueOnce sv nowUtc
  pure ()

/-- The calls of the `try` block. -/
def Call.ByTry (a : Call) : Prop :=
  a.ByBatch ∨
    match a with
    | .memory .now | .query (.dueJobs _ _) => True
    | _ => False

/-- The calls of a pass that has popped an entry. -/
def Call.ByEntry (a : Call) : Prop :=
  a.ByTry ∨
    match a with
    | .memory .loadPaused | .query (.pendingJob _) => True
    | _ => False

/-- The outline of a batch that only lists its calls. -/
def askingBatch (sv : Service V) (now : ℤ) : BatchOutline (Contract.asks Call.ByTry) sv now :=
  have stable : ∀ {P : Unit → Prop}, (Contract.asks (S := calls) (ε := String) Call.ByTry).Stable P :=
    fun _ h => h
  .uniform (fun _ => True) (fun _ => True) (fun _ => True) (fun _ => True) (fun _ => id) stable stable
    stable ⟨stable, fun {_ r _} _ _ => ⟨.inr trivial, by cases r <;> trivial⟩⟩
    fun ha => ⟨stable, fun {_ r _} _ _ => ⟨.inl ha, by cases r <;> trivial⟩⟩

theorem batchBody_only (sv : Service V) : (batchBody sv).Only Call.ByTry := by
  refine Prog.Only.bind (Prog.only_perform (.inr trivial)) fun (now : ℤ) => ?_
  have hsafe : (runDueOnce sv now).Safe (.asks Call.ByTry) ((askingBatch sv now).Post fun _ _ => True) () :=
    (askingBatch sv now).safe trivial
  exact Prog.Only.bind (Prog.only_of_safe hsafe) fun _ => trivial

theorem runEntry_only (sv : Service V) (e : HeapEntry) : (runEntry sv e).Only Call.ByEntry := by
  refine Prog.Only.bind (Prog.only_perform (.inr trivial)) fun (paused : Bool) => ?_
  cases paused with
  | true => exact Prog.only_perform (.inl (.inl trivial))
  | false =>
    refine Prog.Only.bind (Prog.only_perform (.inr trivial)) fun (job : Option PendingJob) => ?_
    cases job with
    | none => exact trivial
    | some j =>
      refine Prog.only_ite trivial (Prog.Only.tryCatch ((batchBody_only sv).mono .inl) fun error => ?_)
      exact Prog.only_perform (.inl (.inl trivial))

theorem workerIteration_only (sv : Service V) :
    (workerIteration sv).Only fun a : Call => a.ByPass ∨ a.ByEntry := by
  refine Prog.Only.bind (Prog.only_perform (.inl trivial)) fun (stopRequested : Bool) => ?_
  refine Prog.only_ite (Prog.only_perform (.inl trivial)) ?_
  refine Prog.Only.bind (Prog.only_perform (.inl trivial)) fun (paused : Bool) => ?_
  refine Prog.only_ite trivial ?_
  refine Prog.Only.bind (Prog.only_perform (.inl trivial)) fun (next : Option HeapEntry) => ?_
  cases next with
  | none => exact trivial
  | some e => exact (runEntry_only sv e).mono .inr

end SsdCache
