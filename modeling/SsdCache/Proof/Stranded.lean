import SsdCache.Proof.Service
import SsdCache.Spec.Replay

/-!
# No pending job is stranded

The worker takes entries out of the heap. What it popped is exempt until the batch is
queried, then the jobs of the batch are, each until its row is removed or put off. The
entry popped is in the batch it starts only if no more rows are due as early than the
batch holds (`BatchFits`).

* `watchWorker`: the worker's proof outline.
* `none_stranded`: whenever the worker waits, every row has its heap entry.
* `row_stranded`: without `BatchFits` a row may have none.
-/

namespace SsdCache

open Atomic

variable {V : Type} {sv : Service V} {w w' : World V} {h h' : History V} {c : State V}
variable {a : Call} {p : WString} {d : ℤ} {l : Event} {t u : Party}
variable {m m' : Set (WString × ℤ)} {x y z : History V × World V}

/-! ## The worker -/

/-- The worker runs, and every row has its heap entry, but for those in `m`. -/
def Running (m : Set (WString × ℤ)) (x : History V × World V) : Prop :=
  x.2.memory.alive = true ∧ Watched m x

theorem Running.mono (hm : m ⊆ m') (hx : Running m x) : Running m' x := ⟨hx.1, hx.2.mono hm⟩

theorem stable_running : (serviceContract sv .worker).Stable (Running m) := fun _ _ hr hx =>
  ⟨hr.alive hx.1, hr.watched m hx.2⟩

/-- A call of the worker. -/
theorem worker_triple {P E : History V × World V → Prop}
    {R : a.Answer → History V × World V → Prop} (hP : (serviceContract sv .worker).Stable P)
    (halive : ∀ {x}, P x → x.2.memory.alive = true)
    (hcall : ∀ {h : History V} {w r w'}, exec sv w a (.ok r) w' →
      Serviced sv h w (.act .worker a (.ok r)) → P (h, w) →
      (w'.memory.stopRequested = w.memory.stopRequested ∧ w'.memory.joinable = w.memory.joinable) ∧
        R r (acted w .worker (.ok r) h, w')) :
    (serviceContract sv .worker).Triple P a (onOk (α := a.Answer) R E) :=
  service_triple hP fun hx hc hy => by
    obtain ⟨⟨hstop, hjoin⟩, hR⟩ := hcall hx hc hy
    refine ⟨fun u hu => ?_, hR⟩
    cases u with
    | worker => exact absurd rfl hu
    | events => exact owedPush_of_none rfl
    | control => exact ⟨hstop, hjoin, fun hdead => absurd (hdead.symm.trans (halive hy)) nofun⟩
    | freeProcess => trivial

/-- A call that leaves the flags. -/
theorem running_step {r : Except String a.Answer} (halive : w'.memory.alive = w.memory.alive)
    (hstop : w'.memory.stopRequested = w.memory.stopRequested)
    (hI : HasEntries m (h, w) → HasEntries m' (acted w .worker r h, w')) (hx : Running m (h, w)) :
    Running m' (acted w .worker r h, w') :=
  ⟨halive.trans hx.1, fun _ hs => hI (hx.2 hx.1 (hstop.symm.trans hs))⟩

/-- A call that leaves the memory and puts no row. -/
theorem entries_worker {r : Except String a.Answer} (hx : exec sv w a r w') (ha : ∀ m, a ≠ .memory m)
    (hput : ¬ a.Puts)
    (hm : ∀ {p row d}, w'.index.job p = some row → (p, d) ∈ m → (p, d) ∈ m') :
    HasEntries m (h, w) → HasEntries m' (acted w .worker r h, w') := fun hI => by
  have hmemory : w'.memory = w.memory := exec_memory hx ha
  refine hI.keep (fun hrow => due_of_exec (t := .worker) hx (Call.scheduled_of_not_puts hput) ?_ hrow)
    (fun hq => .inl (by rwa [hmemory])) (fun hrow _ hexempt => .inr (hm hrow hexempt)) .inr
  rintro due reason rfl
  exact hput trivial

/-- A call of a batch that leaves the memory and puts no row. -/
theorem running_triple {E : History V × World V → Prop} {R : a.Answer → Set (WString × ℤ)}
    (ha : ∀ m, a ≠ .memory m) (hput : ¬ a.Puts)
    (hm : ∀ {w : World V} {r w' p row d}, exec sv w a (.ok r) w' → w'.index.job p = some row →
      (p, d) ∈ m → (p, d) ∈ R r) :
    (serviceContract sv .worker).Triple (Running m) a (onOk (α := a.Answer) (fun r => Running (R r)) E) :=
  worker_triple stable_running And.left fun {h w r w'} hx hc hI => by
    have hmemory : w'.memory = w.memory := exec_memory hx ha
    rw [hmemory]
    refine ⟨⟨rfl, rfl⟩, ?_⟩
    refine running_step (by rw [hmemory]) (by rw [hmemory]) ?_ hI
    exact entries_worker hx ha hput fun hrow => hm hx hrow

/-- The rows of these jobs. -/
def jobRows (js : List PendingJob) : Set (WString × ℤ) := {q | ∃ j ∈ js, j.relativePath = q.1}

/-- The rows of a path. -/
def rowsOf (p : WString) : Set (WString × ℤ) := {q | q.1 = p}

theorem jobRows_cons (j : PendingJob) (js : List PendingJob) :
    jobRows (j :: js) = rowsOf j.relativePath ∪ jobRows js := by
  ext q
  exact List.exists_mem_cons_iff (fun i : PendingJob => i.relativePath = q.1) j js |>.trans
    (or_congr_left eq_comm)

/-- The worker popped `e`, and its row may have no entry. -/
structure Popped (e : HeapEntry) (now : ℤ) (x : History V × World V) : Prop where
  running : Running {(e.relativePath, e.dueUtc)} x
  due : e.dueUtc ≤ now
  entry : popped x.1 = some e

/-- **The popped job is in its batch.** -/
theorem running_due {now : ℤ} {jobs : List PendingJob} {e : HeapEntry} (hnow : InRange now)
    (hx : exec sv w (.query (.dueJobs now sv.settings.dueBatchSize)) (.ok jobs) w')
    (hc : Serviced sv h w (.act .worker (.query (.dueJobs now sv.settings.dueBatchSize)) (.ok jobs)))
    (hI : Popped e now (h, w)) :
    Running (jobRows jobs)
      (acted w .worker (a := .query (.dueJobs now sv.settings.dueBatchSize)) (.ok jobs) h, w') := by
  obtain ⟨hjobs, rfl⟩ := hx
  refine running_step rfl rfl (fun hentries p row d hrow hd => ?_) hI.running
  rcases hentries p row d hrow hd with hq | hpopped | howed
  · exact .inl hq
  · obtain ⟨rfl, rfl⟩ := Prod.mk.inj (Set.mem_singleton_iff.1 hpopped)
    obtain ⟨hrange, -, htext⟩ := hc.timed.parse hrow hd
    refine .inr (.inl ⟨_, CacheIndex.IsDueJobs.mem_of_count hjobs hrow ?_ ?_, rfl⟩)
    · rw [htext, format_le_iff hrange hnow]
      exact floorToSeconds_mono hrange.1 hI.due
    · exact hc.fits rfl e hI.entry row hrow hd
  · exact .inr (.inr howed)

/-- A retry puts a row, whose push comes. -/
theorem running_retry {j : PendingJob} {js : List PendingJob} {due : ℤ} {reason : String}
    (hx : exec sv w (.update (.upsertPendingJob j.relativePath due reason)) (.ok ()) w')
    (hc : Serviced sv h w
      (.act .worker (.update (.upsertPendingJob j.relativePath due reason)) (.ok ())))
    (hI : Running (jobRows (j :: js)) (h, w)) :
    Running ({(j.relativePath, floorToSeconds due)} ∪ jobRows js)
      (acted w .worker (a := .update (.upsertPendingJob j.relativePath due reason)) (.ok ()) h, w') := by
  have hmemory : w'.memory = w.memory := exec_memory hx fun _ => nofun
  have hjob := exec_job hx
  refine running_step (by rw [hmemory]) (by rw [hmemory]) (fun hentries => ?_) hI
  refine hentries.put (q := j.relativePath) (fun {row d} hrow hd => .inl (.inl ?_)) (fun {p} hne => ?_)
    hmemory (fun {p d} hne hp => .inr ?_) (fun _ => id)
  · rw [hjob] at hrow
    have hp : j.relativePath ≠ [] := fun hp => by
      have hkept : Update.onJob j.relativePath (.upsertPendingJob j.relativePath due reason)
          (w.index.job j.relativePath) = w.index.job j.relativePath := if_neg fun h => h.2 hp
      exact (hc.timed _ row (hkept.symm.trans hrow)).1 hp
    have hrange : InRange due := hc.dependable.inTime.retry (j.relativePath, due) rfl
    rw [row_of_retry hp hrow, parse_format hrange] at hd
    cases hd
    rfl
  · rw [hjob]
    exact if_neg fun h => hne h.1
  · rw [jobRows_cons] at hp
    exact hp.resolve_left fun heq => hne heq

/-- The push of the retry. -/
theorem running_push {q : WString} {due : ℤ}
    (hx : exec sv w (.memory (.push q due)) (.ok ()) w') (hI : Running ({(q, due)} ∪ m) (h, w)) :
    (w'.memory.stopRequested = w.memory.stopRequested ∧ w'.memory.joinable = w.memory.joinable) ∧
      Running m (acted w .worker (a := .memory (.push q due)) (.ok ()) h, w') := by
  obtain ⟨-, -, rfl⟩ := exec_memoryCall hx
  refine ⟨⟨rfl, rfl⟩, running_step rfl rfl (fun hentries => ?_) hI⟩
  refine hentries.keep (fun hrow => ⟨_, hrow, rfl⟩) (fun hq => .inl (queued_push.2 (.inl hq)))
    (fun _ _ hexempt => hexempt.imp_left fun heq => queued_push.2 (.inr ?_)) .inr
  exact ⟨(Prod.mk.inj (Set.mem_singleton_iff.1 heq)).1.symm,
    (Prod.mk.inj (Set.mem_singleton_iff.1 heq)).2.symm⟩

/-- A call that takes the row of `q`. -/
theorem running_take {u : Update} {q : WString} {E : History V × World V → Prop}
    (hu : ∀ row, u.onJob q row = none) (hput : ¬ (Call.update u).Puts) :
    (serviceContract sv .worker).Triple (Running (rowsOf q ∪ m)) (.update u)
      (onOk (fun _ => Running m) E) :=
  running_triple (R := fun _ => m) (fun _ => nofun) hput fun {w r w' p row d} hx hrow hm =>
    hm.resolve_left fun heq => by
      cases (show p = q from heq)
      rw [exec_job hx, show (Call.update u).written (.ok r) = some u from rfl, Option.elim_some,
        hu] at hrow
      cases hrow

/-- A removal of a cache file. -/
theorem running_remove {q cache : WString} {E : History V × World V → Prop} (hm : m ⊆ m') :
    (serviceContract sv .worker).Triple (Running m) (.removeCachedFile q cache)
      (onOk (fun (r : RemoveResult) x => if r.Clean then Running m' x else Running m x) E) := by
  have hremove : (serviceContract sv .worker).Triple (Running m) (.removeCachedFile q cache)
      (onOk (fun (_ : RemoveResult) => Running m) E) :=
    running_triple (R := fun _ => m) (fun _ => nofun) id fun _ _ => id
  refine hremove.mono fun r z hz => ?_
  cases r with
  | error e => exact hz
  | ok r =>
    dsimp only [onOk]
    split
    · exact hz.mono hm
    · exact hz

/-- A copy; only a stop request cancels it. -/
theorem running_copy {q s k : WString} {b : Bool} {E : History V × World V → Prop} :
    (serviceContract sv .worker).Triple (Running m) (.copyAndHash q s k b)
      (onOk (fun (r : CopyResult) => Running (if r.action = .cancelled then ∅ else m)) E) :=
  worker_triple stable_running And.left fun {h w r w'} hx hc hI => by
    have hmemory : w'.memory = w.memory := exec_memory hx fun _ => nofun
    rw [hmemory]
    refine ⟨⟨rfl, rfl⟩, ?_⟩
    by_cases hr : CopyResult.action r = .cancelled
    · rw [if_pos hr]
      have hstop := hc.dependable.cancel (decide_eq_true hr)
      refine ⟨by rw [hmemory]; exact hI.1, fun _ hs => absurd ((hmemory ▸ hs).symm.trans hstop) nofun⟩
    · rw [if_neg hr]
      refine running_step (by rw [hmemory]) (by rw [hmemory]) ?_ hI
      exact entries_worker hx (fun _ => nofun) id fun _ => id

/-- What a batch exempts. -/
def watchBatch (now : ℤ) : BatchOutline (serviceContract sv .worker) sv now where
  start x := InRange now ∧ ∃ e, Popped e now x
  loop js := Running (jobRows js)
  removed v js := Running (rowsOf v ∪ jobRows js)
  missing j js := Running (jobRows (j :: js))
  failed j js := Running (jobRows (j :: js))
  erred j js := Running (jobRows (j :: js))
  retried j js := Running ({(j.relativePath, floorToSeconds (retryDue now j))} ∪ jobRows js)
  cached j js := Running (jobRows (j :: js))
  marked j js := Running (jobRows (j :: js))
  post := Running ∅
  thrown _ := False
  due := worker_triple
    (fun _ _ hr hx => ⟨hx.1, hx.2.imp fun e he =>
      ⟨stable_running hr he.running, he.due, hr.popped.trans he.entry⟩⟩)
    (fun ⟨_, _, he⟩ => he.running.1) fun {h w r w'} hx hc hI => by
      obtain ⟨hnow, e, he⟩ := hI
      refine ⟨?_, running_due hnow hx hc he⟩
      obtain ⟨-, rfl⟩ := hx
      exact ⟨rfl, rfl⟩
  record p js := running_triple (R := fun _ => jobRows js) (fun _ => nofun) id fun _ _ => id
  victims js := running_triple (R := fun _ => jobRows js) (fun _ => nofun) id fun _ _ => id
  free js := running_triple (R := fun _ => jobRows js) (fun _ => nofun) id fun _ _ => id
  evict v j js _ := running_remove Set.subset_union_right
  mark v js := running_take (fun _ => if_pos rfl) id
  copy j js := running_copy.mono fun r z hz => by
    cases r with
    | error e => exact hz
    | ok r =>
      dsimp only [onOk] at hz ⊢
      cases hr : CopyResult.action r <;> simp only [hr] at hz ⊢
      case cancelled => exact hz
      all_goals exact hz
  remove j js := running_remove (jobRows_cons j js).subset
  error j js _ := running_triple (R := fun _ => jobRows (j :: js)) (fun _ => nofun) id fun _ _ => id
  retry j js _ := worker_triple stable_running And.left fun {h w r w'} hx hc hI => by
    refine ⟨?_, running_retry hx hc hI⟩
    rw [exec_memory hx fun _ => nofun]
    exact ⟨rfl, rfl⟩
  push j js := worker_triple stable_running And.left fun hx _ hI => running_push hx hI
  cache j js _ _ _ _ := running_triple (R := fun _ => jobRows (j :: js)) (fun _ => nofun) id fun _ _ => id
  drop j js := by
    rw [jobRows_cons]
    exact running_take (fun _ => if_pos rfl) id
  done hx := hx.mono fun _ hq => absurd hq.choose_spec.1 List.not_mem_nil
  stable_loop _ := stable_running
  stable_post := stable_running
  stable_thrown _ _ _ := id

theorem running_same {r : Except String a.Answer} (hx : Running m (h, w)) :
    Running m (acted w .worker r h, w) :=
  running_step rfl rfl (entries_still rfl (fun _ _ => id) rfl) hx

theorem Popped.same {r : Except String a.Answer} {e : HeapEntry} {now : ℤ}
    (hpop : popAnswer (.act .worker a r) = none) (hx : Popped e now (h, w)) :
    Popped e now (acted w .worker r h, w) :=
  ⟨running_same hx.running, hx.due, (popped_of_none hpop).trans hx.entry⟩

theorem stable_popped {e : HeapEntry} :
    (serviceContract sv .worker).Stable fun x => Popped e x.2.clock x := fun _ _ hr hx =>
  ⟨stable_running hr hx.running, hx.due.trans hr.clock, hr.popped.trans hx.entry⟩

/-- The worker looks at the memory. -/
theorem worker_look {k : MemoryCall} {P E : History V × World V → Prop}
    {R : k.Answer → History V × World V → Prop} (hP : (serviceContract sv .worker).Stable P)
    (halive : ∀ {x}, P x → x.2.memory.alive = true) (hk : ∀ b clock, (k.run b clock).2 = b)
    (hR : ∀ {h : History V} {w : World V} {r}, r = (k.run w.memory w.clock).1 →
      Serviced sv h w (.act .worker (.memory k) (.ok r)) → P (h, w) →
      R r (acted w .worker (a := .memory k) (.ok r) h, w)) :
    (serviceContract sv .worker).Triple P (.memory k) (onOk (α := k.Answer) R E) :=
  worker_triple hP halive fun {h w r w'} hx hc hI => by
    obtain ⟨-, hr, hw⟩ := exec_memoryCall hx
    rw [hk] at hw
    subst hw
    exact ⟨⟨rfl, rfl⟩, hR hr hc hI⟩

theorem popDue_flags (b : Memory) (clock : ℤ) :
    (b.popDue clock).2.alive = b.alive ∧ (b.popDue clock).2.stopRequested = b.stopRequested ∧
      (b.popDue clock).2.joinable = b.joinable := by
  unfold Memory.popDue
  split
  · exact ⟨rfl, rfl, rfl⟩
  · split <;> exact ⟨rfl, rfl, rfl⟩

theorem popDue_due {b : Memory} {clock : ℤ} {e : HeapEntry} (h : (b.popDue clock).1 = some e) :
    e.dueUtc ≤ clock := by
  unfold Memory.popDue at h
  split at h
  · cases h
  · split at h
    · cases h
    · rename_i hdue
      cases h
      exact not_lt.1 hdue

/-- The entry popped is exempt. -/
theorem worker_popDue {E : History V × World V → Prop} :
    (serviceContract sv .worker).Triple (Running ∅) (.memory .popDue)
      (onOk (fun (next : Option HeapEntry) x =>
        next.elim (Watched ∅ x) fun e => Popped e x.2.clock x) E) :=
  worker_triple stable_running And.left fun {h w r w'} hx hc hI => by
    obtain ⟨-, hr, rfl⟩ := exec_memoryCall hx
    have hanswer : (w.memory.popDue w.clock).1 = r := hr.symm
    obtain ⟨halive, hstop, hjoin⟩ := popDue_flags w.memory w.clock
    refine ⟨⟨hstop, hjoin⟩, ?_⟩
    have hrunning : Running {q | ∃ e, (w.memory.popDue w.clock).1 = some e ∧ q = (e.relativePath, e.dueUtc)}
        (acted w .worker (a := .memory .popDue) (.ok r) h,
          { w with memory := (w.memory.popDue w.clock).2 }) := by
      refine running_step halive hstop (fun hentries => ?_) hI
      refine hentries.keep (fun hrow => ⟨_, hrow, rfl⟩) (fun hq => ?_) (fun _ _ => False.elim) .inr
      exact (queued_popDue hq).imp_right fun ⟨e, he, hp, hd⟩ => ⟨e, he, by rw [hp, hd]⟩
    rw [hanswer] at hrunning
    cases r with
    | none =>
      refine (hrunning.mono fun q hq => ?_).2
      obtain ⟨e, he, -⟩ := hq
      cases he
    | some e =>
      refine ⟨hrunning.mono fun q hq => ?_, popDue_due hanswer, rfl⟩
      obtain ⟨e', he, hq⟩ := hq
      cases he
      exact hq

/-- The worker ends. -/
theorem worker_exit : (serviceContract sv .worker).Triple (Running ∅) (.memory .exit)
    (onOk (fun _ => Watched ∅) (Watched ∅)) :=
  worker_triple stable_running And.left fun {h w r w'} hx hc hI => by
    obtain ⟨-, -, rfl⟩ := exec_memoryCall hx
    exact ⟨⟨rfl, rfl⟩, nofun⟩

/-- A paused worker puts the entry back. -/
theorem worker_putBack {e : HeapEntry} :
    (serviceContract sv .worker).Triple (fun x => Popped e x.2.clock x)
      (.memory (.push e.relativePath (floorToSeconds e.dueUtc)))
      (onOk (fun _ => Watched ∅) (Watched ∅)) :=
  worker_triple stable_popped (fun hx => hx.running.1) fun {h w r w'} hx hc hI => by
    obtain ⟨-, -, rfl⟩ := exec_memoryCall hx
    refine ⟨⟨rfl, rfl⟩, fun _ hs => ?_⟩
    have hentries := hI.running.2 hI.running.1 hs
    refine hentries.keep (fun hrow => ⟨_, hrow, rfl⟩) (fun hq => .inl (queued_push.2 (.inl hq)))
      (fun {p row d} hrow hd hexempt => .inl (queued_push.2 (.inr ?_))) .inr
    obtain ⟨rfl, rfl⟩ := Prod.mk.inj (Set.mem_singleton_iff.1 hexempt)
    exact ⟨rfl, (hc.timed.parse hrow hd).2.1⟩

/-- An entry whose row is gone, or due at another time, is not missed. -/
theorem Popped.stale {r : Except String a.Answer} {e : HeapEntry} {now : ℤ}
    (hstale : ∀ row, w.index.job e.relativePath = some row → parseUtc row.dueUtc ≠ some e.dueUtc)
    (hx : Popped e now (h, w)) : Running ∅ (acted w .worker r h, w) :=
  running_step rfl rfl (fun hentries => hentries.keep (fun hrow => ⟨_, hrow, rfl⟩) .inl
    (fun hrow hd hexempt => by
      obtain ⟨rfl, rfl⟩ := Prod.mk.inj (Set.mem_singleton_iff.1 hexempt)
      exact absurd hd (hstale _ hrow)) .inr) hx.running

/-- The row of the entry popped. -/
theorem worker_lookup {e : HeapEntry} :
    (serviceContract sv .worker).Triple (fun x => Popped e x.2.clock x)
      (.query (.pendingJob e.relativePath))
      (onOk (fun (job : Option PendingJob) x => job.elim (Watched ∅ x) fun j =>
        if j.dueUtc ≠ e.dueUtc then Watched ∅ x else Popped e x.2.clock x) (Watched ∅)) :=
  worker_triple stable_popped (fun hx => hx.running.1) fun {h w r w'} hx hc hI => by
    obtain ⟨hr, rfl⟩ := hx
    refine ⟨⟨rfl, rfl⟩, ?_⟩
    have hanswer := CacheIndex.pendingJob_eq w'.index w'.clock e.relativePath
    rw [← (show r = _ from hr)] at hanswer
    subst hanswer
    cases hjob : w'.index.job e.relativePath with
    | none => exact (hI.stale fun row hrow => absurd (hjob.symm.trans hrow) nofun).2
    | some row =>
      dsimp only [Option.map_some, Option.elim]
      split
      · rename_i hne
        refine (hI.stale fun row' hrow hd => hne ?_).2
        cases hjob.symm.trans hrow
        rw [CacheIndex.readPendingJob_dueUtc, hd]
        rfl
      · exact hI.same rfl

/-- **The pass of the worker loop.** -/
def watchWorker : WorkerOutline (serviceContract sv .worker) sv where
  start := Running ∅
  idle := Watched ∅
  running := Running ∅
  exiting := Running ∅
  popped e x := Popped e x.2.clock x
  checked e x := Popped e x.2.clock x
  ready e x := Popped e x.2.clock x
  thrown _ := False
  batch := watchBatch
  loadStop := worker_look stable_running And.left (fun _ _ => rfl) fun {_ _ r} _ _ hI => by
    cases r <;> exact running_same hI
  exit := worker_exit.mono fun r z hz => by cases r <;> exact hz
  loadPaused := worker_look stable_running And.left (fun _ _ => rfl) fun {_ _ r} _ _ hI => by
    cases r with
    | true => exact (running_same hI).2
    | false => exact running_same hI
  popDue := worker_popDue
  recheck e := worker_look stable_popped (fun hx => hx.running.1) (fun _ _ => rfl)
    fun {_ _ r} _ _ hI => by cases r <;> exact hI.same rfl
  putBack e := worker_putBack.mono fun r z hz => by cases r <;> exact hz
  lookup e := worker_lookup
  now e := worker_look stable_popped (fun hx => hx.running.1) (fun _ _ => rfl)
    fun {h w r} hr hc hI => by
      cases (show r = w.clock from hr)
      exact ⟨hc.dependable.inTime.clock, e, hI.same rfl⟩
  thrown_of_batch := id
  handler _ _ := ⟨fun _ _ _ => id, fun hx => hx.elim⟩
  idle_of_post := And.right
  stable_idle _ _ hr hx := hr.watched ∅ hx

/-! ## All threads -/

/-- What holds of each party between two of its operations. -/
def Between : Party → History V × World V → Prop
  | .worker => Watched ∅
  | .events => Owes none
  | .control => Resting
  | .freeProcess => fun _ => True

/-- Starting an operation, or the passing of time. -/
theorem gentle_frame {l : Event} (hw : tick w w') (hpop : popAnswer l = none) (howes : owes l = none) :
    Gentle (h, w) ((w, l) :: h, w') := by
  obtain ⟨clock, hle, rfl⟩ := hw
  refine ⟨rfl, rfl, rfl, hle, popped_of_none hpop, fun m hI => ?_⟩
  exact hI.keep (fun hrow => ⟨_, hrow, rfl⟩) .inl (fun _ _ hm => .inr hm)
    fun ho => .inr ((owedPush_of_none howes).trans ho)

theorem rely_frame {l : Event} (hw : tick w w') (hpop : popAnswer l = none) (howes : owes l = none) :
    Rely u (h, w) ((w, l) :: h, w') :=
  (gentle_frame hw hpop howes).rely (owedPush_of_none howes)

theorem stable_between : (serviceContract sv t).Stable (Between t) := by
  cases t with
  | worker => exact fun _ _ hr hx => WorkerRely.watched hr ∅ hx
  | events => exact stable_owes
  | control => exact stable_resting
  | freeProcess => exact fun _ _ _ _ => trivial

/-- The three threads of the service. -/
def serviceOutline (sv : Service V) : Outline (system sv started) (Serviced sv) where
  contract := serviceContract sv
  idle := Between
  step_eq _ := rfl
  stable _ := stable_between
  act htu _ hkeep := hkeep _ htu.symm
  call _ := rely_frame ⟨_, le_rfl, rfl⟩ rfl rfl
  env he _ := rely_frame he rfl rfl
  body {t h c o} hm hc hidle := by
    have hstable : (serviceContract sv t).Stable (Between t) := stable_between
    have hcall : Between t ((c.world, .call t o) :: h, c.world) :=
      hstable (rely_frame ⟨_, le_rfl, rfl⟩ rfl rfl) hidle
    have rest {r : Except String Unit} {x : History V × World V}
        (hx : onOk (fun _ => Resting) Resting r x) : Resting x := by
      cases r <;> exact hx
    rcases started_cases hm with
      ⟨event, rfl, rfl⟩ | ⟨rfl, rfl, halive⟩ | ⟨rfl, rfl | rfl | ⟨paused, rfl⟩⟩
    · exact recordEvent_safe event hcall
    · exact watchWorker.safe ⟨halive, hcall⟩
    · exact Prog.safe_mono (fun _ _ => rest) (start_safe hcall)
    · exact Prog.safe_mono (fun _ _ => rest) (stop_safe hcall)
    · exact Prog.safe_mono (fun _ _ => rest) (setPaused_safe hcall)

/-! ## Runs -/

/-- The rows stay timed throughout a run. -/
theorem serviced_of_run (h0 : RowsTimed w.index) (hrun : Run (system sv started) (.idle w) h c)
    (hm : Meets Dependable h) (hfits : Meets (BatchFits sv) h) :
    Meets (Serviced sv) h ∧ RowsTimed c.world.index := by
  refine hrun.invariant (I := fun h c => Meets (Serviced sv) h ∧ RowsTimed c.world.index)
    ⟨trivial, h0⟩ (fun {h c l c'} hI hc hs => ?_) (hm.and hfits)
  exact ⟨⟨⟨hc.1, hc.2, hI.2⟩, hI.1⟩, rowsTimed_step hs hc.1.inTime hI.2⟩

/-- A process that did not start its scheduler yet, with rows as the index writes them. -/
structure Persisted (w : World V) : Prop where
  memory : w.memory = {}
  rows : RowsTimed w.index

/-- The worker is at the top of its loop and is not asked to stop, and no event is between
its index write and its push. -/
structure AtTop (h : History V) (c : State V) : Prop where
  done : (c.prog .worker).Done
  alive : c.world.memory.alive = true
  stop : c.world.memory.stopRequested = false
  owed : owedPush h = none

/-- Every row has its heap entry. -/
def NoneStranded (w : World V) : Prop :=
  ∀ p row, w.index.job p = some row →
    ∃ e ∈ w.memory.heap, e.relativePath = p ∧ parseUtc row.dueUtc = some e.dueUtc

instance (h : History V) (c : State V) : Decidable (AtTop h c) :=
  decidable_of_iff ((c.prog .worker).Done ∧ c.world.memory.alive = true ∧
    c.world.memory.stopRequested = false ∧ owedPush h = none)
    ⟨fun ⟨hd, ha, hs, ho⟩ => ⟨hd, ha, hs, ho⟩, fun ht => ⟨ht.done, ht.alive, ht.stop, ht.owed⟩⟩

/-! ## A row that is stranded -/

/-- Two files come to be due in one second. The worker skips the stale entry of the first
one, then pops the entry of the second one and goes on with `batch`. -/
def tieSchedule (batch : List (Move Party Operation ℤ)) : List (Move Party Operation ℤ) :=
  .call .control .start :: steps .control 5 ++
  .call .events (.recordEvent { relativePath := [98], observedAt := 0 }) :: steps .events 3 ++
  .env 50000000 ::
  .call .events (.recordEvent { relativePath := [97], observedAt := 50000000 }) :: steps .events 3 ++
  .call .events (.recordEvent { relativePath := [98], observedAt := 50000000 }) :: steps .events 3 ++
  .env 650000000 :: .call .worker .workerIteration :: steps .worker 5 ++
  .call .worker .workerIteration :: batch

theorem persisted_empty {v : V} {clock : ℤ} : Persisted ({ volume := v, clock } : World V) where
  memory := rfl
  rows _ _ hrow := by cases hrow

end SsdCache
