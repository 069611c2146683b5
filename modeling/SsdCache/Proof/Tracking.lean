import SsdCache.Proof.Queries
import SsdCache.Proof.Sequential
import SsdCache.Spec.Replay

/-!
# No cache file becomes untracked

A file the engine published is tracked while its record has `cache_present=1` or a
job for it is pending: only then can eviction or a later job delete it.

* `published_tracked`: in every run in which `Delete` events and the startup cleanup
  concern paths without a published file, every published file is tracked.
* `delete_untracks`: a `Delete` event of a cached file leaves the file behind, untracked.
-/

namespace SsdCache

open Atomic

variable {V : Type} {sv : Service V} {w w' : World V} {h : History V} {c : State V}
variable {p v : WString} {a : Call} {l : Event}

/-- A copy that put the file of `p` into the cache. -/
def Publishes (p : WString) (l : Event) : Prop :=
  match copyAnswer p l with
  | some (.ok r) => r.action = .copied
  | _ => False

instance (p : WString) (l : Event) : Decidable (Publishes p l) :=
  match h : copyAnswer p l with
  | some (.ok r) => decidable_of_iff (r.action = .copied) (by rw [Publishes, h])
  | some (.error _) => .isFalse (by rw [Publishes, h]; exact id)
  | none => .isFalse (by rw [Publishes, h]; exact id)

@[simp] theorem publishes_act {p q s c : WString} {m : Bool} {t : Party} {r : CopyResult} :
    Publishes p (.act t (.copyAndHash q s c m) (.ok r)) ↔ p = q ∧ r.action = .copied := by
  by_cases hp : p = q
  · simp [Publishes, copyAnswer, hp]
  · simp [Publishes, copyAnswer, hp]

theorem not_publishes_error {p : WString} {t : Party} {a : Call} {e : String} :
    ¬ Publishes p (.act t a (.error e)) := by
  unfold Publishes
  split
  · rename_i r hr
    cases a with
    | copyAndHash q s c m =>
      simp only [copyAnswer] at hr
      split at hr <;> cases hr
    | _ => cases hr
  · exact id

/-- The engine published the file of `p` and has not removed it. -/
def Published (p : WString) (h : History V) : Prop :=
  Since (fun _ _ => Publishes p) (fun _ _ => Removes p) h

instance (p : WString) (h : History V) : Decidable (Published p h) :=
  inferInstanceAs (Decidable (Since _ _ h))

/-- Eviction or a later job can still delete the file of `p`. -/
def Tracked (p : WString) (w : World V) : Prop :=
  w.index.Present p ∨ p ∈ w.index.pendingJobs

/-- Every published file is tracked. -/
def PublishedTracked (x : History V × World V) : Prop := ∀ p, Published p x.1 → Tracked p x.2

/-- The path that a `Delete` event or the cleanup takes out of the index. -/
def forgotten (l : Event) : Option WString :=
  match committed l with
  | some (.deleteRecord p) => some p
  | some (.markRemoved p) => if Deletes p l then some p else none
  | _ => none

/-- `mark_cached` threw. -/
def markThrows : Event → Bool
  | .act _ (.update (.markCached _ _ _ _ _)) (.error _) => true
  | _ => false

/-- `Delete` events and the cleanup concern only paths without a published file, and
`mark_cached` does not throw. -/
def ForgetsOnlyRemoved : Condition V := fun h _ l =>
  (∀ p ∈ forgotten l, ¬ Published p h) ∧ markThrows l = false

instance (h : History V) (w : World V) (l : Event) : Decidable (ForgetsOnlyRemoved h w l) :=
  inferInstanceAs (Decidable ((∀ p ∈ forgotten l, _) ∧ _))

/-! ## Steps -/

/-- The statements that take the job row of `p`. -/
def Update.Forgets (p : WString) (u : Update) : Prop :=
  u = .removePendingJob p ∨ u = .deleteRecord p ∨ u = .markRemoved p

/-- Every published file, except perhaps that of `v`, is tracked. -/
def TrackedBut (v : Option WString) (x : History V × World V) : Prop :=
  ∀ p, v ≠ some p → Published p x.1 → Tracked p x.2

theorem tracked_iff : Tracked p w ↔ w.index.status p = some true ∨ w.index.job p ≠ none := by
  rw [Tracked, CacheIndex.Present, CacheIndex.mem_pendingJobs]

/-- A statement that does not take the row of `p` leaves `p` tracked. -/
theorem tracked_keep {r : Except String a.Answer} (hx : exec sv w a r w') (ht : Tracked p w)
    (hu : ∀ u, a.written r = some u → ¬ u.Forgets p) : Tracked p w' := by
  rw [tracked_iff] at ht ⊢
  rw [exec_status hx, exec_job hx]
  cases hw : a.written r with
  | none => exact ht
  | some u =>
    have hnf := hu u hw
    simp only [Option.elim_some]
    cases u with
    | recordAccess event d =>
      rcases ht with hs | hj
      · left
        simp only [Update.onStatus, hs, Option.getD_some, ite_self]
      · right
        simp only [Update.onJob]
        split
        · exact Option.some_ne_none _
        · exact hj
    | upsertPendingJob q due m =>
      refine ht.imp_right fun hj => ?_
      simp only [Update.onJob]
      split
      · exact Option.some_ne_none _
      · exact hj
    | removePendingJob q =>
      have hne : p ≠ q := fun heq => hnf (.inl (by rw [heq]))
      simpa only [Update.onStatus, Update.onJob, if_neg hne] using ht
    | deleteRecord q =>
      have hne : p ≠ q := fun heq => hnf (.inr (.inl (by rw [heq])))
      simpa only [Update.onStatus, Update.onJob, if_neg hne] using ht
    | markRemoved q =>
      have hne : p ≠ q := fun heq => hnf (.inr (.inr (by rw [heq])))
      simpa only [Update.onStatus, Update.onJob, if_neg hne] using ht
    | recordError q m =>
      refine ht.imp_right fun hj => ?_
      simp only [Update.onJob]
      split
      · simpa using hj
      · exact hj
    | markCached q sz cz hash t =>
      refine ht.imp_left fun hs => ?_
      simp only [Update.onStatus, hs]
      split <;> rfl

/-- **One call keeps every file tracked**, save those it publishes or forgets. -/
theorem trackedBut_step {t : Party} {r : Except String a.Answer} {v : Option WString}
    (hx : exec sv w a r w') (hI : TrackedBut v (h, w))
    (hpub : ∀ p, Publishes p (.act t a r) → v = some p)
    (hforget : ∀ u p, a.written r = some u → u.Forgets p → v = some p) :
    TrackedBut v ((w, .act t a r) :: h, w') := by
  intro p hne hp
  have hbefore : Published p h := hp.elim (fun hA => absurd (hpub p hA) hne) And.right
  exact tracked_keep hx (hI p hne hbefore) fun u hu hf => hne (hforget u p hu hf)

theorem TrackedBut.mono {v v' : Option WString} {x : History V × World V} (hv : ∀ p, v = some p → v' = some p)
    (hI : TrackedBut v x) : TrackedBut v' x := fun p hne => hI p fun heq => hne (hv p heq)

/-- When the file of `v` is tracked, or is none, all are. -/
theorem TrackedBut.none {x : History V × World V} (hI : TrackedBut (some v) x)
    (hv : Published v x.1 → Tracked v x.2) : TrackedBut none x := by
  intro p _ hp
  by_cases hpv : p = v
  · subst hpv
    exact hv hp
  · exact hI p (fun heq => hpv (Option.some.inj heq).symm) hp

/-- A write that takes no row but that of `v`. -/
theorem trackedBut_take {t : Party} {u : Update} {r : Except String (Call.update u).Answer}
    (hx : exec sv w (.update u) r w') (hI : TrackedBut (some v) (h, w))
    (hu : ∀ p, u.Forgets p → p = v) : TrackedBut (some v) (acted w t r h, w') := by
  refine trackedBut_step hx hI (fun p hp => absurd hp id) fun u' p hw hf => ?_
  cases Call.eq_of_written hw
  rw [hu p hf]

theorem trackedBut_tick {v : Option WString} {clock : ℤ} (hI : TrackedBut v (h, w)) :
    TrackedBut v ((w, .env) :: h, { w with clock }) := fun p hne hp =>
  hI p hne ((since_frame (by simp [Publishes, copyAnswer]) (by simp [Removes, removeAnswer])).1 hp)

theorem not_published_tick (hI : ¬ Published p h) : ¬ Published p ((w, .env) :: h) := fun hp =>
  hI ((since_frame (by simp [Publishes, copyAnswer]) (by simp [Removes, removeAnswer])).1 hp)

/-- The calls that publish nothing and take no row. -/
def Call.Calm : Call → Prop
  | .copyAndHash _ _ _ _ => False
  | .update (.removePendingJob _) | .update (.deleteRecord _) | .update (.markRemoved _) => False
  | _ => True

theorem calm_publishes {t : Party} {r : Except String a.Answer} (ha : a.Calm) :
    ¬ Publishes p (.act t a r) := by
  cases a with
  | copyAndHash q s c m => cases ha
  | _ => exact id

theorem calm_written {r : Except String a.Answer} {u : Update} (ha : a.Calm)
    (hu : a.written r = some u) : ¬ u.Forgets p := by
  cases Call.eq_of_written hu
  rintro (rfl | rfl | rfl) <;> exact ha

theorem calm_step {t : Party} {r : Except String a.Answer} {v : Option WString}
    (hx : exec sv w a r w') (ha : a.Calm) (hI : TrackedBut v (h, w)) : TrackedBut v ((w, .act t a r) :: h, w') :=
  trackedBut_step hx hI (fun _ hp => absurd hp (calm_publishes ha))
    fun _ _ hu hf => absurd hf (calm_written ha hu)

theorem calm_known {r : Except String a.Answer} {jobs : List PendingJob}
    (hx : exec sv w a r w') (ha : a.Calm) (hk : Known jobs w) : Known jobs w' :=
  known_step hx (fun q hu => calm_written (p := q) ha hu (.inr (.inl rfl))) hk

/-! ## The outline -/

/-- The contract of a party that runs alone. -/
abbrev trackContract (sv : Service V) (t : Party) : Contract calls String (History V × World V) :=
  serialContract sv sequentialHost ForgetsOnlyRemoved (fun _ _ _ _ => True) t

/-- Every published file but that of `v` is tracked, and the jobs have file rows. -/
def TrackedWith (v : Option WString) (jobs : List PendingJob) (x : History V × World V) : Prop :=
  TrackedBut v x ∧ Known jobs x.2

theorem stable_tracked {t : Party} {v : Option WString} : (trackContract sv t).Stable (TrackedBut v) :=
  stable_of_tick fun _ => trackedBut_tick

theorem stable_trackedWith {t : Party} {v : Option WString} {jobs : List PendingJob} :
    (trackContract sv t).Stable (TrackedWith v jobs) :=
  stable_of_tick fun _ hI => ⟨trackedBut_tick hI.1, hI.2⟩

theorem TrackedWith.tail {v : Option WString} {j : PendingJob} {jobs : List PendingJob}
    {x : History V × World V} (hI : TrackedWith v (j :: jobs) x) : TrackedWith v jobs x :=
  ⟨hI.1, fun k hk => hI.2 k (List.mem_cons_of_mem j hk)⟩

/-- A calm call of the batch. -/
theorem track_triple {jobs : List PendingJob} (ha : a.Calm) :
    (trackContract sv .worker).Triple (TrackedWith none jobs) a
      (onOk (α := a.Answer) (fun _ => TrackedWith none jobs) (TrackedBut none)) :=
  serial_triple stable_trackedWith fun {h w r w'} hx _ hI => by
    refine ⟨trivial, ?_⟩
    cases r with
    | ok r => exact ⟨calm_step hx ha hI.1, calm_known hx ha hI.2⟩
    | error e => exact calm_step hx ha hI.1

/-- After a removal without error the file is no longer published. -/
theorem not_published_of_remove {t : Party} {c : WString} {r : RemoveResult} (hr : r.Clean) :
    ¬ Published v ((w, .act t (.removeCachedFile v c) (.ok r)) :: h) := by
  rintro (hA | ⟨hB, -⟩)
  · exact hA
  · exact hB (removes_act.2 ⟨rfl, hr⟩)

/-- A removal of the cache file of `v`. -/
theorem track_remove {jobs : List PendingJob} {cache : WString} :
    (trackContract sv .worker).Triple (TrackedWith none jobs) (.removeCachedFile v cache)
      (onOk (fun (r : RemoveResult) x =>
        if r.Clean then TrackedWith none jobs x ∧ ¬ Published v x.1 else TrackedWith none jobs x)
        (TrackedBut none)) :=
  serial_triple stable_trackedWith fun {h w r w'} hx _ hI => by
    refine ⟨trivial, ?_⟩
    have htracked : TrackedBut none (acted w .worker r h, w') := calm_step hx trivial hI.1
    have hknown : Known jobs w' := calm_known hx trivial hI.2
    cases r with
    | error e => exact htracked
    | ok r =>
      dsimp only [onOk]
      split
      · rename_i hc
        exact ⟨⟨htracked, hknown⟩, not_published_of_remove hc⟩
      · exact ⟨htracked, hknown⟩

/-- A batch keeps every published file tracked. -/
def trackBatch (now : ℤ) : BatchOutline (trackContract sv .worker) sv now where
  start := TrackedBut none
  loop js := TrackedWith none js
  removed v js x := TrackedWith none js x ∧ ¬ Published v x.1
  missing j js := TrackedWith none (j :: js)
  failed _ js := TrackedWith none js
  erred _ js := TrackedWith none js
  retried _ js := TrackedWith none js
  cached j js := TrackedWith (some j.relativePath) (j :: js)
  marked j js x := TrackedWith (some j.relativePath) js x ∧ x.2.index.Present j.relativePath
  post := TrackedBut none
  thrown := TrackedBut none
  due := serial_triple stable_tracked fun {h w r w'} hx _ hI => by
    refine ⟨trivial, ?_⟩
    cases r with
    | error e => exact calm_step hx trivial hI
    | ok jobs =>
      refine ⟨calm_step hx trivial hI, fun j hj => ?_⟩
      obtain ⟨hjobs, rfl⟩ := hx
      exact CacheIndex.IsDueJobs.status hjobs hj
  record _ _ := track_triple trivial
  victims _ := track_triple trivial
  free _ := track_triple trivial
  evict v j js _ := track_remove
  mark v js := serial_triple
    (stable_of_tick fun _ hI => ⟨⟨trackedBut_tick hI.1.1, hI.1.2⟩, not_published_tick hI.2⟩)
    fun {h w r w'} hx _ hI => by
      refine ⟨trivial, ?_⟩
      have hgone : ¬ Published v (acted w .worker r h) := fun hp =>
        hp.elim (fun hA => absurd hA id) fun hp => hI.2 hp.2
      have hothers : TrackedBut (some v) (h, w) := hI.1.1.mono fun p heq => by cases heq
      have hbut : TrackedBut (some v) (acted w .worker r h, w') :=
        trackedBut_take hx hothers fun p hf => by
          rcases hf with hf | hf | hf <;> cases hf
          rfl
      have hall : TrackedBut none (acted w .worker r h, w') := hbut.none fun hp => absurd hp hgone
      cases r with
      | error e => exact hall
      | ok x => exact ⟨hall, known_step hx (fun q hq => by cases hq) hI.1.2⟩
  copy j js := serial_triple stable_trackedWith fun {h w r w'} hx _ hI => by
    refine ⟨trivial, ?_⟩
    have hw : ∀ u, (Call.copyAndHash _ _ _ _).written r ≠ some u := fun u => by
      cases r <;> exact nofun
    have hknown : Known (j :: js) w' := known_step hx (fun q => hw _) hI.2
    have hbut (hr : ∃ r', r = .ok r') :
        TrackedBut (some j.relativePath) (acted w .worker r h, w') := by
      obtain ⟨r', rfl⟩ := hr
      refine trackedBut_step hx (fun p _ => hI.1 p (by simp)) (fun p hp => ?_) fun u p hu => ?_
      · rw [(publishes_act.1 hp).1]
      · exact absurd hu (hw u)
    have hall (hr : ∀ p, ¬ Publishes p (.act .worker (.copyAndHash _ _ _ _) r)) :
        TrackedBut none (acted w .worker r h, w') :=
      trackedBut_step hx hI.1 (fun p hp => absurd hp (hr p)) fun u p hu => absurd hu (hw u)
    cases r with
    | error e => exact hall fun p => not_publishes_error
    | ok r =>
      have hall' (hr : CopyResult.action r ≠ .copied) := hall fun p hp => hr (publishes_act.1 hp).2
      dsimp only [onOk]
      cases ha : CopyResult.action r <;> simp only [ha] at hall' ⊢
      case copied => exact ⟨hbut ⟨r, rfl⟩, hknown⟩
      case skippedSameSize => exact ⟨hbut ⟨r, rfl⟩, hknown⟩
      case skippedHashMatch => exact ⟨hbut ⟨r, rfl⟩, hknown⟩
      case sourceMissing => exact ⟨hall' (by simp), hknown⟩
      case failed => exact TrackedWith.tail ⟨hall' (by simp), hknown⟩
      case cancelled => exact hall' (by simp)
  remove j js := track_remove.mono fun r z hz => by
    cases r with
    | error e => exact hz
    | ok r =>
      dsimp only [onOk] at hz ⊢
      split
      · rename_i hc
        rw [if_pos hc] at hz
        exact ⟨hz.1.tail, hz.2⟩
      · rename_i hc
        rw [if_neg hc] at hz
        exact hz.tail
  error _ _ _ := track_triple trivial
  retry _ _ _ := track_triple trivial
  push _ _ := track_triple trivial
  cache j js _ _ _ _ := serial_triple stable_trackedWith fun {h w r w'} hx hc hI => by
    refine ⟨trivial, ?_⟩
    have hbut : TrackedBut (some j.relativePath) (acted w .worker r h, w') :=
      calm_step hx trivial hI.1
    have hknown : Known js w' := calm_known hx trivial hI.tail.2
    cases r with
    | error e => exact absurd hc.2 (by simp [markThrows])
    | ok x =>
      refine ⟨⟨hbut, hknown⟩, ?_⟩
      have hrow := hI.2 j List.mem_cons_self
      obtain ⟨b, hb⟩ := Option.ne_none_iff_exists'.1 hrow
      rw [CacheIndex.Present, exec_status hx]
      simp [Call.written, Update.onStatus, hb]
  drop j js := serial_triple
    (stable_of_tick fun _ hI => ⟨⟨trackedBut_tick hI.1.1, hI.1.2⟩, hI.2⟩)
    fun {h w r w'} hx _ hI => by
      refine ⟨trivial, ?_⟩
      have hpresent : w'.index.Present j.relativePath := by
        rw [CacheIndex.Present, exec_status hx]
        cases r <;> exact hI.2
      have hbut : TrackedBut (some j.relativePath) (acted w .worker r h, w') :=
        trackedBut_take hx hI.1.1 fun p hf => by
          rcases hf with hf | hf | hf <;> cases hf
          rfl
      have hall : TrackedBut none (acted w .worker r h, w') := hbut.none fun _ => .inl hpresent
      cases r with
      | error e => exact hall
      | ok x => exact ⟨hall, known_step hx (fun q hq => by cases hq) hI.1.2⟩
  done hx := hx.1
  stable_loop _ := stable_trackedWith
  stable_post := stable_tracked
  stable_thrown := stable_tracked

/-- A call of the event thread or of the cleanup forgets only what is not published. -/
theorem forget_step {t : Party} {r : Except String a.Answer} (hx : exec sv w a r w')
    (hc : ForgetsOnlyRemoved h w (.act t a r)) (hpub : ∀ p, ¬ Publishes p (.act t a r))
    (hf : ∀ u p, a.written r = some u → u.Forgets p → forgotten (.act t a r) = some p)
    (hI : TrackedBut none (h, w)) : TrackedBut none (acted w t r h, w') := by
  intro p hne hp
  have hbefore : Published p h := hp.elim (fun hA => absurd hA (hpub p)) And.right
  refine tracked_keep hx (hI p hne hbefore) fun u hu hforgets => ?_
  exact hc.1 p (hf u p hu hforgets) hbefore

theorem events_forget {r : Except String a.Answer} {u : Update} (ha : a.ByEvents)
    (hu : a.written r = some u) (hf : u.Forgets p) : forgotten (.act .events a r) = some p := by
  cases a with
  | update u' =>
    cases r with
    | error e => cases hu
    | ok x =>
      cases hu
      rcases hf with rfl | rfl | rfl
      · cases ha
      · cases ha
      · exact if_pos rfl
  | _ => cases hu

theorem cleanup_forgets {r : Except String a.Answer} {u : Update} (ha : a.ByCleanup)
    (hu : a.written r = some u) (hf : u.Forgets p) : forgotten (.act .control a r) = some p := by
  cases a with
  | update u' =>
    cases r with
    | error e => cases hu
    | ok x =>
      cases hu
      rcases hf with rfl | rfl | rfl
      · cases ha
      · rfl
      · cases ha
  | _ => cases hu

theorem events_publish {t : Party} {r : Except String a.Answer} (ha : a.ByEvents ∨ a.ByCleanup) :
    ¬ Publishes p (.act t a r) := by
  cases a with
  | copyAndHash q s c m => rcases ha with ha | ha <;> cases ha
  | _ => exact id

/-- One call at a time. -/
def trackOutline : SerialOutline sv sequentialHost ForgetsOnlyRemoved where
  keep _ _ _ _ := True
  inv := TrackedBut none
  alone hm := (sequentialHost_cases hm).1
  tick _ := trackedBut_tick
  body {t h c o} hm _ hinv := by
    have hcall : TrackedBut none ((c.world, .call t o) :: h, c.world) := fun p hne hp =>
      hinv p hne ((since_frame (by simp [Publishes, copyAnswer])
        (by simp [Removes, removeAnswer])).1 hp)
    rcases (sequentialHost_cases hm).2 with ⟨event, rfl, rfl⟩ | ⟨now, rfl, rfl⟩ | ⟨i, d, rfl, rfl⟩
    · refine (recordEvent_only event).safe stable_tracked ?_ hcall
      rintro ⟨h, w⟩ a r ⟨h', w'⟩ ha hI ⟨hx, hc, rfl⟩
      exact ⟨trivial, forget_step hx hc (fun p => events_publish (.inl ha))
        (fun u p => events_forget ha) hI⟩
    · exact (trackBatch now).body_safe stable_tracked id id hcall
    · refine (cleanup_only i d).safe stable_tracked ?_ hcall
      rintro ⟨h, w⟩ a r ⟨h', w'⟩ ha hI ⟨hx, hc, rfl⟩
      exact ⟨trivial, forget_step hx hc (fun p => events_publish (.inr ha))
        (fun u p => cleanup_forgets ha) hI⟩

/-- **Every published file is tracked**, after every sequence of events, batches and
cleanups in which no published file is forgotten. -/
theorem published_tracked (hrun : Run (system sv sequentialHost) (.idle w) h c)
    (hm : Meets ForgetsOnlyRemoved h) (hidle : ∀ t, (c.prog t).Done) :
    PublishedTracked (h, c.world) := fun p =>
  trackOutline.outline.inv_of_run (fun _ _ hp => absurd hp not_since_nil) hrun hm hidle p (by simp)

/-- A file is cached and the startup cleanup runs with nothing to ignore. -/
def cacheAndCleanup : List (Move Party Operation ℤ) :=
  .call .events (.recordEvent { relativePath := [97], observedAt := 0 }) :: steps .events 3 ++
  .call .worker (.runDueOnce 600000000) :: steps .worker 4 ++
  .call .control (.cleanup (fun _ => false) fun _ => false) :: steps .control 4

theorem published_tracked_after_cleanup :
    ∃ h c, Run (system (diskService {}) sequentialHost) (.idle { volume := {}, clock := 600000000 })
        h c ∧ Published [97] h ∧ PublishedTracked (h, c.world) := by
  obtain ⟨h, c, hrun, hm, hidle, hpub⟩ := exists_run {} sequentialHost
    { volume := {}, clock := 600000000 } cacheAndCleanup
    (fun x => Meets ForgetsOnlyRemoved x.1 ∧ allIdle x.2 = true ∧ Published [97] x.1)
    (by decide +kernel)
  exact ⟨h, c, hrun, hpub, published_tracked hrun hm (allIdle_iff.1 hidle)⟩

/-- A file is cached, then a `Delete` event of it is recorded. -/
def cacheAndDelete : List (Move Party Operation ℤ) :=
  .call .events (.recordEvent { relativePath := [97], observedAt := 0 }) :: steps .events 3 ++
  .call .worker (.runDueOnce 600000000) :: steps .worker 4 ++
  .call .events (.recordEvent { relativePath := [97], kind := .delete, observedAt := 600000000 }) ::
    steps .events 2

/-- **A `Delete` event of a cached file leaves the file untracked**: the record is taken
back, the file stays. -/
theorem delete_untracks :
    ∃ h c, Run (system (diskService {}) sequentialHost) (.idle { volume := {}, clock := 600000000 })
        h c ∧ (∀ t, (c.prog t).Done) ∧ [97] ∈ c.world.volume.files ∧
      ¬ PublishedTracked (h, c.world) := by
  obtain ⟨h, c, hrun, hidle, hfile, hpub, hpresent, hjob⟩ := exists_run {} sequentialHost
    { volume := {}, clock := 600000000 } cacheAndDelete
    (fun x => allIdle x.2 = true ∧ [97] ∈ x.2.world.volume.files ∧ Published [97] x.1 ∧
      ¬ x.2.world.index.Present [97] ∧ x.2.world.index.job [97] = none) (by decide +kernel)
  refine ⟨h, c, hrun, allIdle_iff.1 hidle, hfile, fun htracked => ?_⟩
  rcases htracked [97] hpub with hp | hp
  · exact hpresent hp
  · exact CacheIndex.mem_pendingJobs.1 hp hjob

end SsdCache
