import SsdCache.Proof.Pairs
import SsdCache.Spec.Replay

/-!
# The service and a `--free` process on one cache

Each party moves a cache file and then writes its record. Until it does, the record of
that path may be behind; once both are done, index and volume agree if every record was
written while it matched its file, or while the other party was still to write it.

* `agree_step`: a call keeps the agreement of all paths that no party has unrecorded.
* `free_agrees`: when both have finished, index and volume agree.
* `free_disagrees`: without that condition they do not.
-/

namespace SsdCache

open Atomic

variable {V : Type} {sv : Service V} {w w' : World V} {h : History V} {c : State V}
variable {a : Call} {p v : WString} {l : Event} {t u : Party}

/-- The parties that share the cache. -/
def Shares (t : Party) : Prop := t = .worker ∨ t = .freeProcess

/-- The party other than `t` moved the cache file of `p`, and its record is to come. -/
def Awaited (t : Party) (p : WString) (h : History V) : Prop :=
  ∃ u, Shares u ∧ u ≠ t ∧ unrecorded u p h ≠ none

instance (t : Party) (p : WString) (h : History V) : Decidable (Awaited t p h) :=
  decidable_of_iff
    (∃ u ∈ [Party.worker, .freeProcess], u ≠ t ∧ unrecorded u p h ≠ none)
    (exists_congr fun u => and_congr_left fun _ => by simp [Shares])

/-- A record is written while it matches its file, or while the other party's is to come. -/
def Coordinated (sv : Service V) : Condition V := fun h w l =>
  ∀ t ∈ actor l, ∀ q ∈ claim l, (HasCacheFile sv w q.1 ↔ q.2 = true) ∨ Awaited t q.1 h

theorem freeing_cases {o : Operation} (hm : freeing t c o = true) :
    (∃ now, t = .worker ∧ o = .runDueOnce now) ∨
      ∃ targetBytes exclude, t = .freeProcess ∧ o = .free targetBytes exclude := by
  unfold freeing at hm
  split at hm
  · exact .inl ⟨_, rfl, rfl⟩
  · exact .inr ⟨_, _, rfl, rfl⟩
  · cases hm

/-! ## The worker among `--free` processes -/

theorem Call.ByFree.keepsRows {r : Except String a.Answer} (ha : a.ByFree) {q : WString} :
    a.written r ≠ some (.deleteRecord q) := by
  intro hu
  cases Call.eq_of_written hu
  exact ha

theorem pairing_freeing : Pairing sv True ((system sv freeing).contract NoThrow .worker Own
    (fun x a _ _ => Call.ByWorker sv x a) Own.refl Own.trans) where
  rely := id
  step hs := ⟨hs.1, fun _ => hs.2.1, hs.2.2⟩
  keep := id

/-- The worker against the `--free` process. -/
def workerSolo : Solo (system sv freeing) NoThrow .worker where
  quiet := Own
  keep x a _ _ := Call.ByWorker sv x a
  refl := Own.refl
  trans := Own.trans
  inv := Clear .worker True none
  stable hr hx hs p hp := (hr.same p).trans (hx hs p hp)
  call ht := own_call ht
  env he _ := own_env he
  allowed t a := t = .freeProcess ∧ a.ByFree
  others {t c o} ht hm := by
    rcases freeing_cases hm with ⟨now, hw, -⟩ | ⟨b, e, rfl, rfl⟩
    · exact absurd hw ht
    · have honly : (Operation.body sv (.free b e)).Only Call.ByFree :=
        Prog.Only.bind (evict_only _ b e) fun _ => trivial
      exact honly.mono fun ha => ⟨rfl, ha⟩
  quiet_others {t x a r y} ht ha hs := by
    obtain ⟨h, w⟩ := x
    obtain ⟨h', w'⟩ := y
    obtain ⟨hx, -, hz⟩ := hs
    cases hz
    exact own_step (fun heq => ht (Option.some.inj heq)) id fun p =>
      exec_known hx fun q => Call.ByFree.keepsRows ha.2
  body {h c o} hm _ hinv := by
    have hcall : Clear .worker True none ((c.world, .call .worker o) :: h, c.world) := hinv
    rcases freeing_cases hm with ⟨now, -, rfl⟩ | ⟨b, e, ht, -⟩
    · exact (pairBatch pairing_freeing now).body_safe (stable_clear pairing_freeing) id id hcall
    · cases ht

/-! ## The `--free` process -/

/-- What the others leave to `--free`. -/
def FreeOwn (x y : History V × World V) : Prop :=
  ∀ p, unrecorded .freeProcess p y.1 = unrecorded .freeProcess p x.1

/-- The contract of `--free`: its calls are sound. -/
def freeContract (sv : Service V) : Contract calls String (History V × World V) :=
  (system sv freeing).contract NoThrow .freeProcess FreeOwn (fun x a _ _ => Call.Sound sv x.2 a)
    (fun _ _ => rfl) fun hxy hyz p => (hyz p).trans (hxy p)

theorem stable_freeOwn {k : Option WString} :
    (freeContract sv).Stable (Clear .freeProcess True k) := fun _ _ hr hx hs p hp =>
  (hr p).trans (hx hs p hp)

/-- A call of `--free`. -/
theorem free_triple {k : Option WString} {R : a.Answer → History V × World V → Prop}
    (ha : ∀ {w : World V}, a.Sound sv w)
    (hR : ∀ {h : History V} {w r w'}, Clear .freeProcess True k (h, w) →
      R r ((w, .act .freeProcess a (.ok r)) :: h, w')) :
    (freeContract sv).Triple (Clear .freeProcess True k) a
      (onOk (α := a.Answer) R (Clear .freeProcess True none)) :=
  Machine.triple rfl stable_freeOwn fun {h w r w'} hx hc hy => by
    refine ⟨ha, ?_⟩
    cases r with
    | error e => exact absurd trivial hc
    | ok r => exact hR hy

theorem free_query : (freeContract sv).Triple (Clear .freeProcess True none)
    (.query .cachedFilesByLastAccess)
    (onOk (fun _ => Clear .freeProcess True none) (Clear .freeProcess True none)) :=
  free_triple trivial fun hI => clear_recordless rfl hI

/-- A removal of the cache file of `v`. -/
theorem free_remove :
    (freeContract sv).Triple (Clear .freeProcess True none)
      (.removeCachedFile v (sv.pathResolver.cacheAbsolute v))
      (onOk (fun (r : RemoveResult) x =>
        if r.Clean then Clear .freeProcess True (some v) x else Clear .freeProcess True none x)
        (Clear .freeProcess True none)) :=
  free_triple rfl fun {h w r w'} hI => by
    by_cases hr : RemoveResult.Clean r
    · rw [if_pos hr]
      exact clear_of_about rfl hI
    · rw [if_neg hr]
      exact clear_of_still (fun _ => id) (fun p hrem => hr (removes_act.1 hrem).2) rfl hI

/-- The record of `v` is written. -/
theorem free_mark : (freeContract sv).Triple (Clear .freeProcess True (some v))
    (.update (.markRemoved v))
    (onOk (fun _ => Clear .freeProcess True none) (Clear .freeProcess True none)) :=
  free_triple trivial fun hI => clear_of_claim hI rfl (fun _ => id) (fun _ => id) rfl

/-- **The loop over the victims** leaves nothing unrecorded, by induction on them. -/
theorem evictFiles_safe (b : UInt64) (e : WString) : ∀ (victims : List CachedFileRef)
    (result : EvictionResult) {x : History V × World V}, Clear .freeProcess True none x →
      (evictFiles sv.pathResolver b e victims result).Safe (freeContract sv)
        (onOk (fun _ => Clear .freeProcess True none) (Clear .freeProcess True none)) x := by
  have thrown (e : String) : ∀ z, Clear .freeProcess True none z → ∀ z', (freeContract sv).rely z z' →
      onOk (fun (_ : EvictionResult) => Clear .freeProcess True none) (Clear .freeProcess True none)
        (.error e) z' := fun z hz z' hr => stable_freeOwn hr hz
  intro victims
  induction victims with
  | nil => exact fun _ _ hx => Prog.safe_ret stable_freeOwn hx
  | cons v vs ih =>
    intro result x hx
    rw [evictFiles]
    split
    · exact Prog.safe_ret stable_freeOwn hx
    · split
      · exact ih result hx
      · refine Prog.safe_perform free_remove hx (fun (r : RemoveResult) z hz => ?_) thrown
        dsimp only [onOk] at hz
        by_cases hr : r.Clean
        · rw [if_pos hr] at hz ⊢
          exact Prog.safe_perform free_mark hz (fun _ z hz => ih _ hz) thrown
        · rw [if_neg hr] at hz ⊢
          exact ih result hz

/-- **So does the whole operation.** -/
theorem evict_safe (b : UInt64) (e : WString) {x : History V × World V} (hx : Clear .freeProcess True none x) :
    (evictLeastRecentlyUsed sv.pathResolver b e).Safe (freeContract sv)
      (onOk (fun _ => Clear .freeProcess True none) (Clear .freeProcess True none)) x := by
  unfold evictLeastRecentlyUsed
  split
  · exact Prog.safe_ret stable_freeOwn hx
  · exact Prog.safe_perform free_query hx
      (fun victims z hz => evictFiles_safe b e victims {} hz) fun _ z hz z' hr => stable_freeOwn hr hz

/-- The `--free` process against the worker. -/
def freeSolo : Solo (system sv freeing) NoThrow .freeProcess where
  quiet := FreeOwn
  keep x a _ _ := Call.Sound sv x.2 a
  refl _ _ := rfl
  trans hxy hyz p := (hyz p).trans (hxy p)
  inv := Clear .freeProcess True none
  stable hr hx hs p hp := (hr p).trans (hx hs p hp)
  call _ _ := rfl
  env _ _ _ := rfl
  allowed _ _ := True
  others _ _ := Prog.only_of_forall (fun _ => trivial) _
  quiet_others {t x a r y} ht _ hs p := by
    obtain ⟨-, -, hz⟩ := hs
    rw [hz]
    exact unrecorded_act_ne ht
  body {h c o} hm hc hinv := by
    have hcall : Clear .freeProcess True none ((c.world, .call .freeProcess o) :: h, c.world) := hinv
    rcases freeing_cases hm with ⟨now, ht, -⟩ | ⟨b, e, -, rfl⟩
    · cases ht
    · refine Prog.safe_bind (Prog.safe_mono (fun r z hz => ?_) (evict_safe b e hcall))
      cases r with
      | ok v => exact fun y hy => stable_freeOwn hy hz
      | error e => exact fun y hy => stable_freeOwn hy hz

/-! ## Files and records -/

/-- The calls are sound, and of the two parties. -/
def SoundCalls (sv : Service V) : Condition V := fun _ w l =>
  ∀ t (a : Call) r, l = .act t a r → Shares t ∧ a.Sound sv w

theorem soundCalls_of_run (hrun : Run (system sv freeing) (.idle w) h c)
    (hm : Meets NoThrow h) : Meets (SoundCalls sv) h := by
  have h0 (t : Party) : Clear t True none (([] : History V), w) := fun _ _ _ => rfl
  have hworker : Meets (fun h w l => ∀ t (a : Call) r, l = .act t a r →
      (t = .worker ∧ Call.Sound sv w a) ∨ t = .freeProcess) h := by
    refine workerSolo.meets_of_run ?_ ?_ ?_ ?_ (h0 .worker) hrun hm
    · rintro h w a r y hkeep _ _ _ ⟨⟩
      exact .inl ⟨rfl, hkeep.sound⟩
    · rintro t h w a r ht ha _ _ _ ⟨⟩
      exact .inr ha.1
    · rintro t h w o _ _ _ ⟨⟩
    · rintro h w _ _ _ ⟨⟩
  have hfree : Meets (fun h w l => ∀ t (a : Call) r, l = .act t a r →
      t = .freeProcess → Call.Sound sv w a) h := by
    refine freeSolo.meets_of_run ?_ ?_ ?_ ?_ (h0 .freeProcess) hrun hm
    · rintro h w a r y hkeep _ _ _ ⟨⟩ -
      exact hkeep
    · rintro t h w a r ht ha _ _ _ ⟨⟩ heq
      exact absurd heq ht
    · rintro t h w o _ _ _ ⟨⟩
    · rintro h w _ _ _ ⟨⟩
  refine (hworker.and hfree).mono fun hl t a r heq => ?_
  rcases hl.1 t a r heq with ⟨ht, ha⟩ | ht
  · exact ⟨.inl ht, ha⟩
  · exact ⟨.inr ht, hl.2 t a r heq ht⟩

/-- Index and volume agree, but for the paths that a party has not recorded. -/
def AgreeBut (sv : Service V) (x : History V × World V) : Prop :=
  ∀ p, (x.2.index.Present p ↔ HasCacheFile sv x.2 p) ∨
    ∃ t, Shares t ∧ unrecorded t p x.1 ≠ none

/-- **A call keeps the agreement**: a file that moved is unrecorded, and a record that is
written matches its file or is to be written again. -/
theorem agree_step (hE : sv.platform.HonoursInterface)
    (hinj : Function.Injective sv.pathResolver.cacheAbsolute) {r : Except String a.Answer}
    (hx : exec sv w a r w') (hok : ¬ Throws (.act t a r)) (ht : Shares t) (ha : a.Sound sv w)
    (hc : Coordinated sv h w (.act t a r)) (hI : AgreeBut sv (h, w)) :
    AgreeBut sv (acted w t r h, w') := by
  intro p
  by_cases hcache : Caches p (.act t a r)
  · exact .inr ⟨t, ht, by rw [unrecorded_of_caches rfl hcache]; exact Option.some_ne_none _⟩
  by_cases hrem : Removes p (.act t a r)
  · exact .inr ⟨t, ht, by rw [unrecorded_of_removes rfl hcache hrem]; exact Option.some_ne_none _⟩
  have hfile := file_frame hE hinj hx (.inr hok) ha hcache hrem
  by_cases hcl : claimed (.act t a r) = some p
  · obtain ⟨⟨q, k⟩, hq, heq⟩ := Option.map_eq_some_iff.1 hcl
    cases heq
    rcases hc t rfl _ hq with hmatch | ⟨u, hu, hne, hawaited⟩
    · exact .inl ((present_of_claim hx ha hq).trans (hmatch.symm.trans hfile.symm))
    · exact .inr ⟨u, hu, by rwa [unrecorded_act_ne hne.symm]⟩
  · refine (hI p).imp (fun hp => ?_) fun ⟨u, hu, hne⟩ => ⟨u, hu, ?_⟩
    · exact (present_frame hx ha hcl).trans (hp.trans hfile.symm)
    · rwa [unrecorded_frame hcache hrem hcl]

/-- **Index and volume agree when both parties have finished**, in every interleaving in
which records are written in coordination. -/
theorem free_agrees (hE : sv.platform.HonoursInterface)
    (hinj : Function.Injective sv.pathResolver.cacheAbsolute) (h0 : Agree sv w)
    (hrun : Run (system sv freeing) (.idle w) h c) (hs : Meets NoThrow h)
    (hm : Meets (Coordinated sv) h) (hidle : ∀ t, (c.prog t).Done) : Agree sv c.world := by
  have hbut : AgreeBut sv (h, c.world) := by
    refine hrun.invariant (I := fun h c => AgreeBut sv (h, c.world)) (fun p => .inl (h0 p)) ?_
      ((soundCalls_of_run hrun hs).and (hs.and hm))
    intro h c l c' hI hc hstep
    cases hstep with
    | call hd hmenu => exact hI
    | @act t a k r w' hk hx =>
      obtain ⟨ht, ha⟩ := hc.1 t a r rfl
      exact agree_step hE hinj hx hc.2.1 ht ha hc.2.2 hI
    | env he =>
      obtain ⟨clock, -, rfl⟩ := he
      exact hI
  have hclear (t : Party) : Clear t True none (([] : History V), w) := fun _ _ _ => rfl
  intro p
  rcases hbut p with hp | ⟨t, rfl | rfl, hne⟩
  · exact hp
  · exact absurd (workerSolo.inv_of_run (hclear _) hrun hs (hidle _) trivial p nofun) hne
  · exact absurd (freeSolo.inv_of_run (hclear _) hrun hs (hidle _) trivial p nofun) hne

/-! ## One cached file -/

/-- A cached file with a due job. -/
def sharedWorld : World Disk where
  index := (({} : CacheIndex).recordAccess { relativePath := [97], observedAt := 0 } 60).markCached
    [97] 1 1 "" 0
  volume := { files := [[97]] }
  clock := 600000000

theorem agree_sharedWorld : Agree (diskService {}) sharedWorld := by
  intro p
  constructor
  · intro hp
    have hmem : p ∈ sharedWorld.index.loadRecordPaths :=
      CacheIndex.mem_loadRecordPaths.2 (by rw [hp]; exact Option.some_ne_none _)
    exact (by decide +kernel : ∀ q ∈ sharedWorld.index.loadRecordPaths, q ∈ sharedWorld.volume.files)
      p hmem
  · intro hp
    obtain rfl : p = [97] := List.mem_singleton.1 hp
    decide +kernel

instance (settings : SchedulerSettings) (w : World Disk) (p : WString) :
    Decidable (HasCacheFile (diskService settings) w p) :=
  inferInstanceAs (Decidable (p ∈ w.volume.files))

instance (settings : SchedulerSettings) (h : History Disk) (w : World Disk) (l : Event) :
    Decidable (Coordinated (diskService settings) h w l) := inferInstanceAs (Decidable (∀ t ∈ _, _))

/-- `--free` lists the file, the worker copies it, `--free` removes it; `marked` tells
whether the worker writes its record before the removal. -/
def freeSchedule (marked : Bool) : List (Move Party Operation ℤ) :=
  .call .freeProcess (.free 1 []) :: steps .freeProcess 1 ++
  .call .worker (.runDueOnce 600000000) :: steps .worker (if marked then 3 else 2) ++
  steps .freeProcess 2 ++ steps .worker (if marked then 1 else 2)

theorem free_agrees_after_eviction :
    ∃ h c, Run (system (diskService {}) freeing) (.idle sharedWorld) h c ∧
      Once (fun _ _ => Removes [97]) h ∧ Once (fun _ _ => Caches [97]) h ∧
      Agree (diskService {}) c.world := by
  obtain ⟨h, c, hrun, hs, hm, hidle, hremoved, hcached⟩ := exists_run {} freeing sharedWorld
    (freeSchedule true)
    (fun x => Meets NoThrow x.1 ∧ Meets (Coordinated (diskService {})) x.1 ∧ allIdle x.2 = true ∧
      Once (fun _ _ => Removes [97]) x.1 ∧ Once (fun _ _ => Caches [97]) x.1) (by decide +kernel)
  exact ⟨h, c, hrun, hremoved, hcached, free_agrees Disk.honoursInterface Function.injective_id
    agree_sharedWorld hrun hs hm (allIdle_iff.1 hidle)⟩

/-- **The worker and `--free` can leave a record of a file that is gone**: `--free` removes
the file and its record between the worker's copy and its `mark_cached`. -/
theorem free_disagrees :
    ∃ h c, Run (system (diskService {}) freeing) (.idle sharedWorld) h c ∧
      Agree (diskService {}) sharedWorld ∧ Meets NoThrow h ∧ (∀ t, (c.prog t).Done) ∧
      ¬ Agree (diskService {}) c.world := by
  obtain ⟨h, c, hrun, hs, hidle, hpresent, hgone⟩ := exists_run {} freeing sharedWorld
    (freeSchedule false)
    (fun x => Meets NoThrow x.1 ∧ allIdle x.2 = true ∧ x.2.world.index.Present [97] ∧
      ¬ HasCacheFile (diskService {}) x.2.world [97]) (by decide +kernel)
  exact ⟨h, c, hrun, agree_sharedWorld, hs, allIdle_iff.1 hidle, fun hagree =>
    hgone ((hagree [97]).1 hpresent)⟩

end SsdCache
