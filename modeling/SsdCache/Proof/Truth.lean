import SsdCache.Proof.Pairs
import SsdCache.Spec.Replay

/-!
# The index never claims a cache file that is not there

Only the worker moves cache files, and the other threads only ever take records back. A
file that the worker has not recorded yet is as the worker left it; every other record
with `cache_present=1` has its file (`FilesKept`).

* `filesKept_of_run`: this holds after every step.
* `index_truthful`: whenever the worker is outside a batch, every record with
  `cache_present=1` has its file.
-/

namespace SsdCache

open Atomic

variable {V : Type} {sv : Service V} {w w' : World V} {h : History V} {c : State V}
variable {a : Call} {p : WString} {l : Event} {t : Party} {strict : Prop}

/-- If `strict`, no call throws. -/
def Returning (strict : Prop) : Condition V := fun _ _ l => strict → ¬ Throws l

/-! ## The worker among the other threads -/

theorem Call.ByOthers.keepsRows {r : Except String a.Answer} (ha : a.ByOthers t) {q : WString} :
    a.written r ≠ some (.deleteRecord q) := by
  intro hu
  cases Call.eq_of_written hu
  cases t <;> exact ha

theorem pairing_worker : Pairing sv strict ((system sv concurrent).contract (Returning strict)
    .worker Own (fun x a _ _ => Call.ByWorker sv x a) Own.refl Own.trans) where
  rely := id
  step hs := ⟨hs.1, hs.2.1, hs.2.2⟩
  keep := id

/-- The worker against the other threads. -/
def pairSolo : Solo (system sv concurrent) (Returning strict) .worker where
  quiet := Own
  keep x a _ _ := Call.ByWorker sv x a
  refl := Own.refl
  trans := Own.trans
  inv := Clear .worker strict none
  stable hr hx hs p hp := (hr.same p).trans (hx hs p hp)
  call ht := own_call ht
  env he _ := own_env he
  allowed := Call.ByOthers
  others := concurrent_others
  quiet_others {t x a r y} ht ha hs := by
    obtain ⟨h, w⟩ := x
    obtain ⟨h', w'⟩ := y
    obtain ⟨hx, -, hz⟩ := hs
    cases hz
    exact own_step (fun heq => ht (Option.some.inj heq)) id fun p =>
      exec_known hx fun q => Call.ByOthers.keepsRows ha
  body {h c o} hm _ hinv := by
    have hcall : Clear .worker strict none ((c.world, .call .worker o) :: h, c.world) := hinv
    rcases concurrent_cases hm with ⟨event, ht, -⟩ | ⟨now, -, rfl⟩ | ⟨-, rfl⟩ | ⟨ht, -⟩
    · cases ht
    · exact (pairBatch pairing_worker now).body_safe (stable_clear pairing_worker) id id hcall
    · exact (pairWorker pairing_worker).safe hcall
    · cases ht

/-- Who makes which calls. -/
def CallsKept (sv : Service V) : Condition V := fun h w l =>
  ∀ t (a : Call) r, l = .act t a r →
    (t = .worker ∧ Call.ByWorker sv (h, w) a) ∨ (t ≠ .worker ∧ a.ByOthers t)

theorem callsKept_of_run (hrun : Run (system sv concurrent) (.idle w) h c)
    (hm : Meets (Returning strict) h) : Meets (CallsKept sv) h := by
  have h0 : Clear .worker strict none (([] : History V), w) := fun _ _ _ => rfl
  refine pairSolo.meets_of_run ?_ ?_ ?_ ?_ h0 hrun hm
  · rintro h w a r y hkeep _ _ _ ⟨⟩
    exact .inl ⟨rfl, hkeep⟩
  · rintro t h w a r ht ha _ _ _ ⟨⟩
    exact .inr ⟨ht, ha⟩
  · rintro t h w o _ _ _ ⟨⟩
  · rintro h w _ _ _ ⟨⟩

/-! ## Files and records -/

/-- A file the worker has not recorded is as the worker left it; every other record with
`cache_present=1` has its file. -/
structure FilesKept (sv : Service V) (x : History V × World V) : Prop where
  moved : ∀ {p b}, unrecorded .worker p x.1 = some b → (HasCacheFile sv x.2 p ↔ b = true)
  truthful : ∀ {p}, unrecorded .worker p x.1 = none → x.2.index.Present p → HasCacheFile sv x.2 p

/-- A call of another thread leaves the cache volume. -/
theorem exec_volume_others {r : Except String a.Answer} (hx : exec sv w a r w')
    (ha : a.ByOthers t) : w'.volume = w.volume := by
  refine exec_volume hx ?_
  cases a with
  | copyAndHash p s c m => cases t <;> exact ha.elim
  | removeCachedFile p c => cases t <;> exact ha.elim
  | _ => exact id

/-- It puts no record to present. -/
theorem exec_present_others {r : Except String a.Answer} (hx : exec sv w a r w')
    (ha : a.ByOthers t) (hp : w'.index.Present p) : w.index.Present p := by
  refine exec_present hx (fun q s c hash time heq => ?_) hp
  -- no other thread calls `mark_cached`
  subst heq
  cases t <;> exact ha.elim

/-- **A call of another thread** moves no file and puts no record to present. -/
theorem filesKept_others {r : Except String a.Answer} (hx : exec sv w a r w') (ht : t ≠ .worker)
    (ha : a.ByOthers t) (hI : FilesKept sv (h, w)) : FilesKept sv (acted w t r h, w') := by
  have hsame : ∀ p, unrecorded .worker p (acted w t r h) = unrecorded .worker p h :=
    fun p => unrecorded_act_ne ht
  have hvolume : w'.volume = w.volume := exec_volume_others hx ha
  constructor
  · intro p b hb
    unfold HasCacheFile
    rw [hvolume]
    exact hI.moved ((hsame p).symm.trans hb)
  · intro p hnone hp
    unfold HasCacheFile
    rw [hvolume]
    exact hI.truthful ((hsame p).symm.trans hnone) (exec_present_others hx ha hp)

/-- **A call of the worker.** -/
theorem filesKept_worker (hE : sv.platform.HonoursInterface)
    (hinj : Function.Injective sv.pathResolver.cacheAbsolute) {r : Except String a.Answer}
    (hx : exec sv w a r w') (hok : sv.platform.KeepsOnThrow ∨ ¬ Throws (.act .worker a r))
    (ha : Call.ByWorker sv (h, w) a) (hI : FilesKept sv (h, w)) :
    FilesKept sv (acted w .worker r h, w') := by
  have key : ∀ p, (∀ b, unrecorded .worker p (acted w .worker r h) = some b →
      (HasCacheFile sv w' p ↔ b = true)) ∧ (unrecorded .worker p (acted w .worker r h) = none →
        w'.index.Present p → HasCacheFile sv w' p) := by
    intro p
    by_cases hc : Caches p (.act .worker a r)
    · have hfile := file_of_caches hE hx ha.sound hc
      rw [unrecorded_of_caches rfl hc]
      exact ⟨fun b hb => by cases hb; exact iff_of_true hfile rfl, fun _ _ => hfile⟩
    by_cases hr : Removes p (.act .worker a r)
    · have hfile := file_of_removes hE hx ha.sound hr
      rw [unrecorded_of_removes rfl hc hr]
      exact ⟨fun b hb => by cases hb; exact iff_of_false hfile Bool.false_ne_true, nofun⟩
    have hfile := file_frame hE hinj hx hok ha.sound hc hr
    by_cases hcl : claimed (.act .worker a r) = some p
    · -- the record is written: `mark_cached` says what the worker published
      rw [unrecorded_of_claimed rfl hc hr hcl]
      refine ⟨nofun, fun _ hp => hfile.2 ?_⟩
      rcases claimed_update hcl with ⟨s, c, hash, time, rfl⟩ | rfl
      · exact (hI.moved (ha.published rfl)).2 rfl
      · cases r with
        | error e => cases hcl
        | ok _ => exact absurd ((present_of_claim (t := .worker) hx ha.sound rfl).1 hp) Bool.false_ne_true
    · rw [unrecorded_frame hc hr hcl, hfile, present_frame hx ha.sound hcl]
      exact ⟨fun b => hI.moved, hI.truthful⟩
  exact ⟨fun {p b} => (key p).1 b, fun {p} => (key p).2⟩

/-- **After every step the files are as the records and the worker left them.** -/
theorem filesKept_of_run (hE : sv.platform.HonoursInterface)
    (hinj : Function.Injective sv.pathResolver.cacheAbsolute) (h0 : Truthful sv w)
    (hrun : Run (system sv concurrent) (.idle w) h c) (hm : Meets (Returning strict) h)
    (hT : sv.platform.KeepsOnThrow ∨ strict) : FilesKept sv (h, c.world) := by
  have hkept := (callsKept_of_run hrun hm).and hm
  refine hrun.invariant (I := fun h c => FilesKept sv (h, c.world)) ?_ ?_ hkept
  · exact ⟨nofun, fun {p} _ => h0 p⟩
  · intro h c l c' hI hc hs
    cases hs with
    | call hd hmenu => exact ⟨hI.moved, hI.truthful⟩
    | @act t a k r w' hk hx =>
      rcases hc.1 t a r rfl with ⟨rfl, ha⟩ | ⟨ht, ha⟩
      · exact filesKept_worker hE hinj hx (hT.imp id hc.2) ha hI
      · exact filesKept_others hx ht ha hI
    | env he =>
      obtain ⟨clock, -, rfl⟩ := he
      exact ⟨hI.moved, hI.truthful⟩

/-- What the worker has not recorded, it moved in the batch it is in. -/
theorem inBatch_of_unrecorded (hrun : Run (system sv concurrent) (.idle w) h c)
    (hm : Meets (Returning True) h) (hp : unrecorded .worker p h ≠ none) : InBatch h := by
  have h0 : Clear .worker True none (([] : History V), w) := fun _ _ _ => rfl
  induction hrun with
  | init => exact absurd rfl hp
  | @step h c c' l hrun hs ih =>
    cases hs with
    | @call t o hd hmenu =>
      have hp : unrecorded .worker p h ≠ none := by
        rwa [unrecorded_other (l := .call t o) nofun] at hp
      by_cases ht : t = .worker
      · subst ht
        exact absurd (pairSolo.inv_of_run h0 hrun hm.2 hd trivial p nofun) hp
      · exact inBatch_cons (not_workerCalls ht) (ih hm.2 hp)
    | @act t a k r w' hk hx =>
      by_cases hp' : unrecorded .worker p h = none
      · obtain ⟨rfl, hengine⟩ := unrecorded_of_engine hp hp'
        rcases (callsKept_of_run (.step hrun (.act hk hx)) hm).1 _ a r rfl with ⟨-, ha⟩ | ⟨ht, -⟩
        · exact inBatch_cons id (ha.batch hengine)
        · exact absurd rfl ht
      · exact inBatch_cons id (ih hm.2 hp')
    | env he =>
      rw [unrecorded_other (l := .env) nofun] at hp
      exact inBatch_cons id (ih hm.2 hp)

/-- **The index never claims a cache file that is not there**, whenever the worker is
outside a batch. -/
theorem index_truthful (hE : sv.platform.HonoursInterface)
    (hinj : Function.Injective sv.pathResolver.cacheAbsolute) (h0 : Truthful sv w)
    (hrun : Run (system sv concurrent) (.idle w) h c) (hm : Meets NoThrow h)
    (hd : OutsideBatch h c) : Truthful sv c.world := by
  have hm' : Meets (Returning True) h := hm.mono fun hl _ => hl
  refine fun p => (filesKept_of_run hE hinj h0 hrun hm' (.inr trivial)).truthful ?_
  by_contra hp
  rcases hd with hd | hout
  · exact hp (pairSolo.inv_of_run (fun _ _ _ => rfl) hrun hm' hd trivial p nofun)
  · exact hout (inBatch_of_unrecorded hrun hm' hp)

/-- A file is cached, then evicted to make room for another one. -/
def evictionSchedule : List (Move Party Operation ℤ) :=
  .call .events (.recordEvent { relativePath := [97], observedAt := 0 }) :: steps .events 3 ++
  .call .worker (.runDueOnce 600000000) :: steps .worker 7 ++
  .call .events (.recordEvent { relativePath := [98], observedAt := 0 }) :: steps .events 3 ++
  .call .worker (.runDueOnce 600000000) :: steps .worker 10

theorem index_truthful_after_eviction :
    ∃ h c, Run (system (diskService { minFreeBytes := 1 }) concurrent)
        (.idle { volume := {}, clock := 600000000 }) h c ∧
      c.world.index.Present [98] ∧ ¬ c.world.index.Present [97] ∧
      Truthful (diskService { minFreeBytes := 1 }) c.world := by
  obtain ⟨h, c, hrun, hm, hidle, hnew, hold⟩ := exists_run { minFreeBytes := 1 } concurrent
    { volume := {}, clock := 600000000 } evictionSchedule
    (fun x => Meets NoThrow x.1 ∧ allIdle x.2 = true ∧ x.2.world.index.Present [98] ∧
      ¬ x.2.world.index.Present [97]) (by decide +kernel)
  have h0 : Truthful (diskService { minFreeBytes := 1 }) { volume := {}, clock := 600000000 } := by
    intro p hp
    simp [CacheIndex.Present, CacheIndex.status] at hp
  exact ⟨h, c, hrun, hnew, hold, index_truthful Disk.honoursInterface Function.injective_id h0 hrun hm
    (.inl (allIdle_iff.1 hidle .worker))⟩

end SsdCache
