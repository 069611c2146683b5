import SsdCache.Proof.Owed
import SsdCache.Proof.Sequential
import SsdCache.Spec.Replay

/-!
# A scheduled copy is dropped only for a reason about its file

An access of `p` owes it a copy until a copy of `p` succeeds, its cache file is
removed without error, or a `Delete` event of `p` is recorded (`CopyOwed`).

* `owed_copy_kept`: after every sequence of events and batches, every owed copy has a
  row in `pending_jobs`.
* `eviction_drops_owed_copy`: making room for another file does discard a pending
  job, because `mark_removed` drops the job of the file it evicts.
-/

namespace SsdCache

open Atomic

variable {V : Type} {sv : Service V} {w : World V} {h : History V} {c : State V} {p v : WString}
variable {a : Call}

/-- What a step does about the copy of `p`: the file is cached, removed or deleted. -/
def Clears (p : WString) (l : Event) : Prop := Caches p l ∨ Removes p l ∨ Deletes p l

instance (p : WString) (l : Event) : Decidable (Clears p l) := inferInstanceAs (Decidable (_ ∨ _))

/-- An access of `p` was recorded and nothing cleared the copy it asks for. -/
def CopyOwed (p : WString) (h : History V) : Prop :=
  Since (fun _ _ => Accesses p) (fun _ _ => Clears p) h

instance (p : WString) (h : History V) : Decidable (CopyOwed p h) :=
  inferInstanceAs (Decidable (Since _ _ h))

/-- Every owed copy has a row in `pending_jobs`. -/
def OwedCopiesKept (x : History V × World V) : Prop :=
  ∀ p, CopyOwed p x.1 → p ∈ x.2.index.pendingJobs

/-- The same, and no copy of `v` is owed. -/
def NotOwed (v : WString) (x : History V × World V) : Prop :=
  OwedCopiesKept x ∧ ¬ CopyOwed v x.1

/-- Any run. -/
def anyStep : Condition V := fun _ _ _ => True

/-- **One call keeps the rows of owed copies**, if it drops a row only when no copy of
its path is owed. -/
theorem owedCopies_step {r : Except String a.Answer} {w' : World V} {t : Party}
    (hx : exec sv w a r w') (hI : OwedCopiesKept (h, w))
    (hdrop : ∀ p, dropped (.act t a r) = some p → ¬ CopyOwed p h ∨ Clears p (.act t a r)) :
    OwedCopiesKept ((w, .act t a r) :: h, w') := by
  intro p howed
  have hbefore : CopyOwed p h → w.index.job p ≠ none := fun hp =>
    CacheIndex.mem_pendingJobs.1 (hI p hp)
  exact CacheIndex.mem_pendingJobs.2
    (owed_step id (fun hd => .inr (.inr hd)) (hdrop p) hbefore (exec_job hx p) howed)

theorem owedCopies_tick {clock : ℤ} (hI : OwedCopiesKept (h, w)) :
    OwedCopiesKept ((w, .env) :: h, { w with clock }) := by
  intro p howed
  exact hI p ((since_frame (by simp [Accesses, scheduled, recorded, committed])
    (by simp [Clears, Caches, Removes, Deletes, copyAnswer, removeAnswer])).1 howed)

/-! ## The outline -/

/-- The contract of a party that runs alone. -/
abbrev owedContract (sv : Service V) (t : Party) : Contract calls String (History V × World V) :=
  serialContract sv sequential anyStep (fun _ _ _ _ => True) t

theorem stable_owedCopies {t : Party} : (owedContract sv t).Stable OwedCopiesKept :=
  stable_of_tick fun _ => owedCopies_tick

theorem stable_notOwed {t : Party} : (owedContract sv t).Stable (NotOwed v) :=
  stable_of_tick fun _ hI => ⟨owedCopies_tick hI.1, fun howed => hI.2
    ((since_frame (by simp [Accesses, scheduled, recorded, committed])
      (by simp [Clears, Caches, Removes, Deletes, copyAnswer, removeAnswer])).1 howed)⟩

/-- A call that drops no row. -/
theorem owed_triple {t : Party} (ha : ∀ r, dropped (.act t a r) = none) :
    (owedContract sv t).Triple OwedCopiesKept a
      (onOk (α := a.Answer) (fun _ => OwedCopiesKept) OwedCopiesKept) :=
  serial_triple stable_owedCopies fun {h w r w'} hx _ hI => by
    have hkept : OwedCopiesKept ((w, .act t a r) :: h, w') :=
      owedCopies_step hx hI fun p hd => by rw [ha r] at hd; cases hd
    exact ⟨trivial, onOk_of_forall (fun _ => id) r _ hkept⟩

/-- A call that writes nothing lets no debt begin. -/
theorem notOwed_step {t : Party} {r : Except String a.Answer} {w' : World V}
    (hx : exec sv w a r w') (hI : NotOwed v (h, w)) (hacc : ¬ Accesses v (.act t a r))
    (hdrop : ∀ p, dropped (.act t a r) = some p → ¬ CopyOwed p h ∨ Clears p (.act t a r)) :
    NotOwed v ((w, .act t a r) :: h, w') :=
  ⟨owedCopies_step hx hI.1 hdrop, fun howed => howed.elim hacc fun hc => hI.2 hc.2⟩

/-- A call about `v` that clears its debt and drops no row. -/
theorem notOwed_of_clears {t : Party} {r : Except String a.Answer} {w' : World V}
    (hx : exec sv w a r w') (hI : OwedCopiesKept (h, w)) (hw : a.written r = none)
    (hclear : Clears v (.act t a r)) : NotOwed v ((w, .act t a r) :: h, w') := by
  have hacc : ¬ Accesses v (.act t a r) := by
    simp [Accesses, scheduled, recorded, committed, hw]
  have hdrop : ∀ p, dropped (.act t a r) = some p → ¬ CopyOwed p h ∨ Clears p (.act t a r) := by
    intro p hd
    simp [dropped, committed, hw] at hd
  exact ⟨owedCopies_step hx hI hdrop, fun howed => howed.elim hacc fun hc => hc.1 hclear⟩

/-- A removal of the cache file of `v`; if it is removed, no copy of `v` is owed. -/
theorem owed_remove {cache : WString} :
    (owedContract sv .worker).Triple OwedCopiesKept (.removeCachedFile v cache)
      (onOk (fun (r : RemoveResult) x => if r.Clean then NotOwed v x else OwedCopiesKept x)
        OwedCopiesKept) :=
  serial_triple stable_owedCopies fun {h w r w'} hx _ hI => by
    have hkept : OwedCopiesKept ((w, .act .worker (.removeCachedFile v cache) r) :: h, w') :=
      owedCopies_step hx hI fun p hd => by cases hd
    refine ⟨trivial, ?_⟩
    cases r with
    | error e => exact hkept
    | ok r =>
      dsimp only [onOk]
      split
      · rename_i hc
        exact notOwed_of_clears hx hI rfl (.inr (.inl (removes_act.2 ⟨rfl, hc⟩)))
      · exact hkept

/-- A write that drops the row of `v`, when no copy of `v` is owed. -/
theorem owed_take {u : Update}
    (hu : ∀ q, dropped (.act .worker (.update u) (.ok ())) = some q → q = v) :
    (owedContract sv .worker).Triple (NotOwed v) (.update u)
      (onOk (fun _ => OwedCopiesKept) OwedCopiesKept) :=
  serial_triple stable_notOwed fun {h w r w'} hx _ hI => by
    have hkept : OwedCopiesKept ((w, .act .worker (.update u) r) :: h, w') := by
      refine owedCopies_step hx hI.1 fun p hd => .inl ?_
      cases r with
      | error e => cases hd
      | ok _ =>
        rw [hu p hd]
        exact hI.2
    exact ⟨trivial, onOk_of_forall (fun _ => id) r _ hkept⟩

/-- The rows a batch drops are those of files it copied or removed. -/
def owedBatch (now : ℤ) : BatchOutline (owedContract sv .worker) sv now where
  start := OwedCopiesKept
  loop _ := OwedCopiesKept
  removed v _ := NotOwed v
  missing _ _ := OwedCopiesKept
  failed _ _ := OwedCopiesKept
  erred _ _ := OwedCopiesKept
  retried _ _ := OwedCopiesKept
  cached j _ := NotOwed j.relativePath
  marked j _ := NotOwed j.relativePath
  post := OwedCopiesKept
  thrown := OwedCopiesKept
  due := owed_triple (fun r => by cases r <;> rfl)
  record _ _ := owed_triple (fun r => by cases r <;> rfl)
  victims _ := owed_triple (fun r => by cases r <;> rfl)
  free _ := owed_triple (fun r => by cases r <;> rfl)
  evict v j js _ := owed_remove
  mark v js := owed_take fun q hd => by cases hd; rfl
  copy j js := serial_triple stable_owedCopies fun {h w r w'} hx _ hI => by
    refine ⟨trivial, ?_⟩
    cases r with
    | error e => exact owedCopies_step hx hI fun p hd => by cases hd
    | ok r =>
      have hcleared (hr : CopyAction.Cached (CopyResult.action r)) :=
        notOwed_of_clears hx hI rfl (.inl (caches_act (t := .worker).2 ⟨rfl, hr⟩))
      dsimp only [onOk]
      cases ha : CopyResult.action r <;> simp only [ha] at hcleared ⊢
      case copied => exact hcleared (.inl rfl)
      case skippedSameSize => exact hcleared (.inr (.inl rfl))
      case skippedHashMatch => exact hcleared (.inr (.inr rfl))
      case sourceMissing => exact owedCopies_step hx hI fun p hd => by cases hd
      case failed => exact owedCopies_step hx hI fun p hd => by cases hd
      case cancelled => exact owedCopies_step hx hI fun p hd => by cases hd
  remove j js := owed_remove
  error _ _ _ := owed_triple (fun r => by cases r <;> rfl)
  retry _ _ _ := owed_triple (fun r => by cases r <;> rfl)
  push _ _ := owed_triple (fun r => by cases r <;> rfl)
  cache j js _ _ _ _ := serial_triple stable_notOwed fun {h w r w'} hx _ hI => by
    refine ⟨trivial, ?_⟩
    cases r with
    | error e => exact owedCopies_step hx hI.1 fun p hd => by cases hd
    | ok _ => exact notOwed_step hx hI (fun ha => by cases ha) fun p hd => by cases hd
  drop j js := owed_take fun q hd => by cases hd; rfl
  done := id
  stable_loop _ := stable_owedCopies
  stable_post := stable_owedCopies
  stable_thrown := stable_owedCopies

/-- One call at a time. -/
def owedOutline : SerialOutline sv sequential anyStep where
  keep _ _ _ _ := True
  inv := OwedCopiesKept
  alone hm := sequential_idle hm
  tick _ := owedCopies_tick
  body {t h c o} hm _ hinv := by
    have hcall : OwedCopiesKept ((c.world, .call t o) :: h, c.world) := fun p howed =>
      hinv p ((since_frame (by simp [Accesses, scheduled, recorded, committed])
        (by simp [Clears, Caches, Removes, Deletes, copyAnswer, removeAnswer])).1 howed)
    rcases (sequential_cases hm).2 with ⟨event, rfl, rfl⟩ | ⟨now, rfl, rfl⟩
    · refine (recordEvent_only event).safe stable_owedCopies ?_ hcall
      intro y a r z ha hI hs
      obtain ⟨hx, -, hz⟩ := hs
      obtain ⟨h, w⟩ := y
      obtain ⟨h', w'⟩ := z
      cases hz
      refine ⟨trivial, owedCopies_step hx hI fun p hd => ?_⟩
      have hnone := dropped_events (r := r) ha
      rw [hnone] at hd
      cases hd
    · exact (owedBatch now).body_safe stable_owedCopies id id hcall

/-- **Every owed copy has a row in `pending_jobs`**, after every sequence of events and
batches. -/
theorem owed_copy_kept (hrun : Run (system sv sequential) (.idle w) h c)
    (hidle : ∀ t, (c.prog t).Done) : OwedCopiesKept (h, c.world) :=
  owedOutline.outline.inv_of_run (fun _ hp => absurd hp not_since_nil) hrun
    (meets_of_forall (fun _ _ _ => trivial) h) hidle

/-- A copy that fails stays owed, and keeps its row. -/
theorem owed_copy_kept_on_failure :
    ∃ h c, Run (system (diskService {}) sequential)
        (.idle { volume := { script := [.failed] }, clock := 600000000 }) h c ∧
      CopyOwed [97] h ∧ OwedCopiesKept (h, c.world) := by
  obtain ⟨h, c, hrun, hidle, howed⟩ := exists_run {} sequential
    { volume := { script := [.failed] }, clock := 600000000 }
    (.call .events (.recordEvent { relativePath := [97], observedAt := 0 }) :: steps .events 3 ++
      .call .worker (.runDueOnce 600000000) :: steps .worker 5)
    (fun x => allIdle x.2 = true ∧ CopyOwed [97] x.1) (by decide +kernel)
  exact ⟨h, c, hrun, howed, owed_copy_kept hrun (allIdle_iff.1 hidle)⟩

/-! ## Eviction drops an owed copy -/

/-- A `copy_and_hash(p)` call that returned `SourceMissing`. -/
def SourceGone (p : WString) (l : Event) : Prop :=
  match copyAnswer p l with
  | some (.ok r) => r.action = .sourceMissing
  | _ => False

/-- A call, as opposed to a tick. -/
def IsCall : Event → Prop
  | .act _ _ _ => True
  | _ => False

instance (p : WString) (l : Event) : Decidable (SourceGone p l) :=
  match h : copyAnswer p l with
  | some (.ok r) => decidable_of_iff (r.action = .sourceMissing) (by rw [SourceGone, h])
  | some (.error _) => .isFalse (by rw [SourceGone, h]; exact id)
  | none => .isFalse (by rw [SourceGone, h]; exact id)

instance (l : Event) : Decidable (IsCall l) :=
  match l with
  | .act _ _ _ => .isTrue trivial
  | .call _ _ | .env => .isFalse id

/-- What may clear a copy of `p` if only `p` itself mattered: a removal counts after its
own copy found the source missing. -/
def ClearsOwn (p : WString) : Condition V := fun h _ l =>
  Caches p l ∨ Deletes p l ∨
    (Removes p l ∧ Since (fun _ _ => SourceGone p) (fun _ _ => IsCall) h)

instance (p : WString) (h : History V) (w : World V) (l : Event) : Decidable (ClearsOwn p h w l) :=
  inferInstanceAs (Decidable (_ ∨ _ ∨ (_ ∧ Since _ _ h)))

/-- An access of `p` was recorded and nothing about `p` cleared the copy it asks for. -/
def OwnCopyOwed (p : WString) (h : History V) : Prop :=
  Since (fun _ _ => Accesses p) (ClearsOwn p) h

instance (p : WString) (h : History V) : Decidable (OwnCopyOwed p h) :=
  inferInstanceAs (Decidable (Since _ _ h))

/-- A file is cached and accessed again; before its copy is due, another file is. -/
def evictPending : List (Move Party Operation ℤ) :=
  .call .events (.recordEvent { relativePath := [97], observedAt := 0 }) :: steps .events 3 ++
  .call .worker (.runDueOnce 600000000) :: steps .worker 7 ++
  .call .events (.recordEvent { relativePath := [97], observedAt := 1000000000 }) ::
    steps .events 3 ++
  .call .events (.recordEvent { relativePath := [98], observedAt := 0 }) :: steps .events 3 ++
  .call .worker (.runDueOnce 600000000) :: steps .worker 10

/-- **Making room for one file discards the pending job of another**: the victim's. -/
theorem eviction_drops_owed_copy :
    ∃ h c, Run (system (diskService { minFreeBytes := 1 }) sequential)
        (.idle { volume := {}, clock := 1000000000 }) h c ∧
      (∀ t, (c.prog t).Done) ∧ OwnCopyOwed [97] h ∧ [97] ∉ c.world.index.pendingJobs := by
  obtain ⟨h, c, hrun, hidle, howed, hrow⟩ := exists_run { minFreeBytes := 1 } sequential
    { volume := {}, clock := 1000000000 } evictPending
    (fun x => allIdle x.2 = true ∧ OwnCopyOwed [97] x.1 ∧ x.2.world.index.job [97] = none)
    (by decide +kernel)
  exact ⟨h, c, hrun, allIdle_iff.1 hidle, howed, fun hmem =>
    CacheIndex.mem_pendingJobs.1 hmem hrow⟩

end SsdCache
