import SsdCache.Atomic.Local
import SsdCache.Proof.CopyResults
import SsdCache.Proof.Freeing
import SsdCache.Spec.Config

/-!
# The stored digest is the one of the cached file

A party that has copied or removed a cache file writes the record of it next, with what the
engine has answered (`recording`). Between the two the record may be behind; at any other time
the digest it holds is the one of the file.

* `digestKept_step`: a call keeps the digest, while it waits and once it is recorded.
* `digest_of_run`: so it is in every state of a run, for every engine that reports digests.
* `stored_digest`: and for the Windows engine.
-/

namespace SsdCache

open Atomic

variable {V : Type} {sv : Service V} {w w' : World V} {h : History V} {c : State V}
variable {a : Call} {p q : WString} {l : Event} {t : Party}

/-! ## Recording -/

/-- The path of the cache file that a write is about. -/
def Update.file : Update → Option WString
  | .markCached p _ _ _ _ | .markRemoved p => some p
  | _ => none

/-- The record to write once a file was copied or removed. -/
def Call.owes : (a : Call) → Except String a.Answer → Option Update
  | .copyAndHash p _ _ _, .ok (r : CopyResult) =>
    if r.action.Cached then
      some (.markCached p r.sourceSizeBytes r.cachedSizeBytes r.hashHex r.completedAt)
    else none
  | .removeCachedFile p _, .ok (r : RemoveResult) => if r.Clean then some (.markRemoved p) else none
  | _, _ => none

theorem Call.owes_error (e : String) : a.owes (.error e) = none := by
  cases a <;> rfl

theorem owes_copy {s cache : WString} {m : Bool} {r : Except String CopyResult} {u : Update}
    (h : (Call.copyAndHash p s cache m).owes r = some u) :
    ∃ result : CopyResult, r = .ok result ∧ result.action.Cached ∧
      u = .markCached p result.sourceSizeBytes result.cachedSizeBytes result.hashHex
        result.completedAt := by
  cases r with
  | error e => cases h
  | ok result =>
    obtain ⟨hcached, hu⟩ := Option.ite_none_right_eq_some.1 h
    exact ⟨result, rfl, hcached, (Option.some.inj hu).symm⟩

theorem owes_remove {cache : WString} {r : Except String RemoveResult} {u : Update}
    (h : (Call.removeCachedFile p cache).owes r = some u) :
    ∃ result : RemoveResult, r = .ok result ∧ result.Clean ∧ u = .markRemoved p := by
  cases r with
  | error e => cases h
  | ok result =>
    obtain ⟨hclean, hu⟩ := Option.ite_none_right_eq_some.1 h
    exact ⟨result, rfl, hclean, (Option.some.inj hu).symm⟩

/-- A party that has copied or removed a file records it before it does anything else. -/
def recording (sv : Service V) : Protocol calls String (Option Update) where
  rest := none
  next _ a r := Call.owes a r
  allows
    | some u, a => a = .update u
    | none, .copyAndHash p _ c _ | none, .removeCachedFile p c => c = sv.pathResolver.cacheAbsolute p
    | none, .update (.markCached _ _ _ _ _) => False
    | none, _ => True
  answers _ _ := True

/-- With a record to write, a party only writes it. -/
theorem recording_rests {m : Option Update} (h : (recording sv).allows m a)
    (ha : ∀ u, a ≠ .update u) : m = none := by
  cases m with
  | none => rfl
  | some u => exact absurd h (ha u)

/-- The calls that move no file, and record no copy. -/
def Call.Unmoving : Call → Prop
  | .copyAndHash _ _ _ _ | .removeCachedFile _ _ | .update (.markCached _ _ _ _ _) => False
  | _ => True

theorem Call.Unmoving.allowed (ha : a.Unmoving) :
    (recording sv).allows none a ∧ ∀ r, (recording sv).next none a r = none := by
  cases a with
  | copyAndHash => exact ha.elim
  | removeCachedFile => exact ha.elim
  | update u =>
    refine ⟨?_, fun r => by cases r <;> rfl⟩
    cases u with
    | markCached => exact ha.elim
    | _ => trivial
  | query => exact ⟨trivial, fun r => by cases r <;> rfl⟩
  | freeBytes => exact ⟨trivial, fun r => by cases r <;> rfl⟩
  | memory => exact ⟨trivial, fun r => by cases r <;> rfl⟩

theorem Call.ByEvents.unmoving (ha : a.ByEvents) : a.Unmoving := by
  cases a with
  | update u =>
    cases u with
    | markCached => exact ha.elim
    | _ => trivial
  | copyAndHash => exact ha.elim
  | removeCachedFile => exact ha.elim
  | _ => trivial

theorem Call.ByControl.unmoving (ha : a.ByControl) : a.Unmoving := by
  cases a with
  | update u => exact ha.elim
  | copyAndHash => exact ha.elim
  | removeCachedFile => exact ha.elim
  | _ => trivial

theorem recording_unmoving {α : Type} {c : Task α} (hc : c.Only Call.Unmoving) :
    (recording sv).Follows c none :=
  Protocol.follows_only hc fun ha => ha.allowed

theorem recording_call {a : Call} (ha : a.Unmoving) :
    (recording sv).Follows (Prog.perform (S := calls) a : Task a.Answer) none :=
  recording_unmoving (Prog.only_perform ha)

/-- The record is written, and then the rest. -/
theorem recording_write {α : Type} {u : Update} {f : Unit → Task α}
    (hf : (recording sv).Follows (f ()) none) :
    (recording sv).Follows (Prog.bind (update u) f) (some u) := by
  refine Protocol.follows_call rfl fun r _ => ?_
  cases r with
  | ok v => exact hf
  | error e => exact Protocol.follows_throw e

/-- A call that moves a file, with what is owed after its answers. -/
theorem recording_moving {α : Type} {f : a.Answer → Task α} {P : a.Answer → Prop}
    {u : a.Answer → Update} (hallow : (recording sv).allows none a)
    (hmoved : ∀ v, P v → a.owes (.ok v) = some (u v)) (hkept : ∀ v, ¬ P v → a.owes (.ok v) = none)
    (hwrite : ∀ v, P v → (recording sv).Follows (f v) (some (u v)))
    (hgoes : ∀ v, ¬ P v → (recording sv).Follows (f v) none) :
    (recording sv).Follows (Prog.bind (Prog.perform (S := calls) a) f) none := by
  refine Protocol.follows_call hallow fun r _ => ?_
  cases r with
  | error e =>
    change (recording sv).Follows (Prog.throw e) (a.owes (.error e))
    rw [Call.owes_error]
    exact Protocol.follows_throw e
  | ok v =>
    change (recording sv).Follows (f v) (a.owes (.ok v))
    by_cases hv : P v
    · rw [hmoved v hv]
      exact hwrite v hv
    · rw [hkept v hv]
      exact hgoes v hv

theorem recording_remove {α : Type} {f : RemoveResult → Task α}
    (hclean : ∀ r, RemoveResult.Clean r → (recording sv).Follows (f r) (some (.markRemoved p)))
    (hkept : ∀ r, ¬ RemoveResult.Clean r → (recording sv).Follows (f r) none) :
    (recording sv).Follows (Prog.bind (Prog.perform (S := calls)
      (.removeCachedFile p (sv.pathResolver.cacheAbsolute p))) f) none :=
  recording_moving rfl (fun _ hr => if_pos hr) (fun _ hr => if_neg hr) hclean hkept

theorem recording_copy {α : Type} {s : WString} {m : Bool} {f : CopyResult → Task α}
    (hcached : ∀ r, CopyAction.Cached r.action → (recording sv).Follows (f r)
      (some (.markCached p r.sourceSizeBytes r.cachedSizeBytes r.hashHex r.completedAt)))
    (hkept : ∀ r, ¬ CopyAction.Cached r.action → (recording sv).Follows (f r) none) :
    (recording sv).Follows (Prog.bind (Prog.perform (S := calls)
      (.copyAndHash p s (sv.pathResolver.cacheAbsolute p) m)) f) none :=
  recording_moving rfl (fun _ hr => if_pos hr) (fun _ hr => if_neg hr) hcached hkept

/-! ## The operations -/

theorem evictVictims_recording (required : UInt64) :
    ∀ (victims : List CachedFileRef) (free : UInt64),
      (recording sv).Follows (evictVictims sv p required victims free) none := by
  intro victims
  induction victims with
  | nil => exact fun _ => Protocol.follows_ret ()
  | cons v vs ih =>
    intro free
    rw [evictVictims]
    split
    · exact Protocol.follows_ret ()
    · split
      · exact ih free
      · refine recording_remove (fun r hr => ?_) fun r hr => ?_
        · rw [if_pos hr]
          exact recording_write (Protocol.Follows.bind (recording_call trivial) fun updated => ih _)
        · rw [if_neg hr]
          exact ih free

theorem makeRoomFor_recording : (recording sv).Follows (makeRoomFor sv p) none := by
  unfold makeRoomFor
  split
  · exact Protocol.follows_ret ()
  · refine Protocol.Follows.bind (recording_call trivial) fun record => ?_
    refine Protocol.Follows.bind (recording_call trivial) fun (free : Option UInt64) => ?_
    cases free with
    | none => exact Protocol.follows_ret ()
    | some free =>
      dsimp only
      split
      · exact Protocol.follows_ret ()
      · exact Protocol.Follows.bind (recording_call trivial) fun victims =>
          evictVictims_recording _ victims free

theorem retryLater_unmoving (now : ℤ) (job : PendingJob) (message reason : String) :
    (retryLater now job message reason).Only Call.Unmoving :=
  Prog.Only.bind (Prog.only_perform trivial) fun _ =>
    Prog.Only.bind (Prog.only_perform trivial) fun _ => Prog.only_perform trivial

/-- **The loop of a batch**, by induction on the jobs left. -/
theorem runJobs_recording (now : ℤ) : ∀ (jobs : List PendingJob) (completed : ℕ),
    (recording sv).Follows (runJobs sv now jobs completed) none := by
  intro jobs
  induction jobs with
  | nil => exact fun completed => Protocol.follows_ret completed
  | cons j js ih =>
    intro completed
    rw [runJobs]
    refine Protocol.Follows.bind makeRoomFor_recording fun _ => ?_
    have hretry (message reason : String) : (recording sv).Follows
        (Prog.bind (retryLater now j message reason) fun _ => runJobs sv now js completed) none :=
      Protocol.Follows.bind (recording_unmoving (retryLater_unmoving now j message reason)) fun _ =>
        ih completed
    have hmark (r : CopyResult) : (recording sv).Follows
        (Prog.bind (update (.markCached j.relativePath r.sourceSizeBytes r.cachedSizeBytes r.hashHex
          r.completedAt)) fun _ => Prog.bind (update (.removePendingJob j.relativePath)) fun _ =>
            runJobs sv now js (completed + 1))
        (some (.markCached j.relativePath r.sourceSizeBytes r.cachedSizeBytes r.hashHex
          r.completedAt)) :=
      recording_write (Protocol.Follows.bind (recording_call trivial) fun _ => ih _)
    refine recording_copy (fun r hr => ?_) fun r hr => ?_
    · -- the three results that are recorded
      rcases hr with hr | hr | hr <;> (rw [hr]; exact hmark r)
    · cases hr' : r.action <;> rw [hr'] at hr
      case cancelled => exact Protocol.follows_ret completed
      case failed => exact hretry _ _
      case sourceMissing =>
        refine recording_remove (fun r hr => ?_) fun r hr => ?_
        · rw [if_pos hr]
          exact recording_write (ih completed)
        · rw [if_neg hr]
          exact hretry _ _
      all_goals exact absurd (by decide) hr

theorem runDueOnce_recording (now : ℤ) : (recording sv).Follows (runDueOnce sv now) none :=
  Protocol.Follows.bind (recording_call trivial) fun jobs => runJobs_recording now jobs 0

theorem runEntry_recording (e : HeapEntry) : (recording sv).Follows (runEntry sv e) none := by
  refine Protocol.Follows.bind (recording_call trivial) fun (paused : Bool) => ?_
  cases paused with
  | true => exact recording_call trivial
  | false =>
    refine Protocol.Follows.bind (recording_call trivial) fun (job : Option PendingJob) => ?_
    cases job with
    | none => exact Protocol.follows_ret ()
    | some job =>
      dsimp only
      split
      · exact Protocol.follows_ret ()
      · refine Protocol.Follows.tryCatch ?_ fun _ => recording_call trivial
        exact Protocol.Follows.bind (recording_call trivial) fun now =>
          Protocol.Follows.bind (runDueOnce_recording now) fun _ => Protocol.follows_ret ()

theorem workerIteration_recording : (recording sv).Follows (workerIteration sv) none := by
  refine Protocol.Follows.bind (recording_call trivial) fun (stop : Bool) => ?_
  cases stop with
  | true => exact recording_call trivial
  | false =>
    refine Protocol.Follows.bind (recording_call trivial) fun (paused : Bool) => ?_
    cases paused with
    | true => exact Protocol.follows_ret ()
    | false =>
      refine Protocol.Follows.bind (recording_call trivial) fun (next : Option HeapEntry) => ?_
      cases next with
      | none => exact Protocol.follows_ret ()
      | some next => exact runEntry_recording next

theorem evictFiles_recording (targetBytes : UInt64) (exclude : WString) :
    ∀ (victims : List CachedFileRef) (result : EvictionResult),
      (recording sv).Follows (evictFiles sv.pathResolver targetBytes exclude victims result)
        none := by
  intro victims
  induction victims with
  | nil => exact fun result => Protocol.follows_ret result
  | cons v vs ih =>
    intro result
    rw [evictFiles]
    split
    · exact Protocol.follows_ret result
    · split
      · exact ih result
      · refine recording_remove (fun r hr => ?_) fun r hr => ?_
        · rw [if_pos hr]
          exact recording_write (ih _)
        · rw [if_neg hr]
          exact ih result

/-- **Every operation records the files it moves.** -/
theorem evicting_recording {o : Operation} (hm : evicting t c o = true) :
    (recording sv).Follows (o.body sv) none := by
  unfold evicting at hm
  rw [Bool.or_eq_true] at hm
  rcases hm with hm | hm
  · by_cases ht : t = .worker
    · rcases concurrent_cases hm with ⟨e, rfl, -⟩ | ⟨now, -, rfl⟩ | ⟨-, rfl⟩ | ⟨rfl, -⟩
      · cases ht
      · exact Protocol.Follows.bind (runDueOnce_recording now) fun _ => Protocol.follows_ret ()
      · exact workerIteration_recording
      · cases ht
    · refine recording_unmoving ((concurrent_others ht hm).mono fun {a} ha => ?_)
      cases t with
      | events => exact Call.ByEvents.unmoving ha
      | _ => exact Call.ByControl.unmoving ha
  · rcases freeing_cases hm with ⟨now, -, rfl⟩ | ⟨targetBytes, exclude, -, rfl⟩
    · exact Protocol.Follows.bind (runDueOnce_recording now) fun _ => Protocol.follows_ret ()
    · refine Protocol.Follows.bind ?_ fun _ => Protocol.follows_ret ()
      unfold evictLeastRecentlyUsed
      split
      · exact Protocol.follows_ret _
      · exact Protocol.Follows.bind (recording_call trivial) fun victims =>
          evictFiles_recording targetBytes exclude victims _

/-! ## The columns of a digest -/

/-- The rows of `p` that say its file is there have the digests they had. -/
def DigestColumns (ix ix' : CacheIndex) (p : WString) : Prop :=
  ∀ row', ix'.files.lookup p = some row' → row'.cachePresent = true →
    ∃ row, ix.files.lookup p = some row ∧ row.cachePresent = true ∧
      row.hashAlgo = row'.hashAlgo ∧ row.hashHex = row'.hashHex

variable {ix ix' : CacheIndex} {u : Update}

theorem DigestColumns.refl (ix : CacheIndex) (p : WString) : DigestColumns ix ix p :=
  fun row' hrow hpresent => ⟨row', hrow, hpresent, rfl, rfl⟩

theorem digestColumns_of_lookup (h : ix'.files.lookup p = ix.files.lookup p) :
    DigestColumns ix ix' p := fun row' hrow hpresent =>
  ⟨row', h.symm.trans hrow, hpresent, rfl, rfl⟩

/-- An update that puts no row to present and leaves the digest. -/
theorem digestColumns_updateFile {f : FileRow → FileRow}
    (hf : ∀ row, (f row).cachePresent = true → row.cachePresent = true ∧
      row.hashAlgo = (f row).hashAlgo ∧ row.hashHex = (f row).hashHex) :
    DigestColumns ix (ix.updateFile q f) p := by
  intro row' hrow hpresent
  change (Sql.update q f ix.files).lookup p = some row' at hrow
  rw [Sql.lookup_update] at hrow
  split at hrow
  · obtain ⟨row, hlookup, rfl⟩ := Option.map_eq_some_iff.1 hrow
    exact ⟨row, hlookup, hf row hpresent⟩
  · exact ⟨row', hrow, hpresent, rfl, rfl⟩

/-- An access leaves the digest, and a row that it makes is not present. -/
theorem digestColumns_recordAccess (event : AccessEvent) (d : ℤ) :
    DigestColumns ix (ix.recordAccess event d) p := by
  unfold CacheIndex.recordAccess CacheIndex.recordAccessWith
  split
  · exact .refl ix p
  intro row' hrow hpresent
  change (Sql.upsert _ _ ix.files).lookup p = some row' at hrow
  rw [Sql.lookup_upsert] at hrow
  split at hrow
  · cases hlookup : ix.files.lookup p with
    | none =>
      rw [hlookup] at hrow
      obtain rfl := Option.some.inj hrow
      cases hpresent
    | some row =>
      rw [hlookup] at hrow
      obtain rfl := Option.some.inj hrow
      exact ⟨row, rfl, hpresent, rfl, rfl⟩
  · exact ⟨row', hrow, hpresent, rfl, rfl⟩

/-- **Only `mark_cached` of `p` moves its digest.** -/
theorem digestColumns_apply (h : u.apply ix = .ok ix')
    (hu : ∀ s c hash time, u ≠ .markCached p s c hash time) : DigestColumns ix ix' p := by
  cases u with
  | recordAccess event d =>
    cases h
    exact digestColumns_recordAccess event d
  | upsertPendingJob q due reason =>
    simp only [Update.apply, CacheIndex.upsertPendingJob] at h
    split at h
    · cases h
      exact .refl ix p
    · split at h
      · cases h
        exact digestColumns_of_lookup rfl
      · cases h
  | removePendingJob q =>
    cases h
    exact digestColumns_of_lookup rfl
  | deleteRecord q =>
    cases h
    intro row' hrow hpresent
    change (ix.files.erase q).lookup p = some row' at hrow
    rw [Sql.lookup_erase_eq] at hrow
    split at hrow
    · cases hrow
    · exact ⟨row', hrow, hpresent, rfl, rfl⟩
  | markRemoved q =>
    cases h
    exact digestColumns_updateFile fun row hpresent => absurd hpresent Bool.false_ne_true
  | recordError q e =>
    cases h
    exact digestColumns_updateFile fun row hpresent => ⟨hpresent, rfl, rfl⟩
  | markCached q s c hash t =>
    cases h
    intro row' hrow hpresent
    have hne : p ≠ q := fun heq => hu s c hash t (heq ▸ rfl)
    change (Sql.update q _ ix.files).lookup p = some row' at hrow
    rw [Sql.lookup_update, if_neg hne] at hrow
    exact ⟨row', hrow, hpresent, rfl, rfl⟩

theorem digestColumns_fails (h : u.Fails ix ix') : DigestColumns ix ix' p := by
  cases u with
  | recordError q e =>
    rcases h with rfl | rfl
    · exact .refl _ p
    · exact digestColumns_updateFile fun row hpresent => ⟨hpresent, rfl, rfl⟩
  | _ => cases h; exact .refl _ p

/-! ## Digests and files -/

variable {digest : Bytes → String} {content : V → WString → Option Bytes}
variable {Touches : WString → WString → Prop}

/-- What `t` has moved and not recorded yet. -/
def owed (sv : Service V) (t : Party) (h : History V) : Option Update :=
  (recording sv).localState t h

/-- Some party has moved the file of `p` and not recorded it yet. -/
def Owing (sv : Service V) (p : WString) (h : History V) : Prop :=
  ∃ t u, owed sv t h = some u ∧ u.file = some p

/-- The path of a copy that a write records. -/
def Update.copied : Update → Option WString
  | .markCached p _ _ _ _ => some p
  | _ => none

/-- A party other than `t` has a copy of `p` to record. -/
def CopyAwaited (sv : Service V) (t : Party) (p : WString) (h : History V) : Prop :=
  ∃ u ∈ [Party.worker, .events, .control, .freeProcess],
    u ≠ t ∧ (owed sv u h).bind Update.copied = some p

instance (sv : Service V) (t : Party) (p : WString) (h : History V) :
    Decidable (CopyAwaited sv t p h) :=
  inferInstanceAs (Decidable (∃ u ∈ _, _))

/-- Every row of `p` with `cache_present=1` and `hash_algo` `sha256` has the digest of the file. -/
def DigestStored (digest : Bytes → String) (content : V → WString → Option Bytes)
    (pathResolver : PathResolver) (w : World V) (p : WString) : Prop :=
  ∀ row, w.index.files.lookup p = some row → row.cachePresent = true →
    row.hashAlgo = some "sha256" →
      ∃ data, content w.volume (pathResolver.cacheAbsolute p) = some data ∧
        row.hashHex = some (digest data)

/-- The digest of `p` goes on: no copy of `p` is skipped for its size, no call about another path
touches its file, nothing moves the file while another party has a copy of it to record, and
the record of a file that was moved is written. -/
def DigestGoesOn (Touches : WString → WString → Prop) (sv : Service V) (p : WString) :
    Condition V := fun h _ l =>
  match l with
  | .act t (.copyAndHash q _ c _) r =>
    if q = p then
      (Except.toOption r).map CopyResult.action ≠ some .skippedSameSize ∧ ¬ CopyAwaited sv t p h
    else ¬ Touches c (sv.pathResolver.cacheAbsolute p)
  | .act t (.removeCachedFile q c) _ =>
    if q = p then ¬ CopyAwaited sv t p h else ¬ Touches c (sv.pathResolver.cacheAbsolute p)
  | .act t (.update u) (.error _) => owed sv t h = some u → u.file ≠ some p
  | _ => True

instance [DecidableRel Touches] (h : History V) (w : World V) (l : Event) :
    Decidable (DigestGoesOn Touches sv p h w l) :=
  match l with
  | .act _ (.copyAndHash q _ _ _) _ => inferInstanceAs (Decidable (if q = p then _ else _))
  | .act _ (.removeCachedFile q _) _ => inferInstanceAs (Decidable (if q = p then _ else _))
  | .act _ (.update _) (.error _) => inferInstanceAs (Decidable (_ → _))
  | .act _ (.update _) (.ok _) | .act _ (.query _) _ | .act _ (.freeBytes _) _
  | .act _ (.memory _) _ | .call _ _ | .env => .isTrue trivial

/-- The digest of a copy waits to be recorded, or it is stored. -/
structure DigestKept (digest : Bytes → String) (content : V → WString → Option Bytes)
    (sv : Service V) (p : WString) (x : History V × World V) : Prop where
  awaited : ∀ {t s cz hash time}, owed sv t x.1 = some (.markCached p s cz hash time) →
    ∃ data, content x.2.volume (sv.pathResolver.cacheAbsolute p) = some data ∧ hash = digest data
  stored : ¬ Owing sv p x.1 → DigestStored digest content sv.pathResolver x.2 p

theorem owed_self {r : Except String a.Answer} : owed sv t (acted w t r h) = a.owes r :=
  Protocol.localState_self

theorem owed_ne {r : Except String a.Answer} {v : Party} (hv : t ≠ v) :
    owed sv v (acted w t r h) = owed sv v h :=
  Protocol.localState_ne hv

/-- After a call a party owes what the call has moved, or what it owed before. -/
theorem owed_cases {r : Except String a.Answer} {v : Party} {u : Update}
    (howed : owed sv v (acted w t r h) = some u) :
    (t = v ∧ a.owes r = some u) ∨ (v ≠ t ∧ owed sv v h = some u) := by
  by_cases hv : t = v
  · subst hv
    exact .inl ⟨rfl, owed_self.symm.trans howed⟩
  · exact .inr ⟨Ne.symm hv, (owed_ne hv).symm.trans howed⟩

theorem not_copyAwaited {v : Party} {s cz : UInt64} {hash : String} {time : ℤ} (hv : v ≠ t)
    (hno : ¬ CopyAwaited sv t p h) : owed sv v h ≠ some (.markCached p s cz hash time) := by
  intro howed
  refine hno ⟨v, ?_, hv, by rw [howed]; rfl⟩
  cases v <;> simp

/-- A call that leaves the file and the digest of `p`, and owes no record of it. -/
theorem digestKept_frame {r : Except String a.Answer}
    (hcontent : content w'.volume (sv.pathResolver.cacheAbsolute p) =
      content w.volume (sv.pathResolver.cacheAbsolute p))
    (hcolumns : DigestColumns w.index w'.index p)
    (hbefore : ∀ u, owed sv t h = some u → u.file ≠ some p)
    (hafter : ∀ u, a.owes r = some u → u.file ≠ some p)
    (hI : DigestKept digest content sv p (h, w)) :
    DigestKept digest content sv p (acted w t r h, w') where
  awaited {v s cz hash time} howed := by
    rcases owed_cases howed with ⟨-, howes⟩ | ⟨-, howed⟩
    · exact absurd rfl (hafter _ howes)
    · rw [hcontent]
      exact hI.awaited howed
  stored hnot := by
    have hbefore' : ¬ Owing sv p h := by
      rintro ⟨v, u, howed, hu⟩
      by_cases hv : t = v
      · subst hv
        exact hbefore u howed hu
      · exact hnot ⟨v, u, (owed_ne hv).trans howed, hu⟩
    intro row' hrow' hpresent halgo
    obtain ⟨row, hrow, hp, ha, hhex⟩ := hcolumns row' hrow' hpresent
    obtain ⟨data, hdata, hdigest⟩ := hI.stored hbefore' row hrow hp (ha.trans halgo)
    exact ⟨data, hcontent.trans hdata, hhex.symm.trans hdigest⟩

/-- A party that has moved the file of `p` has it to record, and no other has a copy. -/
theorem digestKept_moved {r : Except String a.Answer} {u : Update} (howes : a.owes r = some u)
    (hfile : u.file = some p) (hothers : ¬ CopyAwaited sv t p h)
    (hcopy : ∀ {s cz hash time}, u = .markCached p s cz hash time →
      ∃ data, content w'.volume (sv.pathResolver.cacheAbsolute p) = some data ∧
        hash = digest data) :
    DigestKept digest content sv p (acted w t r h, w') where
  awaited {v s cz hash time} howed := by
    rcases owed_cases howed with ⟨-, hnew⟩ | ⟨hv, howed⟩
    · exact hcopy (Option.some.inj (howes.symm.trans hnew))
    · exact absurd howed (not_copyAwaited hv hothers)
  stored hnot := absurd ⟨t, u, owed_self.trans howes, hfile⟩ hnot

/-- The record of `p` that was owed is written. -/
theorem digestKept_written {r : Except String a.Answer} (howes : a.owes r = none)
    (hvolume : w'.volume = w.volume) (hstored : DigestStored digest content sv.pathResolver w' p)
    (hI : DigestKept digest content sv p (h, w)) :
    DigestKept digest content sv p (acted w t r h, w') where
  awaited {v s cz hash time} howed := by
    rcases owed_cases howed with ⟨-, hnew⟩ | ⟨-, howed⟩
    · cases howes.symm.trans hnew
    · rw [hvolume]
      exact hI.awaited howed
  stored _ := hstored

/-- **A call that moves the file of `q`**, and owes the record of it if the engine reports so. -/
theorem digestKept_moving {r : Except String a.Answer} (hnone : owed sv t h = none)
    (hindex : w'.index = w.index) (hfile : ∀ u, a.owes r = some u → u.file = some q)
    (hother : q ≠ p → content w'.volume (sv.pathResolver.cacheAbsolute p) =
      content w.volume (sv.pathResolver.cacheAbsolute p))
    (hkept : q = p → a.owes r = none → content w'.volume (sv.pathResolver.cacheAbsolute p) =
      content w.volume (sv.pathResolver.cacheAbsolute p))
    (hothers : q = p → ¬ CopyAwaited sv t p h)
    (hcopy : q = p → ∀ {s cz hash time}, a.owes r = some (.markCached p s cz hash time) →
      ∃ data, content w'.volume (sv.pathResolver.cacheAbsolute p) = some data ∧
        hash = digest data)
    (hI : DigestKept digest content sv p (h, w)) :
    DigestKept digest content sv p (acted w t r h, w') := by
  have hbefore : ∀ u, owed sv t h = some u → u.file ≠ some p := by
    rw [hnone]
    exact nofun
  by_cases hq : q = p
  · cases howes : a.owes r with
    | none =>
      refine digestKept_frame (hkept hq howes) (hindex ▸ .refl _ _) hbefore ?_ hI
      rw [howes]
      exact nofun
    | some u =>
      refine digestKept_moved howes (hq ▸ hfile u howes) (hothers hq) fun heq => ?_
      exact hcopy hq (howes.trans (congrArg some heq))
  · refine digestKept_frame (hother hq) (hindex ▸ .refl _ _) hbefore (fun u howes hp => ?_) hI
    exact hq (Option.some.inj ((hfile u howes).symm.trans hp))

section Engine

variable (hE : sv.platform.ReportsDigests digest content Touches)

include hE

/-- **A copy.** -/
theorem digestKept_copy {s cache : WString} {m : Bool} {r : Except String CopyResult}
    (hx : exec sv w (.copyAndHash q s cache m) r w')
    (hallow : (recording sv).allows (owed sv t h) (.copyAndHash q s cache m))
    (hc : DigestGoesOn Touches sv p h w (.act t (.copyAndHash q s cache m) r))
    (hI : DigestKept digest content sv p (h, w)) :
    DigestKept digest content sv p (acted w t (a := .copyAndHash q s cache m) r h, w') := by
  obtain ⟨vol, hcopy, rfl⟩ := hx
  have hnone : owed sv t h = none := recording_rests hallow nofun
  rw [hnone] at hallow
  obtain rfl : cache = sv.pathResolver.cacheAbsolute q := hallow
  simp only [DigestGoesOn] at hc
  refine digestKept_moving (q := q) hnone rfl (fun u hu => ?_) (fun hq => ?_) (fun hq hnot => ?_)
    (fun hq => ?_) (fun hq {_ _ _ _} hu => ?_) hI
  · obtain ⟨result, -, -, rfl⟩ := owes_copy hu
    rfl
  · rw [if_neg hq] at hc
    exact hE.copy_frame hcopy hc
  · subst hq
    refine hE.copy_kept hcopy ?_
    rintro result rfl hcached
    cases (if_pos hcached).symm.trans hnot
  · rw [if_pos hq] at hc
    exact hc.2
  · subst hq
    rw [if_pos rfl] at hc
    obtain ⟨result, rfl, hcached, heq⟩ := owes_copy hu
    cases heq
    exact hE.copy_digest hcopy hcached fun haction => hc.1 (congrArg some haction)

/-- **A removal.** -/
theorem digestKept_remove {cache : WString} {r : Except String RemoveResult}
    (hx : exec sv w (.removeCachedFile q cache) r w')
    (hallow : (recording sv).allows (owed sv t h) (.removeCachedFile q cache))
    (hc : DigestGoesOn Touches sv p h w (.act t (.removeCachedFile q cache) r))
    (hI : DigestKept digest content sv p (h, w)) :
    DigestKept digest content sv p (acted w t (a := .removeCachedFile q cache) r h, w') := by
  obtain ⟨vol, hremove, rfl⟩ := hx
  have hnone : owed sv t h = none := recording_rests hallow nofun
  rw [hnone] at hallow
  obtain rfl : cache = sv.pathResolver.cacheAbsolute q := hallow
  simp only [DigestGoesOn] at hc
  refine digestKept_moving (q := q) hnone rfl (fun u hu => ?_) (fun hq => ?_) (fun hq hnot => ?_)
    (fun hq => ?_) (fun hq {_ _ _ _} hu => ?_) hI
  · obtain ⟨result, -, -, rfl⟩ := owes_remove hu
    rfl
  · rw [if_neg hq] at hc
    exact hE.remove_frame hremove hc
  · subst hq
    refine hE.remove_kept hremove ?_
    rintro result rfl hclean
    cases (if_pos hclean).symm.trans hnot
  · rw [if_pos hq] at hc
    exact hc
  · obtain ⟨result, -, -, heq⟩ := owes_remove hu
    cases heq

end Engine

/-- Once the record of `p` that was owed is written, its digest is the one of the file. -/
theorem digestStored_recorded {u : Update} (howed : owed sv t h = some u)
    (hfile : u.file = some p) (happly : u.apply w.index = .ok ix)
    (hI : DigestKept digest content sv p (h, w)) :
    DigestStored digest content sv.pathResolver { w with index := ix } p := by
  cases u with
  | markCached q s cz hash time =>
    cases hfile
    obtain ⟨data, hdata, rfl⟩ := hI.awaited howed
    cases happly
    intro row hrow _ _
    change (Sql.update p _ w.index.files).lookup p = some row at hrow
    rw [Sql.lookup_update, if_pos rfl] at hrow
    obtain ⟨row₀, -, rfl⟩ := Option.map_eq_some_iff.1 hrow
    exact ⟨data, hdata, rfl⟩
  | markRemoved q =>
    cases hfile
    cases happly
    intro row hrow hpresent
    change (Sql.update p _ (w.index.removePendingJob p).files).lookup p = some row at hrow
    rw [Sql.lookup_update, if_pos rfl] at hrow
    obtain ⟨row₀, -, rfl⟩ := Option.map_eq_some_iff.1 hrow
    -- the row says that the file is gone
    cases hpresent
  | _ => cases hfile

/-- **A write of the index**: the record that was owed, or one that leaves the digest. -/
theorem digestKept_update {u : Update} {r : Except String Unit} (hx : exec sv w (.update u) r w')
    (hallow : (recording sv).allows (owed sv t h) (.update u))
    (hc : DigestGoesOn Touches sv p h w (.act t (.update u) r))
    (hI : DigestKept digest content sv p (h, w)) :
    DigestKept digest content sv p (acted w t (a := .update u) r h, w') := by
  have howes : (Call.update u).owes r = none := by cases r <;> rfl
  have hafter : ∀ v, (Call.update u).owes r = some v → v.file ≠ some p := by
    rw [howes]
    exact nofun
  cases r with
  | error e =>
    -- a write that was owed for `p` does not fail
    obtain ⟨ix, hfails, rfl⟩ := hx
    refine digestKept_frame rfl (digestColumns_fails hfails) (fun v howed => ?_) hafter hI
    rw [howed] at hallow
    cases hallow
    exact hc howed
  | ok _ =>
    obtain ⟨ix, happly, rfl⟩ := hx
    cases howed : owed sv t h with
    | none =>
      -- a copy is recorded only where it was owed
      refine digestKept_frame rfl (digestColumns_apply happly ?_) ?_ hafter hI
      · rintro s cz hash time rfl
        rw [howed] at hallow
        exact hallow
      · rw [howed]
        exact nofun
    | some v =>
      rw [howed] at hallow
      cases hallow
      by_cases hfile : u.file = some p
      · exact digestKept_written howes rfl (digestStored_recorded howed hfile happly hI) hI
      · refine digestKept_frame rfl (digestColumns_apply happly ?_) (fun v hv => ?_) hafter hI
        · rintro s cz hash time rfl
          exact hfile rfl
        · rw [howed] at hv
          cases hv
          exact hfile

/-- **Every call** keeps the digest. -/
theorem digestKept_step (hE : sv.platform.ReportsDigests digest content Touches)
    {r : Except String a.Answer} (hx : exec sv w a r w')
    (hallow : (recording sv).allows (owed sv t h) a)
    (hc : DigestGoesOn Touches sv p h w (.act t a r)) (hI : DigestKept digest content sv p (h, w)) :
    DigestKept digest content sv p (acted w t r h, w') := by
  -- a call that neither moves files nor writes rows
  have hquiet (hindex : w'.index = w.index) (hvolume : w'.volume = w.volume)
      (hother : ∀ u, a ≠ .update u) (howes : a.owes r = none) :
      DigestKept digest content sv p (acted w t r h, w') := by
    refine digestKept_frame (by rw [hvolume]) (hindex ▸ .refl _ _) ?_ (by rw [howes]; exact nofun) hI
    rw [recording_rests hallow hother]
    exact nofun
  cases a with
  | copyAndHash q s cache m => exact digestKept_copy hE hx hallow hc hI
  | removeCachedFile q cache => exact digestKept_remove hE hx hallow hc hI
  | update u => exact digestKept_update hx hallow hc hI
  | query q =>
    cases r with
    | error e => exact hquiet (by rw [show w' = w from hx]) (by rw [show w' = w from hx]) nofun rfl
    | ok v => exact hquiet (by rw [hx.2]) (by rw [hx.2]) nofun rfl
  | freeBytes root => exact hquiet (by rw [hx.2]) (by rw [hx.2]) nofun (by cases r <;> rfl)
  | memory m =>
    cases r with
    | error e => exact hx.elim
    | ok v => exact hquiet (by rw [hx.2.2]) (by rw [hx.2.2]) nofun rfl

/-- **In every run the digest is kept.** -/
theorem digest_of_run (hE : sv.platform.ReportsDigests digest content Touches)
    (h0 : DigestStored digest content sv.pathResolver w p)
    (hrun : Run (system sv evicting) (.idle w) h c)
    (hm : Meets (DigestGoesOn Touches sv p) h) : DigestKept digest content sv p (h, c.world) := by
  have hkeeps : Meets (recording sv).Keeps h :=
    Protocol.keeps_of_run (fun _ => trivial) evicting_recording hrun
  refine hrun.invariant (I := fun h c => DigestKept digest content sv p (h, c.world)) ?_ ?_
    (hkeeps.and hm)
  · exact ⟨nofun, fun _ => h0⟩
  · intro h c l c' hI hc hs
    cases hs with
    | call hd hmenu => exact ⟨hI.awaited, hI.stored⟩
    | @act t a k r w' hk hx => exact digestKept_step hE hx (hc.1 t a r rfl) hc.2 hI
    | env he =>
      obtain ⟨clock, -, rfl⟩ := he
      exact ⟨hI.awaited, hI.stored⟩

/-- Idle parties have nothing to record. -/
theorem not_owing_of_idle (hrun : Run (system sv evicting) (.idle w) h c)
    (hd : ∀ t, (c.prog t).Done) : ¬ Owing sv p h := by
  rintro ⟨t, u, howed, -⟩
  have hfollows : (recording sv).Follows (c.prog t) (owed sv t h) :=
    Protocol.run (fun _ => trivial) evicting_recording hrun t
  rw [hfollows.rests (hd t)] at howed
  cases howed

/-! ## The Windows engine -/

/-- The service of a configuration on a Windows platform. -/
def winService (fold : CaseFold) (sha256 : Bytes → Bytes) (engine : WinFileCopyEngine)
    (config : AppConfig) : Service WinWorld :=
  hostService (winPlatform fold sha256 engine) config

/-- The row of `p` has the SHA-256 of its cache file. -/
def Sha256Stored (fold : CaseFold) (sha256 : Bytes → Bytes) (config : AppConfig)
    (w : World WinWorld) (p : WString) : Prop :=
  DigestStored (fun data => WinFileCopyEngine.lowerHex (sha256 data))
    (fun v path => v.contentAt fold path) (rootedPathResolver config) w p

/-- **The stored digest is the one of the cached file**, as long as no copy is skipped for its
size and the records of the moved files are written. -/
theorem stored_digest (fold : CaseFold) (sha256 : Bytes → Bytes) {engine : WinFileCopyEngine}
    (hchunk : engine.readSize ≠ 0) (config : AppConfig) {w : World WinWorld} {h : History WinWorld}
    {c : State WinWorld} {p : WString} (h0 : Sha256Stored fold sha256 config w p)
    (hrun : Run (system (winService fold sha256 engine config) evicting) (.idle w) h c)
    (hm : Meets (DigestGoesOn (WinTouches fold) (winService fold sha256 engine config) p) h)
    (hrest : (∀ t, (c.prog t).Done) ∨ ¬ Owing (winService fold sha256 engine config) p h) :
    Sha256Stored fold sha256 config c.world p := by
  have hE : (winService fold sha256 engine config).platform.ReportsDigests
      (fun data => WinFileCopyEngine.lowerHex (sha256 data)) (fun v path => v.contentAt fold path)
      (WinTouches fold) := winPlatform_reportsDigests fold sha256 hchunk
  have hkept := digest_of_run hE h0 hrun hm
  rcases hrest with hidle | hrest
  · exact hkept.stored (not_owing_of_idle hrun hidle)
  · exact hkept.stored hrest

/-! ## Runs -/

/-- The scripted system, on a volume that finds files by what `name` makes of their path. -/
def namedScript (name : WString → WString) (sha256 : Bytes → Bytes) (read : ℕ → WinResult Bytes)
    (w : WinWorld) :
    (a : winCalls.Act) → Option (Except String (winCalls.Resp a) × WinWorld)
  | .getFileAttributesEx path => scripted sha256 false read w (.getFileAttributesEx (name path))
  | .openExisting path => scripted sha256 false read w (.openExisting (name path))
  | .createExclusive path => scripted sha256 false read w (.createExclusive (name path))
  | .moveFileEx source target =>
    scripted sha256 false read w (.moveFileEx (name source) (name target))
  | .deleteFile path => scripted sha256 false read w (.deleteFile (name path))
  | a => scripted sha256 false read w a

theorem namedScript_does {name : WString → WString} {sha256 : Bytes → Bytes}
    {read : ℕ → WinResult Bytes} {w w' : WinWorld} {a : winCalls.Act}
    {r : Except String (winCalls.Resp a)} (h : namedScript name sha256 read w a = some (r, w')) :
    namedExec name sha256 w a r w' := by
  cases a with
  | getFileAttributesEx path =>
    obtain ⟨rfl, rfl⟩ := Prod.mk.inj (Option.some.inj h)
    exact rfl
  | _ => exact scripted_does sha256 false read h

/-- The call opens the file at `path`. -/
def opens (path : WString) : winCalls.Answered String → Bool
  | ⟨.openExisting p, _⟩ => p = path
  | _ => false

/-- A call that has not opened the cache file has read nothing of it. -/
theorem readsBack_of_not_opens {path : WString} {content : Option Bytes}
    {tr : List (winCalls.Answered String)} (h : tr.any (opens path) = false) :
    ReadsBack path content tr := by
  rintro pre handle mid size post rfl - -
  rw [List.any_append, List.any_cons, show opens path ⟨.openExisting path, .ok (.ok handle)⟩ = true
    from decide_eq_true rfl, Bool.true_or, Bool.or_true] at h
  cases h

/-- The answers of the Windows platform to a service, while its source holds `abc`; it neither
hashes a cache file nor removes one. -/
def winAnswer (fold : CaseFold) (w : World WinWorld) :
    (a : Call) → Option (Except String a.Answer × World WinWorld)
  | .update u =>
    match u.apply w.index with
    | .ok ix => some (.ok (), { w with index := ix })
    | .error _ => none
  | .query q => some (.ok (q.run w.index w.clock), w)
  | .copyAndHash _ source cache compareHash =>
    ((({} : WinFileCopyEngine).copyAndHash 2 source cache compareHash).transcript
      (namedScript (lowerRoot fold) digestOfAbc (fun pos => .ok (abc.drop pos))) w.volume).bind
      fun x =>
        match x.2.1 with
        | .ok (some result) =>
          if x.1.any (opens (extendedPath cache)) then none
          else some (.ok (result : CopyResult), { w with volume := x.2.2 })
        | _ => none
  | .removeCachedFile _ _ => none
  | .freeBytes _ => some (.ok (none : Option UInt64), w)
  | .memory a =>
    if a.Enabled w.memory then
      some (.ok (a.run w.memory w.clock).1, { w with memory := (a.run w.memory w.clock).2 })
    else none

theorem exec_winAnswer {fold : CaseFold} {config : AppConfig} {w w' : World WinWorld} {a : Call}
    {r : Except String a.Answer} (h : winAnswer fold w a = some (r, w')) :
    exec (winService fold digestOfAbc {} config) w a r w' := by
  cases a with
  | update u =>
    simp only [winAnswer] at h
    split at h
    · rename_i ix hu
      cases h
      exact ⟨ix, hu, rfl⟩
    · cases h
  | query q => cases h; exact ⟨q.answers_run _ _, rfl⟩
  | copyAndHash p source cache m =>
    obtain ⟨⟨tr, r₀, v⟩, hx, hr⟩ := Option.bind_eq_some_iff.1 h
    dsimp only at hr
    split at hr
    · rename_i result hresult
      split at hr
      · cases hr
      · rename_i hopens
        cases hr
        cases hresult
        exact ⟨v, ⟨2, tr, Prog.traces_of_transcript namedScript_does hx,
          readsBack_of_not_opens (Bool.eq_false_iff.2 hopens)⟩, rfl⟩
    · cases hr
  | removeCachedFile p cache => cases h
  | freeBytes root => cases h; exact ⟨trivial, rfl⟩
  | memory a =>
    simp only [winAnswer] at h
    split at h
    · rename_i he
      cases h
      exact ⟨he, rfl, rfl⟩
    · cases h

/-- A share on `\\\\nas`. -/
def nasConfig : AppConfig := { sourceUnc := wide "\\\\nas\\share" }

/-- Plays schedules on the Windows platform. -/
def winPlayer : Player (system (winService asciiLower digestOfAbc {} nasConfig) evicting) ℤ where
  act := winAnswer asciiLower
  env clock w := { w with clock }
  menu := evicting
  envOk clock w := w.clock ≤ clock
  act_ok := exec_winAnswer
  menu_ok := id
  env_ok {clock _} h := ⟨clock, of_decide_eq_true h, rfl⟩

/-- The share has the file `a.txt` with `abc`, and nothing is cached. -/
def shareStart : World WinWorld where
  volume :=
    { files := fun path =>
        if path = lowerRoot asciiLower (extendedPath (wide "\\\\nas\\share\\a.txt")) then some abc
        else none }
  clock := 600000000

theorem shareStart_stored (p : WString) :
    Sha256Stored asciiLower digestOfAbc nasConfig shareStart p := by
  intro row hrow
  cases hrow

/-- The file is read, and copied a minute later. -/
def copySchedule : List (Move Party Operation ℤ) :=
  .call .events (.recordEvent { relativePath := plainName, observedAt := 0 }) :: steps .events 3 ++
  .call .worker (.runDueOnce 600000000) :: steps .worker 6

/-- A schedule that plays to a state with property `p`. -/
theorem exists_winRun (ms : List (Move Party Operation ℤ))
    (p : History WinWorld × State WinWorld → Prop) [DecidablePred p]
    (hp : (winPlayer.play ms ([], .idle shareStart)).any (fun x => decide (p x)) = true) :
    ∃ h c, Run (system (winService asciiLower digestOfAbc {} nasConfig) evicting)
      (.idle shareStart) h c ∧ p (h, c) :=
  winPlayer.exists_run ms p hp

/-- The digest of a file that was copied. -/
theorem stored_digest_copied :
    ∃ h c, Run (system (winService asciiLower digestOfAbc {} nasConfig) evicting)
        (.idle shareStart) h c ∧ c.world.index.Present plainName ∧
      Sha256Stored asciiLower digestOfAbc nasConfig c.world plainName := by
  obtain ⟨h, c, hrun, hm, hidle, hpresent⟩ := exists_winRun copySchedule
    (fun x => Meets (DigestGoesOn (WinTouches asciiLower)
      (winService asciiLower digestOfAbc {} nasConfig) plainName) x.1 ∧ allIdle x.2 = true ∧
      x.2.world.index.Present plainName) (by decide +kernel)
  exact ⟨h, c, hrun, hpresent, stored_digest asciiLower digestOfAbc (by decide) nasConfig
    (shareStart_stored plainName) hrun hm (.inl (allIdle_iff.1 hidle))⟩

/-- The file is read again, and the copy is skipped: the digest is erased. -/
theorem skipped_copy_erases_digest :
    ∃ h c, Run (system (winService asciiLower digestOfAbc {} nasConfig) evicting)
        (.idle shareStart) h c ∧ Meets NoThrow h ∧ allIdle c = true ∧
      (∀ p, Sha256Stored asciiLower digestOfAbc nasConfig shareStart p) ∧
      c.world.volume.contentAt asciiLower
        ((rootedPathResolver nasConfig).cacheAbsolute plainName) = some abc ∧
      ¬ Sha256Stored asciiLower digestOfAbc nasConfig c.world plainName := by
  obtain ⟨h, c, hrun, hm, hidle, hcontent, hrow⟩ := exists_winRun (copySchedule ++ copySchedule)
    (fun x => Meets NoThrow x.1 ∧ allIdle x.2 = true ∧
      x.2.world.volume.contentAt asciiLower
        ((rootedPathResolver nasConfig).cacheAbsolute plainName) = some abc ∧
      (x.2.world.index.files.lookup plainName).any (fun row =>
        row.cachePresent ∧ row.hashAlgo = some "sha256" ∧ row.hashHex = some "") = true)
    (by decide +kernel)
  refine ⟨h, c, hrun, hm, hidle, shareStart_stored, hcontent, fun hstored => ?_⟩
  obtain ⟨row, hlookup, hcolumns⟩ := (Option.any_eq_true _ _).1 hrow
  obtain ⟨hpresent, halgo, hhex⟩ := of_decide_eq_true hcolumns
  obtain ⟨data, -, hdigest⟩ := hstored row hlookup hpresent halgo
  have hempty : "" = WinFileCopyEngine.lowerHex (digestOfAbc data) :=
    Option.some.inj (hhex.symm.trans hdigest)
  exact absurd (show "" = WinFileCopyEngine.lowerHex (digestOfAbc abc) from hempty) (by decide)

end SsdCache
