import SsdCache.Spec.System

/-!
# Executing schedules

A `Disk` is a small cache volume with a script of what the next copies do; with it
every call has one answer (`answer`), so that schedules of the system can be
executed. `player` does so, and `Player.play_run` makes a run of it.
-/

namespace SsdCache

open Atomic Sql

/-- A cache volume: its files, what the next copies will do (copy, once the script
is over), and its free space. -/
structure Disk where
  files : List WString := []
  script : List CopyAction := []
  free : UInt64 := 0
  deriving DecidableEq, Repr

namespace Disk

/-- What the next copy does; it is cancelled only on request. -/
def next (v : Disk) (cancelled : Bool) : CopyAction :=
  match v.script.headD .copied with
  | .cancelled => if cancelled then .cancelled else .failed
  | action => action

def copyAndHash (v : Disk) (cache : WString) (cancelled : Bool) : CopyResult × Disk :=
  ({ action := v.next cancelled, completedAt := 0 },
    { v with
      files := if (v.next cancelled).Cached then cache :: v.files else v.files
      script := v.script.tail })

def removeCachedFile (v : Disk) (cache : WString) : RemoveResult × Disk :=
  ({ removed := cache ∈ v.files, missing := cache ∉ v.files },
    { v with files := v.files.filter (· ≠ cache) })

def platform : Platform Disk where
  copyAndHash v _ cache _ cancelled r v' :=
    r = .ok (v.copyAndHash cache cancelled).1 ∧ v' = (v.copyAndHash cache cancelled).2
  removeCachedFile v cache r v' :=
    r = .ok (v.removeCachedFile cache).1 ∧ v' = (v.removeCachedFile cache).2
  freeBytes v _ r := r = .ok (some v.free)
  HasFile v cache := cache ∈ v.files

/-- The volume honours the interface of the copy engine. -/
theorem honoursInterface : platform.HonoursInterface where
  copy_cached := by
    rintro v v' s c m k r ⟨hr, rfl⟩ hc
    cases hr
    have hc : (v.next k).Cached := hc
    simp [platform, copyAndHash, if_pos hc]
  copy_kept := by
    rintro v v' s c m k r ⟨hr, rfl⟩ hc
    cases hr
    have hc : ¬ (v.next k).Cached := hc
    simp [platform, copyAndHash, if_neg hc]
  copy_frame := by
    rintro v v' s c m k r x ⟨-, rfl⟩ hx
    simp only [platform, copyAndHash]
    split <;> simp [hx]
  remove_clean := by
    rintro v v' c r ⟨-, rfl⟩ -
    simp [platform, removeCachedFile]
  remove_kept := by
    rintro v v' c r ⟨hr, rfl⟩ hc
    cases hr
    exact absurd rfl hc
  remove_frame := by
    rintro v v' c r x ⟨-, rfl⟩ hx
    simp [platform, removeCachedFile, hx]

/-- Its calls never throw. -/
theorem keepsOnThrow : platform.KeepsOnThrow where
  copy_throws := by rintro v v' s c m k e x ⟨hr, -⟩; cases hr
  remove_throws := by rintro v v' c e x ⟨hr, -⟩; cases hr

end Disk

/-! ## The answers of a disk -/

variable {sv : Service Disk}

/-- Relative paths are the cache paths. -/
def plainPaths : PathResolver := ⟨id, id⟩

def Query.run (ix : CacheIndex) (clock : ℤ) : (q : Query) → q.Answer
  | pendingJob p => ix.pendingJob clock p
  | fileRecord p => ix.fileRecord clock p
  | loadPendingJobs => ix.loadPendingJobs clock
  | loadRecordPaths => ix.loadRecordPaths
  | dueJobs nowUtc limit => ix.dueJobs clock nowUtc limit
  | cachedFilesByLastAccess => ix.cachedFilesByLastAccess

theorem Query.answers_run (ix : CacheIndex) (clock : ℤ) (q : Query) :
    q.Answers ix clock (q.run ix clock) := by
  cases q with
  | pendingJob p => rfl
  | fileRecord p => rfl
  | loadRecordPaths => rfl
  | loadPendingJobs => exact ⟨_, select_isSelect .., rfl⟩
  | dueJobs nowUtc limit => exact ⟨_, select_isSelect .., rfl⟩
  | cachedFilesByLastAccess => exact ⟨_, select_isSelect .., rfl⟩

/-- The answer of each call, when it has one. -/
def answer (w : World Disk) : (a : Call) → Option (Except String a.Answer × World Disk)
  | .update u =>
    match u.apply w.index with
    | .ok ix => some (.ok (), { w with index := ix })
    | .error _ => none
  | .query q => some (.ok (q.run w.index w.clock), w)
  | .copyAndHash _ _ cache _ =>
    let r := w.volume.copyAndHash cache w.memory.stopRequested
    some (.ok r.1, { w with volume := r.2 })
  | .removeCachedFile _ cache =>
    let r := w.volume.removeCachedFile cache
    some (.ok r.1, { w with volume := r.2 })
  | .freeBytes _ => some (.ok (some w.volume.free), w)
  | .memory a =>
    if a.Enabled w.memory then
      some (.ok (a.run w.memory w.clock).1, { w with memory := (a.run w.memory w.clock).2 })
    else none

theorem exec_answer (hsv : sv.platform = Disk.platform) {w w' : World Disk} {a : Call}
    {r : Except String a.Answer} (h : answer w a = some (r, w')) : exec sv w a r w' := by
  cases a with
  | update u =>
    simp only [answer] at h
    split at h
    · rename_i ix hu
      cases h
      exact ⟨ix, hu, rfl⟩
    · cases h
  | query q => cases h; exact ⟨q.answers_run _ _, rfl⟩
  | copyAndHash p s c m => cases h; exact ⟨_, by rw [hsv]; exact ⟨rfl, rfl⟩, rfl⟩
  | removeCachedFile p c => cases h; exact ⟨_, by rw [hsv]; exact ⟨rfl, rfl⟩, rfl⟩
  | freeBytes root => cases h; exact ⟨by rw [hsv]; exact rfl, rfl⟩
  | memory a =>
    simp only [answer] at h
    split at h
    · rename_i he
      cases h
      exact ⟨he, rfl, rfl⟩
    · cases h

/-- The query of the due jobs. -/
def Query.asksDue : Query → Bool
  | .dueJobs _ _ => true
  | _ => false

/-- The lookup of a job. -/
def Query.looksUp : Query → Bool
  | .pendingJob _ => true
  | _ => false

/-- The same while some queries find the database busy. -/
def answerBusy (busy : Query → Bool) (w : World Disk) :
    (a : Call) → Option (Except String a.Answer × World Disk)
  | .query q => if busy q then some (.error "database is locked", w) else answer w (.query q)
  | a => answer w a

theorem exec_answerBusy (hsv : sv.platform = Disk.platform) {busy : Query → Bool}
    {w w' : World Disk} {a : Call} {r : Except String a.Answer}
    (h : answerBusy busy w a = some (r, w')) : exec sv w a r w' := by
  cases a with
  | query q =>
    simp only [answerBusy] at h
    split at h
    · cases h; rfl
    · exact exec_answer hsv h
  | _ => exact exec_answer hsv h

/-- A job of `p` is due, and so is its entry. -/
def jobDue (p : WString) : World Disk where
  index := ({} : CacheIndex).recordAccess { relativePath := p, observedAt := 0 } 60
  memory := { heap := [⟨600000000, 0, p⟩] }
  volume := {}
  clock := 600000000

/-- Plays schedules on a disk. -/
def player (sv : Service Disk) (hsv : sv.platform = Disk.platform) (menu : Menu Disk) :
    Player (system sv menu) ℤ where
  act := answer
  env clock w := { w with clock }
  menu := menu
  envOk clock w := w.clock ≤ clock
  act_ok := exec_answer hsv
  menu_ok := id
  env_ok {clock _} h := ⟨clock, of_decide_eq_true h, rfl⟩

/-- The next `n` calls of a party. -/
def steps (t : Party) (n : ℕ) : List (Move Party Operation ℤ) := List.replicate n (.act t)

/-- A service on a disk. -/
def diskService (settings : SchedulerSettings) : Service Disk where
  platform := Disk.platform
  pathResolver := plainPaths
  settings := settings

/-- A schedule of a service on a disk that plays to a state with property `p`. -/
theorem exists_run (settings : SchedulerSettings) (menu : Menu Disk) (w : World Disk)
    (ms : List (Move Party Operation ℤ)) (p : History Disk × State Disk → Prop) [DecidablePred p]
    (hp : ((player (diskService settings) rfl menu).play ms ([], .idle w)).any
      (fun x => decide (p x)) = true) :
    ∃ h c, Run (system (diskService settings) menu) (.idle w) h c ∧ p (h, c) :=
  (player _ rfl menu).exists_run ms p hp

/-- The world a new process starts up to after a crash. -/
def restarted (ignored isDirectory : WString → Bool) (w : World Disk) : Option (World Disk) :=
  match (startup ignored isDirectory).eval (S := calls) answer { w with memory := {} } with
  | some (.ok (), w') => some w'
  | _ => none

theorem restarts_of_restarted {ignored isDirectory : WString → Bool} {w w' : World Disk}
    (hsv : sv.platform = Disk.platform) (h : restarted ignored isDirectory w = some w') :
    Restarts sv ignored isDirectory w w' := by
  unfold restarted at h
  split at h
  · rename_i u hu
    cases h
    exact ⟨w.clock, Prog.ends_of_eval (fun ha => exec_answer hsv ha) hu⟩
  · cases h

end SsdCache
