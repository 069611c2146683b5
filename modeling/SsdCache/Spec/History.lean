import SsdCache.Atomic.Past
import SsdCache.Spec.System

/-!
# What a step did

Names for the steps a property of the system speaks about: the index write it
committed, the file it copied or removed, the batch it began.
-/

namespace SsdCache

open Atomic

/-- What may be asked of every step of a run. -/
abbrev Condition (V : Type) : Type := Pattern calls String (World V) Party Operation

/-- The index write of a call that did not throw. -/
def Call.written : (a : Call) → Except String a.Answer → Option Update
  | .update u, .ok _ => some u
  | _, _ => none

/-- The index write that a step committed. -/
def committed : Event → Option Update
  | .act _ a r => a.written r
  | _ => none

/-- The access event of `p` that a step recorded, with the copy delay. -/
def recorded (p : WString) (l : Event) : Option (AccessEvent × ℤ) :=
  match committed l with
  | some (.recordAccess event copyDelay) =>
    if p = event.relativePath ∧ p ≠ [] then some (event, copyDelay) else none
  | _ => none

/-- When the copy of `p` that a step scheduled is due: `observed_at + copy_delay`,
for a `ReadOpen` or `WriteClosed` event of `p`. -/
def scheduled (p : WString) (l : Event) : Option ℤ :=
  (recorded p l).bind fun e =>
    if shouldScheduleCopy e.1.kind then some (addSeconds e.1.observedAt e.2) else none

/-- A step that recorded a `ReadOpen` or `WriteClosed` event of `p`. -/
def Accesses (p : WString) (l : Event) : Prop := (scheduled p l).isSome = true

/-- A step of the event thread that recorded a `Delete` event of `p`. -/
def Deletes (p : WString) : Event → Prop
  | .act .events a r => a.written r = some (.markRemoved p)
  | _ => False

/-- The answer of a `copy_and_hash(p)` call. -/
def copyAnswer (p : WString) : Event → Option (Except String CopyResult)
  | .act _ (.copyAndHash q _ _ _) r => if p = q then some r else none
  | _ => none

/-- A `copy_and_hash(p)` call. -/
def Copies (p : WString) (l : Event) : Prop := (copyAnswer p l).isSome = true

/-- A `copy_and_hash(p)` call that returned `Copied` or `Skipped*`. -/
def Caches (p : WString) (l : Event) : Prop :=
  match copyAnswer p l with
  | some (.ok r) => r.action.Cached
  | _ => False

/-- The answer of a removal of the cache file of `p`. -/
def removeAnswer (p : WString) : Event → Option (Except String RemoveResult)
  | .act _ (.removeCachedFile q _) r => if p = q then some r else none
  | _ => none

/-- A removal of the cache file of `p` without error. -/
def Removes (p : WString) (l : Event) : Prop :=
  match removeAnswer p l with
  | some (.ok r) => r.Clean
  | _ => False

/-- The query that begins a batch, with its cutoff time. -/
def batchStart : Event → Option ℤ
  | .act _ (.query (.dueJobs nowUtc _)) (.ok _) => some nowUtc
  | _ => none

/-- The path of the access event that a step recorded. -/
def eventPath (l : Event) : Option WString :=
  match committed l with
  | some (.recordAccess event _) => some event.relativePath
  | _ => none

/-- The retry time that a step gave to a job. -/
def retried (l : Event) : Option (WString × ℤ) :=
  match committed l with
  | some (.upsertPendingJob p dueUtc _) => some (p, dueUtc)
  | _ => none

/-- The path that a step copied. -/
def copiedPath : Event → Option WString
  | .act _ (.copyAndHash p _ _ _) _ => some p
  | _ => none

/-! ## Due times -/

variable {V : Type}

/-- When the copies of `p` that were scheduled are due. -/
def dues (p : WString) : History V → List ℤ
  | [] => []
  | (_, l) :: h => (scheduled p l).toList ++ dues p h

/-- Those scheduled since the current batch was queried. -/
def newDues (p : WString) : History V → List ℤ
  | [] => []
  | (_, l) :: h => if (batchStart l).isSome then [] else (scheduled p l).toList ++ newDues p h

/-- The cutoff time of the current batch. -/
def cutoff : History V → Option ℤ
  | [] => none
  | (_, l) :: h => (batchStart l).or (cutoff h)

/-! ## Steps of the engine -/

/-- A call that threw. -/
def Throws : Event → Prop
  | .act _ _ (.error _) => True
  | _ => False

instance (p : WString) (l : Event) : Decidable (Accesses p l) :=
  inferInstanceAs (Decidable (_ = _))

instance (p : WString) (l : Event) : Decidable (Copies p l) :=
  inferInstanceAs (Decidable (_ = _))

instance (p : WString) (l : Event) : Decidable (Deletes p l) :=
  match l with
  | .act .events a r => inferInstanceAs (Decidable (a.written r = _))
  | .act .worker _ _ | .act .control _ _ | .act .freeProcess _ _ | .call _ _ | .env => .isFalse id

instance (p : WString) (l : Event) : Decidable (Caches p l) :=
  match h : copyAnswer p l with
  | some (.ok r) => decidable_of_iff r.action.Cached (by rw [Caches, h])
  | some (.error _) => .isFalse (by rw [Caches, h]; exact id)
  | none => .isFalse (by rw [Caches, h]; exact id)

instance (p : WString) (l : Event) : Decidable (Removes p l) :=
  match h : removeAnswer p l with
  | some (.ok r) => decidable_of_iff r.Clean (by rw [Removes, h])
  | some (.error _) => .isFalse (by rw [Removes, h]; exact id)
  | none => .isFalse (by rw [Removes, h]; exact id)

instance (l : Event) : Decidable (Throws l) :=
  match l with
  | .act _ _ (.error _) => .isTrue trivial
  | .act _ _ (.ok _) | .call _ _ | .env => .isFalse id

/-- No call throws. -/
def NoThrow (_ : History V) (_ : World V) (l : Event) : Prop := ¬ Throws l

instance (h : History V) (w : World V) (l : Event) : Decidable (NoThrow h w l) :=
  inferInstanceAs (Decidable (¬ _))

theorem Call.eq_of_written {a : Call} {r : Except String a.Answer} {u : Update}
    (hu : a.written r = some u) : a = .update u := by
  unfold Call.written at hu
  split at hu
  · cases hu
    rfl
  · cases hu

theorem copies_iff {p : WString} {l : Event} : Copies p l ↔ copiedPath l = some p := by
  unfold Copies copyAnswer copiedPath
  split
  · rename_i q s c m r
    by_cases hp : p = q
    · rw [if_pos hp, hp]
      exact iff_of_true rfl rfl
    · rw [if_neg hp]
      exact iff_of_false nofun fun heq => hp (Option.some.inj heq).symm
  · exact iff_of_false nofun nofun

@[simp] theorem caches_act {p q s c : WString} {m : Bool} {t : Party} {r : CopyResult} :
    Caches p (.act t (.copyAndHash q s c m) (.ok r)) ↔ p = q ∧ r.action.Cached := by
  by_cases hp : p = q
  · simp [Caches, copyAnswer, hp]
  · simp [Caches, copyAnswer, hp]

@[simp] theorem removes_act {p q c : WString} {t : Party} {r : RemoveResult} :
    Removes p (.act t (.removeCachedFile q c) (.ok r)) ↔ p = q ∧ r.Clean := by
  by_cases hp : p = q
  · simp [Removes, removeAnswer, hp]
  · simp [Removes, removeAnswer, hp]

@[simp] theorem not_caches_error {p q s c : WString} {m : Bool} {t : Party} {e : String} :
    ¬ Caches p (.act t (.copyAndHash q s c m) (.error e)) := by
  by_cases hp : p = q
  · simp [Caches, copyAnswer, hp]
  · simp [Caches, copyAnswer, hp]

@[simp] theorem not_removes_error {p q c : WString} {t : Party} {e : String} :
    ¬ Removes p (.act t (.removeCachedFile q c) (.error e)) := by
  by_cases hp : p = q
  · simp [Removes, removeAnswer, hp]
  · simp [Removes, removeAnswer, hp]

end SsdCache
