import SsdCache.Proof.Index
import SsdCache.Spec.History

/-!
# What a step does to each part of the world

Only index calls that do not throw move the index rows, only engine calls the
volume, only memory calls the scheduler's memory, and only the environment the clock.
-/

namespace SsdCache

open Atomic

variable {V : Type} {sv : Service V} {menu : Menu V} {w w' : World V} {a : Call}
variable {r : Except String a.Answer} {c c' : State V} {l : Event}

/-- The history after a call of `t`. -/
abbrev acted (w : World V) (t : Party) {a : Call} (r : Except String a.Answer) (h : History V) :
    History V := (w, .act t a r) :: h

/-- Engine calls, which alone touch the volume. -/
def Call.Engine : Call → Prop
  | .copyAndHash _ _ _ _ | .removeCachedFile _ _ => True
  | _ => False

/-- **What a call can do**: move the index by a statement, the volume by the engine,
or the memory; and nothing else. -/
theorem exec_cases (h : exec sv w a r w') :
    (∃ u ix, a = .update u ∧ w' = { w with index := ix } ∧
      (∀ p, ix.job p =
        (a.written r).elim (w.index.job p) fun u => u.onJob p (w.index.job p)) ∧
      ∀ p, ix.status p =
        (a.written r).elim (w.index.status p) fun u => u.onStatus p (w.index.status p)) ∨
    (∃ v, a.Engine ∧ a.written r = none ∧ w' = { w with volume := v }) ∨
    (∃ m b, a = .memory m ∧ a.written r = none ∧ w' = { w with memory := b }) ∨
    (a.written r = none ∧ w' = w) := by
  cases a with
  | update u =>
    left
    cases r with
    | ok v =>
      obtain ⟨ix, hu, hw⟩ := h
      exact ⟨u, ix, rfl, hw, Update.job_apply hu, Update.status_apply hu⟩
    | error e =>
      obtain ⟨ix, hu, hw⟩ := h
      exact ⟨u, ix, rfl, hw, Update.job_fails hu, Update.status_fails hu⟩
  | query q =>
    right; right; right
    cases r with
    | ok v => exact ⟨rfl, h.2⟩
    | error e => exact ⟨rfl, h⟩
  | copyAndHash p s c m =>
    obtain ⟨v, -, hw⟩ := h
    exact .inr (.inl ⟨v, trivial, rfl, hw⟩)
  | removeCachedFile p c =>
    obtain ⟨v, -, hw⟩ := h
    exact .inr (.inl ⟨v, trivial, rfl, hw⟩)
  | freeBytes root => exact .inr (.inr (.inr ⟨rfl, h.2⟩))
  | memory m =>
    cases r with
    | ok v => exact .inr (.inr (.inl ⟨m, w'.memory, rfl, rfl, h.2.2⟩))
    | error e => exact h.elim

theorem exec_job (h : exec sv w a r w') (p : WString) :
    w'.index.job p = (a.written r).elim (w.index.job p) fun u => u.onJob p (w.index.job p) := by
  rcases exec_cases h with ⟨u, ix, -, rfl, hj, -⟩ | ⟨v, -, hu, rfl⟩ | ⟨m, b, -, hu, rfl⟩ | ⟨hu, rfl⟩
  · exact hj p
  all_goals rw [hu]; rfl

theorem exec_status (h : exec sv w a r w') (p : WString) :
    w'.index.status p =
      (a.written r).elim (w.index.status p) fun u => u.onStatus p (w.index.status p) := by
  rcases exec_cases h with ⟨u, ix, -, rfl, -, hs⟩ | ⟨v, -, hu, rfl⟩ | ⟨m, b, -, hu, rfl⟩ | ⟨hu, rfl⟩
  · exact hs p
  all_goals rw [hu]; rfl

theorem exec_volume (h : exec sv w a r w') (ha : ¬ a.Engine) : w'.volume = w.volume := by
  rcases exec_cases h with ⟨u, ix, -, rfl, -⟩ | ⟨v, he, -⟩ | ⟨m, b, -, -, rfl⟩ | ⟨-, rfl⟩
  · rfl
  · exact absurd he ha
  · rfl
  · rfl

theorem exec_memory (h : exec sv w a r w') (ha : ∀ m, a ≠ .memory m) : w'.memory = w.memory := by
  rcases exec_cases h with ⟨u, ix, -, rfl, -⟩ | ⟨v, -, -, rfl⟩ | ⟨m, b, hm, -⟩ | ⟨-, rfl⟩
  · rfl
  · rfl
  · exact absurd hm (ha m)
  · rfl

/-- What an access to the memory does. -/
theorem exec_memoryCall {m : MemoryCall} {r : m.Answer}
    (h : exec sv w (.memory m) (.ok (show (Call.memory m).Answer from r)) w') :
    m.Enabled w.memory ∧ r = (m.run w.memory w.clock).1 ∧
      w' = { w with memory := (m.run w.memory w.clock).2 } := by
  obtain ⟨he, hrun, hw⟩ := h
  have hmemory : w'.memory = (m.run w.memory w.clock).2 := congrArg Prod.snd hrun
  rw [hmemory] at hw
  exact ⟨he, congrArg Prod.fst hrun, hw⟩

theorem exec_clock (h : exec sv w a r w') : w'.clock = w.clock := by
  rcases exec_cases h with ⟨u, ix, -, rfl, -⟩ | ⟨v, -, -, rfl⟩ | ⟨m, b, -, -, rfl⟩ | ⟨-, rfl⟩ <;> rfl

theorem pushAll_paused : ∀ (jobs : List PendingJob) (m : Memory), (m.pushAll jobs).paused = m.paused
  | [], _ => rfl
  | j :: js, m => pushAll_paused js (m.push j.relativePath (floorToSeconds j.dueUtc))

/-- Only `set_paused` moves the pause. -/
theorem exec_paused (h : exec sv w a r w') (ha : ∀ b, a ≠ .memory (.exchangePaused b)) :
    w'.memory.paused = w.memory.paused := by
  cases a with
  | memory m =>
    cases r with
    | error e => exact h.elim
    | ok v =>
      obtain ⟨-, -, rfl⟩ := exec_memoryCall h
      cases m with
      | exchangePaused b => exact absurd rfl (ha b)
      | compareExchangeStop expected desired =>
        simp only [MemoryCall.run]
        split <;> rfl
      | popDue =>
        simp only [MemoryCall.run, Memory.popDue]
        split
        · rfl
        · split <;> rfl
      | pushAll jobs => exact pushAll_paused jobs w.memory
      | _ => rfl
  | _ => rw [exec_memory h fun _ => nofun]

/-- Only `delete_record` takes a file row. -/
theorem exec_known {p : WString} (h : exec sv w a r w')
    (hu : ∀ q, a.written r ≠ some (.deleteRecord q)) (hp : w.index.status p ≠ none) :
    w'.index.status p ≠ none := by
  rw [exec_status h]
  cases hw : a.written r with
  | none => exact hp
  | some u =>
    simp only [Option.elim_some]
    cases u with
    | recordAccess event d =>
      simp only [Update.onStatus]
      split
      · exact Option.some_ne_none _
      · exact hp
    | deleteRecord q => exact absurd hw (hu q)
    | markCached q sz cz hash t =>
      simp only [Update.onStatus]
      split
      · simpa using hp
      · exact hp
    | markRemoved q =>
      simp only [Update.onStatus]
      split
      · simpa using hp
      · exact hp
    | upsertPendingJob q due m => exact hp
    | removePendingJob q => exact hp
    | recordError q m => exact hp

/-- The jobs have file rows. -/
def Known (jobs : List PendingJob) (w : World V) : Prop :=
  ∀ j ∈ jobs, w.index.status j.relativePath ≠ none

theorem known_step {jobs : List PendingJob} (h : exec sv w a r w')
    (hu : ∀ q, a.written r ≠ some (.deleteRecord q)) (hk : Known jobs w) : Known jobs w' :=
  fun j hj => exec_known h hu (hk j hj)

/-- **The job row of a path moves with the index writes committed.** -/
theorem step_job (hs : Step (system sv menu) c l c') (p : WString) :
    c'.world.index.job p =
      (committed l).elim (c.world.index.job p) fun u => u.onJob p (c.world.index.job p) := by
  cases hs with
  | call hd hm => rfl
  | act hk hx => exact exec_job hx p
  | env he => obtain ⟨clock, -, hw⟩ := he; rw [hw]; rfl

end SsdCache
