import SsdCache.Proof.Dues
import Mathlib.Data.Set.Basic

/-!
# Job rows and their heap entries

The queue is kept twice: as rows of the index and as entries of the heap. `HasEntries m`
says that every row has its entry, but for those in `m` and the one whose push the event
thread owes.

* `RowsTimed`: every row has a path and the text of a time point; each step keeps it.
* `HasEntries.keep`: a step that puts no row keeps the entries it does not take.
-/

namespace SsdCache

open Atomic

variable {V : Type} {sv : Service V} {menu : Menu V} {w w' : World V} {h h' : History V}
variable {c c' : State V} {a : Call} {p : WString} {d : ℤ} {l : Event} {t : Party}

/-! ## Rows -/

/-- Clock readings, due times and retry times are between 1970 and year 9999. -/
structure InTime (h : History V) (w : World V) (l : Event) : Prop where
  clock : InRange w.clock
  due : ∀ p ∈ eventPath l, ∀ d ∈ scheduled p l, InRange d
  retry : ∀ q ∈ retried l, InRange q.2

instance (h : History V) (w : World V) (l : Event) : Decidable (InTime h w l) :=
  decidable_of_iff (InRange w.clock ∧ (∀ p ∈ eventPath l, ∀ d ∈ scheduled p l, InRange d) ∧
    ∀ q ∈ retried l, InRange q.2)
    ⟨fun ⟨hc, hd, hr⟩ => ⟨hc, hd, hr⟩, fun hl => ⟨hl.clock, hl.due, hl.retry⟩⟩

/-- Every job row has a path and the text of a time in range. -/
def RowsTimed (ix : CacheIndex) : Prop :=
  ∀ p row, ix.job p = some row → p ≠ [] ∧ ∃ d, InRange d ∧ row.dueUtc = formatUtc d

/-- When a row is due. -/
theorem RowsTimed.due {ix : CacheIndex} (hI : RowsTimed ix) {row : JobRow}
    (hrow : ix.job p = some row) :
    ∃ d, InRange d ∧ floorToSeconds d = d ∧ row.dueUtc = formatUtc d ∧
      parseUtc row.dueUtc = some d := by
  obtain ⟨-, d, hd, htext⟩ := hI p row hrow
  refine ⟨floorToSeconds d, hd.floor, floorToSeconds_idem d, ?_, ?_⟩
  · rw [formatUtc_floor, htext]
  · rw [htext, parse_format hd]

theorem RowsTimed.parse {ix : CacheIndex} (hI : RowsTimed ix) {row : JobRow}
    (hrow : ix.job p = some row) (hd : parseUtc row.dueUtc = some d) :
    InRange d ∧ floorToSeconds d = d ∧ row.dueUtc = formatUtc d := by
  obtain ⟨d', hrange, hfloor, htext, hparse⟩ := hI.due hrow
  cases hd.symm.trans hparse
  exact ⟨hrange, hfloor, htext⟩

theorem path_of_scheduled (hs : scheduled p l = some d) : p ≠ [] := by
  unfold scheduled recorded at hs
  split at hs
  · split at hs
    · rename_i hp
      exact hp.2
    · cases hs
  · cases hs

/-- The row a retry leaves. -/
theorem row_of_retry {due : ℤ} {m : String} {row : Option JobRow} {row' : JobRow} (hp : p ≠ [])
    (hrow : (Update.upsertPendingJob p due m).onJob p row = some row') :
    row'.dueUtc = formatUtc due := by
  rw [Update.onJob, if_pos ⟨rfl, hp⟩] at hrow
  cases row <;> cases hrow <;> rfl

/-- **Every step keeps the rows timed.** -/
theorem rowsTimed_step (hs : Step (system sv menu) c l c') (hc : InTime h c.world l)
    (hI : RowsTimed c.world.index) : RowsTimed c'.world.index := by
  intro p row hrow
  rw [step_job hs p] at hrow
  cases hu : committed l with
  | none => rw [hu] at hrow; exact hI p row hrow
  | some u =>
    rw [hu, Option.elim_some] at hrow
    cases hsched : scheduled p l with
    | some d =>
      obtain ⟨row', hrow', hdue⟩ := row_of_scheduled hsched hu hrow.symm
      cases hrow'
      exact ⟨path_of_scheduled hsched, d, hc.due p (eventPath_of_scheduled hsched) d hsched, hdue⟩
    | none =>
      by_cases hup : ∃ due m, u = .upsertPendingJob p due m
      · obtain ⟨due, m, rfl⟩ := hup
        by_cases hp : p = []
        · rw [Update.onJob, if_neg fun h => h.2 hp] at hrow
          exact hI p row hrow
        · exact ⟨hp, due, hc.retry (p, due) (by simp [retried, hu]), row_of_retry hp hrow⟩
      · obtain ⟨row', hrow', hdue⟩ := due_of_row hsched hu hrow fun due m heq => hup ⟨due, m, heq⟩
        rw [← hdue]
        exact hI p row' hrow'

/-- **A call that puts no row of `p`** leaves when it is due. -/
theorem due_of_exec {r : Except String a.Answer} {row' : JobRow} (hx : exec sv w a r w')
    (hs : scheduled p (.act t a r) = none) (ha : ∀ due m, a ≠ .update (.upsertPendingJob p due m))
    (hrow : w'.index.job p = some row') :
    ∃ row, w.index.job p = some row ∧ row.dueUtc = row'.dueUtc := by
  rw [exec_job hx] at hrow
  cases hu : a.written r with
  | none => rw [hu] at hrow; exact ⟨row', hrow, rfl⟩
  | some u =>
    rw [hu, Option.elim_some] at hrow
    refine due_of_row (l := .act t a r) hs hu hrow fun due m heq => ?_
    subst heq
    exact ha due m (Call.eq_of_written hu)

/-! ## Entries -/

/-- The heap holds an entry of `p` due at `d`. -/
def Queued (m : Memory) (p : WString) (d : ℤ) : Prop :=
  ∃ e ∈ m.heap, e.relativePath = p ∧ e.dueUtc = d

theorem queued_push {m : Memory} {q : WString} {due : ℤ} :
    Queued (m.push q due) p d ↔ Queued m p d ∨ (q = p ∧ due = d) := by
  unfold Queued Memory.push
  simp only [List.mem_orderedInsert, exists_eq_or_imp]
  exact or_comm

theorem queued_pushAll : ∀ {jobs : List PendingJob} {m : Memory},
    Queued (m.pushAll jobs) p d ↔
      Queued m p d ∨ ∃ j ∈ jobs, j.relativePath = p ∧ floorToSeconds j.dueUtc = d
  | [], m => by simp [Memory.pushAll]
  | j :: js, m => by
    have ih : Queued ((m.push j.relativePath (floorToSeconds j.dueUtc)).pushAll js) p d ↔ _ :=
      queued_pushAll
    rw [queued_push, or_assoc] at ih
    rw [List.exists_mem_cons_iff]
    exact ih

/-- The entry the worker pops is the only one that goes. -/
theorem queued_popDue {m : Memory} {clock : ℤ} (hq : Queued m p d) :
    Queued (m.popDue clock).2 p d ∨
      ∃ e, (m.popDue clock).1 = some e ∧ e.relativePath = p ∧ e.dueUtc = d := by
  obtain ⟨e, he, hp, hd⟩ := hq
  unfold Memory.popDue
  split
  · rename_i hheap
    rw [hheap] at he
    cases he
  · rename_i next rest hheap
    split
    · exact .inl ⟨e, he, hp, hd⟩
    · rw [hheap] at he
      rcases List.mem_cons.1 he with rfl | he
      · exact .inr ⟨e, rfl, hp, hd⟩
      · exact .inl ⟨e, he, hp, hd⟩

/-- What a step does to the push that the event thread owes. -/
def owes : Event → Option (Option (WString × ℤ))
  | .act .events (.memory (.push _ _)) (.ok _) => some none
  | .act .events (.update (.recordAccess event copyDelay)) (.ok _) =>
    if shouldScheduleCopy event.kind then
      some (some (event.relativePath, floorToSeconds (addSeconds event.observedAt copyDelay)))
    else none
  | _ => none

/-- The heap entry of an access that the event thread recorded and did not push yet. -/
def owedPush : History V → Option (WString × ℤ)
  | [] => none
  | (_, l) :: h => (owes l).getD (owedPush h)

/-- The heap entry that a step popped. -/
def popAnswer : Event → Option (Option HeapEntry)
  | .act .worker (.memory .popDue) (.ok r) => some r
  | _ => none

/-- The heap entry that the worker popped last. -/
def popped : History V → Option HeapEntry
  | [] => none
  | (_, l) :: h => (popAnswer l).getD (popped h)

theorem owedPush_of_none (hl : owes l = none) : owedPush ((w, l) :: h) = owedPush h := by
  rw [owedPush, hl]
  rfl

theorem popped_of_none (hl : popAnswer l = none) : popped ((w, l) :: h) = popped h := by
  rw [popped, hl]
  rfl

/-- Every row has its heap entry, but for those in `m` and the one whose push is owed. -/
def HasEntries (m : Set (WString × ℤ)) (x : History V × World V) : Prop :=
  ∀ p row d, x.2.index.job p = some row → parseUtc row.dueUtc = some d →
    Queued x.2.memory p d ∨ (p, d) ∈ m ∨ owedPush x.1 = some (p, d)

theorem HasEntries.mono {m m' : Set (WString × ℤ)} {x : History V × World V} (hm : m ⊆ m')
    (hI : HasEntries m x) : HasEntries m' x :=
  fun p row d hrow hd => (hI p row d hrow hd).imp_right (Or.imp_left fun h => hm h)

/-- **A step that puts no row** keeps the entries, but for what it takes from the heap. -/
theorem HasEntries.keep {m m' : Set (WString × ℤ)} (hI : HasEntries m (h, w))
    (hrow : ∀ {p row'}, w'.index.job p = some row' →
      ∃ row, w.index.job p = some row ∧ row.dueUtc = row'.dueUtc)
    (hqueue : ∀ {p d}, Queued w.memory p d → Queued w'.memory p d ∨ (p, d) ∈ m')
    (hm : ∀ {p row d}, w'.index.job p = some row → parseUtc row.dueUtc = some d → (p, d) ∈ m →
      Queued w'.memory p d ∨ (p, d) ∈ m')
    (howed : ∀ {q}, owedPush h = some q → Queued w'.memory q.1 q.2 ∨ owedPush h' = some q) :
    HasEntries m' (h', w') := by
  intro p row' d hrow' hd
  obtain ⟨row, hbefore, hdue⟩ := hrow hrow'
  rcases hI p row d hbefore (by rwa [hdue]) with hq | hexempt | ho
  · exact (hqueue hq).imp_right .inl
  · exact (hm hrow' hd hexempt).imp_right .inl
  · exact (howed ho).imp_right .inr

/-- **A step that puts the row of `q`** keeps the entries, if that row is exempt. -/
theorem HasEntries.put {m m' : Set (WString × ℤ)} {q : WString} (hI : HasEntries m (h, w))
    (hput : ∀ {row d}, w'.index.job q = some row → parseUtc row.dueUtc = some d →
      (q, d) ∈ m' ∨ owedPush h' = some (q, d))
    (hother : ∀ {p}, p ≠ q → w'.index.job p = w.index.job p)
    (hqueue : w'.memory = w.memory) (hm : ∀ {p d}, p ≠ q → (p, d) ∈ m → (p, d) ∈ m')
    (howed : ∀ {p d}, p ≠ q → owedPush h = some (p, d) → owedPush h' = some (p, d)) :
    HasEntries m' (h', w') := by
  intro p row d hrow hd
  by_cases hp : p = q
  · subst hp
    exact .inr (hput hrow hd)
  · rw [hother hp] at hrow
    refine (hI p row d hrow hd).imp (fun hq => ?_) (Or.imp (hm hp) (howed hp))
    rwa [show (h', w').2.memory = w.memory from hqueue]

end SsdCache
