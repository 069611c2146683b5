import SsdCache.Proof.Passes
import SsdCache.Proof.Stranded

/-!
# Exceptions in a batch

The worker pops an entry before it runs the batch, and its handler pushes none. So when a
call of the batch throws, the rows keep their entries but for the row of the popped path,
whose entry is gone.

* `HalfDone`: where a batch stands between two calls, `halfDoneBatch` its outline.
* `jobs_kept_iff`: every row has an entry after the handler exactly if the batch had
  settled the popped job, or another entry of it is left.
* `row_stranded_by_throw`: the first call of a batch throws.
-/

namespace SsdCache

open Atomic

variable {V : Type} {sv : Service V} {w w' : World V} {a : Call} {r : Except String a.Answer}
variable {e : HeapEntry} {rest : List HeapEntry} {p q : WString} {d now : ℤ} {tr : List Answered}

/-- A call, some time after the last one. The clock stays so far from year 10000 that the
times of retries are before it. -/
def timed (sv : Service V) (w : World V) (a : Call) (r : Except String a.Answer) (w' : World V) :
    Prop :=
  ∃ clock, w.clock ≤ clock ∧ clock + 300 * ticksPerSecond < year10000 ∧
    exec sv { w with clock } a r w'

theorem memoryReturns_timed (sv : Service V) : MemoryReturns (timed sv) := by
  rintro w m e w' ⟨clock, -, -, hx⟩
  exact hx

/-- The call takes the row of `p`, or puts it off. -/
def Settles (p : WString) : Answered → Prop
  | ⟨.update (.removePendingJob q), .ok _⟩ | ⟨.update (.markRemoved q), .ok _⟩ => q = p
  | ⟨.update (.upsertPendingJob q _ _), .ok _⟩ => q = p ∧ p ≠ []
  | _ => False

instance (p : WString) : DecidablePred (Settles p) := fun x =>
  match x with
  | ⟨.update (.removePendingJob _), .ok _⟩ | ⟨.update (.markRemoved _), .ok _⟩ =>
    inferInstanceAs (Decidable (_ = _))
  | ⟨.update (.upsertPendingJob _ _ _), .ok _⟩ => inferInstanceAs (Decidable (_ ∧ _))
  | ⟨.update (.recordAccess _ _), _⟩ | ⟨.update (.deleteRecord _), _⟩
  | ⟨.update (.markCached _ _ _ _ _), _⟩ | ⟨.update (.recordError _ _), _⟩
  | ⟨.update (.removePendingJob _), .error _⟩ | ⟨.update (.markRemoved _), .error _⟩
  | ⟨.update (.upsertPendingJob _ _ _), .error _⟩ | ⟨.query _, _⟩ | ⟨.copyAndHash _ _ _ _, _⟩
  | ⟨.removeCachedFile _ _, _⟩ | ⟨.freeBytes _, _⟩ | ⟨.memory _, _⟩ => .isFalse id

/-- One of the calls did. -/
def SettledBy (p : WString) (tr : List Answered) : Prop := ∃ x ∈ tr, Settles p x

instance (p : WString) (tr : List Answered) : Decidable (SettledBy p tr) :=
  inferInstanceAs (Decidable (∃ x ∈ tr, Settles p x))

theorem settled_append {x : Answered} : SettledBy p (tr ++ [x]) ↔ SettledBy p tr ∨ Settles p x := by
  unfold SettledBy
  simp only [List.mem_append, List.mem_singleton, or_and_right, exists_or, exists_eq_left]

/-- The due time in the row of a path. -/
def dueText (w : World V) (p : WString) : Option Text := (w.index.job p).map (·.dueUtc)

/-- **What a call of a batch does to the due time of a row.** -/
theorem dueText_of_batch (hx : exec sv w a r w') (ha : a.ByTry) (p : WString) :
    (¬ Settles p ⟨a, r⟩ ∧ dueText w' p = dueText w p) ∨
    (Settles p ⟨a, r⟩ ∧ dueText w' p = none) ∨
    ∃ due m, a = .update (.upsertPendingJob p due m) ∧ Settles p ⟨a, r⟩ ∧
      dueText w' p = some (formatUtc due) := by
  unfold dueText
  rw [exec_job hx]
  cases a with
  | update u =>
    cases r with
    | error e => cases u <;> exact .inl ⟨id, rfl⟩
    | ok v =>
      cases u with
      | recordAccess event delay => exact (ha.elim id id).elim
      | deleteRecord q => exact (ha.elim id id).elim
      | markCached q s c hash t => exact .inl ⟨id, rfl⟩
      | recordError q m =>
        refine .inl ⟨id, ?_⟩
        simp only [Call.written, Option.elim_some, Update.onJob]
        split
        · rw [Option.map_map]; rfl
        · rfl
      | removePendingJob q =>
        by_cases hp : p = q
        · exact .inr (.inl ⟨hp.symm, by simp [Call.written, Update.onJob, hp]⟩)
        · exact .inl ⟨fun h => hp h.symm, by simp [Call.written, Update.onJob, hp]⟩
      | markRemoved q =>
        by_cases hp : p = q
        · exact .inr (.inl ⟨hp.symm, by simp [Call.written, Update.onJob, hp]⟩)
        · exact .inl ⟨fun h => hp h.symm, by simp [Call.written, Update.onJob, hp]⟩
      | upsertPendingJob q due m =>
        -- the statement writes no row of the empty path
        by_cases hp : p = q ∧ p ≠ []
        · obtain ⟨rfl, hne⟩ := hp
          refine .inr (.inr ⟨due, m, rfl, ⟨rfl, hne⟩, ?_⟩)
          cases w.index.job p <;> simp [Call.written, Update.onJob, hne, CacheIndex.retryJob]
        · refine .inl ⟨fun h => hp ⟨h.1.symm, h.2⟩, ?_⟩
          simp only [Call.written, Option.elim_some, Update.onJob, if_neg hp]
  | _ => exact .inl ⟨id, rfl⟩

/-! ## Half a batch -/

/-- Where a batch stands when it has made the calls `x.1`: `e` is the popped entry, `rest`
the heap it left, `owed` an entry whose push comes. -/
structure HalfDone (e : HeapEntry) (rest : List HeapEntry) (owed : Option (WString × ℤ))
    (x : List Answered × World V) : Prop where
  kept : ∀ q ∈ rest, q ∈ x.2.memory.heap
  /-- Every row has its entry, but for the popped one's and the one that is put off. -/
  covered : ∀ p text, dueText x.2 p = some text → ∃ d, parseUtc text = some d ∧
    (Queued x.2.memory p d ∨ (p = e.relativePath ∧ d = e.dueUtc ∧ ¬ SettledBy p x.1) ∨
      owed = some (p, d))
  /-- Until it is settled, the popped job has its row, and no new entry. -/
  unsettled : ¬ SettledBy e.relativePath x.1 →
    (∃ text, dueText x.2 e.relativePath = some text ∧ parseUtc text = some e.dueUtc) ∧
      ∀ q ∈ x.2.memory.heap, q.relativePath = e.relativePath → q.dueUtc = e.dueUtc → q ∈ rest

theorem noneStranded_dueText : NoneStranded w ↔ ∀ p text, dueText w p = some text →
    ∃ d, parseUtc text = some d ∧ Queued w.memory p d := by
  unfold NoneStranded dueText Queued
  constructor
  · intro hnone p text htext
    obtain ⟨row, hrow, rfl⟩ := Option.map_eq_some_iff.1 htext
    obtain ⟨e, he, hp, hparse⟩ := hnone p row hrow
    exact ⟨e.dueUtc, hparse, e, he, hp, rfl⟩
  · intro hall p row hrow
    obtain ⟨d, hparse, e, he, hp, rfl⟩ := hall p row.dueUtc (by rw [hrow]; rfl)
    exact ⟨e, he, hp, hparse⟩

/-- **Where no push is owed**, every row has its entry exactly if the popped job is settled
or has another entry. -/
theorem HalfDone.noneStranded_iff (h : HalfDone e rest none (tr, w)) : NoneStranded w ↔
    SettledBy e.relativePath tr ∨
      ∃ q ∈ rest, q.relativePath = e.relativePath ∧ q.dueUtc = e.dueUtc := by
  rw [noneStranded_dueText]
  constructor
  · intro hall
    by_cases hs : SettledBy e.relativePath tr
    · exact .inl hs
    · obtain ⟨⟨text, htext, hparse⟩, hrest⟩ := h.unsettled hs
      obtain ⟨d, hd, q, hq, hp, hdue⟩ := hall _ text htext
      cases hparse.symm.trans hd
      exact .inr ⟨q, hrest q hq hp hdue, hp, hdue⟩
  · intro hcase p text htext
    obtain ⟨d, hparse, hq | ⟨rfl, rfl, hs⟩ | howed⟩ := h.covered p text htext
    · exact ⟨d, hparse, hq⟩
    · -- the row of the popped entry
      obtain ⟨q, hq, hp, hdue⟩ := hcase.resolve_left hs
      exact ⟨_, hparse, q, h.kept q hq, hp, hdue⟩
    · cases howed

/-- A call that leaves the heap; a row that it puts off is owed its push. -/
theorem HalfDone.step {owed : Option (WString × ℤ)} (h : HalfDone e rest none (tr, w))
    (hx : exec sv w a r w') (ha : a.ByTry) (hmemory : w'.memory = w.memory)
    (howed : ∀ p due m, a = .update (.upsertPendingJob p due m) → Settles p ⟨a, r⟩ →
      ∃ d, parseUtc (formatUtc due) = some d ∧ owed = some (p, d)) :
    HalfDone e rest owed (tr ++ [⟨a, r⟩], w') where
  kept q hq := by
    change q ∈ w'.memory.heap
    rw [hmemory]
    exact h.kept q hq
  covered p text htext := by
    change ∃ d, parseUtc text = some d ∧ (Queued w'.memory p d ∨ _ ∨ _)
    rcases dueText_of_batch hx ha p with ⟨hs, hsame⟩ | ⟨-, hnone⟩ | ⟨due, m, hupsert, hs, hput⟩
    · -- the row is as it was
      obtain ⟨d, hparse, hq | ⟨hp, hd, hns⟩ | hnone⟩ := h.covered p text (hsame.symm.trans htext)
      · exact ⟨d, hparse, .inl (by rwa [hmemory])⟩
      · refine ⟨d, hparse, .inr (.inl ⟨hp, hd, ?_⟩)⟩
        rw [settled_append]
        exact not_or.2 ⟨hns, hs⟩
      · cases hnone
    · cases hnone.symm.trans htext
    · obtain ⟨d, hparse, hd⟩ := howed p due m hupsert hs
      cases hput.symm.trans htext
      exact ⟨d, hparse, .inr (.inr hd)⟩
  unsettled hns := by
    rw [settled_append, not_or] at hns
    obtain ⟨⟨text, htext, hparse⟩, hrest⟩ := h.unsettled hns.1
    change (∃ text, dueText w' e.relativePath = some text ∧ _) ∧ ∀ q ∈ w'.memory.heap, _
    rw [hmemory]
    refine ⟨⟨text, ?_, hparse⟩, hrest⟩
    rcases dueText_of_batch hx ha e.relativePath with ⟨-, hsame⟩ | ⟨hs, -⟩ | ⟨-, -, -, hs, -⟩
    · exact hsame.trans htext
    · exact absurd hs hns.2
    · exact absurd hs hns.2

/-- The push of a retry, whose time is after the popped entry's. -/
theorem HalfDone.push {p : WString} {due : ℤ} (h : HalfDone e rest (some (p, due)) (tr, w))
    (hlate : e.dueUtc < due) (hx : exec sv w (.memory (.push p due)) (.ok ()) w') :
    HalfDone e rest none (tr ++ [⟨.memory (.push p due), .ok ()⟩], w') := by
  obtain ⟨-, -, rfl⟩ := exec_memoryCall hx
  have hs {q : WString} :
      SettledBy q (tr ++ [⟨.memory (.push p due), .ok ()⟩]) ↔ SettledBy q tr := by
    rw [settled_append]
    exact or_iff_left id
  refine ⟨fun q hq => ?_, fun q text htext => ?_, fun hns => ?_⟩
  · exact (List.mem_orderedInsert _).2 (.inr (h.kept q hq))
  · obtain ⟨d, hparse, hq | hpopped | howed⟩ := h.covered q text htext
    · exact ⟨d, hparse, .inl (queued_push.2 (.inl hq))⟩
    · exact ⟨d, hparse, .inr (.inl (by rwa [hs]))⟩
    · cases howed
      exact ⟨_, hparse, .inl (queued_push.2 (.inr ⟨rfl, rfl⟩))⟩
  · rw [hs] at hns
    obtain ⟨hrow, hrest⟩ := h.unsettled hns
    refine ⟨hrow, fun q hq hp hd => ?_⟩
    rcases (List.mem_orderedInsert _).1 hq with rfl | hq
    · -- the new entry is due later
      exact absurd hd hlate.ne'
    · exact hrest q hq hp hd

/-- The times of retries. -/
theorem retryDue_bounds (h0 : 0 ≤ now) (h1 : now + 300 * ticksPerSecond < year10000)
    (j : PendingJob) : InRange (retryDue now j) ∧ now < floorToSeconds (retryDue now j) := by
  have hseconds : 30 ≤ retrySeconds j.retries ∧ retrySeconds j.retries ≤ 300 := by
    unfold retrySeconds
    omega
  have hsum : InRange (now + retrySeconds j.retries * ticksPerSecond) := by
    unfold InRange ticksPerSecond at *
    omega
  have hdue : retryDue now j = now + retrySeconds j.retries * ticksPerSecond := addSeconds_eq hsum
  rw [hdue]
  refine ⟨hsum, ?_⟩
  have hfloor := lt_floor_add hsum.1
  unfold ticksPerSecond at *
  omega

/-- Time alone changes nothing here. -/
theorem halfDone_triple {owed : Option (WString × ℤ)}
    {R : Except String a.Answer → List Answered × World V → Prop}
    (h : ∀ {tr w r w'}, HalfDone e rest owed (tr, w) → exec sv w a r w' →
      R r (tr ++ [⟨a, r⟩], w')) :
    (Prog.alone (S := calls) (timed sv)).Triple (HalfDone e rest owed) a R := by
  refine ⟨Prog.stable_alone, ?_⟩
  rintro ⟨tr, w⟩ r ⟨_, w'⟩ hy ⟨⟨clock, -, -, hx⟩, rfl⟩
  have hticked : HalfDone e rest owed (tr, { w with clock }) := ⟨hy.kept, hy.covered, hy.unsettled⟩
  exact ⟨trivial, h hticked hx⟩

theorem memory_of_try (hx : exec sv w a r w') (ha : a.ByTry) (hr : ¬ a.Retries) :
    w'.memory = w.memory := by
  cases a with
  | memory m =>
    cases m with
    | now =>
      cases r with
      | error error => exact hx.elim
      | ok now => obtain ⟨-, -, rfl⟩ := exec_memoryCall hx; rfl
    | push p due => exact absurd trivial hr
    | _ => exact (ha.elim id id).elim
  | _ => exact exec_memory hx fun _ => nofun

/-- A call that leaves the heap and puts off no row. -/
theorem halfDone_call (ha : a.ByTry) (hr : ¬ a.Retries) :
    (Prog.alone (S := calls) (timed sv)).Triple (HalfDone e rest none) a
      (onOk (fun _ => HalfDone e rest none) (HalfDone e rest none)) :=
  halfDone_triple fun {tr w r w'} h hx => by
    refine onOk_of_forall (fun _ => id) r _ (h.step hx ha (memory_of_try hx ha hr) ?_)
    rintro p due m rfl -
    exact absurd trivial hr

/-- **The outline of a batch** of the popped entry. -/
def halfDoneBatch (sv : Service V) (e : HeapEntry) (rest : List HeapEntry) (h0 : 0 ≤ now)
    (h1 : now + 300 * ticksPerSecond < year10000) (hlate : e.dueUtc ≤ now) :
    BatchOutline (Prog.alone (S := calls) (timed sv)) sv now :=
  .retrying (HalfDone e rest none) (HalfDone e rest none)
    (fun j => HalfDone e rest (some (j.relativePath, floorToSeconds (retryDue now j))))
    (HalfDone e rest none) (HalfDone e rest none) (fun _ => id) Prog.stable_alone Prog.stable_alone
    Prog.stable_alone (halfDone_call (.inr trivial) id) (fun ha => halfDone_call (.inl ha))
    (fun j m => halfDone_triple fun {tr w r w'} h hx => by
      have hmemory : w'.memory = w.memory := exec_memory hx fun _ => nofun
      cases r with
      | error error =>
        refine h.step hx (.inl trivial) hmemory ?_
        rintro p due m - ⟨⟩
      | ok v =>
        refine h.step hx (.inl trivial) hmemory ?_
        rintro p due m hupsert -
        cases hupsert
        exact ⟨_, parse_format (retryDue_bounds h0 h1 j).1, rfl⟩)
    fun j => halfDone_triple fun {tr w r w'} h hx => by
      cases r with
      | error error => exact hx.elim
      | ok v => exact h.push (lt_of_le_of_lt hlate (retryDue_bounds h0 h1 j).2) hx

/-- **What a batch leaves**, whether it returned or threw. -/
theorem batchBody_halfDone {x : Except String Unit} (h0 : 0 ≤ w.clock)
    (hlate : e.dueUtc ≤ w.clock) (hw : HalfDone e rest none ([], w))
    (h : (batchBody sv).Traces (S := calls) (timed sv) w tr x w') :
    HalfDone e rest none (tr, w') := by
  have hsafe : (batchBody sv).Safe (Prog.alone (S := calls) (timed sv))
      (fun _ => HalfDone e rest none) ([], w) := by
    -- the clock is read first
    rintro y rfl r ⟨_, u⟩ ⟨⟨clock, hclock, hrange, hx⟩, rfl⟩
    have hticked : HalfDone e rest none (([] : List Answered), { w with clock }) :=
      ⟨hw.kept, hw.covered, hw.unsettled⟩
    have hread : HalfDone e rest none ([⟨.memory .now, r⟩], u) :=
      hticked.step hx (.inr trivial) (memory_of_try hx (.inr trivial) id) fun _ _ _ => nofun
    refine ⟨trivial, ?_⟩
    cases r with
    | error error => exact hx.elim
    | ok now =>
      obtain ⟨-, rfl, rfl⟩ := exec_memoryCall hx
      change ((runDueOnce sv now).bind fun _ => pure ()).Safe _ _ _
      have hbatch :=
        (halfDoneBatch sv e rest (h0.trans hclock) hrange (hlate.trans hclock)).safe hread
      refine Prog.safe_bind (Prog.safe_mono (fun r z hz => ?_) hbatch)
      cases r with
      | ok v => rintro _ rfl; exact hz
      | error error => rintro _ rfl; exact hz
  exact Prog.traces_of_safe hsafe h

/-! ## A pass whose batch throws -/

theorem popDue_some {m : Memory} {clock : ℤ} (h : (m.popDue clock).1 = some e) :
    ∃ rest, m.heap = e :: rest ∧ e.dueUtc ≤ clock ∧
      (m.popDue clock).2 = { m with heap := rest } := by
  unfold Memory.popDue at h ⊢
  split at h
  · cases h
  · rename_i next rest hheap
    split at h
    · cases h
    · rename_i hdue
      cases h
      refine ⟨rest, hheap, not_lt.1 hdue, ?_⟩
      rw [if_neg hdue]

/-- A read of the memory, when time has passed. -/
theorem timed_reads {m : MemoryCall} {v : m.Answer} (hm : ∀ b c, (m.run b c).2 = b)
    (h : timed sv w (.memory m) (.ok (show (Call.memory m).Answer from v)) w') :
    ∃ clock, w.clock ≤ clock ∧ w' = { w with clock } := by
  obtain ⟨clock, hle, -, hx⟩ := h
  obtain ⟨-, -, rfl⟩ := exec_memoryCall hx
  refine ⟨clock, hle, ?_⟩
  rw [hm]

/-- Before the batch: the popped entry has its row, and the other rows have their entries. -/
theorem halfDone_popped {v : World V} {row : JobRow} {clock : ℤ} (hnone : NoneStranded w)
    (hheap : w.memory.heap = e :: rest) (hindex : v.index = w.index) (hrest : v.memory.heap = rest)
    (hrow : w.index.job e.relativePath = some row)
    (hdue : (parseUtc row.dueUtc).getD clock = e.dueUtc) :
    HalfDone e rest none (([] : List Answered), v) := by
  have htexts : ∀ p, dueText v p = dueText w p := fun p => by unfold dueText; rw [hindex]
  rw [noneStranded_dueText] at hnone
  refine ⟨fun q hq => ?_, fun p text htext => ?_, fun _ => ⟨?_, fun q hq _ _ => ?_⟩⟩
  · rwa [hrest]
  · obtain ⟨d, hparse, q, hq, hp, hd⟩ := hnone p text ((htexts p).symm.trans htext)
    rw [hheap] at hq
    refine ⟨d, hparse, ?_⟩
    rcases List.mem_cons.1 hq with rfl | hq
    · refine .inr (.inl ⟨hp.symm, hd.symm, ?_⟩)
      rintro ⟨x, hx, -⟩
      cases hx
    · exact .inl ⟨q, by rwa [hrest], hp, hd⟩
  · have htext : dueText w e.relativePath = some row.dueUtc := by unfold dueText; rw [hrow]; rfl
    obtain ⟨d, hparse, -⟩ := hnone _ _ htext
    rw [hparse, Option.getD_some] at hdue
    exact ⟨row.dueUtc, (htexts _).trans htext, hdue ▸ hparse⟩
  · rwa [← hrest]

theorem threw_tail {v : a.Answer} (h : ∃ x ∈ (⟨a, .ok v⟩ : Answered) :: tr, Threw x) :
    ∃ x ∈ tr, Threw x :=
  (List.exists_mem_cons_iff ..).1 h |>.resolve_left not_threw_ok

theorem SettledBy.cons {x : Answered} (h : SettledBy p tr) : SettledBy p (x :: tr) := by
  obtain ⟨y, hy, hs⟩ := h
  exact ⟨y, List.mem_cons_of_mem x hy, hs⟩

theorem settled_tail (h : SettledBy p ((⟨a, r⟩ : Answered) :: tr)) (ha : a.written r = none) :
    SettledBy p tr := by
  refine ((List.exists_mem_cons_iff ..).1 h).resolve_left fun hs => ?_
  cases a with
  | update u =>
    cases r with
    | ok v => cases ha
    | error e => cases u <;> exact hs
  | _ => exact hs

/-- The batch of a popped entry threw, and its handler ran. -/
theorem thrown_iff {u v m : World V} {job : PendingJob} {error : String} (hnone : NoneStranded w)
    (hclock : 0 ≤ u.clock) (hheap : w.memory.heap = e :: rest) (hindex : u.index = w.index)
    (hrest : u.memory.heap = rest) (hlate : e.dueUtc ≤ u.clock)
    (hlookup : timed sv u (.query (.pendingJob e.relativePath)) (.ok (some job)) v)
    (hdue : job.dueUtc = e.dueUtc)
    (hbatch : (batchBody sv).Traces (S := calls) (timed sv) v tr (.error error) m)
    (hrecord : timed sv m (.update (.recordError e.relativePath error)) (.ok ()) w') :
    NoneStranded w' ↔
      SettledBy e.relativePath (tr ++ [⟨.update (.recordError e.relativePath error), .ok ()⟩]) ∨
        ∃ q ∈ rest, q.relativePath = e.relativePath ∧ q.dueUtc = e.dueUtc := by
  obtain ⟨clock, hle, -, hjob, rfl⟩ := hlookup
  obtain ⟨row, hrow, rfl⟩ := Option.map_eq_some_iff.1 hjob.symm
  have hstart : HalfDone e rest none (([] : List Answered), { u with clock }) :=
    halfDone_popped hnone hheap hindex hrest (by rw [← hindex]; exact hrow) hdue
  have hend : HalfDone e rest none (tr, m) :=
    batchBody_halfDone (hclock.trans hle) (hlate.trans hle) hstart hbatch
  -- the handler writes no due time and pushes nothing
  obtain ⟨clock', -, -, hx⟩ := hrecord
  have hticked : HalfDone e rest none (tr, { m with clock := clock' }) :=
    ⟨hend.kept, hend.covered, hend.unsettled⟩
  refine (hticked.step hx (.inl trivial) (exec_memory hx fun _ => nofun) ?_).noneStranded_iff
  rintro p due reason ⟨⟩

/-- **An exception in a batch strands no job** exactly if the popped job was settled before
it, or another entry of that job is left. -/
theorem jobs_kept_iff (hnone : NoneStranded w) (hclock : 0 ≤ w.clock)
    (h : (workerBody sv).Traces (S := calls) (timed sv) w tr (.ok ()) w')
    (hthrew : ∃ x ∈ tr, Threw x) :
    NoneStranded w' ↔ ∃ e rest, w.memory.heap = e :: rest ∧ (SettledBy e.relativePath tr ∨
      ∃ q ∈ rest, q.relativePath = e.relativePath ∧ q.dueUtc = e.dueUtc) := by
  rw [workerBody_eq] at h
  cases passWith_traces (memoryReturns_timed sv) h with
  | stopped hstop hexit => simp [Threw] at hthrew
  | paused hstop hpaused => simp [Threw] at hthrew
  | waits hstop hpaused hpop => simp [Threw] at hthrew
  | @popped _ _ _ _ e tr _ hstop hpaused hpop h =>
    obtain ⟨c₁, h₁, rfl⟩ := timed_reads (fun _ _ => rfl) hstop
    obtain ⟨c₂, h₂, rfl⟩ := timed_reads (fun _ _ => rfl) hpaused
    obtain ⟨c₃, h₃, -, hpop⟩ := hpop
    obtain ⟨-, hanswer, rfl⟩ := exec_memoryCall hpop
    obtain ⟨rest, hheap, hlate, hpopped⟩ := popDue_some hanswer.symm
    cases hwf : wellFormed e.relativePath with
    | false =>
      -- the conversion of the popped path throws outside the handler, so the pass fails
      simp only [narrowPath, hwf] at h
      cases h.2.1
    | true =>
      simp only [narrowPath, hwf, if_true] at h
      cases runEntry_traces (memoryReturns_timed sv) h with
      | putBack hagain hpush => simp [Threw] at hthrew
      | skipped hagain hlookup hdue => simp [Threw] at hthrew
      | ran hagain hlookup hdue hbatch =>
        rcases batchBody_traces hbatch with ⟨-, hall⟩ | ⟨⟨error, he⟩, -⟩
        · have hlooked := threw_tail (threw_tail (threw_tail hthrew))
          obtain ⟨x, hx, ht⟩ := threw_tail (threw_tail hlooked)
          exact absurd ht (hall x hx)
        · cases he
      | threw hagain hlookup hdue hbatch hrecord =>
        obtain ⟨c₄, h₄, rfl⟩ := timed_reads (fun _ _ => rfl) hagain
        have hrest : (MemoryCall.run w.memory c₃ .popDue).2.heap = rest :=
          congrArg Memory.heap hpopped
        have hclock₄ : 0 ≤ c₄ := hclock.trans (h₁.trans (h₂.trans (h₃.trans h₄)))
        have hlate₄ : e.dueUtc ≤ c₄ := hlate.trans h₄
        have hindex : ({ w with memory := (MemoryCall.run w.memory c₃ .popDue).2, clock := c₄ } :
          World V).index = w.index := rfl
        have hiff := thrown_iff hnone hclock₄ hheap hindex hrest hlate₄ hlookup hdue hbatch hrecord
        rw [hiff]
        -- the calls before the batch settle nothing
        constructor
        · intro hkept
          exact ⟨e, rest, hheap, hkept.imp_left fun hs => hs.cons.cons.cons.cons.cons⟩
        · rintro ⟨e', rest', hheap', hkept⟩
          obtain ⟨rfl, rfl⟩ := List.cons.inj (hheap'.symm.trans hheap)
          refine hkept.imp_left fun hs => ?_
          have hlooked := settled_tail (settled_tail (settled_tail hs rfl) rfl) rfl
          exact settled_tail (settled_tail hlooked rfl) rfl

/-! ## Two batches that throw -/

instance (w : World V) : Decidable (NoneStranded w) :=
  decidable_of_iff (∀ x ∈ Sql.rows w.index.pendingJobs,
      ∃ e ∈ w.memory.heap, e.relativePath = x.1 ∧ parseUtc x.2.dueUtc = some e.dueUtc)
    ⟨fun h p row hrow => h (p, row) (Sql.mem_rows.2 hrow),
      fun h x hx => h x.1 x.2 (Sql.mem_rows.1 hx)⟩

/-- The answers of a disk, in time. -/
def timedAnswer (busy : Query → Bool) (w : World Disk) (a : Call) :
    Option (Except String a.Answer × World Disk) :=
  if w.clock + 300 * ticksPerSecond < year10000 then answerBusy busy w a else none

theorem timed_timedAnswer {sv : Service Disk} (hsv : sv.platform = Disk.platform)
    {busy : Query → Bool} {w w' : World Disk} {r : Except String a.Answer}
    (h : timedAnswer busy w a = some (r, w')) : timed sv w a r w' := by
  unfold timedAnswer at h
  split at h
  · rename_i hrange
    exact ⟨w.clock, le_rfl, hrange, exec_answerBusy hsv h⟩
  · cases h

/-- A pass of the worker while some queries find the database busy. -/
theorem exists_timedPass (settings : SchedulerSettings) (w : World Disk) (busy : Query → Bool)
    (p : List Answered × Except String Unit × World Disk → Prop) [DecidablePred p]
    (hp : ((workerBody (diskService settings)).transcript (S := calls) (timedAnswer busy) w).any
      (fun x => decide (p x)) = true) :
    ∃ tr r w', (workerBody (diskService settings)).Traces (S := calls)
      (timed (diskService settings)) w tr r w' ∧ p (tr, r, w') := by
  have hact {w : World Disk} {a : Call} {r w'} (h : timedAnswer busy w a = some (r, w')) :
      timed (diskService settings) w a r w' := timed_timedAnswer rfl h
  obtain ⟨tr, r, w', h, hpx⟩ := Prog.exists_traces (S := calls) hact hp
  exact ⟨tr, r, w', h, of_decide_eq_true hpx⟩

/-- Jobs of `p` and `q` are due, and so are their entries. -/
def jobsDue (p q : WString) : World Disk where
  index := (jobDue q).index.recordAccess { relativePath := p, observedAt := 0 } 60
  memory := { heap := [⟨600000000, 0, p⟩, ⟨600000000, 1, q⟩] }
  volume := {}
  clock := 600000000

/-- The popped job is copied, then making room for the other one throws. -/
theorem jobs_kept_after_copy : ∃ tr w',
    (workerBody (diskService { minFreeBytes := 1 })).Traces (S := calls)
      (timed (diskService { minFreeBytes := 1 })) (jobsDue [97] [98]) tr (.ok ()) w' ∧
    (∃ x ∈ tr, Threw x) ∧ w'.index.job [98] ≠ none ∧ NoneStranded w' := by
  obtain ⟨tr, _, w', h, rfl, hthrew, hjob, hgone⟩ := exists_timedPass { minFreeBytes := 1 }
    (jobsDue [97] [98]) (fun q => match q with | .fileRecord p => p = [98] | _ => false)
    (fun x => x.2.1 = .ok () ∧ (∃ y ∈ x.1, Threw y) ∧ x.2.2.index.job [98] ≠ none ∧
      SettledBy [97] x.1) (by decide +kernel)
  refine ⟨tr, w', h, hthrew, hjob, (jobs_kept_iff (by decide +kernel) (by decide) h hthrew).2 ?_⟩
  exact ⟨_, _, rfl, .inl hgone⟩

/-- **The query of the due jobs throws**: the handler records the error, and the row of the
popped entry has no entry any more. -/
theorem row_stranded_by_throw : ∃ tr w',
    (workerBody (diskService {})).Traces (S := calls) (timed (diskService {})) (jobDue [97]) tr
      (.ok ()) w' ∧
    NoneStranded (jobDue [97]) ∧ (∃ x ∈ tr, Threw x) ∧ ¬ NoneStranded w' := by
  obtain ⟨tr, _, w', h, rfl, hthrew, hstranded⟩ := exists_timedPass {} (jobDue [97])
    Query.asksDue
    (fun x => x.2.1 = .ok () ∧ (∃ y ∈ x.1, Threw y) ∧ ¬ NoneStranded x.2.2) (by decide +kernel)
  exact ⟨tr, w', h, by decide +kernel, hthrew, hstranded⟩

end SsdCache
