import SsdCache.Atomic.Refine
import SsdCache.Proof.Threads
import SsdCache.Spec.Replay
import SsdCache.Spec.Transactions

/-!
# Index methods are atomic

Between the processes that open the database, each method of `CacheIndex` is one call of the
index that the system's model makes of it: a transaction takes effect at its `COMMIT`, a
single statement when it is stepped, a query when it reads, and a method that throws has done
nothing. `record_error` runs two statements outside a transaction; another process may
commit between them. It takes effect at its first statement, with the outcome its second one
will have.
-/

namespace SsdCache

open Atomic Simulation

variable {V : Type} {sv : Service V} {offer : Offer} {t : Party} {x y z : FineWorld V}

/-! ## The simulation -/

/-- What the index is ahead by. -/
def CacheIndex.paid (ix : CacheIndex) : Option WString → CacheIndex
  | none => ix
  | some relativePath => ix.countRetry relativePath

/-- A transaction belongs to a process whose mutex is held, and a mutex is held by a thread
of the process. -/
structure FineWorld.Sound (w : FineWorld V) : Prop where
  held : ∀ p, w.InTransaction p → w.mutex p ≠ none
  own : ∀ p s, w.mutex p = some s → s.process = p

/-- While thread `t` holds the mutex of its process, the transaction of the process is as
the thread left it, and nobody else commits during one. -/
def KeepsLock (t : Party) (x y : FineWorld V) : Prop :=
  x.mutex t.process = some t → y.mutex t.process = some t ∧
    (∀ ix, x.transaction = some (t.process, ix) ↔ y.transaction = some (t.process, ix)) ∧
    (x.InTransaction t.process → y.committed = x.committed)

theorem KeepsLock.trans (hxy : KeepsLock t x y) (hyz : KeepsLock t y z) : KeepsLock t x z := by
  intro hx
  obtain ⟨hy, htxy, hcxy⟩ := hxy hx
  obtain ⟨hz, htyz, hcyz⟩ := hyz hy
  refine ⟨hz, fun ix => (htxy ix).trans (htyz ix), ?_⟩
  rintro ⟨ix, hix⟩
  exact (hcyz ⟨ix, (htxy ix).1 hix⟩).trans (hcxy ⟨ix, hix⟩)

/-- The rows of the system are the committed ones, but for what the thread that holds the
service's mutex owes. -/
structure Related (w : FineWorld V) (ds : Party → Option WString) (u : World V) : Prop where
  only : ∀ s, w.mutex .service ≠ some s → ds s = none
  world : u = { w.world with index := w.committed.paid ((w.mutex .service).bind ds) }

/-- The calls that are not about the index show. -/
def seenFine : (a : fineCalls.Act) → Except String (fineCalls.Resp a) →
    Option ((a : Call) × Except String a.Answer)
  | .sql _ _, _ => none
  | .other a, r => some ⟨a, r⟩

def seenCall : (a : calls.Act) → Except String (calls.Resp a) →
    Option ((a : Call) × Except String a.Answer)
  | .update _, _ | .query _, _ => none
  | .copyAndHash p s c m, r => some ⟨.copyAndHash p s c m, r⟩
  | .removeCachedFile p c, r => some ⟨.removeCachedFile p c, r⟩
  | .freeBytes root, r => some ⟨.freeBytes root, r⟩
  | .memory a, r => some ⟨.memory a, r⟩

theorem seenCall_other {a : Call} (ha : a.OffIndex) (r : Except String a.Answer) :
    seenCall a r = some ⟨a, r⟩ := by
  cases a with
  | update u => exact ha.elim
  | query q => exact ha.elim
  | copyAndHash | removeCachedFile | freeBytes | memory => rfl

/-- How a call of a thread changes what the thread owes: the first statement of `record_error`
may make it owe the second one, which pays it, as does the end of the method. -/
def changesDebt (b : fineCalls.Act) (r : Except String (fineCalls.Resp b))
    (d d' : Option WString) : Prop :=
  match b, r with
  | .sql _ (.stepDone (.setError relativePath _)), .ok _ => d' = d ∨ d' = some relativePath
  | .sql _ (.stepDone (.countRetry _)), _ | .sql _ .unlock, _ => d' = none
  | _, _ => d' = d

/-- A thread that owes nothing may go on owing nothing. -/
theorem changesDebt_none {b : fineCalls.Act} {r : Except String (fineCalls.Resp b)} :
    changesDebt b r none none := by
  unfold changesDebt
  split
  · exact .inl rfl
  all_goals rfl

/-- The statements under the calls; a guess is what the second statement of `record_error`
will answer. -/
def fineSimulation (sv : Service V) (offer : Offer) :
    Simulation (fineSystem sv offer) (system sv (offered offer)) (Except String Unit)
      (Option WString) ((a : Call) × Except String a.Answer) where
  inv := FineWorld.Sound
  rely := KeepsLock
  refl _ _ hx := ⟨hx, fun _ => Iff.rfl, fun _ => rfl⟩
  trans := KeepsLock.trans
  settled := none
  rel := Related
  seen' := seenFine
  seen := seenCall
  owes := changesDebt
  cond := RollsBack

theorem owes_nothing (b : fineCalls.Act) (r : Except String (fineCalls.Resp b)) :
    (fineSimulation sv offer).owes b r none none := changesDebt_none

/-! ## Assertions -/

/-- Thread `t` holds the mutex of its process. -/
def HoldsMutex (t : Party) (x : FineWorld V) : Prop := x.mutex t.process = some t

/-- It does, and its process is in no transaction. -/
structure Locked (t : Party) (x : FineWorld V) : Prop where
  mutex : HoldsMutex t x
  outside : ¬ x.InTransaction t.process

/-- It does, in a transaction that began on the tables `base` and has made them `work`. -/
structure InWork (t : Party) (base work : CacheIndex) (x : FineWorld V) : Prop where
  mutex : HoldsMutex t x
  work : x.transaction = some (t.process, work)
  base : x.committed = base

theorem InWork.inTransaction {base work : CacheIndex} (h : InWork t base work x) :
    x.InTransaction t.process := ⟨work, h.work⟩

theorem stable_true : (fineSimulation sv offer).Stable t fun _ => True := fun _ _ _ _ => trivial

theorem stable_holdsMutex : (fineSimulation sv offer).Stable t (HoldsMutex t) :=
  fun _ _ hr hx => (hr hx).1

theorem stable_locked : (fineSimulation sv offer).Stable t (Locked t) := by
  intro x y hr hx
  obtain ⟨hy, htransaction, -⟩ := hr hx.mutex
  refine ⟨hy, ?_⟩
  rintro ⟨ix, hix⟩
  exact hx.outside ⟨ix, (htransaction ix).2 hix⟩

theorem stable_inWork {base work : CacheIndex} :
    (fineSimulation sv offer).Stable t (InWork t base work) := by
  intro x y hr hx
  obtain ⟨hy, htransaction, hcommitted⟩ := hr hx.mutex
  exact ⟨hy, (htransaction work).1 hx.work, (hcommitted hx.inTransaction).trans hx.base⟩

theorem not_inTransaction {p : Process} (h : y.transaction = none) : ¬ y.InTransaction p := by
  rintro ⟨ix, hix⟩
  rw [h] at hix
  cases hix

/-! ## Steps -/

/-- What a step of thread `t` leaves to the other processes: their mutexes, their
transactions, and during these the committed rows. -/
structure Leaves (t : Party) (y z : FineWorld V) : Prop where
  mutex : ∀ p, p ≠ t.process → z.mutex p = y.mutex p
  transaction : ∀ p ix, p ≠ t.process → (y.transaction = some (p, ix) ↔ z.transaction = some (p, ix))
  committed : ∀ p, p ≠ t.process → y.InTransaction p → z.committed = y.committed

theorem Leaves.rfl : Leaves t y y := ⟨fun _ _ => .refl _, fun _ _ _ => .rfl, fun _ _ _ => .refl _⟩

/-- **Nobody else notices** the step of a thread that takes a free mutex or holds its own. -/
theorem Leaves.keepsLock (h : Leaves t y z)
    (hfree : y.mutex t.process = none ∨ y.mutex t.process = some t) {u : Party} (hu : u ≠ t) :
    KeepsLock u y z := by
  intro hy
  have hne : u.process ≠ t.process := by
    intro he
    rw [he] at hy
    rcases hfree with hnone | hown
    · rw [hnone] at hy
      cases hy
    · rw [hown] at hy
      exact hu (Option.some.inj hy).symm
  exact ⟨(h.mutex _ hne).trans hy, fun ix => h.transaction _ ix hne, h.committed _ hne⟩

/-- The step keeps the world sound. -/
theorem Leaves.sound (h : Leaves t y z) (hy : y.Sound)
    (hheld : z.InTransaction t.process → z.mutex t.process ≠ none)
    (hown : ∀ s, z.mutex t.process = some s → s.process = t.process) : z.Sound where
  held p hp := by
    by_cases hpt : p = t.process
    · subst hpt
      exact hheld hp
    · obtain ⟨ix, hix⟩ := hp
      rw [h.mutex p hpt]
      exact hy.held p ⟨ix, (h.transaction p ix hpt).2 hix⟩
  own p s hs := by
    by_cases hpt : p = t.process
    · subst hpt
      exact hown s hs
    · rw [h.mutex p hpt] at hs
      exact hy.own p s hs

/-- A step of a thread that holds its mutex and keeps it. -/
theorem Leaves.sound_held (h : Leaves t y z) (hy : y.Sound) (hz : HoldsMutex t z) : z.Sound := by
  refine h.sound hy (fun _ hn => ?_) fun s hs => ?_
  · rw [hz] at hn
    cases hn
  · rw [hz] at hs
    cases hs
    rfl

/-! ## The related system -/

variable {ds : Party → Option WString} {w : World V}

/-- What the step changes is nobody's business but SQLite's. -/
theorem Related.of_same (h : Related y ds w) (hmutex : z.mutex = y.mutex)
    (hworld : z.world = y.world) : Related z ds w := by
  refine ⟨fun s hs => h.only s (hmutex ▸ hs), ?_⟩
  have hcommitted : z.committed = y.committed := congrArg World.index hworld
  rw [h.world, hmutex, hworld, hcommitted]

/-- A thread that owes nothing takes or leaves a mutex. -/
theorem Related.of_mutex (h : Related y ds w) (hd : ds t = none) {p : Process} {m : Option Party}
    (hy : y.mutex p = none ∨ y.mutex p = some t) (hm : m = none ∨ m = some t)
    (hmutex : z.mutex = Function.update y.mutex p m) (hworld : z.world = y.world) :
    Related z ds w := by
  by_cases hp : p = .service
  · subst hp
    have hz : z.mutex .service = m := by rw [hmutex, Function.update_self]
    have hold : (y.mutex .service).bind ds = none := by
      rcases hy with hnone | hown
      · rw [hnone]
        rfl
      · rw [hown]
        exact hd
    have hnew : (z.mutex .service).bind ds = none := by
      rw [hz]
      rcases hm with rfl | rfl
      · rfl
      · exact hd
    have hcommitted : z.committed = y.committed := congrArg World.index hworld
    refine ⟨fun s _ => ?_, by rw [h.world, hold, hnew, hworld, hcommitted]⟩
    -- nobody owes: the holder of the mutex was `t`, or there was none
    by_cases hst : s = t
    · rw [hst]
      exact hd
    · refine h.only s fun hys => ?_
      rcases hy with hnone | hown
      · rw [hnone] at hys
        cases hys
      · rw [hown] at hys
        exact hst (Option.some.inj hys).symm
  · have hne : z.mutex .service = y.mutex .service := by
      rw [hmutex, Function.update_of_ne (Ne.symm hp)]
    have hcommitted : z.committed = y.committed := congrArg World.index hworld
    refine ⟨fun s hs => h.only s (hne ▸ hs), ?_⟩
    rw [h.world, hne, hworld, hcommitted]

/-- What the thread of a process that holds its mutex and owes nothing finds in the system:
the committed rows, but another process may owe a retry count. -/
theorem Related.debt (h : Related y ds w) (hy : HoldsMutex t y) (hd : ds t = none) :
    ∃ d, (t.process = .service → d = none) ∧ (y.mutex .service).bind ds = d ∧
      w = { y.world with index := y.committed.paid d } := by
  refine ⟨_, fun ht => ?_, rfl, h.world⟩
  have hmutex : y.mutex .service = some t := ht ▸ hy
  rw [hmutex]
  exact hd

/-- The step commits `ix`. -/
theorem Related.of_commit (h : Related y ds w) (hmutex : z.mutex = y.mutex) {ix : CacheIndex}
    (hworld : z.world = { y.world with index := ix }) :
    Related z ds { w with index := ix.paid ((y.mutex .service).bind ds) } := by
  refine ⟨fun s hs => h.only s (hmutex ▸ hs), ?_⟩
  have hcommitted : z.committed = ix := congrArg World.index hworld
  rw [h.world, hmutex, hworld, hcommitted]

/-! ## Actions -/

/-- The coarse program of a thread that owes nothing and guesses nothing. -/
def still (p : Prog calls String Unit) (_ : Except String Unit) :
    Prog calls String Unit × Option WString :=
  (p, none)

theorem moves_stay {b : fineCalls.Act} {r : Except String (fineCalls.Resp b)}
    {s : Prog calls String Unit × Option WString} (howes : changesDebt b r s.2 s.2)
    (hseen : seenFine b r = none)
    (hrel : ∀ ds w, ds t = s.2 → Related y ds w → Related z ds w) :
    (fineSimulation sv offer).Moves t y b r z s s := by
  refine ⟨howes, fun ds w hd h => ?_⟩
  refine .inl ⟨rfl, hseen, ?_⟩
  rw [← hd, Function.update_eq_self]
  exact hrel ds w hd h

/-- **A call that changes nothing.** -/
theorem tracks_look {P : FineWorld V → Prop} {a : SqlCall}
    (hP : (fineSimulation sv offer).Stable t P)
    (ha : ∀ {y : FineWorld V} {r z}, a.Does y t.process r z → z = y)
    (howes : ∀ r d, changesDebt (.sql t.process a) r d d)
    {f : Except String Unit → Prog calls String Unit × Option WString} (hx : P x) :
    (fineSimulation sv offer).Tracks t (fun _ f' y => f' = f ∧ P y) (sql t.process a) f x := by
  refine tracks_perform hP (fun r f' => ?_) hx ?_
  · exact fun y z hr hy => ⟨hy.1, hP hr hy.2⟩
  · intro y r z hy hsound hdoes _
    obtain rfl := ha hdoes
    refine ⟨hsound, fun u _ => (fineSimulation sv offer).refl u z, f, fun g => ⟨g, ?_⟩, rfl, hy⟩
    exact moves_stay (howes _ _) rfl fun _ _ _ h => h

/-- **A call in which the system stays where it is.** -/
theorem tracks_sql {P : FineWorld V → Prop} {a : SqlCall}
    {R : Except String a.Answer → FineWorld V → Prop} {p : Prog calls String Unit}
    (hP : (fineSimulation sv offer).Stable t P) (hR : ∀ r, (fineSimulation sv offer).Stable t (R r))
    (hstep : ∀ {y r z}, P y → y.Sound → a.Does y t.process r z →
      RollsBack y (.act t (.sql t.process a) r) →
      z.Sound ∧ (∀ u, u ≠ t → KeepsLock u y z) ∧
        (∀ ds w, ds t = none → Related y ds w → Related z ds w) ∧ R r z) (hx : P x) :
    (fineSimulation sv offer).Tracks t (fun r f' y => f' = still p ∧ R r y) (sql t.process a)
      (still p) x := by
  refine tracks_perform hP (fun r f' => ?_) hx ?_
  · exact fun y z hr hy => ⟨hy.1, hR r hr hy.2⟩
  · intro y r z hy hsound hdoes hcond
    obtain ⟨hz, hothers, hrel, hend⟩ := hstep hy hsound hdoes hcond
    exact ⟨hz, hothers, still p, fun g => ⟨g, moves_stay changesDebt_none rfl hrel⟩, rfl, hend⟩

/-! ## The mutex -/

theorem setMutex_self {m : Option Party} {p : Process} : (y.setMutex p m).mutex p = m :=
  Function.update_self ..

/-- The mutex of the thread's process is the only thing that changes. -/
theorem leaves_mutex {m : Option Party} : Leaves t y (y.setMutex t.process m) :=
  ⟨fun _ hp => Function.update_of_ne hp _ _, fun _ _ _ => Iff.rfl, fun _ _ _ => rfl⟩

theorem tracks_lock {p : Prog calls String Unit} :
    (fineSimulation sv offer).Tracks t
      (fun r f y => f = still p ∧ (∃ v, r = .ok v) ∧ Locked t y) (sql t.process (.lock t))
      (still p) x := by
  refine tracks_sql (P := fun _ => True) (R := fun r y => (∃ v, r = .ok v) ∧ Locked t y)
    stable_true (fun r y z hr hy => ⟨hy.1, stable_locked hr hy.2⟩) ?_ trivial
  intro y r z _ hsound hdoes _
  cases r with
  | error e => exact hdoes.elim
  | ok v =>
    obtain ⟨hfree, rfl⟩ := hdoes
    refine ⟨leaves_mutex.sound_held hsound setMutex_self,
      fun u hu => leaves_mutex.keepsLock (.inl hfree) hu,
      fun ds w hd h => h.of_mutex hd (.inl hfree) (.inr rfl) rfl rfl, ⟨v, rfl⟩, setMutex_self, ?_⟩
    -- nobody leaves a transaction open
    exact fun hin => hsound.held _ hin hfree

/-- The body of a method has ended: the coarse call has its answer, or the body has thrown and
done nothing. -/
def Ended (t : Party) (a : Call) (k : Except String a.Answer → Prog calls String Unit)
    (r : Except String a.Answer) (f : Except String Unit → Prog calls String Unit × Option WString)
    (y : FineWorld V) : Prop :=
  Locked t y ∧ (f = still (k r) ∨ ∃ e, r = .error e ∧ f = still (.call (S := calls) a k))

/-- A call of the index may fail and leave everything as it was. -/
theorem exec_fails {a : Call} (ha : ¬ a.OffIndex) (w : World V) (e : String) :
    exec sv w a (.error e) w := by
  cases a with
  | update u =>
    refine ⟨w.index, ?_, rfl⟩
    cases u with
    | recordError => exact .inl rfl
    | recordAccess | upsertPendingJob | removePendingJob | deleteRecord | markCached
    | markRemoved => rfl
  | query q => rfl
  | copyAndHash | removeCachedFile | freeBytes | memory => exact (ha trivial).elim

theorem seenCall_index {a : Call} (ha : ¬ a.OffIndex) (r : Except String a.Answer) :
    seenCall a r = none := by
  cases a with
  | update u => rfl
  | query q => rfl
  | copyAndHash | removeCachedFile | freeBytes | memory => exact (ha trivial).elim

theorem unlock_step (hy : Locked t y) (hsound : y.Sound) :
    (y.setMutex t.process none).Sound ∧
      ∀ u, u ≠ t → KeepsLock u y (y.setMutex t.process none) := by
  refine ⟨leaves_mutex.sound hsound (fun hin => (hy.outside hin).elim) fun s hs => ?_,
    fun u hu => leaves_mutex.keepsLock (.inr hy.mutex) hu⟩
  rw [setMutex_self] at hs
  cases hs

/-- **Leaving a method**: what has thrown without effect is a call that failed. -/
theorem tracks_unlock {a : Call} (ha : ¬ a.OffIndex)
    {k : Except String a.Answer → Prog calls String Unit} {r : Except String a.Answer}
    {f : Except String Unit → Prog calls String Unit × Option WString} (hend : Ended t a k r f x) :
    (fineSimulation sv offer).Tracks t ((fineSimulation sv offer).Answered k)
      ((sql t.process .unlock).bind fun _ => .ofResult r) f x := by
  obtain ⟨hx, hf⟩ := hend
  have hunlock : (fineSimulation sv offer).Tracks t
      (fun r' f' _ => (∃ v, r' = .ok v) ∧ f' = still (k r)) (sql t.process .unlock) f x := by
    refine tracks_perform stable_locked (fun _ _ _ _ _ h => h) hx ?_
    intro y r' z hy hsound hdoes _
    cases r' with
    | error e => exact hdoes.elim
    | ok v =>
      obtain rfl := hdoes
      obtain ⟨hz, hothers⟩ := unlock_step hy hsound
      refine ⟨hz, hothers, still (k r), fun g => ⟨g, ?_⟩, ⟨v, rfl⟩, rfl⟩
      rcases hf with rfl | ⟨e, rfl, rfl⟩
      · exact moves_stay changesDebt_none rfl fun ds w hd h => h.of_mutex hd (.inr hy.mutex) (.inl rfl) rfl rfl
      · -- the coarse call fails here
        refine ⟨owes_nothing _ _, fun ds w hd h => ?_⟩
        refine .inr ⟨a, k, .error e, w, rfl, rfl, exec_fails ha w e, ?_, (seenCall_index ha _).symm⟩
        rw [show (still (k (.error e)) g).2 = ds t from hd.symm, Function.update_eq_self]
        exact h.of_mutex hd (.inr hy.mutex) (.inl rfl) rfl rfl
  refine tracks_bind (tracks_mono ?_ hunlock)
  rintro r' f' y ⟨⟨v, rfl⟩, rfl⟩
  cases r with
  | ok v => exact fun z _ => rfl
  | error e => exact fun z _ => rfl

/-- **A method** is its call when its body is. -/
theorem implements_withDb {a : Call} (ha : ¬ a.OffIndex) {body : FineTask a.Answer}
    (hbody : ∀ (k : Except String a.Answer → Prog calls String Unit) (x : FineWorld V), Locked t x →
      (fineSimulation sv offer).Tracks t (Ended t a k) body (still (.call (S := calls) a k)) x) :
    (fineSimulation sv offer).Implements t a (withDb t body) := by
  intro k x
  refine tracks_bind (tracks_mono ?_ tracks_lock)
  rintro r f y ⟨rfl, ⟨v, rfl⟩, hy⟩
  refine tracks_ensuring (tracks_mono (fun r f z hend => tracks_unlock ha hend) ?_)
  refine tracks_bind (tracks_mono ?_ (tracks_look (a := .requireDb) stable_locked ?_
    (fun _ _ => rfl) hy))
  · rintro r f z ⟨rfl, hz⟩
    cases r with
    | ok v => exact hbody k z hz
    | error e => exact fun u hu => ⟨stable_locked hu hz, .inr ⟨e, rfl, rfl⟩⟩
  · intro y r z hdoes
    cases r with
    | ok v => exact hdoes.2
    | error e => exact hdoes.2.2

/-! ## Effects -/

/-- The update and a retry counted by another process can change places. -/
def Update.Commutes (u : Update) : Prop :=
  ∀ ix ix' relativePath, u.apply ix = .ok ix' →
    u.apply (ix.countRetry relativePath) = .ok (ix'.countRetry relativePath)

/-- The update a thread makes can change places with what the other process may owe. -/
def Update.Fits (t : Party) (u : Update) : Prop := t.process = .service ∨ u.Commutes

/-- **The point of an update**: its effect on the committed rows is its effect on the system's,
whatever another process owes. -/
theorem Related.apply {u : Update} (hu : u.Fits t) (h : Related y ds w) (hy : HoldsMutex t y)
    (hd : ds t = none) {ix : CacheIndex} (hix : u.apply y.committed = .ok ix) :
    u.apply w.index = .ok (ix.paid ((y.mutex .service).bind ds)) := by
  obtain ⟨d, hservice, hdebt, rfl⟩ := h.debt hy hd
  rw [hdebt]
  cases d with
  | none => exact hix
  | some relativePath =>
    rcases hu with ht | hcommutes
    · cases hservice ht
    · exact hcommutes _ _ _ hix

/-- **A step that commits** the effect of an update is the update. -/
theorem moves_commit {u : Update} (hu : u.Fits t) (hy : HoldsMutex t y) {ix : CacheIndex}
    (hix : u.apply y.committed = .ok ix) (hmutex : z.mutex = y.mutex)
    (hworld : z.world = { y.world with index := ix }) {a : SqlCall} {r : Except String a.Answer}
    {k : Except String Unit → Prog calls String Unit} (g : Except String Unit) :
    (fineSimulation sv offer).Moves t y (.sql t.process a) r z
      (still (.call (S := calls) (.update u) k) g) (still (k (.ok ())) g) := by
  refine ⟨changesDebt_none, fun ds w hd h => ?_⟩
  have happly := h.apply hu hy hd hix
  refine .inr ⟨.update u, k, .ok (), _, rfl, rfl, ⟨_, happly, rfl⟩, ?_, rfl⟩
  rw [show (still (k (.ok ())) g).2 = ds t from hd.symm, Function.update_eq_self]
  exact h.of_commit hmutex hworld

/-- A statement that changes the transaction of the thread's process. -/
theorem leaves_transaction (ix : CacheIndex) {o : Option (Process × CacheIndex)}
    (hy : y.transaction = none ∨ y.transaction = some (t.process, ix))
    (ho : o = none ∨ ∃ ix', o = some (t.process, ix')) :
    Leaves t y { y with transaction := o } := by
  have hnot : ∀ p ix', p ≠ t.process → y.transaction ≠ some (p, ix') := by
    intro p ix' hp he
    rcases hy with hnone | hown
    · rw [hnone] at he
      cases he
    · rw [hown] at he
      exact hp (congrArg Prod.fst (Option.some.inj he)).symm
  refine ⟨fun _ _ => rfl, fun p ix' hp => ⟨fun he => (hnot p ix' hp he).elim, fun he => ?_⟩,
    fun _ _ _ => rfl⟩
  rcases ho with rfl | ⟨ix'', rfl⟩
  · cases he
  · exact (hp (congrArg Prod.fst (Option.some.inj he)).symm).elim

/-- The same, with a commit. -/
theorem leaves_commit {o : Option CacheIndex} {ix : CacheIndex}
    (hy : y.transaction = o.map fun ix => (t.process, ix)) :
    Leaves t y { y with committed := ix, transaction := none } := by
  have hnot : ∀ p ix', p ≠ t.process → y.transaction ≠ some (p, ix') := by
    intro p ix' hp he
    rw [hy] at he
    cases o with
    | none => cases he
    | some work => exact hp (congrArg Prod.fst (Option.some.inj he)).symm
  refine ⟨fun _ _ => rfl, fun p ix' hp => ⟨fun he => (hnot p ix' hp he).elim, fun he => by cases he⟩, ?_⟩
  rintro p hp ⟨ix', hix⟩
  exact (hnot p ix' hp hix).elim

/-! ## One statement -/

theorem stepDone_locked {statement : Statement} {r : Except String Unit} (hy : Locked t y)
    (hdoes : (SqlCall.stepDone statement).Does y t.process r z) :
    (∃ e, r = .error e ∧ z = y) ∨
      ∃ ix, r = .ok () ∧ y.transaction = none ∧ statement.apply y.committed = .ok ix ∧
        z = { y with committed := ix } := by
  cases r with
  | ok v =>
    rcases hdoes with ⟨ix, ix', hown, -⟩ | ⟨ix, hnone, happly, rfl⟩
    · exact (hy.outside ⟨ix, hown⟩).elim
    · exact .inr ⟨ix, rfl, hnone, happly, rfl⟩
  | error e =>
    rcases hdoes with rfl | ⟨hin, -⟩
    · exact .inl ⟨e, rfl, rfl⟩
    · exact (hy.outside hin).elim

theorem bindWide_same {relativePath : WString} {p : Process} {r : Except String Unit}
    (hdoes : (SqlCall.bindWide relativePath).Does y p r z) : z = y := by
  cases r with
  | ok v => exact hdoes.2
  | error e => exact hdoes

/-- A statement on its own commits. -/
theorem locked_commit (hy : Locked t y) (hsound : y.Sound) (hnone : y.transaction = none)
    {ix : CacheIndex} (hz : z = { y with committed := ix }) :
    z.Sound ∧ (∀ u, u ≠ t → KeepsLock u y z) ∧ Locked t z := by
  have hleaves : Leaves t y { y with committed := ix, transaction := none } :=
    leaves_commit (o := none) hnone
  have hsame : ({ y with committed := ix, transaction := none } : FineWorld V) = z := by
    rw [hz, ← hnone]
  rw [hsame] at hleaves
  subst hz
  exact ⟨hleaves.sound_held hsound hy.mutex, fun u hu => hleaves.keepsLock (.inr hy.mutex) hu,
    hy.mutex, hy.outside⟩

/-- **A method of one statement.** -/
theorem tracks_alone {u : Update} {statement : Statement} (hu : u.Fits t)
    (hs : ∀ ix ix', statement.apply ix = .ok ix' → u.apply ix = .ok ix')
    (k : Except String Unit → Prog calls String Unit) (x : FineWorld V) (hx : Locked t x) :
    (fineSimulation sv offer).Tracks t (Ended t (.update u) k) (runStatement t.process statement)
      (still (.call (S := calls) (.update u) k)) x := by
  refine tracks_bind (tracks_mono ?_ (tracks_look stable_locked bindWide_same (fun _ _ => rfl) hx))
  rintro r f y ⟨rfl, hy⟩
  cases r with
  | error e => exact fun z hz => ⟨stable_locked hz hy, .inr ⟨e, rfl, rfl⟩⟩
  | ok v =>
    refine tracks_perform stable_locked (fun r f y z hr hend => ⟨stable_locked hr hend.1, hend.2⟩)
      hy ?_
    intro y r z hy hsound hdoes _
    rcases stepDone_locked hy hdoes with ⟨e, rfl, rfl⟩ | ⟨ix, rfl, hnone, happly, rfl⟩
    · refine ⟨hsound, fun u _ => (fineSimulation sv offer).refl u z, _, fun g => ⟨g, ?_⟩, hy,
        .inr ⟨e, rfl, rfl⟩⟩
      exact moves_stay changesDebt_none rfl fun _ _ _ h => h
    · obtain ⟨hzs, hothers, hz⟩ := locked_commit hy hsound hnone rfl
      refine ⟨hzs, hothers, still (k (.ok ())), fun g => ⟨g, ?_⟩, hz, .inl rfl⟩
      exact moves_commit (z := { y with committed := ix }) hu hy.mutex (hs _ _ happly) rfl rfl g

/-! ## Transactions -/

/-- The statements of a transaction have run, or one has failed. -/
def Worked (t : Party) (base work : CacheIndex) (statements : List Statement) :
    Except String Unit → FineWorld V → Prop
  | .ok _, y => ∃ ix, Statement.applyAll work statements = .ok ix ∧ InWork t base ix y
  | .error _, y => HoldsMutex t y

theorem stable_worked {base work : CacheIndex} {statements : List Statement}
    (r : Except String Unit) :
    (fineSimulation sv offer).Stable t (Worked t base work statements r) := by
  intro y z hr h
  cases r with
  | ok v =>
    obtain ⟨ix, hix, hy⟩ := h
    exact ⟨ix, hix, stable_inWork hr hy⟩
  | error e => exact stable_holdsMutex hr h

/-- A step within a transaction changes nothing but the transaction. -/
theorem inWork_step {base work : CacheIndex} {o : Option (Process × CacheIndex)}
    (hy : InWork t base work y) (hsound : y.Sound) (ho : o = none ∨ ∃ ix, o = some (t.process, ix))
    (hz : z = { y with transaction := o }) :
    z.Sound ∧ (∀ u, u ≠ t → KeepsLock u y z) ∧
      ∀ ds w, ds t = none → Related y ds w → Related z ds w := by
  subst hz
  have hleaves : Leaves t y { y with transaction := o } := leaves_transaction work (.inr hy.work) ho
  exact ⟨hleaves.sound_held hsound hy.mutex, fun u hu => hleaves.keepsLock (.inr hy.mutex) hu,
    fun ds w _ h => h.of_same rfl rfl⟩

/-- What a failed call of a transaction leaves. -/
theorem inWork_failed {base work : CacheIndex} (hy : InWork t base work y)
    (hz : z = y ∨ y.InTransaction t.process ∧ z = { y with transaction := none }) :
    ∃ o, (o = none ∨ ∃ ix, o = some (t.process, ix)) ∧ z = { y with transaction := o } := by
  rcases hz with rfl | ⟨-, rfl⟩
  · exact ⟨z.transaction, .inr ⟨work, hy.work⟩, rfl⟩
  · exact ⟨none, .inl rfl, rfl⟩

theorem tracks_runStatements {base : CacheIndex} {p : Prog calls String Unit} :
    ∀ (statements : List Statement) (work : CacheIndex) (x : FineWorld V), InWork t base work x →
      (fineSimulation sv offer).Tracks t (fun r f y => f = still p ∧ Worked t base work statements r y)
        (runStatements t.process statements) (still p) x := by
  intro statements
  induction statements with
  | nil =>
    intro work x hx y hy
    exact ⟨rfl, work, rfl, stable_inWork hy hx⟩
  | cons statement statements ih =>
    intro work x hx
    refine tracks_bind (tracks_bind (tracks_mono ?_ (tracks_look stable_inWork bindWide_same (fun _ _ => rfl) hx)))
    rintro r f y ⟨rfl, hy⟩
    cases r with
    | error e =>
      exact fun z hz u hu => ⟨rfl, stable_holdsMutex hu (stable_holdsMutex hz hy.mutex)⟩
    | ok v =>
      refine tracks_mono ?_ (tracks_sql (a := .stepDone statement)
        (R := Worked t base work [statement]) stable_inWork stable_worked ?_ hy)
      · rintro r f z ⟨rfl, hz⟩
        cases r with
        | error e => exact fun u hu => ⟨rfl, stable_holdsMutex hu hz⟩
        | ok v =>
          obtain ⟨ix, happly, hz⟩ := hz
          -- the rest goes on from the tables this statement has made
          have hone : statement.apply work = .ok ix := by
            simp only [Statement.applyAll] at happly
            split at happly
            · rename_i ix' hix
              cases happly
              exact hix
            · cases happly
          refine tracks_mono ?_ (ih ix z hz)
          rintro r f u ⟨rfl, hu⟩
          refine ⟨rfl, ?_⟩
          cases r with
          | error e => exact hu
          | ok v =>
            obtain ⟨ix', hix', hwork⟩ := hu
            exact ⟨ix', by simp only [Statement.applyAll, hone, hix'], hwork⟩
      · intro y r z hy hsound hdoes _
        cases r with
        | ok v =>
          rcases hdoes with ⟨ix, ix', hown, happly, hz⟩ | ⟨ix', hnone, -⟩
          · obtain ⟨hzs, hothers, hrel⟩ := inWork_step hy hsound (.inr ⟨ix', rfl⟩) hz
            have hwork : work = ix := by
              have he := hy.work.symm.trans hown
              exact congrArg Prod.snd (Option.some.inj he)
            subst hwork hz
            exact ⟨hzs, hothers, hrel, ix', by simp only [Statement.applyAll, happly], hy.mutex, rfl,
              hy.base⟩
          · rw [hy.work] at hnone
            cases hnone
        | error e =>
          obtain ⟨o, ho, rfl⟩ := inWork_failed hy hdoes
          obtain ⟨hzs, hothers, hrel⟩ := inWork_step hy hsound ho rfl
          exact ⟨hzs, hothers, hrel, hy.mutex⟩

/-- The `COMMIT` has run, or failed. -/
def Committed (t : Party) (a : Call) (k : Except String a.Answer → Prog calls String Unit)
    (ok : Except String a.Answer) : Except String Unit →
    (Except String Unit → Prog calls String Unit × Option WString) → FineWorld V → Prop
  | .ok _, f, y => f = still (k ok) ∧ Locked t y
  | .error _, f, y => f = still (.call (S := calls) a k) ∧ HoldsMutex t y

/-- **The point of a transaction** is its `COMMIT`. -/
theorem tracks_commit {u : Update} {base work : CacheIndex} (hu : u.Fits t)
    (hwork : u.apply base = .ok work) {k : Except String Unit → Prog calls String Unit}
    (hx : InWork t base work x) :
    (fineSimulation sv offer).Tracks t (Committed t (.update u) k (.ok ())) (sql t.process .commit)
      (still (.call (S := calls) (.update u) k)) x := by
  refine tracks_perform stable_inWork (fun r f => ?_) hx ?_
  · intro y z hr hy
    cases r with
    | ok v => exact ⟨hy.1, stable_locked hr hy.2⟩
    | error e => exact ⟨hy.1, stable_holdsMutex hr hy.2⟩
  · intro y r z hy hsound hdoes _
    cases r with
    | ok v =>
      obtain ⟨ix, hown, rfl⟩ := hdoes
      obtain rfl : work = ix := congrArg Prod.snd (Option.some.inj (hy.work.symm.trans hown))
      have hleaves : Leaves t y { y with committed := work, transaction := none } :=
        leaves_commit (o := some work) hown
      refine ⟨hleaves.sound_held hsound hy.mutex, fun u hu => hleaves.keepsLock (.inr hy.mutex) hu,
        still (k (.ok ())), fun g => ⟨g, ?_⟩, rfl, hy.mutex, not_inTransaction rfl⟩
      exact moves_commit (z := { y with committed := work, transaction := none }) hu hy.mutex
        (hy.base ▸ hwork) rfl rfl g
    | error e =>
      obtain ⟨o, ho, rfl⟩ := inWork_failed hy hdoes
      obtain ⟨hzs, hothers, hrel⟩ := inWork_step hy hsound ho rfl
      exact ⟨hzs, hothers, _, fun g => ⟨g, moves_stay changesDebt_none rfl hrel⟩, rfl, hy.mutex⟩

/-- **Rolling back** ends the transaction, if SQLite has not done so already. -/
theorem tracks_rollback {p : Prog calls String Unit} (hx : HoldsMutex t x) :
    (fineSimulation sv offer).Tracks t (fun _ f y => f = still p ∧ Locked t y)
      (sql t.process .rollback) (still p) x := by
  refine tracks_sql (R := fun _ => Locked t) stable_holdsMutex (fun _ => stable_locked) ?_ hx
  intro y r z hy hsound hdoes hcond
  cases r with
  | error e =>
    obtain rfl := hdoes
    exact ⟨hsound, fun u _ => (fineSimulation sv offer).refl u z, fun _ _ _ h => h, hy, hcond⟩
  | ok v =>
    obtain ⟨⟨ix, hown⟩, rfl⟩ := hdoes
    have hleaves : Leaves t y { y with transaction := none } :=
      leaves_transaction ix (.inr hown) (.inl rfl)
    exact ⟨hleaves.sound_held hsound hy, fun u hu => hleaves.keepsLock (.inr hy) hu,
      fun ds w _ h => h.of_same rfl rfl, hy, not_inTransaction rfl⟩

theorem tracks_begin {p : Prog calls String Unit} (hx : Locked t x) :
    (fineSimulation sv offer).Tracks t
      (fun r f y => f = still p ∧
        ((∃ v base, r = .ok v ∧ InWork t base base y) ∨ (∃ e, r = .error e) ∧ Locked t y))
      (sql t.process .begin) (still p) x := by
  refine tracks_sql (R := fun r y => (∃ v base, r = .ok v ∧ InWork t base base y) ∨
    (∃ e, r = .error e) ∧ Locked t y) stable_locked ?_ ?_ hx
  · rintro r y z hr (⟨v, base, rfl, hy⟩ | ⟨he, hy⟩)
    · exact .inl ⟨v, base, rfl, stable_inWork hr hy⟩
    · exact .inr ⟨he, stable_locked hr hy⟩
  · intro y r z hy hsound hdoes _
    cases r with
    | error e =>
      obtain rfl := hdoes
      exact ⟨hsound, fun u _ => (fineSimulation sv offer).refl u z, fun _ _ _ h => h,
        .inr ⟨⟨e, rfl⟩, hy⟩⟩
    | ok v =>
      obtain ⟨hnone, rfl⟩ := hdoes
      have hleaves : Leaves t y { y with transaction := some (t.process, y.committed) } :=
        leaves_transaction y.committed (.inl hnone) (.inr ⟨_, rfl⟩)
      exact ⟨hleaves.sound_held hsound hy.mutex, fun u hu => hleaves.keepsLock (.inr hy.mutex) hu,
        fun ds w _ h => h.of_same rfl rfl, .inl ⟨v, y.committed, rfl, hy.mutex, rfl, rfl⟩⟩

/-- **A method of one transaction.** -/
theorem tracks_inTransaction {u : Update} {statements : List Statement} (hu : u.Fits t)
    (hs : ∀ ix ix', Statement.applyAll ix statements = .ok ix' → u.apply ix = .ok ix')
    (k : Except String Unit → Prog calls String Unit) (x : FineWorld V) (hx : Locked t x) :
    (fineSimulation sv offer).Tracks t (Ended t (.update u) k) (inTransaction t.process statements)
      (still (.call (S := calls) (.update u) k)) x := by
  refine tracks_bind (tracks_mono ?_ (tracks_begin hx))
  rintro r f y ⟨rfl, ⟨v, base, rfl, hy⟩ | ⟨⟨e, rfl⟩, hy⟩⟩
  · have hbody : (fineSimulation sv offer).Tracks t (Committed t (.update u) k (.ok ()))
        ((runStatements t.process statements).bind fun _ => sql t.process .commit)
        (still (.call (S := calls) (.update u) k)) y := by
      refine tracks_bind (tracks_mono ?_ (tracks_runStatements statements base y hy))
      rintro r f z ⟨rfl, hz⟩
      cases r with
      | ok v =>
        obtain ⟨ix, hix, hwork⟩ := hz
        exact tracks_commit hu (hs _ _ hix) hwork
      | error e => exact fun v hv => ⟨rfl, stable_holdsMutex hv hz⟩
    refine tracks_tryCatch (tracks_mono ?_ hbody)
    intro r f z hz
    cases r with
    | ok v => exact fun u hu => ⟨stable_locked hu hz.2, .inl hz.1⟩
    | error e =>
      obtain ⟨rfl, hz⟩ := hz
      -- the handler rolls back and throws what it caught, or what `ROLLBACK` threw
      refine tracks_bind (tracks_mono ?_ (tracks_rollback hz))
      rintro r f v ⟨rfl, hv⟩
      cases r with
      | ok _ => exact fun u hu => ⟨stable_locked hu hv, .inr ⟨e, rfl, rfl⟩⟩
      | error e' => exact fun u hu => ⟨stable_locked hu hv, .inr ⟨e', rfl, rfl⟩⟩
  · exact fun z hz => ⟨stable_locked hz hy, .inr ⟨e, rfl, rfl⟩⟩

/-! ## `record_error` -/

variable {relativePath : WString} {k : Except String Unit → Prog calls String Unit}

/-- After the first statement of `record_error`: the answer is what the second one will answer,
and the retry is owed if it will succeed. -/
def owing (k : Except String Unit → Prog calls String Unit) (relativePath : WString) :
    Except String Unit → Prog calls String Unit × Option WString
  | .ok _ => (k (.ok ()), some relativePath)
  | .error e => (k (.error e), none)

/-- What is left of `record_error` has not failed yet, or has, and its answer is known. -/
def Awaits (t : Party) (k : Except String Unit → Prog calls String Unit) (relativePath : WString) :
    Except String Unit → (Except String Unit → Prog calls String Unit × Option WString) →
    FineWorld V → Prop
  | .ok _, f, y => f = owing k relativePath ∧ Locked t y
  | .error e, f, y => f = still (k (.error e)) ∧ Locked t y

theorem stable_awaits (r : Except String Unit)
    (f : Except String Unit → Prog calls String Unit × Option WString) :
    (fineSimulation sv offer).Stable t (Awaits t k relativePath r f) := by
  intro y z hr hy
  cases r with
  | ok v => exact ⟨hy.1, stable_locked hr hy.2⟩
  | error e => exact ⟨hy.1, stable_locked hr hy.2⟩

/-- **A failure proves the guess of it right.** -/
theorem moves_resolve {b : fineCalls.Act} {r : Except String (fineCalls.Resp b)}
    (hseen : seenFine b r = none) (e : String) (g' : Except String Unit) :
    ∃ g, (fineSimulation sv offer).Moves t y b r y (owing k relativePath g)
      (still (k (.error e)) g') :=
  ⟨.error e, moves_stay changesDebt_none hseen fun _ _ _ h => h⟩

/-- A call before the second statement. -/
theorem tracks_awaits {a : SqlCall}
    (ha : ∀ {y : FineWorld V} {r z}, a.Does y t.process r z → z = y)
    (howes : ∀ r d, changesDebt (.sql t.process a) r d d) (hx : Locked t x) :
    (fineSimulation sv offer).Tracks t
      (fun r => Awaits t k relativePath (r.map fun _ => ())) (sql t.process a) (owing k relativePath)
      x := by
  refine tracks_perform stable_locked (fun r => stable_awaits _) hx ?_
  intro y r z hy hsound hdoes _
  obtain rfl := ha hdoes
  refine ⟨hsound, fun u _ => (fineSimulation sv offer).refl u z, ?_⟩
  cases r with
  | ok v =>
    exact ⟨owing k relativePath, fun g => ⟨g, moves_stay (howes _ _) rfl fun _ _ _ h => h⟩, rfl, hy⟩
  | error e => exact ⟨still (k (.error e)), fun g' => moves_resolve rfl e g', rfl, hy⟩

/-- **The first statement** of `record_error` is its point, with either outcome. -/
theorem moves_setError (ht : t.process = .service) (hy : HoldsMutex t y) {errorMessage : String}
    {ix : CacheIndex}
    (hix : (Statement.setError relativePath errorMessage).apply y.committed = .ok ix)
    (g : Except String Unit) :
    (fineSimulation sv offer).Moves t y
      (.sql t.process (.stepDone (.setError relativePath errorMessage))) (.ok ())
      { y with committed := ix }
      (still (.call (S := calls) (.update (.recordError relativePath errorMessage)) k) g)
      (owing k relativePath g) := by
  refine ⟨by cases g <;> first | exact .inr rfl | exact .inl rfl, fun ds w hd h => ?_⟩
  cases hix
  obtain ⟨d, hservice, -, rfl⟩ := h.debt hy hd
  obtain rfl : d = none := hservice ht
  have hmutex : y.mutex .service = some t := ht ▸ hy
  have honly : ∀ (d : Option WString) s, y.mutex .service ≠ some s →
      Function.update ds t d s = none := by
    intro d s hs
    have hst : s ≠ t := by
      rintro rfl
      exact hs hmutex
    rw [Function.update_of_ne hst]
    exact h.only s hs
  have hdebt : ∀ d, (y.mutex .service).bind (Function.update ds t d) = d := by
    intro d
    rw [hmutex]
    exact Function.update_self ..
  -- the rows after the first statement
  set ix := y.committed.updateFile relativePath fun row => { row with lastError := some errorMessage }
  cases g with
  | ok v =>
    have hexec : exec sv y.world (.update (.recordError relativePath errorMessage)) (.ok ())
        { y.world with index := ix.countRetry relativePath } := ⟨_, rfl, rfl⟩
    refine .inr ⟨.update (.recordError relativePath errorMessage), k, .ok (), _, rfl, rfl, hexec,
      ⟨honly (some relativePath), ?_⟩, rfl⟩
    exact congrArg (fun d => ({ y.world with index := ix.paid d } : World V)) (hdebt (some relativePath)).symm
  | error e =>
    have hexec : exec sv y.world (.update (.recordError relativePath errorMessage)) (.error e)
        { y.world with index := ix } := ⟨_, .inr rfl, rfl⟩
    refine .inr ⟨.update (.recordError relativePath errorMessage), k, .error e, _, rfl, rfl, hexec,
      ⟨honly none, ?_⟩, rfl⟩
    exact congrArg (fun d => ({ y.world with index := ix.paid d } : World V)) (hdebt none).symm

/-- **The second statement** pays what is owed, or proves the guess of its failure right. -/
theorem tracks_countRetry (ht : t.process = .service) {errorMessage : String} (hx : Locked t x) :
    (fineSimulation sv offer).Tracks t (Ended t (.update (.recordError relativePath errorMessage)) k)
      (sql t.process (.stepDone (.countRetry relativePath))) (owing k relativePath) x := by
  refine tracks_perform stable_locked (fun r f y z hr hend => ⟨stable_locked hr hend.1, hend.2⟩)
    hx ?_
  intro y r z hy hsound hdoes _
  rcases stepDone_locked hy hdoes with ⟨e, rfl, rfl⟩ | ⟨ix, rfl, hnone, happly, rfl⟩
  · exact ⟨hsound, fun u _ => (fineSimulation sv offer).refl u z, still (k (.error e)),
      fun g' => moves_resolve rfl e g', hy, .inl rfl⟩
  · obtain ⟨hzs, hothers, hz⟩ := locked_commit hy hsound hnone rfl
    refine ⟨hzs, hothers, still (k (.ok ())), fun g' => ⟨.ok (), rfl, fun ds w hd h => ?_⟩, hz,
      .inl rfl⟩
    cases happly
    have hmutex : y.mutex .service = some t := ht ▸ hy.mutex
    refine .inl ⟨rfl, rfl, ⟨fun s hs => ?_, ?_⟩⟩
    · have hst : s ≠ t := by
        rintro rfl
        exact hs hmutex
      rw [Function.update_of_ne hst]
      exact h.only s hs
    · have hold : (y.mutex .service).bind ds = some relativePath := by
        rw [hmutex]
        exact hd
      have hnew : (y.mutex .service).bind (Function.update ds t none) = none := by
        rw [hmutex]
        exact Function.update_self ..
      rw [h.world, hold]
      exact congrArg (fun d => ({ y.world with
        index := (y.committed.countRetry relativePath).paid d } : World V)) hnew.symm

theorem requireDb_same {p : Process} {r : Except String Unit}
    (hdoes : SqlCall.requireDb.Does y p r z) : z = y := by
  cases r with
  | ok v => exact hdoes.2
  | error e => exact hdoes.2.2

/-- What is left after the first statement. -/
theorem tracks_rest (ht : t.process = .service) {errorMessage : String} (hx : Locked t x) :
    (fineSimulation sv offer).Tracks t (Ended t (.update (.recordError relativePath errorMessage)) k)
      ((sql t.process .requireDb).bind fun _ => runStatement t.process (.countRetry relativePath))
      (owing k relativePath) x := by
  refine tracks_bind (tracks_mono ?_ (tracks_awaits requireDb_same (fun _ _ => rfl) hx))
  intro r f y hy
  cases r with
  | error e => exact fun z hz => ⟨stable_locked hz hy.2, .inl hy.1⟩
  | ok v =>
    obtain ⟨rfl, hy⟩ := hy
    have hrest : (fineSimulation sv offer).Tracks t
        (Ended t (.update (.recordError relativePath errorMessage)) k)
        (runStatement t.process (.countRetry relativePath)) (owing k relativePath) y := by
      refine tracks_bind (tracks_mono ?_ (tracks_awaits bindWide_same (fun _ _ => rfl) hy))
      intro r f z hz
      cases r with
      | error e => exact fun u hu => ⟨stable_locked hu hz.2, .inl hz.1⟩
      | ok v =>
        obtain ⟨rfl, hz⟩ := hz
        exact tracks_countRetry ht hz
    exact hrest

theorem tracks_recordError (ht : t.process = .service) {errorMessage : String} (x : FineWorld V)
    (hx : Locked t x) :
    (fineSimulation sv offer).Tracks t (Ended t (.update (.recordError relativePath errorMessage)) k)
      ((runStatement t.process (.setError relativePath errorMessage)).bind fun _ =>
        (sql t.process .requireDb).bind fun _ =>
          runStatement t.process (.countRetry relativePath))
      (still (.call (S := calls) (.update (.recordError relativePath errorMessage)) k)) x := by
  refine tracks_bind (tracks_bind (tracks_mono ?_ (tracks_look stable_locked bindWide_same (fun _ _ => rfl) hx)))
  rintro r f y ⟨rfl, hy⟩
  cases r with
  | error e =>
    exact fun z hz u hu => ⟨stable_locked hu (stable_locked hz hy), .inr ⟨e, rfl, rfl⟩⟩
  | ok v =>
    have hfirst : (fineSimulation sv offer).Tracks t
        (fun r f y => ((∃ v, r = .ok v) ∧ f = owing k relativePath ∨ (∃ e, r = .error e) ∧
          f = still (.call (S := calls) (.update (.recordError relativePath errorMessage)) k)) ∧
            Locked t y)
        (sql t.process (.stepDone (.setError relativePath errorMessage)))
        (still (.call (S := calls) (.update (.recordError relativePath errorMessage)) k)) y := by
      refine tracks_perform stable_locked (fun r f y z hr hend => ⟨hend.1, stable_locked hr hend.2⟩)
        hy ?_
      intro y r z hy hsound hdoes _
      rcases stepDone_locked hy hdoes with ⟨e, rfl, rfl⟩ | ⟨ix, rfl, hnone, happly, rfl⟩
      · refine ⟨hsound, fun u _ => (fineSimulation sv offer).refl u z, _, fun g => ⟨g, ?_⟩,
          .inr ⟨⟨e, rfl⟩, rfl⟩, hy⟩
        exact moves_stay changesDebt_none rfl fun _ _ _ h => h
      · obtain ⟨hzs, hothers, hz⟩ := locked_commit hy hsound hnone rfl
        exact ⟨hzs, hothers, owing k relativePath,
          fun g => ⟨g, moves_setError ht hy.mutex happly g⟩, .inl ⟨⟨(), rfl⟩, rfl⟩, hz⟩
    refine tracks_mono ?_ hfirst
    rintro r f z ⟨⟨⟨v, rfl⟩, rfl⟩ | ⟨⟨e, rfl⟩, rfl⟩, hz⟩
    · exact tracks_rest ht hz
    · exact fun u hu => ⟨stable_locked hu hz, .inr ⟨e, rfl, rfl⟩⟩

/-! ## The methods -/

/-- The calls that can change places with a retry counted by the other process. -/
def Call.Fits (t : Party) : Call → Prop
  | .update u => u.Fits t ∧ (t.process = .service ∨ ∀ p e, u ≠ .recordError p e)
  | .query q => t.process = .service ∨
    ∀ (ix : CacheIndex) clock r relativePath, q.Answers ix clock r →
      q.Answers (ix.countRetry relativePath) clock r
  | _ => True

theorem isEmpty_same {p : Process} {r : Except String Bool}
    (hdoes : (SqlCall.isEmpty relativePath).Does y p r z) :
    z = y ∧ r = .ok (decide (relativePath = [])) := by
  cases r with
  | ok v => exact ⟨hdoes.2, congrArg Except.ok hdoes.1⟩
  | error e => exact hdoes.elim

/-- **An empty path** makes the method return at once, which is its point. -/
theorem implements_unlessEmpty {u : Update} {body : FineTask Unit}
    (hempty : relativePath = [] → ∀ ix, u.apply ix = .ok ix)
    (hbody : relativePath ≠ [] → (fineSimulation sv offer).Implements t (.update u) body) :
    (fineSimulation sv offer).Implements t (.update u)
      (unlessEmpty t.process relativePath body) := by
  intro k x
  have hcheck : (fineSimulation sv offer).Tracks t
      (fun r f _ => r = .ok (decide (relativePath = [])) ∧
        f = if relativePath = [] then still (k (.ok ())) else
          still (.call (S := calls) (.update u) k))
      (sql t.process (.isEmpty relativePath)) (still (.call (S := calls) (.update u) k)) x := by
    refine tracks_perform stable_true (fun _ _ _ _ _ h => h) trivial ?_
    intro y r z _ hsound hdoes _
    obtain ⟨rfl, rfl⟩ := isEmpty_same hdoes
    refine ⟨hsound, fun u _ => (fineSimulation sv offer).refl u z, _, fun g => ⟨g, ?_⟩, rfl, rfl⟩
    by_cases hp : relativePath = []
    · rw [if_pos hp]
      refine ⟨owes_nothing _ _, fun ds w hd h => ?_⟩
      have hexec : exec sv w (.update u) (.ok ()) w := ⟨w.index, hempty hp _, rfl⟩
      refine .inr ⟨.update u, k, .ok (), w, rfl, rfl, hexec, ?_, rfl⟩
      rw [show (still (k (.ok ())) g).2 = ds t from hd.symm, Function.update_eq_self]
      exact h
    · rw [if_neg hp]
      exact moves_stay changesDebt_none rfl fun _ _ _ h => h
  refine tracks_bind (tracks_mono ?_ hcheck)
  rintro r f y ⟨rfl, rfl⟩
  by_cases hp : relativePath = []
  · rw [if_pos hp, decide_eq_true hp]
    exact fun z _ => rfl
  · rw [if_neg hp, decide_eq_false hp]
    exact hbody hp k y

/-- The job row of a path whose file row is there. -/
theorem putJob_ok {ix ix' : CacheIndex} {f : Option JobRow → JobRow}
    (h : Statement.putJob ix relativePath f = .ok ix') :
    relativePath ∈ ix.files ∧ ix'.files = ix.files ∧
      ix'.pendingJobs = Sql.upsert relativePath f ix.pendingJobs := by
  unfold Statement.putJob at h
  split at h
  · rename_i hp
    cases h
    exact ⟨hp, rfl, rfl⟩
  · cases h

theorem cacheIndex_eq {ix ix' : CacheIndex} (hfiles : ix.files = ix'.files)
    (hjobs : ix.pendingJobs = ix'.pendingJobs) : ix = ix' := by
  cases ix
  cases ix'
  simp only at hfiles hjobs
  subst hfiles hjobs
  rfl

/-- **An access** is its one or two statements. -/
theorem applyAll_access {event : AccessEvent} {copyDelay : ℤ} {ix ix' : CacheIndex}
    (hpath : event.relativePath ≠ [])
    (h : Statement.applyAll ix (accessStatements event copyDelay) = .ok ix') :
    ix' = ix.recordAccess event copyDelay := by
  unfold accessStatements at h
  unfold CacheIndex.recordAccess CacheIndex.recordAccessWith
  rw [if_neg hpath]
  by_cases hcopy : shouldScheduleCopy event.kind = true
  · rw [if_pos hcopy] at h
    simp only [Statement.applyAll, Statement.apply] at h
    split at h
    · rename_i ix₁ hjob
      cases h
      obtain ⟨-, hfiles, hjobs⟩ := putJob_ok hjob
      exact cacheIndex_eq hfiles (hjobs.trans (if_pos hcopy).symm)
    · cases h
  · rw [if_neg hcopy] at h
    cases h
    exact cacheIndex_eq rfl (if_neg hcopy).symm

theorem applyAll_delete {ix ix' : CacheIndex}
    (h : Statement.applyAll ix [.deleteJob relativePath, .deleteFile relativePath] = .ok ix') :
    ix' = ix.deleteRecord relativePath := by
  simp only [Statement.applyAll, Statement.apply] at h
  split at h
  · rename_i ix₁ hfile
    split at hfile
    · cases hfile
    · cases hfile
      cases h
      exact cacheIndex_eq rfl rfl
  · cases h

theorem upsertJob_apply {ix ix' : CacheIndex} {dueUtc : ℤ} {reason : String}
    (hpath : relativePath ≠ [])
    (h : (Statement.upsertJob relativePath dueUtc reason).apply ix = .ok ix') :
    ix.upsertPendingJob relativePath dueUtc reason = .ok ix' := by
  obtain ⟨hp, hfiles, hjobs⟩ := putJob_ok h
  unfold CacheIndex.upsertPendingJob
  rw [if_neg hpath, dif_pos hp]
  exact congrArg Except.ok (cacheIndex_eq hfiles.symm hjobs.symm)

/-- **Every method that writes** is its call. -/
theorem implements_update {u : Update} (hu : (Call.update u).Fits t) :
    (fineSimulation sv offer).Implements t (.update u) (updateMethod t u) := by
  obtain ⟨hfits, hservice⟩ := hu
  cases u with
  | recordAccess event copyDelay =>
    refine implements_unlessEmpty (fun hp ix => ?_) fun hp => ?_
    · simp only [Update.apply, CacheIndex.recordAccess, CacheIndex.recordAccessWith, if_pos hp]
    · refine implements_withDb id (tracks_inTransaction hfits fun ix ix' h => ?_)
      exact congrArg Except.ok (applyAll_access hp h).symm
  | upsertPendingJob relativePath dueUtc reason =>
    refine implements_unlessEmpty (fun hp ix => ?_) fun hp => ?_
    · simp only [Update.apply, CacheIndex.upsertPendingJob, if_pos hp]
    · exact implements_withDb id (tracks_alone hfits fun _ _ h => upsertJob_apply hp h)
  | removePendingJob relativePath =>
    exact implements_withDb id (tracks_alone hfits fun _ _ h => h)
  | deleteRecord relativePath =>
    refine implements_withDb id (tracks_inTransaction hfits fun ix ix' h => ?_)
    exact congrArg Except.ok (applyAll_delete h).symm
  | markCached relativePath sourceSizeBytes cachedSizeBytes hashHex cachedAtUtc =>
    exact implements_withDb id (tracks_alone hfits fun _ _ h => h)
  | recordError relativePath errorMessage =>
    have ht : t.process = .service := hservice.resolve_right fun h => h _ _ rfl
    exact implements_withDb id fun k x hx => tracks_recordError ht x hx
  | markRemoved relativePath =>
    exact implements_withDb id (tracks_inTransaction hfits fun _ _ h => h)

/-- The tables a thread outside a transaction reads are the committed ones. -/
theorem tables_locked (hy : Locked t y) : y.tables t.process = y.committed := by
  unfold FineWorld.tables
  cases htransaction : y.transaction with
  | none => rfl
  | some o =>
    have hne : o.1 ≠ t.process := fun he => hy.outside ⟨o.2, by rw [htransaction, ← he]⟩
    exact if_neg hne

/-- **Every method that reads** is its call. -/
theorem implements_query {q : Query} (hq : (Call.query q).Fits t) :
    (fineSimulation sv offer).Implements t (.query q) (queryMethod t q) := by
  refine implements_withDb id fun k x hx => ?_
  have hrows : ∀ y : FineWorld V, Locked t y → (fineSimulation sv offer).Tracks t
      (Ended t (.query q) k) (sql t.process (.stepRows q)) (still (.call (S := calls) (.query q) k))
      y := by
    intro y hy
    refine tracks_perform stable_locked (fun r f y z hr hend => ⟨stable_locked hr hend.1, hend.2⟩)
      hy ?_
    intro y r z hy hsound hdoes _
    cases r with
    | error e =>
      obtain rfl := hdoes
      refine ⟨hsound, fun u _ => (fineSimulation sv offer).refl u z, _, fun g => ⟨g, ?_⟩, hy,
        .inr ⟨e, rfl, rfl⟩⟩
      exact moves_stay changesDebt_none rfl fun _ _ _ h => h
    | ok rows =>
      obtain ⟨hanswers, rfl⟩ := hdoes
      rw [tables_locked hy] at hanswers
      refine ⟨hsound, fun u _ => (fineSimulation sv offer).refl u z, still (k (.ok rows)),
        fun g => ⟨g, owes_nothing _ _, fun ds w hd h => ?_⟩, hy,
        .inl rfl⟩
      obtain ⟨d, hservice, hdebt, rfl⟩ := h.debt hy.mutex hd
      have hcoarse : q.Answers (z.committed.paid d) z.clock rows := by
        cases d with
        | none => exact hanswers
        | some relativePath =>
          rcases hq with ht | hcommutes
          · cases hservice ht
          · exact hcommutes _ _ _ _ hanswers
      refine .inr ⟨.query q, k, .ok rows, _, rfl, rfl, ⟨hcoarse, rfl⟩, ?_, rfl⟩
      rw [show (still (k (.ok rows)) g).2 = ds t from hd.symm, Function.update_eq_self]
      exact h
  have hbind : (fineSimulation sv offer).Tracks t
      (fun r f y => f = still (.call (S := calls) (.query q) k) ∧ Locked t y)
      (bindQuery t.process q) (still (.call (S := calls) (.query q) k)) x := by
    unfold bindQuery
    split
    · exact tracks_look stable_locked bindWide_same (fun _ _ => rfl) hx
    · exact fun y hy => ⟨rfl, stable_locked hy hx⟩
  refine tracks_bind (tracks_mono ?_ hbind)
  rintro r f y ⟨rfl, hy⟩
  cases r with
  | ok v => exact hrows y hy
  | error e => exact fun z hz => ⟨stable_locked hz hy, .inr ⟨e, rfl, rfl⟩⟩

/-- A call that is not about the index does the same whatever the index holds. -/
theorem exec_offIndex {a : Call} (ha : a.OffIndex) {r : Except String a.Answer} {w u : World V}
    (h : exec sv w a r u) (ix : CacheIndex) :
    exec sv { w with index := ix } a r { u with index := ix } ∧ u.index = w.index ∧
      u.clock = w.clock := by
  cases a with
  | update u => exact ha.elim
  | query q => exact ha.elim
  | copyAndHash p s c m =>
    obtain ⟨v, hv, rfl⟩ := h
    exact ⟨⟨v, hv, rfl⟩, rfl, rfl⟩
  | removeCachedFile p c =>
    obtain ⟨v, hv, rfl⟩ := h
    exact ⟨⟨v, hv, rfl⟩, rfl, rfl⟩
  | freeBytes root =>
    obtain ⟨hv, rfl⟩ := h
    exact ⟨⟨hv, rfl⟩, rfl, rfl⟩
  | memory m =>
    cases r with
    | error e => exact h.elim
    | ok v =>
      obtain ⟨henabled, hrun, hu⟩ := h
      refine ⟨⟨henabled, hrun, ?_⟩, ?_, ?_⟩
      · rw [hu]
      · rw [hu]
      · rw [hu]

theorem implements_other {a : Call} (ha : a.OffIndex) :
    (fineSimulation sv offer).Implements t a (Prog.perform (S := fineCalls) (.other a)) := by
  intro k x
  refine tracks_perform stable_true (fun _ _ _ _ _ h => h) trivial ?_
  rintro y r z - hsound ⟨-, u, hu, rfl⟩ -
  refine ⟨⟨hsound.held, hsound.own⟩, fun u _ hx => ⟨hx, fun _ => Iff.rfl, fun _ => rfl⟩,
    still (k r), fun g => ⟨g, owes_nothing _ _,
      fun ds w hd h => ?_⟩, rfl⟩
  have hw : w.index = y.committed.paid ((y.mutex .service).bind ds) := by rw [h.world]
  obtain ⟨hexec, -, hclock⟩ := exec_offIndex ha hu w.index
  have hstart : ({ y.world with index := w.index } : World V) = w := by rw [hw, ← h.world]
  rw [hstart] at hexec
  refine .inr ⟨a, k, r, _, rfl, rfl, hexec, ?_, (seenCall_other ha r).symm⟩
  rw [show (still (k r) g).2 = ds t from hd.symm, Function.update_eq_self]
  refine ⟨h.only, ?_⟩
  have hfinal : ({ u with index := w.index } : World V) =
      ⟨w.index, u.volume, u.memory, y.clock⟩ := by
    rw [show y.clock = u.clock from hclock.symm]
  rw [hfinal, hw]
  rfl

/-- **Every call** is what its program does. -/
theorem implements_call {a : Call} (ha : a.Fits t) :
    (fineSimulation sv offer).Implements t a (implement t a) := by
  cases a with
  | update u => exact implements_update ha
  | query q => exact implements_query ha
  | copyAndHash | removeCachedFile | freeBytes | memory => exact implements_other trivial

/-! ## Who calls what -/

theorem fits_service (ht : t.process = .service) (a : Call) : a.Fits t := by
  cases a with
  | update u => exact ⟨.inl ht, .inl ht⟩
  | query q => exact .inl ht
  | copyAndHash | removeCachedFile | freeBytes | memory => trivial

/-- Counting a retry and dropping the job can change places. -/
theorem markRemoved_commutes (p : WString) : (Update.markRemoved p).Commutes := by
  intro ix ix' q h
  cases h
  exact congrArg Except.ok (cacheIndex_eq rfl (Sql.erase_update _ _ _ _))

theorem fits_byFree {a : Call} (ha : a.ByFree) : a.Fits t := by
  cases a with
  | update u =>
    cases u with
    | markRemoved p => exact ⟨.inr (markRemoved_commutes p), .inr fun _ _ => nofun⟩
    | recordAccess | upsertPendingJob | removePendingJob | deleteRecord | markCached
    | recordError => exact ha.elim
  | query q =>
    cases q with
    | cachedFilesByLastAccess => exact .inr fun _ _ _ _ h => h
    | pendingJob | fileRecord | loadPendingJobs | loadRecordPaths | dueJobs => exact ha.elim
  | copyAndHash | removeCachedFile | freeBytes | memory => trivial

/-- What an operation calls can change places with what the other process may owe. -/
theorem body_fits (o : Operation) : (o.body sv).Only (Call.Fits o.party) := by
  cases o with
  | free targetBytes exclude =>
    have honly : (Operation.body sv (.free targetBytes exclude)).Only Call.ByFree :=
      Prog.Only.bind (evict_only _ targetBytes exclude) fun _ => trivial
    exact honly.mono fun ha => fits_byFree ha
  | recordEvent | runDueOnce | workerIteration | start | stop | requestStop | joinWorker
  | setPaused | cleanup => exact Prog.only_of_forall (fits_service rfl) _

/-! ## The theorem -/

/-- The statements with nobody in a call, and no transaction open. -/
def FineWorld.start (opened : Process → Bool) (w : World V) : FineWorld V where
  committed := w.index
  opened := opened
  volume := w.volume
  memory := w.memory
  clock := w.clock

theorem start_sound (opened : Process → Bool) (w : World V) :
    (FineWorld.start opened w).Sound where
  held _ hin := (not_inTransaction rfl hin).elim
  own _ _ hs := by cases hs

/-- What is offered depends on the memory alone. -/
theorem offered_of_related {c' : Config fineCalls String (FineWorld V) Party} {c : State V}
    {o : Operation} {ds : Party → Option WString}
    (hmenu : (fineSystem sv offer).menu t c' o) (hrel : Related c'.world ds c.world) :
    (system sv (offered offer)).menu t c o := by
  have hmemory : c.world.memory = c'.world.memory := by rw [hrel.world]; rfl
  simp only [system, offered, hmemory, Bool.and_eq_true, decide_eq_true_eq]
  exact hmenu

theorem tick_related (hsound : x.Sound) (henv : (fineSystem sv offer).env x y) :
    y.Sound ∧ (∀ t, KeepsLock t x y) ∧
      ∀ ds w, Related x ds w → ∃ w', (system sv (offered offer)).env w w' ∧ Related y ds w' := by
  obtain ⟨clock, hclock, rfl⟩ := henv
  refine ⟨⟨hsound.held, hsound.own⟩, fun t hx => ⟨hx, fun _ => Iff.rfl, fun _ => rfl⟩, ?_⟩
  intro ds w hrel
  have hwclock : w.clock = x.clock := by rw [hrel.world]; rfl
  refine ⟨{ w with clock }, ⟨clock, hwclock ▸ hclock, rfl⟩, hrel.only, ?_⟩
  rw [hrel.world]
  rfl

/-- The thread and the path of a first statement of `record_error`. -/
def setsError : Label fineCalls String Party Operation → Option (Party × WString)
  | .act t (.sql _ (.stepDone (.setError relativePath _))) (.ok _) => some (t, relativePath)
  | _ => none

/-- The thread that stepped a second statement of `record_error`, or left a method. -/
def endsError : Label fineCalls String Party Operation → Option Party
  | .act t (.sql _ (.stepDone (.countRetry _))) _ | .act t (.sql _ .unlock) _ => some t
  | _ => none

/-- Thread `t` is in `record_error(relativePath)`, between its two statements. -/
def InRecordError (t : Party) (relativePath : WString)
    (h : Hist fineCalls String (FineWorld V) Party Operation) : Prop :=
  Since (fun _ _ l => setsError l = some (t, relativePath)) (fun _ _ l => endsError l = some t) h

theorem owes_none_of_ends {u : Party} {b : fineCalls.Act} {r : Except String (fineCalls.Resp b)}
    (hend : endsError (.act u b r) = some t) :
    t = u ∧ ∀ d d', changesDebt b r d d' → d' = none := by
  unfold endsError at hend
  split at hend
  · rename_i heq
    cases heq
    exact ⟨(Option.some.inj hend).symm, fun _ _ => id⟩
  · rename_i heq
    cases heq
    exact ⟨(Option.some.inj hend).symm, fun _ _ => id⟩
  · cases hend

/-- **Only a thread between the two statements owes a retry count.** -/
theorem inRecordError_of_debts {relativePath : WString} :
    ∀ {h : Hist fineCalls String (FineWorld V) Party Operation} {ds : Party → Option WString},
      (fineSimulation sv offer).Debts h ds → ds t = some relativePath →
        InRecordError t relativePath h
  | [], ds, hds, ht => by
    rw [show ds = fun _ => none from hds] at ht
    cases ht
  | (w, .call u o) :: h, ds, hds, ht => .inr ⟨nofun, inRecordError_of_debts (h := h) hds ht⟩
  | (w, .env) :: h, ds, hds, ht => .inr ⟨nofun, inRecordError_of_debts (h := h) hds ht⟩
  | (w, .act u b r) :: h, ds, ⟨ds₀, d, hds₀, howes, hds⟩, ht => by
    have hbefore : ds₀ t = some relativePath → InRecordError t relativePath h :=
      inRecordError_of_debts hds₀
    rw [hds] at ht
    by_cases htu : t = u
    · subst htu
      rw [Function.update_self] at ht
      subst ht
      have howes : changesDebt b r (ds₀ t) (some relativePath) := howes
      have hnot : endsError (.act t b r) ≠ some t := fun hend => by
        cases (owes_none_of_ends hend).2 _ _ howes
      unfold changesDebt at howes
      split at howes
      · rcases howes with hsame | hsets
        · exact .inr ⟨hnot, hbefore hsame.symm⟩
        · cases hsets
          exact .inl rfl
      · cases howes
      · cases howes
      · -- any other call leaves what is owed
        exact .inr ⟨hnot, hbefore howes.symm⟩
    · rw [Function.update_of_ne htu] at ht
      exact .inr ⟨fun hend => htu (owes_none_of_ends hend).1, hbefore ht⟩

/-- **Every method of the index is one atomic call.** A run of the statements of both
processes, in which no `ROLLBACK` leaves a transaction open, has a run of the system with the
same operations started and the same calls of the engine and the memory, in the same order and
with the same answers. It ends with the committed rows, but for one retry count that a thread between the
two statements of `record_error` still has to write, and has no thread in a call that is in none
here. -/
theorem methods_atomic (sv : Service V) (offer : Offer) {opened : Process → Bool} {w : World V}
    {h' : Hist fineCalls String (FineWorld V) Party Operation}
    {c' : Config fineCalls String (FineWorld V) Party}
    (hrun : Run (fineSystem sv offer) (.idle (.start opened w)) h' c')
    (hm : Meets (fun _ w l => RollsBack w l) h') :
    ∃ (h : History V) (c : State V) (d : Option WString),
      Run (system sv (offered offer)) (.idle w) h c ∧ shown seenFine h' = shown seenCall h ∧
        c.world = { c'.world.world with index := c'.world.committed.paid d } ∧
        (∀ t, (c'.prog t).Done → (c.prog t).Done) ∧ ((∀ t, (c'.prog t).Done) → d = none) ∧
        ∀ relativePath, d = some relativePath → ∃ t, c'.world.mutex .service = some t ∧
          ¬ (c'.prog t).Done ∧ InRecordError t relativePath h' := by
  have hstart : Related (FineWorld.start opened w) (fun _ => none) w := ⟨fun _ _ => rfl, rfl⟩
  have hbody : ∀ {t : Party} {c' : Config fineCalls String (FineWorld V) Party} {o : Operation},
      (fineSystem sv offer).menu t c' o → ∀ x, (fineSimulation sv offer).Tracks t
        ((fineSimulation sv offer).Answered Prog.ofResult) ((fineSystem sv offer).body o)
        (still (o.body sv)) x := by
    intro t c' o hmenu x
    obtain ⟨rfl, -⟩ := hmenu
    exact tracks_expand (fun _ ha => implements_call ha) (body_fits o)
  obtain ⟨h, c, ds, hcoarse, hrel, hshown, hdebts, hidle⟩ := (fineSimulation sv offer).run
    (start_sound opened w) hstart offered_of_related hbody (fun henv hs => tick_related hs henv)
    hrun hm
  refine ⟨h, c, _, hcoarse, hshown, hrel.world, fun t ht => (hidle t ht).1, fun hall => ?_,
    fun relativePath hd => ?_⟩
  · cases hmutex : c'.world.mutex .service with
    | none => rfl
    | some t => exact (hidle t (hall t)).2
  · obtain ⟨t, hmutex, hd⟩ := Option.bind_eq_some_iff.1 hd
    refine ⟨t, hmutex, fun hdone => ?_, inRecordError_of_debts hdebts hd⟩
    have hnone : ds t = none := (hidle t hdone).2
    rw [hnone] at hd
    cases hd

/-! ## Playing statements -/

/-- One answer of each call, when it has one: nothing fails that need not. -/
def sqlAnswer (w : FineWorld Disk) (process : Process) :
    (a : SqlCall) → Option (Except String a.Answer × FineWorld Disk)
  | .isEmpty relativePath => some (.ok (decide (relativePath = [])), w)
  | .lock t => if w.mutex process = none then some (.ok (), w.setMutex process (some t)) else none
  | .unlock => some (.ok (), w.setMutex process none)
  | .requireDb => if w.opened process = true then some (.ok (), w) else none
  | .bindWide relativePath => if wellFormed relativePath = true then some (.ok (), w) else none
  | .begin =>
    match w.transaction with
    | none => some (.ok (), { w with transaction := some (process, w.committed) })
    | some _ => some (.error "database is locked", w)
  | .commit =>
    match w.transaction with
    | some (owner, ix) =>
      if owner = process then some (.ok (), { w with committed := ix, transaction := none })
      else none
    | none => none
  | .rollback => none
  | .stepDone statement =>
    match w.transaction with
    | some (owner, ix) =>
      if owner = process then
        match statement.apply ix with
        | .ok ix' => some (.ok (), { w with transaction := some (process, ix') })
        | .error e => some (.error e, w)
      else some (.error "database is locked", w)
    | none =>
      match statement.apply w.committed with
      | .ok ix' => some (.ok (), { w with committed := ix' })
      | .error e => some (.error e, w)
  | .stepRows q => some (.ok (q.run (w.tables process) w.clock), w)

theorem does_sqlAnswer {w w' : FineWorld Disk} {p : Process} {a : SqlCall} {r : Except String a.Answer}
    (h : sqlAnswer w p a = some (r, w')) : a.Does w p r w' := by
  cases a with
  | isEmpty relativePath => cases h; exact ⟨rfl, rfl⟩
  | lock t =>
    simp only [sqlAnswer] at h
    split at h
    · rename_i hfree; cases h; exact ⟨hfree, rfl⟩
    · cases h
  | unlock => cases h; rfl
  | requireDb =>
    simp only [sqlAnswer] at h
    split at h
    · rename_i hopened; cases h; exact ⟨hopened, rfl⟩
    · cases h
  | bindWide relativePath =>
    simp only [sqlAnswer] at h
    split at h
    · rename_i hwell; cases h; exact ⟨hwell, rfl⟩
    · cases h
  | begin =>
    simp only [sqlAnswer] at h
    split at h
    · rename_i hnone; cases h; exact ⟨hnone, rfl⟩
    · cases h; rfl
  | commit =>
    simp only [sqlAnswer] at h
    split at h
    · rename_i owner ix hown
      split at h
      · rename_i howner; subst howner; cases h; exact ⟨ix, hown, rfl⟩
      · cases h
    · cases h
  | rollback => cases h
  | stepDone statement =>
    simp only [sqlAnswer] at h
    split at h
    · rename_i owner ix hown
      split at h
      · rename_i howner
        subst howner
        split at h
        · rename_i ix' happly; cases h; exact .inl ⟨ix, ix', hown, happly, rfl⟩
        · cases h; exact .inl rfl
      · cases h; exact .inl rfl
    · rename_i hnone
      split at h
      · rename_i ix' happly; cases h; exact .inr ⟨ix', hnone, happly, rfl⟩
      · cases h; exact .inl rfl
  | stepRows q => cases h; exact ⟨q.answers_run _ _, rfl⟩

/-- A call that is not about the index, beside the statements. -/
def FineWorld.beside (w : FineWorld Disk) {α : Type} (x : Except String α × World Disk) :
    Except String α × FineWorld Disk :=
  (x.1, { w with volume := x.2.volume, memory := x.2.memory })

def fineAnswer (w : FineWorld Disk) :
    (a : FineCall) → Option (Except String a.Answer × FineWorld Disk)
  | .sql process a => sqlAnswer w process a
  | .other a => if a.OffIndex then (answer w.world a).map w.beside else none

theorem exec_fineAnswer {sv : Service Disk} (hsv : sv.platform = Disk.platform) {w w' : FineWorld Disk}
    {a : FineCall} {r : Except String a.Answer} (h : fineAnswer w a = some (r, w')) :
    fineExec sv w a r w' := by
  cases a with
  | sql process a => exact does_sqlAnswer h
  | other a =>
    simp only [fineAnswer] at h
    split at h
    · rename_i hoff
      obtain ⟨⟨r', u⟩, hx, h⟩ := Option.map_eq_some_iff.1 h
      cases h
      exact ⟨hoff, u, exec_answer hsv hx, rfl⟩
    · cases h

/-- Plays schedules of statements on a disk. -/
def finePlayer (sv : Service Disk) (hsv : sv.platform = Disk.platform) (offer : Offer) :
    Player (fineSystem sv offer) ℤ where
  act := fineAnswer
  env clock w := { w with clock }
  menu t c o := decide (t = o.party) && offer t c.world.memory o
  envOk clock w := w.clock ≤ clock
  act_ok := exec_fineAnswer hsv
  menu_ok h := by
    simp only [Bool.and_eq_true, decide_eq_true_eq] at h
    exact h
  env_ok {clock _} h := ⟨clock, of_decide_eq_true h, rfl⟩

/-- A cached file whose job is due, and whose next copy fails. -/
def failingWorld : World Disk where
  index := (({} : CacheIndex).recordAccess { relativePath := [97], observedAt := 0 } 60).markCached
    [97] 1 1 "" 0
  volume := { files := [[97]], script := [.failed] }
  clock := 600000000

/-- No `ROLLBACK` in this step. -/
def noRollback : Label fineCalls String Party Operation → Bool
  | .act _ (.sql _ .rollback) _ => false
  | _ => true

theorem rollsBack_of_noRollback {w : FineWorld V} {l : Label fineCalls String Party Operation}
    (h : noRollback l = true) : RollsBack w l := by
  cases l with
  | call t o => trivial
  | env => trivial
  | act t a r =>
    cases a with
    | other a => trivial
    | sql p a =>
      cases a with
      | rollback => cases h
      | isEmpty | lock | unlock | requireDb | bindWide | begin | commit | stepDone | stepRows =>
        trivial

/-- The `--free` process removes the file between the two statements of `record_error`. -/
def betweenStatements : List (Move Party Operation ℤ) :=
  [.call .worker (.runDueOnce 600000000)] ++ steps .worker 9 ++
    [.call .freeProcess (.free 1 [])] ++ steps .freeProcess 14 ++ steps .worker 11

/-- A schedule of statements on a disk that plays to a state with property `p`. -/
theorem exists_fineRun (w : World Disk) (ms : List (Move Party Operation ℤ))
    (p : Hist fineCalls String (FineWorld Disk) Party Operation ×
      Config fineCalls String (FineWorld Disk) Party → Prop) [DecidablePred p]
    (hp : ((finePlayer (diskService {}) rfl fun _ _ _ => true).play ms
      ([], .idle (.start (fun _ => true) w))).any (fun x => decide (p x)) = true) :
    ∃ h' c', Run (fineSystem (diskService {}) fun _ _ _ => true)
      (.idle (.start (fun _ => true) w)) h' c' ∧ p (h', c') :=
  (finePlayer (diskService {}) rfl fun _ _ _ => true).exists_run ms p hp

theorem methods_atomic_between :
    ∃ (h : History Disk) (c : State Disk),
      Run (system (diskService {}) (offered fun _ _ _ => true)) (.idle failingWorld) h c ∧
        (c.world.index.files.lookup [97]).map FileRow.lastError = some none ∧
        (c.world.index.pendingJobs.lookup [97]).map JobRow.retries = some 0 := by
  obtain ⟨h', c', hrun, hidle, hm, hfile, hjob⟩ := exists_fineRun failingWorld betweenStatements
    (fun x => (∀ t ∈ [Party.worker, .events, .control, .freeProcess], (x.2.prog t).Done) ∧
      Meets (fun _ _ l => noRollback l = true) x.1 ∧
      (x.2.world.committed.files.lookup [97]).map FileRow.lastError = some none ∧
      (x.2.world.committed.pendingJobs.lookup [97]).map JobRow.retries = some 0)
    (by decide +kernel)
  have hall : ∀ t, (c'.prog t).Done := by
    intro t
    cases t with
    | worker | events | control | freeProcess => exact hidle _ (by simp)
  obtain ⟨h, c, d, hcoarse, -, hworld, -, hpaid, -⟩ := methods_atomic (diskService {}) _ hrun
    (hm.mono rollsBack_of_noRollback)
  have hindex : c.world.index = c'.world.committed := by
    rw [hworld, hpaid hall]
    rfl
  exact ⟨h, c, hcoarse, hindex ▸ hfile, hindex ▸ hjob⟩

end SsdCache
