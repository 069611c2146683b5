import SsdCache.Proof.Batch
import SsdCache.Proof.Files
import SsdCache.Proof.Queries
import SsdCache.Proof.Threads

/-!
# File operations and the records they belong to

A party puts a cache file there or away in one call and writes its record in a later
one. `unrecorded` remembers what it did and did not write yet.

* `unrecorded_frame`: a call about another path leaves it.
* `pairBatch`, `pairWorker`: the worker publishes before it writes `mark_cached`, and
  when no call throws it leaves nothing unrecorded between two batches.

The outlines hold among any other parties that leave what the worker has not recorded.
-/

namespace SsdCache

open Atomic

variable {V : Type} {sv : Service V} {w w' : World V} {h : History V} {c : State V}
variable {a : Call} {p v : WString} {l : Event} {t : Party} {strict : Prop}

/-- Who made the call of a step. -/
def actor : Event → Option Party
  | .act t _ _ => some t
  | _ => none

/-- The cache file of `p` that `t` put there (`true`) or away (`false`) and whose record
it did not write yet. -/
def unrecorded (t : Party) (p : WString) : History V → Option Bool
  | [] => none
  | (_, l) :: h =>
    if actor l = some t then
      if Caches p l then some true
      else if Removes p l then some false
      else if claimed l = some p then none
      else unrecorded t p h
    else unrecorded t p h

/-- A step of another party leaves it. -/
theorem unrecorded_other (hl : actor l ≠ some t) :
    unrecorded t p ((w, l) :: h) = unrecorded t p h := if_neg hl

theorem unrecorded_act_ne {r : Except String a.Answer} {u : Party} (ht : t ≠ u) :
    unrecorded u p ((w, .act t a r) :: h) = unrecorded u p h :=
  unrecorded_other fun heq => ht (Option.some.inj heq)

/-- So does a call about another path, or about no file. -/
theorem unrecorded_frame (hc : ¬ Caches p l) (hr : ¬ Removes p l) (hcl : claimed l ≠ some p) :
    unrecorded t p ((w, l) :: h) = unrecorded t p h := by
  rw [unrecorded, if_neg hc, if_neg hr, if_neg hcl, ite_self]

theorem unrecorded_of_caches (hl : actor l = some t) (hc : Caches p l) :
    unrecorded t p ((w, l) :: h) = some true := by
  rw [unrecorded, if_pos hl, if_pos hc]

theorem unrecorded_of_removes (hl : actor l = some t) (hc : ¬ Caches p l) (hr : Removes p l) :
    unrecorded t p ((w, l) :: h) = some false := by
  rw [unrecorded, if_pos hl, if_neg hc, if_pos hr]

theorem unrecorded_of_claimed (hl : actor l = some t) (hc : ¬ Caches p l) (hr : ¬ Removes p l)
    (hcl : claimed l = some p) : unrecorded t p ((w, l) :: h) = none := by
  rw [unrecorded, if_pos hl, if_neg hc, if_neg hr, if_pos hcl]

/-! ## The paths a call is about -/

theorem caches_path {r : Except String a.Answer} (hc : Caches p (.act t a r)) :
    ∃ s c m, a = .copyAndHash p s c m := by
  cases a with
  | copyAndHash q s c m =>
    cases r with
    | error e => exact absurd hc not_caches_error
    | ok r => exact ⟨s, c, m, by rw [(caches_act.1 hc).1]⟩
  | _ => exact hc.elim

theorem removes_path {r : Except String a.Answer} (hr : Removes p (.act t a r)) :
    ∃ c, a = .removeCachedFile p c := by
  cases a with
  | removeCachedFile q c =>
    cases r with
    | error e => exact absurd hr not_removes_error
    | ok r => exact ⟨c, by rw [(removes_act.1 hr).1]⟩
  | _ => exact hr.elim

theorem claimed_update {r : Except String a.Answer} (hcl : claimed (.act t a r) = some p) :
    (∃ s c hash time, a = .update (.markCached p s c hash time)) ∨ a = .update (.markRemoved p) := by
  unfold claimed claim committed Call.written at hcl
  cases a with
  | update u =>
    cases r with
    | error e => cases hcl
    | ok _ =>
      cases u with
      | markCached q s c hash time =>
        cases hcl
        exact .inl ⟨s, c, hash, time, rfl⟩
      | markRemoved q =>
        cases hcl
        exact .inr rfl
      | _ => cases hcl
  | _ => cases hcl

/-- The path of the cache file or record that a call is about. -/
def Call.about : Call → Option WString
  | .copyAndHash p _ _ _ | .removeCachedFile p _ => some p
  | .update (.markCached p _ _ _ _) | .update (.markRemoved p) => some p
  | _ => none

/-- **A call about another path leaves what is unrecorded.** -/
theorem unrecorded_about {r : Except String a.Answer} {u : Party} (ha : a.about ≠ some p) :
    unrecorded u p ((w, .act t a r) :: h) = unrecorded u p h := by
  refine unrecorded_frame (fun hc => ?_) (fun hr => ?_) fun hcl => ?_
  · obtain ⟨s, c, m, rfl⟩ := caches_path hc
    exact ha rfl
  · obtain ⟨c, rfl⟩ := removes_path hr
    exact ha rfl
  · rcases claimed_update hcl with ⟨s, c, hash, time, rfl⟩ | rfl
    · exact ha rfl
    · exact ha rfl

/-- Only a call of the engine leaves something unrecorded. -/
theorem unrecorded_of_engine {r : Except String a.Answer} {u : Party}
    (hp : unrecorded u p ((w, .act t a r) :: h) ≠ none) (hbefore : unrecorded u p h = none) :
    t = u ∧ a.Engine := by
  have ht : t = u := by
    by_contra ht
    exact hp ((unrecorded_act_ne ht).trans hbefore)
  refine ⟨ht, ?_⟩
  by_contra hengine
  have hc : ¬ Caches p (.act t a r) := fun hc => by
    obtain ⟨s, c, m, rfl⟩ := caches_path hc
    exact hengine trivial
  have hr : ¬ Removes p (.act t a r) := fun hr => by
    obtain ⟨c, rfl⟩ := removes_path hr
    exact hengine trivial
  by_cases hcl : claimed (.act t a r) = some p
  · exact hp (unrecorded_of_claimed (congrArg some ht) hc hr hcl)
  · exact hp ((unrecorded_frame hc hr hcl).trans hbefore)

/-! ## Inside and outside a batch -/

/-- The worker starts an operation. -/
def WorkerCalls : Event → Prop
  | .call .worker _ => True
  | _ => False

theorem not_workerCalls {t : Party} {o : Operation} (ht : t ≠ .worker) :
    ¬ WorkerCalls (.call t o) := by
  cases t
  · exact absurd rfl ht
  all_goals exact id

/-- The worker has begun a batch in the operation it is in. -/
def InBatch (h : History V) : Prop :=
  Since (fun _ _ l => (batchStart l).isSome = true) (fun _ _ => WorkerCalls) h

/-- The worker is outside `run_due_once`. -/
def OutsideBatch (h : History V) (c : State V) : Prop := (c.prog .worker).Done ∨ ¬ InBatch h

theorem inBatch_cons (hl : ¬ WorkerCalls l) (hi : InBatch h) : InBatch ((w, l) :: h) :=
  since_cons.2 (.inr ⟨hl, hi⟩)

/-! ## The worker -/

/-- What the other parties leave to the worker. -/
structure Own (x y : History V × World V) : Prop where
  same : ∀ p, unrecorded .worker p y.1 = unrecorded .worker p x.1
  batch : InBatch x.1 → InBatch y.1
  known : ∀ p, x.2.index.status p ≠ none → y.2.index.status p ≠ none

theorem Own.refl (x : History V × World V) : Own x x := ⟨fun _ => rfl, id, fun _ => id⟩

theorem Own.trans {x y z : History V × World V} (h : Own x y) (h' : Own y z) : Own x z :=
  ⟨fun p => (h'.same p).trans (h.same p), h'.batch ∘ h.batch, fun p hp => h'.known p (h.known p hp)⟩

/-- A step that is not the worker's leaves what it has not recorded. -/
theorem own_step {w' : World V} (hl : actor l ≠ some .worker) (hc : ¬ WorkerCalls l)
    (hknown : ∀ p, w.index.status p ≠ none → w'.index.status p ≠ none) :
    Own (h, w) ((w, l) :: h, w') :=
  ⟨fun _ => unrecorded_other hl, inBatch_cons hc, hknown⟩

theorem own_call {o : Operation} (ht : t ≠ .worker) : Own (h, w) ((w, .call t o) :: h, w) :=
  own_step nofun (not_workerCalls ht) fun _ => id

theorem own_env {w' : World V} (he : tick w w') : Own (h, w) ((w, .env) :: h, w') := by
  obtain ⟨clock, -, rfl⟩ := he
  exact own_step nofun id fun _ => id

/-- What the worker keeps: it moves files inside a batch only, and publishes a file before
it writes `mark_cached`. -/
structure Call.ByWorker (sv : Service V) (x : History V × World V) (a : Call) : Prop where
  sound : a.Sound sv x.2
  batch : a.Engine → InBatch x.1
  published : ∀ {p s c hash time}, a = .update (.markCached p s c hash time) →
    unrecorded .worker p x.1 = some true

theorem Call.ByPass.byWorker (ha : a.ByPass) {x : History V × World V} : Call.ByWorker sv x a := by
  cases a with
  | update u =>
    cases u with
    | recordError p m => exact ⟨trivial, nofun, nofun⟩
    | _ => exact ha.elim
  | copyAndHash p s c m => exact ha.elim
  | removeCachedFile p c => exact ha.elim
  | _ => exact ⟨trivial, nofun, nofun⟩

theorem Call.ByPass.about (ha : a.ByPass) : a.about = none := by
  cases a with
  | update u =>
    cases u with
    | recordError p m => rfl
    | _ => exact ha.elim
  | copyAndHash p s c m => exact ha.elim
  | removeCachedFile p c => exact ha.elim
  | _ => rfl

/-- A contract of the worker among parties that leave what it has not recorded; no call
throws if `strict`. -/
structure Pairing (sv : Service V) (strict : Prop) (K : Contract calls String (History V × World V)) :
    Prop where
  rely : ∀ {x y}, K.rely x y → Own x y
  step : ∀ {x a r y}, K.step x a r y → exec sv x.2 a r y.2 ∧
    (strict → ¬ Throws (.act .worker a r)) ∧ y.1 = (x.2, .act .worker a r) :: x.1
  keep : ∀ {x a r y}, Call.ByWorker sv x a → K.keep x a r y

/-- If no call throws, `t` left nothing but the file of `k` unrecorded. -/
def Clear (t : Party) (strict : Prop) (k : Option WString) (x : History V × World V) : Prop :=
  strict → ∀ p, k ≠ some p → unrecorded t p x.1 = none

/-- How a call moves what is clear. -/
theorem clear_step {k k' : Option WString} {r : Except String a.Answer}
    (hI : Clear t strict k (h, w)) (hother : ∀ p, k' ≠ some p → a.about ≠ some p → k ≠ some p)
    (habout : ∀ p, k' ≠ some p → a.about = some p → (k ≠ some p → unrecorded t p h = none) →
      unrecorded t p ((w, .act t a r) :: h) = none) :
    Clear t strict k' ((w, .act t a r) :: h, w') := by
  intro hstrict p hp
  by_cases ha : a.about = some p
  · exact habout p hp ha (hI hstrict p)
  · exact (unrecorded_about ha).trans (hI hstrict p (hother p hp ha))

theorem clear_recordless {k : Option WString} {r : Except String a.Answer} (ha : a.about = none)
    (hI : Clear t strict k (h, w)) : Clear t strict k ((w, .act t a r) :: h, w') :=
  clear_step hI (fun _ hp _ => hp) fun p _ hp => by rw [ha] at hp; cases hp

/-- A call about `v` leaves nothing else unrecorded. -/
theorem clear_of_about {r : Except String a.Answer} (ha : a.about = some v)
    (hI : Clear t strict none (h, w)) : Clear t strict (some v) ((w, .act t a r) :: h, w') :=
  clear_step hI (fun _ _ _ => nofun) fun _ hp hap => absurd (ha.symm.trans hap) hp

/-- A call that moves no file and writes no record leaves nothing. -/
theorem clear_of_still {r : Except String a.Answer} (hc : ∀ p, ¬ Caches p (.act t a r))
    (hr : ∀ p, ¬ Removes p (.act t a r)) (hcl : claimed (.act t a r) = none)
    (hI : Clear t strict none (h, w)) : Clear t strict none ((w, .act t a r) :: h, w') := by
  refine clear_step hI (fun _ _ _ => nofun) fun p _ _ hbefore => ?_
  rw [unrecorded_frame (hc p) (hr p) (by rw [hcl]; exact nofun)]
  exact hbefore nofun

/-- The record of the file of `v` is written. -/
theorem clear_of_claim {r : Except String a.Answer} (hI : Clear t strict (some v) (h, w))
    (ha : a.about = some v) (hc : ∀ p, ¬ Caches p (.act t a r)) (hr : ∀ p, ¬ Removes p (.act t a r))
    (hcl : claimed (.act t a r) = some v) : Clear t strict none ((w, .act t a r) :: h, w') := by
  refine clear_step hI (fun p _ hp heq => hp (ha.trans heq)) fun p _ hp _ => ?_
  rw [ha] at hp
  cases hp
  exact unrecorded_of_claimed rfl (hc v) (hr v) hcl

/-- Inside a batch with `js` to come, in the middle of the pair of `k`. -/
structure Mid (strict : Prop) (k : Option WString) (js : List PendingJob) (x : History V × World V) :
    Prop where
  batch : InBatch x.1
  clear : Clear .worker strict k x
  known : Known js x.2

theorem Mid.tail {k : Option WString} {j : PendingJob} {js : List PendingJob}
    {x : History V × World V} (hx : Mid strict k (j :: js) x) : Mid strict k js x :=
  ⟨hx.batch, hx.clear, fun i hi => hx.known i (List.mem_cons_of_mem j hi)⟩

section Outline

variable {K : Contract calls String (History V × World V)} (P : Pairing sv strict K)

include P

theorem stable_clear {k : Option WString} : K.Stable (Clear .worker strict k) := fun _ _ hr hx hs p hp =>
  ((P.rely hr).same p).trans (hx hs p hp)

theorem stable_mid {k : Option WString} {js : List PendingJob} : K.Stable (Mid strict k js) :=
  fun _ _ hr hx =>
    ⟨(P.rely hr).batch hx.batch, stable_clear P hr hx.clear, fun j hj => (P.rely hr).known _ (hx.known j hj)⟩

/-- A call inside a batch. -/
theorem mid_triple {k : Option WString} {js : List PendingJob} {I : History V × World V → Prop}
    {R : a.Answer → History V × World V → Prop} (hI : K.Stable I)
    (hmid : ∀ {x}, I x → Mid strict k js x) (ha : ∀ {x}, I x → Call.ByWorker sv x a)
    (hR : ∀ {h : History V} {w r w'}, I (h, w) →
      InBatch ((w, .act .worker a (.ok r)) :: h) → Known js w' →
      R r ((w, .act .worker a (.ok r)) :: h, w')) :
    K.Triple I a (onOk (α := a.Answer) R (Clear .worker strict none)) where
  stable := hI
  step {y r z} hy hs := by
    obtain ⟨h, w⟩ := y
    obtain ⟨h', w'⟩ := z
    obtain ⟨hx, hthrow, hz⟩ := P.step hs
    cases hz
    have hby := ha hy
    refine ⟨P.keep hby, ?_⟩
    cases r with
    | error e => exact fun hstrict => absurd trivial (hthrow hstrict)
    | ok r =>
      have hknown : Known js w' := known_step hx (fun q => hby.sound.keepsRows) (hmid hy).known
      exact hR hy (inBatch_cons id (hmid hy).batch) hknown

/-- A call of the batch that is about no file. -/
theorem mid_plain {k : Option WString} {js : List PendingJob}
    (ha : ∀ {x}, Mid strict k js x → Call.ByWorker sv x a) (hn : a.about = none) :
    K.Triple (Mid strict k js) a (onOk (α := a.Answer) (fun _ => Mid strict k js) (Clear .worker strict none)) :=
  mid_triple P (stable_mid P) id ha fun hI hin hknown => ⟨hin, clear_recordless hn hI.clear, hknown⟩

/-- A removal of the cache file of `v`. -/
theorem mid_remove {js : List PendingJob} :
    K.Triple (Mid strict none js) (.removeCachedFile v (sv.pathResolver.cacheAbsolute v))
      (onOk (fun (r : RemoveResult) x =>
        if r.Clean then Mid strict (some v) js x else Mid strict none js x) (Clear .worker strict none)) :=
  mid_triple P (stable_mid P) id (fun hx => ⟨rfl, fun _ => hx.batch, nofun⟩)
    fun {h w r w'} hI hin hknown => by
      by_cases hclean : RemoveResult.Clean r
      · rw [if_pos hclean]
        exact ⟨hin, clear_of_about rfl hI.clear, hknown⟩
      · have hstays : ∀ p, ¬ Removes p (.act .worker
            (.removeCachedFile v (sv.pathResolver.cacheAbsolute v)) (.ok r)) :=
          fun p hr => hclean (removes_act.1 hr).2
        rw [if_neg hclean]
        exact ⟨hin, clear_of_still (fun _ => id) hstays rfl hI.clear, hknown⟩

omit P in
/-- A copied file is in the middle of its pair. -/
theorem mid_of_cached {j : PendingJob} {js : List PendingJob} {s c : WString} {m : Bool}
    {r : CopyResult} (hI : Mid strict none (j :: js) (h, w)) (hc : r.action.Cached)
    (hin : InBatch ((w, .act .worker (.copyAndHash j.relativePath s c m) (.ok r)) :: h))
    (hknown : Known (j :: js) w') :
    Mid strict (some j.relativePath) (j :: js)
        ((w, .act .worker (.copyAndHash j.relativePath s c m) (.ok r)) :: h, w') ∧
      unrecorded .worker j.relativePath
        ((w, .act .worker (.copyAndHash j.relativePath s c m) (.ok r)) :: h) = some true :=
  ⟨⟨hin, clear_of_about rfl hI.clear, hknown⟩, unrecorded_of_caches rfl (caches_act.2 ⟨rfl, hc⟩)⟩

omit P in
/-- A file that was not copied is not. -/
theorem mid_of_kept {j : PendingJob} {js : List PendingJob} {s c : WString} {m : Bool}
    {r : CopyResult} (hI : Mid strict none (j :: js) (h, w)) (hc : ¬ r.action.Cached)
    (hin : InBatch ((w, .act .worker (.copyAndHash j.relativePath s c m) (.ok r)) :: h))
    (hknown : Known (j :: js) w') :
    Mid strict none (j :: js)
      ((w, .act .worker (.copyAndHash j.relativePath s c m) (.ok r)) :: h, w') := by
  have hstays : ∀ p, ¬ Caches p (.act .worker (.copyAndHash j.relativePath s c m) (.ok r)) :=
    fun p hcopy => hc (caches_act.1 hcopy).2
  exact ⟨hin, clear_of_still hstays (fun _ => id) rfl hI.clear, hknown⟩

/-- **The batch**: what the worker does to files and records. -/
def pairBatch (now : ℤ) : BatchOutline K sv now where
  start := Clear .worker strict none
  loop js := Mid strict none js
  removed v js := Mid strict (some v) js
  missing j js := Mid strict none (j :: js)
  failed _ js := Mid strict none js
  erred _ js := Mid strict none js
  retried _ js := Mid strict none js
  cached j js x := Mid strict (some j.relativePath) (j :: js) x ∧
    unrecorded .worker j.relativePath x.1 = some true
  marked _ js := Mid strict none js
  post := Clear .worker strict none
  thrown := Clear .worker strict none
  due :=
    { stable := stable_clear P
      step := fun {y r z} hy hs => by
        obtain ⟨h, w⟩ := y
        obtain ⟨h', w'⟩ := z
        obtain ⟨hx, hthrow, hz⟩ := P.step hs
        cases hz
        refine ⟨P.keep ⟨trivial, nofun, nofun⟩, ?_⟩
        cases r with
        | error e => exact fun hstrict => absurd trivial (hthrow hstrict)
        | ok jobs =>
          refine ⟨since_cons.2 (.inl rfl), clear_recordless rfl hy, fun j hj => ?_⟩
          obtain ⟨hjobs, hw⟩ := hx
          rw [hw]
          exact CacheIndex.IsDueJobs.status hjobs hj }
  record _ _ := mid_plain P (fun _ => ⟨trivial, nofun, nofun⟩) rfl
  victims _ := mid_plain P (fun _ => ⟨trivial, nofun, nofun⟩) rfl
  free _ := mid_plain P (fun _ => ⟨trivial, nofun, nofun⟩) rfl
  evict v j js _ := mid_remove P
  mark v js := mid_triple P (stable_mid P) id (fun _ => ⟨trivial, nofun, nofun⟩)
    fun hI hin hknown => ⟨hin, clear_of_claim hI.clear rfl (fun _ => id) (fun _ => id) rfl, hknown⟩
  copy j js := mid_triple P (stable_mid P) id (fun hx => ⟨rfl, fun _ => hx.batch, nofun⟩)
    fun {h w r w'} hI hin hknown => by
      have hcached (hc : CopyAction.Cached (CopyResult.action r)) := mid_of_cached hI hc hin hknown
      have hkept (hc : ¬ CopyAction.Cached (CopyResult.action r)) := mid_of_kept hI hc hin hknown
      cases hr : CopyResult.action r <;> simp only [hr] at hcached hkept ⊢
      case copied => exact hcached (.inl rfl)
      case skippedSameSize => exact hcached (.inr (.inl rfl))
      case skippedHashMatch => exact hcached (.inr (.inr rfl))
      case sourceMissing => exact hkept (by rintro (hc | hc | hc) <;> cases hc)
      case failed => exact (hkept (by rintro (hc | hc | hc) <;> cases hc)).tail
      case cancelled => exact (hkept (by rintro (hc | hc | hc) <;> cases hc)).clear
  remove j js := (mid_remove P).mono fun r z hz => by
    cases r with
    | error e => exact hz
    | ok r =>
      dsimp only [onOk] at hz ⊢
      split
      · rename_i hc
        rw [if_pos hc] at hz
        exact hz.tail
      · rename_i hc
        rw [if_neg hc] at hz
        exact hz.tail
  error _ _ _ := mid_plain P (fun _ => ⟨trivial, nofun, nofun⟩) rfl
  retry _ _ _ := mid_plain P (fun _ => ⟨trivial, nofun, nofun⟩) rfl
  push _ _ := mid_plain P (fun _ => ⟨trivial, nofun, nofun⟩) rfl
  cache j js _ _ _ _ := mid_triple P
    (fun _ _ hr hx => ⟨stable_mid P hr hx.1, ((P.rely hr).same _).trans hx.2⟩) And.left
    (fun hx => ⟨hx.1.known j List.mem_cons_self, nofun, fun heq => by cases heq; exact hx.2⟩)
    fun hI hin hknown => Mid.tail
      ⟨hin, clear_of_claim hI.1.clear rfl (fun _ => id) (fun _ => id) rfl, hknown⟩
  drop _ _ := mid_plain P (fun _ => ⟨trivial, nofun, nofun⟩) rfl
  done hx := hx.clear
  stable_loop _ := stable_mid P
  stable_post := stable_clear P
  stable_thrown := stable_clear P

/-- A call of the worker outside a batch. -/
theorem clear_triple {R : Except String a.Answer → History V × World V → Prop}
    (ha : ∀ {x}, Call.ByWorker sv x a) (hn : a.about = none)
    (hR : ∀ r z, Clear .worker strict none z → R r z) : K.Triple (Clear .worker strict none) a R where
  stable := stable_clear P
  step {y r z} hy hs := by
    obtain ⟨h, w⟩ := y
    obtain ⟨h', w'⟩ := z
    obtain ⟨hx, hthrow, hz⟩ := P.step hs
    cases hz
    exact ⟨P.keep ha, hR _ _ (clear_recordless hn hy)⟩

/-- **A pass of the worker loop.** -/
def pairWorker : WorkerOutline K sv :=
  .constant (Clear .worker strict none) (stable_clear P) (pairBatch P)
    (fun ha => clear_triple P ha.byWorker ha.about fun _ _ => id)
    (clear_triple P ⟨trivial, nofun, nofun⟩ rfl (onOk_of_forall fun _ => id)) id id

end Outline

end SsdCache
