import SsdCache.Atomic.Local
import SsdCache.Spec.Driver

/-!
# Written handles are reported closed

What each callback holds is a local state (`Holding`, `Closing`). A context that a writer
has allocated is its own until it attaches it (`Owned`), so the mark on the attached context
stays, and a cleanup that begins after a mark finds it.

* `reportedClosed`: if refused writers are reported only after the attached context is
  marked, a written handle is reported closed.
* `not_reportedClosed`: any other report of a refused writer can go on to an unreported
  close.
-/

namespace SsdCache

open Atomic

/-- What a write callback holds. -/
inductive Holding
  | nothing
  /-- Allocated, not attached yet. -/
  | fresh (context : ContextId)
  /-- The context to be marked, whether it is the attached one, and whether it is marked. -/
  | held (context : ContextId) (attached marked : Bool)

def Holding.context : Holding → Option ContextId
  | nothing => none
  | fresh context | held context _ _ => some context

/-- A callback between two writes. -/
def Holding.Settled : Holding → Prop
  | nothing => True
  | fresh _ => False
  | held _ _ marked => marked = true

def writing : Protocol driverCalls Empty Holding where
  rest := .nothing
  next
    | _, .getStreamHandleContext, .ok found => (found.map fun i => .held i true false).getD .nothing
    | q, .allocateContext, .ok context => (context.map .fresh).getD q
    | _, .setStreamHandleContext i, .ok success => .held i success false
    | .held i attached _, .storeWriteObserved _, _ => .held i attached true
    | q, _, _ => q
  allows
    | q, .zeroMemory i | q, .setStreamHandleContext i => q = .fresh i
    | q, .storeWriteObserved i => ∃ attached, q = .held i attached false
    | q, .sendMessage _ => ∃ i attached, q = .held i attached true
    | _, .enterCleanup | _, .deleteStreamHandleContext => False
    | _, _ => True
  answers
    | .allocateContext, .ok context => context ≠ none
    | _, _ => True

/-- Where the cleanup is. -/
inductive Closing
  | waiting
  | entered
  | found (context : ContextId)
  | missing
  | observed
  | unobserved
  | reported

/-- The cleanup has ended, or drops the context. -/
def Closing.Settled (q : Closing) : Prop := q = .missing ∨ q = .unobserved ∨ q = .reported

def closing : Protocol driverCalls Empty Closing where
  rest := .waiting
  next
    | _, .enterCleanup, _ => .entered
    | _, .getStreamHandleContext, .ok found => (found.map .found).getD .missing
    | _, .loadWriteObserved _, .ok writeObserved => cond writeObserved .observed .unobserved
    | _, .sendEvent _, _ => .reported
    | q, _, _ => q
  allows
    | q, .enterCleanup => q = .waiting
    | q, .getStreamHandleContext => q = .entered
    | q, .loadWriteObserved i => q = .found i
    | q, .sendEvent kind => q = .observed ∧ kind = .writeClosed
    | q, .shouldIgnore | q, .getFileNameInformation | q, .sendMessage _
    | q, .releaseFileNameInformation => q = .reported
    | q, .deleteStreamHandleContext | q, .releaseContext _ => q = .unobserved ∨ q = .reported
    | _, _ => False
  answers _ _ := True

/-! ## The callbacks keep to their local states -/

theorem safe_sendEvent {i : ContextId} {attached : Bool} :
    (cachemonSendEvent .writeObserved).Safe writing.contract (fun _ => Holding.Settled)
      (.held i attached true) := by
  refine Protocol.safe_then trivial (fun e => e.elim) fun _ _ => ?_
  refine Protocol.safe_then trivial (fun e => e.elim) fun ignored _ => ?_
  cases (ignored : Bool) with
  | true => exact Protocol.safe_end rfl
  | false =>
    refine Protocol.safe_then trivial (fun e => e.elim) fun resolved _ => ?_
    cases (resolved : Bool) with
    | false => exact Protocol.safe_end rfl
    | true =>
      refine Protocol.safe_then ⟨i, attached, rfl⟩ (fun e => e.elim) fun sent _ => ?_
      exact Protocol.safe_last trivial fun _ _ => rfl

theorem safe_markWritten {i : ContextId} {attached : Bool} :
    (markWritten (some i)).Safe writing.contract (fun _ => Holding.Settled)
      (.held i attached false) := by
  refine Protocol.safe_then ⟨attached, rfl⟩ (fun e => e.elim) fun _ _ => ?_
  exact Protocol.safe_then trivial (fun e => e.elim) fun _ _ => safe_sendEvent

/-- A write callback, from one settled state to another. -/
theorem safe_preWrite {q : Holding} (hq : q.Settled) :
    cachemonPreWrite.Safe writing.contract (fun _ => Holding.Settled) q := by
  refine Protocol.safe_then trivial (fun e => e.elim) fun ignored _ => ?_
  cases (ignored : Bool) with
  | true => exact Protocol.safe_end hq
  | false =>
    refine Protocol.safe_then trivial (fun e => e.elim) fun found _ => ?_
    cases (found : Option ContextId) with
    | some i => exact safe_markWritten
    | none =>
      refine Protocol.safe_then trivial (fun e => e.elim) fun context hne => ?_
      cases (context : Option ContextId) with
      | none => exact absurd rfl hne
      | some i =>
        refine Protocol.safe_then rfl (fun e => e.elim) fun _ _ => ?_
        exact Protocol.safe_then rfl (fun e => e.elim) fun attached _ => safe_markWritten

theorem safe_dropContext {i : ContextId} {q : Closing} (hq : q = .unobserved ∨ q = .reported) :
    (dropContext i).Safe closing.contract (fun _ => Closing.Settled) q := by
  refine Protocol.safe_then hq (fun e => e.elim) fun _ _ => ?_
  exact Protocol.safe_last hq fun _ _ => .inr hq

theorem safe_preCleanup :
    cachemonPreCleanup.Safe closing.contract (fun _ => Closing.Settled) .waiting := by
  refine Protocol.safe_then rfl (fun e => e.elim) fun _ _ => ?_
  refine Protocol.safe_then rfl (fun e => e.elim) fun found _ => ?_
  cases (found : Option ContextId) with
  | none => exact Protocol.safe_end (.inl rfl)
  | some i =>
    refine Protocol.safe_then rfl (fun e => e.elim) fun observed _ => ?_
    cases (observed : Bool) with
    | false => exact safe_dropContext (.inl rfl)
    | true =>
      have hsend : (cachemonSendEvent .writeClosed).Safe closing.contract
          (fun _ q => q = .reported) .observed := by
        refine Protocol.safe_then ⟨rfl, rfl⟩ (fun e => e.elim) fun _ _ => ?_
        refine Protocol.safe_then rfl (fun e => e.elim) fun ignored _ => ?_
        cases (ignored : Bool) with
        | true => exact Protocol.safe_end rfl
        | false =>
          refine Protocol.safe_then rfl (fun e => e.elim) fun resolved _ => ?_
          cases (resolved : Bool) with
          | false => exact Protocol.safe_end rfl
          | true =>
            refine Protocol.safe_then rfl (fun e => e.elim) fun sent _ => ?_
            exact Protocol.safe_last rfl fun _ _ => rfl
      refine Prog.safe_bind (Prog.safe_mono (fun r q hq => ?_) hsend)
      cases r with
      | error e => exact e.elim
      | ok v =>
        rw [show q = .reported from hq]
        exact safe_dropContext (.inr rfl)

/-! ## Whose contexts are whose -/

/-- The contexts the writers hold, for the local states `L` of the writers: a fresh context
is its writer's own, a context held as the attached one is attached until the cleanup, and a
marked one is marked. -/
structure Owned (L : ℕ → Holding) (w : FileHandle) : Prop where
  attached_lt : ∀ {i}, w.attached = some i → i < w.allocated
  lt : ∀ {n i}, (L n).context = some i → i < w.allocated
  fresh : ∀ {n i}, L n = .fresh i → w.attached ≠ some i ∧ ∀ m, (L m).context = some i → m = n
  attached : ∀ {n i marked}, L n = .held i true marked → w.closing = false → w.attached = some i
  marked : ∀ {n i attached}, L n = .held i attached true → w.writeObserved i = true

namespace Owned

variable {L : ℕ → Holding} {w : FileHandle} {n : ℕ} {i : ContextId}

theorem missing (h : Owned L w) : Owned (Function.update L n .nothing) w := by
  constructor <;> grind [Owned, Function.update_apply, Holding.context]

theorem found (h : Owned L w) (hi : w.attached = some i) :
    Owned (Function.update L n (.held i true false)) w := by
  constructor <;> grind [Owned, Function.update_apply, Holding.context]

theorem allocate (h : Owned L w) :
    Owned (Function.update L n (.fresh w.allocated)) { w with allocated := w.allocated + 1 } := by
  constructor <;> grind [Owned, Function.update_apply, Holding.context]

theorem zero (h : Owned L w) (hi : L n = .fresh i) :
    Owned L { w with writeObserved := Function.update w.writeObserved i false } := by
  constructor <;> grind [Owned, Function.update_apply, Holding.context]

theorem attach (h : Owned L w) (hi : L n = .fresh i) (hw : w.attached = none) :
    Owned (Function.update L n (.held i true false)) { w with attached := some i } := by
  have hlt : i < w.allocated := h.lt (by rw [hi]; rfl)
  have hnone : ∀ j, w.attached ≠ some j := by simp [hw]
  constructor <;> grind [Owned, Function.update_apply, Holding.context]

theorem refuse (h : Owned L w) (hi : L n = .fresh i) :
    Owned (Function.update L n (.held i false false)) w := by
  constructor <;> grind [Owned, Function.update_apply, Holding.context]

theorem mark {attached : Bool} (h : Owned L w) (hi : L n = .held i attached false) :
    Owned (Function.update L n (.held i attached true))
      { w with writeObserved := Function.update w.writeObserved i true } := by
  constructor <;> grind [Owned, Function.update_apply, Holding.context]

/-- **A writer's call keeps the contexts apart.** -/
theorem act {a : DriverCall} {r : Except Empty a.Answer} {w' : FileHandle} (h : Owned L w)
    (ha : writing.allows (L n) a) (hx : driverExec w a r w') :
    Owned (Function.update L n (writing.next (L n) a r)) w' := by
  -- a call that changes neither the handle nor what the writer holds
  have hsame : Owned (Function.update L n (L n)) w := by
    rw [Function.update_eq_self]
    exact h
  cases r with
  | error e => exact e.elim
  | ok v =>
    cases a with
    | enterCleanup => exact ha.elim
    | deleteStreamHandleContext => exact ha.elim
    | getStreamHandleContext =>
      obtain ⟨rfl, rfl⟩ := hx
      change Owned (Function.update L n
        ((w'.attached.map fun i => .held i true false).getD .nothing)) w'
      cases hw : w'.attached with
      | none => exact h.missing
      | some i => exact h.found hw
    | allocateContext =>
      obtain ⟨rfl, rfl⟩ := hx
      exact h.allocate
    | zeroMemory i =>
      obtain rfl := hx
      have hzero := h.zero ha
      rw [← Function.update_eq_self n L] at hzero
      exact hzero
    | setStreamHandleContext i =>
      simp only [driverExec] at hx
      split at hx
      · rename_i hw
        obtain ⟨rfl, rfl⟩ := hx
        exact h.attach ha hw
      · obtain ⟨rfl, rfl⟩ := hx
        exact h.refuse ha
    | storeWriteObserved i =>
      obtain rfl := hx
      obtain ⟨attached, hi⟩ := ha
      rw [hi]
      exact h.mark hi
    | loadWriteObserved i =>
      obtain ⟨-, rfl⟩ := hx
      exact hsame
    | shouldIgnore => obtain rfl := hx; exact hsame
    | releaseContext i => obtain rfl := hx; exact hsame
    | sendEvent kind => obtain rfl := hx; exact hsame
    | getFileNameInformation => obtain rfl := hx; exact hsame
    | sendMessage kind => obtain rfl := hx; exact hsame
    | releaseFileNameInformation => obtain rfl := hx; exact hsame

/-- The cleanup's calls keep them apart too. -/
theorem act_cleanup {q : Closing} {a : DriverCall} {r : Except Empty a.Answer} {w' : FileHandle}
    (h : Owned L w) (hq : q ≠ .waiting → w.closing = true) (ha : closing.allows q a)
    (hx : driverExec w a r w') : Owned L w' := by
  cases r with
  | error e => exact e.elim
  | ok v =>
    cases a with
    | enterCleanup =>
      obtain rfl := hx
      exact ⟨h.attached_lt, h.lt, h.fresh, fun _ hc => Bool.noConfusion hc, h.marked⟩
    | deleteStreamHandleContext =>
      obtain rfl := hx
      have hclosing : w.closing = true := by
        apply hq
        rintro rfl
        rcases ha with ha | ha <;> cases ha
      have hnone : ∀ i, (none : Option ContextId) ≠ some i := by simp
      refine ⟨fun hi => absurd hi (hnone _), h.lt, fun hi => ⟨hnone _, (h.fresh hi).2⟩,
        fun _ hc => ?_, h.marked⟩
      exact Bool.noConfusion (hclosing.symm.trans hc)
    | getStreamHandleContext => obtain ⟨-, rfl⟩ := hx; exact h
    | loadWriteObserved i => obtain ⟨-, rfl⟩ := hx; exact h
    | allocateContext => exact ha.elim
    | zeroMemory i => exact ha.elim
    | setStreamHandleContext i => exact ha.elim
    | storeWriteObserved i => exact ha.elim
    | shouldIgnore => obtain rfl := hx; exact h
    | releaseContext i => obtain rfl := hx; exact h
    | sendEvent kind => obtain rfl := hx; exact h
    | getFileNameInformation => obtain rfl := hx; exact h
    | sendMessage kind => obtain rfl := hx; exact h
    | releaseFileNameInformation => obtain rfl := hx; exact h

end Owned

/-! ## Runs -/

/-- What the writers hold, and where the cleanup is, after a history. -/
def holdings (h : HandleHistory) (n : ℕ) : Holding := writing.localState (.writer n) h

def phase (h : HandleHistory) : Closing := closing.localState .cleanup h

variable {h : HandleHistory} {w : FileHandle} {n : ℕ} {a : driverCalls.Act}
variable {r : Except Empty (driverCalls.Resp a)}

theorem holdings_writer : holdings ((w, .act (.writer n) a r) :: h) =
    Function.update (holdings h) n (writing.next (holdings h n) a r) := by
  funext m
  by_cases hmn : m = n
  · subst hmn
    rw [Function.update_self]
    exact Protocol.localState_self
  · rw [Function.update_of_ne hmn]
    refine Protocol.localState_ne fun heq => hmn ?_
    cases heq
    rfl

theorem holdings_cleanup : holdings ((w, .act .cleanup a r) :: h) = holdings h := by
  funext m
  exact Protocol.localState_ne fun heq => by cases heq

theorem phase_writer : phase ((w, .act (.writer n) a r) :: h) = phase h :=
  Protocol.localState_ne fun heq => by cases heq

theorem phase_cleanup : phase ((w, .act .cleanup a r) :: h) = closing.next (phase h) a r :=
  Protocol.localState_self

/-- A context held as refused stays so, or has just been refused. -/
theorem next_refused {q : Holding} {i : ContextId} {marked : Bool}
    (hq : writing.next q a r = .held i false marked)
    (hheld : ∀ {i marked}, q = .held i false marked → refused n h = true) :
    refused n ((w, .act (.writer n) a r) :: h) = true := by
  cases r with
  | error e => exact e.elim
  | ok v =>
    cases a with
    | getStreamHandleContext =>
      cases (v : Option ContextId) with
      | none => cases hq
      | some j => cases hq
    | allocateContext =>
      cases (v : Option ContextId) with
      | none => exact hheld hq
      | some j => cases hq
    | setStreamHandleContext j =>
      have hv : v = false := by
        have hheld : Holding.held j v false = .held i false marked := hq
        injection hheld
      change (if n = n then !v else refused n h) = true
      rw [if_pos rfl, hv]
      rfl
    | storeWriteObserved j =>
      cases q with
      | nothing => cases hq
      | fresh k => cases hq
      | held k attached m =>
        have hk : Holding.held k attached true = .held i false marked := hq
        injection hk with hk hattached
        rw [hattached] at hheld
        exact hheld rfl
    | _ => exact hheld hq

/-- A writer that holds a context as refused had it refused. -/
theorem refused_of_held : ∀ {h : HandleHistory} {i : ContextId} {marked : Bool},
    holdings h n = .held i false marked → refused n h = true := by
  intro h
  induction h with
  | nil => intro i marked hn; cases hn
  | cons x h ih =>
    obtain ⟨w, l⟩ := x
    intro i marked hn
    cases l with
    | call t o => exact ih hn
    | env => exact ih hn
    | act t a r =>
      cases t with
      | cleanup =>
        rw [holdings_cleanup] at hn
        have hrefused : refused n h = true := ih hn
        cases a <;> exact hrefused
      | writer m =>
        by_cases hmn : m = n
        · subst hmn
          rw [holdings_writer, Function.update_self] at hn
          exact next_refused hn ih
        · rw [holdings_writer, Function.update_of_ne (Ne.symm hmn)] at hn
          have hrefused : refused n h = true := ih hn
          cases r with
          | error e => exact e.elim
          | ok v =>
            cases a with
            | setStreamHandleContext j =>
              change (if m = n then !v else refused n h) = true
              rw [if_neg hmn, hrefused]
            | getStreamHandleContext =>
              change (decide (m ≠ n) && refused n h) = true
              rw [decide_eq_true hmn, hrefused]
              rfl
            | _ => exact hrefused

/-- The cleanup still looks for the mark. -/
def Closing.Looking : Closing → Prop
  | waiting | entered | found _ => True
  | _ => False

/-- What the cleanup has found, and what has been reported. -/
structure Reporting (h : HandleHistory) (w : FileHandle) : Prop where
  begun : phase h ≠ .waiting ↔ w.closing = true
  found : ∀ {i}, phase h = .found i → w.attached = some i
  marked : (phase h).Looking → WriteReported h → w.Marked
  silent : phase h = .missing ∨ phase h = .unobserved → ¬ WriteReported h
  reported : phase h = .reported → CloseReported h

theorem writeReported_cons {l : HandleEvent} :
    WriteReported ((w, l) :: h) ↔ (w.closing = false ∧ sendsWrite l = true) ∨ WriteReported h := by
  unfold WriteReported
  simp only [List.mem_cons, exists_eq_or_imp]

theorem writeReported_cleanup :
    WriteReported ((w, .act .cleanup a r) :: h) ↔ WriteReported h := by
  rw [writeReported_cons]
  exact or_iff_right fun hsend => Bool.noConfusion hsend.2

theorem CloseReported.cons {l : HandleEvent} (hclose : CloseReported h) :
    CloseReported ((w, l) :: h) := by
  obtain ⟨x, hx, hreport⟩ := hclose
  exact ⟨x, List.mem_cons_of_mem _ hx, hreport⟩

variable {w' : FileHandle}

/-- A writer's call does not begin the cleanup, detach a context or take the mark from the
attached one. -/
theorem writer_keeps {L : ℕ → Holding} (hL : Owned L w) (ha : writing.allows (L n) a)
    (hx : driverExec w a r w') :
    w'.closing = w.closing ∧ (∀ i, w.attached = some i → w'.attached = some i) ∧
      (w.Marked → w'.Marked) := by
  cases r with
  | error e => exact e.elim
  | ok v =>
    cases a with
    | enterCleanup => exact ha.elim
    | deleteStreamHandleContext => exact ha.elim
    | allocateContext => obtain ⟨-, rfl⟩ := hx; exact ⟨rfl, fun _ => id, id⟩
    | zeroMemory i =>
      obtain rfl := hx
      refine ⟨rfl, fun _ => id, ?_⟩
      rintro ⟨j, hj, hmark⟩
      -- the attached context is not the writer's fresh one
      have hji : j ≠ i := fun heq => (hL.fresh ha).1 (heq ▸ hj)
      exact ⟨j, hj, (Function.update_of_ne hji ..).trans hmark⟩
    | setStreamHandleContext i =>
      simp only [driverExec] at hx
      split at hx
      · rename_i hw
        obtain ⟨-, rfl⟩ := hx
        refine ⟨rfl, fun j hj => ?_, ?_⟩
        · rw [hw] at hj
          cases hj
        · rintro ⟨j, hj, -⟩
          rw [hw] at hj
          cases hj
      · obtain ⟨-, rfl⟩ := hx
        exact ⟨rfl, fun _ => id, id⟩
    | storeWriteObserved i =>
      obtain rfl := hx
      refine ⟨rfl, fun _ => id, ?_⟩
      rintro ⟨j, hj, hmark⟩
      refine ⟨j, hj, ?_⟩
      change Function.update w.writeObserved i true j = true
      by_cases hji : j = i
      · rw [hji, Function.update_self]
      · rw [Function.update_of_ne hji, hmark]
    | getStreamHandleContext => obtain ⟨-, rfl⟩ := hx; exact ⟨rfl, fun _ => id, id⟩
    | loadWriteObserved i => obtain ⟨-, rfl⟩ := hx; exact ⟨rfl, fun _ => id, id⟩
    | shouldIgnore => obtain rfl := hx; exact ⟨rfl, fun _ => id, id⟩
    | releaseContext i => obtain rfl := hx; exact ⟨rfl, fun _ => id, id⟩
    | sendEvent kind => obtain rfl := hx; exact ⟨rfl, fun _ => id, id⟩
    | getFileNameInformation => obtain rfl := hx; exact ⟨rfl, fun _ => id, id⟩
    | sendMessage kind => obtain rfl := hx; exact ⟨rfl, fun _ => id, id⟩
    | releaseFileNameInformation => obtain rfl := hx; exact ⟨rfl, fun _ => id, id⟩

/-- Only the message of a write is a report. -/
theorem sendsWrite_eq {l : HandleEvent} (hsend : sendsWrite l = true) :
    ∃ n r, l = .act (.writer n) (.sendMessage .writeObserved) r := by
  cases l with
  | call t o => exact Bool.noConfusion hsend
  | env => exact Bool.noConfusion hsend
  | act t a r =>
    cases t with
    | cleanup => exact Bool.noConfusion hsend
    | writer n =>
      cases a with
      | sendMessage kind =>
        cases kind with
        | writeObserved => exact ⟨n, r, rfl⟩
        | readOpen => exact Bool.noConfusion hsend
        | writeClosed => exact Bool.noConfusion hsend
        | rename => exact Bool.noConfusion hsend
        | delete => exact Bool.noConfusion hsend
      | _ => exact Bool.noConfusion hsend

/-- **A report finds the attached context marked**: the writer has marked it itself, or was
refused and meets the condition. -/
theorem marked_of_send (hL : Owned (holdings h) w) (ha : writing.allows (holdings h n) a)
    (hc : RefusedAfterMark h w (.act (.writer n) a r)) (hw : w.closing = false)
    (hsend : sendsWrite (.act (.writer n) a r) = true) : w.Marked := by
  obtain ⟨m, sent, heq⟩ := sendsWrite_eq hsend
  cases heq
  obtain ⟨i, attached, hi⟩ := ha
  cases attached with
  | true => exact ⟨i, hL.attached hi hw, hL.marked hi⟩
  | false => exact hc hsend hw (refused_of_held hi)

namespace Reporting

theorem writer (hR : Reporting h w) (hL : Owned (holdings h) w)
    (ha : writing.allows (holdings h n) a) (hx : driverExec w a r w')
    (hc : RefusedAfterMark h w (.act (.writer n) a r)) :
    Reporting ((w, .act (.writer n) a r) :: h) w' := by
  obtain ⟨hclosing, hattached, hmarked⟩ := writer_keeps hL ha hx
  constructor
  · rw [phase_writer, hclosing]
    exact hR.begun
  · intro i hi
    rw [phase_writer] at hi
    exact hattached i (hR.found hi)
  · intro hq hreported
    rw [phase_writer] at hq
    apply hmarked
    rcases writeReported_cons.1 hreported with ⟨hw, hsend⟩ | hreported
    · exact marked_of_send hL ha hc hw hsend
    · exact hR.marked hq hreported
  · intro hq hreported
    rw [phase_writer] at hq
    rcases writeReported_cons.1 hreported with ⟨hw, -⟩ | hreported
    · -- the cleanup has begun
      have hne : phase h ≠ .waiting := by
        rcases hq with hq | hq <;> rw [hq] <;> exact Closing.noConfusion
      rw [hR.begun.1 hne] at hw
      cases hw
    · exact hR.silent hq hreported
  · intro hq
    rw [phase_writer] at hq
    exact (hR.reported hq).cons

/-- A step of the cleanup after it has looked at the mark. -/
theorem settle (hR : Reporting h w) (hq : phase h = .unobserved ∨ phase h = .reported)
    (hnext : closing.next (phase h) a r = phase h) (hw : w'.closing = w.closing) :
    Reporting ((w, .act .cleanup a r) :: h) w' := by
  have hphase : phase ((w, .act .cleanup a r) :: h) = phase h := by rw [phase_cleanup, hnext]
  constructor
  · rw [hphase, hw]
    exact hR.begun
  · intro i hi
    rw [hphase] at hi
    rw [hi] at hq
    rcases hq with hq | hq <;> cases hq
  · intro hlooking
    rw [hphase] at hlooking
    rcases hq with hq | hq <;> rw [hq] at hlooking <;> exact hlooking.elim
  · rw [hphase, writeReported_cleanup]
    exact hR.silent
  · rw [hphase]
    exact fun hq => (hR.reported hq).cons

/-- The cleanup is in phase `q` after its call. -/
theorem of_phase {q : Closing} (hphase : phase ((w, .act .cleanup a r) :: h) = q)
    (hq : q ≠ .waiting) (hclosing : w'.closing = true)
    (hfound : ∀ i, q = .found i → w'.attached = some i)
    (hmarked : q.Looking → WriteReported h → w'.Marked)
    (hsilent : q = .missing ∨ q = .unobserved → ¬ WriteReported h)
    (hreported : q = .reported → CloseReported ((w, .act .cleanup a r) :: h)) :
    Reporting ((w, .act .cleanup a r) :: h) w' := by
  constructor
  · rw [hphase]
    exact iff_of_true hq hclosing
  · intro i hi
    rw [hphase] at hi
    exact hfound i hi
  · rw [hphase, writeReported_cleanup]
    exact hmarked
  · rw [hphase, writeReported_cleanup]
    exact hsilent
  · rw [hphase]
    exact hreported

theorem enter (hR : Reporting h w) (hwaiting : phase h = .waiting) :
    Reporting ((w, .act .cleanup .enterCleanup (.ok ())) :: h) { w with closing := true } := by
  have hmarked : WriteReported h → w.Marked := hR.marked (by rw [hwaiting]; trivial)
  have hphase : phase ((w, .act .cleanup .enterCleanup (.ok ())) :: h) = .entered := phase_cleanup
  exact of_phase hphase (by simp) rfl (by simp) (fun _ => hmarked) (by simp) (by simp)

theorem look (hR : Reporting h w) (hentered : phase h = .entered) :
    Reporting ((w, .act .cleanup .getStreamHandleContext (.ok w.attached)) :: h) w := by
  have hbegun : w.closing = true := hR.begun.1 (by rw [hentered]; exact Closing.noConfusion)
  have hmarked : WriteReported h → w.Marked := hR.marked (by rw [hentered]; trivial)
  cases hw : w.attached with
  | none =>
    have hphase : phase ((w, .act .cleanup .getStreamHandleContext (.ok none)) :: h) =
        .missing := phase_cleanup
    refine of_phase hphase (by simp) hbegun (by simp) (by simp [Closing.Looking]) ?_ (by simp)
    -- a handle without a context has no marked one
    intro _ hreported
    obtain ⟨i, hi, -⟩ := hmarked hreported
    rw [hw] at hi
    cases hi
  | some i =>
    have hphase : phase ((w, .act .cleanup .getStreamHandleContext (.ok (some i))) :: h) =
        .found i := phase_cleanup
    refine of_phase hphase (by simp) hbegun ?_ (fun _ => hmarked) (by simp) (by simp)
    intro j hj
    cases hj
    exact hw

theorem load (hR : Reporting h w) {i : ContextId} (hfound : phase h = .found i) :
    Reporting ((w, .act .cleanup (.loadWriteObserved i) (.ok (w.writeObserved i))) :: h) w := by
  have hbegun : w.closing = true := hR.begun.1 (by rw [hfound]; exact Closing.noConfusion)
  cases hmark : w.writeObserved i with
  | true =>
    have hphase : phase ((w, .act .cleanup (.loadWriteObserved i) (.ok true)) :: h) =
        .observed := phase_cleanup
    exact of_phase hphase (by simp) hbegun (by simp) (by simp [Closing.Looking]) (by simp)
      (by simp)
  | false =>
    have hphase : phase ((w, .act .cleanup (.loadWriteObserved i) (.ok false)) :: h) =
        .unobserved := phase_cleanup
    refine of_phase hphase (by simp) hbegun (by simp) (by simp [Closing.Looking]) ?_ (by simp)
    -- the context found is the attached one, and would be marked
    intro _ hreported
    obtain ⟨j, hj, hmarked⟩ := hR.marked (by rw [hfound]; trivial) hreported
    rw [hR.found hfound] at hj
    cases hj
    rw [hmark] at hmarked
    cases hmarked

theorem send (hR : Reporting h w) (hobserved : phase h = .observed) :
    Reporting ((w, .act .cleanup (.sendEvent .writeClosed) (.ok ())) :: h) w := by
  have hbegun : w.closing = true := hR.begun.1 (by rw [hobserved]; exact Closing.noConfusion)
  have hphase : phase ((w, .act .cleanup (.sendEvent .writeClosed) (.ok ())) :: h) =
      .reported := phase_cleanup
  exact of_phase hphase (by simp) hbegun (by simp) (by simp [Closing.Looking]) (by simp)
    fun _ => ⟨_, List.mem_cons_self, rfl⟩

/-- **A call of the cleanup keeps what it has found and reported.** -/
theorem cleanup (hR : Reporting h w) (ha : closing.allows (phase h) a) (hx : driverExec w a r w') :
    Reporting ((w, .act .cleanup a r) :: h) w' := by
  cases r with
  | error e => exact e.elim
  | ok v =>
    cases a with
    | enterCleanup =>
      obtain rfl := hx
      exact hR.enter ha
    | getStreamHandleContext =>
      obtain ⟨rfl, rfl⟩ := hx
      exact hR.look ha
    | loadWriteObserved i =>
      obtain ⟨rfl, rfl⟩ := hx
      exact hR.load ha
    | sendEvent kind =>
      obtain rfl := hx
      obtain ⟨hobserved, rfl⟩ : phase h = .observed ∧ kind = .writeClosed := ha
      exact hR.send hobserved
    | allocateContext => exact ha.elim
    | zeroMemory i => exact ha.elim
    | setStreamHandleContext i => exact ha.elim
    | storeWriteObserved i => exact ha.elim
    | deleteStreamHandleContext => obtain rfl := hx; exact hR.settle ha rfl rfl
    | releaseContext i => obtain rfl := hx; exact hR.settle ha rfl rfl
    | shouldIgnore => obtain rfl := hx; exact hR.settle (.inr ha) rfl rfl
    | getFileNameInformation => obtain rfl := hx; exact hR.settle (.inr ha) rfl rfl
    | sendMessage kind => obtain rfl := hx; exact hR.settle (.inr ha) rfl rfl
    | releaseFileNameInformation => obtain rfl := hx; exact hR.settle (.inr ha) rfl rfl

end Reporting

variable {memory : ContextId → Bool} {c : HandleState}

theorem answers_writing {w w' : FileHandle} {a : DriverCall} {r : Except Empty a.Answer}
    (hx : driverExec w a r w') : writing.answers a r := by
  cases a with
  | allocateContext =>
    cases r with
    | error e => exact e.elim
    | ok v =>
      obtain ⟨rfl, -⟩ := hx
      exact Option.some_ne_none _
  | _ => trivial

/-- The writers keep to their local states. -/
theorem writers_allowed (hrun : Run fileHandle (opened memory) h c) :
    Meets (fun h w l => ∀ n, writing.Allowed (.writer n) h w l) h := by
  refine meets_forall fun n => ?_
  have hidle : ((opened memory).prog (.writer n)).Safe writing.contract
      (fun _ => Holding.Settled) writing.rest := Protocol.safe_end trivial
  exact Protocol.allowed_of_run (fun hx => answers_writing hx) (fun _ hq => safe_preWrite hq) hidle
    hrun

/-- The cleanup starts nothing but its callback. -/
theorem cleanup_menu {c : HandleState} {o : Unit} : ¬ fileHandle.menu .cleanup c o := fun hne => hne rfl

theorem cleanup_allowed (hrun : Run fileHandle (opened memory) h c) :
    Meets (closing.Allowed .cleanup) h :=
  Protocol.allowed_of_run (fun _ => trivial) (fun hm _ => absurd hm cleanup_menu) safe_preCleanup hrun

/-- Once its callback has ended, the cleanup has settled. -/
theorem phase_settled (hrun : Run fileHandle (opened memory) h c) (hd : (c.prog .cleanup).Done) :
    (phase h).Settled := by
  have hsafe : (c.prog .cleanup).Safe closing.contract (fun _ => Closing.Settled) (phase h) :=
    Protocol.safe_of_run (fun _ => trivial) (fun hm _ => absurd hm cleanup_menu) safe_preCleanup hrun
  obtain ⟨-, hsettled⟩ := hsafe.done hd
  exact hsettled

/-- A fresh handle: nobody holds a context, and nothing is reported. -/
theorem reporting_opened : Owned (holdings []) (opened memory).world ∧
    Reporting [] (opened memory).world := by
  have hnone : ∀ n, holdings [] n = .nothing := fun _ => rfl
  have hphase : phase [] = .waiting := rfl
  have hreported : ¬ WriteReported [] := by simp [WriteReported]
  refine ⟨⟨?_, ?_, ?_, ?_, ?_⟩, ⟨?_, ?_, ?_, ?_, ?_⟩⟩ <;>
    simp [hnone, hphase, hreported, opened, Holding.context]

/-- A write callback that starts changes none of it. -/
theorem Reporting.call (hR : Reporting h w) {t : Caller} {o : Unit} :
    Reporting ((w, .call t o) :: h) w := by
  have hreported : WriteReported ((w, .call t o) :: h) ↔ WriteReported h := by
    rw [writeReported_cons]
    exact or_iff_right fun hsend => Bool.noConfusion hsend.2
  refine ⟨hR.begun, hR.found, fun hq hnew => hR.marked hq (hreported.1 hnew), fun hq hnew => ?_,
    fun hq => (hR.reported hq).cons⟩
  exact hR.silent hq (hreported.1 hnew)

/-- **The contexts stay apart, and a report marks the attached one**, in every run whose
refused writers meet the condition. -/
theorem reporting (hrun : Run fileHandle (opened memory) h c) (hm : Meets RefusedAfterMark h) :
    Owned (holdings h) c.world ∧ Reporting h c.world := by
  have hcond := hm.and ((writers_allowed hrun).and (cleanup_allowed hrun))
  refine hrun.invariant (I := fun h c => Owned (holdings h) c.world ∧ Reporting h c.world)
    ?_ ?_ hcond
  · exact reporting_opened
  · rintro h c l c' ⟨hL, hR⟩ ⟨hc, hwriters, hcleanup⟩ hs
    cases hs with
    | call hd hm => exact ⟨hL, hR.call⟩
    | env he => exact he.elim
    | @act t a k r w' hk hx =>
      cases t with
      | writer n =>
        have ha : writing.allows (holdings h n) a := hwriters n a r rfl
        refine ⟨?_, hR.writer hL ha hx hc⟩
        rw [holdings_writer]
        exact hL.act ha hx
      | cleanup =>
        have ha : closing.allows (phase h) a := hcleanup a r rfl
        refine ⟨?_, hR.cleanup ha hx⟩
        rw [holdings_cleanup]
        exact hL.act_cleanup hR.begun.1 ha hx

/-- **A written handle is reported closed**, in every run whose refused writers are reported
only after the attached context is marked. -/
theorem reportedClosed (hrun : Run fileHandle (opened memory) h c)
    (hm : Meets RefusedAfterMark h) : ReportedClosed h c := by
  intro hreported hd
  obtain ⟨-, hR⟩ := reporting hrun hm
  rcases phase_settled hrun hd with hq | hq | hq
  · exact absurd hreported (hR.silent (.inl hq))
  · exact absurd hreported (hR.silent (.inr hq))
  · exact hR.reported hq

/-! ## The condition is exact -/

/-- A call does not take the beginning of the cleanup back. -/
theorem closing_mono {w w' : FileHandle} {a : DriverCall} {r : Except Empty a.Answer}
    (hx : driverExec w a r w') (hw : w'.closing = false) : w.closing = false := by
  cases r with
  | error e => exact e.elim
  | ok v =>
    cases a with
    | enterCleanup => obtain rfl := hx; exact Bool.noConfusion hw
    | setStreamHandleContext i =>
      simp only [driverExec] at hx
      split at hx
      · obtain ⟨-, rfl⟩ := hx; exact hw
      · obtain ⟨-, rfl⟩ := hx; exact hw
    | getStreamHandleContext => obtain ⟨-, rfl⟩ := hx; exact hw
    | allocateContext => obtain ⟨-, rfl⟩ := hx; exact hw
    | loadWriteObserved i => obtain ⟨-, rfl⟩ := hx; exact hw
    | _ => obtain rfl := hx; exact hw

theorem closeReported_cons {x : FileHandle × HandleEvent} (hx : reportsClose x.2 = false) :
    CloseReported (x :: h) ↔ CloseReported h := by
  simp only [CloseReported, List.mem_cons, exists_eq_or_imp, hx, Bool.false_eq_true, false_or]

/-- Before the cleanup begins, its callback is still to run. -/
theorem cleanup_waits (hrun : Run fileHandle (opened memory) h c) (hw : c.world.closing = false) :
    c.prog .cleanup = cachemonPreCleanup ∧ ¬ CloseReported h := by
  induction hrun with
  | init => exact ⟨rfl, by simp [CloseReported]⟩
  | @step h c c' l hrun hs ih =>
    cases hs with
    | env he => exact he.elim
    | @call t o hd hm =>
      obtain ⟨hprog, hclose⟩ := ih hw
      rw [Config.become_ne c (Ne.symm hm)]
      exact ⟨hprog, fun hnew => hclose ((closeReported_cons rfl).1 hnew)⟩
    | @act t a k r w' hk hx =>
      obtain ⟨hprog, hclose⟩ := ih (closing_mono hx hw)
      cases t with
      | cleanup =>
        -- its first call begins the cleanup
        rw [hprog] at hk
        have henter : a = .enterCleanup := by
          injection hk with ha
          exact ha.symm
        subst henter
        have hclosing : w'.closing = true := by rw [show w' = _ from hx]
        exact Bool.noConfusion (hclosing.symm.trans hw)
      | writer n =>
        have hne : Caller.cleanup ≠ .writer n := Caller.noConfusion
        rw [Config.become_ne c hne]
        exact ⟨hprog, fun hnew => hclose ((closeReported_cons rfl).1 hnew)⟩

/-- The cleanup of a handle whose attached context is not marked calls no `CachemonSendEvent`. -/
theorem preCleanup_traces {w : FileHandle} (hw : ¬ w.Marked) :
    ∃ tr w', cachemonPreCleanup.Traces driverExec w tr (.ok ()) w' ∧
      ∀ x ∈ tr, reportsClose (.act .cleanup x.1 x.2) = false := by
  cases hattached : w.attached with
  | none =>
    refine ⟨[⟨.enterCleanup, .ok ()⟩, ⟨.getStreamHandleContext, .ok none⟩],
      { w with closing := true }, ?_, ?_⟩
    · exact ⟨_, _, _, rfl, rfl, _, _, _, rfl, ⟨hattached.symm, rfl⟩, rfl, rfl, rfl⟩
    · simp [reportsClose]
  | some i =>
    have hmark : w.writeObserved i = false := by
      by_contra hne
      exact hw ⟨i, hattached, eq_true_of_ne_false hne⟩
    refine ⟨[⟨.enterCleanup, .ok ()⟩, ⟨.getStreamHandleContext, .ok (some i)⟩,
      ⟨.loadWriteObserved i, .ok false⟩, ⟨.deleteStreamHandleContext, .ok ()⟩,
      ⟨.releaseContext i, .ok ()⟩], { w with closing := true, attached := none }, ?_, ?_⟩
    · exact ⟨_, _, _, rfl, rfl, _, _, _, rfl, ⟨hattached.symm, rfl⟩, _, _, _, rfl,
        ⟨hmark.symm, rfl⟩, _, _, _, rfl, rfl, _, _, _, rfl, rfl, rfl, rfl, rfl⟩
    · simp [reportsClose]

/-- **Any other report of a refused writer can go on to an unreported close.** -/
theorem not_reportedClosed {c' : HandleState} {l : HandleEvent}
    (hrun : Run fileHandle (opened memory) h c) (hs : Step fileHandle c l c')
    (hc : ¬ RefusedAfterMark h c.world l) :
    ∃ h' c'', Run fileHandle (opened memory) (h' ++ (c.world, l) :: h) c'' ∧
      ¬ ReportedClosed (h' ++ (c.world, l) :: h) c'' := by
  unfold RefusedAfterMark at hc
  push Not at hc
  obtain ⟨hsend, hw, -, hmarked⟩ := hc
  have hrun' := hrun.step hs
  obtain ⟨n, r, rfl⟩ := sendsWrite_eq hsend
  cases hs with
  | @act _ _ k _ w' hk hx =>
    obtain rfl : w' = c.world := hx
    obtain ⟨hprog, hclose⟩ := cleanup_waits hrun' hw
    obtain ⟨tr, w'', htr, hquiet⟩ := preCleanup_traces hmarked
    obtain ⟨h', c'', hrun'', -, hd, hlabels⟩ := hrun'.alone hprog htr
    refine ⟨h', c'', hrun'', fun hreported => ?_⟩
    have hwrite : WriteReported (h' ++ (c.world, .act (.writer n) (.sendMessage .writeObserved)
        r) :: h) := ⟨_, List.mem_append_right _ List.mem_cons_self, hw, hsend⟩
    obtain ⟨x, hx, hreports⟩ := hreported hwrite hd
    rcases List.mem_append.1 hx with hx | hx
    · -- what the cleanup did reports no close
      have hlabel : x.2 ∈ (tr.map fun x => Label.act Caller.cleanup x.1 x.2).reverse := by
        rw [← hlabels]
        exact List.mem_map_of_mem hx
      rw [List.mem_reverse] at hlabel
      obtain ⟨y, hy, hyx⟩ := List.mem_map.1 hlabel
      rw [← hyx, hquiet y hy] at hreports
      cases hreports
    · exact hclose ⟨x, hx, hreports⟩

/-! ## The failing run -/

/-- Every operation is reported, has a name and finds a client. -/
def driverAnswer (w : FileHandle) :
    (a : DriverCall) → Option (Except Empty a.Answer × FileHandle)
  | .enterCleanup => some (.ok (), { w with closing := true })
  | .shouldIgnore => some (.ok false, w)
  | .getStreamHandleContext => some (.ok w.attached, w)
  | .allocateContext => some (.ok (some w.allocated), { w with allocated := w.allocated + 1 })
  | .zeroMemory context =>
    some (.ok (), { w with writeObserved := Function.update w.writeObserved context false })
  | .setStreamHandleContext context =>
    if w.attached = none then some (.ok true, { w with attached := some context })
    else some (.ok false, w)
  | .storeWriteObserved context =>
    some (.ok (), { w with writeObserved := Function.update w.writeObserved context true })
  | .loadWriteObserved context => some (.ok (w.writeObserved context), w)
  | .releaseContext _ | .sendEvent _ | .releaseFileNameInformation => some (.ok (), w)
  | .deleteStreamHandleContext => some (.ok (), { w with attached := none })
  | .getFileNameInformation => some (.ok true, w)
  | .sendMessage _ => some (.ok true, w)

theorem exec_driverAnswer {w w' : FileHandle} {a : DriverCall} {r : Except Empty a.Answer}
    (h : driverAnswer w a = some (r, w')) : driverExec w a r w' := by
  cases a with
  | setStreamHandleContext context =>
    simp only [driverAnswer] at h
    split at h
    · rename_i hw
      cases h
      exact (if_pos hw).mpr ⟨rfl, rfl⟩
    · rename_i hw
      cases h
      exact (if_neg hw).mpr ⟨rfl, rfl⟩
  | getStreamHandleContext => cases h; exact ⟨rfl, rfl⟩
  | allocateContext => cases h; exact ⟨rfl, rfl⟩
  | loadWriteObserved context => cases h; exact ⟨rfl, rfl⟩
  | _ => cases h; rfl

/-- Plays schedules on a handle. -/
def handlePlayer : Player fileHandle Unit where
  act := driverAnswer
  env _ w := w
  menu t _ _ := decide (t ≠ .cleanup)
  envOk _ _ := false
  act_ok := exec_driverAnswer
  menu_ok := of_decide_eq_true
  env_ok h := Bool.noConfusion h

/-- The next `n` calls of a callback. -/
def handleSteps (t : Caller) (n : ℕ) : List (Move Caller Unit Unit) := List.replicate n (.act t)

/-- A run on a new handle, with a property that can be computed. -/
theorem exists_handleRun (memory : ContextId → Bool) (ms : List (Move Caller Unit Unit))
    (p : HandleHistory × HandleState → Prop) [DecidablePred p]
    (hp : (handlePlayer.play ms ([], opened memory)).any (fun x => decide (p x)) = true) :
    ∃ h c, Run fileHandle (opened memory) h c ∧ p (h, c) :=
  handlePlayer.exists_run ms p hp

/-- Two writers find no context. The first one attaches its own, marks it and is reported; the
second one is refused and reported after that. The cleanup reports the close. -/
theorem reportedClosed_two : ∃ h c, Run fileHandle (opened fun _ => true) h c ∧
    WriteReported h ∧ ¬ Meets (fun h _ l => sendsWrite l = true → refusedWriter h l = false) h ∧
    CloseReported h := by
  obtain ⟨h, c, hrun, hm, hreported, hrefused, hd⟩ := exists_handleRun (fun _ => true)
    (.call (.writer 0) () :: .call (.writer 1) () ::
      (handleSteps (.writer 0) 2 ++ handleSteps (.writer 1) 2 ++ handleSteps (.writer 0) 10 ++
        handleSteps (.writer 1) 9 ++ handleSteps .cleanup 10))
    (fun x => Meets RefusedAfterMark x.1 ∧ WriteReported x.1 ∧
      ¬ Meets (fun h _ l => sendsWrite l = true → refusedWriter h l = false) x.1 ∧
      (x.2.prog .cleanup).Done) (by decide)
  exact ⟨h, c, hrun, hreported, hrefused, reportedClosed hrun hm hreported hd⟩

/-- The second writer looks before the first one attaches its context, is refused and is
reported; the cleanup finds the first one's context unmarked. -/
theorem refused_write_lost : ∃ h c, Run fileHandle (opened fun _ => false) h c ∧
    ¬ ReportedClosed h c := by
  exact exists_handleRun (fun _ => false)
    (.call (.writer 0) () :: .call (.writer 1) () ::
      (handleSteps (.writer 0) 2 ++ handleSteps (.writer 1) 2 ++ handleSteps (.writer 0) 3 ++
        handleSteps (.writer 1) 9 ++ handleSteps .cleanup 5))
    (fun x => ¬ ReportedClosed x.1 x.2) (by decide)

end SsdCache
