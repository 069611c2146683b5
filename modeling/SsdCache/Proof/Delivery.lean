import SsdCache.Atomic.Local
import SsdCache.Proof.Lifetimes
import SsdCache.Proof.Reports
import SsdCache.Spec.Delivery

/-!
# What reaches the index

The driver and the service run side by side, and the client port is between them. The reader
follows a protocol of its calls (`reader`): it updates the index at most once for a message, and
between two passes it is done with the last one (`rests_of_run`). What it was given and what it
took are then two lists that go together (`Kept`).

* `updates_delivered`: **every update that the reader makes is that of one message of the
  driver**, in the order of the messages, and each message is that of a request.
-/

namespace SsdCache.Delivery

open Atomic ClientPort ServiceMain

variable {V : Type} {s : Hosting V} {w : MainWorld V} {h : MainHistory V} {c : MainState V}

/-! ## What is claimed -/

/-- The message is the event of a request that entered a callback which reports this kind. -/
def Originates (h : PortHistory) (message : CachemonEvent) : Prop :=
  ∃ w t o data kind, (w, .call t o) ∈ h ∧ o.2.reports = some (data, kind) ∧
    message = data.event kind ∧ data.generated = false ∧ data.paging = false

/-! ## The reader's protocol -/

def reader (s : Hosting V) : Protocol mainCalls String Reading where
  rest := {}
  next := Reading.next
  allows
    | q, .inl (.inl (.update u)) => q.given = [] ∧ ∃ message ∈ q.message, Delivers s u message
    | _, _ => True
  answers
    | .inr .terminate, .error _ => False
    | _, _ => True

/-- Between two passes. -/
def Rests (s : Hosting V) (q : Reading) : Prop := q.terminated = true ∨ q.Settled s

/-- The rest of a pass ends at rest. -/
abbrev Settles (s : Hosting V) (c : MainTask Unit) (q : Reading) : Prop :=
  c.Safe (reader s).contract (fun _ => Rests s) q

/-- The rest of a pass in the callback of the activity source. -/
abbrev Handles (s : Hosting V) (c : HostTask Unit) (q : Reading) : Prop :=
  Settles s (threadPass (hosted c)) q

variable {q : Reading}

theorem settles_terminate : Settles s (main .terminate) q := by
  refine Protocol.safe_call trivial fun r hr => ?_
  cases r with
  | ok v => exact Protocol.safe_end (.inl rfl)
  | error e => exact hr.elim

/-- One call, whose exception ends the process. -/
theorem settles_call {a : mainCalls.Act} {k : Except String (mainCalls.Resp a) → MainTask Unit}
    (ha : (reader s).allows q a) (hthrow : ∀ e, k (.error e) = main .terminate)
    (hk : ∀ v, Settles s (k (.ok v)) (q.next a (.ok v))) : Settles s (.call a k) q := by
  refine Protocol.safe_call ha fun r _ => ?_
  cases r with
  | ok v => exact hk v
  | error e =>
    rw [hthrow e]
    exact settles_terminate

theorem handles_throw (e : String) : Handles s (.throw e) q := settles_terminate

theorem handles_ret (hq : Rests s q) : Handles s (.ret ()) q := Protocol.safe_end hq

theorem handles_call {a : hostCalls.Act} {k : Except String (hostCalls.Resp a) → HostTask Unit}
    (ha : (reader s).allows q (.inl a)) (hthrow : ∀ e, k (.error e) = .throw e)
    (hk : ∀ v, Handles s (k (.ok v)) (q.next (.inl a) (.ok v))) : Handles s (.call a k) q := by
  refine settles_call ha (fun e => ?_) hk
  exact congrArg (fun c => threadPass (hosted c)) (hthrow e)

/-! ### The callback -/

theorem handles_withRequestorProcess {event : AccessEvent} {f : AccessEvent → HostTask Unit}
    (hf : ∀ image process, wideToUtf8 image = .ok process →
      Handles s (f { event with requestorProcess := process }) { q with image }) :
    Handles s ((withRequestorProcess event).bind f) q := by
  refine handles_call (a := .inr (.processImage event.requestorPid)) trivial (fun _ => rfl)
    fun (image : WString) => ?_
  have hrest : Handles s (((converted (wideToUtf8 image)).bind fun process =>
      .ret { event with requestorProcess := process }).bind f) { q with image } := by
    cases hprocess : wideToUtf8 image with
    | ok process => exact hf image process hprocess
    | error e => exact handles_throw e
  exact hrest

theorem handles_activityEventMessage {event : AccessEvent} {f : Unit → HostTask Unit}
    (hf : Handles s (f ()) q) : Handles s ((activityEventMessage event).bind f) q := by
  unfold activityEventMessage
  cases wideToUtf8 event.relativePath with
  | ok text => exact hf
  | error e => exact handles_throw e

theorem handles_shouldIgnore {event : AccessEvent} {f : Bool → HostTask Unit}
    (hf : Handles s (f (ignores s.filters event)) q) :
    Handles s ((shouldIgnoreActivityEvent s.filters event).bind f) q := by
  by_cases hignores : ignores s.filters event = true
  · have hprogram : shouldIgnoreActivityEvent s.filters event =
        (activityEventMessage event).bind fun _ => .ret true := if_pos hignores
    have hrest : Handles s ((activityEventMessage event).bind fun _ => f true) q := by
      rw [hignores] at hf
      exact handles_activityEventMessage hf
    rw [hprogram, Prog.bind_assoc]
    exact hrest
  · have hprogram : shouldIgnoreActivityEvent s.filters event = .ret false := if_neg hignores
    rw [Bool.eq_false_iff.2 hignores] at hf
    rw [hprogram]
    exact hf

/-- What `record_event` does when the scheduler is not paused. -/
theorem handles_update {event : AccessEvent} (hgiven : q.given = [])
    (hdelivers : ∃ message ∈ q.message, Delivers s (updateOf s event) message)
    (hdone : Rests s { q with given := [updateOf s event] }) :
    Handles s (lift (if event.kind = .delete then update (.markRemoved event.relativePath)
      else do
        update (.recordAccess event s.sv.settings.copyDelay)
        if shouldScheduleCopy event.kind then
          enqueue event.relativePath (addSeconds event.observedAt s.sv.settings.copyDelay)
        else pure ())) q := by
  have hnext : Rests s { q with given := updateOf s event :: q.given } := by rwa [hgiven]
  by_cases hkind : event.kind = .delete
  · have hu : updateOf s event = .markRemoved event.relativePath := if_pos hkind
    rw [hu] at hdelivers hnext
    rw [if_pos hkind]
    exact handles_call (a := .inl (.update _)) ⟨hgiven, hdelivers⟩ (fun _ => rfl) fun _ =>
      handles_ret hnext
  · have hu : updateOf s event = .recordAccess event s.sv.settings.copyDelay := if_neg hkind
    rw [hu] at hdelivers hnext
    rw [if_neg hkind]
    refine handles_call (a := .inl (.update _)) ⟨hgiven, hdelivers⟩ (fun _ => rfl) fun _ => ?_
    split
    · exact handles_call (a := .inl (.memory (.push _ _))) trivial (fun _ => rfl) fun _ =>
        handles_ret hnext
    · exact handles_ret hnext

/-- `record_event`: a path that is not well formed ends the process. -/
theorem handles_recordEvent {event : AccessEvent} (hpath : event.relativePath ≠ [])
    (hgiven : q.given = [])
    (hdelivers : ∃ message ∈ q.message, Delivers s (updateOf s event) message)
    (hpaused : Rests s { q with paused := true })
    (hdone : Rests s { q with paused := false, given := [updateOf s event] }) :
    Handles s (lift (recordEvent s.sv event)) q := by
  unfold recordEvent
  rw [if_neg hpath]
  refine handles_call (a := .inl (.memory .loadPaused)) trivial (fun _ => rfl)
    fun (paused : Bool) => ?_
  have hrest : Handles s (lift ((narrowPath event.relativePath).bind fun _ =>
      if paused then pure ()
      else if event.kind = .delete then update (.markRemoved event.relativePath)
      else do
        update (.recordAccess event s.sv.settings.copyDelay)
        if shouldScheduleCopy event.kind then
          enqueue event.relativePath (addSeconds event.observedAt s.sv.settings.copyDelay)
        else pure ())) { q with paused } := by
    unfold narrowPath
    split
    · cases paused with
      | true => exact handles_ret hpaused
      | false => exact handles_update hgiven hdelivers hdone
    · exact handles_throw _
  exact hrest

/-- What a message of the source makes, when the callback came as far as the filters. -/
theorem updates_eq {message : CachemonEvent} {identity : PathIdentity} {process : String}
    (hidentity : readIdentity s.fold s.sourceUnc message = some identity)
    (hprocess : wideToUtf8 q.image = .ok process) (hactive : q.active = true) :
    q.updates s message =
      if q.paused || ignores s.filters (enriched message identity q.now process) then []
      else [updateOf s (enriched message identity q.now process)] := by
  simp only [Reading.updates, hidentity, hprocess, hactive, Bool.true_and]
  cases q.paused with
  | true => rfl
  | false => cases ignores s.filters (enriched message identity q.now process) <;> rfl

/-- A message that makes nothing. -/
theorem updates_none {message : CachemonEvent}
    (hnone : readIdentity s.fold s.sourceUnc message = none ∨ q.active = false) :
    q.updates s message = [] := by
  unfold Reading.updates
  split
  · rename_i identity process hidentity hprocess
    rcases hnone with hnone | hactive
    · rw [hnone] at hidentity
      cases hidentity
    · simp only [hactive, Bool.false_and, Bool.false_eq_true, if_false]
  · rfl

/-- The reader is done with the message that it took last. -/
theorem rests_message {message : CachemonEvent} (hmessage : q.message = some message)
    (hgiven : q.given = q.updates s message) : Rests s q := by
  refine .inr fun m hm => ?_
  rw [hmessage, Option.mem_some_iff] at hm
  rw [← hm]
  exact hgiven

/-- The callback from the filters on. -/
theorem handles_enriched {message : CachemonEvent} {identity : PathIdentity} {image : WString}
    {process : String} (hidentity : readIdentity s.fold s.sourceUnc message = some identity)
    (now : ℤ) (hprocess : wideToUtf8 image = .ok process) (terminated : Bool) :
    Handles s (if ignores s.filters (enriched message identity now process) then pure ()
      else do
        activityEventMessage (enriched message identity now process)
        lift (recordEvent s.sv (enriched message identity now process)))
      { message := some message, now, image, terminated } := by
  have hupdates : ∀ q : Reading, q.now = now → q.image = image → q.active = true →
      q.updates s message =
        if q.paused || ignores s.filters (enriched message identity now process) then []
        else [updateOf s (enriched message identity now process)] := by
    intro q hnow himage hactive
    rw [← himage] at hprocess
    rw [updates_eq hidentity hprocess hactive, hnow]
  cases hignores : ignores s.filters (enriched message identity now process) with
  | true =>
    refine handles_ret (rests_message rfl ?_)
    rw [hupdates _ rfl rfl rfl, hignores]
    rfl
  | false =>
    refine handles_activityEventMessage ?_
    have hpath : (enriched message identity now process).relativePath ≠ [] := by
      intro hpath
      simp [ignores, hpath] at hignores
    have hdelivers : Delivers s (updateOf s (enriched message identity now process)) message :=
      ⟨identity, now, process, hidentity, hignores, rfl⟩
    -- the scheduler may still drop the event, when it pauses
    refine handles_recordEvent hpath rfl ⟨message, rfl, hdelivers⟩ ?_ ?_
    · refine rests_message rfl ?_
      rw [hupdates _ rfl rfl rfl]
      rfl
    · refine rests_message rfl ?_
      rw [hupdates _ rfl rfl rfl, hignores]
      rfl

theorem handles_onActivity {message : CachemonEvent} {identity : PathIdentity}
    (hidentity : readIdentity s.fold s.sourceUnc message = some identity) (now : ℤ)
    (terminated : Bool) :
    Handles s (onActivity s.sv s.filters (accessEvent message identity now))
      { message := some message, now, terminated } := by
  refine handles_call (a := .inr .loadCachingActive) trivial (fun _ => rfl)
    fun (active : Bool) => ?_
  cases active with
  | false =>
    refine handles_ret (rests_message rfl ?_)
    exact (updates_none (.inr rfl)).symm
  | true =>
    refine handles_withRequestorProcess fun image process hprocess => ?_
    refine handles_shouldIgnore ?_
    exact handles_enriched hidentity now hprocess terminated

theorem handles_handleMessage (message : CachemonEvent) (terminated : Bool) :
    Handles s (handleMessage s message) { message := some message, terminated } := by
  unfold handleMessage
  cases hidentity : readIdentity s.fold s.sourceUnc message with
  | none => exact handles_ret (rests_message rfl (updates_none (.inl hidentity)).symm)
  | some identity =>
    exact handles_call (a := .inl (.memory .now)) trivial (fun _ => rfl) fun (now : ℤ) =>
      handles_onActivity hidentity now terminated

/-- **A pass of the reader** ends at rest. -/
theorem settles_readerLoop (hq : Rests s q) : Settles s (threadPass (readerLoop s)) q := by
  have hexit : Settles s (threadPass (main .exitReader)) q :=
    settles_call (a := .inr .exitReader) trivial (fun _ => rfl) fun _ => Protocol.safe_end hq
  refine settles_call (a := .inr .loadStopRequested) trivial (fun _ => rfl)
    fun (stopRequested : Bool) => ?_
  cases stopRequested with
  | true => exact hexit
  | false =>
    refine settles_call (a := .inl (.inr .getMessage)) trivial (fun _ => rfl)
      fun (message : Option CachemonEvent) => ?_
    cases message with
    | some message => exact handles_handleMessage message q.terminated
    | none =>
      refine settles_call (a := .inr .loadStopRequested) trivial (fun _ => rfl)
        fun (stopRequested : Bool) => ?_
      cases stopRequested with
      | true => exact hexit
      | false => exact Protocol.safe_end hq

/-! ## Runs of the service -/

theorem reader_answers {w w' : MainWorld V} {a : mainCalls.Act}
    {r : Except String (mainCalls.Resp a)} (hx : mainExec s w a r w') : (reader s).answers a r := by
  rcases a with a | a
  · trivial
  · cases a with
    | terminate =>
      cases r with
      | ok v => trivial
      | error e => exact hx.2.elim
    | _ => trivial

theorem settles_body {o : HostOperation} (hm : mainMenu .reader c o = true) (hq : Rests s q) :
    Settles s (body s o) q := by
  cases o with
  | readerPass => exact settles_readerLoop hq
  | control | workerPass => cases hm

theorem settles_begin {x : HostWorld V} :
    Settles s ((launched s.filters x).prog .reader) (reader s).rest := by
  refine Protocol.safe_end (.inr fun message hm => ?_)
  cases hm

theorem localState_reader : (reader s).localState .reader h = reading h := by
  induction h with
  | nil => rfl
  | cons x h ih =>
    obtain ⟨w, l⟩ := x
    cases l with
    | call t o | env => exact ih
    | act t a r =>
      by_cases ht : t = .reader
      · subst ht
        rw [Protocol.localState_self, ih]
        rfl
      · rw [Protocol.localState_ne ht, ih]
        cases t with
        | reader => exact absurd rfl ht
        | serviceMain | controls | worker => rfl

variable {x : HostWorld V}

theorem rests_of_run (hrun : Run (serviceProcess s) (launched s.filters x) h c)
    (hd : (c.prog .reader).Done) : Rests s (reading h) := by
  have hsafe := Protocol.safe_of_run reader_answers settles_body settles_begin hrun
  obtain ⟨-, hrests⟩ := hsafe.done hd
  rwa [localState_reader] at hrests

/-- The reader gives an update only of its last message, and one only. -/
theorem allowed_of_run (hrun : Run (serviceProcess s) (launched s.filters x) h c) :
    Meets ((reader s).Allowed .reader) h :=
  Protocol.allowed_of_run reader_answers settles_body settles_begin hrun

/-- A step that takes no message and makes no update. -/
structure Stays (h : MainHistory V) (w : MainWorld V) (l : MainEvent) : Prop where
  takes : takes l = none
  message : (reading ((w, l) :: h)).message = (reading h).message
  reading : (reading ((w, l) :: h)).given = (reading h).given
  given : given ((w, l) :: h) = given h

/-- **What a step is to the reader's work**: it takes a message, makes an update, ends the
process, or changes nothing of this. -/
theorem step_cases (h : MainHistory V) (w : MainWorld V) (l : MainEvent) :
    (∃ message, l = .act .reader (.inl (.inr .getMessage)) (.ok (some message))) ∨
    (∃ u r, l = .act .reader (.inl (.inl (.update u))) r) ∨
    Stays h w l ∧ ((∃ r, l = .act .reader (.inr .terminate) r) ∨
      (reading ((w, l) :: h)).terminated = (reading h).terminated) := by
  have hsame : ∀ {q : Prop}, Stays h w l → q → Stays h w l ∧
      ((∃ r, l = .act .reader (.inr .terminate) r) ∨ q) := fun hstays hq => ⟨hstays, .inr hq⟩
  cases l with
  | call t o | env => exact .inr (.inr (hsame ⟨rfl, rfl, rfl, rfl⟩ rfl))
  | act t a r =>
    cases t with
    | serviceMain | controls | worker => exact .inr (.inr (hsame ⟨rfl, rfl, rfl, rfl⟩ rfl))
    | reader =>
      rcases a with (a | a) | a
      · cases a with
        | update u => exact .inr (.inl ⟨u, r, rfl⟩)
        | memory m =>
          cases m with
          | now | loadPaused => cases r <;> exact .inr (.inr (hsame ⟨rfl, rfl, rfl, rfl⟩ rfl))
          | _ => exact .inr (.inr (hsame ⟨rfl, rfl, rfl, rfl⟩ rfl))
        | _ => exact .inr (.inr (hsame ⟨rfl, rfl, rfl, rfl⟩ rfl))
      · cases a with
        | getMessage =>
          cases r with
          | error e => exact .inr (.inr (hsame ⟨rfl, rfl, rfl, rfl⟩ rfl))
          | ok message =>
            change Option CachemonEvent at message
            cases message with
            | none => exact .inr (.inr (hsame ⟨rfl, rfl, rfl, rfl⟩ rfl))
            | some message => exact .inl ⟨message, rfl⟩
        | loadCachingActive | processImage =>
          cases r <;> exact .inr (.inr (hsame ⟨rfl, rfl, rfl, rfl⟩ rfl))
        | _ => exact .inr (.inr (hsame ⟨rfl, rfl, rfl, rfl⟩ rfl))
      · cases a with
        | terminate => cases r <;> exact .inr (.inr ⟨⟨rfl, rfl, rfl, rfl⟩, .inl ⟨_, rfl⟩⟩)
        | _ => exact .inr (.inr (hsame ⟨rfl, rfl, rfl, rfl⟩ rfl))

/-- Once the reader has ended the process, nothing runs. -/
theorem terminated_of_run (hrun : Run (serviceProcess s) (launched s.filters x) h c) :
    (reading h).terminated = true → c.world.terminated = true := by
  induction hrun with
  | init => exact fun ht => by cases ht
  | @step h c c' l hrun hs ih =>
    cases hs with
    | call => exact ih
    | env he =>
      obtain ⟨host, -, rfl⟩ := he
      exact ih
    | @act t a k r w' hk hx =>
      -- no call is made in a process that has terminated
      have hrunning : c.world.terminated = false := by
        rcases a with a | a
        · exact hx.1
        · exact hx.1
      have hbefore : (reading h).terminated = false :=
        Bool.eq_false_iff.2 fun ht => by rw [ih ht] at hrunning; cases hrunning
      intro ht
      rcases step_cases h c.world (.act t a r) with
        ⟨message, hl⟩ | ⟨u, r', hl⟩ | ⟨-, ⟨r', hl⟩ | hsame⟩
      · cases hl
        exact absurd ht (Bool.eq_false_iff.1 hbefore)
      · cases hl
        exact absurd ht (Bool.eq_false_iff.1 hbefore)
      · cases hl
        cases r' with
        | error e => exact hx.2.elim
        | ok v =>
          obtain rfl : w' = { c.world with terminated := true } := hx.2
          rfl
      · rw [hsame, hbefore] at ht
        cases ht

/-! ## What was given, and what was taken -/

theorem taken_cons {l : MainEvent} (hl : takes l = none) :
    clientPort.taken ((w, l) :: h) = clientPort.taken h := by
  have hnone : clientPort.takes l = none := hl
  rw [Link.taken, hnone]
  exact List.append_nil _

/-- The updates belong to messages that were taken: while the reader has made none of its last
message, to the earlier ones. -/
structure Kept (s : Hosting V) (h : MainHistory V) : Prop where
  last : (reading h).message = (clientPort.taken h).getLast?
  given : ∃ kept, List.Forall₂ (Delivers s) (given h) kept ∧ kept.Sublist
    (if (reading h).given = [] then (clientPort.taken h).dropLast else clientPort.taken h)

theorem Kept.same {l : MainEvent} (hk : Kept s h) (hl : Stays h w l) : Kept s ((w, l) :: h) := by
  have htaken : clientPort.taken ((w, l) :: h) = clientPort.taken h := taken_cons hl.takes
  refine ⟨?_, ?_⟩
  · rw [hl.message, htaken]
    exact hk.last
  · rw [hl.given, hl.reading, htaken]
    exact hk.given

/-- A message is taken. -/
theorem Kept.take {message : CachemonEvent} (hk : Kept s h) :
    Kept s ((w, .act .reader (.inl (.inr .getMessage)) (.ok (some message))) :: h) := by
  obtain ⟨kept, hgiven, hkept⟩ := hk.given
  have htaken : clientPort.taken
      ((w, .act .reader (.inl (.inr .getMessage)) (.ok (some message))) :: h) =
        clientPort.taken h ++ [message] := rfl
  refine ⟨?_, kept, hgiven, ?_⟩
  · rw [htaken, List.getLast?_concat]
    rfl
  · rw [htaken, List.dropLast_concat]
    refine hkept.trans ?_
    split
    · exact List.dropLast_sublist _
    · exact List.Sublist.refl _

/-- An update is made, of the last message. -/
theorem Kept.update {u : Update} {r : Except String Unit} (hk : Kept s h)
    (hfirst : (reading h).given = [])
    (hdelivers : ∃ message ∈ (reading h).message, Delivers s u message) :
    Kept s ((w, .act .reader (.inl (.inl (.update u))) r) :: h) := by
  obtain ⟨kept, hgiven, hkept⟩ := hk.given
  obtain ⟨message, hmessage, hu⟩ := hdelivers
  have htaken : clientPort.taken ((w, .act .reader (.inl (.inl (.update u))) r) :: h) =
      clientPort.taken h := taken_cons rfl
  -- the updates made so far belong to the messages before this one
  have hlast : (clientPort.taken h).dropLast ++ [message] = clientPort.taken h := by
    have hgetLast : (clientPort.taken h).getLast? = some message := by
      rw [← hk.last]
      exact hmessage
    exact List.dropLast_append_getLast? message hgetLast
  rw [if_pos hfirst] at hkept
  refine ⟨?_, kept ++ [message], ?_, ?_⟩
  · rw [htaken]
    exact hk.last
  · exact List.rel_append hgiven (.cons hu .nil)
  · have hmade : (reading ((w, .act .reader (.inl (.inl (.update u))) r) :: h)).given ≠ [] :=
      List.cons_ne_nil _ _
    rw [if_neg hmade, htaken, ← hlast]
    exact hkept.append (List.Sublist.refl _)

theorem Kept.step {l : MainEvent} (hk : Kept s h) (ha : (reader s).Allowed .reader h w l) :
    Kept s ((w, l) :: h) := by
  rcases step_cases h w l with ⟨message, rfl⟩ | ⟨u, r, rfl⟩ | ⟨hstays, -⟩
  · exact hk.take
  · have hallowed := ha _ _ rfl
    rw [localState_reader] at hallowed
    exact hk.update hallowed.1 hallowed.2
  · exact hk.same hstays

theorem kept_of_run (hrun : Run (serviceProcess s) (launched s.filters x) h c) : Kept s h := by
  have hallowed : Meets ((reader s).Allowed .reader) h := allowed_of_run hrun
  induction hrun with
  | init => exact ⟨rfl, [], .nil, List.nil_sublist _⟩
  | step _ _ ih => exact (ih hallowed.2).step hallowed.1

/-! ## Runs of both -/

/-- A callback that a thread is in was entered. -/
theorem mem_of_lastCall {h : PortHistory} {t : ThreadId} {o : PortOperation}
    (hcall : lastCall t h = some o) : ∃ w u, (w, .call t (u, o)) ∈ h := by
  induction h with
  | nil => cases hcall
  | cons x h ih =>
    obtain ⟨w, l⟩ := x
    cases l with
    | act u a r =>
      obtain ⟨w', u', hmem⟩ := ih hcall
      exact ⟨w', u', List.mem_cons_of_mem _ hmem⟩
    | env =>
      obtain ⟨w', u', hmem⟩ := ih hcall
      exact ⟨w', u', List.mem_cons_of_mem _ hmem⟩
    | call u o' =>
      by_cases hu : u = t
      · subst hu
        have ho : some o'.2 = some o := (if_pos rfl).symm.trans hcall
        cases ho
        exact ⟨w, o'.1, List.mem_cons_self⟩
      · obtain ⟨w', u', hmem⟩ := ih ((if_neg hu).symm.trans hcall)
        exact ⟨w', u', List.mem_cons_of_mem _ hmem⟩

theorem originates_of_run {h : PortHistory} {c : PortState} (hrun : PortRun h c)
    {message : CachemonEvent} (hm : message ∈ clientPort.sent h) : Originates h message := by
  obtain ⟨h', w, l, hsuffix, hsends⟩ := clientPort.mem_sent hm
  have hown : SendsOwn h' w l := (meets_sendsOwn hrun).at hsuffix
  have hl : ∃ t r, l = .act t (.sendMessage message) r := by
    cases l with
    | act t a r =>
      cases a with
      | sendMessage event =>
        cases hsends
        exact ⟨t, r, rfl⟩
      | _ => cases hsends
    | call t o | env => cases hsends
  obtain ⟨t, r, rfl⟩ := hl
  obtain ⟨o, data, kind, hcall, hreports, hsent⟩ := hown t message r rfl
  obtain ⟨w', u, hmem⟩ := mem_of_lastCall hcall
  have hmem : (w', .call t (u, o)) ∈ h :=
    hsuffix.mem (List.mem_cons_of_mem _ hmem)
  exact ⟨w', t, (u, o), data, kind, hmem, hreports, hsent.event, hsent.user.1, hsent.user.2⟩

/-- **Updates are delivered.** In every run of the driver's callbacks and of the service, with
messages lost at any time: what the reader has taken and what waits in the port was sent, in
this order; every message is the event of a user request that entered a callback, of the kind
that it reports; the updates of the index that the reader makes are those of messages that it
took, in their order and each at most once, and no filter ignores their paths; and between two
passes the reader has made exactly the updates of the last message, unless its exception has
ended the process. -/
theorem updates_delivered {x : HostWorld V} {h₁ : PortHistory} {h₂ : MainHistory V}
    {c : DeliveryState V} (hrun : DeliveryRun s x h₁ h₂ c) :
    (clientPort.taken h₂ ++ c.queue).Sublist (clientPort.sent h₁) ∧
      (∀ message ∈ clientPort.sent h₁, Originates h₁ message) ∧
      (∃ kept, kept.Sublist (clientPort.taken h₂) ∧
        List.Forall₂ (Delivers s) (given h₂) kept) ∧
      ((c.right.prog .reader).Done → c.right.world.terminated = false →
        (reading h₂).Settled s) := by
  refine ⟨hrun.fifo rfl, fun message hm => originates_of_run hrun.left hm, ?_, fun hd hrunning => ?_⟩
  · obtain ⟨kept, hgiven, hkept⟩ := (kept_of_run hrun.right).given
    refine ⟨kept, hkept.trans ?_, hgiven⟩
    split
    · exact List.dropLast_sublist _
    · exact List.Sublist.refl _
  · rcases rests_of_run hrun.right hd with hterminated | hsettled
    · rw [terminated_of_run hrun.right hterminated] at hrunning
      cases hrunning
    · exact hsettled

/-- A service whose source is a share. -/
def shareHosting : Hosting Disk := { diskHosting with sourceUnc := wide "\\\\nas\\a" }

/-- A process reads a file of the share. -/
def shareRead : Request := { requestorPid := 7, name := wide "\\Device\\Mup\\nas\\a\\b" }

/-- The service starts, and the reader takes a message. -/
def firstMessage : List (Move HostParty HostOperation ℤ) :=
  hostSteps .serviceMain 27 ++ .call .reader .readerPass :: hostSteps .reader 8

/-- The read is sent, taken and recorded. -/
theorem updates_delivered_read : ∃ h₁ h₂ c, DeliveryRun shareHosting sourced h₁ h₂ c ∧
    ((given h₂).length = 1 ∧ (c.right.prog .reader).Done ∧ c.right.world.terminated = false) ∧
    (clientPort.taken h₂ ++ c.queue).Sublist (clientPort.sent h₁) ∧
      (∀ message ∈ clientPort.sent h₁, Originates h₁ message) ∧
      (∃ kept, kept.Sublist (clientPort.taken h₂) ∧
        List.Forall₂ (Delivers shareHosting) (given h₂) kept) ∧
      ((c.right.prog .reader).Done → c.right.world.terminated = false →
        (reading h₂).Settled shareHosting) := by
  obtain ⟨h₁, a, hleft, hsent⟩ := exists_portRun
    (portSteps 1 .connect 5 ++ portSteps 2 (.preRead shareRead) 9)
    (fun x => clientPort.sent x.1 = [shareRead.event .readOpen]) (by decide +kernel)
  obtain ⟨h₂, b, hright, htaken, hends⟩ :
      ∃ h c, Run (serviceProcess shareHosting) (launched noFilters sourced) h c ∧
        clientPort.taken h = [shareRead.event .readOpen] ∧ (given h).length = 1 ∧
        (c.prog .reader).Done ∧ c.world.terminated = false :=
    (deliveryPlayer (shareRead.event .readOpen) shareHosting rfl).exists_run firstMessage
      (fun x => clientPort.taken x.1 = [shareRead.event .readOpen] ∧ (given x.1).length = 1 ∧
        (x.2.prog .reader).Done ∧ x.2.world.terminated = false) (by decide +kernel)
  have hqueue : clientPort.sent h₁ = clientPort.taken h₂ ++ [] := by
    rw [hsent, htaken, List.append_nil]
  have hrun : DeliveryRun shareHosting sourced h₁ h₂ ⟨a, b, []⟩ :=
    linkRun_of_runs rfl hleft hright hqueue
  exact ⟨h₁, h₂, ⟨a, b, []⟩, hrun, hends, updates_delivered hrun⟩

end SsdCache.Delivery
