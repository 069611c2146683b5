import SsdCache.Proof.Index
import SsdCache.Proof.Passes
import SsdCache.Spec.HostReplay

/-!
# Exceptions that end the process

`worker_loop` and `reader_loop` are the bodies of threads: an exception that leaves one of
them ends the process. Which passes throw, whatever the calls answer:

* a pass of the worker, when the popped path is no text, when the lookup of its job throws,
  or when `record_error` throws in the handler (`worker_fails_iff`): the `try` block covers
  only the batch;
* a pass of the reader, when any call throws, or when it converts an image or a path that is
  no text (`reader_fails_iff`): there is no handler.

`threads_survive_iff` says this of the loops, `exception_escapes` gives two passes that
throw.
-/

namespace SsdCache

open Atomic

variable {V W : Type} {sv : Service V}

/-! ## The worker -/

/-- What fails outside the `try` block: the conversion of the popped path and the lookup of
its job. -/
def Fatal : Answered → Prop
  | ⟨.memory .popDue, .ok next⟩ =>
    ∃ e ∈ (show Option HeapEntry from next), wellFormed e.relativePath = false
  | ⟨.query (.pendingJob _), .error _⟩ => True
  | _ => False

/-- A pass of `worker_loop` that throws: outside the `try` block, or in its handler, which
calls the index right after the call that threw. -/
def WorkerFails (tr : List Answered) : Prop :=
  (∃ x ∈ tr, Fatal x) ∨ ∃ x y, [x, y] <:+: tr ∧ Threw x ∧ Threw y

theorem workerFails_cons {x : Answered} {tr : List Answered} (hx : ¬ Fatal x) (hr : ¬ Threw x) :
    WorkerFails (x :: tr) ↔ WorkerFails tr := by
  unfold WorkerFails
  have hconsecutive : (∃ y z, [y, z] <:+: x :: tr ∧ Threw y ∧ Threw z) ↔
      ∃ y z, [y, z] <:+: tr ∧ Threw y ∧ Threw z := by
    constructor
    · rintro ⟨y, z, hyz, hy, hz⟩
      rcases List.infix_cons_iff.1 hyz with hpre | hin
      · -- the first call threw
        rw [List.cons_prefix_cons] at hpre
        exact absurd (hpre.1 ▸ hy) hr
      · exact ⟨y, z, hin, hy, hz⟩
    · rintro ⟨y, z, hyz, hy, hz⟩
      exact ⟨y, z, hyz.trans (List.infix_cons_iff.2 (.inr (List.infix_refl tr))), hy, hz⟩
  rw [List.exists_mem_cons_iff, hconsecutive]
  simp only [hx, false_or]

/-- Calls that went well before, and are not the lookup. -/
theorem workerFails_append {tr tr' : List Answered} (htr : ∀ x ∈ tr, ¬ Fatal x ∧ ¬ Threw x) :
    WorkerFails (tr ++ tr') ↔ WorkerFails tr' := by
  induction tr with
  | nil => rfl
  | cons x tr ih =>
    have hx := htr x List.mem_cons_self
    rw [List.cons_append, workerFails_cons hx.1 hx.2]
    exact ih fun y hy => htr y (List.mem_cons_of_mem x hy)

theorem not_workerFails_nil : ¬ WorkerFails [] := by
  rintro (⟨x, hx, -⟩ | ⟨x, y, hxy, -⟩)
  · cases hx
  · exact absurd hxy.length_le (by simp)

/-- The last two calls of a pass. -/
theorem workerFails_pair {x y : Answered} (hx : ¬ Fatal x) (hy : ¬ Fatal y) (hr : Threw x) :
    WorkerFails [x, y] ↔ Threw y := by
  constructor
  · rintro (⟨z, hz, hf⟩ | ⟨x', y', hxy, -, hy'⟩)
    · simp only [List.mem_cons, List.not_mem_nil, or_false] at hz
      rcases hz with rfl | rfl
      · exact absurd hf hx
      · exact absurd hf hy
    · obtain ⟨rfl, rfl⟩ : x' = x ∧ y' = y := by
        simpa using hxy.eq_of_length rfl
      exact hy'
  · exact fun hy => .inr ⟨x, y, List.infix_refl _, hr, hy⟩

theorem Call.ByTry.not_fatal {x : Answered} (hx : x.1.ByTry) : ¬ Fatal x := by
  obtain ⟨a, r⟩ := x
  cases a with
  | memory m => cases m <;> simp_all [Call.ByTry, Call.ByBatch, Fatal]
  | query q => cases q <;> simp_all [Call.ByTry, Call.ByBatch, Fatal]
  | _ => exact id

/-- A call that went well decides nothing. -/
theorem fails_of_rest {P : Prop} {a : Call} {v : a.Answer} {tr : List Answered}
    (ha : ¬ Fatal ⟨a, .ok v⟩) (h : P ↔ WorkerFails tr) : P ↔ WorkerFails (⟨a, .ok v⟩ :: tr) :=
  h.trans (workerFails_cons ha not_threw_ok).symm

section Passes

variable {exec : W → (a : Call) → Except String a.Answer → W → Prop} {w w' : W}
variable {tr : List Answered} {r : Except String Unit}

/-- What a pass throws after the conversion of the popped path. -/
theorem entry_fails_iff {e : HeapEntry} (h : EntryRun exec sv e w tr r w') :
    (∃ error, r = .error error) ↔ WorkerFails tr := by
  -- the batch neither looks up the popped job nor pops
  have hcalls : ∀ {v m r} {tr : List Answered},
      (batchBody sv).Traces (S := calls) exec v tr r m → ∀ x ∈ tr, ¬ Fatal x :=
    fun hb x hx => Call.ByTry.not_fatal ((batchBody_only sv).traces hb x hx)
  cases h with
  | putBack hpaused hpush =>
    -- neither the look at the pause nor the push is fatal
    refine fails_of_rest id (fails_of_rest id ?_)
    exact iff_of_false nofun not_workerFails_nil
  | lookupThrew hpaused hlookup =>
    refine fails_of_rest id ?_
    exact iff_of_true ⟨_, rfl⟩ (.inl ⟨_, List.mem_cons_self, trivial⟩)
  | skipped hpaused hlookup hdue =>
    refine fails_of_rest id (fails_of_rest id ?_)
    exact iff_of_false nofun not_workerFails_nil
  | @ran _ _ _ job tr hpaused hlookup hdue hbatch =>
    refine fails_of_rest id (fails_of_rest id ?_)
    rcases batchBody_traces hbatch with ⟨-, hreturned⟩ | ⟨⟨e, he⟩, -⟩
    · have hall : ∀ x ∈ tr, ¬ Fatal x ∧ ¬ Threw x :=
        fun x hx => ⟨hcalls hbatch x hx, hreturned x hx⟩
      rw [← List.append_nil tr, workerFails_append hall]
      exact iff_of_false nofun not_workerFails_nil
    · cases he
  | @threw _ _ _ _ job tr error r hpaused hlookup hdue hbatch hrecord =>
    refine fails_of_rest id (fails_of_rest id ?_)
    rcases batchBody_traces hbatch with ⟨he, -⟩ | ⟨-, tr₀, y, hsplit, hy, hreturned⟩
    · cases he
    · -- the batch threw in its last call, and the handler is next
      change tr = tr₀ ++ [y] at hsplit
      subst hsplit
      have hall : ∀ x ∈ tr₀, ¬ Fatal x ∧ ¬ Threw x := fun x hx =>
        ⟨hcalls hbatch x (List.mem_append_left _ hx), hreturned x hx⟩
      have hlast : y ∈ tr₀ ++ [y] := List.mem_append_right _ (List.mem_singleton_self y)
      have hfatal : ¬ Fatal y := hcalls hbatch y hlast
      rw [List.append_assoc, workerFails_append hall, List.singleton_append]
      have hhandler : ¬ Fatal ⟨.update (.recordError e.relativePath error), r⟩ := id
      exact (workerFails_pair hfatal hhandler hy).symm

/-- **One pass of `worker_loop`.** -/
theorem worker_fails_iff (hmemory : MemoryReturns exec)
    (h : (workerBody sv).Traces (S := calls) exec w tr r w') :
    (∃ e, r = .error e) ↔ WorkerFails tr := by
  rw [workerBody_eq] at h
  cases passWith_traces hmemory h with
  | stopped hstop hexit =>
    refine fails_of_rest id (fails_of_rest id ?_)
    exact iff_of_false nofun not_workerFails_nil
  | paused hstop hpaused =>
    refine fails_of_rest id (fails_of_rest id ?_)
    exact iff_of_false nofun not_workerFails_nil
  | waits hstop hpaused hpop =>
    refine fails_of_rest id (fails_of_rest id (fails_of_rest ?_ ?_))
    · rintro ⟨e, he, -⟩
      cases he
    · exact iff_of_false nofun not_workerFails_nil
  | @popped _ _ _ _ e tr _ hstop hpaused hpop h =>
    refine fails_of_rest id (fails_of_rest id ?_)
    cases hwf : wellFormed e.relativePath with
    | true =>
      refine fails_of_rest ?_ ?_
      · rintro ⟨e', he', hill⟩
        cases he'
        cases hwf.symm.trans hill
      · simp only [narrowPath, hwf, if_true] at h
        exact entry_fails_iff (runEntry_traces hmemory h)
    | false =>
      -- the conversion of the popped path throws outside the handler
      simp only [narrowPath, hwf] at h
      obtain ⟨rfl, rfl, -⟩ := h
      exact iff_of_true ⟨_, rfl⟩ (.inl ⟨_, List.mem_cons_self, e, rfl, hwf⟩)

/-! ## The reader -/

/-- A call of the service process and its answer. -/
abbrev HostAnswered : Type := hostCalls.Answered String

/-- The message of the driver that a call got. -/
def messageOf : HostAnswered → Option CachemonEvent
  | ⟨.inr .getMessage, .ok message⟩ => message
  | _ => none

/-- The image path of the requestor that a call got. -/
def imageOf : HostAnswered → Option WString
  | ⟨.inr (.processImage _), .ok image⟩ => some image
  | _ => none

/-- A pass of `reader_loop` that throws: a call threw, or the image of the requestor or the
path of the event is no UTF-16 text. -/
def ReaderFails (fold : CaseFold) (sourceUnc : WString) (tr : List HostAnswered) : Prop :=
  (∃ x ∈ tr, ∃ e, x.2 = .error e) ∨
    ∃ message ∈ tr.filterMap messageOf, ∃ image ∈ tr.filterMap imageOf,
      ∃ identity ∈ readIdentity fold sourceUnc message,
        wellFormed image = false ∨ wellFormed identity.relativePath = false

/-- `record_event` throws what its calls throw, if the path is text. -/
theorem recordEvent_rethrows {event : AccessEvent} (hp : wellFormed event.relativePath = true) :
    (recordEvent sv event).Rethrows := by
  unfold recordEvent
  split
  · trivial
  · refine (Prog.rethrows_perform _).bind fun (paused : Bool) => ?_
    simp only [narrowPath, hp, if_true]
    refine Prog.Rethrows.bind (c := .ret ()) trivial fun _ => ?_
    split
    · trivial
    · split
      · exact Prog.rethrows_perform _
      · refine (Prog.rethrows_perform _).bind fun _ => ?_
        split
        · exact Prog.rethrows_perform _
        · trivial

/-- Calls of the scheduler bring nothing that a call of the host brings. -/
theorem filterMap_left {β : Type} {f : HostAnswered → Option β} {tr : List HostAnswered}
    (hf : ∀ a r, f ⟨.inl a, r⟩ = none) (htr : ∀ x ∈ tr, ∃ a, x.1 = .inl a) :
    tr.filterMap f = [] := by
  refine List.filterMap_eq_nil_iff.2 fun x hx => ?_
  obtain ⟨a, ha⟩ := htr x hx
  obtain ⟨_, r⟩ := x
  cases ha
  exact hf a r

variable {fold : CaseFold} {sourceUnc : WString} {rest : List HostAnswered}

theorem readerFails_threw {a : hostCalls.Act} {e : String} :
    ReaderFails fold sourceUnc (⟨a, .error e⟩ :: rest) :=
  .inl ⟨_, List.mem_cons_self, e, rfl⟩

theorem ReaderFails.cons {x : HostAnswered} (h : ReaderFails fold sourceUnc rest) :
    ReaderFails fold sourceUnc (x :: rest) := by
  have hsub : List.Sublist rest (x :: rest) := List.sublist_cons_self x rest
  rcases h with ⟨y, hy, he⟩ | ⟨message, hm, image, hi, hill⟩
  · exact .inl ⟨y, hsub.subset hy, he⟩
  · exact .inr ⟨message, (hsub.filterMap messageOf).subset hm, image,
      (hsub.filterMap imageOf).subset hi, hill⟩

theorem host_returned {a : hostCalls.Act} {v : hostCalls.Resp a} :
    ¬ ∃ e, (⟨a, .ok v⟩ : HostAnswered).2 = .error e := by
  rintro ⟨e, he⟩
  cases he

/-- A pass that ends before it has asked for the image. -/
theorem not_readerFails (himage : rest.filterMap imageOf = [])
    (hreturned : ∀ x ∈ rest, ¬ ∃ e, x.2 = .error e) : ¬ ReaderFails fold sourceUnc rest := by
  rintro (⟨x, hx, he⟩ | ⟨message, -, image, hi, -⟩)
  · exact hreturned x hx he
  · rw [himage] at hi
    cases hi

/-- The calls of a pass that got a message and the image of its requestor. -/
abbrev asked (message : CachemonEvent) (now : ℤ) (pid : UInt64) (image : WString)
    (rest : List HostAnswered) : List HostAnswered :=
  ⟨.inr .getMessage, .ok (some message)⟩ :: ⟨.inl (.memory .now), .ok now⟩ ::
    ⟨.inr .loadCachingActive, .ok true⟩ :: ⟨.inr (.processImage pid), .ok image⟩ :: rest

theorem readerFails_iff {message : CachemonEvent} {image : WString} {now : ℤ} {pid : UInt64}
    (hrest : ∀ x ∈ rest, ∃ a, x.1 = .inl a) :
    ReaderFails fold sourceUnc (asked message now pid image rest) ↔
      (∃ x ∈ rest, ∃ e, x.2 = .error e) ∨ ∃ identity ∈ readIdentity fold sourceUnc message,
        wellFormed image = false ∨ wellFormed identity.relativePath = false := by
  have hnomessage : rest.filterMap messageOf = [] := filterMap_left (fun _ _ => rfl) hrest
  have hnoimage : rest.filterMap imageOf = [] := filterMap_left (fun _ _ => rfl) hrest
  have hmessages : (asked message now pid image rest).filterMap messageOf = [message] :=
    congrArg (message :: ·) hnomessage
  have himages : (asked message now pid image rest).filterMap imageOf = [image] :=
    congrArg (image :: ·) hnoimage
  constructor
  · rintro (⟨x, hx, he⟩ | ⟨m, hm, i, hi, hill⟩)
    · refine .inl ⟨x, ?_, he⟩
      -- the first four calls returned
      rcases List.mem_cons.1 hx with rfl | hx
      · exact absurd he host_returned
      rcases List.mem_cons.1 hx with rfl | hx
      · exact absurd he host_returned
      rcases List.mem_cons.1 hx with rfl | hx
      · exact absurd he host_returned
      rcases List.mem_cons.1 hx with rfl | hx
      · exact absurd he host_returned
      exact hx
    · rw [hmessages, List.mem_singleton] at hm
      rw [himages, List.mem_singleton] at hi
      subst hm hi
      exact .inr hill
  · rintro (⟨x, hx, he⟩ | hill)
    · exact .inl ⟨x, by simp only [asked, List.mem_cons, hx, or_true], he⟩
    · refine .inr ⟨message, ?_, image, ?_, hill⟩
      · rw [hmessages]; exact List.mem_singleton_self message
      · rw [himages]; exact List.mem_singleton_self image

variable {host : W → (a : hostCalls.Act) → Except String (hostCalls.Resp a) → W → Prop}
variable {filters : Filters}

/-- The image of the requestor, and its conversion. -/
theorem withRequestorProcess_traces {event : AccessEvent} {tr : List HostAnswered}
    {x : Except String AccessEvent}
    (h : (withRequestorProcess event).Traces host w tr x w') :
    (∃ e, x = .error e ∧ tr = [⟨.inr (.processImage event.requestorPid), .error e⟩]) ∨
    ∃ image, tr = [⟨.inr (.processImage event.requestorPid), .ok image⟩] ∧
      ((wellFormed image = false ∧ ∃ e, x = .error e) ∨
        (wellFormed image = true ∧
          ∃ process, x = .ok { event with requestorProcess := process })) := by
  rcases Prog.traces_perform_bind h with ⟨e, rfl, rfl, -⟩ | ⟨image, u, rest, rfl, -, h⟩
  · exact .inl ⟨e, rfl, rfl⟩
  refine .inr ⟨image, ?_⟩
  cases hwf : wellFormed image with
  | false =>
    simp only [converted, wideToUtf8, hwf] at h
    obtain ⟨rfl, rfl, -⟩ := h
    exact ⟨rfl, .inl ⟨rfl, _, rfl⟩⟩
  | true =>
    simp only [converted, wideToUtf8, hwf] at h
    obtain ⟨rfl, rfl, -⟩ := h
    exact ⟨rfl, .inr ⟨rfl, _, rfl⟩⟩

/-- The log line of an event throws if its path is no text. -/
theorem activityEventMessage_eq (event : AccessEvent) :
    (wellFormed event.relativePath = true ∧ activityEventMessage event = .ret ()) ∨
      (wellFormed event.relativePath = false ∧ ∃ e, activityEventMessage event = .throw e) := by
  cases hwf : wellFormed event.relativePath with
  | true =>
    refine .inl ⟨rfl, ?_⟩
    simp only [activityEventMessage, converted, wideToUtf8, hwf]
    rfl
  | false =>
    refine .inr ⟨rfl, "failed to convert UTF-16 to UTF-8", ?_⟩
    simp only [activityEventMessage, converted, wideToUtf8, hwf]
    rfl

/-- An event whose requestor is known is ignored or recorded, and logged in any case. -/
theorem judged_traces {event : AccessEvent} {tr : List HostAnswered}
    (h : ((shouldIgnoreActivityEvent filters event).bind fun ignored =>
      if ignored then .ret () else
        (activityEventMessage event).bind fun _ => lift (recordEvent sv event)).Traces
      host w tr r w') :
    (∀ x ∈ tr, ∃ a, x.1 = .inl a) ∧ ((∃ e, r = .error e) ↔
      (∃ x ∈ tr, ∃ e, x.2 = .error e) ∨ wellFormed event.relativePath = false) := by
  unfold shouldIgnoreActivityEvent at h
  rcases activityEventMessage_eq event with ⟨hwf, hmessage⟩ | ⟨hwf, e, hmessage⟩
  · rw [hmessage] at h
    split at h
    · obtain ⟨rfl, rfl, -⟩ := h
      exact ⟨by simp, by simp [hwf]⟩
    · -- the scheduler gets the event
      have hrest : ∀ x ∈ tr, ∃ a, x.1 = Sum.inl a := by
        have hleft : (lift (recordEvent sv event)).Only fun a => ∃ b, a = Sum.inl b :=
          Prog.Only.left (fun {a} _ => ⟨a, rfl⟩)
            ((recordEvent sv event).only_of_forall fun _ => trivial)
        exact hleft.traces h
      have hrethrows : (recordEvent sv event).Rethrows := recordEvent_rethrows hwf
      refine ⟨hrest, (hrethrows.left.traces h).trans ?_⟩
      simp only [hwf, Bool.true_eq_false, or_false]
      rfl
  · rw [hmessage] at h
    have hthrow : r = .error e ∧ tr = [] := by
      split at h
      · exact ⟨h.2.1, h.1⟩
      · exact ⟨h.2.1, h.1⟩
    obtain ⟨rfl, rfl⟩ := hthrow
    exact ⟨by simp, by simp [hwf]⟩

/-- **One pass of `reader_loop`.** -/
theorem reader_fails_iff {tr : List HostAnswered}
    (h : (readerIteration sv filters fold sourceUnc).Traces host w tr r w') :
    (∃ e, r = .error e) ↔ ReaderFails fold sourceUnc tr := by
  rcases Prog.traces_perform_bind h with ⟨e, rfl, rfl, -⟩ | ⟨message, u, rest, rfl, -, h⟩
  · exact iff_of_true ⟨e, rfl⟩ readerFails_threw
  cases (message : Option CachemonEvent) with
  | none =>
    obtain ⟨rfl, rfl, -⟩ := h
    refine iff_of_false (by simp) (not_readerFails rfl ?_)
    exact List.forall_mem_singleton.2 host_returned
  | some message =>
    dsimp only at h
    cases hid : readIdentity fold sourceUnc message with
    | none =>
      -- a message of another version, or not of the source
      rw [hid] at h
      obtain ⟨rfl, rfl, -⟩ := h
      refine iff_of_false (by simp) (not_readerFails rfl ?_)
      exact List.forall_mem_singleton.2 host_returned
    | some identity =>
      have hnow : lift (memory .now) = Prog.perform (S := hostCalls) (.inl (.memory .now)) :=
        Prog.left_perform _
      simp only [hid] at h
      change ((lift (memory .now)).bind fun (now : ℤ) =>
        onActivity sv filters (accessEvent message identity now)).Traces host u rest r w' at h
      rw [hnow] at h
      rcases Prog.traces_perform_bind h with ⟨e, rfl, rfl, -⟩ | ⟨now, u, rest, rfl, -, h⟩
      · exact iff_of_true ⟨e, rfl⟩ readerFails_threw.cons
      rcases Prog.traces_perform_bind h with ⟨e, rfl, rfl, -⟩ | ⟨active, u, rest, rfl, -, h⟩
      · exact iff_of_true ⟨e, rfl⟩ readerFails_threw.cons.cons
      cases (active : Bool) with
      | false =>
        -- Disabled or Serve: the event is dropped
        obtain ⟨rfl, rfl, -⟩ := h
        refine iff_of_false (by simp) (not_readerFails rfl ?_)
        exact List.forall_mem_cons.2 ⟨host_returned, List.forall_mem_cons.2
          ⟨host_returned, List.forall_mem_singleton.2 host_returned⟩⟩
      | true =>
        -- the event gets the image of its requestor before it is judged
        rcases Prog.traces_bind.1 h with ⟨e, rfl, hprocess⟩ |
          ⟨event, m, tr₁, tr₂, rfl, hprocess, h⟩
        · rcases withRequestorProcess_traces hprocess with ⟨e', -, rfl⟩ |
            ⟨image, rfl, hill | ⟨-, _, hx⟩⟩
          · exact iff_of_true ⟨e, rfl⟩ readerFails_threw.cons.cons.cons
          · refine iff_of_true ⟨e, rfl⟩ ((readerFails_iff (by simp)).2 ?_)
            exact .inr ⟨identity, hid, .inl hill.1⟩
          · cases hx
        · rcases withRequestorProcess_traces hprocess with ⟨e', hx, -⟩ |
            ⟨image, rfl, hill | ⟨hwf, process, hx⟩⟩
          · cases hx
          · obtain ⟨e, hx⟩ := hill.2
            cases hx
          · cases hx
            obtain ⟨hrest, hiff⟩ := judged_traces h
            rw [hiff]
            refine Iff.trans ?_ (readerFails_iff hrest).symm
            simp [hid, hwf, accessEvent]

end Passes

/-! ## Passes that fail, and passes that do not -/

/-- A pass of the worker on one due job, while some queries find the database busy. -/
def busyPass (busy : Query → Bool) : Option (List Answered × Except String Unit × World Disk) :=
  (workerBody (diskService {})).transcript (S := calls) (answerBusy busy) (jobDue [97])

theorem exists_workerPass (busy : Query → Bool)
    (p : List Answered × Except String Unit × World Disk → Prop) [DecidablePred p]
    (hp : (busyPass busy).any (fun x => decide (p x)) = true) :
    ∃ tr r w', (workerBody (diskService {})).Traces (S := calls) (exec (diskService {}))
      (jobDue [97]) tr r w' ∧ p (tr, r, w') := by
  have hact {w : World Disk} {a : Call} {r w'} (h : answerBusy busy w a = some (r, w')) :
      exec (diskService {}) w a r w' := exec_answerBusy rfl h
  obtain ⟨tr, r, w', h, hpx⟩ := Prog.exists_traces (S := calls) hact hp
  exact ⟨tr, r, w', h, of_decide_eq_true hpx⟩

/-- A pass of the reader on an event for `p`, while caching is active. -/
def eventPass (p : WString) : Option (List HostAnswered × Except String Unit × HostWorld Disk) :=
  (readerIteration (diskService {}) noFilters asciiLower (wide "\\\\nas\\share")).transcript
    (serviceAnswer (some { sourceRootId := wide "\\\\nas\\share", relativePath := p }) (wide "a.exe"))
    { service := jobDue [97], cachingActive := true }

theorem exists_readerPass (q : WString)
    (p : List HostAnswered × Except String Unit × HostWorld Disk → Prop) [DecidablePred p]
    (hp : (eventPass q).any (fun x => decide (p x)) = true) :
    ∃ tr r w', (readerIteration (diskService {}) noFilters asciiLower (wide "\\\\nas\\share")).Traces
      (hostExec (diskService {}) noFaults) { service := jobDue [97], cachingActive := true } tr r w' ∧
      p (tr, r, w') := by
  have hact {w : HostWorld Disk} {a : hostCalls.Act} {r w'} {message image}
      (h : serviceAnswer message image w a = some (r, w')) :
      hostExec (diskService {}) noFaults w a r w' := hostExec_serviceAnswer rfl h
  obtain ⟨tr, r, w', h, hpx⟩ := Prog.exists_traces hact hp
  exact ⟨tr, r, w', h, of_decide_eq_true hpx⟩

end SsdCache
