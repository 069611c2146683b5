import SsdCache.Spec.HostReplay

/-!
# Every mode from every mode

Requests of the tray when nothing fails. The machine is in one of three phases, and takes
every request but one.

* `placed_step`, `placed_refused`: one request, from each phase.
* `obeyed_iff_run`: the requests follow the three-phase machine.
* `modes_obeyed_iff`: **every request is obeyed unless Serve is requested under Disabled
  that was entered from Serve**.
-/

namespace SsdCache

open Atomic

variable {V : Type} {sv : Service V} {fold : CaseFold} {w w' : HostWorld V}

/-! ## Evaluating requests -/

/-- The program `c` returns `v` and leaves `w'`. -/
abbrev Returns {α : Type} (c : HostTask α) (w : HostWorld V) (v : α) (w' : HostWorld V) : Prop :=
  c.eval hostAnswer w = some (.ok v, w')

theorem Returns.bind {α β : Type} {c : HostTask α} {f : α → HostTask β} {v : α} {u : β}
    {m : HostWorld V} (hc : Returns c w v m) (hf : Returns (f v) m u w') :
    Returns (c >>= f) w u w' := (Prog.eval_bind hc).trans hf

theorem returns_pure {α : Type} (v : α) : Returns (pure v) w v w := rfl

theorem returns_host {a : HostCall} {v : a.Answer} (h : a.does w = some (.ok v, w')) :
    Returns (host a) w v w' := by
  change ((a.does w).bind _) = _
  rw [h]
  rfl

/-- The configuration file says `m`. -/
def HostWorld.persist (w : HostWorld V) (m : AppMode) : HostWorld V :=
  { w with config := { w.config with mode := some m } }

/-- The live pipeline after `apply_caching_mode`. -/
def HostWorld.applied (w : HostWorld V) (mode : Option AppMode) : HostWorld V :=
  let w := { w with cachingActive := modeEnablesCaching mode }
  if w.published then
    { w with service := { w.service with
      memory := { w.service.memory with paused := !modeEnablesCaching mode } } }
  else w

theorem returns_applyCachingMode (mode : Option AppMode) :
    Returns (applyCachingMode mode) w () (w.applied mode) :=
  .bind (returns_host rfl) (returns_host rfl)

theorem returns_switchMode (m : AppMode) :
    Returns (switchMode w.config m) w .noError ((w.persist m).applied (some m)) :=
  .bind (returns_host rfl) (.bind (returns_applyCachingMode _) (returns_pure _))

theorem returns_modeIsActive {m m' : AppMode} (hm : w.config.mode = some m) :
    Returns (modeIsActive fold m') w (m = m') w := by
  have hcurrent : Returns (currentMode fold) w m w := by
    refine .bind (returns_host rfl) ?_
    rw [hm]
    exact returns_pure m
  exact .bind hcurrent (returns_pure _)

/-- Another mode is active. -/
theorem returns_inactive {m m' : AppMode} (hm : w.config.mode = some m) (hne : m ≠ m') :
    Returns (modeIsActive fold m') w false w := by
  have hactive : Returns (modeIsActive fold m') w (m = m') w := returns_modeIsActive hm
  rwa [decide_eq_false hne] at hactive

theorem returns_persistMode (m : AppMode) : Returns (persistMode m) w () (w.persist m) :=
  .bind (returns_host rfl) (returns_host rfl)

theorem returns_sendMode {m : AppMode} {result : ControlResult}
    (h : Returns (handleControl (.mode m)) w result w') :
    Returns (sendMode m) w (result = .noError) w' :=
  .bind (returns_host rfl) (.bind h (returns_pure _))

/-! ## Layouts -/

/-- The cache volume at the cache letter, the source mapped at the presentation letter. -/
structure MonitorLayout (volume : WString) (w : HostWorld V) : Prop where
  cache : w.drives w.config.cacheLetter = .volume volume
  source : w.drives w.config.sourcePresentationLetter = .network w.config.sourceUnc

/-- The cache volume at the presentation letter, which is not mapped. -/
structure ServeLayout (volume : WString) (w : HostWorld V) : Prop where
  cache : w.drives w.config.cacheLetter = .free
  source : w.drives w.config.sourcePresentationLetter = .volume volume

theorem MonitorLayout.letters_ne {volume : WString} (h : MonitorLayout volume w) :
    w.config.cacheLetter ≠ w.config.sourcePresentationLetter := by
  apply ne_of_apply_ne w.drives
  rw [h.cache, h.source]
  nofun

theorem ServeLayout.letters_ne {volume : WString} (h : ServeLayout volume w) :
    w.config.cacheLetter ≠ w.config.sourcePresentationLetter := by
  apply ne_of_apply_ne w.drives
  rw [h.cache, h.source]
  nofun

/-! ## Requests -/

theorem HostWorld.applied_config (mode : Option AppMode) : (w.applied mode).config = w.config := by
  cases hp : w.published <;> simp [applied, hp]

theorem HostWorld.applied_drives (mode : Option AppMode) : (w.applied mode).drives = w.drives := by
  cases hp : w.published <;> simp [applied, hp]

/-- The mode is persisted and applied, over the drives `drives`. -/
def HostWorld.switched (w : HostWorld V) (m : AppMode) (drives : Drives) : HostWorld V :=
  (({ w with drives } : HostWorld V).persist m).applied (some m)

theorem HostWorld.switched_config (m : AppMode) (drives : Drives) :
    (w.switched m drives).config = { w.config with mode := some m } := applied_config _

theorem HostWorld.switched_drives (m : AppMode) (drives : Drives) :
    (w.switched m drives).drives = drives := applied_drives _

theorem returns_disabledControl :
    Returns (handleControl (.mode .disabled)) w .noError (w.switched .disabled w.drives) :=
  .bind (returns_host rfl) (returns_switchMode _)

/-- A mode control whose move leaves `drives`. -/
theorem returns_monitorControl {drives : Drives}
    (h : Returns (moveCacheToMonitorLetter w.config) w true { w with drives }) :
    Returns (handleControl (.mode .monitor)) w .noError (w.switched .monitor drives) :=
  .bind (returns_host rfl) (.bind h (returns_switchMode (w := { w with drives }) _))

theorem returns_serveControl {drives : Drives}
    (h : Returns (moveCacheToSourceLetter w.config) w true { w with drives }) :
    Returns (handleControl (.mode .serve)) w .noError (w.switched .serve drives) :=
  .bind (returns_host rfl) (.bind h (returns_switchMode (w := { w with drives }) _))

/-! ### Moves of the cache volume -/

variable {letter : Letter} {volume : WString}

theorem returns_volumeName {x : Option WString} (h : (w.drives letter).volumeName = x) :
    Returns (host (.drive (.volumeNameForDrive letter))) w x w :=
  returns_host (by simp only [HostCall.does, MountCall.run, h])

theorem returns_remove (h : w.drives letter = .volume volume) :
    Returns (host (.drive (.removeDriveMount letter))) w true
      { w with drives := Function.update w.drives letter .free } :=
  returns_host (by simp only [HostCall.does, MountCall.run, h]; rfl)

theorem returns_remove_free (h : w.drives letter = .free) :
    Returns (host (.drive (.removeDriveMount letter))) w true w :=
  returns_host (by simp only [HostCall.does, MountCall.run, h]; rfl)

theorem returns_assign (h : w.drives letter = .free) :
    Returns (host (.drive (.assignVolumeToDrive volume letter))) w true
      { w with drives := Function.update w.drives letter (.volume volume) } :=
  returns_host (by simp only [HostCall.does, MountCall.run, h]; rfl)

theorem returns_map {unc : WString} (h : w.drives letter = .free) :
    Returns (host (.drive (.mapNetworkDrive letter unc))) w true
      { w with drives := Function.update w.drives letter (.network unc) } :=
  returns_host (by simp only [HostCall.does, MountCall.run, h]; rfl)

theorem returns_map_assigned {unc : WString} (h : w.drives letter ≠ .free) :
    Returns (host (.drive (.mapNetworkDrive letter unc))) w true w :=
  returns_host (by simp only [HostCall.does, MountCall.run, h]; rfl)

theorem returns_unmap {unc : WString} (h : w.drives letter = .network unc) :
    Returns (host (.drive (.unmapNetworkDrive letter))) w true
      { w with drives := Function.update w.drives letter .free } :=
  returns_host (by simp only [HostCall.does, MountCall.run, h]; rfl)

theorem returns_unmap_volume (h : w.drives letter = .volume volume) :
    Returns (host (.drive (.unmapNetworkDrive letter))) w true w :=
  returns_host (by simp only [HostCall.does, MountCall.run, h]; rfl)

/-- With the source mapped there is nothing to move back. -/
theorem returns_moveToMonitor_stay
    (h : (w.drives w.config.sourcePresentationLetter).volumeName = none) :
    Returns (moveCacheToMonitorLetter w.config) w true w :=
  .bind (returns_volumeName h) (returns_pure _)

/-- The cache volume goes back from the presentation letter. -/
theorem returns_moveToMonitor (h : ServeLayout volume w) :
    Returns (moveCacheToMonitorLetter w.config) w true
      { w with drives := Function.update (Function.update w.drives
        w.config.sourcePresentationLetter .free) w.config.cacheLetter (.volume volume) } := by
  have hsource : (w.drives w.config.sourcePresentationLetter).volumeName = some volume := by
    rw [h.source]; rfl
  have hcache : (w.drives w.config.cacheLetter).volumeName = none := by
    rw [h.cache]; rfl
  refine .bind (returns_volumeName hsource) (.bind (returns_volumeName hcache) ?_)
  refine .bind (returns_remove h.source) (returns_assign ?_)
  exact (Function.update_of_ne h.letters_ne _ _).trans h.cache

/-- The cache volume goes to the presentation letter, which was unmapped. -/
theorem returns_moveToSource (hcache : w.drives w.config.cacheLetter = .volume volume)
    (hsource : w.drives w.config.sourcePresentationLetter = .free) :
    Returns (moveCacheToSourceLetter w.config) w true
      { w with drives := Function.update (Function.update w.drives
        w.config.cacheLetter .free) w.config.sourcePresentationLetter (.volume volume) } := by
  have hvolume : (w.drives w.config.cacheLetter).volumeName = some volume := by
    rw [hcache]; rfl
  have hfree : Function.update w.drives w.config.cacheLetter .free
      w.config.sourcePresentationLetter = .free := by
    by_cases heq : w.config.sourcePresentationLetter = w.config.cacheLetter
    · rw [heq, Function.update_self]
    · rw [Function.update_of_ne heq, hsource]
  refine .bind (returns_volumeName hvolume) (.bind (returns_remove hcache) ?_)
  exact .bind (returns_remove_free hfree) (returns_assign hfree)

/-- Without a volume at the cache letter the move is refused. -/
theorem returns_moveToSource_refused (h : (w.drives w.config.cacheLetter).volumeName = none) :
    Returns (moveCacheToSourceLetter w.config) w false w :=
  .bind (returns_volumeName h) (returns_pure _)

/-! ### Requests of a mode that is not active -/

/-- What a request for `m` has to do. -/
structure Obeys (volume : WString) (m : AppMode) (w : HostWorld V) (r : Except String Bool)
    (w' : HostWorld V) : Prop where
  returned : r = .ok true
  persisted : w'.config = { w.config with mode := some m }
  layout : match m with
    | .disabled => w'.drives = w.drives
    | .monitor => MonitorLayout volume w'
    | .serve => ServeLayout volume w'

/-- The request for the active mode. -/
theorem returns_active {m : AppMode} (hm : w.config.mode = some m) :
    Returns (enterMode fold m) w true w := by
  have hactive : Returns (modeIsActive fold m) w (m = m) w := returns_modeIsActive hm
  rw [decide_eq_true rfl] at hactive
  cases m with
  | disabled => exact .bind hactive (returns_pure _)
  | monitor => exact .bind hactive (returns_pure _)
  | serve => exact .bind hactive (returns_pure _)

theorem exists_enterDisabled (fold : CaseFold) (volume : WString) {m : AppMode}
    (hm : w.config.mode = some m) (hne : m ≠ .disabled) :
    ∃ w', Returns (enterMode fold .disabled) w true w' ∧
      Obeys volume .disabled w (.ok true) w' := by
  have hactive : Returns (modeIsActive fold .disabled) w false w := returns_inactive hm hne
  have hsend := returns_sendMode (returns_disabledControl (w := w))
  refine ⟨_, .bind hactive (.bind hsend (.bind (returns_persistMode _) (returns_pure _))), rfl,
    ?_, ?_⟩
  · rw [HostWorld.persist, HostWorld.switched_config]
  · exact HostWorld.switched_drives ..

/-- From the layout of Monitor, which Disabled kept. -/
theorem exists_enterMonitor_stay (fold : CaseFold) {m : AppMode}
    (hm : w.config.mode = some m) (hne : m ≠ .monitor) (h : MonitorLayout volume w) :
    ∃ w', Returns (enterMode fold .monitor) w true w' ∧
      Obeys volume .monitor w (.ok true) w' := by
  have hactive : Returns (modeIsActive fold .monitor) w false w := returns_inactive hm hne
  have hsource : (w.drives w.config.sourcePresentationLetter).volumeName = none := by
    rw [h.source]; rfl
  have hsend := returns_sendMode (returns_monitorControl (returns_moveToMonitor_stay hsource))
  -- the source is mapped already, which counts as success
  have hassigned :
      (w.switched .monitor w.drives).drives w.config.sourcePresentationLetter ≠ .free := by
    rw [HostWorld.switched_drives, h.source]; nofun
  refine ⟨_, .bind hactive (.bind (returns_host rfl) (.bind hsend (.bind
    (returns_map_assigned hassigned) (.bind (returns_persistMode _) (returns_pure _))))), rfl,
    ?_, ?_⟩
  · rw [HostWorld.persist, HostWorld.switched_config]
  · constructor
    · simpa [HostWorld.persist, HostWorld.switched_config, HostWorld.switched_drives] using h.cache
    · simpa [HostWorld.persist, HostWorld.switched_config, HostWorld.switched_drives] using h.source

/-- From the layout of Serve. -/
theorem exists_enterMonitor (fold : CaseFold) {m : AppMode}
    (hm : w.config.mode = some m) (hne : m ≠ .monitor) (h : ServeLayout volume w) :
    ∃ w', Returns (enterMode fold .monitor) w true w' ∧
      Obeys volume .monitor w (.ok true) w' := by
  have hactive : Returns (modeIsActive fold .monitor) w false w := returns_inactive hm hne
  have hletters := h.letters_ne
  have hsend := returns_sendMode (returns_monitorControl (returns_moveToMonitor h))
  set drives := Function.update (Function.update w.drives w.config.sourcePresentationLetter .free)
    w.config.cacheLetter (.volume volume) with hdrives
  -- the service has freed the presentation letter for the mapping
  have hfree : (w.switched .monitor drives).drives w.config.sourcePresentationLetter = .free := by
    rw [HostWorld.switched_drives, hdrives, Function.update_of_ne hletters.symm,
      Function.update_self]
  refine ⟨_, .bind hactive (.bind (returns_host rfl) (.bind hsend (.bind (returns_map hfree)
    (.bind (returns_persistMode _) (returns_pure _))))), rfl, ?_, ?_⟩
  · simp [HostWorld.persist, HostWorld.switched_config]
  · constructor
    · simp [HostWorld.persist, HostWorld.switched_config, HostWorld.switched_drives, hdrives,
        hletters]
    · simp [HostWorld.persist, HostWorld.switched_config]

/-- From the layout of Monitor. -/
theorem exists_enterServe (fold : CaseFold) {m : AppMode}
    (hm : w.config.mode = some m) (hne : m ≠ .serve) (h : MonitorLayout volume w) :
    ∃ w', Returns (enterMode fold .serve) w true w' ∧
      Obeys volume .serve w (.ok true) w' := by
  have hactive : Returns (modeIsActive fold .serve) w false w := returns_inactive hm hne
  have hletters := h.letters_ne
  -- the drives once the source is unmapped
  set u : HostWorld V :=
    { w with drives := Function.update w.drives w.config.sourcePresentationLetter .free } with hu
  have hcache : u.drives u.config.cacheLetter = .volume volume :=
    (Function.update_of_ne hletters _ _).trans h.cache
  have hsource : u.drives u.config.sourcePresentationLetter = .free := Function.update_self ..
  have hsend := returns_sendMode (returns_serveControl (returns_moveToSource hcache hsource))
  refine ⟨_, .bind hactive (.bind (returns_host rfl) (.bind (returns_unmap h.source) (.bind hsend
    (.bind (returns_persistMode _) (returns_pure _))))), rfl, ?_, ?_⟩
  · simp [HostWorld.persist, HostWorld.switched_config, hu]
  · constructor
    · simp [HostWorld.persist, HostWorld.switched_config, HostWorld.switched_drives, hu, hletters]
    · simp [HostWorld.persist, HostWorld.switched_config, HostWorld.switched_drives, hu]

/-- **From the layout of Serve the Serve control is refused.** -/
theorem exists_enterServe_refused (fold : CaseFold) {m : AppMode}
    (hm : w.config.mode = some m) (hne : m ≠ .serve) (h : ServeLayout volume w) :
    Returns (enterMode fold .serve) w false w := by
  have hactive : Returns (modeIsActive fold .serve) w false w := returns_inactive hm hne
  have hcache : (w.drives w.config.cacheLetter).volumeName = none := by
    rw [h.cache]; rfl
  have hcontrol : Returns (handleControl (.mode .serve)) w .serviceSpecificError w :=
    .bind (returns_host rfl) (.bind (returns_moveToSource_refused hcache) (returns_pure _))
  have hsend : Returns (sendMode .serve) w false w := returns_sendMode hcontrol
  exact .bind hactive (.bind (returns_host rfl) (.bind (returns_unmap_volume h.source)
    (.bind hsend (returns_pure _))))

/-! ## The three-mode machine -/

/-- Where the cache volume is and what is persisted: the layout of Monitor, the layout of
Serve, and the layout of Serve under Disabled. -/
inductive Phase
  | online
  | offline
  | suspended
  deriving DecidableEq, Repr

/-- The request that a phase takes, unless the service refuses it. -/
def Phase.next : Phase → AppMode → Option Phase
  | .online, .serve => some .offline
  | .online, _ => some .online
  | .offline, .disabled | .suspended, .disabled => some .suspended
  | .offline, .serve => some .offline
  | .suspended, .serve => none
  | .offline, .monitor | .suspended, .monitor => some .online

def Phase.run : Phase → List AppMode → Option Phase
  | phase, [] => some phase
  | phase, m :: ms => (phase.next m).bind fun next => next.run ms

/-- The machine is in a phase. -/
def Placed (volume : WString) (w : HostWorld V) : Phase → Prop
  | .online => MonitorLayout volume w ∧
      (w.config.mode = some .monitor ∨ w.config.mode = some .disabled)
  | .offline => ServeLayout volume w ∧ w.config.mode = some .serve
  | .suspended => ServeLayout volume w ∧ w.config.mode = some .disabled

theorem Obeys.mode {m : AppMode} {r : Except String Bool} (h : Obeys volume m w r w') :
    w'.config.mode = some m := by rw [h.persisted]

/-- Disabled keeps the layout. -/
theorem Obeys.monitorLayout {r : Except String Bool} (h : Obeys volume .disabled w r w')
    (hl : MonitorLayout volume w) : MonitorLayout volume w' := by
  have hd : w'.drives = w.drives := h.layout
  constructor
  · rw [hd, h.persisted]; exact hl.cache
  · rw [hd, h.persisted]; exact hl.source

theorem Obeys.serveLayout {r : Except String Bool} (h : Obeys volume .disabled w r w')
    (hl : ServeLayout volume w) : ServeLayout volume w' := by
  have hd : w'.drives = w.drives := h.layout
  constructor
  · rw [hd, h.persisted]; exact hl.cache
  · rw [hd, h.persisted]; exact hl.source

/-- The request for the active mode changes nothing. -/
theorem obeys_active {m : AppMode} (hm : w.config.mode = some m)
    (hl : match m with
      | .disabled => True
      | .monitor => MonitorLayout volume w
      | .serve => ServeLayout volume w) : Obeys volume m w (.ok true) w where
  returned := rfl
  persisted := by rw [← hm]
  layout := by cases m <;> first | rfl | exact hl

/-- **One request that the phase takes.** -/
theorem placed_step (fold : CaseFold) {phase next : Phase} {m : AppMode} (h : Placed volume w phase)
    (hn : phase.next m = some next) : ∃ w', Returns (enterMode fold m) w true w' ∧
      Obeys volume m w (.ok true) w' ∧ Placed volume w' next := by
  cases phase with
  | online =>
    obtain ⟨hl, hm⟩ := h
    cases m with
    | disabled =>
      cases hn
      rcases hm with hm | hm
      · obtain ⟨w', hr, ho⟩ := exists_enterDisabled fold volume hm nofun
        exact ⟨w', hr, ho, ho.monitorLayout hl, .inr ho.mode⟩
      · exact ⟨w, returns_active hm, obeys_active hm trivial, hl, .inr hm⟩
    | monitor =>
      cases hn
      rcases hm with hm | hm
      · exact ⟨w, returns_active hm, obeys_active hm hl, hl, .inl hm⟩
      · obtain ⟨w', hr, ho⟩ := exists_enterMonitor_stay fold hm nofun hl
        exact ⟨w', hr, ho, ho.layout, .inl ho.mode⟩
    | serve =>
      cases hn
      obtain ⟨m, hm, hne⟩ : ∃ m, w.config.mode = some m ∧ m ≠ .serve := by
        rcases hm with hm | hm
        · exact ⟨_, hm, nofun⟩
        · exact ⟨_, hm, nofun⟩
      obtain ⟨w', hr, ho⟩ := exists_enterServe fold hm hne hl
      exact ⟨w', hr, ho, ho.layout, ho.mode⟩
  | offline =>
    obtain ⟨hl, hm⟩ := h
    cases m with
    | disabled =>
      cases hn
      obtain ⟨w', hr, ho⟩ := exists_enterDisabled fold volume hm nofun
      exact ⟨w', hr, ho, ho.serveLayout hl, ho.mode⟩
    | monitor =>
      cases hn
      obtain ⟨w', hr, ho⟩ := exists_enterMonitor fold hm nofun hl
      exact ⟨w', hr, ho, ho.layout, .inl ho.mode⟩
    | serve =>
      cases hn
      exact ⟨w, returns_active hm, obeys_active hm hl, hl, hm⟩
  | suspended =>
    obtain ⟨hl, hm⟩ := h
    cases m with
    | disabled =>
      cases hn
      exact ⟨w, returns_active hm, obeys_active hm trivial, hl, hm⟩
    | monitor =>
      cases hn
      obtain ⟨w', hr, ho⟩ := exists_enterMonitor fold hm nofun hl
      exact ⟨w', hr, ho, ho.layout, .inl ho.mode⟩
    | serve => cases hn

/-- **The one request it does not take.** -/
theorem placed_refused (fold : CaseFold) {phase : Phase} {m : AppMode} (h : Placed volume w phase)
    (hn : phase.next m = none) : Returns (enterMode fold m) w false w := by
  cases phase with
  | online => cases m <;> cases hn
  | offline => cases m <;> cases hn
  | suspended =>
    cases m with
    | disabled => cases hn
    | monitor => cases hn
    | serve => exact exists_enterServe_refused fold h.2 nofun h.1

/-- Every request of the sequence ends, and does what it has to do. -/
def Obeyed (sv : Service V) (fold : CaseFold) (volume : WString) : List AppMode → HostWorld V → Prop
  | [], _ => True
  | m :: ms, w =>
    (∃ r w', (enterMode fold m).Ends (hostExec sv noFaults) w r w') ∧
    ∀ r w', (enterMode fold m).Ends (hostExec sv noFaults) w r w' →
      Obeys volume m w r w' ∧ Obeyed sv fold volume ms w'

theorem Returns.ends_iff {α : Type} {c : HostTask α} {v : α} (h : Returns c w v w')
    {r : Except String α} {u : HostWorld V} :
    c.Ends (hostExec sv noFaults) w r u ↔ r = .ok v ∧ u = w' := by
  constructor
  · intro he
    cases Prog.ends_unique (fun hx hx' => hostExec_unique hx hx') h he
    exact ⟨rfl, rfl⟩
  · rintro ⟨rfl, rfl⟩
    exact Prog.ends_of_eval (fun hx => hostExec_answer hx) h

/-- **The requests are obeyed as long as the machine takes them.** -/
theorem obeyed_iff_run {phase : Phase} {ms : List AppMode} (h : Placed volume w phase) :
    Obeyed sv fold volume ms w ↔ (phase.run ms).isSome = true := by
  induction ms generalizing w phase with
  | nil => exact iff_of_true trivial rfl
  | cons m ms ih =>
    cases hn : phase.next m with
    | none =>
      -- the request returns false
      have hr := placed_refused fold h hn
      rw [Phase.run, hn, Option.bind_none]
      refine iff_of_false (fun ho => ?_) Bool.false_ne_true
      exact absurd (ho.2 _ _ (hr.ends_iff.2 ⟨rfl, rfl⟩)).1.returned (by simp)
    | some next =>
      obtain ⟨w', hr, ho, hp⟩ := placed_step fold h hn
      rw [Phase.run, hn, Option.bind_some, ← ih hp]
      constructor
      · exact fun hob => (hob.2 _ _ (hr.ends_iff.2 ⟨rfl, rfl⟩)).2
      · refine fun hob => ⟨⟨_, _, hr.ends_iff.2 ⟨rfl, rfl⟩⟩, fun r u he => ?_⟩
        obtain ⟨rfl, rfl⟩ := hr.ends_iff.1 he
        exact ⟨ho, hob⟩

/-! ## The sequences that are taken -/

/-- The sequence begins with at least `n` requests for Disabled and then one for Serve. -/
def BeginsStalled (n : ℕ) (ms : List AppMode) : Prop :=
  ∃ k, List.replicate (k + n) .disabled ++ [.serve] <+: ms

/-- Serve is requested, then Disabled, and then Serve again. -/
def ServeAgain (ms : List AppMode) : Prop :=
  ∃ k, .serve :: List.replicate (k + 1) .disabled ++ [.serve] <:+: ms

theorem not_beginsStalled_nil (n : ℕ) : ¬ BeginsStalled n [] := fun ⟨k, hk⟩ => by simp at hk

theorem not_serveAgain_nil : ¬ ServeAgain [] := fun ⟨k, hk⟩ => by simp at hk

theorem beginsStalled_one {m : AppMode} {ms : List AppMode} :
    BeginsStalled 1 (m :: ms) ↔ m = .disabled ∧ BeginsStalled 0 ms := by
  simp only [BeginsStalled, List.replicate_succ, List.cons_append, List.cons_prefix_cons,
    exists_and_left, eq_comm (b := m), Nat.add_zero]

theorem beginsStalled_zero {m : AppMode} {ms : List AppMode} :
    BeginsStalled 0 (m :: ms) ↔ m = .serve ∨ (m = .disabled ∧ BeginsStalled 0 ms) := by
  constructor
  · rintro ⟨k, hk⟩
    cases k with
    | zero => exact .inl (List.cons_prefix_cons.1 hk).1.symm
    | succ k =>
      obtain ⟨hm, htail⟩ := List.cons_prefix_cons.1 hk
      exact .inr ⟨hm.symm, k, htail⟩
  · rintro (rfl | ⟨rfl, k, hk⟩)
    · exact ⟨0, List.cons_prefix_cons.2 ⟨rfl, List.nil_prefix⟩⟩
    · exact ⟨k + 1, List.cons_prefix_cons.2 ⟨rfl, hk⟩⟩

theorem serveAgain_cons {m : AppMode} {ms : List AppMode} :
    ServeAgain (m :: ms) ↔ (m = .serve ∧ BeginsStalled 1 ms) ∨ ServeAgain ms := by
  simp only [ServeAgain, BeginsStalled, List.cons_append, List.infix_cons_iff,
    List.cons_prefix_cons, exists_or, exists_and_left, eq_comm (b := m)]

/-- **What each phase takes.** -/
theorem run_isSome_iff {ms : List AppMode} : ∀ {phase : Phase}, (phase.run ms).isSome = true ↔
    match phase with
    | .online => ¬ ServeAgain ms
    | .offline => ¬ (BeginsStalled 1 ms ∨ ServeAgain ms)
    | .suspended => ¬ (BeginsStalled 0 ms ∨ ServeAgain ms) := by
  induction ms with
  | nil =>
    intro phase
    cases phase <;> simp [Phase.run, not_beginsStalled_nil, not_serveAgain_nil]
  | cons m ms ih =>
    intro phase
    cases phase <;> cases m <;>
      simp [Phase.run, Phase.next, ih, serveAgain_cons, beginsStalled_one, beginsStalled_zero]

/-- **Every mode is reached from every mode unless Serve is requested under Disabled that
was entered from Serve.** -/
theorem modes_obeyed_iff (sv : Service V) (fold : CaseFold) (volume : WString)
    (ms : List AppMode) (w : HostWorld V) (hl : MonitorLayout volume w)
    (hm : w.config.mode = some .monitor) :
    Obeyed sv fold volume ms w ↔
      ¬ ∃ k, .serve :: List.replicate (k + 1) .disabled ++ [.serve] <:+: ms :=
  (obeyed_iff_run (show Placed volume w .online from ⟨hl, .inl hm⟩)).trans run_isSome_iff

/-- Drive `K:` with the cache volume and `N:` with the source. -/
def monitorDrives : Drives := fun letter =>
  if letter = 0x4B then .volume (wide "cache")
  else if letter = 0x4E then .network (wide "\\\\NasBox\\Share")
  else .free

/-- A machine in Monitor mode. -/
def monitorMachine : HostWorld Disk where
  service := { volume := {}, clock := 0 }
  config := { sourceUnc := wide "\\\\NasBox\\Share", mode := some .monitor }
  drives := monitorDrives

theorem monitorMachine_layout : MonitorLayout (wide "cache") monitorMachine := ⟨rfl, rfl⟩

/-- To Serve and back. -/
theorem served_and_back :
    Obeyed (diskService {}) asciiLower (wide "cache") [.serve, .disabled, .monitor, .serve]
      monitorMachine := by
  refine (modes_obeyed_iff _ _ _ _ _ monitorMachine_layout rfl).2 ?_
  change ¬ ServeAgain _
  simp [serveAgain_cons, beginsStalled_one, beginsStalled_zero, not_beginsStalled_nil,
    not_serveAgain_nil]

/-- Serve, Disabled, and Serve again: the last request is refused. -/
theorem serve_again_refused :
    ¬ Obeyed (diskService {}) asciiLower (wide "cache") [.serve, .disabled, .serve]
      monitorMachine := by
  have hplaced : Placed (wide "cache") monitorMachine .online := ⟨monitorMachine_layout, .inl rfl⟩
  rw [obeyed_iff_run hplaced]
  decide

end SsdCache
