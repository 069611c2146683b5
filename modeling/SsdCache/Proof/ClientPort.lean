import SsdCache.Atomic.Place
import SsdCache.Spec.DriverPort
import Mathlib.Data.Finset.Erase
import Mathlib.Data.Fintype.EquivFin
import Mathlib.Data.List.Nodup

/-!
# The life of a client port

Where a thread of the driver is (`Place`) says what it may do next (`Allowed`) and what it
then knows (`Moves`); `stepped` is the one lemma about steps. What a thread knows survives
the steps of the others, because the lock is held around every access to `g_client_port`, a
port belongs to its connection callback until it is stored, and the filter waits for the
operation callbacks before it is gone.

* `clientPort_safe`: **no closed port is used or closed again, no port is lost**, and
  `g_client_port` is touched by the thread that holds the lock.
* `unload_closes`: **after an unload all ports are closed**, and stay so, if no connection
  callback was under way when it closed the server port.
-/

namespace SsdCache.ClientPort

open Atomic

variable {h : PortHistory} {c : PortState} {t u : ThreadId} {w w' : PortWorld} {p : PortId}
variable {Q : Prop}

/-! ## What is claimed -/

/-- The connection callback of the port is thread `t`'s. -/
def PortWorld.AcceptedBy (w : PortWorld) (t : ThreadId) (p : PortId) : Prop :=
  w.accepted[p]? = some t

/-- The client port is one that the driver can use. -/
def PortWorld.Connected (w : PortWorld) : Prop := ∃ p, w.clientPort = some p ∧ w.Open p

/-- What thread `t` has when it makes a call. -/
def Guarded (t : ThreadId) (w : PortWorld) : PortCall → Prop
  | .releaseFastMutex _ | .clientPortSet | .storeClientPort none => w.lock = some t
  | .storeClientPort (some p) =>
    w.lock = some t ∧ w.clientPort = none ∧ w.AcceptedBy t p ∧ p ∉ w.closed
  | .closeClientPort => w.lock = some t ∧ w.Connected
  | .sendMessage _ => w.lock = some t ∧ w.Connected ∧ w.registered = true ∧ w.filter = true
  | _ => True

/-- A thread only makes calls for which it has what they need. -/
def KeepsGuards (_ : PortHistory) (w : PortWorld) (l : PortEvent) : Prop :=
  ∀ t a r, l = .act t a r → Guarded t w a

/-- When the server port is closed, every accepted port is closed or is the client port. -/
def ClosesQuietly (_ : PortHistory) (w : PortWorld) : PortEvent → Prop
  | .act _ .closeCommunicationPort _ => ∀ p < w.accepted.length, w.Placed p
  | _ => True

instance (h : PortHistory) (w : PortWorld) (l : PortEvent) : Decidable (ClosesQuietly h w l) := by
  unfold ClosesQuietly
  split
  · infer_instance
  · infer_instance

/-- Thread `t` starts an unload. -/
def startsUnload (t : ThreadId) : PortEvent → Bool
  | .call u (_, .unload) => decide (u = t)
  | _ => false

/-- Thread `t` has started an unload. -/
def Unloading (t : ThreadId) (h : PortHistory) : Prop := ∃ x ∈ h, startsUnload t x.2 = true

instance (h : PortHistory) : Decidable (Unloading t h) := inferInstanceAs (Decidable (∃ x ∈ h, _))

/-- No port is open, and none will be. -/
def PortWorld.Shut (w : PortWorld) : Prop :=
  w.listening = false ∧ w.clientPort = none ∧ ∀ p < w.accepted.length, p ∈ w.closed

/-! ## What holds of the world -/

/-- `Q` stands for the condition that the server port is closed quietly. -/
structure PortWorld.Sound (Q : Prop) (w : PortWorld) : Prop where
  connected : ∀ p, w.clientPort = some p → w.Open p
  nodup : w.closed.Nodup
  known : ∀ p ∈ w.closed, p < w.accepted.length
  filter : w.registered = true → w.filter = true
  drained : w.registered = false → w.running = ∅
  serverPort : w.serverPort = false → w.listening = false
  placed : Q → w.listening = false → ∀ p < w.accepted.length, w.Placed p

/-- What the other threads leave to thread `t`. -/
structure Rely (Q : Prop) (t : ThreadId) (w w' : PortWorld) : Prop where
  sound : w.Sound Q → w'.Sound Q
  lock : w.lock = some t ↔ w'.lock = some t
  held : w.lock = some t → w'.clientPort = w.clientPort
  running : t ∈ w.running ↔ t ∈ w'.running
  unregistered : w.registered = false → w'.registered = false
  deaf : w.listening = false → w'.listening = false
  accepted : ∀ p, w.AcceptedBy t p ↔ w'.AcceptedBy t p
  placed : ∀ p, w.AcceptedBy t p → (w.Placed p ↔ w'.Placed p)
  shut : w.Shut → w'.Shut

theorem Rely.refl (w : PortWorld) : Rely Q t w w :=
  ⟨id, Iff.rfl, fun _ => rfl, Iff.rfl, id, id, fun _ => Iff.rfl, fun _ _ => Iff.rfl, id⟩

theorem Rely.trans {w'' : PortWorld} (h₁ : Rely Q t w w') (h₂ : Rely Q t w' w'') :
    Rely Q t w w'' where
  sound hw := h₂.sound (h₁.sound hw)
  lock := h₁.lock.trans h₂.lock
  held hl := (h₂.held (h₁.lock.1 hl)).trans (h₁.held hl)
  running := h₁.running.trans h₂.running
  unregistered hr := h₂.unregistered (h₁.unregistered hr)
  deaf hd := h₂.deaf (h₁.deaf hd)
  accepted p := (h₁.accepted p).trans (h₂.accepted p)
  placed p hp := (h₁.placed p hp).trans (h₂.placed p ((h₁.accepted p).1 hp))
  shut hs := h₂.shut (h₁.shut hs)

/-! ## Places -/

/-- Where a thread is, and what it knows. -/
structure Place where
  entered : Bool := false
  /-- The client port, while the thread holds the lock. -/
  locked : Option (Option PortId) := none
  /-- The port of its connection, until it stores it. -/
  pending : Option PortId := none
  /-- The server port is closed. -/
  deaf : Bool := false
  unregistered : Bool := false
  /-- Nothing is open any more, if the server port was closed quietly. -/
  shut : Bool := false
  /-- The thread may have started an unload. -/
  called : Bool := false

/-- What a thread knows when it releases the lock. -/
def Place.shutNow (q : Place) : Bool :=
  match q.deaf, q.locked with
  | true, some none => true
  | _, _ => q.shut

structure AtPlace (Q : Prop) (t : ThreadId) (q : Place) (w : PortWorld) : Prop where
  sound : w.Sound Q
  running : t ∈ w.running ↔ q.entered = true
  lock : w.lock = some t ↔ q.locked.isSome = true
  port : ∀ x, q.locked = some x → w.clientPort = x
  accepted : ∀ p, q.pending = some p → w.AcceptedBy t p
  placed : ∀ p, w.AcceptedBy t p → (w.Placed p ↔ q.pending ≠ some p)
  deaf : q.deaf = true → w.listening = false
  unregistered : q.unregistered = true → w.registered = false
  shut : q.shut = true → Q → w.Shut

/-- What a thread knows, the others leave. -/
theorem AtPlace.stable {q : Place} (hr : Rely Q t w w') (hq : AtPlace Q t q w) :
    AtPlace Q t q w' where
  sound := hr.sound hq.sound
  running := hr.running.symm.trans hq.running
  lock := hr.lock.symm.trans hq.lock
  port x hx := by
    have hlock : w.lock = some t := hq.lock.2 (by rw [hx]; rfl)
    rw [hr.held hlock]
    exact hq.port x hx
  accepted p hp := (hr.accepted p).1 (hq.accepted p hp)
  placed p hp := by
    have hp' := (hr.accepted p).2 hp
    exact (hr.placed p hp').symm.trans (hq.placed p hp')
  deaf hd := hr.deaf (hq.deaf hd)
  unregistered hu := hr.unregistered (hq.unregistered hu)
  shut hs hquiet := hr.shut (hq.shut hs hquiet)

/-- The calls that a thread may make next. -/
def Allowed (t : ThreadId) (q : Place) : PortCall → Prop
  | .enterOperation u => u = t ∧ q.entered = false
  | .leaveOperation u | .acquireFastMutex u => u = t
  | .releaseFastMutex u => u = t ∧ q.locked.isSome = true
  | .clientPortSet => q.locked.isSome = true
  | .sendMessage _ => q.entered = true ∧ ∃ p, q.locked = some (some p)
  | .closeClientPort => ∃ p, q.locked = some (some p)
  | .storeClientPort port => q.locked = some none ∧ q.pending = port
  | .acceptConnection u => u = t ∧ q.pending = none
  | .clearServerPort => q.deaf = true
  | .clearFilter => q.unregistered = true
  | _ => True

/-- Where a call with this answer takes it. -/
def Moves (q : Place) : (a : PortCall) → a.Answer → Place → Prop
  | .enterOperation _, _, q' => q' = { q with entered := true }
  | .leaveOperation _, _, q' => q' = { q with entered := false }
  | .acquireFastMutex _, _, q' => ∃ port, q' = { q with locked := some port }
  | .releaseFastMutex _, _, q' => q' = { q with locked := none, shut := q.shutNow }
  | .clientPortSet, connected, q' =>
    q' = q ∧ ∀ port, q.locked = some port → connected = port.isSome
  | .closeClientPort, _, q' => q' = { q with locked := some none }
  | .storeClientPort port, _, q' => q' = { q with locked := some port, pending := none }
  | .acceptConnection _, port, q' => q' = { q with pending := some port }
  | .serverPortSet, set, q' => q' = { q with deaf := q.deaf || !set }
  | .closeCommunicationPort, _, q' => q' = { q with deaf := true }
  | .unregisterFilter, _, q' => q' = { q with unregistered := true }
  | _, _, q' => q' = q

/-- A call does not tell of an unload. -/
theorem Moves.called {q q' : Place} {a : PortCall} {v : a.Answer} (h : Moves q a v q') :
    q'.called = q.called := by
  cases a with
  | acquireFastMutex u => obtain ⟨port, rfl⟩ := h; rfl
  | clientPortSet => rw [h.1]
  | _ =>
    rw [h]

/-! ## Steps -/

/-- A step of thread `t` that brings it to `q`: it is guarded, and leaves to the others what
they rely on. -/
structure Stepped (Q : Prop) (t : ThreadId) (a : PortCall) (w w' : PortWorld) (q : Place) :
    Prop where
  guarded : Guarded t w a
  others : ∀ u, u ≠ t → Rely Q u w w'
  place : AtPlace Q t q w'

variable {q : Place}

/-- A step that changes nothing a thread relies on. -/
theorem stepped_same {a : PortCall} (hq : AtPlace Q t q w) (ha : Guarded t w a) :
    Stepped Q t a w w q := ⟨ha, fun _ _ => Rely.refl w, hq⟩

theorem AtPlace.connected (hq : AtPlace Q t q w) (hp : q.locked = some (some p)) :
    w.Connected := ⟨p, hq.port _ hp, hq.sound.connected p (hq.port _ hp)⟩

theorem AtPlace.holds {x : Option PortId} (hq : AtPlace Q t q w) (hx : q.locked = some x) :
    w.lock = some t := hq.lock.2 (by rw [hx]; rfl)

/-- A port that a connection callback still has is open and not the client port. -/
theorem AtPlace.pending (hq : AtPlace Q t q w) (hp : q.pending = some p) :
    w.AcceptedBy t p ∧ p < w.accepted.length ∧ ¬ w.Placed p := by
  have hacc := hq.accepted p hp
  obtain ⟨hlt, -⟩ := List.getElem?_eq_some_iff.1 hacc
  exact ⟨hacc, hlt, fun hplaced => (hq.placed p hacc).1 hplaced hp⟩

theorem stepped_enter (hq : AtPlace Q t q w) (hr : w.registered = true) :
    Stepped Q t (.enterOperation t) w { w with running := insert t w.running }
      { q with entered := true } := by
  have hdrained : w.registered = false → insert t w.running = ∅ := fun hr' => by
    rw [hr] at hr'
    cases hr'
  refine ⟨trivial, fun u hu => ?_, ?_⟩
  · exact { Rely.refl (Q := Q) w with
      sound := fun hs => { hs with drained := hdrained }
      running := by simp [hu] }
  · exact { hq with
      sound := { hq.sound with drained := hdrained }
      running := by simp }

theorem stepped_leave (hq : AtPlace Q t q w) :
    Stepped Q t (.leaveOperation t) w { w with running := w.running.erase t }
      { q with entered := false } := by
  have hdrained : w.Sound Q → w.registered = false → w.running.erase t = ∅ := fun hs hr => by
    rw [hs.drained hr]
    rfl
  refine ⟨trivial, fun u hu => ?_, ?_⟩
  · exact { Rely.refl (Q := Q) w with
      sound := fun hs => { hs with drained := hdrained hs }
      running := by simp [hu] }
  · exact { hq with
      sound := { hq.sound with drained := hdrained hq.sound }
      running := by simp }

theorem stepped_storePid (hq : AtPlace Q t q w) (pid : UInt64) :
    Stepped Q t (.storeServicePid pid) w { w with servicePid := pid } q := by
  refine ⟨trivial, fun u _ => ?_, ?_⟩
  · exact { Rely.refl (Q := Q) w with sound := fun hs => { hs with } }
  · exact { hq with sound := { hq.sound with } }

theorem stepped_acquire (hq : AtPlace Q t q w) (hfree : w.lock = none) :
    Stepped Q t (.acquireFastMutex t) w { w with lock := some t }
      { q with locked := some w.clientPort } := by
  refine ⟨trivial, fun u hu => ?_, ?_⟩
  · exact { Rely.refl (Q := Q) w with
      sound := fun hs => { hs with }
      lock := by simp [hfree, Ne.symm hu]
      held := fun _ => rfl }
  · exact { hq with
      sound := { hq.sound with }
      lock := by simp
      port := fun x hx => Option.some.inj hx }

theorem stepped_release (hq : AtPlace Q t q w) {x : Option PortId} (hx : q.locked = some x) :
    Stepped Q t (.releaseFastMutex t) w { w with lock := none }
      { q with locked := none, shut := q.shutNow } := by
  have hlock : w.lock = some t := hq.holds hx
  refine ⟨hlock, fun u hu => ?_, ?_⟩
  · exact { Rely.refl (Q := Q) w with
      sound := fun hs => { hs with }
      lock := by simp [hlock, Ne.symm hu]
      held := fun _ => rfl }
  · refine { hq with
      sound := { hq.sound with }
      lock := by simp
      port := fun x hx => by cases hx
      shut := fun hs hquiet => ?_ }
    have hs' : q.shutNow = true := hs
    unfold Place.shutNow at hs'
    split at hs'
    · -- no port is the client port, so the placed ones are closed
      rename_i hdeaf hnone
      have hfree : w.clientPort = none := hq.port none hnone
      refine ⟨hq.deaf hdeaf, hfree, fun p hp => ?_⟩
      rcases hq.sound.placed hquiet (hq.deaf hdeaf) p hp with hclosed | hcurrent
      · exact hclosed
      · rw [hfree] at hcurrent
        cases hcurrent
    · exact hq.shut hs' hquiet

theorem stepped_close (hq : AtPlace Q t q w) (hp : q.locked = some (some p)) :
    Stepped Q t .closeClientPort w
      { w with clientPort := none, closed := w.clientPort.toList ++ w.closed }
      { q with locked := some none } := by
  have hlock : w.lock = some t := hq.holds hp
  have hport : w.clientPort = some p := hq.port _ hp
  have hopen : w.Open p := hq.sound.connected p hport
  have hplaced : ∀ p', (w.Placed p' ↔ p' ∈ p :: w.closed ∨ none = some p') := fun p' => by
    simp [PortWorld.Placed, hport, or_comm, eq_comm]
  have hsound : w.Sound Q →
      ({ w with clientPort := none, closed := p :: w.closed } : PortWorld).Sound Q := fun hs =>
    { hs with
      connected := fun p' hp' => by cases hp'
      nodup := List.nodup_cons.2 ⟨hopen.2, hs.nodup⟩
      known := fun p' hp' => by
        rcases List.mem_cons.1 hp' with rfl | hp'
        · exact hopen.1
        · exact hs.known p' hp'
      placed := fun hquiet hdeaf p' hlt => (hplaced p').1 (hs.placed hquiet hdeaf p' hlt) }
  rw [hport]
  refine ⟨⟨hlock, hq.connected hp⟩, fun u hu => ?_, ?_⟩
  · exact { Rely.refl (Q := Q) w with
      sound := hsound
      held := fun hu' => absurd (Option.some.inj (hlock.symm.trans hu')) (Ne.symm hu)
      placed := fun p' _ => hplaced p'
      shut := fun hs => by rw [hs.2.1] at hport; cases hport }
  · exact { hq with
      sound := hsound hq.sound
      lock := by simp [hlock]
      port := fun x hx => Option.some.inj hx
      placed := fun p' hp' => (hplaced p').symm.trans (hq.placed p' hp')
      shut := fun hs hquiet => by rw [(hq.shut hs hquiet).2.1] at hport; cases hport }

theorem stepped_clear (hq : AtPlace Q t q w) (hp : q.locked = some none)
    (hpending : q.pending = none) :
    Stepped Q t (.storeClientPort none) w { w with clientPort := none }
      { q with locked := some none, pending := none } := by
  have hlock : w.lock = some t := hq.holds hp
  have hfree : w.clientPort = none := hq.port _ hp
  have hsame : ({ w with clientPort := none } : PortWorld) = w := by rw [← hfree]
  have hplace : ({ q with locked := some none, pending := none } : Place) = q := by
    rw [← hp, ← hpending]
  rw [hsame, hplace]
  exact stepped_same hq hlock

theorem stepped_adopt (hq : AtPlace Q t q w) (hp : q.locked = some none)
    (hpending : q.pending = some p) :
    Stepped Q t (.storeClientPort (some p)) w { w with clientPort := some p }
      { q with locked := some (some p), pending := none } := by
  have hlock : w.lock = some t := hq.holds hp
  have hfree : w.clientPort = none := hq.port _ hp
  obtain ⟨hacc, hlt, hnot⟩ := hq.pending hpending
  have hopen : p ∉ w.closed := fun hclosed => hnot (.inl hclosed)
  have hplaced : ∀ p', p' ≠ p → (w.Placed p' ↔ p' ∈ w.closed ∨ some p = some p') := fun p' hne => by
    simp [PortWorld.Placed, hfree, Ne.symm hne]
  have hsound : w.Sound Q → ({ w with clientPort := some p } : PortWorld).Sound Q := fun hs =>
    { hs with
      connected := fun p' hp' => Option.some.inj hp' ▸ ⟨hlt, hopen⟩
      placed := fun hquiet hdeaf => absurd (hs.placed hquiet hdeaf p hlt) hnot }
  refine ⟨⟨hlock, hfree, hacc, hopen⟩, fun u hu => ?_, ?_⟩
  · exact { Rely.refl (Q := Q) w with
      sound := hsound
      held := fun hu' => absurd (Option.some.inj (hlock.symm.trans hu')) (Ne.symm hu)
      placed := fun p' hp' => hplaced p' fun he => by
        subst he
        exact hu (Option.some.inj (hp'.symm.trans hacc))
      shut := fun hs => absurd (hs.2.2 p hlt) hopen }
  · exact { hq with
      sound := hsound hq.sound
      lock := by simp [hlock]
      port := fun x hx => Option.some.inj hx
      accepted := fun p' hp' => by cases hp'
      placed := fun p' hp' => by
        by_cases he : p' = p
        · subst he
          simp [PortWorld.Placed]
        · have hother : w.Placed p' := (hq.placed p' hp').2 fun hp => he (by
            rw [hpending] at hp
            exact (Option.some.inj hp).symm)
          exact iff_of_true ((hplaced p' he).1 hother) (by simp)
      shut := fun hs hquiet => absurd ((hq.shut hs hquiet).2.2 p hlt) hopen }

theorem stepped_accept (hq : AtPlace Q t q w) (hlistening : w.listening = true)
    (hpending : q.pending = none) :
    Stepped Q t (.acceptConnection t) w { w with accepted := w.accepted ++ [t] }
      { q with pending := some w.accepted.length } := by
  have hold : ∀ {u p}, w.AcceptedBy u p → (w.accepted ++ [t])[p]? = some u := fun hp => by
    obtain ⟨hlt, -⟩ := List.getElem?_eq_some_iff.1 hp
    rwa [List.getElem?_append_left hlt]
  have hnew : ∀ {u p}, (w.accepted ++ [t])[p]? = some u →
      w.AcceptedBy u p ∨ (u = t ∧ p = w.accepted.length) := fun {u p} hp => by
    rcases lt_or_ge p w.accepted.length with hlt | hge
    · rw [List.getElem?_append_left hlt] at hp
      exact .inl hp
    · rw [List.getElem?_append_right hge, List.getElem?_singleton] at hp
      split at hp
      · rename_i hzero
        exact .inr ⟨(Option.some.inj hp).symm, Nat.le_antisymm (Nat.sub_eq_zero_iff_le.1 hzero) hge⟩
      · cases hp
  have hnot : w.Sound Q → ¬ w.Placed w.accepted.length := by
    rintro hs (hclosed | hcurrent)
    · exact Nat.lt_irrefl _ (hs.known _ hclosed)
    · exact Nat.lt_irrefl _ (hs.connected _ hcurrent).1
  have hgrow : ∀ {p}, p < w.accepted.length → p < (w.accepted ++ [t]).length := fun hp => by
    rw [List.length_append]
    omega
  have hsound : w.Sound Q → ({ w with accepted := w.accepted ++ [t] } : PortWorld).Sound Q :=
    fun hs =>
    { hs with
      connected := fun p hp => ⟨hgrow (hs.connected p hp).1, (hs.connected p hp).2⟩
      known := fun p hp => hgrow (hs.known p hp)
      placed := fun _ hdeaf => by rw [hlistening] at hdeaf; cases hdeaf }
  refine ⟨trivial, fun u hu => ?_, ?_⟩
  · exact { Rely.refl (Q := Q) w with
      sound := hsound
      accepted := fun p => ⟨hold, fun hp => (hnew hp).resolve_right fun h => hu h.1⟩
      shut := fun hs => absurd (hlistening.symm.trans hs.1) Bool.noConfusion }
  · exact { hq with
      sound := hsound hq.sound
      accepted := fun p hp => by
        obtain rfl := Option.some.inj hp
        simp [PortWorld.AcceptedBy]
      placed := fun p hp => by
        rcases hnew hp with hp' | ⟨-, rfl⟩
        · -- an older port of this thread has been stored
          have hplaced : w.Placed p := (hq.placed p hp').2 (by simp [hpending])
          obtain ⟨hlt, -⟩ := List.getElem?_eq_some_iff.1 hp'
          exact iff_of_true hplaced fun he => (Nat.ne_of_lt hlt) (Option.some.inj he).symm
        · exact iff_of_false (hnot hq.sound) (by simp)
      shut := fun hs hquiet =>
        absurd (hlistening.symm.trans (hq.shut hs hquiet).1) Bool.noConfusion }

theorem stepped_deaf (hq : AtPlace Q t q w)
    (hquiet : Q → ∀ p < w.accepted.length, w.Placed p) :
    Stepped Q t .closeCommunicationPort w { w with listening := false }
      { q with deaf := true } := by
  refine ⟨trivial, fun u _ => ?_, ?_⟩
  · exact { Rely.refl (Q := Q) w with
      sound := fun hs => { hs with serverPort := fun _ => rfl, placed := fun hQ _ => hquiet hQ }
      deaf := fun _ => rfl
      shut := fun hs => ⟨rfl, hs.2⟩ }
  · exact { hq with
      sound := { hq.sound with serverPort := fun _ => rfl, placed := fun hQ _ => hquiet hQ }
      deaf := fun _ => rfl
      shut := fun hs hQ => ⟨rfl, (hq.shut hs hQ).2⟩ }

theorem stepped_clearServer (hq : AtPlace Q t q w) (hdeaf : q.deaf = true) :
    Stepped Q t .clearServerPort w { w with serverPort := false } q := by
  have hlistening : w.listening = false := hq.deaf hdeaf
  refine ⟨trivial, fun u _ => ?_, ?_⟩
  · exact { Rely.refl (Q := Q) w with
      sound := fun hs => { hs with serverPort := fun _ => hlistening } }
  · exact { hq with sound := { hq.sound with serverPort := fun _ => hlistening } }

theorem stepped_unregister (hq : AtPlace Q t q w) (hrunning : w.running = ∅) :
    Stepped Q t .unregisterFilter w { w with registered := false }
      { q with unregistered := true } := by
  have hsound : w.Sound Q → ({ w with registered := false } : PortWorld).Sound Q := fun hs =>
    { hs with
      filter := fun hr => absurd hr Bool.noConfusion
      drained := fun _ => hrunning }
  refine ⟨trivial, fun u _ => ?_, ?_⟩
  · exact { Rely.refl (Q := Q) w with
      sound := hsound
      unregistered := fun _ => rfl }
  · exact { hq with
      sound := hsound hq.sound
      unregistered := fun _ => rfl }

theorem stepped_clearFilter (hq : AtPlace Q t q w) (hu : q.unregistered = true) :
    Stepped Q t .clearFilter w { w with filter := false } q := by
  have hr : w.registered = false := hq.unregistered hu
  have hfilter : w.registered = true → false = true := fun h => by
    rw [hr] at h
    cases h
  refine ⟨trivial, fun u _ => ?_, ?_⟩
  · exact { Rely.refl (Q := Q) w with sound := fun hs => { hs with filter := hfilter } }
  · exact { hq with sound := { hq.sound with filter := hfilter } }

/-- **What a step does**: an allowed call is guarded, keeps what the others rely on and brings
the thread to the next place. -/
theorem stepped {a : PortCall} {r : a.Answer} (hq : AtPlace Q t q w) (ha : Allowed t q a)
    (hx : portExec w a (.ok r) w')
    (hquiet : Q → a = .closeCommunicationPort → ∀ p < w.accepted.length, w.Placed p) :
    ∃ q', Moves q a r q' ∧ Stepped Q t a w w' q' := by
  cases a with
  | enterOperation u =>
    obtain ⟨rfl, -⟩ := ha
    obtain ⟨hr, rfl⟩ := hx
    exact ⟨_, rfl, stepped_enter hq hr⟩
  | leaveOperation u =>
    obtain rfl : u = t := ha
    obtain rfl := hx
    exact ⟨_, rfl, stepped_leave hq⟩
  | handle a =>
    obtain rfl : w' = w := hx
    exact ⟨_, rfl, stepped_same hq trivial⟩
  | loadServicePid =>
    obtain ⟨-, rfl⟩ := hx
    exact ⟨_, rfl, stepped_same hq trivial⟩
  | storeServicePid pid =>
    obtain rfl := hx
    exact ⟨_, rfl, stepped_storePid hq pid⟩
  | acquireFastMutex u =>
    obtain rfl : u = t := ha
    obtain ⟨hfree, rfl⟩ := hx
    exact ⟨_, ⟨_, rfl⟩, stepped_acquire hq hfree⟩
  | releaseFastMutex u =>
    obtain ⟨rfl, hlocked⟩ := ha
    obtain ⟨x, hx'⟩ := Option.isSome_iff_exists.1 hlocked
    obtain rfl := hx
    exact ⟨_, rfl, stepped_release hq hx'⟩
  | clientPortSet =>
    obtain ⟨x, hx'⟩ := Option.isSome_iff_exists.1 ha
    obtain ⟨rfl, rfl⟩ := hx
    refine ⟨q, ⟨rfl, fun port hport => ?_⟩, stepped_same hq (hq.holds hx')⟩
    rw [hq.port port hport]
  | sendMessage event =>
    obtain ⟨hentered, p, hp⟩ := ha
    obtain rfl : w' = w := hx
    -- the callback is running, so the filter is registered
    have hr : w'.registered = true := by
      by_contra hr
      have hempty := hq.sound.drained (Bool.eq_false_of_not_eq_true hr)
      have hmem := hq.running.2 hentered
      rw [hempty] at hmem
      cases hmem
    exact ⟨q, rfl, stepped_same hq ⟨hq.holds hp, hq.connected hp, hr, hq.sound.filter hr⟩⟩
  | closeClientPort =>
    obtain ⟨p, hp⟩ := ha
    obtain rfl := hx
    exact ⟨_, rfl, stepped_close hq hp⟩
  | storeClientPort port =>
    obtain ⟨hlocked, hpending⟩ := ha
    obtain rfl := hx
    cases port with
    | none => exact ⟨_, rfl, stepped_clear hq hlocked hpending⟩
    | some p => exact ⟨_, rfl, stepped_adopt hq hlocked hpending⟩
  | acceptConnection u =>
    obtain ⟨rfl, hpending⟩ := ha
    obtain ⟨hlistening, rfl, rfl⟩ := hx
    exact ⟨_, rfl, stepped_accept hq hlistening hpending⟩
  | serverPortSet =>
    obtain ⟨rfl, rfl⟩ := hx
    refine ⟨_, rfl, trivial, fun _ _ => Rely.refl w', { hq with deaf := fun hd => ?_ }⟩
    simp only [Bool.or_eq_true, Bool.not_eq_true'] at hd
    rcases hd with hd | hd
    · exact hq.deaf hd
    · exact hq.sound.serverPort hd
  | closeCommunicationPort =>
    obtain rfl := hx
    exact ⟨_, rfl, stepped_deaf hq fun hQ => hquiet hQ rfl⟩
  | clearServerPort =>
    obtain rfl := hx
    exact ⟨_, rfl, stepped_clearServer hq ha⟩
  | filterSet =>
    obtain ⟨-, rfl⟩ := hx
    exact ⟨_, rfl, stepped_same hq trivial⟩
  | unregisterFilter =>
    obtain ⟨hrunning, rfl⟩ := hx
    exact ⟨_, rfl, stepped_unregister hq hrunning⟩
  | clearFilter =>
    obtain rfl := hx
    exact ⟨_, rfl, stepped_clearFilter hq ha⟩

/-! ## Programs -/

/-- If `Q`, the server port is closed quietly. -/
def Quietly (Q : Prop) (h : PortHistory) (w : PortWorld) (l : PortEvent) : Prop :=
  Q → ClosesQuietly h w l

theorem unloading_cons {l : PortEvent} :
    Unloading t ((w, l) :: h) ↔ startsUnload t l = true ∨ Unloading t h := by
  simp only [Unloading, List.mem_cons, exists_eq_or_imp]

theorem startsUnload_iff {o : PortOperation} :
    startsUnload t (.call u (u, o)) = true ↔ u = t ∧ o = .unload := by
  cases o with
  | unload => simp [startsUnload]
  | _ => simp [startsUnload]

/-- What a thread at a place knows, and the steps from there. -/
def portPlaces (Q : Prop) : Places portDriver (Quietly Q) Place where
  knows t q x := AtPlace Q t q x.2 ∧ (Unloading t x.1 → q.called = true)
  rely t x y := Rely Q t x.2 y.2 ∧ (Unloading t x.1 ↔ Unloading t y.1)
  guard t x a := Guarded t x.2 a
  allows := Allowed
  moves _ q a r q' := ∃ v, r = .ok v ∧ Moves q a v q'
  refl _ x := ⟨Rely.refl x.2, Iff.rfl⟩
  trans hxy hyz := ⟨hxy.1.trans hyz.1, hxy.2.trans hyz.2⟩
  stable hr hx := ⟨hx.1.stable hr.1, fun hu => hx.2 (hr.2.2 hu)⟩
  step {t q x a r y} hx ha hs := by
    obtain ⟨hexec, hquiet, hy⟩ := hs
    have hcalled : ∀ u, Unloading u x.1 ↔ Unloading u y.1 := fun u => by
      rw [hy, unloading_cons]
      exact ⟨.inr, fun h => h.resolve_left Bool.false_ne_true⟩
    cases r with
    | error e => exact e.elim
    | ok v =>
      obtain ⟨q', hmoves, hstepped⟩ := stepped hx.1 ha hexec fun hQ he => by
        subst he
        exact hquiet hQ
      refine ⟨hstepped.guarded, fun u hu => ⟨hstepped.others u hu, hcalled u⟩, q', ⟨v, rfl, hmoves⟩,
        hstepped.place, fun hu => ?_⟩
      rw [hmoves.called]
      exact hx.2 ((hcalled t).2 hu)
  call {t u h w o} htu := by
    refine ⟨Rely.refl w, ?_⟩
    obtain ⟨t', o⟩ := o
    rw [unloading_cons]
    refine ⟨.inr, fun h => h.resolve_left fun he => ?_⟩
    cases o with
    | unload => exact htu (of_decide_eq_true he)
    | _ => cases he
  env he := he.elim

/-- From place `q` the program leads to places of `R`. -/
abbrev Leads {α : Type} (Q : Prop) (t : ThreadId) (c : PortTask α) (q : Place)
    (R : Place → Prop) : Prop := (portPlaces Q).Leads t c q fun _ => R

variable {α : Type} {R : Place → Prop} {b : Bool}

/-- **One call, then the rest.** -/
theorem leads_port {a : PortCall} {f : a.Answer → PortTask α} (ha : Allowed t q a)
    (hf : ∀ v q', Moves q a v q' → Leads Q t (f v) q' R) : Leads Q t ((port a).bind f) q R := by
  refine Places.leads_then (P := portPlaces Q) ha (fun e => e.elim) fun v q' hq' => ?_
  obtain ⟨v, hv, hmoves⟩ := hq'
  cases hv
  exact hf _ q' hmoves

/-- One call at the end. -/
theorem leads_port_last {a : PortCall} (ha : Allowed t q a) (hR : ∀ v q', Moves q a v q' → R q') :
    Leads Q t (port a) q R := by
  refine Places.leads_last (P := portPlaces Q) ha fun r q' hq' => ?_
  obtain ⟨v, -, hmoves⟩ := hq'
  exact hR v q' hmoves

theorem leads_done {v : α} (hR : R q) : Leads Q t (.ret v) q R :=
  Places.leads_ret (P := portPlaces Q) hR

/-- **Sequencing.** -/
theorem leads_bind {β : Type} {R' : Place → Prop} {c : PortTask α} {f : α → PortTask β}
    (hc : Leads Q t c q R') (hf : ∀ v q', R' q' → Leads Q t (f v) q' R) :
    Leads Q t (c.bind f) q R := Places.Leads.bind hc (fun e => e.elim) hf

/-- Calls that are always allowed and lead nowhere else. -/
def Staying (a : PortCall) : Prop :=
  ∀ t q, Allowed t q a ∧ ∀ v q', Moves q a v q' → q' = q

theorem leads_staying {c : PortTask α} (hc : c.Only Staying) :
    Leads Q t c q fun q' => q' = q := by
  refine Places.leads_only (P := portPlaces Q) hc fun {a} ha => ⟨(ha t q).1, fun r q' hq' => ?_⟩
  obtain ⟨v, -, hmoves⟩ := hq'
  exact (ha t q).2 v q' hmoves

/-! ### The operation callbacks -/

/-- In an operation callback, without the lock. -/
def operating (shut called : Bool) : Place := { entered := true, shut, called }

variable {called : Bool}

theorem leads_shouldIgnore (data : Request) :
    Leads Q t (cachemonShouldIgnore data) q fun q' => q' = q := by
  have hload : Staying .loadServicePid := fun _ _ => ⟨trivial, fun _ _ h => h⟩
  refine leads_staying ?_
  unfold cachemonShouldIgnore
  split
  · exact trivial
  · split
    · exact trivial
    · refine Prog.Only.bind (Prog.only_perform hload) fun (pid : UInt64) => ?_
      split
      · exact Prog.Only.bind (Prog.only_perform hload) fun _ => trivial
      · exact trivial

theorem leads_sendToClient (event : CachemonEvent) :
    Leads Q t (sendToClient t event) (operating b called) fun q' => q' = operating b called := by
  refine leads_port rfl fun _ q₁ hq₁ => ?_
  obtain ⟨clientPort, rfl⟩ := hq₁
  refine leads_port rfl fun (connected : Bool) q₂ hq₂ => ?_
  obtain ⟨rfl, hconnected⟩ := hq₂
  have hset : connected = clientPort.isSome := hconnected clientPort rfl
  cases connected with
  | true =>
    obtain ⟨p, rfl⟩ := Option.isSome_iff_exists.1 hset.symm
    refine leads_port ⟨rfl, p, rfl⟩ fun status q₃ hq₃ => ?_
    obtain rfl := hq₃
    refine leads_port ⟨rfl, rfl⟩ fun _ q₄ hq₄ => ?_
    exact leads_done hq₄
  | false => exact leads_port ⟨rfl, rfl⟩ fun _ q₃ hq₃ => leads_done hq₃

theorem leads_implement (data : Request) (a : DriverCall) :
    Leads Q t (implement t data a) (operating b called) fun q' => q' = operating b called := by
  cases a with
  | shouldIgnore => exact leads_shouldIgnore data
  | sendMessage kind => exact leads_sendToClient (data.event kind)
  | _ => exact leads_port_last trivial fun _ _ h => h

theorem leads_operationCallback (data : Request) (callback : Callback Unit) :
    Leads Q t (operationCallback t data callback) { shut := b, called } fun q' =>
      q' = { shut := b, called } := by
  refine leads_port ⟨rfl, rfl⟩ fun _ q₁ hq₁ => ?_
  obtain rfl := hq₁
  have hcalls : callback.Only fun _ => True := Prog.only_of_forall (fun _ => trivial) callback
  have hall : Leads Q t (callback.expand (implement t data)) (operating b called) fun q' =>
      q' = operating b called :=
    Places.leads_expand (P := portPlaces Q) hcalls fun {a} _ => leads_implement data a
  refine leads_bind hall fun _ q₂ hq₂ => ?_
  obtain rfl := hq₂
  exact leads_port_last rfl fun _ _ h => h

/-! ### Connection, disconnection, message, unload -/

theorem leads_connect :
    Leads Q t (PortOperation.body t .connect) { shut := b, called } fun q' =>
      q' = { shut := b, called } := by
  refine leads_port ⟨rfl, rfl⟩ fun (clientPort : PortId) q₁ hq₁ => ?_
  obtain rfl := hq₁
  refine leads_port rfl fun _ q₂ hq₂ => ?_
  obtain ⟨old, rfl⟩ := hq₂
  refine leads_port rfl fun (connected : Bool) q₃ hq₃ => ?_
  obtain ⟨rfl, hconnected⟩ := hq₃
  have hset : connected = old.isSome := hconnected old rfl
  cases connected with
  | true =>
    -- the stale port is closed before its place is taken
    obtain ⟨p, rfl⟩ := Option.isSome_iff_exists.1 hset.symm
    refine leads_port ⟨p, rfl⟩ fun _ q₄ hq₄ => ?_
    obtain rfl := hq₄
    refine leads_port ⟨rfl, rfl⟩ fun _ q₅ hq₅ => ?_
    obtain rfl := hq₅
    exact leads_port_last ⟨rfl, rfl⟩ fun _ _ h => h
  | false =>
    obtain rfl : old = none := Option.not_isSome_iff_eq_none.1 (by simp [← hset])
    refine leads_port ⟨rfl, rfl⟩ fun _ q₄ hq₄ => ?_
    obtain rfl := hq₄
    exact leads_port_last ⟨rfl, rfl⟩ fun _ _ h => h

/-- The place of a thread that has dropped the client and released the lock. -/
def Place.dropped (q : Place) : Place :=
  { q with shut := ({ q with locked := some none } : Place).shutNow }

/-- The client is dropped, whatever the thread knew. -/
theorem leads_dropClient {rest : PortTask Unit} (hq : q.locked = none) (hpending : q.pending = none)
    (hrest : rest.Only Staying) :
    Leads Q t (dropClient t rest) q fun q' => q' = q.dropped := by
  have hend : Leads Q t (rest.bind fun _ => port (.releaseFastMutex t))
      { q with locked := some none } fun q' => q' = q.dropped := by
    refine leads_bind (leads_staying hrest) fun _ q₁ hq₁ => ?_
    obtain rfl := hq₁
    refine leads_port_last ⟨rfl, rfl⟩ fun _ q' hq' => ?_
    rw [hq', Place.dropped, ← hq]
  refine leads_port rfl fun _ q₁ hq₁ => ?_
  obtain ⟨old, rfl⟩ := hq₁
  refine leads_port rfl fun (connected : Bool) q₂ hq₂ => ?_
  obtain ⟨rfl, hconnected⟩ := hq₂
  have hset : connected = old.isSome := hconnected old rfl
  cases connected with
  | true =>
    obtain ⟨p, rfl⟩ := Option.isSome_iff_exists.1 hset.symm
    refine leads_port ⟨p, rfl⟩ fun _ q₃ hq₃ => ?_
    obtain rfl := hq₃
    refine leads_port ⟨rfl, hpending⟩ fun _ q₄ hq₄ => ?_
    obtain rfl : q₄ = { q with locked := some none } := by
      rw [hq₄]
      simp only [hpending]
    exact hend
  | false =>
    obtain rfl : old = none := Option.not_isSome_iff_eq_none.1 (by simp [← hset])
    exact hend

theorem leads_disconnect :
    Leads Q t (cachemonDisconnect t) { shut := b, called } fun q' =>
      q' = { shut := b, called } :=
  leads_dropClient rfl rfl (Prog.only_perform fun _ _ => ⟨trivial, fun _ _ h => h⟩)

theorem leads_message (inputBufferLength : UInt32) (command : CachemonCommand) :
    Leads Q t (PortOperation.body t (.message inputBufferLength command)) q fun q' => q' = q := by
  have hstore : ∀ pid, Staying (.storeServicePid pid) := fun _ _ _ => ⟨trivial, fun _ _ h => h⟩
  refine leads_staying (Prog.Only.bind ?_ fun _ => trivial)
  unfold cachemonMessage
  split
  · exact trivial
  · split
    · exact trivial
    · split
      · exact Prog.Only.bind (Prog.only_perform (hstore _)) fun _ => trivial
      · exact trivial

theorem leads_unregister :
    Leads Q t unregister q fun q' => ∃ u, q' = { q with unregistered := u } := by
  refine leads_port trivial fun (registered : Bool) q₁ hq₁ => ?_
  obtain rfl := hq₁
  cases registered with
  | true =>
    refine leads_port trivial fun _ q₂ hq₂ => ?_
    obtain rfl := hq₂
    exact leads_port_last rfl fun _ _ h => ⟨true, h⟩
  | false => exact leads_done ⟨q₁.unregistered, rfl⟩

/-- After the server port is closed. -/
theorem leads_unload_deaf :
    Leads Q t ((dropClient t (pure ())).bind fun _ => unregister) { deaf := true, shut := b, called }
      fun q' => ∃ u, q' = { deaf := true, unregistered := u, shut := true, called } := by
  have hnothing : (pure () : PortTask Unit).Only Staying := trivial
  refine leads_bind (leads_dropClient rfl rfl hnothing) fun _ q₁ hq₁ => ?_
  obtain rfl := hq₁
  exact leads_unregister

theorem leads_unload :
    Leads Q t (cachemonUnload t) { shut := b, called }
      fun q' => ∃ u, q' = { deaf := true, unregistered := u, shut := true, called } := by
  refine leads_port trivial fun (listening : Bool) q₁ hq₁ => ?_
  obtain rfl := hq₁
  cases listening with
  | true =>
    refine leads_port trivial fun _ q₂ hq₂ => ?_
    obtain rfl := hq₂
    refine leads_port rfl fun _ q₃ hq₃ => ?_
    obtain rfl := hq₃
    exact leads_unload_deaf
  | false => exact leads_unload_deaf

/-! ## Runs -/

/-- A thread between two operations: once it has unloaded, nothing is open. -/
def Resting (_ : ThreadId) (q : Place) : Prop :=
  q.entered = false ∧ q.locked = none ∧ q.pending = none ∧ (q.called = true → q.shut = true)

/-- What a thread may forget. -/
theorem AtPlace.forget (hq : AtPlace Q t q w) (hrest : Resting t q) :
    AtPlace Q t { shut := q.shut, called := q.called } w where
  sound := hq.sound
  running := by rw [hq.running, hrest.1]
  lock := by rw [hq.lock, hrest.2.1]
  port x hx := by cases hx
  accepted p hp := by cases hp
  placed p hp := by rw [hq.placed p hp, hrest.2.2.1]
  deaf hd := by cases hd
  unregistered hu := by cases hu
  shut := hq.shut

theorem bodies_rest : (portPlaces Q).Bodies Resting := by
  intro t h c o q hm _ hrest hx
  obtain ⟨t', o⟩ := o
  obtain rfl : t' = t := hm
  have hplace := hx.1.forget hrest
  have hend : ∀ q', q' = { shut := q.shut, called := q.called } → Resting t' q' := by
    rintro q' rfl
    exact ⟨rfl, rfl, rfl, hrest.2.2.2⟩
  by_cases ho : o = .unload
  · subst ho
    refine ⟨{ shut := q.shut, called := true }, ⟨{ hplace with }, fun _ => rfl⟩, ?_⟩
    refine Places.Leads.mono leads_unload fun _ q' hq' => ?_
    obtain ⟨u, rfl⟩ := hq'
    exact ⟨rfl, rfl, rfl, fun _ => rfl⟩
  · refine ⟨{ shut := q.shut, called := q.called }, ⟨hplace, fun hu => hx.2 ?_⟩, ?_⟩
    · rw [unloading_cons, startsUnload_iff] at hu
      exact hu.resolve_left fun he => ho he.2
    · refine Places.Leads.mono (R := fun _ q' => q' = { shut := q.shut, called := q.called }) ?_
        fun _ q' hq' => hend q' hq'
      cases o with
      | postCreate data | preRead data | preWrite data | preCleanup data
      | preSetInformation data => exact leads_operationCallback data _
      | connect => exact leads_connect
      | disconnect => exact leads_disconnect
      | message n command => exact leads_message n command
      | unload => exact absurd rfl ho

theorem begins_rest : (portPlaces Q).Begins Resting (.idle {}) := by
  refine fun t => ⟨{}, ⟨?_, fun hu => ?_⟩, leads_done ⟨rfl, rfl, rfl, fun h => by cases h⟩⟩
  · refine ⟨⟨?_, List.nodup_nil, ?_, fun _ => rfl, ?_, ?_, ?_⟩, ?_, ?_, ?_, ?_, ?_, ?_, ?_, ?_⟩
    all_goals simp [Config.idle, PortWorld.AcceptedBy]
  · obtain ⟨x, hx, -⟩ := hu
    cases hx

/-- A thread between two callbacks. -/
theorem rests_of_run (hrun : PortRun h c) (hm : Meets (Quietly Q) h) (hd : (c.prog t).Done) :
    ∃ q, Resting t q ∧ AtPlace Q t q c.world ∧ (Unloading t h → q.called = true) :=
  Places.rests_of_run bodies_rest begins_rest hrun hm hd

theorem quietly_false (h : PortHistory) : Meets (Quietly False) h :=
  meets_of_forall (fun _ _ _ hQ => hQ.elim) h

theorem guarded_of_run (hrun : PortRun h c) : Meets KeepsGuards h :=
  Places.guard_of_run bodies_rest begins_rest hrun (quietly_false h)

/-- Some thread has started nothing. -/
theorem exists_not_started (h : PortHistory) : ∃ t, t ∉ h.filterMap fun x => x.2.starter := by
  obtain ⟨t, ht⟩ := Infinite.exists_notMem_finset (h.filterMap fun x => x.2.starter).toFinset
  exact ⟨t, fun hmem => ht (List.mem_toFinset.2 hmem)⟩

/-- **The client port is safe.** In every run of the callbacks, on any number of threads and in
any order: `g_client_port` is read and stored by the thread that holds the lock; what is sent
or closed through it is a port that was accepted and not closed before, and a send finds the
filter registered; no port is closed twice; and a thread between two callbacks does not hold
the lock, and every port of its connections is closed or is the client port. -/
theorem clientPort_safe (hrun : PortRun h c) :
    Meets KeepsGuards h ∧ c.world.closed.Nodup ∧
      ∀ t, (c.prog t).Done → c.world.lock ≠ some t ∧
        ∀ p, c.world.AcceptedBy t p → c.world.Placed p := by
  have hm : Meets (Quietly False) h := quietly_false h
  refine ⟨guarded_of_run hrun, ?_, fun t hd => ?_⟩
  · -- a thread that has not started anything is idle
    obtain ⟨t, ht⟩ := exists_not_started h
    have hd : (c.prog t).Done := by
      rw [hrun.idle_of_not_started ht]
      trivial
    obtain ⟨q, -, hplace, -⟩ := rests_of_run hrun hm hd
    exact hplace.sound.nodup
  · obtain ⟨q, hrest, hplace, -⟩ := rests_of_run hrun hm hd
    refine ⟨fun hlock => ?_, fun p hp => (hplace.placed p hp).2 (by simp [hrest.2.2.1])⟩
    have hlocked := hplace.lock.1 hlock
    rw [hrest.2.1] at hlocked
    cases hlocked

/-- A client connects, a read is sent to it, and another client takes its place. -/
def replacedClient : List (Move ThreadId (ThreadId × PortOperation) Unit) :=
  portSteps 1 .connect 5 ++ portSteps 2 (.preRead { requestorPid := 7, name := wide "a" }) 10 ++
    portSteps 3 .connect 6

/-- One port has been closed and the other is the client port. -/
theorem clientPort_safe_replaced : ∃ h c, PortRun h c ∧
    (c.world.clientPort = some 1 ∧ c.world.closed = [0]) ∧
    Meets KeepsGuards h ∧ c.world.closed.Nodup ∧
      ∀ t, (c.prog t).Done → c.world.lock ≠ some t ∧
        ∀ p, c.world.AcceptedBy t p → c.world.Placed p := by
  obtain ⟨h, c, hrun, hworld⟩ := exists_portRun replacedClient
    (fun x => x.2.world.clientPort = some 1 ∧ x.2.world.closed = [0]) (by decide)
  exact ⟨h, c, hrun, hworld, clientPort_safe hrun⟩

/-- **One call leaves what is shut shut**: no port is accepted, and there is none to store. -/
theorem shut_exec {a : PortCall} {r : Except Empty a.Answer} (hx : portExec w a r w')
    (ha : Guarded t w a) (hw : w.Shut) : w'.Shut := by
  obtain ⟨hdeaf, hnone, hclosed⟩ := hw
  cases r with
  | error e => exact e.elim
  | ok v =>
    cases a with
    | acceptConnection u =>
      rw [hx.1] at hdeaf
      cases hdeaf
    | storeClientPort port =>
      cases port with
      | none => cases hx; exact ⟨hdeaf, rfl, hclosed⟩
      | some p =>
        obtain ⟨-, -, hacc, hopen⟩ := ha
        obtain ⟨hlt, -⟩ := List.getElem?_eq_some_iff.1 hacc
        exact absurd (hclosed p hlt) hopen
    | closeClientPort =>
      obtain ⟨-, p, hp, -⟩ := ha
      rw [hnone] at hp
      cases hp
    | closeCommunicationPort => cases hx; exact ⟨rfl, hnone, hclosed⟩
    | enterOperation | acquireFastMutex | unregisterFilter => rw [hx.2]; exact ⟨hdeaf, hnone, hclosed⟩
    | loadServicePid | clientPortSet | serverPortSet | filterSet =>
      rw [hx.2]
      exact ⟨hdeaf, hnone, hclosed⟩
    | _ => cases hx; exact ⟨hdeaf, hnone, hclosed⟩

/-- **What is shut stays so**, whatever the callbacks do. -/
theorem shut_of_run {late : PortHistory} {c' : PortState} (hrun : PortRun h c)
    (hw : c.world.Shut) (hlate : Run portDriver c late c') : c'.world.Shut := by
  induction hlate with
  | init => exact hw
  | @step late c₁ c₂ l hlate hs ih =>
    have hguard : Meets KeepsGuards ((c₁.world, l) :: (late ++ h)) :=
      guarded_of_run ((hrun.append hlate).step hs)
    cases hs with
    | call hd hm => exact ih
    | act hk hx => exact shut_exec hx (hguard.1 _ _ _ rfl) ih
    | env he => exact he.elim

/-- **An unload leaves no port open**, and none is opened after it: if each time the server
port is closed all accepted ports are closed or stored, then once a thread that has started an
unload is between two callbacks, the client port is `NULL` and every port ever accepted is
closed, and this holds however the callbacks go on. -/
theorem unload_closes (hrun : PortRun h c) (hquiet : Meets ClosesQuietly h)
    (hu : Unloading t h) (hd : (c.prog t).Done) :
    (c.world.clientPort = none ∧ ∀ p < c.world.accepted.length, p ∈ c.world.closed) ∧
      ∀ late c', Run portDriver c late c' →
        c'.world.clientPort = none ∧ ∀ p < c'.world.accepted.length, p ∈ c'.world.closed := by
  have hm : Meets (Quietly True) h := hquiet.mono fun hq _ => hq
  obtain ⟨q, hrest, hplace, hcalled⟩ := rests_of_run hrun hm hd
  have hshut : c.world.Shut := hplace.shut (hrest.2.2.2 (hcalled hu)) trivial
  exact ⟨hshut.2, fun late c' hlate => (shut_of_run hrun hshut hlate).2⟩

/-- A client is connected when the driver unloads, and disconnects after that. -/
theorem unload_closes_client : ∃ h c late c', PortRun h c ∧ Run portDriver c late c' ∧
    late.length = 5 ∧ c.world.accepted.length = 2 ∧ c.world.clientPort = none ∧
    c'.world.clientPort = none ∧ ∀ p < c'.world.accepted.length, p ∈ c'.world.closed := by
  obtain ⟨h, c, hrun, hquiet, hu, hd, hlen, hlater⟩ :=
    exists_portRun (replacedClient ++ portSteps 0 .unload 11)
      (fun x => Meets ClosesQuietly x.1 ∧ Unloading 0 x.1 ∧ (x.2.prog 0).Done ∧
        x.2.world.accepted.length = 2 ∧ (portPlayer.play (portSteps 3 .disconnect 4) ([], x.2)).any
          (fun y => decide (y.1.length = 5)) = true) (by decide)
  obtain ⟨late, c', hlate, hfive⟩ := portPlayer.exists_run (portSteps 3 .disconnect 4)
    (fun y => y.1.length = 5) hlater
  have hcloses := unload_closes hrun hquiet hu hd
  exact ⟨h, c, late, c', hrun, hlate, hfive, hlen, hcloses.1.1, hcloses.2 late c' hlate⟩

-- a connection callback that the unload overtakes leaves its port open
example : ∃ h c, PortRun h c ∧ Unloading 0 h ∧ (∀ t < 2, (c.prog t).Done) ∧
    c.world.clientPort = some 0 ∧ 0 ∉ c.world.closed :=
  exists_portRun (portSteps 1 .connect 1 ++ portSteps 0 .unload 9 ++ List.replicate 4 (.act 1))
    (fun x => Unloading 0 x.1 ∧ (∀ t < 2, (x.2.prog t).Done) ∧ x.2.world.clientPort = some 0 ∧
      0 ∉ x.2.world.closed) (by decide)

end SsdCache.ClientPort
