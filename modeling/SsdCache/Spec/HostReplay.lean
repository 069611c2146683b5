import SsdCache.Spec.Replay
import SsdCache.Spec.Tray

/-!
# Executing the service process

`HostCall.does` answers a call of the host when nothing fails and Windows has no say, so
that programs of the host can be evaluated.
-/

namespace SsdCache

open Atomic

variable {V : Type} {sv : Service V} {faults : Faults} {w w' : HostWorld V}

/-- Nothing goes wrong. -/
def noFaults : Faults := ⟨False, False⟩

/-- Nothing is ignored. -/
def noFilters : Filters := ⟨fun _ => false, fun _ => false, fun _ => false⟩

/-- The answer of a call of the host that does not fail. -/
def HostCall.does (w : HostWorld V) : (a : HostCall) → Option (Except String a.Answer × HostWorld V)
  | loadConfig => some (.ok w.config, w)
  | saveConfig config => some (.ok (), { w with config })
  | openIndex => some (.ok (), w)
  | drive a => some (.ok (a.run w.drives).1, { w with drives := (a.run w.drives).2 })
  | setRunning => some (.ok (), { w with running := true })
  | signalStop => some (.ok (), { w with stopSignalled := true })
  | storeCachingActive active => some (.ok (), { w with cachingActive := active })
  | loadCachingActive => some (.ok w.cachingActive, w)
  | publish => some (.ok (), { w with published := true })
  | setPublishedPaused paused =>
    some (.ok (), if w.published then
      { w with service := { w.service with memory := { w.service.memory with paused } } }
    else w)
  | connect => some (.ok (), { w with connected := true })
  | reply _ _ => some (.ok (), w)
  | controlService _ => some (.ok true, w)
  -- what these answer is up to Windows
  | getMessage | processImage _ => none

theorem HostCall.does_ok {a : HostCall} {r : Except String a.Answer} (h : a.does w = some (r, w')) :
    a.Does faults w r w' := by
  cases a <;> simp only [HostCall.does, Option.some.injEq, Prod.mk.injEq, reduceCtorEq] at h
  all_goals obtain ⟨rfl, rfl⟩ := h
  case loadConfig => exact ⟨rfl, rfl⟩
  case drive a => exact ⟨_, .inl rfl, rfl⟩
  case loadCachingActive => exact ⟨rfl, rfl⟩
  case controlService mode => exact ⟨.inl rfl, rfl⟩
  all_goals rfl

/-- **When nothing goes wrong there is one answer.** -/
theorem HostCall.Does.eq_does {a : HostCall} {x : Except String a.Answer × HostWorld V}
    {r : Except String a.Answer} (hx : a.does w = some x) (h : a.Does noFaults w r w') :
    x = (r, w') := by
  cases r with
  | error e => cases a <;> first | exact h.elim | exact h.1.elim
  | ok v =>
    cases a with
    | getMessage => cases hx
    | processImage pid => cases hx
    | drive a =>
      obtain ⟨drives, hrun | ⟨hf, -⟩, rfl⟩ := h
      · obtain ⟨rfl, rfl⟩ := Prod.mk.inj hrun
        exact (Option.some.inj hx).symm
      · exact hf.elim
    | controlService mode =>
      obtain ⟨rfl | hf, rfl⟩ := h
      · exact (Option.some.inj hx).symm
      · exact hf.elim
    | loadConfig => obtain ⟨rfl, rfl⟩ := h; exact (Option.some.inj hx).symm
    | loadCachingActive => obtain ⟨rfl, rfl⟩ := h; exact (Option.some.inj hx).symm
    | _ => cases h; exact (Option.some.inj hx).symm

/-- The answers of the calls that a request of the tray makes. -/
def hostAnswer (w : HostWorld V) :
    (a : hostCalls.Act) → Option (Except String (hostCalls.Resp a) × HostWorld V)
  | .inl _ => none
  | .inr a => a.does w

theorem hostExec_answer {a : hostCalls.Act} {r : Except String (hostCalls.Resp a)}
    (h : hostAnswer w a = some (r, w')) : hostExec sv faults w a r w' := by
  cases a with
  | inl a => cases h
  | inr a => exact HostCall.does_ok h

theorem hostExec_unique {a : hostCalls.Act} {x : Except String (hostCalls.Resp a) × HostWorld V}
    {r : Except String (hostCalls.Resp a)} (hx : hostAnswer w a = some x)
    (h : hostExec sv noFaults w a r w') : x = (r, w') := by
  cases a with
  | inl a => cases hx
  | inr a => exact HostCall.Does.eq_does hx h

/-- The answers of the service on a disk, when Windows has these to deliver. -/
def serviceAnswer (message : Option CachemonEvent) (image : WString) (w : HostWorld Disk) :
    (a : hostCalls.Act) → Option (Except String (hostCalls.Resp a) × HostWorld Disk)
  | .inl a => (answer w.service a).map fun x => (x.1, { w with service := x.2 })
  | .inr .getMessage => some (.ok message, w)
  | .inr (.processImage _) => some (.ok image, w)
  | .inr a => a.does w

theorem hostExec_serviceAnswer {sv : Service Disk} (hsv : sv.platform = Disk.platform)
    {message : Option CachemonEvent} {image : WString} {w w' : HostWorld Disk} {a : hostCalls.Act}
    {r : Except String (hostCalls.Resp a)} (h : serviceAnswer message image w a = some (r, w')) :
    hostExec sv faults w a r w' := by
  rcases a with a | a
  · obtain ⟨⟨x, service⟩, hx, h⟩ := Option.map_eq_some_iff.1 h
    cases h
    exact ⟨service, exec_answer hsv hx, rfl⟩
  · cases a with
    | getMessage => cases h; rfl
    | processImage pid => cases h; rfl
    | _ => exact HostCall.does_ok h

end SsdCache
