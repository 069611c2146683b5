import SsdCache.Spec.HostReplay

/-!
# The running service

The threads of the service process over one `HostWorld`: `service_main` runs the startup,
the control thread handles one control after another, and the worker and the reader run as
soon as the startup has created them. What a stop does is not part of it.
-/

namespace SsdCache

open Atomic

/-- The threads of the service process. -/
inductive HostParty
  | serviceMain
  | controls
  | worker
  | reader
  deriving DecidableEq, Repr

instance : Inhabited HostParty := ⟨.serviceMain⟩

/-- What the threads do once the process runs: the control thread handles a control, the
worker and the reader make a pass. -/
inductive HostOperation
  | control (control : Control)
  | workerPass
  | readerPass

/-- What `run_worker` and the activity source were given. -/
structure Hosting (V : Type) where
  sv : Service V
  faults : Faults
  filters : Filters
  fold : CaseFold
  sourceUnc : WString

variable {V : Type}

def HostOperation.body (s : Hosting V) : HostOperation → HostTask Unit
  | .control c => handlerThunk c
  | .workerPass => lift (workerIteration s.sv)
  | .readerPass => readerIteration s.sv s.filters s.fold s.sourceUnc

abbrev HostState (V : Type) : Type := Atomic.Config hostCalls String (HostWorld V) HostParty

abbrev HostEvent : Type := Label hostCalls String HostParty HostOperation

abbrev HostHistory (V : Type) : Type := Hist hostCalls String (HostWorld V) HostParty HostOperation

/-- `service_main` starts nothing else; the service gets no controls that stop it. -/
def hostMenu : HostParty → HostState V → HostOperation → Bool
  | .controls, _, .control .stop | .controls, _, .control .shutdown => false
  | .controls, _, .control _ => true
  | .worker, c, .workerPass => c.world.service.memory.alive
  | .reader, c, .readerPass => c.world.connected
  | _, _, _ => false

/-- Time passes. -/
def hostTick (w w' : HostWorld V) : Prop :=
  ∃ service, tick w.service service ∧ w' = { w with service }

def hosting (s : Hosting V) :
    Machine hostCalls String (HostWorld V) HostParty HostOperation where
  body := HostOperation.body s
  menu t c o := hostMenu t c o = true
  exec := hostExec s.sv s.faults
  env := hostTick

/-- The process begins with the startup. -/
def starting (filters : Filters) (w : HostWorld V) : HostState V where
  world := w
  prog
    | .serviceMain => runWorker filters
    | _ => .ret ()

/-- Plays schedules of the service on a disk, on which the driver sends nothing. -/
def hostPlayer (s : Hosting Disk) (hsv : s.sv.platform = Disk.platform) : Player (hosting s) ℤ where
  act := serviceAnswer none []
  env clock w := { w with service := { w.service with clock } }
  menu := hostMenu
  envOk clock w := w.service.clock ≤ clock
  act_ok := hostExec_serviceAnswer hsv
  menu_ok := id
  env_ok {clock _} h := ⟨_, ⟨clock, of_decide_eq_true h, rfl⟩, rfl⟩

end SsdCache
