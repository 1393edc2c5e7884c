import Majutsu.Cluster.BackendWorker

/-!
# The running system

Any number of request threads and one backend worker share the state of the
master. A step is one atomic action of one of them, the arrival or the answer
of a request, the passing of time, or a crash, after which only the files and
the backend are left and the master starts again.

The meaning `M` of the actions is a parameter: `Action.Does C` for the program,
a smaller relation for its runs in which every action meets some condition.
-/

namespace Majutsu.Cluster

/-- What an action may do: state before, answer, state after. -/
abbrev Semantics := (a : Action) → Master → Option a.Answer → Master → Prop

def Semantics.does (C : Config) : Semantics := fun a => a.Does C

def Semantics.only (M cond : Semantics) : Semantics := fun a s o s' => M a s o s' ∧ cond a s o s'

inductive Mode where
  | down
  | booting (program : Program Unit)
  | serving (worker : Option (Program Unit))

structure System where
  master : Master
  mode : Mode
  clients : Nat → Option (Program ClusterValue)

/-- The end of `master_server_state`: what happens before requests are accepted. -/
def bootProgram : Program Unit := do
  let _ ← locked .recoverMasterWriteIntents
  let _ ← locked .reconcileLegacyBackendQueue
  writeMasterStatus

/-- A new process: the counter of the store is recomputed, the rest of the memory is empty. -/
def Master.restarted (s : Master) : Master :=
  { s with
    storeBytes := s.store.bytes
    gcCatalog := { catalog := none, lastRefreshAttempt := none, error := none }
    batchDeleteEnabled := true
    listCache := fun _ => none }

def System.stopped (master : Master) : System :=
  { master, mode := .down, clients := fun _ => none }

inductive Event where
  | accept (thread : Nat) (hostId : String) (operation : ClusterOperation)
  | client (thread : Nat) (a : Action) (answer : a.Answer)
  | reply (thread : Nat) (answer : Except Failure ClusterValue)
  | wake
  | worker (a : Action) (answer : a.Answer)
  | sleep
  | crash
  /-- The process stops inside an action. -/
  | halt (a : Action)
  | start
  | boot (a : Action) (answer : a.Answer)
  | serve
  | abandon
  | tick (elapsed : Nat)
  | requestFlush

namespace System

def setClient (sys : System) (thread : Nat) (p : Option (Program ClusterValue)) :
    Nat → Option (Program ClusterValue) :=
  Function.update sys.clients thread p

@[simp] theorem setClient_self (sys : System) (t : Nat) (p : Option (Program ClusterValue)) :
    sys.setClient t p t = p :=
  Function.update_self ..

theorem setClient_of_ne {t t' : Nat} (ne : t' ≠ t) (sys : System)
    (p : Option (Program ClusterValue)) : sys.setClient t p t' = sys.clients t' :=
  Function.update_of_ne ne ..

inductive Step (C : Config) (M : Semantics) : System → Event → System → Prop where
  | accept {sys : System} {worker : Option (Program Unit)} {t : Nat} {hostId : String}
      {operation : ClusterOperation} :
      sys.mode = .serving worker → sys.clients t = none →
      Step C M sys (.accept t hostId operation)
        { sys with clients := sys.setClient t (some (handleRequest hostId operation)) }
  | client {sys : System} {t : Nat} {p p' : Program ClusterValue} {a : Action} {r : a.Answer}
      {m : Master} :
      sys.clients t = some p → Prog.Step M p sys.master a r p' m →
      Step C M sys (.client t a r)
        { sys with master := m, clients := sys.setClient t (some p') }
  | reply {sys : System} {t : Nat} {answer : Except Failure ClusterValue} :
      sys.clients t = some (Prog.ret answer) →
      Step C M sys (.reply t answer) { sys with clients := sys.setClient t none }
  | wake {sys : System} :
      sys.mode = .serving none →
      Step C M sys .wake { sys with mode := .serving (some (runBackendWorkerOnce C)) }
  | worker {sys : System} {p p' : Program Unit} {a : Action} {r : a.Answer} {m : Master} :
      sys.mode = .serving (some p) → Prog.Step M p sys.master a r p' m →
      Step C M sys (.worker a r) { sys with master := m, mode := .serving (some p') }
  | sleep {sys : System} {r : Except Failure Unit} :
      sys.mode = .serving (some (Prog.ret r)) →
      Step C M sys .sleep { sys with mode := .serving none }
  | crash {sys : System} : Step C M sys .crash (stopped sys.master)
  | haltClient {sys : System} {t : Nat} {p : Program ClusterValue} {a : Action} {m : Master} :
      sys.clients t = some p → Prog.Stops M p sys.master a m →
      Step C M sys (.halt a) (stopped m)
  | haltWorker {sys : System} {p : Program Unit} {a : Action} {m : Master} :
      sys.mode = .serving (some p) → Prog.Stops M p sys.master a m →
      Step C M sys (.halt a) (stopped m)
  | haltBoot {sys : System} {p : Program Unit} {a : Action} {m : Master} :
      sys.mode = .booting p → Prog.Stops M p sys.master a m →
      Step C M sys (.halt a) (stopped m)
  | start {sys : System} :
      sys.mode = .down →
      Step C M sys .start
        { sys with master := sys.master.restarted, mode := .booting bootProgram }
  | boot {sys : System} {p p' : Program Unit} {a : Action} {r : a.Answer} {m : Master} :
      sys.mode = .booting p → Prog.Step M p sys.master a r p' m →
      Step C M sys (.boot a r) { sys with master := m, mode := .booting p' }
  | serve {sys : System} :
      sys.mode = .booting (Prog.ret (.ok ())) →
      Step C M sys .serve { sys with mode := .serving none }
  | abandon {sys : System} {e : Failure} :
      sys.mode = .booting (Prog.ret (.error e)) → Step C M sys .abandon (stopped sys.master)
  | tick {sys : System} {elapsed : Nat} :
      Step C M sys (.tick elapsed)
        { sys with master := { sys.master with clock := sys.master.clock + elapsed } }
  | requestFlush {sys : System} :
      Step C M sys .requestFlush { sys with master := { sys.master with flushRequest := true } }

inductive Run (C : Config) (M : Semantics) : System → List Event → System → Prop where
  | nil {sys : System} : Run C M sys [] sys
  | cons {sys mid last : System} {e : Event} {es : List Event} :
      Step C M sys e mid → Run C M mid es last → Run C M sys (e :: es) last

/-- An installation without pending work: an arbitrary store, possibly of an older version
without receipts, and an arbitrary backend. -/
structure Initial (sys : System) : Prop where
  down : sys.mode = .down
  idle : sys.clients = fun _ => none
  queue : sys.master.queue = ∅
  intents : sys.master.intents = ∅
  receipts : sys.master.receipts = ∅
  localGc : sys.master.localGc = ∅

def Reachable (C : Config) (M : Semantics) (sys : System) : Prop :=
  ∃ init events, Initial init ∧ Run C M init events sys

end System

end Majutsu.Cluster
