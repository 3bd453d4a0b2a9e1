import FlameSdd.SysLib.Runs
/-!
# The server that Level2 connects to

`_do_server_work` makes a `tcp_server`, binds it and listens, and goes on with
its loop whatever came of that: the callbacks only log. A server that is not
null is never made again, so the first attempt is the only one, and
`listens_iff` says that it has to succeed.
-/
open SysLib

namespace FlameSdd.ServerWork

/-! ## `tcp_server` -/

structure TcpServer where
  bound : Bool
  listening : Bool
  /-- The thread that accepts connections was started. -/
  accepting : Bool
  deriving DecidableEq

/-- What the callbacks and the handler of the loop write. -/
inductive Log where
  | bindError (message : String)
  | listenError
  | standardException
  deriving DecidableEq

/-- What `inet_pton` and `::bind` return. -/
inductive BindStatus where
  | notSupported
  | invalid
  | refused
  | bound
  deriving DecidableEq

/-- What the system answers in one turn of the loop. -/
structure Env where
  bindStatus : BindStatus
  /-- `::listen` does not return -1. -/
  listens : Bool
  /-- `std::thread` does not throw. -/
  threadStarts : Bool
  deriving DecidableEq

def bind (server : TcpServer) (env : Env) : TcpServer × List Log :=
  match env.bindStatus with
  | .notSupported => (server, [.bindError "Invalid address. Address type not supported."])
  | .invalid => (server, [.bindError "AF_INET is not supported. Please send message to developer."])
  | .refused => (server, [.bindError "Cannot bind the socket."])
  | .bound => ({ server with bound := true }, [])

/-- A socket may listen that was never bound. -/
def listen (server : TcpServer) (env : Env) : TcpServer × List Log :=
  if env.listens then
    if env.threadStarts then ({ server with listening := true, accepting := true }, [])
    else ({ server with listening := true }, [.standardException])
  else (server, [.listenError])

/-! ## The loop -/

structure State where
  tcpServer : Option TcpServer
  log : List Log
  deriving DecidableEq

def init : State := ⟨none, []⟩

/-- `new tcp_server`, `bind` and `listen`, one after the other. -/
def makeServer (env : Env) : TcpServer × List Log :=
  let (server, log) := bind ⟨false, false, false⟩ env
  let (server, log') := listen server env
  (server, log ++ log')

/-- One turn of the loop of `_do_server_work`. -/
def step (s : State) (env : Env) : State :=
  match s.tcpServer with
  | none => ⟨some (makeServer env).1, s.log ++ (makeServer env).2⟩
  | some _ => s

/-! ## What it is for -/

/-- The server, if there is one, serves. -/
def Serves (s : State) : Prop :=
  ∀ server, s.tcpServer = some server → server.bound = true ∧ server.listening = true ∧ server.accepting = true

/-- The next turn makes a server. -/
def Tries (s : State) : Prop := s.tcpServer = none

def Env.Succeeds (env : Env) : Prop := env.bindStatus = .bound ∧ env.listens = true ∧ env.threadStarts = true

/-- After the turn the server serves, and an attempt that failed is repeated by
the next turn. -/
def Listens (s : State) (env : Env) : Prop :=
  Serves (step s env) ∧ (Tries s → ¬env.Succeeds → Tries (step s env))

/-! ## What it does -/

theorem makeServer_serves_iff (env : Env) :
    ((makeServer env).1.bound = true ∧ (makeServer env).1.listening = true ∧ (makeServer env).1.accepting = true) ↔
      env.Succeeds := by
  obtain ⟨b, l, t⟩ := env
  cases b <;> cases l <;> cases t <;> simp [makeServer, bind, listen, Env.Succeeds]

/-- A server that was made stays, dead or alive. -/
theorem step_of_some {s : State} {server : TcpServer} (h : s.tcpServer = some server) (env : Env) : step s env = s := by
  rw [step, h]

/-- An attempt leaves a server behind, so it is the last one. -/
theorem not_tries_step (s : State) (env : Env) : ¬Tries (step s env) := by
  unfold Tries
  cases h : s.tcpServer with
  | none => simp [step, h]
  | some server => simp [step_of_some h, h]

theorem listens_of_serving {s : State} (hs : Serves s) (hn : ¬Tries s) (env : Env) : Listens s env := by
  obtain ⟨server, h⟩ := Option.ne_none_iff_exists'.1 hn
  refine ⟨?_, fun ht => absurd ht hn⟩
  rwa [step_of_some h]

theorem listens_init_iff (env : Env) : Listens init env ↔ env.Succeeds := by
  have hserves : Serves (step init env) ↔ env.Succeeds := by
    rw [← makeServer_serves_iff]
    simp [Serves, step, init]
  constructor
  · rintro ⟨hs, -⟩
    exact hserves.1 hs
  · intro h
    exact ⟨hserves.2 h, fun _ hf => absurd h hf⟩

/-- Every turn of a run leaves a server that serves, or is followed by another
attempt, exactly when the first attempt succeeds. -/
theorem listens_iff (evs : List Env) : StepsMeet step Listens init evs ↔ ∀ env ∈ evs.head?, env.Succeeds := by
  cases evs with
  | nil => simp [StepsMeet]
  | cons env evs =>
    rw [StepsMeet, listens_init_iff]
    simp only [List.head?_cons, Option.mem_def, Option.some.injEq, forall_eq']
    refine and_iff_left_of_imp fun h => ?_
    have hs : Serves (step init env) := ((listens_init_iff env).2 h).1
    have hall := @stepsMeet_iff _ _ step (fun s => Serves s ∧ ¬Tries s) (fun _ _ => True) Listens
      (fun s e hs => iff_true_intro (listens_of_serving hs.1 hs.2 e)) (fun s e _ h' => ⟨h'.1, not_tries_step s e⟩)
      _ ⟨hs, not_tries_step _ _⟩ evs
    exact hall.2 (stepsMeet_true _ _)

/-- The port is taken in the first turn and free in the second, which does not
try it. The socket listens on whatever port the system gave it. -/
theorem not_listens_refused :
    ¬StepsMeet step Listens init [⟨.refused, true, true⟩, ⟨.bound, true, true⟩] ∧
      (runs step init [⟨.refused, true, true⟩, ⟨.bound, true, true⟩]).tcpServer = some ⟨false, true, true⟩ := by
  refine ⟨fun h => ?_, rfl⟩
  have hb := (h.1.1 ⟨false, true, true⟩ rfl).1
  exact Bool.false_ne_true hb

end FlameSdd.ServerWork
