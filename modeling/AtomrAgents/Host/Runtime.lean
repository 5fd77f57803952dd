import AtomrAgents.Core.Value
import AtomrAgents.Host.Stores
import AtomrAgents.Shared.Operations

set_option autoImplicit false

namespace AtomrAgents

open Shared

-- What names an agent: its directory, and what `agent.yaml` says.
structure AgentDefinition where
  directory : String
  specYaml : Values

namespace AgentDefinition

variable (definition : AgentDefinition)

def agentId : String := ((definition.specYaml["id"]?).bind Value.asStr).getD definition.directory

def model : Option String := (definition.specYaml["model"]?).bind Value.asStr

end AgentDefinition

structure AgentSpec where
  id : String
  model : String

structure LoadedAgent where
  definition : AgentDefinition
  spec : AgentSpec

-- `parse` reads the directory of an agent; its other files do not name the agent.
structure AgentLoader where
  defaultModel : Option String
  parse : String → Except HostError Values

def AgentLoader.load (loader : AgentLoader) (directory : String) : Except HostError LoadedAgent :=
  match loader.parse directory with
  | .error e => .error e
  | .ok specYaml =>
    let definition : AgentDefinition := { directory, specYaml }
    match definition.model.or loader.defaultModel with
    | none => .error (.agentSpec ("agent " ++ definition.agentId ++
        ": no `model` in agent.yaml and no `default_model` in config.yaml"))
    | some model => .ok { definition, spec := { id := definition.agentId, model } }

-- An actor runs from its start until it is told to stop, and the name of one that runs is refused.
structure ActorSystem (S R : Type) where
  actorOf : S → String → Except String (R × S)
  stop : S → R → S
  name : R → String
  Running : S → R → Prop
  refuses : ∀ s actor, Running s actor → ∃ e, actorOf s (name actor) = .error e
  starts : ∀ s n actor s', actorOf s n = .ok (actor, s') →
    name actor = n ∧ ∀ x, Running s' x ↔ Running s x ∨ x = actor
  stops : ∀ s actor x, Running (stop s actor) x ↔ Running s x ∧ x ≠ actor

structure AgentHandle (R : Type) where
  agentId : String
  actor : R

structure HostRuntime (S R : Type) where
  system : S
  agents : String → Option (AgentHandle R)

def sanitize (id : String) : String :=
  String.ofList (id.toList.map fun c => if c.isAlphanum || c == '-' || c == '_' then c else '_')

namespace HostRuntime

variable {S R : Type} (actors : ActorSystem S R) (runtime : HostRuntime S R)

def start (system : S) : HostRuntime S R where
  system := system
  agents := fun _ => none

def lookup (agentId : String) : Option (AgentHandle R) := runtime.agents agentId

def spawnLoaded (loaded : LoadedAgent) : Except HostError (AgentHandle R) × HostRuntime S R :=
  let agentId := loaded.spec.id
  match actors.actorOf runtime.system ("agent-" ++ sanitize agentId) with
  | .error e => (.error (.actorSystem e), runtime)
  | .ok (actor, system) =>
    let handle : AgentHandle R := { agentId, actor }
    (.ok handle, { system, agents := Function.update runtime.agents agentId (some handle) })

def spawnAgent (loader : AgentLoader) (agentId : String) : Except HostError (AgentHandle R) × HostRuntime S R :=
  match runtime.lookup agentId with
  | some existing => (.ok existing, runtime)
  | none =>
    match loader.load agentId with
    | .error e => (.error e, runtime)
    | .ok loaded => runtime.spawnLoaded actors loaded

def stopAgent (agentId : String) : HostRuntime S R :=
  match runtime.agents agentId with
  | none => runtime
  | some handle =>
    { system := actors.stop runtime.system handle.actor
      agents := Function.update runtime.agents agentId none }

-- An actor that runs is told what was loaded.
def reload (loader : AgentLoader) (agentId : String) : Except HostError (AgentHandle R) × HostRuntime S R :=
  match loader.load agentId with
  | .error e => (.error e, runtime)
  | .ok loaded =>
    match runtime.lookup agentId with
    | some existing => (.ok existing, runtime)
    | none => runtime.spawnLoaded actors loaded

end HostRuntime

inductive HostCall where
  | spawnAgent (directory : String)
  | reload (directory : String)
  | stopAgent (directory : String)

def HostCall.directory : HostCall → String
  | .spawnAgent directory | .reload directory | .stopAgent directory => directory

section

variable {S R : Type} (actors : ActorSystem S R)

def HostRuntime.called (runtime : HostRuntime S R) (op : HostCall × AgentLoader) :
    Except HostError (Option (AgentHandle R)) × HostRuntime S R :=
  match op.1 with
  | .spawnAgent directory => ((runtime.spawnAgent actors op.2 directory).1.map some,
      (runtime.spawnAgent actors op.2 directory).2)
  | .reload directory => ((runtime.reload actors op.2 directory).1.map some,
      (runtime.reload actors op.2 directory).2)
  | .stopAgent directory => (.ok none, runtime.stopAgent actors directory)

abbrev HostLog (R : Type) := List ((HostCall × AgentLoader) × Except HostError (Option (AgentHandle R)))

-- The agent of a directory by the last call for it that succeeded: none if it was a stop.
def lastAgent (directory : String) (log : HostLog R) : Option (AgentHandle R) :=
  log.foldl (fun last entry =>
    if entry.1.1.directory = directory then
      match entry.2 with
      | .ok answer => answer
      | .error _ => last
    else last) none

structure HostRuntime.Registers (runtime : HostRuntime S R) (log : HostLog R) : Prop where
  lookup : ∀ directory, runtime.lookup directory = lastAgent directory log
  again : ∀ directory handle loader, lastAgent directory log = some handle →
    runtime.spawnAgent actors loader directory = (.ok handle, runtime)
  apart : ∀ directory other handle handle', lastAgent directory log = some handle →
    lastAgent other log = some handle' → directory ≠ other → handle.actor ≠ handle'.actor

def HostCall.isStop : HostCall → Bool
  | .stopAgent _ => true
  | _ => false

structure HostCall.Starts (runtime : HostRuntime S R) (op : HostCall × AgentLoader) (handle : AgentHandle R)
    (system : S) : Prop where
  call : op.1.isStop = false
  missing : runtime.lookup op.1.directory = none
  loads : ∃ loaded, op.2.load op.1.directory = .ok loaded ∧ loaded.spec.id = handle.agentId
  actor : actors.actorOf runtime.system ("agent-" ++ sanitize handle.agentId) = .ok (handle.actor, system)

def HostCall.NamesDirectory (runtime : HostRuntime S R) (op : HostCall × AgentLoader) : Prop :=
  ∀ handle system, HostCall.Starts actors runtime op handle system → handle.agentId = op.1.directory

inductive RegistryStep (runtime : HostRuntime S R) (op : HostCall × AgentLoader) :
    Except HostError (Option (AgentHandle R)) → HostRuntime S R → Prop where
  | failed (e : HostError) : RegistryStep runtime op (.error e) runtime
  | found (handle : AgentHandle R) (here : runtime.agents op.1.directory = some handle) :
    RegistryStep runtime op (.ok (some handle)) runtime
  | started (handle : AgentHandle R) (system : S) (starts : HostCall.Starts actors runtime op handle system) :
    RegistryStep runtime op (.ok (some handle))
      { system, agents := Function.update runtime.agents handle.agentId (some handle) }
  | idle (missing : runtime.agents op.1.directory = none) : RegistryStep runtime op (.ok none) runtime
  | stopped (handle : AgentHandle R) (here : runtime.agents op.1.directory = some handle) :
    RegistryStep runtime op (.ok none)
      { system := actors.stop runtime.system handle.actor
        agents := Function.update runtime.agents op.1.directory none }

structure HostRuntime.Runs (runtime : HostRuntime S R) (log : HostLog R) : Prop where
  last : ∀ directory, runtime.agents directory = lastAgent directory log
  running : ∀ directory handle, runtime.agents directory = some handle → actors.Running runtime.system handle.actor
  apart : ∀ directory other handle handle', runtime.agents directory = some handle →
    runtime.agents other = some handle' → handle.actor = handle'.actor → directory = other

variable {actors} {runtime : HostRuntime S R} {op : HostCall × AgentLoader} {log : HostLog R}

theorem spawnLoaded_step (call : op.1.isStop = false) (missing : runtime.lookup op.1.directory = none)
    {loaded : LoadedAgent} (loads : op.2.load op.1.directory = .ok loaded) :
    RegistryStep actors runtime op ((runtime.spawnLoaded actors loaded).1.map some)
      (runtime.spawnLoaded actors loaded).2 := by
  rw [HostRuntime.spawnLoaded]
  cases started : actors.actorOf runtime.system ("agent-" ++ sanitize loaded.spec.id) with
  | error e => exact .failed _
  | ok answer =>
    have starts : HostCall.Starts actors runtime op { agentId := loaded.spec.id, actor := answer.1 } answer.2 :=
      ⟨call, missing, ⟨loaded, loads, rfl⟩, started⟩
    exact .started _ _ starts

theorem called_step (runtime : HostRuntime S R) (op : HostCall × AgentLoader) :
    RegistryStep actors runtime op (runtime.called actors op).1 (runtime.called actors op).2 := by
  obtain ⟨call, loader⟩ := op
  cases call with
  | spawnAgent directory =>
    simp only [HostRuntime.called, HostRuntime.spawnAgent]
    cases found : runtime.lookup directory with
    | some existing => exact .found existing found
    | none =>
      cases loads : loader.load directory with
      | error e => exact .failed e
      | ok loaded => exact spawnLoaded_step rfl found loads
  | reload directory =>
    simp only [HostRuntime.called, HostRuntime.reload]
    cases loads : loader.load directory with
    | error e => exact .failed e
    | ok loaded =>
      cases found : runtime.lookup directory with
      | some existing => exact .found existing found
      | none => exact spawnLoaded_step rfl found loads
  | stopAgent directory =>
    simp only [HostRuntime.called, HostRuntime.stopAgent]
    cases found : runtime.agents directory with
    | none => exact .idle found
    | some handle => exact .stopped handle found

theorem lastAgent_append (directory : String) (log : HostLog R) (op : HostCall × AgentLoader)
    (answer : Except HostError (Option (AgentHandle R))) :
    lastAgent directory (log ++ [(op, answer)]) =
      if op.1.directory = directory then
        match answer with
        | .ok answer => answer
        | .error _ => lastAgent directory log
      else lastAgent directory log := by
  rw [lastAgent, List.foldl_append]
  rfl

theorem HostRuntime.Runs.registers (runs : runtime.Runs actors log) : runtime.Registers actors log where
  lookup := runs.last
  again directory handle loader running := by
    have here : runtime.lookup directory = some handle := (runs.last directory).trans running
    rw [HostRuntime.spawnAgent, here]
  apart directory other handle handle' running running' different same :=
    different (runs.apart directory other handle handle' ((runs.last directory).trans running)
      ((runs.last other).trans running') same)

theorem runs_start (system : S) : (HostRuntime.start system : HostRuntime S R).Runs actors [] where
  last _ := rfl
  running _ _ found := by cases found
  apart _ _ _ _ found := by cases found

theorem HostRuntime.Runs.fresh (runs : runtime.Runs actors log) {handle : AgentHandle R} {system : S}
    (starts : HostCall.Starts actors runtime op handle system) {directory : String} {other : AgentHandle R}
    (found : runtime.agents directory = some other) : other.actor ≠ handle.actor := by
  intro same
  have running := runs.running directory other found
  obtain ⟨name, -⟩ := actors.starts _ _ _ _ starts.actor
  obtain ⟨e, refused⟩ := actors.refuses _ _ running
  rw [same, name, starts.actor] at refused
  cases refused

theorem update_eq_some {agents : String → Option (AgentHandle R)} {key directory : String}
    {entry : Option (AgentHandle R)} {handle : AgentHandle R}
    (found : Function.update agents key entry directory = some handle) :
    directory = key ∧ entry = some handle ∨ directory ≠ key ∧ agents directory = some handle := by
  by_cases same : directory = key
  · rw [same, Function.update_self] at found
    exact .inl ⟨same, found⟩
  · rw [Function.update_of_ne same] at found
    exact .inr ⟨same, found⟩

theorem update_last (runs : runtime.Runs actors log) (entry : Option (AgentHandle R)) (directory : String) :
    Function.update runtime.agents op.1.directory entry directory = lastAgent directory (log ++ [(op, .ok entry)]) := by
  rw [lastAgent_append]
  by_cases same : op.1.directory = directory
  · rw [if_pos same, same, Function.update_self]
  · rw [if_neg same, Function.update_of_ne (Ne.symm same)]
    exact runs.last directory

theorem HostRuntime.Runs.started (runs : runtime.Runs actors log) {handle : AgentHandle R} {system : S}
    (starts : HostCall.Starts actors runtime op handle system) (named : handle.agentId = op.1.directory) :
    ({ system, agents := Function.update runtime.agents handle.agentId (some handle) } : HostRuntime S R).Runs actors
      (log ++ [(op, .ok (some handle))]) := by
  rw [named]
  constructor
  case last => exact update_last runs (some handle)
  case running =>
    intro directory other found
    obtain ⟨-, running⟩ := actors.starts _ _ _ _ starts.actor
    rw [running]
    rcases update_eq_some found with ⟨-, new⟩ | ⟨-, old⟩
    · exact .inr (congrArg AgentHandle.actor (Option.some_inj.mp new).symm)
    · exact .inl (runs.running directory other old)
  case apart =>
    intro directory other a b found found' same
    rcases update_eq_some found with ⟨here, new⟩ | ⟨-, old⟩ <;>
      rcases update_eq_some found' with ⟨there, new'⟩ | ⟨-, old'⟩
    · rw [here, there]
    · rw [← Option.some_inj.mp new] at same
      exact absurd same.symm (runs.fresh starts old')
    · rw [← Option.some_inj.mp new'] at same
      exact absurd same (runs.fresh starts old)
    · exact runs.apart directory other a b old old' same

theorem HostRuntime.Runs.stopped (runs : runtime.Runs actors log) {handle : AgentHandle R}
    (here : runtime.agents op.1.directory = some handle) :
    ({
      system := actors.stop runtime.system handle.actor
      agents := Function.update runtime.agents op.1.directory none } : HostRuntime S R).Runs actors
        (log ++ [(op, .ok none)]) := by
  have kept : ∀ {directory other}, Function.update runtime.agents op.1.directory none directory = some other →
      directory ≠ op.1.directory ∧ runtime.agents directory = some other := by
    intro directory other found
    rcases update_eq_some found with ⟨-, gone⟩ | old
    · cases gone
    · exact old
  constructor
  case last => exact update_last runs none
  case running =>
    intro directory other found
    obtain ⟨different, found⟩ := kept found
    rw [actors.stops]
    exact ⟨runs.running directory other found, fun same =>
      different (runs.apart directory op.1.directory other handle found here same)⟩
  case apart =>
    intro directory other a b found found'
    exact runs.apart directory other a b (kept found).2 (kept found').2

theorem RegistryStep.runs {answer : Except HostError (Option (AgentHandle R))} {after : HostRuntime S R}
    (step : RegistryStep actors runtime op answer after) (named : HostCall.NamesDirectory actors runtime op)
    (runs : runtime.Runs actors log) : after.Runs actors (log ++ [(op, answer)]) := by
  cases step with
  | failed e =>
    refine ⟨fun directory => ?_, runs.running, runs.apart⟩
    rw [lastAgent_append, ite_self]
    exact runs.last directory
  | found handle here =>
    refine ⟨fun directory => ?_, runs.running, runs.apart⟩
    rw [lastAgent_append]
    split
    next same => exact same ▸ here
    next => exact runs.last directory
  | started handle system starts => exact runs.started starts (named handle system starts)
  | idle missing =>
    refine ⟨fun directory => ?_, runs.running, runs.apart⟩
    rw [lastAgent_append]
    split
    next same => exact same ▸ missing
    next => exact runs.last directory
  | stopped handle here => exact runs.stopped here

theorem runs_along (actors : ActorSystem S R) (runtime : HostRuntime S R) (log : HostLog R)
    (ops : List (HostCall × AgentLoader)) (runs : runtime.Runs actors log)
    (named : Operations.Along (HostRuntime.called actors) (HostCall.NamesDirectory actors) runtime ops) :
    (Operations.final (HostRuntime.called actors) runtime ops).Runs actors
      (log ++ Operations.trace (HostRuntime.called actors) runtime ops) := by
  induction ops generalizing runtime log with
  | nil =>
    rw [Operations.trace, List.append_nil]
    exact runs
  | cons op ops ih =>
    have next := ih _ _ ((called_step runtime op).runs named.1 runs) named.2
    rw [List.append_assoc] at next
    exact next

theorem called_of_starts {handle : AgentHandle R} {system : S}
    (starts : HostCall.Starts actors runtime op handle system) :
    runtime.called actors op = (.ok (some handle), {
      system, agents := Function.update runtime.agents handle.agentId (some handle) }) := by
  obtain ⟨loaded, loads, id⟩ := starts.loads
  have spawned : runtime.spawnLoaded actors loaded = (.ok handle, {
      system, agents := Function.update runtime.agents handle.agentId (some handle) }) := by
    simp only [HostRuntime.spawnLoaded, id, starts.actor]
  obtain ⟨call, loader⟩ := op
  have missing := starts.missing
  cases call with
  | spawnAgent directory =>
    have result : runtime.spawnAgent actors loader directory = runtime.spawnLoaded actors loaded := by
      simp only [HostRuntime.spawnAgent, show runtime.lookup directory = none from missing,
        show loader.load directory = .ok loaded from loads]
    simp only [HostRuntime.called, result, spawned]
    rfl
  | reload directory =>
    have result : runtime.reload actors loader directory = runtime.spawnLoaded actors loaded := by
      simp only [HostRuntime.reload, show runtime.lookup directory = none from missing,
        show loader.load directory = .ok loaded from loads]
    simp only [HostRuntime.called, result, spawned]
    rfl
  | stopAgent directory => cases starts.call

theorem unregistered_of_started (log : HostLog R) {handle : AgentHandle R} {system : S}
    (starts : HostCall.Starts actors runtime op handle system) (misnamed : handle.agentId ≠ op.1.directory) :
    ¬ (runtime.called actors op).2.Registers actors (log ++ [(op, (runtime.called actors op).1)]) := by
  intro registers
  rw [called_of_starts starts] at registers
  have here := registers.lookup op.1.directory
  have missing : (Function.update runtime.agents handle.agentId (some handle)) op.1.directory = none :=
    (Function.update_of_ne misnamed.symm _ _).trans starts.missing
  rw [HostRuntime.lookup, lastAgent_append, if_pos rfl] at here
  cases missing.symm.trans here

/-- The registry is right all along a run exactly if every agent that is started has the name of its directory. -/
theorem registers_iff (actors : ActorSystem S R) (system : S) (ops : List (HostCall × AgentLoader)) :
    (∀ front, front <+: ops → (Operations.final (HostRuntime.called actors) (.start system) front).Registers actors
        (Operations.trace (HostRuntime.called actors) (.start system) front)) ↔
      Operations.Along (HostRuntime.called actors) (HostCall.NamesDirectory actors) (.start system) ops := by
  constructor
  · intro registers
    by_contra broken
    obtain ⟨front, op, rest, rfl, -, fails⟩ := Operations.exists_break _ ops broken
    obtain ⟨handle, system', starts, misnamed⟩ : ∃ handle system',
        HostCall.Starts actors (Operations.final (HostRuntime.called actors) (.start system) front) op handle system' ∧
          handle.agentId ≠ op.1.directory := by
      simpa [HostCall.NamesDirectory] using fails
    have after := registers (front ++ [op]) ⟨rest, by simp⟩
    rw [Operations.final_append, Operations.trace_append] at after
    exact unregistered_of_started _ starts misnamed after
  · rintro along front ⟨rest, rfl⟩
    exact (runs_along actors (.start system) [] front (runs_start system)
      ((Operations.along_append _ _ _ _).mp along).1).registers

def namedActors : ActorSystem (List String) String where
  actorOf names name := if name ∈ names then .error ("name taken: " ++ name) else .ok (name, name :: names)
  stop names name := names.filter (· ≠ name)
  name := id
  Running names name := name ∈ names
  refuses names name running := ⟨_, if_pos running⟩
  starts names name actor names' started := by
    split at started
    · cases started
    · cases started
      exact ⟨rfl, fun x => by simp [or_comm]⟩
  stops names name x := by simp

-- The directory `home` says that it is the agent `alpha`.
def renamedLoader : AgentLoader where
  defaultModel := some "gpt-4o"
  parse directory := .ok (if directory = "home" then (∅ : Values).insert "id" (.string "alpha") else ∅)

theorem renamed_unregistered :
    ¬ ∀ front, front <+: [(HostCall.spawnAgent "home", renamedLoader)] →
      (Operations.final (HostRuntime.called namedActors) (.start []) front).Registers namedActors
        (Operations.trace (HostRuntime.called namedActors) (.start []) front) := by
  intro registers
  have starts : HostCall.Starts namedActors (.start []) (.spawnAgent "home", renamedLoader)
      { agentId := "alpha", actor := "agent-alpha" } ["agent-alpha"] := by
    refine ⟨rfl, rfl, ⟨{
      definition := { directory := "home", specYaml := (∅ : Values).insert "id" (.string "alpha") }
      spec := { id := "alpha", model := "gpt-4o" } }, ?_, rfl⟩, ?_⟩
    · simp [AgentLoader.load, renamedLoader, HostCall.directory, AgentDefinition.model, AgentDefinition.agentId,
        Value.asStr]
    · decide
  exact unregistered_of_started [] starts (by decide) (registers _ (List.prefix_refl _))

end

end AtomrAgents
