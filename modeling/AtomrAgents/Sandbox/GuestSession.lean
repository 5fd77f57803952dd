import AtomrAgents.Sandbox.Frame
import AtomrAgents.Sandbox.GuestAgent
import AtomrAgents.Shared.Base64
import Mathlib.Data.List.TakeWhile

set_option autoImplicit false

/-! The agent takes one request after another off the stream and answers each before it reads the next. What
the files and the commands come to is up to the machine that it runs on. -/

namespace AtomrAgents

open Shared.UnixPath Shared.Framed

namespace GuestAgent

inductive Language where
  | python
  | bash
  | js
  | rust
deriving DecidableEq

structure ExecJob where
  execId : String
  language : Language
  code : String
  dependencies : List String
  stdin : Option String
  env : List (String × String)
  timeoutMs : Option Nat

inductive GuestRequest where
  | ping
  | exec (job : ExecJob)
  | writeFile (path : String) (bytes : List UInt8)
  | readFile (path : String)
  | shutdown

inductive GuestResponse where
  | pong
  | execStdout (execId : String) (chunk : List UInt8)
  | execStderr (execId : String) (chunk : List UInt8)
  | execDone (execId : String) (exitCode : Int) (timedOut : Bool)
  | fileWritten
  | fileRead (bytes : List UInt8)
  | error (message : String)

def utf8 (text : String) : List UInt8 := text.toByteArray.data.toList

theorem utf8_injective {text other : String} (same : utf8 text = utf8 other) : text = other :=
  String.toByteArray_inj.mp (ByteArray.ext (Array.toList_inj.mp same))

def depsCommand (language : Language) (deps : List String) : Option (String × List String) :=
  if deps.isEmpty then none
  else
    match language with
    | .python => some ("pip", ["install", "--quiet"] ++ deps)
    | .js => some ("npm", ["install", "--silent"] ++ deps)
    | .rust | .bash => none

-- The engine that encodes the code, and the program that the script pipes it into.
structure Base64 where
  encode : List UInt8 → String
  decode : String → Option (List UInt8)

structure Base64.Documented (base64 : Base64) : Prop where
  alphabet : ∀ content, ∀ c ∈ (base64.encode content).toList, c.isAlphanum ∨ c = '+' ∨ c = '/' ∨ c = '='
  decodes : ∀ content, base64.decode (base64.encode content) = some content

def codeCommand (base64 : Base64) (language : Language) (code root : String) : String × List String :=
  match language with
  | .python => ("python", ["-c", code])
  | .bash => ("bash", ["-c", code])
  | .js => ("node", ["-e", code])
  | .rust =>
    let b64 := base64.encode (utf8 code)
    ("sh", ["-c", "echo " ++ b64 ++ " | base64 -d > " ++ root ++ "/main.rs && rustc " ++ root ++ "/main.rs -o " ++
      root ++ "/main && " ++ root ++ "/main"])

def defaultRoot : String := "/workspace"

-- The bytes of the code that a command runs: its last argument, or what the script decodes.
def carried (base64 : Base64) : String × List String → Option (List UInt8)
  | ("sh", [_, script]) =>
    base64.decode (String.ofList ((script.toList.drop "echo ".length).takeWhile (· != ' ')))
  | (_, [_, code]) => some (utf8 code)
  | _ => none

theorem takeWhile_word {word rest : List Char} (plain : ' ' ∉ word) :
    (word ++ ' ' :: rest).takeWhile (· != ' ') = word := by
  rw [List.takeWhile_append_of_pos]
  · simp
  · intro c member
    exact bne_iff_ne.mpr fun same => plain (same ▸ member)

theorem Base64.Documented.space_not_mem {base64 : Base64} (documented : base64.Documented) (content : List UInt8) :
    ' ' ∉ (base64.encode content).toList := by
  intro member
  have used := documented.alphabet content ' ' member
  revert used
  decide

theorem carried_codeCommand {base64 : Base64} (documented : base64.Documented) (language : Language)
    (code root : String) : carried base64 (codeCommand base64 language code root) = some (utf8 code) := by
  cases language with
  | python => rfl
  | bash => rfl
  | js => rfl
  | rust =>
    have behind : " | base64 -d > ".toList = ' ' :: "| base64 -d > ".toList := by decide
    simp only [codeCommand, carried, String.toList_append, List.append_assoc]
    rw [List.drop_left' String.length_toList, behind, List.cons_append,
      takeWhile_word (documented.space_not_mem _), String.ofList_toList, documented.decodes]

end GuestAgent

namespace DockerBackend

open GuestAgent

def workdir : String := "/workspace"

def depsCommand (lang : Language) (deps : List String) : Option (List String) :=
  if deps.isEmpty then none
  else
    match lang with
    | .python => some (["pip", "install", "--quiet"] ++ deps)
    | .js => some (["npm", "install", "--silent"] ++ deps)
    | .rust | .bash => none

def codeCommand (base64 : Base64) (lang : Language) (code : String) : List String :=
  match lang with
  | .python => ["python", "-c", code]
  | .bash => ["bash", "-c", code]
  | .js => ["node", "-e", code]
  | .rust =>
    let b64 := base64.encode (utf8 code)
    ["sh", "-c", "echo " ++ b64 ++ " | base64 -d > " ++ workdir ++ "/main.rs && rustc " ++ workdir ++
      "/main.rs -o " ++ workdir ++ "/main && " ++ workdir ++ "/main"]

end DockerBackend

namespace GuestAgent

/-- The guest agent and the Docker backend run the same commands, and each command carries the code of its
request unchanged: whatever the code is, two codes are never run by one command. -/
theorem code_carried {base64 : Base64} (documented : base64.Documented) (language : Language) (code root : String)
    (deps : List String) :
    DockerBackend.codeCommand base64 language code =
        (codeCommand base64 language code defaultRoot).1 :: (codeCommand base64 language code defaultRoot).2 ∧
      DockerBackend.depsCommand language deps =
        (depsCommand language deps).map (fun command => command.1 :: command.2) ∧
      carried base64 (codeCommand base64 language code root) = some (utf8 code) ∧
      ∀ otherLanguage other, codeCommand base64 language code root = codeCommand base64 otherLanguage other root →
        language = otherLanguage ∧ code = other := by
  refine ⟨?_, ?_, carried_codeCommand documented language code root, ?_⟩
  · cases language <;> rfl
  · simp only [DockerBackend.depsCommand, depsCommand]
    split
    · rfl
    · cases language <;> rfl
  · intro otherLanguage other same
    constructor
    · have programs := congrArg Prod.fst same
      revert programs
      cases language <;> cases otherLanguage <;> simp [codeCommand]
    · have bytes := carried_codeCommand documented language code root
      rw [same, carried_codeCommand documented, Option.some_inj] at bytes
      exact (utf8_injective bytes).symm

def standardBase64 : Base64 where
  encode content := String.ofList (Shared.Base64.encode content)
  decode text := Shared.Base64.decode text.toList

theorem standardBase64_documented : standardBase64.Documented where
  alphabet content c member := by
    rw [standardBase64, String.toList_ofList] at member
    rcases Shared.Base64.mem_encode member with used | rfl
    · have digits : (Shared.Base64.alphabet.all fun c => c.isAlphanum || c == '+' || c == '/') = true := by decide
      have one := List.all_eq_true.mp digits c used
      simp only [Bool.or_eq_true, beq_iff_eq, or_assoc] at one
      exact one.imp_right (Or.imp_right .inl)
    · decide
  decodes content := by
    simp only [standardBase64, String.toList_ofList, Shared.Base64.decode_encode]

theorem code_carried_main :
    carried standardBase64 (codeCommand standardBase64 .rust "fn main() {}" "/workspace") =
      some (utf8 "fn main() {}") :=
  (code_carried standardBase64_documented .rust "fn main() {}" "/workspace" []).2.2.1

structure Command where
  cwd : String
  program : String
  args : List String
  env : String → Option String
  stdin : Option String
  timeout : Option Nat

-- How a command ends; it is overdue only behind a time limit.
inductive Finish : Option Nat → Type where
  | notSpawned {limit : Option Nat} (e : String) : Finish limit
  | waitFailed {limit : Option Nat} (e : String) : Finish limit
  | exited {limit : Option Nat} (stdout stderr : List UInt8) (code : Option Int) : Finish limit
  | overdue (ms : Nat) : Finish (some ms)

structure Machine (σ : Type) where
  createDirAll : List Component → σ → Except String Unit × σ
  write : String → List UInt8 → σ → Except String Unit × σ
  read : String → σ → Except String (List UInt8) × σ
  run : (command : Command) → σ → Finish command.timeout × σ

structure Captured where
  stdout : List UInt8
  stderr : List UInt8
  exitCode : Int
  timedOut : Bool

def capture (program : String) {limit : Option Nat} : Finish limit → Except String Captured
  | .notSpawned e => .error ("spawn " ++ program ++ ": " ++ e)
  | .waitFailed e => .error ("wait: " ++ e)
  | .exited stdout stderr code => .ok { stdout, stderr, exitCode := code.getD (-1), timedOut := false }
  | .overdue _ => .ok { stdout := [], stderr := utf8 "timed out", exitCode := 124, timedOut := true }

section

variable {σ : Type} (base64 : Base64) (m : Machine σ) (root : String)

def runCapture (command : Command) (s : σ) : Except String Captured × σ :=
  let (finish, s) := m.run command s
  (capture command.program finish, s)

def performWrite (path : String) (bytes : List UInt8) (s : σ) : Except String Unit × σ :=
  match resolve root path with
  | .error e => (.error e, s)
  | .ok full =>
    match parent (components full.toList) with
    | none =>
      let (wrote, s) := m.write full bytes s
      (wrote.mapError ("write: " ++ ·), s)
    | some dir =>
      match m.createDirAll dir s with
      | (.error e, s) => (.error ("mkdir: " ++ e), s)
      | (.ok (), s) =>
        let (wrote, s) := m.write full bytes s
        (wrote.mapError ("write: " ++ ·), s)

def performRead (path : String) (s : σ) : Except String (List UInt8) × σ :=
  match resolve root path with
  | .error e => (.error e, s)
  | .ok full =>
    let (found, s) := m.read full s
    (found.mapError ("read: " ++ ·), s)

-- The later of two entries with one name is kept.
def envMap (env : List (String × String)) (name : String) : Option String :=
  env.reverse.lookup name

def depStderr (job : ExecJob) (s : σ) : List UInt8 × σ :=
  match depsCommand job.language job.dependencies with
  | none => ([], s)
  | some (program, args) =>
    let (installed, s) := runCapture m
      { cwd := root, program, args, env := envMap job.env, stdin := none, timeout := job.timeoutMs } s
    match installed with
    | .ok cap => (cap.stderr, s)
    | .error e => (utf8 e, s)

def chunkOf (make : List UInt8 → GuestResponse) (bytes : List UInt8) : List GuestResponse :=
  if bytes.isEmpty then [] else [make bytes]

-- What `handle_exec` writes; both commands are over by then.
def execAnswer (job : ExecJob) (s : σ) : List GuestResponse × σ :=
  let (installed, s) := depStderr m root job s
  let (program, args) := codeCommand base64 job.language job.code root
  let (ran, s) := runCapture m
    { cwd := root, program, args, env := envMap job.env, stdin := job.stdin, timeout := job.timeoutMs } s
  match ran with
  | .error e => ([.error e], s)
  | .ok cap =>
    (chunkOf (.execStdout job.execId) cap.stdout ++ chunkOf (.execStderr job.execId) (installed ++ cap.stderr) ++
      [.execDone job.execId cap.exitCode cap.timedOut], s)

def answer : GuestRequest → σ → List GuestResponse × σ
  | .ping, s | .shutdown, s => ([.pong], s)
  | .writeFile path bytes, s =>
    match performWrite m root path bytes s with
    | (.ok (), s) => ([.fileWritten], s)
    | (.error message, s) => ([.error message], s)
  | .readFile path, s =>
    match performRead m root path s with
    | (.ok bytes, s) => ([.fileRead bytes], s)
    | (.error message, s) => ([.error message], s)
  | .exec job, s => execAnswer base64 m root job s

def GuestRequest.isShutdown : GuestRequest → Bool
  | .shutdown => true
  | _ => false

end

end GuestAgent

section

variable {T : Type} {postcard : Postcard T}

theorem readExact_length {ending : IoError} {n : Nat} {r bytes rest : List UInt8}
    (got : readExact ending n r = (.ok bytes, rest)) : rest.length + n = r.length := by
  rw [readExact] at got
  split at got
  · next long =>
    cases got
    rw [List.length_drop]
    omega
  · cases got

theorem readFrame_shorter {ending : IoError} {r rest : List UInt8} {msg : T}
    (got : readFrame postcard ending r = (.ok (some msg), rest)) : rest.length < r.length := by
  rw [readFrame] at got
  split at got
  · cases got
  · cases got
  · next lenBuf behind first =>
    have long := readExact_length first
    simp only at got
    split at got
    · cases got
    · split at got
      · cases got
      · next body later second =>
        have more := readExact_length second
        split at got
        · cases got
        · cases got
          omega

end

namespace GuestAgent

section

variable {σ : Type} (requests : Postcard GuestRequest) (responses : Postcard GuestResponse) (ending : IoError)
  (base64 : Base64) (m : Machine σ) (root : String)

def serveRw (r w : List UInt8) (s : σ) : (Except ProtoError Bool × List UInt8) × σ :=
  match _read : readFrame requests ending r with
  | (.error e, _) => ((.error e, w), s)
  | (.ok none, _) => ((.ok false, w), s)
  | (.ok (some request), rest) =>
    let (answers, s) := answer base64 m root request s
    -- the peer may be gone already when the last answer is written
    if request.isShutdown then ((.ok true, (writeFrames responses w answers).2), s)
    else
      match writeFrames responses w answers with
      | (.error e, w) => ((.error e, w), s)
      | (.ok (), w) => serveRw rest w s
termination_by r.length
decreasing_by exact readFrame_shorter _read

end

section

variable {T : Type} (postcard : Postcard T)

def unsent (msg : T) : Option ProtoError :=
  match postcard.toAllocvec msg with
  | .error e => some (.encode e)
  | .ok body => if body.length > maxFrameBytes then some (.frameTooLarge body.length) else none

def sentOf (msgs : List T) : List T := msgs.takeWhile fun msg => (unsent postcard msg).isNone

variable {postcard}

theorem sendable_of_unsent {msg : T} (able : unsent postcard msg = none) : Sendable postcard msg := by
  cases encoded : postcard.toAllocvec msg with
  | error text => simp [unsent, encoded] at able
  | ok body =>
    refine ⟨body, encoded, Nat.not_lt.mp fun long => ?_⟩
    simp [unsent, encoded, long] at able

theorem writeFrame_unsent {msg : T} {e : ProtoError} (unable : unsent postcard msg = some e) (w : List UInt8) :
    writeFrame postcard w msg = (.error e, w) := by
  cases encoded : postcard.toAllocvec msg with
  | error text =>
    simp only [unsent, encoded, Option.some_inj] at unable
    simp only [writeFrame, encoded, unable]
  | ok body =>
    by_cases long : body.length > maxFrameBytes
    · simp only [unsent, encoded, if_pos long, Option.some_inj] at unable
      simp only [writeFrame, encoded, if_pos long, unable]
    · simp [unsent, encoded, long] at unable

theorem sentOf_sendable {msgs : List T} {msg : T} (member : msg ∈ sentOf postcard msgs) :
    Sendable postcard msg := by
  have able := List.mem_takeWhile_imp member
  rw [Option.isNone_iff_eq_none] at able
  exact sendable_of_unsent able

theorem sentOf_append {msgs : List T} (able : msgs.findSome? (unsent postcard) = none) (later : List T) :
    sentOf postcard (msgs ++ later) = msgs ++ sentOf postcard later := by
  rw [List.findSome?_eq_none_iff] at able
  rw [sentOf, List.takeWhile_append_of_pos fun msg member => by rw [able msg member]; rfl, sentOf]

theorem writeFrames_eq (w : List UInt8) (msgs : List T) :
    writeFrames postcard w msgs =
      (match msgs.findSome? (unsent postcard) with
        | none => .ok ()
        | some e => .error e,
        w ++ (sentOf postcard msgs).flatMap (frameOf postcard)) := by
  induction msgs generalizing w with
  | nil => simp [writeFrames, sentOf]
  | cons msg msgs ih =>
    rw [writeFrames, List.findSome?_cons, sentOf, List.takeWhile_cons]
    cases able : unsent postcard msg with
    | none =>
      rw [writeFrame_sendable (sendable_of_unsent able)]
      simp only [ih, Option.isNone_none, if_true, List.flatMap_cons, sentOf, List.append_assoc]
    | some e =>
      rw [writeFrame_unsent able]
      simp

theorem reads_sent (roundTrips : postcard.RoundTrips) (msgs : List T) (n : Nat) :
    reads (readFrame postcard .unexpectedEof) ((sentOf postcard msgs).length + n)
        ((sentOf postcard msgs).flatMap (frameOf postcard)) =
      (sentOf postcard msgs).map (fun msg => .ok (some msg)) ++ List.replicate n (.ok none) := by
  have whole : ∀ msg ∈ sentOf postcard msgs, ∀ rest,
      readFrame postcard .unexpectedEof (frameOf postcard msg ++ rest) = (.ok (some msg), rest) :=
    fun msg member => readFrame_frameOf roundTrips (sentOf_sendable member) _
  have read := reads_frames (frameOf postcard) whole n []
  rw [List.append_nil, reads_end] at read
  exact read

end

structure Session (σ : Type) where
  groups : List (List GuestResponse)
  ended : Option (Except ProtoError Bool)
  state : σ

section

variable {σ : Type} {requests : Postcard GuestRequest} (responses : Postcard GuestResponse) {ending : IoError}
  (base64 : Base64) (m : Machine σ) (root : String)

def session : List GuestRequest → σ → Session σ
  | [], s => { groups := [], ended := none, state := s }
  | request :: later, s =>
    let (answers, s) := answer base64 m root request s
    if request.isShutdown then { groups := [answers], ended := some (.ok true), state := s }
    else
      match answers.findSome? (unsent responses) with
      | some e => { groups := [answers], ended := some (.error e), state := s }
      | none =>
        let next := session later s
        { next with groups := answers :: next.groups }

variable {responses base64 m root}

theorem serveRw_request {r rest : List UInt8} {request : GuestRequest}
    (got : readFrame requests ending r = (.ok (some request), rest)) (w : List UInt8) (s : σ) :
    serveRw requests responses ending base64 m root r w s =
      let (answers, s) := answer base64 m root request s
      if request.isShutdown then ((.ok true, (writeFrames responses w answers).2), s)
      else
        match writeFrames responses w answers with
        | (.error e, w) => ((.error e, w), s)
        | (.ok (), w) => serveRw requests responses ending base64 m root rest w s := by
  rw [serveRw]
  split
  · next e _ read => cases got.symm.trans read
  · next read => cases got.symm.trans read
  · next read =>
    cases got.symm.trans read
    rfl

theorem serveRw_frames (roundTrips : requests.RoundTrips) {whole : List GuestRequest}
    (sendable : ∀ request ∈ whole, Sendable requests request) (tail w : List UInt8) (s : σ) :
    serveRw requests responses ending base64 m root (whole.flatMap (frameOf requests) ++ tail) w s =
      let run := session responses base64 m root whole s
      let written := w ++ (sentOf responses run.groups.flatten).flatMap (frameOf responses)
      match run.ended with
      | some ended => ((ended, written), run.state)
      | none => serveRw requests responses ending base64 m root tail written run.state := by
  induction whole generalizing w s with
  | nil => simp [session, sentOf]
  | cons request later ih =>
    rw [List.forall_mem_cons] at sendable
    rw [List.flatMap_cons, List.append_assoc,
      serveRw_request (readFrame_frameOf roundTrips sendable.1 ending _), session]
    cases answered : answer base64 m root request s with
    | mk answers s' =>
      simp only
      split
      · simp [writeFrames_eq]
      · cases able : answers.findSome? (unsent responses) with
        | some e => simp [writeFrames_eq, able]
        | none =>
          have all : sentOf responses answers = answers := by
            simpa [sentOf] using sentOf_append able []
          simp only [writeFrames_eq, able, all, ih sendable.2, List.flatten_cons, sentOf_append able,
            List.flatMap_append, List.append_assoc]

theorem serveRw_failed {r w : List UInt8} {e : ProtoError} (failed : (readFrame requests ending r).1 = .error e)
    (s : σ) : serveRw requests responses ending base64 m root r w s = ((.error e, w), s) := by
  rw [serveRw]
  split
  · next read =>
    rw [read] at failed
    cases failed
    rfl
  · next read =>
    rw [read] at failed
    cases failed
  · next read =>
    rw [read] at failed
    cases failed

theorem serveRw_closed {r w : List UInt8} (closed : (readFrame requests ending r).1 = .ok none) (s : σ) :
    serveRw requests responses ending base64 m root r w s = ((.ok false, w), s) := by
  rw [serveRw]
  split
  · next read =>
    rw [read] at closed
    cases closed
  · rfl
  · next read =>
    rw [read] at closed
    cases closed

end

section

variable {T : Type} (postcard : Postcard T) (msgs : List T) (cut : Nat)

def InsideBody : Prop :=
  ∃ k < msgs.length,
    boundary (frameOf postcard) msgs k + 4 ≤ cut ∧ cut < boundary (frameOf postcard) msgs (k + 1)

instance : Decidable (InsideBody postcard msgs cut) :=
  inferInstanceAs (Decidable (∃ k < msgs.length,
    boundary (frameOf postcard) msgs k + 4 ≤ cut ∧ cut < boundary (frameOf postcard) msgs (k + 1)))

variable {postcard msgs cut}

theorem insideBody_iff (short : wholeFrames (frameOf postcard) msgs cut < msgs.length)
    (part : cut < boundary (frameOf postcard) msgs (wholeFrames (frameOf postcard) msgs cut + 1)) :
    InsideBody postcard msgs cut ↔
      boundary (frameOf postcard) msgs (wholeFrames (frameOf postcard) msgs cut) + 4 ≤ cut := by
  constructor
  · rintro ⟨k, less, low, high⟩
    have whole : wholeFrames (frameOf postcard) msgs cut = k :=
      wholeFrames_eq (frameOf postcard) (Nat.le_of_lt less) (by omega) fun _ => high
    rw [whole]
    exact low
  · intro long
    exact ⟨_, short, long, part⟩

theorem take_cut (sendable : ∀ msg ∈ msgs, Sendable postcard msg) :
    ∃ tail, (writeFrames postcard [] msgs).2.take cut =
        (msgs.take (wholeFrames (frameOf postcard) msgs cut)).flatMap (frameOf postcard) ++ tail ∧
      (readFrame postcard .unexpectedEof tail).1 =
        if InsideBody postcard msgs cut then .error (.io .unexpectedEof) else .ok none := by
  rw [writeFrames_sendable sendable, List.nil_append]
  rcases Nat.lt_or_ge cut (msgs.flatMap (frameOf postcard)).length with short | long
  · obtain ⟨msg, found, part, taken⟩ := take_flatMap (frameOf postcard) short
    obtain ⟨less, -⟩ := List.getElem?_eq_some_iff.mp found
    have low := boundary_wholeFrames_le (frameOf postcard) msgs cut
    have inside := insideBody_iff less (by rwa [boundary_succ (frameOf postcard) found])
    refine ⟨_, taken, ?_⟩
    split
    · next body =>
      have four := inside.mp body
      rw [readFrame_take_frameOf (sendable msg (List.mem_of_getElem? found)) (by omega) (by omega)]
    · next noBody =>
      have few := mt inside.mpr noBody
      rw [readFrame_short (by rw [List.length_take]; omega)]
  · have all : wholeFrames (frameOf postcard) msgs cut = msgs.length := by
      refine wholeFrames_eq (frameOf postcard) (le_refl _) ?_ fun less => absurd less (lt_irrefl _)
      rwa [boundary, List.take_length]
    refine ⟨[], ?_, ?_⟩
    · rw [all, List.take_length, List.append_nil, List.take_of_length_le long]
    · rw [readFrame_short (by simp), if_neg]
      rintro ⟨k, -, -, high⟩
      have within : boundary (frameOf postcard) msgs (k + 1) ≤ (msgs.flatMap (frameOf postcard)).length := by
        conv_rhs => rw [← List.take_append_drop (k + 1) msgs, List.flatMap_append, List.length_append]
        exact Nat.le_add_right _ _
      omega

end

section

variable {σ : Type} {requests : Postcard GuestRequest} {responses : Postcard GuestResponse}
  {base64 : Base64} {m : Machine σ} {root : String}

def Chunk : GuestRequest → GuestResponse → Prop
  | .exec job, .execStdout execId _ | .exec job, .execStderr execId _ => execId = job.execId
  | _, _ => False

def Last : GuestRequest → GuestResponse → Prop
  | .ping, .pong | .shutdown, .pong => True
  | .writeFile _ _, .fileWritten | .readFile _, .fileRead _ => True
  | .exec job, .execDone execId _ _ => execId = job.execId
  | .writeFile _ _, .error _ | .readFile _, .error _ | .exec _, .error _ => True
  | _, _ => False

def Answers (request : GuestRequest) (answers : List GuestResponse) : Prop :=
  ∃ chunks last, answers = chunks ++ [last] ∧ (∀ chunk ∈ chunks, Chunk request chunk) ∧ Last request last

theorem not_last_of_chunk {request : GuestRequest} {response : GuestResponse} (chunk : Chunk request response) :
    ¬Last request response := by
  intro last
  cases request <;> cases response <;> first | exact chunk | exact last

theorem answers_prefixFree : PrefixFree Answers := by
  rintro request _ _ ⟨chunks, last, rfl, -, ends⟩ ⟨others, other, rfl, parts, -⟩ short
  rcases List.prefix_concat_iff.mp short with same | inside
  · exact same
  · have member : last ∈ others := inside.subset (List.mem_append_right _ (List.mem_singleton_self last))
    exact absurd ends (not_last_of_chunk (parts last member))

theorem answers_nonempty (request : GuestRequest) : ¬Answers request [] := by
  rintro ⟨chunks, last, none_, -⟩
  exact List.cons_ne_nil _ _ (List.append_eq_nil_iff.mp none_.symm).2

theorem answers_of_last {request : GuestRequest} {last : GuestResponse} (ends : Last request last) :
    Answers request [last] :=
  ⟨[], last, rfl, fun _ member => absurd member List.not_mem_nil, ends⟩

theorem mem_chunkOf {make : List UInt8 → GuestResponse} {bytes : List UInt8} {response : GuestResponse}
    (member : response ∈ chunkOf make bytes) : response = make bytes := by
  rw [chunkOf] at member
  split at member
  · cases member
  · exact List.mem_singleton.mp member

theorem execAnswer_answers (job : ExecJob) (s : σ) : Answers (.exec job) (execAnswer base64 m root job s).1 := by
  rw [execAnswer]
  cases depStderr m root job s with
  | mk installed s =>
    simp only
    split
    · exact answers_of_last trivial
    · next cap s' ran =>
      refine ⟨_, _, rfl, ?_, rfl⟩
      intro response member
      rw [List.mem_append] at member
      rcases member with member | member
      · rw [mem_chunkOf member]
        rfl
      · rw [mem_chunkOf member]
        rfl

theorem answer_answers (request : GuestRequest) (s : σ) : Answers request (answer base64 m root request s).1 := by
  cases request with
  | ping => exact answers_of_last trivial
  | shutdown => exact answers_of_last trivial
  | exec job => exact execAnswer_answers job s
  | writeFile path bytes =>
    rw [answer]
    split <;> exact answers_of_last trivial
  | readFile path =>
    rw [answer]
    split <;> exact answers_of_last trivial

theorem session_answers (sent : List GuestRequest) (s : σ) :
    List.Forall₂ Answers (sent.take (session responses base64 m root sent s).groups.length)
      (session responses base64 m root sent s).groups := by
  induction sent generalizing s with
  | nil => exact .nil
  | cons request later ih =>
    have first : Answers request (answer base64 m root request s).1 := answer_answers request s
    rw [session]
    cases answered : answer base64 m root request s with
    | mk answers s' =>
      rw [answered] at first
      simp only
      split
      · exact .cons first .nil
      · split
        · exact .cons first .nil
        · exact .cons first (ih s')

/-- What the host has read of the answers, however little, can be split in one way only into an answer to
each of its first requests: the way that the agent has answered them. -/
theorem answers_attributed (responses : Postcard GuestResponse) (base64 : Base64) (m : Machine σ) (root : String)
    (sent : List GuestRequest) (s : σ) :
    let run := session responses base64 m root sent s
    List.Forall₂ Answers (sent.take run.groups.length) run.groups ∧
      ∀ k others rest, List.Forall₂ Answers (sent.take k) others →
        others.flatten ++ rest = run.groups.flatten →
          others = run.groups.take k ∧ rest = (run.groups.drop k).flatten := by
  refine ⟨session_answers sent s, ?_⟩
  intro k others rest split same
  exact groups_prefix answers_prefixFree answers_nonempty (session_answers sent s) split same

theorem unsent_of_sendable {T : Type} {postcard : Postcard T} {msg : T} (sendable : Sendable postcard msg) :
    unsent postcard msg = none := by
  obtain ⟨body, encoded, fits⟩ := sendable
  simp only [unsent, encoded, if_neg (Nat.not_lt.mpr fits)]

theorem sentOf_session (pong : Sendable responses .pong) (sent : List GuestRequest) (s : σ)
    (fits : ∀ e, (session responses base64 m root sent s).ended ≠ some (.error e)) :
    sentOf responses (session responses base64 m root sent s).groups.flatten =
      (session responses base64 m root sent s).groups.flatten := by
  induction sent generalizing s with
  | nil => rfl
  | cons request later ih =>
    rw [session] at fits ⊢
    cases answered : answer base64 m root request s with
    | mk answers s' =>
      simp only [answered] at fits ⊢
      cases shutdown : request.isShutdown with
      | true =>
        have only : answers = [.pong] := by
          cases request <;> simp_all [answer, GuestRequest.isShutdown]
        simp [only, sentOf, unsent_of_sendable pong]
      | false =>
        simp only [shutdown, Bool.false_eq_true, if_false] at fits ⊢
        cases able : answers.findSome? (unsent responses) with
        | some e =>
          simp only [able] at fits
          exact absurd rfl (fits e)
        | none =>
          simp only [able] at fits ⊢
          rw [List.flatten_cons, sentOf_append able, ih s' fits]

theorem serveRw_cut (roundTrips : requests.RoundTrips) {sent : List GuestRequest}
    (sendable : ∀ request ∈ sent, Sendable requests request) (cut : Nat) (s : σ) :
    let run := session responses base64 m root (sent.take (wholeFrames (frameOf requests) sent cut)) s
    serveRw requests responses .unexpectedEof base64 m root ((writeFrames requests [] sent).2.take cut) [] s =
      ((run.ended.getD (if InsideBody requests sent cut then .error (.io .unexpectedEof) else .ok false),
        (sentOf responses run.groups.flatten).flatMap (frameOf responses)), run.state) := by
  intro run
  obtain ⟨tail, taken, last⟩ := take_cut sendable
  have whole : ∀ request ∈ sent.take (wholeFrames (frameOf requests) sent cut), Sendable requests request :=
    fun request member => sendable request (List.mem_of_mem_take member)
  rw [taken, serveRw_frames roundTrips whole]
  simp only [List.nil_append]
  split
  · next ended known => rw [known, Option.getD_some]
  · next waits =>
    rw [waits, Option.getD_none]
    split at last
    · next body => rw [serveRw_failed last, if_pos body]
    · next noBody => rw [serveRw_closed last, if_neg noBody]

/-- However much of the host's requests gets through: the agent serves those that arrive whole, up to a
`Shutdown` or an answer that cannot be sent. The host reads back what it has answered, and the agent ends with
an error just where an answer cannot be sent or the stream breaks off inside a message. -/
theorem session_answered (requestsRead : requests.RoundTrips) (responsesRead : responses.RoundTrips)
    (pong : Sendable responses .pong) {sent : List GuestRequest}
    (sendable : ∀ request ∈ sent, Sendable requests request) (base64 : Base64) (m : Machine σ)
    (root : String) (cut : Nat) (s : σ) :
    let run := session responses base64 m root (sent.take (wholeFrames (frameOf requests) sent cut)) s
    let served :=
      serveRw requests responses .unexpectedEof base64 m root ((writeFrames requests [] sent).2.take cut) [] s
    let read := sentOf responses run.groups.flatten
    served.1.1 = run.ended.getD
        (if InsideBody requests sent cut then .error (.io .unexpectedEof) else .ok false) ∧
      served.2 = run.state ∧
      (∀ n, reads (readFrame responses .unexpectedEof) (read.length + n) served.1.2 =
        read.map (fun response => .ok (some response)) ++ List.replicate n (.ok none)) ∧
      ((∀ e, run.ended ≠ some (.error e)) → read = run.groups.flatten) := by
  intro run served read
  have all : served = _ := serveRw_cut requestsRead sendable cut s
  refine ⟨by rw [all], by rw [all], ?_, sentOf_session pong _ s⟩
  intro n
  rw [all]
  exact reads_sent responsesRead run.groups.flatten n

end

section Example

-- `postcard` writes the index of the variant, then the fields, a text behind its length.
def fewRequests : Postcard GuestRequest where
  toAllocvec
    | .ping => .ok [0]
    | .writeFile "a" [] => .ok [2, 1, 97, 0]
    | .shutdown => .ok [4]
    | _ => .error "not used here"
  fromBytes bytes :=
    if bytes = [0] then .ok .ping
    else if bytes = [2, 1, 97, 0] then .ok (.writeFile "a" [])
    else if bytes = [4] then .ok .shutdown
    else .error "not used here"

def fewResponses : Postcard GuestResponse where
  toAllocvec
    | .pong => .ok [0]
    | .fileWritten => .ok [4]
    | _ => .error "not used here"
  fromBytes bytes :=
    if bytes = [0] then .ok .pong else if bytes = [4] then .ok .fileWritten else .error "not used here"

def idleMachine : Machine Unit where
  createDirAll _ s := (.ok (), s)
  write _ _ s := (.ok (), s)
  read _ s := (.error "No such file or directory (os error 2)", s)
  run _ s := (.notSpawned "No such file or directory (os error 2)", s)

theorem fewRequests_roundTrips : fewRequests.RoundTrips := by
  intro msg body encoded
  simp only [fewRequests] at encoded
  split at encoded <;> cases encoded <;> rfl

theorem fewResponses_roundTrips : fewResponses.RoundTrips := by
  intro msg body encoded
  simp only [fewResponses] at encoded
  split at encoded <;> cases encoded <;> rfl

theorem session_answered_shutdown :
    let served := serveRw fewRequests fewResponses .unexpectedEof standardBase64 idleMachine defaultRoot
      ((writeFrames fewRequests [] [.ping, .writeFile "a" [], .shutdown, .ping]).2.take 19) [] ()
    served.1.1 = .ok true ∧
      reads (readFrame fewResponses .unexpectedEof) 4 served.1.2 =
        [.ok (some .pong), .ok (some .fileWritten), .ok (some .pong), .ok none] := by
  have sendable : ∀ request ∈ [.ping, .writeFile "a" [], .shutdown, .ping], Sendable fewRequests request := by
    intro request member
    simp only [List.mem_cons, List.not_mem_nil, or_false] at member
    rcases member with rfl | rfl | rfl | rfl <;> exact ⟨_, rfl, by simp [maxFrameBytes]⟩
  have pong : Sendable fewResponses .pong := ⟨_, rfl, by simp [maxFrameBytes]⟩
  obtain ⟨ended, -, readBack, -⟩ := session_answered fewRequests_roundTrips fewResponses_roundTrips pong sendable
    standardBase64 idleMachine defaultRoot 19 ()
  have run : session fewResponses standardBase64 idleMachine defaultRoot
      ([.ping, .writeFile "a" [], .shutdown, .ping].take
        (wholeFrames (frameOf fewRequests) [.ping, .writeFile "a" [], .shutdown, .ping] 19)) () =
      { groups := [[.pong], [.fileWritten], [.pong]], ended := some (.ok true), state := () } := by
    rfl
  rw [run] at ended readBack
  exact ⟨ended, readBack 1⟩

end Example

end GuestAgent

end AtomrAgents
