import AtomrAgents.Meetings.Extractor

set_option autoImplicit false

namespace AtomrAgents.Stt

-- Confidences are kept as bit patterns.
structure Word where
  text : String
  startMs : Nat
  endMs : Nat
  confidence : Option UInt32

structure Segment where
  text : String
  startMs : Nat
  endMs : Nat
  words : List Word
  speaker : Option SpeakerTag
  confidence : Option UInt32

-- `StreamEvent`; the first is its `Partial`.
inductive StreamEvent where
  | interim (text : String) (startMs endMs : Nat) (words : List Word)
  | final (segment : Segment)
  | speakerTurn (speaker : SpeakerTag) (atMs : Nat)
  | utteranceEnd (atMs : Nat)
  | metadata (data : Value)

-- `PartialBuf`
structure InterimBuf where
  text : String
  startMs : Nat
  endMs : Nat
  words : List Word

structure CommittedTurn extends SttTurn where
  words : List Word
  confidence : Option UInt32

-- Of the seconds of audio it is enough to know the milliseconds, with which they grow.
structure Conversation where
  id : String
  turns : List CommittedTurn
  openPartial : Option InterimBuf
  totalAudioMs : Nat
  speakerLabels : UInt8 → Option String
  currentSpeaker : Option SpeakerTag

def speakerRef : Option SpeakerTag → SpeakerRef
  | some tag => .diarized tag
  | none => .unknown

namespace Conversation

def new (id : String) : Conversation where
  id := id
  turns := []
  openPartial := none
  totalAudioMs := 0
  speakerLabels := fun _ => none
  currentSpeaker := none

variable (conv : Conversation)

def bumpAudio (endMs : Nat) : Conversation := { conv with totalAudioMs := max conv.totalAudioMs endMs }

def applyPartial (text : String) (startMs endMs : Nat) (words : List Word) : Conversation :=
  { conv.bumpAudio endMs with openPartial := some { text, startMs, endMs, words } }

def segmentTurn (seg : Segment) : CommittedTurn where
  index := conv.turns.length
  speaker := speakerRef (seg.speaker.or conv.currentSpeaker)
  text := seg.text
  startMs := seg.startMs
  endMs := seg.endMs
  words := seg.words
  confidence := seg.confidence

def commitSegment (seg : Segment) : CommittedTurn × Conversation :=
  let turn := conv.segmentTurn seg
  (turn, { conv.bumpAudio seg.endMs with openPartial := none, turns := conv.turns ++ [turn] })

def noteSpeakerChange (speaker : SpeakerTag) : Conversation := { conv with currentSpeaker := some speaker }

def interimTurn (buf : InterimBuf) : CommittedTurn where
  index := conv.turns.length
  speaker := speakerRef conv.currentSpeaker
  text := buf.text
  startMs := buf.startMs
  endMs := buf.endMs
  words := buf.words
  confidence := none

def closeOpenTurn (atMs : Nat) : Option CommittedTurn × Conversation :=
  match conv.openPartial with
  | none => (none, conv)
  | some buf =>
    let turn := conv.interimTurn buf
    (some turn,
      { conv.bumpAudio (max atMs buf.endMs) with openPartial := none, turns := conv.turns ++ [turn] })

end Conversation

structure DiarizationSpan where
  speakerId : UInt8
  startMs : Nat
  endMs : Nat

-- The samples as bit patterns.
structure PcmBuffer where
  samples : List UInt32
  sampleRate : Nat

structure Diarizer where
  diarize : PcmBuffer → Except String (List DiarizationSpan)
  durationMs : PcmBuffer → Nat

inductive DiarizationPolicy where
  | off
  | backend
  | layered (diarizer : Diarizer)

structure DiarizationStage where
  policy : DiarizationPolicy
  pcmRx : List PcmBuffer
  accum : List UInt32
  sampleRate : Nat

-- The span that overlaps the most, the first of those; it keeps the speaker and the overlap.
def bestSpan (lo hi : Nat) : Option (UInt8 × Nat) → List DiarizationSpan → Option (UInt8 × Nat)
  | best, [] => best
  | best, span :: spans =>
    let oLo := max lo span.startMs
    let oHi := min hi span.endMs
    if oHi ≤ oLo then bestSpan lo hi best spans
    else
      match best with
      | none => bestSpan lo hi (some (span.speakerId, oHi - oLo)) spans
      | some (_, prev) =>
        if prev < oHi - oLo then bestSpan lo hi (some (span.speakerId, oHi - oLo)) spans
        else bestSpan lo hi best spans

def applySpansToSegment (seg : Segment) (spans : List DiarizationSpan) (utteranceMs : Nat) : Segment :=
  match spans with
  | [] => seg
  | first :: _ =>
    let window := if seg.startMs < seg.endMs then (seg.startMs, seg.endMs) else (0, max utteranceMs 1)
    let id := ((bestSpan window.1 window.2 none spans).map Prod.fst).getD first.speakerId
    { seg with speaker := some { id, label := some ("speaker_" ++ toString id.toNat) } }

namespace DiarizationStage

variable (stage : DiarizationStage)

def new (policy : DiarizationPolicy) : DiarizationStage where
  policy := policy
  pcmRx := []
  accum := []
  sampleRate := 16000

def drainPcm : DiarizationStage :=
  stage.pcmRx.foldl (fun stage pcm =>
    { stage with
      sampleRate := if 0 < pcm.sampleRate then pcm.sampleRate else stage.sampleRate
      accum := stage.accum ++ pcm.samples }) { stage with pcmRx := [] }

def resolveSegment (seg : Segment) : Except String (DiarizationStage × Segment) :=
  match stage.policy with
  | .off => .ok (stage, { seg with speaker := none })
  | .backend => .ok (stage, seg)
  | .layered diarizer =>
    let drained := stage.drainPcm
    let buf : PcmBuffer := { samples := drained.accum, sampleRate := max drained.sampleRate 1 }
    match diarizer.diarize buf with
    | .error e => .error e
    | .ok spans => .ok ({ drained with accum := [] }, applySpansToSegment seg spans (diarizer.durationMs buf))

-- The session forwards audio for a layered diarizer only.
def forward (pcm : PcmBuffer) : DiarizationStage :=
  match stage.policy with
  | .layered _ => { stage with pcmRx := stage.pcmRx ++ [pcm] }
  | _ => stage

end DiarizationStage

end AtomrAgents.Stt
