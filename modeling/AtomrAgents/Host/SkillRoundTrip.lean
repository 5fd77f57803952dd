import AtomrAgents.Host.SkillFiles
import AtomrAgents.Host.StoreCalls
import AtomrAgents.Host.YamlBlocks

set_option autoImplicit false

namespace AtomrAgents

open Shared Shared.UnixPath

section Reading

variable {serde : SerdeYaml} {proposal : SkillProposal} {dir : String} {values : HeaderValues} {fm : Values}

def SkillProposal.skill (proposal : SkillProposal) (dir : String) : SkillDefinition where
  id := dir
  name := proposal.name
  instructionFragment := proposal.finished
  priority := proposal.priority
  keywords := proposal.keywords
  toolOverlay := proposal.toolOverlay
  memoryNamespace := []

end Reading

section Files

variable {paths : AgentPaths} {text : FileText} {dir place : Place} {name : FileName}

def FileAction.Within (dir : Place) : FileAction → Prop
  | .createDirAll _ => True
  | .write path _ | .copy _ path | .removeFile path | .removeDirAll path => dir <+: resolve path

-- The id leads to a directory of its own: a name, with no more than `.` before it and separators after it.
def LeadsTo (skillId : String) (name : FileName) : Prop :=
  isAbsolute skillId.toList = false ∧ ∃ dots : List Component, (∀ step ∈ dots, step = .curDir) ∧
    stepsOf skillId.toList = dots ++ [.normal name.chars]

variable {proposal : SkillProposal} {historyLimit ts : Nat} {disk : Disk}

end Files

section Loading

variable {serde : SerdeYaml} {paths : AgentPaths} {text : FileText} {names : List FileName}

end Loading

section RoundTrip

variable {serde : SerdeYaml} {paths : AgentPaths} {proposal : SkillProposal} {values : HeaderValues}

-- The body may have got the end of a line.
structure Carries (proposal : SkillProposal) (skill : SkillDefinition) : Prop where
  name : skill.name = proposal.name
  priority : skill.priority = proposal.priority
  keywords : skill.keywords = proposal.keywords
  toolOverlay : skill.toolOverlay = proposal.toolOverlay
  body : skill.instructionFragment = proposal.body ∨ skill.instructionFragment = proposal.body ++ "\n"

def Readable (serde : SerdeYaml) (proposal : SkillProposal) : Prop :=
  ∃ name : FileName, LeadsTo proposal.skillId name ∧ name.isHidden = false ∧
    ∃ values, TextsRead serde proposal name.text values

end RoundTrip

end AtomrAgents
