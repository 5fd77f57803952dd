import AtomrAgents.Core.Text
import AtomrAgents.Core.Value
import AtomrAgents.Shared.Utf8

set_option autoImplicit false

/-! A text that is not complete is closed and read. The brackets that are missing are only counted: every
object is closed before any array, and a quote behind a backslash is never taken for the end of a string. -/

namespace AtomrAgents

open Shared

-- `serde_json::from_str(..).ok()` at `Value`
abbrev FromStr := String → Option Value

structure Walk where
  depthObj : Int32
  depthArr : Int32
  inString : Bool
  lastClose : Option Nat
  prev : UInt8

namespace Walk

def start : Walk := { depthObj := 0, depthArr := 0, inString := false, lastClose := none, prev := 0 }

def balance (w : Walk) (i : Nat) : Walk :=
  if w.depthObj = 0 ∧ w.depthArr = 0 then { w with lastClose := some (i + 1) } else w

def turn (w : Walk) (i : Nat) (c : UInt8) : Walk :=
  if w.inString then
    if c = '"'.toUInt8 ∧ w.prev ≠ '\\'.toUInt8 then { w with inString := false } else w
  else if c = '"'.toUInt8 then { w with inString := true }
  else if c = '{'.toUInt8 then { w with depthObj := w.depthObj + 1 }
  else if c = '}'.toUInt8 then balance { w with depthObj := w.depthObj - 1 } i
  else if c = '['.toUInt8 then { w with depthArr := w.depthArr + 1 }
  else if c = ']'.toUInt8 then balance { w with depthArr := w.depthArr - 1 } i
  else w

def step (w : Walk) (i : Nat) (c : UInt8) : Walk := { w.turn i c with prev := c }

def run (w : Walk) : Nat → List UInt8 → Walk
  | _, [] => w
  | i, c :: rest => (w.step i c).run (i + 1) rest

end Walk

-- `while depth > 0 { repaired.push(closer); depth -= 1; }`
def closeAll (depth : Int32) (closer : Char) : List Char := List.replicate depth.toInt.toNat closer

-- Nothing is the panic of a slice.
def tryParsePartial (fromStr : FromStr) (buf : String) : Option (Option Value) :=
  let trimmed := trim buf
  if trimmed = "" then some none
  else
    match fromStr trimmed with
    | some v => some (some v)
    | none =>
      let w := Walk.start.run 0 (utf8 trimmed.toList)
      let repaired := trimmed ++ String.ofList (closeAll w.depthObj '}' ++ closeAll w.depthArr ']')
      match w.lastClose with
      | none => some (fromStr repaired)
      | some stop =>
        match sliceTo trimmed.toList stop with
        | none => none
        | some cut =>
          match fromStr (String.ofList cut) with
          | some v => some (some v)
          | none => some (fromStr repaired)

structure StreamingPartialJsonParser where
  buffer : String

namespace StreamingPartialJsonParser

variable (fromStr : FromStr)

def new : StreamingPartialJsonParser := { buffer := "" }

abbrev Answer := Option (Except AgentError (Option Value))

def feed (self : StreamingPartialJsonParser) (chunk : String) : StreamingPartialJsonParser × Answer :=
  let self := { self with buffer := self.buffer ++ chunk }
  (self, (tryParsePartial fromStr self.buffer).map .ok)

def finish (self : StreamingPartialJsonParser) : Option (Except AgentError Value) :=
  (tryParsePartial fromStr self.buffer).map fun parsed =>
    match parsed with
    | some v => .ok v
    | none => .error (.tool "streaming json: no parseable content")

def feedAll : StreamingPartialJsonParser → List String → List Answer
  | _, [] => []
  | self, chunk :: chunks => (self.feed fromStr chunk).2 :: feedAll (self.feed fromStr chunk).1 chunks

theorem feedAll_last (self : StreamingPartialJsonParser) {chunks : List String} (some_chunk : chunks ≠ []) :
    (self.feedAll fromStr chunks).getLast? =
      some ((tryParsePartial fromStr (self.buffer ++ String.join chunks)).map .ok) := by
  induction chunks generalizing self with
  | nil => exact absurd rfl some_chunk
  | cons chunk chunks ih =>
    cases chunks with
    | nil => simp [feedAll, feed]
    | cons next chunks =>
      have later := ih (self.feed fromStr chunk).1 (List.cons_ne_nil _ _)
      rw [feedAll, feedAll, List.getLast?_cons_cons]
      rw [feedAll] at later
      rw [later, String.join_cons (s := chunk), feed, String.append_assoc]

end StreamingPartialJsonParser

namespace Walk

def Closes (bytes : List UInt8) (stop : Nat) : Prop :=
  ∃ j, stop = j + 1 ∧ (bytes[j]? = some '}'.toUInt8 ∨ bytes[j]? = some ']'.toUInt8)

theorem lastClose_balance {w : Walk} {i stop : Nat} (closes : (w.balance i).lastClose = some stop) :
    w.lastClose = some stop ∨ stop = i + 1 := by
  unfold balance at closes
  split_ifs at closes
  · exact .inr (Option.some.inj closes).symm
  · exact .inl closes

theorem lastClose_turn {w : Walk} {i stop : Nat} {c : UInt8} (closes : (w.turn i c).lastClose = some stop) :
    w.lastClose = some stop ∨ stop = i + 1 ∧ (c = '}'.toUInt8 ∨ c = ']'.toUInt8) := by
  unfold turn at closes
  split_ifs at closes with inside endQuote quote object endObject array endArray
  · exact .inl closes
  · exact .inl closes
  · exact .inl closes
  · exact .inl closes
  · exact (lastClose_balance closes).imp_right fun here => ⟨here, .inl endObject⟩
  · exact .inl closes
  · exact (lastClose_balance closes).imp_right fun here => ⟨here, .inr endArray⟩
  · exact .inl closes

theorem lastClose_run {w : Walk} {bytes rest : List UInt8} {i stop : Nat} (left : bytes.drop i = rest)
    (sound : ∀ stop, w.lastClose = some stop → Closes bytes stop) (closes : (w.run i rest).lastClose = some stop) :
    Closes bytes stop := by
  induction rest generalizing w i with
  | nil => exact sound stop closes
  | cons c rest ih =>
    have here : bytes[i]? = some c := by
      rw [← List.head?_drop, left]
      rfl
    have next : bytes.drop (i + 1) = rest := by
      rw [← List.tail_drop, left]
      rfl
    refine ih next (fun stop closed => ?_) closes
    obtain before | ⟨rfl, bracket | bracket⟩ := lastClose_turn closed
    · exact sound stop before
    · exact ⟨i, rfl, .inl (bracket ▸ here)⟩
    · exact ⟨i, rfl, .inr (bracket ▸ here)⟩

theorem sliced {text : List Char} {stop : Nat}
    (closes : (start.run 0 (utf8 text)).lastClose = some stop) :
    ∃ cut, cut <+: text ∧ sliceTo text stop = some cut := by
  have unclosed : ∀ stop, start.lastClose = some stop → Closes (utf8 text) stop := fun stop none => by cases none
  have here : (utf8 text).drop 0 = utf8 text := List.drop_zero
  obtain ⟨j, rfl, object | array⟩ := lastClose_run here unclosed closes
  · exact sliceTo_ascii object (by decide)
  · exact sliceTo_ascii array (by decide)

end Walk

theorem tryParsePartial_returns (fromStr : FromStr) (buf : String) :
    ∃ answer, tryParsePartial fromStr buf = some answer := by
  unfold tryParsePartial
  dsimp only
  split_ifs with empty
  · exact ⟨_, rfl⟩
  · cases fromStr (trim buf) with
    | some v => exact ⟨_, rfl⟩
    | none =>
      dsimp only
      cases closes : (Walk.start.run 0 (utf8 (trim buf).toList)).lastClose with
      | none => exact ⟨_, rfl⟩
      | some stop =>
        obtain ⟨cut, -, slice⟩ := Walk.sliced closes
        dsimp only
        rw [slice]
        dsimp only
        cases fromStr (String.ofList cut) <;> exact ⟨_, rfl⟩

end AtomrAgents
