import Mathlib.Data.Bool.AllAny
import Mathlib.Data.List.Basic
import Mathlib.Data.List.Flatten

set_option autoImplicit false

/-! A text that is cut inside nested containers is complete again when they are closed in the order in which
they were opened, last first, and in no other way. -/

namespace JsonText

inductive Container where
  | object
  | array
  deriving DecidableEq

def Container.opener : Container → Char
  | object => '{'
  | array => '['

def Container.closer : Container → Char
  | object => '}'
  | array => ']'

def closers (opened : List Container) : List Char := opened.map Container.closer

def scalarChars : List Char := "0123456789+-.eEtrufalsn".toList

-- A quote inside a string is escaped, and a backslash escapes what follows it.
inductive Escaped : List Char → Prop
  | nil : Escaped []
  | plain {c : Char} {rest : List Char} : c ≠ '"' → c ≠ '\\' → Escaped rest → Escaped (c :: rest)
  | escape (c : Char) {rest : List Char} : Escaped rest → Escaped ('\\' :: c :: rest)

theorem escaped_of_plain {raw : List Char} (plain : ∀ c ∈ raw, c ≠ '"' ∧ c ≠ '\\') : Escaped raw := by
  induction raw with
  | nil => exact .nil
  | cons c raw ih =>
    obtain ⟨noQuote, noBackslash⟩ := plain c List.mem_cons_self
    exact .plain noQuote noBackslash (ih fun d member => plain d (List.mem_cons_of_mem _ member))

-- What a reader takes for a scalar and for the inside of a string.
structure Lexicon where
  Scalar : List Char → Prop
  Text : List Char → Prop
  scalar_filled : ∀ raw, Scalar raw → raw ≠ []
  scalar_chars : ∀ raw, Scalar raw → ∀ c ∈ raw, c ∈ scalarChars
  text_escaped : ∀ raw, Text raw → Escaped raw

def White (text : List Char) : Prop := ∀ c ∈ text, c ∈ [' ', '\t', '\n', '\r']

structure Part where
  label : List Char
  value : List Char
  after : List Char

def Part.chars (part : Part) : List Char := part.label ++ part.value ++ part.after

def joined : List Part → List Char
  | [] => []
  | first :: later => first.chars ++ later.flatMap fun part => ',' :: part.chars

def led (parts : List Part) : List Char := parts.flatMap fun part => part.chars ++ [',']

-- What stands before a value: the name of a member, or nothing but white space.
inductive Label (lexicon : Lexicon) : Container → List Char → Prop
  | element {gap : List Char} : White gap → Label lexicon .array gap
  | member {before raw between after : List Char} : White before → lexicon.Text raw → White between →
      White after → Label lexicon .object (before ++ '"' :: (raw ++ '"' :: (between ++ ':' :: after)))

def Placed (lexicon : Lexicon) (c : Container) (part : Part) : Prop :=
  Label lexicon c part.label ∧ White part.after

/-- The text of a value that is nested at most `n` deep. -/
inductive Json (lexicon : Lexicon) : Nat → List Char → Prop
  | scalar {n : Nat} {raw : List Char} : lexicon.Scalar raw → Json lexicon n raw
  | text {n : Nat} {raw : List Char} : lexicon.Text raw → Json lexicon n ('"' :: (raw ++ ['"']))
  | container {n : Nat} (c : Container) {gap : List Char} {parts : List Part} : White gap →
      (∀ part ∈ parts, Placed lexicon c part) → (∀ part ∈ parts, Json lexicon n part.value) →
      Json lexicon (n + 1) (c.opener :: (gap ++ joined parts ++ [c.closer]))

def Spelled (lexicon : Lexicon) (n : Nat) (text : List Char) : Prop :=
  ∃ lead json trail, White lead ∧ White trail ∧ Json lexicon n json ∧ text = lead ++ json ++ trail

/-- The text of a value up to the end of a value inside it, with the containers that are open there. -/
inductive Cut (lexicon : Lexicon) : Nat → List Char → List Container → List Char → Prop
  | whole {n : Nat} {text : List Char} : Json lexicon n text → Cut lexicon n text [] text
  | within {n : Nat} {opened : List Container} {front : List Char} (c : Container) {gap : List Char}
      {earlier : List Part} {part : Part} {later : List Part} : White gap →
      (∀ p ∈ earlier ++ part :: later, Placed lexicon c p) →
      (∀ p ∈ earlier ++ part :: later, Json lexicon n p.value) → Cut lexicon n part.value opened front →
      Cut lexicon (n + 1) (c.opener :: (gap ++ joined (earlier ++ part :: later) ++ [c.closer])) (opened ++ [c])
        (c.opener :: (gap ++ led earlier ++ part.label ++ front))

variable {lexicon : Lexicon} {n : Nat} {text front tail : List Char} {opened : List Container}

theorem led_cons (first : Part) (parts : List Part) :
    led (first :: parts) = first.chars ++ (parts.flatMap fun p => ',' :: p.chars) ++ [','] := by
  induction parts generalizing first with
  | nil => simp [led]
  | cons next parts ih =>
    have shifted := ih next
    rw [led] at shifted ⊢
    rw [List.flatMap_cons, shifted, List.flatMap_cons]
    simp only [List.append_assoc, List.cons_append, List.nil_append]

theorem joined_append (earlier later : List Part) (part : Part) :
    joined (earlier ++ part :: later) = led earlier ++ part.chars ++ later.flatMap fun p => ',' :: p.chars := by
  cases earlier with
  | nil => rfl
  | cons first earlier =>
    rw [led_cons, List.cons_append, joined, List.flatMap_append, List.flatMap_cons]
    simp only [List.append_assoc, List.cons_append, List.nil_append]

theorem Cut.json (cut : Cut lexicon n text opened front) : Json lexicon n text := by
  cases cut with
  | whole json => exact json
  | within c white placed values cut => exact .container c white placed values

theorem Cut.closed (cut : Cut lexicon n text opened front) : Json lexicon n (front ++ closers opened) := by
  induction cut with
  | whole json => simpa [closers] using json
  | @within n opened front c gap earlier part later white placed values cut ih =>
    let last : Part := ⟨part.label, front ++ closers opened, []⟩
    have last_placed : Placed lexicon c last := ⟨(placed part (by simp)).1, by simp [White, last]⟩
    have parts_placed : ∀ p ∈ earlier ++ [last], Placed lexicon c p := by
      intro p member
      rcases List.mem_append.mp member with before | here
      · exact placed p (List.mem_append_left _ before)
      · rw [List.mem_singleton.mp here]
        exact last_placed
    have parts_values : ∀ p ∈ earlier ++ [last], Json lexicon n p.value := by
      intro p member
      rcases List.mem_append.mp member with before | here
      · exact values p (List.mem_append_left _ before)
      · rw [List.mem_singleton.mp here]
        exact ih
    have whole := Json.container c white parts_placed parts_values
    rw [joined_append] at whole
    simpa [last, closers, Part.chars] using whole

def special : List Char := ['"', '{', '[', '}', ']']

-- What holds of such a text, nested so deep at most, holds of those that are put together from its pieces.
structure Nested (lexicon : Lexicon) (P : Nat → List Char → Prop) : Prop where
  append : ∀ {n : Nat} {front back : List Char}, P n front → P n back → P n (front ++ back)
  plain : ∀ {n : Nat} {text : List Char}, (∀ c ∈ text, c ∉ special) → P n text
  text : ∀ {n : Nat} {raw : List Char}, lexicon.Text raw → P n ('"' :: (raw ++ ['"']))
  within : ∀ {n : Nat} (c : Container) {inner : List Char}, P n inner → P (n + 1) (c.opener :: (inner ++ [c.closer]))

namespace Nested

variable {P : Nat → List Char → Prop} {c : Container} {parts : List Part}

theorem white (nested : Nested lexicon P) (white : White text) : P n text := by
  have apart : ∀ d ∈ [' ', '\t', '\n', '\r'], d ∉ special := List.all_iff_forall_prop.mp (by decide)
  exact nested.plain fun c member => apart c (white c member)

theorem scalar (nested : Nested lexicon P) (scalar : lexicon.Scalar text) : P n text := by
  have apart : ∀ d ∈ scalarChars, d ∉ special := List.all_iff_forall_prop.mp (by decide)
  exact nested.plain fun c member => apart c (lexicon.scalar_chars text scalar c member)

theorem flatMap {α : Type} {f : α → List Char} {xs : List α} (nested : Nested lexicon P)
    (each : ∀ x ∈ xs, P n (f x)) : P n (xs.flatMap f) := by
  induction xs with
  | nil => exact nested.plain (by simp)
  | cons x xs ih =>
    rw [List.flatMap_cons]
    exact nested.append (each x List.mem_cons_self) (ih fun y member => each y (List.mem_cons_of_mem _ member))

theorem single (nested : Nested lexicon P) {d : Char} (other : d ∉ special) : P n [d] :=
  nested.plain fun _ member => List.mem_singleton.mp member ▸ other

theorem label {label : List Char} (nested : Nested lexicon P) (fits : Label lexicon c label) : P n label := by
  cases fits with
  | element gap => exact nested.white gap
  | @member before raw between after before_white text between_white after_white =>
    have colon : P n [':'] := nested.single (by decide)
    have whole := nested.append (nested.white before_white) (nested.append (nested.text text)
      (nested.append (nested.white between_white) (nested.append colon (nested.white after_white))))
    simpa using whole

theorem part {part : Part} (nested : Nested lexicon P) (placed : Placed lexicon c part) (value : P n part.value) :
    P n part.chars :=
  nested.append (nested.append (nested.label placed.1) value) (nested.white placed.2)

theorem joined (nested : Nested lexicon P) (each : ∀ part ∈ parts, P n part.chars) : P n (joined parts) := by
  cases parts with
  | nil => exact nested.plain (by simp [JsonText.joined])
  | cons first parts =>
    have later : P n (parts.flatMap fun part => [','] ++ part.chars) := nested.flatMap fun part member =>
      nested.append (nested.single (by decide)) (each part (List.mem_cons_of_mem _ member))
    exact nested.append (each first List.mem_cons_self) later

theorem inside {gap : List Char} (nested : Nested lexicon P) (white : White gap)
    (placed : ∀ part ∈ parts, Placed lexicon c part) (values : ∀ part ∈ parts, P n part.value) :
    P n (gap ++ JsonText.joined parts) :=
  nested.append (nested.white white)
    (nested.joined fun part member => nested.part (placed part member) (values part member))

theorem json (nested : Nested lexicon P) (json : Json lexicon n text) : P n text := by
  induction json with
  | scalar scalar => exact nested.scalar scalar
  | text text => exact nested.text text
  | container c white placed values ih => exact nested.within c (nested.inside white placed ih)

end Nested

structure Pieced (lexicon : Lexicon) (P : List Char → Prop) : Prop where
  append : ∀ {front back : List Char}, P front → P back → P (front ++ back)
  plain : ∀ {text : List Char}, (∀ c ∈ text, c ∉ special) → P text
  text : ∀ {raw : List Char}, lexicon.Text raw → P ('"' :: (raw ++ ['"']))
  within : ∀ (c : Container) {inner : List Char}, P inner → P (c.opener :: (inner ++ [c.closer]))

namespace Pieced

variable {P : List Char → Prop} {c : Container} {parts : List Part}

theorem nested (pieced : Pieced lexicon P) : Nested lexicon fun _ => P where
  append := pieced.append
  plain := pieced.plain
  text := pieced.text
  within := pieced.within

theorem white (pieced : Pieced lexicon P) (white : White text) : P text := pieced.nested.white (n := 0) white

theorem flatMap {α : Type} {f : α → List Char} {xs : List α} (pieced : Pieced lexicon P)
    (each : ∀ x ∈ xs, P (f x)) : P (xs.flatMap f) :=
  pieced.nested.flatMap (n := 0) each

theorem single (pieced : Pieced lexicon P) {d : Char} (other : d ∉ special) : P [d] :=
  pieced.nested.single (n := 0) other

theorem label {label : List Char} (pieced : Pieced lexicon P) (fits : Label lexicon c label) : P label :=
  pieced.nested.label (n := 0) fits

theorem part {part : Part} (pieced : Pieced lexicon P) (placed : Placed lexicon c part) (value : P part.value) :
    P part.chars :=
  pieced.nested.part (n := 0) placed value

theorem led (pieced : Pieced lexicon P) (each : ∀ part ∈ parts, P part.chars) : P (led parts) :=
  pieced.flatMap fun part member => pieced.append (each part member) (pieced.single (by decide))

theorem json (pieced : Pieced lexicon P) (json : Json lexicon n text) : P text := pieced.nested.json json

theorem before {gap : List Char} {earlier later : List Part} {part : Part} (pieced : Pieced lexicon P)
    (white : White gap) (placed : ∀ p ∈ earlier ++ part :: later, Placed lexicon c p)
    (values : ∀ p ∈ earlier ++ part :: later, Json lexicon n p.value) :
    P (gap ++ JsonText.led earlier ++ part.label) := by
  have parts : ∀ p ∈ earlier, P p.chars := fun p member =>
    pieced.part (placed p (List.mem_append_left _ member)) (pieced.json (values p (List.mem_append_left _ member)))
  have label := (placed part (List.mem_append_right _ List.mem_cons_self)).1
  exact pieced.append (pieced.append (pieced.white white) (pieced.led parts)) (pieced.label label)

end Pieced

inductive Mode where
  | plain
  | quoted
  | escaping
  deriving DecidableEq

abbrev Reading := Mode × List Container

def pop (c : Container) : List Container → Option Reading
  | [] => none
  | top :: stack => if top = c then some (.plain, stack) else none

-- Strings are passed over; outside them every bracket opens a container or closes the one opened last.
def read : Reading → Char → Option Reading
  | (.plain, stack), c =>
    if c = '"' then some (.quoted, stack)
    else if c = '{' then some (.plain, .object :: stack)
    else if c = '[' then some (.plain, .array :: stack)
    else if c = '}' then pop .object stack
    else if c = ']' then pop .array stack
    else some (.plain, stack)
  | (.quoted, stack), c =>
    if c = '\\' then some (.escaping, stack) else if c = '"' then some (.plain, stack) else some (.quoted, stack)
  | (.escaping, stack), _ => some (.quoted, stack)

def readAll : Reading → List Char → Option Reading
  | reading, [] => some reading
  | reading, c :: rest => (read reading c).bind fun next => readAll next rest

variable {reading next : Reading} {stack : List Container}

theorem readAll_append (reading : Reading) (front back : List Char) :
    readAll reading (front ++ back) = (readAll reading front).bind fun next => readAll next back := by
  induction front generalizing reading with
  | nil => rfl
  | cons c front ih =>
    rw [List.cons_append, readAll, readAll]
    cases read reading c with
    | none => rfl
    | some next => exact ih next

theorem read_opener (c : Container) (stack : List Container) :
    read (.plain, stack) c.opener = some (.plain, c :: stack) := by
  cases c <;> rfl

theorem read_closer (c : Container) (stack : List Container) : read (.plain, stack) c.closer = pop c stack := by
  cases c <;> rfl

theorem pop_below {c : Container} (below : List Container) (pops : pop c stack = some next) :
    pop c (stack ++ below) = some (next.1, next.2 ++ below) := by
  cases stack with
  | nil => cases pops
  | cons top stack =>
    rw [pop] at pops
    split at pops
    · next same =>
      cases pops
      exact if_pos same
    · cases pops

theorem read_below {c : Char} (below : List Container) (reads : read reading c = some next) :
    read (reading.1, reading.2 ++ below) c = some (next.1, next.2 ++ below) := by
  obtain ⟨mode, stack⟩ := reading
  cases mode with
  | plain =>
    simp only [read] at reads ⊢
    split_ifs at reads ⊢
    all_goals first
      | exact pop_below below reads
      | cases reads; rfl
  | quoted =>
    simp only [read] at reads ⊢
    split_ifs at reads ⊢ <;> cases reads <;> rfl
  | escaping =>
    cases reads
    rfl

theorem readAll_below (below : List Container) (reads : readAll reading text = some next) :
    readAll (reading.1, reading.2 ++ below) text = some (next.1, next.2 ++ below) := by
  induction text generalizing reading with
  | nil =>
    cases reads
    rfl
  | cons c text ih =>
    obtain ⟨between, first, rest⟩ := Option.bind_eq_some_iff.mp reads
    rw [readAll, read_below below first]
    exact ih rest

-- The brackets of such a text match.
def Still (text : List Char) : Prop := ∀ stack, readAll (.plain, stack) text = some (.plain, stack)

theorem Still.append {back : List Char} (first : Still front) (second : Still back) : Still (front ++ back) := by
  intro stack
  rw [readAll_append, first stack]
  exact second stack

theorem still_plain (plain : ∀ c ∈ text, c ∉ special) : Still text := by
  induction text with
  | nil => exact fun stack => rfl
  | cons c text ih =>
    intro stack
    have here := plain c List.mem_cons_self
    simp only [special, List.mem_cons, List.not_mem_nil, or_false, not_or] at here
    obtain ⟨quote, object, array, endObject, endArray⟩ := here
    have stays : read (.plain, stack) c = some (.plain, stack) := by
      simp only [read, if_neg quote, if_neg object, if_neg array, if_neg endObject, if_neg endArray]
    rw [readAll, stays]
    exact ih (fun d member => plain d (List.mem_cons_of_mem _ member)) stack

theorem readAll_escaped (escaped : Escaped text) (stack : List Container) :
    readAll (.quoted, stack) text = some (.quoted, stack) := by
  induction escaped with
  | nil => rfl
  | plain noQuote noBackslash rest ih =>
    rw [readAll, read, if_neg noBackslash, if_neg noQuote]
    exact ih
  | escape c rest ih => exact ih

theorem still_string (escaped : Escaped text) : Still ('"' :: (text ++ ['"'])) := by
  intro stack
  change readAll (.quoted, stack) (text ++ ['"']) = _
  rw [readAll_append, readAll_escaped escaped]
  rfl

theorem still_within (c : Container) (inner : Still text) : Still (c.opener :: (text ++ [c.closer])) := by
  intro stack
  rw [readAll, read_opener, Option.bind_some, readAll_append, inner, Option.bind_some, readAll, read_closer, pop,
    if_pos rfl]
  rfl

theorem still_pieced : Pieced lexicon Still where
  append := Still.append
  plain := still_plain
  text raw := still_string (lexicon.text_escaped _ raw)
  within c _ inner := still_within c inner

theorem Spelled.still (spelled : Spelled lexicon n text) : Still text := by
  obtain ⟨lead, json, trail, lead_white, trail_white, value, rfl⟩ := spelled
  have still : Pieced lexicon Still := still_pieced
  exact ((still.white lead_white).append (still.json value)).append (still.white trail_white)

theorem Cut.reads (cut : Cut lexicon n text opened front) (stack : List Container) :
    readAll (.plain, stack) front = some (.plain, opened ++ stack) := by
  induction cut generalizing stack with
  | whole json => exact still_pieced.json json stack
  | @within n opened front c gap earlier part later white placed values cut ih =>
    have before := still_pieced.before white placed values
    rw [readAll, read_opener, Option.bind_some, readAll_append, before, Option.bind_some, ih,
      List.append_cons _ c stack]

theorem Json.ne_nil (json : Json lexicon n text) : text ≠ [] := by
  cases json with
  | scalar scalar => exact lexicon.scalar_filled text scalar
  | text text => exact List.cons_ne_nil _ _
  | container c white placed values => exact List.cons_ne_nil _ _

theorem Json.spelled (json : Json lexicon n text) : Spelled lexicon n text :=
  ⟨[], text, [], by simp [White], by simp [White], json, by simp⟩

theorem Cut.unfinished {m : Nat} {piece : List Char} (cut : Cut lexicon n text opened front) (inside : opened ≠ [])
    (begins : piece <+: front) : ¬ Spelled lexicon m piece := by
  intro spelled
  have matched := spelled.still []
  cases cut with
  | whole json => exact inside rfl
  | @within n opened front c gap earlier part later white placed values cut =>
    cases piece with
    | nil =>
      obtain ⟨lead, json, trail, -, -, value, split⟩ := spelled
      have filled := value.ne_nil
      simp_all
    | cons x piece =>
      rw [List.cons_prefix_cons] at begins
      obtain ⟨rfl, rest, split⟩ := begins
      have all : readAll (.plain, []) (piece ++ rest) = some (.plain, opened ++ []) := by
        rw [split, readAll_append, still_pieced.before white placed values, Option.bind_some, cut.reads]
      rw [readAll_append] at all
      obtain ⟨next, reads, -⟩ := Option.bind_eq_some_iff.mp all
      rw [readAll, read_opener, Option.bind_some] at matched
      have stays : readAll (.plain, [c]) piece = some (next.1, next.2 ++ [c]) := readAll_below [c] reads
      rw [stays, Option.some_inj, Prod.mk.injEq] at matched
      exact List.append_ne_nil_of_right_ne_nil _ (List.cons_ne_nil c []) matched.2

theorem closers_of_readAll {other : List Container}
    (reads : readAll (.plain, opened) (closers other) = some (.plain, [])) : other = opened := by
  induction other generalizing opened with
  | nil =>
    cases reads
    rfl
  | cons c other ih =>
    rw [closers, List.map_cons, readAll, read_closer] at reads
    cases opened with
    | nil => cases reads
    | cons top opened =>
      rw [pop] at reads
      split at reads
      · next same =>
        rw [same, ih reads]
      · cases reads

theorem Cut.closers_unique {m : Nat} {other : List Container} (cut : Cut lexicon n text opened front)
    (spelled : Spelled lexicon m (front ++ closers other)) : other = opened := by
  have matched := spelled.still []
  rw [readAll_append, cut.reads, Option.bind_some, List.append_nil] at matched
  exact closers_of_readAll matched

theorem nothing_around {lead json trail middle : List Char} {x y : Char} (lead_white : White lead)
    (trail_white : White trail) (first : ¬ White [x]) (last : ¬ White [y])
    (split : x :: (middle ++ [y]) = lead ++ json ++ trail) : lead = [] ∧ trail = [] := by
  constructor
  · cases lead with
    | nil => rfl
    | cons z lead =>
      have same : x = z := (List.cons.inj split).1
      subst same
      exact absurd (fun c member => lead_white c (by simp_all)) first
  · rcases List.eq_nil_or_concat' trail with none | ⟨trail, z, rfl⟩
    · exact none
    · rw [← List.cons_append, ← List.append_assoc] at split
      have same : y = z := by simpa using (List.append_inj' split rfl).2
      subst same
      exact absurd (fun c member => trail_white c (by simp_all)) last

theorem Cut.json_of_spelled {m : Nat} (cut : Cut lexicon n text opened front) (inside : opened ≠ [])
    (spelled : Spelled lexicon m (front ++ closers opened)) : Json lexicon m (front ++ closers opened) := by
  cases cut with
  | whole json => exact absurd rfl inside
  | @within n opened front c gap earlier part later white placed values cut =>
    obtain ⟨lead, json, trail, lead_white, trail_white, value, split⟩ := spelled
    have shape : ∃ middle, c.opener :: (gap ++ led earlier ++ part.label ++ front) ++ closers (opened ++ [c]) =
        c.opener :: (middle ++ [c.closer]) :=
      ⟨gap ++ led earlier ++ part.label ++ front ++ closers opened, by simp [closers]⟩
    obtain ⟨middle, shape⟩ := shape
    rw [shape] at split ⊢
    obtain ⟨rfl, rfl⟩ := nothing_around lead_white trail_white (by cases c <;> simp [White, Container.opener])
      (by cases c <;> simp [White, Container.closer]) split
    simpa [split] using value

def endChars : List Char := '"' :: '}' :: ']' :: scalarChars

theorem Json.ends (json : Json lexicon n text) : ∃ before last, text = before ++ [last] ∧ last ∈ endChars := by
  cases json with
  | scalar scalar =>
    obtain none | ⟨before, last, rfl⟩ := List.eq_nil_or_concat' text
    · exact absurd none (lexicon.scalar_filled text scalar)
    · have member := lexicon.scalar_chars _ scalar last (by simp)
      exact ⟨before, last, rfl, by simp [endChars, member]⟩
  | @text n raw text => exact ⟨'"' :: raw, '"', rfl, by decide⟩
  | @container n c gap parts white placed values =>
    exact ⟨c.opener :: (gap ++ joined parts), c.closer, rfl, by cases c <;> decide⟩

theorem Cut.ends (cut : Cut lexicon n text opened front) :
    ∃ before last, front = before ++ [last] ∧ last ∈ endChars := by
  induction cut with
  | whole json => exact json.ends
  | @within n opened front c gap earlier part later white placed values cut ih =>
    obtain ⟨before, last, split, member⟩ := ih
    exact ⟨c.opener :: (gap ++ led earlier ++ part.label ++ before), last, by simp [split], member⟩

theorem Cut.begins (cut : Cut lexicon n text opened front) (inside : opened ≠ []) :
    ∃ (c : Container) (tail : List Char), front = c.opener :: tail := by
  cases cut with
  | whole json => exact absurd rfl inside
  | within c white placed values cut => exact ⟨c, _, rfl⟩

end JsonText
