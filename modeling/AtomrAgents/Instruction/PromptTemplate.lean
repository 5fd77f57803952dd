import AtomrAgents.Core.Context
import AtomrAgents.Core.Text
import AtomrAgents.Core.Value

set_option autoImplicit false

namespace AtomrAgents

-- `Value::String` gives its own text, any other value the one `Value::to_string` gives.
def replacement (toText : Value → String) : Value → String
  | .string s => s
  | other => toText other

def placeholder (k : String) : String := String.ofList ('\x7b' :: k.toList ++ ['\x7d'])

structure StringTemplate where
  text : String

namespace StringTemplate

section Render

variable (toText : Value → String)

def insert (out : String) (entry : String × Value) : String :=
  replace out (placeholder entry.1) (replacement toText entry.2)

-- `vars` is in the order in which its map is iterated.
def render (template : StringTemplate) (vars : List (String × Value)) : String :=
  vars.foldl (insert toText) template.text

end Render

end StringTemplate

inductive TemplateToken where
  | letter (c : Char)
  | hole (name : String)
  deriving DecidableEq

namespace TemplateToken

def plain (c : Char) : Bool := c != '\x7b' && c != '\x7d'

-- The first `skip` letters belong to a placeholder already read.
def readFrom : Nat → List Char → List TemplateToken
  | _, [] => []
  | skip + 1, _ :: rest => readFrom skip rest
  | 0, c :: rest =>
    if c = '\x7b' ∧ (rest.dropWhile plain).head? = some '\x7d' then
      .hole (String.ofList (rest.takeWhile plain)) :: readFrom ((rest.takeWhile plain).length + 1) rest
    else .letter c :: readFrom 0 rest

def fill (value : String → Option String) : TemplateToken → List Char
  | .letter c => [c]
  | .hole name => ((value name).getD (placeholder name)).toList

end TemplateToken

namespace StringTemplate

def tokens (template : StringTemplate) : List TemplateToken := TemplateToken.readFrom 0 template.text.toList

def fill (template : StringTemplate) (value : String → Option String) : String :=
  String.ofList (template.tokens.flatMap (TemplateToken.fill value))

section Meaning

variable (toText : Value → String)

def binding (vars : Values) (name : String) : Option String := vars[name]?.map (replacement toText)

/-- Every placeholder is replaced by its value, or by nothing if it has none. -/
def substituted (template : StringTemplate) (vars : Values) : String :=
  template.fill fun name => some ((binding toText vars name).getD "")

-- The placeholders of the chosen variables are replaced, the others are left.
def partly (template : StringTemplate) (vars : Values) (chosen : String → Bool) : String :=
  template.fill fun name => if chosen name then binding toText vars name else none

end Meaning

end StringTemplate

@[simp] theorem toList_placeholder (k : String) : (placeholder k).toList = '\x7b' :: (k.toList ++ ['\x7d']) := by
  simp [placeholder]

theorem placeholder_ne_nil (k : String) : (placeholder k).toList ≠ [] := by simp

namespace TemplateToken

theorem readFrom_source (skip : Nat) (text : List Char) :
    (readFrom skip text).flatMap (fill fun _ => none) = text.drop skip := by
  induction text generalizing skip with
  | nil => cases skip <;> simp [readFrom]
  | cons c rest ih =>
    cases skip with
    | succ skip => exact ih skip
    | zero =>
      have whole := List.takeWhile_append_dropWhile (p := plain) (l := rest)
      by_cases hole : c = '\x7b' ∧ (rest.dropWhile plain).head? = some '\x7d'
      · obtain ⟨more, behind⟩ := List.head?_eq_some_iff.mp hole.2
        rw [behind] at whole
        have cut : ∀ front : List Char, front ++ '\x7d' :: more = rest → rest.drop (front.length + 1) = more := by
          intro front here
          simp [← here, List.drop_append]
        have tail := cut _ whole
        simp only [readFrom, hole, and_self, if_true, List.flatMap_cons, ih, tail, fill, Option.getD_none,
          toList_placeholder, String.toList_ofList, List.drop_zero]
        simp [whole]
      · simp [readFrom, hole, ih, fill]

theorem plain_of_hole {name : String} {text : List Char} {skip : Nat} (member : .hole name ∈ readFrom skip text) :
    ∀ c ∈ name.toList, plain c = true := by
  induction text generalizing skip with
  | nil => cases skip <;> simp [readFrom] at member
  | cons c rest ih =>
    cases skip with
    | succ skip => exact ih member
    | zero =>
      by_cases hole : c = '\x7b' ∧ (rest.dropWhile plain).head? = some '\x7d'
      · simp only [readFrom, hole, and_self, if_true, List.mem_cons, TemplateToken.hole.injEq] at member
        cases member with
        | inl here => simpa [here] using fun c => List.mem_takeWhile_imp
        | inr later => exact ih later
      · simp only [readFrom, hole, if_false, List.mem_cons, reduceCtorEq, false_or] at member
        exact ih member

end TemplateToken

theorem unbordered_placeholder {k : String} (plain : ∀ c ∈ k.toList, TemplateToken.plain c = true) :
    Shared.Unbordered (placeholder k).toList := by
  intro part begins ends
  cases part with
  | nil => exact .inl rfl
  | cons c part =>
    right
    obtain ⟨front, whole⟩ := ends
    cases front with
    | nil => exact whole
    | cons d front =>
      exfalso
      simp only [toList_placeholder, List.cons_prefix_cons, List.cons_append, List.cons.injEq] at begins whole
      have inside : c ∈ k.toList ++ ['\x7d'] := by simp [← whole.2]
      have := plain c
      simp_all [TemplateToken.plain]

namespace StringTemplate

variable {toText : Value → String} {template : StringTemplate} {vars : Values} {k : String} {v : Value}

theorem fill_none (template : StringTemplate) : template.fill (fun _ => none) = template.text := by
  simp [fill, tokens, TemplateToken.readFrom_source]

theorem fill_congr {f g : String → Option String} (same : ∀ name, .hole name ∈ template.tokens →
    (f name).getD (placeholder name) = (g name).getD (placeholder name)) : template.fill f = template.fill g := by
  have tokenwise : template.tokens.flatMap (TemplateToken.fill f) = template.tokens.flatMap (TemplateToken.fill g) := by
    apply List.flatMap_congr
    intro token member
    cases token with
    | letter c => rfl
    | hole name => simp [TemplateToken.fill, same name member]
  rw [fill, fill, tokenwise]

def bind (f : String → Option String) (k new : String) : String → Option String :=
  fun name => if name = k then some new else f name

theorem replace_fill_iff {f : String → Option String} {new : String} (unbound : f k = none) :
    replace (template.fill f) (placeholder k) new = template.fill (bind f k new) ↔
      new = placeholder k ∨
        Shared.occurrences (placeholder k).toList (template.fill f).toList = template.tokens.count (.hole k) := by
  obtain ⟨pieces, whole, size, plain⟩ := Shared.exists_pieces (TemplateToken.hole k) template.tokens
  have filled : pieces ≠ [] := List.ne_nil_of_length_eq_add_one size
  have before : (template.fill f).toList = (placeholder k).toList.intercalate
      (pieces.map fun piece => piece.flatMap (TemplateToken.fill f)) := by
    simp [fill, whole, Shared.flatMap_intercalate, TemplateToken.fill, unbound]
  have after : (template.fill (bind f k new)).toList = new.toList.intercalate
      (pieces.map fun piece => piece.flatMap (TemplateToken.fill f)) := by
    have elsewhere : pieces.map (fun piece => piece.flatMap (TemplateToken.fill (bind f k new))) =
        pieces.map (fun piece => piece.flatMap (TemplateToken.fill f)) := by
      apply List.map_congr_left
      intro piece member
      apply List.flatMap_congr
      intro token inside
      cases token with
      | letter c => rfl
      | hole name =>
        have other : name ≠ k := by
          rintro rfl
          exact plain piece member inside
        simp [TemplateToken.fill, bind, other]
    simp [fill, whole, Shared.flatMap_intercalate, TemplateToken.fill, bind, ← elsewhere]
  rw [← String.toList_inj, ← String.toList_inj, toList_replace, after]
  by_cases present : .hole k ∈ template.tokens
  · have unbordered := unbordered_placeholder (TemplateToken.plain_of_hole present)
    rw [before, Shared.replaced_joints_iff unbordered (placeholder_ne_nil k) (by simpa using filled), List.length_map,
      size, Nat.add_right_cancel_iff]
  · have none : template.tokens.count (.hole k) = 0 := List.count_eq_zero.mpr present
    rw [none] at size ⊢
    obtain ⟨piece, rfl⟩ := List.length_eq_one_iff.mp size
    have unchanged : new.toList.intercalate ([piece].map fun piece => piece.flatMap (TemplateToken.fill f)) =
        (template.fill f).toList := by
      rw [before]
      rfl
    rw [unchanged, Shared.replaced_eq_self_iff (placeholder_ne_nil k), or_comm]

variable (toText template vars) in
/-- In whatever order the map gives the variables, each turn of the loop replaces the placeholders of its variable
and nothing else, and the result is the substitution at once. -/
structure Simultaneous : Prop where
  turns : ∀ order, order.Perm vars.toList → ∀ front, front <+: order →
    template.render toText front = template.partly toText vars fun name => (front.map Prod.fst).contains name
  result : ∀ order, order.Perm vars.toList → template.render toText order = template.substituted toText vars

variable (toText template vars) in
/-- Every placeholder has a value. Wherever the values of some other variables are put in, the text of the placeholder
of `k` is at no other place than in the template, unless it would be replaced by itself. -/
structure Undisturbed : Prop where
  bound : ∀ name, .hole name ∈ template.tokens → name ∈ vars
  fresh : ∀ k v, vars[k]? = some v → replacement toText v ≠ placeholder k → ∀ chosen : String → Bool, chosen k = false →
    Shared.occurrences (placeholder k).toList (template.partly toText vars chosen).toList =
      template.tokens.count (.hole k)

theorem render_append (front : List (String × Value)) (entry : String × Value) :
    template.render toText (front ++ [entry]) = insert toText (template.render toText front) entry := by
  simp [render]

theorem partly_congr {p q : String → Bool} (same : ∀ name ∈ vars, p name = q name) :
    template.partly toText vars p = template.partly toText vars q := by
  apply fill_congr
  intro name _
  by_cases present : name ∈ vars
  · simp [same name present]
  · simp [binding, getElem?_neg vars name present]

theorem insert_partly_iff {chosen : String → Bool} (found : vars[k]? = some v) (waits : chosen k = false) :
    insert toText (template.partly toText vars chosen) (k, v) =
        template.partly toText vars (fun name => name == k || chosen name) ↔
      replacement toText v = placeholder k ∨
        Shared.occurrences (placeholder k).toList (template.partly toText vars chosen).toList =
          template.tokens.count (.hole k) := by
  have unbound : (fun name => if chosen name then binding toText vars name else none) k = none := by simp [waits]
  rw [partly, ← replace_fill_iff unbound]
  have next : template.partly toText vars (fun name => name == k || chosen name) =
      template.fill (bind (fun name => if chosen name then binding toText vars name else none) k
        (replacement toText v)) := by
    apply fill_congr
    intro name _
    by_cases same : name = k
    · simp [bind, same, binding, found]
    · simp [bind, same]
  rw [next]
  rfl

theorem turn_of_undisturbed (undisturbed : template.Undisturbed toText vars) {chosen : String → Bool}
    (found : vars[k]? = some v) (waits : chosen k = false) :
    insert toText (template.partly toText vars chosen) (k, v) =
      template.partly toText vars (fun name => name == k || chosen name) := by
  apply (insert_partly_iff found waits).mpr
  by_cases itself : replacement toText v = placeholder k
  · exact .inl itself
  · exact .inr (undisturbed.fresh k v found itself chosen waits)

theorem keys_nodup {order : List (String × Value)} (perm : order.Perm vars.toList) : (order.map Prod.fst).Nodup := by
  rw [(perm.map Prod.fst).nodup_iff, Std.ExtTreeMap.map_fst_toList_eq_keys]
  exact Std.ExtTreeMap.nodup_keys

theorem turns_of_undisturbed (undisturbed : template.Undisturbed toText vars) {order front : List (String × Value)}
    (perm : order.Perm vars.toList) (before : front <+: order) :
    template.render toText front = template.partly toText vars fun name => (front.map Prod.fst).contains name := by
  induction front using List.reverseRecOn with
  | nil => simp [render, partly, fill_none]
  | append_singleton front entry ih =>
    obtain ⟨k, v⟩ := entry
    have found : vars[k]? = some v := by
      rw [← Std.ExtTreeMap.mem_toList_iff_getElem?_eq_some, ← perm.mem_iff]
      exact before.subset (by simp)
    have waits : (front.map Prod.fst).contains k = false := by
      have distinct := (keys_nodup perm).sublist (before.sublist.map Prod.fst)
      simp only [List.map_append, List.nodup_append, List.map_cons, List.map_nil] at distinct
      have apart := distinct.2.2
      simp only [List.mem_singleton, forall_eq] at apart
      simpa using fun value member => apart k (List.mem_map_of_mem member) rfl
    have turn := turn_of_undisturbed undisturbed found waits
    rw [render_append, ih ((List.prefix_append front _).trans before), turn]
    apply partly_congr
    intro name _
    rw [Bool.eq_iff_iff]
    simp [or_comm]

theorem partly_order {order : List (String × Value)} (perm : order.Perm vars.toList) :
    (template.partly toText vars fun name => (order.map Prod.fst).contains name) =
      template.partly toText vars fun _ => true := by
  apply partly_congr
  intro name present
  have member : name ∈ order.map Prod.fst := by
    rw [(perm.map Prod.fst).mem_iff, Std.ExtTreeMap.map_fst_toList_eq_keys]
    exact Std.ExtTreeMap.mem_keys.mpr present
  simp [member]

def unbound (vars : Values) : TemplateToken → Bool
  | .letter _ => false
  | .hole name => vars[name]?.isNone

theorem length_fill_le (toText : Value → String) (vars : Values) (token : TemplateToken) :
    (token.fill fun name => some ((binding toText vars name).getD "")).length +
        (if unbound vars token then 2 else 0) ≤ (token.fill (binding toText vars)).length := by
  cases token with
  | letter c => simp [TemplateToken.fill, unbound]
  | hole name =>
    by_cases present : name ∈ vars
    · simp [TemplateToken.fill, unbound, binding, present]
    · simp [TemplateToken.fill, unbound, binding, getElem?_neg vars name present]

theorem length_fill_all (toText : Value → String) (vars : Values) (tokens : List TemplateToken) :
    (tokens.flatMap (TemplateToken.fill fun name => some ((binding toText vars name).getD ""))).length +
        2 * tokens.countP (unbound vars) ≤ (tokens.flatMap (TemplateToken.fill (binding toText vars))).length := by
  induction tokens with
  | nil => simp
  | cons token tokens ih =>
    have here := length_fill_le toText vars token
    simp only [List.flatMap_cons, List.length_append, List.countP_cons]
    split at here <;> simp_all <;> omega

theorem partly_eq_substituted_iff : (template.partly toText vars fun _ => true) = template.substituted toText vars ↔
    ∀ name, .hole name ∈ template.tokens → name ∈ vars := by
  constructor
  · intro same name member
    by_contra absent
    have lengths := length_fill_all toText vars template.tokens
    have texts : (_ : Nat) = _ := congrArg String.length same
    simp only [partly, substituted, fill, String.length_ofList, if_true] at texts
    have counted : 0 < template.tokens.countP (unbound vars) :=
      List.countP_pos_iff.mpr ⟨_, member, by simp [unbound, getElem?_neg vars name absent]⟩
    change (template.tokens.flatMap (TemplateToken.fill (binding toText vars))).length = _ at texts
    omega
  · intro bound
    apply fill_congr
    intro name member
    have present := bound name member
    simp [binding, getElem?_pos vars name present]

theorem contains_chosen (chosen : String → Bool) {name : String} (present : name ∈ vars) :
    ((vars.toList.filter fun entry => chosen entry.1).map Prod.fst).contains name = chosen name := by
  rw [Bool.eq_iff_iff]
  simp only [List.contains_iff_mem, List.mem_map, List.mem_filter]
  constructor
  · rintro ⟨entry, ⟨-, holds⟩, rfl⟩
    exact holds
  · intro holds
    have member : (name, vars[name]) ∈ vars.toList := by simp [Std.ExtTreeMap.mem_toList_iff_getElem?_eq_some, present]
    exact ⟨_, ⟨member, holds⟩, rfl⟩

/-- Rendering is the substitution of all placeholders at once exactly if every placeholder has a value and no value
completes the placeholder of another variable. -/
theorem simultaneous_iff (toText : Value → String) (template : StringTemplate) (vars : Values) :
    template.Simultaneous toText vars ↔ template.Undisturbed toText vars := by
  constructor
  · intro simultaneous
    constructor
    · have all := simultaneous.turns _ (List.Perm.refl _) _ (List.prefix_refl _)
      rw [simultaneous.result _ (List.Perm.refl _), partly_order (List.Perm.refl _)] at all
      exact partly_eq_substituted_iff.mp all.symm
    · intro k v found other chosen waits
      have member : (k, v) ∈ vars.toList.filter (fun entry => !chosen entry.1) := by
        simp [Std.ExtTreeMap.mem_toList_iff_getElem?_eq_some, found, waits]
      obtain ⟨before, behind, split⟩ := List.append_of_mem member
      have perm : (vars.toList.filter (fun entry => chosen entry.1) ++ (k, v) :: (before ++ behind)).Perm
          vars.toList := by
        have cut := List.filter_append_perm (fun entry : String × Value => chosen entry.1) vars.toList
        rw [split] at cut
        exact (List.perm_middle.symm.append_left _).trans cut
      have first := simultaneous.turns _ perm _ (List.prefix_append _ _)
      have second := simultaneous.turns _ perm (vars.toList.filter (fun entry => chosen entry.1) ++ [(k, v)]) (by simp)
      have both : ∀ name ∈ vars, ((vars.toList.filter (fun entry => chosen entry.1) ++ [(k, v)]).map
          Prod.fst).contains name = (name == k || chosen name) := by
        intro name present
        rw [List.map_append, List.contains_append, contains_chosen chosen present, Bool.eq_iff_iff]
        simp [or_comm]
      rw [partly_congr fun name present => contains_chosen chosen present] at first
      rw [render_append, first, partly_congr both] at second
      exact ((insert_partly_iff found waits).mp second).resolve_left other
  · intro undisturbed
    have turns : ∀ order : List (String × Value), order.Perm vars.toList → ∀ front, front <+: order →
        template.render toText front = template.partly toText vars fun name => (front.map Prod.fst).contains name :=
      fun order perm front => turns_of_undisturbed undisturbed perm
    refine ⟨turns, fun order perm => ?_⟩
    rw [turns order perm order (List.prefix_refl order), partly_order perm]
    exact partly_eq_substituted_iff.mpr undisturbed.bound

-- The value of `a` is the placeholder of `b`.
def chained : Values := Std.ExtTreeMap.ofList [("a", Value.string "\x7bb\x7d"), ("b", Value.string "x")]

theorem chained_by_order :
    [("a", Value.string "\x7bb\x7d"), ("b", .string "x")].Perm chained.toList ∧
      [("b", Value.string "x"), ("a", .string "\x7bb\x7d")].Perm chained.toList ∧
      (StringTemplate.mk "\x7ba\x7d").render (fun _ => "") [("a", .string "\x7bb\x7d"), ("b", .string "x")] = "x" ∧
      (StringTemplate.mk "\x7ba\x7d").render (fun _ => "") [("b", .string "x"), ("a", .string "\x7bb\x7d")] =
        "\x7bb\x7d" ∧
      (StringTemplate.mk "\x7ba\x7d").substituted (fun _ => "") chained = "\x7bb\x7d" := by
  have entries : chained.toList = [("a", .string "\x7bb\x7d"), ("b", .string "x")] := by rfl
  rw [entries]
  refine ⟨.refl _, .swap _ _ _, by decide, by decide, by rfl⟩

end StringTemplate

inductive MessageTemplate where
  | system (template : StringTemplate)
  | user (template : StringTemplate)
  | assistant (template : StringTemplate)
  | placeholder (key : String)

structure RenderedMessage where
  role : MessageRole
  content : String

def roleFromStr (s : String) : MessageRole :=
  match s with
  | "system" => .system
  | "assistant" => .assistant
  | "tool" => .tool
  | _ => .user

def RenderedMessage.ofEntry (entry : Value) : RenderedMessage where
  role := roleFromStr (((entry.get "role").bind Value.asStr).getD "user")
  content := ((entry.get "content").bind Value.asStr).getD ""

structure ChatPromptTemplate where
  messages : List MessageTemplate
  preset : Values

namespace ChatPromptTemplate

def merged (chat : ChatPromptTemplate) (vars : Values) : Values :=
  vars.toList.foldl (fun merged entry => merged.insert entry.1 entry.2) chat.preset

def message (text : StringTemplate → String) (merged : Values) : MessageTemplate → List RenderedMessage
  | .system t => [{ role := .system, content := text t }]
  | .user t => [{ role := .user, content := text t }]
  | .assistant t => [{ role := .assistant, content := text t }]
  | .placeholder key => ((merged[key]?.getD .null).asArray.getD []).map RenderedMessage.ofEntry

-- `order` is how the merged map is iterated, which does not change while it is rendered.
def render (toText : Value → String) (chat : ChatPromptTemplate) (vars : Values) (order : List (String × Value)) :
    Except AgentError (List RenderedMessage) :=
  .ok (chat.messages.flatMap (message (fun t => t.render toText order) (chat.merged vars)))

def Undisturbed (toText : Value → String) (chat : ChatPromptTemplate) (vars : Values) : Prop :=
  ∀ t, .system t ∈ chat.messages ∨ .user t ∈ chat.messages ∨ .assistant t ∈ chat.messages →
    t.Undisturbed toText (chat.merged vars)

theorem render_of_undisturbed {toText : Value → String} {chat : ChatPromptTemplate} {vars : Values}
    {order : List (String × Value)} (undisturbed : chat.Undisturbed toText vars)
    (perm : order.Perm (chat.merged vars).toList) : chat.render toText vars order =
      .ok (chat.messages.flatMap
        (message (fun t => t.substituted toText (chat.merged vars)) (chat.merged vars))) := by
  have rendered : ∀ t, .system t ∈ chat.messages ∨ .user t ∈ chat.messages ∨ .assistant t ∈ chat.messages →
      t.render toText order = t.substituted toText (chat.merged vars) := fun t member =>
    ((StringTemplate.simultaneous_iff toText t _).mpr (undisturbed t member)).result order perm
  rw [render]
  congr 1
  apply List.flatMap_congr
  intro entry member
  cases entry with
  | system t => simp [message, rendered t (.inl member)]
  | user t => simp [message, rendered t (.inr (.inl member))]
  | assistant t => simp [message, rendered t (.inr (.inr member))]
  | placeholder key => rfl

end ChatPromptTemplate

end AtomrAgents
