import AtomrAgents.Retriever.Bm25
import AtomrAgents.Security.Walled

set_option autoImplicit false

namespace AtomrAgents

def docSystemTime (metadata : Value) : Option Int :=
  ((metadata.get "system_time").or (metadata.get "ingested_at")).bind Value.asI64

def docCompartment (metadata : Value) : Option Compartment :=
  (metadata.get "compartment").bind Value.asStr

inductive RetrieverFilter where
  | asOf (ceiling : Int)
  | entitlement (clearance : ClearanceContext)
  | and (parts : List RetrieverFilter)

mutual

-- Of a document, only its metadata is looked at.
def RetrieverFilter.admitsMetadata (metadata : Value) : RetrieverFilter → Bool
  | .asOf ceiling =>
    match docSystemTime metadata with
    | some t => t ≤ ceiling
    | none => true
  | .entitlement clearance =>
    match docCompartment metadata with
    | some c => clearance.holds c
    | none => true
  | .and parts => RetrieverFilter.allAdmitMetadata metadata parts

def RetrieverFilter.allAdmitMetadata (metadata : Value) : List RetrieverFilter → Bool
  | [] => true
  | part :: parts => part.admitsMetadata metadata && RetrieverFilter.allAdmitMetadata metadata parts

end

def RetrieverFilter.admits {K : Type} (filter : RetrieverFilter) (doc : Document K) : Bool :=
  filter.admitsMetadata doc.metadata

structure RetrievalCtx where
  asOf : Option Int
  clearance : Option ClearanceContext

def RetrievalCtx.toFilter (ctx : RetrievalCtx) : Option RetrieverFilter :=
  match (ctx.asOf.map RetrieverFilter.asOf).toList ++
      (ctx.clearance.map RetrieverFilter.entitlement).toList with
  | [] => none
  | [part] => some part
  | parts => some (.and parts)

structure FilteredRetriever (K : Type) where
  inner : Retriever K
  filter : RetrieverFilter

def FilteredRetriever.retrieve {K : Type} (r : FilteredRetriever K) : Retriever K := fun query =>
  match r.inner query with
  | .error e => .error e
  | .ok docs => .ok (docs.filter r.filter.admits)

section

variable {K : Type} {ctx : RetrievalCtx} {r : FilteredRetriever K} {query : String}
  {docs : List (Document K)}

theorem FilteredRetriever.mem_retrieve (returned : r.retrieve query = .ok docs) {doc : Document K} :
    doc ∈ docs ↔ r.filter.admits doc ∧ ∃ found, r.inner query = .ok found ∧ doc ∈ found := by
  rw [FilteredRetriever.retrieve] at returned
  cases inner : r.inner query with
  | error e => simp [inner] at returned
  | ok found =>
    simp only [inner, Except.ok.injEq] at returned
    subst returned
    simp [List.mem_filter, and_comm]

theorem RetrievalCtx.toFilter_admits {filter : RetrieverFilter} (built : ctx.toFilter = some filter)
    (doc : Document K) : filter.admits doc ↔
      (∀ ms ∈ ctx.asOf, (RetrieverFilter.asOf ms).admits doc) ∧
        ∀ c ∈ ctx.clearance, (RetrieverFilter.entitlement c).admits doc := by
  obtain ⟨asOf, clearance⟩ := ctx
  cases asOf <;> cases clearance <;> simp [RetrievalCtx.toFilter] at built <;> subst built <;>
    simp [RetrieverFilter.admits, RetrieverFilter.admitsMetadata, RetrieverFilter.allAdmitMetadata]

end

end AtomrAgents

namespace AtomrAgents

namespace RetrieverFilter

inductive Occurs (part : RetrieverFilter) : RetrieverFilter → Prop
  | here : Occurs part part
  | inside {between : RetrieverFilter} {parts : List RetrieverFilter} :
      between ∈ parts → Occurs part between → Occurs part (.and parts)

variable {filter part : RetrieverFilter} {metadata : Value}

theorem allAdmit_iff {parts : List RetrieverFilter} :
    allAdmitMetadata metadata parts = true ↔ ∀ part ∈ parts, part.admitsMetadata metadata = true := by
  induction parts with
  | nil => simp [allAdmitMetadata]
  | cons part parts ih => simp [allAdmitMetadata, ih]

theorem admits_of_occurs (occurs : Occurs part filter) (admits : filter.admitsMetadata metadata = true) :
    part.admitsMetadata metadata = true := by
  induction occurs with
  | here => exact admits
  | inside member _ ih =>
    rw [admitsMetadata, allAdmit_iff] at admits
    exact ih (admits _ member)

def IsLeaf : RetrieverFilter → Prop
  | .and _ => False
  | _ => True

theorem admits_of_leaves : ∀ filter : RetrieverFilter,
    (∀ part, IsLeaf part → Occurs part filter → part.admitsMetadata metadata = true) →
      filter.admitsMetadata metadata = true
  | .asOf _, leaves => leaves _ trivial .here
  | .entitlement _, leaves => leaves _ trivial .here
  | .and parts, leaves => by
    rw [admitsMetadata, allAdmit_iff]
    intro part member
    exact admits_of_leaves part fun leaf isLeaf occurs => leaves leaf isLeaf (.inside member occurs)

-- A member that is there and is not null.
def recorded (metadata : Value) (key : String) : Option Value :=
  match metadata.get key with
  | some .null => none
  | found => found

def recordedTime (metadata : Value) : Option Value :=
  (recorded metadata "system_time").or (recorded metadata "ingested_at")

structure Guarded (filter : RetrieverFilter) (metadata : Value) : Prop where
  entitled : ∀ clearance, Occurs (.entitlement clearance) filter →
    metadata.get "compartment" = none ∨ ∃ c, metadata.get "compartment" = some (.string c) ∧ clearance.holds c
  known : ∀ ceiling, Occurs (.asOf ceiling) filter →
    recordedTime metadata = none ∨ ∃ t, (recordedTime metadata).bind Value.asI64 = some t ∧ t ≤ ceiling

def Rejects (filter : RetrieverFilter) (metadata : Value) : Prop :=
  (∃ clearance c, Occurs (.entitlement clearance) filter ∧ docCompartment metadata = some c ∧ ¬ clearance.holds c) ∨
    ∃ ceiling t, Occurs (.asOf ceiling) filter ∧ docSystemTime metadata = some t ∧ ceiling < t

def IsString : Value → Prop
  | .string _ => True
  | _ => False

-- The time is an integer where the code reads it, and `ingested_at` does not count behind a null.
def TimeRead (ceiling : Int) (metadata : Value) : Prop :=
  match metadata.get "system_time" with
  | none => ∀ v, recorded metadata "ingested_at" = some v → v.asI64.isSome
  | some .null => ∀ v, recorded metadata "ingested_at" = some v → ∃ t, v.asI64 = some t ∧ t ≤ ceiling
  | some v => v.asI64.isSome

structure WellTyped (filter : RetrieverFilter) (metadata : Value) : Prop where
  compartment : ∀ clearance, Occurs (.entitlement clearance) filter →
    ∀ v, metadata.get "compartment" = some v → IsString v
  time : ∀ ceiling, Occurs (.asOf ceiling) filter → TimeRead ceiling metadata

theorem admits_iff : filter.admitsMetadata metadata = true ↔ ¬ Rejects filter metadata := by
  constructor
  · rintro admits (⟨clearance, c, occurs, read, lacks⟩ | ⟨ceiling, t, occurs, read, newer⟩)
    · have part := admits_of_occurs occurs admits
      simp only [admitsMetadata, read] at part
      exact lacks part
    · have part := admits_of_occurs occurs admits
      simp only [admitsMetadata, read, decide_eq_true_eq] at part
      omega
  · intro passes
    apply admits_of_leaves
    intro part isLeaf occurs
    by_contra rejects
    apply passes
    cases part with
    | asOf ceiling =>
      right
      cases read : docSystemTime metadata with
      | none => simp [admitsMetadata, read] at rejects
      | some t => exact ⟨ceiling, t, occurs, rfl, by simpa [admitsMetadata, read] using rejects⟩
    | entitlement clearance =>
      left
      cases read : docCompartment metadata with
      | none => simp [admitsMetadata, read] at rejects
      | some c => exact ⟨clearance, c, occurs, rfl, by simpa [admitsMetadata, read] using rejects⟩
    | and parts => exact isLeaf.elim

theorem entitled_iff {clearance : ClearanceContext}
    (admits : (entitlement clearance).admitsMetadata metadata = true) :
    (metadata.get "compartment" = none ∨ ∃ c, metadata.get "compartment" = some (.string c) ∧ clearance.holds c) ↔
      ∀ v, metadata.get "compartment" = some v → IsString v := by
  cases member : metadata.get "compartment" with
  | none => simp
  | some v =>
    cases v with
    | string c => simpa [admitsMetadata, docCompartment, member, Value.asStr, IsString] using admits
    | _ => simp [IsString]

theorem known_iff {ceiling : Int} (admits : (asOf ceiling).admitsMetadata metadata = true) :
    (recordedTime metadata = none ∨ ∃ t, (recordedTime metadata).bind Value.asI64 = some t ∧ t ≤ ceiling) ↔
      TimeRead ceiling metadata := by
  cases first : metadata.get "system_time" with
  | none =>
    have time : recordedTime metadata = recorded metadata "ingested_at" := by simp [recordedTime, recorded, first]
    rw [time]
    simp only [TimeRead, first]
    cases second : recorded metadata "ingested_at" with
    | none => simp
    | some v =>
      have read : docSystemTime metadata = v.asI64 := by
        have found : metadata.get "ingested_at" = some v := by
          rw [recorded] at second
          split at second
          · cases second
          · exact second
        simp [docSystemTime, first, found]
      cases time : v.asI64 with
      | none => simp [time]
      | some t => simpa [admitsMetadata, read, time] using admits
  | some v =>
    by_cases null : v = .null
    · subst null
      have time : recordedTime metadata = recorded metadata "ingested_at" := by simp [recordedTime, recorded, first]
      rw [time]
      simp only [TimeRead, first]
      cases recorded metadata "ingested_at" <;> simp
    · have time : recordedTime metadata = some v := by
        have here : recorded metadata "system_time" = some v := by
          cases v <;> simp_all [recorded]
        simp [recordedTime, here]
      have reading : TimeRead ceiling metadata ↔ v.asI64.isSome := by
        cases v <;> simp_all [TimeRead]
      rw [reading, time]
      have read : docSystemTime metadata = v.asI64 := by simp [docSystemTime, first]
      cases time : v.asI64 with
      | none => simp [time]
      | some t => simpa [admitsMetadata, read, time] using admits

theorem guarded_iff_wellTyped (admits : filter.admitsMetadata metadata = true) :
    Guarded filter metadata ↔ WellTyped filter metadata := by
  constructor
  · rintro ⟨entitled, known⟩
    constructor
    · intro clearance occurs
      exact (entitled_iff (admits_of_occurs occurs admits)).mp (entitled clearance occurs)
    · intro ceiling occurs
      exact (known_iff (admits_of_occurs occurs admits)).mp (known ceiling occurs)
  · rintro ⟨compartment, time⟩
    constructor
    · intro clearance occurs
      exact (entitled_iff (admits_of_occurs occurs admits)).mpr (compartment clearance occurs)
    · intro ceiling occurs
      exact (known_iff (admits_of_occurs occurs admits)).mpr (time ceiling occurs)

end RetrieverFilter

namespace FilteredRetriever

open RetrieverFilter

variable {K : Type}

def FailsClosed (r : FilteredRetriever K) (query : String) : Prop :=
  ∀ docs, r.retrieve query = .ok docs → ∀ doc ∈ docs, Guarded r.filter doc.metadata

/-- Nothing that the filter should hold back is returned exactly if whatever is not rejected has metadata of the
expected types. -/
theorem failsClosed_iff (r : FilteredRetriever K) (query : String) :
    r.FailsClosed query ↔ ∀ found, r.inner query = .ok found → ∀ doc ∈ found,
      Rejects r.filter doc.metadata ∨ WellTyped r.filter doc.metadata := by
  constructor
  · intro closed found inner doc member
    by_cases rejected : Rejects r.filter doc.metadata
    · exact .inl rejected
    · right
      have admits := admits_iff.mpr rejected
      have returned : r.retrieve query = .ok (found.filter r.filter.admits) := by simp [retrieve, inner]
      exact (guarded_iff_wellTyped admits).mp (closed _ returned doc (List.mem_filter.mpr ⟨member, admits⟩))
  · intro typed docs returned doc member
    obtain ⟨admits, found, inner, inside⟩ := (mem_retrieve returned).mp member
    have passes : ¬ Rejects r.filter doc.metadata := admits_iff.mp admits
    exact (guarded_iff_wellTyped admits).mpr ((typed found inner doc inside).resolve_left passes)

-- The time of ingestion is behind a null, and the compartment is a list.
def leaky : Document Nat where
  id := "d"
  text := ""
  metadata := .object [("compartment", .array [.string "deal-x"]), ("ingested_at", .number (.posInt 300)),
    ("system_time", .null)]
  score := 0

def outsider : ClearanceContext := { subject := "analyst", level := .mnpi, compartments := [] }

theorem leaky_returned :
    ¬ FailsClosed { inner := fun _ => .ok [leaky], filter := .and [.asOf 200] } "query" ∧
    ¬ FailsClosed { inner := fun _ => .ok [leaky], filter := .entitlement outsider } "query" := by
  constructor
  · intro closed
    have guarded := closed _ rfl leaky (List.mem_filter.mpr ⟨List.mem_singleton_self _, by decide⟩)
    have time : recordedTime leaky.metadata = some (.number (.posInt 300)) := by rfl
    obtain none | ⟨t, read, before⟩ := guarded.known 200 (.inside List.mem_cons_self .here)
    · simp [time] at none
    · rw [time] at read
      cases read
      revert before
      decide
  · intro closed
    have guarded := closed _ rfl leaky (List.mem_filter.mpr ⟨List.mem_singleton_self _, by decide⟩)
    have compartment : leaky.metadata.get "compartment" = some (.array [.string "deal-x"]) := by rfl
    simpa [compartment] using guarded.entitled outsider .here

end FilteredRetriever

end AtomrAgents
