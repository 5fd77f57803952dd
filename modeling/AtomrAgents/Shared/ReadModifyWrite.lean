import AtomrAgents.Shared.Interleaving
import AtomrAgents.Shared.Table

set_option autoImplicit false

/-! Calls edit one record of a table. Each of them reads the record, changes what it read, and puts the whole
record back in a later turn. An edit stays visible in the record as long as every record is put back over the
one that was read. -/

namespace Shared.ReadModifyWrite

variable {κ ρ ε χ : Type} {key : ρ → κ}

inductive Phase (ρ χ : Type) where
  | called
  | writing (read changed : ρ)
  | returned (result : Except χ (Option ρ))

structure Call (ε ρ χ : Type) where
  edit : ε
  phase : Phase ρ χ

def Call.new (edit : ε) : Call ε ρ χ where
  edit := edit
  phase := .called

variable [DecidableEq κ]

-- A record that is not there is left alone; an edit that fails writes nothing.
def turn (apply : ε → ρ → Except χ ρ) (k : κ) (call : Call ε ρ χ) (table : Table key) :
    Option (Call ε ρ χ × Table key) :=
  match call.phase with
  | .called =>
    match table.find k with
    | none => some ({ call with phase := .returned (.ok none) }, table)
    | some read =>
      match apply call.edit read with
      | .error e => some ({ call with phase := .returned (.error e) }, table)
      | .ok changed => some ({ call with phase := .writing read changed }, table)
  | .writing _ changed => some ({ call with phase := .returned (.ok (some changed)) }, table.upsert changed)
  | .returned _ => none

def start (table : Table key) (edits : List ε) : Threads (Table key) (Call ε ρ χ) where
  shared := table
  locals := edits.map Call.new

def ReadsLast (k : κ) (threads : Threads (Table key) (Call ε ρ χ)) (i : Nat) : Prop :=
  ∀ call, threads.locals[i]? = some call → ∀ read changed, call.phase = .writing read changed →
    threads.shared.find k = some read

-- What the rules need of edits: `shows` says that a record has what an edit sets, and edits that are apart leave
-- each other's part of the record alone.
structure Effects (apply : ε → ρ → Except χ ρ) (key : ρ → κ) (shows : ε → ρ → Prop)
    (apart : ε → ε → Prop) : Prop where
  key_apply : ∀ edit record changed, apply edit record = .ok changed → key changed = key record
  shows_apply : ∀ edit record changed, apply edit record = .ok changed → shows edit changed
  keeps : ∀ edit other record changed, apply edit record = .ok changed → apart edit other →
    shows other record → shows other changed
  symm : ∀ edit other, apart edit other → apart other edit

def Shown (shows : ε → ρ → Prop) (k : κ) (table : Table key) (edit : ε) : Prop :=
  ∃ stored, table.find k = some stored ∧ shows edit stored

def Achieved (apply : ε → ρ → Except χ ρ) (shows : ε → ρ → Prop) (k : κ) (table : Table key)
    (call : Call ε ρ χ) : Prop :=
  match call.phase with
  | .writing read changed => apply call.edit read = .ok changed ∧ key read = k
  | .returned (.ok (some _)) => Shown shows k table call.edit
  | _ => True

variable {apply : ε → ρ → Except χ ρ} {shows : ε → ρ → Prop} {apart : ε → ε → Prop} {k : κ}
  {threads next last : Threads (Table key) (Call ε ρ χ)}

theorem turn_called (shows : ε → ρ → Prop) {call call' : Call ε ρ χ} {table table' : Table key}
    (takes : turn apply k call table = some (call', table')) (phase : call.phase = .called) :
    table' = table ∧ Achieved apply shows k table call' := by
  rw [turn, phase] at takes
  cases found : table.find k with
  | none =>
    simp only [found, Option.some.injEq, Prod.mk.injEq] at takes
    obtain ⟨rfl, rfl⟩ := takes
    exact ⟨rfl, trivial⟩
  | some read =>
    simp only [found] at takes
    cases applied : apply call.edit read with
    | error e =>
      simp only [applied, Option.some.injEq, Prod.mk.injEq] at takes
      obtain ⟨rfl, rfl⟩ := takes
      exact ⟨rfl, trivial⟩
    | ok changed =>
      simp only [applied, Option.some.injEq, Prod.mk.injEq] at takes
      obtain ⟨rfl, rfl⟩ := takes
      exact ⟨rfl, applied, (Table.find_eq_some_iff.mp found).2⟩

theorem turn_writing {call call' : Call ε ρ χ} {table table' : Table key} {read changed : ρ}
    (takes : turn apply k call table = some (call', table')) (phase : call.phase = .writing read changed) :
    table' = table.upsert changed ∧ call' = { call with phase := .returned (.ok (some changed)) } := by
  rw [turn, phase, Option.some_inj, Prod.mk.injEq] at takes
  exact ⟨takes.2.symm, takes.1.symm⟩

theorem turn_edit {call call' : Call ε ρ χ} {table table' : Table key}
    (takes : turn apply k call table = some (call', table')) : call'.edit = call.edit := by
  rw [turn] at takes
  split at takes
  · split at takes
    · cases takes
      rfl
    · split at takes <;> (cases takes; rfl)
  · cases takes
    rfl
  · cases takes

theorem Shown.put (effects : Effects apply key shows apart) {table : Table key} {edit other : ε}
    {read changed : ρ} (reads : table.find k = some read) (applied : apply edit read = .ok changed)
    (same : key read = k) (different : apart edit other) (shown : Shown shows k table other) :
    Shown shows k (table.upsert changed) other := by
  obtain ⟨stored, found, holds⟩ := shown
  rw [reads, Option.some_inj] at found
  subst found
  refine ⟨changed, ?_, effects.keeps edit other read changed applied different holds⟩
  rw [Table.find_upsert, if_pos ((effects.key_apply edit read changed applied).trans same)]

theorem Achieved.other {table table' : Table key} {call : Call ε ρ χ}
    (kept : Shown shows k table call.edit → Shown shows k table' call.edit)
    (achieved : Achieved apply shows k table call) : Achieved apply shows k table' call := by
  unfold Achieved at achieved ⊢
  split
  · next phase =>
    rw [phase] at achieved
    exact achieved
  · next phase =>
    rw [phase] at achieved
    exact kept achieved
  · trivial

omit [DecidableEq κ] in
theorem apart_of_ne (effects : Effects apply key shows apart) {edits : List ε} (different : edits.Pairwise apart)
    {i j : Nat} {edit other : ε} (ne : j ≠ i) (here : edits[i]? = some edit) (there : edits[j]? = some other) :
    apart edit other := by
  obtain ⟨bound, rfl⟩ := List.getElem?_eq_some_iff.mp here
  obtain ⟨bound', rfl⟩ := List.getElem?_eq_some_iff.mp there
  rw [List.pairwise_iff_getElem] at different
  rcases Nat.lt_or_gt_of_ne ne with before | after
  · exact effects.symm _ _ (different j i bound' bound before)
  · exact different i j bound bound' after

structure Ledger (apply : ε → ρ → Except χ ρ) (shows : ε → ρ → Prop) (k : κ) (edits : List ε)
    (threads : Threads (Table key) (Call ε ρ χ)) : Prop where
  edits : threads.locals.map Call.edit = edits
  achieved : ∀ (i : Nat) (call : Call ε ρ χ), threads.locals[i]? = some call →
    Achieved apply shows k threads.shared call

theorem Ledger.step (effects : Effects apply key shows apart) {edits : List ε}
    (different : edits.Pairwise apart) (ledger : Ledger apply shows k edits threads) {i : Nat}
    (guard : ReadsLast k threads i) {own own' : Call ε ρ χ}
    (turned : Threads.Turn (turn apply k) threads i own own' next) : Ledger apply shows k edits next where
  edits := by rw [turned.map_locals Call.edit (turn_edit turned.takes), ledger.edits]
  achieved := by
    have mine := ledger.achieved i own turned.before
    have takes := turned.takes
    cases phase : own.phase with
    | called =>
      obtain ⟨same, achieved⟩ := turn_called shows takes phase
      refine turned.each (P := fun table _ call => Achieved apply shows k table call) ?_ ?_ <;> rw [same]
      · exact achieved
      · exact fun j other _ found => ledger.achieved j other found
    | writing read changed =>
      obtain ⟨written, returned⟩ := turn_writing takes phase
      have reads := guard own turned.before read changed phase
      rw [Achieved, phase] at mine
      obtain ⟨applied, same⟩ := mine
      refine turned.each (P := fun table _ call => Achieved apply shows k table call) ?_ ?_ <;> rw [written]
      · rw [returned]
        refine ⟨changed, ?_, effects.shows_apply own.edit read changed applied⟩
        rw [Table.find_upsert, if_pos ((effects.key_apply own.edit read changed applied).trans same)]
      · intro j other ne found
        have edit_ : ∀ (l : Nat) (call : Call ε ρ χ), threads.locals[l]? = some call →
            edits[l]? = some call.edit := by
          intro l call here
          rw [← ledger.edits, List.getElem?_map, here, Option.map_some]
        have between := apart_of_ne effects different ne (edit_ i own turned.before) (edit_ j other found)
        exact (ledger.achieved j other found).other (Shown.put effects reads applied same between)
    | returned result =>
      rw [turn, phase] at takes
      cases takes

theorem no_edit_lost (effects : Effects apply key shows apart) (table : Table key) {edits : List ε}
    (different : edits.Pairwise apart) (schedule : List Nat)
    (along : Threads.Along (turn apply k) (ReadsLast k) (start table edits) schedule)
    (ran : Threads.run (turn apply k) (start table edits) schedule = some last) :
    ∀ call ∈ last.locals, ∀ record, call.phase = .returned (.ok (some record)) →
      Shown shows k last.shared call.edit := by
  have begins : Ledger apply shows k edits (start (χ := χ) table edits) := by
    refine ⟨?_, fun i call found => ?_⟩
    · simp [start, Call.new, Function.comp_def]
    · rw [start, List.getElem?_map, Option.map_eq_some_iff] at found
      obtain ⟨edit, -, rfl⟩ := found
      trivial
  have ends : Ledger apply shows k edits last :=
    Threads.run_invariant (ReadsLast k) (Ledger apply shows k edits)
      (fun _ _ _ _ _ ledger guard turned => ledger.step effects different guard turned)
      schedule _ begins along ran
  intro call member record phase
  obtain ⟨i, found⟩ := List.mem_iff_getElem?.mp member
  have achieved := ends.achieved i call found
  rw [Achieved, phase] at achieved
  exact achieved

end Shared.ReadModifyWrite
