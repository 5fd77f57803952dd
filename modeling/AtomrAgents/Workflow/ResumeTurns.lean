import AtomrAgents.Workflow.ResumeEffect

set_option autoImplicit false

namespace AtomrAgents.ResumeCall

-- The effect of the call is there and has not been taken back.
def Standing (stores : Stores) (call : ResumeCall) : Prop :=
  match call.request.effect with
  | none => False
  | some (.outbox record) => (stores.outbox.get record.id).isSome
  | some (.saga _) => .commit (.ok ()) ∈ call.ran ∧ .compensate ∉ call.ran

-- Past its check with an effect that takes, and not resolved yet.
def Exposed (call : ResumeCall) : Prop :=
  match call.phase with
  | .perform (.outbox _) => True
  | .perform (.saga step) => step.commit = .ok ()
  | .resolve => call.request.effect ≠ none
  | _ => False

def Coherent (stores : Stores) (call : ResumeCall) : Prop :=
  match call.phase with
  | .check effect => call.request.effect = some effect ∧ call.ran = [] ∧ ¬ call.Standing stores
  | .perform effect => call.request.effect = some effect ∧ call.ran = [] ∧
      ¬ call.Standing stores ∧ call.request.interruptId ∈ stores.registry
  | .compensate step e => call.request.effect = some (.saga step) ∧ call.ran = [.commit (.error e)]
  | .resolve => call.request.effect ≠ none →
      call.Standing stores ∧ call.request.interruptId ∈ stores.registry
  | .returned _ => True

variable {call call' other : ResumeCall} {stores stores' : Stores}

theorem Turned.request (turned : Turned call stores call' stores') : call'.request = call.request := by
  cases turned <;> rfl

theorem Turned.resolved_kept (turned : Turned call stores call' stores') {interruptId : String}
    (resolved : stores.registry.Resolved interruptId) : stores'.registry.Resolved interruptId := by
  cases turned with
  | resolved p at_ found unresolved =>
    obtain ⟨q, present, status⟩ := resolved
    have other : call.request.interruptId ≠ interruptId := by
      rintro rfl
      rw [found, Option.some_inj] at present
      subst present
      exact unresolved status
    refine ⟨q, ?_, status⟩
    rw [InMemoryInterruptRegistry.get_insert, if_neg other]
    exact present
  | _ => exact resolved

theorem Turned.mem_kept (turned : Turned call stores call' stores') {interruptId : String}
    (member : interruptId ∈ stores.registry) : interruptId ∈ stores'.registry := by
  cases turned with
  | resolved p at_ found unresolved => simp [member]
  | _ => exact member

theorem Turned.standing_other (turned : Turned call stores call' stores')
    (coherent : call.Coherent stores)
    (apart : ∀ record record', call.request.effect = some (.outbox record) →
      other.request.effect = some (.outbox record') → record.id ≠ record'.id) :
    other.Standing stores' ↔ other.Standing stores := by
  cases turned with
  | saved record at_ =>
    simp only [Coherent, at_] at coherent
    simp only [Standing]
    split
    · exact Iff.rfl
    · next record' effect =>
      rw [InMemoryOutboxStore.get_save, if_neg]
      exact apart record record' coherent.1 effect
    · exact Iff.rfl
  | _ => exact Iff.rfl

theorem Turned.coherent_other (turned : Turned call stores call' stores')
    (same : other.Standing stores' ↔ other.Standing stores) (knows : other.Coherent stores) :
    other.Coherent stores' := by
  unfold Coherent at knows ⊢
  split
  · next effect at_ => simpa only [at_, same] using knows
  · next effect at_ =>
    simp only [at_] at knows
    exact ⟨knows.1, knows.2.1, mt same.mp knows.2.2.1, turned.mem_kept knows.2.2.2⟩
  · next step e at_ => simpa only [at_] using knows
  · next at_ =>
    simp only [at_] at knows
    exact fun effect => ⟨same.mpr (knows effect).1, turned.mem_kept (knows effect).2⟩
  · trivial

theorem Turned.coherent (turned : Turned call stores call' stores')
    (coherent : call.Coherent stores) : call'.Coherent stores' := by
  cases turned with
  | blocked effect e at_ closed => trivial
  | passed effect at_ open_ =>
    simp only [Coherent, at_] at coherent
    exact ⟨coherent.1, coherent.2.1, coherent.2.2, InMemoryInterruptRegistry.mem_iff.mpr (.inl open_)⟩
  | saved record at_ =>
    simp only [Coherent, at_] at coherent
    refine fun _ => ⟨?_, coherent.2.2.2⟩
    simp [Standing, coherent.1, InMemoryOutboxStore.get_save, bindRecord]
  | committed step at_ accepted =>
    simp only [Coherent, at_] at coherent
    refine fun _ => ⟨?_, coherent.2.2.2⟩
    simp [Standing, coherent.1, coherent.2.1]
  | refused step e at_ failed =>
    simp only [Coherent, at_] at coherent
    exact ⟨coherent.1, by simp [coherent.2.1]⟩
  | compensated step e at_ => trivial
  | resolved p at_ found unresolved => trivial
  | rejected e at_ closed => trivial

theorem Turned.outbox (turned : Turned call stores call' stores') (coherent : call.Coherent stores) :
    stores'.outbox = stores.outbox ∨ ∃ own, call.request.effect = some (.outbox own) ∧
      stores'.outbox = stores.outbox ++ [bindRecord call.request.interruptId own] := by
  cases turned with
  | saved record at_ =>
    simp only [Coherent, at_] at coherent
    obtain ⟨effect, -, idle, -⟩ := coherent
    simp only [Standing, effect, Option.not_isSome_iff_eq_none] at idle
    exact .inr ⟨record, effect, InMemoryOutboxStore.save_of_new _ _ idle⟩
  | _ => exact .inl rfl

theorem Turned.standing_own (turned : Turned call stores call' stores')
    (coherent : call.Coherent stores)
    (held : call.Exposed → stores.registry.Open call.request.interruptId)
    (standing : call'.Standing stores') :
    call'.phase = .resolve ∨
      call'.phase = .returned (.ok ()) ∧ stores'.registry.Resolved call'.request.interruptId := by
  cases turned with
  | blocked effect e at_ closed =>
    simp only [Coherent, at_] at coherent
    exact absurd standing coherent.2.2
  | passed effect at_ open_ =>
    simp only [Coherent, at_] at coherent
    exact absurd standing coherent.2.2
  | saved record at_ => exact .inl rfl
  | committed step at_ accepted => exact .inl rfl
  | refused step e at_ failed =>
    simp only [Coherent, at_] at coherent
    simp [Standing, coherent.1, coherent.2.1] at standing
  | compensated step e at_ =>
    simp only [Coherent, at_] at coherent
    simp [Standing, coherent.1, coherent.2] at standing
  | resolved p at_ found unresolved =>
    refine .inr ⟨rfl, { p with status := .resolved }, ?_, rfl⟩
    rw [InMemoryInterruptRegistry.get_insert, if_pos rfl]
  | rejected e at_ closed =>
    refine absurd (held ?_) closed
    simp only [Exposed, at_]
    intro none
    simp [Standing, none] at standing

theorem Turned.exposed_own (turned : Turned call stores call' stores')
    (held : call.Exposed → stores.registry.Open call.request.interruptId) (exposed : call'.Exposed) :
    stores'.registry.Open call'.request.interruptId := by
  cases turned with
  | passed effect at_ open_ => exact open_
  | saved record at_ => exact held (by simp [Exposed, at_])
  | committed step at_ accepted => exact held (by simp [Exposed, at_, accepted])
  | _ => exact exposed.elim

theorem Turned.open_other (turned : Turned call stores call' stores') {interruptId : String}
    (apart : call.phase = .resolve → interruptId ≠ call.request.interruptId)
    (open_ : stores.registry.Open interruptId) : stores'.registry.Open interruptId := by
  cases turned with
  | resolved p at_ found unresolved =>
    obtain ⟨q, present, status⟩ := open_
    refine ⟨q, ?_, status⟩
    rw [InMemoryInterruptRegistry.get_insert, if_neg (apart at_).symm]
    exact present
  | _ => exact open_

theorem Turned.resolves (turned : Turned call stores call' stores') (at_ : call.phase = .resolve)
    (open_ : stores.registry.Open call.request.interruptId) :
    stores'.registry.Resolved call.request.interruptId := by
  cases turned with
  | resolved p _ found unresolved =>
    refine ⟨{ p with status := .resolved }, ?_, rfl⟩
    rw [InMemoryInterruptRegistry.get_insert, if_pos rfl]
  | rejected e _ closed => exact absurd open_ closed
  | _ => simp_all

theorem Turned.open_of_ok (turned : Turned call stores call' stores')
    (ok : call'.phase = .returned (.ok ())) : stores.registry.Open call.request.interruptId := by
  cases turned with
  | resolved p at_ found unresolved => exact ⟨p, found, unresolved⟩
  | _ => cases ok

theorem Turned.doomed_own (turned : Turned call stores call' stores')
    (coherent : call.Coherent stores)
    (resolved : stores.registry.Resolved call.request.interruptId) (exposed : call.Exposed) :
    call'.Exposed ∨ call'.Standing stores' ∧ ∃ e, call'.phase = .returned (.error e) := by
  cases turned with
  | saved record at_ =>
    simp only [Coherent, at_] at coherent
    exact .inl (by simp [Exposed, coherent.1])
  | committed step at_ accepted =>
    simp only [Coherent, at_] at coherent
    exact .inl (by simp [Exposed, coherent.1])
  | refused step e at_ failed => simp [Exposed, at_, failed] at exposed
  | resolved p at_ found unresolved =>
    have open_ : stores.registry.Open call.request.interruptId := ⟨p, found, unresolved⟩
    exact absurd resolved open_.not_resolved
  | rejected e at_ closed =>
    simp only [Exposed, at_] at exposed
    simp only [Coherent, at_] at coherent
    exact .inr ⟨(coherent exposed).1, e, rfl⟩
  | blocked effect e at_ closed | passed effect at_ open_ => simp [Exposed, at_] at exposed
  | compensated step e at_ => simp [Exposed, at_] at exposed

end AtomrAgents.ResumeCall
