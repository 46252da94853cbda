import EncoderSetup.Proofs.Diagnostic.Outcome

/-!
# Results that the debug word does not decide

Unless it makes misuse fatal, the debug word decides about the events of a computation alone: the
result is there and the same under every such word. `Traced.Settled` says so of a computation, and
passes from its steps to the whole.
-/

namespace EncoderSetup

namespace Traced

variable {α β : Type}

/-- There is a result, one and the same under every debug word that lets misuse return. -/
def Settled (x : Traced α) : Prop :=
  ∃ a, ∀ flags : DebugFlags, flags.contains .abort = false → x.Yields flags a

theorem settled_pure (a : α) : (pure a : Traced α).Settled := ⟨a, fun _ _ => yields_pure.mpr rfl⟩

theorem settled_bind {x : Traced α} {f : α → Traced β} (hx : x.Settled)
    (hf : ∀ a, (f a).Settled) : (x >>= f).Settled := by
  obtain ⟨a, ha⟩ := hx
  obtain ⟨b, hb⟩ := hf a
  exact ⟨b, fun flags h => yields_bind.mpr ⟨a, ha flags h, hb flags h⟩⟩

end Traced

namespace Session

variable {σ α β : Type}

/-- From every state there is an outcome and a state that follows. -/
def Settled (x : Session σ α) : Prop := ∀ s, (x.runFrom s).Settled

theorem settled_pure (a : α) : Settled (pure a : Session σ α) := fun s =>
  Traced.settled_pure (Except.ok a, s)

theorem settled_get : Settled (get : Session σ σ) := fun s => Traced.settled_pure (Except.ok s, s)

theorem settled_bind {x : Session σ α} {f : α → Session σ β} (hx : Settled x)
    (hf : ∀ a, Settled (f a)) : Settled (x >>= f) := by
  intro s
  rw [runFrom_bind]
  refine Traced.settled_bind (hx s) fun r => ?_
  obtain ⟨outcome, s'⟩ := r
  cases outcome with
  | ok a => exact hf a s'
  | error e => exact Traced.settled_pure (Except.error e, s')

theorem settled_get_bind {f : σ → Session σ β} (hf : ∀ s, Settled (f s)) :
    Settled (get >>= f) := settled_bind settled_get hf

end Session

end EncoderSetup
