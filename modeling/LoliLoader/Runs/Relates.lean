/-
# LoliLoader.Runs.Relates -- what holds between the start of a program and its end

A reflexive and transitive relation between states that every part of a program keeps is kept by the
program, wherever it returns or stops. So a fact about whole runs, such as that the output only
grows, is shown by looking at the primitive steps.

`Relates R x` says that `R` holds between the state that `x` starts in and the one in which it ends.
Returning and stopping are treated alike. The rules follow the constructors of the monad: returning,
stopping and reading the state keep the relation by reflexivity, a step that changes the state has
to be looked at, and a sequence keeps it by transitivity.

It is a special case of `Ensures`, with the same assertion twice. What it gains is that nothing has
to be said at all about the parts of a program that do not touch what the relation is about: they go
by the rules alone.
-/
import LoliLoader.Runs.Ensures

namespace LoliLoader.Runs

section

variable {ε σ α β : Type} {R : σ → σ → Prop}

/-- The relation holds between the state the program starts in and that in which it ends. -/
def Relates (R : σ → σ → Prop) (x : EStateM ε σ α) : Prop :=
  ∀ s, Ensures x s (fun _ => R s) fun _ => R s

theorem relates_pure (hrefl : ∀ s, R s s) (a : α) : Relates R (pure a : EStateM ε σ α) :=
  fun s => ensures_pure (hrefl s)

theorem relates_throw (hrefl : ∀ s, R s s) (e : ε) : Relates R (throw e : EStateM ε σ α) :=
  fun s => ensures_throw (hrefl s)

theorem relates_get (hrefl : ∀ s, R s s) : Relates R (get : EStateM ε σ σ) :=
  fun s => ensures_get (hrefl s)

theorem relates_modify {f : σ → σ} (h : ∀ s, R s (f s)) :
    Relates R (modify f : EStateM ε σ PUnit) := h

/-- **One program behind the other.** The relation has to be transitive; where the first one stops,
it holds because that one keeps it. -/
theorem Relates.bind (htrans : ∀ ⦃s s' s''⦄, R s s' → R s' s'' → R s s'') {x : EStateM ε σ α}
    {f : α → EStateM ε σ β} (h : Relates R x) (hf : ∀ a, Relates R (f a)) :
    Relates R (x >>= f) := by
  intro s
  refine (h s).bind fun a s' hs => ?_
  exact (hf a s').imp (fun _ _ hs' => htrans hs hs') fun _ _ hs' => htrans hs hs'

end

end LoliLoader.Runs
