/-
# LoliLoader.Runs.Ensures -- programs that change a state and may stop for good

What a program ensures of the state that it starts in: one assertion for where it returns, and one
for where it stops. The program is a computation with a state and with reasons to stop, and in both
cases the state at the end is known.

The rules follow the constructors of the monad. `Ensures.bind` is the one that does the work: what
the first program ensures is what the second one may start from, and a stop of the first is a stop
of both. `Ensures.imp` weakens assertions, in either place.

Two ways to use it stand out. If the assertion for returning is false, the program never returns.
And if the assertion for stopping is false, it never stops; a function that does not stop can leave
the assertion open, for its caller to choose.

There are no loops here. A loop of the program is a recursion with a bound in it, and what it
ensures is shown by induction on the bound.
-/
import Mathlib.Init

namespace LoliLoader.Runs

section

variable {ε σ α β : Type}

/-- Started in `s`, the program returns with `Q`, or it stops with `E`. -/
def Ensures (x : EStateM ε σ α) (s : σ) (Q : α → σ → Prop) (E : ε → σ → Prop) : Prop :=
  match x s with
  | .ok a s' => Q a s'
  | .error e s' => E e s'

variable {x : EStateM ε σ α} {f : α → EStateM ε σ β} {s s' : σ} {a : α} {e : ε}
  {Q Q' : α → σ → Prop} {R : β → σ → Prop} {E E' : ε → σ → Prop}

theorem Ensures.of_ok (h : Ensures x s Q E) (hx : x s = .ok a s') : Q a s' := by
  unfold Ensures at h
  rwa [hx] at h

theorem Ensures.of_error (h : Ensures x s Q E) (hx : x s = .error e s') : E e s' := by
  unfold Ensures at h
  rwa [hx] at h

/-- Assertions may be weakened. -/
theorem Ensures.imp (h : Ensures x s Q E) (hQ : ∀ a s', Q a s' → Q' a s')
    (hE : ∀ e s', E e s' → E' e s') : Ensures x s Q' E' := by
  unfold Ensures at *
  cases hx : x s with
  | ok a s' =>
      rw [hx] at h
      exact hQ a s' h
  | error e s' =>
      rw [hx] at h
      exact hE e s' h

theorem ensures_pure (h : Q a s) : Ensures (pure a : EStateM ε σ α) s Q E := h

theorem ensures_throw (h : E e s) : Ensures (throw e : EStateM ε σ α) s Q E := h

theorem ensures_get {Q : σ → σ → Prop} (h : Q s s) : Ensures (get : EStateM ε σ σ) s Q E := h

/-- **One program behind the other.** What the first one ensures is what the second one starts from,
and a stop of the first is a stop of both. -/
theorem Ensures.bind (h : Ensures x s Q E) (hf : ∀ a s', Q a s' → Ensures (f a) s' R E) :
    Ensures (x >>= f) s R E := by
  show match EStateM.bind x f s with
    | .ok b s' => R b s'
    | .error e s' => E e s'
  unfold EStateM.bind
  unfold Ensures at h hf
  cases hx : x s with
  | ok a s' =>
      rw [hx] at h
      exact hf a s' h
  | error e s' =>
      rw [hx] at h
      exact h

end

end LoliLoader.Runs
