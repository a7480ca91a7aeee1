import Mathlib

/-
  Machines that answer, and forward simulation between them.

  A machine takes an operation `o` in a state `s` to a reply and a next state,
  `step o s : ρ × σ`. A run of operations gives the list of the replies and the state it
  ends in (`runReplies`). A forward simulation of a machine by another is a relation
  between their states such that, from related states, every operation the second machine
  allows gives the same reply in both and related next states (`Simulates`).

  Proved:
  * `Simulates.run`: under a forward simulation, every run of allowed operations gives the
    same replies in both machines and ends in related states;
  * `runAllowed_of_forall`: when what is allowed does not depend on the state, a run is
    allowed when each of its operations is.
  Nothing here names one program.
-/

namespace MariaDB.Lib

variable {σ τ ω ρ : Type}

/-- The replies of a run of operations from `s`, and the state it ends in. -/
def runReplies (step : ω → σ → ρ × σ) : List ω → σ → List ρ × σ
  | [], s => ([], s)
  | o :: os, s =>
    let rest := runReplies step os (step o s).2
    ((step o s).1 :: rest.1, rest.2)

@[simp] theorem runReplies_nil (step : ω → σ → ρ × σ) (s : σ) :
    runReplies step [] s = ([], s) := rfl

@[simp] theorem runReplies_cons (step : ω → σ → ρ × σ) (o : ω) (os : List ω) (s : σ) :
    runReplies step (o :: os) s =
      ((step o s).1 :: (runReplies step os (step o s).2).1, (runReplies step os (step o s).2).2) :=
  rfl

/-- Every operation of the run is allowed in the state it meets. -/
def RunAllowed (step : ω → τ → ρ × τ) (Allowed : τ → ω → Prop) : List ω → τ → Prop
  | [], _ => True
  | o :: os, a => Allowed a o ∧ RunAllowed step Allowed os (step o a).2

/-- `R` is a forward simulation of `stepC` by `stepA`: from related states, an operation
    `stepA` allows gives the same reply in both machines and related next states. -/
def Simulates (stepC : ω → σ → ρ × σ) (stepA : ω → τ → ρ × τ) (Allowed : τ → ω → Prop)
    (R : σ → τ → Prop) : Prop :=
  ∀ c a o, R c a → Allowed a o → (stepC o c).1 = (stepA o a).1 ∧ R (stepC o c).2 (stepA o a).2

section Simulation

variable {stepC : ω → σ → ρ × σ} {stepA : ω → τ → ρ × τ} {Allowed : τ → ω → Prop}
  {R : σ → τ → Prop}

/-- A forward simulation carries over to whole runs: every allowed run gives the replies of
    the abstract machine and ends in a state related to its final state. -/
theorem Simulates.run (h : Simulates stepC stepA Allowed R) :
    ∀ (os : List ω) (c : σ) (a : τ), R c a → RunAllowed stepA Allowed os a →
      (runReplies stepC os c).1 = (runReplies stepA os a).1 ∧
        R (runReplies stepC os c).2 (runReplies stepA os a).2
  | [], _, _, hr, _ => ⟨rfl, hr⟩
  | o :: os, c, a, hr, ⟨ho, hos⟩ => by
    obtain ⟨hreply, hnext⟩ := h c a o hr ho
    obtain ⟨hreplies, hend⟩ := Simulates.run h os _ _ hnext hos
    rw [runReplies_cons, runReplies_cons, hreply, hreplies]
    exact ⟨rfl, hend⟩

end Simulation

/-- When what is allowed does not depend on the state, a run is allowed when each of its
    operations is. -/
theorem runAllowed_of_forall {step : ω → τ → ρ × τ} {Allowed : ω → Prop} :
    ∀ (os : List ω) (a : τ), (∀ o ∈ os, Allowed o) → RunAllowed step (fun _ o => Allowed o) os a
  | [], _, _ => trivial
  | o :: os, _, h =>
    ⟨h o List.mem_cons_self, runAllowed_of_forall os _ fun o' ho' => h o' (List.mem_cons_of_mem _ ho')⟩

end MariaDB.Lib
