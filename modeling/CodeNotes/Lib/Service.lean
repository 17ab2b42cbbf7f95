import Mathlib.Tactic

/-!
# Services over a store

The programs of a service work on a shared store only through commands: a program `Prog` ends with
a result or issues a command and goes on with the reply.  `exec` runs one program alone,
`serveAll` serves requests one after another, and `serveAll_simulates` lifts a simulation of the
single requests to every sequence of them.
-/

namespace CodeNotes.Service

/-- A program that issues commands `c : C`, each with replies of type `R c`. -/
inductive Prog {C : Type} (R : C → Type) (α : Type) where
  | done (result : α)
  | call (c : C) (next : R c → Prog R α)

section Exec

variable {C σ α : Type} {R : C → Type}

/-- The result of a program that has the store to itself, and the store it leaves. -/
def exec (store : (c : C) → σ → R c × σ) : Prog R α → σ → α × σ
  | .done result, s => (result, s)
  | .call c next, s => exec store (next (store c s).1) (store c s).2

@[simp] theorem exec_done (store : (c : C) → σ → R c × σ) (result : α) (s : σ) :
    exec store (.done result) s = (result, s) := rfl

theorem exec_call (store : (c : C) → σ → R c × σ) (c : C) (next : R c → Prog R α) (s : σ) :
    exec store (.call c next) s = exec store (next (store c s).1) (store c s).2 := rfl

end Exec

section Serve

variable {σ τ ρ ω ω' : Type}

/-- The answers to a sequence of requests, and the state after them. -/
def serveAll (serve : σ → ρ → ω × σ) : σ → List ρ → List ω × σ
  | s, [] => ([], s)
  | s, r :: requests =>
      let rest := serveAll serve (serve s r).2 requests
      ((serve s r).1 :: rest.1, rest.2)

/-- If every request keeps two states in relation and its answers meet the specified ones, so do
all sequences of requests. -/
theorem serveAll_simulates {serve : σ → ρ → ω × σ} {spec : τ → ρ → ω' × τ} {S : σ → τ → Prop}
    {Meets : ω → ω' → Prop}
    (simulates : ∀ s t r, S s t → Meets (serve s r).1 (spec t r).1 ∧ S (serve s r).2 (spec t r).2)
    (requests : List ρ) {s : σ} {t : τ} (related : S s t) :
    List.Forall₂ Meets (serveAll serve s requests).1 (serveAll spec t requests).1 ∧
      S (serveAll serve s requests).2 (serveAll spec t requests).2 := by
  induction requests generalizing s t with
  | nil => exact ⟨.nil, related⟩
  | cons r requests ih =>
    obtain ⟨meets, related'⟩ := simulates s t r related
    obtain ⟨rest, final⟩ := ih related'
    exact ⟨.cons meets rest, final⟩

end Serve

end CodeNotes.Service
