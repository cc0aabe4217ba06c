import Entorhinal.Traverse
import Mathlib.Order.Defs.Unbundled

/-! Runs that may refuse and a preorder on their states: what every accepted run goes along, put together from the
runs it is made of. -/
namespace Entorhinal

/-- Every accepted run goes to a related state. -/
def Abides {ε σ : Type} (r : σ → σ → Prop) (run : σ → Except ε σ) : Prop := ∀ s t, run s = .ok t → r s t

namespace Abides
variable {ε σ β : Type} {r : σ → σ → Prop}

/-- What is read first may refuse, and decides how the run goes on. -/
theorem given {read : σ → Except ε β} {next : β → σ → Except ε σ} (each : ∀ b, Abides r (next b)) :
    Abides r fun s => read s >>= fun b => next b s := by
  intro s t ok
  obtain ⟨value,_,ok⟩ := bind_ok ok
  exact each value s t ok

theorem branch {c : σ → Prop} [DecidablePred c] {yes no : σ → Except ε σ} (left : Abides r yes) (right : Abides r no) :
    Abides r fun s => if c s then yes s else no s := by
  intro s t ok
  dsimp only at ok
  split at ok
  · exact left s t ok
  · exact right s t ok

theorem refused {message : σ → ε} : Abides r fun s => (.error (message s) : Except ε σ) := fun _ _ ok => nomatch ok

variable [IsPreorder σ r]

theorem ret : Abides r fun s => (.ok s : Except ε σ) := fun s _ ok => Except.ok.inj ok ▸ refl s

theorem bind {first next : σ → Except ε σ} (left : Abides r first) (right : Abides r next) :
    Abides r fun s => first s >>= next := by
  intro s t ok
  obtain ⟨middle,one,two⟩ := bind_ok ok
  exact IsTrans.trans _ _ _ (left s middle one) (right middle t two)

theorem fold {step : σ → β → Except ε σ} {items : List β} (each : ∀ item ∈ items, Abides r fun s => step s item) :
    Abides r fun s => items.foldlM step s := by
  intro s t ok
  exact foldlM_mem (fun u => r s u) (fun u item u' inside so taken => IsTrans.trans _ _ _ so (each item inside u u' taken))
    (refl s) ok

end Abides
end Entorhinal
