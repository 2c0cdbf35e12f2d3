import Mathlib.Algebra.BigOperators.Group.List.Basic
import Mathlib.Algebra.GroupWithZero.Nat
import GraphRuntime.Lib.Interleaving

/-!
# Amounts that are neither made nor lost

Something that is counted moves through a concurrent program: a step takes it in, a frame has
some of it with it while it runs and hands it on to the frames it leaves, and a step puts it
down.  `amount w fs` is what the frames `fs` have with them when frame `f` has `w f`.

`Machine.conserved` is the rule for runs: if every single step balances, then what has come in
is what has been put down and what the frames have with them, whichever thread they belong to.
`Live` is a condition without which a step may lose some; it goes back along the steps, so it
is asked of the end of a run only.
-/

namespace Interleaving

variable {σ φ χ β : Type}

/-- What some frames have with them. -/
def amount (w : φ → Nat) (fs : List φ) : Nat := (fs.map w).sum

variable {w : φ → Nat} {fs A B : List φ} {f : φ}

@[simp] theorem amount_nil : amount w ([] : List φ) = 0 := rfl

@[simp] theorem amount_cons : amount w (f :: fs) = w f + amount w fs := by
  simp [amount]

@[simp] theorem amount_append : amount w (A ++ B) = amount w A + amount w B := by
  simp [amount]

theorem amount_eq_zero (hNone : ∀ f ∈ fs, w f = 0) : amount w fs = 0 := by
  induction fs with
  | nil => rfl
  | cons f fs ih =>
      have hHead := hNone f List.mem_cons_self
      have hTail := ih fun f' hMem => hNone f' (List.mem_cons_of_mem f hMem)
      rw [amount_cons]
      omega

/-- **What has come in is what is there.** -/
theorem Machine.conserved {M : Machine σ φ χ β} {G : Guard σ φ χ β} {J : σ → List φ → Prop}
    (Live : σ → Prop) {inflow outflow : σ → Nat} {c₀ c : Config σ φ}
    (hJ : ∀ c, M.Reaches G c₀ c → J c.shared c.frames)
    (hInit : inflow c₀.shared = outflow c₀.shared + amount w c₀.frames)
    (hExec : ∀ s A f B x s' fs, J s (A ++ f :: B) → M.exec s f x = some (s', fs) → Live s' →
      Live s ∧ inflow s' + outflow s + w f = inflow s + outflow s' + amount w fs)
    (hSpawn : ∀ s A b s' fs, J s A → M.spawn s b = some (s', fs) → Live s' →
      Live s ∧ inflow s' + outflow s = inflow s + outflow s' + amount w fs)
    (hReach : M.Reaches G c₀ c) (hLive : Live c.shared) :
    inflow c.shared = outflow c.shared + amount w c.frames := by
  have hAlways : Live c.shared → inflow c.shared = outflow c.shared + amount w c.frames := by
    refine invariant_with (I := fun s fs => Live s → inflow s = outflow s + amount w fs) hJ
      (fun _ => hInit) ?_ ?_ hReach
    · intro s A f B x s' fs hHere hBefore _ hStep hLive'
      obtain ⟨hLive, hBalance⟩ := hExec s A f B x s' fs hHere hStep hLive'
      have hSum := hBefore hLive
      simp only [amount_append, amount_cons] at hSum ⊢
      omega
    · intro s A b s' fs hHere hBefore _ hStep hLive'
      obtain ⟨hLive, hBalance⟩ := hSpawn s A b s' fs hHere hStep hLive'
      have hSum := hBefore hLive
      rw [amount_append]
      omega
  exact hAlways hLive

end Interleaving
