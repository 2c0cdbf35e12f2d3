import Mathlib.Data.Option.Basic

/-!
# Functions with fuel

A loop that need not end is a function of the fuel it may burn, with `none` when
the fuel runs out.  It *returns* `a` when enough fuel gives `a` and no amount
gives anything else, and it *diverges* when no amount gives anything.

The rules follow the ways such functions are put together: one turn of the loop
(`Returns.step`) and one call after another (`Returns.bind`).  Where a run may
end either way, `Becomes f g` says that `f` does what is left to do in `g`.

Where it is known beforehand how a run ends, `Settles f n R o` says so: `o` is
`none` for a run that never ends, and otherwise `R` relates it to the result,
which more than `n` units of fuel give.
-/

namespace Fuel

variable {α β : Type}

structure Returns (f : Nat → Option α) (a : α) : Prop where
  only : ∀ fuel b, f fuel = some b → b = a
  enough : ∃ k, ∀ fuel ≥ k, f fuel = some a

def Diverges (f : Nat → Option α) : Prop := ∀ fuel, f fuel = none

variable {f g : Nat → Option α} {a b : α}

theorem Returns.pure (a : α) : Returns (fun _ => some a) a :=
  ⟨fun _ _ hSome => (Option.some.inj hSome).symm, 0, fun _ _ => rfl⟩

theorem Returns.not_diverges (hReturns : Returns f a) : ¬ Diverges f := by
  intro hDiverges
  obtain ⟨k, hEnough⟩ := hReturns.enough
  exact absurd (hEnough k (Nat.le_refl k)) (by simp [hDiverges k])

/-- One turn of a loop. -/
theorem Returns.step (hZero : f 0 = none) (hTurn : ∀ fuel, f (fuel + 1) = g fuel)
    (hReturns : Returns g a) : Returns f a := by
  obtain ⟨k, hEnough⟩ := hReturns.enough
  constructor
  · intro fuel b hSome
    cases fuel with
    | zero => exact absurd hSome (by simp [hZero])
    | succ fuel => exact hReturns.only fuel b ((hTurn fuel).symm.trans hSome)
  · refine ⟨k + 1, fun fuel hLe => ?_⟩
    cases fuel with
    | zero => omega
    | succ fuel => exact (hTurn fuel).trans (hEnough fuel (by omega))

theorem Diverges.step (hZero : f 0 = none) (hTurn : ∀ fuel, f (fuel + 1) = g fuel)
    (hDiverges : Diverges g) : Diverges f := by
  intro fuel
  cases fuel with
  | zero => exact hZero
  | succ fuel => exact (hTurn fuel).trans (hDiverges fuel)

/-- A loop that comes back to where it was. -/
theorem Diverges.loop (hZero : f 0 = none) (hTurn : ∀ fuel, f (fuel + 1) = f fuel) :
    Diverges f := by
  intro fuel
  induction fuel with
  | zero => exact hZero
  | succ fuel ih => exact (hTurn fuel).trans ih

section

variable {h : Nat → α → Option β} {c : β}

/-- A call and what follows it. -/
theorem Returns.bind (hFirst : Returns f a) (hThen : Returns (fun fuel => h fuel a) c) :
    Returns (fun fuel => (f fuel).bind (h fuel)) c := by
  constructor
  · intro fuel c' hSome
    obtain ⟨a', hCall, hRest⟩ := Option.bind_eq_some_iff.mp hSome
    obtain rfl := hFirst.only fuel a' hCall
    exact hThen.only fuel c' hRest
  · obtain ⟨k, hEnough⟩ := hFirst.enough
    obtain ⟨l, hMore⟩ := hThen.enough
    refine ⟨max k l, fun fuel hLe => ?_⟩
    have hCall : f fuel = some a := hEnough fuel (Nat.le_trans (Nat.le_max_left k l) hLe)
    show (f fuel).bind (h fuel) = some c
    rw [hCall]
    exact hMore fuel (Nat.le_trans (Nat.le_max_right k l) hLe)

theorem Diverges.bind (hDiverges : Diverges f) :
    Diverges (fun fuel => (f fuel).bind (h fuel)) := by
  intro fuel
  show (f fuel).bind (h fuel) = none
  rw [hDiverges fuel, Option.bind_none]

theorem Diverges.after (hFirst : Returns f a) (hThen : Diverges fun fuel => h fuel a) :
    Diverges (fun fuel => (f fuel).bind (h fuel)) := by
  intro fuel
  show (f fuel).bind (h fuel) = none
  cases hCall : f fuel with
  | none => rfl
  | some a' =>
      obtain rfl := hFirst.only fuel a' hCall
      exact hThen fuel

end

/-! ## What is left to do -/

structure Becomes (f g : Nat → Option α) : Prop where
  returns : ∀ a, Returns g a → Returns f a
  diverges : Diverges g → Diverges f

theorem Becomes.trans {k : Nat → Option α} (hFirst : Becomes f g) (hSecond : Becomes g k) :
    Becomes f k where
  returns := fun a hReturns => hFirst.returns a (hSecond.returns a hReturns)
  diverges := fun hDiverges => hFirst.diverges (hSecond.diverges hDiverges)

theorem Becomes.step (hZero : f 0 = none) (hTurn : ∀ fuel, f (fuel + 1) = g fuel) :
    Becomes f g where
  returns := fun _ hReturns => hReturns.step hZero hTurn
  diverges := fun hDiverges => hDiverges.step hZero hTurn

/-- A call that returns is done. -/
theorem Becomes.call {h : Nat → α → Option β} (hCall : Returns f a) :
    Becomes (fun fuel => (f fuel).bind (h fuel)) (fun fuel => h fuel a) where
  returns := fun _ hReturns => hCall.bind hReturns
  diverges := fun hDiverges => Diverges.after hCall hDiverges

/-! ## How a run ends -/

structure Within (f : Nat → Option α) (n : Nat) (a : α) : Prop where
  only : ∀ fuel b, f fuel = some b → b = a
  enough : ∀ fuel > n, f fuel = some a

theorem Within.returns {n : Nat} (hWithin : Within f n a) : Returns f a :=
  ⟨hWithin.only, n + 1, fun fuel hLe => hWithin.enough fuel hLe⟩

def Settles (f : Nat → Option α) (n : Nat) (R : α → β → Prop) : Option β → Prop
  | some b => ∃ a, Within f n a ∧ R a b
  | none => Diverges f

section

variable {R : α → β → Prop} {o : Option β} {m n : Nat}

theorem Settles.pure {b : β} (hRelated : R a b) : Settles (fun _ => some a) n R (some b) :=
  ⟨a, ⟨fun _ _ hSome => (Option.some.inj hSome).symm, fun _ _ => rfl⟩, hRelated⟩

/-- One turn of a loop. -/
theorem Settles.step (hZero : f 0 = none) (hTurn : ∀ fuel, f (fuel + 1) = g fuel) (hLt : m < n)
    (hSettles : Settles g m R o) : Settles f n R o := by
  cases o with
  | none => exact Diverges.step hZero hTurn hSettles
  | some b =>
      obtain ⟨a, hWithin, hRelated⟩ := hSettles
      refine ⟨a, ⟨fun fuel a' hSome => ?_, fun fuel hMore => ?_⟩, hRelated⟩
      · cases fuel with
        | zero => exact absurd hSome (by simp [hZero])
        | succ fuel => exact hWithin.only fuel a' ((hTurn fuel).symm.trans hSome)
      · cases fuel with
        | zero => omega
        | succ fuel => exact (hTurn fuel).trans (hWithin.enough fuel (by omega))

/-- The last turn of a loop. -/
theorem Settles.stop {b : β} (hZero : f 0 = none) (hTurn : ∀ fuel, f (fuel + 1) = some a)
    (hRelated : R a b) : Settles f n R (some b) := by
  refine ⟨a, ⟨fun fuel a' hSome => ?_, fun fuel hMore => ?_⟩, hRelated⟩
  · cases fuel with
    | zero => exact absurd hSome (by simp [hZero])
    | succ fuel => exact Option.some.inj (hSome.symm.trans (hTurn fuel))
  · cases fuel with
    | zero => omega
    | succ fuel => exact hTurn fuel

theorem Settles.mono (hLe : m ≤ n) (hSettles : Settles f m R o) : Settles f n R o := by
  cases o with
  | none => exact hSettles
  | some b =>
      obtain ⟨a, hWithin, hRelated⟩ := hSettles
      exact ⟨a, ⟨hWithin.only, fun fuel hMore => hWithin.enough fuel (by omega)⟩, hRelated⟩

/-- A call and what follows it. -/
theorem Settles.bind {γ δ : Type} {S : γ → δ → Prop} {h : Nat → α → Option γ}
    {k : β → Option δ} (hFirst : Settles f n R o)
    (hThen : ∀ a b, o = some b → R a b → Settles (fun fuel => h fuel a) n S (k b)) :
    Settles (fun fuel => (f fuel).bind (h fuel)) n S (o.bind k) := by
  cases o with
  | none => exact Diverges.bind hFirst
  | some b =>
      obtain ⟨a, hWithin, hRelated⟩ := hFirst
      have hRest := hThen a b rfl hRelated
      show Settles _ n S (k b)
      cases hEnd : k b with
      | none =>
          rw [hEnd] at hRest
          exact Diverges.after hWithin.returns hRest
      | some d =>
          rw [hEnd] at hRest
          obtain ⟨c, hWithin', hRelated'⟩ := hRest
          refine ⟨c, ⟨(hWithin.returns.bind hWithin'.returns).only, fun fuel hMore => ?_⟩,
            hRelated'⟩
          show (f fuel).bind (h fuel) = some c
          rw [hWithin.enough fuel hMore, Option.bind_some]
          exact hWithin'.enough fuel hMore

/-- A call and a function of its result. -/
theorem Settles.map {γ δ : Type} {S : γ → δ → Prop} (view : α → γ) (k : β → δ)
    (hSettles : Settles f n R o) (hRelated : ∀ a b, R a b → S (view a) (k b)) :
    Settles (fun fuel => (f fuel).map view) n S (o.map k) := by
  have hBind : Settles (fun fuel => (f fuel).bind fun a => some (view a)) n S
      (o.bind fun b => some (k b)) :=
    hSettles.bind fun a b _ hR => Settles.pure (hRelated a b hR)
  simpa only [Option.map_eq_bind, Function.comp_def] using hBind

end

end Fuel
