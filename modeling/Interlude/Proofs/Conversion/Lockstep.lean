import Mathlib
import Interlude.Proofs.Conversion.Steps

/-!
# Two conversions in lockstep

Two conversions that begin in related worlds and give the same results part by part end in related
worlds. The parts may differ, as long as each of the one does for the related worlds what its
counterpart of the other does.
-/

namespace Interlude

namespace Converting

variable {α β : Type} {R : World → World → Prop}

/-- Two runs give the same result, and related worlds. -/
def Together (R : World → World → Prop) (ran ran' : Except ConversionError α × World) : Prop :=
  ran.1 = ran'.1 ∧ R ran.2 ran'.2

/-- Two parts of conversions run together from related worlds. -/
def Lockstep (R : World → World → Prop) (x y : Converting (StateM FileTree) α) : Prop :=
  ∀ w v, R w v → Together R (exec x w) (exec y v)

/-- Parts that run together, and then, where they succeed, others that do, run together. -/
theorem together_bind {x y : Converting (StateM FileTree) α}
    {f g : α → Converting (StateM FileTree) β} {w v : World} (hx : Together R (exec x w) (exec y v))
    (hf : ∀ a w' v', exec y v = (.ok a, v') → R w' v' →
      Together R (exec (f a) w') (exec (g a) v')) :
    Together R (exec (x >>= f) w) (exec (y >>= g) v) := by
  obtain ⟨hresult, hworld⟩ := hx
  rw [exec_bind, exec_bind]
  rcases hleft : exec x w with ⟨result, w'⟩
  rcases hright : exec y v with ⟨result', v'⟩
  rw [hleft, hright] at hresult hworld
  obtain rfl : result = result' := hresult
  cases result with
  | error e => exact ⟨rfl, hworld⟩
  | ok a => exact hf a w' v' hright hworld

/-- Parts in lockstep one after the other are in lockstep. -/
theorem lockstep_bind {x y : Converting (StateM FileTree) α}
    {f g : α → Converting (StateM FileTree) β} (hx : Lockstep R x y)
    (hf : ∀ a, Lockstep R (f a) (g a)) : Lockstep R (x >>= f) (y >>= g) :=
  fun w v h => together_bind (hx w v h) fun a w' v' _ h' => hf a w' v' h'

/-- Values are given in lockstep. -/
theorem lockstep_pure (a : α) : Lockstep R (pure a) (pure a) :=
  fun _ _ h => ⟨rfl, h⟩

/-- Failures come in lockstep. -/
theorem lockstep_throw (e : ConversionError) :
    Lockstep R (throw e : Converting (StateM FileTree) α) (throw e) :=
  fun _ _ h => ⟨rfl, h⟩

/-- Loops whose parts are in lockstep are in lockstep. -/
theorem lockstep_forIn {items : List α}
    {f g : α → β → Converting (StateM FileTree) (ForInStep β)}
    (hf : ∀ a ∈ items, ∀ b, Lockstep R (f a b) (g a b)) (b : β) :
    Lockstep R (forIn items b f) (forIn items b g) := by
  induction items generalizing b with
  | nil => exact lockstep_pure b
  | cons a items ih =>
    rw [List.forIn_cons, List.forIn_cons]
    refine lockstep_bind (hf a List.mem_cons_self b) ?_
    intro step
    cases step with
    | done b => exact lockstep_pure b
    | yield b => exact ih (fun c hc => hf c (List.mem_cons_of_mem a hc)) b

/-- Parts for items that are in lockstep are so for all of them. -/
theorem lockstep_mapM {items : List α} {f g : α → Converting (StateM FileTree) β}
    (hf : ∀ a ∈ items, Lockstep R (f a) (g a)) : Lockstep R (items.mapM f) (items.mapM g) := by
  induction items with
  | nil => exact lockstep_pure []
  | cons a items ih =>
    rw [List.mapM_cons, List.mapM_cons]
    refine lockstep_bind (hf a List.mem_cons_self) fun b => ?_
    refine lockstep_bind (ih fun c hc => hf c (List.mem_cons_of_mem a hc)) fun bs => ?_
    exact lockstep_pure (b :: bs)

end Converting

end Interlude
