import Mathlib
import Sley.Lib.Outcome

/-!
# Computations that charge

A computation that charges for what it does and stops when a limit is passed comes to one result
under every limit that is high enough. `Charged` states this of a computation as a function of its
limit: **the limit decides whether the result is returned, never what it is**.

Limits are ordered, not necessarily numbers: where several things are counted, a limit is a tuple.
-/

universe u v

variable {ε : Type u} {R : Type*} [Preorder R] [DecidableLE R] {β γ : Type v}

/-- From what is used at the `start` on, the computation comes to `b`, unless what is `used` then is
beyond the limit; in that case it stops with `e`. -/
structure Charged (e : ε) (used : β → R) (c : R → Except ε β) (start : R) (b : β) : Prop where
  le : start ≤ used b
  eq : ∀ limit, start ≤ limit → c limit = if used b ≤ limit then .ok b else .error e

namespace Charged

variable {e : ε} {used : β → R} {used' : γ → R}

protected theorem pure (used : β → R) (b : β) :
    Charged e used (fun _ ↦ .ok b) (used b) b where
  le := le_rfl
  eq _ h := (if_pos h).symm

protected theorem bind {c : R → Except ε β} {f : R → β → Except ε γ} {start : R} {b : β} {b' : γ}
    (h : Charged e used c start b) (h' : Charged e used' (fun limit ↦ f limit b) (used b) b') :
    Charged e used' (fun limit ↦ c limit >>= f limit) start b' where
  le := h.le.trans h'.le
  eq limit hlimit := by
    rw [h.eq limit hlimit]
    split_ifs with hb hb' hb'
    · exact (h'.eq limit hb).trans (if_pos hb')
    · exact (h'.eq limit hb).trans (if_neg hb')
    · exact absurd (h'.le.trans hb') hb
    · rfl

protected theorem foldlM {f : R → β → γ → Except ε β} {g : β → γ → β} {xs : List γ}
    (h : ∀ b, ∀ x ∈ xs, Charged e used (fun limit ↦ f limit b x) (used b) (g b x)) (b : β) :
    Charged e used (fun limit ↦ xs.foldlM (f limit) b) (used b) (xs.foldl g b) := by
  induction xs generalizing b with
  | nil => exact .pure used b
  | cons x xs ih =>
    have hrest := ih (fun b y hy ↦ h b y (List.mem_cons_of_mem _ hy)) (g b x)
    exact (h b x List.mem_cons_self).bind hrest

/-- What is returned under some limit is what the computation comes to. -/
theorem eq_of_eq_ok {c : R → Except ε β} {start limit : R} {b b' : β}
    (h : Charged e used c start b) (hlimit : start ≤ limit) (hb : c limit = .ok b') : b = b' := by
  rw [h.eq limit hlimit] at hb
  split_ifs at hb
  exact Except.ok.inj hb

end Charged
