import Marbles.Lib.Prog

/-!
# Programs that rely on their answers

What a program may be asked for often depends on what it was told: it only stores good values if
it has only been given good ones. `Prog.Relies` states this of a program alone. A component that
answers well in every good state, and that stays good under such calls, is good after the whole
program, and so is what the program returned.

It differs from `Spec` in that the answers are assumed to be good instead of arbitrary. The two
are used for different sides of the same question: what a program asks for, and what it makes of
what it is told.
-/

universe u

namespace Prog

variable {I : Interface} {α β : Type} {σ : Type u}

/-- As long as the answers are good the program makes allowed calls only, and `post` holds of what
it then returns. -/
def Relies (good : (c : I.Call) → I.Resp c → Prop) (allowed : I.Call → Prop) (post : α → Prop) :
    Prog I α → Prop
  | .ret a => post a
  | .call c k => allowed c ∧ ∀ r, good c r → Relies good allowed post (k r)

namespace Relies

variable {good : (c : I.Call) → I.Resp c → Prop} {allowed : I.Call → Prop} {post q : α → Prop}

theorem mono {p : Prog I α} (hp : Relies good allowed q p) (h : ∀ a, q a → post a) :
    Relies good allowed post p := by
  induction p with
  | ret a => exact h a hp
  | call c k ih => exact ⟨hp.1, fun r hr => ih r (hp.2 r hr)⟩

theorem bind {post : β → Prop} {f : α → Prog I β} {p : Prog I α} (hp : Relies good allowed q p)
    (hf : ∀ a, q a → Relies good allowed post (f a)) : Relies good allowed post (p >>= f) := by
  induction p with
  | ret a => exact hf a hp
  | call c k ih => exact ⟨hp.1, fun r hr => ih r (hp.2 r hr)⟩

/-- A program that makes allowed calls whatever it is told relies on nothing. -/
theorem of_only {p : Prog I α} (hp : Only allowed p) : Relies good allowed (fun _ => True) p := by
  induction p with
  | ret a => trivial
  | call c k ih => exact ⟨hp.1, fun r _ => ih r (hp.2 r)⟩

/-- A good component stays good, and the program returns what it promises. -/
theorem run {exec : (c : I.Call) → σ → I.Resp c × σ} {P : σ → Prop}
    (hgood : ∀ c s, P s → good c (exec c s).1)
    (hkeep : ∀ c s, allowed c → P s → P (exec c s).2) {p : Prog I α} {s : σ}
    (hp : Relies good allowed post p) (hs : P s) :
    P (run exec p s).2 ∧ post (run exec p s).1 := by
  induction p generalizing s with
  | ret a => exact ⟨hs, hp⟩
  | call c k ih => exact ih _ (hp.2 _ (hgood c s hs)) (hkeep c s hp.1 hs)

end Relies

end Prog
