import Mathlib.Data.List.Sublists
import Marbles.Lib.Prog

/-!
# Hosts

A host keeps one component for each key and makes it when somebody first enters under that
key. A visitor enters under a key and then calls the component of that key; others are sent
away at the door. Whatever the schedule, the visitors of one key are a system of their own:
their component and their programs stand as they do when only they take turns, in the order
in which they took them.
-/

universe u v

namespace Hosting

/-- The calls of a host: enter under a key, or call the component of a key. -/
inductive Call (κ δ : Type) (I : Interface) where
  | enter (key : κ) (draw : δ)
  | ask (key : κ) (call : I.Call)

def Call.key {κ δ : Type} {I : Interface} : Call κ δ I → κ
  | enter key _ | ask key _ => key

/-- A host as its callers see it. -/
abbrev Door (κ δ ε : Type) (I : Interface) : Interface where
  Call := Call κ δ I
  Resp
    | .enter .. => Except ε Unit
    | .ask _ call => I.Resp call

/-- A host whose states are of type `η`: what it keeps under a key, and the component that
this is. A key that is entered first is given what the call drew. -/
structure Host (κ δ ε : Type) (I : Interface) (σ : Type u) (η : Type v) where
  exec : (call : Call κ δ I) → η → (Door κ δ ε I).Resp call × η
  component : (call : I.Call) → σ → I.Resp call × σ
  room : κ → η → Option σ
  fresh : δ → σ
  /-- The reasons for which a call of `enter` may fail. -/
  refuses : κ → δ → ε → Prop
  enter_ok : ∀ {key draw h}, (exec (.enter key draw) h).1 = .ok () →
    room key (exec (.enter key draw) h).2 = some ((room key h).getD (fresh draw))
  enter_error : ∀ {key draw h e}, (exec (.enter key draw) h).1 = .error e →
    refuses key draw e ∧ room key (exec (.enter key draw) h).2 = room key h
  ask_room : ∀ {key call h s}, room key h = some s →
    (exec (.ask key call) h).1 = (component call s).1 ∧
      room key (exec (.ask key call) h).2 = some (component call s).2
  frame : ∀ {call h key}, key ≠ call.key → room key (exec call h).2 = room key h

/-! ### Visitors -/

section Visitors

variable {κ δ ε α : Type} {I : Interface}

/-- A program whose calls go to the component of one key. -/
def within (key : κ) : Prog I α → Prog (Door κ δ ε I) α
  | .ret a => .ret a
  | .call c k => .call (.ask key c) fun r => within key (k r)

/-- Who comes to a host. -/
inductive Visitor (κ δ ε : Type) (I : Interface) (α : Type) where
  /-- Sent away with an answer. -/
  | away (a : α)
  | enters (key : κ) (draw : δ) (refused : ε → α) (prog : Prog I α)

namespace Visitor

/-- What a visitor does at the host. -/
def prog : Visitor κ δ ε I α → Prog (Door κ δ ε I) α
  | away a => .ret a
  | enters key draw refused p => .call (.enter key draw) fun
      | .ok () => within key p
      | .error e => .ret (refused e)

/-- What a visitor does with the component, once it is in. -/
def inner : Visitor κ δ ε I α → Prog I α
  | away a => .ret a
  | enters _ _ _ p => p

/-- The visitor comes for this key. -/
def For (key : κ) : Visitor κ δ ε I α → Prop
  | away _ => False
  | enters key' .. => key' = key

end Visitor

/-- Nobody comes for two keys. -/
theorem Visitor.For.unique {visitor : Visitor κ δ ε I α} {key key' : κ} (hkey : visitor.For key)
    (hkey' : visitor.For key') : key = key' := by
  cases visitor with
  | away a => exact hkey.elim
  | enters => exact hkey.symm.trans hkey'

theorem within_eq_ret {key : κ} {p : Prog I α} {a : α}
    (h : (within key p : Prog (Door κ δ ε I) α) = .ret a) : p = .ret a := by
  cases p with
  | ret b =>
      cases h
      rfl
  | call c k => cases h

/-- Every call made within a key is a call of that key. -/
theorem only_within (key : κ) (p : Prog I α) :
    Prog.Only (fun call => Call.key call = key) (within key p : Prog (Door κ δ ε I) α) := by
  induction p with
  | ret a => trivial
  | call c k ih => exact ⟨rfl, ih⟩

/-- A visitor calls nothing but what it comes for. -/
theorem Visitor.only_prog (visitor : Visitor κ δ ε I α) :
    Prog.Only (fun call => visitor.For (Call.key call)) visitor.prog := by
  cases visitor with
  | away a => trivial
  | enters key draw refused p =>
      refine ⟨rfl, fun r => ?_⟩
      cases r with
      | ok u => exact (only_within key p).mono fun _ hkey => hkey.symm
      | error e => trivial

end Visitors

/-- What a program still has to do makes no other calls than the program. -/
theorem only_follows {I : Interface} {α : Type} {q : I.Call → Prop} {p p' : Prog I α}
    {trace : List (Event I)} (hp : Prog.Only q p) (h : Prog.Follows p trace p') :
    Prog.Only q p' := by
  induction h with
  | nil _ => exact hp
  | cons _ ih => exact ih (hp.2 _)

/-! ### One key alone -/

namespace Host

variable {ι κ δ ε α : Type} [DecidableEq ι] {I : Interface} {σ : Type u} {η : Type v}
  (host : Host κ δ ε I σ η)

/-- The run in which only these turns are taken, with a component that starts as `s`. -/
def own (visitors : ι → Visitor κ δ ε I α) (s : σ) (turns : List ι) : System ι I σ α :=
  System.run host.component turns (System.init s fun i => (visitors i).inner)

/-- A visitor that has not been let in. -/
def Outside (visitors : ι → Visitor κ δ ε I α) (w : System ι (Door κ δ ε I) η α) (i : ι) : Prop :=
  (w.threads i).prog = (visitors i).prog ∨
    ∃ key draw refused p e, visitors i = .enters key draw refused p ∧ host.refuses key draw e ∧
      (w.threads i).prog = .ret (refused e)

/-- The visitors of a key stand as in a run of their own: the component of the key is theirs,
and each of them is still outside or has to do what it has to do there. -/
structure Stands (visitors : ι → Visitor κ δ ε I α) (key : κ) (s : σ) (turns : List ι)
    (w : System ι (Door κ δ ε I) η α) : Prop where
  room : host.room key w.shared = some (host.own visitors s turns).shared
  each : ∀ i, (visitors i).For key →
    (i ∉ turns ∧ host.Outside visitors w i) ∨
      (w.threads i).prog = within key ((host.own visitors s turns).threads i).prog

/-- What the component of a key started as: what the host had, or what one of the visitors
of the key drew. -/
def Start (visitors : ι → Visitor κ δ ε I α) (key : κ) (h : η) (s : σ) : Prop :=
  host.room key h = some s ∨
    host.room key h = none ∧ ∃ i draw refused p, visitors i = .enters key draw refused p ∧
      s = host.fresh draw

/-- Nothing is kept under the key, and its visitors are outside; or they stand as in a run
of their own, in which they take turns as they did at the host. -/
def Alone (visitors : ι → Visitor κ δ ε I α) (key : κ) (h : η) (schedule : List ι)
    (w : System ι (Door κ δ ε I) η α) : Prop :=
  (host.room key w.shared = none ∧ host.room key h = none ∧
      ∀ i, (visitors i).For key → host.Outside visitors w i) ∨
    ∃ s turns, host.Start visitors key h s ∧ turns.Sublist schedule ∧
      (∀ i ∈ turns, (visitors i).For key) ∧ host.Stands visitors key s turns w

variable {host} {visitors : ι → Visitor κ δ ε I α} {key : κ} {h : η} {s : σ}
    {schedule turns : List ι}
  {w w' : System ι (Door κ δ ε I) η α} {i : ι}

/-! #### Runs of their own -/

theorem own_snoc (visitors : ι → Visitor κ δ ε I α) (s : σ) (turns : List ι) (i : ι) :
    host.own visitors s (turns ++ [i]) =
      System.step host.component i (host.own visitors s turns) := Machine.run_append ..

/-- Who has taken no turn is at its beginning. -/
theorem own_not_mem (hi : i ∉ turns) :
    ((host.own visitors s turns).threads i).prog = (visitors i).inner := by
  induction turns using List.reverseRecOn with
  | nil => rfl
  | append_singleton turns j ih =>
      rw [List.mem_append, List.mem_singleton, not_or] at hi
      rw [own_snoc, System.step_threads_ne hi.2]
      exact ih hi.1

/-! #### One turn -/

omit [DecidableEq ι] in
theorem Outside.congr (hout : host.Outside visitors w i) (hthread : w'.threads i = w.threads i) :
    host.Outside visitors w' i := by
  unfold Outside
  rw [hthread]
  exact hout

omit [DecidableEq ι] in
/-- Who is outside and not done yet is about to enter. -/
theorem Outside.entering {call : Call κ δ I} {k : (Door κ δ ε I).Resp call → Prog (Door κ δ ε I) α}
    (hout : host.Outside visitors w i) (hfor : (visitors i).For key)
    (hprog : (w.threads i).prog = .call call k) :
    ∃ draw refused p, visitors i = .enters key draw refused p ∧
    (visitors i).prog = .call call k := by
  rcases hout with hstart | ⟨_, _, _, _, _, -, -, hret⟩
  · cases hvisitor : visitors i with
    | away a =>
        rw [hvisitor] at hfor
        exact hfor.elim
    | enters key' draw refused p =>
        rw [hvisitor] at hfor hstart
        obtain rfl : key' = key := hfor
        exact ⟨draw, refused, p, rfl, hstart.symm.trans hprog⟩
  · rw [hret] at hprog
    cases hprog

section Turn

variable {call : Call κ δ I} {k : (Door κ δ ε I).Resp call → Prog (Door κ δ ε I) α}

theorem shared_call (hprog : (w.threads i).prog = .call call k) :
    (System.step host.exec i w).shared = (host.exec call w.shared).2 := by
  rw [System.step_call hprog]

theorem prog_call (hprog : (w.threads i).prog = .call call k) :
    ((System.step host.exec i w).threads i).prog = k (host.exec call w.shared).1 := by
  rw [System.step_call hprog]
  simp only [Function.update_self]

/-- A turn under another key changes nothing here. -/
theorem Alone.other (halone : host.Alone visitors key h schedule w)
    (hroom : host.room key w'.shared = host.room key w.shared)
    (hthreads : ∀ j, (visitors j).For key → w'.threads j = w.threads j) (i : ι) :
    host.Alone visitors key h (schedule ++ [i]) w' := by
  rcases halone with ⟨hnone, hfirst, hout⟩ | ⟨s, turns, hstart, hsub, hfor, hroom', heach⟩
  · exact Or.inl ⟨hroom.trans hnone, hfirst, fun j hj => (hout j hj).congr (hthreads j hj)⟩
  · refine Or.inr ⟨s, turns, hstart, hsub.trans (List.sublist_append_left ..), hfor,
      hroom.trans hroom', fun j hj => ?_⟩
    rcases heach j hj with ⟨hnot, hout⟩ | hin
    · exact Or.inl ⟨hnot, hout.congr (hthreads j hj)⟩
    · exact Or.inr (by rw [hthreads j hj]; exact hin)

/-- What a visitor of the key at the door goes on as, and what is kept under the key then. -/
theorem Outside.turn (hout : host.Outside visitors w i) (hfor : (visitors i).For key)
    (hprog : (w.threads i).prog = .call call k) :
    host.Outside visitors (System.step host.exec i w) i ∧
        host.room key (System.step host.exec i w).shared = host.room key w.shared ∨
      ((System.step host.exec i w).threads i).prog = within key (visitors i).inner ∧
        ∃ draw refused p, visitors i = .enters key draw refused p ∧
          host.room key (System.step host.exec i w).shared =
            some ((host.room key w.shared).getD (host.fresh draw)) := by
  obtain ⟨draw, refused, p, hvisitor, hstart⟩ := hout.entering hfor hprog
  rw [shared_call hprog]
  unfold Outside
  rw [prog_call hprog]
  rw [hvisitor] at hstart ⊢
  obtain ⟨rfl, hk⟩ := Prog.call.inj hstart
  obtain rfl := eq_of_heq hk
  cases hanswer : (host.exec (.enter key draw) w.shared).1 with
  | ok u => exact Or.inr ⟨rfl, draw, refused, p, rfl, host.enter_ok hanswer⟩
  | error e =>
      obtain ⟨hrefuses, hroom⟩ := host.enter_error hanswer
      exact Or.inl ⟨Or.inr ⟨key, draw, refused, p, e, rfl, hrefuses, rfl⟩, hroom⟩

/-- A visitor lets in itself, or stays outside. -/
theorem Stands.enter (hstands : host.Stands visitors key s turns w)
    (hfor : (visitors i).For key) (hnot : i ∉ turns) (hout : host.Outside visitors w i)
    (hprog : (w.threads i).prog = .call call k) :
    host.Stands visitors key s turns (System.step host.exec i w) := by
  have hroom : host.room key (System.step host.exec i w).shared = host.room key w.shared := by
    rcases hout.turn hfor hprog with ⟨-, hsame⟩ | ⟨-, draw, refused, p, -, hroom⟩
    · exact hsame
    · rw [hroom, hstands.room, Option.getD_some]
  refine ⟨hroom.trans hstands.room, fun j hj => ?_⟩
  by_cases hji : j = i
  · subst hji
    rcases hout.turn hfor hprog with ⟨hstill, -⟩ | ⟨hin, -⟩
    · exact Or.inl ⟨hnot, hstill⟩
    · exact Or.inr (by rw [hin, own_not_mem hnot])
  · have hthread := @System.step_threads_ne _ _ _ _ _ host.exec w i j hji
    rcases hstands.each j hj with ⟨hnot', hout'⟩ | hin
    · exact Or.inl ⟨hnot', hout'.congr hthread⟩
    · exact Or.inr (by rw [hthread]; exact hin)

/-- A visitor that is in calls the component, as it does in the run of its own. -/
theorem Stands.ask (hstands : host.Stands visitors key s turns w)
    (hin : (w.threads i).prog = within key ((host.own visitors s turns).threads i).prog)
    (hprog : (w.threads i).prog = .call call k) :
    host.Stands visitors key s (turns ++ [i]) (System.step host.exec i w) := by
  cases hown : ((host.own visitors s turns).threads i).prog with
  | ret a =>
      rw [hin, hown] at hprog
      cases hprog
  | call c k' =>
      have hwithin : within key (.call c k') = Prog.call call k := by rw [← hown, ← hin, hprog]
      obtain ⟨rfl, hk⟩ := Prog.call.inj hwithin
      obtain rfl := eq_of_heq hk
      obtain ⟨hanswer, hroom⟩ := @Host.ask_room _ _ _ _ _ _ host key c _ _ hstands.room
      constructor
      · rw [shared_call hprog, own_snoc, System.step_call hown]
        exact hroom
      · intro j hj
        by_cases hji : j = i
        · subst hji
          refine Or.inr ?_
          rw [prog_call hprog, own_snoc, System.step_call hown, hanswer]
          simp only [Function.update_self]
        · have hthread := @System.step_threads_ne _ _ _ _ _ host.exec w i j hji
          rcases hstands.each j hj with ⟨hnot, hout⟩ | hin'
          · refine Or.inl ⟨?_, hout.congr hthread⟩
            rw [List.mem_append, List.mem_singleton, not_or]
            exact ⟨hnot, hji⟩
          · refine Or.inr ?_
            rw [hthread, own_snoc, System.step_threads_ne hji]
            exact hin'

/-- A turn of a visitor of the key. -/
theorem Alone.turn (halone : host.Alone visitors key h schedule w) (hfor : (visitors i).For key)
    (hprog : (w.threads i).prog = .call call k) :
    host.Alone visitors key h (schedule ++ [i]) (System.step host.exec i w) := by
  rcases halone with ⟨hnone, hfirst, hout⟩ | ⟨s, turns, hstart, hsub, hturns, hstands⟩
  · have hothers : ∀ j, (visitors j).For key → j ≠ i →
        host.Outside visitors (System.step host.exec i w) j := fun j hj hji =>
      (hout j hj).congr (System.step_threads_ne hji)
    rcases (hout i hfor).turn hfor hprog with ⟨hstill, hsame⟩ | ⟨hin, draw, refused, p, hv, hroom⟩
    · refine Or.inl ⟨hsame.trans hnone, hfirst, fun j hj => ?_⟩
      by_cases hji : j = i
      · subst hji
        exact hstill
      · exact hothers j hj hji
    · -- the first to enter makes the component
      rw [hnone, Option.getD_none] at hroom
      refine Or.inr ⟨_, [], Or.inr ⟨hfirst, i, draw, refused, p, hv, rfl⟩, List.nil_sublist _,
        fun j hj => absurd hj List.not_mem_nil, hroom, fun j hj => ?_⟩
      by_cases hji : j = i
      · subst hji
        exact Or.inr hin
      · exact Or.inl ⟨List.not_mem_nil, hothers j hj hji⟩
  · rcases hstands.each i hfor with ⟨hnot, hout⟩ | hin
    · exact Or.inr ⟨s, turns, hstart, hsub.trans (List.sublist_append_left ..), hturns,
        hstands.enter hfor hnot hout hprog⟩
    · refine Or.inr ⟨s, turns ++ [i], hstart, hsub.append (List.Sublist.refl _), fun j hj => ?_,
        hstands.ask hin hprog⟩
      rcases List.mem_append.mp hj with hj | hj
      · exact hturns j hj
      · obtain rfl := List.mem_singleton.mp hj
        exact hfor

end Turn

/-! #### Runs -/

/-- In every schedule the visitors of a key are a system of their own. -/
theorem alone_run (host : Host κ δ ε I σ η) (visitors : ι → Visitor κ δ ε I α) (key : κ) (h : η)
    (schedule : List ι) : host.Alone visitors key h schedule
      (System.run host.exec schedule (System.init h fun i => (visitors i).prog)) := by
  induction schedule using List.reverseRecOn with
  | nil =>
      cases hroom : host.room key h with
      | none => exact Or.inl ⟨hroom, hroom, fun i _ => Or.inl rfl⟩
      | some s =>
          exact Or.inr ⟨s, [], Or.inl hroom, List.nil_sublist _,
            fun j hj => absurd hj List.not_mem_nil, hroom,
            fun i _ => Or.inl ⟨List.not_mem_nil, Or.inl rfl⟩⟩
  | append_singleton schedule i ih =>
      rw [System.run, Machine.run_append]
      generalize hw : System.run host.exec schedule (System.init h fun i => (visitors i).prog) = w
        at ih
      rw [System.run] at hw
      rw [hw]
      show host.Alone visitors key h (schedule ++ [i]) (System.step host.exec i w)
      cases hprog : (w.threads i).prog with
      | ret a =>
          rw [System.step_ret hprog]
          exact ih.other rfl (fun _ _ => rfl) i
      | call call k =>
          -- a visitor only calls what it comes for
          have honly : (visitors i).For (Call.key call) := by
            have hfollowed := @System.followed_run _ _ _ _ _ host.exec
              (fun i => (visitors i).prog) schedule h i
            rw [System.run, hw, hprog] at hfollowed
            exact (only_follows (visitors i).only_prog hfollowed).1
          by_cases hkey : key = Call.key call
          · exact ih.turn (hkey ▸ honly) hprog
          · refine ih.other ?_ (fun j hj => System.step_threads_ne ?_) i
            · rw [shared_call hprog]
              exact host.frame hkey
            · rintro rfl
              exact hkey (hj.unique honly)

/-- The visitor was refused with this answer. -/
def Refused (visitors : ι → Visitor κ δ ε I α) (i : ι) (a : α) : Prop :=
  ∃ key draw refused p e, visitors i = .enters key draw refused p ∧ host.refuses key draw e ∧
    a = refused e

omit [DecidableEq ι] in
theorem Outside.refused {a : α} (hout : host.Outside visitors w i) (hfor : (visitors i).For key)
    (hreturned : w.Returned i a) : host.Refused visitors i a := by
  rcases hout with hstart | ⟨key', draw, refused, p, e, hvisitor, hrefuses, hret⟩
  · cases hvisitor : visitors i with
    | away a =>
        rw [hvisitor] at hfor
        exact hfor.elim
    | enters key' draw refused p =>
        rw [hreturned, hvisitor] at hstart
        cases hstart
  · rw [hreturned] at hret
    exact ⟨key', draw, refused, p, e, hvisitor, hrefuses, Prog.ret.inj hret⟩

/-- What a visitor of a key is answered, it is answered in the run of its own, or it was refused. -/
theorem Stands.returned {a : α} (hstands : host.Stands visitors key s turns w)
    (hfor : (visitors i).For key) (hreturned : w.Returned i a) :
    (host.own visitors s turns).Returned i a ∨ host.Refused visitors i a := by
  rcases hstands.each i hfor with ⟨-, hout⟩ | hin
  · exact Or.inr (hout.refused hfor hreturned)
  · rw [hreturned] at hin
    exact Or.inl (within_eq_ret hin.symm)

end Host

end Hosting
