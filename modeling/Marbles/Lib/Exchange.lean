import Mathlib.Data.List.Basic
import Marbles.Lib.Machine

/-!
# Calls over a network that loses messages

Callers post requests to one server and wait. A request is handled at most once and at any
time after it was posted, also when its caller has stopped waiting. A request and a reply
can be lost, and calls interleave in any order. Each call keeps what its handling did to the
store of the server.
-/

universe u

/-- The two parties. -/
structure Exchange (Req Env Rep View Res σ : Type) where
  /-- Handle a request. No reply: the connection is dropped. -/
  handle : Env → Req → σ → Option Rep × σ
  /-- With this reply on its way, or none, a caller can come to see this. -/
  sees : Option Rep → View → Bool
  /-- What a caller makes of what it sees. -/
  conclude : Req → View → Res

namespace Exchange

variable {Req Env Rep View Res σ : Type}

structure Call (Req Rep Res σ : Type) where
  request : Req
  /-- The request is on its way. -/
  posted : Bool
  /-- The reply on its way. -/
  reply : Option Rep
  /-- The store before and after the request was handled, if it was. -/
  effect : Option (σ × σ)
  /-- What the caller came to. -/
  result : Option Res

structure Net (Req Rep Res σ : Type) where
  store : σ
  calls : List (Call Req Rep Res σ)

/-- A server nobody has called yet. -/
def idle (store : σ) : Net Req Rep Res σ := ⟨store, []⟩

inductive Event (Req Env View : Type) where
  | post (request : Req)
  | loseRequest (i : Nat)
  | handle (i : Nat) (env : Env)
  | loseReply (i : Nat)
  /-- The caller stops waiting. -/
  | conclude (i : Nat) (view : View)

/-- Change one call. -/
def Net.update (s : Net Req Rep Res σ) (i : Nat)
    (f : Call Req Rep Res σ → Call Req Rep Res σ) : Net Req Rep Res σ :=
  { s with calls := s.calls.modify i f }

/-- An event that cannot happen changes nothing. Requests, answers and deadlines may so come in any
order. -/
def step (x : Exchange Req Env Rep View Res σ) (event : Event Req Env View)
    (s : Net Req Rep Res σ) : Net Req Rep Res σ :=
  match event with
  | .post request => { s with calls := s.calls ++ [⟨request, true, none, none, none⟩] }
  | .loseRequest i => s.update i fun call => { call with posted := false }
  | .handle i env =>
      match s.calls[i]? with
      | none => s
      | some call =>
          if call.posted then
            let (reply, store) := x.handle env call.request s.store
            { store
              calls := s.calls.set i
                { call with posted := false, reply, effect := some (s.store, store) } }
          else s
  | .loseReply i => s.update i fun call => { call with reply := none }
  | .conclude i view => s.update i fun call =>
      if call.result.isNone && x.sees call.reply view then
        { call with reply := none, result := some (x.conclude call.request view) }
      else call

/-- The state after a run from a server nobody has called. -/
def after (x : Exchange Req Env Rep View Res σ) (events : List (Event Req Env View))
    (store : σ) : Net Req Rep Res σ := Machine.run x.step events (idle store)

/-! ### When a caller is right that nothing was done

A caller that gives up has lost touch with its request, and whether the request was handled is up
to the network. If the network delivers in time, giving up means that the request went nowhere:
had it been handled, its caller would have seen the reply. -/

/-- The network and the server keep time for the requests that `writes`: none is handled once its
caller has stopped waiting, each that is handled gets a `usable` reply, no such reply is lost, and
a caller that stops waiting while a reply is on its way has been shown that reply. -/
def Timely (x : Exchange Req Env Rep View Res σ) (writes : Req → Prop) (usable : Rep → Prop)
    (shows : Rep → View → Prop) (s : Net Req Rep Res σ) : Event Req Env View → Prop
  | .handle i env => ∀ call, s.calls[i]? = some call → writes call.request → call.posted = true →
      call.result = none ∧ ∃ reply, (x.handle env call.request s.store).1 = some reply ∧
        usable reply
  | .loseReply i => ∀ call, s.calls[i]? = some call → writes call.request → call.reply = none
  | .conclude i view => ∀ call reply, s.calls[i]? = some call → writes call.request →
      call.result = none → call.reply = some reply → shows reply view
  | _ => True

/-- A request that was handled has its reply on the way, or its caller does not deny it. -/
def Call.Settled (writes : Req → Prop) (usable : Rep → Prop) (denies : Req → Res → Prop)
    (call : Call Req Rep Res σ) : Prop :=
  writes call.request → call.effect.isSome = true →
    (call.result = none ∧ ∃ reply, call.reply = some reply ∧ usable reply) ∨
      ∃ r, call.result = some r ∧ ¬ denies call.request r

variable {x : Exchange Req Env Rep View Res σ} {writes : Req → Prop} {usable : Rep → Prop}
  {shows : Rep → View → Prop} {denies : Req → Res → Prop}

/-- Every call of the network is settled. -/
def Settled (writes : Req → Prop) (usable : Rep → Prop) (denies : Req → Res → Prop)
    (s : Net Req Rep Res σ) : Prop :=
  ∀ (i : Nat) (call : Call Req Rep Res σ), s.calls[i]? = some call →
    call.Settled writes usable denies

/-- A caller that denies a write is right: the write was never handled. -/
theorem Call.Settled.effect {call : Call Req Rep Res σ} (h : call.Settled writes usable denies)
    (hwrites : writes call.request) {r : Res} (hresult : call.result = some r)
    (hdenies : denies call.request r) : call.effect = none := by
  by_contra heffect
  rcases h hwrites (Option.isSome_iff_ne_none.mpr heffect) with ⟨hnone, -⟩ | ⟨r', hr', hnot⟩
  · rw [hresult] at hnone
    cases hnone
  · obtain rfl := Option.some.inj (hresult.symm.trans hr')
    exact hnot hdenies

theorem settled_update {s : Net Req Rep Res σ} (hs : Settled writes usable denies s) {i : Nat}
    {f : Call Req Rep Res σ → Call Req Rep Res σ}
    (hf : ∀ call, s.calls[i]? = some call → call.Settled writes usable denies →
      (f call).Settled writes usable denies) : Settled writes usable denies (s.update i f) := by
  intro j call hcall
  rw [Net.update, List.getElem?_modify] at hcall
  obtain ⟨old, hold, rfl⟩ := Option.map_eq_some_iff.mp hcall
  split
  · rename_i hij
    subst hij
    exact hf old hold (hs i old hold)
  · exact hs j old hold

/-- What one event preserves. -/
theorem settled_step (hshows : ∀ request reply view, writes request → usable reply →
      shows reply view → ¬ denies request (x.conclude request view))
    {s : Net Req Rep Res σ} (event : Event Req Env View) (hs : Settled writes usable denies s)
    (htimely : x.Timely writes usable shows s event) :
    Settled writes usable denies (x.step event s) := by
  cases event with
  | post request =>
      intro i call hcall
      rcases List.mem_append.mp (List.mem_of_getElem? hcall) with hold | hnew
      · obtain ⟨j, hj⟩ := List.mem_iff_getElem?.mp hold
        exact hs j call hj
      · rw [List.mem_singleton.mp hnew]
        exact nofun
  | loseRequest i => exact settled_update hs fun call _ hcall => hcall
  | loseReply i =>
      refine settled_update hs fun call hi hcall hwrites heffect => ?_
      have hnone := htimely call hi hwrites
      rcases hcall hwrites heffect with ⟨-, reply, hreply, -⟩ | hsettled
      · rw [hnone] at hreply
        cases hreply
      · exact Or.inr hsettled
  | handle i env =>
      rw [step]
      cases hi : s.calls[i]? with
      | none => exact hs
      | some call =>
          simp only
          split
          · rename_i hposted
            intro j call' hcall'
            rw [List.getElem?_set] at hcall'
            split at hcall'
            · split at hcall'
              · -- its caller still waits, and the reply is on its way
                cases hcall'
                exact fun hwrites _ => Or.inl (htimely call hi hwrites hposted)
              · cases hcall'
            · exact hs j call' hcall'
          · exact hs
  | conclude i view =>
      refine settled_update hs fun call hi hcall => ?_
      split
      · rename_i hwaits
        rw [Bool.and_eq_true, Option.isNone_iff_eq_none] at hwaits
        intro hwrites heffect
        rcases hcall hwrites heffect with ⟨-, reply, hreply, husable⟩ | ⟨r, hr, -⟩
        · exact Or.inr ⟨_, rfl, hshows _ reply view hwrites husable
            (htimely call reply hi hwrites hwaits.1 hreply)⟩
        · rw [hwaits.1] at hr
          cases hr
      · exact hcall

/-- What a whole run preserves. -/
theorem settled_after (hshows : ∀ request reply view, writes request → usable reply →
      shows reply view → ¬ denies request (x.conclude request view))
    (events : List (Event Req Env View)) (store : σ)
    (htimely : Machine.Meets x.step (x.Timely writes usable shows) events (idle store)) :
    Settled writes usable denies (x.after events store) :=
  Machine.invariant_of_meets (Settled writes usable denies)
    (fun _ event hs hevent => settled_step hshows event hs hevent) events
    (fun _ _ h => by cases h) htimely

end Exchange
