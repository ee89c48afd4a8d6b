import Marbles.Federation.Events
import Marbles.Lib.Ratchet

/-!
# Receiving signed events

The receivers of federation assertions: a verifier pins one store and keeps a replay guard of its
own, which records a sequence number only after everything else about the assertion has been
verified. Any number of guards and verifiers are called in any order.

`guards_ratchet` says that they work as marks that only go up, one for each store at each of them.

A verifier checks the pin first and offers the sequence to its guard last. A refused assertion
therefore cannot move a mark. The statement quantifies over any family of receivers, so that it
also says that they do not disturb each other.
-/

namespace Marbles.Webhook

open Ratchet (Offer Marks)

/-! ### Guards and verifiers -/

namespace ReplayGuard

/-- `accept`, statement by statement: the sequence is written after both checks. -/
def acceptMut (storeId : String) (seq : Int) : Mutation ReplayGuard ReplayError Unit := do
  if seq ≤ 0 then throw (.invalidSequence storeId seq)
  let guard ← get
  match guard.last.find storeId with
  | some lastSeq => if seq ≤ lastSeq then throw (.replayed storeId seq lastSeq)
  | none => pure ()
  set (ReplayGuard.mk (guard.last.upsert storeId seq fun _ => seq))

/-- The last sequence accepted from a store. -/
def lastSeq (guard : ReplayGuard) (storeId : String) : Option Int := guard.last.find storeId

@[simp] theorem call_acceptMut (storeId : String) (seq : Int) (guard : ReplayGuard) :
    (acceptMut storeId seq).call guard = match guard.accept storeId seq with
      | .ok guard' => (.ok (), guard')
      | .error e => (.error e, guard) := by
  unfold acceptMut accept
  by_cases hpos : seq ≤ 0
  · rw [if_pos hpos, if_pos hpos]
    rfl
  · rw [if_neg hpos, if_neg hpos]
    simp only [Mutation.call_bind, Mutation.call_get]
    cases hfind : guard.last.find storeId with
    | none => rfl
    | some lastSeq =>
        dsimp only
        by_cases hle : seq ≤ lastSeq
        · rw [if_pos hle, if_pos hle]
          rfl
        · rw [if_neg hle, if_neg hle]
          rfl

/-- A sequence is accepted when it is positive and above the last one of its store. -/
theorem accept_isOk {guard : ReplayGuard} {storeId : String} {seq : Int} :
    (guard.accept storeId seq).isOk = true ↔
      0 < seq ∧ ∀ last ∈ guard.lastSeq storeId, last < seq := by
  cases h : guard.accept storeId seq with
  | ok guard' => exact iff_of_true rfl (accept_eq_ok.mp h).1
  | error e =>
      refine iff_of_false Bool.false_ne_true fun hc => ?_
      rw [accept_eq_ok.mpr ⟨hc, rfl⟩] at h
      cases h

/-- Accepting moves the mark of one store. -/
theorem lastSeq_accept {guard guard' : ReplayGuard} {storeId : String} {seq : Int}
    (h : guard.accept storeId seq = .ok guard') :
    guard'.lastSeq = Function.update guard.lastSeq storeId (some seq) := by
  obtain ⟨-, rfl⟩ := accept_eq_ok.mp h
  funext s
  rw [lastSeq, Table.find_upsert]
  by_cases hs : s = storeId
  · rw [if_pos hs, hs, Function.update_self]
    cases guard.last.find storeId <;> rfl
  · rw [if_neg hs, Function.update_of_ne hs]
    rfl

end ReplayGuard

namespace FederationVerifier

/-- `verify`, statement by statement: the guard is asked last. -/
def verifyMut (c : Crypto) (assertion : FederationAssertion) (now : Int) :
    Mutation FederationVerifier FederationError Unit := do
  let self ← get
  liftM (verifyFederationAssertion c assertion self.pin now)
  let (accepted, replay) := (ReplayGuard.acceptMut assertion.storeId assertion.seq).call self.replay
  set (FederationVerifier.mk self.pin replay)
  liftM (accepted.mapError FederationError.replay)

@[simp] theorem call_verifyMut (c : Crypto) (assertion : FederationAssertion) (now : Int)
    (self : FederationVerifier) : (verifyMut c assertion now).call self =
      match verifyFederationAssertion c assertion self.pin now with
      | .error e => (.error e, self)
      | .ok _ => match self.replay.accept assertion.storeId assertion.seq with
          | .ok replay => (.ok (), ⟨self.pin, replay⟩)
          | .error e => (.error (.replay e), self) := by
  simp only [verifyMut, Mutation.call_bind, Mutation.call_get, Mutation.call_liftM]
  cases verifyFederationAssertion c assertion self.pin now with
  | error e => rfl
  | ok _ =>
      simp only [ReplayGuard.call_acceptMut, Mutation.call_set]
      cases self.replay.accept assertion.storeId assertion.seq <;> rfl

end FederationVerifier

/-! ### Any number of them -/

/-- A guard of its own, or the one inside a verifier. -/
inductive Guard where
  | alone (index : Nat)
  | inside (verifier : Nat)
  deriving DecidableEq

/-- All guards of a process: those that stand alone, and those inside verifiers. -/
structure Guards where
  guards : Nat → ReplayGuard
  verifiers : Nat → FederationVerifier

/-- A call of `ReplayGuard::accept` or of `FederationVerifier::verify`. -/
inductive Call where
  | accept (guard : Nat) (storeId : String) (seq : Int)
  | verify (verifier : Nat) (assertion : FederationAssertion) (now : Int)

namespace Call

/-- Where a call arrives and which store it is about. -/
def about : Call → Guard × String
  | .accept guard storeId _ => (.alone guard, storeId)
  | .verify verifier assertion _ => (.inside verifier, assertion.storeId)

/-- The sequence a call offers. -/
def seq : Call → Int
  | .accept _ _ seq => seq
  | .verify _ assertion _ => assertion.seq

end Call

namespace Guards

variable (c : Crypto)

/-- No sequence has been accepted yet. -/
def opened (pins : Nat → PinnedKey) : Guards := ⟨fun _ => .new, fun i => .new (pins i)⟩

/-- One call, and what it answers. -/
def answer (self : Guards) : Call → Except FederationError Unit × Guards
  | .accept i storeId seq =>
      let (r, guard) := (ReplayGuard.acceptMut storeId seq).call (self.guards i)
      (r.mapError .replay, { self with guards := Function.update self.guards i guard })
  | .verify i assertion now =>
      let (r, verifier) := (FederationVerifier.verifyMut c assertion now).call (self.verifiers i)
      (r, { self with verifiers := Function.update self.verifiers i verifier })

/-- Any calls to any guards, in any order. -/
def run (calls : List Call) (self : Guards) : Guards :=
  Machine.run (fun call self => (self.answer c call).2) calls self

/-- The sequences that one receiver accepts for one store, in order. -/
def accepted (about : Guard × String) : List Call → Guards → List Int
  | [], _ => []
  | call :: calls, self =>
      let (r, self') := self.answer c call
      if call.about = about ∧ r.isOk then call.seq :: accepted about calls self'
      else accepted about calls self'

/-- The guard behind a name. -/
def replay (self : Guards) : Guard → ReplayGuard
  | .alone i => self.guards i
  | .inside i => (self.verifiers i).replay

/-- The last sequence a receiver accepted for a store. -/
def lastSeq (self : Guards) (about : Guard × String) : Option Int :=
  (self.replay about.1).lastSeq about.2

/-! ### As marks that only go up -/

variable {c} {pins : Nat → PinnedKey} {self : Guards}

/-- A call as an offer: whether it is sound does not depend on what was accepted before. -/
def offer (c : Crypto) (pins : Nat → PinnedKey) (call : Call) : Offer (Guard × String) Int where
  key := call.about
  value := call.seq
  sound := 0 < call.seq && match call with
    | .accept _ _ _ => true
    | .verify i assertion now => (verifyFederationAssertion c assertion (pins i) now).isOk

/-- What one call can do: it is refused and changes nothing, or it is accepted and moves the mark
of what it is about. -/
inductive Answered (self : Guards) (call : Call) (sound : Bool) :
    Except FederationError Unit × Guards → Prop
  | refused (e : FederationError)
      (h : ¬ (sound = true ∧ ∀ last ∈ self.lastSeq call.about, last < call.seq)) :
      Answered self call sound (.error e, self)
  | accepted (self' : Guards)
      (h : sound = true ∧ ∀ last ∈ self.lastSeq call.about, last < call.seq)
      (hpins : ∀ i, (self'.verifiers i).pin = (self.verifiers i).pin)
      (hlast : self'.lastSeq = Function.update self.lastSeq call.about (some call.seq)) :
      Answered self call sound (.ok (), self')

theorem replay_guards (self : Guards) (i : Nat) (guard : ReplayGuard) :
    replay { self with guards := Function.update self.guards i guard } =
      Function.update self.replay (.alone i) guard := by
  funext receiver
  cases receiver with
  | inside j => exact (Function.update_of_ne (by simp) ..).symm
  | alone j =>
      show Function.update self.guards i guard j = _
      by_cases hj : j = i
      · rw [hj, Function.update_self, Function.update_self]
      · rw [Function.update_of_ne hj, Function.update_of_ne (by simpa using hj)]
        rfl

theorem replay_verifiers (self : Guards) (i : Nat) (verifier : FederationVerifier) :
    replay { self with verifiers := Function.update self.verifiers i verifier } =
      Function.update self.replay (.inside i) verifier.replay := by
  funext receiver
  cases receiver with
  | alone j => exact (Function.update_of_ne (by simp) ..).symm
  | inside j =>
      show (Function.update self.verifiers i verifier j).replay = _
      by_cases hj : j = i
      · rw [hj, Function.update_self, Function.update_self]
      · rw [Function.update_of_ne hj, Function.update_of_ne (by simpa using hj)]
        rfl

/-- One guard accepts one sequence. -/
theorem lastSeq_accepted {self' : Guards} {receiver : Guard} {storeId : String} {seq : Int}
    {guard : ReplayGuard} (h : (self.replay receiver).accept storeId seq = .ok guard)
    (hreplay : self'.replay = Function.update self.replay receiver guard) :
    self'.lastSeq = Function.update self.lastSeq (receiver, storeId) (some seq) := by
  funext about
  obtain ⟨r, s⟩ := about
  rw [lastSeq, hreplay]
  by_cases hr : r = receiver
  · subst hr
    rw [Function.update_self, ReplayGuard.lastSeq_accept h]
    by_cases hs : s = storeId
    · rw [hs, Function.update_self, Function.update_self]
    · rw [Function.update_of_ne hs, Function.update_of_ne (by simpa using hs)]
      rfl
  · rw [Function.update_of_ne hr, Function.update_of_ne (by simp [hr])]
    rfl

@[simp] theorem isOk_iff {r : Except FederationError Unit} : r.isOk = true ↔ r = .ok () := by
  cases r with
  | ok _ => exact iff_of_true rfl rfl
  | error e => exact iff_of_false Bool.false_ne_true nofun

/-- What a guard says to a sequence. -/
theorem accept_cases (self : Guards) (guard : Guard) (storeId : String) (seq : Int) :
    (∃ replay, (self.replay guard).accept storeId seq = .ok replay ∧
      0 < seq ∧ ∀ last ∈ self.lastSeq (guard, storeId), last < seq) ∨
    (∃ e, (self.replay guard).accept storeId seq = .error e ∧
      ¬ (0 < seq ∧ ∀ last ∈ self.lastSeq (guard, storeId), last < seq)) := by
  have hok := @ReplayGuard.accept_isOk (self.replay guard) storeId seq
  cases h : (self.replay guard).accept storeId seq with
  | ok replay =>
      rw [h] at hok
      exact Or.inl ⟨replay, rfl, hok.mp rfl⟩
  | error e =>
      rw [h] at hok
      exact Or.inr ⟨e, rfl, fun hc => Bool.false_ne_true (hok.mpr hc)⟩

@[simp] theorem sound_accept {i : Nat} {storeId : String} {seq : Int} :
    (offer c pins (.accept i storeId seq)).sound = true ↔ 0 < seq := by
  show (decide (0 < seq) && true) = true ↔ _
  rw [Bool.and_true, decide_eq_true_iff]

@[simp] theorem sound_verify {i : Nat} {assertion : FederationAssertion} {now : Int} :
    (offer c pins (.verify i assertion now)).sound = true ↔
      0 < assertion.seq ∧ verifyFederationAssertion c assertion (pins i) now = .ok () := by
  show (decide (0 < assertion.seq) &&
    (verifyFederationAssertion c assertion (pins i) now).isOk) = true ↔ _
  rw [Bool.and_eq_true_iff, decide_eq_true_iff, isOk_iff]

theorem answer_answered (self : Guards) (hpins : ∀ i, (self.verifiers i).pin = pins i)
    (call : Call) : Answered self call (offer c pins call).sound (self.answer c call) := by
  -- A bare accept asks for a positive sequence above the last; verify asks for the assertion to
  -- hold as well, and consults the guard only then.
  cases call with
  | accept i storeId seq =>
      rw [answer, ReplayGuard.call_acceptMut]
      rcases self.accept_cases (.alone i) storeId seq with ⟨replay, h, hpos, hlast⟩ | ⟨e, h, hstop⟩
      · change (self.guards i).accept storeId seq = _ at h
        rw [h]
        exact .accepted _ ⟨sound_accept.mpr hpos, hlast⟩ (fun _ => rfl)
          (lastSeq_accepted h (self.replay_guards i replay))
      · change (self.guards i).accept storeId seq = _ at h
        rw [h]
        simp only [Function.update_eq_self]
        exact .refused _ fun hc => hstop ⟨sound_accept.mp hc.1, hc.2⟩
  | verify i assertion now =>
      rw [answer, FederationVerifier.call_verifyMut, hpins]
      cases hverify : verifyFederationAssertion c assertion (pins i) now with
      | error e =>
          simp only [Function.update_eq_self]
          refine .refused _ fun hc => ?_
          rw [(sound_verify.mp hc.1).2] at hverify
          cases hverify
      | ok _ =>
          rcases self.accept_cases (.inside i) assertion.storeId assertion.seq with
            ⟨replay, h, hpos, hlast⟩ | ⟨e, h, hstop⟩
          · change (self.verifiers i).replay.accept _ _ = _ at h
            rw [h]
            refine .accepted _ ⟨sound_verify.mpr ⟨hpos, hverify⟩, hlast⟩ (fun j => ?_)
              (lastSeq_accepted h (self.replay_verifiers i ⟨pins i, replay⟩))
            show (Function.update self.verifiers i ⟨pins i, replay⟩ j).pin = _
            by_cases hj : j = i
            · rw [hj, Function.update_self, hpins]
            · rw [Function.update_of_ne hj]
          · change (self.verifiers i).replay.accept _ _ = _ at h
            rw [h]
            simp only [Function.update_eq_self]
            exact .refused _ fun hc => hstop ⟨(sound_verify.mp hc.1).1, hc.2⟩

/-- One call is one offer to the marks. -/
theorem answer_step (hpins : ∀ i, (self.verifiers i).pin = pins i) (call : Call) :
    (self.answer c call).1.isOk = Ratchet.admits self.lastSeq (offer c pins call) ∧
      (self.answer c call).2.lastSeq = Ratchet.step self.lastSeq (offer c pins call) ∧
        ∀ i, ((self.answer c call).2.verifiers i).pin = pins i := by
  cases hanswer : self.answer c call with
  | mk r self' =>
      have h := answer_answered (c := c) self hpins call
      rw [hanswer] at h
      cases h with
      | refused e h =>
          have hrefused := Bool.eq_false_of_not_eq_true fun hc => h (Ratchet.admits_iff.mp hc)
          rw [Ratchet.step, hrefused]
          exact ⟨rfl, rfl, hpins⟩
      | accepted self' h hkept hlast =>
          have hadmits : Ratchet.admits self.lastSeq (offer c pins call) = true :=
            Ratchet.admits_iff.mpr h
          rw [Ratchet.step, hadmits, hlast]
          exact ⟨rfl, rfl, fun i => (hkept i).trans (hpins i)⟩

/-- A run of calls is a run of offers. -/
theorem accepted_eq (about : Guard × String) (calls : List Call)
    (hpins : ∀ i, (self.verifiers i).pin = pins i) : accepted c about calls self =
      Ratchet.accepted about (calls.map (offer c pins)) self.lastSeq := by
  induction calls generalizing self with
  | nil => rfl
  | cons call calls ih =>
      obtain ⟨hok, hlast, hkept⟩ := answer_step (c := c) hpins call
      rw [List.map_cons, Ratchet.accepted, ← hok, ← hlast, ← ih hkept]
      rfl

theorem pins_run (calls : List Call) (hpins : ∀ i, (self.verifiers i).pin = pins i) :
    ∀ i, ((run c calls self).verifiers i).pin = pins i :=
  Machine.invariant (fun self : Guards => ∀ i, (self.verifiers i).pin = pins i)
    (fun _ call h => (answer_step h call).2.2) calls hpins

/-- A sequence that is accepted is sound and goes forward. -/
theorem answer_isOk (hpins : ∀ i, (self.verifiers i).pin = pins i) (call : Call) :
    (self.answer c call).1 = .ok () ↔ (offer c pins call).sound = true ∧
      ∀ last ∈ self.lastSeq call.about, last < call.seq := by
  rw [← isOk_iff, (answer_step hpins call).1, Ratchet.admits_iff]
  rfl

/-- What a verifier accepts: an assertion that its pin vouches for, with a sequence that goes
forward. -/
theorem verify_isOk (hpins : ∀ i, (self.verifiers i).pin = pins i) (i : Nat)
    (assertion : FederationAssertion) (now : Int) :
    (self.answer c (.verify i assertion now)).1 = .ok () ↔ assertion.Holds c (pins i) now ∧
      0 < assertion.seq ∧ ∀ last ∈ self.lastSeq (.inside i, assertion.storeId),
        last < assertion.seq := by
  rw [answer_isOk hpins, sound_verify, verifyFederationAssertion_eq_ok, and_comm (a := 0 < _),
    and_assoc]
  rfl

end Guards

/-- However often they are called, each receiver accepts positive and ever greater sequences of each
store, and what it accepts of one store is what it would accept without the calls about others. A
verifier accepts what its pin vouches for and goes forward; a call that is refused changes nothing.
A sequence is recorded last, after everything else about its assertion was checked. -/
theorem guards_ratchet (c : Crypto) (pins : Nat → PinnedKey) (calls : List Call) :
    (∀ about, (∀ seq ∈ Guards.accepted c about calls (.opened pins), 0 < seq) ∧
      (Guards.accepted c about calls (.opened pins)).Pairwise (· < ·)) ∧
    (∀ about, Guards.accepted c about (calls.filter fun call => call.about = about)
      (.opened pins) = Guards.accepted c about calls (.opened pins)) ∧
    let self := Guards.run c calls (.opened pins)
    (∀ i assertion now, (self.answer c (.verify i assertion now)).1 = .ok () ↔
      assertion.Holds c (pins i) now ∧ 0 < assertion.seq ∧
        ∀ last ∈ self.lastSeq (.inside i, assertion.storeId), last < assertion.seq) ∧
    ∀ call, (∀ about, call.about ≠ about →
        (self.answer c call).2.lastSeq about = self.lastSeq about) ∧
      ∀ e, (self.answer c call).1 = .error e → (self.answer c call).2 = self := by
  have hpins : ∀ i, ((Guards.opened pins).verifiers i).pin = pins i := fun _ => rfl
  have hrun := Guards.pins_run calls hpins (c := c)
  -- Each guard is a ratchet for each store it is asked about, and what the ratchets guarantee is
  -- read back.
  refine ⟨fun about => ?_, fun about => ?_, Guards.verify_isOk hrun, fun call => ?_⟩
  · rw [Guards.accepted_eq about calls hpins]
    refine ⟨fun seq hseq => ?_, Ratchet.accepted_pairwise⟩
    obtain ⟨⟨offer, hoffer, hsound, rfl⟩, -⟩ := Ratchet.above_of_mem_accepted hseq
    obtain ⟨call, -, rfl⟩ := List.mem_map.mp hoffer
    exact of_decide_eq_true (Bool.and_eq_true_iff.mp hsound).1
  · rw [Guards.accepted_eq about _ hpins, Guards.accepted_eq about calls hpins]
    have hfilter := @Ratchet.accepted_filter _ _ _ _ about (Guards.opened pins).lastSeq _
      (calls.map (Guards.offer c pins)) rfl
    rwa [List.filter_map] at hfilter
  · refine ⟨fun about hne => ?_, fun e he => ?_⟩
    · rw [(Guards.answer_step hrun call).2.1]
      exact Ratchet.step_ne (Ne.symm hne)
    · have h := Guards.answer_answered (c := c) (Guards.run c calls (.opened pins)) hrun call
      cases hanswer : (Guards.run c calls (.opened pins)).answer c call with
      | mk r self' =>
          rw [hanswer] at h he
          cases h with
          | refused e h => rfl
          | accepted self' h hkept hlast => cases he

end Marbles.Webhook
