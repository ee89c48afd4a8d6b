import Marbles.Client.Session
import Marbles.Lib.Machine

/-!
# Signed in

`session_sound` holds in every run of the processes of `oidc.rs`, whatever fails and whoever dies:
the saved profile is never torn, two processes never refresh it at once, and a refresh sends the
secrets of a profile that somebody signed in with to the issuer of that profile.

`Turn` says once what a statement of a process can do to the lock and the files.

The invariant is kept phase by phase: what a process holds in memory agrees with what the file has
as long as it holds the lock. `Turn` abstracts from what the statements compute, so the invariant
is checked against kinds of turns and not against every statement.
-/

namespace Marbles.Oidc

/-! ### What a statement can do -/

/-- The next stage, when there is nothing to be written. -/
inductive Stage.Next : Stage → Stage → Prop
  | naming : Next .makingDir .naming
  | creating (temp : String) : Next .naming (.creating temp)
  | installing (temp : String) : Next (.syncing temp) (.installing temp)

/-- What the next statement of a process can do. An inversion of the statements: what follows about
runs is by cases on it and unfolds none of them. -/
inductive Turn (w : World) (i : Nat) (os : Os) : World → Prop
  | stay : Turn w i os w
  | fails (message : String)
      (hfault : ∀ cfg stage, w.phase i = .saving cfg stage → os.error.isSome = true) :
      Turn w i os (w.returns i (.error message))
  | returns {cfg : ClientConfig} (hphase : w.phase i = .deciding cfg) :
      Turn w i os (w.returns i (.ok cfg))
  | locks {job : Job} (hphase : w.phase i = .waiting job) (hfree : w.holder = none) :
      Turn w i os ({ w with holder := some i }.moves i job.entered)
  | rereads {cfg latest : ClientConfig} (hphase : w.phase i = .locked cfg)
      (hfile : w.file.bind Contents.parse = some latest) :
      Turn w i os (w.moves i (.deciding latest))
  | finds {cfg : ClientConfig} (hphase : w.phase i = .locked cfg) (hfile : w.file = none) :
      Turn w i os (w.moves i (.deciding cfg))
  | asks {cfg : ClientConfig} (hphase : w.phase i = .deciding cfg) :
      Turn w i os (w.moves i (.requesting cfg))
  | abandons {cfg : ClientConfig} {stage : Stage} (hphase : w.phase i = .saving cfg stage)
      (hfault : os.error.isSome = true ∨ ∃ temp, stage = .creating temp ∧
        (w.temps temp).isSome = true)
      (temp message : String) : Turn w i os (w.abandons i temp os message)
  | proceeds {cfg : ClientConfig} {stage next : Stage} (hphase : w.phase i = .saving cfg stage)
      (hnext : stage.Next next) : Turn w i os (w.moves i (.saving cfg next))
  | creates {cfg : ClientConfig} {temp : String} (hphase : w.phase i = .saving cfg
    (.creating temp)) :
      Turn w i os ({ w with temps := Function.update w.temps temp (some .torn) }.moves i
        (.saving cfg (.writing temp)))
  | writes {cfg : ClientConfig} {temp : String} (hphase : w.phase i = .saving cfg (.writing temp)) :
      Turn w i os ({ w with temps := Function.update w.temps temp (some (.whole cfg)) }.moves i
        (.saving cfg (.syncing temp)))
  | installs {cfg : ClientConfig} {temp : String}
      (hphase : w.phase i = .saving cfg (.installing temp)) :
      Turn w i os ({ w with
        file := w.temps temp
        temps := Function.update w.temps temp none }.moves i (.saving cfg (.settling temp)))
  | settles {cfg : ClientConfig} {temp : String}
      (hphase : w.phase i = .saving cfg (.settling temp)) : Turn w i os (w.returns i (.ok cfg))

theorem turn_save {w : World} {i : Nat} {cfg : ClientConfig} {stage : Stage}
    (hphase : w.phase i = .saving cfg stage) (dir : String) (os : Os) :
    Turn w i os (w.save dir i cfg os stage) := by
  have hfault : ∀ {e : String}, os.error = some e → os.error.isSome = true := fun h => by
    rw [h]
    rfl
  -- Each system call of save_at either fails, and the process gives up the lock and leaves, or
  -- takes the save to its next stage.
  cases stage with
  | makingDir =>
      simp only [World.save]
      split
      · rename_i he
        exact .fails _ fun _ _ _ => hfault he
      · exact .proceeds hphase .naming
  | naming =>
      simp only [World.save]
      split
      · rename_i he
        exact .fails _ fun _ _ _ => hfault he
      · exact .proceeds hphase (.creating _)
  | creating temp =>
      simp only [World.save]
      split
      · rename_i he
        refine .abandons hphase ?_ ..
        rcases Option.or_eq_some_iff.mp he with he | ⟨-, he⟩
        · exact Or.inl (hfault he)
        · obtain ⟨contents, hcontents, -⟩ := Option.map_eq_some_iff.mp he
          exact Or.inr ⟨temp, rfl, by rw [hcontents]; rfl⟩
      · exact .creates hphase
  | writing temp =>
      simp only [World.save]
      split
      · rename_i he
        exact .abandons hphase (Or.inl (hfault he)) ..
      · exact .writes hphase
  | syncing temp =>
      simp only [World.save]
      split
      · rename_i he
        exact .abandons hphase (Or.inl (hfault he)) ..
      · exact .proceeds hphase (.installing _)
  | installing temp =>
      simp only [World.save]
      split
      · rename_i he
        exact .abandons hphase (Or.inl (hfault he)) ..
      · exact .installs hphase
  | settling temp =>
      simp only [World.save]
      split
      · rename_i he
        exact .abandons hphase (Or.inl (hfault he)) ..
      · exact .settles hphase

theorem turn_advance (dir : String) (w : World) (i : Nat) (os : Os) :
    Turn w i os (w.advance dir i os) := by
  -- By the phase of the process: waiting for the lock, reading the file again, deciding, or in the
  -- midst of a save.
  unfold World.advance
  split
  · rename_i job hphase
    have hfails : ∀ cfg stage, w.phase i = .saving cfg stage → os.error.isSome = true :=
      fun _ _ h => by rw [hphase] at h; cases h
    unfold World.lock
    split
    · exact .fails _ hfails
    · split
      · rename_i hfree
        exact .locks hphase hfree
      · exact .stay
  · rename_i cfg hphase
    have hfails : ∀ cfg stage, w.phase i = .saving cfg stage → os.error.isSome = true :=
      fun _ _ h => by rw [hphase] at h; cases h
    unfold World.reread
    split
    · exact .fails _ hfails
    · rename_i hnone
      exact .finds hphase hnone
    · rename_i contents hsome
      split
      · exact .fails _ hfails
      · rename_i latest hparse
        split
        · exact .fails _ hfails
        · exact .rereads hphase (by rw [hsome]; exact hparse)
  · rename_i cfg hphase
    unfold World.decide
    split
    · exact .returns hphase
    · split
      · exact .fails _ fun _ _ h => by rw [hphase] at h; cases h
      · exact .asks hphase
  · rename_i cfg stage hphase
    exact turn_save hphase dir os
  all_goals exact .stay

/-! ### Where the processes are -/

/-- What has been written of the temporary file. -/
def Staged (w : World) (cfg : ClientConfig) : Stage → Prop
  | .syncing temp | .installing temp => w.temps temp = some (.whole cfg)
  | _ => True

/-- What holds of the lock and the files while a process is there. Whoever decides, requests or
saves for the file holds the lock, so the file is as it was read. -/
def Fits (w : World) (i : Nat) : Phase → Prop
  | .idle | .returned _ => True
  | .waiting (.login cfg) => cfg.persist = true
  | .waiting (.refresh _) => w.file.isSome = true
  | .locked _ => w.holder = some i ∧ w.file.isSome = true
  | .deciding cfg | .requesting cfg =>
      cfg.persist = true → w.holder = some i ∧ w.file.bind Contents.parse = some cfg
  | .saving cfg stage => cfg.persist = true ∧ w.holder = some i ∧ Staged w cfg stage

/-- Every process is where the file and the lock allow it to be. -/
def Guarded (w : World) : Prop := ∀ i, Fits w i (w.phase i)

/-- A process that does not hold the lock only needs the profile to be there. -/
theorem Fits.other {w w' : World} {i j : Nat} {phase : Phase} (h : Fits w j phase)
    (hij : w.holder = some i) (hji : j ≠ i) (hfile : w.file.isSome = true → w'.file.isSome = true) :
    Fits w' j phase := by
  have hnot : w.holder ≠ some j := by
    rw [hij]
    exact fun h => hji (Option.some.inj h).symm
  cases phase with
  | idle | returned result => trivial
  | waiting job =>
      cases job with
      | refresh cfg => exact hfile h
      | login cfg => exact h
  | locked cfg => exact absurd h.1 hnot
  | deciding cfg | requesting cfg => exact fun hp => absurd (h hp).1 hnot
  | saving cfg stage => exact absurd h.2.1 hnot

/-- No process fits where the lock is free unless it does not need it. -/
theorem Fits.free {w w' : World} {j : Nat} {phase : Phase} (h : Fits w j phase)
    (hfree : w.holder = none) (hfile : w'.file = w.file) : Fits w' j phase := by
  have hnot : w.holder ≠ some j := by rw [hfree]; exact nofun
  cases phase with
  | idle | returned result => trivial
  | waiting job =>
      cases job with
      | refresh cfg =>
          change w'.file.isSome = true
          rw [hfile]
          exact h
      | login cfg => exact h
  | locked cfg => exact absurd h.1 hnot
  | deciding cfg | requesting cfg => exact fun hp => absurd (h hp).1 hnot
  | saving cfg stage => exact absurd h.2.1 hnot

/-- Another process is not affected when one lets go of the lock. -/
theorem Fits.unlock {w : World} {i j : Nat} {phase : Phase} (h : Fits w j phase) (hji : j ≠ i) :
    Fits (w.unlock i) j phase := by
  have hkept : w.holder = some j → (w.unlock i).holder = some j := by
    intro hholder
    change w.holder.filter _ = _
    rw [hholder]
    exact if_pos (decide_eq_true hji)
  cases phase with
  | idle | returned result => trivial
  | waiting job => cases job <;> exact h
  | locked cfg => exact ⟨hkept h.1, h.2⟩
  | deciding cfg | requesting cfg => exact fun hp => ⟨hkept (h hp).1, (h hp).2⟩
  | saving cfg stage =>
      refine ⟨h.1, hkept h.2.1, ?_⟩
      cases stage <;> exact h.2.2

namespace Guarded

variable {w : World} {i : Nat}

theorem start (file : Option Contents) : Guarded (.start file) := fun _ => trivial

/-- One process is somewhere else. -/
theorem change {w' : World} {phase : Phase} (hphase : w'.phase = Function.update w.phase i phase)
    (hself : Fits w' i phase) (hothers : ∀ j, j ≠ i → Fits w' j (w.phase j)) : Guarded w' := by
  intro j
  rw [hphase]
  by_cases hji : j = i
  · subst hji
    rw [Function.update_self]
    exact hself
  · rw [Function.update_of_ne hji]
    exact hothers j hji

theorem moves (h : Guarded w) {phase : Phase} (hself : Fits w i phase) :
    Guarded (w.moves i phase) := by
  refine change rfl ?_ fun j hj => ?_
  · cases phase with
    | waiting job => cases job <;> exact hself
    | saving cfg stage => cases stage <;> exact hself
    | _ => exact hself
  · have := h j
    exact this

theorem returns (h : Guarded w) (result : Except String ClientConfig) :
    Guarded (w.returns i result) :=
  change rfl trivial fun j hj => (h j).unlock hj

/-- The process that holds the lock has changed the files and is somewhere else. -/
theorem held {w' : World} {phase : Phase} (h : Guarded w) (hholder : w.holder = some i)
    (hphase : w'.phase = Function.update w.phase i phase) (hself : Fits w' i phase)
    (hfile : w.file.isSome = true → w'.file.isSome = true) : Guarded w' :=
  change hphase hself fun j hj => (h j).other hholder hj hfile

theorem turn (h : Guarded w) {w' : World} {os : Os} (hturn : Turn w i os w') : Guarded w' := by
  have hfits := h i
  -- A process in the midst of a save holds the lock, so no turn of another can take the file or its
  -- temporary file from it.
  cases hturn with
  | stay => exact h
  | fails message hfault => exact h.returns _
  | returns hphase => exact h.returns _
  | locks hphase hfree =>
      rename_i job
      rw [hphase] at hfits
      refine change rfl ?_ fun j _ => (h j).free hfree rfl
      cases job with
      | refresh cfg => exact ⟨rfl, hfits⟩
      | login cfg => exact ⟨hfits, rfl, trivial⟩
  | rereads hphase hfile =>
      rw [hphase] at hfits
      exact h.moves fun _ => ⟨hfits.1, hfile⟩
  | finds hphase hfile =>
      rw [hphase] at hfits
      have hthere := hfits.2
      rw [hfile] at hthere
      cases hthere
  | asks hphase =>
      rw [hphase] at hfits
      exact h.moves hfits
  | abandons hphase hfault temp message =>
      rw [hphase] at hfits
      refine @held w i _ (.returned (.error message)) h hfits.2.1 rfl trivial fun hfile => ?_
      unfold World.abandons
      exact hfile
  | proceeds hphase hnext =>
      rw [hphase] at hfits
      obtain ⟨hpersist, hholder, hstaged⟩ := hfits
      refine h.moves ⟨hpersist, hholder, ?_⟩
      cases hnext with
      | naming | creating => trivial
      | installing => exact hstaged
  | creates hphase =>
      rw [hphase] at hfits
      exact h.held hfits.2.1 rfl ⟨hfits.1, hfits.2.1, trivial⟩ id
  | writes hphase =>
      rw [hphase] at hfits
      exact h.held hfits.2.1 rfl ⟨hfits.1, hfits.2.1, Function.update_self ..⟩ id
  | installs hphase =>
      rename_i cfg temp
      rw [hphase] at hfits
      obtain ⟨hpersist, hholder, hstaged⟩ := hfits
      refine h.held hholder rfl ⟨hpersist, hholder, trivial⟩ fun _ => ?_
      change (w.temps temp).isSome = true
      rw [hstaged]
      rfl
  | settles hphase => exact h.returns _

end Guarded

/-! ### The configurations -/

/-- A refresh changes the tokens and when they expire, and nothing else. -/
theorem refreshed_eq {cfg cfg' : ClientConfig} {timeoutMs : Nat} {now : Int} {reply : Reply}
    (h : refreshed cfg timeoutMs now reply = .ok cfg') :
    ∃ refreshToken idToken expiresAt, cfg' = { cfg with refreshToken, idToken, expiresAt } := by
  unfold refreshed at h
  split at h
  · cases h
  · cases h
  · cases h
  · split at h
    · split at h
      · cases h
      · unfold applyRefresh at h
        split at h
        · cases h
        · split at h
          · cases h
          · split at h
            · cases h
            · cases h
              exact ⟨_, _, _, rfl⟩
    · cases h

theorem refreshed_persist {cfg cfg' : ClientConfig} {timeoutMs : Nat} {now : Int} {reply : Reply}
    (h : refreshed cfg timeoutMs now reply = .ok cfg') : cfg'.persist = cfg.persist := by
  obtain ⟨_, _, _, rfl⟩ := refreshed_eq h
  rfl

theorem exchanged_persist {args : LoginArgs} {now : Int} {reply : Reply} {cfg : ClientConfig}
    (h : exchanged args now reply = .ok cfg) : cfg.persist = true := by
  unfold exchanged at h
  split at h
  · cases h
  · cases h
  · split at h
    · split at h
      · cases h
      · obtain ⟨_, -, h⟩ := Except.bind_eq_ok.mp h
        split at h
        · cases h
        · split at h
          · cases h
          · cases h
            rfl
    · cases h

theorem envConfig_persist {env : String → Option String} {cfg : ClientConfig}
    (h : envConfig env = .ok (some cfg)) : cfg.persist = false := by
  unfold envConfig at h
  split at h
  · cases h
  · split at h
    · cases h
    · obtain ⟨_, -, h⟩ := Except.bind_eq_ok.mp h
      obtain ⟨_, -, h⟩ := Except.bind_eq_ok.mp h
      cases h
      rfl

theorem Guarded.step {w : World} (h : Guarded w) (env : Setting) (event : Event) :
    Guarded (Oidc.step env event w) := by
  -- The turns have their own lemma. An answer or a login hands a process a configuration; only a
  -- saved one puts it on the way to the file.
  cases event with
  | advance i os => exact h.turn (turn_advance ..)
  | exit i => exact Guarded.change rfl trivial fun j hj => (h j).unlock hj
  | call i vars os =>
      change Guarded (w.call env.path i vars os)
      unfold World.call
      split
      · split
        · exact h.moves trivial
        · rename_i cfg hcfg
          refine h.moves fun hpersist => ?_
          rw [envConfig_persist hcfg] at hpersist
          cases hpersist
        · split
          · exact h.moves trivial
          · exact h
          · rename_i hsome
            split
            · exact h.moves trivial
            · refine h.moves ?_
              change w.file.isSome = true
              rw [hsome]
              rfl
      · exact h
  | login i args now reply =>
      change Guarded (w.login i args now reply)
      unfold World.login
      split
      · split
        · exact h.moves trivial
        · rename_i cfg hcfg
          exact h.moves (exchanged_persist hcfg)
      · exact h
  | answer i now reply =>
      change Guarded (w.answer env.timeoutMs i now reply)
      unfold World.answer
      split
      · rename_i cfg hphase
        have hfits := h i
        rw [hphase] at hfits
        split
        · exact h.returns _
        · rename_i cfg' hcfg'
          split
          · rename_i hpersist
            exact h.moves ⟨hpersist, (hfits (refreshed_persist hcfg' ▸ hpersist)).1, trivial⟩
          · exact h.returns _
      · exact h

/-- The file that is installed is what was written to it. -/
theorem parse_staged {w : World} {cfg saved : ClientConfig} {temp : String}
    (hpersist : cfg.persist = true) (hstaged : Staged w cfg (.installing temp))
    (h : (w.temps temp).bind Contents.parse = some saved) : saved = cfg := by
  rw [show w.temps temp = _ from hstaged] at h
  obtain rfl : { cfg with persist := true } = saved := Option.some.inj h
  rw [← hpersist]

/-! ### Where the secrets go -/

/-- The configuration a process works with. -/
def Phase.config : Phase → Option ClientConfig
  | .waiting (.refresh cfg) | .waiting (.login cfg) | .locked cfg | .deciding cfg | .requesting cfg
  | .saving cfg _ | .returned (.ok cfg) => some cfg
  | _ => none

/-- In the run, a process that had sent its request with `cfg` was given this answer. -/
def Answered (env : Setting) (file : Option Contents) (events : List Event) (cfg : ClientConfig)
    (now : Int) (reply : Reply) : Prop :=
  ∃ before i after, events = before ++ .answer i now reply :: after ∧
    (Machine.run (step env) before (.start file)).phase i = .requesting cfg

/-- `cfg'` is `cfg` after some refreshes, each with what the run has answered to the one before. -/
inductive Descends (env : Setting) (file : Option Contents) (events : List Event)
    (cfg : ClientConfig) : ClientConfig → Prop
  | refl : Descends env file events cfg cfg
  | refresh {cfg₁ cfg' : ClientConfig} {now : Int} {reply : Reply}
      (h : Descends env file events cfg cfg₁) (hanswered : Answered env file events cfg₁ now reply)
      (hok : refreshed cfg₁ env.timeoutMs now reply = .ok cfg') : Descends env file events cfg cfg'

/-- What a refresh leaves: all but the tokens. -/
def ClientConfig.profile (cfg : ClientConfig) : String × String × String × String × String :=
  (cfg.url, cfg.issuer, cfg.clientId, cfg.clientSecret, cfg.redirectUri)

theorem Descends.profile {env : Setting} {file : Option Contents} {events : List Event}
    {cfg cfg' : ClientConfig} (h : Descends env file events cfg cfg') :
    cfg'.profile = cfg.profile := by
  induction h with
  | refl => rfl
  | refresh h hanswered hok ih =>
      obtain ⟨_, _, _, rfl⟩ := refreshed_eq hok
      exact ih

/-- Where configurations come from: the profile at the beginning, the logins and the
environments. -/
def Source (file : Option Contents) (events : List Event) (cfg : ClientConfig) : Prop :=
  file.bind Contents.parse = some cfg ∨
    (∃ i args now reply, .login i args now reply ∈ events ∧ exchanged args now reply = .ok cfg) ∨
    ∃ i vars os, .call i vars os ∈ events ∧ envConfig vars = .ok (some cfg)

/-- Every configuration satisfies `P`, and the profile is as it was or was saved. -/
structure Owned (P : ClientConfig → Prop) (file : Option Contents) (w : World) : Prop where
  held : ∀ i, ∀ cfg ∈ (w.phase i).config, P cfg
  saved : ∀ cfg, w.file.bind Contents.parse = some cfg → P cfg
  whole : w.file = file ∨ ∃ cfg, w.file = some (.whole cfg) ∧ P cfg

namespace Owned

variable {P : ClientConfig → Prop} {file : Option Contents} {w : World} {i : Nat}

/-- A process is somewhere else, with a configuration that satisfies `P`. -/
theorem change {w' : World} {phase : Phase} (h : Owned P file w) (hfile : w'.file = w.file)
    (hphase : w'.phase = Function.update w.phase i phase) (hself : ∀ cfg ∈ phase.config, P cfg) :
    Owned P file w' := by
  refine ⟨fun j cfg hcfg => ?_, hfile ▸ h.saved, hfile ▸ h.whole⟩
  rw [hphase] at hcfg
  by_cases hji : j = i
  · subst hji
    rw [Function.update_self] at hcfg
    exact hself cfg hcfg
  · rw [Function.update_of_ne hji] at hcfg
    exact h.held j cfg hcfg

/-- A process goes on with the configuration it has. -/
theorem keep {w' : World} {phase : Phase} (h : Owned P file w) (hfile : w'.file = w.file)
    (hphase : w'.phase = Function.update w.phase i phase)
    (hsame : phase.config = (w.phase i).config) : Owned P file w' :=
  h.change hfile hphase fun cfg hcfg => h.held i cfg (hsame ▸ hcfg)

theorem turn (h : Owned P file w) (hguarded : Guarded w) {w' : World} {os : Os}
    (hturn : Turn w i os w') :
    Owned P file w' := by
  -- Only the rename changes the file, and what it installs is the configuration this process
  -- has staged; a read takes over what the file holds.
  cases hturn with
  | stay => exact h
  | fails message hfault => exact h.change rfl rfl nofun
  | returns hphase => exact h.keep rfl rfl (by rw [hphase]; rfl)
  | locks hphase hfree =>
      rename_i job
      exact h.keep rfl rfl (by rw [hphase]; cases job <;> rfl)
  | rereads hphase hfile =>
      refine h.change rfl rfl fun cfg hcfg => ?_
      cases hcfg
      exact h.saved _ hfile
  | finds hphase hfile => exact h.keep rfl rfl (by rw [hphase]; rfl)
  | asks hphase => exact h.keep rfl rfl (by rw [hphase]; rfl)
  | abandons hphase hfault temp message => exact h.change rfl rfl nofun
  | proceeds hphase hnext => exact h.keep rfl rfl (by rw [hphase]; rfl)
  | creates hphase => exact h.keep rfl rfl (by rw [hphase]; rfl)
  | writes hphase => exact h.keep rfl rfl (by rw [hphase]; rfl)
  | installs hphase =>
      rename_i cfg temp
      have hfits := hguarded i
      rw [hphase] at hfits
      obtain ⟨hpersist, -, hstaged⟩ := hfits
      have hcfg : P cfg := h.held i cfg (by rw [hphase]; rfl)
      have hkept := @keep P file w i { w with phase := Function.update w.phase i _ }
        (.saving cfg (.settling temp)) h rfl rfl (by rw [hphase]; rfl)
      refine ⟨hkept.held, fun cfg' hcfg' => ?_, Or.inr ⟨cfg, hstaged, hcfg⟩⟩
      rw [parse_staged hpersist hstaged hcfg']
      exact hcfg
  | settles hphase => exact h.keep rfl rfl (by rw [hphase]; rfl)

theorem step {env : Setting} {event : Event} (h : Owned P file w) (hguarded : Guarded w)
    (hrefresh : ∀ i cfg cfg' now reply, event = .answer i now reply → w.phase i = .requesting cfg →
      P cfg → refreshed cfg env.timeoutMs now reply = .ok cfg' → P cfg')
    (hlogin : ∀ i args now reply cfg, event = .login i args now reply →
      exchanged args now reply = .ok cfg → P cfg)
    (henv : ∀ i vars os cfg, event = .call i vars os → envConfig vars = .ok (some cfg) → P cfg) :
    Owned P file (Oidc.step env event w) := by
  -- A process comes into a configuration by an event of its own only: from the environment, by a
  -- login or by an answer.
  cases event with
  | advance i os => exact h.turn hguarded (turn_advance ..)
  | exit i => exact h.change rfl rfl nofun
  | call i vars os =>
      change Owned P file (w.call env.path i vars os)
      unfold World.call
      split
      · split
        · exact h.change rfl rfl nofun
        · rename_i cfg hcfg
          refine h.change rfl rfl fun cfg' hcfg' => ?_
          cases hcfg'
          exact henv i vars os cfg rfl hcfg
        · split
          · exact h.change rfl rfl nofun
          · exact h
          · rename_i hsome
            split
            · exact h.change rfl rfl nofun
            · rename_i cfg hparse
              refine h.change rfl rfl fun cfg' hcfg' => ?_
              cases hcfg'
              exact h.saved cfg (by rw [hsome]; exact hparse)
      · exact h
  | login i args now reply =>
      change Owned P file (w.login i args now reply)
      unfold World.login
      split
      · split
        · exact h.change rfl rfl nofun
        · rename_i cfg hcfg
          refine h.change rfl rfl fun cfg' hcfg' => ?_
          cases hcfg'
          exact hlogin i args now reply cfg rfl hcfg
      · exact h
  | answer i now reply =>
      change Owned P file (w.answer env.timeoutMs i now reply)
      unfold World.answer
      split
      · rename_i cfg hphase
        have hcfg : P cfg := h.held i cfg (by rw [hphase]; rfl)
        split
        · exact h.change rfl rfl nofun
        · rename_i cfg' hcfg'
          have hnext := hrefresh i cfg cfg' now reply rfl hphase hcfg hcfg'
          split
          · refine h.change rfl rfl fun cfg'' hcfg'' => ?_
            cases hcfg''
            exact hnext
          · refine h.change rfl rfl fun cfg'' hcfg'' => ?_
            cases hcfg''
            exact hnext
      · exact h

end Owned

/-- Whatever fails and whoever dies: the profile is never torn, it is refreshed by one process at a
time, and what is sent to an issuer is what somebody signed in with there, or what that issuer has
answered since. The lock is held from the second look at the file to the rename, and by nobody who
has died. -/
theorem session_sound (env : Setting) (file : Option Contents) (events : List Event) :
    let w := Machine.run (step env) events (.start file)
    let owned := fun cfg => ∃ source, Source file events source ∧
      Descends env file events source cfg ∧ cfg.profile = source.profile
    (w.file = file ∨ ∃ cfg, w.file = some (.whole cfg) ∧ owned cfg) ∧
      (∀ i j cfg cfg', w.phase i = .requesting cfg → w.phase j = .requesting cfg' →
        cfg.persist = true → cfg'.persist = true → i = j) ∧
      ∀ i cfg, w.phase i = .requesting cfg →
        (cfg.persist = true → w.file.bind Contents.parse = some cfg) ∧ owned cfg := by
  intro w owned
  -- by induction on what has happened so far, so that an answer is known by its place in the run
  have hinv : ∀ before after, events = before ++ after →
      Guarded (Machine.run (step env) before (.start file)) ∧
        Owned owned file (Machine.run (step env) before (.start file)) := by
    intro before
    induction before using List.reverseRecOn with
    | nil =>
        exact fun _ _ => ⟨Guarded.start file, nofun,
          fun cfg hcfg => ⟨cfg, Or.inl hcfg, .refl, rfl⟩, Or.inl rfl⟩
    | append_singleton before event ih =>
        intro after hevents
        rw [List.append_assoc, List.singleton_append] at hevents
        obtain ⟨hguarded, howned⟩ := ih (event :: after) hevents
        have hevent : event ∈ events := by
          rw [hevents]
          exact List.mem_append_right _ (List.mem_cons_self ..)
        rw [Machine.run_append, Machine.run_cons, Machine.run_nil]
        refine ⟨hguarded.step env event, howned.step hguarded ?_ ?_ ?_⟩
        · rintro i cfg cfg' now reply rfl hphase ⟨source, hsource, hdescends, -⟩ hok
          have hnext := hdescends.refresh ⟨before, i, after, hevents, hphase⟩ hok
          exact ⟨source, hsource, hnext, hnext.profile⟩
        · rintro i args now reply cfg rfl hok
          exact ⟨cfg, Or.inr (Or.inl ⟨i, args, now, reply, hevent, hok⟩), .refl, rfl⟩
        · rintro i vars os cfg rfl hok
          exact ⟨cfg, Or.inr (Or.inr ⟨i, vars, os, hevent, hok⟩), .refl, rfl⟩
  obtain ⟨hguarded, howned⟩ := hinv events [] (List.append_nil events).symm
  have hfits : ∀ i cfg, w.phase i = .requesting cfg → cfg.persist = true →
      w.holder = some i ∧ w.file.bind Contents.parse = some cfg := by
    intro i cfg hphase hpersist
    have h := hguarded i
    rw [hphase] at h
    exact h hpersist
  refine ⟨howned.whole, fun i j cfg cfg' hi hj hp hp' => ?_, fun i cfg hi => ⟨?_, ?_⟩⟩
  · exact Option.some.inj ((hfits i cfg hi hp).1.symm.trans (hfits j cfg' hj hp').1)
  · exact fun hp => (hfits i cfg hi hp).2
  · exact howned.held i cfg (by rw [hi]; rfl)

end Marbles.Oidc
