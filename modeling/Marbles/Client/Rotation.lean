import Marbles.Client.SignedIn

/-!
# Refresh tokens that rotate

An issuer that rotates takes a refresh token back when it answers with another one.
`refresh_tokens_once` says when that goes well: if no process dies or fails between the answer and
the rename, then no process ever presents a token that has been taken back.

The issuer is not part of the code; of it is assumed what `Honest` says, event by event. The
invariant follows tokens and not processes. The lock alone is not enough, because a process can
die between the answer and the rename, and so the condition is about that stretch.
-/

namespace Marbles.Oidc

/-! ### An issuer that rotates -/

/-- A refresh token, at its issuer. -/
def ClientConfig.key (cfg : ClientConfig) : String × String := (cfg.issuer, cfg.refreshToken)

/-- The processes, the tokens that logins and saved refreshes have brought, and the tokens that
have been taken back. -/
structure Net where
  world : World
  issued : List (String × String)
  spent : List (String × String)

/-- What the process of this event has sent. -/
def presents (w : World) : Event → Option ClientConfig
  | .answer i _ _ | .exit i => match w.phase i with
      | .requesting cfg => some cfg
      | _ => none
  | _ => none

/-- What the event brings that is to be saved. A configuration from the environment is not saved,
hence the filter. -/
def brings (timeoutMs : Nat) (w : World) : Event → Option ClientConfig
  | .login i args now reply => match w.phase i with
      | .idle => (exchanged args now reply).toOption
      | _ => none
  | .answer i now reply => match w.phase i with
      | .requesting cfg => (refreshed cfg timeoutMs now reply).toOption.filter (·.persist)
      | _ => none
  | _ => none

/-- With each event comes whether the issuer takes back the token that was sent. -/
def Net.step (env : Setting) (label : Event × Bool) (n : Net) : Net where
  world := Oidc.step env label.1 n.world
  issued := (brings env.timeoutMs n.world label.1).toList.map (·.key) ++ n.issued
  spent := (if label.2 then (presents n.world label.1).toList.map (·.key) else []) ++ n.spent

/-- The token that was saved before counts as issued. -/
def Net.start (file : Option Contents) : Net :=
  ⟨.start file, ((file.bind Contents.parse).toList).map (·.key), []⟩

/-- A new token is one that has not been seen, or the one that was sent and is still good. A saved
token is only taken back when another one arrives; tokens of environments are apart. -/
def Honest (env : Setting) (n : Net) (label : Event × Bool) : Prop :=
  (∀ cfg ∈ brings env.timeoutMs n.world label.1, cfg.key ∉ n.issued ∧ cfg.key ∉ n.spent ∨
    label.2 = false ∧ ∃ cfg₀ ∈ presents n.world label.1, cfg.key = cfg₀.key) ∧
  (label.2 = true → ∀ cfg ∈ presents n.world label.1,
    if cfg.persist then (brings env.timeoutMs n.world label.1).isSome = true
    else cfg.key ∉ n.issued)

/-- The profile is still to be renamed. -/
def Stage.unsettled : Stage → Bool
  | .settling _ => false
  | _ => true

/-- The answer is there and the profile on disk is still the old one. -/
def Phase.saves : Phase → Bool
  | .saving _ stage => stage.unsettled
  | _ => false

/-- The temporary file that is to be created next. -/
def Phase.creates : Phase → Option String
  | .saving _ (.creating temp) => some temp
  | _ => none

/-- No process dies or fails between the answer and the rename. -/
def Steady (w : World) : Event → Prop
  | .advance i os => (w.phase i).saves = true →
      os.error = none ∧ ∀ temp ∈ (w.phase i).creates, w.temps temp = none
  | .exit i => (w.phase i).saves = false
  | _ => True

/-- What a process has that is still to be saved. -/
def Phase.pending : Phase → Option ClientConfig
  | .waiting (.login cfg) => some cfg
  | .saving cfg stage => if stage.unsettled then some cfg else none
  | _ => none

/-- What holds when the issuer is honest and no token is lost. The tokens in hand, in the file and
taken back are kept apart, which is what makes one use of each. -/
structure Rotating (n : Net) : Prop where
  guarded : Guarded n.world
  known : ∀ cfg, n.world.file.bind Contents.parse = some cfg → cfg.key ∈ n.issued
  /-- What is still to be saved is good. -/
  pending : ∀ i, ∀ cfg ∈ (n.world.phase i).pending, cfg.key ∈ n.issued ∧ cfg.key ∉ n.spent
  apart : ∀ i j, ∀ cfg ∈ (n.world.phase i).pending, ∀ cfg' ∈ (n.world.phase j).pending,
    cfg.key = cfg'.key → i = j
  /-- A login that waits has not been saved. -/
  waits : ∀ i cfg, n.world.phase i = .waiting (.login cfg) →
    ∀ saved, n.world.file.bind Contents.parse = some saved → saved.key ≠ cfg.key
  /-- The saved token is good unless another one is being saved. -/
  good : ∀ cfg, n.world.file.bind Contents.parse = some cfg → cfg.key ∈ n.spent →
    ∃ i, (n.world.phase i).saves = true

theorem Guarded.holder_of_saves {w : World} (h : Guarded w) {i : Nat}
    (hsaves : (w.phase i).saves = true) : w.holder = some i := by
  have hfits := h i
  revert hsaves hfits
  cases w.phase i with
  | saving cfg stage => exact fun _ hfits => hfits.2.1
  | _ => exact nofun

/-- What is to be saved is in the hands of the process that holds the lock, or of a login. -/
theorem Guarded.holder_of_pending {w : World} (h : Guarded w) {i : Nat} {cfg : ClientConfig}
    (hcfg : cfg ∈ (w.phase i).pending) : w.phase i = .waiting (.login cfg) ∨ w.holder = some i := by
  have hfits := h i
  revert hcfg hfits
  cases w.phase i with
  | saving cfg stage => exact fun _ hfits => Or.inr hfits.2.1
  | waiting job =>
      cases job with
      | refresh cfg => exact nofun
      | login cfg =>
          intro hcfg _
          cases hcfg
          exact Or.inl rfl
  | _ => exact nofun

/-! ### What an event does -/

theorem Net.step_eq {env : Setting} {event : Event} {spends : Bool} {n : Net}
    {b p : Option ClientConfig} {w' : World} (hbrings : brings env.timeoutMs n.world event = b)
    (hpresents : presents n.world event = p) (hworld : Oidc.step env event n.world = w') :
    n.step env (event, spends) = ⟨w', b.toList.map (·.key) ++ n.issued,
      (if spends then p.toList.map (·.key) else []) ++ n.spent⟩ := by
  subst hbrings hpresents hworld
  rfl

namespace World

/-- The process stays where it is, or it goes on and has nothing to save before or after. -/
def Rests (w : World) (i : Nat) (w' : World) : Prop :=
  w' = w ∨ ∃ phase : Phase, phase.pending = none ∧ (w.phase i).saves = false ∧
    w'.file = w.file ∧ w'.phase = Function.update w.phase i phase

theorem call_rests (path : String) (w : World) (i : Nat) (env : String → Option String) (os : Os) :
    w.Rests i (w.call path i env os) := by
  unfold World.call
  split
  · rename_i hphase
    have hmoves : ∀ phase : Phase, phase.pending = none → w.Rests i (w.moves i phase) :=
      fun phase hpending => Or.inr ⟨phase, hpending, by rw [hphase]; rfl, rfl, rfl⟩
    split
    · exact hmoves _ rfl
    · exact hmoves _ rfl
    · split
      · exact hmoves _ rfl
      · exact Or.inl rfl
      · split
        · exact hmoves _ rfl
        · exact hmoves _ rfl
  · exact Or.inl rfl

/-- A login brings a profile that waits for the lock, or nothing. -/
theorem login_cases (timeoutMs : Nat) (w : World) (i : Nat) (args : LoginArgs) (now : Int)
    (reply : Reply) :
    (brings timeoutMs w (.login i args now reply) = none ∧ w.Rests i (w.login i args now reply)) ∨
      ∃ cfg, brings timeoutMs w (.login i args now reply) = some cfg ∧ w.phase i = .idle ∧
        w.login i args now reply = w.moves i (.waiting (.login cfg)) := by
  cases hphase : w.phase i with
  | idle =>
      cases hok : exchanged args now reply with
      | error e =>
          have hworld : w.login i args now reply = w.moves i (.returned (.error e)) := by
            simp only [World.login, hphase, hok]
          refine Or.inl ⟨?_, Or.inr ⟨_, rfl, by rw [hphase]; rfl, ?_, by rw [hworld]; rfl⟩⟩
          · simp only [brings, hphase, hok]
            rfl
          · rw [hworld]
            rfl
      | ok cfg =>
          refine Or.inr ⟨cfg, ?_, rfl, ?_⟩
          · simp only [brings, hphase, hok]
            rfl
          · simp only [World.login, hphase, hok]
  | _ =>
      refine Or.inl ⟨?_, Or.inl ?_⟩
      · simp only [brings, hphase]
      · simp only [World.login, hphase]

/-- The answer to a refresh brings the next token of a saved profile, or nothing. -/
theorem answer_cases (timeoutMs : Nat) (w : World) (i : Nat) (now : Int) (reply : Reply) :
    (brings timeoutMs w (.answer i now reply) = none ∧
        w.Rests i (w.answer timeoutMs i now reply)) ∨
      ∃ cfg cfg', w.phase i = .requesting cfg ∧ cfg.persist = true ∧
        brings timeoutMs w (.answer i now reply) = some cfg' ∧
        w.answer timeoutMs i now reply = w.moves i (.saving cfg' .makingDir) := by
  cases hphase : w.phase i with
  | requesting cfg =>
      have hidle : (w.phase i).saves = false := by rw [hphase]; rfl
      have hreturns : ∀ result, w.answer timeoutMs i now reply = w.returns i result →
          w.Rests i (w.answer timeoutMs i now reply) := by
        intro result hworld
        rw [hworld]
        exact Or.inr ⟨.returned result, rfl, hidle, rfl, rfl⟩
      -- An answer goes into the file only if it is usable and the configuration is a saved one;
      -- otherwise the process returns with what it has.
      cases hok : refreshed cfg timeoutMs now reply with
      | error e =>
          refine Or.inl ⟨?_, hreturns (.error e) ?_⟩
          · simp only [brings, hphase, hok]
            rfl
          · simp only [World.answer, hphase, hok]
      | ok cfg' =>
          cases hpersist : cfg'.persist with
          | false =>
              refine Or.inl ⟨?_, hreturns (.ok cfg') ?_⟩
              · simp only [brings, hphase, hok]
                exact if_neg fun htrue => by
                  rw [show cfg'.persist = true from htrue] at hpersist
                  cases hpersist
              · simp only [World.answer, hphase, hok, hpersist]
                rfl
          | true =>
              refine Or.inr ⟨cfg, cfg', rfl, refreshed_persist hok ▸ hpersist, ?_, ?_⟩
              · simp only [brings, hphase, hok]
                exact if_pos hpersist
              · simp only [World.answer, hphase, hok, hpersist, if_true]
  | _ =>
      refine Or.inl ⟨?_, Or.inl ?_⟩
      · simp only [brings, hphase]
      · simp only [World.answer, hphase]

end World

/-- What is to be saved once a process has gone on. -/
theorem pending_update {phases : Nat → Phase} {i j : Nat} {phase : Phase} {cfg : ClientConfig}
    (h : cfg ∈ (Function.update phases i phase j).pending) :
    j = i ∧ cfg ∈ phase.pending ∨ j ≠ i ∧ cfg ∈ (phases j).pending := by
  by_cases hji : j = i
  · subst hji
    rw [Function.update_self] at h
    exact Or.inl ⟨rfl, h⟩
  · rw [Function.update_of_ne hji] at h
    exact Or.inr ⟨hji, h⟩

namespace Rotating

variable {n : Net} {i : Nat}

theorem start (file : Option Contents) : Rotating (.start file) where
  guarded := Guarded.start file
  known := fun cfg hcfg => by
    change cfg.key ∈ ((file.bind Contents.parse).toList).map (·.key)
    rw [show file.bind Contents.parse = some cfg from hcfg]
    exact List.mem_singleton_self _
  pending := nofun
  apart := nofun
  waits := nofun
  good := fun _ _ h => absurd h List.not_mem_nil

/-- The token of a saved profile in flight has not been taken back. -/
theorem unspent (h : Rotating n) {cfg : ClientConfig}
    (hphase : n.world.phase i = .requesting cfg) (hpersist : cfg.persist = true) :
    n.world.holder = some i ∧ n.world.file.bind Contents.parse = some cfg ∧ cfg.key ∉ n.spent := by
  have hfits := h.guarded i
  rw [hphase] at hfits
  obtain ⟨hholder, hfile⟩ := hfits hpersist
  refine ⟨hholder, hfile, fun hspent => ?_⟩
  obtain ⟨j, hsaves⟩ := h.good cfg hfile hspent
  obtain rfl : i = j := Option.some.inj (hholder.symm.trans (h.guarded.holder_of_saves hsaves))
  rw [hphase] at hsaves
  cases hsaves

/-- A process is somewhere else, and has nothing new to save. -/
theorem quiet (h : Rotating n) {w' : World} {phase : Phase} (hguarded : Guarded w')
    (hfile : w'.file = n.world.file) (hphase : w'.phase = Function.update n.world.phase i phase)
    (hpending : ∀ cfg ∈ phase.pending, cfg ∈ (n.world.phase i).pending ∧
      ∀ cfg', phase ≠ .waiting (.login cfg'))
    (hsaves : (n.world.phase i).saves = true → phase.saves = true) :
    Rotating { n with world := w' } := by
  have hsub : ∀ j, ∀ cfg ∈ (w'.phase j).pending, cfg ∈ (n.world.phase j).pending := by
    intro j cfg hcfg
    rw [hphase] at hcfg
    rcases pending_update hcfg with ⟨rfl, hnew⟩ | ⟨-, hold⟩
    · exact (hpending cfg hnew).1
    · exact hold
  -- The file stays and only one process moves, to a phase that takes nothing new in hand.
  refine ⟨hguarded, hfile ▸ h.known, fun j cfg hcfg => h.pending j cfg (hsub j cfg hcfg),
    fun j k cfg hcfg cfg' hcfg' => h.apart j k cfg (hsub j cfg hcfg) cfg' (hsub k cfg' hcfg'),
    fun j cfg hj => ?_, fun cfg hcfg hspent => ?_⟩
  · change w'.phase j = _ at hj
    change ∀ saved, w'.file.bind _ = _ → _
    rw [hfile]
    rw [hphase] at hj
    by_cases hji : j = i
    · subst hji
      rw [Function.update_self] at hj
      exact absurd hj ((hpending cfg (by rw [hj]; rfl)).2 cfg)
    · rw [Function.update_of_ne hji] at hj
      exact h.waits j cfg hj
  · change w'.file.bind _ = _ at hcfg
    rw [hfile] at hcfg
    obtain ⟨j, hj⟩ := h.good cfg hcfg hspent
    refine ⟨j, ?_⟩
    change (w'.phase j).saves = true
    rw [hphase]
    by_cases hji : j = i
    · subst hji
      rw [Function.update_self]
      exact hsaves hj
    · rwa [Function.update_of_ne hji]

/-- A token of an environment is taken back. -/
theorem spend (h : Rotating n) {keys : List (String × String)}
    (hkeys : ∀ key ∈ keys, key ∉ n.issued) :
    Rotating { n with spent := keys ++ n.spent } := by
  refine ⟨h.guarded, h.known, fun j cfg hcfg => ?_, h.apart, h.waits, fun cfg hcfg hspent => ?_⟩
  · obtain ⟨hissued, hspent⟩ := h.pending j cfg hcfg
    refine ⟨hissued, fun hmem => ?_⟩
    rcases List.mem_append.mp hmem with hmem | hmem
    · exact hkeys _ hmem hissued
    · exact hspent hmem
  · rcases List.mem_append.mp hspent with hmem | hmem
    · exact absurd (h.known cfg hcfg) (hkeys _ hmem)
    · exact h.good cfg hcfg hmem

/-- The rename puts the profile that was to be saved in the file. -/
theorem installed (h : Rotating n) {w' : World} {cfg : ClientConfig} {temp : String}
    (hguarded : Guarded w') (hphase : n.world.phase i = .saving cfg (.installing temp))
    (hfile : w'.file = n.world.temps temp)
    (hmoves : w'.phase = Function.update n.world.phase i (.saving cfg (.settling temp))) :
    Rotating { n with world := w' } := by
  have hfits := h.guarded i
  rw [hphase] at hfits
  obtain ⟨hpersist, -, hstaged⟩ := hfits
  have hcfg : cfg ∈ (n.world.phase i).pending := by rw [hphase]; rfl
  obtain ⟨hissued, hspent⟩ := h.pending i cfg hcfg
  have hsaved : ∀ saved, w'.file.bind Contents.parse = some saved → saved = cfg := by
    intro saved hsaved
    rw [hfile] at hsaved
    exact parse_staged hpersist hstaged hsaved
  have hsub : ∀ j, ∀ cfg' ∈ (w'.phase j).pending, j ≠ i ∧ cfg' ∈ (n.world.phase j).pending := by
    intro j cfg' hcfg'
    rw [hmoves] at hcfg'
    rcases pending_update hcfg' with ⟨-, hcfg'⟩ | hother
    · cases hcfg'
    · exact hother
  refine ⟨hguarded, fun saved h' => ?_, fun j cfg' hcfg' => h.pending j cfg' (hsub j cfg' hcfg').2,
    fun j k cfg₁ h₁ cfg₂ h₂ => h.apart j k cfg₁ (hsub j cfg₁ h₁).2 cfg₂ (hsub k cfg₂ h₂).2,
    fun j cfg' hj saved h' hkey => ?_, fun saved h' hmem => ?_⟩
  · rw [hsaved saved h']
    exact hissued
  · -- a login that waits has a token of its own
    obtain ⟨hji, hcfg'⟩ := hsub j cfg' (by
      rw [show w'.phase j = _ from hj]
      rfl)
    rw [hsaved saved h'] at hkey
    exact hji (h.apart i j cfg hcfg cfg' hcfg' hkey).symm
  · rw [hsaved saved h'] at hmem
    exact absurd hmem hspent

theorem turn (h : Rotating n) {w' : World} {os : Os} (hturn : Turn n.world i os w')
    (hsteady : Steady n.world (.advance i os)) : Rotating { n with world := w' } := by
  have hguarded := h.guarded.turn hturn
  -- a process that is saving does not fail
  have hnot : os.error.isSome = true → (n.world.phase i).saves = true → False := by
    intro herror hsaves
    cases hphase : n.world.phase i with
    | saving cfg stage =>
        rw [(hsteady hsaves).1] at herror
        cases herror
    | _ => rw [hphase] at hsaves; cases hsaves
  have hidle : ∀ {phase : Phase}, (n.world.phase i).saves = false →
      (n.world.phase i).saves = true → phase.saves = true := by
    intro phase hno hyes
    rw [hno] at hyes
    cases hyes
  cases hturn with
  | stay => exact h
  | fails message hfault =>
      refine h.quiet hguarded rfl rfl nofun fun hsaves => ?_
      cases hphase : n.world.phase i with
      | saving cfg stage => exact absurd hsaves (hnot (hfault cfg stage hphase))
      | _ => rw [hphase] at hsaves; cases hsaves
  | returns hphase => exact h.quiet hguarded rfl rfl nofun (hidle (by rw [hphase]; rfl))
  | locks hphase hfree =>
      rename_i job
      cases job with
      | refresh cfg => exact h.quiet hguarded rfl rfl nofun (hidle (by rw [hphase]; rfl))
      | login cfg =>
          refine h.quiet hguarded rfl rfl (fun cfg' hcfg' => ?_) (hidle (by rw [hphase]; rfl))
          rw [hphase]
          exact ⟨hcfg', nofun⟩
  | rereads hphase hfile => exact h.quiet hguarded rfl rfl nofun (hidle (by rw [hphase]; rfl))
  | finds hphase hfile => exact h.quiet hguarded rfl rfl nofun (hidle (by rw [hphase]; rfl))
  | asks hphase => exact h.quiet hguarded rfl rfl nofun (hidle (by rw [hphase]; rfl))
  | abandons hphase hfault temp message =>
      rename_i cfg stage
      refine h.quiet hguarded rfl rfl nofun fun hsaves => ?_
      obtain ⟨hnone, hfresh⟩ := hsteady hsaves
      rcases hfault with herror | ⟨temp', rfl, htemp⟩
      · rw [hnone] at herror
        cases herror
      · rw [hfresh temp' (by rw [hphase]; rfl)] at htemp
        cases htemp
  | proceeds hphase hnext =>
      refine h.quiet hguarded rfl rfl (fun cfg' hcfg' => ?_) fun _ => ?_
      · rw [hphase]
        cases hnext <;> exact ⟨hcfg', nofun⟩
      · cases hnext <;> rfl
  | creates hphase | writes hphase =>
      refine h.quiet hguarded rfl rfl (fun cfg' hcfg' => ?_) fun _ => rfl
      rw [hphase]
      exact ⟨hcfg', nofun⟩
  | installs hphase => exact h.installed hguarded hphase rfl rfl
  | settles hphase => exact h.quiet hguarded rfl rfl nofun (hidle (by rw [hphase]; rfl))

/-- The answer to a refresh of the saved profile: another token, or the same. -/
theorem answered (h : Rotating n) {cfg cfg' : ClientConfig}
    (hphase : n.world.phase i = .requesting cfg) (hpersist : cfg.persist = true)
    (hguarded : Guarded (n.world.moves i (.saving cfg' .makingDir))) {spends : Bool}
    (hkey : cfg'.key ∉ n.issued ∧ cfg'.key ∉ n.spent ∨ spends = false ∧ cfg'.key = cfg.key) :
    Rotating ⟨n.world.moves i (.saving cfg' .makingDir), cfg'.key :: n.issued,
      (if spends then [cfg.key] else []) ++ n.spent⟩ := by
  obtain ⟨hholder, hfile, hspent⟩ := h.unspent hphase hpersist
  have hissued := h.known cfg hfile
  -- whoever else has something to save is a login, with a token of its own
  have hothers : ∀ j, j ≠ i → ∀ c ∈ (n.world.phase j).pending, cfg.key ≠ c.key := by
    intro j hji c hc
    rcases h.guarded.holder_of_pending hc with hwaits | hj
    · exact h.waits j c hwaits cfg hfile
    · exact absurd (Option.some.inj (hj.symm.trans hholder)) hji
  have hnew : ∀ j, j ≠ i → ∀ c ∈ (n.world.phase j).pending, cfg'.key ≠ c.key := by
    intro j hji c hc heq
    rcases hkey with ⟨hfresh, -⟩ | ⟨-, hsame⟩
    · exact hfresh (heq ▸ (h.pending j c hc).1)
    · exact hothers j hji c hc (hsame ▸ heq)
  refine ⟨hguarded, fun saved hsaved => List.mem_cons_of_mem _ (h.known saved hsaved),
    fun j c hc => ?_, fun j k c hc c' hc' heq => ?_, fun j c hj saved hsaved => ?_,
    fun saved hsaved _ => ⟨i, ?_⟩⟩
  · rcases pending_update hc with ⟨-, ⟨⟩⟩ | ⟨hji, hc⟩
    · refine ⟨List.mem_cons_self .., fun hmem => ?_⟩
      rcases hkey with ⟨hfresh, hfresh'⟩ | ⟨rfl, hsame⟩
      · rcases List.mem_append.mp hmem with hmem | hmem
        · split at hmem
          · exact hfresh (List.mem_singleton.mp hmem ▸ hissued)
          · cases hmem
        · exact hfresh' hmem
      · rw [hsame] at hmem
        exact hspent hmem
    · obtain ⟨hc₁, hc₂⟩ := h.pending j c hc
      refine ⟨List.mem_cons_of_mem _ hc₁, fun hmem => ?_⟩
      rcases List.mem_append.mp hmem with hmem | hmem
      · split at hmem
        · exact hothers j hji c hc (List.mem_singleton.mp hmem).symm
        · cases hmem
      · exact hc₂ hmem
  · rcases pending_update hc with ⟨hji, ⟨⟩⟩ | ⟨hji, hcj⟩
    · rcases pending_update hc' with ⟨hki, -⟩ | ⟨hki, hck⟩
      · exact hji.trans hki.symm
      · exact absurd heq (hnew k hki c' hck)
    · rcases pending_update hc' with ⟨hki, ⟨⟩⟩ | ⟨hki, hck⟩
      · exact absurd heq.symm (hnew j hji c hcj)
      · exact h.apart j k c hcj c' hck heq
  · by_cases hji : j = i
    · rw [hji, World.moves_self] at hj
      cases hj
    · rw [World.moves_of_ne _ hji] at hj
      exact h.waits j c hj saved hsaved
  · rw [World.moves_self]
    rfl

/-- A login has been answered with a token that nobody has seen. -/
theorem signedIn (h : Rotating n) {cfg : ClientConfig} (hidle : n.world.phase i = .idle)
    (hguarded : Guarded (n.world.moves i (.waiting (.login cfg))))
    (hkey : cfg.key ∉ n.issued ∧ cfg.key ∉ n.spent) :
    Rotating ⟨n.world.moves i (.waiting (.login cfg)), cfg.key :: n.issued, n.spent⟩ := by
  have hnew : ∀ key ∈ n.issued, cfg.key ≠ key := fun key hmem heq => hkey.1 (heq ▸ hmem)
  -- The key is new to the issuer, hence different from the saved one and from what any process
  -- holds.
  refine ⟨hguarded, fun saved hsaved => List.mem_cons_of_mem _ (h.known saved hsaved),
    fun j c hc => ?_, fun j k c hc c' hc' heq => ?_, fun j c hj saved hsaved heq => ?_,
    fun saved hsaved hmem => ?_⟩
  · rcases pending_update hc with ⟨-, ⟨⟩⟩ | ⟨hji, hcj⟩
    · exact ⟨List.mem_cons_self .., hkey.2⟩
    · obtain ⟨hissued, hspent⟩ := h.pending j c hcj
      exact ⟨List.mem_cons_of_mem _ hissued, hspent⟩
  · rcases pending_update hc with ⟨hji, ⟨⟩⟩ | ⟨hji, hcj⟩
    · rcases pending_update hc' with ⟨hki, -⟩ | ⟨hki, hck⟩
      · exact hji.trans hki.symm
      · exact absurd heq (hnew _ (h.pending k c' hck).1)
    · rcases pending_update hc' with ⟨hki, ⟨⟩⟩ | ⟨hki, hck⟩
      · exact absurd heq.symm (hnew _ (h.pending j c hcj).1)
      · exact h.apart j k c hcj c' hck heq
  · by_cases hji : j = i
    · rw [hji, World.moves_self] at hj
      cases hj
      exact hnew _ (h.known saved hsaved) heq.symm
    · rw [World.moves_of_ne _ hji] at hj
      exact h.waits j c hj saved hsaved heq
  · obtain ⟨j, hj⟩ := h.good saved hsaved hmem
    refine ⟨j, ?_⟩
    by_cases hji : j = i
    · rw [hji, hidle] at hj
      cases hj
    · rwa [World.moves_of_ne _ hji]

/-- No process has gone anywhere, or one has that has nothing to save before or after it. -/
theorem rested (h : Rotating n) {w' : World} (hguarded : Guarded w') (hrests : n.world.Rests i w')
    {keys : List (String × String)} (hkeys : ∀ key ∈ keys, key ∉ n.issued) :
    Rotating ⟨w', n.issued, keys ++ n.spent⟩ := by
  rcases hrests with rfl | ⟨phase, hpending, hsaves, hfile, hphase⟩
  · exact h.spend hkeys
  · refine (h.spend hkeys).quiet hguarded hfile hphase (fun cfg hcfg => ?_) fun hyes => ?_
    · rw [hpending] at hcfg
      cases hcfg
    · rw [hsaves] at hyes
      cases hyes

theorem step (h : Rotating n) {env : Setting} {label : Event × Bool} (hhonest : Honest env n label)
    (hsteady : Steady n.world label.1) : Rotating (n.step env label) := by
  obtain ⟨event, spends⟩ := label
  obtain ⟨hnew, hspends⟩ := hhonest
  have hguarded := h.guarded.step env event
  -- nothing is brought: only an environment can lose its token
  have hlost : brings env.timeoutMs n.world event = none → ∀ key ∈ (if spends then
      (presents n.world event).toList.map (·.key) else []), key ∉ n.issued := by
    intro hnone key hkey
    cases spends with
    | false => cases hkey
    | true =>
        obtain ⟨cfg, hcfg, rfl⟩ := List.mem_map.mp hkey
        have := hspends rfl cfg (Option.mem_toList.mp hcfg)
        split at this
        · dsimp only at this
          rw [hnone] at this
          cases this
        · exact this
  have hrested : brings env.timeoutMs n.world event = none → ∀ i,
      n.world.Rests i (Oidc.step env event n.world) → Rotating (n.step env (event, spends)) := by
    intro hbrings i hrests
    rw [Net.step_eq hbrings rfl rfl]
    exact h.rested hguarded hrests (hlost hbrings)
  cases event with
  | advance i os =>
      have hquiet : n.step env (.advance i os, spends) =
          { n with world := n.world.advance env.dir i os } := by
        cases spends <;> rfl
      rw [hquiet]
      exact h.turn (turn_advance ..) hsteady
  | exit i => exact hrested rfl i (Or.inr ⟨_, rfl, hsteady, rfl, rfl⟩)
  | call i vars os => exact hrested rfl i (World.call_rests ..)
  | login i args now reply =>
      rcases World.login_cases env.timeoutMs n.world i args now reply with
        ⟨hbrings, hrests⟩ | ⟨cfg, hbrings, hphase, hworld⟩
      · exact hrested hbrings i hrests
      · have hkey : cfg.key ∉ n.issued ∧ cfg.key ∉ n.spent := by
          rcases hnew cfg hbrings with hkey | ⟨-, cfg₀, hcfg₀, -⟩
          · exact hkey
          · cases hcfg₀
        have hpresents : (if spends then
            (none : Option ClientConfig).toList.map (·.key) else []) = [] := by
          cases spends <;> rfl
        change Guarded (n.world.login i args now reply) at hguarded
        rw [hworld] at hguarded
        rw [@Net.step_eq _ _ _ _ _ none _ hbrings rfl hworld, hpresents]
        exact h.signedIn hphase hguarded hkey
  | answer i now reply =>
      rcases World.answer_cases env.timeoutMs n.world i now reply with
        ⟨hbrings, hrests⟩ | ⟨cfg, cfg', hphase, hpersist, hbrings, hworld⟩
      · exact hrested hbrings i hrests
      · have hpresents : presents n.world (.answer i now reply) = some cfg := by
          simp only [presents, hphase]
        change Guarded (n.world.answer env.timeoutMs i now reply) at hguarded
        rw [hworld] at hguarded
        rw [Net.step_eq hbrings hpresents hworld]
        refine h.answered hphase hpersist hguarded ?_
        rcases hnew cfg' hbrings with hkey | ⟨hfalse, cfg₀, hcfg₀, hkey⟩
        · exact Or.inl hkey
        · rw [show presents n.world (.answer i now reply) = _ from hpresents] at hcfg₀
          cases hcfg₀
          exact Or.inr ⟨hfalse, hkey⟩

end Rotating

/-- With an issuer that takes back a token only when it answers with another one, no saved refresh
token is ever presented after it has been taken back, however the processes interleave and
whatever fails otherwise, as long as none dies or fails between an answer and the rename. Between
refreshes the saved token is good. -/
theorem refresh_tokens_once {env : Setting} {file : Option Contents} {labels : List (Event × Bool)}
    (hlabels : Machine.Meets (fun label n => Net.step env label n)
      (fun n label => Honest env n label ∧ Steady n.world label.1) labels (.start file)) :
    let n := Machine.run (fun label n => Net.step env label n) labels (.start file)
    (∀ i cfg, n.world.phase i = .requesting cfg → cfg.persist = true → cfg.key ∉ n.spent) ∧
      (n.world.holder = none → ∀ cfg, n.world.file.bind Contents.parse = some cfg →
        cfg.key ∉ n.spent) := by
  intro n
  have hrotating : Rotating n :=
    Machine.invariant_of_meets Rotating (fun _ _ h hlabel => h.step hlabel.1 hlabel.2) labels
      (.start file) hlabels
  refine ⟨fun i cfg hphase hpersist => (hrotating.unspent hphase hpersist).2.2,
    fun hfree cfg hcfg hspent => ?_⟩
  obtain ⟨i, hsaves⟩ := hrotating.good cfg hcfg hspent
  rw [hrotating.guarded.holder_of_saves hsaves] at hfree
  cases hfree

instance (env : Setting) (n : Net) (label : Event × Bool) : Decidable (Honest env n label) := by
  unfold Honest
  infer_instance

instance (w : World) : DecidablePred (Steady w)
  | .advance i os => inferInstanceAs (Decidable ((w.phase i).saves = true →
      os.error = none ∧ ∀ temp ∈ (w.phase i).creates, w.temps temp = none))
  | .exit i => inferInstanceAs (Decidable ((w.phase i).saves = false))
  | .call .. | .login .. | .answer .. => .isTrue trivial

/-- A profile whose token has expired. -/
def expired : ClientConfig where
  url := "https://marbles.example"
  issuer := "https://sso.example"
  clientId := "marbles"
  clientSecret := "secret"
  redirectUri := defaultRedirectUri
  refreshToken := "r0"
  idToken := ""
  expiresAt := 0
  persist := true

/-- Two commands at once: one refreshes and saves, and the other one, much later, refreshes
again. -/
def twoRefreshes : List (Event × Bool) :=
  let rotated : Json.Value := .obj [("expires_in", .num 3600), ("id_token", .str "t1"),
    ("refresh_token", .str "r1")]
  [(.call 0 (fun _ => none) {}, false), (.call 1 (fun _ => none) {}, false),
    (.advance 0 {}, false), (.advance 0 {}, false), (.advance 1 {}, false), (.advance 0 {}, false),
    (.answer 0 100 (.answer 200 (some rotated)), true)] ++
  List.replicate 7 (.advance 0 { random := "x" }, false) ++
  [(.advance 1 {}, false), (.advance 1 {}, false), (.advance 1 { now := 10000 }, false)]

theorem twoRefreshes_once : ("https://sso.example", "r1") ∉
    (Machine.run (fun label n => Net.step ⟨"d", "p", 8000⟩ label n) twoRefreshes
      (.start (some (.whole expired)))).spent :=
  (@refresh_tokens_once ⟨"d", "p", 8000⟩ _ twoRefreshes (by decide +kernel)).1 1
    { expired with refreshToken := "r1", idToken := "t1", expiresAt := 3700 } (by decide +kernel)
      rfl

end Marbles.Oidc
