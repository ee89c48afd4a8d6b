import Marbles.Durable

/-!
# Runs of the engine

What any appends and conditional writes leave: trails under sequence numbers that only go up, whose
past is never rewritten, and a live set and versions that agree with them. A conditional write goes
through under the last version only, so of the writes that expect one version only one does.

The conditional write of the source reads the current revision twice, the second time where it
relies on there being one. `compareAndSwap?` keeps the two reads apart, with `none` where the
second would panic, and is shown to be the function that reads once. Numbers that were passed over
are spent for good, which gives that of several writers of one version at most one succeeds.
-/

namespace Marbles.Records

open Json (Value)

namespace Engine

/-! ### The conditional write, statement by statement -/

/-- Whether the last revision is the expected one; there is an early return in the third case. -/
def matchesLatest (expected : Option Version) (latest : Option Revision) : Except String Bool :=
  match expected, latest with
  | none, none => .ok true
  | none, some revision => .ok revision.deleted
  | some _, none => .error "not-found"
  | some version, some revision =>
      .ok (revision.seq = version.revision ∧ version.origin = "memory")

/-- What a conflict is answered with. -/
def currentResult (latest : Option Revision) : Option CasResult :=
  latest.map fun revision => ⟨false, some ⟨revision.seq, "memory"⟩,
    if revision.deleted then none else some revision.data, revision.deleted⟩

/-- `compare_and_swap` with its `expect`: `none` is the panic. -/
def compareAndSwap? (e : Engine) (name : String) (key : Key) (expected : Option Version)
    (data : Value) (deleted : Bool) : Option (Except String CasResult × Engine) :=
  let latest := (e.history name).latest key
  match matchesLatest expected latest with
  | .error message => some (.error message, e)
  | .ok false => (currentResult latest).map fun result => (.ok result, e)
  | .ok true =>
      some (.ok ⟨true, some ⟨e.seq + 1, "memory"⟩, if deleted then none else some data, deleted⟩,
        e.append name key data deleted)

variable {e e' : Engine} {name : String} {key : Key} {expected : Option Version} {data : Value}
  {deleted : Bool}

/-- A conflict has a current revision. -/
@[simp] theorem compareAndSwap?_eq : e.compareAndSwap? name key expected data deleted =
    some (e.compareAndSwap name key expected data deleted) := by
  unfold compareAndSwap? compareAndSwap
  cases expected with
  | none =>
      cases (e.history name).latest key with
      | none => rfl
      | some revision => cases h : revision.deleted <;> simp [matchesLatest, currentResult, h]
  | some version =>
      cases (e.history name).latest key with
      | none => rfl
      | some revision =>
          by_cases h : version = ⟨revision.seq, "memory"⟩
          · simp [matchesLatest, h]
          · have hother : ¬ (revision.seq = version.revision ∧ version.origin = "memory") :=
              fun hsame => h (by cases version; simp_all)
            simp [matchesLatest, currentResult, h, hother]

/-! ### Calls -/

/-- One call, and its answer. -/
def exec : Write → Engine → Option (Answer × Engine)
  | .append name key data deleted, e => some (.seq (e.seq + 1), e.append name key data deleted)
  | .compareAndSwap name key expected data deleted, e =>
      (e.compareAndSwap? name key expected data deleted).map fun (result, e') => (.cas result, e')

/-- The calls of a run, as long as none panics. -/
def run : List Write → Engine → Option (List Answer × Engine)
  | [], e => some ([], e)
  | w :: ws, e => do
      let (answer, e') ← exec w e
      let (answers, e'') ← run ws e'
      pure (answer :: answers, e'')

/-- A call leaves one more revision, or nothing new. -/
theorem exec_cases (w : Write) (e : Engine) : ∃ answer e', exec w e = some (answer, e') ∧
    (e' = e ∨ ∃ name key data deleted, e' = e.append name key data deleted) := by
  cases w with
  | append name key data deleted => exact ⟨_, _, rfl, Or.inr ⟨name, key, data, deleted, rfl⟩⟩
  | compareAndSwap name key expected data deleted =>
      refine ⟨.cas (e.compareAndSwap name key expected data deleted).1, _,
        by rw [exec, compareAndSwap?_eq]; rfl, ?_⟩
      rcases e.compareAndSwap_engine name key expected data deleted with hwritten | hsame
      · exact Or.inr ⟨name, key, data, deleted, hwritten⟩
      · exact Or.inl hsame

/-- What appending a revision preserves, a run preserves; and no run panics. -/
theorem run_induction {P : Engine → Prop}
    (happend : ∀ e name key data deleted, P e → P (e.append name key data deleted))
    (ws : List Write) (h : P e) : ∃ answers e', run ws e = some (answers, e') ∧ P e' := by
  induction ws generalizing e with
  | nil => exact ⟨[], e, rfl, h⟩
  | cons w ws ih =>
      obtain ⟨answer, e', hexec, hcases⟩ := exec_cases w e
      have h' : P e' := by
        rcases hcases with rfl | ⟨name, key, data, deleted, rfl⟩
        · exact h
        · exact happend e name key data deleted h
      obtain ⟨answers, e'', hrun, h''⟩ := ih h'
      exact ⟨answer :: answers, e'', by rw [run, hexec]; simp [hrun], h''⟩

/-! ### Sequence numbers -/

/-- The trails are in the order of their sequence numbers, and no two keys share a version. -/
structure Numbered (e : Engine) : Prop where
  ordered : ∀ name, ((e.history name).map (·.seq)).Pairwise (· > ·)
  bounded : ∀ name, ∀ revision ∈ e.history name, revision.seq ≤ e.seq
  apart : ∀ name name' key key' v, e.version name key = some v → e.version name' key' = some v →
    name = name' ∧ key = key'

@[simp]
theorem history_append (e : Engine) (name n : String) (key : Key) (data : Value) (deleted : Bool) :
    (e.append name key data deleted).history n =
      if n = name then ⟨e.seq + 1, key, data, deleted⟩ :: e.history n else e.history n := by
  unfold append
  dsimp only
  by_cases h : n = name
  · subst h
    rw [Function.update_self, if_pos rfl]
  · rw [Function.update_of_ne h, if_neg h]

@[simp] theorem version_append (e : Engine) (name n : String) (key k : Key) (data : Value)
    (deleted : Bool) : (e.append name key data deleted).version n k =
      if n = name ∧ k = key then some ⟨e.seq + 1, "memory"⟩ else e.version n k := by
  rw [version, history_append]
  by_cases h : n = name
  · rw [if_pos h, Trail.latest_cons]
    by_cases hk : k = key
    · rw [if_pos hk, if_pos ⟨h, hk⟩]
      rfl
    · rw [if_neg hk, if_neg fun hc => hk hc.2]
      rfl
  · rw [if_neg h, if_neg fun hc => h hc.1]
    rfl

namespace Numbered

theorem new : Numbered .new := ⟨fun _ => .nil, nofun, nofun⟩

theorem version_le (h : Numbered e) {v : Version} (hv : e.version name key = some v) :
    v.revision ≤ e.seq := by
  obtain ⟨revision, hrevision, rfl⟩ := Option.map_eq_some_iff.mp hv
  exact h.bounded name revision (List.mem_of_find?_eq_some hrevision)

/-- The next number is above all others. -/
theorem append (h : Numbered e) (name : String) (key : Key) (data : Value) (deleted : Bool) :
    Numbered (e.append name key data deleted) where
  ordered n := by
    rw [history_append]
    split
    · refine List.pairwise_cons.mpr ⟨fun seq hseq => ?_, h.ordered n⟩
      obtain ⟨revision, hrevision, rfl⟩ := List.mem_map.mp hseq
      exact Nat.lt_succ_of_le (h.bounded n revision hrevision)
    · exact h.ordered n
  bounded n revision hrevision := by
    rw [history_append] at hrevision
    split at hrevision
    · rcases List.mem_cons.mp hrevision with rfl | hold
      · exact Nat.le_refl _
      · exact (h.bounded n revision hold).trans (Nat.le_succ _)
    · exact (h.bounded n revision hrevision).trans (Nat.le_succ _)
  apart n n' k k' v hv hv' := by
    rw [version_append] at hv hv'
    have hnew : ∀ {m l}, e.version m l = some v → v ≠ ⟨e.seq + 1, "memory"⟩ := by
      rintro m l hold rfl
      exact absurd (h.version_le hold) (Nat.not_succ_le_self _)
    split at hv
    · split at hv'
      · rename_i hkey hkey'
        exact ⟨hkey.1.trans hkey'.1.symm, hkey.2.trans hkey'.2.symm⟩
      · exact absurd (Option.some.inj hv).symm (hnew hv')
    · split at hv'
      · exact absurd (Option.some.inj hv').symm (hnew hv)
      · exact h.apart n n' k k' v hv hv'

end Numbered

/-- No key has this version, nor will one get it. -/
structure Spent (e : Engine) (v : Version) : Prop where
  past : v.revision ≤ e.seq
  gone : ∀ name key, e.version name key ≠ some v

theorem Spent.append {v : Version} (h : Spent e v) (name : String) (key : Key) (data : Value)
    (deleted : Bool) : Spent (e.append name key data deleted) v where
  past := h.past.trans (Nat.le_succ _)
  gone n k hv := by
    rw [version_append] at hv
    split at hv
    · obtain rfl := Option.some.inj hv
      exact absurd h.past (Nat.not_succ_le_self _)
    · exact h.gone n k hv

/-- Writing over a version spends it. -/
theorem Numbered.spent (h : Numbered e) {v : Version} (hv : e.version name key = some v)
    (data : Value) (deleted : Bool) : Spent (e.append name key data deleted) v where
  past := (h.version_le hv).trans (Nat.le_succ _)
  gone n k hnew := by
    rw [version_append] at hnew
    split at hnew
    · obtain rfl := Option.some.inj hnew
      exact absurd (h.version_le hv) (Nat.not_succ_le_self _)
    · rename_i hother
      exact hother (h.apart n name k key v hnew hv)

/-! ### What a conditional write does -/

/-- The state before a conditional write, its answer, and the state after. -/
structure Conditional (e : Engine) (name : String) (key : Key) (expected : Option Version)
    (data : Value) (deleted : Bool) (answer : Except String CasResult) (e' : Engine) : Prop where
  applies : (∃ result, answer = .ok result ∧ result.applied = true) ↔
    (expected = none ∧ e.current name key = none) ∨
      ∃ v, expected = some v ∧ e.version name key = some v
  /-- An applied write is appended, and answered with what is current from then on. -/
  written : ∀ result, answer = .ok result → result.applied = true →
    e' = e.append name key data deleted ∧ result.version = e'.version name key ∧
      result.data = e'.current name key
  /-- A refused write leaves the engine alone and is answered with what is current. -/
  refused : ∀ result, answer = .ok result → result.applied = false →
    e' = e ∧ result.version = e.version name key ∧ result.data = e.current name key
  /-- A version was expected of a key that never had one. -/
  missing : ∀ message, answer = .error message →
    e' = e ∧ message = "not-found" ∧ expected ≠ none ∧ e.version name key = none

theorem current_eq_none : e.current name key = none ↔
    ∀ revision ∈ (e.history name).latest key, revision.deleted = true := by
  rw [current, Trail.current]
  cases (e.history name).latest key with
  | none => simp
  | some revision => cases h : revision.deleted <;> simp [h]

theorem compareAndSwap_applies (e : Engine) (name : String) (key : Key)
    (expected : Option Version) (data : Value) (deleted : Bool) :
    (∃ result, (e.compareAndSwap name key expected data deleted).1 = .ok result ∧
        result.applied = true) ↔
      (expected = none ∧ e.current name key = none) ∨
        ∃ v, expected = some v ∧ e.version name key = some v := by
  rw [current_eq_none, version]
  unfold compareAndSwap
  cases expected with
  | none =>
      cases hlatest : (e.history name).latest key with
      | none => simp
      | some revision => cases h : revision.deleted <;> simp [h]
  | some v =>
      cases hlatest : (e.history name).latest key with
      | none => simp
      | some revision =>
          by_cases h : v = ⟨revision.seq, "memory"⟩
          · simp [h]
          · simp [h, Ne.symm h]

/-- A conditional write is applied, meets a revision it did not expect, or misses the one it did. -/
theorem compareAndSwap_cases (e : Engine) (name : String) (key : Key) (expected : Option Version)
    (data : Value) (deleted : Bool) :
    e.compareAndSwap name key expected data deleted =
        (.ok ⟨true, some ⟨e.seq + 1, "memory"⟩, if deleted then none else some data, deleted⟩,
          e.append name key data deleted) ∨
      (∃ revision, (e.history name).latest key = some revision ∧
        e.compareAndSwap name key expected data deleted =
          (.ok ⟨false, some ⟨revision.seq, "memory"⟩,
            if revision.deleted then none else some revision.data, revision.deleted⟩, e)) ∨
      (e.history name).latest key = none ∧ expected ≠ none ∧
        e.compareAndSwap name key expected data deleted = (.error "not-found", e) := by
  unfold compareAndSwap
  cases expected with
  | none =>
      cases (e.history name).latest key with
      | none => exact Or.inl rfl
      | some revision =>
          cases h : revision.deleted with
          | true => exact Or.inl (by simp [h])
          | false => exact Or.inr (Or.inl ⟨revision, rfl, by simp [h]⟩)
  | some v =>
      cases (e.history name).latest key with
      | none => exact Or.inr (Or.inr ⟨rfl, nofun, rfl⟩)
      | some revision =>
          by_cases h : v = ⟨revision.seq, "memory"⟩
          · exact Or.inl (if_pos h)
          · exact Or.inr (Or.inl ⟨revision, rfl, if_neg h⟩)

theorem compareAndSwap_conditional (e : Engine) (name : String) (key : Key)
    (expected : Option Version) (data : Value) (deleted : Bool) :
    Conditional e name key expected data deleted
      (e.compareAndSwap name key expected data deleted).1
      (e.compareAndSwap name key expected data deleted).2 := by
  -- The three ways a swap ends: it applies, it finds a revision it did not expect, or it expects
  -- one of a document that has none.
  refine ⟨compareAndSwap_applies .., ?_, ?_, ?_⟩
  · intro result hresult happlied
    rcases e.compareAndSwap_cases name key expected data deleted with
      hcase | ⟨revision, -, hcase⟩ | ⟨-, -, hcase⟩
    · rw [hcase] at hresult ⊢
      obtain rfl := Except.ok.inj hresult
      exact ⟨rfl, by simp [version_append], by simp [current_append]⟩
    · rw [hcase] at hresult
      obtain rfl := Except.ok.inj hresult
      cases happlied
    · rw [hcase] at hresult
      cases hresult
  · intro result hresult happlied
    rcases e.compareAndSwap_cases name key expected data deleted with
      hcase | ⟨revision, hlatest, hcase⟩ | ⟨-, -, hcase⟩
    · rw [hcase] at hresult
      obtain rfl := Except.ok.inj hresult
      cases happlied
    · rw [hcase] at hresult ⊢
      obtain rfl := Except.ok.inj hresult
      exact ⟨rfl, by rw [version, hlatest]; rfl, by rw [current, Trail.current, hlatest]; rfl⟩
    · rw [hcase] at hresult
      cases hresult
  · intro message hmessage
    rcases e.compareAndSwap_cases name key expected data deleted with
      hcase | ⟨revision, -, hcase⟩ | ⟨hlatest, hexpected, hcase⟩
    · rw [hcase] at hmessage
      cases hmessage
    · rw [hcase] at hmessage
      cases hmessage
    · rw [hcase] at hmessage ⊢
      exact ⟨rfl, (Except.error.inj hmessage).symm, hexpected, by rw [version, hlatest]; rfl⟩

/-- What every conditional write does; none panics. -/
theorem compareAndSwap?_conditional (e : Engine) (name : String) (key : Key)
    (expected : Option Version) (data : Value) (deleted : Bool) : ∃ answer e',
    e.compareAndSwap? name key expected data deleted = some (answer, e') ∧
      Conditional e name key expected data deleted answer e' :=
  ⟨_, _, compareAndSwap?_eq, e.compareAndSwap_conditional name key expected data deleted⟩

/-! ### Conditional writes that expect the same version -/

/-- The version that an applied conditional write expected. -/
def appliedVersion : Write → Answer → Option Version
  | .compareAndSwap _ _ expected _ _, .cas (.ok result) =>
      if result.applied then expected else none
  | _, _ => none

/-- The versions that the applied writes of a run expected. -/
def applied : List Write → List Answer → List Version
  | w :: ws, answer :: answers => (appliedVersion w answer).toList ++ applied ws answers
  | _, _ => []

/-- A write is applied over the version it expected. -/
theorem exec_applied {w : Write} {answer : Answer} {v : Version}
    (h : exec w e = some (answer, e')) (hv : appliedVersion w answer = some v) :
    ∃ name key data deleted, e.version name key = some v ∧
      e' = e.append name key data deleted := by
  cases w with
  | append =>
      obtain ⟨rfl, -⟩ := Prod.mk.inj (Option.some.inj h)
      cases hv
  | compareAndSwap name key expected data deleted =>
      obtain ⟨result, e'', hswap, hcond⟩ :=
        e.compareAndSwap?_conditional name key expected data deleted
      rw [exec, hswap] at h
      obtain ⟨rfl, rfl⟩ := Prod.mk.inj (Option.some.inj h)
      cases result with
      | error message => cases hv
      | ok result =>
          rw [appliedVersion] at hv
          split at hv
          · rename_i happlied
            subst hv
            rcases hcond.applies.mp ⟨result, rfl, happlied⟩ with ⟨hnone, -⟩ | ⟨v', hsome, hversion⟩
            · cases hnone
            · obtain rfl := Option.some.inj hsome
              exact ⟨name, key, data, deleted, hversion, (hcond.written result rfl happlied).1⟩
          · cases hv

/-- The answers of a run come call by call. -/
theorem run_cons {w : Write} {ws : List Write} {answers : List Answer}
    (h : run (w :: ws) e = some (answers, e')) : ∃ answer rest e'',
      exec w e = some (answer, e'') ∧ run ws e'' = some (rest, e') ∧ answers = answer :: rest := by
  simp only [run, Option.bind_eq_bind, Option.bind_eq_some_iff] at h
  obtain ⟨⟨answer, e''⟩, hexec, ⟨rest, last⟩, hrun, hpure⟩ := h
  obtain ⟨rfl, rfl⟩ := Prod.mk.inj (Option.some.inj hpure)
  exact ⟨answer, rest, e'', hexec, hrun, rfl⟩

theorem exec_append {w : Write} {answer : Answer} {P : Engine → Prop}
    (hexec : exec w e = some (answer, e'))
    (happend : ∀ name key data deleted, P (e.append name key data deleted)) (h : P e) : P e' := by
  obtain ⟨answer', e'', hexec', hcases⟩ := exec_cases w e
  obtain ⟨-, rfl⟩ := Prod.mk.inj (Option.some.inj (hexec.symm.trans hexec'))
  rcases hcases with rfl | ⟨name, key, data, deleted, rfl⟩
  · exact h
  · exact happend name key data deleted

/-- No write that expects a spent version is applied. -/
theorem Spent.not_applied {v : Version} {ws : List Write} {answers : List Answer}
    (h : Spent e v) (hrun : run ws e = some (answers, e')) : v ∉ applied ws answers := by
  induction ws generalizing e answers with
  | nil => exact List.not_mem_nil
  | cons w ws ih =>
      obtain ⟨answer, rest, e'', hexec, hrest, rfl⟩ := run_cons hrun
      rw [applied, List.mem_append, not_or]
      refine ⟨fun hmem => ?_, ih (exec_append (P := (Spent · v)) hexec h.append h) hrest⟩
      obtain ⟨name, key, -, -, hversion, -⟩ := exec_applied hexec (Option.mem_toList.mp hmem)
      exact h.gone name key hversion

/-- Of the writes of a run that expect one version, at most one is applied. -/
theorem Numbered.applied_nodup {ws : List Write} {answers : List Answer} (h : Numbered e)
    (hrun : run ws e = some (answers, e')) : (applied ws answers).Nodup := by
  induction ws generalizing e answers with
  | nil => exact .nil
  | cons w ws ih =>
      obtain ⟨answer, rest, e'', hexec, hrest, rfl⟩ := run_cons hrun
      have hnodup := ih (exec_append (P := Numbered) hexec h.append h) hrest
      rw [applied]
      cases happlied : appliedVersion w answer with
      | none => exact hnodup
      | some v =>
          obtain ⟨name, key, data, deleted, hversion, rfl⟩ := exec_applied hexec happlied
          exact List.nodup_cons.mpr ⟨(h.spent hversion data deleted).not_applied hrest, hnodup⟩

/-! ### Whole runs -/

/-- The trails of `e` are the older part of those of `e'`. -/
def Extends (e e' : Engine) : Prop := ∀ name, e.history name <:+ e'.history name

theorem Extends.append (h : Extends e e') (name : String) (key : Key) (data : Value)
    (deleted : Bool) : Extends e (e'.append name key data deleted) := by
  intro n
  rw [history_append]
  split
  · exact (h n).trans (List.suffix_cons ..)
  · exact h n

theorem getLast?_historyOf (e : Engine) (name : String) (key : Key) :
    (e.historyOf name key).getLast? = (e.history name).latest key := by
  rw [historyOf, List.filter_reverse, List.getLast?_reverse, List.head?_filter]
  rfl

/-- After any appends and conditional writes the live keys and the versions are those of the trails,
the trails are numbered upwards, and they are only ever added to. No conditional write panics; each
is applied under the current version or over nothing, and of those that expect one version at most
one is applied. An expectation of a key that is not there is answered with an error and without a
revision, since there is none to report. -/
theorem conditional_writes (writes : List Write) :
    ∃ answers e, run writes .new = some (answers, e) ∧ (applied writes answers).Nodup ∧
      (∀ name key, key ∈ e.keys name ↔ ∃ data, e.current name key = some data) ∧
      (∀ name key, e.version name key =
        (e.historyOf name key).getLast?.map fun revision => ⟨revision.seq, "memory"⟩) ∧
      (∀ name, ((e.history name).map (·.seq)).Pairwise (· > ·)) ∧
      (∀ more, ∃ answers' e', run more e = some (answers', e') ∧ Extends e e') ∧
      ∀ name key expected data deleted, ∃ answer e',
        e.compareAndSwap? name key expected data deleted = some (answer, e') ∧
          Conditional e name key expected data deleted answer e' := by
  obtain ⟨answers, e, hrun, hnumbered⟩ :=
    run_induction (P := Numbered) (fun _ name key data deleted h => h.append name key data deleted)
      writes .new
  have hversion : ∀ name key, e.version name key =
      (e.historyOf name key).getLast?.map fun revision => ⟨revision.seq, "memory"⟩ :=
    fun name key => by rw [getLast?_historyOf, version]
  have hextends : ∀ more, ∃ answers' e', run more e = some (answers', e') ∧ Extends e e' :=
    fun more => run_induction (P := Extends e)
      (fun _ name key data deleted h => h.append name key data deleted) more
      fun _ => List.suffix_refl _
  exact ⟨answers, e, hrun, Numbered.new.applied_nodup hrun, fun _ _ => mem_keys, hversion,
    hnumbered.ordered, hextends, e.compareAndSwap?_conditional⟩

/-- A version that is expected of a key without one is answered with an error, and with nothing of
what is current. -/
theorem missing_has_no_result : ¬ ∀ (e : Engine) name key expected data deleted,
    (∃ result, (e.compareAndSwap name key expected data deleted).1 = .ok result ∧
      result.applied = true) ∨
    (e.compareAndSwap name key expected data deleted).2 = e ∧
      ∃ result, (e.compareAndSwap name key expected data deleted).1 = .ok result ∧
        result.version = e.version name key ∧ result.data = e.current name key := by
  intro h
  rcases h .new "issue" ["a"] (some ⟨1, "memory"⟩) .null false with
    ⟨result, hresult, -⟩ | ⟨-, result, hresult, -⟩
  · cases hresult
  · cases hresult

end Engine

end Marbles.Records
