import Marbles.Lib.Outcome
import Marbles.Lib.Sort
import Marbles.Lib.Table

/-!
# Shared tables and their tenants

Tables shared by several tenants carry the tenant as the first component of every key.
The first half says which statements one tenant's rows determine: a `select` that names
the tenant, and a `join` whose condition names it on both sides.

The second half is about computations over a shared state of which each tenant sees a
`view`. `Confined` is a transaction body whose result and effect depend on one view only
and that leaves every other view alone; `Isolated` is the same for a program that
commits as it goes. Both are closed under the ways programs are put together.

For a computation, not depending on other tenants and leaving them alone are proved together,
since binding needs both: what comes next must start from databases that still agree.
-/

universe u v

/-! ### Statements over shared tables -/

namespace Table

variable {γ κ κ' : Type u} {ν ν' : Type v}
  [LinearOrder γ] [LinearOrder κ] [LinearOrder κ'] [DecidableEq γ] [DecidableEq κ]
  [DecidableEq κ']

/-- The rows of one tenant, by the rest of their keys. -/
def tenant (t : Table (γ × κ) ν) (c : γ) : κ → Option ν := fun k => t.find (c, k)

/-- All rows, in the order of their keys: a set of rows is read in one order only. -/
def scan (t : Table (γ × κ) ν) : List ((γ × κ) × ν) := Sorting.sortOn (fun r => toLex r.1) t.rows

/-- `SELECT … WHERE tenant = c AND p`. -/
def select (t : Table (γ × κ) ν) (c : γ) (p : γ × κ → ν → Bool) : List ((γ × κ) × ν) :=
  t.scan.filter fun r => r.1.1 = c && p r.1 r.2

/-- `SELECT … FROM t JOIN t' ON on`. -/
def join (t : Table (γ × κ) ν) (t' : Table (γ × κ') ν')
    (on : (γ × κ) × ν → (γ × κ') × ν' → Bool) : List (((γ × κ) × ν) × (γ × κ') × ν') :=
  t.scan.flatMap fun r => (t'.scan.filter (on r)).map fun r' => (r, r')

omit [LinearOrder γ] [LinearOrder κ] in
@[simp] theorem tenant_apply (t : Table (γ × κ) ν) (c : γ) (k : κ) :
    t.tenant c k = t.find (c, k) := rfl

omit [LinearOrder γ] [LinearOrder κ] in
@[simp] theorem tenant_empty (c : γ) :
    (Table.empty : Table (γ × κ) ν).tenant c = fun _ => none := rfl

theorem mem_scan {t : Table (γ × κ) ν} {r : (γ × κ) × ν} :
    r ∈ t.scan ↔ t.tenant r.1.1 r.1.2 = some r.2 := by
  unfold scan
  rw [Sorting.mem_sortOn]
  exact mem_rows

omit [DecidableEq γ] [DecidableEq κ] in
/-- A scan is in the order of its keys. -/
theorem pairwise_scan (t : Table (γ × κ) ν) :
    t.scan.Pairwise fun a b => toLex a.1 < toLex b.1 := by
  have hnodup : (t.rows.map fun r => toLex r.1).Nodup := by
    have h := t.nodup.map (f := toLex) toLex.injective
    rwa [List.map_map] at h
  exact List.pairwise_map.mp (Sorting.pairwise_sortOn_lt hnodup)

/-- What a query that names a tenant returns depends on the rows of that tenant only. -/
theorem select_congr {t t' : Table (γ × κ) ν} {c : γ} {p p' : γ × κ → ν → Bool}
    (h : t.tenant c = t'.tenant c) (hp : ∀ k v, p (c, k) v = p' (c, k) v) :
    t.select c p = t'.select c p' := by
  have hmem : ∀ r, r ∈ t.select c p ↔ r ∈ t'.select c p' := by
    rintro ⟨⟨d, k⟩, v⟩
    simp only [select, List.mem_filter, mem_scan, Bool.and_eq_true, decide_eq_true_eq]
    constructor
    · rintro ⟨hfind, rfl, hpv⟩
      exact ⟨h ▸ hfind, rfl, hp k v ▸ hpv⟩
    · rintro ⟨hfind, rfl, hpv⟩
      exact ⟨h ▸ hfind, rfl, hp k v ▸ hpv⟩
  -- two lists in strict order with the same members are the same list
  have hsorted := t.pairwise_scan.filter fun r => r.1.1 = c && p r.1 r.2
  have hsorted' := t'.pairwise_scan.filter fun r => r.1.1 = c && p' r.1 r.2
  have hne : ∀ {a b : (γ × κ) × ν}, toLex a.1 < toLex b.1 → a ≠ b := by
    rintro a b hlt rfl
    exact lt_irrefl _ hlt
  have hnodup : (t.select c p).Nodup := hsorted.imp hne
  have hnodup' : (t'.select c p').Nodup := hsorted'.imp hne
  exact ((List.perm_ext_iff_of_nodup hnodup hnodup').mpr hmem).eq_of_pairwise
    (fun a b _ _ hab hba => absurd hba hab.asymm) hsorted hsorted'

theorem flatMap_filter {α β : Type*} {l : List α} {f : α → List β} {p : α → Bool}
    (h : ∀ a, p a = false → f a = []) : l.flatMap f = (l.filter p).flatMap f := by
  induction l with
  | nil => rfl
  | cons a l ih =>
      rw [List.flatMap_cons, ih, List.filter_cons]
      cases hp : p a with
      | true => rfl
      | false => rw [h a hp]; rfl

/-- A join of rows of one tenant depends on the rows of that tenant only. -/
theorem join_congr {t u : Table (γ × κ) ν} {t' u' : Table (γ × κ') ν'} {c : γ}
    {on : (γ × κ) × ν → (γ × κ') × ν' → Bool} (h : t.tenant c = u.tenant c)
    (h' : t'.tenant c = u'.tenant c)
    (hon : ∀ r r', on r r' = true → r.1.1 = c ∧ r'.1.1 = c) : t.join t' on = u.join u' on := by
  -- a row of another tenant joins with nothing, a row of `c` with rows of `c`
  have hother : ∀ (s : Table (γ × κ') ν') (r : (γ × κ) × ν),
      (decide (r.1.1 = c) && true) = false →
      (s.scan.filter (on r)).map (fun r' => (r, r')) = [] := by
    intro s r hr
    have hnil : s.scan.filter (on r) = [] := by
      refine List.filter_eq_nil_iff.mpr fun r' _ hjoin => ?_
      simp [(hon r r' hjoin).1] at hr
    rw [hnil]
    rfl
  have hscan : ∀ (s : Table (γ × κ') ν') (r : (γ × κ) × ν),
      s.scan.filter (on r) = s.select c fun k v => on r (k, v) := by
    intro s r
    refine List.filter_congr fun r' _ => ?_
    cases hjoin : on r r' with
    | true => simp [(hon r r' hjoin).2, hjoin]
    | false => simp [hjoin]
  unfold join
  rw [flatMap_filter (hother t'), flatMap_filter (hother u')]
  show (t.select c fun _ _ => true).flatMap _ = (u.select c fun _ _ => true).flatMap _
  rw [select_congr h fun _ _ => rfl]
  refine congrArg (List.flatMap · _) (funext fun r => ?_)
  rw [hscan, hscan, select_congr h' fun _ _ => rfl]

/-! #### What the statements of one tenant do to another -/

omit [LinearOrder γ] [LinearOrder κ] in
/-- A statement about the row under `(c, k)` changes that row for `c`, and nothing else. -/
theorem tenant_of_find {t t' : Table (γ × κ) ν} {c : γ} {k : κ} {row : Option ν}
    (h : ∀ k', t'.find k' = if k' = (c, k) then row else t.find k') (d : γ) :
    t'.tenant d = if d = c then Function.update (t.tenant c) k row else t.tenant d := by
  funext k'
  rw [tenant_apply, h]
  by_cases hd : d = c
  · subst hd
    by_cases hk : k' = k
    · subst hk
      simp
    · simp [hk]
  · simp [hd]

omit [LinearOrder γ] [LinearOrder κ] in
theorem tenant_modify (t : Table (γ × κ) ν) (c : γ) (k : κ) (f : ν → ν) (d : γ) :
    (t.modify (c, k) f).tenant d =
      if d = c then Function.update (t.tenant c) k ((t.tenant c k).map f) else t.tenant d := by
  refine tenant_of_find (fun k' => ?_) d
  rw [find_modify]
  split
  · rename_i hk
    rw [hk]
    rfl
  · rfl

omit [LinearOrder γ] [LinearOrder κ] in
theorem tenant_insert (t : Table (γ × κ) ν) (c : γ) (k : κ) (v : ν) (d : γ) :
    (t.insert (c, k) v).tenant d =
      if d = c then Function.update (t.tenant c) k (some ((t.tenant c k).getD v))
      else t.tenant d :=
  tenant_of_find (fun k' => find_insert t (c, k) k' v) d

omit [LinearOrder γ] [LinearOrder κ] in
theorem tenant_upsert (t : Table (γ × κ) ν) (c : γ) (k : κ) (v : ν) (f : ν → ν) (d : γ) :
    (t.upsert (c, k) v f).tenant d =
      if d = c then Function.update (t.tenant c) k (some (((t.tenant c k).map f).getD v))
      else t.tenant d :=
  tenant_of_find (fun k' => find_upsert t (c, k) k' v f) d

omit [LinearOrder γ] [LinearOrder κ] in
theorem tenant_erase (t : Table (γ × κ) ν) (c : γ) (k : κ) (d : γ) :
    (t.erase (c, k)).tenant d =
      if d = c then Function.update (t.tenant c) k none else t.tenant d :=
  tenant_of_find (fun k' => find_erase t (c, k) k') d

end Table

/-! ### Computations over a shared state -/

namespace Tenancy

variable {γ σ τ ε α β : Type} {view : γ → σ → τ} {c : γ}

/-- Read the state. -/
def query (q : σ → Outcome ε α) : StateT σ (Except (Fault ε)) α := fun s =>
  (q s).map fun a => (a, s)

/-- Update the state. -/
def execute (f : σ → σ) : StateT σ (Except (Fault ε)) Unit := fun s => .ok ((), f s)

/-- Go on with what was computed without the state. -/
def ofResult (r : Outcome ε α) : StateT σ (Except (Fault ε)) α := query fun _ => r

/-- A sequence returns a value when both parts do, the second from the state the first left. -/
theorem bind_eq_ok {m : StateT σ (Except (Fault ε)) α} {k : α → StateT σ (Except (Fault ε)) β}
    {s s' : σ} {b : β} :
    (m >>= k) s = .ok (b, s') ↔ ∃ a t, m s = .ok (a, t) ∧ k a t = .ok (b, s') := by
  refine (Outcome.bind_eq_ok (x := m s) (f := fun p => k p.1 p.2)).trans ?_
  constructor
  · rintro ⟨⟨a, t⟩, hm, hk⟩
    exact ⟨a, t, hm, hk⟩
  · rintro ⟨a, t, hm, hk⟩
    exact ⟨(a, t), hm, hk⟩

theorem query_eq_ok {q : σ → Outcome ε α} {s s' : σ} {a : α}
    (h : query q s = .ok (a, s')) : q s = .ok a ∧ s' = s := by
  unfold query at h
  cases hq : q s with
  | ok b =>
      rw [hq] at h
      cases h
      exact ⟨rfl, rfl⟩
  | error e => rw [hq] at h; cases h

theorem pure_eq_ok {s s' : σ} {a b : α}
    (h : (pure a : StateT σ (Except (Fault ε)) α) s = .ok (b, s')) : b = a ∧ s' = s := by
  obtain ⟨ha, hs⟩ := Prod.mk.inj (Except.ok.inj h)
  exact ⟨ha.symm, hs.symm⟩

theorem execute_eq_ok {f : σ → σ} {s s' : σ} {u : Unit}
    (h : (execute f : StateT σ (Except (Fault ε)) Unit) s = .ok (u, s')) : s' = f s :=
  (Prod.mk.inj (Except.ok.inj h)).2.symm

/-! #### Frames -/

/-- A body that leaves a part of the state alone. -/
def Keeps (part : σ → τ) (m : StateT σ (Except (Fault ε)) α) : Prop :=
  ∀ s a s', m s = .ok (a, s') → part s' = part s

namespace Keeps

variable {part : σ → τ}

theorem query (q : σ → Outcome ε α) : Keeps part (Tenancy.query q) := fun _ _ _ h => by
  rw [(query_eq_ok h).2]

theorem pure (a : α) : Keeps part (Pure.pure a : StateT σ (Except (Fault ε)) α) :=
    fun _ _ _ h => by
  cases h
  rfl

theorem execute {f : σ → σ} (hf : ∀ s, part (f s) = part s) :
    Keeps part (Tenancy.execute f : StateT σ (Except (Fault ε)) Unit) := fun _ _ _ h => by
  cases h
  exact hf _

theorem bind {m : StateT σ (Except (Fault ε)) α} {k : α → StateT σ (Except (Fault ε)) β}
    (hm : Keeps part m) (hk : ∀ a, Keeps part (k a)) : Keeps part (m >>= k) :=
    fun _ _ _ h => by
  obtain ⟨a, t, hma, hka⟩ := bind_eq_ok.mp h
  exact (hk a _ _ _ hka).trans (hm _ _ _ hma)

end Keeps

/-! #### Confined bodies -/

/-- Depends on the view of `c` only. -/
def Reads (view : γ → σ → τ) (c : γ) (q : σ → α) : Prop :=
  ∀ {s s' : σ}, view c s = view c s' → q s = q s'

/-- What a tenant sees of a result and the state it comes with. -/
def seen (view : γ → σ → τ) (c : γ) (p : α × σ) : α × τ := (p.1, view c p.2)

/-- A body whose result and effect on the view of `c` depend on that view only, and that
leaves every other view alone. -/
structure Confined (view : γ → σ → τ) (c : γ) (m : StateT σ (Except (Fault ε)) α) : Prop where
  same : Reads view c fun s => (m s).map (seen view c)
  frame : ∀ d, d ≠ c → Keeps (view d) m

namespace Confined

theorem query {q : σ → Outcome ε α} (hq : Reads view c q) :
    Confined view c (Tenancy.query q) := by
  refine ⟨fun {s s'} h => ?_, fun d _ => .query q⟩
  show ((q s).map _).map _ = ((q s').map _).map _
  rw [hq h]
  cases q s' with
  | ok a => exact congrArg (fun v => Except.ok (a, v)) h
  | error e => rfl

theorem ofResult (r : Outcome ε α) : Confined view c (Tenancy.ofResult r) := query fun _ => rfl

theorem pure (a : α) : Confined view c (Pure.pure a : StateT σ (Except (Fault ε)) α) :=
  ofResult (.ok a)

/-- An update that changes the view of `c` as `g` says, and no other view. -/
theorem execute [DecidableEq γ] {f : σ → σ} {g : τ → τ}
    (hf : ∀ s d, view d (f s) = if d = c then g (view c s) else view d s) :
    Confined view c (Tenancy.execute f : StateT σ (Except (Fault ε)) Unit) := by
  refine ⟨fun {s s'} h => ?_, fun d hd => .execute fun s => ?_⟩
  · show Except.ok ((), view c (f s)) = .ok ((), view c (f s'))
    rw [hf, hf, if_pos rfl, if_pos rfl, h]
  · rw [hf, if_neg hd]

/-- The parts of a sequence may be confined each on its own. -/
theorem bind {m : StateT σ (Except (Fault ε)) α} {k : α → StateT σ (Except (Fault ε)) β}
    (hm : Confined view c m) (hk : ∀ a, Confined view c (k a)) : Confined view c (m >>= k) := by
  refine ⟨fun {s s'} h => ?_, fun d hd => .bind (hm.frame d hd) fun a => (hk a).frame d hd⟩
  have hms : (m s).map (seen view c) = (m s').map (seen view c) := hm.same h
  show ((m s).bind fun p => k p.1 p.2).map _ = ((m s').bind fun p => k p.1 p.2).map _
  cases hs : m s with
  | ok p =>
      cases hs' : m s' with
      | ok p' =>
          -- both first parts return the same value, and views to go on from
          rw [hs, hs'] at hms
          obtain ⟨ha, hview⟩ := Prod.mk.inj (Except.ok.inj hms)
          show (k p.1 p.2).map _ = (k p'.1 p'.2).map _
          rw [ha]
          exact (hk p'.1).same hview
      | error e => rw [hs, hs'] at hms; cases hms
  | error e =>
      cases hs' : m s' with
      | ok p' => rw [hs, hs'] at hms; cases hms
      | error e' => rw [hs, hs'] at hms; cases hms; rfl

theorem foldlM {xs : List β} {f : α → β → StateT σ (Except (Fault ε)) α}
    (hf : ∀ a x, Confined view c (f a x)) (a : α) : Confined view c (xs.foldlM f a) := by
  induction xs generalizing a with
  | nil => exact pure a
  | cons x xs ih =>
      rw [List.foldlM_cons]
      exact bind (hf a x) ih

end Confined

/-- A program that commits as it goes, from every state. -/
structure Isolated (view : γ → σ → τ) (c : γ) (m : ExceptT (Fault ε) (StateM σ) α) : Prop where
  same : Reads view c fun s => seen view c (m s)
  frame : ∀ s d, d ≠ c → view d (m s).2 = view d s

/-- Run a body as a transaction: what it wrote stays when it returns a value. -/
def transaction (m : StateT σ (Except (Fault ε)) α) : ExceptT (Fault ε) (StateM σ) α :=
  Locked.commit m

namespace Isolated

theorem transaction {m : StateT σ (Except (Fault ε)) α} (hm : Confined view c m) :
    Isolated view c (Tenancy.transaction m) := by
  constructor
  · intro s s' h
    have hms : (m s).map (seen view c) = (m s').map (seen view c) := hm.same h
    show seen view c (Locked.commit m s) = seen view c (Locked.commit m s')
    unfold Locked.commit
    cases hs : m s <;> cases hs' : m s' <;> simp_all [Except.map, seen]
  · intro s d hd
    show view d (Locked.commit m s).2 = view d s
    unfold Locked.commit
    cases hs : m s with
    | ok p => exact hm.frame d hd _ _ _ hs
    | error e => rfl

theorem throw (e : Fault ε) : Isolated view c (throw e : ExceptT (Fault ε) (StateM σ) α) :=
  ⟨fun h => congrArg (Prod.mk (Except.error e)) h, fun _ _ _ => rfl⟩

theorem pure (a : α) : Isolated view c (pure a : ExceptT (Fault ε) (StateM σ) α) :=
  ⟨fun h => congrArg (Prod.mk (Except.ok a)) h, fun _ _ _ => rfl⟩

theorem run_bind (m : ExceptT (Fault ε) (StateM σ) α) (k : α → ExceptT (Fault ε) (StateM σ) β)
    (s : σ) : (m >>= k) s = match (m s).1 with
      | .ok a => k a (m s).2
      | .error e => (.error e, (m s).2) := by
  show (ExceptT.bindCont k (m s).1 : StateM σ _) (m s).2 = _
  cases (m s).1 <;> rfl

theorem bind {m : ExceptT (Fault ε) (StateM σ) α} {k : α → ExceptT (Fault ε) (StateM σ) β}
    (hm : Isolated view c m) (hk : ∀ a, Isolated view c (k a)) : Isolated view c (m >>= k) := by
  constructor
  · intro s s' h
    obtain ⟨hresult, hview⟩ := Prod.mk.inj (hm.same h)
    show seen view c ((m >>= k) s) = seen view c ((m >>= k) s')
    rw [run_bind, run_bind, hresult]
    cases (m s').1 with
    | ok a => exact (hk a).same hview
    | error e => exact congrArg (Prod.mk (Except.error e)) hview
  · intro s d hd
    rw [run_bind]
    cases (m s).1 with
    | ok a => exact ((hk a).frame _ d hd).trans (hm.frame s d hd)
    | error e => exact hm.frame s d hd

theorem map {m : ExceptT (Fault ε) (StateM σ) α} (f : α → β) (hm : Isolated view c m) :
    Isolated view c (f <$> m) := by
  rw [map_eq_pure_bind]
  exact bind hm fun a => pure (f a)

end Isolated

/-! ### A round over the tenants -/

/-- The program returns a value. -/
def Succeeds (m : ExceptT (Fault ε) (StateM σ) α) (s : σ) : Prop := ∃ a, (m s).1 = .ok a

/-- Visit tenants one after the other; the first failure ends the round. -/
def round (visit : γ → ExceptT (Fault ε) (StateM σ) α) (cs : List γ) :
    ExceptT (Fault ε) (StateM σ) (List (γ × α)) :=
  cs.mapM fun c => do
    let a ← visit c
    pure (c, a)

/-- What a round leaves: the rest of it runs when the first visit succeeded. -/
theorem round_cons_state (visit : γ → ExceptT (Fault ε) (StateM σ) α) (c : γ) (cs : List γ)
    (s : σ) : (round visit (c :: cs) s).2 = match (visit c s).1 with
      | .ok _ => (round visit cs (visit c s).2).2
      | .error _ => (visit c s).2 := by
  unfold round
  rw [List.mapM_cons, bind_assoc, Isolated.run_bind]
  cases (visit c s).1 with
  | ok a =>
      show (((Pure.pure (c, a) : ExceptT (Fault ε) (StateM σ) (γ × α)) >>= _) _).2 = _
      rw [pure_bind, Isolated.run_bind]
      cases ((cs.mapM fun c => _ : ExceptT (Fault ε) (StateM σ) (List (γ × α))) _).1 <;> rfl
  | error e => rfl

section Round

variable {visit : γ → ExceptT (Fault ε) (StateM σ) α} (hvisit : ∀ c, Isolated view c (visit c))
include hvisit

/-- A visit succeeds or not whatever happened to the other tenants. -/
theorem succeeds_congr {s s' : σ} (h : view c s = view c s') :
    Succeeds (visit c) s ↔ Succeeds (visit c) s' := by
  unfold Succeeds
  rw [(Prod.mk.inj ((hvisit c).same h)).1]

/-- A tenant that is not visited keeps its view. -/
theorem view_round_of_not_mem {cs : List γ} (hc : c ∉ cs) (s : σ) :
    view c (round visit cs s).2 = view c s := by
  induction cs generalizing s with
  | nil => rfl
  | cons b cs ih =>
      obtain ⟨hb, hcs⟩ := not_or.mp (mt List.mem_cons.mpr hc)
      rw [round_cons_state]
      split
      · rw [ih hcs, (hvisit b).frame s c hb]
      · exact (hvisit b).frame s c hb

variable [LinearOrder γ]

/-- A tenant before which no visit fails is visited. -/
theorem view_round_of_reached {cs : List γ} (hcs : cs.Pairwise (· < ·)) (hc : c ∈ cs) {s : σ}
    (h : ∀ a ∈ cs, a < c → Succeeds (visit a) s) :
    view c (round visit cs s).2 = view c (visit c s).2 := by
  induction cs generalizing s with
  | nil => cases hc
  | cons b cs ih =>
      obtain ⟨hb, hcs⟩ := List.pairwise_cons.mp hcs
      rw [round_cons_state]
      rcases List.mem_cons.mp hc with rfl | hmem
      · -- the first of the list: nothing after it touches its view
        have hnot : c ∉ cs := fun hm => lt_irrefl c (hb c hm)
        split
        · exact view_round_of_not_mem hvisit hnot _
        · rfl
      · have hne : c ≠ b := (hb c hmem).ne'
        obtain ⟨x, hx⟩ := h b (List.mem_cons_self ..) (hb c hmem)
        rw [hx]
        show view c (round visit cs (visit b s).2).2 = _
        have hrest : ∀ a ∈ cs, a < c → Succeeds (visit a) (visit b s).2 := fun a ha hlt =>
          (succeeds_congr hvisit ((hvisit b).frame s a (hb a ha).ne')).mpr
            (h a (List.mem_cons_of_mem _ ha) hlt)
        rw [ih hcs hmem hrest]
        exact (Prod.mk.inj ((hvisit c).same ((hvisit b).frame s c hne))).2

/-- A tenant after a visit that fails keeps its view. -/
theorem view_round_of_obstructed {cs : List γ} (hcs : cs.Pairwise (· < ·)) {a : γ} (ha : a ∈ cs)
    (hlt : a < c) {s : σ} (hfail : ¬ Succeeds (visit a) s) :
    view c (round visit cs s).2 = view c s := by
  induction cs generalizing s with
  | nil => cases ha
  | cons b cs ih =>
      obtain ⟨hb, hcs⟩ := List.pairwise_cons.mp hcs
      have hbc : b < c := by
        rcases List.mem_cons.mp ha with rfl | hmem
        · exact hlt
        · exact (hb a hmem).trans hlt
      rw [round_cons_state]
      split
      · rename_i x hx
        rcases List.mem_cons.mp ha with rfl | hmem
        · exact absurd ⟨x, hx⟩ hfail
        · have hfail' : ¬ Succeeds (visit a) (visit b s).2 :=
            mt (succeeds_congr hvisit ((hvisit b).frame s a (hb a hmem).ne')).mp hfail
          rw [ih hcs hmem hfail', (hvisit b).frame s c hbc.ne']
      · exact (hvisit b).frame s c hbc.ne'

end Round

end Tenancy
