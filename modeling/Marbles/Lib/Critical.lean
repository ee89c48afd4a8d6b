import Marbles.Lib.Schedule

/-!
# The critical path of a schedule

A task has no slack when its latest finish is its finish. From the last task to finish one
walks back through tasks without slack; where a task does not start at 0, the dependency it
waits for has no slack either, so the walk arrives at 0 without a gap, and its tasks take the
whole schedule.

The walk is bounded by fuel here. That it ends by itself is a consequence of durations being
positive, since each step goes to a task that starts strictly earlier.
-/

universe u

namespace Schedule

variable {α : Type u} {deps : α → List α} {dur : α → Int} {tasks : List α}

/-- The element with the greatest key; of several, the last. -/
def lastMax (key : α → Int) (l : List α) : Option α :=
  l.foldl (fun best i => match best with
    | none => some i
    | some b => if key b ≤ key i then some i else some b) none

theorem lastMax_spec (key : α → Int) (l : List α) :
    (lastMax key l = none ↔ l = []) ∧
      ∀ b, lastMax key l = some b → b ∈ l ∧ ∀ i ∈ l, key i ≤ key b := by
  unfold lastMax
  -- From the end of the list, since the fold keeps the last of equals.
  induction l using List.reverseRecOn with
  | nil => exact ⟨iff_of_true rfl rfl, fun _ hb => absurd hb (by simp)⟩
  | append_singleton l j ih =>
      obtain ⟨hnone, hsome⟩ := ih
      rw [List.foldl_append, List.foldl_cons, List.foldl_nil]
      generalize l.foldl (fun best i => match best with
        | none => some i
        | some b => if key b ≤ key i then some i else some b) none = best at hnone hsome ⊢
      cases best with
      | none =>
          obtain rfl := hnone.mp rfl
          refine ⟨by simp, fun b hb => ?_⟩
          obtain rfl := Option.some.inj hb
          simp
      | some b =>
          obtain ⟨hmem, hle⟩ := hsome b rfl
          dsimp only
          split
          · rename_i hbj
            refine ⟨by simp, fun b' hb' => ?_⟩
            obtain rfl := Option.some.inj hb'
            refine ⟨by simp, fun i hi => ?_⟩
            rcases List.mem_append.mp hi with hi | hi
            · exact Int.le_trans (hle i hi) hbj
            · exact List.mem_singleton.mp hi ▸ Int.le_refl _
          · rename_i hbj
            refine ⟨by simp, fun b' hb' => ?_⟩
            obtain rfl := Option.some.inj hb'
            refine ⟨List.mem_append_left _ hmem, fun i hi => ?_⟩
            rcases List.mem_append.mp hi with hi | hi
            · exact hle i hi
            · exact List.mem_singleton.mp hi ▸ Int.le_of_lt (Int.not_le.mp hbj)

/-- From a task to its parent as long as there is one; the first task comes first. -/
def backtrack (parent : α → Option α) : Nat → α → List α
  | 0, cursor => [cursor]
  | fuel + 1, cursor =>
      match parent cursor with
      | some p => backtrack parent fuel p ++ [cursor]
      | none => [cursor]

theorem backtrack_of_none {parent : α → Option α} {i : α} (h : parent i = none) (fuel : Nat) :
    backtrack parent fuel i = [i] := by
  cases fuel with
  | zero => rfl
  | succ fuel => rw [backtrack, h]

/-- How much later than its finish a task may finish. -/
def slack (t : Times α) (latest : α → Int) (i : α) : Int := max (latest i - t.finish i) 0

/-- The last dependency to finish among those without slack. -/
def criticalParent (deps : α → List α) (t : Times α) (latest : α → Int) (i : α) : Option α :=
  lastMax t.finish ((deps i).filter fun p => slack t latest p = 0)

/-- The chain behind the last task without slack. -/
def criticalPath (deps : α → List α) (t : Times α) (latest : α → Int) (tasks : List α) : List α :=
  match lastMax t.finish (tasks.filter fun i => slack t latest i = 0) with
  | none => []
  | some cursor => backtrack (criticalParent deps t latest) tasks.length cursor

/-- A chain without a gap and without slack. -/
structure Critical (deps : α → List α) (t : Times α) (latest : α → Int) (path : List α) : Prop where
  links : path.IsChain fun p i => p ∈ deps i ∧ t.finish p = t.start i
  slack : ∀ i ∈ path, slack t latest i = 0
  first : ∀ i ∈ path.head?, t.start i = 0

section Walk

variable {t : Times α} {latest : α → Int} {total : Int} (hordered : Ordered deps tasks)
  (hdur : ∀ i ∈ tasks, 0 < dur i) (ht : Earliest deps dur tasks t)
  (hl : Latest deps dur tasks total latest) (hmax : ∀ i ∈ tasks, t.finish i ≤ total)

include hordered ht hl hmax in
theorem slack_eq_zero {i : α} (hi : i ∈ tasks) :
    slack t latest i = 0 ↔ latest i = t.finish i := by
  have hle := hl.finish_le ht hordered hmax i hi
  unfold slack
  omega

include hordered ht hl hmax in
/-- What comes before a task without slack: nothing when it starts at 0, and otherwise a
dependency without slack that finishes as the task starts. -/
theorem criticalParent_spec {i : α} (hi : i ∈ tasks) (hslack : slack t latest i = 0) :
    (∀ p, criticalParent deps t latest i = some p →
      p ∈ deps i ∧ slack t latest p = 0 ∧ (t.start i ≠ 0 → t.finish p = t.start i)) ∧
      (criticalParent deps t latest i = none → t.start i = 0) := by
  have hlatest := (slack_eq_zero hordered ht hl hmax hi).mp hslack
  -- the dependency that holds the task back has no slack either
  have hheld : t.start i ≠ 0 → ∃ p ∈ deps i, t.finish p = t.start i ∧ slack t latest p = 0 := by
    intro hstart
    obtain ⟨p, hp, heq⟩ := (ht.start_tight hi).resolve_left hstart
    have hptasks := hordered.deps_mem hi hp
    have hle := hl.le_start i hi p hp
    have hge := hl.finish_le ht hordered hmax p hptasks
    have hfinish := ht.finish i hi
    exact ⟨p, hp, heq.symm, (slack_eq_zero hordered ht hl hmax hptasks).mpr (by omega)⟩
  obtain ⟨hnone, hsome⟩ := lastMax_spec t.finish
    ((deps i).filter fun p => slack t latest p = 0)
  constructor
  · intro p hp
    obtain ⟨hmem, hle⟩ := hsome p hp
    obtain ⟨hpdeps, hpslack⟩ := List.mem_filter.mp hmem
    refine ⟨hpdeps, of_decide_eq_true hpslack, fun hstart => ?_⟩
    obtain ⟨q, hq, hqstart, hqslack⟩ := hheld hstart
    have hqle := hle q (List.mem_filter.mpr ⟨hq, decide_eq_true hqslack⟩)
    have hple := ht.finish_le_start hi hpdeps
    omega
  · intro hp
    by_contra hstart
    obtain ⟨q, hq, -, hqslack⟩ := hheld hstart
    have hmem : q ∈ (deps i).filter fun p => slack t latest p = 0 :=
      List.mem_filter.mpr ⟨hq, decide_eq_true hqslack⟩
    rw [hnone.mp hp] at hmem
    exact List.not_mem_nil hmem

include hordered ht hl hmax in
/-- A task without a parent is a critical chain by itself. -/
theorem critical_singleton {i : α} (hi : i ∈ tasks) (hslack : slack t latest i = 0)
    (hparent : criticalParent deps t latest i = none) :
    Critical deps t latest [i] ∧ length dur [i] = t.finish i := by
  have hstart := (criticalParent_spec hordered ht hl hmax hi hslack).2 hparent
  refine ⟨⟨.singleton _, ?_, ?_⟩, ?_⟩
  · simpa using hslack
  · simpa using hstart
  · rw [ht.finish i hi, hstart]
    simp

include hordered hdur ht hl hmax in
/-- The walk back from a task without slack arrives at 0, and ends there. -/
theorem backtrack_spec : ∀ (fuel : Nat) {pre post : List α} {i : α}, tasks = pre ++ i :: post →
    pre.length ≤ fuel → slack t latest i = 0 →
    ∃ c, Critical deps t latest (c ++ [i]) ∧ length dur (c ++ [i]) = t.finish i ∧
      ∀ k, backtrack (criticalParent deps t latest) (fuel + k) i = c ++ [i] := by
  intro fuel
  induction fuel with
  | zero =>
      intro pre post i hsplit hfuel hslack
      have hi : i ∈ tasks := hsplit ▸ List.mem_append_right _ (List.mem_cons_self ..)
      have hsome := (criticalParent_spec hordered ht hl hmax hi hslack).1
      have hparent : criticalParent deps t latest i = none := by
        refine Option.eq_none_iff_forall_ne_some.mpr fun p hp => ?_
        have hpre := hordered.before pre i post hsplit p (hsome p hp).1
        rw [List.length_eq_zero_iff.mp (Nat.le_zero.mp hfuel)] at hpre
        exact List.not_mem_nil hpre
      obtain ⟨hcritical, hlength⟩ := critical_singleton hordered ht hl hmax hi hslack hparent
      exact ⟨[], hcritical, hlength, fun k => backtrack_of_none hparent _⟩
  | succ fuel ih =>
      intro pre post i hsplit hfuel hslack
      have hi : i ∈ tasks := hsplit ▸ List.mem_append_right _ (List.mem_cons_self ..)
      have hsome := (criticalParent_spec hordered ht hl hmax hi hslack).1
      cases hparent : criticalParent deps t latest i with
      | none =>
          obtain ⟨hcritical, hlength⟩ := critical_singleton hordered ht hl hmax hi hslack hparent
          exact ⟨[], hcritical, hlength, fun k => backtrack_of_none hparent _⟩
      | some p =>
          obtain ⟨hp, hpslack, hgap⟩ := hsome p hparent
          have hptasks := hordered.deps_mem hi hp
          -- the parent takes time, so the task does not start at 0
          have hstart : t.start i ≠ 0 := by
            have hpos := hdur p hptasks
            have hpfinish := ht.finish p hptasks
            have hpstart := ht.start_nonneg hptasks
            have hle := ht.finish_le_start hi hp
            omega
          obtain ⟨a, b, rfl⟩ := List.append_of_mem (hordered.before pre i post hsplit p hp)
          rw [List.length_append, List.length_cons] at hfuel
          obtain ⟨c, hc, hlength, hwalk⟩ := @ih a (b ++ i :: post) p
            (by rw [hsplit, List.append_assoc, List.cons_append]) (by omega) hpslack
          refine ⟨c ++ [p], ⟨?_, ?_, ?_⟩, ?_, fun k => ?_⟩
          · rw [List.append_assoc, List.singleton_append]
            exact List.isChain_split.mpr ⟨hc.links,
              List.isChain_cons_cons.mpr ⟨⟨hp, hgap hstart⟩, .singleton _⟩⟩
          · intro j hj
            rcases List.mem_append.mp hj with hj | hj
            · exact hc.slack j hj
            · exact List.mem_singleton.mp hj ▸ hslack
          · intro j hj
            refine hc.first j ?_
            rwa [List.head?_append_of_ne_nil _ (by simp)] at hj
          · rw [length_append, hlength, hgap hstart, ht.finish i hi]
            simp
          · rw [Nat.succ_add, backtrack, hparent]
            dsimp only
            rw [hwalk k]

end Walk

section CriticalPath

variable {t : Times α} {latest : α → Int} {all : List α} (hordered : Ordered deps tasks)
  (hdur : ∀ i ∈ tasks, 0 < dur i) (ht : Earliest deps dur tasks t)
  (hl : Latest deps dur tasks (makespan t.finish tasks) latest) (hall : tasks.Perm all)
include hordered hdur ht hl hall

/-- Where the walk starts, and that it ends whatever the fuel. -/
theorem criticalPath_walk (hne : tasks ≠ []) : ∃ c i, i ∈ tasks ∧
    Critical deps t latest (c ++ [i]) ∧ t.finish i = makespan t.finish tasks ∧
    length dur (c ++ [i]) = t.finish i ∧ criticalPath deps t latest all = c ++ [i] ∧
    ∀ k, backtrack (criticalParent deps t latest) (all.length + k) i = c ++ [i] := by
  obtain ⟨hmax, last, hlast, htotal⟩ := makespan_spec t.finish hne
  have hlast' : last ∈ all.filter fun i => slack t latest i = 0 := by
    refine List.mem_filter.mpr ⟨hall.mem_iff.mp hlast, decide_eq_true ?_⟩
    have hle := hl.le_total last
    have hge := hl.finish_le ht hordered hmax last hlast
    exact (slack_eq_zero hordered ht hl hmax hlast).mpr (by omega)
  obtain ⟨hnone, hsome⟩ := lastMax_spec t.finish
    (all.filter fun i => slack t latest i = 0)
  cases hcursor : lastMax t.finish (all.filter fun i => slack t latest i = 0) with
  | none => exact absurd (hnone.mp hcursor) (List.ne_nil_of_mem hlast')
  | some i =>
      obtain ⟨hmem, hgreatest⟩ := hsome i hcursor
      obtain ⟨hi, hslack⟩ := List.mem_filter.mp hmem
      have hi := hall.mem_iff.mpr hi
      have hfinish : t.finish i = makespan t.finish tasks :=
        Int.le_antisymm (hmax i hi) (htotal ▸ hgreatest last hlast')
      obtain ⟨pre, post, hsplit⟩ := List.append_of_mem hi
      have hfuel : pre.length ≤ all.length := by
        rw [← hall.length_eq, hsplit, List.length_append]
        omega
      obtain ⟨c, hc, hlength, hwalk⟩ := backtrack_spec hordered hdur ht hl hmax all.length hsplit
        hfuel (of_decide_eq_true hslack)
      refine ⟨c, i, hi, hc, hfinish, hlength, ?_, hwalk⟩
      rw [criticalPath, hcursor]
      exact hwalk 0

/-- The critical path takes the whole schedule. -/
theorem criticalPath_spec : Chain deps tasks (criticalPath deps t latest all) ∧
    Critical deps t latest (criticalPath deps t latest all) ∧
    (∀ i ∈ (criticalPath deps t latest all).getLast?, t.finish i = makespan t.finish tasks) ∧
    length dur (criticalPath deps t latest all) = makespan t.finish tasks ∧
    (tasks ≠ [] → criticalPath deps t latest all ≠ []) := by
  rcases eq_or_ne tasks [] with rfl | hne
  · obtain rfl := List.nil_perm.mp hall
    have hnil : criticalPath deps t latest [] = [] := rfl
    rw [hnil]
    exact ⟨.nil, ⟨.nil, by simp, by simp⟩, by simp, rfl, by simp⟩
  · obtain ⟨c, i, hi, hc, hfinish, hlength, hpath, -⟩ :=
      criticalPath_walk hordered hdur ht hl hall hne
    rw [hpath]
    refine ⟨?_, hc, ?_, hlength.trans hfinish, by simp⟩
    · exact hordered.chain_of_last (hc.links.imp fun _ _ hab => hab.1) hi
    · intro j hj
      rw [List.getLast?_concat] at hj
      exact Option.some.inj hj ▸ hfinish

end CriticalPath

end Schedule
