import Marbles.Importing.Landing

/-!
# Resuming an import that was cut

Wherever an import is cut, the store has been advanced by a part of it, and what can be
imported can still be imported from there. The second run ends where the first would have
ended: the content, the status and the edges of every issue are determined by the export
and by the store before the first run, and no write of the importer changes what they are
going to be.

A cut is a position in the sequence of scopes the first run makes. The second run is a run from an
advanced store, and by the definition of advancing it lands where the first one would have.
Decisions are compared row by row, since its report counts rows that were there as unchanged.
-/

namespace Marbles.Jsonl

open Json (Value Object)
open Db Importing

/-- What an import decides about an issue: its content, its status and its dependencies. -/
def outcome (t : Tables) (id : String) : Option (Content × Status × List String) :=
  (t.issue.find id).map fun row => (row.content, row.status, t.dependsOn id)

/-- A closed issue has evidence, unless it was closed without any before. -/
def Receipted (t w : Tables) (id : String) : Prop :=
  ∀ stored, w.issue.find id = some stored → stored.status = .closed →
    stored.evidence ≠ [] ∨ ∃ old, t.issue.find id = some old ∧ old.status = .closed ∧
      old.evidence = []

/-- Issues with the same edges list them in the same order. -/
theorem dependsOn_eq {t t' : Tables} {id : String}
    (h : ∀ p, t.DependsOn id p ↔ t'.DependsOn id p) : t.dependsOn id = t'.dependsOn id := by
  have hnodup : ∀ u : Tables, ((u.dep.keys.filter fun e => e.1 = id).map Prod.snd).Nodup := by
    intro u
    refine List.Nodup.map_on ?_ (u.dep.keys_nodup.filter _)
    rintro ⟨a, p⟩ ha ⟨b, q⟩ hb rfl
    have ha : a = id := by simpa using (List.mem_filter.mp ha).2
    have hb : b = id := by simpa using (List.mem_filter.mp hb).2
    rw [ha, hb]
  refine Sorting.sortOn_perm (fun _ _ h => h)
    ((List.perm_ext_iff_of_nodup (hnodup t) (hnodup t')).mpr fun p => ?_)
  have hp := h p
  rw [← Tables.mem_dependsOn, ← Tables.mem_dependsOn, Tables.dependsOn, Tables.dependsOn,
    Sorting.mem_sortOn,
    Sorting.mem_sortOn] at hp
  exact hp

theorem outcome_congr {w w' : Tables} {id : String}
    (hcontent : (w.issue.find id).map IssueRow.content = (w'.issue.find id).map IssueRow.content)
    (hstatus : (w.issue.find id).map IssueRow.status = (w'.issue.find id).map IssueRow.status)
    (hedges : ∀ p, w.DependsOn id p ↔ w'.DependsOn id p) : outcome w id = outcome w' id := by
  unfold outcome
  rw [dependsOn_eq hedges]
  cases hw : w.issue.find id with
  | none =>
      rw [hw] at hcontent
      rw [Option.map_eq_none_iff.mp hcontent.symm]
  | some row =>
      rw [hw] at hcontent hstatus
      obtain ⟨row', hw', hrow'⟩ := Option.map_eq_some_iff.mp hcontent.symm
      rw [hw'] at hstatus ⊢
      rw [Option.map_some, Option.map_some, hrow', Option.some.inj hstatus]

namespace Export

variable {x : Export} {t u w w' : Tables} {cfg : Config} {env : Env} {dryRun : Bool}

/-- What the first two phases, or all of them, have to find. -/
def Accepted (x : Export) (parse : String → Except String Int) : Bool → Tables → Prop
  | true, t => (∀ row ∈ x.rows, Readable row) ∧ ∀ row ∈ x.rows, x.Mine t row
  | false, t => x.Importable parse t

/-- Where an import may be cut. -/
def Between (x : Export) : Bool → Tables → Tables → Prop
  | true, t, u => u = t
  | false, t, u => x.Underway t u

/-- Where an import ends. -/
structure Lands (x : Export) (dryRun : Bool) (t w : Tables) : Prop where
  between : x.Between dryRun t w
  done : dryRun = false → x.Done w

theorem Between.advances (h : x.Between dryRun t u) : x.Advances t u := by
  cases dryRun with
  | true => exact h ▸ .refl x t
  | false => exact Underway.advances h

theorem Between.wellFormed (h : x.Between dryRun t u) (hwf : WellFormed t) : WellFormed u := by
  cases dryRun with
  | true => exact h ▸ hwf
  | false => exact Underway.graph h

theorem Between.trans (h : x.Between dryRun t u) (h' : x.Between dryRun u w) :
    x.Between dryRun t w := by
  cases dryRun with
  | true => exact Eq.trans h' h
  | false => exact ⟨(Underway.advances h).trans (Underway.advances h'), Underway.graph h'⟩

theorem Accepted.between {parse : String → Except String Int} (h : x.Accepted parse dryRun t)
    (hu : x.Between dryRun t u) : x.Accepted parse dryRun u := by
  cases dryRun with
  | true => exact hu ▸ h
  | false => exact Importable.advances h (Underway.advances hu)

/-- Two imports of one export into one store decide the same. -/
theorem Lands.outcome_eq (h : x.Lands dryRun t w) (h' : x.Lands dryRun t w') (id : String) :
    outcome w id = outcome w' id := by
  cases dryRun with
  | true => rw [show w = t from h.between, show w' = t from h'.between]
  | false =>
      obtain ⟨hdone, hdone'⟩ := And.intro (h.done rfl) (h'.done rfl)
      obtain ⟨ha, ha'⟩ := And.intro h.between.advances h'.between.advances
      refine outcome_congr ?_ ?_ fun p => ?_
      · rw [← hdone.content, ← hdone'.content, ha.content, ha'.content]
      · rw [← hdone.status, ← hdone'.status, ha.status, ha'.status]
      · rw [← hdone.edges, ← hdone'.edges, ha.edges, ha'.edges]

theorem Between.receipted (h : x.Between dryRun t w) (id : String) : Receipted t w id := by
  intro stored hstored hclosed
  by_cases hnone : stored.evidence = []
  · exact Or.inr (h.advances.evidence id stored hstored hclosed hnone)
  · exact Or.inl hnone

/-- An import that lands has been accepted, and one that fails has not. -/
theorem runs_any (project : String) (rename : Option (String × String)) (rows : List Value)
    (dryRun : Bool) (hwf : WellFormed t) :
    Runs (Scope.exec cfg) ((exportOf project rename rows).Between dryRun t)
      (fun _ w => (exportOf project rename rows).Accepted env.parseRfc3339 dryRun t ∧
        (exportOf project rename rows).Lands dryRun t w)
      (fun _ _ => ¬ (exportOf project rename rows).Accepted env.parseRfc3339 dryRun t)
      («import» cfg env project rename rows dryRun) t := by
  cases dryRun with
  | true =>
      exact (runs_dryRun project rename rows).mono (fun _ h => h)
        (fun _ _ hu h => ⟨h, hu, nofun⟩) fun _ _ _ h => h
  | false =>
      exact (runs_import project rename rows hwf).mono (fun _ h => h)
        (fun _ _ hu h => ⟨h.importable, hu, fun _ => h.done⟩) fun _ _ _ h => h

/-- From wherever an accepted import was cut, it lands. -/
theorem lands_from {project : String} {rename : Option (String × String)} {rows : List Value}
    (hwf : WellFormed t)
    (haccepted : (exportOf project rename rows).Accepted env.parseRfc3339 dryRun t)
    (hu : (exportOf project rename rows).Between dryRun t u) :
    ∃ report w, Prog.runE (Scope.exec cfg) («import» cfg env project rename rows dryRun) (.new u) =
        (.ok report, .new w) ∧ (exportOf project rename rows).Lands dryRun u w := by
  obtain ⟨r, w, hrun, -, hends⟩ :=
    (@runs_any _ cfg env project rename rows dryRun (hu.wellFormed hwf)).result
  cases r with
  | ok report => exact ⟨report, w, hrun, hends.2⟩
  | error e =>
      cases e with
      | fail e => exact absurd (haccepted.between hu) hends
      | abort => exact hends.elim

end Export

section Resume

variable {cfg : Config} {env env' env'' : Env} {project : String}
  {rename : Option (String × String)} {rows : List Value} {dryRun : Bool} {s s₁ : Locked Tables}
  {report : ImportReport}

/-- Where the run of an import that goes through is cut does not depend on the lock. -/
theorem halt_returned
    (h : Prog.runE (Scope.exec cfg) («import» cfg env project rename rows dryRun) s =
    (.ok report, s₁))
    (n : Nat) :
    (Prog.halt (Scope.exec cfg) n («import» cfg env project rename rows dryRun).run s).state =
      (Prog.halt (Scope.exec cfg) n («import» cfg env project rename rows dryRun).run
        (Locked.new s.state)).state := by
  cases hp : s.poisoned with
  | false => rw [← Locked.eq_new hp]
  | true =>
      obtain ⟨report', hpure⟩ := @import_nil cfg env project rename rows dryRun
          (import_poisoned hp h)
      have hstill : ∀ l : Locked Tables, Prog.halt (Scope.exec cfg) n
          («import» cfg env project rename rows dryRun).run l = l := by
        intro l
        rw [hpure]
        exact Prog.halt_ret ..
      rw [hstill, hstill]
      rfl

/-- An import that went through is cut anywhere and run again with the same arguments: it goes
through and decides the same about every row, and once more changes nothing of this. The cut may be
anywhere between two lock scopes, also inside a phase, and nothing is recorded of how far the run
got. -/
theorem import_resumes (hs : Reachable cfg s) (henv' : env'.parseRfc3339 = env.parseRfc3339)
    (henv'' : env''.parseRfc3339 = env.parseRfc3339)
    (h : Prog.runE (Scope.exec cfg) («import» cfg env project rename rows dryRun) s =
    (.ok report, s₁))
    (n : Nat) :
    ∃ report₂ s₂ report₃ s₃,
      Prog.runE (Scope.exec cfg) («import» cfg env' project rename rows dryRun)
          (Locked.new (Prog.halt (Scope.exec cfg) n
            («import» cfg env project rename rows dryRun).run s).state) = (.ok report₂, s₂) ∧
        Prog.runE (Scope.exec cfg) («import» cfg env'' project rename rows dryRun) s₂ =
          (.ok report₃, s₃) ∧
        ∀ row ∈ (exportOf project rename rows).rows,
          outcome s₂.state ((exportOf project rename rows).key row) =
              outcome s₁.state ((exportOf project rename rows).key row) ∧
            outcome s₃.state ((exportOf project rename rows).key row) =
              outcome s₂.state ((exportOf project rename rows).key row) ∧
            Receipted s.state s₂.state ((exportOf project rename rows).key row) ∧
            Receipted s₂.state s₃.state ((exportOf project rename rows).key row) := by
  have hwf := hs.wellFormed
  obtain ⟨l, hfirst, hstate⟩ := import_returned h
  have hruns := @Export.runs_any _ cfg env project rename rows dryRun hwf
  obtain ⟨w, rfl, -, haccepted, hlands⟩ := hruns.returned hfirst
  obtain ⟨u, hcut, hu⟩ := hruns.halt n
  rw [halt_returned h n, hcut, ← hstate]
  rw [← henv'] at haccepted
  -- The cut run stopped somewhere between the start and the end, and from there every run lands
  -- where the whole one does.
  obtain ⟨report₂, w₂, hsecond, hlands₂⟩ := @Export.lands_from _ _ cfg _ _ _ _ _ hwf haccepted hu
  have hbetween := hu.trans hlands₂.between
  rw [henv', ← henv''] at haccepted
  obtain ⟨report₃, w₃, hthird, hlands₃⟩ := @Export.lands_from _ _ cfg _ _ _ _ _ hwf haccepted
      hbetween
  refine ⟨report₂, .new w₂, report₃, .new w₃, hsecond, hthird, fun row _ => ⟨?_, ?_, ?_, ?_⟩⟩
  · exact Export.Lands.outcome_eq ⟨hbetween, hlands₂.done⟩ hlands _
  · exact Export.Lands.outcome_eq ⟨hbetween.trans hlands₃.between, hlands₃.done⟩
      ⟨hbetween, hlands₂.done⟩ _
  · exact hbetween.receipted _
  · exact hlands₃.between.receipted _

end Resume

/-! ### An issue closed by hand -/

/-- A store whose imported issue was closed by an update, which asks for no evidence. -/
def closedByHand : Locked Tables :=
  Action.run {} [.op (.ensureProject "demo" "/tmp/demo" "demo" 0),
    .importJsonl still "demo" none [plainRow "demo-a" "one"] false,
    .op (.update "demo-a" { status := some "closed" } "worker" 0)] (opened "s")

/-- The importer takes an issue that is closed already as it is. -/
theorem closed_without_evidence :
    Reachable {} closedByHand ∧
      (Prog.runE (Scope.exec {}) («import» {} still "demo" none [plainRow "demo-a" "one"] false)
        closedByHand).1 = .ok { unchanged := 1 } ∧
      ((Prog.runE (Scope.exec {}) («import» {} still "demo" none [plainRow "demo-a" "one"] false)
        (Locked.new (Prog.halt (Scope.exec {}) 1 («import» {} still "demo" none
          [plainRow "demo-a" "one"] false).run closedByHand).state)).2.state.issue.find
            "demo-a").map (fun row => (row.status, row.evidence)) = some (.closed, []) :=
  ⟨⟨"s", _, rfl⟩, by decide, by decide⟩

/-- An import that is cut when it has created both issues and not yet linked them. -/
theorem import_resumes_demo :
    ∃ report₂ s₂ report₃ s₃,
      Prog.runE (Scope.exec {}) («import» {} still "demo" none linkedRows false)
          (Locked.new (Prog.halt (Scope.exec {}) 6
            («import» {} still "demo" none linkedRows false).run demo).state) =
          (.ok report₂, s₂) ∧
        Prog.runE (Scope.exec {}) («import» {} still "demo" none linkedRows false) s₂ =
          (.ok report₃, s₃) ∧
        ∀ row ∈ (exportOf "demo" none linkedRows).rows,
          outcome s₂.state ((exportOf "demo" none linkedRows).key row) =
              outcome (Prog.runE (Scope.exec {})
                («import» {} still "demo" none linkedRows false) demo).2.state
                ((exportOf "demo" none linkedRows).key row) ∧
            outcome s₃.state ((exportOf "demo" none linkedRows).key row) =
              outcome s₂.state ((exportOf "demo" none linkedRows).key row) ∧
            Receipted demo.state s₂.state ((exportOf "demo" none linkedRows).key row) ∧
            Receipted s₂.state s₃.state ((exportOf "demo" none linkedRows).key row) :=
  @import_resumes {} still still still "demo" none linkedRows false demo _
    { imported := 2, deps := 1 } reachable_demo rfl rfl (Prod.ext (by decide) rfl) 6

end Marbles.Jsonl
