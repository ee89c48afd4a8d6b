import Marbles.Db.Acts
import Marbles.Importing.Examining
import Marbles.Lib.Rely

/-!
# Importers that rely on the store

Which scopes an importer enters depends on what the store answers and on values it has computed
before. `Guarded` takes a program of the importers together with the answers it may count on, and
keeps what is known of the values it returns.

The rule is like that of a Hoare triple, with the answers of the store as the only effect. An
importer is guarded if every scope it enters is allowed at that point, and the condition on rows
is used where the importer has looked whether its issue is there.
-/

namespace Marbles.Importing

open Db
open Json (Value)
open Jsonl (ImportReport IdMap mapped originalId)

/-- As long as the answers are good the program enters allowed scopes only, and `post` holds of
what it returns. -/
structure Guarded {ε α : Type} (good : (c : Scope) → Result c.Ret → Prop) (allowed : Scope → Prop)
    (post : α → Prop) (m : ImportM ε α) : Prop where
  prog : Prog.Relies (I := DbI) good allowed (fun r => ∀ a, r = .ok a → post a) m.run

namespace Guarded

variable {ε α β : Type} {good : (c : Scope) → Result c.Ret → Prop} {allowed : Scope → Prop}
  {post q : α → Prop}

theorem pure {a : α} (h : post a) : Guarded good allowed post (Pure.pure a : ImportM ε α) :=
  ⟨fun _ heq => Except.ok.inj heq ▸ h⟩

theorem throw (e : Fault ε) :
    Guarded good allowed post (MonadExcept.throw e : ImportM ε α) :=
  ⟨fun _ heq => by cases heq⟩

theorem bind {post : β → Prop} {m : ImportM ε α} {f : α → ImportM ε β}
    (hm : Guarded good allowed q m) (hf : ∀ a, q a → Guarded good allowed post (f a)) :
    Guarded good allowed post (m >>= f) := by
  refine ⟨hm.prog.bind fun r hr => ?_⟩
  cases r with
  | ok a => exact (hf a (hr a rfl)).prog
  | error e => exact fun _ heq => by cases heq

theorem of_within {m : ImportM ε α} (hm : Within allowed m) :
    Guarded good allowed (fun _ => True) m :=
  ⟨(Prog.Relies.of_only hm.only).mono fun _ _ _ _ => trivial⟩

theorem foldlM {inv : β → Prop} {f : β → α → ImportM ε β} {xs : List α} {b : β} (hb : inv b)
    (hf : ∀ b, ∀ a ∈ xs, inv b → Guarded good allowed inv (f b a)) :
    Guarded good allowed inv (xs.foldlM f b) := by
  induction xs generalizing b with
  | nil => exact pure hb
  | cons x xs ih =>
      rw [List.foldlM_cons]
      exact (hf b x (List.mem_cons_self ..) hb).bind fun b' hb' =>
        ih hb' fun b a ha => hf b a (List.mem_cons_of_mem _ ha)

end Guarded

/-- Every id in the map is the one the rename makes of the original. -/
def Renamed (rename : Option (String × String)) (ids : IdMap) : Prop :=
  ∀ original id, ids.lookup original = some id → id = mapped rename original

section Ids

variable {good : (c : Scope) → Result c.Ret → Prop} {allowed : Scope → Prop}
  {rename : Option (String × String)}

theorem guarded_storedId {ids : IdMap} (hids : Renamed rename ids) (row : Value) :
    Guarded good allowed (fun id => id = mapped rename (originalId row))
      (Jsonl.storedId ids row) := by
  unfold Jsonl.storedId
  split
  · rename_i id hid
    exact .pure (hids _ id hid)
  · exact .throw _

theorem guarded_examineRow {project : String} {acc : ImportReport × IdMap}
    (hget : ∀ id, allowed (.get id)) (hids : Renamed rename acc.2) (row : Value) :
    Guarded good allowed (fun acc : ImportReport × IdMap => Renamed rename acc.2)
      (Jsonl.examineRow project rename acc row) := by
  unfold Jsonl.examineRow
  dsimp only
  split
  · exact .throw _
  · rename_i raw hraw
    have hinsert : Renamed rename (acc.2.insert raw (mapped rename raw)) := by
      intro original id hid
      rw [Jsonl.IdMap.lookup_insert] at hid
      split at hid
      · rename_i heq
        exact heq ▸ (Option.some.inj hid).symm
      · exact hids original id hid
    refine (Guarded.of_within (within_check _)).bind fun _ _ =>
      (Guarded.of_within (Within.attempt (.call (hget _)))).bind fun r _ => ?_
    cases r with
    | error e => exact .pure hinsert
    | ok existing =>
        dsimp only
        split
        · exact .pure hinsert
        · exact .pure hinsert

/-- An importer whose rows may be created, and whose later phases may be entered, is guarded. -/
theorem guarded_importJsonl {cfg : Config} {env : Jsonl.Env} {project : String}
    {rows : List Value} {dryRun : Bool} (hget : ∀ id, allowed (.get id))
    (hlater : ∀ c, ExportEnters project [] c → allowed c)
    (hcreate : dryRun = false → ∀ ids, Renamed rename ids → ∀ report,
      ∀ entry : Value × Nat, entry.1 ∈ rows.filter (!Jsonl.isSkip ·) →
        Guarded good allowed (fun _ => True) (Jsonl.createRow cfg env project ids report entry)) :
    Guarded good allowed (fun _ => True) (Jsonl.import cfg env project rename rows dryRun) := by
  -- Only phase 1 depends on how ids are mapped, so only there the map is carried along.
  unfold Jsonl.import
  refine Guarded.bind (q := fun acc : ImportReport × IdMap => Renamed rename acc.2)
    (.foldlM (fun _ _ hid => by cases hid) fun acc r _ hids => guarded_examineRow hget hids r.1)
    fun examined hids => ?_
  dsimp only
  split
  · exact .throw _
  split
  · exact .pure trivial
  rename_i hdry
  refine Guarded.bind (q := fun _ => True) (.foldlM trivial fun report entry hentry _ =>
    hcreate (by simpa using hdry) _ hids report entry (List.fst_mem_of_mem_zipIdx hentry))
    fun report _ => ?_
  have hsettle : ∀ {α : Type} {m : ImportM Jsonl.ImportError α},
      Within (ExportEnters project []) m → Guarded good allowed (fun _ => True) m :=
    fun hm => .of_within (hm.mono hlater)
  refine (hsettle (Within.foldlM _ (fun report entry _ => ?_) _)).bind fun report _ => ?_
  · exact (within_storedId ..).bind fun id =>
      .foldlM _ (fun report entry _ => linkDep_enters env rename _ id _ report entry) _
  refine (hsettle (Within.mapM (fun r : Value × Nat => (within_storedId _ r.1).bind fun _ =>
    .pure _)
    _)).bind fun pending _ => (hsettle (settle_enters env _ 0 pending)).bind fun left _ => ?_
  refine (hsettle (Within.foldlM _ (fun report row _ => ?_) _)).bind fun _ _ => .pure trivial
  refine (Within.orElseFail _ (within_closeUnchecked ?_ ?_)).bind fun _ => .pure _
  · exact Or.inr (Or.inr (Or.inr (Or.inr (Or.inl ⟨_, _, _, _, rfl⟩))))
  · exact Or.inr (Or.inr (Or.inr (Or.inr (Or.inr ⟨_, rfl⟩))))

end Ids

end Marbles.Importing
