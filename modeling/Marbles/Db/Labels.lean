import Marbles.Db.Alone
import Marbles.Db.Enters
import Mathlib.Data.Fintype.Basic
import Mathlib.Data.Finset.Dedup

/-!
# Editing labels concurrently

`add_label` and `remove_label` read the labels in one lock scope and write the edited list
in another one; `supersede` ends with an `add_label`. Between the two scopes another caller
may write, and its edit is then lost. `labels_serializable` shows that this is the only way
to lose one: when nobody writes while somebody else is about to, any number of calls have
the effect of the same calls one after the other.

A call takes effect when it writes, or when it reads labels that need no edit.

The specification is a sequential run of edits on a list of labels. Each concurrent call is
assigned the moment it takes effect, and the invariant says that the labels are what the calls
that have taken effect make of them, in that order. The condition forbids a write between a read
and the write that follows from it, and nothing more.
-/

namespace Marbles.Db

/-- The labels of an issue. -/
def labelsOf (l : Locked Tables) (id : String) : Option (List String) :=
  (l.state.issue.find id).map (·.labels)

/-- The calls that edit the labels of one issue. -/
inductive LabelCall where
  | add (label actor : String) (now : Int)
  | remove (label actor : String) (now : Int)
  | supersede (replacement actor : String) (now : Int)

namespace LabelCall

/-- The call of the contract that edits the labels so. -/
def op (id : String) : LabelCall → Op
  | add label actor now => .addLabel id label actor now
  | remove label actor now => .removeLabel id label actor now
  | supersede replacement actor now => .supersede id replacement actor now

/-- What a call makes of the labels it finds, when `keys` are the issues there are. -/
def edit (keys : List String) : LabelCall → List String → List String
  | add label _ _, labels => (addedLabel labels label).getD labels
  | remove label _ _, labels => removedLabel labels label
  | supersede replacement _ _, labels =>
      if replacement ∈ keys then (addedLabel labels s!"supersedes:{replacement}").getD labels
      else labels

end LabelCall

/-! ### What the scopes of these calls do -/

/-- The lock is healthy and the issue is there, with these labels. -/
structure Calm (keys : List String) (id : String) (labels : List String) (l : Locked Tables) :
    Prop where
  healthy : l.poisoned = false
  keys : l.state.issue.keys = keys
  labels : labelsOf l id = some labels

/-- The scopes of these calls that leave the labels alone. -/
def Reads (id : String) : Scope → Prop
  | .get _ => True
  | .closeUnchecked i .. => i = id
  | _ => False

/-- What such a scope answers when the issue is there. -/
def Answers (keys : List String) (id : String) (labels : List String) :
    (s : Scope) → Result s.Ret → Prop
  | .get i, r => (i ∈ keys → ∃ issue, r = .ok issue ∧ (i = id → issue.labels = labels)) ∧
      (i ∉ keys → ∃ e, r = .error e)
  | .closeUnchecked .., r => r = .ok ()
  | _, _ => True

theorem Calm.mem_keys {keys : List String} {id : String} {labels : List String} {l : Locked Tables}
    (h : Calm keys id labels l) : id ∈ keys := by
  obtain ⟨row, hrow, -⟩ := Option.map_eq_some_iff.mp h.labels
  rw [← h.keys]
  exact Table.mem_keys_of_find hrow

/-- A read leaves everything as it was. -/
theorem Calm.get {cfg : Config} {keys : List String} {id : String} {labels : List String}
    {l : Locked Tables} (h : Calm keys id labels l) (i : String) :
    Calm keys id labels ((Scope.get i).exec cfg l).2 ∧
      Answers keys id labels (.get i) ((Scope.get i).exec cfg l).1 := by
  obtain ⟨t, rfl⟩ : ∃ t, l = .new t := ⟨_, Locked.eq_new h.healthy⟩
  have hexec : (Scope.get i).exec cfg (.new t) =
      Locked.finish t ((getQuery i t).map fun a => (a, t)) := Locked.query_new ..
  refine ⟨?_, fun hmem => ?_, fun hmem => ?_⟩
  · have hsame : ((Scope.get i).exec cfg (.new t)).2 = .new t :=
      Locked.query_same Outcome.ofOption_ne_abort
    rw [hsame]
    exact h
  · obtain ⟨row, hrow⟩ := Table.mem_keys.mp (show i ∈ t.issue.keys from h.keys.symm ▸ hmem)
    rw [hexec, getQuery_find hrow]
    refine ⟨_, rfl, ?_⟩
    rintro rfl
    obtain ⟨row', hrow', hlabels⟩ := Option.map_eq_some_iff.mp h.labels
    obtain rfl := Option.some.inj (hrow.symm.trans hrow')
    exact hlabels
  · have hnone : t.issue.find i = none :=
      Table.find_eq_none.mpr fun hkey => hmem (h.keys ▸ hkey)
    rw [hexec, getQuery, Tables.rowToIssue, hnone]
    exact ⟨_, rfl⟩

/-- Writing one row keeps the issues there are. -/
theorem Calm.modify {keys : List String} {id : String} {labels labels' : List String}
    {t t' : Tables} {f : IssueRow → IssueRow} (h : Calm keys id labels (.new t))
    (hissue : t'.issue = t.issue.modify id f)
    (hf : ∀ row : IssueRow, row.labels = labels → (f row).labels = labels') :
    Calm keys id labels' (.new t') := by
  refine ⟨rfl, ?_, ?_⟩
  · change t'.issue.keys = keys
    rw [hissue, Table.keys_modify]
    exact h.keys
  · obtain ⟨row, hrow, hlabels⟩ := Option.map_eq_some_iff.mp h.labels
    change (t'.issue.find id).map _ = _
    rw [hissue, Table.find_modify_self, show t.issue.find id = some row from hrow]
    exact congrArg some (hf row hlabels)

theorem Calm.reads {cfg : Config} {keys : List String} {id : String} {labels : List String}
    {l : Locked Tables} (h : Calm keys id labels l) {s : Scope} (hs : Reads id s) :
    Calm keys id labels (s.exec cfg l).2 ∧ Answers keys id labels s (s.exec cfg l).1 := by
  cases s with
  | get i => exact h.get i
  | closeUnchecked i reason evidence actor now =>
      obtain rfl : i = id := hs
      obtain ⟨t, rfl⟩ : ∃ t, l = .new t := ⟨_, Locked.eq_new h.healthy⟩
      obtain ⟨row, hrow, -⟩ := Option.map_eq_some_iff.mp h.labels
      have hok : closeUncheckedTx i reason evidence actor now t =
          .ok ((), (t.setIssue i fun row => row.close reason evidence now).logEvent i now actor
            "closed" (closedDetail reason evidence)) := by
        unfold closeUncheckedTx
        rw [show t.issue.find i = some row from hrow]
        rfl
      have hexec : (Scope.closeUnchecked i reason evidence actor now).exec cfg (.new t) =
          (.ok (), .new _) := Locked.tx_ok hok
      rw [hexec]
      exact ⟨h.modify (f := fun row => row.close reason evidence now) rfl fun _ hrow => hrow, rfl⟩
  | _ => exact hs.elim

theorem Calm.setLabels {cfg : Config} {keys : List String} {id : String} {labels : List String}
    {l : Locked Tables} (h : Calm keys id labels l) (labels' : List String) (actor : String)
    (now : Int) : Calm keys id labels' ((Scope.setLabels id labels' actor now).exec cfg l).2 := by
  obtain ⟨t, rfl⟩ : ∃ t, l = .new t := ⟨_, Locked.eq_new h.healthy⟩
  obtain ⟨row, hrow, -⟩ := Option.map_eq_some_iff.mp h.labels
  have hok : setLabelsTx id labels' actor now t =
      .ok ((), (t.setIssue id fun row => { row with labels := labels', updatedAt := now }).logEvent
        id now actor "labels" (",".intercalate labels')) := by
    unfold setLabelsTx Tables.rowToIssue
    rw [show t.issue.find id = some row from hrow]
    rfl
  have hexec : (Scope.setLabels id labels' actor now).exec cfg (.new t) = (.ok (), .new _) :=
    Locked.tx_ok hok
  rw [hexec]
  exact h.modify (f := fun row => { row with labels := labels', updatedAt := now }) rfl
    fun _ _ => rfl

/-! ### Where a call takes effect -/

variable {α : Type}

/-- The program goes on to write these labels, and is then done. -/
def Writes (id : String) (labels : List String) (p : Prog DbI α) : Prop :=
  ∃ actor now k, p = .call (.setLabels id labels actor now) k ∧ ∀ r, ∃ v, k r = .ret v

/-- The rest of a call that has just read `labels`: they need no edit and it is done, or it
writes the edited ones. -/
def Edited (id : String) (edit : List String → List String) (labels : List String)
    (p : Prog DbI α) : Prop :=
  (edit labels = labels ∧ ∃ v, p = .ret v) ∨ Writes id (edit labels) p

/-- The rest of a call that has not taken effect: it only reads until the read whose labels it
edits. A call that has taken effect has nothing left to do, even while it has not returned. -/
def Todo (keys : List String) (id : String) (edit : List String → List String) :
    Prog DbI α → Prop
  | .ret _ => ∀ labels, edit labels = labels
  | .call s k => Reads id s ∧ ∀ labels r, Answers keys id labels s r →
      Todo keys id edit (k r) ∨ Edited id edit labels (k r)

/-- `add_label` takes effect at its write, or at its read. -/
theorem edited_addLabel {id label actor : String} {now : Int} {labels : List String} {issue : Issue}
    (hlabels : issue.labels = labels) (f : Result Unit → Prog DbI α) (hf : ∀ r, ∃ v, f r = .ret v) :
    Edited id (fun labels => (addedLabel labels label).getD labels) labels
      (Prog.bind (ExceptT.run (match addedLabel issue.labels label with
        | some labels => setLabels id labels actor now
        | none => pure ())) f) := by
  rw [hlabels]
  cases hadded : addedLabel labels label with
  | none => exact Or.inl ⟨by simp [hadded], hf (.ok ())⟩
  | some labels' =>
      have hedit : (addedLabel labels label).getD labels = labels' := by rw [hadded]; rfl
      refine Or.inr ⟨actor, now, f, ?_, hf⟩
      show _ = Prog.call (I := DbI)
        (.setLabels id ((addedLabel labels label).getD labels) actor now) f
      rw [hedit]
      rfl

theorem todo_method (cfg : Config) {keys : List String} {id : String} (hid : id ∈ keys)
    (call : LabelCall) : Todo keys id (call.edit keys) (method cfg (call.op id)).run := by
  cases call with
  | add label actor now =>
      refine ⟨trivial, fun labels r hr => Or.inr ?_⟩
      obtain ⟨issue, rfl, hlabels⟩ := hr.1 hid
      exact edited_addLabel (hlabels rfl) _ fun r => by cases r <;> exact ⟨_, rfl⟩
  | remove label actor now =>
      refine ⟨trivial, fun labels r hr => Or.inr (Or.inr ?_)⟩
      obtain ⟨issue, rfl, hlabels⟩ := hr.1 hid
      rw [← hlabels rfl]
      exact ⟨actor, now, _, rfl, fun r => by cases r <;> exact ⟨_, rfl⟩⟩
  | supersede replacement actor now =>
      refine ⟨trivial, fun labels r hr => Or.inl ?_⟩
      by_cases hmem : replacement ∈ keys
      · obtain ⟨_, rfl, -⟩ := hr.1 hmem
        refine ⟨rfl, fun labels r hr => Or.inl ?_⟩
        obtain rfl : r = .ok () := hr
        refine ⟨trivial, fun labels r hr => Or.inl ?_⟩
        obtain ⟨issue, rfl, -⟩ := hr.1 hid
        refine ⟨trivial, fun labels r hr => Or.inr ?_⟩
        obtain ⟨issue, rfl, hlabels⟩ := hr.1 hid
        rw [show LabelCall.edit keys (.supersede replacement actor now) = fun labels =>
          (addedLabel labels s!"supersedes:{replacement}").getD labels from
            funext fun labels => if_pos hmem]
        exact edited_addLabel (hlabels rfl) _ fun r => by cases r <;> exact ⟨_, rfl⟩
      · obtain ⟨e, rfl⟩ := hr.2 hmem
        exact fun labels => if_neg hmem

/-! ### One call after the other -/

/-- Alone, a call that has not taken effect edits the labels it finds. -/
theorem Todo.run {cfg : Config} {keys : List String} {id : String}
    {edit : List String → List String} {p : Prog DbI α} {labels : List String}
    {l : Locked Tables} (hp : Todo keys id edit p) (hl : Calm keys id labels l) :
    Calm keys id (edit labels) (Prog.run (Scope.exec cfg) p l).2 := by
  induction p generalizing labels l with
  | ret v =>
      rw [Prog.run_ret, hp labels]
      exact hl
  | call s k ih =>
      obtain ⟨hcalm, hanswer⟩ := @Calm.reads cfg _ _ _ _ hl _ hp.1
      rw [Prog.run_call]
      rcases hp.2 labels _ hanswer with htodo | ⟨hsame, v, hv⟩ | ⟨actor, now, k', hk', hret⟩
      · exact ih _ htodo hcalm
      · rw [hv, Prog.run_ret, hsame]
        exact hcalm
      · rw [hk', Prog.run_call]
        obtain ⟨v, hv⟩ := hret ((Scope.exec cfg (.setLabels id (edit labels) actor now)
          (s.exec cfg l).2).1)
        rw [hv, Prog.run_ret]
        exact hcalm.setLabels (edit labels) actor now

theorem step_calm {cfg : Config} {keys : List String} {id : String} {labels : List String}
    {l : Locked Tables} (hl : Calm keys id labels l) (call : LabelCall) :
    Calm keys id (call.edit keys labels) (step cfg (call.op id) l) :=
  (todo_method cfg hl.mem_keys call).run hl

/-- The edits of a sequence of calls, in order. -/
def edited {ι : Type} (keys : List String) (calls : ι → LabelCall) (order : List ι)
    (labels : List String) : List String :=
  order.foldl (fun labels i => (calls i).edit keys labels) labels

@[simp]
theorem edited_concat {ι : Type} (keys : List String) (calls : ι → LabelCall) (order : List ι)
    (i : ι)
    (labels : List String) : edited keys calls (order ++ [i]) labels =
      (calls i).edit keys (edited keys calls order labels) := by
  unfold edited
  rw [List.foldl_append]
  rfl

theorem run_calm {ι : Type} {cfg : Config} {keys : List String} {id : String}
    (calls : ι → LabelCall) (order : List ι) {labels : List String} {l : Locked Tables}
    (hl : Calm keys id labels l) : Calm keys id (edited keys calls order labels)
      (run cfg (order.map fun i => (calls i).op id) l) := by
  induction order generalizing labels l with
  | nil => exact hl
  | cons i order ih => exact ih (step_calm hl (calls i))

/-! ### All calls at once -/

section Callers

variable {ι : Type} [DecidableEq ι]

/-- The program is about to write the labels of `id`. -/
def Writing (id : String) (p : Prog DbI α) : Prop :=
  ∃ labels actor now k, p = .call (.setLabels id labels actor now) k

/-- Nobody writes while somebody else is about to. -/
def Exclusive (id : String) (w : System ι DbI (Locked Tables) α) (i : ι) : Prop :=
  Writing id (w.threads i).prog → ∀ c, c ≠ i → ¬ Writing id (w.threads c).prog

/-- The calls of `done` have taken effect, in this order; no other one has, and one that is
about to write has read the labels as they are. -/
structure Serial (keys : List String) (id : String) (calls : ι → LabelCall)
    (labels : List String) (w : System ι DbI (Locked Tables) α) (done : List ι) : Prop where
  nodup : done.Nodup
  calm : Calm keys id (edited keys calls done labels) w.shared
  finished : ∀ i ∈ done, ∃ v, (w.threads i).prog = .ret v
  rest : ∀ i, i ∉ done → Todo keys id ((calls i).edit keys) (w.threads i).prog ∨
    Writes id ((calls i).edit keys (edited keys calls done labels)) (w.threads i).prog

namespace Serial

variable {cfg : Config} {keys : List String} {id : String} {calls : ι → LabelCall}
  {labels : List String} {w : System ι DbI (Locked Tables) α} {done : List ι}

/-- A scope that leaves the labels alone; its caller goes on with a call to do. -/
theorem read (h : Serial keys id calls labels w done) {i : ι} (hi : i ∉ done)
    {shared : Locked Tables} {thread : Thread DbI α}
    (hcalm : Calm keys id (edited keys calls done labels) shared)
    (hthread : Todo keys id ((calls i).edit keys) thread.prog ∨
      Writes id ((calls i).edit keys (edited keys calls done labels)) thread.prog) :
    Serial keys id calls labels ⟨shared, Function.update w.threads i thread⟩ done := by
  refine ⟨h.nodup, hcalm, fun j hj => ?_, fun j hj => ?_⟩
  · have hne : j ≠ i := fun heq => hi (heq ▸ hj)
    rw [show (System.mk shared (Function.update w.threads i thread)).threads j = w.threads j from
      Function.update_of_ne hne ..]
    exact h.finished j hj
  · by_cases hji : j = i
    · subst hji
      rw [show (System.mk shared (Function.update w.threads j thread)).threads j = thread from
        Function.update_self ..]
      exact hthread
    · rw [show (System.mk shared (Function.update w.threads i thread)).threads j = w.threads j from
        Function.update_of_ne hji ..]
      exact h.rest j hj

/-- A scope with which the call of its caller takes effect. -/
theorem takeEffect (h : Serial keys id calls labels w done) {i : ι} (hi : i ∉ done)
    {shared : Locked Tables} {thread : Thread DbI α}
    (hcalm : Calm keys id ((calls i).edit keys (edited keys calls done labels)) shared)
    (hthread : ∃ v, thread.prog = .ret v)
    (hothers : (calls i).edit keys (edited keys calls done labels) = edited keys calls done labels ∨
      ∀ j, j ≠ i → ¬ Writing id (w.threads j).prog) :
    Serial keys id calls labels ⟨shared, Function.update w.threads i thread⟩ (done ++ [i]) := by
  refine ⟨?_, ?_, fun j hj => ?_, fun j hj => ?_⟩
  · rw [List.nodup_append]
    exact ⟨h.nodup, List.nodup_singleton i, fun a ha b hb hab =>
      hi (List.mem_singleton.mp hb ▸ hab ▸ ha)⟩
  · rw [edited_concat]
    exact hcalm
  · by_cases hji : j = i
    · subst hji
      rw [show (System.mk shared (Function.update w.threads j thread)).threads j = thread from
        Function.update_self ..]
      exact hthread
    · rw [show (System.mk shared (Function.update w.threads i thread)).threads j = w.threads j from
        Function.update_of_ne hji ..]
      refine h.finished j ((List.mem_append.mp hj).resolve_right fun hmem => ?_)
      exact hji (List.mem_singleton.mp hmem)
  · have hji : j ≠ i := by
      rintro rfl
      exact hj (List.mem_append_right _ (List.mem_singleton_self j))
    have hdone : j ∉ done := fun hmem => hj (List.mem_append_left _ hmem)
    rw [edited_concat, show (System.mk shared (Function.update w.threads i thread)).threads j =
      w.threads j from Function.update_of_ne hji ..]
    rcases h.rest j hdone with htodo | hwrites
    · exact Or.inl htodo
    · -- somebody else is about to write: the labels did not change
      rcases hothers with hsame | hnobody
      · rw [hsame]
        exact Or.inr hwrites
      · obtain ⟨actor, now, k, hk, -⟩ := hwrites
        exact absurd ⟨_, actor, now, k, hk⟩ (hnobody j hji)

theorem step (h : Serial keys id calls labels w done) {i : ι} (hi : Exclusive id w i) :
    ∃ done', Serial keys id calls labels (System.step (Scope.exec cfg) i w) done' := by
  cases hprog : (w.threads i).prog with
  | ret v =>
      rw [System.step_ret hprog]
      exact ⟨done, h⟩
  | call s k =>
      have hdone : i ∉ done := by
        intro hmem
        obtain ⟨v, hv⟩ := h.finished i hmem
        rw [hprog] at hv
        cases hv
      rw [System.step_call hprog]
      rcases h.rest i hdone with htodo | ⟨actor, now, k', hk', hret⟩
      · rw [hprog] at htodo
        obtain ⟨hcalm, hanswer⟩ := @Calm.reads cfg _ _ _ _ h.calm _ htodo.1
        rcases htodo.2 _ _ hanswer with hnext | ⟨hsame, hret⟩ | hwrites
        · exact ⟨done, h.read hdone hcalm (Or.inl hnext)⟩
        · refine ⟨done ++ [i], h.takeEffect hdone ?_ hret (Or.inl hsame)⟩
          rw [hsame]
          exact hcalm
        · exact ⟨done, h.read hdone hcalm (Or.inr hwrites)⟩
      · have hwriting : Writing id (w.threads i).prog := ⟨_, actor, now, k', hk'⟩
        rw [hprog] at hk'
        cases hk'
        exact ⟨done ++ [i], h.takeEffect hdone (h.calm.setLabels ..) (hret _)
          (Or.inr (hi hwriting))⟩

/-- When every call has returned, they have taken effect in some order. -/
theorem complete [Fintype ι] (h : Serial keys id calls labels w done)
    (hret : ∀ i, ∃ v, (w.threads i).prog = .ret v) :
    ∃ order : List ι, order.Nodup ∧ (∀ i, i ∈ order) ∧
      edited keys calls order labels = edited keys calls done labels := by
  -- a call that returned without taking effect edits nothing, and may come last
  have hidle : ∀ i, i ∉ done → ∀ labels, (calls i).edit keys labels = labels := by
    intro i hi
    obtain ⟨v, hv⟩ := hret i
    rcases h.rest i hi with htodo | ⟨actor, now, k, hk, -⟩
    · rw [hv] at htodo
      exact htodo
    · rw [hv] at hk
      cases hk
  refine ⟨done ++ (Finset.univ.toList.filter fun i => i ∉ done), ?_, fun i => ?_, ?_⟩
  · rw [List.nodup_append]
    refine ⟨h.nodup, (Finset.nodup_toList _).sublist List.filter_sublist, fun a ha b hb hab => ?_⟩
    have hb' := (List.mem_filter.mp hb).2
    exact (of_decide_eq_true hb') (hab ▸ ha)
  · by_cases hi : i ∈ done
    · exact List.mem_append_left _ hi
    · refine List.mem_append_right _ (List.mem_filter.mpr ⟨?_, decide_eq_true hi⟩)
      exact Finset.mem_toList.mpr (Finset.mem_univ i)
  · unfold edited
    rw [List.foldl_append]
    generalize List.foldl _ labels done = current
    have hrest : ∀ i ∈ Finset.univ.toList.filter (fun i => i ∉ done), i ∉ done :=
      fun i hi => of_decide_eq_true (List.mem_filter.mp hi).2
    generalize Finset.univ.toList.filter (fun i => i ∉ done) = rest at hrest
    induction rest with
    | nil => rfl
    | cons i rest ih =>
        rw [List.foldl_cons, hidle i (hrest i (List.mem_cons_self ..))]
        exact ih fun j hj => hrest j (List.mem_cons_of_mem _ hj)

end Serial

/-! ### Calls that come to nothing -/

/-- The lock is poisoned, or there is no such issue. -/
def Dead (id : String) (l : Locked Tables) : Prop :=
  l.poisoned = true ∨ l.state.issue.find id = none

/-- Then no call writes labels. -/
theorem dead_exec {cfg : Config} {id : String} {call : LabelCall} {s : Scope} {l : Locked Tables}
    (hs : Enters (call.op id) s) (h : Dead id l) :
    Dead id (s.exec cfg l).2 ∧ labelsOf (s.exec cfg l).2 id = labelsOf l id := by
  rcases h with hp | hnone
  · rw [exec_poisoned hp]
    exact ⟨Or.inl hp, rfl⟩
  -- None of the scopes of a label call creates a row.
  · have hscope : (∃ i, s = .get i) ∨ (∃ labels actor now, s = .setLabels id labels actor now) ∨
        ∃ reason evidence actor now, s = .closeUnchecked id reason evidence actor now := by
      cases call with
      | add | remove =>
          rcases hs with rfl | ⟨labels, rfl⟩
          · exact Or.inl ⟨_, rfl⟩
          · exact Or.inr (Or.inl ⟨labels, _, _, rfl⟩)
      | supersede =>
          rcases hs with ⟨i, rfl⟩ | rfl | ⟨labels, rfl⟩
          · exact Or.inl ⟨i, rfl⟩
          · exact Or.inr (Or.inr ⟨_, _, _, _, rfl⟩)
          · exact Or.inr (Or.inl ⟨labels, _, _, rfl⟩)
    have hfind : (s.exec cfg l).2.state.issue.find id = none := by
      have heffect := exec_effect cfg s l
      rcases hscope with ⟨i, rfl⟩ | ⟨labels, actor, now, rfl⟩ | ⟨reason, evidence, actor, now, rfl⟩
      · cases heffect with
        | idle hissue => rw [hissue, hnone]
      · cases heffect with
        | idle hissue => rw [hissue, hnone]
        | setLabels hissue => rw [hissue, Table.find_modify_self, hnone]; rfl
      · cases heffect with
        | idle hissue => rw [hissue, hnone]
        | closeUnchecked hrow => cases hnone.symm.trans hrow
    exact ⟨Or.inr hfind, by rw [labelsOf, labelsOf, hfind, hnone]⟩

theorem dead_run {cfg : Config} {id : String} {labels : Option (List String)}
    (calls : List LabelCall) {l : Locked Tables} (h : Dead id l ∧ labelsOf l id = labels) :
    Dead id (run cfg (calls.map (·.op id)) l) ∧
      labelsOf (run cfg (calls.map (·.op id)) l) id = labels := by
  induction calls generalizing l with
  | nil => exact h
  | cons call calls ih =>
      refine ih ?_
      refine @step_invariant cfg (call.op id) (fun l => Dead id l ∧ labelsOf l id = labels)
        (fun s l hs hl => ?_) l h
      have hexec := @dead_exec cfg id _ _ _ hs hl.1
      exact ⟨hexec.1, hexec.2.trans hl.2⟩

/-- Any number of label calls on one issue, interleaved in any way in which nobody writes the labels
while somebody else is about to, leave the labels that the same calls leave one after the other, in
some order. The order is that in which they have taken effect. Calls that fail or find nothing to do
are part of it. -/
theorem labels_serializable [Fintype ι] {cfg : Config} {id : String} (calls : ι → LabelCall)
    {s₀ : Locked Tables} {schedule : List ι}
    (hschedule : Machine.Meets (System.step (Scope.exec cfg)) (Exclusive id) schedule
      (System.init s₀ fun i => (method cfg ((calls i).op id)).run))
    (hreturned : ∀ i, ∃ r, System.Returned (System.run (Scope.exec cfg) schedule
      (System.init s₀ fun i => (method cfg ((calls i).op id)).run)) i r) :
    ∃ order : List ι, order.Nodup ∧ (∀ i, i ∈ order) ∧
      labelsOf (System.run (Scope.exec cfg) schedule
        (System.init s₀ fun i => (method cfg ((calls i).op id)).run)).shared id =
      labelsOf (run cfg (order.map fun i => (calls i).op id) s₀) id := by
  -- Over a poisoned store or a missing issue no call edits anything, and any order will do.
  by_cases hdead : Dead id s₀
  · refine ⟨Finset.univ.toList, Finset.nodup_toList _, fun i => Finset.mem_toList.mpr
      (Finset.mem_univ i), ?_⟩
    have halone := (@dead_run cfg id _ (Finset.univ.toList.map calls) s₀ ⟨hdead, rfl⟩).2
    rw [List.map_map] at halone
    refine Eq.trans ?_ halone.symm
    refine (@System.only_run ι _ DbI _ _ (Scope.exec cfg) (fun i => Enters ((calls i).op id))
      (fun l => Dead id l ∧ labelsOf l id = labelsOf s₀ id) (fun i s l hs hl => ?_) _
      (fun i => (method_enters cfg ((calls i).op id)).only) schedule s₀ ⟨hdead, rfl⟩).2
    have hexec := @dead_exec cfg id _ _ _ hs hl.1
    exact ⟨hexec.1, hexec.2.trans hl.2⟩
  · rw [Dead, not_or] at hdead
    obtain ⟨row, hrow⟩ := Option.ne_none_iff_exists'.mp hdead.2
    have hcalm : Calm s₀.state.issue.keys id row.labels s₀ :=
      ⟨Bool.not_eq_true _ ▸ hdead.1, rfl, by rw [labelsOf, hrow]; rfl⟩
    have hinit : Serial s₀.state.issue.keys id calls row.labels
        (System.init s₀ fun i => (method cfg ((calls i).op id)).run) [] :=
      ⟨List.nodup_nil, hcalm, nofun, fun i _ => Or.inl (todo_method cfg hcalm.mem_keys (calls i))⟩
    obtain ⟨done, hdone⟩ := Machine.invariant_of_meets
      (fun w => ∃ done, Serial s₀.state.issue.keys id calls row.labels w done)
      (fun w i ⟨_, h⟩ hi => h.step hi) schedule ⟨[], hinit⟩ hschedule
    obtain ⟨order, hnodup, hall, hedited⟩ := hdone.complete hreturned
    refine ⟨order, hnodup, hall, ?_⟩
    refine hdone.calm.labels.trans ?_
    rw [(run_calm calls order hcalm).labels, hedited]

end Callers

/-! ### A label that is lost -/

/-- An issue without labels. -/
def unlabelled : Locked Tables :=
  run {} [.ensureProject "p" "/p" "p" 0, .create { id := some "x", project := some "p" } [] 0]
    (opened "s")

/-- Two callers, each adding a label of its own. -/
def twoLabels : Bool → LabelCall
  | true => .add "a" "me" 1
  | false => .add "b" "you" 1

/-- Both read before either writes, and one label is gone. -/
theorem label_lost :
    labelsOf (System.run (Scope.exec {}) [true, false, true, false]
      (System.init unlabelled fun i => (method {} ((twoLabels i).op "x")).run)).shared "x" =
        some ["b"] ∧
      ∀ order ∈ [[true, false], [false, true]],
        labelsOf (run {} (order.map fun i => (twoLabels i).op "x") unlabelled) "x" =
          some ["a", "b"] := by
  decide +kernel

/-- One after the other, both labels stay. -/
theorem labels_kept_in_turn :
    ∃ order : List Bool, order.Nodup ∧ (∀ i, i ∈ order) ∧
      labelsOf (System.run (Scope.exec {}) [true, true, false, false]
        (System.init unlabelled fun i => (method {} ((twoLabels i).op "x")).run)).shared "x" =
      labelsOf (run {} (order.map fun i => (twoLabels i).op "x") unlabelled) "x" := by
  refine labels_serializable twoLabels ⟨?_, ?_, ?_, ?_, trivial⟩ fun i => ?_
  · rintro ⟨_, _, _, _, h⟩
    cases h
  · rintro - c hc ⟨_, _, _, _, h⟩
    cases c
    · cases h
    · exact hc rfl
  · rintro ⟨_, _, _, _, h⟩
    cases h
  · rintro - c hc ⟨_, _, _, _, h⟩
    cases c
    · exact hc rfl
    · cases h
  · cases i
    · exact ⟨_, rfl⟩
    · exact ⟨_, rfl⟩

end Marbles.Db
