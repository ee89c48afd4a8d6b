import Marbles.Adapter.Looking
import Marbles.Adapter.Soil

/-!
# What a call does between its reads and its writes

Over a shared book nothing holds others back while a call works. A claim reads the issue and
asks for its version afterwards; an update and an edit of the labels write back the document
they read, whatever is stored by then. Between the two points the window of the call is open.

`claim_spec` and `edit_spec` say, for the calls alone, which document is read, and what may be
written on the strength of it.

A specification over the calls alone cannot speak about the book, so it speaks about the answers
the call has got. What may be written is then a function of them: the document that was read with
some fields changed. It is the only thing the proof about the shared book needs to know of a
method.
-/

namespace Marbles.Adapter.Soil

open Json (Value)
open Records (Key Version)

/-! ### What a trace says -/

/-- What a caller has asked of the engine and been answered. -/
abbrev Trace := List (Event InnerI)

/-- The documents a caller has read, absent ones included. -/
def reads (tr : Trace) : List (Option Value) := tr.filterMap fun e => match e with
  | ⟨.current _ _, data⟩ => some data
  | _ => none

/-- The versions a caller has been told. -/
def versions (tr : Trace) : List (Option Version) := tr.filterMap fun e => match e with
  | ⟨.version _ _, version⟩ => some version
  | _ => none

/-- The caller has written an issue back. -/
def saved (tr : Trace) : Bool := tr.any fun e => match e with
  | ⟨.append name _ _ _, _⟩ => name = issueKind
  | _ => false

/-- A conditional write of the caller was applied. -/
def won (tr : Trace) : Bool := tr.any fun e => match e with
  | ⟨.compareAndSwap _ _ _ _ _, .ok result⟩ => result.applied
  | _ => false

@[simp] theorem reads_append (tr tr' : Trace) : reads (tr ++ tr') = reads tr ++ reads tr' :=
  List.filterMap_append

@[simp] theorem versions_append (tr tr' : Trace) :
    versions (tr ++ tr') = versions tr ++ versions tr' := List.filterMap_append

@[simp] theorem saved_append (tr tr' : Trace) : saved (tr ++ tr') = (saved tr || saved tr') :=
  List.any_append

@[simp] theorem won_append (tr tr' : Trace) : won (tr ++ tr') = (won tr || won tr') :=
  List.any_append

/-! ### Calls that write no issue -/

/-- The records of this type are not issues. -/
def Elsewhere (name : String) : Prop := ∀ key k, id name key ≠ id issueKind k

/-- The type begins differently. -/
theorem elsewhere_of_head {name : String} (h : name.toList.head? ≠ none)
    (hi : name.toList.head? ≠ some 'i') : Elsewhere name := by
  intro key k heq
  have hhead := congrArg (fun s : String => s.toList.head?) heq
  simp only [id, String.toList_append, List.append_assoc, List.head?_append] at hhead
  cases hname : name.toList.head? with
  | none => exact h hname
  | some c =>
      rw [hname] at hhead
      exact hi (by rw [hname]; exact hhead)

/-- The call neither writes an issue nor asks for a version. -/
def Harmless : Adapter.Call → Prop
  | .current .. | .keys _ | .nextSeq => True
  | .append name .. => Elsewhere name
  | .version .. | .compareAndSwap .. => False

/-- The trace goes on with harmless calls. -/
def Extends (tr tr' : Trace) : Prop := ∃ more, tr' = tr ++ more ∧ ∀ e ∈ more, Harmless e.call

theorem Extends.refl (tr : Trace) : Extends tr tr :=
  ⟨[], (List.append_nil tr).symm, fun _ he => absurd he List.not_mem_nil⟩

theorem Extends.snoc {tr tr' : Trace} (h : Extends tr tr') {c : Adapter.Call} (hc : Harmless c)
    (r : c.Resp) : Extends tr (tr' ++ [⟨c, r⟩]) := by
  obtain ⟨more, rfl, hmore⟩ := h
  refine ⟨more ++ [⟨c, r⟩], List.append_assoc .., fun e he => ?_⟩
  rcases List.mem_append.mp he with he | he
  · exact hmore e he
  · rw [List.mem_singleton.mp he]
    exact hc

/-- Harmless calls ask for no version and write no issue. -/
theorem quiet_of_harmless {more : Trace} (h : ∀ e ∈ more, Harmless e.call) :
    versions more = [] ∧ saved more = false ∧ won more = false := by
  induction more with
  | nil => exact ⟨rfl, rfl, rfl⟩
  | cons e more ih =>
      obtain ⟨hversions, hsaved, hwon⟩ := ih fun e he => h e (List.mem_cons_of_mem _ he)
      have he := h e (List.mem_cons_self ..)
      obtain ⟨c, r⟩ := e
      cases c with
      | current | keys | nextSeq => exact ⟨hversions, hsaved, hwon⟩
      | version | compareAndSwap => exact he.elim
      | append name key data deleted =>
          have hname : name ≠ issueKind := fun hname => he key key (by rw [hname])
          refine ⟨hversions, ?_, hwon⟩
          have hfalse : decide (name = issueKind) = false := decide_eq_false hname
          have hcons : saved (⟨.append name key data deleted, r⟩ :: more) =
              (decide (name = issueKind) || saved more) := rfl
          rw [hcons, hfalse, hsaved]
          rfl

/-- What harmless calls leave of a trace. -/
theorem Extends.quiet {tr tr' : Trace} (h : Extends tr tr') :
    versions tr' = versions tr ∧ saved tr' = saved tr ∧ won tr' = won tr ∧
      ∃ more, reads tr' = reads tr ++ more := by
  obtain ⟨more, rfl, hmore⟩ := h
  obtain ⟨hversions, hsaved, hwon⟩ := quiet_of_harmless hmore
  simp [hversions, hsaved, hwon]

section Harmless

variable {α β : Type}

theorem only_ask {c : Adapter.Call} (h : Harmless c) : Prog.Only Harmless (ask c).run :=
  ⟨h, fun _ => trivial⟩

theorem only_pure (a : α) : Prog.Only Harmless (pure a : AdapterM α).run := trivial

theorem only_looking {m : AdapterM α} (hm : Looking m) : Prog.Only Harmless m.run := by
  refine hm.only.mono fun c hc => ?_
  cases c with
  | current name key => trivial
  | keys name => trivial
  | _ => exact hc.elim

theorem elsewhere_event : Elsewhere marblesEventKind :=
  elsewhere_of_head (by decide) (by decide)

theorem elsewhere_outbound : Elsewhere outboundEventKind :=
  elsewhere_of_head (by decide) (by decide)

theorem elsewhere_meta : Elsewhere storeMetaKind := elsewhere_of_head (by decide) (by decide)

theorem only_logEvent (storeId id : String) (ts : Int) (actor event detail : String) :
    Prog.Only Harmless (logEvent storeId id ts actor event detail).run := by
  refine (@only_ask .nextSeq trivial).bind_except fun seq => ?_
  refine Prog.Only.bind_except (only_ask elsewhere_event) fun _ => ?_
  refine (only_looking (.loadIssue id)).bind_except fun data => ?_
  cases data with
  | none => exact only_pure _
  | some data => exact only_ask elsewhere_outbound

variable {guard : Adapter.Call → Trace → Prop} {tr : Trace}

/-- A harmless program extends the trace, if the guard lets all harmless calls through. -/
theorem spec_harmless {m : AdapterM α} {start : Trace} (hm : Prog.Only Harmless m.run)
    (hguard : ∀ c tr', Harmless c → Extends start tr' → guard c tr') (htr : Extends start tr) :
    Prog.Spec guard (fun _ tr' => Extends start tr') m.run tr :=
  (Prog.Spec.of_only (Extends start) (fun _ r _ hc htr => htr.snoc hc r) hm htr).mono
    (fun c tr' h => hguard c tr' h.1 h.2) fun _ _ h => h

/-- The issue was made of this document, and nothing but reads came after it. -/
def Loaded (id : String) (tr : Trace) (issue : Issue) (tr' : Trace) : Prop :=
  ∃ data parents openParents openChildren,
    Extends (tr ++ [⟨.current issueKind [id], some data⟩]) tr' ∧
      issue = issueOfJson id data parents openParents openChildren

/-- `get` reads the issue first. -/
theorem spec_get (id : String) (hfirst : guard (.current issueKind [id]) tr)
    (hguard : ∀ data c tr', Harmless c → Extends (tr ++ [⟨.current issueKind [id], data⟩]) tr' →
      guard c tr') :
    Prog.Spec guard (fun r tr' => ∀ issue, r = .ok issue → Loaded id tr issue tr')
      (get id).run tr := by
  have hload : Prog.Spec guard (fun r tr' => ∀ issue, r = .ok (some issue) →
      Loaded id tr issue tr') (rowToIssue id).run tr := by
    refine ⟨hfirst, fun data => ?_⟩
    cases data with
    | none => exact fun issue h => by cases h
    | some data =>
        change Prog.Spec guard _ (edges >>= fun es => do
          let parents := (es.filter fun e => e.1 = id).map Prod.snd
          let openParents ← countOpen parents
          let children := ((← edges).filter fun e => e.2 = id).map Prod.fst
          let openChildren ← countOpen children
          pure (some (issueOfJson id data (Sorting.sortOn (fun p => p) parents) openParents
            openChildren)) : AdapterM (Option Issue)).run _
        have hthen : ∀ {γ : Type} {m : AdapterM γ} {f : γ → AdapterM (Option Issue)} {tr' : Trace},
            Prog.Only Harmless m.run → Extends (tr ++ [⟨.current issueKind [id], some data⟩]) tr' →
            (∀ a tr'', Extends (tr ++ [⟨.current issueKind [id], some data⟩]) tr'' →
              Prog.Spec guard (fun r tr' => ∀ issue, r = .ok (some issue) → Loaded id tr issue tr')
                (f a).run tr'') →
            Prog.Spec guard (fun r tr' => ∀ issue, r = .ok (some issue) → Loaded id tr issue tr')
              (m >>= f).run tr' := by
          intro γ m f tr' hm htr' hf
          exact Prog.Spec.bind_except (spec_harmless hm (hguard (some data)) htr') hf
            fun e tr'' _ issue h => by cases h
        -- After the issue's own document the reads only look, so they extend the trace and add
        -- nothing that the result depends on.
        refine hthen (only_looking .edges) (.refl _) fun es tr₁ h₁ => ?_
        refine hthen (only_looking (.countOpen _)) h₁ fun openParents tr₂ h₂ => ?_
        refine hthen (only_looking .edges) h₂ fun es' tr₃ h₃ => ?_
        refine hthen (only_looking (.countOpen _)) h₃ fun openChildren tr₄ h₄ issue h => ?_
        cases h
        exact ⟨data, _, openParents, openChildren, h₄, rfl⟩
  refine hload.bind_except (fun issue tr' hissue => ?_) fun e tr' _ issue h => by cases h
  cases issue with
  | none => exact fun issue h => by cases h
  | some issue =>
      intro issue' h
      cases h
      exact hissue issue rfl

end Harmless

/-! ### The document a call works on -/

/-- The assignee and the end of the lease in a document. -/
def claimOf (data : Value) : Option String × Option Int :=
  ((data.field "assignee").asStr, (data.field "expires_at").asInt)

/-- The claim in a document is live. -/
def liveAt (data : Value) (now : Int) : Bool := heldAt (claimOf data).1 (claimOf data).2 now

/-- A call that writes to an issue what it made of a document it read: a claim under the
version it asked for, an edit in any case. -/
inductive Writer where
  | claim (req : ClaimRequest) (now : Int)
  | update (id : String) (patch : IssuePatch) (actor : String) (now : Int)
  | addLabel (id label actor : String) (now : Int)
  | removeLabel (id label actor : String) (now : Int)

namespace Writer

/-- The call of a writer. -/
def op : Writer → Op
  | claim req now => .claim req now
  | update id patch actor now => .update id patch actor now
  | addLabel id label actor now => .addLabel id label actor now
  | removeLabel id label actor now => .removeLabel id label actor now

/-- The issue it writes. -/
def issue : Writer → String
  | claim req _ => req.id
  | update id .. | addLabel id .. | removeLabel id .. => id

/-- The time it writes at. -/
def now : Writer → Int
  | claim _ now | update _ _ _ now | addLabel _ _ _ now | removeLabel _ _ _ now => now

/-- The call writes in any case, under no version. -/
def IsEdit : Writer → Prop
  | claim .. => False
  | _ => True

/-- The document a call works on, once it has read it. A claim has looked up the project
of the issue before. -/
def docRead (w : Writer) (tr : Trace) : Option Value :=
  match w with
  | claim .. => ((reads tr)[1]?).join
  | _ => ((reads tr)[0]?).join

/-- A call that read this document goes on to write. -/
def writesBack (w : Writer) (data : Value) : Prop :=
  match w with
  | claim req now => liveAt data now = true → (claimOf data).1 = some req.assignee
  | update _ patch _ _ => patch.metadata.all fun m => m.asObject.isSome
  | addLabel _ label _ _ => label ∉ ((data.field "labels").asList Value.asStr).getD []
  | removeLabel .. => True

/-- Nothing that is stored later can be missed any more: the version is known, or the
issue is written. -/
def settled (w : Writer) (tr : Trace) : Prop :=
  match w with
  | claim .. => versions tr ≠ []
  | _ => saved tr = true

/-- The call does not take a live claim in `found` from its holder, after it has read
`data`: for a claim the claim is its own, for an edit it is the one it read. -/
def Spares (w : Writer) (data found : Value) : Prop :=
  liveAt found w.now = true →
    match w with
    | claim req _ => (claimOf found).1 = some req.assignee
    | _ => claimOf found = claimOf data

theorem docRead_edit {w : Writer} (h : w.IsEdit) (tr : Trace) :
    w.docRead tr = ((reads tr)[0]?).join := by
  cases w with
  | claim => exact h.elim
  | update | addLabel | removeLabel => rfl

theorem settled_edit {w : Writer} (h : w.IsEdit) (tr : Trace) :
    w.settled tr ↔ saved tr = true := by
  cases w with
  | claim => exact h.elim
  | update | addLabel | removeLabel => exact Iff.rfl

theorem spares_edit {w : Writer} (h : w.IsEdit) (data found : Value) :
    w.Spares data found ↔ (liveAt found w.now = true → claimOf found = claimOf data) := by
  cases w with
  | claim => exact h.elim
  | update | addLabel | removeLabel => exact Iff.rfl

/-- A document that the call goes on to write is spared while it is stored. -/
theorem spares_self {w : Writer} {data : Value} (h : w.writesBack data) : w.Spares data data := by
  intro hlive
  cases w with
  | claim req now => exact h hlive
  | update | addLabel | removeLabel => rfl

end Writer

/-! ### What the calls may write -/

section Specs

variable (cfg : Config)

/-- A caller that has done nothing about issues yet. -/
structure Fresh (tr : Trace) : Prop where
  reads : reads tr = []
  versions : versions tr = []
  saved : saved tr = false
  won : won tr = false

/-- What a claim may ask for: it writes under the version of the issue it was told after it read
that nobody else holds it. The version is the one it was told last, which may be later than the
document it read. -/
def ClaimGuard (req : ClaimRequest) (now : Int) : Adapter.Call → Trace → Prop
  | .current name key, tr => (reads tr).length = 1 → name = issueKind ∧ key = [req.id]
  | .keys _, _ | .nextSeq, _ => True
  | .append name .., _ => Elsewhere name
  | .version name key, tr => name = issueKind ∧ key = [req.id] ∧ versions tr = [] ∧
      ∃ data, (Writer.claim req now).docRead tr = some data
  | .compareAndSwap name key expected data deleted, tr => name = issueKind ∧ key = [req.id] ∧
      deleted = false ∧ ∃ found v ttl, (Writer.claim req now).docRead tr = some found ∧
        (Writer.claim req now).writesBack found ∧ versions tr = [some v] ∧ expected = some v ∧
        req.ttl cfg.week cfg.policy now = some ttl ∧
        claimOf data = (some req.assignee, some (wrapI64 (now + ttl)))

/-- What an edit may ask for: it writes once, with the claim it read. An edit never asks for a
version, so nothing that was written in between can stop it. -/
def EditGuard (w : Writer) : Adapter.Call → Trace → Prop
  | .current name key, tr => reads tr = [] → name = issueKind ∧ key = [w.issue]
  | .keys _, _ | .nextSeq, _ => True
  | .append name key data deleted, tr => Elsewhere name ∨
      (name = issueKind ∧ key = [w.issue] ∧ deleted = false ∧ saved tr = false ∧
        ∃ found, w.docRead tr = some found ∧ w.writesBack found ∧ claimOf data = claimOf found)
  | .version .., _ | .compareAndSwap .., _ => False

/-- What a writer may ask for. -/
def Writer.Guard : Writer → Adapter.Call → Trace → Prop
  | .claim req now => ClaimGuard cfg req now
  | w => EditGuard w

/-- A claim that returns has won. -/
def Writer.Post : Writer → Result Reply → Trace → Prop
  | .claim .., r, tr => ∀ a, r = .ok a → won tr = true
  | _, _, _ => True

variable {cfg} {tr : Trace}

/-- After the second read a claim may go on with harmless calls. -/
theorem claimGuard_harmless {req : ClaimRequest} {now : Int} {c : Adapter.Call} (hc : Harmless c)
    (h : 2 ≤ (reads tr).length) : ClaimGuard cfg req now c tr := by
  cases c with
  | current name key => exact fun hone => by omega
  | keys | nextSeq => exact trivial
  | append => exact hc
  | version | compareAndSwap => exact hc.elim

theorem editGuard_harmless {w : Writer} {c : Adapter.Call} (hc : Harmless c) (h : reads tr ≠ []) :
    EditGuard w c tr := by
  cases c with
  | current name key => exact fun hnil => absurd hnil h
  | keys | nextSeq => exact trivial
  | append => exact Or.inl hc
  | version | compareAndSwap => exact hc.elim

/-- A claim that knows the version. -/
theorem claim_spec_version {req : ClaimRequest} {now ttl : Int} {data : Value} {v : Version}
    {issue : Issue} {found : Value} {more : List (Option Value)}
    (hlease : req.ttl cfg.week cfg.policy now = some ttl)
    (hissue : (issue.assignee, issue.expiresAt) = claimOf data) (hid : issue.id = req.id)
    (hreads : reads tr = some found :: some data :: more) (hversions : versions tr = [some v]) :
    Prog.Spec (ClaimGuard cfg req now) (fun r tr' => ∀ a, r = .ok a → won tr' = true)
      (if heldAt issue.assignee issue.expiresAt now && issue.assignee ≠ some req.assignee then
          throw (.fail (.alreadyClaimed req.id (issue.assignee.getD "")))
        else do
          let applied ← saveIssueCas { issue with
            assignee := some req.assignee
            actorKind := some req.actorKind.asStr
            expiresAt := some (wrapI64 (now + ttl))
            updatedAt := now } v
          if applied then do
            logEvent cfg.storeId req.id now req.assignee "claimed" req.actorKind.asStr
            pure ⟨req.id, req.assignee, req.actorKind, wrapI64 (now + ttl)⟩
          else do
            let latest ← get req.id
            match latest.assignee with
            | some holder =>
                if holder ≠ req.assignee then throw (.fail (.alreadyClaimed req.id holder))
                else throw (.fail (.bad s!"claim for {req.id} lost a race; retry"))
            | none => throw (.fail (.bad s!"claim for {req.id} lost a race; retry")) :
              AdapterM ClaimReceipt).run tr := by
  obtain ⟨hassignee, hexpires⟩ := Prod.mk.inj hissue
  by_cases hheld : (heldAt issue.assignee issue.expiresAt now &&
    decide (issue.assignee ≠ some req.assignee)) = true
  · rw [if_pos hheld]
    exact fun a h => by cases h
  · rw [if_neg hheld]
    -- what was read allows the claim, so the guard of the write is met
    have hfree : (Writer.claim req now).writesBack data := by
      intro hlive
      by_contra hother
      refine hheld ?_
      rw [hassignee, hexpires, Bool.and_eq_true]
      exact ⟨hlive, decide_eq_true hother⟩
    refine ⟨⟨rfl, by rw [hid], rfl, data, v, ttl, by rw [Writer.docRead, hreads]; rfl, hfree,
      hversions, rfl, hlease, rfl⟩, fun r => ?_⟩
    cases r with
    | error message => exact fun a h => by cases h
    | ok result =>
        generalize htr' : tr ++ [_] = tr'
        -- both reads are in the trace by now, so what follows may read anything
        have hlong : ∀ {tr''}, Extends tr' tr'' → 2 ≤ (reads tr'').length := by
          intro tr'' hext
          obtain ⟨-, -, -, more', hmore⟩ := hext.quiet
          rw [hmore, ← htr', reads_append, hreads]
          simp
        cases happlied : result.applied with
        | true =>
            have hwon : won tr' = true := by
              rw [← htr', won_append, Bool.or_eq_true]
              right
              change (result.applied || false) = true
              rw [happlied]
              rfl
            change Prog.Spec _ _ (if result.applied then _ else _ : AdapterM ClaimReceipt).run tr'
            rw [if_pos happlied]
            refine Prog.Spec.bind_except (spec_harmless (only_logEvent ..)
              (fun c tr'' hc hext => claimGuard_harmless hc (hlong hext)) (.refl tr'))
              (fun _ tr'' hext a _ => ?_) fun e _ _ a h => by cases h
            rw [hext.quiet.2.2.1]
            exact hwon
        | false =>
            change Prog.Spec _ _ (if result.applied then _ else _ : AdapterM ClaimReceipt).run tr'
            rw [if_neg (by rw [happlied]; decide)]
            refine Prog.Spec.bind_except (spec_harmless (only_looking (.get req.id))
              (fun c tr'' hc hext => claimGuard_harmless hc (hlong hext)) (.refl tr'))
              (fun latest tr'' _ => ?_) fun e _ _ a h => by cases h
            cases latest.assignee with
            | none => exact fun a h => by cases h
            | some holder =>
                dsimp only
                split
                · exact fun a h => by cases h
                · exact fun a h => by cases h

theorem claim_spec (req : ClaimRequest) (now : Int) (htr : Fresh tr) :
    Prog.Spec (ClaimGuard cfg req now) (fun r tr' => ∀ a, r = .ok a → won tr' = true)
      (claim cfg req now).run tr := by
  rw [claim]
  cases hlease : req.ttl cfg.week cfg.policy now with
  | none => exact fun a h => by cases h
  | some ttl =>
      -- the project is looked up first; what is read here is not looked at again
      refine ⟨fun hone => absurd hone (by rw [htr.reads]; decide), fun found => ?_⟩
      cases found with
      | none => exact fun a h => by cases h
      | some found =>
          generalize htr₁ : tr ++ [⟨.current issueKind [req.id], some found⟩] = tr₁
          have hreads₁ : reads tr₁ = [some found] := by
            rw [← htr₁, reads_append, htr.reads]
            rfl
          refine Prog.Spec.bind_except (spec_get req.id (fun _ => ⟨rfl, rfl⟩)
            fun data c tr' hc htr' => claimGuard_harmless hc ?_) (fun issue tr₂ hissue => ?_)
            fun e _ _ a h => by cases h
          · obtain ⟨-, -, -, more, hmore⟩ := htr'.quiet
            rw [hmore, reads_append, hreads₁]
            simp [reads]
          · obtain ⟨data, parents, openParents, openChildren, hext, rfl⟩ := hissue issue rfl
            obtain ⟨hversions, -, -, more, hmore⟩ := hext.quiet
            have hversions₂ : versions tr₂ = [] := by
              rw [hversions, versions_append, ← htr₁, versions_append, htr.versions]
              rfl
            have hreads₂ : reads tr₂ = some found :: some data :: more := by
              rw [hmore, reads_append, hreads₁]
              rfl
            refine ⟨⟨rfl, rfl, hversions₂, data, by rw [Writer.docRead, hreads₂]; rfl⟩, fun v => ?_⟩
            cases v with
            | none => exact fun a h => by cases h
            | some v =>
                generalize htr₃ : tr₂ ++ [⟨.version issueKind [req.id], some v⟩] = tr₃
                exact claim_spec_version hlease rfl rfl (by rw [← htr₃, reads_append, hreads₂]; rfl)
                  (by rw [← htr₃, versions_append, hversions₂]; rfl)

/-- An edit begins with a read of its issue, and then works on that document. -/
theorem editGuard_get {w : Writer} (htr : Fresh tr) (hread : ∀ tr, w.docRead tr =
    ((reads tr)[0]?).join) : Prog.Spec (EditGuard w) (fun r tr' => ∀ issue, r = .ok issue →
      issue.id = w.issue ∧ saved tr' = false ∧ ∃ data, w.docRead tr' = some data ∧
        (issue.assignee, issue.expiresAt) = claimOf data ∧
        issue.labels = ((data.field "labels").asList Value.asStr).getD [])
      (get w.issue).run tr := by
  refine (spec_get w.issue (fun _ => ⟨rfl, rfl⟩) fun data c tr' hc htr' =>
    editGuard_harmless hc ?_).mono (fun _ _ h => h) fun r tr' hr issue hissue => ?_
  · obtain ⟨-, -, -, more, hmore⟩ := htr'.quiet
    rw [hmore, reads_append, htr.reads]
    simp [reads]
  · obtain ⟨data, parents, openParents, openChildren, hext, rfl⟩ := hr issue hissue
    obtain ⟨-, hsaved, -, more, hmore⟩ := hext.quiet
    refine ⟨rfl, ?_, data, ?_, rfl, rfl⟩
    · rw [hsaved, saved_append, htr.saved]
      rfl
    · rw [hread, hmore, reads_append, htr.reads]
      rfl

/-- After its first read an edit may write back what it made of the document, and go on
with harmless calls. -/
theorem spec_saved {α : Type} {w : Writer} {data : Value} {issue : Issue} {m : AdapterM α}
    (hw : ∀ tr, w.docRead tr = ((reads tr)[0]?).join)
    (hread : w.docRead tr = some data) (hback : w.writesBack data)
    (hid : issue.id = w.issue) (hclaim : (issue.assignee, issue.expiresAt) = claimOf data)
    (hsaved : saved tr = false) (hm : Prog.Only Harmless m.run) :
    Prog.Spec (EditGuard w) (fun _ _ => True) (do
      saveIssue issue
      m).run tr := by
  have hnil : reads tr ≠ [] := by
    intro hnil
    rw [hw, hnil] at hread
    cases hread
  refine ⟨Or.inr ⟨rfl, by rw [hid], rfl, hsaved, data, hread, hback, ?_⟩, fun _ => ?_⟩
  · rw [← hclaim]
    simp [claimOf, issueToJson, Value.field, Json.Object.get, List.lookup_cons]
  · refine (spec_harmless hm (fun c tr' hc hext => editGuard_harmless hc ?_)
      (.refl _)).mono (fun _ _ h => h) fun _ _ _ => trivial
    obtain ⟨-, -, -, more, hmore⟩ := hext.quiet
    rw [hmore, reads_append]
    simp [hnil]

theorem update_spec (id : String) (patch : IssuePatch) (actor : String) (now : Int)
    (htr : Fresh tr) : Prog.Spec (EditGuard (.update id patch actor now)) (fun _ _ => True)
      (update cfg id patch actor now).run tr := by
  rw [update]
  have hcheck : Prog.Spec (EditGuard (.update id patch actor now)) (fun _ tr' => tr' = tr)
      (liftResult patch.checkStatus).run tr := by
    cases patch.checkStatus with
    | ok u => rfl
    | error e => rfl
  refine hcheck.bind_except (fun _ tr' heq => ?_) fun _ _ _ => trivial
  subst heq
  refine Prog.Spec.bind_except (editGuard_get (w := .update id patch actor now) htr fun _ => rfl)
    (fun issue tr' hissue => ?_) fun _ _ _ => trivial
  obtain ⟨hid, hsaved, data, hread, hclaim, -⟩ := hissue issue rfl
  cases hnext : patch.apply cfg.policy now issue with
  | error e => exact trivial
  | ok next =>
      obtain ⟨hid', -, -, hassignee, -, hexpires, -, -⟩ := patch_apply_frame hnext
      refine spec_saved (fun _ => rfl) hread (patch_apply_metadata hnext) (hid'.trans hid)
        (by rw [hassignee, hexpires, hclaim]) hsaved ?_
      have hrest : Prog.Only Harmless (do
          logEvent cfg.storeId id now actor "updated" ""
          get id : AdapterM Issue).run :=
        (only_logEvent ..).bind_except fun _ => only_looking (.get id)
      dsimp only
      split
      · exact (only_logEvent ..).bind_except fun _ => hrest
      · exact hrest

theorem saveLabels_spec {w : Writer} {data : Value} {issue : Issue}
    (hw : ∀ tr, w.docRead tr = ((reads tr)[0]?).join) (hread : w.docRead tr = some data)
    (hback : w.writesBack data) (hid : issue.id = w.issue)
    (hclaim : (issue.assignee, issue.expiresAt) = claimOf data) (hsaved : saved tr = false)
    (labels : List String) (actor : String) (now : Int) :
    Prog.Spec (EditGuard w) (fun _ _ => True) (saveLabels cfg issue labels actor now).run tr :=
  have hid' : ({ issue with labels := labels } : Issue).id = w.issue := hid
  spec_saved hw hread hback hid' hclaim hsaved (only_logEvent ..)

theorem addLabel_spec (id label actor : String) (now : Int) (htr : Fresh tr) :
    Prog.Spec (EditGuard (.addLabel id label actor now)) (fun _ _ => True)
      (addLabel cfg id label actor now).run tr := by
  refine Prog.Spec.bind_except (editGuard_get (w := .addLabel id label actor now) htr
    fun _ => rfl) (fun issue tr' hissue => ?_) fun _ _ _ => trivial
  obtain ⟨hid, hsaved, data, hread, hclaim, hlabels⟩ := hissue issue rfl
  unfold addedLabel
  by_cases hmem : label ∈ issue.labels
  · rw [if_pos hmem]
    exact trivial
  · rw [if_neg hmem]
    refine saveLabels_spec (fun _ => rfl) hread ?_ hid hclaim hsaved _ actor now
    rwa [hlabels] at hmem

theorem removeLabel_spec (id label actor : String) (now : Int) (htr : Fresh tr) :
    Prog.Spec (EditGuard (.removeLabel id label actor now)) (fun _ _ => True)
      (removeLabel cfg id label actor now).run tr := by
  refine Prog.Spec.bind_except (editGuard_get (w := .removeLabel id label actor now) htr
    fun _ => rfl) (fun issue tr' hissue => ?_) fun _ _ _ => trivial
  obtain ⟨hid, hsaved, data, hread, hclaim, -⟩ := hissue issue rfl
  exact saveLabels_spec (fun _ => rfl) hread trivial hid hclaim hsaved _ actor now

theorem method_spec (w : Writer) (htr : Fresh tr) :
    Prog.Spec (w.Guard cfg) w.Post (method cfg w.op).run tr := by
  cases w with
  | claim req now =>
      change Prog.Spec _ _ (Reply.receipt <$> claim cfg req now).run tr
      rw [map_eq_pure_bind]
      exact Prog.Spec.bind_except (claim_spec req now htr) (fun a tr' h b _ => h a rfl)
        fun e _ _ a h => by cases h
  | update id patch actor now =>
      change Prog.Spec _ _ (Reply.issue <$> update cfg id patch actor now).run tr
      rw [map_eq_pure_bind]
      exact Prog.Spec.bind_except (update_spec id patch actor now htr) (fun _ _ _ => trivial)
        fun _ _ _ => trivial
  | addLabel id label actor now =>
      exact Prog.Spec.bind_except (addLabel_spec id label actor now htr) (fun _ _ _ => trivial)
        fun _ _ _ => trivial
  | removeLabel id label actor now =>
      exact Prog.Spec.bind_except (removeLabel_spec id label actor now htr) (fun _ _ _ => trivial)
        fun _ _ _ => trivial

theorem guard_append (w : Writer) {name : String} (hname : Elsewhere name) (key : Key)
    (data : Value) (deleted : Bool) : w.Guard cfg (.append name key data deleted) tr := by
  cases w with
  | claim req now => exact hname
  | update | addLabel | removeLabel => exact Or.inl hname

/-- A fresh adapter records its own id before. -/
theorem program_spec (v : Invocation) {w : Writer} (hw : v.op = w.op) :
    Prog.Spec (w.Guard v.cfg) w.Post v.program [] := by
  have hfresh : Fresh [] := ⟨rfl, rfl, rfl, rfl⟩
  unfold Invocation.program
  rw [hw]
  cases v.adapter with
  | some l => exact method_spec w hfresh
  | none =>
      refine ⟨guard_append w elsewhere_meta _ _ _, fun _ => method_spec w ⟨rfl, rfl, ?_, rfl⟩⟩
      refine (quiet_of_harmless fun e he => ?_).2.1
      rw [List.mem_singleton.mp he]
      exact elsewhere_meta

end Specs

end Marbles.Adapter.Soil
