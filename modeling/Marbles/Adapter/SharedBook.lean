import Marbles.Adapter.Windows

/-!
# Claims over a shared book

Any number of invocations over one book, answered call by call in any order. A claim writes
under a version, but under the version it asks for *after* it read the issue: what others
won in between is overwritten. An edit writes back the claim it read, whatever is stored.

`claims_survive` shows that these windows are all there is: as long as nobody leaves an issue
with a live claim while another call has read the issue and does not know the claim, no
claim, update or edit of labels takes a live claim from its holder, and of the claims on one
issue at one time at most one assignee's goes through.

What a call knows is recorded with it: the versions and documents it was answered, and since when.
The invariant ties this knowledge to the book, and a step of one call disturbs the knowledge of
another only by writing to the same issue, which is what the condition of the theorem is about.
Windows are named after what their call has read and not after a place in the source, so retries
are covered.
-/

namespace Marbles.Adapter.Soil

open Json (Value)
open Records (Key Version)

/-! ### What a caller knows -/

/-- One invocation: where it is in its program, and what it has been answered so far. -/
abbrev Caller := Client InnerI BookI (Option Local) (Result Reply)

/-- The record of the issue a writer is about. -/
def Writer.record (w : Writer) : String := id issueKind [w.issue]

/-- The window of a call is open: it has read this document, will write on the strength of
it, and does not see what others write. -/
structure Open (w : Writer) (c : Caller) (data : Value) : Prop where
  pending : c.IsPending
  read : w.docRead c.trace = some data
  back : w.writesBack data
  unsettled : ¬ w.settled c.trace

/-- While the window is open nobody has won the issue unseen, and once a claim knows the version,
nobody has won it unseen under that version. It is about what a call has been told, so it survives
whatever others do outside of the window. -/
structure Knows (b : Book) (s : b.State) (w : Writer) (c : Caller) : Prop where
  window : ∀ data, Open w c data → ∀ found ∈ b.docAt s w.record, w.Spares data found
  asked : ∀ req now, w = .claim req now → versions c.trace ≠ [] → ∃ data, w.docRead c.trace =
    some data
  version : ∀ req now data v, w = .claim req now → w.docRead c.trace = some data →
    w.writesBack data → versions c.trace = [some v] →
      ∃ e, b.stored s w.record = some e ∧ v.revision ≤ e.version.revision ∧
        (e.version = v → ∀ found ∈ e.current, w.Spares data found)

/-- A live claim on the issue stays with its holder, and an edit leaves it as it is. -/
def Kept (b : Book) (s s' : b.State) (w : Writer) : Prop :=
  ∀ found ∈ b.docAt s w.record, liveAt found w.now = true →
    ∃ after ∈ b.docAt s' w.record, liveAt after w.now = true ∧
      (claimOf after).1 = (claimOf found).1 ∧
      (w.IsEdit → claimOf after = claimOf found)

/-- The lease a claim asks for ends after it begins. -/
def Writer.Lasting (cfg : Config) : Writer → Prop
  | .claim req now => ∀ ttl, req.ttl cfg.week cfg.policy now = some ttl → now < wrapI64 (now + ttl)
  | _ => True

variable {g : Guest} {b : Book} {s s' : b.State} {w : Writer} {cfg : Config} {tr : Trace}
  {call : Adapter.Call}

theorem kept_of_stored (h : b.stored s' w.record = b.stored s w.record) : Kept b s s' w := by
  intro found hfound hlive
  refine ⟨found, ?_, hlive, rfl, fun _ => rfl⟩
  rwa [Book.docAt, h]

/-! ### What a writer writes -/

/-- A writer writes no issue, or it is a claim under the version it was told, or an edit
with the claim it read. -/
theorem guard_cases (h : w.Guard cfg call tr) :
    (∀ i, target call ≠ some (id issueKind [i])) ∨
    (∃ req now data v ttl found, w = .claim req now ∧
      call = .compareAndSwap issueKind [w.issue] (some v) data false ∧ w.docRead tr = some found ∧
      w.writesBack found ∧ versions tr = [some v] ∧ req.ttl cfg.week cfg.policy now = some ttl ∧
      claimOf data = (some req.assignee, some (wrapI64 (now + ttl)))) ∨
    (w.IsEdit ∧ ∃ data found, call = .append issueKind [w.issue] data false ∧ saved tr = false ∧
      w.docRead tr = some found ∧ w.writesBack found ∧ claimOf data = claimOf found) := by
  have hnone : target call = none → ∀ i, target call ≠ some (id issueKind [i]) := by
    intro hnone i hi
    rw [hnone] at hi
    cases hi
  have hedit : EditGuard w call tr → (∀ i, target call ≠ some (id issueKind [i])) ∨ ∃ data found,
      call = .append issueKind [w.issue] data false ∧ saved tr = false ∧ w.docRead tr = some found ∧
        w.writesBack found ∧ claimOf data = claimOf found := by
    intro hguard
    cases call with
    | current | keys | nextSeq => exact Or.inl (hnone rfl)
    | version | compareAndSwap => exact hguard.elim
    | append name key data deleted =>
        rcases hguard with helse | ⟨rfl, rfl, rfl, hsaved, found, hread, hback, hclaim⟩
        · exact Or.inl fun i hi => helse key [i] (Option.some.inj hi)
        · exact Or.inr ⟨data, found, rfl, hsaved, hread, hback, hclaim⟩
  -- A claim writes its issue by compare-and-swap only, an edit by an append that writes the claim
  -- back as it was read.
  cases w with
  | claim req now =>
      cases call with
      | current | keys | nextSeq | version => exact Or.inl (hnone rfl)
      | append name key data deleted =>
          exact Or.inl fun i hi => (h : Elsewhere name) key [i] (Option.some.inj hi)
      | compareAndSwap name key expected data deleted =>
          obtain ⟨rfl, rfl, rfl, found, v, ttl, hread, hback, hversions, rfl, hlease, hclaim⟩ := h
          exact Or.inr (Or.inl ⟨req, now, data, v, ttl, found, rfl, rfl, hread, hback, hversions,
            hlease, hclaim⟩)
  | update | addLabel | removeLabel =>
      rcases hedit h with hnot | hwrite
      · exact Or.inl hnot
      · exact Or.inr (Or.inr ⟨trivial, hwrite⟩)

/-- What a writer about to ask for `call` leaves of a claim on its issue. -/
theorem own_kept {q : Prog BookI (Option (call.Resp × Option Local))} {c : Caller}
    (hlasting : w.Lasting cfg) (hpending : c.IsPending) (hknows : Knows b s w c)
    (hguard : w.Guard cfg call c.trace) (hturn : Turn g b call s s' q) : Kept b s s' w := by
  rcases guard_cases hguard with hnot | ⟨req, now, data, v, ttl, found, rfl, rfl, hread, hback,
    hversions, hlease, hclaim⟩ | ⟨hedit, data, found, rfl, hsaved, hread, hback, hclaim⟩
  · exact kept_of_stored (hturn.frame _ (hnot _))
  · -- the write goes through only under the version it was told
    rcases hturn.answers.1 with hsame | ⟨hv, hdata⟩
    · exact kept_of_stored hsame
    · intro held hheld hlive
      obtain ⟨e, he, -, hspares⟩ := hknows.version req now found v rfl hread hback hversions
      have hcurrent : held ∈ e.current := by
        rw [Book.docAt, he] at hheld
        exact hheld
      have hev : e.version = v := by
        change (b.stored s (Writer.claim req now).record).map Entry.version = some v at hv
        rw [he] at hv
        exact Option.some.inj hv
      have hown : (claimOf held).1 = some req.assignee := hspares hev held hcurrent hlive
      refine ⟨data, hdata, ?_, ?_, fun h => h.elim⟩
      · rw [liveAt, hclaim]
        exact decide_eq_true (hlasting ttl hlease)
      · rw [hclaim, hown]
  · -- the write goes through in any case
    rcases hturn.answers with hsame | hdata
    · exact kept_of_stored hsame
    · intro held hheld hlive
      have hopen : Open w c found := by
        refine ⟨hpending, hread, hback, fun hsettled => ?_⟩
        rw [Writer.settled_edit hedit, hsaved] at hsettled
        cases hsettled
      have hown : claimOf held = claimOf found :=
        (Writer.spares_edit hedit ..).mp (hknows.window found hopen held hheld) hlive
      refine ⟨data, hdata, ?_, ?_, fun _ => ?_⟩
      · rw [liveAt, hclaim, ← hown]
        exact hlive
      · rw [hclaim, hown]
      · rw [hclaim, hown]

/-! ### What a caller learns -/

/-- Two traces say the same about the issue. -/
structure Same (tr tr' : Trace) : Prop where
  reads : reads tr' = reads tr
  versions : versions tr' = versions tr
  saved : saved tr' = saved tr
  won : won tr' = won tr

/-- Which document a call works on is a matter of its reads. -/
theorem docRead_congr {tr tr' : Trace} (h : reads tr' = reads tr) (w : Writer) :
    w.docRead tr' = w.docRead tr := by
  cases w <;> simp only [Writer.docRead, h]

theorem Same.docRead {tr tr' : Trace} (h : Same tr tr') (w : Writer) :
    w.docRead tr' = w.docRead tr := docRead_congr h.reads w

theorem Same.settled {tr tr' : Trace} (h : Same tr tr') (w : Writer) :
    w.settled tr' ↔ w.settled tr := by
  cases w <;> simp only [Writer.settled, h.versions, h.saved]

theorem same_local (tr : Trace) {silent : Trace} (h : ∀ e ∈ silent, isLocal e.call = true) :
    Same tr (tr ++ silent) := by
  have hquiet : reads silent = [] ∧ versions silent = [] ∧ saved silent = false ∧
      won silent = false := by
    induction silent with
    | nil => exact ⟨rfl, rfl, rfl, rfl⟩
    | cons e silent ih =>
        obtain ⟨c, r⟩ := e
        have hrest := ih fun e he => h e (List.mem_cons_of_mem _ he)
        have hc : isLocal c = true := h ⟨c, r⟩ (List.mem_cons_self ..)
        cases c with
        | keys | nextSeq => exact hrest
        | append | current | version | compareAndSwap => cases hc
  obtain ⟨hreads, hversions, hsaved, hwon⟩ := hquiet
  constructor
  · rw [reads_append, hreads, List.append_nil]
  · rw [versions_append, hversions, List.append_nil]
  · rw [saved_append, hsaved, Bool.or_false]
  · rw [won_append, hwon, Bool.or_false]

/-- A caller that was answered by the book has learned nothing about the issue yet, or the
answer of its call. -/
theorem settle_same (k : call.Resp → Prog InnerI (Result Reply)) (tr : Trace)
    (q : Prog BookI (Option (call.Resp × Option Local))) :
    Same tr (Client.settle g.handler call k tr q).trace ∨
      ∃ r, answerOf q = some r ∧
        Same (tr ++ [⟨call, r⟩]) (Client.settle g.handler call k tr q).trace := by
  rcases Client.settle_cases g.handler call k tr q with htrace | ⟨r, l, silent, rfl, htrace,
      hsilent⟩
  · rw [htrace]
    exact Or.inl ⟨rfl, rfl, rfl, rfl⟩
  · refine Or.inr ⟨r, rfl, ?_⟩
    rw [htrace, show tr ++ ⟨call, r⟩ :: silent = (tr ++ [⟨call, r⟩]) ++ silent from
      List.append_cons ..]
    exact same_local _ fun e he => isLocal_of_silent (hsilent e he)

/-- A document that was read stays read. -/
theorem docRead_append {data : Value} (h : w.docRead tr = some data) (more : Trace) :
    w.docRead (tr ++ more) = some data := by
  have hget : ∀ i : Nat, ((reads tr)[i]?).join = some data →
      ((reads (tr ++ more))[i]?).join = some data := by
    intro i hi
    obtain ⟨found, hfound, rfl⟩ : ∃ found, (reads tr)[i]? = some found ∧ found = some data := by
      cases hfound : (reads tr)[i]? with
      | none => rw [hfound] at hi; cases hi
      | some found => rw [hfound] at hi; exact ⟨found, rfl, hi⟩
    rw [reads_append, List.getElem?_append_left (List.getElem?_eq_some_iff.mp hfound).1, hfound]
    rfl
  cases w with
  | claim => exact hget 1 h
  | update | addLabel | removeLabel => exact hget 0 h

/-- The item at `i` appeared with the last one. -/
theorem join_getElem?_snoc {xs : List (Option Value)} {x : Option Value} {i : Nat} {data : Value}
    (hnot : (xs[i]?).join ≠ some data) (h : ((xs ++ [x])[i]?).join = some data) :
    xs.length = i ∧ x = some data := by
  rcases Nat.lt_trichotomy i xs.length with hlt | heq | hgt
  · rw [List.getElem?_append_left hlt] at h
    exact absurd h hnot
  · subst heq
    rw [List.getElem?_append_right (Nat.le_refl _), Nat.sub_self] at h
    exact ⟨rfl, h⟩
  · have hlen : (xs ++ [x]).length ≤ i := by
      rw [List.length_append]
      exact hgt
    rw [List.getElem?_eq_none hlen] at h
    cases h

/-- What a writer reads for its work it reads from the issue. -/
theorem docRead_now {data : Value} {r : call.Resp} (hguard : w.Guard cfg call tr)
    (hnot : w.docRead tr ≠ some data) (h : w.docRead (tr ++ [⟨call, r⟩]) = some data) :
    (⟨call, r⟩ : Event InnerI) = ⟨.current issueKind [w.issue], some data⟩ := by
  cases call with
  | current name key =>
      have hreads : reads (tr ++ [⟨.current name key, r⟩]) = reads tr ++ [r] := reads_append ..
      have hedit : w.IsEdit → EditGuard w (.current name key) tr →
          (⟨.current name key, r⟩ : Event InnerI) = ⟨.current issueKind [w.issue], some data⟩ := by
        intro hedit hguard
        rw [Writer.docRead_edit hedit] at hnot h
        rw [hreads] at h
        obtain ⟨hlen, rfl⟩ := join_getElem?_snoc hnot h
        obtain ⟨rfl, rfl⟩ := hguard (List.length_eq_zero_iff.mp hlen)
        rfl
      cases w with
      | claim req now =>
          rw [Writer.docRead, hreads] at h
          obtain ⟨hlen, rfl⟩ := join_getElem?_snoc hnot h
          obtain ⟨rfl, rfl⟩ := hguard hlen
          rfl
      | update | addLabel | removeLabel => exact hedit trivial hguard
  | append | keys | version | compareAndSwap | nextSeq =>
      refine absurd ?_ hnot
      rw [← h]
      exact (docRead_congr ((reads_append ..).trans (List.append_nil _)) w).symm

theorem settled_append (h : w.settled tr) (more : Trace) : w.settled (tr ++ more) := by
  cases w with
  | claim =>
      change versions (tr ++ more) ≠ []
      rw [versions_append]
      exact fun hnil => h (List.append_eq_nil_iff.mp hnil).1
  | update | addLabel | removeLabel =>
      change saved (tr ++ more) = true
      rw [saved_append, show saved tr = true from h]
      rfl

/-- What is known of a version outlasts every call of the book. -/
theorem version_later {v : Version} {data : Value} (a : Call)
    (h : ∃ e, b.stored s w.record = some e ∧ v.revision ≤ e.version.revision ∧
      (e.version = v → ∀ found ∈ e.current, w.Spares data found)) :
    ∃ e, b.stored (b.exec a s).2 w.record = some e ∧ v.revision ≤ e.version.revision ∧
      (e.version = v → ∀ found ∈ e.current, w.Spares data found) := by
  obtain ⟨e, he, hle, hspares⟩ := h
  rcases b.later a s w.record with hsame | ⟨e', he', hlater⟩
  · exact ⟨e, hsame.trans he, hle, hspares⟩
  · have hlt : e.version.revision < e'.version.revision := hlater e he
    refine ⟨e', he', by omega, fun hv => ?_⟩
    rw [hv] at hlt
    omega

section Answered

variable {k : call.Resp → Prog InnerI (Result Reply)} {a : Call}
  {rest : a.Resp → Prog BookI (Option (call.Resp × Option Local))}

/-- The caller after the book has answered `a`. -/
abbrev after (g : Guest) (b : Book) (s : b.State) (k : call.Resp → Prog InnerI (Result Reply))
    (tr : Trace) (rest : a.Resp → Prog BookI (Option (call.Resp × Option Local))) : Caller :=
  .settle g.handler call k tr (rest (b.exec a s).1)

theorem own_asked (hguard : w.Guard cfg call tr)
    (hknows : Knows b s w ⟨.pending call k a rest, tr⟩) (req : ClaimRequest) (now : Int)
    (hw : w = .claim req now) (hversions : versions (after g b s k tr rest).trace ≠ []) :
    ∃ data, w.docRead (after g b s k tr rest).trace = some data := by
  rcases settle_same (g := g) k tr (rest (b.exec a s).1) with hsame | ⟨r, -, hsame⟩
  · rw [hsame.docRead]
    rw [hsame.versions] at hversions
    exact hknows.asked req now hw hversions
  · rw [hsame.docRead]
    rw [hsame.versions] at hversions
    by_cases hnil : versions tr = []
    · subst hw
      cases call with
      | version name key =>
          obtain ⟨-, -, -, data, hread⟩ := hguard
          exact ⟨data, docRead_append hread _⟩
      | append | current | keys | compareAndSwap | nextSeq =>
          rw [versions_append, hnil] at hversions
          exact absurd rfl hversions
    · obtain ⟨data, hread⟩ := hknows.asked req now hw hnil
      exact ⟨data, docRead_append hread _⟩

theorem own_version (hguard : w.Guard cfg call tr)
    (hknows : Knows b s w ⟨.pending call k a rest, tr⟩)
    (hturn : Turn g b call s (b.exec a s).2 (rest (b.exec a s).1)) (req : ClaimRequest) (now : Int)
    (data : Value) (v : Version) (hw : w = .claim req now)
    (hread : w.docRead (after g b s k tr rest).trace = some data) (hback : w.writesBack data)
    (hversions : versions (after g b s k tr rest).trace = [some v]) :
    ∃ e, b.stored (b.exec a s).2 w.record = some e ∧ v.revision ≤ e.version.revision ∧
      (e.version = v → ∀ found ∈ e.current, w.Spares data found) := by
  refine version_later a ?_
  -- The client still waits for its first version, or the answer just read is it, or it had one
  -- before and its window is as it was.
  rcases settle_same (g := g) k tr (rest (b.exec a s).1) with hsame | ⟨r, hr, hsame⟩
  · rw [hsame.docRead] at hread
    rw [hsame.versions] at hversions
    exact hknows.version req now data v hw hread hback hversions
  · rw [hsame.docRead] at hread
    rw [hsame.versions, versions_append] at hversions
    by_cases hnil : versions tr = []
    · subst hw
      cases call with
      | version name key =>
          obtain ⟨rfl, rfl, -, data', hread'⟩ := hguard
          have hr' : r = some v := by
            rw [hnil] at hversions
            exact (List.cons.inj hversions).1
          obtain rfl : data' = data :=
            Option.some.inj ((docRead_append hread' _).symm.trans hread)
          have hstored : (b.stored s (Writer.claim req now).record).map Entry.version = some v := by
            rcases hturn.answers r hr with hnone | hsome
            · rw [hr'] at hnone
              cases hnone
            · rw [← hr', hsome]
              rfl
          obtain ⟨e, he, rfl⟩ := Option.map_eq_some_iff.mp hstored
          refine ⟨e, he, Nat.le_refl _, fun _ found hfound => ?_⟩
          refine hknows.window data' ⟨⟨_, _, _, _, rfl⟩, hread', hback, fun h => h hnil⟩ found ?_
          rw [Book.docAt, he]
          exact hfound
      | append | current | keys | compareAndSwap | nextSeq =>
          rw [hnil] at hversions
          cases hversions
    · obtain ⟨data', hread'⟩ := hknows.asked req now hw hnil
      obtain rfl : data' = data := Option.some.inj ((docRead_append hread' _).symm.trans hread)
      refine hknows.version req now data' v hw hread' hback ?_
      cases hvs : versions tr with
      | nil => exact absurd hvs hnil
      | cons v' vs =>
          rw [hvs, List.cons_append] at hversions
          obtain ⟨rfl, hvs'⟩ := List.cons.inj hversions
          rw [(List.append_eq_nil_iff.mp hvs').1]

/-- A window that is open after a call of its own was not closed by a write. -/
theorem own_unwritten {data : Value} (hguard : w.Guard cfg call tr)
    (hturn : Turn g b call s (b.exec a s).2 (rest (b.exec a s).1))
    (hopen : Open w (after g b s k tr rest) data) :
    b.stored (b.exec a s).2 w.record = b.stored s w.record := by
  rcases guard_cases hguard with hnot | ⟨req, now, written, v, ttl, found, rfl, rfl, -, -,
    hversions, -, -⟩ | ⟨hedit, written, found, rfl, -, -, -, -⟩
  · exact hturn.frame _ (hnot _)
  · have hsettled : (Writer.claim req now).settled tr := by
      change versions tr ≠ []
      rw [hversions]
      exact List.cons_ne_nil _ _
    refine absurd ?_ hopen.unsettled
    rcases settle_same (g := g) k tr (rest (b.exec a s).1) with hsame | ⟨r, -, hsame⟩
    · exact (hsame.settled _).mpr hsettled
    · exact (hsame.settled _).mpr (settled_append hsettled _)
  · rcases hturn.serves with ⟨o, ho⟩ | ⟨-, hsame⟩
    · -- an answered write closes the window, one without an answer ends the call
      cases o with
      | none =>
          obtain ⟨_, _, _, _, hstage⟩ := hopen.pending
          rw [after, ho] at hstage
          cases hstage
      | some answer =>
          refine absurd ?_ hopen.unsettled
          rw [Writer.settled_edit hedit, after, ho]
          obtain ⟨silent, htrace, -⟩ := Client.enter_trace g.handler (k answer.1) answer.2
            (tr ++ [⟨.append issueKind [w.issue] written false, answer.1⟩])
          change saved (Client.enter g.handler (k answer.1) answer.2 _).trace = true
          rw [htrace, saved_append, saved_append]
          simp [saved]
    · exact congrFun hsame _

theorem own_window (hguard : w.Guard cfg call tr)
    (hknows : Knows b s w ⟨.pending call k a rest, tr⟩)
    (hturn : Turn g b call s (b.exec a s).2 (rest (b.exec a s).1)) (data : Value)
    (hopen : Open w (after g b s k tr rest) data) :
    ∀ found ∈ b.docAt (b.exec a s).2 w.record, w.Spares data found := by
  intro found hfound
  rw [Book.docAt, own_unwritten hguard hturn hopen, ← Book.docAt] at hfound
  have hread := hopen.read
  have hunsettled := hopen.unsettled
  by_cases hold : w.docRead tr = some data
  · refine hknows.window data ⟨⟨_, _, _, _, rfl⟩, hold, hopen.back, fun hsettled => ?_⟩ found hfound
    rcases settle_same (g := g) k tr (rest (b.exec a s).1) with hsame | ⟨r, -, hsame⟩
    · exact hunsettled ((hsame.settled w).mpr hsettled)
    · exact hunsettled ((hsame.settled w).mpr (settled_append hsettled _))
  · rcases settle_same (g := g) k tr (rest (b.exec a s).1) with hsame | ⟨r, hr, hsame⟩
    · rw [hsame.docRead] at hread
      exact absurd hread hold
    · -- the document has just been read, so it is the stored one
      rw [hsame.docRead] at hread
      have hevent := docRead_now hguard hold hread
      obtain ⟨rfl, hr'⟩ := Event.mk.inj hevent
      obtain rfl := eq_of_heq hr'
      have hstored : some data = b.docAt s w.record :=
        (hturn.answers (some data) hr).resolve_left (Option.some_ne_none data)
      rw [← hstored] at hfound
      obtain rfl := Option.some.inj hfound
      exact Writer.spares_self hopen.back

/-- A writer keeps its knowledge through its own calls. -/
theorem own_knows (hguard : w.Guard cfg call tr)
    (hknows : Knows b s w ⟨.pending call k a rest, tr⟩)
    (hturn : Turn g b call s (b.exec a s).2 (rest (b.exec a s).1)) :
    Knows b (b.exec a s).2 w (after g b s k tr rest) :=
  ⟨own_window hguard hknows hturn, own_asked hguard hknows, own_version hguard hknows hturn⟩

end Answered

/-! ### All invocations at once -/

section Invocations

variable {ι : Type} [DecidableEq ι]

/-- Invocations over one book, each in the middle of its call. -/
abbrev Invocations (ι : Type) (b : Book) :=
  Shared ι InnerI BookI (Option Local) b.State (Result Reply)

/-- All invocations before their first call of the book. -/
def start (g : Guest) (b : Book) (v : ι → Invocation) (s : b.State) : Invocations ι b :=
  Shared.init g.handler s fun i => ((v i).program, (v i).adapter)

/-- The book answers one call of invocation `i`. -/
def step (g : Guest) (b : Book) (i : ι) (x : Invocations ι b) : Invocations ι b :=
  Shared.step g.handler b.exec i x

/-- Any order of the steps of any invocations. -/
def run (g : Guest) (b : Book) (schedule : List ι) (x : Invocations ι b) : Invocations ι b :=
  Machine.run (step g b) schedule x

/-- While the window of another call is open, invocation `i` does not leave the issue of that call
with a live claim it does not see. That is a condition on one step of the schedule, given the state
it meets. -/
def Undisturbed (g : Guest) (b : Book) (v : ι → Invocation) (x : Invocations ι b) (i : ι) : Prop :=
  ∀ j, j ≠ i → ∀ w : Writer, (v j).op = w.op → ∀ data, Open w (x.clients j) data →
    ∀ found ∈ b.docAt (step g b i x).state w.record, w.Spares data found

/-- What holds of every invocation in a run whose steps leave the open windows undisturbed. -/
structure Careful (g : Guest) (b : Book) (v : ι → Invocation) (x : Invocations ι b) : Prop where
  handling : ∀ i, Client.Handling (fun c p => Serves g c p) (x.clients i)
  meets : ∀ i (w : Writer), (v i).op = w.op →
    Client.Meets (w.Guard (v i).cfg) w.Post (x.clients i)
  knows : ∀ i (w : Writer), (v i).op = w.op → Knows b x.state w (x.clients i)

variable {v : ι → Invocation} {x : Invocations ι b}

omit [DecidableEq ι] in
theorem careful_start (v : ι → Invocation) (s : b.State) : Careful g b v (start g b v s) := by
  refine ⟨fun i => Client.handling_enter (serves_handler g) _ _ _,
    fun i w hw => Client.meets_enter _ (program_spec (v i) hw), fun i w hw => ?_⟩
  -- nothing has been read yet
  have hsame : Same [] ((start g b v s).clients i).trace := by
    obtain ⟨silent, htrace, hsilent⟩ :=
      Client.enter_trace g.handler (v i).program (v i).adapter []
    change Same [] (Client.enter g.handler (v i).program (v i).adapter []).trace
    rw [htrace]
    exact same_local [] fun e he => isLocal_of_silent (hsilent e he)
  have hread : ∀ data, w.docRead ((start g b v s).clients i).trace ≠ some data := by
    intro data hread
    rw [hsame.docRead] at hread
    cases w <;> cases hread
  exact ⟨fun data hopen => absurd hopen.read (hread data),
    fun _ _ _ hversions => absurd hsame.versions hversions,
    fun _ _ data _ _ hdata => absurd hdata (hread data)⟩

/-- An invocation that waits is about to make one call of the book. -/
theorem step_pending {i : ι} {call : Adapter.Call} {k : call.Resp → Prog InnerI (Result Reply)}
    {a : Call} {rest : a.Resp → Prog BookI (Option (call.Resp × Option Local))}
    (hi : (x.clients i).stage = .pending call k a rest) :
    step g b i x = ⟨(b.exec a x.state).2, Function.update x.clients i
      (after g b x.state k (x.clients i).trace rest)⟩ := Shared.step_pending hi

/-- An invocation that does not wait does nothing. -/
theorem step_idle {i : ι} (hi : ¬ Client.IsPending (x.clients i)) : step g b i x = x :=
  Shared.step_idle hi

section Pending

variable {i : ι} {k : call.Resp → Prog InnerI (Result Reply)} {a : Call}
  {rest : a.Resp → Prog BookI (Option (call.Resp × Option Local))}

omit [DecidableEq ι] in
theorem Careful.turn (h : Careful g b v x) (hi : (x.clients i).stage = .pending call k a rest) :
    Turn g b call x.state (b.exec a x.state).2 (rest (b.exec a x.state).1) := by
  have hserves := h.handling i
  rw [Client.Handling, hi] at hserves
  exact Soil.turn b x.state hserves

omit [DecidableEq ι] in
theorem Careful.guard (h : Careful g b v x) (hi : (x.clients i).stage = .pending call k a rest)
    {w : Writer} (hw : (v i).op = w.op) : w.Guard (v i).cfg call (x.clients i).trace := by
  have hmeets := h.meets i w hw
  rw [Client.Meets, hi] at hmeets
  exact hmeets.1

end Pending

/-- What is known of an issue while another call is made: the open windows are undisturbed. -/
theorem knows_other {c : Caller} (a : Call) (hknows : Knows b s w c)
    (hwindow : ∀ data, Open w c data → ∀ found ∈ b.docAt (b.exec a s).2 w.record,
      w.Spares data found) : Knows b (b.exec a s).2 w c :=
  ⟨hwindow, hknows.asked, fun req now data v hw hread hback hversions =>
    version_later a (hknows.version req now data v hw hread hback hversions)⟩

theorem Careful.step {i : ι} (h : Careful g b v x) (hundisturbed : Undisturbed g b v x i) :
    Careful g b v (Soil.step g b i x) := by
  by_cases hpending : Client.IsPending (x.clients i)
  · obtain ⟨call, k, a, rest, hi⟩ := hpending
    have hturn := h.turn hi
    have hclient : x.clients i = ⟨.pending call k a rest, (x.clients i).trace⟩ := by rw [← hi]
    have hself : (Soil.step g b i x).clients i = after g b x.state k (x.clients i).trace rest := by
      rw [step_pending hi]
      exact Function.update_self ..
    have hother : ∀ j, j ≠ i → (Soil.step g b i x).clients j = x.clients j :=
      fun j hj => Shared.step_clients_ne hj
    have hstate : (Soil.step g b i x).state = (b.exec a x.state).2 := by rw [step_pending hi]
    -- The client that moves is judged by its own turn; what the others know stays true as long as
    -- nobody disturbs it.
    refine ⟨fun j => ?_, fun j w hw => ?_, fun j w hw => ?_⟩
    · by_cases hj : j = i
      · subst hj
        rw [hself]
        exact Client.handling_settle (serves_handler g) k _ (hturn.serves.imp_right And.left)
      · rw [hother j hj]
        exact h.handling j
    · by_cases hj : j = i
      · subst hj
        have hmeets := h.meets j w hw
        rw [Client.Meets, hi] at hmeets
        rw [hself]
        exact Client.meets_settle hmeets _
      · rw [hother j hj]
        exact h.meets j w hw
    · by_cases hj : j = i
      · subst hj
        have hknows := h.knows j w hw
        rw [hclient] at hknows
        rw [hself, hstate]
        exact own_knows (h.guard hi hw) hknows hturn
      · rw [hother j hj, hstate]
        refine knows_other a (h.knows j w hw) fun data hopen => ?_
        rw [← hstate]
        exact hundisturbed j hj w hw data hopen
  · rw [step_idle hpending]
    exact h

theorem careful_run {schedule : List ι} {s : b.State}
    (h : Machine.Meets (Soil.step g b) (Undisturbed g b v) schedule (start g b v s)) :
    Careful g b v (run g b schedule (start g b v s)) :=
  Machine.invariant_of_meets (Careful g b v) (fun _ _ hx hi => hx.step hi) schedule
    (careful_start v s) h

/-- A step of a writer keeps the live claim on its issue. -/
theorem Careful.kept {i : ι} (h : Careful g b v x) {w : Writer} (hw : (v i).op = w.op)
    (hlasting : w.Lasting (v i).cfg) : Kept b x.state (Soil.step g b i x).state w := by
  by_cases hpending : Client.IsPending (x.clients i)
  · obtain ⟨call, k, a, rest, hi⟩ := hpending
    rw [step_pending hi]
    exact own_kept hlasting ⟨call, k, a, rest, hi⟩ (h.knows i w hw) (h.guard hi hw) (h.turn hi)
  · rw [step_idle hpending]
    exact kept_of_stored rfl

/-! ### Claims at one time -/

/-- The issue is held by `holder` at `at_`. -/
def Held (b : Book) (s : b.State) (issue holder : String) (at_ : Int) : Prop :=
  ∃ found ∈ b.docAt s (id issueKind [issue]), liveAt found at_ = true ∧
    (claimOf found).1 = some holder

/-- Every invocation is a claim at `at_` for a lease that lasts. -/
def ClaimsAt (v : ι → Invocation) (at_ : Int) : Prop :=
  ∀ i, ∃ req, (v i).op = .claim req at_ ∧ (Writer.claim req at_).Lasting (v i).cfg

variable {at_ : Int}

/-- A claim keeps what it does not write. -/
theorem Careful.held {i : ι} (h : Careful g b v x) (hv : ClaimsAt v at_) {issue holder : String}
    (hheld : Held b x.state issue holder at_) :
    Held b (Soil.step g b i x).state issue holder at_ := by
  obtain ⟨found, hfound, hlive, hholder⟩ := hheld
  obtain ⟨req, hop, hlasting⟩ := hv i
  have hw : (v i).op = (Writer.claim req at_).op := hop
  by_cases hrecord : id issueKind [issue] = (Writer.claim req at_).record
  · obtain ⟨after, hafter, hlive', hholder', -⟩ :=
      h.kept hw hlasting found (by rwa [← hrecord]) hlive
    exact ⟨after, by rwa [hrecord], hlive', hholder'.trans hholder⟩
  · refine ⟨found, ?_, hlive, hholder⟩
    by_cases hpending : Client.IsPending (x.clients i)
    · obtain ⟨call, k, a, rest, hi⟩ := hpending
      have hframe : target call ≠ some (id issueKind [issue]) := by
        rcases guard_cases (h.guard hi hw) with hnot | ⟨req', now, data, v, ttl, found', heq, rfl,
            -⟩ |
          ⟨hedit, -⟩
        · exact hnot issue
        · exact fun heq => hrecord (Option.some.inj heq).symm
        · exact hedit.elim
      rw [step_pending hi, Book.docAt, (h.turn hi).frame _ hframe]
      exact hfound
    · rwa [step_idle hpending]

/-- A conditional write that is applied makes its caller the holder. -/
theorem Careful.won {i : ι} (h : Careful g b v x) {req : ClaimRequest}
    (hop : (v i).op = .claim req at_) (hlasting : (Writer.claim req at_).Lasting (v i).cfg)
    (hbefore : won (x.clients i).trace = false)
    (hwon : won ((Soil.step g b i x).clients i).trace = true) :
    Held b (Soil.step g b i x).state req.id req.assignee at_ := by
  have hw : (v i).op = (Writer.claim req at_).op := hop
  by_cases hpending : Client.IsPending (x.clients i)
  · obtain ⟨call, k, a, rest, hi⟩ := hpending
    have hself : (Soil.step g b i x).clients i = after g b x.state k (x.clients i).trace rest := by
      rw [step_pending hi]
      exact Function.update_self ..
    rw [hself] at hwon
    rcases settle_same (g := g) k (x.clients i).trace (rest (b.exec a x.state).1) with hsame |
      ⟨r, hr, hsame⟩
    · rw [hsame.won, hbefore] at hwon
      cases hwon
    · rw [hsame.won, won_append, hbefore, Bool.false_or] at hwon
      -- Only the swap of a claim can win, and its guard says that what it stored is the claim.
      cases call with
      | append | current | keys | version | nextSeq => cases hwon
      | compareAndSwap name key expected data deleted =>
          obtain ⟨rfl, rfl, rfl, found, v', ttl, -, -, -, rfl, hlease, hclaim⟩ :=
            show ClaimGuard (v i).cfg req at_ (.compareAndSwap name key expected data deleted)
              (x.clients i).trace from h.guard hi hw
          cases r with
          | error message => cases hwon
          | ok result =>
              have happlied : result.applied = true := by
                rwa [Soil.won, List.any_cons, List.any_nil, Bool.or_false] at hwon
              have hstored := (h.turn hi).answers.2 result hr happlied
              rw [step_pending hi]
              refine ⟨data, hstored, ?_, by rw [hclaim]⟩
              rw [liveAt, hclaim]
              exact decide_eq_true (hlasting ttl hlease)
  · rw [step_idle hpending, hbefore] at hwon
    cases hwon

/-- Whoever has won an issue holds it. -/
def WinnersHold (b : Book) (v : ι → Invocation) (at_ : Int) (x : Invocations ι b) : Prop :=
  ∀ i req, (v i).op = .claim req at_ → won (x.clients i).trace = true →
    Held b x.state req.id req.assignee at_

theorem WinnersHold.step {i : ι} (hwinners : WinnersHold b v at_ x) (h : Careful g b v x)
    (hv : ClaimsAt v at_) : WinnersHold b v at_ (Soil.step g b i x) := by
  intro j req hop hwon
  by_cases hbefore : won (x.clients j).trace = true
  · exact h.held hv (hwinners j req hop hbefore)
  · by_cases hj : j = i
    · subst hj
      obtain ⟨req', hop', hlasting⟩ := hv j
      obtain rfl : req' = req := (Op.claim.inj (hop'.symm.trans hop)).1
      exact h.won hop hlasting (by simpa using hbefore) hwon
    · have hsame : (Soil.step g b i x).clients j = x.clients j := Shared.step_clients_ne hj
      rw [hsame] at hwon
      exact absurd hwon hbefore

theorem winnersHold_run {schedule : List ι} {s : b.State} (hv : ClaimsAt v at_)
    (h : Machine.Meets (Soil.step g b) (Undisturbed g b v) schedule (start g b v s)) :
    WinnersHold b v at_ (run g b schedule (start g b v s)) := by
  refine (Machine.invariant_of_meets (fun x => Careful g b v x ∧ WinnersHold b v at_ x)
    (fun x i hx hi => ⟨hx.1.step hi, hx.2.step hx.1 hv⟩) schedule
    ⟨careful_start v s, fun i req hop hwon => ?_⟩ h).2
  obtain ⟨silent, htrace, hsilent⟩ :=
    Client.enter_trace g.handler (v i).program (v i).adapter []
  have hsame := same_local [] fun e he => isLocal_of_silent (hsilent e he)
  rw [← htrace] at hsame
  exact absurd (hsame.won.symm.trans hwon) Bool.false_ne_true

/-- As long as no invocation leaves an issue with a live claim inside the window of another call
that does not see it: no claim, update or edit of labels takes a live claim from its holder, and
claims on one issue at one time succeed for one assignee at most. A window is open from the read
that a write relies on to that write. The second half follows from the first, since the winner of a
claim leaves the issue with a live one. -/
theorem claims_survive (g : Guest) (b : Book) (v : ι → Invocation) (s : b.State)
    {schedule : List ι} (h : Machine.Meets (Soil.step g b) (Undisturbed g b v) schedule
    (start g b v s))
    (hlasting : ∀ i (w : Writer), (v i).op = w.op → w.Lasting (v i).cfg) :
    (∀ before i after, schedule = before ++ i :: after → ∀ w : Writer, (v i).op = w.op →
      Kept b (run g b before (start g b v s)).state
        (run g b (before ++ [i]) (start g b v s)).state w) ∧
    (∀ at_, (∀ i, ∃ req, (v i).op = .claim req at_) → ∀ i j ri rj,
      (v i).op = .claim ri at_ → (v j).op = .claim rj at_ → ri.id = rj.id →
      ri.assignee ≠ rj.assignee → ∀ r r',
      (run g b schedule (start g b v s)).Returned i (.ok r) →
      ¬ (run g b schedule (start g b v s)).Returned j (.ok r')) := by
  refine ⟨fun before i after hschedule w hw => ?_,
    fun at_ hclaims i j ri rj hi hj hid hne r r' hr hr' => ?_⟩
  · subst hschedule
    have hbefore := careful_run (Machine.meets_append.mp h).1
    have hstep : run g b (before ++ [i]) (start g b v s) =
        Soil.step g b i (run g b before (start g b v s)) := Machine.run_append ..
    rw [hstep]
    exact hbefore.kept hw (hlasting i w hw)
  · have hv : ClaimsAt v at_ := fun i => by
      obtain ⟨req, hop⟩ := hclaims i
      exact ⟨req, hop, hlasting i (.claim req at_) hop⟩
    have hcareful := careful_run h
    have hwinners := winnersHold_run hv h
    generalize run g b schedule (start g b v s) = x at hr hr' hcareful hwinners
    -- a claim that returned has won, and so holds the issue
    have hheld : ∀ i req r, (v i).op = .claim req at_ → x.Returned i (.ok r) →
        Held b x.state req.id req.assignee at_ := by
      intro i req r hop hret
      have hmeets := hcareful.meets i (.claim req at_) hop
      rw [Client.Meets, show (x.clients i).stage = .returned (.ok r) from hret] at hmeets
      exact hwinners i req hop (hmeets r rfl)
    obtain ⟨found, hfound, -, hholder⟩ := hheld i ri r hi hr
    obtain ⟨found', hfound', -, hholder'⟩ := hheld j rj r' hj hr'
    rw [hid] at hfound
    obtain rfl := Option.some.inj (hfound.symm.trans hfound')
    exact hne (Option.some.inj (hholder.symm.trans hholder'))

end Invocations

/-! ### A book in memory -/

/-- The entries, each under its id. -/
abbrev Entries := Table String Entry

namespace Entries

/-- The next revision of a record. -/
def next (t : Entries) (id : String) (body : Option Value) (deleted : Bool) : Entry :=
  ⟨id, body, ⟨((t.find id).elim 0 fun e => e.version.revision) + 1, "memory"⟩, deleted⟩

/-- One entry for each id, the last that was written. -/
def put (t : Entries) (e : Entry) : Entries := t.upsert e.id e fun _ => e

/-- The entries after a cursor, in the order they were made. -/
def pageAfter (t : Entries) (cursor : Option String) (limit : Nat) : Page :=
  let rest := match cursor with
    | none => t.rows.map Prod.snd
    | some c => ((t.rows.map Prod.snd).dropWhile fun e : Entry => e.id ≠ c).drop 1
  let page := rest.take limit
  ⟨page, if rest.length ≤ limit then none else page.getLast?.map Entry.id⟩

/-- A call of the book is one step. The tombstone of a deleted record keeps counting its revisions.
-/
def exec : (c : Call) → Entries → c.Resp × Entries
  | .get id, t => (.ok (t.find id), t)
  | .scan cursor limit, t => (.ok (t.pageAfter cursor limit), t)
  | .upsert id _ body, t => (.ok (), t.put (t.next id (some body) false))
  | .delete id, t => (.ok (), t.put (t.next id none true))
  | .compareAndSwap id expected _ body deleted, t =>
      if (t.find id).map Entry.version = expected then
        (.ok ⟨true, t.next id body deleted⟩, t.put (t.next id body deleted))
      else (.ok ⟨false, (t.find id).getD (t.next id none true)⟩, t)

@[simp] theorem find_put (t : Entries) (e : Entry) (k : String) :
    (t.put e).find k = if k = e.id then some e else t.find k := by
  rw [put, Table.find_upsert]
  by_cases hk : k = e.id
  · rw [if_pos hk, if_pos hk]
    cases t.find e.id <;> rfl
  · rw [if_neg hk, if_neg hk]

theorem put_replaces (t : Entries) (id : String) (body : Option Value) (deleted : Bool) :
    (t.put (t.next id body deleted)).find id = some (t.next id body deleted) ∧
      (t.next id body deleted).Replaces (t.find id) body deleted := by
  refine ⟨(find_put ..).trans (if_pos rfl), rfl, fun _ => rfl, fun o ho => ?_⟩
  change o.version.revision < (t.find id).elim 0 _ + 1
  rw [show t.find id = some o from ho]
  exact Nat.lt_succ_self _

end Entries

/-- The book whose entries are in memory and which always answers. It shows that the assumptions
about a book can be met, and witnesses run on it. -/
def memory : Book where
  State := Entries
  exec := Entries.exec
  stored := Table.find
  get_ok h := (Except.ok.inj h).symm
  frame {c s id} h := by
    have hput : ∀ {e : Entry}, e.id ≠ id → (Entries.put s e).find id = Table.find s id :=
      fun hne => (Entries.find_put ..).trans (if_neg fun heq => hne heq.symm)
    cases c with
    | get | scan => rfl
    | upsert i schema body => exact hput (h _ rfl)
    | delete i => exact hput (h _ rfl)
    | compareAndSwap i expected schema body deleted =>
        rw [Entries.exec]
        split
        · exact hput (h _ rfl)
        · rfl
  write {c s id body deleted} h := by
    cases c with
    | get | scan => cases h
    | upsert | delete =>
        cases h
        exact Or.inr ⟨_, Entries.put_replaces ..⟩
    | compareAndSwap =>
        cases h
        rw [Entries.exec]
        split
        · exact Or.inr ⟨_, Entries.put_replaces ..⟩
        · exact Or.inl rfl
  cas_iff {id v schema body deleted s r} h := by
    rw [Entries.exec] at h
    split at h
    · rename_i hv
      cases h
      exact iff_of_true rfl hv
    · rename_i hv
      cases h
      exact iff_of_false Bool.false_ne_true hv
  cas_applied {id v schema body deleted s r} h happlied := by
    rw [Entries.exec] at h ⊢
    split at h
    · rename_i hv
      rw [if_pos hv]
      exact ⟨_, Entries.put_replaces ..⟩
    · cases h
      cases happlied
  cas_skipped {id v schema body deleted s} h := by
    rw [Entries.exec, if_neg h]

/-- A key of one plain part. Escapes are left out, since the keys of the witnesses have none. -/
def plainKey (text : String) : Option Key :=
  match text.toList with
  | '[' :: '"' :: rest =>
      let part := rest.take (rest.length - 2)
      if rest.drop (rest.length - 2) = ['"', ']'] && part.all fun c => c ≠ '"' && c ≠ '\\' then
        some [String.ofList part]
      else none
  | _ => none

def guest : Guest := ⟨plainKey, 4⟩

/-- A book with one issue that nobody holds. -/
def oneIssue : Entries :=
  Entries.put .empty (Entries.next .empty (id issueKind ["x"])
    (some (issueToJson (newIssue {} "x" "p" 0 [] 0))) false)

/-- A call on an adapter that is open. -/
def calling (op : Op) : Invocation := ⟨{}, some ⟨0, []⟩, op⟩

/-- An agent's claim at 10. -/
def claimBy (assignee : String) : Op := .claim ⟨"x", assignee, .agent, none⟩ 10

/-- Two claims by different agents. -/
def twoClaims (second : Bool) : Invocation := calling (claimBy (if second then "b" else "a"))

/-- The one who is not asked has returned, or has read nothing yet. -/
def Quiet (x : Invocations Bool memory) (i : Bool) : Prop :=
  (x.clients (!i)).returned?.isSome = true ∨ reads (x.clients (!i)).trace = []

instance : ∀ (x : Invocations Bool memory) (i : Bool), Decidable (Quiet x i) :=
  fun _ _ => inferInstanceAs (Decidable (_ ∨ _))

theorem undisturbed_of_quiet {v : Bool → Invocation} {x : Invocations Bool memory} {i : Bool}
    (h : Quiet x i) : Undisturbed guest memory v x i := by
  intro j hj w _ data hopen
  obtain rfl : j = !i := Bool.eq_not.mpr hj
  rcases h with hreturned | hnone
  · obtain ⟨_, _, _, _, hstage⟩ := hopen.pending
    rw [Client.returned?, hstage] at hreturned
    cases hreturned
  · have hread : w.docRead [] = some data :=
      (@docRead_congr [] _ hnone w).symm.trans hopen.read
    cases w <;> cases hread

/-- One claim after the other. -/
def inTurn : List Bool := List.replicate 10 true ++ List.replicate 6 false

theorem claims_in_turn_survive :
    ¬ (run guest memory inTurn (start guest memory twoClaims oneIssue)).Returned false
      (.ok (.receipt ⟨"x", "a", .agent, 1810⟩)) := by
  have hmeets : Machine.Meets (step guest memory) (Undisturbed guest memory twoClaims) inTurn
      (start guest memory twoClaims oneIssue) := by
    refine Machine.Meets.mono (fun x i => undisturbed_of_quiet) ?_
    decide +kernel
  have hlasting : ∀ i (w : Writer), (twoClaims i).op = w.op → w.Lasting (twoClaims i).cfg := by
    intro i w hw
    cases w with
    | claim req now =>
        obtain ⟨rfl, rfl⟩ := Op.claim.inj hw
        intro ttl httl
        obtain rfl : 1800 = ttl := Option.some.inj httl
        decide
    | update | addLabel | removeLabel => exact trivial
  have hwon : (run guest memory inTurn (start guest memory twoClaims oneIssue)).Returned true
      (.ok (.receipt ⟨"x", "b", .agent, 1810⟩)) := by
    refine Client.returned?_eq_some.mp ?_
    decide +kernel
  exact (claims_survive guest memory twoClaims oneIssue hmeets hlasting).2 10
    (fun i => ⟨_, rfl⟩) true false _ _ rfl rfl rfl (by decide) _ _ hwon

/-- The first one has read the issue but not its version when the second one wins. -/
def wonBetween : List Bool :=
  List.replicate 4 false ++ List.replicate 10 true ++ List.replicate 6 false

/-- An update of the title, and a claim that wins after the update has read the issue. -/
def updateAndClaim (second : Bool) : Invocation :=
  calling (if second then claimBy "b" else .update "x" { title := some "t" } "a" 10)

def claimedBetween : List Bool :=
  List.replicate 3 false ++ List.replicate 10 true ++ List.replicate 7 false

/-- Two claims of an issue that nobody holds both return, and an update erases a claim that
was won before it wrote. -/
theorem claim_erased :
    ((memory.docAt oneIssue (id issueKind ["x"])).all fun found => !liveAt found 10) = true ∧
    (run guest memory wonBetween (start guest memory twoClaims oneIssue)).Returned false
      (.ok (.receipt ⟨"x", "a", .agent, 1810⟩)) ∧
    (run guest memory wonBetween (start guest memory twoClaims oneIssue)).Returned true
      (.ok (.receipt ⟨"x", "b", .agent, 1810⟩)) ∧
    (run guest memory claimedBetween (start guest memory updateAndClaim oneIssue)).Returned true
      (.ok (.receipt ⟨"x", "b", .agent, 1810⟩)) ∧
    (((run guest memory claimedBetween (start guest memory updateAndClaim oneIssue)).clients
      false).returned?.any fun r => r.isOk) = true ∧
    (memory.docAt (run guest memory claimedBetween
      (start guest memory updateAndClaim oneIssue)).state (id issueKind ["x"])).map claimOf =
        some (none, none) := by
  refine ⟨?_, Client.returned?_eq_some.mp ?_, Client.returned?_eq_some.mp ?_,
    Client.returned?_eq_some.mp ?_, ?_, ?_⟩
  · decide +kernel
  · decide +kernel
  · decide +kernel
  · decide +kernel
  · decide +kernel
  · decide +kernel

end Marbles.Adapter.Soil
