import Mathlib.Data.List.Flatten
import Mathlib.Data.List.TakeWhile
import Marbles.Auth
import Marbles.Import

/-!
# Tokens on disk

`Auth::static_token`: the token directory holds a file for each principal of the workstation, and
under `companies` a directory for each company with the files of its agents. A company that cannot
be read as a directory ends the scan of all companies, so what is listed after it is not found.
`tokenWorks_iff` says that nothing else stands between a token and its principal.

The scan of the source leaves with the first answer, which may be that there is none: an entry
beside the company directories that is a plain file ends the scan as if the token were unknown.
`seen` collects what the scan would get to see if it went on as long as it can, and the exact
condition says which company comes before it.
-/

namespace Marbles.Auth

open Jsonl (stripPrefix)

/-- A path in the token directory. The content is absent where a file cannot be read as text, and
the entries where a directory cannot be listed; a single entry that cannot be read is absent from
them, and so is a name that is not Unicode. -/
inductive Node where
  | file (content : Option String)
  | dir (entries : Option (List (Option (Option String × Node))))

/-- What a directory lists: a name and what is there. -/
abbrev DirEntry := Option String × Node

namespace Node

/-- The content of a file that is valid text. -/
def readToString : Node → Option String
  | file content => content
  | dir _ => none

/-- `read_dir`, with the entries that can be read. -/
def readDir : Node → Option (List DirEntry)
  | file _ => none
  | dir entries => entries.map fun entries => entries.filterMap id

end Node

/-! ### The scan -/

/-- The agent of a company whose file this is, if it contains the token. -/
def agentToken (token companyId : String) (entry : DirEntry) : Option TenantPrincipal := do
  let name ← stripPrefix "agent-" (← entry.1)
  let content ← entry.2.readToString
  if trim content = token then some ⟨⟨.agent, name⟩, some companyId⟩ else none

/-- The principal of a file beside the companies, if it contains the token. -/
def stemToken (token : String) (entry : DirEntry) : Option TenantPrincipal := do
  let stem ← entry.1
  let content ← entry.2.readToString
  if trim content = token then
    match stripPrefix "human-" stem with
    | some name => some ⟨⟨.human, name⟩, none⟩
    | none => (stripPrefix "agent-" stem).map fun name => ⟨⟨.agent, name⟩, none⟩
  else none

/-- The name of a company directory; a name that is no id is passed over. -/
def companyId (company : DirEntry) : Option String :=
  company.1.filter fun id => id ≠ "" ∧ id ≠ "." ∧ id ≠ ".."

/-- The loop over the companies. -/
def scanCompanies (token : String) : List DirEntry → Option TenantPrincipal
  | [] => none
  | company :: companies =>
      match companyId company with
      | none => scanCompanies token companies
      | some id =>
          -- the `?` of the source leaves the whole function
          match company.2.readDir with
          | none => none
          | some entries =>
              (entries.findSome? (agentToken token id)).or (scanCompanies token companies)

/-- The principal of a token below `companies`. -/
def companyStaticToken (companies : Node) (token : String) : Option TenantPrincipal := do
  scanCompanies token (← companies.readDir)

/-- The entries in the order of the directory; the first match wins. -/
def staticToken (tokenDir : Node) (token : String) : Option TenantPrincipal := do
  (← tokenDir.readDir).findSome? fun entry =>
    if entry.1 = some "companies" then companyStaticToken entry.2 token else stemToken token entry

/-! ### Whose token it is -/

/-- The agents of a company whose files contain the token. -/
def companyHolders (token : String) (company : DirEntry) : List TenantPrincipal :=
  match companyId company with
  | none => []
  | some id => (company.2.readDir.getD []).filterMap (agentToken token id)

/-- The principals whose files contain the token, wherever a directory can be read. -/
def holders (tokenDir : Node) (token : String) : List TenantPrincipal :=
  (tokenDir.readDir.getD []).flatMap fun entry =>
    if entry.1 = some "companies" then
      (entry.2.readDir.getD []).flatMap (companyHolders token)
    else (stemToken token entry).toList

/-- A company that cannot be read as a directory. -/
def Blocks (company : DirEntry) : Prop :=
  (companyId company).isSome = true ∧ company.2.readDir.isNone = true

instance : DecidablePred Blocks := fun company =>
  inferInstanceAs (Decidable ((companyId company).isSome = true ∧ company.2.readDir.isNone = true))

/-- A token that is in the file of an agent of a company, and in no other, stands for that agent;
one that is in no file stands for no one. -/
structure TokenWorks (tokenDir : Node) (token : String) : Prop where
  only : ∀ name company, holders tokenDir token = [⟨⟨.agent, name⟩, some company⟩] →
    staticToken tokenDir token = some ⟨⟨.agent, name⟩, some company⟩
  nowhere : holders tokenDir token = [] → staticToken tokenDir token = none

/-- No company that is listed before the one with the token blocks the scan. -/
def Reached (tokenDir : Node) (token : String) : Prop :=
  ∃ companies before company after, (some "companies", companies) ∈ tokenDir.readDir.getD [] ∧
    companies.readDir = some (before ++ company :: after) ∧ companyHolders token company ≠ [] ∧
      ∀ other ∈ before, ¬ Blocks other

/-! ### What the scan gets to see -/

/-- The principals of the companies listed before the first that blocks. -/
def seenCompanies (token : String) (companies : List DirEntry) : List TenantPrincipal :=
  (companies.takeWhile fun company => ¬ Blocks company).flatMap (companyHolders token)

theorem scanCompanies_eq (token : String) (companies : List DirEntry) :
    scanCompanies token companies = (seenCompanies token companies).head? := by
  induction companies with
  | nil => rfl
  | cons company companies ih =>
      rw [scanCompanies, seenCompanies, List.takeWhile_cons]
      cases hid : companyId company with
      | none =>
          have hpass : ¬ Blocks company := fun h => by simp [Blocks, hid] at h
          have hnone : companyHolders token company = [] := by rw [companyHolders, hid]
          simp only [hpass, not_false_eq_true, decide_true, if_true, List.flatMap_cons, hnone,
            List.nil_append]
          exact ih
      | some id =>
          cases hread : company.2.readDir with
          | none =>
              have hblocks : Blocks company := by simp [Blocks, hid, hread]
              simp [hblocks]
          | some entries =>
              have hpass : ¬ Blocks company := fun h => by simp [Blocks, hread] at h
              have hholders : companyHolders token company =
                  entries.filterMap (agentToken token id) := by
                rw [companyHolders, hid, hread]
                rfl
              simp only [hpass, not_false_eq_true, decide_true, if_true, List.flatMap_cons,
                hholders, List.head?_append, List.head?_filterMap, ih]
              rfl

theorem seenCompanies_sublist (token : String) (companies : List DirEntry) :
    (seenCompanies token companies).Sublist (companies.flatMap (companyHolders token)) :=
  (List.takeWhile_sublist _).flatMap _

/-- A principal is seen when no company before its own blocks. -/
theorem mem_seenCompanies {token : String} {companies : List DirEntry} {p : TenantPrincipal} :
    p ∈ seenCompanies token companies ↔ ∃ before company after,
      companies = before ++ company :: after ∧ p ∈ companyHolders token company ∧
        ∀ other ∈ before, ¬ Blocks other := by
  constructor
  · intro h
    obtain ⟨company, hcompany, hp⟩ := List.mem_flatMap.mp h
    obtain ⟨before, after, hsplit⟩ := List.append_of_mem hcompany
    refine ⟨before, company, after ++ companies.dropWhile fun company => ¬ Blocks company, ?_, hp,
      fun other hother => ?_⟩
    · rw [← List.cons_append, ← List.append_assoc, ← hsplit, List.takeWhile_append_dropWhile]
    · have hmem : other ∈ companies.takeWhile fun company => ¬ Blocks company := by
        rw [hsplit]
        exact List.mem_append_left _ hother
      simpa using List.mem_takeWhile_imp hmem
  · rintro ⟨before, company, after, rfl, hp, hbefore⟩
    have hpass : ¬ Blocks company := by
      rintro ⟨-, hread⟩
      rw [companyHolders, Option.isNone_iff_eq_none.mp hread] at hp
      split at hp <;> cases hp
    refine List.mem_flatMap.mpr ⟨company, ?_, hp⟩
    rw [List.takeWhile_append_of_pos (by simpa using hbefore),
      List.takeWhile_cons_of_pos (by simpa using hpass)]
    exact List.mem_append_right _ (List.mem_cons_self ..)

/-- The principals of the token that the scan gets to see, in its order. -/
def seen (tokenDir : Node) (token : String) : List TenantPrincipal :=
  (tokenDir.readDir.getD []).flatMap fun entry =>
    if entry.1 = some "companies" then seenCompanies token (entry.2.readDir.getD [])
    else (stemToken token entry).toList

theorem staticToken_eq (tokenDir : Node) (token : String) :
    staticToken tokenDir token = (seen tokenDir token).head? := by
  unfold staticToken seen
  cases tokenDir.readDir with
  | none => rfl
  | some entries =>
      have hentry : ∀ entry : DirEntry,
          (if entry.1 = some "companies" then companyStaticToken entry.2 token
            else stemToken token entry) =
          (if entry.1 = some "companies" then seenCompanies token (entry.2.readDir.getD [])
            else (stemToken token entry).toList).head? := by
        intro entry
        by_cases hname : entry.1 = some "companies"
        · rw [if_pos hname, if_pos hname, companyStaticToken]
          cases entry.2.readDir with
          | none => rfl
          | some companies => exact scanCompanies_eq token companies
        · rw [if_neg hname, if_neg hname]
          cases stemToken token entry <;> rfl
      simp only [Option.bind_eq_bind, Option.bind_some, Option.getD_some, List.head?_flatMap,
        hentry]

theorem seen_sublist (tokenDir : Node) (token : String) :
    (seen tokenDir token).Sublist (holders tokenDir token) := by
  unfold seen holders
  induction tokenDir.readDir.getD [] with
  | nil => exact .slnil
  | cons entry entries ih =>
      rw [List.flatMap_cons, List.flatMap_cons]
      refine List.Sublist.append ?_ ih
      split
      · exact seenCompanies_sublist token _
      · exact List.Sublist.refl _

theorem companyId_of_stemToken {token : String} {entry : DirEntry} {p : TenantPrincipal}
    (h : stemToken token entry = some p) : p.companyId = none := by
  simp only [stemToken, Option.bind_eq_bind, Option.bind_eq_some_iff] at h
  obtain ⟨stem, -, content, -, h⟩ := h
  split at h
  · split at h
    · rw [← Option.some.inj h]
    · obtain ⟨name, -, rfl⟩ := Option.map_eq_some_iff.mp h
      rfl
  · cases h

/-- A principal of a company is seen among the companies. -/
theorem mem_seen {tokenDir : Node} {token company : String} {p : TenantPrincipal}
    (hp : p.companyId = some company) : p ∈ seen tokenDir token ↔
      ∃ companies, (some "companies", companies) ∈ tokenDir.readDir.getD [] ∧
        p ∈ seenCompanies token (companies.readDir.getD []) := by
  constructor
  · intro h
    obtain ⟨⟨name, node⟩, hentry, hmem⟩ := List.mem_flatMap.mp h
    split at hmem
    · rename_i hname
      obtain rfl : name = some "companies" := hname
      exact ⟨node, hentry, hmem⟩
    · have hnone := companyId_of_stemToken (Option.mem_toList.mp hmem)
      rw [hnone] at hp
      cases hp
  · rintro ⟨companies, hentry, hmem⟩
    exact List.mem_flatMap.mpr ⟨_, hentry, by rw [if_pos rfl]; exact hmem⟩

theorem mem_holders {tokenDir companies : Node} {token : String} {company : DirEntry}
    {p : TenantPrincipal} (hentry : (some "companies", companies) ∈ tokenDir.readDir.getD [])
    (hcompany : company ∈ companies.readDir.getD []) (hp : p ∈ companyHolders token company) :
    p ∈ holders tokenDir token := by
  refine List.mem_flatMap.mpr ⟨_, hentry, ?_⟩
  rw [if_pos rfl]
  exact List.mem_flatMap.mpr ⟨company, hcompany, hp⟩

/-- The only agent with a token is seen exactly when its company is reached. -/
theorem mem_seen_iff_reached {tokenDir : Node} {token name company : String}
    (h : holders tokenDir token = [⟨⟨.agent, name⟩, some company⟩]) :
    ⟨⟨.agent, name⟩, some company⟩ ∈ seen tokenDir token ↔ Reached tokenDir token := by
  constructor
  · intro hseen
    obtain ⟨companies, hentry, hmem⟩ := (mem_seen rfl).mp hseen
    obtain ⟨before, entry, after, hsplit, hp, hbefore⟩ := mem_seenCompanies.mp hmem
    refine ⟨companies, before, entry, after, hentry, ?_, List.ne_nil_of_mem hp, hbefore⟩
    cases hread : companies.readDir with
    | none => simp [hread] at hsplit
    | some listed => rw [← hsplit, hread, Option.getD_some]
  · rintro ⟨companies, before, entry, after, hentry, hread, hholds, hbefore⟩
    obtain ⟨p, hp⟩ := List.exists_mem_of_ne_nil _ hholds
    have hmem : p ∈ holders tokenDir token :=
      mem_holders hentry (by rw [hread]; simp) hp
    obtain rfl := List.mem_singleton.mp (h ▸ hmem)
    refine (mem_seen rfl).mpr ⟨companies, hentry, ?_⟩
    exact mem_seenCompanies.mpr ⟨before, entry, after, by rw [hread]; rfl, hp, hbefore⟩

/-- A token works exactly when its company, if it is the only one with it, is listed before every
company that cannot be read as a directory. A company that cannot be listed ends the scan instead of
being skipped. -/
theorem tokenWorks_iff (tokenDir : Node) (token : String) :
    TokenWorks tokenDir token ↔
      ∀ name company, holders tokenDir token = [⟨⟨.agent, name⟩, some company⟩] →
        Reached tokenDir token := by
  have hsub := seen_sublist tokenDir token
  constructor
  · intro h name company hholders
    have hanswer := h.only name company hholders
    rw [staticToken_eq] at hanswer
    exact (mem_seen_iff_reached hholders).mp (List.mem_of_head? hanswer)
  · intro h
    constructor
    · intro name company hholders
      have hseen := (mem_seen_iff_reached hholders).mpr (h name company hholders)
      rw [hholders] at hsub
      rw [staticToken_eq]
      rcases List.sublist_singleton.mp hsub with hnil | hone
      · rw [hnil] at hseen
        cases hseen
      · rw [hone]
        rfl
    · intro hholders
      rw [hholders] at hsub
      rw [staticToken_eq, List.sublist_nil.mp hsub]
      rfl

/-- A text file that is listed before the directory of a company. -/
def strayFile : Node := .dir (some [some (some "companies", .dir (some [
  some (some "README", .file (some "one directory for each company")),
  some (some "fpl", .dir (some
    [some (some "agent-alfalfad", .file (some "company-secret\n"))]))]))])

/-- The token of the agent is in its file and nowhere else, and stands for no one. -/
theorem strayFile_hides_token :
    holders strayFile "company-secret" = [⟨⟨.agent, "alfalfad"⟩, some "fpl"⟩] ∧
      staticToken strayFile "company-secret" = none ∧
      ¬ TokenWorks strayFile "company-secret" := by
  have hholders : holders strayFile "company-secret" =
      [⟨⟨.agent, "alfalfad"⟩, some "fpl"⟩] := by decide +kernel
  have hnone : staticToken strayFile "company-secret" = none := by decide +kernel
  refine ⟨hholders, hnone, fun h => ?_⟩
  rw [h.only _ _ hholders] at hnone
  cases hnone

end Marbles.Auth
