import Marbles.Client.Cache

/-!
# What pruning drops

`Cache::prune` goes through the files of a directory from the newest to the oldest and counts the
bytes of all of them, also of those it removes. So once a file has not fitted, nothing older is
kept, however small. `prune_dropsOnlyOverflow_iff` says when that removes no file that would fit.

The loop keeps a running total, so whether a file goes depends on all newer ones. The condition is
about the first file that does not fit: if nothing older would fit in its place, nothing is
dropped without need. Files that cannot be removed are left out by an assumption on the file
system.
-/

namespace Marbles.Http

namespace Cache

/-- The files of the directory. -/
def files (self : Cache) (disk : Disk) : List CacheFile := disk.filter fun f => f.root = self.root

/-- The bytes of the files, which the budget bounds. -/
def total (files : List CacheFile) : Nat := (files.map (·.size)).sum

/-- The files that are newer than a given one. -/
def newer (f : CacheFile) (files : List CacheFile) : List CacheFile :=
  files.filter fun g => f.modified < g.modified

/-- What is kept is within both bounds, and what was removed does not fit beside the newer files
that were kept. -/
structure DropsOnlyOverflow (before after : List CacheFile) : Prop where
  entries : after.length ≤ maxEntries
  bytes : total after ≤ maxBytes
  removed : ∀ f ∈ before, f ∉ after →
    maxEntries ≤ (newer f after).length ∨ maxBytes < f.size + total (newer f after)

/-- The directory can be read, it lists each of its files once, and files can be removed. -/
structure Listed (io : StoreIo) (cache : Cache) (disk : Disk) : Prop where
  names : ((cache.files disk).map (·.name)).Nodup
  listing : ∃ names, io.listing = some names ∧ names.Perm ((cache.files disk).map (·.name))
  removes : ∀ name, io.removes name = true

/-! ### The pass over the files -/

@[simp] theorem total_nil : total [] = 0 := rfl

@[simp] theorem total_cons (f : CacheFile) (files : List CacheFile) :
    total (f :: files) = f.size + total files := by
  simp [total]

theorem total_perm {files files' : List CacheFile} (h : files.Perm files') :
    total files = total files' := (h.map _).sum_nat

/-- Past a bound everything is removed. -/
theorem overBudget_past {index bytes : Nat} (h : maxEntries ≤ index ∨ maxBytes < bytes)
    (files : List CacheFile) : overBudget index bytes files = files := by
  induction files generalizing index bytes with
  | nil => rfl
  | cons f files ih =>
      have hnext : maxEntries ≤ index ∨ maxBytes < bytes + f.size := by omega
      rw [overBudget, if_pos hnext, ih (by omega)]

/-- The pass keeps the files up to the first one past a bound. -/
theorem overBudget_split {index bytes : Nat} (hindex : index ≤ maxEntries)
    (hbytes : bytes ≤ maxBytes) (files : List CacheFile) :
    ∃ kept rest, files = kept ++ rest ∧ overBudget index bytes files = rest ∧
      index + kept.length ≤ maxEntries ∧ bytes + total kept ≤ maxBytes ∧
        ∀ f ∈ rest.head?, index + kept.length = maxEntries ∨
          maxBytes < bytes + total kept + f.size := by
  induction files generalizing index bytes with
  | nil => exact ⟨[], [], rfl, rfl, hindex, hbytes, nofun⟩
  | cons f files ih =>
      by_cases hover : maxEntries ≤ index ∨ maxBytes < bytes + f.size
      · have hall : overBudget index bytes (f :: files) = f :: files := by
          rw [overBudget, if_pos hover, overBudget_past (by omega)]
        refine ⟨[], f :: files, rfl, hall, hindex, hbytes, fun g hg => ?_⟩
        obtain rfl := Option.some.inj hg
        rw [List.length_nil, total_nil]
        omega
      · obtain ⟨kept, rest, hfiles, hrest, hentries, htotal, hfirst⟩ :=
          @ih (index + 1) (bytes + f.size) (by omega) (by omega)
        refine ⟨f :: kept, rest, by rw [hfiles]; rfl, ?_, ?_, ?_, fun g hg => ?_⟩
        · rw [overBudget, if_neg hover]
          exact hrest
        · rw [List.length_cons]
          omega
        · rw [total_cons]
          omega
        · have hpast := hfirst g hg
          rw [List.length_cons, total_cons]
          omega

/-- In a list from the newest to the oldest, the newer files are the ones before. -/
theorem newer_split {kept rest : List CacheFile} {f : CacheFile}
    (h : (kept ++ f :: rest).Pairwise fun a b => b.modified < a.modified) :
    newer f (kept ++ f :: rest) = kept := by
  obtain ⟨-, hrest, hcross⟩ := List.pairwise_append.mp h
  have hkept : kept.filter (fun g => f.modified < g.modified) = kept :=
    List.filter_eq_self.mpr fun g hg => by simpa using hcross g hg f (List.mem_cons_self ..)
  have hnone : (f :: rest).filter (fun g => f.modified < g.modified) = [] := by
    refine List.filter_eq_nil_iff.mpr fun g hg => ?_
    rcases List.mem_cons.mp hg with rfl | hg
    · simp
    · simpa using ((List.pairwise_cons.mp hrest).1 g hg).le
  rw [newer, List.filter_append, hkept, hnone, List.append_nil]

theorem newer_eq_self {kept : List CacheFile} {g : CacheFile}
    (h : ∀ f ∈ kept, g.modified < f.modified) : newer g kept = kept :=
  List.filter_eq_self.mpr fun f hf => by simpa using h f hf

/-- The pass stops keeping at the first file that does not fit. -/
theorem kept_eq {kept rest before after : List CacheFile} {f : CacheFile}
    (hsame : kept ++ rest = before ++ f :: after) (htotal : total kept ≤ maxBytes)
    (hfirst : ∀ g ∈ rest.head?, kept.length = maxEntries ∨ maxBytes < total kept + g.size)
    (hentries : before.length < maxEntries) (hbefore : total before ≤ maxBytes)
    (hover : maxBytes < f.size + total before) : kept = before ∧ rest = f :: after := by
  rcases List.append_eq_append_iff.mp hsame with ⟨mid, hmid, hrest⟩ | ⟨mid, hmid, hrest⟩
  · cases mid with
    | nil => exact ⟨by rw [hmid, List.append_nil], hrest⟩
    | cons g mid =>
        -- then a file before `f` was past a bound
        have hpast := hfirst g (by rw [hrest]; rfl)
        rw [hmid, List.length_append, List.length_cons] at hentries
        rw [hmid, total, List.map_append, List.sum_append] at hbefore
        simp only [List.map_cons, List.sum_cons] at hbefore
        have hsum : total kept = (kept.map (·.size)).sum := rfl
        omega
  · cases mid with
    | nil => exact ⟨by rw [hmid, List.append_nil], hrest.symm⟩
    | cons g mid =>
        -- then `f` itself was kept
        obtain ⟨rfl, -⟩ := List.cons.inj hrest
        rw [hmid, total, List.map_append, List.sum_append] at htotal
        simp only [List.map_cons, List.sum_cons] at htotal
        have hsum : total before = (before.map (·.size)).sum := rfl
        omega

/-! ### The files of the directory before and after -/

variable {io : StoreIo} {self : Cache} {disk : Disk}

theorem find_name {f : CacheFile} (hnames : ((self.files disk).map (·.name)).Nodup)
    (hf : f ∈ self.files disk) : self.find f.name disk = some f := by
  have hroot := List.mem_filter.mp hf
  simp only [decide_eq_true_eq] at hroot
  have hfound : (self.find f.name disk).isSome :=
    List.find?_isSome.mpr ⟨f, hroot.1, by simp [hroot.2]⟩
  obtain ⟨g, hg⟩ := Option.isSome_iff_exists.mp hfound
  have hsame := List.find?_some hg
  simp only [decide_eq_true_eq] at hsame
  have hmem : g ∈ self.files disk :=
    List.mem_filter.mpr ⟨List.mem_of_find?_eq_some hg, by simpa using hsame.1⟩
  rw [hg, List.inj_on_of_nodup_map hnames hmem hf hsame.2]

/-- The files `prune` looks at are the files of the directory. -/
theorem found_perm {names : List String} (hnames : ((self.files disk).map (·.name)).Nodup)
    (hlisting : names.Perm ((self.files disk).map (·.name))) :
    (names.filterMap fun name => self.find name disk).Perm (self.files disk) := by
  have hfound : ((self.files disk).map (·.name)).filterMap (fun name => self.find name disk) =
      self.files disk := by
    rw [List.filterMap_map]
    refine (List.filterMap_congr fun f hf => ?_).trans List.filterMap_some
    exact find_name hnames hf
  exact (hlisting.filterMap _).trans (by rw [hfound])

/-- The directory, from the newest file to the oldest. -/
def fromNewest (files : List CacheFile) : List CacheFile :=
  Sorting.sortOn (fun f => -f.modified) files

theorem nodup_neg {files : List CacheFile} (hdistinct : (files.map (·.modified)).Nodup) :
    (files.map fun f => -f.modified).Nodup := by
  have hmap : (files.map fun f => -f.modified) = (files.map (·.modified)).map Neg.neg := by
    rw [List.map_map]
    rfl
  rw [hmap]
  exact hdistinct.map neg_injective

theorem fromNewest_pairwise {files : List CacheFile}
    (hdistinct : (files.map (·.modified)).Nodup) :
    (fromNewest files).Pairwise fun a b => b.modified < a.modified := by
  have hsorted := Sorting.pairwise_sortOn_lt (nodup_neg hdistinct)
  exact (List.pairwise_map.mp hsorted).imp neg_lt_neg_iff.mp

/-- What pruning leaves of the directory is what the pass keeps. -/
theorem files_prune (h : Listed io self disk)
    (hdistinct : ((self.files disk).map (·.modified)).Nodup) {kept rest : List CacheFile}
    (hsplit : fromNewest (self.files disk) = kept ++ rest)
    (hpass : overBudget 0 0 (kept ++ rest) = rest) :
    (self.files (prune io self disk)).Perm kept := by
  obtain ⟨names, hlisting, hperm⟩ := h.listing
  have hnodup : (kept ++ rest).Nodup := by
    rw [← hsplit]
    exact Sorting.nodup_sortOn.mpr (List.Nodup.of_map _ hdistinct)
  have hsorted : Sorting.sortOn (fun f => -f.modified)
      (names.filterMap fun name => self.find name disk) = kept ++ rest := by
    rw [Sorting.sortOn_perm_of_nodup (found_perm h.names hperm) (nodup_neg hdistinct), ← hsplit]
    rfl
  have hleft : self.files (prune io self disk) =
      (self.files disk).filter fun f => f ∉ rest := by
    simp only [prune, hlisting, hsorted, hpass, h.removes, files, List.filter_filter]
    exact List.filter_congr fun f _ => by simp [Bool.and_comm]
  have hkept : (kept ++ rest).filter (fun f => f ∉ rest) = kept := by
    obtain ⟨-, -, hcross⟩ := List.nodup_append.mp hnodup
    rw [List.filter_append, List.filter_eq_self.mpr, List.filter_eq_nil_iff.mpr,
      List.append_nil]
    · exact fun f hf => by simpa using hf
    · exact fun f hf => by simpa using fun hrest => hcross f hf f hrest rfl
  have hmoved := (Sorting.perm_sortOn (fun f : CacheFile => -f.modified)
    (self.files disk)).symm.filter fun f => f ∉ rest
  rw [hleft]
  exact hmoved.trans (by rw [show Sorting.sortOn (fun f : CacheFile => -f.modified)
    (self.files disk) = kept ++ rest from hsplit, hkept])

/-! ### When only the overflow is dropped -/

/-- No file that would fit is older than the first one that does not. -/
def NoneFitsBehind (files : List CacheFile) : Prop :=
  ∀ f ∈ files, ∀ g ∈ files, g.modified < f.modified → (newer f files).length < maxEntries →
    total (newer f files) ≤ maxBytes → maxBytes < f.size + total (newer f files) →
      maxBytes < g.size + total (newer f files)

theorem newer_perm {files files' : List CacheFile} (f : CacheFile) (h : files.Perm files') :
    (newer f files).Perm (newer f files') := h.filter _

theorem DropsOnlyOverflow.of_perm {before after before' after' : List CacheFile}
    (hbefore : before.Perm before') (hafter : after.Perm after')
    (h : DropsOnlyOverflow before after) : DropsOnlyOverflow before' after' where
  entries := hafter.length_eq ▸ h.entries
  bytes := total_perm hafter ▸ h.bytes
  removed f hf hgone := by
    rw [← (newer_perm f hafter).length_eq, ← total_perm (newer_perm f hafter)]
    exact h.removed f (hbefore.mem_iff.mpr hf) fun hmem => hgone (hafter.mem_iff.mp hmem)

theorem NoneFitsBehind.of_perm {files files' : List CacheFile} (hperm : files.Perm files')
    (h : NoneFitsBehind files) : NoneFitsBehind files' := by
  intro f hf g hg holder
  rw [← (newer_perm f hperm).length_eq, ← total_perm (newer_perm f hperm)]
  exact h f (hperm.mem_iff.mpr hf) g (hperm.mem_iff.mpr hg) holder

/-- Of a list from the newest to the oldest, the files before the first that does not fit. -/
theorem dropsOnlyOverflow_iff {kept rest : List CacheFile}
    (hsorted : (kept ++ rest).Pairwise fun a b => b.modified < a.modified)
    (hentries : kept.length ≤ maxEntries) (htotal : total kept ≤ maxBytes)
    (hfirst : ∀ f ∈ rest.head?,
      kept.length = maxEntries ∨ maxBytes < total kept + f.size) :
    DropsOnlyOverflow (kept ++ rest) kept ↔ NoneFitsBehind (kept ++ rest) := by
  have hcross : ∀ f ∈ kept, ∀ g ∈ rest, g.modified < f.modified :=
    (List.pairwise_append.mp hsorted).2.2
  constructor
  · intro hdrops f hf g hg holder hcount hroom hover
    obtain ⟨before, after, hsame⟩ := List.append_of_mem hf
    have hnewer : newer f (kept ++ rest) = before := by
      rw [hsame]
      exact newer_split (hsame ▸ hsorted)
    rw [hnewer] at hcount hroom hover ⊢
    obtain ⟨rfl, rfl⟩ := kept_eq hsame htotal hfirst hcount hroom hover
    -- an older file is behind `f`, where everything was removed
    have hbehind : g ∉ kept := fun hmem =>
      (hcross g hmem f (List.mem_cons_self ..)).not_gt holder
    have hrest : g ∈ f :: after := (List.mem_append.mp hg).resolve_left hbehind
    have hremoved := hdrops.removed g hg hbehind
    rw [newer_eq_self fun x hx => hcross x hx g hrest] at hremoved
    exact hremoved.resolve_left (by omega)
  · intro hnone
    refine ⟨hentries, htotal, fun g hg hgone => ?_⟩
    have hrest : g ∈ rest := (List.mem_append.mp hg).resolve_left hgone
    rw [newer_eq_self fun x hx => hcross x hx g hrest]
    rcases Nat.lt_or_ge kept.length maxEntries with hcount | hfull
    · refine Or.inr ?_
      cases rest with
      | nil => exact absurd hrest List.not_mem_nil
      | cons f rest =>
          have hover := hfirst f rfl
          rcases List.mem_cons.mp hrest with rfl | hbehind
          · omega
          · have holder : g.modified < f.modified :=
              (List.pairwise_cons.mp (List.pairwise_append.mp hsorted).2.1).1 g hbehind
            have hfits := hnone f (by simp) g hg holder
            rw [newer_split hsorted] at hfits
            exact hfits hcount htotal (by omega)
    · exact Or.inl hfull

/-- Pruning drops only what does not fit, exactly when nothing older than the first file that does
not fit would have fitted in its place. The bytes of a file that is dropped are counted for the
files after it as well. -/
theorem prune_dropsOnlyOverflow_iff (h : Listed io self disk)
    (hdistinct : ((self.files disk).map (·.modified)).Nodup) :
    DropsOnlyOverflow (self.files disk) (self.files (prune io self disk)) ↔
      NoneFitsBehind (self.files disk) := by
  obtain ⟨kept, rest, hsplit, hpass, hentries, htotal, hfirst⟩ :=
    overBudget_split (Nat.zero_le _) (Nat.zero_le _) (fromNewest (self.files disk))
  simp only [Nat.zero_add] at hentries htotal hfirst
  have hperm : (self.files disk).Perm (kept ++ rest) :=
    hsplit ▸ (Sorting.perm_sortOn _ (self.files disk)).symm
  have hleft : (self.files (prune io self disk)).Perm kept :=
    files_prune h hdistinct hsplit (hsplit ▸ hpass)
  have hsorted : (kept ++ rest).Pairwise fun a b => b.modified < a.modified :=
    hsplit ▸ fromNewest_pairwise hdistinct
  have hiff := dropsOnlyOverflow_iff hsorted hentries htotal hfirst
  constructor
  · intro hdrops
    exact (hiff.mp (hdrops.of_perm hperm hleft)).of_perm hperm.symm
  · intro hnone
    exact (hiff.mpr (hnone.of_perm hperm)).of_perm hperm.symm hleft.symm

/-- A directory with one file too large for it, and an older one of a single byte. -/
def crowded : Disk :=
  [⟨"cache", "new.json", none, maxBytes + 1, 2⟩, ⟨"cache", "old.json", none, 1, 1⟩]

/-- Every system call succeeds, and the directory is listed whole. -/
def readable : StoreIo where
  createDir := .ok ()
  now := 2
  write := .ok ()
  rename := .ok ()
  modified := 2
  listing := some ["new.json", "old.json"]
  removes _ := true

theorem crowded_listed : Listed readable ⟨"cache"⟩ crowded where
  names := by decide
  listing := ⟨_, rfl, List.Perm.refl _⟩
  removes _ := rfl

/-- The small file goes with the large one, though nothing is left that it would not fit beside. -/
theorem crowded_drops_all :
    prune readable ⟨"cache"⟩ crowded = [] ∧
      ¬ DropsOnlyOverflow (Cache.files ⟨"cache"⟩ crowded)
        (Cache.files ⟨"cache"⟩ (prune readable ⟨"cache"⟩ crowded)) := by
  have hnone : prune readable ⟨"cache"⟩ crowded = [] := by decide
  refine ⟨hnone, fun h => ?_⟩
  have hremoved := h.removed ⟨"cache", "old.json", none, 1, 1⟩ (by decide) (by rw [hnone]; decide)
  rw [hnone] at hremoved
  revert hremoved
  decide

theorem crowded_dropsOnlyOverflow_iff :
    DropsOnlyOverflow (Cache.files ⟨"cache"⟩ crowded)
        (Cache.files ⟨"cache"⟩ (prune readable ⟨"cache"⟩ crowded)) ↔ False := by
  refine (prune_dropsOnlyOverflow_iff crowded_listed (by decide)).trans ⟨fun h => ?_, False.elim⟩
  have hover := h ⟨"cache", "new.json", none, maxBytes + 1, 2⟩ (by decide)
    ⟨"cache", "old.json", none, 1, 1⟩ (by decide) (by decide) (by decide) (by decide) (by decide)
  revert hover
  decide

end Cache

end Marbles.Http
