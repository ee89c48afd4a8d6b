import Marbles.Lib.Json
import Marbles.Lib.Sort
import Marbles.Federation.Crypto

/-!
# The read cache of the client

A directory with one file for each server, op and request body it has seen an answer for.
The three are hashed into the name of the file; the server and the op are in the file as
well, and a file is only served to a request that agrees with both.

Hashing is a parameter, and results about request bodies assume that it has no collisions: the
server and the op can be checked in the file, the body cannot. Writing a file and renaming it are
two steps of the environment, either of which can fail.
-/

namespace Marbles.Http

open Signing

/-- Bumped when the shape of an entry changes. -/
def entryVersion : Nat := 1

/-- Newest entries kept in a directory. -/
def maxEntries : Nat := 128

/-- Byte budget of a directory. -/
def maxBytes : Nat := 8 * 1024 * 1024

/-- What a cache file holds. The server and the op are repeated in it, so that `load` can tell a
file of another request from its own. -/
structure Entry where
  version : Nat
  server : String
  op : String
  fetchedAt : Int
  response : String
  deriving DecidableEq, Repr

/-- The text of an entry. -/
def Entry.text (e : Entry) : String :=
  "\x7b\"version\":" ++ toString e.version ++ ",\"server\":" ++ Json.Value.quote e.server ++
    ",\"op\":" ++ Json.Value.quote e.op ++ ",\"fetched_at\":" ++ toString e.fetchedAt ++
    ",\"response\":" ++ Json.Value.quote e.response ++ "\x7d"

/-- A body that is replayed, and when it was fetched. -/
structure CachedResponse where
  body : String
  fetchedAt : Int
  deriving DecidableEq, Repr

/-- A file of a directory, and the entry its text reads as, if it does. -/
structure CacheFile where
  root : String
  name : String
  entry : Option Entry
  size : Nat
  modified : Int
  deriving DecidableEq, Repr

/-- The files of all cache directories. -/
abbrev Disk := List CacheFile

/-- What the file system and the clock do during one call of `store`. Any of it can fail, and then
the file system is as the source leaves it at that point. -/
structure StoreIo where
  createDir : Except String Unit
  now : Int
  /-- Writing the temporary file beside the target. -/
  write : Except String Unit
  rename : Except String Unit
  modified : Int
  /-- The names in the order the directory lists them, if it can be read. -/
  listing : Option (List String)
  removes : String → Bool

/-- A cache is the directory it writes to. Two clients of one directory share its files. -/
structure Cache where
  root : String
  deriving DecidableEq, Repr

namespace Cache

/-- `path_for`, the name without the directory. -/
def nameFor (c : Crypto) (server op body : String) : String :=
  c.hexDigest (server ++ "\x00" ++ op ++ "\x00" ++ body) ++ ".json"

/-- The file of this name in this directory. -/
def find (self : Cache) (name : String) (disk : Disk) : Option CacheFile :=
  disk.find? fun f => f.root = self.root ∧ f.name = name

/-- The files past the newest `maxEntries`, or past the byte budget. The sum of the source
saturates, far above the budget. -/
def overBudget : Nat → Nat → List CacheFile → List CacheFile
  | _, _, [] => []
  | index, bytes, f :: files =>
      let bytes := bytes + f.size
      if maxEntries ≤ index ∨ maxBytes < bytes then f :: overBudget (index + 1) bytes files
      else overBudget (index + 1) bytes files

/-- Keep the newest files; a file that cannot be removed stays. -/
def prune (io : StoreIo) (self : Cache) (disk : Disk) : Disk :=
  match io.listing with
  | none => disk
  | some names =>
      let files := names.filterMap fun name => self.find name disk
      let doomed := overBudget 0 0 (Sorting.sortOn (fun f => -f.modified) files)
      disk.filter fun f => ¬ (f ∈ doomed ∧ io.removes f.name = true)

/-- Record a response: written beside the target, then renamed. A reader sees the old entry or the
new one, never a part of one. -/
def store (c : Crypto) (io : StoreIo) (self : Cache) (server op body response : String) :
    Mutation Disk String Unit := do
  liftM (io.createDir.mapError fun e => s!"creating {self.root}: {e}")
  let entry : Entry := ⟨entryVersion, server, op, io.now, response⟩
  let name := nameFor c server op body
  liftM io.write
  liftM (io.rename.mapError fun e => s!"renaming {self.root}/{name}: {e}")
  let disk ← get
  let file : CacheFile := ⟨self.root, name, some entry, entry.text.utf8ByteSize, io.modified⟩
  let others := disk.filter fun f => ¬ (f.root = self.root ∧ f.name = name)
  set (prune io self (file :: others))

/-- The newest response cached for this server, op and body, if it can be read. -/
def load (c : Crypto) (readable : Bool) (self : Cache) (server op body : String) (disk : Disk) :
    Option CachedResponse := do
  let file ← self.find (nameFor c server op body) disk
  guard readable
  let entry ← file.entry
  if entry.version ≠ entryVersion ∨ entry.op ≠ op ∨ entry.server ≠ server then none
  else some ⟨entry.response, entry.fetchedAt⟩

/-! ### What a directory holds -/

variable {c : Crypto}

theorem mem_of_mem_prune {io : StoreIo} {self : Cache} {disk : Disk} {f : CacheFile}
    (h : f ∈ prune io self disk) : f ∈ disk := by
  unfold prune at h
  split at h
  · exact h
  · exact (List.mem_filter.mp h).1

/-- Storing adds at most the file of this request. -/
theorem mem_of_mem_store {io : StoreIo} {self : Cache} {server op body response : String}
    {disk : Disk} {f : CacheFile}
    (h : f ∈ ((store c io self server op body response).call disk).2) :
    f ∈ disk ∨ f.name = nameFor c server op body ∧
      f.entry = some ⟨entryVersion, server, op, io.now, response⟩ := by
  simp only [store, Mutation.call_bind, Mutation.call_liftM, Mutation.call_get] at h
  cases hdir : io.createDir with
  | error e =>
      rw [hdir] at h
      exact Or.inl h
  | ok _ =>
      cases hwrite : io.write with
      | error e =>
          rw [hdir, hwrite] at h
          exact Or.inl h
      | ok _ =>
          cases hrename : io.rename with
          | error e =>
              rw [hdir, hwrite, hrename] at h
              exact Or.inl h
          | ok _ =>
              -- the file was renamed into place; pruning takes files away only
              rw [hdir, hwrite, hrename] at h
              rcases List.mem_cons.mp (mem_of_mem_prune h) with rfl | hmem
              · exact Or.inr ⟨rfl, rfl⟩
              · exact Or.inl (List.mem_filter.mp hmem).1

/-- What is served comes from a file of this request, of this server and op. -/
theorem load_eq_some {readable : Bool} {self : Cache} {server op body : String} {disk : Disk}
    {cached : CachedResponse} (h : load c readable self server op body disk = some cached) :
    ∃ f ∈ disk, f.name = nameFor c server op body ∧
      f.entry = some ⟨entryVersion, server, op, cached.fetchedAt, cached.body⟩ := by
  simp only [load, Option.bind_eq_bind, Option.bind_eq_some_iff] at h
  obtain ⟨file, hfile, _, -, entry, hentry, h⟩ := h
  split at h
  · cases h
  · rename_i hsame
    cases h
    have hname := List.find?_some hfile
    simp only [decide_eq_true_eq] at hname
    simp only [not_or, not_not] at hsame
    refine ⟨file, List.mem_of_find?_eq_some hfile, hname.2, ?_⟩
    rw [hentry, ← hsame.1, ← hsame.2.1, ← hsame.2.2]

/-- What was stored is served to the same request, unless it was pruned at once. -/
theorem load_store {io : StoreIo} (hdir : io.createDir = .ok ()) (hwrite : io.write = .ok ())
    (hrename : io.rename = .ok ()) (hlisting : io.listing = none) (self : Cache)
    (server op body response : String) (disk : Disk) :
    load c true self server op body ((store c io self server op body response).call disk).2 =
      some ⟨response, io.now⟩ := by
  simp only [store, Mutation.call_bind, Mutation.call_liftM, Mutation.call_get, hdir, hwrite,
    hrename, Except.mapError, Mutation.call_set, prune, hlisting, load, find]
  rw [List.find?_cons_of_pos (by simp)]
  simp [entryVersion]

/-- A name tells the bodies of one server and op apart. -/
theorem nameFor_body (hsha : Function.Injective c.sha256) {server op body body' : String}
    (h : nameFor c server op body = nameFor c server op body') : body = body' := by
  have hdigest := hsha (hex_injective ((String.append_left_inj _).mp h))
  exact (String.append_right_inj _).mp hdigest

end Cache

end Marbles.Http
