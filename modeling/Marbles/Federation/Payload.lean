import Marbles.Federation.Snapshot
import Marbles.Lib.Extensional

/-!
# What a signature covers

The bytes that are hashed and signed are canonical JSON. Two values have the same bytes exactly
when they are equal with objects taken as maps, and reading the bytes gives an equal value back; so
a signed payload stands for one manifest, apart from the signature it leaves out.

The general facts about canonical texts are in the library. What is added here is that the payload
of a manifest is such a text with one field left out, and that leaving out a field loses nothing
else.
-/

namespace Marbles

open Json (Value)

namespace SnapshotManifest

/-- The manifest before it is signed. -/
def unsigned (m : SnapshotManifest) : SnapshotManifest := { m with signature := "" }

/-- The fields a signature covers. -/
def signedFields (m : SnapshotManifest) : Json.Object := [("schema", .str m.schema),
  ("store_id", .str m.storeId), ("company", .ofStr? m.company), ("observed_at", .num m.observedAt),
  ("seq", .num m.seq), ("prev_hash", .ofStr? m.prevHash), ("body_sha256", .str m.bodySha256),
  ("key_id", .str m.keyId)]

theorem wellFormed_signedFields (m : SnapshotManifest) :
    (Value.ofFields m.signedFields).WellFormed := by
  refine Value.wellFormed_ofFields fun f hf => ?_
  have hstr? : ∀ s, (Value.ofStr? s).WellFormed := by
    intro s
    cases s <;> trivial
  simp only [signedFields, List.mem_cons, List.not_mem_nil, or_false] at hf
  rcases hf with rfl | rfl | rfl | rfl | rfl | rfl | rfl | rfl
  · trivial
  · trivial
  · exact hstr? _
  · trivial
  · trivial
  · exact hstr? _
  · trivial
  · trivial

theorem signingPayload_eq_iff {m m' : SnapshotManifest} :
    m.signingPayload = m'.signingPayload ↔ m.unsigned = m'.unsigned := by
  constructor
  · intro h
    have hdoc := (Value.canonical_eq_iff m.wellFormed_signedFields m'.wellFormed_signedFields).mp h
    have hkeys : ∀ m : SnapshotManifest, (m.signedFields.map Prod.fst).Nodup := by
      intro m
      rw [show m.signedFields.map Prod.fst = ["schema", "store_id", "company", "observed_at", "seq",
        "prev_hash", "body_sha256", "key_id"] from rfl]
      decide
    rw [Value.doc_ofFields (hkeys m), Value.doc_ofFields (hkeys m')] at hdoc
    have hfield := congrFun (Json.Doc.obj.inj hdoc)
    have hschema : m.schema = m'.schema := Json.Doc.str.inj (Option.some.inj (hfield "schema"))
    have hstore : m.storeId = m'.storeId := Json.Doc.str.inj (Option.some.inj (hfield "store_id"))
    have hcompany : m.company = m'.company := Value.doc_ofStr? (Option.some.inj (hfield "company"))
    have hobserved : m.observedAt = m'.observedAt :=
      Json.Doc.num.inj (Option.some.inj (hfield "observed_at"))
    have hseq : m.seq = m'.seq :=
      Int.ofNat.inj (Json.Doc.num.inj (Option.some.inj (hfield "seq")))
    have hprev : m.prevHash = m'.prevHash :=
      Value.doc_ofStr? (Option.some.inj (hfield "prev_hash"))
    have hbody : m.bodySha256 = m'.bodySha256 :=
      Json.Doc.str.inj (Option.some.inj (hfield "body_sha256"))
    have hkey : m.keyId = m'.keyId := Json.Doc.str.inj (Option.some.inj (hfield "key_id"))
    simp [unsigned, hschema, hstore, hcompany, hobserved, hseq, hprev, hbody, hkey]
  · intro h
    show m.unsigned.signingPayload = m'.unsigned.signingPayload
    rw [h]

end SnapshotManifest

/-- Canonical texts are equal exactly for values that are equal with objects taken as maps, they are
read back as equal values, and what is signed tells manifests apart. The fields of an object may
come in any order. -/
theorem canonical_json :
    (∀ v w : Value, v.WellFormed → w.WellFormed → (v.canonical = w.canonical ↔ v.doc = w.doc)) ∧
    (∀ v : Value, v.WellFormed → ∃ u, Json.parse v.canonical = some u ∧ u.doc = v.doc) ∧
    ∀ m m' : SnapshotManifest, m.signingPayload = m'.signingPayload ↔ m.unsigned = m'.unsigned :=
  ⟨fun _ _ hv hw => Value.canonical_eq_iff hv hw, fun _ hv => Value.parse_canonical hv,
    fun _ _ => SnapshotManifest.signingPayload_eq_iff⟩

/-- The same object with its fields the other way round. -/
theorem canonical_json_reordered :
    Value.canonical (.obj [("b", .null), ("a", .arr [.num (-1), .str "\n"])]) =
      Value.canonical (.obj [("a", .arr [.num (-1), .str "\n"]), ("b", .null)]) ∧
    ∃ u, Json.parse (Value.canonical (.obj [("b", .null), ("a", .arr [.num (-1), .str "\n"])])) =
      some u ∧ u.doc = Value.doc (.obj [("a", .arr [.num (-1), .str "\n"]), ("b", .null)]) := by
  have hfields : Value.WellFormed (.obj [("b", .null), ("a", .arr [.num (-1), .str "\n"])]) := by
    simp [Value.WellFormed, Value.FieldsWellFormed, Value.ItemsWellFormed]
  have hothers : Value.WellFormed (.obj [("a", .arr [.num (-1), .str "\n"]), ("b", .null)]) := by
    simp [Value.WellFormed, Value.FieldsWellFormed, Value.ItemsWellFormed]
  have hdoc : Value.doc (.obj [("b", .null), ("a", .arr [.num (-1), .str "\n"])]) =
      Value.doc (.obj [("a", .arr [.num (-1), .str "\n"]), ("b", .null)]) := by
    rw [Value.doc_obj, Value.doc_obj]
    refine congrArg Json.Doc.obj (funext fun key => ?_)
    simp only [Json.Object.get_cons, Json.Object.get_nil]
    by_cases hb : key = "b"
    · simp [hb]
    · simp [hb]
  obtain ⟨u, hu, hread⟩ := canonical_json.2.1 _ hfields
  exact ⟨(canonical_json.1 _ _ hfields hothers).mpr hdoc, u, hu, hread.trans hdoc⟩

end Marbles
