import Rim.Proofs.Document.Manifest
import Rim.Proofs.Document.Parts
import Rim.Proofs.Record.Indifferent
import Rim.Proofs.Wire
/-!
# The order of members never matters

Documents that differ only in the order of the members of objects, or of the entries of maps, at any
depth, are read alike: as equal documents, or with errors of one kind under the same fields.  So is
the profile that a manifest declares, and with it the hooks it is read with.  This holds for every
profile and its hooks, as long as the catalogs list variants only that look at content, as the
standard ones do.

A document is refused for its length before anything else, and documents of different order may
differ in their blanks, so both have to be within the limit or both beyond it.

## Main definitions

* `Format.Rearranged`: two raw values differ in their order only.
* `Format.Reordered`: two documents do.
* `ReadingLaw.indifferent`: reading alike what looks the same is handed on to records.

## Main results

* `Session.alike_parse`: the raw values of reordered documents look the same.
* `Session.alike_decodeComid`, `Session.alike_decodeCorim`: they are read alike.
* `Session.order_never_matters`: all of it together.
-/

namespace Rim

/-! ## Documents -/

/-- Reading alike what looks the same is handed on from fields to records. -/
def ReadingLaw.indifferent : ReadingLaw where
  toMemberLaw := .indifferent
  record hmembers := RecordShape.indifferent_codec hmembers _
  holding hmembers _ := RecordShape.indifferent_holding hmembers _
  extended hmembers _ := RecordShape.indifferent_extended hmembers _

section Roots

variable {f : Format} {cx : Context} {v w : Raw f}

/-- Two raw values were read from different orders of members, or of entries, and are the same
otherwise.  The entries of a map are put in order when they are read. -/
def Format.Rearranged : (f : Format) → Raw f → Raw f → Prop
  | .cbor, v, w =>
    ∃ x y : Cbor, x.IsDistinct ∧ x.Shuffled y ∧ v = x.ordered ∧ w = y.ordered
  | .json, v, w => Json.IsDistinct v ∧ Json.Shuffled v w

/-- Rearranged values look alike. -/
theorem Format.Rearranged.like (h : f.Rearranged v w) : f.Like v w := by
  cases f with
  | cbor =>
    obtain ⟨x, y, hdistinct, hshuffled, rfl, rfl⟩ := h
    exact hshuffled.like hdistinct
  | json => exact h.2.like h.1

/-- A module identifier is read alike from values that look alike. -/
theorem Comid.alike_decodeAttached (hcatalogs : cx.catalogs.Indifferent) (h : f.Like v w)
    (root : Comid) :
    Alike Eq (comidShape.decodeAttached f cx root v) (comidShape.decodeAttached f cx root w) :=
  RecordShape.alike_decodeAttached (fun _ hm => ReadingLaw.indifferent.member_comidShape hm)
    hcatalogs root h

theorem Corim.alike_decodeAttached (hcatalogs : cx.catalogs.Indifferent) (h : f.Like v w)
    (root : Corim) :
    Alike Eq (corimShape.decodeAttached f cx root v) (corimShape.decodeAttached f cx root w) :=
  RecordShape.alike_decodeAttached (fun _ hm => ReadingLaw.indifferent.member_corimShape hm)
    hcatalogs root h

/-- The profile is found without reading the rest. -/
theorem Corim.alike_declaredProfile (hcatalogs : cx.catalogs.Indifferent) (h : f.Like v w) :
    Alike Eq (declaredProfile f cx v) (declaredProfile f cx w) :=
  (FieldCodec.indifferent_choice .profileId).decodeClaimed hcatalogs (h.entry? profileField)

end Roots

/-! ## The wire -/

/-- Two documents are written in different orders of members, or of entries, and are the same
otherwise, blanks and spellings aside. -/
def Format.Reordered : Format → List UInt8 → List UInt8 → Prop
  | .cbor, bytes, bytes' =>
    ∃ x y : Cbor, Cbor.Item x bytes [] ∧ Cbor.Item y bytes' [] ∧ x.Shuffled y
  | .json, bytes, bytes' =>
    ∃ v w : Json, Json.Document v bytes ∧ Json.Document w bytes' ∧ v.Shuffled w

/-- Readers whose outcomes are classified answer alike to documents that are alike in all that the
classes ask for. -/
theorem Classified.alike {α β : Type} {result result' : Except WireError β}
    {limit length length' : Nat} {document document' distinct : α → Prop}
    {label : α → String → Prop} {value : α → β → Prop} {r : β → β → Prop} {x y : α}
    (h : Classified result limit length document distinct label value)
    (h' : Classified result' limit length' document' distinct label value)
    (hlimit : limit < length ↔ limit < length')
    (honly : ∀ z, document z → z = x) (honly' : ∀ z, document' z → z = y)
    (hdocument : document x ↔ document' y) (hdistinct : distinct x ↔ distinct y)
    (hvalue : distinct x → ∀ v w, value x v → value y w → r v w) : Alike r result result' := by
  by_cases hlong : limit < length
  · rw [h.tooLong.2 hlong, h'.tooLong.2 (hlimit.1 hlong)]
    exact .error rfl rfl
  have hshort : length ≤ limit := Nat.le_of_not_lt hlong
  have hshort' : length' ≤ limit := Nat.le_of_not_lt fun hlong' => hlong (hlimit.2 hlong')
  by_cases hx : document x
  · have hy := hdocument.1 hx
    by_cases hdist : distinct x
    · obtain ⟨v, hv⟩ := h.read.2 ⟨hshort, x, hx, hdist⟩
      obtain ⟨w, hw⟩ := h'.read.2 ⟨hshort', y, hy, hdistinct.1 hdist⟩
      obtain ⟨x', hx', -, hxv⟩ := h.holds v hv
      obtain ⟨y', hy', -, hyw⟩ := h'.holds w hw
      obtain rfl := honly x' hx'
      obtain rfl := honly' y' hy'
      rw [hv, hw]
      exact .ok (hvalue hdist v w hxv hyw)
    · obtain ⟨key, hkey⟩ := h.repeated.2 ⟨hshort, x, hx, hdist⟩
      obtain ⟨key', hkey'⟩ := h'.repeated.2 ⟨hshort', y, hy, mt hdistinct.2 hdist⟩
      rw [hkey, hkey']
      exact .error rfl rfl
  · have hnone : ¬ ∃ z, document z := by
      rintro ⟨z, hz⟩
      exact hx (honly z hz ▸ hz)
    have hnone' : ¬ ∃ z, document' z := by
      rintro ⟨z, hz⟩
      exact hx (hdocument.2 (honly' z hz ▸ hz))
    rw [h.malformed.2 ⟨hshort, hnone⟩, h'.malformed.2 ⟨hshort', hnone'⟩]
    exact .error rfl rfl

/-- Reordered documents are refused alike, or their raw values look the same. -/
theorem Format.Reordered.alike_ofDocument {f : Format} {bytes bytes' : List UInt8}
    (h : f.Reordered bytes bytes') {config : Config}
    (hlimit : config.maxInputBytes < bytes.length ↔ config.maxInputBytes < bytes'.length) :
    Alike f.Like (f.ofDocument config bytes) (f.ofDocument config bytes') := by
  cases f with
  | cbor =>
    obtain ⟨x, y, hx, hy, hshuffled⟩ := h
    refine (Cbor.classified_ofBytes _ bytes).alike (Cbor.classified_ofBytes _ bytes') hlimit
      (fun z hz => (hz.1.unique hx).1) (fun z hz => (hz.1.unique hy).1) ?_
      hshuffled.isDistinct_iff ?_
    · rw [Cbor.ReadableDocument, Cbor.ReadableDocument, hshuffled.depth_eq]
      exact and_congr_left fun _ => iff_of_true hx hy
    · rintro hdistinct _ _ rfl rfl
      exact hshuffled.like hdistinct
  | json =>
    obtain ⟨v, w, hv, hw, hshuffled⟩ := h
    refine (Json.classified_ofBytes _ bytes).alike (Json.classified_ofBytes _ bytes') hlimit
      (fun z hz => hz.1.unique hv) (fun z hz => hz.1.unique hw) ?_ hshuffled.isDistinct_iff ?_
    · rw [Json.ReadableDocument, Json.ReadableDocument, hshuffled.depth_eq]
      exact and_congr_left fun _ => iff_of_true hv hw
    · rintro hdistinct _ _ rfl rfl
      exact hshuffled.like hdistinct

/-! ## Sessions -/

namespace Session

variable {s : Session} {f : Format} {bytes bytes' : List UInt8}

theorem alike_parse (h : f.Reordered bytes bytes')
    (hlimit : s.config.maxInputBytes < bytes.length ↔ s.config.maxInputBytes < bytes'.length) :
    Alike f.Like (s.parse f bytes) (s.parse f bytes') :=
  (h.alike_ofDocument hlimit).ofWire.lift

theorem alike_decodeComid (hcatalogs : s.catalogs.Indifferent) (h : f.Reordered bytes bytes')
    (hlimit : s.config.maxInputBytes < bytes.length ↔ s.config.maxInputBytes < bytes'.length)
    (id : Option ProfileId) : Alike Eq (s.decodeComid f id bytes) (s.decodeComid f id bytes') := by
  have hcontext : (s.context id).catalogs.Indifferent := hcatalogs
  refine (Alike.same (s.build id : Except Error Comid)).bind_eq fun root => ?_
  refine (alike_parse h hlimit).bind fun v w hlike => ?_
  exact (Comid.alike_decodeAttached hcontext hlike root).lift

/-- The profile that a manifest declares, found in its bytes without reading the rest. -/
def declaredProfile (s : Session) (f : Format) (bytes : List UInt8) :
    Except Error (Option ProfileId) :=
  (s.parse f bytes).bind fun v => Error.lift .record (Corim.declaredProfile f (s.context none) v)

theorem alike_declaredProfile (hcatalogs : s.catalogs.Indifferent)
    (h : f.Reordered bytes bytes')
    (hlimit : s.config.maxInputBytes < bytes.length ↔ s.config.maxInputBytes < bytes'.length) :
    Alike Eq (s.declaredProfile f bytes) (s.declaredProfile f bytes') := by
  have hcontext : (s.context none).catalogs.Indifferent := hcatalogs
  exact (alike_parse h hlimit).bind fun v w hlike =>
    (Corim.alike_declaredProfile hcontext hlike).lift

/-- The profile that is found, and so the hooks that are attached, are the same. -/
theorem alike_decodeCorim (hcatalogs : s.catalogs.Indifferent) (h : f.Reordered bytes bytes')
    (hlimit : s.config.maxInputBytes < bytes.length ↔ s.config.maxInputBytes < bytes'.length) :
    Alike Eq (s.decodeCorim f bytes) (s.decodeCorim f bytes') := by
  have hcontext : ∀ id, (s.context id).catalogs.Indifferent := fun _ => hcatalogs
  rw [decodeCorim_eq, decodeCorim_eq]
  refine (alike_parse h hlimit).bind fun v w hlike => ?_
  refine (Corim.alike_declaredProfile (hcontext none) hlike).lift.bind_eq fun profile => ?_
  refine (Alike.same (s.build profile : Except Error Corim)).bind_eq fun root => ?_
  exact (Corim.alike_decodeAttached (hcontext profile) hlike root).lift

/-- Raw values that differ in their order only are read alike into every document, whatever hooks it
has, and so are bytes.  The standard catalogs are among those of which this holds. -/
theorem order_never_matters :
    Catalogs.standard.Indifferent ∧
      (∀ (f : Format) (cx : Context) (v w : Raw f), cx.catalogs.Indifferent → f.Rearranged v w →
        (∀ root : Comid, Alike Eq (comidShape.decodeAttached f cx root v)
          (comidShape.decodeAttached f cx root w)) ∧
        (∀ root : Corim, Alike Eq (corimShape.decodeAttached f cx root v)
          (corimShape.decodeAttached f cx root w)) ∧
        Alike Eq (Corim.declaredProfile f cx v) (Corim.declaredProfile f cx w)) ∧
      ∀ (s : Session) (f : Format) (bytes bytes' : List UInt8), s.catalogs.Indifferent →
        f.Reordered bytes bytes' →
        (s.config.maxInputBytes < bytes.length ↔ s.config.maxInputBytes < bytes'.length) →
        (∀ id, Alike Eq (s.decodeComid f id bytes) (s.decodeComid f id bytes')) ∧
        Alike Eq (s.decodeCorim f bytes) (s.decodeCorim f bytes') ∧
        Alike Eq (s.declaredProfile f bytes) (s.declaredProfile f bytes') := by
  refine ⟨Catalogs.indifferent_standard, ?_, ?_⟩
  · intro f cx v w hcatalogs h
    exact ⟨Comid.alike_decodeAttached hcatalogs h.like, Corim.alike_decodeAttached hcatalogs h.like,
      Corim.alike_declaredProfile hcatalogs h.like⟩
  · intro s f bytes bytes' hcatalogs h hlimit
    exact ⟨alike_decodeComid hcatalogs h hlimit, alike_decodeCorim hcatalogs h hlimit,
      alike_declaredProfile hcatalogs h hlimit⟩

/-- A manifest with a profile and an entity, the members of both in the order they are written. -/
def hookedItem : Cbor :=
  .map [(.int 0, .text "m"), (.int 1, .array [.tag 506 (.bytes [0])]),
    (.int 3, .tag 111 (.bytes [136, 55, 3])),
    (.int 5, .array [.map [(.int 0, .text "ACME"), (.int 2, .array [.int 1])]])]

/-- The same manifest with the profile before the rest, and the roles of the entity before its
name. -/
def profileFirstItem : Cbor :=
  .map [(.int 3, .tag 111 (.bytes [136, 55, 3])), (.int 0, .text "m"),
    (.int 1, .array [.tag 506 (.bytes [0])]),
    (.int 5, .array [.map [(.int 2, .array [.int 1]), (.int 0, .text "ACME")]])]

/-- The bytes of that manifest. -/
def profileFirstBytes : List UInt8 :=
  [164, 3, 216, 111, 67, 136, 55, 3, 0, 97, 109, 1, 129, 217, 1, 250, 65, 0,
    5, 129, 162, 2, 129, 1, 0, 100, 65, 67, 77, 69]

theorem reordered_profileFirstBytes : Format.Reordered .cbor hookedBytes profileFirstBytes := by
  refine ⟨hookedItem, profileFirstItem, ?_, ?_, ?_⟩
  · exact (Cbor.parse?_eq_some_iff.1 rfl).1
  · exact (Cbor.parse?_eq_some_iff.1 rfl).1
  · have hentity : Cbor.Shuffled (.map [(.int 0, .text "ACME"), (.int 2, .array [.int 1])])
        (.map [(.int 2, .array [.int 1]), (.int 0, .text "ACME")]) :=
      .entries (List.Perm.swap _ _ _)
    have hentities := Cbor.Shuffled.item [] [] hentity
    refine (Cbor.Shuffled.value [_, _, _] [] (.int 5) hentities).trans (.entries ?_)
    exact .trans (.cons _ (.swap _ _ _)) (.swap _ _ _)

theorem order_never_matters_profileFirst :
    (∃ c, c.hook.isSome = true ∧ hookedSession.decodeCorim .cbor hookedBytes = .ok c ∧
      hookedSession.decodeCorim .cbor profileFirstBytes = .ok c) ∧
    Alike Eq
      (comidShape.decodeAttached .json (hookedSession.context none) default
        (.object [("lang", .bool true), ("triples", .null)]))
      (comidShape.decodeAttached .json (hookedSession.context none) default
        (.object [("triples", .null), ("lang", .bool true)])) := by
  obtain ⟨hstandard, hvalues, hbytes⟩ := order_never_matters
  constructor
  · obtain ⟨c, hc, hhook⟩ := exists_of_any_toOption
      (show (hookedSession.decodeCorim .cbor hookedBytes).toOption.any (·.hook.isSome) = true by
        decide +kernel)
    have hsize : hookedBytes.length = profileFirstBytes.length := rfl
    obtain ⟨-, hdecode, -⟩ := hbytes hookedSession .cbor hookedBytes profileFirstBytes hstandard
      reordered_profileFirstBytes (by rw [hsize])
    exact ⟨c, hhook, hc, hdecode.eq_ok hc⟩
  · refine (hvalues .json (hookedSession.context none) _ _ hstandard ⟨?_, ?_⟩).1 default
    · exact Json.firstRepeat?_eq_none_iff.1 rfl
    · exact .members (List.Perm.swap _ _ _)

end Session

end Rim
